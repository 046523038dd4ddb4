import InferenceLedger.Foundation.BigEndian

namespace Foundation

/-!
# Positional numerals

A list of digits denotes a number, most significant digit first.  Among lists of
the same length the number determines the digits, and comparing the numbers is
comparing the lists lexicographically.  A digit of a square base is two digits of
the base, so bytes can be read in halves.

Mathlib keeps the least significant digit first; what it proves there is used
here through `List.reverse`.
-/

section Numerals

variable {base : Nat}

/-- The number that the digits denote. -/
def numeral (base : Nat) (digits : List Nat) : Nat := Nat.ofDigits base digits.reverse

@[simp] theorem numeral_nil : numeral base [] = 0 := rfl

theorem numeral_append (front back : List Nat) :
    numeral base (front ++ back) = numeral base front * base ^ back.length + numeral base back := by
  rw [numeral, List.reverse_append, Nat.ofDigits_append, List.length_reverse, numeral, numeral,
    Nat.add_comm, Nat.mul_comm]

theorem numeral_cons (digit : Nat) (rest : List Nat) :
    numeral base (digit :: rest) = digit * base ^ rest.length + numeral base rest := by
  have single : numeral base [digit] = digit := Nat.ofDigits_singleton
  rw [← List.singleton_append, numeral_append, single]

theorem numeral_lt (large : 1 < base) {digits : List Nat} (small : ∀ digit ∈ digits, digit < base) :
    numeral base digits < base ^ digits.length := by
  rw [← List.length_reverse]
  apply Nat.ofDigits_lt_base_pow_length large
  intro digit member
  exact small digit (List.mem_reverse.mp member)

/-- Numbers with equally many digits have the same digits. -/
theorem numeral_injective (large : 1 < base) {left right : List Nat}
    (leftSmall : ∀ digit ∈ left, digit < base) (rightSmall : ∀ digit ∈ right, digit < base)
    (length : left.length = right.length) (same : numeral base left = numeral base right) :
    left = right := by
  apply List.reverse_injective
  apply Nat.ofDigits_inj_of_len_eq large
  · rw [List.length_reverse, List.length_reverse, length]
  · exact fun digit member => leftSmall digit (List.mem_reverse.mp member)
  · exact fun digit member => rightSmall digit (List.mem_reverse.mp member)
  · exact same

/-- A larger leading digit outweighs everything below it. -/
theorem leading_lt {first second unit low : Nat} (less : first < second) (small : low < unit)
    (high : Nat) : first * unit + low < second * unit + high := by
  calc
    first * unit + low < (first + 1) * unit := by
      rw [Nat.add_mul, Nat.one_mul]
      exact Nat.add_lt_add_left small _
    _ ≤ second * unit := Nat.mul_le_mul_right unit less
    _ ≤ second * unit + high := Nat.le_add_right _ _

/-- Numbers are compared by their leading digits and then by the rest. -/
theorem compare_leading {first second unit low high : Nat} (lowSmall : low < unit)
    (highSmall : high < unit) :
    compare (first * unit + low) (second * unit + high) =
      (compare first second).then (compare low high) := by
  rcases Nat.lt_trichotomy first second with less | same | greater
  · rw [Nat.compare_eq_lt.mpr (leading_lt less lowSmall high), Nat.compare_eq_lt.mpr less,
      Ordering.lt_then]
  · subst same
    rw [Nat.compare_eq_eq.mpr rfl, Ordering.eq_then]
    simp only [Nat.compare_eq_ite_lt, Nat.add_lt_add_iff_left]
  · rw [Nat.compare_eq_gt.mpr (leading_lt greater highSmall low), Nat.compare_eq_gt.mpr greater,
      Ordering.gt_then]

/-- The lexicographic order of equally many digits is the order of the numbers. -/
theorem compare_numeral (large : 1 < base) {left right : List Nat}
    (leftSmall : ∀ digit ∈ left, digit < base) (rightSmall : ∀ digit ∈ right, digit < base)
    (length : left.length = right.length) :
    compare left right = compare (numeral base left) (numeral base right) := by
  induction left generalizing right with
  | nil =>
      cases right with
      | nil => rfl
      | cons digit rest => cases length
  | cons first left ih =>
      cases right with
      | nil => cases length
      | cons second right =>
          have tails : left.length = right.length := Nat.succ_inj.mp length
          have leftTail : ∀ digit ∈ left, digit < base :=
            fun digit member => leftSmall digit (List.mem_cons_of_mem _ member)
          have rightTail : ∀ digit ∈ right, digit < base :=
            fun digit member => rightSmall digit (List.mem_cons_of_mem _ member)
          have rightBound : numeral base right < base ^ left.length := by
            rw [tails]
            exact numeral_lt large rightTail
          rw [List.compare_cons_cons, ih leftTail rightTail tails, numeral_cons, numeral_cons,
            ← tails, compare_leading (numeral_lt large leftTail) rightBound]

/-- A digit of a square base is two digits of the base. -/
theorem numeral_pairs (digits : List Nat) :
    numeral (base * base) digits =
      numeral base (digits.flatMap fun digit => [digit / base, digit % base]) := by
  induction digits with
  | nil => rfl
  | cons digit rest ih =>
      have length : (rest.flatMap fun digit => [digit / base, digit % base]).length =
          2 * rest.length := by
        simp only [List.length_flatMap, List.length_cons, List.length_nil, List.map_const',
          List.sum_replicate, smul_eq_mul]
        exact Nat.mul_comm _ _
      have pair : numeral base [digit / base, digit % base] = digit := by
        rw [numeral_cons, numeral_cons, numeral_nil]
        simp only [List.length_cons, List.length_nil, Nat.pow_zero, Nat.pow_one, Nat.mul_one,
          Nat.zero_add, Nat.add_zero]
        exact Nat.div_add_mod' digit base
      rw [List.flatMap_cons, numeral_append, pair, length, ← ih, numeral_cons, Nat.pow_mul,
        Nat.pow_two]

end Numerals

/-- Renaming the letters in an order-preserving way keeps the order of the words. -/
theorem compare_map {α β : Type*} [Ord α] [Ord β] {rename : α → β} {left right : List α}
    (keeps : ∀ first ∈ left, ∀ second ∈ right,
      compare (rename first) (rename second) = compare first second) :
    compare (left.map rename) (right.map rename) = compare left right := by
  induction left generalizing right with
  | nil => cases right <;> rfl
  | cons first left ih =>
      cases right with
      | nil => rfl
      | cons second right =>
          have tails := ih fun first leftMember second rightMember =>
            keeps first (List.mem_cons_of_mem _ leftMember) second
              (List.mem_cons_of_mem _ rightMember)
          rw [List.map_cons, List.map_cons, List.compare_cons_cons, List.compare_cons_cons, tails,
            keeps first List.mem_cons_self second List.mem_cons_self]

theorem compare_toNat_byte (left right : UInt8) :
    compare left.toNat right.toNat = compare left right := by
  rcases Nat.lt_trichotomy left.toNat right.toNat with less | same | greater
  · rw [Nat.compare_eq_lt.mpr less]
    exact (Std.compare_eq_lt.mpr (UInt8.lt_iff_toNat_lt.mpr less)).symm
  · rw [UInt8.toNat_inj.mp same, Std.compare_self, Std.compare_self]
  · rw [Nat.compare_eq_gt.mpr greater]
    exact (Std.compare_eq_gt.mpr (UInt8.lt_iff_toNat_lt.mpr greater)).symm

theorem bigEndianValue_eq_numeral (bytes : List UInt8) :
    bigEndianValue bytes = numeral 256 (bytes.map UInt8.toNat) := by
  induction bytes with
  | nil => rfl
  | cons byte rest ih => rw [List.map_cons, numeral_cons, List.length_map, ← ih, bigEndianValue]

/-- A half byte that is joined to a word with nothing at its place is added. -/
theorem toNat_or_half {word half : UInt64} {place : Nat} (inside : place < 16)
    (clear : 16 ^ (place + 1) ∣ word.toNat) (small : half.toNat < 16) :
    (word ||| half <<< UInt64.ofNat (4 * place)).toNat = word.toNat + half.toNat * 16 ^ place := by
  have powers : ∀ count, 16 ^ count = 2 ^ (4 * count) := fun count => (Nat.pow_mul 2 4 count).symm
  have below : half.toNat * 16 ^ place < 16 ^ (place + 1) := by
    rw [Nat.pow_succ, Nat.mul_comm (16 ^ place)]
    exact Nat.mul_lt_mul_of_pos_right small (by positivity)
  have noWrap : half.toNat * 16 ^ place < 2 ^ 64 :=
    Nat.lt_of_lt_of_le below (Nat.pow_le_pow_right (by decide) inside)
  have amount : (UInt64.ofNat (4 * place)).toNat % 64 = 4 * place := by
    rw [UInt64.toNat_ofNat']
    omega
  rcases clear with ⟨high, split⟩
  rw [powers place] at below noWrap ⊢
  rw [powers (place + 1)] at below split
  rw [UInt64.toNat_or, UInt64.toNat_shiftLeft, amount, Nat.shiftLeft_eq, Nat.mod_eq_of_lt noWrap,
    split, Nat.two_pow_add_eq_or_of_lt below]

end Foundation
