import Mathlib

namespace Foundation

/-!
# The lowest bit in which two words differ

Two words are the same if they differ in no bit, and otherwise there is a
lowest bit in which they differ.  Addition, exclusive or and multiplication by
an odd constant never look at higher bits to determine a lower one, so each of
them keeps the place of that bit; a shift to the right moves it.  To see that a
chain of such operations does not lose a difference, it is enough to follow the
place of the lowest bit.

`AgreeBelow k` says that the lowest `k` bits are the same, and
`FirstDiffersAt d` that the lowest difference is at bit `d`.
-/

variable {w : Nat}

/-- The lowest bits of the two words are the same. -/
def AgreeBelow (count : Nat) (left right : BitVec w) : Prop :=
  left.toNat % 2 ^ count = right.toNat % 2 ^ count

/-- The lowest bit in which the two words differ. -/
structure FirstDiffersAt (place : Nat) (left right : BitVec w) : Prop where
  agree : AgreeBelow place left right
  differ : ¬ AgreeBelow (place + 1) left right

instance (count : Nat) (left right : BitVec w) : Decidable (AgreeBelow count left right) :=
  inferInstanceAs (Decidable (_ = _))

instance (place : Nat) (left right : BitVec w) : Decidable (FirstDiffersAt place left right) :=
  decidable_of_iff (AgreeBelow place left right ∧ ¬ AgreeBelow (place + 1) left right)
    ⟨fun both => ⟨both.1, both.2⟩, fun first => ⟨first.agree, first.differ⟩⟩

section Agreement

variable {count fewer : Nat} {x y u v : BitVec w}

theorem AgreeBelow.of_eq (same : x = y) : AgreeBelow count x y := by
  rw [same]
  rfl

theorem AgreeBelow.mono (agree : AgreeBelow count x y) (le : fewer ≤ count) :
    AgreeBelow fewer x y := by
  have divides : 2 ^ fewer ∣ 2 ^ count := Nat.pow_dvd_pow 2 le
  rw [AgreeBelow, ← Nat.mod_mod_of_dvd x.toNat divides, ← Nat.mod_mod_of_dvd y.toNat divides,
    show x.toNat % 2 ^ count = y.toNat % 2 ^ count from agree]

/-- Words that agree in all their bits are the same. -/
theorem AgreeBelow.eq (agree : AgreeBelow count x y) (all : w ≤ count) : x = y := by
  have whole : x.toNat % 2 ^ w = y.toNat % 2 ^ w := agree.mono all
  rw [Nat.mod_eq_of_lt x.isLt, Nat.mod_eq_of_lt y.isLt] at whole
  exact BitVec.eq_of_toNat_eq whole

theorem AgreeBelow.xor (agree : AgreeBelow count x y) (others : AgreeBelow count u v) :
    AgreeBelow count (x ^^^ u) (y ^^^ v) := by
  rw [AgreeBelow] at agree others ⊢
  rw [BitVec.toNat_xor, BitVec.toNat_xor, Nat.xor_mod_two_pow, Nat.xor_mod_two_pow, agree, others]

theorem AgreeBelow.of_xor (agree : AgreeBelow count (x ^^^ u) (y ^^^ v))
    (others : AgreeBelow count u v) : AgreeBelow count x y := by
  have again := agree.xor others
  rwa [BitVec.xor_assoc, BitVec.xor_assoc, BitVec.xor_self, BitVec.xor_self, BitVec.xor_zero,
    BitVec.xor_zero] at again

/-- The low bits of a word that is reduced to its width. -/
theorem mod_width (value : Nat) (le : count ≤ w) : value % 2 ^ w % 2 ^ count = value % 2 ^ count :=
  Nat.mod_mod_of_dvd value (Nat.pow_dvd_pow 2 le)

theorem agreeBelow_add_iff (le : count ≤ w) (others : AgreeBelow count u v) :
    AgreeBelow count (x + u) (y + v) ↔ AgreeBelow count x y := by
  rw [AgreeBelow, BitVec.toNat_add, BitVec.toNat_add, mod_width _ le, mod_width _ le]
  constructor
  · intro sums
    exact Nat.ModEq.add_right_cancel others sums
  · intro agree
    exact Nat.ModEq.add agree others

theorem agreeBelow_mul_iff (le : count ≤ w) (odd : u.toNat % 2 = 1) :
    AgreeBelow count (x * u) (y * u) ↔ AgreeBelow count x y := by
  have coprime : Nat.gcd (2 ^ count) u.toNat = 1 :=
    Nat.Coprime.pow_left count (Nat.coprime_two_left.mpr (Nat.odd_iff.mpr odd))
  rw [AgreeBelow, BitVec.toNat_mul, BitVec.toNat_mul, mod_width _ le, mod_width _ le]
  constructor
  · intro products
    exact Nat.ModEq.cancel_right_of_coprime coprime products
  · intro agree
    exact Nat.ModEq.mul_right u.toNat agree

theorem AgreeBelow.shiftLeft (agree : AgreeBelow count x y) (le : count ≤ w) (places : Nat) :
    AgreeBelow count (x <<< places) (y <<< places) := by
  rw [AgreeBelow, BitVec.toNat_shiftLeft, BitVec.toNat_shiftLeft, mod_width _ le, mod_width _ le,
    Nat.shiftLeft_eq, Nat.shiftLeft_eq]
  exact Nat.ModEq.mul_right (2 ^ places) agree

/-- Shifted to the right, the words lose the bits that they shift out. -/
theorem agreeBelow_shiftRight_iff (places : Nat) (lost : AgreeBelow places x y) :
    AgreeBelow count (x >>> places) (y >>> places) ↔ AgreeBelow (places + count) x y := by
  rw [AgreeBelow] at lost
  rw [AgreeBelow, AgreeBelow, BitVec.toNat_ushiftRight, BitVec.toNat_ushiftRight,
    Nat.shiftRight_eq_div_pow, Nat.shiftRight_eq_div_pow, Nat.pow_add, Nat.mod_mul, Nat.mod_mul,
    lost, Nat.add_left_cancel_iff]
  exact (Nat.mul_right_inj (by positivity)).symm

end Agreement

namespace FirstDiffersAt

variable {place : Nat} {x y u v : BitVec w}

theorem ne (first : FirstDiffersAt place x y) : x ≠ y :=
  fun same => first.differ (.of_eq same)

theorem lt_width (first : FirstDiffersAt place x y) : place < w := by
  by_contra outside
  exact first.ne (first.agree.eq (Nat.le_of_not_lt outside))

/-- Two different words have a lowest difference. -/
theorem exists_of_ne (different : x ≠ y) : ∃ place, FirstDiffersAt place x y := by
  by_contra never
  have agree : ∀ count, AgreeBelow count x y := by
    intro count
    induction count with
    | zero => simp [AgreeBelow, Nat.mod_one]
    | succ count ih =>
        by_contra differ
        exact never ⟨count, ih, differ⟩
  exact different ((agree w).eq (Nat.le_refl w))

theorem xor (first : FirstDiffersAt place x y) (others : AgreeBelow (place + 1) u v) :
    FirstDiffersAt place (x ^^^ u) (y ^^^ v) where
  agree := first.agree.xor (others.mono (Nat.le_succ place))
  differ := fun agree => first.differ (agree.of_xor others)

theorem add (first : FirstDiffersAt place x y) (others : AgreeBelow (place + 1) u v) :
    FirstDiffersAt place (x + u) (y + v) where
  agree := (agreeBelow_add_iff (Nat.le_of_lt first.lt_width)
    (others.mono (Nat.le_succ place))).mpr first.agree
  differ := fun agree => first.differ ((agreeBelow_add_iff first.lt_width others).mp agree)

theorem mul_odd (first : FirstDiffersAt place x y) (odd : u.toNat % 2 = 1) :
    FirstDiffersAt place (x * u) (y * u) where
  agree := (agreeBelow_mul_iff (Nat.le_of_lt first.lt_width) odd).mpr first.agree
  differ := fun agree => first.differ ((agreeBelow_mul_iff first.lt_width odd).mp agree)

theorem shiftRight {places : Nat} (first : FirstDiffersAt (places + place) x y) :
    FirstDiffersAt place (x >>> places) (y >>> places) := by
  have lost : AgreeBelow places x y := first.agree.mono (Nat.le_add_right places place)
  exact ⟨(agreeBelow_shiftRight_iff places lost).mpr first.agree,
    fun agree => first.differ ((agreeBelow_shiftRight_iff places lost).mp agree)⟩

end FirstDiffersAt

end Foundation
