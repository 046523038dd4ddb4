import InferenceLedger.Foundation.SingleChanges

namespace Foundation

namespace Crc

/-!
# Reflected cyclic redundancy checks

A reflected check keeps a register, shifts it right bit by bit, and folds the
polynomial in whenever a one is shifted out.  Everything that is known about it
comes from two facts.  The step is additive for exclusive or, so the effect of a
difference does not depend on the register; and it is injective when the highest
bit of the polynomial is set, because that bit shows whether the polynomial was
folded in.

A message that is no wider than the register can be folded into it at once and
shifted afterwards.  Two messages of one length that differ inside a window of
that width therefore never leave the same register, whatever precedes and
follows the window.
-/

variable {width : Nat} (poly : BitVec width)

/-- Shift out one bit, and fold the polynomial in if it was a one. -/
def step (register : BitVec width) : BitVec width :=
  (register >>> 1) ^^^ (if register.getLsbD 0 then poly else 0)

def steps : Nat → BitVec width → BitVec width
  | 0, register => register
  | count + 1, register => steps count (step poly register)

/-- Take one byte into the register. -/
def absorb (register : BitVec width) (byte : BitVec 8) : BitVec width :=
  steps poly 8 (register ^^^ byte.setWidth width)

/-! ## Additivity and injectivity -/

theorem step_xor (left right : BitVec width) :
    step poly (left ^^^ right) = step poly left ^^^ step poly right := by
  have shifted : (left ^^^ right) >>> 1 = (left >>> 1) ^^^ (right >>> 1) :=
    BitVec.ushiftRight_xor_distrib left right 1
  have folded : (if (left ^^^ right).getLsbD 0 then poly else 0) =
      (if left.getLsbD 0 then poly else 0) ^^^ (if right.getLsbD 0 then poly else 0) := by
    rw [BitVec.getLsbD_xor]
    cases left.getLsbD 0 <;> cases right.getLsbD 0 <;> simp
  rw [step, step, step, shifted, folded]
  ac_rfl

theorem steps_xor (count : Nat) (left right : BitVec width) :
    steps poly count (left ^^^ right) = steps poly count left ^^^ steps poly count right := by
  induction count generalizing left right with
  | zero => rfl
  | succ count ih => rw [steps, steps, steps, step_xor, ih]

theorem steps_add (first second : Nat) (register : BitVec width) :
    steps poly (first + second) register = steps poly second (steps poly first register) := by
  induction first generalizing register with
  | zero => rw [Nat.zero_add, steps]
  | succ first ih => rw [Nat.succ_add, steps, steps, ih]

variable {poly}

/-- Only the zero register steps to zero. -/
theorem eq_zero_of_step (top : poly.msb = true) {register : BitVec width}
    (zero : step poly register = 0) : register = 0 := by
  have shifted : register >>> 1 = if register.getLsbD 0 then poly else 0 :=
    BitVec.xor_eq_zero_iff.mp zero
  have low : register.getLsbD 0 = false := by
    by_contra odd
    rw [Bool.not_eq_false] at odd
    rw [odd, if_pos rfl] at shifted
    -- A shifted register has a clear highest bit.
    rw [← shifted, BitVec.msb_ushiftRight] at top
    simp at top
  rw [low] at shifted
  apply BitVec.eq_of_getLsbD_eq
  intro index _
  cases index with
  | zero => simp [low]
  | succ index =>
      have bit := congrArg (fun word => BitVec.getLsbD word index) shifted
      simpa [BitVec.getLsbD_ushiftRight, Nat.add_comm] using bit

theorem step_injective (top : poly.msb = true) : Function.Injective (step poly) := by
  intro left right same
  apply BitVec.xor_eq_zero_iff.mp
  apply eq_zero_of_step top
  rw [step_xor, same, BitVec.xor_self]
  rfl

theorem steps_injective (top : poly.msb = true) (count : Nat) :
    Function.Injective (steps poly count) := by
  induction count with
  | zero => exact fun _ _ same => same
  | succ count ih => exact fun _ _ same => step_injective top (ih same)

theorem absorb_injective (top : poly.msb = true) (byte : BitVec 8) :
    Function.Injective (fun register => absorb poly register byte) := by
  intro left right same
  exact (BitVec.xor_left_inj _).mp (steps_injective top 8 same)

/-- Different registers stay different when the same bytes follow. -/
theorem foldl_absorb_injective (top : poly.msb = true) (bytes : List (BitVec 8)) :
    Function.Injective (fun register => bytes.foldl (absorb poly) register) :=
  foldl_injective (absorb_injective top) bytes

/-! ## Windows no wider than the register -/

/-- All bits from `bound` on are clear. -/
def Below (bound : Nat) (word : BitVec width) : Prop :=
  ∀ index, bound ≤ index → word.getLsbD index = false

/-- A word that was only moved up comes back by as many steps. -/
theorem steps_shiftLeft (poly : BitVec width) {count : Nat} {word : BitVec width}
    (below : Below (width - count) word) : steps poly count (word <<< count) = word := by
  induction count with
  | zero => simp [steps]
  | succ count ih =>
      have low : (word <<< (count + 1)).getLsbD 0 = false := by simp
      have moved : step poly (word <<< (count + 1)) = word <<< count := by
        rw [step, low]
        apply BitVec.eq_of_getLsbD_eq
        intro index inside
        by_cases last : index = width - 1
        · have clear : word.getLsbD (index - count) = false := below _ (by omega)
          have outside : ¬ 1 + index < width := by omega
          simp [clear, outside]
        · have next : 1 + index < width := by omega
          have gap : 1 + index - (count + 1) = index - count := by omega
          have order : (1 + index < count + 1) = (index < count) := by
            rw [Nat.add_comm 1, Nat.add_lt_add_iff_right]
          simp [next, inside, gap, order]
      rw [steps, moved]
      exact ih fun index above => below index (by omega)

/-- The bytes of a window side by side, the first one lowest. -/
def pack : List (BitVec 8) → BitVec width
  | [] => 0
  | byte :: rest => byte.setWidth width ^^^ (pack rest <<< 8)

theorem getLsbD_pack_cons (byte : BitVec 8) (rest : List (BitVec 8)) (index : Nat) :
    (pack (byte :: rest) : BitVec width).getLsbD index =
      (decide (index < width) &&
        if index < 8 then byte.getLsbD index else (pack rest : BitVec width).getLsbD (index - 8)) := by
  rw [pack, BitVec.getLsbD_xor, BitVec.getLsbD_setWidth, BitVec.getLsbD_shiftLeft]
  by_cases low : index < 8
  · simp [low]
  · rw [BitVec.getLsbD_of_ge byte index (Nat.le_of_not_lt low)]
    simp [low]

theorem below_pack (bytes : List (BitVec 8)) :
    Below (8 * bytes.length) (pack bytes : BitVec width) := by
  induction bytes with
  | nil =>
      intro index _
      simp [pack]
  | cons byte rest ih =>
      intro index above
      rw [List.length_cons] at above
      have high : ¬ index < 8 := by omega
      rw [getLsbD_pack_cons, if_neg high, ih (index - 8) (by omega), Bool.and_false]

theorem pack_injective {first second : List (BitVec 8)} (same : first.length = second.length)
    (fits : 8 * first.length ≤ width)
    (packed : (pack first : BitVec width) = pack second) : first = second := by
  induction first generalizing second with
  | nil => exact (List.length_eq_zero_iff.mp same.symm).symm
  | cons byte rest ih =>
      cases second with
      | nil => cases same
      | cons other others =>
          rw [List.length_cons] at fits
          have bits : ∀ index < width, (if index < 8 then byte.getLsbD index
              else (pack rest : BitVec width).getLsbD (index - 8)) =
              if index < 8 then other.getLsbD index
              else (pack others : BitVec width).getLsbD (index - 8) := by
            intro index inside
            have bit := congrArg (fun word => BitVec.getLsbD word index) packed
            simpa only [getLsbD_pack_cons, inside, decide_true, Bool.true_and] using bit
          have heads : byte = other := by
            apply BitVec.eq_of_getLsbD_eq
            intro index low
            simpa only [if_pos low] using bits index (by omega)
          have tails : (pack rest : BitVec width) = pack others := by
            apply BitVec.eq_of_getLsbD_eq
            intro index inside
            by_cases high : index + 8 < width
            · simpa using bits (index + 8) high
            · have lengths : rest.length = others.length := Nat.succ.inj same
              rw [below_pack rest index (by omega), below_pack others index (by omega)]
          rw [heads, ih (Nat.succ.inj same) (by omega) tails]

/-- A window that fits the register is folded in at once. -/
theorem foldl_absorb_eq (poly register : BitVec width) {bytes : List (BitVec 8)}
    (fits : 8 * bytes.length ≤ width) :
    bytes.foldl (absorb poly) register = steps poly (8 * bytes.length) (register ^^^ pack bytes) := by
  induction bytes generalizing register with
  | nil => simp [pack, steps]
  | cons byte rest ih =>
      rw [List.length_cons] at fits
      have below : Below (width - 8) (pack rest : BitVec width) := fun index above =>
        below_pack rest index (by omega)
      have together : absorb poly register byte ^^^ pack rest =
          steps poly 8 (register ^^^ pack (byte :: rest)) := by
        rw [absorb, pack, ← BitVec.xor_assoc, steps_xor poly 8 _ (pack rest <<< 8),
          steps_shiftLeft poly below]
      rw [List.foldl_cons, ih (absorb poly register byte) (by omega), together, ← steps_add,
        List.length_cons, Nat.mul_succ, Nat.add_comm]

/-- Two messages that differ inside one window no wider than the register leave
different registers. -/
theorem foldl_absorb_ne_of_window {poly : BitVec width} (top : poly.msb = true)
    (register : BitVec width) (front back : List (BitVec 8)) {window altered : List (BitVec 8)}
    (same : altered.length = window.length) (fits : 8 * window.length ≤ width)
    (different : altered ≠ window) :
    (front ++ altered ++ back).foldl (absorb poly) register ≠
      (front ++ window ++ back).foldl (absorb poly) register := by
  intro equal
  simp only [List.foldl_append] at equal
  have inside := foldl_absorb_injective top back equal
  rw [foldl_absorb_eq _ _ (same ▸ fits), foldl_absorb_eq _ _ fits, same] at inside
  have packed := (BitVec.xor_right_inj _).mp (steps_injective top _ inside)
  exact different (pack_injective same (same ▸ fits) packed)

end Crc

end Foundation
