import Mathlib

namespace Foundation

/-!
# Binary64 words

A double is kept as its 64-bit pattern.  That is what a codec copies, and it
is the only representation in which the two zeros stay apart while `==` does
not see the difference.  The exact rational value is available for every
finite word, so sums of measured quantities can be stated without rounding.
-/

/-- An IEEE-754 double, identified with its bit pattern. -/
structure Binary64 where
  bits : UInt64 := 0
deriving DecidableEq

namespace Binary64

def signBit (word : Binary64) : Bool := decide (2 ^ 63 ≤ word.bits.toNat)

def exponent (word : Binary64) : Nat := word.bits.toNat / 2 ^ 52 % 2 ^ 11

def fraction (word : Binary64) : Nat := word.bits.toNat % 2 ^ 52

/-- `std::isfinite`: the exponent field is not all ones. -/
def isFinite (word : Binary64) : Bool := word.exponent != 2047

def isNaN (word : Binary64) : Bool := word.exponent == 2047 && word.fraction != 0

/-- Both signed zeros. -/
def isZero (word : Binary64) : Bool := word.exponent == 0 && word.fraction == 0

/-- The comparison `value < 0.0`, false for both zeros and for every NaN. -/
def isNegative (word : Binary64) : Bool := word.signBit && !word.isNaN && !word.isZero

/-- IEEE equality: a NaN equals nothing, and the two zeros are equal. -/
def equals (left right : Binary64) : Bool :=
  !left.isNaN && !right.isNaN && (left.bits == right.bits || (left.isZero && right.isZero))

/-- The exact value of a finite word.  Infinities and NaNs have no rational
value; they are sent to zero and excluded by `isFinite` where it matters. -/
def toRat (word : Binary64) : ℚ :=
  if word.isFinite then
    let significand := if word.exponent = 0 then word.fraction else 2 ^ 52 + word.fraction
    let scale := max word.exponent 1
    let magnitude : ℚ :=
      if 1075 ≤ scale then ((significand * 2 ^ (scale - 1075) : Nat) : ℚ)
      else mkRat significand (2 ^ (1075 - scale))
    if word.signBit then -magnitude else magnitude
  else 0

/-- The comparison `std::floor(value) == value`.  It holds of both infinities. -/
def isIntegral (word : Binary64) : Bool :=
  if word.isFinite then decide ((word.toRat.floor : ℚ) = word.toRat) else !word.isNaN

theorem isNaN_eq_false_of_isFinite {word : Binary64} (finite : word.isFinite = true) :
    word.isNaN = false := by
  have exponentNe : word.exponent ≠ 2047 := by simpa [isFinite] using finite
  simp [isNaN, exponentNe]

/-- A finite double equals itself; only a NaN does not. -/
theorem equals_self_of_isFinite {word : Binary64} (finite : word.isFinite = true) :
    word.equals word = true := by
  simp [equals, isNaN_eq_false_of_isFinite finite]

/-- A double that does not compare below zero has no negative value. -/
theorem toRat_nonneg {word : Binary64} (notNegative : word.isNegative = false) :
    0 ≤ word.toRat := by
  unfold toRat
  by_cases finite : word.isFinite = true
  · rw [if_pos finite]
    cases sign : word.signBit with
    | false =>
        simp only [Bool.false_eq_true, if_false]
        split
        · exact Nat.cast_nonneg _
        · rw [Rat.mkRat_eq_div]
          positivity
    | true =>
        -- Only the negative zero has the sign and is not below zero.
        have zero : word.isZero = true := by
          simpa [isNegative, sign, isNaN_eq_false_of_isFinite finite] using notNegative
        rcases Bool.and_eq_true _ _ ▸ zero with ⟨exponent, fraction⟩
        simp only [beq_iff_eq.mp exponent, beq_iff_eq.mp fraction, if_true, zero_mul,
          Nat.cast_zero, Rat.zero_mkRat, ite_self, neg_zero, le_refl]
  · rw [if_neg finite]

end Binary64

end Foundation
