import InferenceLedger.Foundation.WordDifferences
import InferenceLedger.Record.Identity

namespace InferenceLedger

open Foundation

/-!
# The mixer of derived identities

The mixer has two lanes of 64 bits.  The lower lane multiplies by odd constants,
so it never loses a difference.  The upper lane adds shifted copies of itself,
and moves the lowest difference down by two bits with every word.

Two mixers that were fed differently may meet again when a later word makes up
for the difference.  `Apart` describes when this cannot happen: the lower lanes
differ below the highest bit, or the upper lanes differ so far up that the few
words that follow do not bring the difference to the bottom.
-/

/-- `Mixer`, with its two seeds. -/
structure Mixer where
  hi : UInt64 := 0xCBF29CE484222325
  lo : UInt64 := 0x9E3779B97F4A7C15

namespace Mixer

def feed (m : Mixer) (v : UInt64) : Mixer where
  hi := m.hi ^^^ (v + 0x9E3779B97F4A7C15 + (m.hi <<< (6 : UInt64)) + (m.hi >>> (2 : UInt64)))
  lo := (m.lo ^^^ (v * 0x100000001B3)) * 0x9E3779B97F4A7C15

def feedId {tag : IdTag} (m : Mixer) (x : Id128 tag) : Mixer := (m.feed x.hi).feed x.lo

/-! ## One word -/

section OneWord

variable {m m' : Mixer} {v v' : UInt64} {place : Nat}

/-- The words agree in their lowest bits. -/
abbrev Agree (count : Nat) (v v' : UInt64) : Prop := AgreeBelow count v.toBitVec v'.toBitVec

/-- The lowest bit in which the words differ. -/
abbrev First (place : Nat) (v v' : UInt64) : Prop := FirstDiffersAt place v.toBitVec v'.toBitVec

theorem exists_first_of_ne (different : v ≠ v') : ∃ place, First place v v' := by
  apply FirstDiffersAt.exists_of_ne
  intro same
  exact different (UInt64.toBitVec_inj.mp same)

theorem First.ne (first : First place v v') : v ≠ v' := by
  intro same
  exact FirstDiffersAt.ne first (congrArg UInt64.toBitVec same)

theorem lo_feed (m : Mixer) (v : UInt64) :
    (m.feed v).lo.toBitVec =
      (m.lo.toBitVec ^^^ v.toBitVec * 0x100000001B3#64) * 0x9E3779B97F4A7C15#64 := rfl

theorem hi_feed (m : Mixer) (v : UInt64) :
    (m.feed v).hi.toBitVec =
      m.hi.toBitVec ^^^ (v.toBitVec + 0x9E3779B97F4A7C15#64 + (m.hi.toBitVec <<< 6) +
        (m.hi.toBitVec >>> 2)) := rfl

/-- A difference of the lower lane stays where it is. -/
theorem lo_feed_of_lane (lane : First place m.lo m'.lo) (words : Agree (place + 1) v v') :
    First place (m.feed v).lo (m'.feed v').lo := by
  have products := (agreeBelow_mul_iff (u := 0x100000001B3#64) lane.lt_width (by decide)).mpr words
  simp only [First, lo_feed]
  exact (lane.xor products).mul_odd (by decide)

/-- A difference of the words enters the lower lane at the same place. -/
theorem lo_feed_of_word (lane : Agree (place + 1) m.lo m'.lo) (words : First place v v') :
    First place (m.feed v).lo (m'.feed v').lo := by
  have product := words.mul_odd (u := 0x100000001B3#64) (by decide)
  simp only [First, lo_feed]
  rw [BitVec.xor_comm, BitVec.xor_comm m'.lo.toBitVec]
  exact (product.xor lane).mul_odd (by decide)

/-- A difference of the words enters the upper lane at the same place. -/
theorem hi_feed_of_word (m : Mixer) (words : First place v v') :
    First place (m.feed v).hi (m.feed v').hi := by
  simp only [First, hi_feed]
  rw [BitVec.xor_comm, BitVec.xor_comm m.hi.toBitVec]
  exact (((words.add (.of_eq rfl)).add (.of_eq rfl)).add (.of_eq rfl)).xor (.of_eq rfl)

/-- A difference of the upper lane moves down by two bits. -/
theorem hi_feed_of_lane (lane : First (2 + place) m.hi m'.hi) (words : Agree (place + 1) v v') :
    First place (m.feed v).hi (m'.feed v').hi := by
  have inside : place + 1 ≤ 64 := Nat.le_trans (by omega) (Nat.le_of_lt lane.lt_width)
  have near : Agree (place + 1) m.hi m'.hi := lane.agree.mono (by omega)
  have shifted : FirstDiffersAt place (m.hi.toBitVec >>> 2) (m'.hi.toBitVec >>> 2) :=
    lane.shiftRight
  have rest : AgreeBelow (place + 1)
      (v.toBitVec + 0x9E3779B97F4A7C15#64 + (m.hi.toBitVec <<< 6))
      (v'.toBitVec + 0x9E3779B97F4A7C15#64 + (m'.hi.toBitVec <<< 6)) := by
    rw [agreeBelow_add_iff inside (near.shiftLeft inside 6), agreeBelow_add_iff inside (.of_eq rfl)]
    exact words
  simp only [First, hi_feed]
  rw [BitVec.xor_comm, BitVec.xor_comm m'.hi.toBitVec, BitVec.add_comm _ (m.hi.toBitVec >>> 2),
    BitVec.add_comm _ (m'.hi.toBitVec >>> 2)]
  exact (shifted.add rest).xor near

end OneWord

/-! ## Many words -/

/-- Two mixers that words with the same low bits will not bring together again,
if at most so many of them follow. -/
inductive Apart (remaining : Nat) (m m' : Mixer) : Prop where
  | low (place : Nat) (below : place < 63) (lane : First place m.lo m'.lo)
  | high (place : Nat) (far : 2 * remaining ≤ place) (lane : First place m.hi m'.hi)

section ManyWords

variable {remaining : Nat} {m m' : Mixer}

theorem Apart.feed (apart : Apart (remaining + 1) m m') {v v' : UInt64} (words : Agree 63 v v') :
    Apart remaining (m.feed v) (m'.feed v') := by
  cases apart with
  | low place below lane => exact .low place below (lo_feed_of_lane lane (words.mono below))
  | high place far lane =>
      have inside := lane.lt_width
      rcases Nat.exists_eq_add_of_le (show 2 ≤ place by omega) with ⟨lower, rfl⟩
      exact .high lower (by omega) (hi_feed_of_lane lane (words.mono (by omega)))

/-- The same words, up to the highest bit of each. -/
abbrev SameLow (words words' : List UInt64) : Prop := List.Forall₂ (Agree 63) words words'

theorem Apart.feed_all {words words' : List UInt64} (same : SameLow words words')
    (apart : Apart words.length m m') :
    Apart 0 (words.foldl Mixer.feed m) (words'.foldl Mixer.feed m') := by
  induction same generalizing m m' with
  | nil => exact apart
  | cons head _ ih => exact ih (apart.feed head)

theorem Apart.ne (apart : Apart remaining m m') : m ≠ m' := by
  rintro rfl
  cases apart with
  | low place below lane => exact lane.ne rfl
  | high place far lane => exact lane.ne rfl

/-- Two different words part two equal mixers. -/
theorem apart_of_word (m : Mixer) {v v' : UInt64} (different : v ≠ v') (few : 2 * remaining ≤ 63) :
    Apart remaining (m.feed v) (m.feed v') := by
  rcases exists_first_of_ne different with ⟨place, words⟩
  have inside := words.lt_width
  by_cases below : place < 63
  · exact .low place below (lo_feed_of_word (.of_eq rfl) words)
  · exact .high place (by omega) (hi_feed_of_word m words)

/-- The lowest differences of two pairs of words, if there are any, are not at
the same place. -/
def PlacesDiffer (v v' u u' : UInt64) : Prop :=
  ∀ place < 64, ¬ (First place v v' ∧ First place u u')

instance (v v' u u' : UInt64) : Decidable (PlacesDiffer v v' u u') :=
  inferInstanceAs (Decidable (∀ place < 64, ¬ _))

/-- Two words part two equal mixers if their differences cannot cancel. -/
theorem apart_of_words (m : Mixer) {v v' u u' : UInt64} (different : v ≠ v' ∨ u ≠ u')
    (places : PlacesDiffer v v' u u') (few : 2 * (remaining + 1) ≤ 63) :
    Apart remaining ((m.feed v).feed u) ((m.feed v').feed u') := by
  by_cases first : v = v'
  · rw [first]
    exact apart_of_word _ (different.resolve_left (not_not_intro first)) (by omega)
  by_cases second : u = u'
  · rw [second]
    exact (apart_of_word m first few).feed (.of_eq rfl)
  rcases exists_first_of_ne first with ⟨place, firstWords⟩
  rcases exists_first_of_ne second with ⟨other, secondWords⟩
  have lane : First place (m.feed v).lo (m.feed v').lo := lo_feed_of_word (.of_eq rfl) firstWords
  have inside := firstWords.lt_width
  have insideToo := secondWords.lt_width
  rcases Nat.lt_trichotomy place other with lower | rfl | higher
  · exact .low place (by omega) (lo_feed_of_lane lane (secondWords.agree.mono lower))
  · exact (places place inside ⟨firstWords, secondWords⟩).elim
  · exact .low other (by omega) (lo_feed_of_word (lane.agree.mono higher) secondWords)

/-- The words of one field, with differences that cannot cancel. -/
def WordsSeparated : List UInt64 → List UInt64 → Prop
  | [v], [v'] => v ≠ v'
  | [v, u], [v', u'] => (v ≠ v' ∨ u ≠ u') ∧ PlacesDiffer v v' u u'
  | _, _ => False

theorem apart_of_wordsSeparated (m : Mixer) {words words' : List UInt64}
    (separated : WordsSeparated words words') (few : 2 * (remaining + 1) ≤ 63) :
    Apart remaining (words.foldl Mixer.feed m) (words'.foldl Mixer.feed m) := by
  match words, words', separated with
  | [v], [v'], different => exact apart_of_word m different (by omega)
  | [v, u], [v', u'], ⟨different, places⟩ => exact apart_of_words m different places few

end ManyWords

end Mixer

end InferenceLedger
