import InferenceLedger.Foundation.History

namespace Foundation

/-!
# Sums of machine words

A 64-bit accumulator is added to by some of the items of a list.  As long as no
addition wraps, it holds the sum of what was added; and whether an addition
wraps can be told from the final sum alone, since partial sums of natural
numbers do not exceed it.
-/

/-- A sum of words is the sum of the numbers, modulo the word size. -/
theorem toNat_sum_words (words : List UInt64) :
    words.sum.toNat = (words.map UInt64.toNat).sum % 2 ^ 64 := by
  induction words with
  | nil => rfl
  | cons word words ih =>
      rw [List.sum_cons, List.map_cons, List.sum_cons, UInt64.toNat_add, ih, Nat.add_mod_mod]

section Accumulator

variable {Item : Type} (feeds : Item → Bool) (amount : Item → UInt64)

/-- The accumulator after a list of items. -/
def accumulated (items : List Item) : UInt64 := ((items.filter feeds).map amount).sum

/-- The numbers that were added, without a bound. -/
def exactSum (items : List Item) : Nat :=
  ((items.filter feeds).map fun item => (amount item).toNat).sum

/-- No addition along the list wraps. -/
def NoWrap (items : List Item) : Prop :=
  ∀ before item after, items = before ++ item :: after → feeds item = true →
    (accumulated feeds amount before).toNat + (amount item).toNat < 2 ^ 64

theorem toNat_accumulated (items : List Item) :
    (accumulated feeds amount items).toNat = exactSum feeds amount items % 2 ^ 64 := by
  rw [accumulated, toNat_sum_words, exactSum, List.map_map]
  rfl

theorem exactSum_concat (items : List Item) (last : Item) :
    exactSum feeds amount (items ++ [last]) =
      exactSum feeds amount items + if feeds last then (amount last).toNat else 0 := by
  unfold exactSum
  cases fed : feeds last <;> simp [fed]

/-- One more item: the earlier additions, and its own. -/
theorem noWrap_concat_iff (items : List Item) (last : Item) :
    NoWrap feeds amount (items ++ [last]) ↔
      NoWrap feeds amount items ∧ (feeds last = true →
        (accumulated feeds amount items).toNat + (amount last).toNat < 2 ^ 64) := by
  constructor
  · intro all
    refine ⟨?_, ?_⟩
    · intro before item after split
      exact all before item (after ++ [last]) (moment_append split [last])
    · exact all items last [] rfl
  · rintro ⟨earlier, final⟩ before item after split fed
    rcases concat_eq_append_cons_iff.mp split with ⟨rfl, rfl, -⟩ | ⟨rest, -, inside⟩
    · exact final fed
    · exact earlier before item rest inside fed

/-- No addition wraps exactly when the sum fits. -/
theorem noWrap_iff (items : List Item) :
    NoWrap feeds amount items ↔ exactSum feeds amount items < 2 ^ 64 := by
  induction items using List.reverseRecOn with
  | nil =>
      constructor
      · intro _
        exact Nat.two_pow_pos 64
      · intro _ before item after split
        cases before <;> cases split
  | append_singleton items last ih =>
      rw [noWrap_concat_iff, ih, exactSum_concat, toNat_accumulated]
      constructor
      · rintro ⟨fits, final⟩
        rw [Nat.mod_eq_of_lt fits] at final
        split
        · rename_i fed
          exact final fed
        · exact fits
      · intro fits
        have earlier : exactSum feeds amount items < 2 ^ 64 :=
          Nat.lt_of_le_of_lt (Nat.le_add_right _ _) fits
        refine ⟨earlier, ?_⟩
        intro fed
        rw [if_pos fed] at fits
        rw [Nat.mod_eq_of_lt earlier]
        exact fits

end Accumulator

end Foundation
