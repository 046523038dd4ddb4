import Mathlib

namespace Foundation

/-!
# Gauges

A gauge follows a quantity that changes by positive and negative amounts.  Its
level is never allowed below zero, and it remembers the highest level it has
seen.

Clamping at zero forgets the past at a moment when forgetting it can only
raise what follows.  The level is therefore the largest net change of a suffix
of the changes, and the peak the largest net change of a window of them.
-/

/-- A level that does not go below zero, with the highest level so far. -/
@[ext] structure Gauge (Amount : Type) where
  level : Amount
  peak : Amount

section Gauge

variable {Amount : Type} [AddCommGroup Amount] [LinearOrder Amount]

/-- One more change. -/
def Gauge.observe (gauge : Gauge Amount) (change : Amount) : Gauge Amount where
  level := max 0 (gauge.level + change)
  peak := max gauge.peak (max 0 (gauge.level + change))

/-- The gauge after a list of changes, from zero. -/
def Gauge.of (changes : List Amount) : Gauge Amount := changes.foldl Gauge.observe ⟨0, 0⟩

theorem Gauge.of_concat (changes : List Amount) (change : Amount) :
    Gauge.of (changes ++ [change]) = (Gauge.of changes).observe change := by
  rw [Gauge.of, List.foldl_append, List.foldl_cons, List.foldl_nil]
  rfl

theorem Gauge.level_nonneg (changes : List Amount) : 0 ≤ (Gauge.of changes).level := by
  induction changes using List.reverseRecOn with
  | nil => exact le_rfl
  | append_singleton changes change ih =>
      rw [Gauge.of_concat]
      exact le_max_left _ _

theorem Gauge.level_le_peak (changes : List Amount) :
    (Gauge.of changes).level ≤ (Gauge.of changes).peak := by
  induction changes using List.reverseRecOn with
  | nil => exact le_rfl
  | append_singleton changes change ih =>
      rw [Gauge.of_concat]
      exact le_max_right _ _

/-- The net changes of these parts of a list of changes. -/
def netChanges (part : List Amount → Prop) : Set Amount := {net | ∃ few, part few ∧ few.sum = net}

variable [IsOrderedAddMonoid Amount] (changes : List Amount)

/-- The level is the largest net change of a suffix. -/
theorem Gauge.isGreatest_level :
    IsGreatest (netChanges (· <:+ changes)) (Gauge.of changes).level := by
  induction changes using List.reverseRecOn with
  | nil =>
      refine ⟨⟨[], List.suffix_rfl, rfl⟩, ?_⟩
      rintro net ⟨few, part, rfl⟩
      rw [List.suffix_nil.mp part]
      exact le_rfl
  | append_singleton changes change ih =>
      rcases ih with ⟨⟨best, suffix, attained⟩, bound⟩
      rw [Gauge.of_concat]
      change IsGreatest _ (max 0 ((Gauge.of changes).level + change))
      refine ⟨?_, ?_⟩
      · rcases max_choice 0 ((Gauge.of changes).level + change) with clamped | free
        · rw [clamped]
          exact ⟨[], List.nil_suffix, rfl⟩
        · rw [free, ← attained]
          exact ⟨best ++ [change], List.suffix_concat_iff.mpr (Or.inr ⟨best, rfl, suffix⟩), by simp⟩
      · rintro net ⟨few, part, rfl⟩
        rcases List.suffix_concat_iff.mp part with rfl | ⟨rest, rfl, inside⟩
        · exact le_max_left _ _
        · rw [List.sum_append, List.sum_singleton]
          exact le_max_of_le_right (add_le_add_left (bound ⟨rest, inside, rfl⟩) change)

/-- The peak is the largest net change of a window. -/
theorem Gauge.isGreatest_peak :
    IsGreatest (netChanges (· <:+: changes)) (Gauge.of changes).peak := by
  induction changes using List.reverseRecOn with
  | nil =>
      refine ⟨⟨[], List.infix_rfl, rfl⟩, ?_⟩
      rintro net ⟨few, part, rfl⟩
      rw [List.infix_nil.mp part]
      exact le_rfl
  | append_singleton changes change ih =>
      rcases ih with ⟨⟨best, window, attained⟩, bound⟩
      have level := Gauge.isGreatest_level (changes ++ [change])
      have peak : (Gauge.of (changes ++ [change])).peak =
          max (Gauge.of changes).peak (Gauge.of (changes ++ [change])).level := by
        rw [Gauge.of_concat]
        rfl
      rw [peak]
      refine ⟨?_, ?_⟩
      · rcases max_choice (Gauge.of changes).peak (Gauge.of (changes ++ [change])).level with
          old | new
        · rw [old]
          exact ⟨best, List.infix_concat_iff.mpr (Or.inr window), attained⟩
        · rw [new]
          rcases level.1 with ⟨few, suffix, net⟩
          exact ⟨few, suffix.isInfix, net⟩
      · rintro net ⟨few, part, rfl⟩
        rcases List.infix_concat_iff.mp part with suffix | earlier
        · exact le_max_of_le_right (level.2 ⟨few, suffix, rfl⟩)
        · exact le_max_of_le_left (bound ⟨few, earlier, rfl⟩)

/-- No net change from the start is above the peak. -/
theorem Gauge.sum_prefix_le_peak {front : List Amount} (inside : front <+: changes) :
    front.sum ≤ (Gauge.of changes).peak :=
  (Gauge.isGreatest_peak changes).2 ⟨front, inside.isInfix, rfl⟩

/-- The peak is never above the sum of the increases. -/
theorem Gauge.peak_le_increases :
    (Gauge.of changes).peak ≤ (changes.map (max 0)).sum := by
  rcases (Gauge.isGreatest_peak changes).1 with ⟨window, inside, attained⟩
  calc
    (Gauge.of changes).peak = window.sum := attained.symm
    _ ≤ (window.map (max 0)).sum := by
      have raised := List.sum_le_sum (l := window) (f := id) (g := max 0)
        (fun change _ => le_max_right 0 change)
      rwa [List.map_id] at raised
    _ ≤ (changes.map (max 0)).sum := by
      apply (inside.sublist.map _).sum_le_sum
      intro amount member
      rcases List.mem_map.mp member with ⟨change, -, rfl⟩
      exact le_max_left 0 change

variable {changes} in
/-- When the net change from the start never falls below zero, nothing is
clamped, and the peak is the largest of these net changes. -/
theorem Gauge.isGreatest_peak_of_nonneg (unclamped : ∀ front, front <+: changes → 0 ≤ front.sum) :
    IsGreatest (netChanges (· <+: changes)) (Gauge.of changes).peak := by
  refine ⟨?_, ?_⟩
  · rcases (Gauge.isGreatest_peak changes).1 with ⟨window, ⟨front, back, split⟩, attained⟩
    have whole : front ++ window <+: changes := ⟨back, split⟩
    have above : (Gauge.of changes).peak ≤ (front ++ window).sum := by
      rw [List.sum_append, attained]
      exact le_add_of_nonneg_left
        (unclamped front ⟨window ++ back, by rw [← split, List.append_assoc]⟩)
    exact ⟨front ++ window, whole,
      le_antisymm (Gauge.sum_prefix_le_peak changes whole) above⟩
  · rintro net ⟨front, inside, rfl⟩
    exact Gauge.sum_prefix_le_peak changes inside

end Gauge

end Foundation
