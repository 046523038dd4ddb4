import Mathlib

namespace Foundation

/-!
# Single changes

A machine reads a list of letters one after the other.  It is lossless if the
state after a letter determines the state before it, when the letter is known,
and the letter, when the state before it is known.  Such a machine never forgets
a single change: two inputs of the same length that differ in one position leave
it in different states.  Two changes may cancel each other.
-/

section DifferOnce

variable {α : Type*} {first second : α} {left right : List α}

/-- The lists have the same length and differ in exactly one position. -/
def DifferOnce (left right : List α) : Prop :=
  left.length = right.length ∧ ∃! i : Nat, left[i]? ≠ right[i]?

theorem not_differOnce_nil : ¬ DifferOnce ([] : List α) right := by
  rintro ⟨length, i, differ, _⟩
  rw [List.eq_nil_of_length_eq_zero length.symm] at differ
  exact differ rfl

theorem DifferOnce.head (different : first ≠ second) (rest : List α) :
    DifferOnce (first :: rest) (second :: rest) := by
  refine ⟨rfl, 0, ?_, ?_⟩
  · intro same
    exact different (Option.some.inj same)
  · intro i differ
    cases i with
    | zero => rfl
    | succ i => exact absurd rfl differ

theorem DifferOnce.cons (once : DifferOnce left right) (first : α) :
    DifferOnce (first :: left) (first :: right) := by
  rcases once with ⟨length, i, differ, unique⟩
  refine ⟨congrArg Nat.succ length, i + 1, differ, ?_⟩
  intro j other
  cases j with
  | zero => exact absurd rfl other
  | succ j => rw [unique j other]

/-- The change is at the head, or the heads are the same and it is further on. -/
theorem differOnce_cons_iff :
    DifferOnce (first :: left) (second :: right) ↔
      first ≠ second ∧ left = right ∨ first = second ∧ DifferOnce left right := by
  constructor
  · rintro ⟨length, i, differ, unique⟩
    cases i with
    | zero =>
        apply Or.inl
        constructor
        · intro same
          exact differ (congrArg some same)
        · apply List.ext_getElem?
          intro j
          by_contra other
          cases unique (j + 1) other
    | succ i =>
        have same : first = second := by
          by_contra different
          cases unique 0 fun same => different (Option.some.inj same)
        refine Or.inr ⟨same, Nat.succ_inj.mp length, i, differ, ?_⟩
        intro j other
        exact Nat.succ_inj.mp (unique (j + 1) other)
  · rintro (⟨different, rfl⟩ | ⟨rfl, once⟩)
    · exact .head different left
    · exact once.cons first

instance decidableDifferOnce [DecidableEq α] :
    ∀ left right : List α, Decidable (DifferOnce left right)
  | [], _ => isFalse not_differOnce_nil
  | _ :: _, [] => isFalse fun once => Nat.succ_ne_zero _ once.1
  | _ :: left, _ :: right =>
      have := decidableDifferOnce left right
      decidable_of_iff' _ differOnce_cons_iff

end DifferOnce

section Lossless

variable {σ α : Type*} {step : σ → α → σ}

/-- A step that can be undone, and from which the letter can be told. -/
structure Lossless (step : σ → α → σ) : Prop where
  state : ∀ letter, Function.Injective fun s => step s letter
  letter : ∀ s, Function.Injective (step s)

/-- If each step can be undone, so can a whole input. -/
theorem foldl_injective (undone : ∀ letter, Function.Injective fun s => step s letter)
    (letters : List α) : Function.Injective fun s => letters.foldl step s := by
  induction letters with
  | nil => exact Function.injective_id
  | cons letter rest ih => exact ih.comp (undone letter)

/-- A single change is never forgotten. -/
theorem Lossless.foldl_ne (lossless : Lossless step) {left right : List α}
    (once : DifferOnce left right) (s : σ) : left.foldl step s ≠ right.foldl step s := by
  induction left generalizing right s with
  | nil => exact absurd once not_differOnce_nil
  | cons first left ih =>
      cases right with
      | nil => cases once.1
      | cons second right =>
          rw [List.foldl_cons, List.foldl_cons]
          rcases differOnce_cons_iff.mp once with ⟨different, same⟩ | ⟨same, later⟩
          · rw [same]
            intro states
            exact different (lossless.letter s (foldl_injective lossless.state right states))
          · rw [same]
            exact ih later (step s second)

end Lossless

end Foundation
