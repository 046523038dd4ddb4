import InferenceLedger.Foundation.History

namespace Foundation

/-!
# Machines inside machines, and runs that come to rest

A machine may drive another one: each of its steps hands some inputs to the
inner machine, whose state is a part of its own.  Its runs are then runs of the
inner machine on all that was handed over, so whatever holds of every run of the
inner machine holds of that part.

A run comes to rest when some measure falls with every step that moves the
machine and never rises: the measure of the first state bounds how many steps
can move it.
-/

namespace Machine

section Projection

variable {State Input Inner InnerInput InnerOutput : Type}
  {outer : Machine State Input (List InnerInput)} {inner : Machine Inner InnerInput InnerOutput}
  {part : State → Inner}

/-- The inner machine of a run has run on what it was handed. -/
theorem run_projected
    (driven : ∀ state input,
      part (outer state input).1 = inner.run (part state) (outer state input).2)
    (start : State) (inputs : List Input) :
    part (outer.run start inputs) = inner.run (part start) (outer.trace start inputs) := by
  induction inputs generalizing start with
  | nil => rfl
  | cons input inputs ih =>
      rw [run_cons, trace_cons, run_append, ih, driven]

end Projection

section Progress

variable {State Input Output : Type} (machine : Machine State Input Output)
  (moves : State → Input → Bool)

/-- How many inputs of a run move the machine. -/
def moveCount (start : State) : List Input → Nat
  | [] => 0
  | input :: inputs =>
      (if moves start input then 1 else 0) + moveCount (machine start input).1 inputs

/-- No allowed input moves the machine. -/
def AtRest (allowed : Input → Prop) (state : State) : Prop :=
  ∀ input, allowed input → moves state input = false

variable {machine moves} {measure : State → Nat} {invariant : State → Prop}
  {allowed : Input → Prop}
  (preserved : ∀ state input, allowed input → invariant state →
    invariant (machine state input).1)
  (lowered : ∀ state input, allowed input → invariant state → moves state input = true →
    measure (machine state input).1 < measure state)

include preserved

/-- Along allowed inputs the invariant stays. -/
theorem run_allowed {start : State} (initial : invariant start) {inputs : List Input}
    (all : ∀ input ∈ inputs, allowed input) : invariant (machine.run start inputs) := by
  induction inputs generalizing start with
  | nil => exact initial
  | cons input inputs ih =>
      exact ih (preserved start input (all input List.mem_cons_self) initial)
        fun other member => all other (List.mem_cons_of_mem input member)

include lowered

/-- What the steps of a run spend, together with what is left of the measure,
is no more than the measure at the start. -/
theorem moveCount_add_le
    (still : ∀ state input, moves state input = false → (machine state input).1 = state)
    {start : State} (initial : invariant start) {inputs : List Input}
    (all : ∀ input ∈ inputs, allowed input) :
    moveCount machine moves start inputs + measure (machine.run start inputs) ≤
      measure start := by
  induction inputs generalizing start with
  | nil => exact Nat.le_of_eq (Nat.zero_add _)
  | cons input inputs ih =>
      have first : allowed input := all input List.mem_cons_self
      have rest := ih (preserved start input first initial)
        fun other member => all other (List.mem_cons_of_mem input member)
      rw [moveCount, run_cons]
      cases moving : moves start input with
      | true =>
          have lower := lowered start input first initial moving
          rw [if_pos rfl]
          omega
      | false =>
          rw [still start input moving] at rest ⊢
          rw [if_neg Bool.false_ne_true]
          omega

/-- Some continuation comes to rest. -/
theorem exists_rest {start : State} (initial : invariant start) :
    ∃ inputs : List Input, (∀ input ∈ inputs, allowed input) ∧
      AtRest moves allowed (machine.run start inputs) := by
  induction bound : measure start using Nat.strongRecOn generalizing start with
  | ind amount ih =>
      by_cases resting : AtRest moves allowed start
      · exact ⟨[], by simp, resting⟩
      · simp only [AtRest, not_forall, Bool.not_eq_false] at resting
        rcases resting with ⟨input, first, moving⟩
        have lower := lowered start input first initial moving
        rcases ih _ (bound ▸ lower) (preserved start input first initial) rfl with
          ⟨inputs, all, rest⟩
        refine ⟨input :: inputs, fun other member => ?_, rest⟩
        rcases List.mem_cons.mp member with rfl | later
        · exact first
        · exact all other later

end Progress

end Machine

end Foundation
