import Mathlib

namespace Foundation

/-!
# Runs of deterministic machines

A machine answers each input with an output and a new state.  What holds of a
whole run is derived from what one step does.  `run_invariant` is the rule for
properties of the state alone, `run_related` the rule for relations between
an earlier and a later state, and `run_history` the rule for properties that
also speak about the inputs seen so far.
-/

/-- One step of a deterministic machine. -/
abbrev Machine (State Input Output : Type) := State → Input → State × Output

namespace Machine

variable {State Input Output : Type} (machine : Machine State Input Output)

/-- The state after a list of inputs. -/
def run (start : State) : List Input → State
  | [] => start
  | input :: inputs => run (machine start input).1 inputs

/-- The outputs produced along a run, in order. -/
def outputs (start : State) : List Input → List Output
  | [] => []
  | input :: inputs => (machine start input).2 :: outputs (machine start input).1 inputs

@[simp] theorem run_nil (start : State) : machine.run start [] = start := rfl

@[simp] theorem run_cons (start : State) (input : Input) (inputs : List Input) :
    machine.run start (input :: inputs) = machine.run (machine start input).1 inputs := rfl

theorem run_append (start : State) (first second : List Input) :
    machine.run start (first ++ second) = machine.run (machine.run start first) second := by
  induction first generalizing start with
  | nil => rfl
  | cons input rest ih => exact ih (machine start input).1

theorem run_concat (start : State) (inputs : List Input) (last : Input) :
    machine.run start (inputs ++ [last]) = (machine (machine.run start inputs) last).1 := by
  rw [run_append, run_cons, run_nil]

variable {machine}

/-- A property that one step preserves holds after every run. -/
theorem run_invariant {property : State → Prop}
    (preserved : ∀ state input, property state → property (machine state input).1)
    {start : State} (initial : property start) (inputs : List Input) :
    property (machine.run start inputs) := by
  induction inputs generalizing start with
  | nil => exact initial
  | cons input rest ih => exact ih (preserved start input initial)

/-- A preorder that one step respects relates the ends of every run. -/
theorem run_related {relation : State → State → Prop} (refl : ∀ state, relation state state)
    (trans : ∀ {first second third}, relation first second → relation second third →
      relation first third)
    (respected : ∀ state input, relation state (machine state input).1)
    (start : State) (inputs : List Input) : relation start (machine.run start inputs) := by
  induction inputs generalizing start with
  | nil => exact refl start
  | cons input rest ih => exact trans (respected start input) (ih (machine start input).1)

/-- A property of the inputs so far together with the state they lead to. -/
theorem run_history {property : List Input → State → Prop} {start : State}
    (initial : property [] start)
    (extended : ∀ inputs input state, state = machine.run start inputs →
      property inputs state → property (inputs ++ [input]) (machine state input).1)
    (inputs : List Input) : property inputs (machine.run start inputs) := by
  induction inputs using List.reverseRecOn with
  | nil => exact initial
  | append_singleton inputs input ih =>
      rw [run_concat]
      exact extended inputs input _ rfl ih

end Machine

end Foundation
