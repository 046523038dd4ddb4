import InferenceLedger.Foundation.Machine

namespace Foundation

/-!
# Histories

A history is the list of what has happened, oldest first, and a moment of it is
a way to write the list as `before ++ event :: later`.  Statements about runs
speak about moments: what was the most recent event of some kind, what came
before another event, and which moments remain when one more event is added.

`latest` is the most recent value that a history contains.  It is computed by
one pass, and `latest_eq_some_iff` translates it into the moment at which the
value was seen.
-/

section Moments

variable {Event : Type}

/-- A moment stays a moment when more happens later. -/
theorem moment_append {history before later : List Event} {event : Event}
    (split : history = before ++ event :: later) (more : List Event) :
    history ++ more = before ++ event :: (later ++ more) := by
  rw [split, List.append_assoc, List.cons_append]

/-- The moments of an extended history: the new event, or an older moment with
the new event among what came later. -/
theorem concat_eq_append_cons_iff {history before later : List Event} {last event : Event} :
    history ++ [last] = before ++ event :: later ↔
      (history = before ∧ last = event ∧ later = []) ∨
      ∃ rest, later = rest ++ [last] ∧ history = before ++ event :: rest := by
  constructor
  · intro split
    cases later using List.reverseRecOn with
    | nil =>
        rcases List.append_inj' split rfl with ⟨same, ends⟩
        exact Or.inl ⟨same, (List.cons.inj ends).1, rfl⟩
    | append_singleton rest final =>
        rw [← List.cons_append, ← List.append_assoc] at split
        rcases List.append_inj' split rfl with ⟨same, ends⟩
        exact Or.inr ⟨rest, by rw [(List.cons.inj ends).1], same⟩
  · rintro (⟨rfl, rfl, rfl⟩ | ⟨rest, rfl, rfl⟩)
    · rfl
    · exact moment_append rfl [last]

/-- Two moments of one history are the same, or one lies before the other. -/
theorem moments_compare {first second later rest : List Event} {left right : Event}
    (same : first ++ left :: later = second ++ right :: rest) :
    (first = second ∧ left = right ∧ later = rest) ∨
    (∃ between, second = first ++ left :: between ∧ later = between ++ right :: rest) ∨
    (∃ between, first = second ++ right :: between ∧ rest = between ++ left :: later) := by
  rcases List.append_eq_append_iff.mp same with ⟨gap, front, back⟩ | ⟨gap, front, back⟩
  · cases gap with
    | nil =>
        rcases List.cons.inj back with ⟨head, tail⟩
        rw [List.append_nil] at front
        exact Or.inl ⟨front.symm, head, tail⟩
    | cons event between =>
        rcases List.cons.inj back with ⟨head, tail⟩
        exact Or.inr (Or.inl ⟨between, by rw [front, head], tail⟩)
  · cases gap with
    | nil =>
        rcases List.cons.inj back with ⟨head, tail⟩
        rw [List.append_nil] at front
        exact Or.inl ⟨front, head.symm, tail.symm⟩
    | cons event between =>
        rcases List.cons.inj back with ⟨head, tail⟩
        exact Or.inr (Or.inr ⟨between, by rw [front, head], tail⟩)

/-- The moment of the value that stands at a position among the selected ones. -/
theorem moment_of_selected {Value : Type} {select : Event → Option Value} {history : List Event}
    {index : Nat} {value : Value} (found : (history.filterMap select)[index]? = some value) :
    ∃ before event later, history = before ++ event :: later ∧ select event = some value ∧
      (before.filterMap select).length = index := by
  induction history generalizing index with
  | nil => simp at found
  | cons first rest ih =>
      cases chosen : select first with
      | none =>
          rw [List.filterMap_cons_none chosen] at found
          rcases ih found with ⟨before, event, later, split, selected, length⟩
          refine ⟨first :: before, event, later, by rw [split, List.cons_append], selected, ?_⟩
          rw [List.filterMap_cons_none chosen, length]
      | some other =>
          rw [List.filterMap_cons_some chosen] at found
          cases index with
          | zero => exact ⟨[], first, rest, rfl, chosen.trans found, rfl⟩
          | succ index =>
              rcases ih found with ⟨before, event, later, split, selected, length⟩
              refine ⟨first :: before, event, later, by rw [split, List.cons_append], selected, ?_⟩
              rw [List.filterMap_cons_some chosen, List.length_cons, length]

end Moments

section Latest

variable {Event Value : Type} (select : Event → Option Value)

/-- The most recent value that a history contains. -/
def latest (history : List Event) : Option Value := (history.filterMap select).getLast?

@[simp] theorem latest_nil : latest select [] = none := rfl

theorem latest_append (first second : List Event) :
    latest select (first ++ second) = (latest select second).or (latest select first) := by
  rw [latest, List.filterMap_append, List.getLast?_append]
  rfl

theorem latest_singleton (event : Event) : latest select [event] = select event := by
  cases selected : select event with
  | none => simp [latest, selected]
  | some value => simp [latest, selected]

theorem latest_concat (history : List Event) (last : Event) :
    latest select (history ++ [last]) = (select last).or (latest select history) := by
  rw [latest_append, latest_singleton]

theorem latest_eq_none_iff (history : List Event) :
    latest select history = none ↔ ∀ event ∈ history, select event = none := by
  rw [latest, List.getLast?_eq_none_iff, List.filterMap_eq_nil_iff]

variable {select}

/-- The latest value was seen at a moment after which there was no other. -/
theorem latest_eq_some_iff {history : List Event} {value : Value} :
    latest select history = some value ↔
      ∃ before event later, history = before ++ event :: later ∧ select event = some value ∧
        latest select later = none := by
  constructor
  · intro found
    induction history using List.reverseRecOn with
    | nil => cases found
    | append_singleton history last ih =>
        rw [latest_concat] at found
        cases selected : select last with
        | some newest =>
            rw [selected] at found
            exact ⟨history, last, [], rfl, selected.trans found, rfl⟩
        | none =>
            rw [selected] at found
            rcases ih found with ⟨before, event, later, rfl, chosen, silent⟩
            refine ⟨before, event, later ++ [last], moment_append rfl [last], chosen, ?_⟩
            rw [latest_concat, selected, silent]
            rfl
  · rintro ⟨before, event, later, rfl, chosen, silent⟩
    rw [latest_append, ← List.singleton_append, latest_append, silent, latest_singleton, chosen]
    rfl

/-- A value that is seen, and besides which no other is seen, is the latest. -/
theorem latest_eq_of_unique {history : List Event} {value : Value}
    (unique : ∀ event ∈ history, ∀ other, select event = some other → other = value)
    {event : Event} (member : event ∈ history) (seen : select event = some value) :
    latest select history = some value := by
  cases found : latest select history with
  | none =>
      have silent := (latest_eq_none_iff select history).mp found event member
      rw [seen] at silent
      cases silent
  | some newest =>
      rcases latest_eq_some_iff.mp found with ⟨before, moment, later, split, selected, -⟩
      rw [unique moment (by simp [split]) newest selected]

end Latest

namespace Machine

variable {State Input Output : Type} {machine : Machine State Input (List Output)}

/-- Everything that a run has put out, in order. -/
def trace (machine : Machine State Input (List Output)) (start : State) (inputs : List Input) :
    List Output := (machine.outputs start inputs).flatten

theorem trace_cons (start : State) (input : Input) (inputs : List Input) :
    machine.trace start (input :: inputs) =
      (machine start input).2 ++ machine.trace (machine start input).1 inputs := rfl

theorem trace_append (start : State) (first second : List Input) :
    machine.trace start (first ++ second) =
      machine.trace start first ++ machine.trace (machine.run start first) second := by
  induction first generalizing start with
  | nil => rfl
  | cons input rest ih => rw [List.cons_append, trace_cons, trace_cons, ih, run_cons, List.append_assoc]

theorem trace_concat (start : State) (inputs : List Input) (last : Input) :
    machine.trace start (inputs ++ [last]) =
      machine.trace start inputs ++ (machine (machine.run start inputs) last).2 := by
  rw [trace_append, trace_cons]
  simp [trace, outputs]

/-- A property of the trace together with the state it leads to, along a run
whose steps all meet a condition. -/
theorem run_traced_of_steps {property : List Output → State → Prop}
    {condition : State → Input → Prop} {start : State} (initial : property [] start)
    (extended : ∀ observed state input, condition state input → property observed state →
      property (observed ++ (machine state input).2) (machine state input).1)
    {inputs : List Input}
    (met : ∀ before input later, inputs = before ++ input :: later →
      condition (machine.run start before) input) :
    property (machine.trace start inputs) (machine.run start inputs) := by
  induction inputs using List.reverseRecOn with
  | nil => exact initial
  | append_singleton inputs input ih =>
      have earlier := ih fun before other later split =>
        met before other (later ++ [input]) (moment_append split [input])
      rw [trace_concat, run_concat]
      exact extended _ _ input (met inputs input [] rfl) earlier

/-- The same along every run. -/
theorem run_traced {property : List Output → State → Prop} {start : State}
    (initial : property [] start)
    (extended : ∀ observed state input, property observed state →
      property (observed ++ (machine state input).2) (machine state input).1)
    (inputs : List Input) : property (machine.trace start inputs) (machine.run start inputs) :=
  run_traced_of_steps initial
    (fun observed state input (_ : True) => extended observed state input)
    (fun _ _ _ _ => trivial)

end Machine

end Foundation
