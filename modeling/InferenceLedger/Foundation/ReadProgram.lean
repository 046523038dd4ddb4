import InferenceLedger.Foundation.BigEndian

namespace Foundation

/-!
# Bounds-checked reading programs

A decoder over a raw buffer has two ways to go wrong.  It may *reject* the
bytes it sees, which is an ordinary answer, or it may read an index that the
buffer does not have, which is not an answer at all.  `Access` keeps the two
apart, so that memory safety of a decoder is a statement about its result.

`ReadProgram` is the syntax of a decoder that only ever asks for a number of
bytes or for the number of bytes left.  It is interpreted twice: `run` follows
a cursor through actual memory, checking each request against a declared
bound and then against the memory itself; `parse` consumes a list.  The two
agree on every program as soon as the declared bound lies inside the memory.
A decoder is therefore written once, its safety is read off `run`, and its
meaning is computed with `parse`.
-/

/-! ## Outcomes of an operation on raw memory -/

/-- What an operation on a raw buffer may do.  `outOfBounds` marks a read at
an index that the buffer does not have; the source language gives such a
read no meaning, so nothing can follow it. -/
inductive Access (α : Type) where
  | outOfBounds
  | rejected
  | done (value : α)
deriving DecidableEq

namespace Access

variable {α β : Type}

def bind : Access α → (α → Access β) → Access β
  | outOfBounds, _ => outOfBounds
  | rejected, _ => rejected
  | done value, next => next value

instance : Monad Access where
  pure := done
  bind := bind

@[simp] theorem bind_done (value : α) (next : α → Access β) :
    (done value >>= next) = next value := rfl

@[simp] theorem bind_rejected (next : α → Access β) :
    ((rejected : Access α) >>= next) = rejected := rfl

@[simp] theorem bind_outOfBounds (next : α → Access β) :
    ((outOfBounds : Access α) >>= next) = outOfBounds := rfl

/-- A sequence faults in its first part or in what follows its result. -/
theorem bind_eq_outOfBounds_iff {first : Access α} {next : α → Access β} :
    (first >>= next) = outOfBounds ↔
      first = outOfBounds ∨ ∃ value, first = done value ∧ next value = outOfBounds := by
  cases first with
  | outOfBounds => simp
  | rejected => simp
  | done value => simp

/-- A sequence succeeds when both parts do. -/
theorem bind_eq_done_iff {first : Access α} {next : α → Access β} {result : β} :
    (first >>= next) = done result ↔ ∃ value, first = done value ∧ next value = done result := by
  cases first with
  | outOfBounds => simp
  | rejected => simp
  | done value => simp

/-- A result with no memory access left in it. -/
def ofOption : Option α → Access α
  | none => rejected
  | some value => done value

@[simp] theorem ofOption_none : (ofOption none : Access α) = rejected := rfl

@[simp] theorem ofOption_some (value : α) : ofOption (some value) = done value := rfl

theorem ofOption_ne_outOfBounds (result : Option α) : ofOption result ≠ outOfBounds := by
  cases result <;> intro impossible <;> cases impossible

theorem ofOption_eq_done_iff {result : Option α} {value : α} :
    ofOption result = done value ↔ result = some value := by
  cases result with
  | none => simp
  | some found => simp

end Access

/-- Read `count` bytes from `offset` on; every index must exist. -/
def slice (memory : List UInt8) (offset count : Nat) : Access (List UInt8) :=
  if offset + count ≤ memory.length then .done ((memory.drop offset).take count)
  else .outOfBounds

theorem slice_of_le {memory : List UInt8} {offset count : Nat}
    (inside : offset + count ≤ memory.length) :
    slice memory offset count = .done ((memory.drop offset).take count) := if_pos inside

theorem slice_of_lt {memory : List UInt8} {offset count : Nat}
    (outside : memory.length < offset + count) :
    slice memory offset count = .outOfBounds := if_neg (Nat.not_le_of_lt outside)

/-! ## Programs and their two interpretations -/

/-- A decoder that asks for bytes one block at a time. -/
inductive ReadProgram (α : Type) where
  | done (value : α)
  | reject
  | read (count : Nat) (next : List UInt8 → ReadProgram α)
  | remaining (next : Nat → ReadProgram α)

namespace ReadProgram

variable {α β γ : Type}

def bind : ReadProgram α → (α → ReadProgram β) → ReadProgram β
  | done value, next => next value
  | reject, _ => reject
  | read count rest, next => read count (fun bytes => bind (rest bytes) next)
  | remaining rest, next => remaining (fun left => bind (rest left) next)

instance : Monad ReadProgram where
  pure := done
  bind := bind

/-- Follow a cursor through memory.  A request is first compared with the
declared `bound`; only then are the bytes fetched from the memory itself. -/
def run (memory : List UInt8) (bound : Nat) : ReadProgram α → Nat → Access (α × Nat)
  | done value, position => .done (value, position)
  | reject, _ => .rejected
  | read count next, position =>
      if bound - position < count then .rejected
      else (slice memory position count).bind
        (fun bytes => run memory bound (next bytes) (position + count))
  | remaining next, position => run memory bound (next (bound - position)) position

/-- Consume a list of bytes, returning the bytes not asked for. -/
def parse : ReadProgram α → List UInt8 → Option (α × List UInt8)
  | done value, bytes => some (value, bytes)
  | reject, _ => none
  | read count next, bytes =>
      if bytes.length < count then none else parse (next (bytes.take count)) (bytes.drop count)
  | remaining next, bytes => parse (next bytes.length) bytes

/-- Inside its bound a cursor sees exactly the bytes a list reader sees, and
no read leaves the memory.  The cursor's position is recovered from the
number of bytes that the list reader leaves over. -/
theorem run_eq_parse (memory : List UInt8) (bound : Nat) (inside : bound ≤ memory.length)
    (program : ReadProgram α) (position : Nat) (reached : position ≤ bound) :
    run memory bound program position =
      Access.ofOption ((parse program ((memory.take bound).drop position)).map
        (fun result => (result.1, bound - result.2.length))) := by
  induction program generalizing position with
  | done value =>
      simp only [run, parse, Option.map_some, Access.ofOption_some, List.length_drop,
        List.length_take, Access.done.injEq, Prod.mk.injEq, true_and]
      omega
  | reject => rfl
  | read count next ih =>
      have available : ((memory.take bound).drop position).length = bound - position := by
        rw [List.length_drop, List.length_take, Nat.min_eq_left inside]
      simp only [run, parse, available]
      by_cases short : bound - position < count
      · simp only [if_pos short, Option.map_none, Access.ofOption_none]
      · have fetched : (memory.drop position).take count =
            ((memory.take bound).drop position).take count := by
          rw [List.drop_take, List.take_take, Nat.min_eq_left (by omega)]
        simp only [if_neg short]
        rw [slice_of_le (by omega), Access.bind, ih _ _ (by omega), fetched, List.drop_drop]
  | remaining next ih =>
      have available : ((memory.take bound).drop position).length = bound - position := by
        rw [List.length_drop, List.length_take, Nat.min_eq_left inside]
      simp only [run, parse, available]
      exact ih _ _ reached

/-- A cursor whose bound is inside the memory never reads outside it. -/
theorem run_ne_outOfBounds (memory : List UInt8) (bound : Nat) (inside : bound ≤ memory.length)
    (program : ReadProgram α) (position : Nat) (reached : position ≤ bound) :
    run memory bound program position ≠ .outOfBounds := by
  rw [run_eq_parse memory bound inside program position reached]
  exact Access.ofOption_ne_outOfBounds _

@[simp] theorem parse_pure (value : α) (bytes : List UInt8) :
    parse (pure value) bytes = some (value, bytes) := rfl

theorem parse_bind (program : ReadProgram α) (next : α → ReadProgram β) (bytes : List UInt8) :
    parse (program >>= next) bytes =
      (parse program bytes).bind (fun result => parse (next result.1) result.2) := by
  change parse (bind program next) bytes = _
  induction program generalizing bytes with
  | done value => rfl
  | reject => rfl
  | read count rest ih =>
      simp only [bind, parse]
      by_cases short : bytes.length < count
      · simp only [if_pos short, Option.bind_none]
      · simp only [if_neg short]
        exact ih _ _
  | remaining rest ih =>
      simp only [bind, parse]
      exact ih _ _

/-- A sequence accepts what its first part accepts in front of what the second
part accepts. -/
theorem parse_bind_eq_some_iff {program : ReadProgram α} {next : α → ReadProgram β}
    {bytes : List UInt8} {result : β × List UInt8} :
    parse (program >>= next) bytes = some result ↔
      ∃ value rest, parse program bytes = some (value, rest) ∧
        parse (next value) rest = some result := by
  rw [parse_bind, Option.bind_eq_some_iff, Prod.exists]

/-! ## What a program returns -/

/-- Whatever the program accepts, its value has the property. -/
def Ensures (property : α → Prop) (program : ReadProgram α) : Prop :=
  ∀ bytes value rest, parse program bytes = some (value, rest) → property value

theorem ensures_pure {property : α → Prop} {value : α} (holds : property value) :
    Ensures property (pure value) := by
  intro bytes found rest parsed
  rw [parse_pure, Option.some.injEq, Prod.mk.injEq] at parsed
  rw [← parsed.1]
  exact holds

/-- The last part of a sequence decides what is returned. -/
theorem ensures_bind {property : β → Prop} {program : ReadProgram α} {next : α → ReadProgram β}
    (all : ∀ value, Ensures property (next value)) : Ensures property (program >>= next) := by
  intro bytes result rest parsed
  rcases parse_bind_eq_some_iff.mp parsed with ⟨value, left, -, continued⟩
  exact all value left result rest continued

end ReadProgram

end Foundation
