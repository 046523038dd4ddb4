import InferenceLedger.Foundation.History

namespace Foundation

/-!
# Writers that share a stream

Several threads write blocks of items onto one stream.  The stream takes a block
in pieces, as many or as few items at a time as it likes, and it may fail; what
it took before it failed stays there.  A lock keeps a writer alone from the
beginning of its block to the end.

The stream is then the concatenation of what each write put on it, in the order
in which the writes ended, and of the begun piece of the write that is still
going on.  A write that came to its end put its whole block there.  A failure
closes nothing: the next writer goes on behind the piece at which it happened,
so that the blocks are whole only up to the first write that was torn.
-/

variable {Thread Block α : Type}

/-- The write that holds the lock, and how many of its items are out. -/
structure Write (Thread Block α : Type) where
  thread : Thread
  block : Block
  items : List α
  sent : Nat

/-- A stream and its lock. -/
structure SharedStream (Thread Block α : Type) where
  out : List α := []
  write : Option (Write Thread Block α) := none

/-- The steps: a writer asks for the lock, the stream takes up to a number of
items, or it reports its end or a failure. -/
inductive WriteStep (Thread Block : Type) where
  | enter (thread : Thread) (block : Block)
  | take (count : Nat)
  | closed
  | failed

/-- How a write ended. -/
inductive WriteResult where
  | complete | refused | closed | failed
deriving DecidableEq

/-- A write that has ended, and how many of its items it put out. -/
structure WriteEnd (Thread Block : Type) where
  thread : Thread
  block : Block
  result : WriteResult
  sent : Nat

namespace SharedStream

variable (encode : Block → Option (List α))

/-- The writer is cut off, and lets the lock go. -/
def cut (s : SharedStream Thread Block α) (result : WriteResult) :
    SharedStream Thread Block α × List (WriteEnd Thread Block) :=
  match s.write with
  | none => (s, [])
  | some w => ({ s with write := none }, [⟨w.thread, w.block, result, w.sent⟩])

/-- The stream as a machine that puts out the writes that end.  A block without
an encoding is refused under the lock. -/
def step : Machine (SharedStream Thread Block α) (WriteStep Thread Block)
    (List (WriteEnd Thread Block))
  | s, .enter thread block =>
      match s.write with
      | some _ => (s, [])
      | none =>
          match encode block with
          | none => (s, [⟨thread, block, .refused, 0⟩])
          | some [] => (s, [⟨thread, block, .complete, 0⟩])
          | some items => ({ s with write := some ⟨thread, block, items, 0⟩ }, [])
  | s, .take count =>
      match s.write with
      | none => (s, [])
      | some w =>
          let out := s.out ++ (w.items.drop w.sent).take count
          if w.sent + count < w.items.length then
            ({ s with out, write := some { w with sent := w.sent + count } }, [])
          else ({ s with out, write := none }, [⟨w.thread, w.block, .complete, w.items.length⟩])
  | s, .closed => s.cut .closed
  | s, .failed => s.cut .failed

/-- The block of a write that came to its end. -/
def completed (ended : WriteEnd Thread Block) : Option Block :=
  if ended.result = .complete then some ended.block else none

/-- A write that was given up with some of its items already out. -/
def Torn (ended : WriteEnd Thread Block) : Prop :=
  ended.result ≠ .complete ∧ ended.sent ≠ 0

instance : DecidablePred (@Torn Thread Block) :=
  fun ended => inferInstanceAs (Decidable (ended.result ≠ .complete ∧ ended.sent ≠ 0))

/-- The writes that ended before the first torn one. -/
def untilTorn (ends : List (WriteEnd Thread Block)) : List (WriteEnd Thread Block) :=
  ends.takeWhile fun ended => ¬ Torn ended

/-- What a write left on the stream. -/
def portion (ended : WriteEnd Thread Block) : List α :=
  ((encode ended.block).getD []).take ended.sent

/-- What is out of the write that is going on. -/
def begun (s : SharedStream Thread Block α) : List α :=
  (s.write.map fun w => w.items.take w.sent).getD []

/-- Since a write was torn the stream has taken nothing. -/
def Quiet (ends : List (WriteEnd Thread Block)) (s : SharedStream Thread Block α) : Prop :=
  ∀ before torn after, ends = before ++ torn :: after → Torn torn →
    (∀ later ∈ after, later.sent = 0) ∧ ∀ w, s.write = some w → w.sent = 0

/-- A piece of one of these blocks, short of the whole. -/
def Piece (blocks : List Block) (tail : List α) : Prop :=
  ∃ block ∈ blocks, ∃ items, encode block = some items ∧ ∃ sent < items.length,
    tail = items.take sent

/-- The blocks of which a writer has asked for the lock. -/
def entered : WriteStep Thread Block → Option Block
  | .enter _ block => some block
  | _ => none

/-- A write that came to its end put its whole block out, and any other one a
piece of it at most. -/
structure Accounted (blocks : List Block) (ended : WriteEnd Thread Block) : Prop where
  known : ended.block ∈ blocks
  whole : ended.result = .complete → ∃ items, encode ended.block = some items ∧
    ended.sent = items.length
  torn : Torn ended → ∃ items, encode ended.block = some items ∧ ended.sent < items.length

/-- What is on the stream: what each write left, and the piece that is begun. -/
structure Laid (blocks : List Block) (ends : List (WriteEnd Thread Block))
    (s : SharedStream Thread Block α) : Prop where
  accounted : ∀ ended ∈ ends, Accounted encode blocks ended
  writing : ∀ w, s.write = some w → w.block ∈ blocks ∧ encode w.block = some w.items ∧
    w.sent < w.items.length
  stream : s.out = ends.flatMap (portion encode) ++ s.begun

section Steps

variable {encode} {blocks : List Block} {ends : List (WriteEnd Thread Block)}
  {s : SharedStream Thread Block α}

theorem Laid.accounted_concat (laid : Laid encode blocks ends s) {ended : WriteEnd Thread Block}
    (last : Accounted encode blocks ended) :
    ∀ other ∈ ends ++ [ended], Accounted encode blocks other := by
  intro other inside
  rcases List.mem_append.mp inside with old | new
  · exact laid.accounted other old
  · exact List.mem_singleton.mp new ▸ last

theorem portion_complete {thread : Thread} {block : Block} {items : List α}
    (encoded : encode block = some items) :
    portion encode ⟨thread, block, .complete, items.length⟩ = items := by
  simp [portion, encoded]

theorem accounted_complete {thread : Thread} {block : Block} {items : List α}
    (member : block ∈ blocks) (encoded : encode block = some items) :
    Accounted encode blocks ⟨thread, block, .complete, items.length⟩ :=
  ⟨member, fun _ => ⟨items, encoded, rfl⟩, fun torn => absurd rfl torn.1⟩

theorem Laid.enter (laid : Laid encode blocks ends s) {thread : Thread} {block : Block}
    (member : block ∈ blocks) :
    Laid encode blocks (ends ++ (step encode s (.enter thread block)).2)
      (step encode s (.enter thread block)).1 := by
  simp only [step]
  cases writing : s.write with
  | some w =>
      simp only [List.append_nil]
      exact laid
  | none =>
      have idle : s.begun = [] := by simp [begun, writing]
      have out : s.out = ends.flatMap (portion encode) := by
        rw [laid.stream, idle, List.append_nil]
      cases encoded : encode block with
      | none =>
          refine ⟨laid.accounted_concat ⟨member, nofun, fun torn => absurd rfl torn.2⟩,
            laid.writing, ?_⟩
          simp [out, idle, portion]
      | some items =>
          cases items with
          | nil =>
              refine ⟨laid.accounted_concat (accounted_complete member encoded), laid.writing, ?_⟩
              simp [out, idle, portion]
          | cons item items =>
              simp only [List.append_nil]
              refine ⟨laid.accounted, ?_, ?_⟩
              · intro w same
                cases same
                exact ⟨member, encoded, Nat.zero_lt_succ _⟩
              · simp [out, begun]

/-- The writer that is cut off leaves the piece that it had begun. -/
theorem Laid.cut (laid : Laid encode blocks ends s) {result : WriteResult}
    (incomplete : result ≠ .complete) :
    Laid encode blocks (ends ++ (s.cut result).2) (s.cut result).1 := by
  unfold SharedStream.cut
  cases writing : s.write with
  | none =>
      simp only [List.append_nil]
      exact laid
  | some w =>
      rcases laid.writing w writing with ⟨member, encoded, short⟩
      refine ⟨laid.accounted_concat ⟨member, fun complete => absurd complete incomplete,
        fun _ => ⟨w.items, encoded, short⟩⟩, nofun, ?_⟩
      simp [laid.stream, portion, encoded, begun, writing]

/-- What the stream has of the current block, when it takes more. -/
theorem take_append_drop_take {items : List α} (sent count : Nat) :
    items.take sent ++ (items.drop sent).take count = items.take (sent + count) :=
  List.take_add.symm

theorem Laid.take (laid : Laid encode blocks ends s) (count : Nat) :
    Laid encode blocks (ends ++ (step encode s (.take count)).2)
      (step encode s (.take count)).1 := by
  simp only [step]
  cases writing : s.write with
  | none =>
      simp only [List.append_nil]
      exact laid
  | some w =>
      rcases laid.writing w writing with ⟨member, encoded, -⟩
      have more : s.out ++ (w.items.drop w.sent).take count =
          ends.flatMap (portion encode) ++ w.items.take (w.sent + count) := by
        have current : s.begun = w.items.take w.sent := by simp [begun, writing]
        rw [laid.stream, current, List.append_assoc, take_append_drop_take]
      simp only []
      split
      · rename_i short
        simp only [List.append_nil]
        refine ⟨laid.accounted, ?_, more⟩
        intro other same
        cases same
        exact ⟨member, encoded, short⟩
      · rename_i enough
        refine ⟨laid.accounted_concat (accounted_complete member encoded), nofun, ?_⟩
        rw [more, List.take_of_length_le (Nat.le_of_not_lt enough), List.flatMap_append]
        simp [portion_complete encoded, begun]

theorem Laid.step (laid : Laid encode blocks ends s) {input : WriteStep Thread Block}
    (known : ∀ block, entered input = some block → block ∈ blocks) :
    Laid encode blocks (ends ++ (SharedStream.step encode s input).2)
      (SharedStream.step encode s input).1 := by
  cases input with
  | enter thread block => exact laid.enter (known block rfl)
  | take count => exact laid.take count
  | closed => exact laid.cut (by simp)
  | failed => exact laid.cut (by simp)

end Steps

/-- However the writers are scheduled and whatever the stream takes at a time. -/
theorem laid_run (steps : List (WriteStep Thread Block)) :
    Laid encode (steps.filterMap entered) ((step encode).trace {} steps)
      ((step encode).run {} steps) := by
  have initial : Laid encode (steps.filterMap entered) [] ({} : SharedStream Thread Block α) :=
    ⟨nofun, nofun, rfl⟩
  refine Machine.run_traced_of_steps initial
    (fun ends s input known laid => Laid.step laid known) ?_
  intro before input later split block same
  refine List.mem_filterMap.mpr ⟨input, ?_, same⟩
  rw [split]
  exact List.mem_append_right before List.mem_cons_self

/-! ## Up to the first torn write -/

section Torn

variable {encode} {blocks : List Block} {ends : List (WriteEnd Thread Block)}
  {s : SharedStream Thread Block α}

/-- Writes none of which was torn leave the blocks of those that came to their
end. -/
theorem portions_of_untorn (accounted : ∀ ended ∈ ends, Accounted encode blocks ended)
    (untorn : ∀ ended ∈ ends, ¬ Torn ended) :
    ends.flatMap (portion encode) =
      (ends.filterMap completed).flatMap fun block => (encode block).getD [] := by
  induction ends with
  | nil => rfl
  | cons ended ends ih =>
      rw [List.forall_mem_cons] at accounted untorn
      rw [List.flatMap_cons, ih accounted.2 untorn.2]
      by_cases complete : ended.result = .complete
      · rcases accounted.1.whole complete with ⟨items, encoded, all⟩
        simp [completed, complete, portion, encoded, all]
      · have nothing : ended.sent = 0 := by
          by_contra some
          exact untorn.1 ⟨complete, some⟩
        simp [completed, complete, portion, nothing]

/-- The writes up to the first torn one, it, and the later ones. -/
theorem untilTorn_split (ends : List (WriteEnd Thread Block)) :
    ends = untilTorn ends ∨
      ∃ torn after, ends = untilTorn ends ++ torn :: after ∧ Torn torn := by
  induction ends with
  | nil => exact Or.inl rfl
  | cons ended ends ih =>
      by_cases torn : Torn ended
      · exact Or.inr ⟨ended, ends, by simp [untilTorn, torn], torn⟩
      · have first : untilTorn (ended :: ends) = ended :: untilTorn ends := by
          simp [untilTorn, torn]
        rw [first]
        rcases ih with whole | ⟨other, after, split, isTorn⟩
        · exact Or.inl (congrArg (ended :: ·) whole)
        · exact Or.inr ⟨other, after, congrArg (ended :: ·) split, isTorn⟩

theorem untorn_of_mem_untilTorn {ended : WriteEnd Thread Block} (member : ended ∈ untilTorn ends) :
    ended ∈ ends ∧ ¬ Torn ended :=
  ⟨(List.takeWhile_prefix _).subset member, by simpa using List.mem_takeWhile_imp member⟩

theorem Laid.begun_piece (laid : Laid encode blocks ends s) :
    s.begun = [] ∨ Piece encode blocks s.begun := by
  cases writing : s.write with
  | none => exact Or.inl (by simp [begun, writing])
  | some w =>
      rcases laid.writing w writing with ⟨member, encoded, short⟩
      exact Or.inr ⟨w.block, member, w.items, encoded, w.sent, short, by simp [begun, writing]⟩

/-- A stream on which nothing happened since the first torn write. -/
theorem quiet_of_last (untorn : ∀ ended ∈ ends, ¬ Torn ended) (last : WriteEnd Thread Block)
    (idle : s.write = none) : Quiet (ends ++ [last]) s := by
  intro before torn after split isTorn
  refine ⟨?_, fun w writing => ?_⟩
  · rcases List.eq_nil_or_concat after with rfl | ⟨later, other, rfl⟩
    · exact List.forall_mem_nil _
    · rw [List.concat_eq_append, ← List.cons_append, ← List.append_assoc] at split
      rw [(List.append_inj_left' split rfl)] at untorn
      exact absurd isTorn (untorn torn (List.mem_append_right before List.mem_cons_self))
  · rw [idle] at writing
    cases writing

/-- The blocks that were completed before the first torn write stand in front,
whole and in order.  If the stream was quiet from then on, at most a piece of
one block stands behind them. -/
theorem Laid.front (laid : Laid encode blocks ends s) :
    ∃ tail, s.out = ((untilTorn ends).filterMap completed).flatMap
        (fun block => (encode block).getD []) ++ tail ∧
      (Quiet ends s → tail = [] ∨ Piece encode blocks tail) := by
  have front : (untilTorn ends).flatMap (portion encode) =
      ((untilTorn ends).filterMap completed).flatMap fun block => (encode block).getD [] :=
    portions_of_untorn
      (fun ended member => laid.accounted ended (untorn_of_mem_untilTorn member).1)
      (fun ended member => (untorn_of_mem_untilTorn member).2)
  rcases untilTorn_split ends with whole | ⟨torn, after, split, isTorn⟩
  · refine ⟨s.begun, ?_, fun _ => laid.begun_piece⟩
    rw [laid.stream, ← front, ← whole]
  · refine ⟨portion encode torn ++ (after.flatMap (portion encode) ++ s.begun), ?_, ?_⟩
    · calc s.out = ends.flatMap (portion encode) ++ s.begun := laid.stream
        _ = (untilTorn ends ++ torn :: after).flatMap (portion encode) ++ s.begun := by
            rw [← split]
        _ = _ := by rw [List.flatMap_append, front]; simp
    · intro quiet
      rcases quiet _ _ _ split isTorn with ⟨later, idle⟩
      have nothing : after.flatMap (portion encode) = [] :=
        List.flatMap_eq_nil_iff.mpr fun ended member => by simp [portion, later ended member]
      have empty : s.begun = [] := by
        cases writing : s.write with
        | none => simp [begun, writing]
        | some w => simp [begun, writing, idle w writing]
      have member : torn ∈ ends := by
        rw [split]
        exact List.mem_append_right _ List.mem_cons_self
      have known := laid.accounted torn member
      rcases known.torn isTorn with ⟨items, encoded, short⟩
      refine Or.inr ⟨torn.block, known.known, items, encoded, torn.sent, short, ?_⟩
      simp [nothing, empty, portion, encoded]

end Torn

end SharedStream

end Foundation
