import InferenceLedger.Distributed.Sessions

namespace InferenceLedger

open Foundation Std Threads

/-!
# Sessions come to their end

Once no process is started or killed any more, only finitely many steps of the
cluster can still do something, however they are ordered: bytes of a script are
consumed for every submission, a message on its way becomes a queued item, an
item becomes an answer, an answer is read, and a reader gives up at most once.
`Cluster.weight` counts all of that, and every step that moves lowers it.

When nothing moves any more, every process that was not killed has come to its
end.  There is no deadlock: a worker that waits has its request on the way, in
the queue or answered, and in each of these places somebody can take it further.
-/

namespace Cluster

/-- The parties take this step by themselves. -/
def Internal : ClusterStep → Prop
  | .connect _ _ _ _ => False
  | .kill _ => False
  | _ => True

/-- The step does something. -/
def moves (c : Cluster) : ClusterStep → Bool
  | .connect _ _ _ _ => true
  | .kill _ => true
  | .proceed conn => (c.sessions[conn]?).any fun s =>
      !s.killed && !s.worker.phase.ended && !s.worker.waiting
  | .deliver conn => (c.sessions[conn]?).any fun s =>
      !s.killed && s.worker.waiting && (receipt s.toWorker).arrived
  | .read conn => (c.sessions[conn]?).any fun s =>
      c.threads.readers[conn]? == some .reading && (receipt s.toCoordinator).arrived
  | .lose conn => (c.sessions[conn]?).any fun s =>
      c.threads.readers[conn]? == some .reading && s.gone
  | .account => !c.threads.queue.isEmpty

/-! ## Steps that do not move -/

theorem mapIdx_post_nil (sessions : List Session) :
    (sessions.mapIdx fun conn s => s.post (sentTo conn [])) = sessions := by
  apply List.ext_getElem?
  intro conn
  rw [List.getElem?_mapIdx]
  cases sessions[conn]? with
  | none => rfl
  | some s => exact congrArg some s.post_nil

theorem advance_idle {c : Cluster} {input : ThreadStep}
    (idle : Threads.step c.threads input = (c.threads, [])) : (c.advance input).1 = c := by
  simp only [advance, idle, mapIdx_post_nil]

theorem modify_of_idle {c : Cluster} {conn : Nat} {change : Session → Session}
    (idle : ∀ s, c.sessions[conn]? = some s → change s = s) :
    c.sessions.modify conn change = c.sessions := by
  apply List.ext_getElem?
  intro other
  rw [List.getElem?_modify]
  cases found : c.sessions[other]? with
  | none => rfl
  | some s =>
      by_cases same : conn = other
      · subst same
        simp [idle s found]
      · simp [same]

/-- A step that does not move changes nothing. -/
theorem step_of_not_moves {c : Cluster} {input : ClusterStep} (still : c.moves input = false) :
    (step c input).1 = c := by
  cases input with
  | connect worker boot script hold => cases still
  | kill conn => cases still
  | proceed conn =>
      have idle : c.sessions.modify conn Session.proceed = c.sessions := by
        apply modify_of_idle
        intro s found
        simp only [moves, found, Option.any_some] at still
        rw [Session.proceed]
        by_cases killed : s.killed = true
        · exact if_pos killed
        · rw [if_neg killed]
          have quiet : s.worker.proceed = (s.worker, []) := by
            unfold Worker.proceed
            cases phase : s.worker.phase <;> simp_all [Worker.waiting, Phase.ended]
          rw [quiet, List.append_nil]
      simp only [step, idle]
  | deliver conn =>
      have idle : c.sessions.modify conn Session.deliver = c.sessions := by
        apply modify_of_idle
        intro s found
        simp only [moves, found, Option.any_some] at still
        rw [Session.deliver]
        split
        · rfl
        · rename_i running
          cases received : receipt s.toWorker with
          | blocked => rfl
          | _ => simp_all [Receipt.arrived]
      simp only [step, idle]
  | read conn =>
      simp only [step]
      cases found : c.sessions[conn]? with
      | none => rfl
      | some s =>
          simp only [moves, found, Option.any_some] at still
          by_cases reading : c.threads.readers[conn]? = some .reading
          · simp only [if_pos reading, read]
            cases received : receipt s.toCoordinator with
            | blocked => rfl
            | outOfBounds => rfl
            | _ => simp_all [Receipt.arrived]
          · simp only [if_neg reading]
  | lose conn =>
      simp only [step]
      cases found : c.sessions[conn]? with
      | none => rfl
      | some s =>
          simp only [moves, found, Option.any_some] at still
          by_cases gone : s.gone = true
          · simp only [if_pos gone]
            apply advance_idle
            have ended : ¬ c.threads.readers[conn]? = some .reading := by
              intro reading
              simp [reading, gone] at still
            exact if_neg ended
          · simp only [if_neg gone]
  | account =>
      simp only [step]
      apply advance_idle
      have empty : c.threads.queue = [] := by simpa [moves] using still
      simp [Threads.step, Threads.account, empty]

/-! ## Readers stay with their processes -/

/-- The reader of a connection is at work, or the process is gone. -/
def Attended (c : Cluster) : Prop :=
  ∀ (conn : Nat) (s : Session), c.sessions[conn]? = some s → s.worker.ScriptFits →
    c.threads.readers[conn]? = some .reading ∨ s.gone = true

theorem readers_length {ledgerId : LedgerId} {schedule : List ThreadStep} {c : Cluster}
    (coherent : Coherent ledgerId schedule c) :
    c.threads.readers.length = c.sessions.length := by
  have aligned := aligned_after ledgerId schedule
  rw [← coherent.threads] at aligned
  exact aligned.trans coherent.sessions.symm

theorem gone_proceed {s : Session} (gone : s.gone = true) : s.proceed.gone = true := by
  rw [Session.proceed]
  split
  · exact gone
  · have quiet : s.worker.proceed = (s.worker, []) := by
      unfold Worker.proceed
      cases phase : s.worker.phase <;> simp_all [Session.gone, Worker.exited]
    rw [quiet, List.append_nil]
    exact gone

theorem gone_deliver {s : Session} (gone : s.gone = true) : s.deliver.gone = true := by
  have quiet : (s.killed || !s.worker.waiting) = true := by
    cases phase : s.worker.phase <;> simp_all [Session.gone, Worker.exited, Worker.waiting]
  rw [Session.deliver, if_pos quiet]
  exact gone

section Attendance

variable {ledgerId : LedgerId} {schedule : List ThreadStep} {c : Cluster}

theorem Attended.modify (attended : c.Attended) {change : Session → Session} (source : Nat)
    (arguments : ∀ s, (change s).worker.arguments = s.worker.arguments)
    (gone : ∀ s, s.gone = true → (change s).gone = true) :
    Attended { c with sessions := c.sessions.modify source change } := by
  intro conn s found fits
  rw [List.getElem?_modify] at found
  rcases Option.map_eq_some_iff.mp found with ⟨before, listed, same⟩
  split at same
  · rw [← same] at fits ⊢
    have earlier := Worker.scriptFits_of_arguments (arguments before) fits
    exact (attended conn before listed earlier).imp id (gone before)
  · rw [← same] at fits ⊢
    exact attended conn before listed fits

/-- A step of the threads that ends no reader, or only one whose process is
gone. -/
theorem Attended.advance (attended : c.Attended) {sessions : List Session} {input : ThreadStep}
    (same : ∀ (conn : Nat) (s : Session), sessions[conn]? = some s →
      ∃ before : Session, c.sessions[conn]? = some before ∧ s.worker = before.worker ∧
        s.killed = before.killed)
    (kept : ∀ (conn : Nat) (s : Session), c.sessions[conn]? = some s → s.worker.ScriptFits →
      c.threads.readers[conn]? = some .reading →
      (Threads.step c.threads input).1.readers[conn]? = some .reading ∨ s.gone = true) :
    Attended (Cluster.advance { c with sessions } input).1 := by
  intro conn s found fits
  rw [getElem?_advance] at found
  rcases Option.map_eq_some_iff.mp found with ⟨posted, listed, rfl⟩
  rcases same conn posted listed with ⟨before, there, worker, killed⟩
  have goneSame : (posted.post (sentTo conn (Threads.step c.threads input).2)).gone =
      before.gone := by
    simp only [Session.post, Session.gone, worker, killed]
  change posted.worker.ScriptFits at fits
  rw [worker] at fits
  change (Threads.step c.threads input).1.readers[conn]? = some .reading ∨ _
  rw [goneSame]
  rcases attended conn before there fits with reading | gone
  · exact kept conn before there fits reading
  · exact Or.inr gone

theorem readers_receive (threads : Threads) (source : Nat) (message : Message) :
    (Threads.step threads (.receive source message)).1.readers = threads.readers := by
  simp only [Threads.step]
  split
  · have same := congrArg Threads.readers (receive_eq threads source message).1
    exact same
  · rfl

theorem readers_receiveFailure (threads : Threads) (source : Nat) :
    (Threads.step threads (.receiveFailure source)).1.readers = threads.readers ∨
      (Threads.step threads (.receiveFailure source)).1.readers =
        threads.readers.set source .ended := by
  simp only [Threads.step]
  split
  · exact Or.inr (by rw [receiveFailure_eq])
  · exact Or.inl rfl

theorem Attended.fail (attended : c.Attended) {source : Nat}
    (lost : ∀ s, c.sessions[source]? = some s → s.worker.ScriptFits → s.gone = true) :
    Attended (c.advance (.receiveFailure source)).1 := by
  refine attended.advance (fun conn s listed => ⟨s, listed, rfl, rfl⟩)
    fun conn s listed fits reading => ?_
  rcases readers_receiveFailure c.threads source with same | ended
  · rw [same]
    exact Or.inl reading
  · by_cases own : source = conn
    · subst own
      exact Or.inr (lost s listed fits)
    · rw [ended]
      exact Or.inl (reading_set_iff.mpr ⟨own, reading⟩)

theorem Attended.step (attended : c.Attended) (coherent : Coherent ledgerId schedule c)
    (input : ClusterStep) : (step c input).1.Attended := by
  cases input with
  | connect worker boot script hold =>
      intro conn s found fits
      have lengths := readers_length coherent
      change (c.sessions ++ _)[conn]? = some s at found
      change (c.threads.readers ++ [.reading])[conn]? = some .reading ∨ _
      by_cases old : conn < c.sessions.length
      · rw [List.getElem?_append_left old] at found
        rw [List.getElem?_append_left (lengths ▸ old)]
        exact attended conn s found fits
      · rw [List.getElem?_append_right (Nat.le_of_not_lt old)] at found
        rw [List.getElem?_append_right (lengths ▸ Nat.le_of_not_lt old), lengths]
        rcases List.getElem?_eq_some_iff.mp found with ⟨inside, -⟩
        rw [Nat.lt_one_iff.mp inside]
        exact Or.inl rfl
  | proceed source =>
      exact attended.modify source Session.arguments_proceed fun _ gone => gone_proceed gone
  | deliver source =>
      exact attended.modify source Session.arguments_deliver fun _ gone => gone_deliver gone
  | kill source => exact attended.modify source (fun _ => rfl) fun _ _ => rfl
  | account =>
      refine attended.advance (fun conn s listed => ⟨s, listed, rfl, rfl⟩)
        fun conn s _ _ reading => Or.inl ?_
      simp only [Threads.step, Threads.account]
      split <;> exact reading
  | lose source =>
      simp only [Cluster.step]
      split
      · exact attended
      · rename_i s listed
        split
        · rename_i gone
          refine attended.fail fun other found _ => ?_
          rw [listed] at found
          cases found
          exact gone
        · exact attended
  | read source =>
      simp only [Cluster.step]
      split
      · exact attended
      · rename_i s listed
        split
        · unfold Cluster.read
          cases arrived : receipt s.toCoordinator with
          | blocked => exact attended
          | outOfBounds => exact attended
          | failed err =>
              refine attended.fail fun other found fits => ?_
              rw [listed] at found
              cases found
              rcases coherent.converses source s listed fits with ⟨up, down, conversation⟩
              exact (conversation.not_failed arrived).elim
          | received message rest =>
              refine attended.advance (fun conn other found => ?_) fun conn other _ _ reading =>
                Or.inl ?_
              · rw [List.getElem?_modify] at found
                rcases Option.map_eq_some_iff.mp found with ⟨before, there, same⟩
                refine ⟨before, there, ?_⟩
                split at same <;> exact same ▸ ⟨rfl, rfl⟩
              · rw [readers_receive]
                exact reading
        · exact attended

end Attendance

/-! ## What is left to do -/

/-- What an item can still cause among that many connections. -/
def itemWeight (count : Nat) : WorkItem → Nat
  | .workerLost _ _ => 25 * count + 1
  | .register _ _ => 201
  | .event _ _ => 201

/-- What a process can still do by itself. -/
def workerWeight (w : Worker) : Nat :=
  if w.phase.ended then 0
  else (if w.phase = .connected then 204 else 1) + 203 * (w.data.length - w.pos)

def sessionWeight (count : Nat) (reader : Option Reader) (s : Session) : Nat :=
  workerWeight s.worker + (if s.toCoordinator.isEmpty then 0 else 202) + s.toWorker.length +
    if reader = some .reading then 25 * count + 2 else 0

def weightAt (c : Cluster) (conn : Nat) : Nat :=
  (c.sessions[conn]?).elim 0 (sessionWeight c.sessions.length c.threads.readers[conn]?)

def queueWeight (count : Nat) (queue : List WorkItem) : Nat := (queue.map (itemWeight count)).sum

/-- All that is left to do. -/
def weight (c : Cluster) : Nat :=
  ∑ conn ∈ Finset.range c.sessions.length, c.weightAt conn +
    queueWeight c.sessions.length c.threads.queue

/-- Lowering one summand lowers the sum by as much. -/
theorem sum_add_le_of_point {count point amount : Nat} {lower upper : Nat → Nat}
    (inside : point < count) (lowered : lower point + amount ≤ upper point)
    (kept : ∀ index, index ≠ point → lower index ≤ upper index) :
    ∑ index ∈ Finset.range count, lower index + amount ≤ ∑ index ∈ Finset.range count, upper index := by
  have member : point ∈ Finset.range count := Finset.mem_range.mpr inside
  rw [← Finset.add_sum_erase _ lower member, ← Finset.add_sum_erase _ upper member]
  have others : ∑ index ∈ (Finset.range count).erase point, lower index ≤
      ∑ index ∈ (Finset.range count).erase point, upper index :=
    Finset.sum_le_sum fun index erased => kept index (Finset.ne_of_mem_erase erased)
  omega

theorem queueWeight_append (count : Nat) (first second : List WorkItem) :
    queueWeight count (first ++ second) = queueWeight count first + queueWeight count second := by
  rw [queueWeight, List.map_append, List.sum_append]
  rfl

theorem queueWeight_itemsOf_le (count conn : Nat) (message : Message) :
    queueWeight count (itemsOf conn message) ≤ 201 := by
  cases message <;> simp [queueWeight, itemsOf, itemWeight]

theorem queueWeight_lossOf_le (count conn : Nat) (threads : Threads) :
    queueWeight count (threads.lossOf conn) ≤ 25 * count + 1 := by
  unfold lossOf
  split <;> simp [queueWeight, itemWeight]

theorem weightAt_of_listed {c : Cluster} {conn : Nat} {s : Session}
    (listed : c.sessions[conn]? = some s) :
    c.weightAt conn = sessionWeight c.sessions.length c.threads.readers[conn]? s := by
  rw [weightAt, listed]
  rfl

/-- A step of one session that lowers its weight. -/
theorem sum_weightAt_modify {c : Cluster} {conn amount : Nat} {s : Session}
    {change : Session → Session} (listed : c.sessions[conn]? = some s)
    (lowered : sessionWeight c.sessions.length c.threads.readers[conn]? (change s) + amount ≤
      sessionWeight c.sessions.length c.threads.readers[conn]? s) :
    ∑ index ∈ Finset.range c.sessions.length,
        weightAt { c with sessions := c.sessions.modify conn change } index + amount ≤
      ∑ index ∈ Finset.range c.sessions.length, c.weightAt index := by
  rcases List.getElem?_eq_some_iff.mp listed with ⟨inside, -⟩
  have length : (c.sessions.modify conn change).length = c.sessions.length := List.length_modify ..
  apply sum_add_le_of_point inside
  · have changed : (c.sessions.modify conn change)[conn]? = some (change s) := by
      simp [listed]
    rw [weightAt_of_listed changed, weightAt_of_listed listed, length]
    exact lowered
  · intro other different
    have same : (c.sessions.modify conn change)[other]? = c.sessions[other]? := by
      simp [different.symm]
    rw [weightAt, weightAt, same, length]

theorem weight_modify_lt {c : Cluster} {conn : Nat} {s : Session} {change : Session → Session}
    (listed : c.sessions[conn]? = some s)
    (lowered : sessionWeight c.sessions.length c.threads.readers[conn]? (change s) <
      sessionWeight c.sessions.length c.threads.readers[conn]? s) :
    weight { c with sessions := c.sessions.modify conn change } < c.weight := by
  have total := @sum_weightAt_modify c conn 1 s change listed lowered
  have length : (c.sessions.modify conn change).length = c.sessions.length := List.length_modify ..
  simp only [weight, length]
  omega

/-! ## Every step that moves lowers the weight -/

theorem isEmpty_wire_cons {message : Message} (sound : message.Sound) (messages : List Message) :
    (wire (message :: messages)).isEmpty = false := by
  rw [List.isEmpty_eq_false_iff]
  intro empty
  have arrives := receipt_wire_cons sound messages
  rw [empty] at arrives
  cases receipt_nil.symm.trans arrives

section Sessions

variable {conn : Nat} {s : Session} {d : Desk} {up down : List Message}
  (conversation : Conversation conn s d up down)
include conversation

/-- A process that goes on consumes its script or comes to its end. -/
theorem sessionWeight_proceed_lt (count : Nat) (reader : Option Reader)
    (fits : s.worker.ScriptFits) (advances : s.worker.Advances) (alive : s.killed = false)
    (open_ : s.worker.phase.ended = false) (busy : s.worker.waiting = false) :
    sessionWeight count reader s.proceed < sessionWeight count reader s := by
  have running : ¬ s.killed = true := by simp [alive]
  rw [Session.proceed, if_neg running]
  rcases Worker.proceed_cases conversation.orderly with ⟨phase, moved⟩ |
    ⟨phase, e, consumed, found, inside, decoded, encoded, moved⟩ |
    ⟨phase, next, lines, ended, quiet, settled, moved⟩ | ⟨stands, -⟩
  · rcases conversation.talk.of_connected phase with ⟨-, -, rfl, -⟩
    have empty : s.toCoordinator = [] := conversation.toCoordinator
    have sent := isEmpty_wire_cons (Message.sound_register ⟨s.worker.worker, s.worker.boot⟩) []
    change (wire [s.worker.registration]).isEmpty = false at sent
    simp only [moved, sessionWeight, workerWeight, phase, empty, List.nil_append, sent,
      Phase.ended, Worker.data, List.isEmpty_nil, if_false, if_true, Bool.false_eq_true, reduceCtorEq]
    omega
  · have settled := conversation.talk.of_settled (by simp [phase]) busy
    rcases settled with ⟨-, -, -, rfl, -⟩
    have empty : s.toCoordinator = [] := conversation.toCoordinator
    have entry := scriptEntry_of_decoded found inside decoded
    have sent := isEmpty_wire_cons
      (Message.sound_submit entry encoded (fits _ e entry)) []
    have progress := advances _ _ e consumed found inside decoded
    simp only [moved, sessionWeight, workerWeight, phase, empty, List.nil_append, sent,
      Phase.ended, Worker.data, List.isEmpty_nil, if_false, if_true, Bool.false_eq_true, reduceCtorEq]
    rw [Worker.data] at inside
    omega
  · have stopped : workerWeight { s.worker with phase := next, lines := s.worker.lines ++ lines } =
        0 := if_pos ended
    have before : workerWeight s.worker = 1 + 203 * (s.worker.data.length - s.worker.pos) := by
      simp [workerWeight, phase, Phase.ended]
    simp only [moved, sessionWeight, stopped, before, List.append_nil]
    omega
  · simp [open_, busy] at stands

omit conversation in
theorem workerWeight_receive_le (w : Worker) (message : Message) (waits : w.waiting = true) :
    workerWeight (w.receive message) ≤ workerWeight w := by
  cases phase : w.phase with
  | registering =>
      cases message with
      | registerAck ack =>
          simp only [Worker.receive, phase]
          split
          · simp only [workerWeight, Worker.registered, phase, Worker.data]
            split <;> simp [Phase.ended]
          · simp [workerWeight, Worker.fail, Phase.ended]
      | _ => simp [Worker.receive, phase, workerWeight, Worker.fail, Phase.ended]
  | awaiting =>
      cases message with
      | roll roll => simp [Worker.receive, phase, workerWeight, Worker.rolled, Worker.data]
      | eventAck ack =>
          simp [Worker.receive, phase, workerWeight, Worker.acknowledged, Phase.ended, Worker.data]
      | _ => simp [Worker.receive, phase, workerWeight, Worker.fail, Phase.ended]
  | _ => simp [Worker.waiting, phase] at waits

/-- A message that is received is no longer under way. -/
theorem sessionWeight_deliver_lt (count : Nat) (reader : Option Reader) (alive : s.killed = false)
    (waits : s.worker.waiting = true) (arrived : (receipt s.toWorker).arrived = true) :
    sessionWeight count reader s.deliver < sessionWeight count reader s := by
  have running : ¬ (s.killed || !s.worker.waiting) = true := by simp [alive, waits]
  rw [Session.deliver, if_neg running]
  rw [conversation.toWorker] at arrived ⊢
  cases down with
  | nil =>
      rw [receipt_nil] at arrived
      cases arrived
  | cons message down =>
      have sound := conversation.soundDown message List.mem_cons_self
      rw [receipt_wire_cons sound]
      have shorter : (wire down).length < s.toWorker.length := by
        have first : 0 < (wire [message]).length :=
          List.length_pos_iff.mpr (List.isEmpty_eq_false_iff.mp (isEmpty_wire_cons sound []))
        rw [conversation.toWorker, ← List.singleton_append, wire_append, List.length_append]
        omega
      have lighter := workerWeight_receive_le s.worker message waits
      simp only [sessionWeight]
      omega

end Sessions

/-- The state from which the rest of a run is followed. -/
structure Lively (ledgerId : LedgerId) (c : Cluster) : Prop where
  coherent : ∃ schedule, Coherent ledgerId schedule c
  attended : c.Attended
  scripts : ∀ (conn : Nat) (s : Session), c.sessions[conn]? = some s →
    s.worker.ScriptFits ∧ s.worker.Advances

section Lowering

variable {ledgerId : LedgerId} {c : Cluster} (lively : Lively ledgerId c)
include lively

theorem Lively.conversation {conn : Nat} {s : Session} (listed : c.sessions[conn]? = some s) :
    ∃ d up down, Conversation conn s d up down := by
  rcases lively.coherent with ⟨schedule, coherent⟩
  rcases coherent.converses conn s listed (lively.scripts conn s listed).1 with
    ⟨up, down, conversation⟩
  exact ⟨_, up, down, conversation⟩

theorem weight_proceed_lt {conn : Nat} (moving : c.moves (.proceed conn) = true) :
    (step c (.proceed conn)).1.weight < c.weight := by
  rcases (Option.any_eq_true _ _).mp moving with ⟨s, listed, facts⟩
  simp only [Bool.and_eq_true, Bool.not_eq_true'] at facts
  rcases facts with ⟨⟨alive, running⟩, busy⟩
  rcases lively.conversation listed with ⟨d, up, down, conversation⟩
  rcases lively.scripts conn s listed with ⟨fits, advances⟩
  exact weight_modify_lt listed
    (sessionWeight_proceed_lt conversation _ _ fits advances alive running busy)

theorem weight_deliver_lt {conn : Nat} (moving : c.moves (.deliver conn) = true) :
    (step c (.deliver conn)).1.weight < c.weight := by
  rcases (Option.any_eq_true _ _).mp moving with ⟨s, listed, facts⟩
  simp only [Bool.and_eq_true, Bool.not_eq_true'] at facts
  rcases facts with ⟨⟨alive, waits⟩, arrived⟩
  rcases lively.conversation listed with ⟨d, up, down, conversation⟩
  exact weight_modify_lt listed (sessionWeight_deliver_lt conversation _ _ alive waits arrived)

omit lively in
theorem sessionWeight_post (count : Nat) (reader : Option Reader) (s : Session)
    (messages : List Message) :
    sessionWeight count reader (s.post messages) =
      sessionWeight count reader s + (wire messages).length := by
  have posted : (s.post messages).toWorker.length = s.toWorker.length + (wire messages).length :=
    List.length_append
  rw [sessionWeight, posted, sessionWeight]
  change workerWeight s.worker + (if s.toCoordinator.isEmpty then 0 else 202) + _ + _ = _
  omega

omit lively in
/-- A step of the threads adds to every session what is sent to it. -/
theorem weightAt_advance {input : ThreadStep} {conn : Nat} {s : Session}
    (listed : c.sessions[conn]? = some s) :
    (c.advance input).1.weightAt conn =
      sessionWeight c.sessions.length (Threads.step c.threads input).1.readers[conn]? s +
        (wire (sentTo conn (Threads.step c.threads input).2)).length := by
  have posted : (c.advance input).1.sessions[conn]? =
      some (s.post (sentTo conn (Threads.step c.threads input).2)) := by
    rw [getElem?_advance, listed]
    rfl
  rw [weightAt_of_listed posted, length_advance, sessionWeight_post]
  rfl

omit lively in
theorem sum_weightAt_advance {input : ThreadStep}
    (readers : (Threads.step c.threads input).1.readers = c.threads.readers) :
    ∑ conn ∈ Finset.range c.sessions.length, (c.advance input).1.weightAt conn =
      ∑ conn ∈ Finset.range c.sessions.length, c.weightAt conn +
        ∑ conn ∈ Finset.range c.sessions.length,
          (wire (sentTo conn (Threads.step c.threads input).2)).length := by
  rw [← Finset.sum_add_distrib]
  apply Finset.sum_congr rfl
  intro conn member
  have listed := List.getElem?_eq_getElem (Finset.mem_range.mp member)
  rw [weightAt_advance listed, weightAt_of_listed listed, readers]

theorem weight_read_lt {conn : Nat} (moving : c.moves (.read conn) = true) :
    (step c (.read conn)).1.weight < c.weight := by
  rcases (Option.any_eq_true _ _).mp moving with ⟨s, listed, facts⟩
  simp only [Bool.and_eq_true, beq_iff_eq] at facts
  rcases facts with ⟨reading, arrived⟩
  rcases lively.conversation listed with ⟨d, up, down, conversation⟩
  rcases conversation.receipt_toCoordinator with ⟨-, blocked⟩ | ⟨message, rest, rfl, received⟩
  · rw [blocked] at arrived
    cases arrived
  rcases conversation.request with ⟨request, rfl⟩
  have sent : s.toCoordinator.isEmpty = false := by
    rw [conversation.toCoordinator]
    exact isEmpty_wire_cons (conversation.soundUp message List.mem_cons_self) []
  -- The message leaves the connection, and becomes at most one item.
  generalize consumedEq : ({ c with sessions := c.sessions.modify conn fun s =>
    { s with toCoordinator := wire [] } } : Cluster) = consumed
  have threads : consumed.threads = c.threads := by rw [← consumedEq]
  have length : consumed.sessions.length = c.sessions.length := by
    rw [← consumedEq]
    exact List.length_modify ..
  have moved : (step c (.read conn)).1 = (consumed.advance (.receive conn message)).1 := by
    rw [← consumedEq]
    simp only [step, listed, if_pos reading, read, received]
  have lowered := @sum_weightAt_modify c conn 202 s (fun s => { s with toCoordinator := wire [] })
    listed (by
      simp only [sessionWeight, sent, wire, List.flatMap_nil, List.isEmpty_nil, if_true,
        Bool.false_eq_true, if_false]
      omega)
  rw [consumedEq] at lowered
  have taken : Threads.step c.threads (.receive conn message) =
      ({ c.threads with queue := c.threads.queue ++ itemsOf conn message },
        .received conn message :: (c.threads.receive conn message).2.map .sent) := by
    simp only [Threads.step, if_pos reading, (receive_eq c.threads conn message).1]
  have total := @sum_weightAt_advance consumed (.receive conn message) (readers_receive _ _ _)
  have silent : ∀ other, sentTo other (Threads.step c.threads (.receive conn message)).2 = [] := by
    intro other
    rw [taken]
    exact (sentTo_map_sent other _).trans
      (messagesTo_receive other c.threads conn message (Or.inr request))
  have queue : (consumed.advance (.receive conn message)).1.threads.queue =
      c.threads.queue ++ itemsOf conn message := by
    rw [threads_advance, threads, taken]
  have items := queueWeight_itemsOf_le c.sessions.length conn message
  rw [threads, length] at total
  simp only [silent, wire, List.flatMap_nil, List.length_nil, Finset.sum_const_zero, add_zero]
    at total
  rw [moved, weight, length_advance, length, queue, queueWeight_append, weight, total]
  omega

omit lively in
theorem weight_lose_lt {conn : Nat} (moving : c.moves (.lose conn) = true) :
    (step c (.lose conn)).1.weight < c.weight := by
  rcases (Option.any_eq_true _ _).mp moving with ⟨s, listed, facts⟩
  simp only [Bool.and_eq_true, beq_iff_eq] at facts
  rcases facts with ⟨reading, gone⟩
  have inside := (List.getElem?_eq_some_iff.mp listed).1
  have moved : (step c (.lose conn)).1 = (c.advance (.receiveFailure conn)).1 := by
    simp only [step, listed, if_pos gone]
  have failed : Threads.step c.threads (.receiveFailure conn) =
      ({ c.threads with
          readers := c.threads.readers.set conn .ended
          queue := c.threads.queue ++ c.threads.lossOf conn }, []) := by
    simp only [Threads.step, if_pos reading, receiveFailure_eq]
  have total : ∑ index ∈ Finset.range c.sessions.length,
      (c.advance (.receiveFailure conn)).1.weightAt index + (25 * c.sessions.length + 2) ≤
      ∑ index ∈ Finset.range c.sessions.length, c.weightAt index := by
    apply sum_add_le_of_point inside
    · have ended : (c.threads.readers.set conn Reader.ended)[conn]? ≠ some .reading :=
        fun still => (reading_set_iff.mp still).1 rfl
      rw [weightAt_advance listed, weightAt_of_listed listed, failed]
      simp only [sessionWeight, if_neg ended, if_pos reading, sentTo, List.filterMap_nil, wire,
        List.flatMap_nil, List.length_nil]
      omega
    · intro other different
      cases there : c.sessions[other]? with
      | none =>
          rw [weightAt, getElem?_advance, there]
          exact Nat.zero_le _
      | some t =>
          have same : (c.threads.readers.set conn Reader.ended)[other]? =
              c.threads.readers[other]? := List.getElem?_set_ne different.symm
          rw [weightAt_advance there, weightAt_of_listed there, failed]
          simp only [same, sentTo, List.filterMap_nil, wire, List.flatMap_nil, List.length_nil]
          omega
  have queue : (c.advance (.receiveFailure conn)).1.threads.queue =
      c.threads.queue ++ c.threads.lossOf conn := by
    rw [threads_advance, failed]
  have losses := queueWeight_lossOf_le c.sessions.length conn c.threads
  rw [moved, weight, length_advance, queue, queueWeight_append, weight]
  omega

omit lively in
/-- Every message goes to one connection at most. -/
theorem sum_wire_le (count : Nat) (sends : List Send) :
    ∑ conn ∈ Finset.range count, (wire (messagesTo conn sends)).length ≤
      (sends.map fun send => (wire [send.message]).length).sum := by
  induction sends with
  | nil => simp [messagesTo, wire]
  | cons send sends ih =>
      have split : ∀ conn, (wire (messagesTo conn (send :: sends))).length =
          (if send.conn = some conn then (wire [send.message]).length else 0) +
            (wire (messagesTo conn sends)).length := by
        intro conn
        by_cases own : send.conn = some conn
        · have front : messagesTo conn (send :: sends) = [send.message] ++ messagesTo conn sends := by
            simp [messagesTo, own]
          rw [front, wire_append, List.length_append, if_pos own]
        · have skipped : messagesTo conn (send :: sends) = messagesTo conn sends := by
            simp [messagesTo, own]
          rw [skipped, if_neg own, Nat.zero_add]
      have once : ∑ conn ∈ Finset.range count,
          (if send.conn = some conn then (wire [send.message]).length else 0) ≤
            (wire [send.message]).length := by
        cases target : send.conn with
        | none => simp
        | some own =>
            simp only [Option.some.injEq, Finset.sum_ite_eq, Finset.mem_range]
            split <;> omega
      simp only [split, Finset.sum_add_distrib, List.map_cons, List.sum_cons]
      omega

omit lively in
theorem length_wire_singleton {message : Message} (sound : message.Sound) :
    (wire [message]).length = 8 + message.wireSize := by
  rcases Option.isSome_iff_exists.mp sound.encoded with ⟨bytes, encoded⟩
  rcases Option.map_eq_some_iff.mp encoded with ⟨payload, written, framed⟩
  have fits : message.StringsFit := by
    apply stringsFit_of_wireSize
    have size := sound.size
    rw [frameLimit] at size
    omega
  have content := length_messageContent written fits
  rw [wire, List.flatMap_singleton, encoded, Option.getD_some, ← framed, length_frame]
  exact congrArg (8 + ·) content

omit lively in
/-- What handling an item sends weighs less than the item. -/
theorem accounting_sends_lt {coordinator : Coordinator} {count : Nat}
    (conns : coordinator.allConns.length = count) (item : WorkItem) :
    ((Coordinator.accounting coordinator item).2.map
      fun send => (wire [send.message]).length).sum < itemWeight count item := by
  have sizes : ∀ send ∈ (Coordinator.accounting coordinator item).2,
      (wire [send.message]).length = 8 + send.message.wireSize :=
    fun send sent => length_wire_singleton (Coordinator.sound_of_sent sent)
  rw [List.map_congr_left sizes]
  cases item with
  | register conn reg =>
      change 8 + Message.wireSize (.registerAck _) + 0 < 201
      rw [Message.wireSize, length_ofString]
      decide
  | event conn e =>
      have short := Ledger.append_reason_short coordinator.ledger
        (some (coordinator.authorityFor e)) e
      rw [← coordinator.accountEvent_result e] at short
      change 8 + Message.wireSize (.eventAck (acknowledgement (coordinator.accountEvent e).2)) + 0 < 201
      rw [Message.wireSize, acknowledgement, length_ofString]
      omega
  | workerLost conn worker =>
      have each : ((Coordinator.accounting coordinator (.workerLost conn worker)).2.map
          fun send => 8 + send.message.wireSize) =
          (coordinator.rollTargets worker).map fun _ => 25 := by
        change (List.map _ (List.map _ _)) = _
        rw [List.map_map]
        rfl
      have few : (coordinator.rollTargets worker).length ≤ count := by
        rw [← conns, Coordinator.rollTargets]
        exact (List.length_filter_le _ _).trans_eq List.length_range
      rw [each, List.map_const', List.sum_replicate, smul_eq_mul, itemWeight]
      omega

theorem weight_account_lt (moving : c.moves .account = true) :
    (step c .account).1.weight < c.weight := by
  rcases lively.coherent with ⟨schedule, coherent⟩
  cases front : c.threads.queue with
  | nil => simp [moves, front] at moving
  | cons item rest =>
      have done : Threads.step c.threads .account =
          ({ c.threads with
              coordinator := (Coordinator.accounting c.threads.coordinator item).1
              queue := rest },
            .handled item ::
              (Coordinator.accounting c.threads.coordinator item).2.map .sent) := by
        simp only [Threads.step, Threads.account, front]
      have readers : (Threads.step c.threads .account).1.readers = c.threads.readers := by
        rw [done]
      have total := sum_weightAt_advance readers
      have answers : ∀ conn, sentTo conn (Threads.step c.threads .account).2 =
          messagesTo conn (Coordinator.accounting c.threads.coordinator item).2 := by
        intro conn
        rw [done]
        exact sentTo_map_sent conn _
      simp only [answers] at total
      have bounded := sum_wire_le c.sessions.length
        (Coordinator.accounting c.threads.coordinator item).2
      have lighter := accounting_sends_lt coherent.sessions.symm item
      have queue : (c.advance .account).1.threads.queue = rest := by
        rw [threads_advance, done]
      have before : queueWeight c.sessions.length c.threads.queue =
          itemWeight c.sessions.length item + queueWeight c.sessions.length rest := by
        rw [front, queueWeight, List.map_cons, List.sum_cons]
        rfl
      change (c.advance .account).1.weight < _
      rw [weight, length_advance, queue, weight, before, total]
      omega

/-- Every step that the parties take by themselves and that moves lowers the
weight. -/
theorem weight_lt_of_moves {input : ClusterStep} (own : Internal input)
    (moving : c.moves input = true) : (step c input).1.weight < c.weight := by
  cases input with
  | connect worker boot script hold => exact own.elim
  | kill conn => exact own.elim
  | proceed conn => exact weight_proceed_lt lively moving
  | deliver conn => exact weight_deliver_lt lively moving
  | read conn => exact weight_read_lt lively moving
  | lose conn => exact weight_lose_lt moving
  | account => exact weight_account_lt lively moving

omit lively in
theorem arguments_modify {source conn : Nat} {s : Session} {change : Session → Session}
    (arguments : ∀ s, (change s).worker.arguments = s.worker.arguments)
    (listed : (c.sessions.modify source change)[conn]? = some s) :
    ∃ before : Session, c.sessions[conn]? = some before ∧
      before.worker.arguments = s.worker.arguments := by
  rw [List.getElem?_modify] at listed
  rcases Option.map_eq_some_iff.mp listed with ⟨before, there, same⟩
  refine ⟨before, there, ?_⟩
  split at same
  · rw [← same, arguments]
  · rw [← same]

omit lively in
theorem arguments_advance {input : ThreadStep} {conn : Nat} {s : Session}
    (listed : (c.advance input).1.sessions[conn]? = some s) :
    ∃ before : Session, c.sessions[conn]? = some before ∧
      before.worker.arguments = s.worker.arguments := by
  rw [getElem?_advance] at listed
  rcases Option.map_eq_some_iff.mp listed with ⟨before, there, rfl⟩
  exact ⟨before, there, rfl⟩

omit lively in
/-- The parties start no process by themselves, and give none other arguments. -/
theorem arguments_step {input : ClusterStep} (own : Internal input) {conn : Nat} {s : Session}
    (listed : (Cluster.step c input).1.sessions[conn]? = some s) :
    ∃ before : Session, c.sessions[conn]? = some before ∧
      before.worker.arguments = s.worker.arguments := by
  cases input with
  | connect worker boot script hold => exact own.elim
  | kill source => exact own.elim
  | proceed source => exact arguments_modify Session.arguments_proceed listed
  | deliver source => exact arguments_modify Session.arguments_deliver listed
  | account => exact arguments_advance listed
  | lose source =>
      simp only [Cluster.step] at listed
      split at listed
      · exact ⟨s, listed, rfl⟩
      · split at listed
        · exact arguments_advance listed
        · exact ⟨s, listed, rfl⟩
  | read source =>
      simp only [Cluster.step] at listed
      split at listed
      · exact ⟨s, listed, rfl⟩
      · split at listed
        · unfold Cluster.read at listed
          split at listed
          · exact ⟨s, listed, rfl⟩
          · exact arguments_advance listed
          · exact ⟨s, listed, rfl⟩
          · rename_i message rest arrived
            rcases arguments_advance listed with ⟨between, there, same⟩
            rcases @arguments_modify c source conn between
              (fun s => { s with toCoordinator := rest }) (fun _ => rfl) there with
              ⟨before, earlier, equal⟩
            exact ⟨before, earlier, equal.trans same⟩
        · exact ⟨s, listed, rfl⟩

/-- Such a step keeps the arguments of every process. -/
theorem Lively.step {input : ClusterStep} (own : Internal input) :
    Lively ledgerId (Cluster.step c input).1 := by
  rcases lively.coherent with ⟨schedule, coherent⟩
  refine ⟨⟨_, coherent.step input⟩, lively.attended.step coherent input, ?_⟩
  intro conn s listed
  rcases arguments_step own listed with ⟨before, there, same⟩
  rcases lively.scripts conn before there with ⟨fits, advances⟩
  have data : s.worker.data = before.worker.data :=
    congrArg (fun arguments => arguments.2.2.1.getD []) same.symm
  refine ⟨Worker.scriptFits_of_arguments same fits, ?_⟩
  intro index pos e consumed
  rw [data]
  exact advances index pos e consumed

end Lowering

/-! ## No deadlock -/

/-- When no step moves, every process that was not killed has come to its end. -/
theorem ended_of_rest {ledgerId : LedgerId} {c : Cluster} (lively : Lively ledgerId c)
    (rest : Machine.AtRest moves Internal c) {conn : Nat} {s : Session}
    (listed : c.sessions[conn]? = some s) (alive : s.killed = false) :
    s.worker.phase.ended = true := by
  by_contra running
  rw [Bool.not_eq_true] at running
  rcases lively.coherent with ⟨schedule, coherent⟩
  have fits := (lively.scripts conn s listed).1
  have present : ¬ s.gone = true := by
    cases phase : s.worker.phase <;>
      simp_all [Session.gone, Worker.exited, Phase.ended]
  have reading := (lively.attended conn s listed fits).resolve_right present
  rcases coherent.converses conn s listed fits with ⟨up, down, conversation⟩
  have queue : c.threads.queue = [] := by simpa [moves] using rest .account trivial
  cases waits : s.worker.waiting with
  | false =>
      have still := rest (.proceed conn) trivial
      simp [moves, listed, alive, running, waits] at still
  | true =>
      -- The request of the worker can be taken further, wherever it is.
      rcases conversation.talk.somewhere waits with sent | queued | answered
      · have still := rest (.read conn) trivial
        rcases conversation.receipt_toCoordinator with ⟨empty, -⟩ | ⟨message, more, -, received⟩
        · exact sent empty
        · simp [moves, listed, reading, received, Receipt.arrived] at still
      · apply queued
        change c.threads.queue.filter _ = []
        rw [queue, List.filter_nil]
      · have still := rest (.deliver conn) trivial
        cases down with
        | nil => exact answered rfl
        | cons message more =>
            have received := receipt_wire_cons
              (conversation.soundDown message List.mem_cons_self) more
            rw [← conversation.toWorker] at received
            simp [moves, listed, alive, waits, received, Receipt.arrived] at still

/-! ## Every continuation -/

theorem attended_after (ledgerId : LedgerId) (steps : List ClusterStep) :
    (after ledgerId steps).Attended := by
  induction steps using List.reverseRecOn with
  | nil =>
      intro conn s found
      cases found
  | append_singleton steps input ih =>
      rw [after, Machine.run_concat]
      exact ih.step (coherent_after ledgerId steps) input

/-- A worker with one entry in its script was started. -/
def startedRun : List ClusterStep :=
  [.connect ⟨0, 1⟩ ⟨0, 2⟩ (some (entryFrame onlyEntry)) true]

end Cluster

end InferenceLedger
