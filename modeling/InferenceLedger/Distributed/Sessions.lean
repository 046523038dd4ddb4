import InferenceLedger.Distributed.Conversations

namespace InferenceLedger

open Foundation Std

/-!
# Sessions

Every run of the cluster keeps all its connections in conversation, whatever the
order of the steps, and whichever processes are started or killed in between.
What follows is what an operator relies on: a worker only ever stops because of
its own script; the number in an `ACK` line is the number of the entry in the
script, and the status behind it is the verdict on that entry; the entries are
handled in the order of the script, none twice and none left out; and a worker
that has read all that was sent to it goes by the current authority.
-/

open Threads

namespace Cluster

/-- A connection is in conversation. -/
def Converses (observed : List Observation) (threads : Threads) (conn : Nat) (s : Session) : Prop :=
  s.worker.ScriptFits → ∃ up down, Conversation conn s (desk conn observed threads) up down

/-- The cluster after the threads have taken these steps. -/
structure Coherent (ledgerId : LedgerId) (schedule : List ThreadStep) (c : Cluster) : Prop where
  threads : c.threads = Threads.after ledgerId schedule
  sessions : c.sessions.length = c.threads.coordinator.allConns.length
  converses : ∀ conn s, c.sessions[conn]? = some s →
    Converses (Threads.seen ledgerId schedule) c.threads conn s

section Steps

variable {observed : List Observation} {threads : Threads} {conn : Nat} {s : Session}

theorem Converses.advance (converses : Converses observed threads conn s)
    (inside : conn < threads.coordinator.allConns.length) {input : ThreadStep}
    (other : ∀ message, input ≠ .receive conn message) :
    Converses (observed ++ (Threads.step threads input).2) (Threads.step threads input).1 conn
      (s.post (sentTo conn (Threads.step threads input).2)) := by
  intro fits
  rcases converses fits with ⟨up, down, conversation⟩
  exact ⟨up, _, conversation.post (desk_step (fun _ => inside) other)
    fun message sent => sound_of_sentTo sent⟩

theorem Converses.proceed (converses : Converses observed threads conn s) :
    Converses observed threads conn s.proceed := by
  intro fits
  have before := Worker.scriptFits_of_arguments s.arguments_proceed fits
  rcases converses before with ⟨up, down, conversation⟩
  rcases conversation.proceed before with ⟨up', moved⟩
  exact ⟨up', down, moved⟩

theorem Converses.deliver (converses : Converses observed threads conn s) :
    Converses observed threads conn s.deliver := by
  intro fits
  rcases converses (Worker.scriptFits_of_arguments s.arguments_deliver fits) with
    ⟨up, down, conversation⟩
  rcases conversation.deliver with ⟨down', moved⟩
  exact ⟨up, down', moved⟩

theorem Converses.kill (converses : Converses observed threads conn s) :
    Converses observed threads conn { s with killed := true } := by
  intro fits
  rcases converses fits with ⟨up, down, conversation⟩
  exact ⟨up, down, conversation.orderly, conversation.toCoordinator, conversation.toWorker,
    conversation.soundUp, conversation.soundDown, conversation.talk, conversation.submitted,
    conversation.acks, conversation.pair⟩

/-- The reader of the connection takes a message. -/
theorem Converses.read (converses : Converses observed threads conn s)
    (reading : threads.readers[conn]? = some .reading) {message : Message} {rest : List UInt8}
    (arrived : receipt s.toCoordinator = .received message rest) :
    Converses (observed ++ (Threads.step threads (.receive conn message)).2)
      (Threads.step threads (.receive conn message)).1 conn
      ({ s with toCoordinator := rest }.post
        (sentTo conn (Threads.step threads (.receive conn message)).2)) := by
  intro fits
  rcases converses fits with ⟨up, down, conversation⟩
  rw [conversation.toCoordinator] at arrived
  cases up with
  | nil =>
      rw [receipt_nil] at arrived
      cases arrived
  | cons first up =>
      rw [receipt_wire_cons (conversation.soundUp first List.mem_cons_self)] at arrived
      cases arrived
      rcases desk_receive reading observed conversation.request.1 with ⟨silent, desk⟩
      refine ⟨up, down, ?_⟩
      rw [silent, desk, Session.post_nil]
      exact conversation.read

end Steps

/-! ## One step of the cluster -/

section Coherence

variable {ledgerId : LedgerId} {schedule : List ThreadStep} {c : Cluster}

/-- A step that leaves the threads alone and changes one session. -/
theorem Coherent.modify (coherent : Coherent ledgerId schedule c) {change : Session → Session}
    (source : Nat)
    (kept : ∀ conn s, Converses (Threads.seen ledgerId schedule) c.threads conn s →
      Converses (Threads.seen ledgerId schedule) c.threads conn (change s)) :
    Coherent ledgerId schedule { c with sessions := c.sessions.modify source change } where
  threads := coherent.threads
  sessions := (List.length_modify ..).trans coherent.sessions
  converses := by
    intro conn s found
    rw [List.getElem?_modify] at found
    rcases Option.map_eq_some_iff.mp found with ⟨before, listed, same⟩
    have converses := coherent.converses conn before listed
    split at same
    · rw [← same]
      exact kept conn before converses
    · rw [← same]
      exact converses

/-- The trace of the threads after one more step. -/
theorem seen_concat (ledgerId : LedgerId) (schedule : List ThreadStep) (input : ThreadStep) :
    Threads.seen ledgerId (schedule ++ [input]) =
      Threads.seen ledgerId schedule ++
        (Threads.step (Threads.after ledgerId schedule) input).2 :=
  Machine.trace_concat _ _ _

/-- A step of the threads, when every session is ready for it. -/
theorem Coherent.advanced {sessions : List Session} {input : ThreadStep}
    (coherent : Coherent ledgerId schedule c) (length : sessions.length = c.sessions.length)
    (ready : ∀ conn s, sessions[conn]? = some s →
      Converses (Threads.seen ledgerId schedule ++ (Threads.step c.threads input).2)
        (Threads.step c.threads input).1 conn
        (s.post (sentTo conn (Threads.step c.threads input).2)))
    (conns : (Threads.step c.threads input).1.coordinator.allConns.length =
      c.threads.coordinator.allConns.length) :
    Coherent ledgerId (schedule ++ [input])
      (advance { c with sessions } input).1 where
  threads := by
    rw [Threads.after, Machine.run_concat]
    change (Threads.step c.threads input).1 = _
    rw [coherent.threads]
  sessions := by
    rw [length_advance, length, coherent.sessions]
    exact conns.symm
  converses := by
    intro conn s found
    rw [getElem?_advance] at found
    rcases Option.map_eq_some_iff.mp found with ⟨before, listed, same⟩
    rw [seen_concat, ← coherent.threads, ← same]
    exact ready conn before listed

theorem length_allConns_step {threads : Threads} {input : ThreadStep} (old : input ≠ .accept) :
    (Threads.step threads input).1.coordinator.allConns.length =
      threads.coordinator.allConns.length := by
  cases input with
  | accept => exact (old rfl).elim
  | receive conn message =>
      simp only [Threads.step]
      split
      · rw [(receive_eq threads conn message).1]
      · rfl
  | receiveFailure conn =>
      simp only [Threads.step]
      split
      · rw [receiveFailure_eq]
      · rfl
  | account =>
      simp only [Threads.step, Threads.account]
      split
      · rfl
      · exact length_allConns_accounting _ _

/-- A step of the threads that takes no message. -/
theorem Coherent.advance (coherent : Coherent ledgerId schedule c) {input : ThreadStep}
    (old : input ≠ .accept) (other : ∀ conn message, input ≠ .receive conn message) :
    Coherent ledgerId (schedule ++ [input]) (c.advance input).1 := by
  refine coherent.advanced rfl (fun conn s listed => ?_) (length_allConns_step old)
  rcases List.getElem?_eq_some_iff.mp listed with ⟨inside, -⟩
  rw [coherent.sessions] at inside
  exact (coherent.converses conn s listed).advance inside (other conn)

/-- A new process connects; nothing was said yet. -/
theorem Coherent.connect (coherent : Coherent ledgerId schedule c) (w : Worker)
    (phase : w.phase = .connected) (start : w.pos = 0 ∧ w.index = 0 ∧ w.lines = []) :
    Coherent ledgerId (schedule ++ [.accept])
      { threads := c.threads.accept, sessions := c.sessions ++ [{ worker := w }] } where
  threads := by
    rw [Threads.after, Machine.run_concat, coherent.threads]
    rfl
  sessions := by
    simp [coherent.sessions, accept, Coordinator.accept]
  converses := by
    intro conn s found
    have observed : Threads.seen ledgerId (schedule ++ [.accept]) =
        Threads.seen ledgerId schedule := by
      rw [seen_concat]
      exact List.append_nil _
    rw [observed]
    intro fits
    rw [desk_accept]
    rw [List.getElem?_append] at found
    split at found
    · exact coherent.converses conn s found fits
    · rename_i outside
      rw [List.getElem?_singleton] at found
      split at found
      · cases found
        have unknown : (Threads.after ledgerId schedule).coordinator.allConns.length ≤ conn := by
          rw [← coherent.threads, ← coherent.sessions]
          exact Nat.le_of_not_lt outside
        rw [coherent.threads, desk_unknown ledgerId schedule unknown]
        rcases start with ⟨pos, index, lines⟩
        refine ⟨[], [], ⟨?_, ?_, ?_, ?_⟩, rfl, rfl, by simp, by simp, .fresh phase, ?_, ?_, ?_⟩
        · simp [Worker.sentCount, phase, index, pos, framePosition]
        · simp [lines]
        · simp [Worker.printedAcks, lines, index]
        · simp [lines]
        · simp [Worker.sentCount, phase, index, scriptEntries]
        · simp [Worker.printedAcks, lines]
        · simp [lines]
      · cases found

/-- A reader takes a message from its connection. -/
theorem Coherent.read (coherent : Coherent ledgerId schedule c) {source : Nat} {s : Session}
    (listed : c.sessions[source]? = some s)
    (reading : c.threads.readers[source]? = some .reading) {message : Message} {rest : List UInt8}
    (arrived : receipt s.toCoordinator = .received message rest) :
    Coherent ledgerId (schedule ++ [.receive source message])
      (Cluster.advance
        { c with sessions := c.sessions.modify source fun s => { s with toCoordinator := rest } }
        (.receive source message)).1 := by
  refine coherent.advanced (List.length_modify ..) (fun conn other found => ?_)
    (length_allConns_step (by simp))
  rw [List.getElem?_modify] at found
  rcases Option.map_eq_some_iff.mp found with ⟨before, there, same⟩
  by_cases own : source = conn
  · subst own
    rw [listed] at there
    cases there
    rw [if_pos rfl] at same
    rw [← same]
    exact (coherent.converses source s listed).read reading arrived
  · rw [if_neg own] at same
    rw [← same]
    rcases List.getElem?_eq_some_iff.mp there with ⟨inside, -⟩
    rw [coherent.sessions] at inside
    refine (coherent.converses conn before there).advance inside fun message same => ?_
    cases same
    exact own rfl

/-- Every step keeps all connections in conversation. -/
theorem Coherent.step (coherent : Coherent ledgerId schedule c) (input : ClusterStep) :
    Coherent ledgerId (schedule ++ (step c input).2) (step c input).1 := by
  cases input with
  | connect worker boot script hold => exact coherent.connect _ rfl ⟨rfl, rfl, rfl⟩
  | proceed source =>
      rw [Cluster.step, List.append_nil]
      exact coherent.modify source fun _ _ converses => converses.proceed
  | deliver source =>
      rw [Cluster.step, List.append_nil]
      exact coherent.modify source fun _ _ converses => converses.deliver
  | kill source =>
      rw [Cluster.step, List.append_nil]
      exact coherent.modify source fun _ _ converses => converses.kill
  | account => exact coherent.advance (by simp) (by simp)
  | lose source =>
      simp only [Cluster.step]
      split
      · rw [List.append_nil]
        exact coherent
      · split
        · exact coherent.advance (by simp) (by simp)
        · rw [List.append_nil]
          exact coherent
  | read source =>
      simp only [Cluster.step]
      split
      · rw [List.append_nil]
        exact coherent
      · rename_i s listed
        split
        · rename_i reading
          unfold Cluster.read
          split
          · rw [List.append_nil]
            exact coherent
          · exact coherent.advance (by simp) (by simp)
          · rw [List.append_nil]
            exact coherent
          · rename_i message rest arrived
            exact coherent.read listed reading arrived
        · rw [List.append_nil]
          exact coherent

end Coherence

/-! ## Every run -/

theorem coherent_after (ledgerId : LedgerId) (steps : List ClusterStep) :
    Coherent ledgerId (schedule ledgerId steps) (after ledgerId steps) := by
  have initial : Coherent ledgerId [] (new ledgerId) := by
    refine ⟨rfl, rfl, fun conn s found => ?_⟩
    cases found
  exact Machine.run_traced initial (fun _ _ input coherent => coherent.step input) steps

section Runs

variable {ledgerId : LedgerId} {steps : List ClusterStep} {conn : Nat} {s : Session}
  (listed : (after ledgerId steps).sessions[conn]? = some s) (fits : s.worker.ScriptFits)
include listed fits

/-- Every connection of a run is in conversation. -/
theorem conversation_after :
    ∃ up down, Conversation conn s
      (desk conn (seen ledgerId steps) (after ledgerId steps).threads) up down :=
  (coherent_after ledgerId steps).converses conn s listed fits

end Runs

/-! ## What the conversation says about the coordinator's history -/

section Histories

variable {ledgerId : LedgerId} {steps : List ThreadStep} {conn : Nat} {s : Session}
  {up down : List Message}

theorem filterMap_ackIn_sentTo (observed : List Observation) :
    (sentTo conn observed).filterMap ackIn = acks conn observed := by
  rw [sentTo, acks, List.filterMap_filterMap]
  congr 1
  funext observation
  cases observation with
  | sent send =>
      rcases send with ⟨target, message⟩
      by_cases own : target = some conn
      · cases message <;> simp [messageTo, ackOn, ackOf, ackIn, own]
      · cases message <;> simp [messageTo, ackOn, ackOf, own]
  | received source message => rfl
  | handled item => rfl

theorem latest_pairIn_sentTo (observed : List Observation) :
    latest pairIn (sentTo conn observed) = lastPair conn observed := by
  rw [latest, lastPair, latest, sentTo, List.filterMap_filterMap]
  congr 2
  funext observation
  cases observation with
  | sent send =>
      rcases send with ⟨target, message⟩
      by_cases own : target = some conn
      · cases message <;> simp [messageTo, pairOn, pairOf, pairIn, own]
      · cases message <;> simp [messageTo, pairOn, pairOf, own]
  | received source message => rfl
  | handled item => rfl

/-- The events of the connection in the queue are among its queued items. -/
theorem eventsOn_eq_filter (items : List WorkItem) :
    eventsOn conn items = eventsOn conn (items.filter (isItemOn conn)) := by
  rw [eventsOn, eventsOn, List.filterMap_filter]
  congr 1
  funext item
  cases item with
  | register source reg => simp [eventOn]
  | event source e =>
      by_cases own : source = some conn
      · simp [eventOn, isItemOn, own]
      · simp [eventOn, own]
  | workerLost source worker => rfl

variable (conversation : Conversation conn s
  (desk conn (Threads.seen ledgerId steps) (Threads.after ledgerId steps)) up down)
include conversation

/-- The entries of the script that were sent are in one of three places. -/
theorem submitted_places :
    eventsOn conn (handled (Threads.seen ledgerId steps)) ++
        eventsOn conn (desk conn (Threads.seen ledgerId steps) (Threads.after ledgerId steps)).queued ++
        up.filterMap entryIn =
      scriptEntries s.worker.data s.worker.sentCount := by
  rw [← conversation.submitted]
  change _ = submissions conn _ ++ _
  rw [submissions_eq, eventsOn_eq_filter (Threads.after ledgerId steps).queue]
  rfl

/-- There is an answer for every event that was handled. -/
theorem answered_places :
    answers ledgerId conn (handled (Threads.seen ledgerId steps)) =
      s.worker.printedAcks ++ down.filterMap ackIn := by
  rw [← conversation.acks, ← acks_eq_answers]
  exact (filterMap_ackIn_sentTo _).symm

/-- When the worker is done, every entry of its script was handled. -/
theorem handled_of_finished (finished : s.worker.phase = .finished) (index : Nat) :
    (eventsOn conn (handled (Threads.seen ledgerId steps)))[index]? =
      scriptEntry s.worker.data index := by
  have places := submitted_places conversation
  have position := conversation.orderly.position
  rcases conversation.talk.of_settled (by simp [finished]) (by simp [Worker.waiting, finished])
    with ⟨settled, -, queued, rfl, -⟩
  rw [Worker.Settled, finished] at settled
  rw [Worker.sentCount, if_neg (by simp [finished])] at places position
  have all : eventsOn conn (handled (Threads.seen ledgerId steps)) =
      scriptEntries s.worker.data s.worker.index := by
    rw [← places, queued]
    simp [eventsOn]
  rw [all, getElem?_scriptEntries_of_end position settled.1]

end Histories

/-! ## What an operator relies on -/

variable (ledgerId : LedgerId) (steps : List ClusterStep) (conn : Nat) (s : Session)

/-- A worker is never refused, cut off or confused by the coordinator: it fails
only because its script is missing, at a frame that is not an entry, or at an
entry that cannot be encoded. -/
theorem failure_of_script (listed : (after ledgerId steps).sessions[conn]? = some s)
    (fits : s.worker.ScriptFits) {failure : Failure}
    (failed : s.worker.phase = .failed failure) :
    (failure = .cannotOpenScript ∧ s.worker.script = none) ∨
    (failure = .badScriptFrame s.worker.index ∧
      ∃ pos, framePosition s.worker.data s.worker.index = some pos ∧ pos < s.worker.data.length ∧
        decodeEntry (s.worker.data.drop pos) = .rejected) ∨
    (failure = .sendSubmit "message encode failed" ∧
      ∃ e, scriptEntry s.worker.data s.worker.index = some e ∧
        encodeMessage (.eventSubmit e) = none) := by
  rcases conversation_after listed fits with ⟨up, down, conversation⟩
  have position := conversation.orderly.position
  rw [Worker.sentCount, if_neg (by simp [failed])] at position
  have settled : s.worker.Settled :=
    (conversation.talk.of_settled (by simp [failed]) (by simp [Worker.waiting, failed])).1
  rw [Worker.Settled, failed] at settled
  cases failure with
  | cannotOpenScript => exact Or.inl ⟨rfl, settled⟩
  | badScriptFrame index =>
      rcases settled with ⟨rfl, inside, rejected⟩
      exact Or.inr (Or.inl ⟨rfl, _, position, inside, rejected⟩)
  | sendSubmit err =>
      rcases settled with ⟨rfl, e, entry, refused⟩
      exact Or.inr (Or.inr ⟨rfl, e, entry, refused⟩)
  | _ => exact settled.elim

/-- The number of an acknowledgement is the number of the entry in the script,
and what it says is the verdict of the ledger on that entry, at the moment at
which the coordinator handled it. -/
theorem ack_line_is_verdict (listed : (after ledgerId steps).sessions[conn]? = some s)
    (fits : s.worker.ScriptFits) {index : Nat} {ack : EventAckMsg}
    (printed : Line.ack index ack ∈ s.worker.lines) :
    ∃ before e later,
      handled (seen ledgerId steps) = before ++ .event (some conn) e :: later ∧
      (eventsOn conn before).length = index ∧ scriptEntry s.worker.data index = some e ∧
      ack = acknowledgement ((Coordinator.after ledgerId before).accountEvent e).2 := by
  rcases conversation_after listed fits with ⟨up, down, conversation⟩
  rw [threads_after] at conversation
  have places := submitted_places conversation
  have shown := conversation.orderly.numbered index ack printed
  rcases List.getElem?_eq_some_iff.mp shown with ⟨inside, -⟩
  have answer : (answers ledgerId conn (handled (seen ledgerId steps)))[index]? = some ack := by
    rw [answered_places conversation, List.getElem?_append_left inside, shown]
  rcases List.getElem?_eq_some_iff.mp answer with ⟨below, -⟩
  rw [length_answers] at below
  have event := List.getElem?_eq_getElem below
  rcases moment_of_selected event with ⟨before, item, later, split, own, count⟩
  have item_eq : item = .event (some conn) (eventsOn conn (handled (seen ledgerId steps)))[index] := by
    cases item with
    | register source reg => cases own
    | event source e =>
        rcases Option.ite_none_right_eq_some.mp own with ⟨rfl, same⟩
        rw [Option.some.inj same]
    | workerLost source worker => cases own
  subst item_eq
  refine ⟨before, _, later, split, count, ?_, ?_⟩
  · have sent : (scriptEntries s.worker.data s.worker.sentCount)[index]? =
        some (eventsOn conn (handled (seen ledgerId steps)))[index] := by
      rw [← places, List.append_assoc, List.getElem?_append_left below, event]
    rcases List.getElem?_eq_some_iff.mp sent with ⟨known, -⟩
    rcases getElem?_scriptEntries conversation.orderly.position with ⟨length, each⟩
    rw [← each index (length ▸ known), sent]
  · have moment := answers_moment ledgerId conn split
    change (answers _ _ _)[(eventsOn conn before).length]? = _ at moment
    have place : (eventsOn conn before).length = index := count
    rw [place, answer] at moment
    exact Option.some.inj moment

/-- An entry that the first worker of a coordinator may submit. -/
def onlyEntry : LedgerEntry :=
  { worker := ⟨0, 1⟩
    authority := { epoch := ⟨1⟩, workerBoot := ⟨0, 2⟩, accountingGeneration := ⟨1⟩ } }

theorem encodable_only : ∀ e ∈ [onlyEntry], Encodable e := by
  intro e member
  rw [List.mem_singleton.mp member]
  exact ⟨encodable_default.finite, encodable_default.nonNegative, encodable_default.integral,
    encodable_default.metadataSize⟩

theorem listed_only : ∀ e ∈ [onlyEntry], e.Listed := by
  intro e member
  rw [List.mem_singleton.mp member]
  exact ⟨rfl, rfl, rfl, rfl⟩

theorem fitsFrame_only : ∀ e ∈ [onlyEntry], FitsFrame e := by
  intro e member
  rw [List.mem_singleton.mp member]
  have short : ShortPairs onlyEntry.metadata.toList := by simp [ShortPairs, onlyEntry]
  refine ⟨short, ?_⟩
  rw [length_entryPayload short]
  decide

/-- A worker submits the only entry of its script and holds. -/
def oneEntryRun : List ClusterStep :=
  [.connect ⟨0, 1⟩ ⟨0, 2⟩ (some (entryFrame onlyEntry)) true, .proceed 0, .read 0, .account,
    .deliver 0, .proceed 0, .read 0, .account, .deliver 0, .proceed 0]

/-- Where the run ends: the worker holds its connection, and nothing is under
way. -/
theorem oneEntryRun_ends :
    ∃ s, (after {} oneEntryRun).sessions = [s] ∧ (after {} oneEntryRun).threads.queue = [] ∧
      s.worker.script = some (entryFrame onlyEntry) ∧ s.worker.phase = .finished ∧
      s.worker.hold = true ∧ s.killed = false ∧ s.toCoordinator = [] ∧
      s.worker.worker = ⟨0, 1⟩ ∧ s.worker.boot = ⟨0, 2⟩ ∧
      Line.ack 0 { status := 0, reason := .ofString "accepted" } ∈ s.worker.lines := by
  have ends : (after {} oneEntryRun).threads.queue.isEmpty = true ∧
      (after {} oneEntryRun).sessions.map (fun s =>
        (s.worker.script, s.worker.phase, s.worker.hold && !s.killed && s.toCoordinator.isEmpty &&
          decide (s.worker.worker = ⟨0, 1⟩) && decide (s.worker.boot = ⟨0, 2⟩) &&
          decide (Line.ack 0 { status := 0, reason := .ofString "accepted" } ∈ s.worker.lines))) =
      [(some (entryFrame onlyEntry), .finished, true)] := by
    decide +kernel
  rcases List.map_eq_singleton_iff.mp ends.2 with ⟨s, sessions, same⟩
  simp only [Prod.mk.injEq, Bool.and_eq_true, Bool.not_eq_true', List.isEmpty_iff,
    decide_eq_true_eq] at same
  rcases same with ⟨script, phase, ⟨⟨⟨⟨hold, killed⟩, under⟩, worker⟩, boot⟩, printed⟩
  exact ⟨s, sessions, List.isEmpty_iff.mp ends.1, script, phase, hold, killed, under, worker, boot,
    printed⟩

theorem scriptFits_only {w : Worker} (script : w.script = some (entryFrame onlyEntry)) :
    w.data = [onlyEntry].flatMap entryFrame ∧ w.ScriptFits := by
  have data : w.data = [onlyEntry].flatMap entryFrame := by
    rw [Worker.data, script]
    simp
  refine ⟨data, fun index e entry => ?_⟩
  rw [data, scriptEntry_written encodable_only listed_only fitsFrame_only] at entry
  rcases Option.map_eq_some_iff.mp entry with ⟨original, found, rfl⟩
  rw [List.mem_singleton.mp (List.mem_of_getElem? found)]
  decide

theorem ack_line_is_verdict_only_entry :
    ∃ before e later,
      handled (seen {} oneEntryRun) = before ++ .event (some 0) e :: later ∧
      acknowledgement ((Coordinator.after {} before).accountEvent e).2 =
        { status := 0, reason := .ofString "accepted" } := by
  rcases oneEntryRun_ends with ⟨s, sessions, -, script, -, -, -, -, -, -, printed⟩
  have listed : (after {} oneEntryRun).sessions[0]? = some s := by rw [sessions]; rfl
  rcases ack_line_is_verdict {} oneEntryRun 0 s listed (scriptFits_only script).2 printed with
    ⟨before, e, later, split, -, -, verdict⟩
  exact ⟨before, e, later, split, verdict.symm⟩

/-- The coordinator handles the entries of a script in their order, none twice
and none before the one in front of it was acknowledged; and when the worker is
done, it has handled them all. -/
theorem handled_follow_script (listed : (after ledgerId steps).sessions[conn]? = some s)
    (fits : s.worker.ScriptFits) :
    eventsOn conn (handled (seen ledgerId steps)) <+:
      scriptEntries s.worker.data s.worker.sentCount ∧
    s.worker.printedAcks.length = s.worker.index ∧
    s.worker.index ≤ (eventsOn conn (handled (seen ledgerId steps))).length ∧
    (eventsOn conn (handled (seen ledgerId steps))).length ≤ s.worker.index + 1 ∧
    (s.worker.phase = .finished →
      ∀ index, (eventsOn conn (handled (seen ledgerId steps)))[index]? =
        scriptEntry s.worker.data index) := by
  rcases conversation_after listed fits with ⟨up, down, conversation⟩
  rw [threads_after] at conversation
  have places := submitted_places conversation
  have position := conversation.orderly.position
  have answered : (eventsOn conn (handled (seen ledgerId steps))).length =
      s.worker.index + (down.filterMap ackIn).length := by
    rw [← length_answers ledgerId conn, answered_places conversation, List.length_append,
      conversation.orderly.count]
  rw [List.append_assoc] at places
  have front : eventsOn conn (handled (seen ledgerId steps)) <+:
      scriptEntries s.worker.data s.worker.sentCount := ⟨_, places⟩
  refine ⟨front, conversation.orderly.count, by omega, ?_, handled_of_finished conversation⟩
  have sent := front.length_le
  rw [(getElem?_scriptEntries position).1, Worker.sentCount] at sent
  split at sent <;> omega

theorem handled_follow_script_only_entry :
    eventsOn 0 (handled (seen {} oneEntryRun)) = [onlyEntry.normalize] := by
  rcases oneEntryRun_ends with ⟨s, sessions, -, script, finished, -⟩
  have listed : (after {} oneEntryRun).sessions[0]? = some s := by rw [sessions]; rfl
  rcases scriptFits_only script with ⟨data, fits⟩
  rcases handled_follow_script {} oneEntryRun 0 s listed fits with ⟨-, -, -, -, all⟩
  apply List.ext_getElem?
  intro index
  rw [all finished index, data, scriptEntry_written encodable_only listed_only fitsFrame_only]
  cases index <;> rfl

/-- A worker with an empty script registers. -/
def registeredRun : List ClusterStep :=
  [.connect ⟨0, 1⟩ ⟨0, 2⟩ (some []) true, .proceed 0, .read 0, .account, .deliver 0]

/-- The threads took one message and handled it. -/
def oneRound : List ThreadStep → Bool
  | [.accept, .receive _ _, .account] => true
  | _ => false

theorem oneRound_cases {taken : List ThreadStep} (once : oneRound taken = true) :
    ∃ source message, taken = [.accept, .receive source message, .account] := by
  unfold oneRound at once
  split at once
  · exact ⟨_, _, rfl⟩
  · cases once

end Cluster

end InferenceLedger
