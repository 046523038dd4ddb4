import InferenceLedger.Distributed.Desks

namespace InferenceLedger

open Foundation Std

/-!
# Conversations

A worker waits for the answer to each message before it sends the next, and the
coordinator answers in the order in which it is asked.  So at every moment of a
run there is at most one request of a worker on its way, and it is in exactly
one place: among the bytes to the coordinator, in the queue, or, answered, among
the bytes to the worker.  A `Roll` may stand anywhere among the answers, but
never before the answer to the registration.

`Conversation` says so, together with what the worker has printed so far.  It
needs that every entry of the worker's script fits into a message; a larger one
makes the reader give up the connection.
-/

/-! ## The worker's side -/

namespace Worker

/-- How many entries have been submitted. -/
def sentCount (w : Worker) : Nat := if w.phase = .awaiting then w.index + 1 else w.index

/-- The acknowledgements that were printed, in order. -/
def printedAck : Line → Option EventAckMsg
  | .ack _ ack => some ack
  | _ => none

def printedAcks (w : Worker) : List EventAckMsg := w.lines.filterMap printedAck

/-- The authority that a line shows. -/
def printedPair : Line → Option Threads.AuthorityPair
  | .reg epoch generation => some (epoch, generation)
  | .roll epoch generation => some (epoch, generation)
  | _ => none

/-- Every entry of the script fits into a message. -/
def ScriptFits (w : Worker) : Prop :=
  ∀ index e, scriptEntry w.data index = some e → (Message.eventSubmit e).wireSize ≤ frameLimit

/-- Every frame of the script takes the worker further.  A length field of
`2 ^ 32 - 8` would not: `decode_entry` reports that it consumed nothing. -/
def Advances (w : Worker) : Prop :=
  ∀ index pos e consumed, framePosition w.data index = some pos → pos < w.data.length →
    decodeEntry (w.data.drop pos) = .done (e, consumed) → 0 < consumed

/-- In a script below four gigabytes the decoder consumes at least a header. -/
theorem advances_of_short {w : Worker} (short : w.data.length < 2 ^ 32) : w.Advances := by
  intro index pos e consumed _ _ decoded
  have inside := inside_of_decoded decoded
  rcases (decodeEntry_eq_done_iff inside e consumed).mp decoded with ⟨-, -, total⟩
  rw [List.length_drop] at inside
  rw [total, frameTotal_of_lt (by omega)]
  omega

/-- The only ways in which a worker stops, once it is registered. -/
def Settled (w : Worker) : Prop :=
  match w.phase with
  | .submitting => True
  | .finished => w.data.length ≤ w.pos ∧ Line.workerDone w.worker ∈ w.lines
  | .faulted => w.pos < w.data.length ∧ decodeEntry (w.data.drop w.pos) = .outOfBounds
  | .failed .cannotOpenScript => w.script = none
  | .failed (.badScriptFrame index) =>
      index = w.index ∧ w.pos < w.data.length ∧ decodeEntry (w.data.drop w.pos) = .rejected
  | .failed (.sendSubmit err) =>
      err = "message encode failed" ∧
        ∃ e, scriptEntry w.data w.index = some e ∧ encodeMessage (.eventSubmit e) = none
  | _ => False

/-- What the lines say, and where in the script the worker is. -/
structure Orderly (w : Worker) : Prop where
  position : framePosition w.data w.sentCount = some w.pos
  numbered : ∀ index ack, Line.ack index ack ∈ w.lines → w.printedAcks[index]? = some ack
  count : w.printedAcks.length = w.index
  pair : ∀ pair, latest printedPair w.lines = some pair →
    pair = (w.epoch, w.accountingGeneration)

/-- What the process can do by itself: register, submit the next entry, come to
its end, or nothing. -/
theorem proceed_cases {w : Worker} (orderly : w.Orderly) :
    (w.phase = .connected ∧
      w.proceed = ({ w with phase := .registering }, wire [w.registration])) ∨
    (w.phase = .submitting ∧ ∃ e consumed, framePosition w.data w.index = some w.pos ∧
      w.pos < w.data.length ∧ decodeEntry (w.data.drop w.pos) = .done (e, consumed) ∧
      (encodeMessage (.eventSubmit e)).isSome = true ∧
      w.proceed =
        ({ w with pos := w.pos + consumed, phase := .awaiting }, wire [.eventSubmit e])) ∨
    (w.phase = .submitting ∧ ∃ phase lines, phase.ended = true ∧
      (lines = [] ∨ lines = [.workerDone w.worker]) ∧
      Settled { w with phase := phase, lines := w.lines ++ lines } ∧
      w.proceed = ({ w with phase := phase, lines := w.lines ++ lines }, [])) ∨
    ((w.waiting = true ∨ w.phase.ended = true) ∧ w.proceed = (w, [])) := by
  unfold proceed waiting
  cases here : w.phase with
  | connected => exact Or.inl ⟨rfl, rfl⟩
  | submitting =>
      have found : framePosition w.data w.index = some w.pos := by
        simpa [sentCount, here] using orderly.position
      refine Or.inr ?_
      unfold submitNext
      by_cases inside : w.pos < w.data.length
      · simp only [if_pos inside]
        cases decoded : decodeEntry (w.data.drop w.pos) with
        | outOfBounds =>
            refine Or.inr (Or.inl ⟨trivial, .faulted, [], rfl, Or.inl rfl, ?_, by simp⟩)
            exact ⟨inside, decoded⟩
        | rejected =>
            refine Or.inr (Or.inl ⟨trivial, .failed (.badScriptFrame w.index), [], rfl,
              Or.inl rfl, ?_, by simp [fail]⟩)
            exact ⟨rfl, inside, decoded⟩
        | done result =>
            rcases result with ⟨e, consumed⟩
            have entry := scriptEntry_of_decoded found inside decoded
            cases encoded : encodeMessage (.eventSubmit e) with
            | none =>
                refine Or.inr (Or.inl ⟨trivial, .failed (.sendSubmit "message encode failed"), [],
                  rfl, Or.inl rfl, ?_, by simp [fail, encoded]⟩)
                exact ⟨rfl, e, entry, encoded⟩
            | some bytes =>
                refine Or.inl ⟨trivial, e, consumed, found, inside, rfl,
                  by rw [encoded, Option.isSome_some], ?_⟩
                simp [encoded, wire]
      · simp only [if_neg inside]
        refine Or.inr (Or.inl ⟨trivial, .finished, [.workerDone w.worker], rfl, Or.inr rfl, ?_, rfl⟩)
        exact ⟨Nat.le_of_not_lt inside, by simp⟩
  | registering => exact Or.inr (Or.inr (Or.inr ⟨Or.inl rfl, rfl⟩))
  | awaiting => exact Or.inr (Or.inr (Or.inr ⟨Or.inl rfl, rfl⟩))
  | finished => exact Or.inr (Or.inr (Or.inr ⟨Or.inr rfl, rfl⟩))
  | failed failure => exact Or.inr (Or.inr (Or.inr ⟨Or.inr rfl, rfl⟩))
  | faulted => exact Or.inr (Or.inr (Or.inr ⟨Or.inr rfl, rfl⟩))

/-- The arguments of the process, which it never changes. -/
def arguments (w : Worker) : WorkerId × WorkerBootId × Option (List UInt8) × Bool :=
  (w.worker, w.boot, w.script, w.hold)

theorem arguments_proceed (w : Worker) : w.proceed.1.arguments = w.arguments := by
  unfold proceed
  split
  · split <;> rfl
  · unfold submitNext
    split
    · split
      · rfl
      · rfl
      · split <;> rfl
    · rfl
  all_goals rfl

theorem arguments_receive (w : Worker) (message : Message) :
    (w.receive message).arguments = w.arguments := by
  unfold receive
  split
  · split
    · split <;> rfl
    · rfl
  · split <;> rfl
  · rfl

theorem arguments_receiveFailure (w : Worker) (err : String) :
    (w.receiveFailure err).arguments = w.arguments := by
  unfold receiveFailure
  split <;> rfl

theorem scriptFits_of_arguments {w w' : Worker} (same : w'.arguments = w.arguments)
    (fits : w'.ScriptFits) : w.ScriptFits := by
  have scripts : w'.script = w.script := congrArg (fun arguments => arguments.2.2.1) same
  intro index e entry
  apply fits index e
  rw [data, scripts]
  exact entry

section Orderly

variable {w : Worker}

/-- The printed acknowledgements and authorities behind a line that shows
neither. -/
theorem Orderly.printing {phase : Phase} {lines : List Line} (orderly : w.Orderly)
    (before : w.phase ≠ .awaiting) (now : phase ≠ .awaiting)
    (quiet : lines = [] ∨ lines = [.workerDone w.worker]) :
    Orderly { w with phase := phase, lines := w.lines ++ lines } := by
  have acks : (w.lines ++ lines).filterMap printedAck = w.printedAcks := by
    rcases quiet with rfl | rfl
    · rw [List.append_nil]
      rfl
    · simp [printedAcks, printedAck]
  refine ⟨?_, ?_, ?_, ?_⟩
  · have position := orderly.position
    simpa [sentCount, data, before, now] using position
  · intro index ack member
    change ((w.lines ++ lines).filterMap printedAck)[index]? = some ack
    rw [acks]
    apply orderly.numbered
    rcases List.mem_append.mp member with old | new
    · exact old
    · rcases quiet with rfl | rfl
      · cases new
      · simp at new
  · exact (congrArg List.length acks).trans orderly.count
  · intro pair shown
    apply orderly.pair
    change latest printedPair (w.lines ++ lines) = some pair at shown
    rcases quiet with rfl | rfl
    · rwa [List.append_nil] at shown
    · rwa [latest_concat] at shown

/-- A line that shows an authority. -/
theorem Orderly.informed {phase : Phase} {epoch : CoordinatorEpoch}
    {generation : AccountingGeneration} {line : Line} (orderly : w.Orderly)
    (same : phase = .awaiting ↔ w.phase = .awaiting) (silent : printedAck line = none)
    (shown : printedPair line = some (epoch, generation)) :
    Orderly { w with
      phase := phase, epoch := epoch, accountingGeneration := generation
      lines := w.lines ++ [line] } := by
  have acks : (w.lines ++ [line]).filterMap printedAck = w.printedAcks := by
    simp [printedAcks, silent]
  refine ⟨?_, ?_, ?_, ?_⟩
  · have position := orderly.position
    by_cases awaiting : w.phase = .awaiting
    · simpa [sentCount, data, awaiting, same.mpr awaiting] using position
    · have other : phase ≠ .awaiting := fun equal => awaiting (same.mp equal)
      simpa [sentCount, data, awaiting, other] using position
  · intro index ack member
    change ((w.lines ++ [line]).filterMap printedAck)[index]? = some ack
    rw [acks]
    apply orderly.numbered
    rcases List.mem_append.mp member with old | new
    · exact old
    · cases List.mem_singleton.mp new
      cases silent
  · exact (congrArg List.length acks).trans orderly.count
  · intro pair last
    change latest printedPair (w.lines ++ [line]) = some pair at last
    rw [latest_concat, shown] at last
    exact (Option.some.inj last).symm

/-- An acknowledgement has the number of the entry that waits for it. -/
theorem Orderly.acknowledged (orderly : w.Orderly) (awaiting : w.phase = .awaiting)
    (ack : EventAckMsg) : (w.acknowledged ack).Orderly := by
  have acks : (w.acknowledged ack).printedAcks = w.printedAcks ++ [ack] := by
    simp [printedAcks, Worker.acknowledged, printedAck]
  refine ⟨?_, ?_, ?_, ?_⟩
  · have position := orderly.position
    simpa [sentCount, awaiting, Worker.acknowledged, data] using position
  · intro index other member
    rw [acks]
    rcases List.mem_append.mp member with old | new
    · have found := orderly.numbered index other old
      rcases List.getElem?_eq_some_iff.mp found with ⟨inside, -⟩
      rw [List.getElem?_append_left inside, found]
    · cases List.mem_singleton.mp new
      rw [← orderly.count, List.getElem?_concat_length]
  · rw [acks, List.length_append, orderly.count]
    rfl
  · intro pair shown
    apply orderly.pair
    change latest printedPair (w.lines ++ [.ack w.index ack]) = some pair at shown
    rwa [latest_concat] at shown

end Orderly

end Worker

theorem Session.arguments_proceed (s : Session) :
    s.proceed.worker.arguments = s.worker.arguments := by
  unfold Session.proceed
  split
  · rfl
  · exact s.worker.arguments_proceed

theorem Session.arguments_deliver (s : Session) :
    s.deliver.worker.arguments = s.worker.arguments := by
  unfold Session.deliver
  split
  · rfl
  · split
    · rfl
    · exact s.worker.arguments_receiveFailure _
    · rfl
    · exact s.worker.arguments_receive _

/-! ## Both sides -/

open Threads

/-- Where the request of a worker is: among the bytes to the coordinator, in the
queue, or answered among the bytes to the worker.  The last four arguments are
whether the connection is registered, its queued items, and the messages on
their way to the coordinator and to the worker. -/
inductive Talk (conn : Nat) (w : Worker) :
    Bool → List WorkItem → List Message → List Message → Prop
  | fresh (phase : w.phase = .connected) : Talk conn w false [] [] []
  | registrationSent (phase : w.phase = .registering) : Talk conn w false [] [w.registration] []
  | registrationQueued (phase : w.phase = .registering) :
      Talk conn w false [.register conn { worker := w.worker, boot := w.boot }] [] []
  | registrationAnswered {ack : RegisterAckMsg} {rolls : List Message}
      (phase : w.phase = .registering) (ok : ack.ok = true) (behind : Rolls rolls) :
      Talk conn w true [] [] (.registerAck ack :: rolls)
  | settled {rolls : List Message} (settled : w.Settled) (behind : Rolls rolls) :
      Talk conn w true [] [] rolls
  | entrySent {e : LedgerEntry} {rolls : List Message} (phase : w.phase = .awaiting)
      (entry : scriptEntry w.data w.index = some e) (behind : Rolls rolls) :
      Talk conn w true [] [.eventSubmit e] rolls
  | entryQueued {e : LedgerEntry} {rolls : List Message} (phase : w.phase = .awaiting)
      (entry : scriptEntry w.data w.index = some e) (behind : Rolls rolls) :
      Talk conn w true [.event (some conn) e] [] rolls
  | entryAnswered {ack : EventAckMsg} {before later : List Message} (phase : w.phase = .awaiting)
      (ahead : Rolls before) (behind : Rolls later) :
      Talk conn w true [] [] (before ++ .eventAck ack :: later)

section Phases

variable {conn : Nat} {w : Worker} {registered : Bool} {queued : List WorkItem}
  {up down : List Message}

theorem Talk.of_connected (talk : Talk conn w registered queued up down)
    (phase : w.phase = .connected) : registered = false ∧ queued = [] ∧ up = [] ∧ down = [] := by
  cases talk with
  | fresh _ => exact ⟨rfl, rfl, rfl, rfl⟩
  | settled settled _ => simp [Worker.Settled, phase] at settled
  | _ => simp_all

/-- A worker that waits for nothing has no request on its way. -/
theorem Talk.of_settled (talk : Talk conn w registered queued up down)
    (started : w.phase ≠ .connected) (idle : w.waiting = false) :
    w.Settled ∧ registered = true ∧ queued = [] ∧ up = [] ∧ Rolls down := by
  cases talk with
  | settled settled behind => exact ⟨settled, rfl, rfl, rfl, behind⟩
  | _ => simp_all [Worker.waiting]

/-- The request of a worker that waits is somewhere. -/
theorem Talk.somewhere (talk : Talk conn w registered queued up down) (waits : w.waiting = true) :
    up ≠ [] ∨ queued ≠ [] ∨ down ≠ [] := by
  cases talk with
  | fresh phase => simp [Worker.waiting, phase] at waits
  | settled settled _ =>
      cases phase : w.phase <;> simp [Worker.waiting, Worker.Settled, phase] at waits settled
  | _ => simp

theorem Talk.registered_of_started (talk : Talk conn w registered queued up down)
    (started : w.phase ≠ .connected) (answered : w.phase ≠ .registering) : registered = true := by
  cases talk with
  | fresh phase => exact (started phase).elim
  | registrationSent phase => exact (answered phase).elim
  | registrationQueued phase => exact (answered phase).elim
  | _ => rfl

theorem Talk.of_registering {message : Message}
    (talk : Talk conn w registered queued up (message :: down)) (phase : w.phase = .registering) :
    registered = true ∧ queued = [] ∧ up = [] ∧
      ∃ ack, message = .registerAck ack ∧ ack.ok = true ∧ Rolls down := by
  generalize sent : message :: down = messages at talk
  cases talk with
  | registrationAnswered _ ok behind =>
      cases sent
      exact ⟨rfl, rfl, rfl, _, rfl, ok, behind⟩
  | settled settled _ => simp [Worker.Settled, phase] at settled
  | registrationSent _ => cases sent
  | registrationQueued _ => cases sent
  | _ => simp_all

/-- While an entry waits, what arrives is a roll, which leaves the entry where it
is, or the answer. -/
theorem Talk.of_awaiting {message : Message}
    (talk : Talk conn w registered queued up (message :: down)) (phase : w.phase = .awaiting) :
    registered = true ∧
    ((∃ roll, message = .roll roll ∧
        ∀ w' : Worker, w'.phase = .awaiting → w'.data = w.data → w'.index = w.index →
          Talk conn w' registered queued up down) ∨
      (∃ ack, message = .eventAck ack ∧ queued = [] ∧ up = [] ∧ Rolls down)) := by
  generalize sent : message :: down = messages at talk
  cases talk with
  | entrySent _ entry behind =>
      subst sent
      rcases behind message List.mem_cons_self with ⟨roll, rfl⟩
      refine ⟨rfl, Or.inl ⟨roll, rfl, fun w' phase' data index => ?_⟩⟩
      refine .entrySent phase' (by rw [data, index, entry]) fun other member => ?_
      exact behind other (List.mem_cons_of_mem _ member)
  | entryQueued _ entry behind =>
      subst sent
      rcases behind message List.mem_cons_self with ⟨roll, rfl⟩
      refine ⟨rfl, Or.inl ⟨roll, rfl, fun w' phase' data index => ?_⟩⟩
      refine .entryQueued phase' (by rw [data, index, entry]) fun other member => ?_
      exact behind other (List.mem_cons_of_mem _ member)
  | @entryAnswered ack before later _ ahead behind =>
      cases before with
      | nil =>
          cases sent
          exact ⟨rfl, Or.inr ⟨ack, rfl, rfl, rfl, behind⟩⟩
      | cons first before =>
          cases sent
          rcases ahead message List.mem_cons_self with ⟨roll, rfl⟩
          refine ⟨rfl, Or.inl ⟨roll, rfl, fun w' phase' data index => ?_⟩⟩
          refine .entryAnswered phase' (fun other member => ?_) behind
          exact ahead other (List.mem_cons_of_mem _ member)
  | settled settled _ => simp [Worker.Settled, phase] at settled
  | _ => simp_all

end Phases

/-- The entry, the acknowledgement and the authority that a message carries. -/
def entryIn : Message → Option LedgerEntry
  | .eventSubmit e => some e
  | _ => none

def ackIn : Message → Option EventAckMsg
  | .eventAck ack => some ack
  | _ => none

def pairIn : Message → Option AuthorityPair
  | .registerAck ack => some (ack.epoch, ack.accountingGeneration)
  | .roll roll => some (roll.epoch, roll.accountingGeneration)
  | _ => none

/-- The state of a connection, with the messages on their way. -/
structure Conversation (conn : Nat) (s : Session) (d : Desk) (up down : List Message) : Prop where
  orderly : s.worker.Orderly
  toCoordinator : s.toCoordinator = wire up
  toWorker : s.toWorker = wire down
  soundUp : ∀ message ∈ up, message.Sound
  soundDown : ∀ message ∈ down, message.Sound
  talk : Talk conn s.worker d.registered d.queued up down
  submitted : d.submissions ++ up.filterMap entryIn =
    scriptEntries s.worker.data s.worker.sentCount
  acks : d.sent.filterMap ackIn = s.worker.printedAcks ++ down.filterMap ackIn
  pair : latest pairIn d.sent = (latest pairIn down).or (latest Worker.printedPair s.worker.lines)

theorem Threads.Rolls.append {first second : List Message} (left : Rolls first) (right : Rolls second) :
    Rolls (first ++ second) := by
  intro message member
  exact (List.mem_append.mp member).elim (left message) (right message)

namespace Conversation

variable {conn : Nat} {s : Session} {d d' : Desk} {up down new : List Message}

/-- The desk moves without a message from the connection. -/
theorem post (conversation : Conversation conn s d up down) (moved : DeskStep conn d new d')
    (sound : ∀ message ∈ new, message.Sound) :
    Conversation conn (s.post new) d' up (down ++ new) := by
  have talk := conversation.talk
  have sentBehind : ∀ sent, sent = d.sent ++ new →
      sent.filterMap ackIn = s.worker.printedAcks ++ (down ++ new).filterMap ackIn ∧
      latest pairIn sent =
        (latest pairIn (down ++ new)).or (latest Worker.printedPair s.worker.lines) := by
    rintro sent rfl
    constructor
    · rw [List.filterMap_append, List.filterMap_append, conversation.acks, List.append_assoc]
    · rw [latest_append, latest_append, conversation.pair, Option.or_assoc]
  have flows : (s.post new).toWorker = wire (down ++ new) := by
    rw [wire_append, ← conversation.toWorker]
    rfl
  have sounds : ∀ message ∈ down ++ new, message.Sound := by
    intro message member
    exact (List.mem_append.mp member).elim (conversation.soundDown message) (sound message)
  cases moved with
  | quiet =>
      rcases sentBehind d.sent (List.append_nil _).symm with ⟨acks, pair⟩
      refine ⟨conversation.orderly, conversation.toCoordinator, flows, conversation.soundUp, sounds,
        ?_, conversation.submitted, acks, pair⟩
      rw [List.append_nil]
      exact talk
  | registered front ok =>
      rcases sentBehind _ rfl with ⟨acks, pair⟩
      refine ⟨conversation.orderly, conversation.toCoordinator, flows, conversation.soundUp, sounds,
        ?_, conversation.submitted, acks, pair⟩
      rw [front] at talk
      generalize d.registered = flag at talk
      cases talk with
      | registrationQueued phase => exact .registrationAnswered phase ok (by simp [Rolls])
  | answered front =>
      rcases sentBehind _ rfl with ⟨acks, pair⟩
      refine ⟨conversation.orderly, conversation.toCoordinator, flows, conversation.soundUp, sounds,
        ?_, conversation.submitted, acks, pair⟩
      rw [front] at talk
      change Talk conn s.worker d.registered _ up _
      generalize d.registered = flag at talk ⊢
      cases talk with
      | entryQueued phase entry behind =>
          exact .entryAnswered phase behind (by simp [Rolls])
  | rolled registered rolls =>
      rcases sentBehind _ rfl with ⟨acks, pair⟩
      refine ⟨conversation.orderly, conversation.toCoordinator, flows, conversation.soundUp, sounds,
        ?_, conversation.submitted, acks, pair⟩
      rw [registered] at talk
      change Talk conn s.worker d.registered d.queued up _
      rw [registered]
      generalize d.queued = queued at talk ⊢
      cases talk with
      | registrationAnswered phase ok behind =>
          exact .registrationAnswered phase ok (behind.append rolls)
      | settled settled behind => exact .settled settled (behind.append rolls)
      | entrySent phase entry behind => exact .entrySent phase entry (behind.append rolls)
      | entryQueued phase entry behind => exact .entryQueued phase entry (behind.append rolls)
      | entryAnswered phase ahead behind =>
          rw [List.append_assoc, List.cons_append]
          exact .entryAnswered phase ahead (behind.append rolls)

/-- What a reader has in front of it is a whole message, or nothing yet. -/
theorem receipt_toCoordinator (conversation : Conversation conn s d up down) :
    (up = [] ∧ receipt s.toCoordinator = .blocked) ∨
      ∃ message rest, up = message :: rest ∧
        receipt s.toCoordinator = .received message (wire rest) := by
  rw [conversation.toCoordinator]
  cases up with
  | nil => exact Or.inl ⟨rfl, receipt_nil⟩
  | cons message rest =>
      exact Or.inr ⟨message, rest, rfl,
        receipt_wire_cons (conversation.soundUp message List.mem_cons_self) rest⟩

theorem not_failed (conversation : Conversation conn s d up down) {err : String} :
    receipt s.toCoordinator ≠ .failed err := by
  rcases conversation.receipt_toCoordinator with ⟨-, blocked⟩ | ⟨message, rest, -, received⟩
  · rw [blocked]
    simp
  · rw [received]
    simp

/-- At most one message is on its way to the coordinator, and it is a request. -/
theorem request {message : Message} (conversation : Conversation conn s d (message :: up) down) :
    message ≠ .ping ∧ up = [] := by
  have talk := conversation.talk
  generalize d.registered = flag at talk
  generalize d.queued = queued at talk
  generalize sent : message :: up = messages at talk
  cases talk with
  | registrationSent phase =>
      cases sent
      exact ⟨by simp [Worker.registration], rfl⟩
  | entrySent phase entry behind =>
      cases sent
      exact ⟨by simp, rfl⟩
  | _ => cases sent

/-- The reader takes the message in front. -/
theorem read {message : Message} (conversation : Conversation conn s d (message :: up) down) :
    Conversation conn { s with toCoordinator := wire up }
      { d with
        queued := d.queued ++ itemsOf conn message
        submissions := d.submissions ++ eventsOn conn (itemsOf conn message) } up down := by
  refine ⟨conversation.orderly, rfl, conversation.toWorker,
    fun other member => conversation.soundUp other (List.mem_cons_of_mem message member),
    conversation.soundDown, ?_, ?_, conversation.acks, conversation.pair⟩
  · have talk := conversation.talk
    change Talk conn s.worker d.registered (d.queued ++ itemsOf conn message) up down
    generalize d.registered = flag at talk ⊢
    generalize d.queued = queued at talk ⊢
    generalize sent : message :: up = messages at talk
    cases talk with
    | registrationSent phase =>
        cases sent
        exact .registrationQueued phase
    | entrySent phase entry behind =>
        cases sent
        exact .entryQueued phase entry behind
    | _ => cases sent
  · rw [← conversation.submitted, List.append_assoc]
    congr 1
    cases message with
    | eventSubmit e => simp [itemsOf, eventsOn, eventOn, entryIn]
    | _ => rfl

/-- The process sends its registration. -/
theorem register (conversation : Conversation conn s d up down)
    (phase : s.worker.phase = .connected) :
    Conversation conn
      { s with
        worker := { s.worker with phase := .registering }
        toCoordinator := s.toCoordinator ++ wire [s.worker.registration] }
      d [s.worker.registration] down := by
  rcases conversation.talk.of_connected phase with ⟨flag, queued, rfl, rfl⟩
  have orderly := conversation.orderly.printing (by simp [phase])
    (by simp : Phase.registering ≠ .awaiting) (Or.inl rfl)
  rw [List.append_nil] at orderly
  refine ⟨orderly, ?_, conversation.toWorker, ?_, conversation.soundDown, ?_, ?_,
    conversation.acks, conversation.pair⟩
  · rw [conversation.toCoordinator]
    rfl
  · intro message member
    rw [List.mem_singleton.mp member]
    exact Message.sound_register _
  · rw [flag, queued]
    exact .registrationSent rfl
  · have submitted := conversation.submitted
    rw [Worker.sentCount, if_neg (by simp [phase])] at submitted
    exact submitted

/-- The process submits its next entry. -/
theorem submit {e : LedgerEntry} {consumed : Nat} (conversation : Conversation conn s d up down)
    (phase : s.worker.phase = .submitting)
    (entry : scriptEntry s.worker.data s.worker.index = some e)
    (position : framePosition s.worker.data (s.worker.index + 1) = some (s.worker.pos + consumed))
    (sound : (Message.eventSubmit e).Sound) :
    Conversation conn
      { s with
        worker := { s.worker with pos := s.worker.pos + consumed, phase := .awaiting }
        toCoordinator := s.toCoordinator ++ wire [.eventSubmit e] }
      d [.eventSubmit e] down := by
  rcases conversation.talk.of_settled (by simp [phase]) (by simp [Worker.waiting, phase]) with
    ⟨-, flag, queued, rfl, rolls⟩
  have orderly := conversation.orderly
  refine ⟨⟨position, orderly.numbered, orderly.count, orderly.pair⟩, ?_, conversation.toWorker, ?_,
    conversation.soundDown, ?_, ?_, conversation.acks, conversation.pair⟩
  · rw [conversation.toCoordinator]
    rfl
  · intro message member
    rw [List.mem_singleton.mp member]
    exact sound
  · rw [flag, queued]
    exact .entrySent rfl entry rolls
  · have submitted := conversation.submitted
    rw [Worker.sentCount, if_neg (by simp [phase]), List.filterMap_nil, List.append_nil]
      at submitted
    rw [submitted]
    exact (scriptEntries_succ entry).symm

/-- The process comes to its end. -/
theorem settle {next : Phase} {lines : List Line} (conversation : Conversation conn s d up down)
    (phase : s.worker.phase = .submitting) (waits : next ≠ .awaiting)
    (quiet : lines = [] ∨ lines = [.workerDone s.worker.worker])
    (settled : Worker.Settled
      { s.worker with phase := next, lines := s.worker.lines ++ lines }) :
    Conversation conn
      { s with worker := { s.worker with phase := next, lines := s.worker.lines ++ lines } }
      d up down := by
  rcases conversation.talk.of_settled (by simp [phase]) (by simp [Worker.waiting, phase]) with
    ⟨-, flag, queued, rfl, rolls⟩
  have before : s.worker.phase ≠ .awaiting := by simp [phase]
  have acks : (s.worker.lines ++ lines).filterMap Worker.printedAck = s.worker.printedAcks := by
    rcases quiet with rfl | rfl
    · rw [List.append_nil]
      rfl
    · simp [Worker.printedAcks, Worker.printedAck]
  have pair : latest Worker.printedPair (s.worker.lines ++ lines) =
      latest Worker.printedPair s.worker.lines := by
    rcases quiet with rfl | rfl
    · rw [List.append_nil]
    · exact latest_concat _ _ _
  refine ⟨conversation.orderly.printing before waits quiet, conversation.toCoordinator,
    conversation.toWorker, conversation.soundUp, conversation.soundDown, ?_, ?_, ?_, ?_⟩
  · rw [flag, queued]
    exact .settled settled rolls
  · have submitted := conversation.submitted
    rw [Worker.sentCount, if_neg before] at submitted
    rw [Worker.sentCount, if_neg waits]
    exact submitted
  · exact conversation.acks.trans (congrArg (· ++ _) acks.symm)
  · exact conversation.pair.trans (congrArg _ pair.symm)

/-- The process goes on by itself. -/
theorem proceed (conversation : Conversation conn s d up down) (fits : s.worker.ScriptFits) :
    ∃ up', Conversation conn s.proceed d up' down := by
  by_cases killed : s.killed = true
  · refine ⟨up, ?_⟩
    rw [Session.proceed, if_pos killed]
    exact conversation
  · rw [Session.proceed, if_neg killed]
    rcases Worker.proceed_cases conversation.orderly with ⟨phase, moved⟩ |
      ⟨phase, e, consumed, found, inside, decoded, encoded, moved⟩ |
      ⟨phase, next, lines, ended, quiet, settled, moved⟩ | ⟨-, idle⟩
    · rw [moved]
      exact ⟨_, conversation.register phase⟩
    · rw [moved]
      have entry := scriptEntry_of_decoded found inside decoded
      have sound := Message.sound_submit entry encoded (fits _ e entry)
      exact ⟨_, conversation.submit phase entry (framePosition_succ found inside decoded) sound⟩
    · rw [moved, List.append_nil]
      have waits : next ≠ .awaiting := by
        rintro rfl
        cases ended
      exact ⟨_, conversation.settle phase waits quiet settled⟩
    · rw [idle, List.append_nil]
      exact ⟨_, conversation⟩

section Arrivals

variable {message : Message} (conversation : Conversation conn s d up (message :: down))
include conversation

theorem soundBehind : ∀ other ∈ down, other.Sound :=
  fun other member => conversation.soundDown other (List.mem_cons_of_mem message member)

/-- Taking a message that shows an authority, and printing it. -/
theorem pairTaken {lines : List Line}
    (shown : latest Worker.printedPair lines =
      (pairIn message).or (latest Worker.printedPair s.worker.lines)) :
    latest pairIn d.sent = (latest pairIn down).or (latest Worker.printedPair lines) := by
  have front : latest pairIn (message :: down) = (latest pairIn down).or (pairIn message) := by
    rw [← List.singleton_append, latest_append, latest_singleton]
  rw [conversation.pair, front, Option.or_assoc, shown]

theorem acksTaken {acks : List EventAckMsg}
    (shown : acks = s.worker.printedAcks ++ (ackIn message).toList) :
    d.sent.filterMap ackIn = acks ++ down.filterMap ackIn := by
  rw [conversation.acks, shown, List.append_assoc]
  congr 1
  cases found : ackIn message <;> simp [found]

/-- The answer to the registration arrives. -/
theorem registered (phase : s.worker.phase = .registering) :
    Conversation conn { s with worker := s.worker.receive message, toWorker := wire down }
      d up down := by
  rcases conversation.talk.of_registering phase with ⟨flag, queued, rfl, ack, rfl, ok, behind⟩
  have orderly := conversation.orderly
  have moved : s.worker.receive (.registerAck ack) = s.worker.registered ack := by
    simp [Worker.receive, phase, ok]
  have waits : (if s.worker.script.isSome then Phase.submitting
      else .failed .cannotOpenScript) ≠ .awaiting := by
    split <;> simp
  rw [moved]
  refine ⟨?_, conversation.toCoordinator, rfl, conversation.soundUp, conversation.soundBehind,
    ?_, ?_, ?_, ?_⟩
  · exact orderly.informed (by simp [phase, waits]) rfl rfl
  · rw [flag, queued]
    refine .settled ?_ behind
    cases script : s.worker.script with
    | none => simp [Worker.Settled, Worker.registered, script]
    | some bytes => simp [Worker.Settled, Worker.registered, script]
  · have submitted := conversation.submitted
    rw [Worker.sentCount, if_neg (by simp [phase])] at submitted
    rw [Worker.sentCount, if_neg (by simpa [Worker.registered] using waits)]
    exact submitted
  · apply conversation.acksTaken
    simp [Worker.printedAcks, Worker.registered, Worker.printedAck, ackIn]
  · apply conversation.pairTaken
    rw [Worker.registered, latest_concat]
    rfl

/-- While an entry waits, a roll or its answer arrives. -/
theorem answered (phase : s.worker.phase = .awaiting) :
    Conversation conn { s with worker := s.worker.receive message, toWorker := wire down }
      d up down := by
  have orderly := conversation.orderly
  rcases conversation.talk.of_awaiting phase with ⟨flag, ⟨roll, rfl, talk⟩ |
    ⟨ack, rfl, queued, rfl, behind⟩⟩
  · have moved : s.worker.receive (.roll roll) = s.worker.rolled roll := by
      simp [Worker.receive, phase]
    rw [moved]
    refine ⟨?_, conversation.toCoordinator, rfl, conversation.soundUp, conversation.soundBehind,
      talk _ phase rfl rfl, conversation.submitted, ?_, ?_⟩
    · exact orderly.informed Iff.rfl rfl rfl
    · apply conversation.acksTaken
      simp [Worker.printedAcks, Worker.rolled, Worker.printedAck, ackIn]
    · apply conversation.pairTaken
      rw [Worker.rolled, latest_concat]
      rfl
  · have moved : s.worker.receive (.eventAck ack) = s.worker.acknowledged ack := by
      simp [Worker.receive, phase]
    rw [moved]
    refine ⟨orderly.acknowledged phase ack, conversation.toCoordinator, rfl, conversation.soundUp,
      conversation.soundBehind, ?_, ?_, ?_, ?_⟩
    · rw [flag, queued]
      exact .settled trivial behind
    · have submitted := conversation.submitted
      rw [Worker.sentCount, if_pos phase] at submitted
      exact submitted
    · apply conversation.acksTaken
      simp [Worker.printedAcks, Worker.acknowledged, Worker.printedAck, ackIn]
    · apply conversation.pairTaken
      rw [Worker.acknowledged, latest_concat]
      rfl

end Arrivals

/-- The process receives. -/
theorem deliver (conversation : Conversation conn s d up down) :
    ∃ down', Conversation conn s.deliver d up down' := by
  rw [Session.deliver]
  split
  · exact ⟨down, conversation⟩
  · rename_i open_
    rw [conversation.toWorker]
    cases down with
    | nil =>
        rw [receipt_nil]
        exact ⟨[], conversation⟩
    | cons message down =>
        rw [receipt_wire_cons (conversation.soundDown message List.mem_cons_self)]
        refine ⟨down, ?_⟩
        cases phase : s.worker.phase with
        | registering => exact conversation.registered phase
        | awaiting => exact conversation.answered phase
        | _ => simp [Worker.waiting, phase] at open_

end Conversation

end InferenceLedger
