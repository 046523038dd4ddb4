import InferenceLedger.Distributed.Acknowledgements
import InferenceLedger.Distributed.Broadcast
import InferenceLedger.Distributed.Worker
import InferenceLedger.Foundation.Progress

namespace InferenceLedger

open Foundation Std

/-!
# Workers and coordinator over the wire

The threads of the coordinator took their messages from nowhere.  Here every
connection has its worker process at the far end and the bytes that are under
way in each direction, and a step belongs to one of the parties: a worker sends
or receives, a reader thread receives, the accounting thread handles an item, a
process is started or killed at any moment.  A reader sees the end of its
connection only once the process is gone.

The coordinator's part of a run is a run of its threads on the steps that the
other parties led it to, so all that is known of the threads holds here as well.
-/

/-! ## Bytes under way -/

/-- What `recv_message` makes of the bytes that have arrived so far. -/
inductive Receipt where
  | blocked
  | failed (err : String)
  | outOfBounds
  | received (message : Message) (rest : List UInt8)

/-- The call returns. -/
def Receipt.arrived : Receipt → Bool
  | blocked => false
  | outOfBounds => true
  | failed _ => true
  | received _ _ => true

/-- The connection is open, so `recv_message` waits for the bytes that it
misses. -/
def receipt (stream : List UInt8) : Receipt :=
  match recvMessage stream with
  | .error err => if err = "connection closed during recv" then .blocked else .failed err
  | .ok (.outOfBounds, _) => .outOfBounds
  | .ok (.rejected, _) => .failed ""
  | .ok (.done message, rest) => .received message rest

/-- The bytes of messages sent one after the other.  What cannot be encoded is
not sent. -/
def wire (messages : List Message) : List UInt8 :=
  messages.flatMap fun message => (encodeMessage message).getD []

/-- The form in which a message is received. -/
def Message.normalize : Message → Message
  | .eventSubmit e => .eventSubmit e.normalize
  | message => message

/-- A message that arrives as it was sent. -/
structure Message.Sound (message : Message) : Prop where
  encoded : (encodeMessage message).isSome = true
  listed : message.Listed
  size : message.wireSize ≤ frameLimit
  sparse : message.normalize = message

theorem wire_append (first second : List Message) :
    wire (first ++ second) = wire first ++ wire second := List.flatMap_append

@[simp] theorem receipt_nil : receipt (wire []) = .blocked := by
  simp [receipt, wire, recvMessage, recvFrame, bind, Except.bind]

/-- Exactly what was sent first is received first, and the rest stays under
way. -/
theorem receipt_wire_cons {message : Message} (sound : message.Sound) (messages : List Message) :
    receipt (wire (message :: messages)) = .received message (wire messages) := by
  rcases Option.isSome_iff_exists.mp sound.encoded with ⟨bytes, encoded⟩
  have size := sound.size
  have fits : message.StringsFit := by
    apply stringsFit_of_wireSize
    rw [frameLimit] at size
    omega
  rcases Option.map_eq_some_iff.mp encoded with ⟨payload, written, framed⟩
  have length := length_messageContent written fits
  have decoded : decodeMessage (messageContent message payload) = .done message := by
    by_cases submit : message.type = .eventSubmit
    · cases message with
      | eventSubmit e =>
          rw [frameLimit] at size
          rw [decodeMessage_submitted written (by omega)]
          have payloadShort : FitsFrame e := by
            refine ⟨fits, ?_⟩
            rcases messagePayload_submit written with ⟨-, rfl⟩
            rw [messageContent, List.length_cons, List.length_append, ByteWriter.length_u32,
              length_frame] at length
            omega
          rw [parse_entryPayload (messagePayload_submit written).1 sound.listed payloadShort]
          exact congrArg Access.done sound.sparse
      | _ => cases submit
    · rw [decodeMessage_of_not_submit_eq submit, parse_readMessage written fits submit]
      rfl
  have taken : recvFrame (bytes ++ wire messages) =
      .ok (messageContent message payload, wire messages) := by
    rw [← framed]
    apply recvFrame_frame
    · exact Nat.zero_lt_succ _
    · exact length.trans_le size
  have stream : wire (message :: messages) = bytes ++ wire messages := by
    rw [wire, List.flatMap_cons, encoded, Option.getD_some]
    rfl
  rw [receipt, stream, recvMessage, taken]
  simp only [bind_ok, decoded]
  rfl

/-! ## The parties -/

/-- A connection, with the process at its far end. -/
structure Session where
  worker : Worker
  toCoordinator : List UInt8 := []
  toWorker : List UInt8 := []
  killed : Bool := false

namespace Session

/-- The process is gone, and the operating system has closed its socket. -/
def gone (s : Session) : Bool := s.killed || s.worker.exited

/-- The process goes on until it waits. -/
def proceed (s : Session) : Session :=
  if s.killed then s
  else { s with
    worker := s.worker.proceed.1
    toCoordinator := s.toCoordinator ++ s.worker.proceed.2 }

/-- The process receives, if it waits for a message and one has arrived. -/
def deliver (s : Session) : Session :=
  if s.killed || !s.worker.waiting then s
  else match receipt s.toWorker with
    | .blocked => s
    | .failed err => { s with worker := s.worker.receiveFailure err }
    | .outOfBounds => { s with worker := { s.worker with phase := .faulted } }
    | .received message rest =>
        { s with worker := s.worker.receive message, toWorker := rest }

/-- The messages are sent to the process. -/
def post (s : Session) (messages : List Message) : Session :=
  { s with toWorker := s.toWorker ++ wire messages }

@[simp] theorem post_nil (s : Session) : s.post [] = s := by
  simp [post, wire]

end Session

/-- The coordinator and the workers, by connection. -/
structure Cluster where
  threads : Threads
  sessions : List Session := []

/-- The steps: a process is started and connects, a process goes on, a process
receives, a reader receives, a reader finds its connection closed, the
accounting thread handles an item, a process is killed. -/
inductive ClusterStep where
  | connect (worker : WorkerId) (boot : WorkerBootId) (script : Option (List UInt8)) (hold : Bool)
  | proceed (conn : Nat)
  | deliver (conn : Nat)
  | read (conn : Nat)
  | lose (conn : Nat)
  | account
  | kill (conn : Nat)

namespace Threads

/-- The message that an observation shows as sent on the connection. -/
def messageTo (conn : Nat) : Observation → Option Message
  | .sent send => if send.conn = some conn then some send.message else none
  | .received _ _ => none
  | .handled _ => none

/-- The messages sent on a connection, in order. -/
def sentTo (conn : Nat) (observed : List Observation) : List Message :=
  observed.filterMap (messageTo conn)

end Threads

namespace Cluster

def new (ledgerId : LedgerId) : Cluster := { threads := .new ledgerId }

/-- A step of the threads; what they send goes onto the connections. -/
def advance (c : Cluster) (input : ThreadStep) : Cluster × List ThreadStep :=
  let (threads, observed) := Threads.step c.threads input
  ({ threads, sessions := c.sessions.mapIdx fun conn s => s.post (Threads.sentTo conn observed) },
    [input])

/-- One round of `read_loop` on what has arrived.  No process sends bytes that
take the decoder out of its buffer. -/
def read (c : Cluster) (conn : Nat) (s : Session) : Cluster × List ThreadStep :=
  match receipt s.toCoordinator with
  | .blocked => (c, [])
  | .failed _ => c.advance (.receiveFailure conn)
  | .outOfBounds => (c, [])
  | .received message rest =>
      advance { c with sessions := c.sessions.modify conn fun s => { s with toCoordinator := rest } }
        (.receive conn message)

/-- The steps of all parties as one machine, which puts out the steps that the
threads of the coordinator take. -/
def step : Machine Cluster ClusterStep (List ThreadStep)
  | c, .connect worker boot script hold =>
      ({ threads := c.threads.accept
         sessions := c.sessions ++ [{ worker := { worker, boot, script, hold } }] }, [.accept])
  | c, .proceed conn => ({ c with sessions := c.sessions.modify conn Session.proceed }, [])
  | c, .deliver conn => ({ c with sessions := c.sessions.modify conn Session.deliver }, [])
  | c, .read conn =>
      match c.sessions[conn]? with
      | none => (c, [])
      | some s => if c.threads.readers[conn]? = some .reading then c.read conn s else (c, [])
  | c, .lose conn =>
      match c.sessions[conn]? with
      | none => (c, [])
      | some s => if s.gone then c.advance (.receiveFailure conn) else (c, [])
  | c, .account => c.advance .account
  | c, .kill conn =>
      ({ c with sessions := c.sessions.modify conn fun s => { s with killed := true } }, [])

abbrev after (ledgerId : LedgerId) (steps : List ClusterStep) : Cluster :=
  step.run (new ledgerId) steps

/-- The steps that the threads have taken. -/
abbrev schedule (ledgerId : LedgerId) (steps : List ClusterStep) : List ThreadStep :=
  step.trace (new ledgerId) steps

/-- What an observer of the coordinator has seen. -/
abbrev seen (ledgerId : LedgerId) (steps : List ClusterStep) : List Observation :=
  Threads.seen ledgerId (schedule ledgerId steps)

theorem threads_advance (c : Cluster) (input : ThreadStep) :
    (c.advance input).1.threads = (Threads.step c.threads input).1 := rfl

/-- Every session is sent its own messages. -/
theorem getElem?_advance (c : Cluster) (input : ThreadStep) (conn : Nat) :
    (c.advance input).1.sessions[conn]? = (c.sessions[conn]?).map fun s =>
      s.post (Threads.sentTo conn (Threads.step c.threads input).2) := by
  change (List.mapIdx _ c.sessions)[conn]? = _
  rw [List.getElem?_mapIdx]
  rfl

theorem length_advance (c : Cluster) (input : ThreadStep) :
    (c.advance input).1.sessions.length = c.sessions.length := List.length_mapIdx

/-- The threads move as their own machine does. -/
theorem step_threads (c : Cluster) (input : ClusterStep) :
    (step c input).1.threads = Threads.step.run c.threads (step c input).2 := by
  cases input with
  | connect worker boot script hold => rfl
  | proceed conn => rfl
  | deliver conn => rfl
  | kill conn => rfl
  | account => rfl
  | lose conn =>
      simp only [step]
      split
      · rfl
      · split
        · rfl
        · rfl
  | read conn =>
      simp only [step]
      split
      · rfl
      · split
        · unfold read
          split <;> rfl
        · rfl

/-- The coordinator's part of a run is a run of its threads. -/
theorem threads_after (ledgerId : LedgerId) (steps : List ClusterStep) :
    (after ledgerId steps).threads = Threads.after ledgerId (schedule ledgerId steps) :=
  Machine.run_projected step_threads (new ledgerId) steps

end Cluster

end InferenceLedger
