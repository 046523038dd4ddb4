import InferenceLedger.Distributed.Arrivals
import InferenceLedger.Foundation.Progress

namespace InferenceLedger

open Foundation Std Threads

/-!
# The coordinator process

`main` of the coordinator waits for the line `SHUTDOWN`, or for the end of its
input, takes a snapshot of the ledger, saves it, prints its size and
fingerprint, and only then stops the threads.

`stop` sets the flags, closes the listening socket, closes the sockets of the
connections one after the other, and joins the accept thread and the accounting
thread.  The threads go on all the while: the accounting thread returns when it
has been asked to stop and finds the queue empty, a reader ends after the
message that it is working on, and the accept thread ends when `accept` returns,
with an error or with one more connection.  What is sent on a socket that has
been closed reaches nobody.
-/

/-- The same loop over the bytes as for an identity. -/
def LedgerFingerprint.toString (fp : LedgerFingerprint) : ByteString :=
  fp.bytes.flatMap fun (byte : UInt8) =>
    [Id128.kHex.getD ((byte >>> 4) &&& 0x0F).toNat 0, Id128.kHex.getD (byte &&& 0x0F).toNat 0]

/-- Where `main` is: in the loop over its input, behind the snapshot, behind the
attempt to save it, inside `stop` before and after the sockets are closed, or
done, from the attempt to save on with what it returns. -/
inductive MainPhase where
  | reading
  | snapped (snap : List LedgerEntry)
  | saved (code : Nat)
  | stopping (code : Nat)
  | joining (code : Nat)
  | returned (code : Nat)

namespace MainPhase

/-- `stop_requested_`. -/
def stopRequested : MainPhase → Bool
  | stopping _ => true
  | joining _ => true
  | returned _ => true
  | _ => false

/-- What `main` returns, once it has tried to save. -/
def outcome : MainPhase → Option Nat
  | saved code => some code
  | stopping code => some code
  | joining code => some code
  | returned code => some code
  | _ => none

/-- The loop of `stop` over the connections is over. -/
def socketsClosed : MainPhase → Bool
  | joining _ => true
  | returned _ => true
  | _ => false

theorem stopRequested_of_socketsClosed {phase : MainPhase} (closed : phase.socketsClosed = true) :
    phase.stopRequested = true := by
  cases phase with
  | joining code => rfl
  | returned code => rfl
  | _ => cases closed

end MainPhase

/-- The process: its threads, whether the accept thread and the accounting
thread are still at work, how many of the connections have been closed, the file
at the ledger path, and what was printed. -/
structure CoordinatorProcess where
  threads : Threads
  phase : MainPhase := .reading
  accepting : Bool := true
  accounting : Bool := true
  closed : Nat := 0
  file : Option (List UInt8)
  out : List ByteString := []
  err : List ByteString := []

/-- The steps: one of a thread, a failure of `accept`, a line of the input or its
end, and what `main` does in turn. -/
inductive ProcessStep where
  | thread (input : ThreadStep)
  | acceptFails
  | line (text : ByteString)
  | endOfInput
  | save
  | stop
  | closeSocket
  | join

/-- The input is over for `main`. -/
def ProcessStep.endsInput : ProcessStep → Bool
  | .line text => text == .ofString "SHUTDOWN"
  | .endOfInput => true
  | _ => false

/-- The messages that a step takes were received. -/
def ProcessStep.Wired : ProcessStep → Prop
  | .thread input => input.Wired
  | _ => True

/-- What is seen of the process: what its threads do, and the messages for which
`send_message` fails because the socket has been closed. -/
inductive ProcessEvent where
  | seen (observation : Observation)
  | unsent (send : Send)

/-- What a thread did, whether or not the socket took its message. -/
def ProcessEvent.tried : ProcessEvent → Observation
  | .seen observation => observation
  | .unsent send => .sent send

/-- The first so many connections are closed. -/
def ProcessEvent.attempt (closed : Nat) : Observation → ProcessEvent
  | .sent send =>
      if send.conn.any (fun conn => conn < closed) then .unsent send else .seen (.sent send)
  | .received conn message => .seen (.received conn message)
  | .handled item => .seen (.handled item)

@[simp] theorem ProcessEvent.tried_attempt (closed : Nat) (observation : Observation) :
    (attempt closed observation).tried = observation := by
  cases observation with
  | sent send =>
      rw [attempt]
      split <;> rfl
  | _ => rfl

@[simp] theorem ProcessEvent.map_tried_attempt (closed : Nat) (observed : List Observation) :
    (observed.map (attempt closed)).map tried = observed := by
  rw [List.map_map]
  exact (List.map_congr_left fun observation _ => tried_attempt closed observation).trans
    (List.map_id _)

/-- What a socket took was sent, and not on a closed one. -/
theorem ProcessEvent.of_attempt_sent {closed : Nat} {observation : Observation} {send : Send}
    (took : attempt closed observation = .seen (.sent send)) :
    observation = .sent send ∧ ∀ conn, send.conn = some conn → closed ≤ conn := by
  cases observation with
  | sent other =>
      rw [attempt] at took
      split at took
      · cases took
      · rename_i notClosed
        cases took
        refine ⟨rfl, fun conn same => Nat.le_of_not_lt fun below => notClosed ?_⟩
        simpa [same] using below
  | received conn message => cases took
  | handled item => cases took

/-- The item came from the reader of this connection. -/
def WorkItem.OnConnection (conn : Nat) : WorkItem → Prop
  | .register source _ => source = conn
  | .event source _ => source = some conn
  | .workerLost source _ => source = conn

theorem Threads.onConnection_itemsOf {conn : Nat} {message : Message} :
    ∀ item ∈ itemsOf conn message, item.OnConnection conn := by
  intro item member
  cases message with
  | register reg =>
      rw [List.mem_singleton.mp member]
      rfl
  | eventSubmit entry =>
      rw [List.mem_singleton.mp member]
      rfl
  | _ => cases member

theorem Threads.onConnection_lossOf {threads : Threads} {conn : Nat} :
    ∀ item ∈ threads.lossOf conn, item.OnConnection conn := by
  intro item member
  unfold lossOf at member
  split at member
  · rw [List.mem_singleton.mp member]
    rfl
  · cases member
  · cases member

namespace CoordinatorProcess

/-- The identity under which the tool runs its ledger. -/
def lid : LedgerId := ⟨0x494C4544474552, 0x0000000000000001⟩

/-- After `start` has succeeded. -/
def started (port : UInt16) (file : Option (List UInt8)) : CoordinatorProcess where
  threads := .new lid
  file := file
  out := [.ofString ("COORD " ++ toString port.toNat)]

def ledger (p : CoordinatorProcess) : Ledger := p.threads.coordinator.ledger

/-- What `main` prints when the ledger is saved. -/
def stoppedLine (snap : List LedgerEntry) : ByteString :=
  .ofString "COORD_STOPPED " ++ .ofString (toString snap.length) ++ .ofString " " ++
    (ledgerFingerprint snap).toString

/-- `stop` holds the lock over the connections. -/
def closing (p : CoordinatorProcess) : Bool :=
  match p.phase with
  | .stopping _ => decide (0 < p.closed)
  | _ => false

/-- A step of the threads once they are asked to stop: a reader does not come
round again, the accept thread adds one more connection at most, which gets no
reader, and the accounting thread returns when the queue is empty. -/
def lateStep (p : CoordinatorProcess) : ThreadStep → CoordinatorProcess × List Observation
  | .accept =>
      if p.accepting && !p.closing then
        ({ p with
          accepting := false
          threads := { p.threads with
            coordinator := p.threads.coordinator.accept
            readers := p.threads.readers ++ [.ended] } }, [])
      else (p, [])
  | .receive conn message =>
      if p.threads.readers[conn]? = some .reading then
        let (next, sends) := p.threads.receive conn message
        ({ p with threads := { next with readers := next.readers.set conn .ended } },
          .received conn message :: sends.map .sent)
      else (p, [])
  | .receiveFailure conn =>
      if p.threads.readers[conn]? = some .reading then
        ({ p with threads := p.threads.receiveFailure conn }, [])
      else (p, [])
  | .account =>
      if p.accounting then
        if p.threads.queue.isEmpty then ({ p with accounting := false }, [])
        else
          let (threads, observed) := p.threads.account
          ({ p with threads }, observed)
      else (p, [])

/-- A step of the threads. -/
def threadStep (p : CoordinatorProcess) (input : ThreadStep) :
    CoordinatorProcess × List Observation :=
  if p.phase.stopRequested then p.lateStep input
  else
    let (threads, observed) := Threads.step p.threads input
    ({ p with threads }, observed)

/-- The snapshot is saved and reported, or the error is. -/
def save (fs : FileSystem) (path : String) (p : CoordinatorProcess) (snap : List LedgerEntry) :
    CoordinatorProcess :=
  match saveSnapshot fs snap lid path p.file with
  | (.ok (), file) => { p with file, phase := .saved 0, out := p.out ++ [stoppedLine snap] }
  | (.error err, file) =>
      { p with file, phase := .saved 1, err := p.err ++ [.ofString ("save: " ++ err)] }

/-- What `main` does.  A step that is not its next does nothing. -/
def mainStep (fs : FileSystem) (path : String) (p : CoordinatorProcess) :
    ProcessStep → CoordinatorProcess
  | .thread _ => p
  | .acceptFails => p
  | .line text =>
      match p.phase with
      | .reading =>
          if text = .ofString "SHUTDOWN" then { p with phase := .snapped p.ledger.snapshot } else p
      | _ => p
  | .endOfInput =>
      match p.phase with
      | .reading => { p with phase := .snapped p.ledger.snapshot }
      | _ => p
  | .save =>
      match p.phase with
      | .snapped snap => p.save fs path snap
      | _ => p
  | .stop =>
      match p.phase with
      | .saved code => { p with phase := .stopping code }
      | _ => p
  | .closeSocket =>
      match p.phase with
      | .stopping code =>
          if p.closed < p.threads.coordinator.allConns.length then { p with closed := p.closed + 1 }
          else { p with phase := .joining code }
      | _ => p
  | .join =>
      match p.phase with
      | .joining code => if p.accepting || p.accounting then p else { p with phase := .returned code }
      | _ => p

/-- The process as a machine.  A failed `accept` ends the accept thread once it
is asked to stop, and is tried again before. -/
def step (fs : FileSystem) (path : String) :
    Machine CoordinatorProcess ProcessStep (List ProcessEvent)
  | p, .thread input =>
      ((p.threadStep input).1, (p.threadStep input).2.map (ProcessEvent.attempt p.closed))
  | p, .acceptFails => (if p.phase.stopRequested then { p with accepting := false } else p, [])
  | p, input => (mainStep fs path p input, [])

/-- The process after these steps. -/
abbrev after (fs : FileSystem) (path : String) (port : UInt16) (file : Option (List UInt8))
    (steps : List ProcessStep) : CoordinatorProcess :=
  (step fs path).run (started port file) steps

/-! ## What one step can do -/

section Steps

variable {fs : FileSystem} {path : String} {p : CoordinatorProcess}

/-- What a step other than those of the threads leads to: `main` takes its
snapshot, saves it, asks the threads to stop, closes the sockets, and waits for
the threads, one after the other; and `accept` may fail. -/
inductive MainStep (fs : FileSystem) (path : String) (p next : CoordinatorProcess) : Prop
  | idle (same : next = p)
  | acceptFails (asked : p.phase.stopRequested = true) (same : next = { p with accepting := false })
  | snapshot (phase : p.phase = .reading)
      (same : next = { p with phase := .snapped p.ledger.snapshot })
  | save (snap : List LedgerEntry) (phase : p.phase = .snapped snap)
      (same : next = p.save fs path snap)
  | stop (code : Nat) (phase : p.phase = .saved code)
      (same : next = { p with phase := .stopping code })
  | closeSocket (code : Nat) (phase : p.phase = .stopping code)
      (more : p.closed < p.threads.coordinator.allConns.length)
      (same : next = { p with closed := p.closed + 1 })
  | allClosed (code : Nat) (phase : p.phase = .stopping code)
      (all : p.threads.coordinator.allConns.length ≤ p.closed)
      (same : next = { p with phase := .joining code })
  | join (code : Nat) (phase : p.phase = .joining code) (listening : p.accepting = false)
      (active : p.accounting = false) (same : next = { p with phase := .returned code })

theorem main_cases {input : ProcessStep} (own : ∀ other, input ≠ .thread other) :
    MainStep fs path p (step fs path p input).1 := by
  cases input with
  | thread other => exact (own other rfl).elim
  | acceptFails =>
      cases asked : p.phase.stopRequested with
      | false => exact .idle (by simp [step, asked])
      | true => exact .acceptFails asked (by simp [step, asked])
  | line text =>
      cases phase : p.phase with
      | reading =>
          by_cases shutdown : text = .ofString "SHUTDOWN"
          · exact .snapshot phase (by simp [step, mainStep, phase, shutdown])
          · exact .idle (by simp [step, mainStep, phase, shutdown])
      | _ => exact .idle (by simp [step, mainStep, phase])
  | endOfInput =>
      cases phase : p.phase with
      | reading => exact .snapshot phase (by simp [step, mainStep, phase])
      | _ => exact .idle (by simp [step, mainStep, phase])
  | save =>
      cases phase : p.phase with
      | snapped snap => exact .save snap phase (by simp [step, mainStep, phase])
      | _ => exact .idle (by simp [step, mainStep, phase])
  | stop =>
      cases phase : p.phase with
      | saved code => exact .stop code phase (by simp [step, mainStep, phase])
      | _ => exact .idle (by simp [step, mainStep, phase])
  | closeSocket =>
      cases phase : p.phase with
      | stopping code =>
          by_cases more : p.closed < p.threads.coordinator.allConns.length
          · exact .closeSocket code phase more (by simp [step, mainStep, phase, more])
          · exact .allClosed code phase (Nat.le_of_not_lt more) (by simp [step, mainStep, phase, more])
      | _ => exact .idle (by simp [step, mainStep, phase])
  | join =>
      cases phase : p.phase with
      | joining code =>
          by_cases waits : (p.accepting || p.accounting) = true
          · exact .idle (by simp only [step, mainStep, phase, if_pos waits])
          · rcases Bool.or_eq_false_iff.mp (Bool.eq_false_iff.mpr waits) with ⟨listening, active⟩
            exact .join code phase listening active
              (by simp only [step, mainStep, phase, if_neg waits])
      | _ => exact .idle (by simp [step, mainStep, phase])

/-- What is no step of a thread is not seen from outside. -/
theorem main_silent {input : ProcessStep} (own : ∀ other, input ≠ .thread other) :
    (step fs path p input).2 = [] := by
  cases input with
  | thread other => exact (own other rfl).elim
  | _ => rfl

theorem main_keeps {input : ProcessStep} (own : ∀ other, input ≠ .thread other) :
    (step fs path p input).1.threads = p.threads ∧
      (step fs path p input).1.accounting = p.accounting := by
  cases @main_cases fs path p input own with
  | save snap phase same =>
      rw [same, CoordinatorProcess.save]
      split <;> exact ⟨rfl, rfl⟩
  | _ =>
      rename_i same
      rw [same]
      exact ⟨rfl, rfl⟩

/-- What a step of a thread leads to once the threads are asked to stop: nothing,
the end of the accounting thread on an empty queue, a last connection without a
reader, more items in the queue, or an item handled. -/
inductive LateStep (p : CoordinatorProcess) (input : ThreadStep)
    (result : CoordinatorProcess × List Observation) : Prop
  | idle (same : result = (p, []))
  | quit (empty : p.threads.queue = []) (same : result = ({ p with accounting := false }, []))
  | accept (same : result = ({ p with accepting := false, threads := { p.threads with
      coordinator := p.threads.coordinator.accept
      readers := p.threads.readers ++ [.ended] } }, []))
  | read (conn : Nat) (more : List WorkItem) (observed : List Observation)
      (reading : p.threads.readers[conn]? = some .reading)
      (same : result = ({ p with threads := { p.threads with
        readers := p.threads.readers.set conn .ended
        queue := p.threads.queue ++ more } }, observed))
      (silent : handled observed = [])
      (pings : ∀ send, .sent send ∈ observed → send = ⟨some conn, .ping⟩)
      (source : ∀ item ∈ more, item.OnConnection conn)
      (portable : input.Wired → ∀ item ∈ more, ∀ e, eventIn item = some e → Portable e)
  | handle (item : WorkItem) (rest : List WorkItem) (active : p.accounting = true)
      (front : p.threads.queue = item :: rest)
      (same : result = ({ p with threads := { p.threads with
        coordinator := (Coordinator.accounting p.threads.coordinator item).1
        queue := rest } },
        .handled item :: (Coordinator.accounting p.threads.coordinator item).2.map .sent))

theorem lateStep_cases (p : CoordinatorProcess) (input : ThreadStep) :
    LateStep p input (p.lateStep input) := by
  cases input with
  | accept =>
      cases ready : p.accepting && !p.closing with
      | false => exact .idle (by simp [lateStep, ready])
      | true => exact .accept (by simp [lateStep, ready])
  | receive conn message =>
      by_cases reading : p.threads.readers[conn]? = some .reading
      · have received := receive_eq p.threads conn message
        have took : p.lateStep (.receive conn message) =
            ({ p with threads := { p.threads with
                readers := p.threads.readers.set conn .ended
                queue := p.threads.queue ++ itemsOf conn message } },
              .received conn message :: (p.threads.receive conn message).2.map .sent) := by
          simp only [lateStep, if_pos reading, received.1]
        have silent : handled (.received conn message ::
            (p.threads.receive conn message).2.map .sent) = [] := by
          rw [handled_received, handled_sent]
        refine .read conn (itemsOf conn message) _ reading took silent ?_ onConnection_itemsOf
          portable_itemsOf
        intro send member
        rcases List.mem_cons.mp member with other | sent
        · cases other
        · rcases List.mem_map.mp sent with ⟨other, member, same⟩
          cases same
          exact received.2 send member
      · exact .idle (if_neg reading)
  | receiveFailure conn =>
      by_cases reading : p.threads.readers[conn]? = some .reading
      · have took : p.lateStep (.receiveFailure conn) =
            ({ p with threads := { p.threads with
                readers := p.threads.readers.set conn .ended
                queue := p.threads.queue ++ p.threads.lossOf conn } }, []) := by
          simp only [lateStep, if_pos reading, receiveFailure_eq]
        refine .read conn (p.threads.lossOf conn) [] reading took rfl ?_ onConnection_lossOf
          (fun _ => portable_lossOf p.threads conn)
        intro send member
        cases member
      · exact .idle (if_neg reading)
  | account =>
      cases active : p.accounting with
      | false => exact .idle (by simp [lateStep, active])
      | true =>
          cases queued : p.threads.queue with
          | nil => exact .quit queued (by simp [lateStep, active, queued])
          | cons item rest =>
              exact .handle item rest active queued (by simp [lateStep, active, queued, account])

/-- A step of a thread leaves alone what belongs to `main`. -/
theorem thread_keeps (p : CoordinatorProcess) (input : ThreadStep) :
    (p.threadStep input).1.phase = p.phase ∧ (p.threadStep input).1.file = p.file ∧
      (p.threadStep input).1.out = p.out ∧ (p.threadStep input).1.err = p.err ∧
      (p.threadStep input).1.closed = p.closed := by
  unfold threadStep
  split
  · cases lateStep_cases p input with
    | read conn more observed reading same =>
        rw [same]
        exact ⟨rfl, rfl, rfl, rfl, rfl⟩
    | _ =>
        rename_i same
        rw [same]
        exact ⟨rfl, rfl, rfl, rfl, rfl⟩
  · exact ⟨rfl, rfl, rfl, rfl, rfl⟩

theorem stopRequested_main (asked : p.phase.stopRequested = true) {input : ProcessStep}
    (own : ∀ other, input ≠ .thread other) :
    (step fs path p input).1.phase.stopRequested = true := by
  cases @main_cases fs path p input own with
  | idle same =>
      rw [same]
      exact asked
  | acceptFails _ same =>
      rw [same]
      exact asked
  | snapshot phase same => simp [phase, MainPhase.stopRequested] at asked
  | save snap phase same => simp [phase, MainPhase.stopRequested] at asked
  | stop code phase same => simp [phase, MainPhase.stopRequested] at asked
  | closeSocket code phase more same =>
      rw [same]
      exact asked
  | allClosed code phase all same =>
      rw [same]
      rfl
  | join code phase listening active same =>
      rw [same]
      rfl

/-- `stop_requested_` is never taken back. -/
theorem stopRequested_step (asked : p.phase.stopRequested = true) (input : ProcessStep) :
    (step fs path p input).1.phase.stopRequested = true := by
  cases input with
  | thread other => exact (thread_keeps p other).1 ▸ asked
  | _ => exact stopRequested_main asked (by simp)

/-- Everything that the process holds can be saved, whatever it does. -/
theorem savable_step (savable : p.threads.Savable) {input : ProcessStep} (wired : input.Wired) :
    (step fs path p input).1.threads.Savable := by
  cases input with
  | thread other =>
      simp only [step, threadStep]
      split
      · cases lateStep_cases p other with
        | idle same =>
            rw [same]
            exact savable
        | quit empty same =>
            rw [same]
            exact savable
        | accept same =>
            rw [same]
            exact ⟨savable.queue, savable.ledger, savable.consistent⟩
        | read conn more observed reading same silent pings source portable =>
            rw [same]
            exact savable.enqueued (portable wired)
        | handle item rest active front same =>
            rw [same]
            exact savable.handled front
      · exact savable.step wired
  | _ =>
      rw [(main_keeps (by simp)).1]
      exact savable

theorem savable_after (path : String) (port : UInt16) (file : Option (List UInt8))
    {before : List ProcessStep} (wired : ∀ input ∈ before, input.Wired) :
    (after fs path port file before).threads.Savable := by
  have preserved : ∀ (p : CoordinatorProcess) (input : ProcessStep), input.Wired →
      p.threads.Savable → (step fs path p input).1.threads.Savable :=
    fun p input allowed savable => savable_step savable allowed
  exact Machine.run_allowed preserved (savable_new lid) wired

theorem after_append (path : String) (port : UInt16) (file : Option (List UInt8))
    (before later : List ProcessStep) :
    after fs path port file (before ++ later) =
      (step fs path).run (after fs path port file before) later :=
  Machine.run_append _ _ _ _

end Steps

end CoordinatorProcess

end InferenceLedger
