import InferenceLedger.Codec.Accepted
import InferenceLedger.Distributed.FrameLimits

namespace InferenceLedger

open Foundation Std

/-!
# The worker process

A worker connects, registers under its identity and boot, and then submits the
entries of its script one at a time.  It waits for the acknowledgement of each
entry before it sends the next, and takes note of every `Roll` that arrives in
between.  The script is a file of entry frames, one behind the other, without a
header.

What the process does by itself is one step, up to the next message that it
waits for; what it does with a message is another.  The lines that it prints
are kept, and an error ends it with the text on its standard error.
-/

/-- A line on the standard output. -/
inductive Line where
  | reg (epoch : CoordinatorEpoch) (accountingGeneration : AccountingGeneration)
  | roll (epoch : CoordinatorEpoch) (accountingGeneration : AccountingGeneration)
  | ack (index : Nat) (ack : EventAckMsg)
  | workerDone (worker : WorkerId)
deriving DecidableEq

/-- The errors after which `main` returns 1, once it is connected. -/
inductive Failure where
  | sendReg (err : String)
  | recvRegack (err : String)
  | registrationRejected (reason : ByteString)
  | cannotOpenScript
  | badScriptFrame (index : Nat)
  | sendSubmit (err : String)
  | recvReply (err : String)
  | unexpectedMessage
deriving DecidableEq

/-- What is written to the standard error. -/
def Failure.text : Failure → ByteString
  | sendReg err => .ofString ("send reg: " ++ err)
  | recvRegack err => .ofString ("recv regack: " ++ err)
  | registrationRejected reason => .ofString "registration rejected: " ++ reason
  | cannotOpenScript => .ofString "cannot open script"
  | badScriptFrame index => .ofString ("bad script frame " ++ toString index)
  | sendSubmit err => .ofString ("send submit: " ++ err)
  | recvReply err => .ofString ("recv reply: " ++ err)
  | unexpectedMessage => .ofString "unexpected message"

/-- Where `main` is.  After a read outside of the script nothing is known of
the process. -/
inductive Phase where
  | connected | registering | submitting | awaiting | finished
  | failed (failure : Failure)
  | faulted
deriving DecidableEq

/-- The process sends and receives nothing any more. -/
def Phase.ended : Phase → Bool
  | .finished => true
  | .failed _ => true
  | .faulted => true
  | _ => false

/-- The process, with its arguments.  A script that cannot be opened is `none`. -/
structure Worker where
  worker : WorkerId
  boot : WorkerBootId
  script : Option (List UInt8)
  hold : Bool
  phase : Phase := .connected
  epoch : CoordinatorEpoch := {}
  accountingGeneration : AccountingGeneration := {}
  pos : Nat := 0
  index : Nat := 0
  lines : List Line := []

namespace Worker

/-- What was read from the script file. -/
def data (w : Worker) : List UInt8 := w.script.getD []

def registration (w : Worker) : Message := .register { worker := w.worker, boot := w.boot }

def fail (w : Worker) (failure : Failure) : Worker := { w with phase := .failed failure }

/-- The body of the outer loop up to the send, or what follows the loop. -/
def submitNext (w : Worker) : Worker × List UInt8 :=
  if w.pos < w.data.length then
    match decodeEntry (w.data.drop w.pos) with
    | .outOfBounds => ({ w with phase := .faulted }, [])
    | .rejected => (w.fail (.badScriptFrame w.index), [])
    | .done (e, consumed) =>
        match encodeMessage (.eventSubmit e) with
        | none => (w.fail (.sendSubmit "message encode failed"), [])
        | some bytes => ({ w with pos := w.pos + consumed, phase := .awaiting }, bytes)
  else ({ w with phase := .finished, lines := w.lines ++ [.workerDone w.worker] }, [])

/-- What the process does until it waits, with the bytes that it sends. -/
def proceed (w : Worker) : Worker × List UInt8 :=
  match w.phase with
  | .connected =>
      match encodeMessage w.registration with
      | none => (w.fail (.sendReg "message encode failed"), [])
      | some bytes => ({ w with phase := .registering }, bytes)
  | .submitting => w.submitNext
  | .registering => (w, [])
  | .awaiting => (w, [])
  | .finished => (w, [])
  | .failed _ => (w, [])
  | .faulted => (w, [])

/-- A registration that was not refused; the script is opened only now. -/
def registered (w : Worker) (ack : RegisterAckMsg) : Worker :=
  { w with
    phase := if w.script.isSome then .submitting else .failed .cannotOpenScript
    epoch := ack.epoch
    accountingGeneration := ack.accountingGeneration
    lines := w.lines ++ [.reg ack.epoch ack.accountingGeneration] }

def rolled (w : Worker) (roll : RollMsg) : Worker :=
  { w with
    epoch := roll.epoch
    accountingGeneration := roll.accountingGeneration
    lines := w.lines ++ [.roll roll.epoch roll.accountingGeneration] }

def acknowledged (w : Worker) (ack : EventAckMsg) : Worker :=
  { w with
    phase := .submitting
    index := w.index + 1
    lines := w.lines ++ [.ack w.index ack] }

/-- What the process does with a message.  The reason in the text of a refused
registration is that of the `RegisterAck`, and empty for any other message. -/
def receive (w : Worker) (message : Message) : Worker :=
  match w.phase with
  | .registering =>
      match message with
      | .registerAck ack =>
          if ack.ok then w.registered ack else w.fail (.registrationRejected ack.reason)
      | _ => w.fail (.registrationRejected [])
  | .awaiting =>
      match message with
      | .roll roll => w.rolled roll
      | .eventAck ack => w.acknowledged ack
      | _ => w.fail .unexpectedMessage
  | _ => w

/-- What the process does when `recv_message` returns false. -/
def receiveFailure (w : Worker) (err : String) : Worker :=
  match w.phase with
  | .registering => w.fail (.recvRegack err)
  | .awaiting => w.fail (.recvReply err)
  | _ => w

/-- The process is inside `recv_message`. -/
def waiting (w : Worker) : Bool :=
  match w.phase with
  | .registering => true
  | .awaiting => true
  | _ => false

/-- The process has returned from `main`, which closes its socket. -/
def exited (w : Worker) : Bool :=
  match w.phase with
  | .failed _ => true
  | .faulted => true
  | .finished => !w.hold
  | _ => false

end Worker

/-! ## The frames of a script -/

/-- Where the frame with this index starts in the script. -/
def framePosition (data : List UInt8) : Nat → Option Nat
  | 0 => some 0
  | index + 1 =>
      (framePosition data index).bind fun pos =>
        if pos < data.length then
          match decodeEntry (data.drop pos) with
          | .done (_, consumed) => some (pos + consumed)
          | _ => none
        else none

/-- The entry in the frame with this index. -/
def scriptEntry (data : List UInt8) (index : Nat) : Option LedgerEntry :=
  (framePosition data index).bind fun pos =>
    if pos < data.length then
      match decodeEntry (data.drop pos) with
      | .done (e, _) => some e
      | _ => none
    else none

/-- `write_script`: the bytes that are in the file when it returns, and what it
returns.  An entry that cannot be encoded ends it. -/
def writeScript : List LedgerEntry → List UInt8 × Bool
  | [] => ([], true)
  | e :: entries =>
      match encodeEntry e with
      | none => ([], false)
      | some bytes =>
          let (rest, complete) := writeScript entries
          (bytes ++ rest, complete)

section Script

variable {data : List UInt8} {index pos consumed : Nat} {e : LedgerEntry}

theorem scriptEntry_of_decoded (found : framePosition data index = some pos)
    (inside : pos < data.length) (decoded : decodeEntry (data.drop pos) = .done (e, consumed)) :
    scriptEntry data index = some e := by
  rw [scriptEntry, found, Option.bind_some, if_pos inside, decoded]

theorem framePosition_succ (found : framePosition data index = some pos)
    (inside : pos < data.length) (decoded : decodeEntry (data.drop pos) = .done (e, consumed)) :
    framePosition data (index + 1) = some (pos + consumed) := by
  rw [framePosition, found, Option.bind_some, if_pos inside, decoded]

/-- A script ends where its last frame ends. -/
theorem scriptEntry_of_end (found : framePosition data index = some pos)
    (outside : data.length ≤ pos) : scriptEntry data index = none := by
  rw [scriptEntry, found, Option.bind_some, if_neg (Nat.not_lt_of_le outside)]

/-- The entries that a script yields come out of the decoder. -/
theorem decoded_of_scriptEntry (yielded : scriptEntry data index = some e) :
    ∃ stream count, decodeEntry stream = .done (e, count) := by
  rw [scriptEntry] at yielded
  rcases Option.bind_eq_some_iff.mp yielded with ⟨start, -, decoded⟩
  split at decoded
  · split at decoded
    · rename_i other count found
      cases decoded
      exact ⟨_, count, found⟩
    · cases decoded
  · cases decoded

/-- They are in the form that the decoder gives them: what a flag leaves out is
zero. -/
theorem normalize_of_scriptEntry (yielded : scriptEntry data index = some e) :
    e.normalize = e := by
  rcases decoded_of_scriptEntry yielded with ⟨stream, count, decoded⟩
  rcases layout_of_decoded decoded with ⟨-, layout, represents, -⟩
  exact represents.sparse

/-- Their enumeration bytes are listed. -/
theorem listed_of_scriptEntry (yielded : scriptEntry data index = some e) : e.Listed := by
  rcases decoded_of_scriptEntry yielded with ⟨stream, count, decoded⟩
  exact (layout_of_decoded decoded).1.listed

/-- Where a later frame starts, the frame before it was decoded. -/
theorem framePosition_succ_eq_some (found : framePosition data (index + 1) = some pos) :
    ∃ start e consumed, framePosition data index = some start ∧ start < data.length ∧
      decodeEntry (data.drop start) = .done (e, consumed) ∧ pos = start + consumed := by
  rw [framePosition] at found
  rcases Option.bind_eq_some_iff.mp found with ⟨start, before, decoded⟩
  split at decoded
  · rename_i inside
    split at decoded
    · rename_i e consumed entry
      exact ⟨start, e, consumed, before, inside, entry, (Option.some.inj decoded).symm⟩
    · cases decoded
  · cases decoded

/-- Behind a frame that is not there, there is none. -/
theorem framePosition_none_of_le {later : Nat} (missing : framePosition data index = none)
    (behind : index ≤ later) : framePosition data later = none := by
  induction behind with
  | refl => exact missing
  | step _ ih => rw [framePosition, ih, Option.bind_none]

/-- The entries in the first frames of a script. -/
def scriptEntries (data : List UInt8) (count : Nat) : List LedgerEntry :=
  (List.range count).filterMap (scriptEntry data)

theorem scriptEntries_succ (entry : scriptEntry data index = some e) :
    scriptEntries data (index + 1) = scriptEntries data index ++ [e] := by
  simp [scriptEntries, List.range_succ, entry]

/-- Up to a frame that is there, every frame yields its entry. -/
theorem getElem?_scriptEntries {count : Nat} (found : framePosition data count = some pos) :
    (scriptEntries data count).length = count ∧
      ∀ index < count, (scriptEntries data count)[index]? = scriptEntry data index := by
  induction count generalizing pos with
  | zero => exact ⟨rfl, fun _ below => absurd below (Nat.not_lt_zero _)⟩
  | succ count ih =>
      rcases framePosition_succ_eq_some found with ⟨start, e, consumed, before, inside, decoded, -⟩
      have entry := scriptEntry_of_decoded before inside decoded
      rcases ih before with ⟨length, each⟩
      rw [scriptEntries_succ entry]
      refine ⟨by rw [List.length_append, length]; rfl, fun index below => ?_⟩
      rcases Nat.lt_succ_iff_lt_or_eq.mp below with earlier | rfl
      · rw [List.getElem?_append_left (by rw [length]; exact earlier), each index earlier]
      · rw [List.getElem?_append_right (Nat.le_of_eq length), length, Nat.sub_self, entry]
        rfl

/-- When the script ends at a frame, its entries are all there are. -/
theorem getElem?_scriptEntries_of_end (found : framePosition data index = some pos)
    (ended : data.length ≤ pos) (position : Nat) :
    (scriptEntries data index)[position]? = scriptEntry data position := by
  rcases getElem?_scriptEntries found with ⟨length, each⟩
  by_cases below : position < index
  · exact each position below
  · rw [List.getElem?_eq_none (by rw [length]; exact Nat.le_of_not_lt below)]
    rcases Nat.eq_or_lt_of_le (Nat.le_of_not_lt below) with rfl | past
    · exact (scriptEntry_of_end found ended).symm
    · have missing : framePosition data (index + 1) = none := by
        rw [framePosition, found, Option.bind_some, if_neg (Nat.not_lt_of_le ended)]
      rw [scriptEntry, framePosition_none_of_le missing past, Option.bind_none]

end Script

/-! ## Scripts that were written -/

/-- The frame that `encode_entry` writes for an entry. -/
def entryFrame (e : LedgerEntry) : List UInt8 := frame (entryPayload e)

/-- The entries that `write_script` gets to: those before the first that cannot
be encoded. -/
def writtenEntries (entries : List LedgerEntry) : List LedgerEntry :=
  entries.takeWhile fun e => (encodeEntry e).isSome

theorem encodable_of_mem_written {entries : List LedgerEntry} {e : LedgerEntry}
    (member : e ∈ writtenEntries entries) : Encodable e := by
  have encoded := List.mem_takeWhile_imp member
  exact (isSome_encodeEntry_iff e).mp encoded

theorem writeScript_eq (entries : List LedgerEntry) :
    writeScript entries =
      ((writtenEntries entries).flatMap entryFrame,
        entries.all fun e => (encodeEntry e).isSome) := by
  induction entries with
  | nil => rfl
  | cons e entries ih =>
      rw [writeScript]
      cases encoded : encodeEntry e with
      | none => simp [writtenEntries, encoded]
      | some bytes =>
          have written : writtenEntries (e :: entries) = e :: writtenEntries entries := by
            simp [writtenEntries, encoded]
          have bytesEq : bytes = entryFrame e := ((encodeEntry_eq_some_iff e bytes).mp encoded).2
          simp [ih, written, bytesEq, encoded]

section Written

variable {written : List LedgerEntry}

/-- Behind the first frames of a script stand the others. -/
theorem drop_flatMap_entryFrame (written : List LedgerEntry) (index : Nat) :
    (written.flatMap entryFrame).drop ((written.take index).flatMap entryFrame).length =
      (written.drop index).flatMap entryFrame := by
  have split : written.flatMap entryFrame =
      (written.take index).flatMap entryFrame ++ (written.drop index).flatMap entryFrame := by
    rw [← List.flatMap_append, List.take_append_drop]
  rw [split, List.drop_left]

/-- The decoder finds the entry at the front of the remaining frames. -/
theorem decodeEntry_entryFrame {e : LedgerEntry} (encodable : Encodable e) (listed : e.Listed)
    (fits : FitsFrame e) (rest : List UInt8) :
    decodeEntry (entryFrame e ++ rest) = .done (e.normalize, (entryFrame e).length) := by
  rw [entryFrame, decodeEntry_frame fits.payload, parse_entryPayload encodable listed fits]
  rfl

theorem length_entryFrame_pos (e : LedgerEntry) : 0 < (entryFrame e).length := by
  rw [entryFrame, length_frame]
  omega

variable (encodable : ∀ e ∈ written, Encodable e) (listed : ∀ e ∈ written, e.Listed)
  (fits : ∀ e ∈ written, FitsFrame e)
include encodable listed fits

/-- At the start of a frame the decoder finds its entry. -/
theorem decoded_written {index : Nat} (below : index < written.length) :
    ((written.take index).flatMap entryFrame).length < (written.flatMap entryFrame).length ∧
      decodeEntry ((written.flatMap entryFrame).drop
          ((written.take index).flatMap entryFrame).length) =
        .done (written[index].normalize, (entryFrame written[index]).length) := by
  have behind := drop_flatMap_entryFrame written index
  rw [List.drop_eq_getElem_cons below, List.flatMap_cons] at behind
  constructor
  · have lengths := congrArg List.length behind
    rw [List.length_drop, List.length_append] at lengths
    have positive := length_entryFrame_pos written[index]
    omega
  · have member : written[index] ∈ written := List.getElem_mem below
    rw [behind]
    exact decodeEntry_entryFrame (encodable _ member) (listed _ member) (fits _ member) _

/-- The frame with an index starts behind the frames before it. -/
theorem framePosition_written {index : Nat} (inside : index ≤ written.length) :
    framePosition (written.flatMap entryFrame) index =
      some ((written.take index).flatMap entryFrame).length := by
  induction index with
  | zero => rfl
  | succ index ih =>
      have below : index < written.length := inside
      rcases decoded_written encodable listed fits below with ⟨before, decoded⟩
      rw [framePosition_succ (ih (Nat.le_of_lt below)) before decoded, List.take_add_one,
        List.getElem?_eq_getElem below, List.flatMap_append, List.length_append]
      simp

/-- The entries of a script that was written are read back in their order, and
nothing else is. -/
theorem scriptEntry_written (index : Nat) :
    scriptEntry (written.flatMap entryFrame) index =
      (written[index]?).map LedgerEntry.normalize := by
  by_cases below : index < written.length
  · rcases decoded_written encodable listed fits below with ⟨before, decoded⟩
    have found := framePosition_written encodable listed fits (Nat.le_of_lt below)
    rw [scriptEntry_of_decoded found before decoded, List.getElem?_eq_getElem below,
      Option.map_some]
  · have last := framePosition_written encodable listed fits (Nat.le_refl written.length)
    rw [List.take_length] at last
    rw [← getElem?_scriptEntries_of_end last (Nat.le_refl _), List.getElem?_eq_none,
      List.getElem?_eq_none (Nat.le_of_not_lt below), Option.map_none]
    rw [(getElem?_scriptEntries last).1]
    exact Nat.le_of_not_lt below

end Written

end InferenceLedger
