import InferenceLedger.Distributed.Completion
import InferenceLedger.Persistence.Recovery

namespace InferenceLedger

open Foundation Std Threads

/-!
# From a written script to the ledger

`write_script` puts entry frames into a file, the worker takes them out again,
and the coordinator receives them over the wire.  The three ends meet here: once
the cluster is at rest, a worker that was not killed is done with its script,
the coordinator has handled the entries that were written, in their order and
each of them once, and what the worker printed is what the ledger answered.

The entries arrive in the form that a decoder gives them, in which a value that
its flag leaves out is zero.
-/

/-- The process was started with what `write_script` wrote, the enumeration bytes
of the written entries are listed, and each of them fits into a message. -/
structure Worker.Runs (w : Worker) (entries : List LedgerEntry) : Prop where
  script : w.script = some (writeScript entries).1
  listed : ∀ e ∈ writtenEntries entries, e.Listed
  fits : ∀ e ∈ writtenEntries entries, (Message.eventSubmit e).wireSize ≤ frameLimit

theorem fitsFrame_of_wireSize {e : LedgerEntry}
    (fits : (Message.eventSubmit e).wireSize ≤ frameLimit) : FitsFrame e := by
  rw [fitsFrame_iff]
  simp only [Message.wireSize, frameLimit] at fits
  simp only [LedgerEntry.frameSize]
  omega

theorem Encodable.normalize {e : LedgerEntry} (encodable : Encodable e) :
    Encodable e.normalize := by
  rw [← isSome_encodeEntry_iff] at encodable ⊢
  rw [encodeEntry_normalize]
  exact encodable

/-- An optional value that its flag leaves out was not written. -/
theorem wireSize_normalize (e : LedgerEntry) :
    (Message.eventSubmit e.normalize).wireSize = (Message.eventSubmit e).wireSize := rfl

namespace Worker.Runs

variable {w : Worker} {entries : List LedgerEntry} (runs : w.Runs entries)
include runs

theorem data_eq : w.data = (writtenEntries entries).flatMap entryFrame := by
  rw [Worker.data, runs.script, Option.getD_some, writeScript_eq]

theorem fitsFrame : ∀ e ∈ writtenEntries entries, FitsFrame e :=
  fun e member => fitsFrame_of_wireSize (runs.fits e member)

theorem scriptEntry_eq (index : Nat) :
    scriptEntry w.data index = ((writtenEntries entries)[index]?).map LedgerEntry.normalize := by
  rw [runs.data_eq]
  exact scriptEntry_written (fun e => encodable_of_mem_written) runs.listed runs.fitsFrame index

/-- An entry of the script is a written one. -/
theorem of_scriptEntry {index : Nat} {e : LedgerEntry} (yielded : scriptEntry w.data index = some e) :
    ∃ original ∈ writtenEntries entries, e = original.normalize := by
  rw [runs.scriptEntry_eq] at yielded
  rcases Option.map_eq_some_iff.mp yielded with ⟨original, found, same⟩
  exact ⟨original, List.mem_of_getElem? found, same.symm⟩

theorem scriptFits : w.ScriptFits := by
  intro index e yielded
  rcases runs.of_scriptEntry yielded with ⟨original, member, rfl⟩
  rw [wireSize_normalize]
  exact runs.fits original member

/-- Where a frame starts, its entry is decoded. -/
theorem decoded_of_position {index pos : Nat} (found : framePosition w.data index = some pos)
    (inside : pos < w.data.length) :
    ∃ e ∈ writtenEntries entries,
      decodeEntry (w.data.drop pos) = .done (e.normalize, (entryFrame e).length) := by
  have encodable : ∀ e ∈ writtenEntries entries, Encodable e :=
    fun e => encodable_of_mem_written
  rw [runs.data_eq] at found inside ⊢
  by_cases below : index < (writtenEntries entries).length
  · rw [framePosition_written encodable runs.listed runs.fitsFrame (Nat.le_of_lt below)] at found
    rw [← Option.some.inj found]
    exact ⟨_, List.getElem_mem below, (decoded_written encodable runs.listed runs.fitsFrame below).2⟩
  · have last := framePosition_written encodable runs.listed runs.fitsFrame (Nat.le_refl _)
    rw [List.take_length] at last
    rcases Nat.eq_or_lt_of_le (Nat.le_of_not_lt below) with same | past
    · rw [← same, last] at found
      cases found
      exact absurd inside (Nat.lt_irrefl _)
    · have missing : framePosition ((writtenEntries entries).flatMap entryFrame)
          ((writtenEntries entries).length + 1) = none := by
        rw [framePosition, last, Option.bind_some, if_neg (Nat.lt_irrefl _)]
      rw [framePosition_none_of_le missing past] at found
      cases found

theorem advances : w.Advances := by
  intro index pos e consumed found inside decoded
  rcases runs.decoded_of_position found inside with ⟨original, -, same⟩
  rw [same] at decoded
  cases decoded
  exact length_entryFrame_pos original

/-- With such a script there is only one way to stop. -/
theorem finished_of_ended (orderly : w.Orderly) (settled : w.Settled)
    (ended : w.phase.ended = true) : w.phase = .finished := by
  have position := orderly.position
  rw [Worker.Settled] at settled
  cases phase : w.phase with
  | finished => rfl
  | faulted =>
      rw [phase] at settled
      rcases runs.decoded_of_position position settled.1 with ⟨e, -, decoded⟩
      cases decoded.symm.trans settled.2
  | failed failure =>
      rw [phase] at settled
      cases failure with
      | cannotOpenScript => cases runs.script.symm.trans settled
      | badScriptFrame index =>
          rcases settled with ⟨-, inside, rejected⟩
          rcases runs.decoded_of_position position inside with ⟨e, -, decoded⟩
          cases decoded.symm.trans rejected
      | sendSubmit err =>
          rcases settled with ⟨-, e, yielded, refused⟩
          rcases runs.of_scriptEntry yielded with ⟨original, member, rfl⟩
          have encoded := (encodable_of_mem_written member).normalize.encoded
          simp [encodeMessage, messagePayload, encoded] at refused
      | _ => exact settled.elim
  | _ => simp [phase, Phase.ended] at ended

end Worker.Runs

namespace Cluster

theorem filterMap_ackIn_of_rolls {messages : List Message} (rolls : Rolls messages) :
    messages.filterMap ackIn = [] := by
  rw [List.filterMap_eq_nil_iff]
  intro message member
  rcases rolls message member with ⟨roll, rfl⟩
  rfl

section Rest

variable {ledgerId : LedgerId} {steps : List ClusterStep} {conn : Nat} {s : Session}
  {entries : List LedgerEntry}
  (listed : (after ledgerId steps).sessions[conn]? = some s) (runs : s.worker.Runs entries)
include listed runs

/-- At rest, a process that was not killed is done with its script. -/
theorem finished_of_rest
    (scripts : ∀ (conn : Nat) (s : Session), (after ledgerId steps).sessions[conn]? = some s →
      ∃ entries, s.worker.Runs entries)
    (rest : Machine.AtRest moves Internal (after ledgerId steps)) (alive : s.killed = false) :
    s.worker.phase = .finished := by
  have lively : Lively ledgerId (after ledgerId steps) := by
    refine ⟨⟨_, coherent_after ledgerId steps⟩, attended_after ledgerId steps, ?_⟩
    intro other t found
    rcases scripts other t found with ⟨written, runsWritten⟩
    exact ⟨runsWritten.scriptFits, runsWritten.advances⟩
  have ended := ended_of_rest lively rest listed alive
  rcases conversation_after listed runs.scriptFits with ⟨up, down, conversation⟩
  have started : s.worker.phase ≠ .connected := by
    intro phase
    simp [phase, Phase.ended] at ended
  have idle : s.worker.waiting = false := by
    cases phase : s.worker.phase <;> simp_all [Phase.ended, Worker.waiting]
  exact runs.finished_of_ended conversation.orderly
    (conversation.talk.of_settled started idle).1 ended

/-- A process that is done has had all its entries handled, and has printed all
the answers. -/
theorem handled_written (finished : s.worker.phase = .finished) :
    eventsOn conn (handled (seen ledgerId steps)) =
        (writtenEntries entries).map LedgerEntry.normalize ∧
      s.worker.printedAcks = answers ledgerId conn (handled (seen ledgerId steps)) := by
  rcases conversation_after listed runs.scriptFits with ⟨up, down, conversation⟩
  rw [threads_after] at conversation
  rcases conversation.talk.of_settled (by simp [finished]) (by simp [Worker.waiting, finished])
    with ⟨-, -, -, -, rolls⟩
  constructor
  · apply List.ext_getElem?
    intro index
    rw [handled_of_finished conversation finished, runs.scriptEntry_eq, List.getElem?_map]
  · rw [answered_places conversation, filterMap_ackIn_of_rolls rolls, List.append_nil]

end Rest

/-- Once the cluster is at rest, a process that was not killed is done, the
coordinator has handled exactly the entries that were written into its script,
and the process has printed what the ledger answered. -/
theorem delivered_of_rest (ledgerId : LedgerId) (steps : List ClusterStep)
    (scripts : ∀ (conn : Nat) (s : Session), (after ledgerId steps).sessions[conn]? = some s →
      ∃ entries, s.worker.Runs entries)
    (rest : Machine.AtRest moves Internal (after ledgerId steps)) (conn : Nat) (s : Session)
    (listed : (after ledgerId steps).sessions[conn]? = some s) (alive : s.killed = false)
    (entries : List LedgerEntry) (runs : s.worker.Runs entries) :
    s.worker.phase = .finished ∧
    eventsOn conn (handled (seen ledgerId steps)) =
      (writtenEntries entries).map LedgerEntry.normalize ∧
    s.worker.printedAcks = answers ledgerId conn (handled (seen ledgerId steps)) := by
  have finished := finished_of_rest listed runs scripts rest alive
  rcases handled_written listed runs finished with ⟨delivered, printed⟩
  exact ⟨finished, delivered, printed⟩

/-- A single worker that holds its connection, with nothing under way. -/
theorem atRest_of_holding {c : Cluster} {s : Session} (sessions : c.sessions = [s])
    (queue : c.threads.queue = []) (phase : s.worker.phase = .finished)
    (hold : s.worker.hold = true) (killed : s.killed = false) (under : s.toCoordinator = []) :
    Machine.AtRest moves Internal c := by
  have quiet : receipt s.toCoordinator = .blocked := by
    rw [under]
    exact receipt_nil
  intro input own
  cases input with
  | connect worker boot script hold => exact own.elim
  | kill conn => exact own.elim
  | account => simp [moves, queue]
  | proceed conn =>
      cases conn <;> simp [moves, sessions, phase, Phase.ended]
  | deliver conn =>
      cases conn <;> simp [moves, sessions, phase, Worker.waiting]
  | read conn =>
      cases conn <;> simp [moves, sessions, quiet, Receipt.arrived]
  | lose conn =>
      cases conn <;> simp [moves, sessions, Session.gone, Worker.exited, phase, hold, killed]

theorem written_only : writtenEntries [onlyEntry] = [onlyEntry] := by
  have encoded := (encodable_only onlyEntry List.mem_cons_self).encoded
  simp [writtenEntries, encoded]

theorem runs_only {w : Worker} (script : w.script = some (entryFrame onlyEntry)) :
    w.Runs [onlyEntry] := by
  refine ⟨?_, ?_, ?_⟩
  · rw [script, writeScript_eq, written_only]
    simp
  · rw [written_only]
    exact listed_only
  · rw [written_only]
    decide

end Cluster

end InferenceLedger
