import InferenceLedger.Codec.Accepted
import InferenceLedger.Distributed.Enumerators
import InferenceLedger.Distributed.FrameLimits
import InferenceLedger.Distributed.Threads
import InferenceLedger.Persistence.Recovery

namespace InferenceLedger

open Foundation Std

/-!
# What came over the wire can be saved

An entry can be too large for a frame, and it can carry values that its flags
leave out; a file would not give such an entry back.  Neither can happen to a
coordinator whose events all came through `recv_message`: a frame of the
protocol is small, and the decoder fills in only what the flags announce.

So the ledger of a coordinator can be saved at every moment, whatever its peers
have sent, and the file gives back exactly the entries that were in it.
-/

/-- `recv_message` returned this message, from some bytes. -/
def Message.Arrived (message : Message) : Prop :=
  ∃ stream rest, recvMessage stream = .ok (.done message, rest)

/-- An entry that a file gives back as it was. -/
structure Portable (e : LedgerEntry) : Prop where
  sparse : e.normalize = e
  listed : e.Listed
  fits : FitsFrame e

section Entries

variable {e : LedgerEntry}

/-- A small buffer yields portable entries only. -/
theorem portable_of_decoded {data : List UInt8} {count : Nat}
    (decoded : decodeEntry data = .done (e, count)) (short : data.length < 2 ^ 32) :
    Portable e := by
  rcases layout_of_decoded decoded with ⟨acceptable, layout, represents, payload⟩
  refine ⟨represents.sparse, acceptable.listed, represents.encoded.short, ?_⟩
  have inside := inside_of_decoded decoded
  have length : (layout.payload e).length = (wordAt data 0).toNat := by
    rw [← payload, framePayload, List.length_take, List.length_drop]
    omega
  have shortest := represents.length_le
  omega

/-- The entry of a submission is decoded from behind the length field. -/
theorem decodeEntry_of_submitted {content : List UInt8}
    (accepted : decodeMessage content = .done (.eventSubmit e)) :
    ∃ count, decodeEntry (content.drop 5) = .done (e, count) := by
  have submit : msgTypeFrom (content.getD 0 0) = .eventSubmit := (type_of_accepted accepted).symm
  unfold decodeMessage at accepted
  split at accepted
  · cases accepted
  simp only [if_pos submit] at accepted
  rcases Access.bind_eq_done_iff.mp accepted with ⟨⟨flen, position⟩, -, continued⟩
  split at continued
  · cases continued
  rcases Access.bind_eq_done_iff.mp continued with ⟨⟨entry, consumed⟩, decoded, final⟩
  split at final
  · cases final
    exact ⟨consumed, decoded⟩
  · cases final

theorem portable_of_arrived (arrived : (Message.eventSubmit e).Arrived) : Portable e := by
  rcases arrived with ⟨stream, rest, received⟩
  rw [recvMessage] at received
  cases taken : recvFrame stream with
  | error err =>
      rw [taken] at received
      cases received
  | ok parts =>
      rcases parts with ⟨content, behind⟩
      rw [taken] at received
      have decoded : decodeMessage content = .done (.eventSubmit e) :=
        congrArg Prod.fst (Except.ok.inj received)
      rcases decodeEntry_of_submitted decoded with ⟨count, entry⟩
      have limit := length_le_of_recvFrame taken
      apply portable_of_decoded entry
      rw [List.length_drop]
      omega

end Entries

/-- A message whose content a receiver decodes. -/
theorem Message.arrived_of_content {message : Message} {payload : List UInt8}
    (decoded : decodeMessage (messageContent message payload) = .done message)
    (small : (messageContent message payload).length ≤ frameLimit) : message.Arrived := by
  refine ⟨frame (messageContent message payload), [], ?_⟩
  have received := recvMessage_frame small []
  rwa [List.append_nil, decoded] at received

/-- An entry in decoded form arrives as it was submitted. -/
theorem Message.arrived_submit {e : LedgerEntry} (encodable : Encodable e) (listed : e.Listed)
    (size : (Message.eventSubmit e).wireSize ≤ frameLimit) (sparse : e.normalize = e) :
    (Message.eventSubmit e).Arrived := by
  have strings : (Message.eventSubmit e).StringsFit := by
    apply stringsFit_of_wireSize
    rw [frameLimit] at size
    omega
  have written : ∃ payload, messagePayload (.eventSubmit e) = some payload := by
    rw [messagePayload, encodable.encoded]
    exact ⟨_, rfl⟩
  rcases written with ⟨payload, written⟩
  have small : (messageContent (.eventSubmit e) payload).length ≤ frameLimit :=
    (length_messageContent written strings).trans_le size
  have decoded := (decodeMessage_eventSubmit written listed strings small).1
  rw [sparse] at decoded
  exact arrived_of_content decoded small

/-! ## The ledger of a coordinator -/

/-- A message that a reader takes was received. -/
def ThreadStep.Wired : ThreadStep → Prop
  | .receive _ message => message.Arrived
  | _ => True

namespace Threads

/-- The event that an item carries. -/
def eventIn : WorkItem → Option LedgerEntry
  | .event _ e => some e
  | .register _ _ => none
  | .workerLost _ _ => none

/-- What is queued and what is stored can be saved. -/
structure Savable (threads : Threads) : Prop where
  queue : ∀ item ∈ threads.queue, ∀ e, eventIn item = some e → Portable e
  ledger : ∀ e ∈ threads.coordinator.ledger.entries, Portable e
  consistent : threads.coordinator.ledger.Consistent

theorem savable_new (ledgerId : LedgerId) : (new ledgerId).Savable where
  queue := by
    intro item member
    cases member
  ledger := by
    intro e member
    cases member
  consistent := Ledger.consistent_empty ledgerId

/-- The events of a message that arrived. -/
theorem portable_itemsOf {conn : Nat} {message : Message} (arrived : message.Arrived) :
    ∀ item ∈ itemsOf conn message, ∀ e, eventIn item = some e → Portable e := by
  intro item member e carried
  cases message with
  | eventSubmit entry =>
      rw [List.mem_singleton.mp member] at carried
      cases carried
      exact portable_of_arrived arrived
  | register reg =>
      rw [List.mem_singleton.mp member] at carried
      cases carried
  | _ => cases member

/-- A loss carries no event. -/
theorem portable_lossOf (threads : Threads) (conn : Nat) :
    ∀ item ∈ threads.lossOf conn, ∀ e, eventIn item = some e → Portable e := by
  intro item member e carried
  unfold lossOf at member
  split at member
  · rw [List.mem_singleton.mp member] at carried
    cases carried
  · cases member
  · cases member

namespace Savable

variable {threads : Threads} (savable : threads.Savable)
include savable

/-- More items are queued. -/
theorem enqueued {more : List WorkItem} {readers : List Reader}
    (portable : ∀ item ∈ more, ∀ e, eventIn item = some e → Portable e) :
    Savable { threads with readers, queue := threads.queue ++ more } where
  queue := by
    intro item member
    rcases List.mem_append.mp member with queued | added
    · exact savable.queue item queued
    · exact portable item added
  ledger := savable.ledger
  consistent := savable.consistent

/-- The first item is handled. -/
theorem handled {item : WorkItem} {rest : List WorkItem} (front : threads.queue = item :: rest) :
    Savable { threads with
      coordinator := (Coordinator.accounting threads.coordinator item).1
      queue := rest } where
  queue := by
    intro other member
    apply savable.queue other
    rw [front]
    exact List.mem_cons_of_mem item member
  ledger := by
    intro e member
    have first := savable.queue item (front ▸ List.mem_cons_self)
    rcases Coordinator.accounting_entries threads.coordinator item with same |
      ⟨conn, stored, rfl, -, grown⟩
    · rw [same] at member
      exact savable.ledger e member
    · rw [grown] at member
      rcases List.mem_append.mp member with old | new
      · exact savable.ledger e old
      · rw [List.mem_singleton.mp new]
        exact first stored rfl
  consistent := by
    cases item with
    | register conn reg => exact savable.consistent
    | workerLost conn worker => exact savable.consistent
    | event conn e =>
        exact savable.consistent.append (some (threads.coordinator.authorityFor e)) e

theorem step {input : ThreadStep} (wired : input.Wired) : (step threads input).1.Savable := by
  rcases step_cases threads input with idle | added | ⟨conn, message, rfl, -, received⟩ |
    ⟨conn, -, -, failed⟩ | ⟨item, rest, -, front, done⟩
  · rw [idle]
    exact savable
  · rw [added]
    exact ⟨savable.queue, savable.ledger, savable.consistent⟩
  · rw [received]
    exact savable.enqueued (portable_itemsOf wired)
  · rw [failed]
    exact savable.enqueued (portable_lossOf threads conn)
  · rw [done]
    exact savable.handled front

end Savable

end Threads

/-! ## Files of such a ledger -/

/-- The file gives these entries back, and a fresh ledger takes them all. -/
structure Restores (path : String) (file : List UInt8) (ledgerId : LedgerId)
    (entries : List LedgerEntry) : Prop where
  loaded : load path (some file) = .done (.loaded ledgerId entries.length entries)
  replayed : ∃ replayed, replayInto {} none path (some file) = .done (replayed, .ok ()) ∧
    replayed.snapshot = entries

theorem map_normalize_of_portable {entries : List LedgerEntry} (portable : ∀ e ∈ entries, Portable e) :
    entries.map LedgerEntry.normalize = entries := by
  rw [← List.map_id entries, List.map_map]
  apply List.map_congr_left
  intro e member
  exact (portable e member).sparse

/-- Saving a ledger of portable entries succeeds, and loses nothing. -/
theorem saved_of_portable {fs : FileSystem} (reliable : fs.Reliable) {ledger : Ledger}
    (consistent : ledger.Consistent) (portable : ∀ e ∈ ledger.entries, Portable e)
    (ledgerId : LedgerId) (path : String) (before : Option (List UInt8)) :
    ∃ file, saveSnapshot fs ledger.snapshot ledgerId path before = (.ok (), some file) ∧
      Restores path file ledgerId ledger.snapshot := by
  have fits : ∀ e ∈ ledger.entries, FitsFrame e := fun e member => (portable e member).fits
  have encodable : ∀ e ∈ ledger.entries, Encodable e := fun e member =>
    encodable_of_contentIsValid (consistent.valid e member) (fits e member)
  have listed : ∀ e ∈ ledger.entries, e.Listed := fun e member => (portable e member).listed
  have file := isLedgerFile_of_encodable encodable listed fits consistent.distinct ledgerId
  rw [map_normalize_of_portable portable] at file
  have loaded := load_of_isLedgerFile file path
  have fresh : (({ } : Ledger).entries ++ ledger.entries).map LedgerEntry.id |>.Nodup :=
    consistent.distinct
  rcases replayEntries_of_fresh (Ledger.consistent_empty {}) consistent.valid fresh with
    ⟨replayed, replay, -, entries⟩
  refine ⟨_, saveSnapshot_of_encodable reliable encodable ledgerId path before, loaded, replayed, ?_,
    entries⟩
  rw [replayInto_of_loaded loaded rfl]
  exact congrArg Access.done replay

end InferenceLedger
