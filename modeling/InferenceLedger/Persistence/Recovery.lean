import InferenceLedger.Ledger.History
import InferenceLedger.Persistence.Frames

namespace InferenceLedger

open Foundation

/-!
# Saving, loading and replaying

A saved ledger comes back.  The chain has four links: everything `append`
admits can be encoded; the saved bytes are a file of the grammar, whose
entries are the stored ones without their unflagged identities; those
identities influence neither `operator==` nor the encoding, hence not the
fingerprint; and replaying appends every entry to a ledger that does not have
it yet, or finds it there already.

The second link breaks when a stored entry holds an enumeration byte without an
enumerator: neither `append` nor the encoder looks at it, and the decoder refuses
it, and with it the whole file.
-/

/-! ## What the sparse encoding drops -/

theorem optionalId_normalize {tag : IdTag} (flag : Bool) (value : Id128 tag) :
    ByteWriter.optionalId flag (if flag then value else {}) = ByteWriter.optionalId flag value := by
  cases flag <;> rfl

theorem entryPayload_normalize (e : LedgerEntry) : entryPayload e.normalize = entryPayload e := by
  simp only [entryPayload, LedgerEntry.normalize, optionalId_normalize]

theorem encodeEntry_normalize (e : LedgerEntry) : encodeEntry e.normalize = encodeEntry e := by
  simp only [encodeEntry, entryPayload_normalize]
  rfl

theorem contentIsValid_normalize (e : LedgerEntry) :
    contentIsValid e.normalize = contentIsValid e := rfl

theorem map_id_normalize (entries : List LedgerEntry) :
    (entries.map LedgerEntry.normalize).map LedgerEntry.id = entries.map LedgerEntry.id := by
  rw [List.map_map]
  rfl

theorem fingerprintEntry_normalize (mix : Mix) (e : LedgerEntry) :
    fingerprintEntry mix e.normalize = fingerprintEntry mix e := by
  rw [fingerprintEntry, fingerprintEntry, encodeEntry_normalize]

/-- The fingerprint does not see what the encoding drops. -/
theorem ledgerFingerprint_normalize (entries : List LedgerEntry) :
    ledgerFingerprint (entries.map LedgerEntry.normalize) = ledgerFingerprint entries := by
  simp only [ledgerFingerprint, List.foldl_map, fingerprintEntry_normalize]

/-! ## The saved file -/

theorem length_metadataBytes {pairs : List (ByteString × ByteString)}
    (short : ∀ pair ∈ pairs, pair.1.length < 2 ^ 32 ∧ pair.2.length < 2 ^ 32) :
    pairs.length ≤ (metadataBytes pairs).length := by
  induction pairs with
  | nil => exact Nat.le_refl _
  | cons pair pairs ih =>
      have bounds := short pair List.mem_cons_self
      have tail := ih fun other member => short other (List.mem_cons_of_mem _ member)
      simp only [metadataBytes] at tail
      simp only [metadataBytes, List.flatMap_cons, List.length_cons, List.length_append,
        ByteWriter.string_of_lt bounds.1, ByteWriter.string_of_lt bounds.2, ByteWriter.length_u32]
      omega

/-- Up to the number of metadata pairs, the encoder and the ledger agree. -/
theorem encodable_iff_contentIsValid {e : LedgerEntry} (size : e.metadata.size < 2 ^ 32) :
    Encodable e ↔ contentIsValid e = true := by
  rw [contentIsValid_iff]
  constructor
  · rintro ⟨finite, nonNegative, integral, -⟩
    exact ⟨finite, nonNegative, integral⟩
  · rintro ⟨finite, nonNegative, integral⟩
    exact ⟨finite, nonNegative, integral, size⟩

/-- Everything that `append` admits and that fits its frame can be encoded. -/
theorem encodable_of_contentIsValid {e : LedgerEntry} (valid : contentIsValid e = true)
    (fits : FitsFrame e) : Encodable e := by
  have pairs := length_metadataBytes fits.strings
  have inside : (metadataBytes e.metadata.toList).length ≤ (entryPayload e).length := by
    refine List.Sublist.length_le (List.sublist_flatten_of_mem ?_)
    simp
  have size : e.metadata.size < 2 ^ 32 := by
    have bound := fits.payload
    rw [← Std.ExtTreeMap.length_toList]
    omega
  exact (encodable_iff_contentIsValid size).mpr valid

theorem OutStream.write_of_reliable {fs : FileSystem} (reliable : fs.Reliable)
    (contents bytes : List UInt8) :
    OutStream.write fs ⟨contents, true⟩ bytes = ⟨contents ++ bytes, true⟩ := by
  rw [OutStream.write, if_pos rfl, reliable.write]

theorem writeHeader_of_reliable {fs : FileSystem} (reliable : fs.Reliable) (ledgerId : LedgerId) :
    writeHeader fs ⟨[], true⟩ ledgerId = ⟨fileHeader ledgerId, true⟩ := by
  simp only [writeHeader, OutStream.write_of_reliable reliable, List.nil_append, fileHeader]

theorem writeEntries_of_encodable {fs : FileSystem} (reliable : fs.Reliable)
    (writeFailed : String) {entries : List LedgerEntry}
    (encodable : ∀ e ∈ entries, Encodable e) (contents : List UInt8) :
    writeEntries fs writeFailed entries ⟨contents, true⟩ =
      (.ok (), ⟨contents ++ (entries.map (fun e => frame (entryPayload e))).flatten, true⟩) := by
  induction entries generalizing contents with
  | nil => rw [writeEntries, List.map_nil, List.flatten_nil, List.append_nil]
  | cons e entries ih =>
      have encoded := (encodable e List.mem_cons_self).encoded
      rw [writeEntries, encoded]
      simp only [OutStream.write_of_reliable reliable, Bool.not_true, Bool.false_eq_true, if_false]
      rw [ih fun other member => encodable other (List.mem_cons_of_mem _ member)]
      simp only [List.map_cons, List.flatten_cons, List.append_assoc]

/-- Without file system failures, saving writes the header and every frame. -/
theorem saveSnapshot_of_encodable {fs : FileSystem} (reliable : fs.Reliable)
    {entries : List LedgerEntry} (encodable : ∀ e ∈ entries, Encodable e) (ledgerId : LedgerId)
    (path : String) (before : Option (List UInt8)) :
    saveSnapshot fs entries ledgerId path before =
      (.ok (), some (fileHeader ledgerId ++
        (entries.map (fun e => frame (entryPayload e))).flatten)) := by
  unfold saveSnapshot
  rw [reliable.opens]
  simp only [Bool.not_true, Bool.false_eq_true, if_false, writeHeader_of_reliable reliable,
    writeEntries_of_encodable reliable _ encodable, reliable.flush]

/-- A saved ledger is a file of the grammar. -/
theorem isLedgerFile_of_encodable {entries : List LedgerEntry}
    (encodable : ∀ e ∈ entries, Encodable e) (listed : ∀ e ∈ entries, e.Listed)
    (fits : ∀ e ∈ entries, FitsFrame e) (distinct : (entries.map LedgerEntry.id).Nodup) (ledgerId : LedgerId) :
    IsLedgerFile
      (fileHeader ledgerId ++ (entries.map (fun e => frame (entryPayload e))).flatten)
      ledgerId (entries.map LedgerEntry.normalize) where
  frames := by
    refine ⟨_, rfl, _, rfl, ?_⟩
    rw [List.forall₂_map_left_iff, List.forall₂_map_right_iff, List.forall₂_same]
    intro e member
    exact isFrame_frame (encodable e member) (listed e member) (fits e member)
  distinct := by rwa [map_id_normalize]

/-- If the saved bytes are a file of the grammar, every enumeration holds an
enumerator. -/
theorem listed_of_isLedgerFile {entries : List LedgerEntry}
    (encodable : ∀ e ∈ entries, Encodable e) (fits : ∀ e ∈ entries, FitsFrame e)
    {ledgerId otherId : LedgerId} {others : List LedgerEntry}
    (file : IsLedgerFile (fileHeader ledgerId ++ (entryFrames entries).flatten) otherId others) :
    ∀ e ∈ entries, e.Listed := by
  rcases file.frames with ⟨rest, whole, frames⟩
  rw [← (fileHeader_unique whole).2, ← List.append_nil (entryFrames entries).flatten] at frames
  have complete := complete_entryFrames fun e member =>
    Nat.lt_of_lt_of_le (fits e member).payload (by decide : 2 ^ 32 - 8 ≤ 2 ^ 32)
  rcases frames.splits complete with ⟨first, -, -, decoded, -⟩
  intro e member
  exact (((forall₂_isFrame_iff encodable (fun e member => (fits e member).payload) first).mp
    decoded).1 e member).2

/-! ## Replaying -/

/-- Entries that the ledger does not have yet are all accepted. -/
theorem replayEntries_of_fresh {out : Ledger} (consistent : out.Consistent)
    {entries : List LedgerEntry} (valid : ∀ e ∈ entries, contentIsValid e = true)
    (distinct : ((out.entries ++ entries).map LedgerEntry.id).Nodup) :
    ∃ replayed, replayEntries none entries out = (replayed, .ok ()) ∧ replayed.Consistent ∧
      replayed.entries = out.entries ++ entries := by
  induction entries generalizing out with
  | nil => exact ⟨out, rfl, consistent, (List.append_nil _).symm⟩
  | cons e entries ih =>
      have fresh : out.index[e.id]? = none := by
        rw [consistent.index_eq_none_iff]
        intro known
        rw [List.map_append, List.map_cons] at distinct
        exact (List.nodup_append.mp distinct).2.2 _ known _ List.mem_cons_self rfl
      have content := valid e List.mem_cons_self
      have appended : out.append none e = (out.store e, ⟨.accepted, "accepted"⟩) :=
        Ledger.append_of_admissible ⟨content, rfl, fresh⟩
      have stored : (out.store e).entries ++ entries = out.entries ++ e :: entries := by
        rw [Ledger.store_entries, List.append_assoc, List.singleton_append]
      rcases ih (consistent.store content fresh)
          (fun other member => valid other (List.mem_cons_of_mem _ member)) (by rwa [stored]) with
          ⟨replayed, result, replayedConsistent, replayedEntries⟩
      refine ⟨replayed, ?_, replayedConsistent, by rw [replayedEntries, stored]⟩
      rw [replayEntries, appended]
      simpa using result

/-- Entries that the ledger already has are duplicates and change nothing. -/
theorem replayEntries_of_stored {out : Ledger} (consistent : out.Consistent)
    {entries : List LedgerEntry} (stored : ∀ e ∈ entries, e ∈ out.entries) :
    replayEntries none entries out = (out, .ok ()) := by
  induction entries with
  | nil => rfl
  | cons e entries ih =>
      have member := stored e List.mem_cons_self
      have content := consistent.valid e member
      have same := e.beq_self_of_isFinite (isFinite_of_contentIsValid content)
      rcases consistent.append_of_stored none member rfl with ⟨notAccepted, duplicate⟩
      have status := duplicate.mpr ⟨content, rfl, same⟩
      have unchanged := Ledger.append_of_not_accepted notAccepted
      rw [replayEntries]
      simp only [status, unchanged, ne_eq, reduceCtorEq, not_true_eq_false, and_false, if_false]
      exact ih fun other inside => stored other (List.mem_cons_of_mem _ inside)

theorem replayInto_of_loaded {path : String} {file : Option (List UInt8)} {result : LoadResult}
    (loaded : load path file = .done result) (ok : result.ok = true) (out : Ledger)
    (authority : Option AuthorityState) :
    replayInto out authority path file = .done (replayEntries authority result.entries out) := by
  rw [replayInto, loaded]
  simp only [Access.bind_done, ok, Bool.not_true, Bool.false_eq_true, if_false]

/-! ## The whole chain -/

/-- A snapshot comes back from its file and from a replay of it, with one
fingerprint throughout, and replaying once more changes nothing. -/
def Reproduces (fs : FileSystem) (snapshot : List LedgerEntry) (ledgerId target : LedgerId)
    (path : String) (before : Option (List UInt8)) : Prop :=
  ∃ file result replayed,
    saveSnapshot fs snapshot ledgerId path before = (.ok (), some file) ∧
    load path (some file) = .done result ∧ result.ok = true ∧ result.ledgerId = ledgerId ∧
    List.Forall₂ (fun loaded original => (loaded == original) = true) result.entries snapshot ∧
    replayInto { id := target } none path (some file) = .done (replayed, .ok ()) ∧
    replayed.snapshot = result.entries ∧
    result.fingerprint = ledgerFingerprint snapshot ∧
    ledgerFingerprint replayed.snapshot = ledgerFingerprint snapshot ∧
    replayInto replayed none path (some file) = .done (replayed, .ok ())

theorem reproduces_of_listed {fs : FileSystem} (reliable : fs.Reliable) {ledger : Ledger}
    (consistent : ledger.Consistent) (fits : ∀ e ∈ ledger.snapshot, FitsFrame e)
    (listed : ∀ e ∈ ledger.snapshot, e.Listed) (ledgerId target : LedgerId) (path : String)
    (before : Option (List UInt8)) :
    Reproduces fs ledger.snapshot ledgerId target path before := by
  let snapshot := ledger.snapshot
  change Reproduces fs snapshot ledgerId target path before
  have encodable : ∀ e ∈ snapshot, Encodable e := fun e member =>
    encodable_of_contentIsValid (consistent.valid e member) (fits e member)
  have file := isLedgerFile_of_encodable encodable listed fits consistent.distinct ledgerId
  have loaded := load_of_isLedgerFile file path
  have valid : ∀ e ∈ snapshot.map LedgerEntry.normalize, contentIsValid e = true := by
    intro e member
    rcases List.mem_map.mp member with ⟨original, stored, rfl⟩
    rw [contentIsValid_normalize]
    exact consistent.valid original stored
  have distinct : (({ id := target : Ledger }.entries ++
      snapshot.map LedgerEntry.normalize).map LedgerEntry.id).Nodup := file.distinct
  rcases replayEntries_of_fresh (Ledger.consistent_empty target) valid distinct with
      ⟨replayed, replay, replayedConsistent, entries⟩
  change replayed.entries = snapshot.map LedgerEntry.normalize at entries
  refine ⟨_, _, replayed, saveSnapshot_of_encodable reliable encodable ledgerId path before,
    loaded, rfl, rfl, ?_, ?_, entries, ?_, ?_, ?_⟩
  · change List.Forall₂ _ (snapshot.map LedgerEntry.normalize) snapshot
    rw [List.forall₂_map_left_iff, List.forall₂_same]
    intro e member
    exact e.normalize_beq (isFinite_of_contentIsValid (consistent.valid e member))
  · rw [replayInto_of_loaded loaded rfl]
    exact congrArg Access.done replay
  · exact ledgerFingerprint_normalize snapshot
  · change ledgerFingerprint replayed.entries = _
    rw [entries, ledgerFingerprint_normalize]
  · rw [replayInto_of_loaded loaded rfl]
    refine congrArg Access.done (replayEntries_of_stored replayedConsistent ?_)
    intro e member
    rw [entries]
    exact member

theorem listed_of_reproduces {fs : FileSystem} (reliable : fs.Reliable) {ledger : Ledger}
    (consistent : ledger.Consistent) (fits : ∀ e ∈ ledger.snapshot, FitsFrame e)
    {ledgerId target : LedgerId} {path : String} {before : Option (List UInt8)}
    (reproduced : Reproduces fs ledger.snapshot ledgerId target path before) :
    ∀ e ∈ ledger.snapshot, e.Listed := by
  rcases reproduced with ⟨file, result, replayed, saved, loaded, ok, -⟩
  have encodable : ∀ e ∈ ledger.snapshot, Encodable e := fun e member =>
    encodable_of_contentIsValid (consistent.valid e member) (fits e member)
  rw [saveSnapshot_of_encodable reliable encodable] at saved
  cases saved
  rcases frames_of_load loaded ok with ⟨⟨frames, whole, decoded⟩, distinct⟩
  exact listed_of_isLedgerFile encodable fits ⟨⟨_, whole, frames, rfl, decoded⟩, distinct⟩

/-- Save, load and replay reproduce a reachable ledger exactly when every
enumeration that it has stored holds an enumerator. -/
theorem save_load_replay_iff {fs : FileSystem} (reliable : fs.Reliable) (origin : LedgerId)
    (calls : List Ledger.Call)
    (fits : ∀ e ∈ (Ledger.appends.run { id := origin } calls).snapshot, FitsFrame e)
    (ledgerId target : LedgerId) (path : String) (before : Option (List UInt8)) :
    Reproduces fs (Ledger.appends.run { id := origin } calls).snapshot ledgerId target path before ↔
      ∀ e ∈ (Ledger.appends.run { id := origin } calls).snapshot, e.Listed := by
  have consistent : (Ledger.appends.run { id := origin } calls).Consistent :=
    Ledger.appends_consistent (Ledger.consistent_empty origin) calls
  constructor
  · exact listed_of_reproduces reliable consistent fits
  · intro listed
    exact reproduces_of_listed reliable consistent fits listed ledgerId target path before

/-- A file system without limits. -/
def unlimitedDisk : FileSystem where
  opens := fun _ => true
  read := fun _ contents => contents
  write := fun contents bytes => ⟨contents ++ bytes, true⟩
  flush := fun _ => true

theorem unlimitedDisk_reliable : unlimitedDisk.Reliable :=
  ⟨fun _ => rfl, fun _ _ => rfl, fun _ _ => rfl, fun _ => rfl⟩

/-- The answers of a fresh ledger to one entry. -/
theorem snapshot_single {e : LedgerEntry} (valid : contentIsValid e = true) :
    (Ledger.appends.run {} [⟨none, e⟩]).snapshot = [e] := by
  change (Ledger.append {} none e).1.snapshot = _
  rw [Ledger.append_of_admissible ⟨valid, rfl, rfl⟩]
  rfl

/-- A ledger with one entry comes back from its file. -/
theorem save_load_replay_sample :
    Reproduces unlimitedDisk (Ledger.appends.run {} [⟨none, sampleEntry⟩]).snapshot ⟨0, 1⟩ {}
      "ledger.bin" none := by
  have snapshot := snapshot_single (e := sampleEntry) (by decide +kernel)
  apply (save_load_replay_iff unlimitedDisk_reliable {} [⟨none, sampleEntry⟩] ?_ ⟨0, 1⟩ {}
    "ledger.bin" none).mpr
  · rw [snapshot]
    exact List.forall_mem_singleton.mpr listed_sample
  · rw [snapshot]
    exact List.forall_mem_singleton.mpr fitsFrame_sample

/-- The ledger takes the entry, and its file is refused. -/
theorem unlisted_kind_breaks_file :
    ¬ ∀ (fs : FileSystem) (origin : LedgerId) (calls : List Ledger.Call)
      (ledgerId target : LedgerId) (path : String) (before : Option (List UInt8)), fs.Reliable →
      (∀ e ∈ (Ledger.appends.run { id := origin } calls).snapshot, FitsFrame e) →
      Reproduces fs (Ledger.appends.run { id := origin } calls).snapshot ledgerId target path
        before := by
  intro claim
  have snapshot := snapshot_single (e := unlistedEntry) (by decide +kernel)
  have fits : ∀ e ∈ (Ledger.appends.run {} [⟨none, unlistedEntry⟩]).snapshot, FitsFrame e := by
    rw [snapshot]
    exact List.forall_mem_singleton.mpr ⟨by decide +kernel, by decide +kernel⟩
  have consistent : (Ledger.appends.run {} [⟨none, unlistedEntry⟩]).Consistent :=
    Ledger.appends_consistent (Ledger.consistent_empty {}) _
  have listed := listed_of_reproduces unlimitedDisk_reliable consistent fits
    (claim unlimitedDisk {} [⟨none, unlistedEntry⟩] {} {} "ledger.bin" none unlimitedDisk_reliable fits)
  rw [snapshot, List.forall_mem_singleton] at listed
  exact absurd listed.eventKind (by decide)

end InferenceLedger
