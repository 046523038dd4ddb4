import InferenceLedger.Persistence.Truncation

namespace InferenceLedger

open Foundation

/-!
# What the writers leave behind

Both writers stream: an entry is encoded when its turn comes, and the frames
before it are already in the file.  An entry that cannot be encoded stops them
with the file as it is at that point.  `save_snapshot` has truncated the file by
then; `append_entries` has extended it.

`append_entries` decides by the first eight bytes that it can read whether there
is a file to extend.  A file that does not start with the magic, or that cannot
be read, is taken for no file at all and truncated, whatever it holds.
-/

/-! ## The loop over the entries -/

/-- The entries before the first one that `encode_entry` rejects. -/
def encodableFront (entries : List LedgerEntry) : List LedgerEntry :=
  entries.takeWhile fun e => (encodeEntry e).isSome

/-- The answer of the loop when no write fails. -/
def encodeOutcome (entries : List LedgerEntry) : Except String Unit :=
  if entries.all fun e => (encodeEntry e).isSome then .ok () else .error "entry failed to encode"

theorem encodeOutcome_eq_ok_iff (entries : List LedgerEntry) :
    encodeOutcome entries = .ok () ↔ ∀ e ∈ entries, Encodable e := by
  have condition : (entries.all fun e => (encodeEntry e).isSome) = true ↔
      ∀ e ∈ entries, Encodable e := by
    rw [List.all_eq_true]
    exact forall₂_congr fun e _ => isSome_encodeEntry_iff e
  rw [encodeOutcome, ← condition]
  cases (entries.all fun e => (encodeEntry e).isSome) with
  | false => simp
  | true => simp

theorem encodableFront_of_encodable {entries : List LedgerEntry}
    (encodable : ∀ e ∈ entries, Encodable e) : encodableFront entries = entries :=
  List.takeWhile_eq_self_iff.mpr fun e member => (isSome_encodeEntry_iff e).mpr (encodable e member)

theorem writeEntries_of_reliable {fs : FileSystem} (reliable : fs.Reliable) (writeFailed : String)
    (entries : List LedgerEntry) (contents : List UInt8) :
    writeEntries fs writeFailed entries ⟨contents, true⟩ =
      (encodeOutcome entries,
        ⟨contents ++ (entryFrames (encodableFront entries)).flatten, true⟩) := by
  induction entries generalizing contents with
  | nil => simp [writeEntries, encodeOutcome, encodableFront]
  | cons e entries ih =>
      rw [writeEntries]
      cases encoded : encodeEntry e with
      | none => simp [encodeOutcome, encodableFront, encoded]
      | some bytes =>
          have written := ((encodeEntry_eq_some_iff e bytes).mp encoded).2
          simp only [OutStream.write_of_reliable reliable, Bool.not_true, Bool.false_eq_true,
            if_false, ih]
          simp [encodeOutcome, encodableFront, encoded, written]

/-! ## The probe -/

theorem hasHeader_iff (fs : FileSystem) (path : String) (data : List UInt8) :
    hasHeader fs path (some data) = true ↔ (fs.read path data).take 8 = bytesOfU64 kLedgerMagic := by
  rw [hasHeader, Bool.and_eq_true, beq_iff_eq, beq_iff_eq]
  constructor
  · rintro ⟨eight, magic⟩
    rw [← magic, bytesOfU64_u64OfBytes _ eight]
  · intro magic
    rw [magic, u64OfBytes_bytesOfU64]
    exact ⟨rfl, rfl⟩

theorem hasHeader_of_reliable {fs : FileSystem} (reliable : fs.Reliable) (path : String)
    (data : List UInt8) :
    hasHeader fs path (some data) = true ↔ data.take 8 = bytesOfU64 kLedgerMagic := by
  rw [hasHeader_iff, reliable.read]

/-! ## The two writers on a file system that does not fail -/

/-- The ledger under which `append_entries` creates a file. -/
def firstLedger (entries : List LedgerEntry) : LedgerId :=
  match entries with
  | [] => {}
  | e :: _ => e.ledger

section Reliable

variable {fs : FileSystem} (reliable : fs.Reliable) (entries : List LedgerEntry)

include reliable

theorem saveSnapshot_of_reliable (ledgerId : LedgerId) (path : String)
    (before : Option (List UInt8)) :
    saveSnapshot fs entries ledgerId path before =
      (encodeOutcome entries,
        some (fileHeader ledgerId ++ (entryFrames (encodableFront entries)).flatten)) := by
  unfold saveSnapshot
  rw [reliable.opens]
  simp only [Bool.not_true, Bool.false_eq_true, if_false, writeHeader_of_reliable reliable,
    writeEntries_of_reliable reliable]
  cases encodeOutcome entries with
  | error err => rfl
  | ok done => simp only [reliable.flush, Bool.not_true, Bool.false_eq_true, if_false]

/-- A save that succeeds has written every entry. -/
theorem encodable_of_saved {ledgerId : LedgerId} {path : String} {before : Option (List UInt8)}
    {file : List UInt8}
    (saved : saveSnapshot fs entries ledgerId path before = (.ok (), some file)) :
    (∀ e ∈ entries, Encodable e) ∧ file = fileHeader ledgerId ++ (entryFrames entries).flatten := by
  rw [saveSnapshot_of_reliable reliable, Prod.mk.injEq, Option.some.injEq] at saved
  have encodable := (encodeOutcome_eq_ok_iff entries).mp saved.1
  rw [encodableFront_of_encodable encodable] at saved
  exact ⟨encodable, saved.2.symm⟩

theorem appendFrames_of_reliable (path : String) (contents : List UInt8) :
    appendFrames fs entries path contents =
      (encodeOutcome entries,
        some (contents ++ (entryFrames (encodableFront entries)).flatten)) := by
  unfold appendFrames
  rw [reliable.opens]
  simp only [Bool.not_true, Bool.false_eq_true, if_false, writeEntries_of_reliable reliable]
  cases encodeOutcome entries with
  | error err => rfl
  | ok done => simp only [reliable.flush, Bool.not_true, Bool.false_eq_true, if_false]

/-- A file with the magic is extended; anything else is replaced. -/
theorem appendEntries_of_reliable (path : String) (before : Option (List UInt8)) :
    appendEntries fs entries path before =
      (encodeOutcome entries,
        some ((if hasHeader fs path before then before.getD [] else fileHeader (firstLedger entries)) ++
          (entryFrames (encodableFront entries)).flatten)) := by
  unfold appendEntries
  by_cases header : hasHeader fs path before = true
  · rw [if_pos header, if_pos header, appendFrames_of_reliable reliable]
  · rw [if_neg header, if_neg header, reliable.opens]
    simp only [Bool.not_true, Bool.false_eq_true, if_false, writeHeader_of_reliable reliable,
      appendFrames_of_reliable reliable]
    rfl

end Reliable

/-! ## Whether appending keeps the file -/

/-- What a stream does when it is open at the end of the file: it only adds to
it, whether or not it succeeds. -/
structure FileSystem.OnlyAdds (fs : FileSystem) : Prop where
  write : ∀ contents bytes, contents <+: (fs.write contents bytes).contents

theorem OutStream.write_keeps {fs : FileSystem} (adds : fs.OnlyAdds) (stream : OutStream)
    (bytes : List UInt8) : stream.contents <+: (stream.write fs bytes).contents := by
  unfold OutStream.write
  by_cases good : stream.good = true
  · rw [if_pos good]
    exact adds.write _ _
  · rw [if_neg good]

theorem writeEntries_keeps {fs : FileSystem} (adds : fs.OnlyAdds) (writeFailed : String)
    (entries : List LedgerEntry) (stream : OutStream) :
    stream.contents <+: (writeEntries fs writeFailed entries stream).2.contents := by
  induction entries generalizing stream with
  | nil => exact List.prefix_refl _
  | cons e entries ih =>
      rw [writeEntries]
      cases encodeEntry e with
      | none => exact List.prefix_refl _
      | some bytes =>
          have written := stream.write_keeps adds bytes
          by_cases good : (stream.write fs bytes).good = true
          · simp only [good, Bool.not_true, Bool.false_eq_true, if_false]
            exact written.trans (ih _)
          · simp only [good, Bool.not_false, if_true]
            exact written

theorem appendFrames_keeps {fs : FileSystem} (adds : fs.OnlyAdds) (entries : List LedgerEntry)
    (path : String) (contents : List UInt8) :
    ∃ later, (appendFrames fs entries path contents).2 = some later ∧ contents <+: later := by
  have written := writeEntries_keeps adds "append write failed" entries ⟨contents, true⟩
  unfold appendFrames
  cases fs.opens path with
  | false => exact ⟨contents, rfl, List.prefix_refl _⟩
  | true =>
      simp only [Bool.not_true, Bool.false_eq_true, if_false]
      generalize writeEntries fs "append write failed" entries ⟨contents, true⟩ = outcome at written
      rcases outcome with ⟨answer, stream⟩
      cases answer with
      | error err => exact ⟨stream.contents, rfl, written⟩
      | ok done =>
          refine ⟨stream.contents, ?_, written⟩
          cases flushed : fs.flush stream.contents <;> simp [flushed]

/-- After `append_entries`, whatever it answers, the old contents are the
beginning of the new ones. -/
def KeepsFile (fs : FileSystem) (entries : List LedgerEntry) (path : String)
    (contents : List UInt8) : Prop :=
  ∃ later, (appendEntries fs entries path (some contents)).2 = some later ∧ contents <+: later

/-- What a stream does of a write: it adds a beginning of the bytes, and all of
them if it stays good. -/
structure FileSystem.WritesInOrder (fs : FileSystem) : Prop where
  write : ∀ contents bytes, ∃ part, part <+: bytes ∧
    (fs.write contents bytes).contents = contents ++ part ∧
    ((fs.write contents bytes).good = true → part = bytes)

/-- The stream holds a beginning of what was to be written so far, and all of it
if it is good. -/
structure OutStream.Holds (stream : OutStream) (bytes : List UInt8) : Prop where
  begins : stream.contents <+: bytes
  whole : stream.good = true → stream.contents = bytes

theorem OutStream.Holds.write {fs : FileSystem} (inOrder : fs.WritesInOrder) {stream : OutStream}
    {before : List UInt8} (holds : stream.Holds before) (bytes : List UInt8) :
    (stream.write fs bytes).Holds (before ++ bytes) := by
  unfold OutStream.write
  by_cases good : stream.good = true
  · rw [if_pos good, holds.whole good]
    rcases inOrder.write before bytes with ⟨part, begins, contents, whole⟩
    refine ⟨?_, fun stillGood => ?_⟩
    · rw [contents, List.prefix_append_right_inj]
      exact begins
    · rw [contents, whole stillGood]
  · rw [if_neg good]
    exact ⟨holds.begins.trans (List.prefix_append before bytes), fun also => (good also).elim⟩

theorem OutStream.Holds.writeEntries {fs : FileSystem} (inOrder : fs.WritesInOrder)
    (writeFailed : String) (entries : List LedgerEntry) {stream : OutStream} {before : List UInt8}
    (holds : stream.Holds before) :
    (writeEntries fs writeFailed entries stream).2.contents <+:
      before ++ (entryFrames (encodableFront entries)).flatten := by
  induction entries generalizing stream before with
  | nil => exact holds.begins.trans (List.prefix_append _ _)
  | cons e entries ih =>
      rw [InferenceLedger.writeEntries]
      cases encoded : encodeEntry e with
      | none => exact holds.begins.trans (List.prefix_append _ _)
      | some bytes =>
          have framed := ((encodeEntry_eq_some_iff e bytes).mp encoded).2
          have front : (entryFrames (encodableFront (e :: entries))).flatten =
              bytes ++ (entryFrames (encodableFront entries)).flatten := by
            simp [encodableFront, encoded, framed]
          have written := holds.write inOrder bytes
          rw [front, ← List.append_assoc]
          by_cases good : (stream.write fs bytes).good = true
          · simp only [good, Bool.not_true, Bool.false_eq_true, if_false]
            exact ih written
          · simp only [good, Bool.not_false, if_true]
            exact written.begins.trans (List.prefix_append _ _)

/-- The file that `append_entries` creates where it finds no header. -/
def createdFile (entries : List LedgerEntry) : List UInt8 :=
  fileHeader (firstLedger entries) ++ (entryFrames (encodableFront entries)).flatten

theorem appendFrames_begins {fs : FileSystem} (inOrder : fs.WritesInOrder)
    (entries : List LedgerEntry) (path : String) (before : List UInt8) :
    ∃ later, (appendFrames fs entries path before).2 = some later ∧
      later <+: before ++ (entryFrames (encodableFront entries)).flatten := by
  have start : (⟨before, true⟩ : OutStream).Holds before :=
    ⟨List.prefix_refl before, fun _ => rfl⟩
  have written := start.writeEntries inOrder "append write failed" entries
  unfold appendFrames
  cases fs.opens path with
  | false => exact ⟨before, rfl, List.prefix_append _ _⟩
  | true =>
      simp only [Bool.not_true, Bool.false_eq_true, if_false]
      generalize writeEntries fs "append write failed" entries ⟨before, true⟩ = outcome at written
      rcases outcome with ⟨answer, stream⟩
      cases answer with
      | error err => exact ⟨stream.contents, rfl, written⟩
      | ok done =>
          refine ⟨stream.contents, ?_, written⟩
          cases flushed : fs.flush stream.contents <;> simp [flushed]

theorem appendEntries_of_no_header {fs : FileSystem} (entries : List LedgerEntry) {path : String}
    {before : Option (List UInt8)} (absent : hasHeader fs path before = false) :
    appendEntries fs entries path before =
      if !fs.opens path then (.error "cannot create file", before)
      else if !(writeHeader fs ⟨[], true⟩ (firstLedger entries)).good then
        (.error "cannot create file",
          some (writeHeader fs ⟨[], true⟩ (firstLedger entries)).contents)
      else
        appendFrames fs entries path
          (writeHeader fs ⟨[], true⟩ (firstLedger entries)).contents :=
  if_neg (Bool.eq_false_iff.mp absent)

/-- Where no header was read and the file opens, what stands there afterwards is
a beginning of the created file. -/
theorem created_begins {fs : FileSystem} (inOrder : fs.WritesInOrder) (entries : List LedgerEntry)
    {path : String} {before : Option (List UInt8)} (absent : hasHeader fs path before = false)
    (opens : fs.opens path = true) :
    ∃ later, (appendEntries fs entries path before).2 = some later ∧
      later <+: createdFile entries := by
  have start : (⟨[], true⟩ : OutStream).Holds [] := ⟨List.prefix_refl [], fun _ => rfl⟩
  have header : (writeHeader fs ⟨[], true⟩ (firstLedger entries)).Holds
      (fileHeader (firstLedger entries)) :=
    ((start.write inOrder _).write inOrder _).write inOrder _
  rw [appendEntries_of_no_header entries absent, opens]
  by_cases good : (writeHeader fs ⟨[], true⟩ (firstLedger entries)).good = true
  · simp only [good, Bool.not_true, Bool.false_eq_true, if_false, header.whole good]
    exact appendFrames_begins inOrder entries path _
  · simp only [good, Bool.not_true, Bool.not_false, Bool.false_eq_true, if_false, if_true]
    exact ⟨_, rfl, header.begins.trans (List.prefix_append _ _)⟩

section Keeps

variable {fs : FileSystem} (entries : List LedgerEntry) (path : String) (contents : List UInt8)

theorem keepsFile_iff_of_reliable (reliable : fs.Reliable) :
    KeepsFile fs entries path contents ↔ contents.take 8 <+: bytesOfU64 kLedgerMagic := by
  unfold KeepsFile
  rw [appendEntries_of_reliable reliable]
  have probe := hasHeader_of_reliable reliable path contents
  by_cases header : hasHeader fs path (some contents) = true
  · rw [if_pos header, probe.mp header]
    exact ⟨fun _ => List.prefix_refl _, fun _ => ⟨_, rfl, List.prefix_append _ _⟩⟩
  · rw [if_neg header]
    have magic : ∀ rest, (fileHeader (firstLedger entries) ++ rest).take 8 =
        bytesOfU64 kLedgerMagic := fun rest => (fileHeader_append _ rest).1
    constructor
    · rintro ⟨later, written, kept⟩
      rw [← magic, ← Option.some.inj written.symm]
      exact kept.take 8
    · intro begins
      -- Without the whole magic, the contents are shorter than it.
      have short : contents.length < 8 := by
        by_contra long
        have eight : (contents.take 8).length = 8 := by
          rw [List.length_take]
          omega
        exact header (probe.mpr (begins.eq_of_length eight))
      rw [List.take_of_length_le (Nat.le_of_lt short)] at begins
      refine ⟨_, rfl, begins.trans ?_⟩
      rw [fileHeader, List.append_assoc, List.append_assoc]
      exact List.prefix_append _ _

theorem keepsFile_of_magic_read (adds : fs.OnlyAdds)
    (condition : (fs.read path contents).take 8 = bytesOfU64 kLedgerMagic ∨
      fs.opens path = false) : KeepsFile fs entries path contents := by
  unfold KeepsFile appendEntries
  by_cases header : hasHeader fs path (some contents) = true
  · rw [if_pos header]
    exact appendFrames_keeps adds entries path contents
  · have closed := condition.resolve_left (mt (hasHeader_iff fs path contents).mpr header)
    rw [if_neg header, closed]
    exact ⟨contents, rfl, List.prefix_refl _⟩

/-- What is kept without its magic is a beginning of the file put in its place. -/
theorem begins_created_of_keepsFile (inOrder : fs.WritesInOrder)
    (keeps : KeepsFile fs entries path contents) :
    (fs.read path contents).take 8 = bytesOfU64 kLedgerMagic ∨ fs.opens path = false ∨
      contents <+: createdFile entries := by
  rcases keeps with ⟨later, written, kept⟩
  by_contra! neither
  rcases neither with ⟨unread, opens, longer⟩
  have absent := Bool.eq_false_iff.mpr (mt (hasHeader_iff fs path contents).mp unread)
  rcases created_begins inOrder entries absent (Bool.not_eq_false _ ▸ opens) with
    ⟨created, left, begins⟩
  rw [left] at written
  cases written
  exact longer (kept.trans begins)

end Keeps

/-- Both writers fail, and neither has touched the file. -/
def FailsCleanly (fs : FileSystem) (entries : List LedgerEntry) (ledgerId : LedgerId)
    (path : String) (before : Option (List UInt8)) : Prop :=
  (∃ err, saveSnapshot fs entries ledgerId path before = (.error err, before)) ∧
    ∃ err, appendEntries fs entries path before = (.error err, before)

theorem encodeOutcome_of_rejected {entries : List LedgerEntry}
    (rejected : ∃ e ∈ entries, encodeEntry e = none) :
    encodeOutcome entries = .error "entry failed to encode" := by
  rcases rejected with ⟨e, member, none⟩
  refine if_neg fun all => ?_
  have encoded := List.all_eq_true.mp all e member
  rw [none] at encoded
  cases encoded

/-- A list with a rejected entry, split at the first one. -/
theorem split_at_rejected {entries : List LedgerEntry}
    (rejected : ∃ e ∈ entries, encodeEntry e = none) :
    ∃ e back, entries = encodableFront entries ++ e :: back ∧ encodeEntry e = none := by
  induction entries with
  | nil =>
      rcases rejected with ⟨e, member, -⟩
      cases member
  | cons first entries ih =>
      cases encoded : encodeEntry first with
      | none => exact ⟨first, entries, by simp [encodableFront, encoded], encoded⟩
      | some bytes =>
          have later : ∃ e ∈ entries, encodeEntry e = none := by
            rcases rejected with ⟨e, member, none⟩
            rcases List.mem_cons.mp member with rfl | inside
            · rw [encoded] at none
              cases none
            · exact ⟨e, inside, none⟩
          rcases ih later with ⟨e, back, split, none⟩
          refine ⟨e, back, ?_, none⟩
          have front : encodableFront (first :: entries) = first :: encodableFront entries := by
            simp [encodableFront, encoded]
          rw [front, List.cons_append, ← split]

/-- Failed writes.  When an entry is rejected, both writers answer so and stop
there.  The frames of the entries before it have been written, by
`save_snapshot` behind a new header, and by `append_entries` behind the old
contents if these start with the magic, or behind a new header if there was no
file. -/
theorem failed_writes_stop {fs : FileSystem} (reliable : fs.Reliable) {entries : List LedgerEntry}
    (rejected : ∃ e ∈ entries, encodeEntry e = none) (ledgerId : LedgerId) (path : String) :
    ∃ front e back, entries = front ++ e :: back ∧ encodeEntry e = none ∧
      (∀ written ∈ front, ∃ bytes, encodeEntry written = some bytes) ∧
      (∀ before, saveSnapshot fs entries ledgerId path before =
        (.error "entry failed to encode",
          some (fileHeader ledgerId ++ (entryFrames front).flatten))) ∧
      (∀ contents, contents.take 8 = bytesOfU64 kLedgerMagic →
        appendEntries fs entries path (some contents) =
          (.error "entry failed to encode", some (contents ++ (entryFrames front).flatten))) ∧
      appendEntries fs entries path none =
        (.error "entry failed to encode",
          some (fileHeader (firstLedger entries) ++ (entryFrames front).flatten)) := by
  have outcome := encodeOutcome_of_rejected rejected
  rcases split_at_rejected rejected with ⟨e, back, split, none⟩
  refine ⟨encodableFront entries, e, back, split, none, ?_, ?_, ?_, ?_⟩
  · intro written member
    have encoded : (encodeEntry written).isSome = true :=
      List.mem_takeWhile_imp (p := fun e => (encodeEntry e).isSome) member
    exact Option.isSome_iff_exists.mp encoded
  · intro before
    rw [saveSnapshot_of_reliable reliable, outcome]
  · intro contents magic
    rw [appendEntries_of_reliable reliable, outcome, if_pos ((hasHeader_of_reliable reliable path contents).mpr magic)]
    rfl
  · rw [appendEntries_of_reliable reliable, outcome]
    rfl

/-- An entry whose quantity is infinite. -/
def infiniteEntry : LedgerEntry := { quantity := { value := ⟨0x7FF0000000000000⟩ } }

/-- Saving two entries of which the second is rejected leaves the first. -/
theorem failed_writes_stop_sample :
    saveSnapshot unlimitedDisk [sampleEntry, infiniteEntry] ⟨0, 1⟩ "ledger.bin" none =
      (.error "entry failed to encode",
        some (fileHeader ⟨0, 1⟩ ++ frame (entryPayload sampleEntry))) := by
  have rejected : ∃ e ∈ [sampleEntry, infiniteEntry], encodeEntry e = none :=
    ⟨infiniteEntry, by simp, by decide +kernel⟩
  have accepted := encodable_sample.encoded
  rcases failed_writes_stop unlimitedDisk_reliable rejected ⟨0, 1⟩ "ledger.bin" with
    ⟨front, e, back, split, none, -, saved, -⟩
  rcases front with _ | ⟨first, _ | ⟨second, front⟩⟩
  · cases split
    rw [accepted] at none
    cases none
  · cases split
    have single : (entryFrames [sampleEntry]).flatten = frame (entryPayload sampleEntry) :=
      List.flatten_singleton
    rw [saved, single]
  · simp at split

/-- A failed save has truncated the file. -/
theorem failed_save_truncates :
    ¬ ∀ (fs : FileSystem) (entries : List LedgerEntry) (ledgerId : LedgerId) (path : String)
      (before : Option (List UInt8)), fs.Reliable → (∃ e ∈ entries, encodeEntry e = none) →
      FailsCleanly fs entries ledgerId path before := by
  intro cleanly
  have rejected : ∃ e ∈ [infiniteEntry], encodeEntry e = none :=
    ⟨infiniteEntry, List.mem_cons_self, by decide +kernel⟩
  rcases cleanly unlimitedDisk [infiniteEntry] ⟨0, 1⟩ "ledger.bin" (some (fileHeader ⟨0, 2⟩))
    unlimitedDisk_reliable rejected with ⟨⟨err, saved⟩, -⟩
  rw [saveSnapshot_of_reliable unlimitedDisk_reliable] at saved
  have contents : some (fileHeader ⟨0, 1⟩ ++
      (entryFrames (encodableFront [infiniteEntry])).flatten) = some (fileHeader ⟨0, 2⟩) :=
    congrArg Prod.snd saved
  exact absurd contents (by decide +kernel)

end InferenceLedger
