import InferenceLedger.Codec.Accepted
import InferenceLedger.Persistence.Writing

namespace InferenceLedger

open Foundation

/-!
# Extending a file

`append_entries` writes frames behind a file that `load` accepts.  The result is
a file with the entries of both, and `load` accepts it unless an identity occurs
twice.

There are two exceptions.  The encoder skips a metadata string that is too long
for its length field and still reports success, so the frame announces more
strings than it holds; and it writes whatever byte an enumeration holds, while
the decoder refuses those that are no enumerators.  Such a frame is written, and
the file that was readable before is refused from then on.
-/

section Encoded

variable {ys : List LedgerEntry} (encodable : ∀ e ∈ ys, Encodable e)
  (small : ∀ e ∈ ys, (entryPayload e).length < 2 ^ 32 - 8)

include encodable small

/-- What the frames of both make: a file is accepted if every string was written,
every enumeration holds an enumerator, and no identity occurs twice. -/
theorem isLedgerFile_extended_iff {ledgerId : LedgerId} {frames : List (List UInt8)}
    {xs : List LedgerEntry} (decoded : List.Forall₂ IsFrame frames xs) (otherId : LedgerId)
    (others : List LedgerEntry) :
    IsLedgerFile (fileHeader ledgerId ++ frames.flatten ++ (entryFrames ys).flatten) otherId others ↔
      otherId = ledgerId ∧ others = xs ++ ys.map LedgerEntry.normalize ∧
      (∀ e ∈ ys, ShortPairs e.metadata.toList ∧ e.Listed) ∧
      ((xs ++ ys).map LedgerEntry.id).Nodup := by
  have ids : (xs ++ ys.map LedgerEntry.normalize).map LedgerEntry.id =
      (xs ++ ys).map LedgerEntry.id := by
    rw [List.map_append, List.map_append, map_id_normalize]
  rw [List.append_assoc]
  constructor
  · intro file
    have distinct := file.distinct
    rcases file.frames with ⟨rest, whole, isFrames⟩
    rcases fileHeader_unique whole with ⟨rfl, rfl⟩
    -- The old frames come first, and then the new ones, up to the very end.
    rcases isFrames.splits (complete_of_decoded decoded) with ⟨first, _, rfl, firstDecoded, behind⟩
    rw [← List.append_nil (entryFrames ys).flatten] at behind
    have complete := complete_entryFrames fun e member => by
      have bound := small e member
      omega
    rcases behind.splits complete with ⟨second, last, rfl, secondDecoded, nothing⟩
    rcases (forall₂_isFrame_iff encodable small second).mp secondDecoded with ⟨short, rfl⟩
    have none := nothing.eq_nil
    have unique : Relator.RightUnique IsFrame := fun _ _ _ => IsFrame.unique
    have same := List.right_unique_forall₂' unique firstDecoded decoded
    rw [none, List.append_nil, same] at distinct ⊢
    rw [ids] at distinct
    exact ⟨rfl, rfl, short, distinct⟩
  · rintro ⟨rfl, rfl, short, distinct⟩
    refine ⟨⟨_, rfl, frames ++ entryFrames ys, List.flatten_append.symm, ?_⟩, by rwa [ids]⟩
    exact List.rel_append decoded ((forall₂_isFrame_iff encodable small _).mpr ⟨short, rfl⟩)

end Encoded

/-! ## Appending to a file -/

/-- What `append_entries` promises on a file that `load` accepts, and where
there is no file. -/
structure Extends (fs : FileSystem) (path : String) (data : List UInt8) (result : LoadResult)
    (ys : List LedgerEntry) : Prop where
  extended : ∃ later answer, appendEntries fs ys path (some data) = (.ok (), some later) ∧
    load path (some later) = .done answer ∧
    (answer.ok = true ↔ ((result.entries ++ ys).map LedgerEntry.id).Nodup) ∧
    (answer.ok = true → answer.ledgerId = result.ledgerId ∧
      List.Forall₂ (fun loaded original => (loaded == original) = true) answer.entries
        (result.entries ++ ys))
  created : appendEntries fs ys path none = saveSnapshot fs ys (firstLedger ys) path none

section Append

variable {fs : FileSystem} (reliable : fs.Reliable) {ys : List LedgerEntry}
  (encodable : ∀ e ∈ ys, Encodable e)

include reliable encodable

theorem appendEntries_of_header {contents : List UInt8}
    (magic : contents.take 8 = bytesOfU64 kLedgerMagic) (path : String) :
    appendEntries fs ys path (some contents) =
      (.ok (), some (contents ++ (entryFrames ys).flatten)) := by
  have header := (hasHeader_of_reliable reliable path contents).mpr magic
  rw [appendEntries_of_reliable reliable, (encodeOutcome_eq_ok_iff ys).mpr encodable, if_pos header,
    encodableFront_of_encodable encodable]
  rfl

omit encodable in
theorem appendEntries_none (path : String) :
    appendEntries fs ys path none = saveSnapshot fs ys (firstLedger ys) path none := by
  rw [appendEntries_of_reliable reliable, saveSnapshot_of_reliable reliable]
  rfl

end Append

/-- The entries of a loaded file agree with themselves. -/
theorem forall₂_beq_of_decoded {frames : List (List UInt8)} {xs : List LedgerEntry}
    (decoded : List.Forall₂ IsFrame frames xs) :
    List.Forall₂ (fun loaded original => (loaded == original) = true) xs xs := by
  rw [List.forall₂_same]
  induction decoded with
  | nil => exact List.forall_mem_nil _
  | cons isFrame _ ih =>
      have acceptable := (layout_of_decoded isFrame.accepted).1
      exact List.forall_mem_cons.mpr ⟨LedgerEntry.beq_self_of_isFinite _ acceptable.finite, ih⟩

/-- The file after an append: accepted exactly when every string was written,
every enumeration holds an enumerator, and no identity occurs twice. -/
theorem load_extended {path : String} {data : List UInt8} {result : LoadResult}
    (loaded : load path (some data) = .done result) (ok : result.ok = true)
    {ys : List LedgerEntry} (encodable : ∀ e ∈ ys, Encodable e)
    (small : ∀ e ∈ ys, (entryPayload e).length < 2 ^ 32 - 8) :
    ∃ answer, load path (some (data ++ (entryFrames ys).flatten)) = .done answer ∧
      (answer.ok = true ↔ (∀ e ∈ ys, ShortPairs e.metadata.toList ∧ e.Listed) ∧
        ((result.entries ++ ys).map LedgerEntry.id).Nodup) ∧
      (answer.ok = true → answer.ledgerId = result.ledgerId ∧
        List.Forall₂ (fun loaded original => (loaded == original) = true) answer.entries
          (result.entries ++ ys)) := by
  rcases frames_of_load loaded ok with ⟨⟨frames, rfl, decoded⟩, -⟩
  rcases load_ok_iff_isLedgerFile path
    (fileHeader result.ledgerId ++ frames.flatten ++ (entryFrames ys).flatten) with
    ⟨answer, done, accepts, returns, -⟩
  refine ⟨answer, done, ?_, ?_⟩
  · rw [accepts]
    constructor
    · rintro ⟨otherId, others, file⟩
      exact ((isLedgerFile_extended_iff encodable small decoded otherId others).mp file).2.2
    · intro sound
      exact ⟨_, _, (isLedgerFile_extended_iff encodable small decoded _ _).mpr ⟨rfl, rfl, sound⟩⟩
  · intro accepted
    rcases accepts.mp accepted with ⟨otherId, others, file⟩
    rcases returns otherId others file with ⟨sameId, sameEntries, -⟩
    rcases (isLedgerFile_extended_iff encodable small decoded otherId others).mp file with
      ⟨rfl, rfl, -⟩
    refine ⟨sameId, ?_⟩
    rw [sameEntries]
    refine List.rel_append (forall₂_beq_of_decoded decoded) ?_
    rw [List.forall₂_map_left_iff, List.forall₂_same]
    intro e member
    exact e.normalize_beq (encodable e member).finite

/-- Append extends the file.  For entries that are all encoded, `append_entries`
keeps its promise exactly when no metadata string is skipped and every enumeration
holds an enumerator, or some identity would occur twice. -/
theorem append_extends_iff {fs : FileSystem} (reliable : fs.Reliable) {path : String}
    {data : List UInt8} {result : LoadResult} (loaded : load path (some data) = .done result)
    (ok : result.ok = true) {ys : List LedgerEntry}
    (encoded : ∀ e ∈ ys, ∃ bytes, encodeEntry e = some bytes)
    (small : ∀ e ∈ ys, (entryPayload e).length < 2 ^ 32 - 8) :
    Extends fs path data result ys ↔
      (∀ e ∈ ys, (∀ pair ∈ e.metadata.toList, pair.1.length < 2 ^ 32 ∧ pair.2.length < 2 ^ 32) ∧
        e.Listed) ∨
        ¬ ((result.entries ++ ys).map LedgerEntry.id).Nodup := by
  have encodable : ∀ e ∈ ys, Encodable e := by
    intro e member
    rcases encoded e member with ⟨bytes, written⟩
    exact ((encodeEntry_eq_some_iff e bytes).mp written).1
  have magic : data.take 8 = bytesOfU64 kLedgerMagic := by
    rcases frames_of_load loaded ok with ⟨⟨frames, rfl, -⟩, -⟩
    exact (fileHeader_append _ _).1
  have appended := appendEntries_of_header reliable encodable magic path
  rcases load_extended loaded ok encodable small with ⟨answer, done, accepts, returns⟩
  constructor
  · rintro ⟨⟨later, other, written, read, promised, -⟩, -⟩
    rw [appended] at written
    rw [← Option.some.inj (congrArg Prod.snd written), done] at read
    cases read
    by_cases distinct : ((result.entries ++ ys).map LedgerEntry.id).Nodup
    · exact Or.inl (accepts.mp (promised.mpr distinct)).1
    · exact Or.inr distinct
  · intro condition
    refine ⟨⟨_, answer, appended, done, ?_, returns⟩, appendEntries_none reliable path⟩
    rw [accepts]
    constructor
    · exact And.right
    · intro distinct
      rcases condition with short | clash
      · exact ⟨short, distinct⟩
      · exact (clash distinct).elim

/-- A new ledger file without entries. -/
theorem load_fileHeader (path : String) (ledgerId : LedgerId) :
    load path (some (fileHeader ledgerId)) = .done (.loaded ledgerId 0 []) := by
  have file : IsLedgerFile (fileHeader ledgerId) ledgerId [] :=
    ⟨⟨[], (List.append_nil _).symm, .nil⟩, List.nodup_nil⟩
  exact load_of_isLedgerFile file path

/-- One entry, appended to a new file. -/
theorem append_extends_iff_sample :
    Extends unlimitedDisk "ledger.bin" (fileHeader ⟨0, 1⟩) (.loaded ⟨0, 1⟩ 0 []) [sampleEntry] := by
  have encoded := encodable_sample.encoded
  apply (append_extends_iff unlimitedDisk_reliable (load_fileHeader "ledger.bin" ⟨0, 1⟩) rfl
    (List.forall_mem_singleton.mpr ⟨_, encoded⟩)
    (List.forall_mem_singleton.mpr fitsFrame_sample.payload)).mpr
  exact Or.inl (List.forall_mem_singleton.mpr ⟨fitsFrame_sample.strings, listed_sample⟩)

theorem length_entryPayload_skipped {value : ByteString} (long : 2 ^ 32 ≤ value.length) :
    (entryPayload (entryWith value)).length = 358 := by
  have skipped : ByteWriter.string value = [] := if_pos (by omega)
  rw [← payload_layout, Layout.length_payload]
  change _ + (metadataBytes (entryWith value).metadata.toList).length = _
  rw [toList_entryWith, metadataBytes, List.flatMap_singleton, skipped]
  rfl

/-- A metadata string of four gigabytes makes the file unreadable. -/
theorem skipped_string_breaks_file :
    ¬ ∀ (fs : FileSystem) (path : String) (data : List UInt8) (result : LoadResult)
      (ys : List LedgerEntry), fs.Reliable → load path (some data) = .done result →
      result.ok = true → (∀ e ∈ ys, ∃ bytes, encodeEntry e = some bytes) →
      (∀ e ∈ ys, (entryPayload e).length < 2 ^ 32 - 8) → Extends fs path data result ys := by
  intro always
  have long : 2 ^ 32 ≤ (List.replicate (2 ^ 32) (0 : UInt8)).length :=
    Nat.le_of_eq List.length_replicate.symm
  generalize List.replicate (2 ^ 32) (0 : UInt8) = value at long
  have encodable : ∀ e ∈ [entryWith value], Encodable e :=
    List.forall_mem_singleton.mpr (encodable_entryWith value)
  have small : ∀ e ∈ [entryWith value], (entryPayload e).length < 2 ^ 32 - 8 := by
    rw [List.forall_mem_singleton, length_entryPayload_skipped long]
    decide
  have loaded := load_fileHeader "ledger.bin" ⟨0, 1⟩
  have encoded := (encodable_entryWith value).encoded
  rcases (always unlimitedDisk "ledger.bin" _ _ [entryWith value] unlimitedDisk_reliable loaded rfl
    (List.forall_mem_singleton.mpr ⟨_, encoded⟩) small).extended with
    ⟨later, answer, written, read, promised, -⟩
  rw [appendEntries_of_header unlimitedDisk_reliable encodable rfl] at written
  rcases load_extended loaded rfl encodable small with ⟨other, done, accepts, -⟩
  rw [← Option.some.inj (congrArg Prod.snd written), done] at read
  cases read
  have short := (accepts.mp (promised.mpr (List.nodup_singleton _))).1
  have bound := ((List.forall_mem_singleton.mp short).1 ([107], value) (by simp [toList_entryWith])).2
  exact absurd long (Nat.not_le_of_lt bound)

end InferenceLedger
