import InferenceLedger.Persistence.Recovery

namespace InferenceLedger

open Foundation

/-!
# Cutting a file short

A beginning of a concatenation of complete frames is again such a concatenation
exactly when the cut lies between two frames.

A file that was cut is still accepted when the cut lies between two frames.
Everywhere else it is refused, in the header or at the frame that was cut.
-/

/-! ## Cutting frames -/

/-- A beginning that consists of complete frames ends between two frames. -/
theorem complete_cut {cut frames : List (List UInt8)} (cutComplete : ∀ bytes ∈ cut, Complete bytes)
    (complete : ∀ bytes ∈ frames, Complete bytes) (begins : cut.flatten <+: frames.flatten) :
    cut <+: frames := by
  induction cut generalizing frames with
  | nil => exact List.nil_prefix
  | cons first cut ih =>
      rw [List.forall_mem_cons] at cutComplete
      rcases begins with ⟨tail, whole⟩
      rw [List.flatten_cons, List.append_assoc] at whole
      cases frames with
      | nil =>
          rw [List.flatten_nil, List.append_eq_nil_iff] at whole
          exact (cutComplete.1.ne_nil whole.1).elim
      | cons second frames =>
          rw [List.forall_mem_cons] at complete
          rw [List.flatten_cons] at whole
          rcases cutComplete.1.unique complete.1 whole with ⟨rfl, rest⟩
          exact (List.prefix_cons_inj first).mpr (ih cutComplete.2 complete.2 ⟨tail, rest⟩)

/-- Complete frames are determined by their concatenation. -/
theorem flatten_inj_of_complete {first second : List (List UInt8)}
    (firstComplete : ∀ bytes ∈ first, Complete bytes)
    (secondComplete : ∀ bytes ∈ second, Complete bytes) (same : first.flatten = second.flatten) :
    first = second := by
  have front := complete_cut firstComplete secondComplete (same ▸ List.prefix_refl _)
  have back := complete_cut secondComplete firstComplete (same ▸ List.prefix_refl _)
  exact front.eq_of_length (Nat.le_antisymm front.length_le back.length_le)

/-! ## Accepted files -/

/-- Between two frames a cut leaves a ledger file with the entries before it. -/
theorem isLedgerFile_take {ledgerId : LedgerId} {frames : List (List UInt8)}
    {entries : List LedgerEntry} (decoded : List.Forall₂ IsFrame frames entries)
    (distinct : (entries.map LedgerEntry.id).Nodup) (count : Nat) :
    IsLedgerFile (fileHeader ledgerId ++ (frames.take count).flatten) ledgerId
      (entries.take count) where
  frames := ⟨_, rfl, _, rfl, List.forall₂_take count decoded⟩
  distinct := by
    rw [List.map_take]
    exact distinct.sublist (List.take_sublist _ _)

/-- Every beginning of a ledger file that is itself a ledger file ends between
two frames. -/
theorem cut_of_isLedgerFile {ledgerId cutId : LedgerId} {frames : List (List UInt8)}
    {entries cutEntries : List LedgerEntry} {cut : List UInt8}
    (decoded : List.Forall₂ IsFrame frames entries)
    (begins : cut <+: fileHeader ledgerId ++ frames.flatten)
    (file : IsLedgerFile cut cutId cutEntries) :
    ∃ count ≤ frames.length, cut = fileHeader ledgerId ++ (frames.take count).flatten := by
  rcases file.frames with ⟨rest, rfl, cutFrames, rfl, cutDecoded⟩
  rcases begins with ⟨tail, whole⟩
  rw [List.append_assoc] at whole
  rcases fileHeader_unique whole with ⟨rfl, bodies⟩
  have inside := complete_cut (complete_of_decoded cutDecoded) (complete_of_decoded decoded)
    ⟨tail, bodies⟩
  refine ⟨cutFrames.length, inside.length_le, ?_⟩
  rw [← List.prefix_iff_eq_take.mp inside]

/-- Truncation.  An accepted file is its header and its frames.  Of its proper
beginnings, exactly those that end between two frames are accepted, with the
entries up to there; all others are refused without entries. -/
theorem load_cut {path : String} {data : List UInt8} {result : LoadResult}
    (loaded : load path (some data) = .done result) (ok : result.ok = true) :
    ∃ frames : List (List UInt8), data = fileHeader result.ledgerId ++ frames.flatten ∧
      List.Forall₂ IsFrame frames result.entries ∧
      ∀ cut, cut <+: data → cut ≠ data →
        ∃ answer, load path (some cut) = .done answer ∧
          (answer.ok = true ↔ ∃ count < frames.length,
            cut = fileHeader result.ledgerId ++ (frames.take count).flatten) ∧
          (∀ count < frames.length,
            cut = fileHeader result.ledgerId ++ (frames.take count).flatten →
            answer.ledgerId = result.ledgerId ∧ answer.entries = result.entries.take count) ∧
          (answer.ok = false → answer.entries = []) := by
  rcases frames_of_load loaded ok with ⟨⟨frames, rfl, decoded⟩, distinct⟩
  refine ⟨frames, rfl, decoded, ?_⟩
  intro cut begins proper
  rcases load_ok_iff_isLedgerFile path cut with ⟨answer, done, accepts, returns, refused⟩
  refine ⟨answer, done, ?_, ?_, refused⟩
  · rw [accepts]
    constructor
    · rintro ⟨cutId, cutEntries, file⟩
      rcases cut_of_isLedgerFile decoded begins file with ⟨count, bound, rfl⟩
      refine ⟨count, Nat.lt_of_le_of_ne bound ?_, rfl⟩
      rintro rfl
      exact proper (by rw [List.take_length])
    · rintro ⟨count, -, rfl⟩
      exact ⟨_, _, isLedgerFile_take decoded distinct count⟩
  · rintro count - rfl
    rcases returns _ _ (isLedgerFile_take decoded distinct count) with ⟨sameId, sameEntries, -⟩
    exact ⟨sameId, sameEntries⟩

/-- A second entry, without metadata. -/
def laterEntry : LedgerEntry := { id := ⟨0, 3⟩ }

/-- A file with two entries: the header and the first frame, and the second
frame. -/
def twoEntryFile : List UInt8 :=
  (fileHeader ⟨0, 1⟩ ++ frame (entryPayload sampleEntry)) ++ frame (entryPayload laterEntry)

theorem flatten_twoEntryFrames :
    fileHeader ⟨0, 1⟩ ++ (entryFrames [sampleEntry, laterEntry]).flatten = twoEntryFile := by
  simp [entryFrames, twoEntryFile]

theorem fitsFrame_twoEntries : ∀ e ∈ [sampleEntry, laterEntry], FitsFrame e :=
  List.forall_mem_cons.mpr ⟨fitsFrame_sample, List.forall_mem_singleton.mpr
    ⟨by decide +kernel, by decide +kernel⟩⟩

theorem isLedgerFile_twoEntryFile :
    IsLedgerFile twoEntryFile ⟨0, 1⟩ ([sampleEntry, laterEntry].map LedgerEntry.normalize) := by
  have encodable : ∀ e ∈ [sampleEntry, laterEntry], Encodable e :=
    List.forall_mem_cons.mpr ⟨encodable_sample, List.forall_mem_singleton.mpr
      ⟨encodable_default.finite, encodable_default.nonNegative, encodable_default.integral,
        encodable_default.metadataSize⟩⟩
  have listed : ∀ e ∈ [sampleEntry, laterEntry], e.Listed :=
    List.forall_mem_cons.mpr ⟨listed_sample, List.forall_mem_singleton.mpr ⟨rfl, rfl, rfl, rfl⟩⟩
  exact flatten_twoEntryFrames ▸
    isLedgerFile_of_encodable encodable listed fitsFrame_twoEntries (by decide +kernel) ⟨0, 1⟩

/-- The file consists of the frames of its two entries in one way only. -/
theorem frames_eq_of_twoEntryFile {frames : List (List UInt8)} {entries : List LedgerEntry}
    (whole : twoEntryFile = fileHeader ⟨0, 1⟩ ++ frames.flatten)
    (decoded : List.Forall₂ IsFrame frames entries) :
    entryFrames [sampleEntry, laterEntry] = frames := by
  have small : ∀ e ∈ [sampleEntry, laterEntry], (entryPayload e).length < 2 ^ 32 :=
    fun e member => Nat.lt_of_lt_of_le (fitsFrame_twoEntries e member).payload (by decide)
  exact flatten_inj_of_complete (complete_entryFrames small) (complete_of_decoded decoded)
    (List.append_cancel_left (flatten_twoEntryFrames.trans whole))

/-- Cut between its frames, the file is a ledger with the first entry; without
its last byte, it is refused. -/
theorem load_cut_sample :
    (∃ answer, load "ledger.bin" (some (fileHeader ⟨0, 1⟩ ++ frame (entryPayload sampleEntry))) =
        .done answer ∧ answer.ok = true ∧ answer.entries = [sampleEntry.normalize]) ∧
      ∃ answer, load "ledger.bin" (some twoEntryFile.dropLast) = .done answer ∧
        answer.ok = false ∧ answer.entries = [] := by
  rcases load_cut (load_of_isLedgerFile isLedgerFile_twoEntryFile "ledger.bin") rfl with
    ⟨frames, whole, decoded, cuts⟩
  cases frames_eq_of_twoEntryFile whole decoded
  have between : fileHeader ⟨0, 1⟩ ++ frame (entryPayload sampleEntry) = fileHeader ⟨0, 1⟩ ++
      ((entryFrames [sampleEntry, laterEntry]).take 1).flatten := by simp [entryFrames]
  have first := length_frame (entryPayload sampleEntry)
  have second := length_frame (entryPayload laterEntry)
  have length : twoEntryFile.length = (fileHeader ⟨0, 1⟩).length +
      (frame (entryPayload sampleEntry)).length + (frame (entryPayload laterEntry)).length := by
    rw [twoEntryFile, List.length_append, List.length_append]
  have dropped : twoEntryFile.dropLast.length = twoEntryFile.length - 1 := List.length_dropLast
  constructor
  · have proper : fileHeader ⟨0, 1⟩ ++ frame (entryPayload sampleEntry) ≠ twoEntryFile := by
      intro same
      rw [← same, List.length_append] at length
      omega
    rcases cuts _ (List.prefix_append _ _) proper with ⟨answer, done, accepts, returns, -⟩
    exact ⟨answer, done, accepts.mpr ⟨1, by decide, between⟩, (returns 1 (by decide) between).2⟩
  · have proper : twoEntryFile.dropLast ≠ twoEntryFile := by
      intro same
      rw [same] at dropped
      omega
    rcases cuts _ (List.dropLast_prefix twoEntryFile) proper with
      ⟨answer, done, accepts, -, refused⟩
    have failed : answer.ok = false := by
      rw [← Bool.not_eq_true, accepts]
      rintro ⟨count, below, same⟩
      have ends : twoEntryFile.dropLast = fileHeader ⟨0, 1⟩ ++
          ((entryFrames [sampleEntry, laterEntry]).take count).flatten := same
      rw [ends] at dropped
      match count, below with
      | 0, _ =>
          rw [List.take_zero, List.flatten_nil, List.append_nil] at dropped
          omega
      | 1, _ =>
          rw [← between, List.length_append] at dropped
          omega
      | count + 2, below => exact absurd below (by simp)
    exact ⟨answer, done, failed, refused failed⟩

end InferenceLedger
