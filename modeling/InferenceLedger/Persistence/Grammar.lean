import InferenceLedger.Codec.FrameBounds
import InferenceLedger.Persistence.Store

namespace InferenceLedger

open Foundation

/-!
# The file grammar

`load` walks through the file and compares lengths twice, once itself and once
inside `decode_entry`.  What it accepts is simpler to say: the header, then
complete frames to the very end, with no identity twice.  `IsLedgerFile` is that
grammar, and `load` decides it on every byte string without reading outside.

A wrapped length cannot slip through here: `load` has compared the length in
64 bits first, so the frame is present, and the 32-bit count that
`decode_entry` reports is not the length of the frame.
-/

/-- The 28 bytes in front of the frames. -/
def fileHeader (ledgerId : LedgerId) : List UInt8 :=
  bytesOfU64 kLedgerMagic ++ bytesOfU32 kSchemaVersion ++ ledgerId.toBytes

/-- A complete frame: as long as its length field says, and accepted by
`decode_entry` with nothing left over. -/
structure IsFrame (bytes : List UInt8) (e : LedgerEntry) : Prop where
  complete : bytes.length = 8 + (wordAt bytes 0).toNat
  accepted : decodeEntry bytes = .done (e, bytes.length)

/-- A concatenation of complete frames holding the given entries. -/
def IsFrames (bytes : List UInt8) (entries : List LedgerEntry) : Prop :=
  ∃ frames : List (List UInt8), bytes = frames.flatten ∧ List.Forall₂ IsFrame frames entries

/-- The grammar of ledger files. -/
structure IsLedgerFile (data : List UInt8) (ledgerId : LedgerId) (entries : List LedgerEntry) :
    Prop where
  frames : ∃ rest, data = fileHeader ledgerId ++ rest ∧ IsFrames rest entries
  distinct : (entries.map LedgerEntry.id).Nodup

/-! ## One frame in front of others -/

theorem IsFrames.nil : IsFrames [] [] := ⟨[], rfl, .nil⟩

theorem IsFrames.cons {frame rest : List UInt8} {e : LedgerEntry} {entries : List LedgerEntry}
    (first : IsFrame frame e) (others : IsFrames rest entries) :
    IsFrames (frame ++ rest) (e :: entries) := by
  rcases others with ⟨frames, rfl, decoded⟩
  exact ⟨frame :: frames, rfl, .cons first decoded⟩

theorem wordAt_append_left {front : List UInt8} {offset : Nat} (inside : offset + 4 ≤ front.length)
    (back : List UInt8) : wordAt (front ++ back) offset = wordAt front offset := by
  have same : ∀ index, index < front.length →
      (front ++ back).getD index 0 = front.getD index 0 := by
    intro index below
    rw [List.getD_eq_getElem?_getD, List.getD_eq_getElem?_getD, List.getElem?_append_left below]
  simp only [wordAt]
  rw [same _ (by omega), same _ (by omega), same _ (by omega), same _ (by omega)]

/-- The decoder sees a complete frame and nothing of what follows it. -/
theorem decodeEntry_append {front : List UInt8} (inside : 8 + (wordAt front 0).toNat ≤ front.length)
    (back : List UInt8) : decodeEntry (front ++ back) = decodeEntry front := by
  have len : wordAt (front ++ back) 0 = wordAt front 0 := wordAt_append_left (by omega) back
  have crc : wordAt (front ++ back) 4 = wordAt front 4 := wordAt_append_left (by omega) back
  have payload : ((front ++ back).drop 8).take (wordAt front 0).toNat =
      (front.drop 8).take (wordAt front 0).toNat := by
    rw [List.drop_append_of_le_length (by omega), List.take_append_of_le_length]
    rw [List.length_drop]
    omega
  have insideBoth : 8 + (wordAt (front ++ back) 0).toNat ≤ (front ++ back).length := by
    rw [len, List.length_append]
    omega
  rw [decodeEntry_of_inside insideBoth, decodeEntry_of_inside inside, len, crc]
  simp only [payload]

/-- The tests that `load` makes before it takes a frame off the front. -/
theorem isFrame_take_iff {rest : List UInt8} (inside : 8 + (wordAt rest 0).toNat ≤ rest.length)
    (e : LedgerEntry) :
    IsFrame (rest.take (8 + (wordAt rest 0).toNat)) e ↔
      decodeEntry rest = .done (e, 8 + (wordAt rest 0).toNat) := by
  have length : (rest.take (8 + (wordAt rest 0).toNat)).length = 8 + (wordAt rest 0).toNat := by
    rw [List.length_take]
    omega
  have split : rest.take (8 + (wordAt rest 0).toNat) ++ rest.drop (8 + (wordAt rest 0).toNat) =
      rest := List.take_append_drop _ _
  have len : wordAt (rest.take (8 + (wordAt rest 0).toNat)) 0 = wordAt rest 0 := by
    rw [← wordAt_append_left (by omega) (rest.drop (8 + (wordAt rest 0).toNat)), split]
  have decoded : decodeEntry rest = decodeEntry (rest.take (8 + (wordAt rest 0).toNat)) := by
    have shared : decodeEntry (rest.take (8 + (wordAt rest 0).toNat) ++
        rest.drop (8 + (wordAt rest 0).toNat)) = _ :=
      decodeEntry_append (by rw [len, length]) _
    rwa [split] at shared
  rw [decoded]
  constructor
  · intro frame
    rw [frame.accepted, length]
  · intro accepted
    exact ⟨by rw [length, len], by rw [accepted, length]⟩

/-! ## The loop -/

section Loop

variable (ledgerId : LedgerId) (seen : List LedgerEntry) (count : Nat)

/-- The loop from a state in which the identities are those of the entries. -/
abbrev loadFrom (rest : List UInt8) : Access LoadResult :=
  loadFrames ledgerId rest (seen.map LedgerEntry.id) seen count

theorem loadFrom_nil : loadFrom ledgerId seen count [] = .done (.loaded ledgerId count seen) := by
  unfold loadFrom loadFrames
  rfl

/-- One round over a complete frame. -/
theorem loadFrom_frame {frame : List UInt8} {e : LedgerEntry} (first : IsFrame frame e)
    (rest : List UInt8) :
    loadFrom ledgerId seen count (frame ++ rest) =
      if e.id ∈ seen.map LedgerEntry.id then
        .done (.refused ledgerId count "duplicate entry id")
      else loadFrom ledgerId (seen ++ [e]) (count + 1) rest := by
  have length := first.complete
  have len : wordAt (frame ++ rest) 0 = wordAt frame 0 := wordAt_append_left (by omega) rest
  have decoded : decodeEntry (frame ++ rest) = .done (e, frame.length) := by
    rw [decodeEntry_append (by omega), first.accepted]
  unfold loadFrom
  rw [loadFrames.eq_def]
  have total : (frame ++ rest).length = frame.length + rest.length := List.length_append
  rw [if_neg (by omega), dif_neg (by omega)]
  simp only [len, decoded]
  rw [if_neg (by omega), dif_neg (by omega), List.drop_left]
  simp only [List.contains_iff_mem, List.map_append, List.map_cons, List.map_nil]

/-- Without a complete frame in front, the loop refuses the file. -/
theorem loadFrom_no_frame {rest : List UInt8} (nonempty : rest ≠ [])
    (absent : ¬ ∃ frame more e, rest = frame ++ more ∧ IsFrame frame e) :
    ∃ reason, loadFrom ledgerId seen count rest = .done (.refused ledgerId count reason) := by
  unfold loadFrom
  rw [loadFrames.eq_def, if_neg (mt List.length_eq_zero_iff.mp nonempty)]
  by_cases header : rest.length < 8
  · exact ⟨_, dif_pos header⟩
  rw [dif_neg header]
  by_cases payload : (wordAt rest 0).toNat + 8 > rest.length
  · exact ⟨_, if_pos payload⟩
  simp only [if_neg payload]
  have inside : 8 + (wordAt rest 0).toNat ≤ rest.length := by omega
  cases decoded : decodeEntry rest with
  | outOfBounds =>
      have outside := ((decodeEntry_eq_outOfBounds_iff rest).mp decoded).2
      omega
  | rejected => exact ⟨_, rfl⟩
  | done result =>
      rcases result with ⟨e, consumed⟩
      by_cases mismatch : consumed = (wordAt rest 0).toNat + 8
      · -- A matching count makes the front of the file a complete frame.
        have frame : IsFrame (rest.take (8 + (wordAt rest 0).toNat)) e := by
          rw [isFrame_take_iff inside, decoded, mismatch, Nat.add_comm]
        exact (absent ⟨_, _, e, (List.take_append_drop _ rest).symm, frame⟩).elim
      · exact ⟨_, dif_pos mismatch⟩

variable {seen}

/-- A concatenation of complete frames with fresh identities is loaded. -/
theorem loadFrom_frames {rest : List UInt8} {entries : List LedgerEntry}
    (frames : IsFrames rest entries) (distinct : ((seen ++ entries).map LedgerEntry.id).Nodup) :
    loadFrom ledgerId seen count rest =
      .done (.loaded ledgerId (count + entries.length) (seen ++ entries)) := by
  rcases frames with ⟨frames, rfl, decoded⟩
  induction decoded generalizing seen count with
  | nil =>
      rw [List.flatten_nil, loadFrom_nil, List.append_nil, List.length_nil, Nat.add_zero]
  | @cons frame e frames entries first others ih =>
      have fresh : e.id ∉ seen.map LedgerEntry.id := by
        intro known
        rw [List.map_append, List.map_cons] at distinct
        exact (List.nodup_append.mp distinct).2.2 _ known _ List.mem_cons_self rfl
      rw [List.flatten_cons, loadFrom_frame ledgerId seen count first, if_neg fresh,
        ih (count + 1) (by rwa [List.append_assoc]), List.append_assoc, List.length_cons]
      simp only [List.singleton_append, Nat.add_assoc, Nat.add_comm 1]

/-- Everything else is refused.  The induction is on the length of what is
left of the file. -/
theorem loadFrom_refuses {rest : List UInt8} (known : (seen.map LedgerEntry.id).Nodup)
    (malformed : ¬ ∃ entries, IsFrames rest entries ∧
      ((seen ++ entries).map LedgerEntry.id).Nodup) :
    ∃ frameCount reason,
      loadFrom ledgerId seen count rest = .done (.refused ledgerId frameCount reason) := by
  induction length : rest.length using Nat.strongRecOn generalizing rest seen count with
  | _ size ih =>
      by_cases empty : rest = []
      · subst empty
        exact (malformed ⟨[], .nil, by rwa [List.append_nil]⟩).elim
      by_cases present : ∃ frame more e, rest = frame ++ more ∧ IsFrame frame e
      · rcases present with ⟨frame, more, e, rfl, first⟩
        rw [loadFrom_frame ledgerId seen count first]
        by_cases duplicate : e.id ∈ seen.map LedgerEntry.id
        · exact ⟨count, _, if_pos duplicate⟩
        · rw [if_neg duplicate]
          have shorter : more.length < size := by
            have complete := first.complete
            rw [← length, List.length_append]
            omega
          refine ih _ shorter (count + 1) ?_ ?_ rfl
          · rw [List.map_append, List.map_singleton]
            refine List.nodup_append.mpr ⟨known, List.nodup_singleton _, ?_⟩
            intro old member new single same
            rw [List.mem_singleton] at single
            exact duplicate (single ▸ same ▸ member)
          · rintro ⟨entries, frames, distinct⟩
            rw [List.append_assoc] at distinct
            exact malformed ⟨e :: entries, .cons first frames, distinct⟩
      · rcases loadFrom_no_frame ledgerId seen count empty present with ⟨reason, refused⟩
        exact ⟨count, reason, refused⟩

end Loop

/-! ## The whole file -/

theorem fileHeader_append (ledgerId : LedgerId) (rest : List UInt8) :
    (fileHeader ledgerId ++ rest).take 8 = bytesOfU64 kLedgerMagic ∧
      wordAt (fileHeader ledgerId ++ rest) 8 = kSchemaVersion ∧
      Id128.fromBytes ((fileHeader ledgerId ++ rest).drop 12) = ledgerId ∧
      (fileHeader ledgerId ++ rest).drop 28 = rest := by
  refine ⟨rfl, ?_, Id128.fromBytes_toBytes ledgerId, rfl⟩
  rw [fileHeader, List.append_assoc, List.append_assoc]
  exact wordAt_u32 (bytesOfU64 kLedgerMagic) (ledgerId.toBytes ++ rest) kSchemaVersion

/-- Past its header, a file is what the loop makes of it. -/
theorem load_header (path : String) (ledgerId : LedgerId) (rest : List UInt8) :
    load path (some (fileHeader ledgerId ++ rest)) = loadFrom ledgerId [] 0 rest := by
  rcases fileHeader_append ledgerId rest with ⟨magic, version, identity, frames⟩
  have long : ¬ (fileHeader ledgerId ++ rest).length < 8 + 4 + 16 := by
    rw [List.length_append]
    exact Nat.not_lt_of_le (Nat.le_add_right 28 _)
  unfold load
  simp only [if_neg long, magic, version, identity, frames, u64OfBytes_bytesOfU64, ne_eq,
    not_true_eq_false, if_false, loadFrom, List.map_nil]

/-- A file that passes the three header checks starts with a header. -/
theorem eq_fileHeader_append {data : List UInt8} (long : 28 ≤ data.length)
    (magic : u64OfBytes (data.take 8) = kLedgerMagic) (version : wordAt data 8 = kSchemaVersion) :
    data = fileHeader (.fromBytes (data.drop 12)) ++ data.drop 28 := by
  have first : bytesOfU64 kLedgerMagic = data.take 8 := by
    rw [← magic, bytesOfU64_u64OfBytes]
    rw [List.length_take]
    omega
  have second : bytesOfU32 kSchemaVersion = (data.drop 8).take 4 := by
    rw [← version, bytesOfU32_wordAt (by omega)]
  have third : (Id128.fromBytes (data.drop 12) : LedgerId).toBytes = (data.drop 12).take 16 := by
    apply Id128.toBytes_fromBytes
    rw [List.length_drop]
    omega
  calc
    data = data.take 8 ++ ((data.drop 8).take 4 ++ ((data.drop 12).take 16 ++ data.drop 28)) := by
      have twelve : (data.drop 8).drop 4 = data.drop 12 := List.drop_drop
      have twentyEight : (data.drop 12).drop 16 = data.drop 28 := List.drop_drop
      rw [← twentyEight, List.take_append_drop, ← twelve, List.take_append_drop,
        List.take_append_drop]
    _ = fileHeader (.fromBytes (data.drop 12)) ++ data.drop 28 := by
      rw [fileHeader, first, second, third, List.append_assoc, List.append_assoc]

theorem load_no_header {data : List UInt8}
    (absent : ¬ ∃ ledgerId rest, data = fileHeader ledgerId ++ rest) (path : String) :
    ∃ reason, load path (some data) = .done { reason } := by
  rw [load]
  by_cases long : data.length < 8 + 4 + 16
  · refine ⟨"file too small for header", ?_⟩
    rw [if_pos long]
  by_cases magic : u64OfBytes (data.take 8) = kLedgerMagic
  · by_cases version : wordAt data 8 = kSchemaVersion
    · exact (absent ⟨_, _, eq_fileHeader_append (by omega) magic version⟩).elim
    · refine ⟨"unsupported version", ?_⟩
      rw [if_neg long, if_neg (not_not.mpr magic), if_pos version]
  · refine ⟨"bad magic", ?_⟩
    rw [if_neg long, if_pos magic]

theorem load_of_isLedgerFile {data : List UInt8} {ledgerId : LedgerId} {entries : List LedgerEntry}
    (file : IsLedgerFile data ledgerId entries) (path : String) :
    load path (some data) = .done (.loaded ledgerId entries.length entries) := by
  rcases file.frames with ⟨rest, rfl, frames⟩
  have distinct : (([] ++ entries).map LedgerEntry.id).Nodup := file.distinct
  rw [load_header, loadFrom_frames ledgerId 0 frames distinct, Nat.zero_add, List.nil_append]

theorem load_of_not_isLedgerFile {data : List UInt8}
    (malformed : ¬ ∃ ledgerId entries, IsLedgerFile data ledgerId entries) (path : String) :
    ∃ result, load path (some data) = .done result ∧ result.ok = false ∧ result.entries = [] := by
  by_cases header : ∃ ledgerId rest, data = fileHeader ledgerId ++ rest
  · rcases header with ⟨ledgerId, rest, rfl⟩
    have noFrames : ¬ ∃ entries, IsFrames rest entries ∧
        (([] ++ entries).map LedgerEntry.id).Nodup := by
      rintro ⟨entries, frames, distinct⟩
      exact malformed ⟨ledgerId, entries, ⟨⟨rest, rfl, frames⟩, distinct⟩⟩
    have known : (([] : List LedgerEntry).map LedgerEntry.id).Nodup := List.nodup_nil
    rcases loadFrom_refuses ledgerId 0 known noFrames with ⟨count, reason, refused⟩
    exact ⟨_, by rw [load_header, refused], rfl, rfl⟩
  · rcases load_no_header header path with ⟨reason, refused⟩
    exact ⟨_, refused, rfl, rfl⟩

/-- `load` decides the file grammar.  On every byte string it answers without
reading outside the data; it succeeds exactly on ledger files, and then
returns their identity and entries; otherwise it returns no entries. -/
theorem load_ok_iff_isLedgerFile (path : String) (data : List UInt8) :
    ∃ result, load path (some data) = .done result ∧
      (result.ok = true ↔ ∃ ledgerId entries, IsLedgerFile data ledgerId entries) ∧
      (∀ ledgerId entries, IsLedgerFile data ledgerId entries →
        result.ledgerId = ledgerId ∧ result.entries = entries ∧
          result.frameCount = entries.length) ∧
      (result.ok = false → result.entries = []) := by
  by_cases wellFormed : ∃ ledgerId entries, IsLedgerFile data ledgerId entries
  · rcases wellFormed with ⟨ledgerId, entries, file⟩
    have loaded := load_of_isLedgerFile file path
    refine ⟨_, loaded, ⟨fun _ => ⟨ledgerId, entries, file⟩, fun _ => rfl⟩, ?_, ?_⟩
    · intro otherId others otherFile
      rw [load_of_isLedgerFile otherFile path] at loaded
      have same := Access.done.inj loaded
      exact ⟨congrArg LoadResult.ledgerId same.symm, congrArg LoadResult.entries same.symm,
        congrArg LoadResult.frameCount same.symm⟩
    · intro failed
      cases failed
  · rcases load_of_not_isLedgerFile wellFormed path with ⟨result, loaded, failed, empty⟩
    refine ⟨result, loaded, ?_, ?_, fun _ => empty⟩
    · rw [failed]
      constructor
      · intro impossible
        cases impossible
      · intro file
        exact (wellFormed file).elim
    · intro ledgerId entries file
      exact (wellFormed ⟨ledgerId, entries, file⟩).elim

end InferenceLedger
