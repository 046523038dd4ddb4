import InferenceLedger.Distributed.Protocol
import InferenceLedger.Foundation.Crc
import InferenceLedger.Persistence.Writing

namespace InferenceLedger

open Foundation Std

/-!
# Changed bytes

Ledger files and messages carry the same frames, and both readers compare the
checksum in the header with the checksum of what follows.  The checksum is a
reflected check over a 32-bit register, so it separates any two payloads that
differ inside four consecutive bytes.  A change inside the checksum field
leaves the payload alone and is seen directly.

Nothing here depends on what the payload means: the comparison comes before
the decoder looks at a single field.
-/

/-! ## The checksum -/

/-- The polynomial of CRC-32, lowest power in the highest bit. -/
def crcPolynomial : BitVec 32 := 0xEDB88320#32

theorem crcBit_eq (crc : UInt32) : (crcBit crc).toBitVec = Crc.step crcPolynomial crc.toBitVec := by
  have low : (crc &&& 1).toBitVec = (BitVec.ofBool (crc.toBitVec.getLsbD 0)).setWidth 32 :=
    (UInt32.toBitVec_and crc 1).trans BitVec.and_one_eq_setWidth_ofBool_getLsbD
  have mask : ((0xEDB88320 : UInt32) &&& (0 - (crc &&& 1))).toBitVec =
      if crc.toBitVec.getLsbD 0 then crcPolynomial else 0 := by
    rw [UInt32.toBitVec_and, UInt32.toBitVec_sub, low]
    cases crc.toBitVec.getLsbD 0 <;> rfl
  rw [crcBit, UInt32.toBitVec_xor, mask, Crc.step]
  rfl

theorem crcByte_eq (crc : UInt32) (byte : UInt8) :
    (crcByte crc byte).toBitVec = Crc.absorb crcPolynomial crc.toBitVec byte.toBitVec := by
  have start : (crc ^^^ byte.toUInt32).toBitVec = crc.toBitVec ^^^ byte.toBitVec.setWidth 32 := rfl
  rw [crcByte, Crc.absorb, ← start]
  simp only [Crc.steps, crcBit_eq]

theorem foldl_crcByte_eq (data : List UInt8) (crc : UInt32) :
    (data.foldl crcByte crc).toBitVec =
      (data.map UInt8.toBitVec).foldl (Crc.absorb crcPolynomial) crc.toBitVec := by
  induction data generalizing crc with
  | nil => rfl
  | cons byte data ih => rw [List.foldl_cons, List.map_cons, List.foldl_cons, ih, crcByte_eq]

/-- At least one byte was changed, and all changes lie inside one window of at
most four consecutive bytes. -/
def AlteredInWindow (original altered : List UInt8) : Prop :=
  ∃ front window changed back, original = front ++ window ++ back ∧
    altered = front ++ changed ++ back ∧ window.length ≤ 4 ∧ changed.length = window.length ∧
    changed ≠ window

theorem AlteredInWindow.length {original altered : List UInt8}
    (window : AlteredInWindow original altered) : altered.length = original.length := by
  rcases window with ⟨front, window, changed, back, rfl, rfl, -, same, -⟩
  simp only [List.length_append, same]

theorem AlteredInWindow.ne {original altered : List UInt8}
    (window : AlteredInWindow original altered) : altered ≠ original := by
  rcases window with ⟨front, window, changed, back, rfl, rfl, -, same, different⟩
  intro equal
  rw [List.append_left_inj, List.append_right_inj] at equal
  exact different equal

/-- The checksum sees every change inside a window of four bytes. -/
theorem AlteredInWindow.crc32_ne {original altered : List UInt8}
    (window : AlteredInWindow original altered) : crc32 altered ≠ crc32 original := by
  rcases window with ⟨front, window, changed, back, rfl, rfl, short, same, different⟩
  intro equal
  have registers := congrArg UInt32.toBitVec (UInt32.not_inj.mp equal)
  rw [foldl_crcByte_eq, foldl_crcByte_eq] at registers
  simp only [List.map_append] at registers
  refine Crc.foldl_absorb_ne_of_window (by decide) _ _ _ ?_ ?_ ?_ registers
  · rw [List.length_map, List.length_map, same]
  · rw [List.length_map]
    omega
  · intro equalWords
    exact different (List.map_injective_iff.mpr (fun _ _ => UInt8.toBitVec_inj.mp) equalWords)

/-! ## Frames -/

/-- A frame whose checksum field need not be right. -/
def frameWith (checksum : UInt32) (content : List UInt8) : List UInt8 :=
  ByteWriter.u32 (UInt32.ofNat content.length) ++ ByteWriter.u32 checksum ++ content

/-- A frame that was changed inside its content or inside its checksum field. -/
inductive AlteredFrame (content : List UInt8) : List UInt8 → Prop where
  | inContent {altered : List UInt8} (window : AlteredInWindow content altered) :
      AlteredFrame content
        (ByteWriter.u32 (UInt32.ofNat content.length) ++ ByteWriter.u32 (crc32 content) ++ altered)
  | inChecksum {altered : List UInt8}
      (window : AlteredInWindow (ByteWriter.u32 (crc32 content)) altered) :
      AlteredFrame content (ByteWriter.u32 (UInt32.ofNat content.length) ++ altered ++ content)

theorem exists_u32_of_length {bytes : List UInt8} (four : bytes.length = 4) :
    ∃ word, bytes = ByteWriter.u32 word := by
  match bytes, four with
  | [a, b, c, d], _ => exact ⟨u32OfBytes a b c d, (bytesOfU32_u32OfBytes a b c d).symm⟩

/-- However it was changed, the frame has a wrong checksum. -/
theorem AlteredFrame.mismatch {content altered : List UInt8} (frame : AlteredFrame content altered) :
    ∃ checksum found, altered = frameWith checksum found ∧ found.length = content.length ∧
      crc32 found ≠ checksum := by
  cases frame with
  | @inContent found window =>
      exact ⟨crc32 content, found, by rw [frameWith, window.length], window.length, window.crc32_ne⟩
  | @inChecksum field window =>
      rcases exists_u32_of_length window.length with ⟨checksum, rfl⟩
      refine ⟨checksum, content, rfl, rfl, ?_⟩
      rintro rfl
      exact window.ne rfl

section Header

variable (checksum : UInt32) (content rest : List UInt8)

theorem frameWith_header :
    wordAt (frameWith checksum content ++ rest) 0 = UInt32.ofNat content.length ∧
    wordAt (frameWith checksum content ++ rest) 4 = checksum ∧
    (frameWith checksum content ++ rest).drop 8 = content ++ rest := by
  have first := wordAt_u32 [] (ByteWriter.u32 checksum ++ (content ++ rest))
    (UInt32.ofNat content.length)
  have second := wordAt_u32 (ByteWriter.u32 (UInt32.ofNat content.length)) (content ++ rest) checksum
  have whole : frameWith checksum content ++ rest =
      ByteWriter.u32 (UInt32.ofNat content.length) ++
        (ByteWriter.u32 checksum ++ (content ++ rest)) := by
    simp only [frameWith, List.append_assoc]
  rw [whole]
  exact ⟨first, second, rfl⟩

theorem length_frameWith : (frameWith checksum content).length = 8 + content.length := by
  simp only [frameWith, List.length_append, ByteWriter.length_u32]

variable {checksum content} (small : content.length < 2 ^ 32)

include small

theorem complete_frameWith : Complete (frameWith checksum content) := by
  have len := (frameWith_header checksum content []).1
  rw [List.append_nil] at len
  rw [Complete, length_frameWith, len, UInt32.toNat_ofNat', Nat.mod_eq_of_lt small]

variable (mismatch : crc32 content ≠ checksum)

include mismatch

/-- The decoder of entries refuses a frame with a wrong checksum. -/
theorem decodeEntry_frameWith :
    decodeEntry (frameWith checksum content) = .rejected := by
  rcases frameWith_header checksum content [] with ⟨len, crc, behind⟩
  rw [List.append_nil] at len crc behind
  have lenNat : (UInt32.ofNat content.length).toNat = content.length := by
    rw [UInt32.toNat_ofNat', Nat.mod_eq_of_lt small]
  have inside : 8 + (wordAt (frameWith checksum content) 0).toNat ≤
      (frameWith checksum content).length := Nat.le_of_eq (complete_frameWith small).symm
  rw [decodeEntry_of_inside inside, behind, len, crc, lenNat, List.append_nil, List.take_length,
    if_pos mismatch]

theorem not_isFrame_frameWith (e : LedgerEntry) : ¬ IsFrame (frameWith checksum content) e := by
  intro frame
  have accepted := frame.accepted
  rw [decodeEntry_frameWith small mismatch] at accepted
  cases accepted

/-- `recv_message` refuses it as well. -/
theorem recvMessage_frameWith :
    ∃ reason, recvMessage (frameWith checksum content ++ rest) = .error reason := by
  rcases frameWith_header checksum content rest with ⟨len, crc, behind⟩
  have lenNat : (UInt32.ofNat content.length).toNat = content.length := by
    rw [UInt32.toNat_ofNat', Nat.mod_eq_of_lt small]
  have long : ¬ (frameWith checksum content ++ rest).length < 8 := by
    rw [List.length_append, length_frameWith]
    omega
  have present : ¬ (content ++ rest).length < content.length := by
    rw [List.length_append]
    omega
  rw [recvMessage, recvFrame, if_neg long]
  simp only [len, crc, behind, lenNat, if_neg present, List.take_left]
  by_cases zero : UInt32.ofNat content.length = 0
  · exact ⟨_, by rw [if_pos zero]; rfl⟩
  by_cases large : UInt32.ofNat content.length > (16 : UInt32) <<< 20
  · exact ⟨_, by rw [if_neg zero, if_pos large]; rfl⟩
  exact ⟨_, by rw [if_neg zero, if_neg large, if_pos mismatch]; rfl⟩

end Header

/-! ## Files and messages -/

/-- A file with an altered frame somewhere among its frames is no ledger file. -/
theorem not_isLedgerFile_altered {ledgerId otherId : LedgerId} {front : List LedgerEntry}
    {content altered rest : List UInt8} {entries : List LedgerEntry}
    (small : ∀ e ∈ front, (entryPayload e).length < 2 ^ 32) (contentSmall : content.length < 2 ^ 32)
    (frame : AlteredFrame content altered) :
    ¬ IsLedgerFile (fileHeader ledgerId ++ ((entryFrames front).flatten ++ (altered ++ rest))) otherId
      entries := by
  intro file
  rcases file.frames with ⟨body, split, frames⟩
  rcases fileHeader_unique split with ⟨rfl, rfl⟩
  rcases frames.splits (complete_entryFrames small) with ⟨first, others, -, -, behind⟩
  rcases frame.mismatch with ⟨checksum, found, rfl, length, mismatch⟩
  have foundSmall : found.length < 2 ^ 32 := length ▸ contentSmall
  rcases behind.split (complete_frameWith foundSmall) with ⟨e, last, -, accepted, -⟩
  exact not_isFrame_frameWith foundSmall mismatch e accepted

/-- A saved file, split at one of its entries. -/
theorem saved_split {fs : FileSystem} (reliable : fs.Reliable) {front back : List LedgerEntry}
    {e : LedgerEntry} {ledgerId : LedgerId} {path : String} {before : Option (List UInt8)}
    {file : List UInt8}
    (saved : saveSnapshot fs (front ++ e :: back) ledgerId path before = (.ok (), some file)) :
    file = fileHeader ledgerId ++ ((entryFrames front).flatten ++
      (frame (entryPayload e) ++ (entryFrames back).flatten)) := by
  rw [(encodable_of_saved reliable _ saved).2, entryFrames, List.map_append, List.map_cons,
    List.flatten_append, List.flatten_cons]

/-- Corruption detection.  A change inside four consecutive bytes of the payload
or of the checksum field of a frame makes `load` refuse a saved file, and the
same change of a message makes `recv_message` refuse the message. -/
theorem corruption_detected :
    (∀ (fs : FileSystem) (entries : List LedgerEntry) (ledgerId : LedgerId) (path : String)
        (before : Option (List UInt8)) (file : List UInt8), fs.Reliable →
      saveSnapshot fs entries ledgerId path before = (.ok (), some file) →
      (∀ e ∈ entries, (entryPayload e).length < 2 ^ 32 - 8) →
      ∀ front e back, entries = front ++ e :: back →
        file = fileHeader ledgerId ++ ((entryFrames front).flatten ++
          (frame (entryPayload e) ++ (entryFrames back).flatten)) ∧
        ∀ altered, AlteredFrame (entryPayload e) altered →
          ∃ result, load path (some (fileHeader ledgerId ++ ((entryFrames front).flatten ++
            (altered ++ (entryFrames back).flatten)))) = .done result ∧ result.ok = false) ∧
    (∀ (message : Message) (payload : List UInt8), messagePayload message = some payload →
      (msgTypeVal message.type :: payload).length < 2 ^ 32 →
      ∀ altered rest, AlteredFrame (msgTypeVal message.type :: payload) altered →
        ∃ reason, recvMessage (altered ++ rest) = .error reason) := by
  constructor
  · rintro fs entries ledgerId path before file reliable saved small front e back rfl
    refine ⟨saved_split reliable saved, ?_⟩
    intro altered frame
    have bound : ∀ entry ∈ front ++ e :: back, (entryPayload entry).length < 2 ^ 32 :=
      fun entry member => Nat.lt_of_lt_of_le (small entry member) (by decide)
    have malformed : ¬ ∃ otherId entries, IsLedgerFile (fileHeader ledgerId ++
        ((entryFrames front).flatten ++ (altered ++ (entryFrames back).flatten))) otherId entries := by
      rintro ⟨otherId, entries, file⟩
      exact not_isLedgerFile_altered (fun entry member => bound entry (List.mem_append_left _ member))
        (bound e (by simp)) frame file
    rcases load_of_not_isLedgerFile malformed path with ⟨result, loaded, failed, -⟩
    exact ⟨result, loaded, failed⟩
  · intro message payload _ small altered rest frame
    rcases frame.mismatch with ⟨checksum, found, rfl, length, mismatch⟩
    exact recvMessage_frameWith rest (length ▸ small) mismatch

/-- A saved file with one entry, whose first payload byte was changed. -/
theorem corruption_detected_marker :
    let payload := entryPayload sampleEntry
    ∃ result, load "ledger.bin" (some (fileHeader ⟨0, 1⟩ ++
      (ByteWriter.u32 (UInt32.ofNat payload.length) ++ ByteWriter.u32 (crc32 payload) ++
        0 :: payload.tail))) = .done result ∧ result.ok = false := by
  have saved := saveSnapshot_of_encodable unlimitedDisk_reliable
    (List.forall_mem_singleton.mpr encodable_sample) ⟨0, 1⟩ "ledger.bin" none
  have window : AlteredInWindow (entryPayload sampleEntry) (0 :: (entryPayload sampleEntry).tail) :=
    ⟨[], [kCodecEndianMarker], [0], (entryPayload sampleEntry).tail, rfl, rfl, by decide, rfl,
      by decide⟩
  rcases (corruption_detected.1 _ _ _ _ _ _ unlimitedDisk_reliable saved
    (List.forall_mem_singleton.mpr fitsFrame_sample.payload) [] sampleEntry [] rfl).2 _
    (.inContent window) with ⟨result, loaded, failed⟩
  refine ⟨result, ?_, failed⟩
  simpa using loaded

end InferenceLedger
