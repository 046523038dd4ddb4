import InferenceLedger.Codec.RoundTrip

namespace InferenceLedger

open Foundation ReadProgram

/-!
# Which frames are read inside their buffer

`decode_entry` adds the header size to the length field in 32 bits.  For the
eight largest length values the sum wraps to a number below eight, the length
test passes on every buffer that holds a header, and the checksum then runs
over four gigabytes of whatever follows the buffer.

The results here give the exact set of inputs on which the decoder stays
inside its buffer and reports the number of bytes that the frame occupies.
-/

/-- The length test of `decode_entry`, in the arithmetic the code uses. -/
def lengthCheckPasses (data : List UInt8) : Prop :=
  8 ≤ data.length ∧ frameTotal (wordAt data 0) ≤ data.length

/-- The frame at the front of the buffer: its checksum and its record. -/
def frameAccepted (data : List UInt8) : Prop :=
  let payload := (data.drop 8).take (wordAt data 0).toNat
  crc32 payload = wordAt data 4 ∧ (readEntry.parse payload).isSome = true

/-- What a caller of `decode_entry` relies on: a passed length test means that
the frame is inside the buffer, no read leaves the buffer, and success
reports the true frame length. -/
structure DecodesInside (data : List UInt8) : Prop where
  lengthCheck : lengthCheckPasses data → 8 + (wordAt data 0).toNat ≤ data.length
  inBounds : decodeEntry data ≠ .outOfBounds
  consumed : ∀ e count, decodeEntry data = .done (e, count) →
    count = 8 + (wordAt data 0).toNat ∧ count ≤ data.length

theorem decodeEntry_of_short {data : List UInt8} (short : data.length < 8) :
    decodeEntry data = .rejected := if_pos short

theorem frameTotal_of_ge {len : UInt32} (large : 2 ^ 32 - 8 ≤ len.toNat) :
    frameTotal len = len.toNat - (2 ^ 32 - 8) := by
  have bound := len.toNat_lt
  simp only [frameTotal, UInt32.toNat_add, UInt32.reduceToNat]
  omega

/-- A wrapped sum passes the test on every buffer with a header. -/
theorem lengthCheckPasses_of_ge {data : List UInt8} (long : 8 ≤ data.length)
    (large : 2 ^ 32 - 8 ≤ (wordAt data 0).toNat) : lengthCheckPasses data := by
  have bound := (wordAt data 0).toNat_lt
  refine ⟨long, ?_⟩
  rw [frameTotal_of_ge large]
  omega

theorem decodeEntry_of_not_passes {data : List UInt8} (fails : ¬ lengthCheckPasses data) :
    decodeEntry data = .rejected := by
  by_cases short : data.length < 8
  · exact decodeEntry_of_short short
  · have total : frameTotal (wordAt data 0) > data.length :=
      Nat.lt_of_not_le (fun fitting => fails ⟨by omega, fitting⟩)
    unfold decodeEntry
    rw [if_neg short, if_pos total]

/-- The test passes but the frame is not there: the checksum leaves the buffer. -/
theorem decodeEntry_outside {data : List UInt8} (passes : lengthCheckPasses data)
    (outside : data.length < 8 + (wordAt data 0).toNat) : decodeEntry data = .outOfBounds := by
  have long : ¬ data.length < 8 := Nat.not_lt_of_le passes.1
  have total : ¬ frameTotal (wordAt data 0) > data.length := Nat.not_lt_of_le passes.2
  unfold decodeEntry
  rw [if_neg long, if_neg total, slice_of_lt outside]
  rfl

/-- Inside the buffer, success means an accepted frame, and the count that is
reported is the 32-bit sum. -/
theorem decodeEntry_eq_done_iff {data : List UInt8}
    (inside : 8 + (wordAt data 0).toNat ≤ data.length) (e : LedgerEntry) (count : Nat) :
    decodeEntry data = .done (e, count) ↔
      crc32 ((data.drop 8).take (wordAt data 0).toNat) = wordAt data 4 ∧
      (∃ rest, readEntry.parse ((data.drop 8).take (wordAt data 0).toNat) = some (e, rest)) ∧
      count = frameTotal (wordAt data 0) := by
  rw [decodeEntry_of_inside inside]
  by_cases checksum : crc32 ((data.drop 8).take (wordAt data 0).toNat) = wordAt data 4
  · simp only [checksum, ne_eq, not_true_eq_false, if_false, true_and]
    rw [Access.ofOption_eq_done_iff]
    cases parsed : readEntry.parse ((data.drop 8).take (wordAt data 0).toNat) with
    | none => simp
    | some result =>
        rcases result with ⟨found, rest⟩
        simp only [Option.map_some, Option.some.injEq, Prod.mk.injEq, exists_and_left,
          exists_eq', and_true]
        exact and_congr_right fun _ => eq_comm
  · simp [checksum]

theorem decodeEntry_eq_outOfBounds_iff (data : List UInt8) :
    decodeEntry data = .outOfBounds ↔
      lengthCheckPasses data ∧ data.length < 8 + (wordAt data 0).toNat := by
  constructor
  · intro fault
    by_cases passes : lengthCheckPasses data
    · refine ⟨passes, Nat.lt_of_not_le fun inside => ?_⟩
      rw [decodeEntry_of_inside inside] at fault
      by_cases checksum : crc32 ((data.drop 8).take (wordAt data 0).toNat) = wordAt data 4
      · rw [if_neg (not_not.mpr checksum)] at fault
        exact Access.ofOption_ne_outOfBounds _ fault
      · rw [if_pos checksum] at fault
        cases fault
    · rw [decodeEntry_of_not_passes passes] at fault
      cases fault
  · rintro ⟨passes, outside⟩
    exact decodeEntry_outside passes outside

/-- An honest length field makes the test mean what it says. -/
theorem inside_of_passes {data : List UInt8} (honest : (wordAt data 0).toNat < 2 ^ 32 - 8)
    (passes : lengthCheckPasses data) : 8 + (wordAt data 0).toNat ≤ data.length := by
  have fitting := passes.2
  rwa [frameTotal_of_lt honest] at fitting

/-- Success presupposes a passed length test. -/
theorem passes_of_done {data : List UInt8} {result : LedgerEntry × Nat}
    (success : decodeEntry data = .done result) : lengthCheckPasses data := by
  by_contra fails
  rw [decodeEntry_of_not_passes fails] at success
  cases success

theorem decodesInside_of_honest {data : List UInt8}
    (honest : (wordAt data 0).toNat < 2 ^ 32 - 8) : DecodesInside data where
  lengthCheck := inside_of_passes honest
  inBounds := by
    intro fault
    rcases (decodeEntry_eq_outOfBounds_iff data).mp fault with ⟨passes, outside⟩
    exact Nat.not_le_of_lt outside (inside_of_passes honest passes)
  consumed := by
    intro e count success
    have inside := inside_of_passes honest (passes_of_done success)
    rcases (decodeEntry_eq_done_iff inside e count).mp success with ⟨-, -, total⟩
    rw [frameTotal_of_lt honest] at total
    exact ⟨total, total ▸ inside⟩

/-- The exact condition for `decode_entry`: no header, an honest length field,
or a wrapped one whose four-gigabyte frame is present and refused. -/
theorem decodesInside_iff (data : List UInt8) :
    DecodesInside data ↔
      data.length < 8 ∨ (wordAt data 0).toNat < 2 ^ 32 - 8 ∨
        (8 + (wordAt data 0).toNat ≤ data.length ∧ ¬ frameAccepted data) := by
  constructor
  · intro decodes
    by_cases short : data.length < 8
    · exact Or.inl short
    by_cases honest : (wordAt data 0).toNat < 2 ^ 32 - 8
    · exact Or.inr (Or.inl honest)
    have large : 2 ^ 32 - 8 ≤ (wordAt data 0).toNat := Nat.le_of_not_lt honest
    have inside := decodes.lengthCheck (lengthCheckPasses_of_ge (Nat.le_of_not_lt short) large)
    refine Or.inr (Or.inr ⟨inside, ?_⟩)
    -- A success would report the wrapped sum, which is not the frame length.
    rintro ⟨checksum, accepted⟩
    rcases Option.isSome_iff_exists.mp accepted with ⟨⟨e, rest⟩, parsed⟩
    have success := (decodeEntry_eq_done_iff inside e _).mpr ⟨checksum, ⟨rest, parsed⟩, rfl⟩
    have reported := (decodes.consumed e _ success).1
    rw [frameTotal_of_ge large] at reported
    omega
  · rintro (short | honest | ⟨inside, refused⟩)
    · have rejected := decodeEntry_of_short short
      refine ⟨fun passes => ?_, ?_, ?_⟩
      · exact (Nat.not_le_of_lt short passes.1).elim
      · rw [rejected]
        intro impossible
        cases impossible
      · intro e count success
        rw [rejected] at success
        cases success
    · exact decodesInside_of_honest honest
    · refine ⟨fun _ => inside, ?_, ?_⟩
      · intro fault
        exact Nat.not_le_of_lt ((decodeEntry_eq_outOfBounds_iff data).mp fault).2 inside
      · intro e count success
        rcases (decodeEntry_eq_done_iff inside e count).mp success with
            ⟨checksum, ⟨rest, parsed⟩, -⟩
        exact (refused ⟨checksum, by rw [parsed]; rfl⟩).elim

theorem wordAt_drop (data : List UInt8) (count offset : Nat) :
    wordAt (data.drop count) offset = wordAt data (count + offset) := by
  simp only [wordAt, List.getD_eq_getElem?_getD, List.getElem?_drop, Nat.add_assoc]

theorem bytesOfU32_wordAt {data : List UInt8} {offset : Nat} (inside : offset + 4 ≤ data.length) :
    bytesOfU32 (wordAt data offset) = (data.drop offset).take 4 := by
  have shifted := wordAt_drop data offset 0
  rw [Nat.add_zero] at shifted
  rw [← shifted]
  have long : 4 ≤ (data.drop offset).length := by
    rw [List.length_drop]
    omega
  match data.drop offset, long with
  | a :: b :: c :: d :: rest, _ => exact bytesOfU32_u32OfBytes a b c d

/-- Reading a word succeeds exactly when four bytes are left. -/
theorem parse_u32_eq (bytes : List UInt8) :
    parse ByteReader.u32 bytes =
      if bytes.length < 4 then none else some (wordAt bytes 0, bytes.drop 4) := by
  match bytes with
  | [] => rfl
  | [_] => rfl
  | [_, _] => rfl
  | [_, _, _] => rfl
  | a :: b :: c :: d :: rest =>
      have long : ¬ (a :: b :: c :: d :: rest).length < 4 := by simp
      rw [if_neg long]
      rfl

end InferenceLedger
