import InferenceLedger.Codec.RoundTrip

namespace InferenceLedger

open Foundation ReadProgram

/-!
# Entries that are too large

A size is narrowed to 32 bits in three places of the encoder.  The number of
metadata pairs is checked.  A string that does not fit its length field is
skipped, and a payload that does not fit its length field is announced with the
low bits of its length.  In the last two cases the encoder still reports
success.

`LedgerEntry.frameSize` is the size of the frame when nothing is skipped and
nothing is narrowed.  The encoder keeps its promise for an entry that it takes
exactly when this size is below four gigabytes and the decoder does not refuse
the enumerations, at which the encoder does not look.
-/

/-! ## Sizes -/

/-- The size of the pairs, each string behind its length. -/
def pairsSize (pairs : List (ByteString × ByteString)) : Nat :=
  (pairs.map fun pair => (4 + pair.1.length) + (4 + pair.2.length)).sum

/-- The size of the frame of an entry, with all its strings. -/
def LedgerEntry.frameSize (e : LedgerEntry) : Nat :=
  8 + e.fixedSize + pairsSize e.metadata.toList

theorem length_metadataBytes_of_short {pairs : List (ByteString × ByteString)}
    (short : ShortPairs pairs) : (metadataBytes pairs).length = pairsSize pairs := by
  rw [metadataBytes, List.length_flatMap, pairsSize]
  congr 1
  apply List.map_congr_left
  intro pair member
  rw [List.length_append, ByteWriter.string_of_lt (short pair member).1,
    ByteWriter.string_of_lt (short pair member).2, List.length_append, List.length_append,
    ByteWriter.length_u32, ByteWriter.length_u32]

theorem length_entryPayload {e : LedgerEntry} (short : ShortPairs e.metadata.toList) :
    (entryPayload e).length = e.fixedSize + pairsSize e.metadata.toList := by
  rw [← payload_layout, Layout.length_payload, ← length_metadataBytes_of_short short]
  rfl

/-- Pairs that are small together are small one by one. -/
theorem shortPairs_of_pairsSize {pairs : List (ByteString × ByteString)}
    (small : pairsSize pairs < 2 ^ 32) : ShortPairs pairs := by
  intro pair member
  have inside := List.le_sum_of_mem (List.mem_map_of_mem
    (f := fun pair : ByteString × ByteString => (4 + pair.1.length) + (4 + pair.2.length)) member)
  simp only [pairsSize] at small
  omega

theorem fitsFrame_iff (e : LedgerEntry) : FitsFrame e ↔ e.frameSize < 2 ^ 32 := by
  constructor
  · intro fits
    have payload := fits.payload
    rw [length_entryPayload fits.strings] at payload
    simp only [LedgerEntry.frameSize]
    omega
  · intro small
    simp only [LedgerEntry.frameSize] at small
    have short : ShortPairs e.metadata.toList := shortPairs_of_pairsSize (by omega)
    refine ⟨short, ?_⟩
    rw [length_entryPayload short]
    omega

/-! ## What the encoder promises -/

/-- The string stands in the payload, behind its length. -/
def Present (text : ByteString) (payload : List UInt8) : Prop :=
  ByteWriter.u32 (UInt32.ofNat text.length) ++ text <:+: payload

/-- Some string does not fit a 32-bit length, or the payload with the eight
bytes of the header does not. -/
def LedgerEntry.Oversize (e : LedgerEntry) : Prop :=
  (∃ pair ∈ e.metadata.toList, 2 ^ 32 ≤ pair.1.length ∨ 2 ^ 32 ≤ pair.2.length) ∨
    2 ^ 32 ≤ (entryPayload e).length + 8

/-- A frame that holds the whole entry: the length field is the length of the
payload, every metadata string is there, and the frame decodes to the entry. -/
structure HoldsWhole (e : LedgerEntry) (bytes : List UInt8) : Prop where
  length : (wordAt bytes 0).toNat = (bytes.drop 8).length
  keys : ∀ pair ∈ e.metadata.toList, Present pair.1 (bytes.drop 8)
  values : ∀ pair ∈ e.metadata.toList, Present pair.2 (bytes.drop 8)
  decodes : ∃ e' count, decodeEntry bytes = .done (e', count) ∧ (e' == e) = true

/-- Whatever is encoded is encoded whole, and an entry that is too large is
refused. -/
structure EncodesWhole (e : LedgerEntry) : Prop where
  whole : ∀ bytes, encodeEntry e = some bytes → HoldsWhole e bytes
  refused : e.Oversize → encodeEntry e = none

theorem oversize_iff (e : LedgerEntry) : e.Oversize ↔ ¬ FitsFrame e := by
  constructor
  · rintro (⟨pair, member, long | long⟩ | large) fits
    · exact Nat.not_lt_of_le long (fits.strings pair member).1
    · exact Nat.not_lt_of_le long (fits.strings pair member).2
    · have small := fits.payload
      omega
  · intro unfit
    by_contra fits
    simp only [LedgerEntry.Oversize, not_or, not_exists, not_and, Nat.not_le] at fits
    refine unfit ⟨fits.1, ?_⟩
    have small := fits.2
    omega

/-- What is written of a pair that is short enough. -/
theorem present_of_short {pairs : List (ByteString × ByteString)} (short : ShortPairs pairs)
    {pair : ByteString × ByteString} (member : pair ∈ pairs) :
    Present pair.1 (metadataBytes pairs) ∧ Present pair.2 (metadataBytes pairs) := by
  have written : ByteWriter.string pair.1 ++ ByteWriter.string pair.2 <:+: metadataBytes pairs := by
    rw [metadataBytes, List.flatMap_def]
    exact List.infix_of_mem_flatten (List.mem_map_of_mem member)
  have key : Present pair.1 (ByteWriter.string pair.1 ++ ByteWriter.string pair.2) := by
    rw [Present, ← ByteWriter.string_of_lt (short pair member).1]
    exact (List.prefix_append _ _).isInfix
  have value : Present pair.2 (ByteWriter.string pair.1 ++ ByteWriter.string pair.2) := by
    rw [Present, ← ByteWriter.string_of_lt (short pair member).2]
    exact (List.suffix_append _ _).isInfix
  exact ⟨key.trans written, value.trans written⟩

theorem holdsWhole_frame {e : LedgerEntry} (encodable : Encodable e) (listed : e.Listed)
    (fits : FitsFrame e) : HoldsWhole e (frame (entryPayload e)) := by
  rcases frame_header (entryPayload e) [] with ⟨length, -, behind⟩
  rw [List.append_nil] at length behind
  rw [List.append_nil] at behind
  have metadata : metadataBytes e.metadata.toList <:+: entryPayload e := by
    rw [entryPayload]
    exact List.infix_of_mem_flatten (by simp)
  refine ⟨?_, ?_, ?_, ?_⟩
  · have small := fits.payload
    rw [length, behind, UInt32.toNat_ofNat']
    omega
  · intro pair member
    rw [behind]
    exact (present_of_short fits.strings member).1.trans metadata
  · intro pair member
    rw [behind]
    exact (present_of_short fits.strings member).2.trans metadata
  · rcases decodeEntry_encodeEntry encodable.encoded listed fits [] with ⟨e', decoded, agrees, -⟩
    rw [List.append_nil] at decoded
    exact ⟨e', _, decoded, agrees⟩

/-- What is decoded from the frame of an entry says that its enumerations hold
enumerators. -/
theorem listed_of_holdsWhole {e : LedgerEntry} (encodable : Encodable e) (fits : FitsFrame e)
    (holds : HoldsWhole e (frame (entryPayload e))) : e.Listed := by
  rcases holds.decodes with ⟨e', count, decoded, -⟩
  have read := decodeEntry_frame fits.payload []
  rw [List.append_nil, decoded] at read
  rcases Option.map_eq_some_iff.mp (Access.ofOption_eq_done_iff.mp read.symm) with
    ⟨result, parsed, -⟩
  exact ((parse_entryPayload_eq_some_iff encodable.metadataSize result).mp parsed).2.1.listed

/-- Oversize entries are refused and nothing is mangled, exactly when the entry
is refused for another reason, or its frame is smaller than four gigabytes and
its enumerations hold enumerators. -/
theorem encodesWhole_iff (e : LedgerEntry) :
    EncodesWhole e ↔ (Encodable e → e.frameSize < 2 ^ 32 ∧ e.Listed) := by
  rw [← fitsFrame_iff]
  constructor
  · intro promise encodable
    have fits : FitsFrame e := by
      by_contra unfit
      have refused := promise.refused ((oversize_iff e).mpr unfit)
      rw [encodable.encoded] at refused
      cases refused
    exact ⟨fits, listed_of_holdsWhole encodable fits (promise.whole _ encodable.encoded)⟩
  · intro condition
    refine ⟨?_, ?_⟩
    · intro bytes encoded
      rcases (encodeEntry_eq_some_iff e bytes).mp encoded with ⟨encodable, rfl⟩
      rcases condition encodable with ⟨fits, listed⟩
      exact holdsWhole_frame encodable listed fits
    · intro oversize
      rw [← Option.not_isSome_iff_eq_none, isSome_encodeEntry_iff]
      intro encodable
      exact (oversize_iff e).mp oversize (condition encodable).1

/-- An entry with a metadata value of four gigabytes is encoded without it. -/
theorem long_value_is_skipped : ¬ ∀ e : LedgerEntry, EncodesWhole e := by
  intro claim
  have long : 2 ^ 32 ≤ (List.replicate (2 ^ 32) (0 : UInt8)).length :=
    Nat.le_of_eq List.length_replicate.symm
  generalize List.replicate (2 ^ 32) (0 : UInt8) = value at long
  have oversize : (entryWith value).Oversize :=
    Or.inl ⟨([107], value), by simp [toList_entryWith], Or.inr long⟩
  have refused := (claim (entryWith value)).refused oversize
  rw [(encodable_entryWith value).encoded] at refused
  cases refused

end InferenceLedger
