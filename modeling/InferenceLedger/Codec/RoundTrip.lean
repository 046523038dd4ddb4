import InferenceLedger.Codec.Layout

namespace InferenceLedger

open Foundation Std ReadProgram

/-!
# Decoding what was encoded

The encoder and the decoder list the same thirty-odd fields.  Each reader call
undoes the writer call in the same place, so the payload parses back to the
entry it came from, up to the optional identities that were never written.
The metadata map survives because its pairs are written in key order with
distinct keys, and `emplace` then rebuilds the same map.

Around the payload, the frame header restores the length as long as it fits
its 32-bit field together with the eight header bytes.
-/

/-! ## The decoder as a function of the payload -/

/-- The word that a writer put at the front of a buffer. -/
theorem wordAt_u32 (before after : List UInt8) (value : UInt32) :
    wordAt (before ++ (ByteWriter.u32 value ++ after)) before.length = value := by
  have front : (before ++ (ByteWriter.u32 value ++ after)).drop before.length =
      ByteWriter.u32 value ++ after := List.drop_left
  have parsed := ByteReader.parse_u32 after value
  simp only [ByteReader.u32, ByteWriter.u32, bytesOfU32, List.cons_append, List.nil_append,
    parse_bind, ByteReader.parse_u8_cons, Option.bind_some, parse_pure, Option.some.injEq,
    Prod.mk.injEq, and_true] at parsed
  simp [wordAt, ByteWriter.u32, bytesOfU32, parsed]

/-- Inside the buffer the decoder is a checksum test followed by a parse. -/
theorem decodeEntry_of_inside {data : List UInt8} (inside : 8 + (wordAt data 0).toNat ≤ data.length) :
    decodeEntry data =
      let payload := (data.drop 8).take (wordAt data 0).toNat
      if crc32 payload ≠ wordAt data 4 then .rejected
      else Access.ofOption ((readEntry.parse payload).map
        (fun result => (result.1, frameTotal (wordAt data 0)))) := by
  have total : ¬ frameTotal (wordAt data 0) > data.length := by
    have wrapped : frameTotal (wordAt data 0) ≤ 8 + (wordAt data 0).toNat := by
      simp only [frameTotal, UInt32.toNat_add, UInt32.reduceToNat]
      omega
    omega
  unfold decodeEntry
  rw [if_neg (by omega : ¬ data.length < 8)]
  simp only [if_neg total, slice_of_le inside, Access.bind_done]
  by_cases checksum : crc32 ((data.drop 8).take (wordAt data 0).toNat) = wordAt data 4
  · rw [if_neg (not_not.mpr checksum), if_neg (not_not.mpr checksum), run_eq_parse]
    · rw [List.drop_zero]
      cases readEntry.parse ((data.drop 8).take (wordAt data 0).toNat) with
      | none => rfl
      | some result => rfl
    · rw [List.length_drop]
      omega
    · exact Nat.zero_le _
  · rw [if_pos checksum, if_pos checksum]

/-! ## The payload -/

/-- What `encode_entry` checks before it writes.  It does not ask whether the
enumerations hold enumerators. -/
structure Encodable (e : LedgerEntry) : Prop where
  finite : e.quantity.value.isFinite = true
  nonNegative : (e.resourceKind.isPhysical && e.quantity.value.isNegative) = false
  integral : (e.quantity.unit == .count && !e.quantity.isIntegral) = false
  metadataSize : e.metadata.size < 2 ^ 32

theorem encodeEntry_eq_some_iff (e : LedgerEntry) (bytes : List UInt8) :
    encodeEntry e = some bytes ↔ Encodable e ∧ bytes = frame (entryPayload e) := by
  unfold encodeEntry
  constructor
  · intro encoded
    split_ifs at encoded with infinite negative fractional large
    refine ⟨⟨?_, ?_, ?_, Nat.lt_of_not_le large⟩, (Option.some.inj encoded).symm⟩
    · simpa using infinite
    · exact Bool.eq_false_of_not_eq_true negative
    · exact Bool.eq_false_of_not_eq_true fractional
  · rintro ⟨encodable, rfl⟩
    have size := encodable.metadataSize
    simp only [encodable.finite, encodable.nonNegative, encodable.integral, Bool.not_true,
      Bool.false_eq_true, if_false]
    rw [if_neg (by omega)]

theorem Encodable.encoded {e : LedgerEntry} (encodable : Encodable e) :
    encodeEntry e = some (frame (entryPayload e)) :=
  (encodeEntry_eq_some_iff e _).mpr ⟨encodable, rfl⟩

theorem isSome_encodeEntry_iff (e : LedgerEntry) : (encodeEntry e).isSome = true ↔ Encodable e := by
  rw [Option.isSome_iff_exists]
  constructor
  · rintro ⟨bytes, encoded⟩
    exact ((encodeEntry_eq_some_iff e bytes).mp encoded).1
  · intro encodable
    exact ⟨_, encodable.encoded⟩

/-- The size limits under which no length field is truncated. -/
structure FitsFrame (e : LedgerEntry) : Prop where
  strings : ∀ pair ∈ e.metadata.toList, pair.1.length < 2 ^ 32 ∧ pair.2.length < 2 ^ 32
  payload : (entryPayload e).length < 2 ^ 32 - 8

theorem Encodable.acceptable {e : LedgerEntry} (encodable : Encodable e) (listed : e.Listed) :
    Acceptable e :=
  ⟨listed, encodable.finite, encodable.nonNegative⟩

theorem parse_entryPayload {e : LedgerEntry} (encodable : Encodable e) (listed : e.Listed)
    (fits : FitsFrame e) : parse readEntry (entryPayload e) = some (e.normalize, []) := by
  apply (parse_entryPayload_eq_some_iff encodable.metadataSize _).mpr
  exact ⟨fits.strings, encodable.acceptable listed, rfl⟩

/-! ## The frame -/

theorem frameTotal_of_lt {len : UInt32} (small : len.toNat < 2 ^ 32 - 8) :
    frameTotal len = 8 + len.toNat := by
  simp only [frameTotal, UInt32.toNat_add, UInt32.reduceToNat]
  omega

theorem length_frame (payload : List UInt8) : (frame payload).length = 8 + payload.length := by
  simp only [frame, List.length_append, ByteWriter.length_u32]

/-- What the header of a frame says, and what stands behind it. -/
theorem frame_header (payload rest : List UInt8) :
    wordAt (frame payload ++ rest) 0 = UInt32.ofNat payload.length ∧
    wordAt (frame payload ++ rest) 4 = crc32 payload ∧
    (frame payload ++ rest).drop 8 = payload ++ rest := by
  refine ⟨?_, ?_, ?_⟩
  · simpa [frame] using wordAt_u32 [] (ByteWriter.u32 (crc32 payload) ++ (payload ++ rest))
      (UInt32.ofNat payload.length)
  · simpa [frame] using wordAt_u32 (ByteWriter.u32 (UInt32.ofNat payload.length))
      (payload ++ rest) (crc32 payload)
  · have header : (ByteWriter.u32 (UInt32.ofNat payload.length) ++
        ByteWriter.u32 (crc32 payload)).length = 8 := rfl
    rw [frame, List.append_assoc, ← header, List.drop_left]

/-- A frame in front of any further bytes is read back on its own. -/
theorem decodeEntry_frame {payload : List UInt8} (small : payload.length < 2 ^ 32 - 8)
    (rest : List UInt8) :
    decodeEntry (frame payload ++ rest) =
      Access.ofOption ((readEntry.parse payload).map
        (fun result => (result.1, (frame payload).length))) := by
  rcases frame_header payload rest with ⟨len, crc, behind⟩
  have lenNat : (UInt32.ofNat payload.length).toNat = payload.length := by
    rw [UInt32.toNat_ofNat']
    omega
  have content : ((frame payload ++ rest).drop 8).take payload.length = payload := by
    rw [behind, List.take_left]
  have inside : 8 + (wordAt (frame payload ++ rest) 0).toNat ≤ (frame payload ++ rest).length := by
    rw [len, lenNat, List.length_append, length_frame]
    omega
  rw [decodeEntry_of_inside inside]
  simp only [len, crc, lenNat, content, ne_eq, not_true_eq_false, if_false]
  rw [frameTotal_of_lt (by rw [lenNat]; exact small), lenNat, length_frame]

/-- The entry codec in a stream: decoding an encoded entry whose enumerations
hold enumerators succeeds whatever follows, consumes exactly its bytes, and
returns the entry without the identities whose flag is clear. -/
theorem decodeEntry_encodeEntry {e : LedgerEntry} {bytes : List UInt8}
    (encoded : encodeEntry e = some bytes) (listed : e.Listed) (fits : FitsFrame e)
    (rest : List UInt8) :
    ∃ e' : LedgerEntry, decodeEntry (bytes ++ rest) = .done (e', bytes.length) ∧
      (e' == e) = true ∧
      e' = { e with
        adapter := if e.hasAdapter then e.adapter else {}
        accountingPolicy := if e.hasAccountingPolicy then e.accountingPolicy else {}
        pricingPolicy := if e.hasPricingPolicy then e.pricingPolicy else {} } := by
  rcases (encodeEntry_eq_some_iff e bytes).mp encoded with ⟨encodable, rfl⟩
  refine ⟨e.normalize, ?_, ?_, rfl⟩
  · rw [decodeEntry_frame fits.payload, parse_entryPayload encodable listed fits]
    rfl
  · exact e.normalize_beq encodable.finite

/-- An entry with an adapter, a pricing policy whose flag is clear, and one
metadata pair. -/
def sampleEntry : LedgerEntry :=
  { hasAdapter := true
    adapter := ⟨0, 7⟩
    pricingPolicy := ⟨0, 9⟩
    quantity := { value := ⟨0x3FF0000000000000⟩, unit := .count, provenance := .measured }
    metadata := (∅ : Metadata).insert [98] [49] }

theorem encodable_default : Encodable {} :=
  ⟨by decide +kernel, by decide +kernel, by decide +kernel, by decide +kernel⟩

/-- An entry with one metadata pair, of any size. -/
def entryWith (value : ByteString) : LedgerEntry :=
  { metadata := (∅ : Metadata).insert [107] value }

theorem toList_entryWith (value : ByteString) :
    (entryWith value).metadata.toList = [([107], value)] := rfl

theorem encodable_entryWith (value : ByteString) : Encodable (entryWith value) where
  finite := encodable_default.finite
  nonNegative := encodable_default.nonNegative
  integral := encodable_default.integral
  metadataSize := by
    rw [← ExtTreeMap.length_toList, toList_entryWith, List.length_singleton]
    decide

/-- An entry whose event kind was never set. -/
def unlistedEntry : LedgerEntry := { eventKind := .unlisted 0 (by decide) }

theorem encodable_unlisted : Encodable unlistedEntry where
  finite := encodable_default.finite
  nonNegative := encodable_default.nonNegative
  integral := encodable_default.integral
  metadataSize := encodable_default.metadataSize

theorem encodable_sample : Encodable sampleEntry :=
  ⟨by decide +kernel, by decide +kernel, by decide +kernel, by decide +kernel⟩

theorem listed_sample : sampleEntry.Listed := ⟨rfl, rfl, rfl, rfl⟩

theorem fitsFrame_sample : FitsFrame sampleEntry := ⟨by decide +kernel, by decide +kernel⟩

/-- The adapter survives the round trip and the unflagged policy does not,
with one more byte behind the frame. -/
theorem decodeEntry_encodeEntry_sample :
    ∃ bytes e', encodeEntry sampleEntry = some bytes ∧
      decodeEntry (bytes ++ [0xAA]) = .done (e', bytes.length) ∧ (e' == sampleEntry) = true ∧
      e'.adapter = ⟨0, 7⟩ ∧ e'.pricingPolicy = ⟨0, 0⟩ := by
  have encoded := encodable_sample.encoded
  rcases decodeEntry_encodeEntry encoded listed_sample fitsFrame_sample [0xAA] with ⟨e', decoded, agrees, rfl⟩
  exact ⟨_, _, encoded, decoded, agrees, rfl, rfl⟩

end InferenceLedger
