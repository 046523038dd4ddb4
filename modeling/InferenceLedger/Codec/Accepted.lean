import InferenceLedger.Codec.FrameBounds

namespace InferenceLedger

open Foundation ReadProgram

/-!
# What an accepted frame holds

An accepted frame is a layout of its entry behind a length and a checksum that
belong to it.  Two questions about such a frame are answered by its bytes.

Whether the entry can be stored and encoded again depends on its quantity alone:
the decoder accepts a count that is not integral, and the ledger and the encoder
do not.  Whether encoding the entry restores the frame depends on its layout.
-/

/-- The payload that the length field claims. -/
def framePayload (data : List UInt8) : List UInt8 := (data.drop 8).take (wordAt data 0).toNat

section Decoded

variable {data : List UInt8} {e : LedgerEntry} {count : Nat}

theorem inside_of_decoded (decoded : decodeEntry data = .done (e, count)) :
    8 + (wordAt data 0).toNat ≤ data.length := by
  by_contra outside
  rw [decodeEntry_outside (passes_of_done decoded) (Nat.lt_of_not_le outside)] at decoded
  cases decoded

theorem layout_of_decoded (decoded : decodeEntry data = .done (e, count)) :
    Acceptable e ∧ ∃ layout : Layout, layout.Represents e ∧ framePayload data = layout.payload e := by
  rcases (decodeEntry_eq_done_iff (inside_of_decoded decoded) e count).mp decoded with
    ⟨-, ⟨rest, parsed⟩, -⟩
  exact (parse_readEntry_eq_some_iff.mp parsed).2

theorem metadataSize_of_decoded (decoded : decodeEntry data = .done (e, count)) :
    e.metadata.size < 2 ^ 32 := by
  rcases layout_of_decoded decoded with ⟨-, layout, represents, -⟩
  rw [← Std.ExtTreeMap.length_toList]
  exact represents.encoded.count

/-- With an honest length field, the bytes consumed are the frame around the
payload. -/
theorem take_eq_frame (decoded : decodeEntry data = .done (e, count))
    (honest : (wordAt data 0).toNat < 2 ^ 32 - 8) :
    data.take count = frame (framePayload data) := by
  have inside := inside_of_decoded decoded
  rcases (decodeEntry_eq_done_iff inside e count).mp decoded with ⟨checksum, -, total⟩
  have length : (framePayload data).length = (wordAt data 0).toNat := by
    rw [framePayload, List.length_take, List.length_drop]
    omega
  rw [frameTotal_of_lt honest] at total
  change crc32 (framePayload data) = wordAt data 4 at checksum
  calc
    data.take count = (data.take 4 ++ (data.drop 4).take 4) ++ framePayload data := by
      rw [total, List.take_add, List.take_add (i := 4) (j := 4)]
      rfl
    _ = frame (framePayload data) := by
      have first := bytesOfU32_wordAt (by omega : 0 + 4 ≤ data.length)
      have second := bytesOfU32_wordAt (by omega : 4 + 4 ≤ data.length)
      rw [List.drop_zero] at first
      rw [frame, length, UInt32.ofNat_toNat, checksum, ByteWriter.u32, ByteWriter.u32, first, second]

end Decoded

/-! ## Counts that are not integral -/

/-- Where the quantity stands: behind the adapter, if there is one. -/
def quantityOffset (payload : List UInt8) : Nat := if payload.getD 117 0 = 0 then 200 else 216

/-- The quantity of the payload is a count and not integral. -/
def FractionalCount (payload : List UInt8) : Prop :=
  payload.getD (quantityOffset payload + 8) 0 = MeasureUnit.count.toByte ∧
    (⟨u64OfHalves (wordAt payload (quantityOffset payload))
      (wordAt payload (quantityOffset payload + 4))⟩ : Binary64).isIntegral = false

section Split

open ByteWriter

/-- A payload, split at the fields that decide whether it is such a count. -/
theorem Layout.split_payload (layout : Layout) (e : LedgerEntry) :
    ∃ front middle back : List UInt8, front.length = 117 ∧ middle.length = 82 ∧
      layout.payload e = front ++ (u8 layout.adapterFlag ++ (optionalId e.hasAdapter e.adapter ++
        (middle ++ (u64 e.quantity.value.bits ++ (u8 e.quantity.unit.toByte ++ back))))) := by
  refine ⟨List.flatten [u8 kCodecEndianMarker, u32 kSchemaVersion, putId e.id, putId e.ledger,
      putId e.tenant, putId e.workload, putId e.request, putId e.model, putId e.modelRevision],
    List.flatten [putId e.attempt, putId e.dispatch, putId e.worker, putId e.node, putId e.device,
      u8 e.eventKind.toByte, u8 e.resourceKind.toByte],
    List.flatten [u8 e.quantity.provenance.toByte, u64 e.startTsNs, u64 e.endTsNs,
      u8 layout.endFlag, putId e.source.worker, putId e.source.boot,
      u64 e.source.accountingGeneration.value, u64 e.authority.epoch.value,
      putId e.authority.workerBoot, u64 e.authority.requestGeneration.value,
      u64 e.authority.accountingGeneration.value, putId e.authority.attempt,
      u64 e.authority.attemptGeneration.value, putId e.authority.dispatch,
      u8 layout.accountingFlag, optionalId e.hasAccountingPolicy e.accountingPolicy,
      u8 layout.pricingFlag, optionalId e.hasPricingPolicy e.pricingPolicy,
      u32 (UInt32.ofNat layout.pairs.length), metadataBytes layout.pairs], ?_, ?_, ?_⟩
  · simp only [List.flatten_cons, List.flatten_nil, List.length_append, length_u8, length_u32,
      length_putId, List.length_nil]
  · simp only [List.flatten_cons, List.flatten_nil, List.length_append, length_u8, length_putId,
      List.length_nil]
  · simp only [Layout.payload, List.flatten_cons, List.flatten_nil, List.append_nil,
      List.append_assoc]

end Split

theorem quantityOffset_payload {layout : Layout} {e : LedgerEntry} (flags : layout.HasFlags e) :
    quantityOffset (layout.payload e) = if e.hasAdapter then 216 else 200 := by
  have flag : (layout.payload e).getD 117 0 = layout.adapterFlag := by
    rcases layout.split_payload e with ⟨front, middle, back, length, -, split⟩
    rw [split, ← length, List.getD_append_right _ _ _ _ (Nat.le_refl _), Nat.sub_self]
    rfl
  rw [quantityOffset, flag, ← flags.adapter]
  by_cases zero : layout.adapterFlag = 0
  · simp [zero]
  · simp [zero]

/-- A payload from its quantity on. -/
theorem Layout.drop_payload (layout : Layout) (e : LedgerEntry) :
    ∃ back, (layout.payload e).drop (if e.hasAdapter then 216 else 200) =
      ByteWriter.u64 e.quantity.value.bits ++ (ByteWriter.u8 e.quantity.unit.toByte ++ back) := by
  rcases layout.split_payload e with ⟨front, middle, back, frontLength, middleLength, split⟩
  have length : (front ++ (ByteWriter.u8 layout.adapterFlag ++
      (ByteWriter.optionalId e.hasAdapter e.adapter ++ middle))).length =
        if e.hasAdapter then 216 else 200 := by
    simp only [List.length_append, frontLength, middleLength, ByteWriter.length_u8,
      ByteWriter.length_optionalId]
    cases e.hasAdapter <;> rfl
  refine ⟨back, ?_⟩
  have grouped : layout.payload e = (front ++ (ByteWriter.u8 layout.adapterFlag ++
      (ByteWriter.optionalId e.hasAdapter e.adapter ++ middle))) ++
        (ByteWriter.u64 e.quantity.value.bits ++ (ByteWriter.u8 e.quantity.unit.toByte ++ back)) := by
    rw [split]
    simp only [List.append_assoc]
  rw [grouped, ← length, List.drop_left]

/-- The bytes tell whether the entry is a count that is not integral. -/
theorem fractionalCount_payload {layout : Layout} {e : LedgerEntry} (flags : layout.HasFlags e) :
    FractionalCount (layout.payload e) ↔
      (e.quantity.unit == .count && !e.quantity.isIntegral) = true := by
  rcases layout.drop_payload e with ⟨back, behind⟩
  have offset := quantityOffset_payload flags
  rw [← offset] at behind
  have high : wordAt (layout.payload e) (quantityOffset (layout.payload e)) =
      (e.quantity.value.bits >>> 32).toUInt32 := by
    rw [← Nat.add_zero (quantityOffset _), ← wordAt_drop, behind, ByteWriter.u64, List.append_assoc]
    exact wordAt_u32 [] _ _
  have low : wordAt (layout.payload e) (quantityOffset (layout.payload e) + 4) =
      e.quantity.value.bits.toUInt32 := by
    rw [← wordAt_drop, behind, ByteWriter.u64, List.append_assoc]
    exact wordAt_u32 (ByteWriter.u32 (e.quantity.value.bits >>> 32).toUInt32) _ _
  have unit : (layout.payload e).getD (quantityOffset (layout.payload e) + 8) 0 =
      e.quantity.unit.toByte := by
    have eighth : ((layout.payload e).drop (quantityOffset (layout.payload e))).getD 8 0 =
        e.quantity.unit.toByte := by
      rw [behind]
      rfl
    rwa [List.getD_eq_getElem?_getD, List.getElem?_drop, ← List.getD_eq_getElem?_getD] at eighth
  have isCount : e.quantity.unit.toByte = MeasureUnit.count.toByte ↔ e.quantity.unit = .count := by
    constructor
    · exact MeasureUnit.toByte_inj
    · exact congrArg MeasureUnit.toByte
  rw [FractionalCount, high, low, unit, u64OfHalves_split, isCount, Bool.and_eq_true, beq_iff_eq,
    Bool.not_eq_true']
  rfl

/-- A decoded entry can be encoded again unless it is such a count. -/
theorem encodable_of_decoded_iff {data : List UInt8} {e : LedgerEntry} {count : Nat}
    (decoded : decodeEntry data = .done (e, count)) :
    Encodable e ↔ ¬ FractionalCount (framePayload data) := by
  rcases layout_of_decoded decoded with ⟨acceptable, layout, represents, payload⟩
  rw [payload, fractionalCount_payload represents.toHasFlags, Bool.not_eq_true]
  constructor
  · exact Encodable.integral
  · intro integral
    exact ⟨acceptable.finite, acceptable.nonNegative, integral, metadataSize_of_decoded decoded⟩

/-! ## Canonical frames -/

/-- A frame in the form in which the encoder writes: every flag byte is zero or
one, and the metadata keys ascend. -/
def CanonicalFrame (bytes : List UInt8) : Prop :=
  ∃ (layout : Layout) (e : LedgerEntry), layout.Represents e ∧ Acceptable e ∧ layout.Canonical ∧
    bytes = frame (layout.payload e)

theorem frame_inj {first second : List UInt8} (same : frame first = frame second) :
    first = second := by
  have firstBehind := (frame_header first []).2.2
  have secondBehind := (frame_header second []).2.2
  rw [List.append_nil, List.append_nil] at firstBehind secondBehind
  rw [← firstBehind, same, secondBehind]

section Canonical

variable {layout : Layout} {e : LedgerEntry} (represents : layout.Represents e)

include represents

theorem canonicalFrame_payload (acceptable : Acceptable e) :
    CanonicalFrame (frame (layout.payload e)) ↔ layout.Canonical := by
  constructor
  · rintro ⟨other, e', otherRepresents, otherAcceptable, canonical, same⟩
    have payloads := frame_inj same
    have parsed := parse_readEntry_eq_some_iff.mpr ⟨rfl, acceptable, layout, represents, rfl⟩
    rw [parse_readEntry_eq_some_iff.mpr ⟨rfl, otherAcceptable, other, otherRepresents, payloads⟩,
      Option.some.injEq, Prod.mk.injEq] at parsed
    rcases parsed with ⟨rfl, -⟩
    rwa [Layout.payload_inj represents otherRepresents payloads]
  · intro canonical
    exact ⟨layout, e, represents, acceptable, canonical, rfl⟩

/-- Encoding the entry restores the frame exactly when its layout is canonical. -/
theorem frame_entryPayload_eq_iff :
    frame (entryPayload e) = frame (layout.payload e) ↔ layout.Canonical := by
  rw [represents.canonical_iff, ← payload_layout]
  constructor
  · intro same
    exact (Layout.payload_inj represents.encoded represents (frame_inj same)).symm
  · intro same
    rw [← same]

end Canonical

end InferenceLedger
