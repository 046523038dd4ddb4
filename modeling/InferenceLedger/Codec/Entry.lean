import InferenceLedger.Codec.Bytes

namespace InferenceLedger

open Foundation Std

/-!
# The entry codec

An entry travels as a frame: a 32-bit payload length, a CRC-32 of the payload
and the payload.  The payload lists the fields in a fixed order; the three
optional identities are written only when their flag is set, which shifts
everything after them, and the metadata map is written as a counted list of
length-prefixed strings in key order.

The encoder and the decoder are separate hand-written functions in the source
and are kept separate here.  The decoder computes the frame size as `8u + len`
in 32-bit arithmetic before widening it; `frameTotal` keeps that sum.
-/

/-! ## Constants and checks -/

def kSchemaVersion : UInt32 := 1

def kCodecEndianMarker : UInt8 := 0xBE

/-- One reflected CRC-32 step: shift out a bit and fold the polynomial in. -/
def crcBit (crc : UInt32) : UInt32 := (crc >>> 1) ^^^ (0xEDB88320 &&& (0 - (crc &&& 1)))

def crcByte (crc : UInt32) (byte : UInt8) : UInt32 :=
  crcBit (crcBit (crcBit (crcBit (crcBit (crcBit (crcBit (crcBit (crc ^^^ byte.toUInt32))))))))

/-- CRC-32 (IEEE 802.3, reflected). -/
def crc32 (data : List UInt8) : UInt32 := ~~~ (data.foldl crcByte 0xFFFFFFFF)

def validEventKind (value : UInt8) : Bool :=
  decide (EventKind.requestStart.toByte ≤ value) && decide (value ≤ EventKind.costAdjustment.toByte)

def validResourceKind (value : UInt8) : Bool :=
  decide (ResourceKind.compute.toByte ≤ value) && decide (value ≤ ResourceKind.generic.toByte)

def validUnit (value : UInt8) : Bool := decide (value ≤ MeasureUnit.dimensionless.toByte)

def validProvenance (value : UInt8) : Bool := decide (value ≤ Provenance.unavailable.toByte)

/-- The four enumerations of the entry hold enumerators.  Only the decoder asks. -/
structure LedgerEntry.Listed (e : LedgerEntry) : Prop where
  eventKind : validEventKind e.eventKind.toByte = true
  resourceKind : validResourceKind e.resourceKind.toByte = true
  unit : validUnit e.quantity.unit.toByte = true
  provenance : validProvenance e.quantity.provenance.toByte = true

/-! ## Encoder -/

section Encoder

open ByteWriter

/-- The metadata loop, over the pairs in key order. -/
def metadataBytes (pairs : List (ByteString × ByteString)) : List UInt8 :=
  pairs.flatMap (fun pair => string pair.1 ++ string pair.2)

/-- The payload that `encode_entry` writes, field by field. -/
def entryPayload (e : LedgerEntry) : List UInt8 :=
  List.flatten
    [u8 kCodecEndianMarker, u32 kSchemaVersion,
      putId e.id, putId e.ledger, putId e.tenant, putId e.workload, putId e.request,
      putId e.model, putId e.modelRevision,
      bool8 e.hasAdapter, optionalId e.hasAdapter e.adapter,
      putId e.attempt, putId e.dispatch, putId e.worker, putId e.node, putId e.device,
      u8 e.eventKind.toByte, u8 e.resourceKind.toByte,
      u64 e.quantity.value.bits, u8 e.quantity.unit.toByte, u8 e.quantity.provenance.toByte,
      u64 e.startTsNs, u64 e.endTsNs, bool8 e.hasEnd,
      putId e.source.worker, putId e.source.boot, u64 e.source.accountingGeneration.value,
      u64 e.authority.epoch.value, putId e.authority.workerBoot,
      u64 e.authority.requestGeneration.value, u64 e.authority.accountingGeneration.value,
      putId e.authority.attempt, u64 e.authority.attemptGeneration.value,
      putId e.authority.dispatch,
      bool8 e.hasAccountingPolicy, optionalId e.hasAccountingPolicy e.accountingPolicy,
      bool8 e.hasPricingPolicy, optionalId e.hasPricingPolicy e.pricingPolicy,
      u32 (UInt32.ofNat e.metadata.size), metadataBytes e.metadata.toList]

/-- The frame around a payload.  The length field keeps the low 32 bits. -/
def frame (payload : List UInt8) : List UInt8 :=
  u32 (UInt32.ofNat payload.length) ++ u32 (crc32 payload) ++ payload

/-- `encode_entry`; `none` is its false. -/
def encodeEntry (e : LedgerEntry) : Option (List UInt8) :=
  if !e.quantity.value.isFinite then none
  else if e.resourceKind.isPhysical && e.quantity.value.isNegative then none
  else if e.quantity.unit == .count && !e.quantity.isIntegral then none
  else if e.metadata.size > 0xFFFFFFFF then none
  else some (frame (entryPayload e))

end Encoder

/-! ## Decoder -/

section Decoder

open ByteReader

/-- The metadata loop: `emplace` keeps the first value of a repeated key. -/
def readMetadata : Nat → Metadata → ReadProgram Metadata
  | 0, metadata => pure metadata
  | count + 1, metadata => do
      let key ← string
      let value ← string
      readMetadata count (metadata.insertIfNew key value)

/-- The part of `decode_entry` that reads the payload through a `ByteReader`. -/
def readEntry : ReadProgram LedgerEntry := do
  let marker ← u8
  require (marker == kCodecEndianMarker)
  let ver ← u32
  require (ver == kSchemaVersion)
  let entryId ← getId
  let ledger ← getId
  let tenant ← getId
  let workload ← getId
  let request ← getId
  let model ← getId
  let modelRevision ← getId
  let hasAdapter ← bool8
  let adapter ← optionalId hasAdapter
  let attempt ← getId
  let dispatch ← getId
  let worker ← getId
  let node ← getId
  let device ← getId
  let ek ← u8
  let rk ← u8
  require (validEventKind ek && validResourceKind rk)
  let qbits ← u64
  let qu ← u8
  let qp ← u8
  require (validUnit qu && validProvenance qp)
  let startTsNs ← u64
  let endTsNs ← u64
  let hasEnd ← bool8
  let sourceWorker ← getId
  let sourceBoot ← getId
  let ag ← u64
  let epoch ← u64
  let workerBoot ← getId
  let rg ← u64
  let agg ← u64
  let authorityAttempt ← getId
  let atg ← u64
  let authorityDispatch ← getId
  let hasAccountingPolicy ← bool8
  let accountingPolicy ← optionalId hasAccountingPolicy
  let hasPricingPolicy ← bool8
  let pricingPolicy ← optionalId hasPricingPolicy
  let metaCount ← u32
  let metadata ← readMetadata metaCount.toNat ∅
  let left ← remaining
  require (left == 0)
  let e : LedgerEntry :=
    { id := entryId, ledger, tenant, workload, request, model, modelRevision, hasAdapter, adapter,
      attempt, dispatch, worker, node, device
      eventKind := .ofByte ek
      resourceKind := .ofByte rk
      quantity := { value := ⟨qbits⟩, unit := .ofByte qu, provenance := .ofByte qp }
      startTsNs, endTsNs, hasEnd
      source := { worker := sourceWorker, boot := sourceBoot, accountingGeneration := ⟨ag⟩ }
      authority :=
        { epoch := ⟨epoch⟩, workerBoot, requestGeneration := ⟨rg⟩, accountingGeneration := ⟨agg⟩
          attempt := authorityAttempt, attemptGeneration := ⟨atg⟩, dispatch := authorityDispatch }
      hasAccountingPolicy, accountingPolicy, hasPricingPolicy, pricingPolicy, metadata }
  require e.quantity.value.isFinite
  require (!(e.resourceKind.isPhysical && e.quantity.value.isNegative))
  pure e

/-- The 32-bit big-endian word at an offset that is known to exist. -/
def wordAt (data : List UInt8) (offset : Nat) : UInt32 :=
  u32OfBytes (data.getD offset 0) (data.getD (offset + 1) 0) (data.getD (offset + 2) 0)
    (data.getD (offset + 3) 0)

/-- `8u + len`, a 32-bit sum that is widened only afterwards. -/
def frameTotal (len : UInt32) : Nat := (8 + len).toNat

/-- `decode_entry(data, n)` on a buffer of `n` bytes, with the number of bytes
consumed.  The checksum runs over `len` bytes from offset 8, whatever the
buffer holds there. -/
def decodeEntry (data : List UInt8) : Access (LedgerEntry × Nat) :=
  if data.length < 8 then .rejected
  else
    let len := wordAt data 0
    let crcWant := wordAt data 4
    let total := frameTotal len
    if total > data.length then .rejected
    else do
      let payload ← slice data 8 len.toNat
      if crc32 payload ≠ crcWant then .rejected
      else do
        let (e, _) ← readEntry.run (data.drop 8) len.toNat 0
        .done (e, total)

end Decoder

end InferenceLedger
