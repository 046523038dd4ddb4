import InferenceLedger.Foundation.OrderedMap
import InferenceLedger.Codec.Entry

namespace InferenceLedger

open Foundation Std ReadProgram ByteReader

/-!
# Layouts of an entry

The decoder takes more payloads than the encoder writes.  Every non-zero flag
byte reads as true, metadata pairs may come in any order, and of several pairs
with one key the first counts.  A `Layout` is the part of a payload that the
decoded entry does not determine: the four flag bytes and the list of pairs.

A payload is accepted exactly when it is a layout of its entry written out, and
the quantity passes the decoder's two checks.  The encoder writes one of these
layouts, unless it skips a string that is too long for its length field: then
fewer strings follow than were announced, and the decoder runs out of bytes.
-/

/-! ## Casts from wire values -/

theorem forall_byte {property : UInt8 → Prop} (all : ∀ number < 256, property (UInt8.ofNat number))
    (value : UInt8) : property value := by
  have found := all value.toNat value.toNat_lt
  rwa [UInt8.ofNat_toNat] at found

@[simp] theorem EventKind.toByte_ofByte (value : UInt8) : (ofByte value).toByte = value := by
  revert value
  apply forall_byte
  decide +kernel

@[simp] theorem ResourceKind.toByte_ofByte (value : UInt8) : (ofByte value).toByte = value := by
  revert value
  apply forall_byte
  decide +kernel

@[simp] theorem MeasureUnit.toByte_ofByte (value : UInt8) : (ofByte value).toByte = value := by
  revert value
  apply forall_byte
  decide +kernel

@[simp] theorem Provenance.toByte_ofByte (value : UInt8) : (ofByte value).toByte = value := by
  revert value
  apply forall_byte
  decide +kernel

/-! ## Metadata -/

/-- No string is too long for its length field. -/
def ShortPairs (pairs : List (ByteString × ByteString)) : Prop :=
  ∀ pair ∈ pairs, pair.1.length < 2 ^ 32 ∧ pair.2.length < 2 ^ 32

instance (pairs : List (ByteString × ByteString)) : Decidable (ShortPairs pairs) :=
  inferInstanceAs (Decidable (∀ pair ∈ pairs, pair.1.length < 2 ^ 32 ∧ pair.2.length < 2 ^ 32))

theorem parse_readMetadata_eq_some_iff {count : Nat} {start metadata : Metadata}
    {bytes rest : List UInt8} :
    parse (readMetadata count start) bytes = some (metadata, rest) ↔
      ∃ pairs : List (ByteString × ByteString), pairs.length = count ∧ ShortPairs pairs ∧
        bytes = metadataBytes pairs ++ rest ∧
        metadata = pairs.foldl (fun metadata pair => metadata.insertIfNew pair.1 pair.2) start := by
  induction count generalizing start bytes with
  | zero =>
      simp only [readMetadata, parse_pure, Option.some.injEq, Prod.mk.injEq, List.length_eq_zero_iff,
        exists_eq_left, metadataBytes, List.flatMap_nil, List.nil_append, List.foldl_nil]
      constructor
      · rintro ⟨rfl, rfl⟩
        exact ⟨List.forall_mem_nil _, rfl, rfl⟩
      · rintro ⟨-, rfl, rfl⟩
        exact ⟨rfl, rfl⟩
  | succ count ih =>
      simp only [readMetadata, parse_bind_eq_some_iff, ByteReader.parse_string_eq_some_iff, ih]
      constructor
      · rintro ⟨key, _, ⟨shortKey, rfl⟩, value, _, ⟨shortValue, rfl⟩, pairs, rfl, short, rfl, rfl⟩
        refine ⟨(key, value) :: pairs, rfl, ?_, ?_, rfl⟩
        · exact List.forall_mem_cons.mpr ⟨⟨shortKey, shortValue⟩, short⟩
        · simp only [metadataBytes, List.flatMap_cons, List.append_assoc]
      · rintro ⟨pairs, length, short, rfl, rfl⟩
        rcases pairs with _ | ⟨⟨key, value⟩, pairs⟩
        · cases length
        · rw [ShortPairs, List.forall_mem_cons] at short
          refine ⟨key, _, ⟨short.1.1, ?_⟩, value, _, ⟨short.1.2, rfl⟩, pairs,
            Nat.succ.inj length, short.2, rfl, rfl⟩
          simp only [metadataBytes, List.flatMap_cons, List.append_assoc]

theorem string_inj {first second : ByteString} {rest more : List UInt8}
    (firstShort : first.length < 2 ^ 32) (secondShort : second.length < 2 ^ 32)
    (same : ByteWriter.string first ++ rest = ByteWriter.string second ++ more) :
    first = second ∧ rest = more := by
  have read : parse string (ByteWriter.string first ++ rest) = some (first, rest) :=
    parse_string_eq_some_iff.mpr ⟨firstShort, rfl⟩
  rw [parse_string_eq_some_iff.mpr ⟨secondShort, same⟩, Option.some.injEq, Prod.mk.injEq] at read
  exact ⟨read.1.symm, read.2.symm⟩

/-- Short strings can be told apart in what is written of them. -/
theorem metadataBytes_inj {first second : List (ByteString × ByteString)}
    (firstShort : ShortPairs first) (secondShort : ShortPairs second)
    (counts : first.length = second.length) (same : metadataBytes first = metadataBytes second) :
    first = second := by
  induction first generalizing second with
  | nil => exact (List.length_eq_zero_iff.mp counts.symm).symm
  | cons pair first ih =>
      rcases second with _ | ⟨other, second⟩
      · cases counts
      · rw [ShortPairs, List.forall_mem_cons] at firstShort secondShort
        simp only [metadataBytes, List.flatMap_cons, List.append_assoc] at same
        rcases string_inj firstShort.1.1 secondShort.1.1 same with ⟨key, behind⟩
        rcases string_inj firstShort.1.2 secondShort.1.2 behind with ⟨value, others⟩
        rw [ih firstShort.2 secondShort.2 (Nat.succ.inj counts) others, Prod.ext key value]

/-- Fewer strings than are asked for. -/
theorem parse_readMetadata_of_few {texts : List ByteString}
    (short : ∀ text ∈ texts, text.length < 2 ^ 32) {count : Nat} (few : texts.length < 2 * count)
    (start : Metadata) :
    parse (readMetadata count start) (texts.flatMap ByteWriter.string) = none := by
  induction count generalizing texts start with
  | zero => cases few
  | succ count ih =>
      rw [readMetadata]
      rcases texts with _ | ⟨key, _ | ⟨value, texts⟩⟩
      · rfl
      · rw [List.forall_mem_singleton] at short
        rw [List.flatMap_cons, ByteReader.parse_string_bind _ short]
        rfl
      · rw [List.forall_mem_cons, List.forall_mem_cons] at short
        rw [List.flatMap_cons, ByteReader.parse_string_bind _ short.1, List.flatMap_cons,
          ByteReader.parse_string_bind _ short.2.1]
        refine ih short.2.2 ?_ _
        simp only [List.length_cons] at few
        omega

/-- The strings of the pairs in the order in which they are written. -/
def stringsOf (pairs : List (ByteString × ByteString)) : List ByteString :=
  pairs.flatMap fun pair => [pair.1, pair.2]

theorem length_stringsOf (pairs : List (ByteString × ByteString)) :
    (stringsOf pairs).length = 2 * pairs.length := by
  induction pairs with
  | nil => rfl
  | cons pair pairs ih =>
      simp only [stringsOf, List.flatMap_cons, List.length_append, List.length_cons,
        List.length_nil] at ih ⊢
      omega

theorem shortPairs_iff (pairs : List (ByteString × ByteString)) :
    ShortPairs pairs ↔ ∀ text ∈ stringsOf pairs, text.length < 2 ^ 32 := by
  simp only [ShortPairs, stringsOf, List.mem_flatMap, List.mem_cons, List.not_mem_nil, or_false]
  constructor
  · rintro short text ⟨pair, member, rfl | rfl⟩
    · exact (short pair member).1
    · exact (short pair member).2
  · intro short pair member
    exact ⟨short _ ⟨pair, member, Or.inl rfl⟩, short _ ⟨pair, member, Or.inr rfl⟩⟩

/-- What is written of the pairs: the strings that are short enough. -/
theorem metadataBytes_eq (pairs : List (ByteString × ByteString)) :
    metadataBytes pairs = ((stringsOf pairs).filter fun text => text.length < 2 ^ 32).flatMap
      ByteWriter.string := by
  have skipped : ∀ texts : List ByteString, texts.flatMap ByteWriter.string =
      (texts.filter fun text => text.length < 2 ^ 32).flatMap ByteWriter.string := by
    intro texts
    induction texts with
    | nil => rfl
    | cons text texts ih =>
        by_cases short : text.length < 2 ^ 32
        · rw [List.filter_cons_of_pos (by simpa using short), List.flatMap_cons, List.flatMap_cons, ih]
        · have long : text.length > 0xFFFFFFFF := by omega
          rw [List.filter_cons_of_neg (by simpa using short), List.flatMap_cons, ih,
            ByteWriter.string, if_pos long, List.nil_append]
  rw [← skipped, stringsOf, List.flatMap_assoc]
  simp only [metadataBytes, List.flatMap_cons, List.flatMap_nil, List.append_nil]

/-- A string that was skipped leaves the reader without its last one. -/
theorem parse_readMetadata_of_long {pairs : List (ByteString × ByteString)}
    (long : ¬ ShortPairs pairs) (start : Metadata) :
    parse (readMetadata pairs.length start) (metadataBytes pairs) = none := by
  rw [metadataBytes_eq]
  apply parse_readMetadata_of_few
  · intro text member
    simpa using (List.mem_filter.mp member).2
  · rw [← length_stringsOf]
    apply List.length_filter_lt_length_iff_exists.mpr
    rw [shortPairs_iff] at long
    push Not at long
    rcases long with ⟨text, member, large⟩
    exact ⟨text, member, by simpa using large⟩

/-! ## Payloads -/

/-- What a payload holds beside the decoded entry. -/
structure Layout where
  adapterFlag : UInt8
  endFlag : UInt8
  accountingFlag : UInt8
  pricingFlag : UInt8
  pairs : List (ByteString × ByteString)

namespace Layout

open ByteWriter

/-- An entry written out in this layout. -/
def payload (layout : Layout) (e : LedgerEntry) : List UInt8 :=
  List.flatten
    [u8 kCodecEndianMarker, u32 kSchemaVersion,
      putId e.id, putId e.ledger, putId e.tenant, putId e.workload, putId e.request,
      putId e.model, putId e.modelRevision,
      u8 layout.adapterFlag, optionalId e.hasAdapter e.adapter,
      putId e.attempt, putId e.dispatch, putId e.worker, putId e.node, putId e.device,
      u8 e.eventKind.toByte, u8 e.resourceKind.toByte,
      u64 e.quantity.value.bits, u8 e.quantity.unit.toByte, u8 e.quantity.provenance.toByte,
      u64 e.startTsNs, u64 e.endTsNs, u8 layout.endFlag,
      putId e.source.worker, putId e.source.boot, u64 e.source.accountingGeneration.value,
      u64 e.authority.epoch.value, putId e.authority.workerBoot,
      u64 e.authority.requestGeneration.value, u64 e.authority.accountingGeneration.value,
      putId e.authority.attempt, u64 e.authority.attemptGeneration.value,
      putId e.authority.dispatch,
      u8 layout.accountingFlag, optionalId e.hasAccountingPolicy e.accountingPolicy,
      u8 layout.pricingFlag, optionalId e.hasPricingPolicy e.pricingPolicy,
      u32 (UInt32.ofNat layout.pairs.length), metadataBytes layout.pairs]

/-- The flag bytes say what the entry says. -/
structure HasFlags (layout : Layout) (e : LedgerEntry) : Prop where
  adapter : (layout.adapterFlag != 0) = e.hasAdapter
  ending : (layout.endFlag != 0) = e.hasEnd
  accounting : (layout.accountingFlag != 0) = e.hasAccountingPolicy
  pricing : (layout.pricingFlag != 0) = e.hasPricingPolicy

/-- The entry that is read from this layout. -/
structure Represents (layout : Layout) (e : LedgerEntry) : Prop extends layout.HasFlags e where
  metadata : ofPairs layout.pairs = e.metadata
  sparse : e.normalize = e
  short : ShortPairs layout.pairs
  count : layout.pairs.length < 2 ^ 32

end Layout

/-- What the decoder checks of an entry.  It does not ask whether a count is
integral. -/
structure Acceptable (e : LedgerEntry) : Prop where
  listed : e.Listed
  finite : e.quantity.value.isFinite = true
  nonNegative : (e.resourceKind.isPhysical && e.quantity.value.isNegative) = false

/-- Reading a layout comes down to reading its metadata. -/
theorem parse_readEntry_payload {layout : Layout} {e : LedgerEntry} (flags : layout.HasFlags e)
    (count : layout.pairs.length < 2 ^ 32) (result : LedgerEntry × List UInt8) :
    parse readEntry (layout.payload e) = some result ↔
      ∃ metadata, parse (readMetadata layout.pairs.length ∅) (metadataBytes layout.pairs) =
          some (metadata, []) ∧
        Acceptable e ∧ result = ({ e.normalize with metadata }, []) := by
  have length : (UInt32.ofNat layout.pairs.length).toNat = layout.pairs.length := by
    rw [UInt32.toNat_ofNat', Nat.mod_eq_of_lt count]
  simp only [Layout.payload, List.flatten_cons, List.flatten_nil, List.append_nil, readEntry,
    ByteReader.parse_u8_bind, ByteReader.parse_u32_bind, ByteReader.parse_u64_bind,
    ByteReader.parse_flag_bind, ByteReader.parse_getId_bind, ByteReader.parse_optionalId_bind,
    flags.adapter, flags.ending, flags.accounting, flags.pricing,
    beq_self_eq_true, ByteReader.parse_require_bind_eq_some_iff, true_and, Bool.and_eq_true, length,
    EventKind.ofByte_toByte, ResourceKind.ofByte_toByte, MeasureUnit.ofByte_toByte,
    Provenance.ofByte_toByte]
  rw [parse_bind_eq_some_iff]
  simp only [ByteReader.parse_remaining_bind, ByteReader.parse_require_bind_eq_some_iff,
    beq_iff_eq, List.length_eq_zero_iff, Bool.not_eq_true', parse_pure, Option.some.injEq]
  constructor
  · rintro ⟨⟨kind, resource⟩, ⟨unit, provenance⟩, metadata, _, read, rfl, finite, nonNegative, rfl⟩
    exact ⟨metadata, read, ⟨⟨kind, resource, unit, provenance⟩, finite, nonNegative⟩, rfl⟩
  · rintro ⟨metadata, read, ⟨listed, finite, nonNegative⟩, rfl⟩
    exact ⟨⟨listed.eventKind, listed.resourceKind⟩, ⟨listed.unit, listed.provenance⟩, metadata, [],
      read, rfl, finite, nonNegative, rfl⟩

/-- Every accepted payload is a layout of its entry. -/
theorem payload_of_parse_readEntry {payload rest : List UInt8} {e : LedgerEntry}
    (parsed : parse readEntry payload = some (e, rest)) :
    rest = [] ∧ Acceptable e ∧ ∃ layout : Layout, layout.Represents e ∧ payload = layout.payload e := by
  unfold readEntry at parsed
  refine peel_u8 parsed fun marker _ parsed => ?_
  rcases parse_require_bind_eq_some_iff.mp parsed with ⟨isMarker, parsed⟩
  refine peel_u32 parsed fun version _ parsed => ?_
  rcases parse_require_bind_eq_some_iff.mp parsed with ⟨isVersion, parsed⟩
  refine peel_getId parsed fun entryId _ parsed => ?_
  refine peel_getId parsed fun ledger _ parsed => ?_
  refine peel_getId parsed fun tenant _ parsed => ?_
  refine peel_getId parsed fun workload _ parsed => ?_
  refine peel_getId parsed fun request _ parsed => ?_
  refine peel_getId parsed fun model _ parsed => ?_
  refine peel_getId parsed fun modelRevision _ parsed => ?_
  refine peel_bool8 parsed fun adapterFlag _ parsed => ?_
  refine peel_optionalId parsed fun adapter _ noAdapter parsed => ?_
  refine peel_getId parsed fun attempt _ parsed => ?_
  refine peel_getId parsed fun dispatch _ parsed => ?_
  refine peel_getId parsed fun worker _ parsed => ?_
  refine peel_getId parsed fun node _ parsed => ?_
  refine peel_getId parsed fun device _ parsed => ?_
  refine peel_u8 parsed fun eventKind _ parsed => ?_
  refine peel_u8 parsed fun resourceKind _ parsed => ?_
  rcases parse_require_bind_eq_some_iff.mp parsed with ⟨validKinds, parsed⟩
  refine peel_u64 parsed fun bits _ parsed => ?_
  refine peel_u8 parsed fun unit _ parsed => ?_
  refine peel_u8 parsed fun provenance _ parsed => ?_
  rcases parse_require_bind_eq_some_iff.mp parsed with ⟨validQuantity, parsed⟩
  refine peel_u64 parsed fun startTsNs _ parsed => ?_
  refine peel_u64 parsed fun endTsNs _ parsed => ?_
  refine peel_bool8 parsed fun endFlag _ parsed => ?_
  refine peel_getId parsed fun sourceWorker _ parsed => ?_
  refine peel_getId parsed fun sourceBoot _ parsed => ?_
  refine peel_u64 parsed fun sourceGeneration _ parsed => ?_
  refine peel_u64 parsed fun epoch _ parsed => ?_
  refine peel_getId parsed fun workerBoot _ parsed => ?_
  refine peel_u64 parsed fun requestGeneration _ parsed => ?_
  refine peel_u64 parsed fun accountingGeneration _ parsed => ?_
  refine peel_getId parsed fun authorityAttempt _ parsed => ?_
  refine peel_u64 parsed fun attemptGeneration _ parsed => ?_
  refine peel_getId parsed fun authorityDispatch _ parsed => ?_
  refine peel_bool8 parsed fun accountingFlag _ parsed => ?_
  refine peel_optionalId parsed fun accountingPolicy _ noAccounting parsed => ?_
  refine peel_bool8 parsed fun pricingFlag _ parsed => ?_
  refine peel_optionalId parsed fun pricingPolicy _ noPricing parsed => ?_
  refine peel_u32 parsed fun count _ parsed => ?_
  rcases parse_bind_eq_some_iff.mp parsed with ⟨metadata, left, read, parsed⟩
  rcases parse_readMetadata_eq_some_iff.mp read with ⟨pairs, length, short, rfl, rfl⟩
  rcases parse_require_bind_eq_some_iff.mp parsed with ⟨empty, parsed⟩
  rcases parse_require_bind_eq_some_iff.mp parsed with ⟨finite, parsed⟩
  rcases parse_require_bind_eq_some_iff.mp parsed with ⟨nonNegative, parsed⟩
  simp only [parse_pure, Option.some.injEq, Prod.mk.injEq] at parsed
  rcases parsed with ⟨rfl, rfl⟩
  rw [Bool.and_eq_true] at validKinds validQuantity
  have nothing : left = [] := by simpa using empty
  rw [Bool.not_eq_true'] at nonNegative
  have listed : validEventKind (EventKind.ofByte eventKind).toByte = true ∧
      validResourceKind (ResourceKind.ofByte resourceKind).toByte = true ∧
      validUnit (MeasureUnit.ofByte unit).toByte = true ∧
      validProvenance (Provenance.ofByte provenance).toByte = true := by
    simp only [EventKind.toByte_ofByte, ResourceKind.toByte_ofByte, MeasureUnit.toByte_ofByte,
      Provenance.toByte_ofByte]
    exact ⟨validKinds.1, validKinds.2, validQuantity.1, validQuantity.2⟩
  refine ⟨nothing,
    ⟨⟨listed.1, listed.2.1, listed.2.2.1, listed.2.2.2⟩, finite, nonNegative⟩,
    ⟨adapterFlag, endFlag, accountingFlag, pricingFlag, pairs⟩,
    ⟨⟨rfl, rfl, rfl, rfl⟩, rfl, ?_, short, ?_⟩, ?_⟩
  · simp only [LedgerEntry.normalize, noAdapter, noAccounting, noPricing]
  · exact length ▸ count.toNat_lt
  · simp only [Layout.payload, List.flatten_cons, List.flatten_nil, List.append_nil,
      EventKind.toByte_ofByte, ResourceKind.toByte_ofByte, MeasureUnit.toByte_ofByte,
      Provenance.toByte_ofByte, beq_iff_eq.mp isMarker, beq_iff_eq.mp isVersion, length,
      UInt32.ofNat_toNat, nothing]

/-- The decoder accepts the layouts of acceptable entries and nothing else. -/
theorem parse_readEntry_eq_some_iff {payload rest : List UInt8} {e : LedgerEntry} :
    parse readEntry payload = some (e, rest) ↔
      rest = [] ∧ Acceptable e ∧
        ∃ layout : Layout, layout.Represents e ∧ payload = layout.payload e := by
  constructor
  · exact payload_of_parse_readEntry
  · rintro ⟨rfl, acceptable, layout, represents, rfl⟩
    apply (parse_readEntry_payload represents.toHasFlags represents.count _).mpr
    refine ⟨e.metadata, ?_, acceptable, ?_⟩
    · exact parse_readMetadata_eq_some_iff.mpr
        ⟨layout.pairs, rfl, represents.short, (List.append_nil _).symm, represents.metadata.symm⟩
    · rw [represents.sparse]

/-! ## Sizes -/

/-- The number of bytes in front of the metadata. -/
def LedgerEntry.fixedSize (e : LedgerEntry) : Nat :=
  353 + (if e.hasAdapter then 16 else 0) + (if e.hasAccountingPolicy then 16 else 0) +
    if e.hasPricingPolicy then 16 else 0

theorem Layout.length_payload (layout : Layout) (e : LedgerEntry) :
    (layout.payload e).length = e.fixedSize + (metadataBytes layout.pairs).length := by
  simp only [Layout.payload, List.flatten_cons, List.flatten_nil, List.append_nil,
    List.length_append, ByteWriter.length_u8, ByteWriter.length_u32, ByteWriter.length_u64,
    ByteWriter.length_putId, ByteWriter.length_optionalId, LedgerEntry.fixedSize]
  omega

/-! ## The layout that the encoder writes -/

/-- Flags as zero or one, and the pairs of the map in key order. -/
def LedgerEntry.layout (e : LedgerEntry) : Layout where
  adapterFlag := if e.hasAdapter then 1 else 0
  endFlag := if e.hasEnd then 1 else 0
  accountingFlag := if e.hasAccountingPolicy then 1 else 0
  pricingFlag := if e.hasPricingPolicy then 1 else 0
  pairs := e.metadata.toList

theorem payload_layout (e : LedgerEntry) : e.layout.payload e = entryPayload e := by
  simp only [Layout.payload, LedgerEntry.layout, entryPayload, ByteWriter.bool8,
    ExtTreeMap.length_toList]

theorem flag_ne_zero (flag : Bool) : ((if flag then 1 else 0 : UInt8) != 0) = flag := by
  cases flag <;> rfl

theorem hasFlags_layout (e : LedgerEntry) : e.layout.HasFlags e where
  adapter := flag_ne_zero _
  ending := flag_ne_zero _
  accounting := flag_ne_zero _
  pricing := flag_ne_zero _

/-- What the encoder writes is read back, without the identities whose flag is
clear, unless a string was skipped or the quantity is refused. -/
theorem parse_entryPayload_eq_some_iff {e : LedgerEntry} (size : e.metadata.size < 2 ^ 32)
    (result : LedgerEntry × List UInt8) :
    parse readEntry (entryPayload e) = some result ↔
      ShortPairs e.metadata.toList ∧ Acceptable e ∧ result = (e.normalize, []) := by
  have count : e.layout.pairs.length < 2 ^ 32 := ExtTreeMap.length_toList (t := e.metadata) ▸ size
  rw [← payload_layout, parse_readEntry_payload (hasFlags_layout e) count]
  by_cases short : ShortPairs e.metadata.toList
  · have read : parse (readMetadata e.layout.pairs.length ∅) (metadataBytes e.layout.pairs) =
        some (e.metadata, []) :=
      parse_readMetadata_eq_some_iff.mpr
        ⟨e.metadata.toList, rfl, short, (List.append_nil _).symm, (ofPairs_toList e.metadata).symm⟩
    simp only [read, Option.some.injEq, Prod.mk.injEq, and_true, exists_eq_left', short, true_and]
    rfl
  · have stuck : parse (readMetadata e.layout.pairs.length ∅) (metadataBytes e.layout.pairs) = none :=
      parse_readMetadata_of_long short ∅
    simp only [stuck, reduceCtorEq, false_and, exists_false, short]

namespace Layout

variable {layout : Layout} {e : LedgerEntry}

/-- The form in which the encoder writes: flags of zero or one, ascending keys. -/
structure Canonical (layout : Layout) : Prop where
  adapter : layout.adapterFlag ≤ 1
  ending : layout.endFlag ≤ 1
  accounting : layout.accountingFlag ≤ 1
  pricing : layout.pricingFlag ≤ 1
  ascending : layout.pairs.Pairwise (fun left right => compare left.1 right.1 = .lt)

theorem flag_eq (flag : UInt8) (canonical : flag ≤ 1) : (if flag != 0 then 1 else 0) = flag := by
  revert flag
  apply forall_byte
  decide +kernel

/-- A canonical layout of an entry is the one that the encoder writes. -/
theorem Represents.canonical_iff (represents : layout.Represents e) :
    layout.Canonical ↔ layout = e.layout := by
  constructor
  · intro canonical
    have adapter := flag_eq _ canonical.adapter
    have ending := flag_eq _ canonical.ending
    have accounting := flag_eq _ canonical.accounting
    have pricing := flag_eq _ canonical.pricing
    have pairs := toList_ofPairs canonical.ascending
    rw [represents.adapter] at adapter
    rw [represents.ending] at ending
    rw [represents.accounting] at accounting
    rw [represents.pricing] at pricing
    rw [represents.metadata] at pairs
    rw [LedgerEntry.layout, adapter, ending, accounting, pricing, pairs]
  · rintro rfl
    have small : ∀ flag : Bool, (if flag then 1 else 0 : UInt8) ≤ 1 := by decide
    exact ⟨small _, small _, small _, small _, ExtTreeMap.ordered_keys_toList⟩

/-- The encoder's own layout of a decoded entry. -/
theorem Represents.encoded (represents : layout.Represents e) : e.layout.Represents e where
  toHasFlags := hasFlags_layout e
  metadata := ofPairs_toList e.metadata
  sparse := represents.sparse
  short := by
    intro pair member
    change pair ∈ e.metadata.toList at member
    rw [← represents.metadata] at member
    exact represents.short pair (toList_ofPairs_subset _ member)
  count := by
    have smaller := (toList_ofPairs_subperm layout.pairs).length_le
    rw [represents.metadata] at smaller
    exact Nat.lt_of_le_of_lt smaller represents.count

/-- A payload has one layout only. -/
theorem payload_inj {other : Layout} (represents : layout.Represents e)
    (otherRepresents : other.Represents e) (same : layout.payload e = other.payload e) :
    layout = other := by
  simp only [payload, List.flatten_cons, List.flatten_nil, List.append_nil, List.append_right_inj,
    ByteWriter.u8, List.singleton_append, List.cons.injEq, true_and] at same
  rcases same with ⟨adapter, ending, accounting, pricing, metadata⟩
  rcases List.append_inj metadata rfl with ⟨written, pairs⟩
  have counts := parse_u32 [] (UInt32.ofNat layout.pairs.length)
  rw [written, parse_u32, Option.some.injEq, Prod.mk.injEq] at counts
  have lengths := congrArg UInt32.toNat counts.1
  rw [UInt32.toNat_ofNat', UInt32.toNat_ofNat', Nat.mod_eq_of_lt represents.count,
    Nat.mod_eq_of_lt otherRepresents.count] at lengths
  have equal := metadataBytes_inj represents.short otherRepresents.short lengths.symm pairs
  cases layout
  cases other
  simp only [Layout.mk.injEq]
  exact ⟨adapter, ending, accounting, pricing, equal⟩

/-- Of several layouts of one entry, the encoder's is the shortest. -/
theorem Represents.length_le (represents : layout.Represents e) :
    (entryPayload e).length ≤ (layout.payload e).length := by
  rw [← payload_layout, length_payload, length_payload]
  apply Nat.add_le_add_left
  rcases toList_ofPairs_subperm layout.pairs with ⟨some, permuted, inside⟩
  rw [represents.metadata] at permuted
  calc
    (metadataBytes e.metadata.toList).length = (metadataBytes some).length :=
      (permuted.flatMap_right _).length_eq.symm
    _ ≤ (metadataBytes layout.pairs).length := (inside.flatMap _).length_le

end Layout

end InferenceLedger
