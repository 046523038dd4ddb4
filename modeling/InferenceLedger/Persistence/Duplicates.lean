import InferenceLedger.Codec.Accepted
import InferenceLedger.Persistence.Recovery

namespace InferenceLedger

open Foundation

/-!
# Equality and encoding

`operator==` and `encode_entry` each list the fields of an entry.  They agree on
every field but the quantity: `operator==` compares two doubles, for which the
two zeros are equal, and the encoder writes their bits.

A duplicate is found by `operator==`, a fingerprint is made of encodings.  Up to
the sign of a zero, a duplicate has the fingerprint of the entry that is stored,
and two entries with one encoding are never in conflict.
-/

/-! ## Entries with one encoding -/

/-- What the encoding keeps is what `operator==` compares exactly, together with
the bits of the quantity. -/
theorem LedgerEntry.normalize_eq_iff (left right : LedgerEntry) :
    left.normalize = right.normalize ↔
      left.comparable = right.comparable ∧ left.quantity.value = right.quantity.value := by
  constructor
  · intro same
    refine ⟨?_, congrArg (fun e => e.quantity.value) same⟩
    exact congrArg (fun e => { e with quantity := { e.quantity with value := {} } }) same
  · rintro ⟨same, value⟩
    have restored : ∀ e : LedgerEntry, e.normalize =
        { e.comparable with quantity := { e.comparable.quantity with value := e.quantity.value } } :=
      fun _ => rfl
    rw [restored left, restored right, same, value]

theorem LedgerEntry.normalize_eq_iff_beq {left right : LedgerEntry}
    (finite : left.quantity.value.isFinite = true) :
    left.normalize = right.normalize ↔
      (left == right) = true ∧ left.quantity.value = right.quantity.value := by
  rw [left.normalize_eq_iff, left.beq_iff, and_assoc]
  refine and_congr_right fun _ => ⟨fun value => ⟨?_, value⟩, And.right⟩
  rw [← value]
  exact Binary64.equals_self_of_isFinite finite

/-- Entries that agree differ at most in the sign of a zero. -/
theorem LedgerEntry.value_of_beq {left right : LedgerEntry} (same : (left == right) = true) :
    left.quantity.value = right.quantity.value ∨
      (left.quantity.value.isZero = true ∧ right.quantity.value.isZero = true) := by
  have equals := ((left.beq_iff right).mp same).2
  simp only [Binary64.equals, Bool.and_eq_true, Bool.or_eq_true, beq_iff_eq] at equals
  exact equals.2.imp_left fun bits => congrArg Binary64.mk bits

theorem encodeEntry_congr {left right : LedgerEntry} (same : left.normalize = right.normalize) :
    encodeEntry left = encodeEntry right := by
  rw [← encodeEntry_normalize left, same, encodeEntry_normalize]

/-- The entry with the first enumerator in place of its kinds and the last one in
place of unit and provenance. -/
def LedgerEntry.relisted (e : LedgerEntry) : LedgerEntry :=
  { e with
    eventKind := .requestStart
    resourceKind := .generic
    quantity := { e.quantity with unit := .dimensionless, provenance := .unavailable } }

open ByteWriter in
/-- A payload, split at its four enumerations.  The number of bytes in front of
them depends on a flag that stands there. -/
theorem split_entryPayload (e : LedgerEntry) : ∃ front optional middle back : List UInt8,
    front.length = 117 ∧ optional.length = (if e.hasAdapter then 16 else 0) ∧
    middle.length = 80 ∧
    entryPayload e = front ++ (bool8 e.hasAdapter ++ (optional ++ (middle ++
      ([e.eventKind.toByte, e.resourceKind.toByte] ++ (u64 e.quantity.value.bits ++
        ([e.quantity.unit.toByte, e.quantity.provenance.toByte] ++ back)))))) ∧
    entryPayload e.relisted = front ++ (bool8 e.hasAdapter ++ (optional ++ (middle ++
      ([1, 10] ++ (u64 e.quantity.value.bits ++ ([8, 5] ++ back)))))) := by
  refine ⟨List.flatten [u8 kCodecEndianMarker, u32 kSchemaVersion, putId e.id, putId e.ledger,
      putId e.tenant, putId e.workload, putId e.request, putId e.model, putId e.modelRevision],
    optionalId e.hasAdapter e.adapter,
    List.flatten [putId e.attempt, putId e.dispatch, putId e.worker, putId e.node, putId e.device],
    List.flatten [u64 e.startTsNs, u64 e.endTsNs,
      bool8 e.hasEnd, putId e.source.worker, putId e.source.boot,
      u64 e.source.accountingGeneration.value, u64 e.authority.epoch.value,
      putId e.authority.workerBoot, u64 e.authority.requestGeneration.value,
      u64 e.authority.accountingGeneration.value, putId e.authority.attempt,
      u64 e.authority.attemptGeneration.value, putId e.authority.dispatch,
      bool8 e.hasAccountingPolicy, optionalId e.hasAccountingPolicy e.accountingPolicy,
      bool8 e.hasPricingPolicy, optionalId e.hasPricingPolicy e.pricingPolicy,
      u32 (UInt32.ofNat e.metadata.size), metadataBytes e.metadata.toList], ?_, ?_, ?_, ?_, ?_⟩
  · simp only [List.flatten_cons, List.flatten_nil, List.length_append, length_u8, length_u32,
      length_putId, List.length_nil]
  · exact length_optionalId _ _
  · simp only [List.flatten_cons, List.flatten_nil, List.length_append, length_putId,
      List.length_nil]
  · simp only [entryPayload, List.flatten_cons, List.flatten_nil, List.append_nil,
      List.append_assoc, u8, List.cons_append, List.nil_append]
  · simp only [entryPayload, LedgerEntry.relisted, List.flatten_cons, List.flatten_nil,
      List.append_nil, List.append_assoc, u8, List.cons_append, List.nil_append,
      EventKind.toByte, ResourceKind.toByte, MeasureUnit.toByte, Provenance.toByte]

/-- Equal payloads hold the same enumerations, and are equal without them. -/
theorem relisted_of_entryPayload {left right : LedgerEntry}
    (same : entryPayload left = entryPayload right) :
    entryPayload left.relisted = entryPayload right.relisted ∧
      left.eventKind = right.eventKind ∧ left.resourceKind = right.resourceKind ∧
      left.quantity.unit = right.quantity.unit ∧
      left.quantity.provenance = right.quantity.provenance := by
  rcases split_entryPayload left with
    ⟨front, optional, middle, back, frontLength, optionalLength, middleLength, split, relisted⟩
  rcases split_entryPayload right with
    ⟨front', optional', middle', back', frontLength', optionalLength', middleLength', split',
      relisted'⟩
  rw [split, split'] at same
  rcases List.append_inj same (by rw [frontLength, frontLength']) with ⟨fronts, behindFront⟩
  rcases List.append_inj behindFront rfl with ⟨flag, behindFlag⟩
  have flags : left.hasAdapter = right.hasAdapter := by
    cases leftFlag : left.hasAdapter <;> cases rightFlag : right.hasAdapter <;>
      simp [leftFlag, rightFlag, ByteWriter.bool8, ByteWriter.u8] at flag ⊢
  rcases List.append_inj behindFlag (by rw [optionalLength, optionalLength', flags]) with
    ⟨optionals, behindOptional⟩
  rcases List.append_inj behindOptional (by rw [middleLength, middleLength']) with
    ⟨middles, behindMiddle⟩
  rcases List.append_inj behindMiddle rfl with ⟨kinds, behindKinds⟩
  rcases List.append_inj behindKinds rfl with ⟨bits, behindBits⟩
  rcases List.append_inj behindBits rfl with ⟨quantities, backs⟩
  simp only [List.cons.injEq, and_true] at kinds quantities
  refine ⟨by rw [relisted, relisted', fronts, flags, optionals, middles, bits, backs],
    EventKind.toByte_inj kinds.1, ResourceKind.toByte_inj kinds.2,
    MeasureUnit.toByte_inj quantities.1, Provenance.toByte_inj quantities.2⟩

/-- Entries whose strings were all written are determined by their encoding, up
to the identities whose flag is clear. -/
theorem normalize_eq_of_encoded {left right : LedgerEntry} {bytes : List UInt8}
    (leftEncoded : encodeEntry left = some bytes) (rightEncoded : encodeEntry right = some bytes)
    (leftShort : ShortPairs left.metadata.toList) (rightShort : ShortPairs right.metadata.toList) :
    left.normalize = right.normalize := by
  rcases (encodeEntry_eq_some_iff left bytes).mp leftEncoded with ⟨leftEncodable, written⟩
  rcases (encodeEntry_eq_some_iff right bytes).mp rightEncoded with ⟨rightEncodable, same⟩
  rw [written] at same
  rcases relisted_of_entryPayload (frame_inj same) with
    ⟨payloads, eventKind, resourceKind, unit, provenance⟩
  -- With enumerators in their place, the decoder reads both payloads.
  have acceptable : ∀ e : LedgerEntry, Encodable e → Acceptable e.relisted :=
    fun e encodable => ⟨⟨rfl, rfl, rfl, rfl⟩, encodable.finite, rfl⟩
  have leftParsed := (parse_entryPayload_eq_some_iff (e := left.relisted)
    leftEncodable.metadataSize _).mpr ⟨leftShort, acceptable left leftEncodable, rfl⟩
  have rightParsed := (parse_entryPayload_eq_some_iff (e := right.relisted)
    rightEncodable.metadataSize _).mpr ⟨rightShort, acceptable right rightEncodable, rfl⟩
  rw [payloads, rightParsed] at leftParsed
  have kept : right.relisted.normalize = left.relisted.normalize :=
    congrArg Prod.fst (Option.some.inj leftParsed)
  have restored : ∀ e : LedgerEntry, e.normalize =
      { e.relisted.normalize with
        eventKind := e.eventKind
        resourceKind := e.resourceKind
        quantity := { e.relisted.normalize.quantity with
          unit := e.quantity.unit, provenance := e.quantity.provenance } } := fun _ => rfl
  rw [restored left, restored right, kept, eventKind, resourceKind, unit, provenance]

/-! ## Duplicates and conflicts -/

namespace Ledger

/-- A duplicate agrees with the stored entry of its identity. -/
theorem Consistent.stored_of_duplicate {ledger : Ledger} (consistent : ledger.Consistent)
    {authority : Option AuthorityState} {entry : LedgerEntry}
    (duplicate : (ledger.append authority entry).2.status = .duplicate) :
    ∃ stored ∈ ledger.entries, stored.id = entry.id ∧ (stored == entry) = true := by
  have known : entry.id ∈ ledger.entries.map LedgerEntry.id := by
    by_contra unknown
    have fresh := (consistent.index_eq_none_iff entry.id).mpr unknown
    unfold Ledger.append at duplicate
    cases content : contentIsValid entry with
    | false => simp [content] at duplicate
    | true =>
        by_cases verdict : authorityVerdict authority entry = .accept
        · simp [content, verdict, fresh] at duplicate
        · simp [content, verdict] at duplicate
  rcases List.mem_map.mp known with ⟨stored, member, same⟩
  have answer := (consistent.append_of_stored authority member same).2.mp duplicate
  exact ⟨stored, member, same, answer.2.2⟩

/-- An entry that agrees with the stored one of its identity is not a conflict. -/
theorem Consistent.no_conflict {ledger : Ledger} (consistent : ledger.Consistent)
    (authority : Option AuthorityState) {stored entry : LedgerEntry} (member : stored ∈ ledger.entries)
    (same : stored.id = entry.id) (equal : (stored == entry) = true) :
    (ledger.append authority entry).2.status ≠ .duplicateConflict := by
  rcases consistent.index_of_mem member with ⟨position, indexed, located⟩
  rw [same] at indexed
  unfold Ledger.append
  cases content : contentIsValid entry with
  | false => simp
  | true =>
      by_cases verdict : authorityVerdict authority entry = .accept
      · simp [verdict, indexed, located, equal]
      · simp [verdict]

end Ledger

/-- The fingerprint depends on an entry through its encoding. -/
theorem ledgerFingerprint_congr {left right : LedgerEntry}
    (same : encodeEntry left = encodeEntry right) (front back : List LedgerEntry) :
    ledgerFingerprint (front ++ left :: back) = ledgerFingerprint (front ++ right :: back) := by
  have step : ∀ mix, fingerprintEntry mix left = fingerprintEntry mix right := by
    intro mix
    rw [fingerprintEntry, same, fingerprintEntry]
  simp only [ledgerFingerprint, List.foldl_append, List.foldl_cons, step]

/-- Equality and encoding.  Two entries that were encoded without skipping a
string have one encoding exactly when `operator==` holds and their quantities
have the same bits; where `operator==` holds and the bits differ, both are zero.
In every ledger that appends lead to, a duplicate agrees with a stored entry of
its identity, and has its encoding and its fingerprint if the bits are the same;
an entry with the encoding of a stored one is never a conflict. -/
theorem encoding_agrees_iff :
    (∀ (a b : LedgerEntry) (first second : List UInt8), encodeEntry a = some first →
      encodeEntry b = some second → ShortPairs a.metadata.toList → ShortPairs b.metadata.toList →
      (first = second ↔ (a == b) = true ∧ a.quantity.value.bits = b.quantity.value.bits) ∧
      ((a == b) = true → a.quantity.value.bits ≠ b.quantity.value.bits →
        a.quantity.value.isZero = true ∧ b.quantity.value.isZero = true)) ∧
    (∀ (id : LedgerId) (calls : List Ledger.Call) (authority : Option AuthorityState)
      (e : LedgerEntry),
      let ledger := Ledger.appends.run { id := id } calls
      ((ledger.append authority e).2.status = .duplicate →
        ∃ stored ∈ ledger.entries, stored.id = e.id ∧ (stored == e) = true ∧
          (stored.quantity.value.bits = e.quantity.value.bits →
            encodeEntry stored = encodeEntry e ∧
            ∀ front back, ledgerFingerprint (front ++ e :: back) =
              ledgerFingerprint (front ++ stored :: back))) ∧
      (∀ stored ∈ ledger.entries, ∀ bytes, encodeEntry stored = some bytes →
        encodeEntry e = some bytes → ShortPairs stored.metadata.toList →
        ShortPairs e.metadata.toList →
        (ledger.append authority e).2.status ≠ .duplicateConflict)) := by
  constructor
  · intro a b first second firstEncoded secondEncoded firstShort secondShort
    have finite := ((encodeEntry_eq_some_iff a first).mp firstEncoded).1.finite
    refine ⟨⟨?_, ?_⟩, ?_⟩
    · rintro rfl
      have same := normalize_eq_of_encoded firstEncoded secondEncoded firstShort secondShort
      rcases (LedgerEntry.normalize_eq_iff_beq finite).mp same with ⟨equal, value⟩
      exact ⟨equal, congrArg Binary64.bits value⟩
    · rintro ⟨equal, bits⟩
      have same := (LedgerEntry.normalize_eq_iff_beq finite).mpr ⟨equal, congrArg Binary64.mk bits⟩
      rw [encodeEntry_congr same, secondEncoded] at firstEncoded
      exact (Option.some.inj firstEncoded).symm
    · intro equal different
      rcases LedgerEntry.value_of_beq equal with value | zeros
      · exact (different (congrArg Binary64.bits value)).elim
      · exact zeros
  · intro id calls authority e ledger
    have consistent : ledger.Consistent :=
      Ledger.appends_consistent (Ledger.consistent_empty id) calls
    constructor
    · intro duplicate
      rcases consistent.stored_of_duplicate duplicate with ⟨stored, member, sameId, equal⟩
      refine ⟨stored, member, sameId, equal, ?_⟩
      intro bits
      have finite := isFinite_of_contentIsValid (consistent.valid stored member)
      have same := encodeEntry_congr
        ((LedgerEntry.normalize_eq_iff_beq finite).mpr ⟨equal, congrArg Binary64.mk bits⟩)
      exact ⟨same, ledgerFingerprint_congr same.symm⟩
    · intro stored member bytes storedEncoded encoded storedShort short
      have finite := isFinite_of_contentIsValid (consistent.valid stored member)
      have same := normalize_eq_of_encoded storedEncoded encoded storedShort short
      have equal := ((LedgerEntry.normalize_eq_iff_beq finite).mp same).1
      have sameId : stored.normalize.id = e.normalize.id := congrArg LedgerEntry.id same
      exact consistent.no_conflict authority member sameId equal

/-- An entry whose quantity is the negative zero. -/
def negativeZero : LedgerEntry := { quantity := { value := ⟨0x8000000000000000⟩ } }

/-- The two zeros agree and are encoded differently. -/
theorem zeros_encoded_apart :
    ¬ ∀ (a b : LedgerEntry) (first second : List UInt8), encodeEntry a = some first →
      encodeEntry b = some second → (entryPayload a).length < 2 ^ 32 →
      (entryPayload b).length < 2 ^ 32 → ((a == b) = true ↔ first = second) := by
  intro agree
  have negative : Encodable negativeZero :=
    ⟨by decide +kernel, by decide +kernel, by decide +kernel, by decide +kernel⟩
  have encoded := encodable_default.encoded
  have negativeEncoded := negative.encoded
  have same := (agree _ _ _ _ encoded negativeEncoded (by decide +kernel) (by decide +kernel)).mp
    (by decide +kernel)
  rw [← same] at negativeEncoded
  have kept := normalize_eq_of_encoded encoded negativeEncoded (by decide +kernel) (by decide +kernel)
  exact absurd (congrArg (fun e => e.quantity.value) kept) (by decide +kernel)

end InferenceLedger
