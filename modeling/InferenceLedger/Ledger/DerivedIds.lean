import InferenceLedger.Record.Mixer
import InferenceLedger.Ledger.Append

namespace InferenceLedger

open Foundation Std

/-!
# Derived identities

An entry that comes without an identity can be given one, derived from what it
says.  Not every field is fed to the mixer.  Three identities are folded into
one word, and six are fed as two words, whose differences can cancel each other.
A lone change is therefore certain to change the derived identity only where it
reaches the mixer as one word, or as two whose lowest differences are at
different places.

`ComparedField` lists what `operator==` compares.  Two entries that agree in the
quantity may still feed different words for it, since the two zeros compare
equal; this difference is in the highest bit.
-/

/-- The two words of an identity, folded into one. -/
def Id128.folded {tag : IdTag} (id : Id128 tag) : UInt64 := id.hi ^^^ id.lo

def deriveEntryId (e : LedgerEntry) : LedgerEntryId :=
  let m : Mixer := {}
  let m := m.feedId e.ledger
  let m := m.feedId e.tenant
  let m := m.feedId e.workload
  let m := m.feedId e.request
  let m := m.feedId e.model
  let m := m.feedId e.modelRevision
  let m := m.feed e.eventKind.toByte.toUInt64
  let m := m.feed e.resourceKind.toByte.toUInt64
  let m := m.feed e.source.worker.folded
  let m := m.feed e.source.boot.folded
  let m := m.feed e.source.accountingGeneration.value
  let m := m.feed e.authority.epoch.value
  let m := m.feed e.authority.accountingGeneration.value
  let m := m.feed e.authority.requestGeneration.value
  let m := m.feed e.authority.attemptGeneration.value
  let m := m.feed e.authority.attempt.folded
  let m := m.feed e.startTsNs
  let m := m.feed e.quantity.value.bits
  ⟨m.hi, m.lo⟩

/-! ## The compared fields -/

/-- The fields that `operator==` compares, other than `id`. -/
inductive ComparedField where
  | ledger | tenant | workload | request | model | modelRevision | hasAdapter | adapter
  | attempt | dispatch | worker | node | device | eventKind | resourceKind
  | quantityValue | quantityUnit | quantityProvenance | startTsNs | endTsNs | hasEnd
  | sourceWorker | sourceBoot | sourceAccountingGeneration
  | epoch | workerBoot | requestGeneration | accountingGeneration
  | authorityAttempt | attemptGeneration | authorityDispatch
  | hasAccountingPolicy | accountingPolicy | hasPricingPolicy | pricingPolicy | metadata
deriving DecidableEq

namespace ComparedField

/-- The conjunct of `operator==` for the field. -/
def agrees : ComparedField → LedgerEntry → LedgerEntry → Bool
  | ledger, x, y => x.ledger == y.ledger
  | tenant, x, y => x.tenant == y.tenant
  | workload, x, y => x.workload == y.workload
  | request, x, y => x.request == y.request
  | model, x, y => x.model == y.model
  | modelRevision, x, y => x.modelRevision == y.modelRevision
  | hasAdapter, x, y => x.hasAdapter == y.hasAdapter
  | adapter, x, y => !x.hasAdapter || x.adapter == y.adapter
  | attempt, x, y => x.attempt == y.attempt
  | dispatch, x, y => x.dispatch == y.dispatch
  | worker, x, y => x.worker == y.worker
  | node, x, y => x.node == y.node
  | device, x, y => x.device == y.device
  | eventKind, x, y => x.eventKind == y.eventKind
  | resourceKind, x, y => x.resourceKind == y.resourceKind
  | quantityValue, x, y => x.quantity.value.equals y.quantity.value
  | quantityUnit, x, y => x.quantity.unit == y.quantity.unit
  | quantityProvenance, x, y => x.quantity.provenance == y.quantity.provenance
  | startTsNs, x, y => x.startTsNs == y.startTsNs
  | endTsNs, x, y => x.endTsNs == y.endTsNs
  | hasEnd, x, y => x.hasEnd == y.hasEnd
  | sourceWorker, x, y => x.source.worker == y.source.worker
  | sourceBoot, x, y => x.source.boot == y.source.boot
  | sourceAccountingGeneration, x, y =>
      x.source.accountingGeneration == y.source.accountingGeneration
  | epoch, x, y => x.authority.epoch == y.authority.epoch
  | workerBoot, x, y => x.authority.workerBoot == y.authority.workerBoot
  | requestGeneration, x, y => x.authority.requestGeneration == y.authority.requestGeneration
  | accountingGeneration, x, y =>
      x.authority.accountingGeneration == y.authority.accountingGeneration
  | authorityAttempt, x, y => x.authority.attempt == y.authority.attempt
  | attemptGeneration, x, y => x.authority.attemptGeneration == y.authority.attemptGeneration
  | authorityDispatch, x, y => x.authority.dispatch == y.authority.dispatch
  | hasAccountingPolicy, x, y => x.hasAccountingPolicy == y.hasAccountingPolicy
  | accountingPolicy, x, y => !x.hasAccountingPolicy || x.accountingPolicy == y.accountingPolicy
  | hasPricingPolicy, x, y => x.hasPricingPolicy == y.hasPricingPolicy
  | pricingPolicy, x, y => !x.hasPricingPolicy || x.pricingPolicy == y.pricingPolicy
  | metadata, x, y => x.metadata.toList == y.metadata.toList

/-- The fields in the order of `operator==`. -/
def all : List ComparedField :=
  [ledger, tenant, workload, request, model, modelRevision, hasAdapter, adapter, attempt, dispatch,
    worker, node, device, eventKind, resourceKind, quantityValue, quantityUnit, quantityProvenance,
    startTsNs, endTsNs, hasEnd, sourceWorker, sourceBoot, sourceAccountingGeneration, epoch,
    workerBoot, requestGeneration, accountingGeneration, authorityAttempt, attemptGeneration,
    authorityDispatch, hasAccountingPolicy, accountingPolicy, hasPricingPolicy, pricingPolicy,
    metadata]

/-- `operator==` is agreement in `id` and in every compared field. -/
theorem beq_iff_agrees (x y : LedgerEntry) :
    (x == y) = true ↔ x.id = y.id ∧ ∀ field : ComparedField, field.agrees x y = true := by
  have listed : (x == y) = (x.id == y.id && all.all fun field => field.agrees x y) := by
    change x.operatorEq y = _
    simp only [LedgerEntry.operatorEq, all, List.all_cons, List.all_nil, agrees, Bool.and_true,
      Bool.and_assoc]
  rw [listed, Bool.and_eq_true, beq_iff_eq, List.all_eq_true]
  apply and_congr_right
  intro _
  constructor
  · intro every field
    apply every
    cases field <;> simp [all]
  · exact fun every field _ => every field

/-- The words that are fed to the mixer for the field. -/
def words : ComparedField → LedgerEntry → List UInt64
  | ledger, e => [e.ledger.hi, e.ledger.lo]
  | tenant, e => [e.tenant.hi, e.tenant.lo]
  | workload, e => [e.workload.hi, e.workload.lo]
  | request, e => [e.request.hi, e.request.lo]
  | model, e => [e.model.hi, e.model.lo]
  | modelRevision, e => [e.modelRevision.hi, e.modelRevision.lo]
  | eventKind, e => [e.eventKind.toByte.toUInt64]
  | resourceKind, e => [e.resourceKind.toByte.toUInt64]
  | sourceWorker, e => [e.source.worker.folded]
  | sourceBoot, e => [e.source.boot.folded]
  | sourceAccountingGeneration, e => [e.source.accountingGeneration.value]
  | epoch, e => [e.authority.epoch.value]
  | accountingGeneration, e => [e.authority.accountingGeneration.value]
  | requestGeneration, e => [e.authority.requestGeneration.value]
  | attemptGeneration, e => [e.authority.attemptGeneration.value]
  | authorityAttempt, e => [e.authority.attempt.folded]
  | startTsNs, e => [e.startTsNs]
  | quantityValue, e => [e.quantity.value.bits]
  | _, _ => []

/-- The fields that are fed before the quantity, in their order. -/
def fedFirst : List ComparedField :=
  [ledger, tenant, workload, request, model, modelRevision, eventKind, resourceKind, sourceWorker,
    sourceBoot, sourceAccountingGeneration, epoch, accountingGeneration, requestGeneration,
    attemptGeneration, authorityAttempt, startTsNs]

end ComparedField

/-- The mixer before it is fed with the quantity. -/
def mixedFirst (e : LedgerEntry) : Mixer :=
  (ComparedField.fedFirst.flatMap fun field => field.words e).foldl Mixer.feed {}

theorem deriveEntryId_eq (e : LedgerEntry) :
    deriveEntryId e =
      ⟨((mixedFirst e).feed e.quantity.value.bits).hi,
        ((mixedFirst e).feed e.quantity.value.bits).lo⟩ := rfl

/-- The two entries differ in this field and agree in all others. -/
structure DiffersOnlyIn (field : ComparedField) (x y : LedgerEntry) : Prop where
  differs : field.agrees x y = false
  same : ∀ other, other ≠ field → other.agrees x y = true

/-! ## From fields to words -/

section Words

variable {field : ComparedField} {x y : LedgerEntry}

theorem words_eq_of_agrees (agrees : field.agrees x y = true) (other : field ≠ .quantityValue) :
    field.words x = field.words y := by
  cases field <;> simp_all [ComparedField.agrees, ComparedField.words]

/-- Doubles that compare equal differ at most in the sign of a zero. -/
theorem agree_bits_of_equals {left right : Binary64} (same : left.equals right = true) :
    Mixer.Agree 63 left.bits right.bits := by
  have low : ∀ word : Binary64, word.isZero = true → word.bits.toNat % 2 ^ 63 = 0 := by
    intro word zero
    simp only [Binary64.isZero, Binary64.exponent, Binary64.fraction, Bool.and_eq_true,
      beq_iff_eq] at zero
    omega
  simp only [Binary64.equals, Bool.and_eq_true, Bool.or_eq_true, beq_iff_eq] at same
  rcases same.2 with bits | ⟨leftZero, rightZero⟩
  · exact .of_eq (congrArg UInt64.toBitVec bits)
  · exact (low left leftZero).trans (low right rightZero).symm

theorem flatMap_words_eq {fields : List ComparedField}
    (same : ∀ other ∈ fields, other.words x = other.words y) :
    (fields.flatMap fun other => other.words x) = fields.flatMap fun other => other.words y := by
  rw [List.flatMap_def, List.flatMap_def, List.map_congr_left same]

theorem mixedFirst_eq (same : ∀ other ∈ ComparedField.fedFirst, other.words x = other.words y) :
    mixedFirst x = mixedFirst y := by
  rw [mixedFirst, mixedFirst, flatMap_words_eq same]

/-- Twenty-three words are fed before the quantity. -/
theorem length_words_le {before after : List ComparedField}
    (split : ComparedField.fedFirst = before ++ field :: after) (e : LedgerEntry) :
    (after.flatMap fun other => other.words e).length ≤ 23 := by
  have total : (ComparedField.fedFirst.flatMap fun other => other.words e).length = 23 := rfl
  rw [split, List.flatMap_append, List.flatMap_cons, List.length_append, List.length_append] at total
  omega

/-- The mixer along a split of the fields. -/
theorem mixer_split {before after : List ComparedField}
    (split : ComparedField.fedFirst = before ++ field :: after) (e : LedgerEntry) :
    (mixedFirst e).feed e.quantity.value.bits =
      ((after.flatMap fun other => other.words e) ++ [e.quantity.value.bits]).foldl Mixer.feed
        ((field.words e).foldl Mixer.feed
          ((before.flatMap fun other => other.words e).foldl Mixer.feed {})) := by
  rw [mixedFirst, split, List.flatMap_append, List.flatMap_cons, List.foldl_append,
    List.foldl_append, List.foldl_append]
  rfl

theorem deriveEntryId_ne {m m' : Mixer} (different : m ≠ m') :
    (⟨m.hi, m.lo⟩ : LedgerEntryId) ≠ ⟨m'.hi, m'.lo⟩ := by
  intro same
  cases m
  cases m'
  cases same
  exact different rfl

/-- What is fed before the quantity for the other fields is the same. -/
theorem DiffersOnlyIn.words_eq (only : DiffersOnlyIn field x y) {other : ComparedField}
    (member : other ∈ ComparedField.fedFirst) (different : other ≠ field) :
    other.words x = other.words y := by
  refine words_eq_of_agrees (only.same other different) ?_
  rintro rfl
  exact absurd member (by decide)

/-- Differences in the words of the one field that cannot cancel are not made up
for by the others, which are the same up to the sign of a zero. -/
theorem ids_ne_of_wordsSeparated (only : DiffersOnlyIn field x y)
    (fed : field ∈ ComparedField.fedFirst)
    (separated : Mixer.WordsSeparated (field.words x) (field.words y)) :
    deriveEntryId x ≠ deriveEntryId y := by
  rcases List.append_of_mem fed with ⟨before, after, split⟩
  have distinct : (before ++ field :: after).Nodup := by
    rw [← split]
    decide
  have alone : field ∉ before ++ after := (List.nodup_cons.mp (List.nodup_middle.mp distinct)).1
  have known : ∀ other ∈ before ++ after, other.words x = other.words y := by
    intro other member
    have early : other ∈ ComparedField.fedFirst := by
      rw [split]
      rcases List.mem_append.mp member with front | back
      · exact List.mem_append_left _ front
      · exact List.mem_append_right _ (List.mem_cons_of_mem _ back)
    refine only.words_eq early ?_
    rintro rfl
    exact alone member
  have lead := flatMap_words_eq fun other member => known other (List.mem_append_left _ member)
  have tail := flatMap_words_eq fun other member => known other (List.mem_append_right _ member)
  have quantity : Mixer.Agree 63 x.quantity.value.bits y.quantity.value.bits := by
    refine agree_bits_of_equals (only.same .quantityValue ?_)
    rintro rfl
    exact absurd fed (by decide)
  have low : Mixer.SameLow ((after.flatMap fun other => other.words x) ++ [x.quantity.value.bits])
      ((after.flatMap fun other => other.words y) ++ [y.quantity.value.bits]) := by
    rw [tail]
    exact List.rel_append (List.forall₂_same.mpr fun _ _ => .of_eq rfl) (.cons quantity .nil)
  rw [deriveEntryId_eq, deriveEntryId_eq]
  apply deriveEntryId_ne
  rw [mixer_split split, mixer_split split, lead]
  apply Mixer.Apart.ne
  apply Mixer.Apart.feed_all low
  apply Mixer.apart_of_wordsSeparated _ separated
  have short := length_words_le split x
  rw [List.length_append, List.length_singleton]
  omega

end Words

/-! ## Lone changes -/

/-- The lowest differences of the two words are not at the same place; in
particular, the identities may differ in one of their words only. -/
def Id128.WordsApart {tag : IdTag} (x y : Id128 tag) : Prop :=
  Mixer.PlacesDiffer x.hi y.hi x.lo y.lo

namespace ComparedField

/-- When a lone change of the field is certain to reach the derived identity. -/
def Separated : ComparedField → LedgerEntry → LedgerEntry → Prop
  | eventKind, _, _ => True
  | resourceKind, _, _ => True
  | sourceAccountingGeneration, _, _ => True
  | epoch, _, _ => True
  | accountingGeneration, _, _ => True
  | requestGeneration, _, _ => True
  | attemptGeneration, _, _ => True
  | startTsNs, _, _ => True
  | sourceWorker, x, y => x.source.worker.folded ≠ y.source.worker.folded
  | sourceBoot, x, y => x.source.boot.folded ≠ y.source.boot.folded
  | authorityAttempt, x, y => x.authority.attempt.folded ≠ y.authority.attempt.folded
  | quantityValue, x, y => x.quantity.value.bits ≠ y.quantity.value.bits
  | ledger, x, y => x.ledger.WordsApart y.ledger
  | tenant, x, y => x.tenant.WordsApart y.tenant
  | workload, x, y => x.workload.WordsApart y.workload
  | request, x, y => x.request.WordsApart y.request
  | model, x, y => x.model.WordsApart y.model
  | modelRevision, x, y => x.modelRevision.WordsApart y.modelRevision
  | _, _, _ => False

/-- The fields that reach the mixer as one word. -/
def oneWord : List ComparedField :=
  [eventKind, resourceKind, sourceWorker, sourceBoot, sourceAccountingGeneration, epoch,
    accountingGeneration, requestGeneration, attemptGeneration, authorityAttempt, startTsNs,
    quantityValue]

end ComparedField

/-- After an entry was appended under its derived identity, another one under
its own is not taken for a conflict, unless that identity was there before. -/
def NeverConflated (x y : LedgerEntry) : Prop :=
  ∀ (ledger : Ledger) (first second : Option AuthorityState),
    ledger.index[deriveEntryId y]? = none →
    ((ledger.append first { x with id := deriveEntryId x }).1.append second
      { y with id := deriveEntryId y }).2.status ≠ .duplicateConflict

theorem Ledger.append_of_fresh {ledger : Ledger} {authority : Option AuthorityState}
    {entry : LedgerEntry} (fresh : ledger.index[entry.id]? = none) :
    (ledger.append authority entry).2.status ≠ .duplicateConflict := by
  unfold Ledger.append
  split
  · simp
  · simp only [fresh]
    split <;> simp

theorem neverConflated_of_ne {x y : LedgerEntry} (different : deriveEntryId x ≠ deriveEntryId y) :
    NeverConflated x y := by
  intro ledger first second fresh
  apply Ledger.append_of_fresh
  rcases Ledger.append_cases ledger first { x with id := deriveEntryId x } with
    ⟨-, stored⟩ | ⟨-, unchanged, -⟩
  · rw [stored, Ledger.store_index, ExtTreeMap.getElem?_insert]
    simp [different, fresh]
  · rw [unchanged]
    exact fresh

section Separation

variable {field : ComparedField} {x y : LedgerEntry}

/-- A kind is recovered from its wire value, also when that is widened. -/
theorem EventKind.eq_of_toByte {left right : EventKind}
    (same : left.toByte.toUInt64 = right.toByte.toUInt64) : left = right :=
  toByte_inj (UInt8.toUInt64_inj.mp same)

theorem ResourceKind.eq_of_toByte {left right : ResourceKind}
    (same : left.toByte.toUInt64 = right.toByte.toUInt64) : left = right :=
  toByte_inj (UInt8.toUInt64_inj.mp same)

theorem Generation.ne_value {tag : GenerationTag} {left right : Generation tag}
    (differs : (left == right) = false) : left.value ≠ right.value := by
  intro same
  rw [beq_eq_false_iff_ne] at differs
  cases left
  cases right
  exact differs (congrArg Generation.mk same)

theorem Id128.ne_words {tag : IdTag} {left right : Id128 tag}
    (differs : (left == right) = false) : left.hi ≠ right.hi ∨ left.lo ≠ right.lo := by
  rw [beq_eq_false_iff_ne] at differs
  by_contra same
  rw [not_or, not_not, not_not] at same
  cases left
  cases right
  exact differs (Id128.mk.injEq .. ▸ same)

/-- The words of a field whose change is certain to be seen. -/
theorem wordsSeparated_of_separated (differs : field.agrees x y = false)
    (separated : field.Separated x y) :
    Mixer.WordsSeparated (field.words x) (field.words y) := by
  cases field with
  | eventKind => exact fun same => beq_eq_false_iff_ne.mp differs (EventKind.eq_of_toByte same)
  | resourceKind =>
      exact fun same => beq_eq_false_iff_ne.mp differs (ResourceKind.eq_of_toByte same)
  | startTsNs => exact beq_eq_false_iff_ne.mp differs
  | sourceAccountingGeneration => exact Generation.ne_value differs
  | epoch => exact Generation.ne_value differs
  | accountingGeneration => exact Generation.ne_value differs
  | requestGeneration => exact Generation.ne_value differs
  | attemptGeneration => exact Generation.ne_value differs
  | sourceWorker => exact separated
  | sourceBoot => exact separated
  | authorityAttempt => exact separated
  | quantityValue => exact separated
  | ledger => exact ⟨Id128.ne_words differs, separated⟩
  | tenant => exact ⟨Id128.ne_words differs, separated⟩
  | workload => exact ⟨Id128.ne_words differs, separated⟩
  | request => exact ⟨Id128.ne_words differs, separated⟩
  | model => exact ⟨Id128.ne_words differs, separated⟩
  | modelRevision => exact ⟨Id128.ne_words differs, separated⟩
  | _ => exact separated.elim

/-- Either the field is fed before the quantity, or it is the quantity. -/
theorem fed_of_separated (separated : field.Separated x y) :
    field ∈ ComparedField.fedFirst ∨ field = .quantityValue := by
  cases field with
  | quantityValue => exact Or.inr rfl
  | _ => first | exact separated.elim | exact Or.inl (by decide)

/-- The quantity is the last word, so a change of its bits is always seen when
everything else is the same. -/
theorem ids_ne_iff_bits (same : ∀ other ∈ ComparedField.fedFirst, other.words x = other.words y) :
    deriveEntryId x ≠ deriveEntryId y ↔ x.quantity.value.bits ≠ y.quantity.value.bits := by
  rw [deriveEntryId_eq, deriveEntryId_eq, mixedFirst_eq same]
  constructor
  · intro different bits
    exact different (by rw [bits])
  · intro bits
    apply deriveEntryId_ne
    have apart : Mixer.Apart 0 ((mixedFirst y).feed x.quantity.value.bits)
        ((mixedFirst y).feed y.quantity.value.bits) := Mixer.apart_of_word _ bits (by decide)
    exact apart.ne

theorem same_words_of_differsOnlyIn (only : DiffersOnlyIn field x y)
    (own : field ∈ ComparedField.fedFirst → field.words x = field.words y) :
    ∀ other ∈ ComparedField.fedFirst, other.words x = other.words y := by
  intro other member
  by_cases itself : other = field
  · subst itself
    exact own member
  · exact only.words_eq member itself

theorem ids_ne_of_separated (only : DiffersOnlyIn field x y) (separated : field.Separated x y) :
    deriveEntryId x ≠ deriveEntryId y := by
  rcases fed_of_separated separated with fed | rfl
  · exact ids_ne_of_wordsSeparated only fed (wordsSeparated_of_separated only.differs separated)
  · refine (ids_ne_iff_bits (same_words_of_differsOnlyIn only fun fed => ?_)).mpr separated
    exact absurd fed (by decide)

/-- A field that is fed as one word, and whose change is not certain to be seen,
is fed as the same word. -/
theorem words_eq_of_not_separated (single : field ∈ ComparedField.oneWord)
    (unseparated : ¬ field.Separated x y) : field.words x = field.words y := by
  cases field with
  | sourceWorker => exact congrArg (fun word => [word]) (not_not.mp unseparated)
  | sourceBoot => exact congrArg (fun word => [word]) (not_not.mp unseparated)
  | authorityAttempt => exact congrArg (fun word => [word]) (not_not.mp unseparated)
  | quantityValue => exact congrArg (fun word => [word]) (not_not.mp unseparated)
  | _ => first | exact (unseparated trivial).elim | exact absurd single (by decide)

/-- A lone change that is certain to be seen gives another derived identity, so
the two entries are not conflated.  For the fields that are fed as one word, the
derived identities differ in no other case, up to the sign of a zero. -/
theorem derived_ids_separate (only : DiffersOnlyIn field x y) :
    (field.Separated x y → deriveEntryId x ≠ deriveEntryId y ∧ NeverConflated x y) ∧
      (field ∈ ComparedField.oneWord →
        (deriveEntryId x ≠ deriveEntryId y ↔
          field.Separated x y ∨ x.quantity.value.bits ≠ y.quantity.value.bits)) := by
  constructor
  · intro separated
    have different := ids_ne_of_separated only separated
    exact ⟨different, neverConflated_of_ne different⟩
  · intro single
    by_cases separated : field.Separated x y
    · exact iff_of_true (ids_ne_of_separated only separated) (Or.inl separated)
    · rw [or_iff_right separated]
      apply ids_ne_iff_bits
      exact same_words_of_differsOnlyIn only fun _ => words_eq_of_not_separated single separated

end Separation

/-- Both words of the request change, at bit one and at bit zero. -/
theorem requests_told_apart : deriveEntryId {} ≠ deriveEntryId { request := ⟨2, 1⟩ } := by
  have only : DiffersOnlyIn .request {} { request := ⟨2, 1⟩ } := by
    refine ⟨by decide, fun other different => ?_⟩
    cases other <;> first | rfl | exact (different rfl).elim
  have places : Mixer.PlacesDiffer 0 2 0 1 := by decide
  exact ((derived_ids_separate only).1 places).1

-- Both words of the request change at bit zero, and the changes cancel.
example : deriveEntryId {} =
    deriveEntryId { request := ⟨0xD07E875C423888BD, 0x368590C1C017B651⟩ } := by decide +kernel

/-- The workers `⟨0, 0⟩` and `⟨1, 1⟩` are folded into the same word. -/
theorem folded_workers_conflated :
    ¬ ∀ (field : ComparedField) (x y : LedgerEntry),
      DiffersOnlyIn field x y → deriveEntryId x ≠ deriveEntryId y := by
  intro claim
  have only : DiffersOnlyIn .sourceWorker {} { source := { worker := ⟨1, 1⟩ } } := by
    refine ⟨by decide, fun other different => ?_⟩
    cases other <;> first | rfl | exact (different rfl).elim
  exact claim .sourceWorker _ _ only (by decide +kernel)

end InferenceLedger
