import InferenceLedger.Foundation.Binary64
import InferenceLedger.Record.Identity

namespace InferenceLedger

open Foundation Std

/-!
# Ledger entries

One entry is a single accounting fact: who measured what for which attempt of
which request, under which authority.  The enumerations carry their wire
values, which are never renumbered.  In the source they are a byte wide, and an
object of such a type may hold a byte that has no enumerator; each type has a
last constructor for these bytes.

`operator==` on entries is not equality of all fields.  The three optional
identities are compared only where their flag is set, and quantities are
compared as doubles, so the two zeros agree and a NaN agrees with nothing.
The instance below follows the source; `Agrees` says in one proposition what
it means.
-/

/-- A C++ `std::string`: bytes, ordered as unsigned characters. -/
abbrev ByteString := List UInt8

/-- The bytes of a string literal of the source. -/
def ByteString.ofString (text : String) : ByteString := text.toUTF8.toList

/-- `enum class EventKind : std::uint8_t`. -/
inductive EventKind where
  | requestStart | requestEnd | queue | batchWait | prefill | decode
  | speculationProposed | speculationAccepted | speculationRejected
  | gpuExecution | cpuExecution
  | kvAllocate | kvRelease | kvReuse
  | tensorAllocate | tensorRelease | tensorReuse
  | modelResidency | adapterResidency
  | kernelHit | kernelMiss | graphHit | graphMiss
  | transferH2D | transferD2H | transferInterNode
  | cacheRead | cacheWrite | reserve | release | retry | failure | cancellation
  | recompute | reuseAvoided | energy | costAdjustment
  | unlisted (byte : UInt8) (outside : ¬ (1 ≤ byte ∧ byte ≤ 37))
deriving DecidableEq

namespace EventKind

/-- The byte of a kind, which is its wire value. -/
def toByte : EventKind → UInt8
  | requestStart => 1
  | requestEnd => 2
  | queue => 3
  | batchWait => 4
  | prefill => 5
  | decode => 6
  | speculationProposed => 7
  | speculationAccepted => 8
  | speculationRejected => 9
  | gpuExecution => 10
  | cpuExecution => 11
  | kvAllocate => 12
  | kvRelease => 13
  | kvReuse => 14
  | tensorAllocate => 15
  | tensorRelease => 16
  | tensorReuse => 17
  | modelResidency => 18
  | adapterResidency => 19
  | kernelHit => 20
  | kernelMiss => 21
  | graphHit => 22
  | graphMiss => 23
  | transferH2D => 24
  | transferD2H => 25
  | transferInterNode => 26
  | cacheRead => 27
  | cacheWrite => 28
  | reserve => 29
  | release => 30
  | retry => 31
  | failure => 32
  | cancellation => 33
  | recompute => 34
  | reuseAvoided => 35
  | energy => 36
  | costAdjustment => 37
  | unlisted byte _ => byte

/-- All enumerators in the order of their wire values. -/
def all : List EventKind :=
  [requestStart, requestEnd, queue, batchWait, prefill, decode, speculationProposed,
    speculationAccepted, speculationRejected, gpuExecution, cpuExecution, kvAllocate, kvRelease,
    kvReuse, tensorAllocate, tensorRelease, tensorReuse, modelResidency, adapterResidency,
    kernelHit, kernelMiss, graphHit, graphMiss, transferH2D, transferD2H, transferInterNode,
    cacheRead, cacheWrite, reserve, release, retry, failure, cancellation, recompute,
    reuseAvoided, energy, costAdjustment]

/-- The cast from a byte. -/
def ofByte (value : UInt8) : EventKind :=
  if listed : 1 ≤ value ∧ value ≤ 37 then
    (all.find? (fun kind => kind.toByte == value)).getD .requestStart
  else .unlisted value listed

@[simp] theorem ofByte_toByte (kind : EventKind) : ofByte kind.toByte = kind := by
  cases kind with
  | unlisted byte outside => exact dif_neg outside
  | _ => rfl

theorem toByte_inj {left right : EventKind} (same : left.toByte = right.toByte) : left = right := by
  rw [← ofByte_toByte left, same, ofByte_toByte]

end EventKind

/-- `enum class ResourceKind : std::uint8_t`. -/
inductive ResourceKind where
  | compute | memory | kv | tensor | transfer | residency | cache | energy | cost | generic
  | unlisted (byte : UInt8) (outside : ¬ (1 ≤ byte ∧ byte ≤ 10))
deriving DecidableEq

namespace ResourceKind

def toByte : ResourceKind → UInt8
  | compute => 1
  | memory => 2
  | kv => 3
  | tensor => 4
  | transfer => 5
  | residency => 6
  | cache => 7
  | energy => 8
  | cost => 9
  | generic => 10
  | unlisted byte _ => byte

def all : List ResourceKind :=
  [compute, memory, kv, tensor, transfer, residency, cache, energy, cost, generic]

def ofByte (value : UInt8) : ResourceKind :=
  if listed : 1 ≤ value ∧ value ≤ 10 then
    (all.find? (fun kind => kind.toByte == value)).getD .generic
  else .unlisted value listed

@[simp] theorem ofByte_toByte (kind : ResourceKind) : ofByte kind.toByte = kind := by
  cases kind with
  | unlisted byte outside => exact dif_neg outside
  | _ => rfl

theorem toByte_inj {left right : ResourceKind} (same : left.toByte = right.toByte) :
    left = right := by
  rw [← ofByte_toByte left, same, ofByte_toByte]

/-- `is_physical_resource`, and the same test spelled out in
`Ledger::content_is_valid`: every enumerator but `Cost` and `Generic`. -/
def isPhysical (kind : ResourceKind) : Bool :=
  kind == compute || kind == memory || kind == kv || kind == tensor || kind == transfer ||
    kind == residency || kind == cache || kind == energy

end ResourceKind

/-- `enum class Unit : std::uint8_t`. -/
inductive MeasureUnit where
  | count | bytes | byteSeconds | seconds | nanoseconds | energyJoule | energyWh | currency
  | dimensionless
  | unlisted (byte : UInt8) (outside : ¬ byte ≤ 8)
deriving DecidableEq

namespace MeasureUnit

def toByte : MeasureUnit → UInt8
  | count => 0
  | bytes => 1
  | byteSeconds => 2
  | seconds => 3
  | nanoseconds => 4
  | energyJoule => 5
  | energyWh => 6
  | currency => 7
  | dimensionless => 8
  | unlisted byte _ => byte

def all : List MeasureUnit :=
  [count, bytes, byteSeconds, seconds, nanoseconds, energyJoule, energyWh, currency, dimensionless]

def ofByte (value : UInt8) : MeasureUnit :=
  if listed : value ≤ 8 then (all.find? (fun unit => unit.toByte == value)).getD .dimensionless
  else .unlisted value listed

@[simp] theorem ofByte_toByte (unit : MeasureUnit) : ofByte unit.toByte = unit := by
  cases unit with
  | unlisted byte outside => exact dif_neg outside
  | _ => rfl

theorem toByte_inj {left right : MeasureUnit} (same : left.toByte = right.toByte) :
    left = right := by
  rw [← ofByte_toByte left, same, ofByte_toByte]

end MeasureUnit

/-- `enum class Provenance : std::uint8_t`: how a value was obtained. -/
inductive Provenance where
  | measured | reported | derived | estimated | reconstructed | unavailable
  | unlisted (byte : UInt8) (outside : ¬ byte ≤ 5)
deriving DecidableEq

namespace Provenance

def toByte : Provenance → UInt8
  | measured => 0
  | reported => 1
  | derived => 2
  | estimated => 3
  | reconstructed => 4
  | unavailable => 5
  | unlisted byte _ => byte

def all : List Provenance := [measured, reported, derived, estimated, reconstructed, unavailable]

def ofByte (value : UInt8) : Provenance :=
  if listed : value ≤ 5 then
    (all.find? (fun provenance => provenance.toByte == value)).getD .unavailable
  else .unlisted value listed

@[simp] theorem ofByte_toByte (provenance : Provenance) : ofByte provenance.toByte = provenance := by
  cases provenance with
  | unlisted byte outside => exact dif_neg outside
  | _ => rfl

theorem toByte_inj {left right : Provenance} (same : left.toByte = right.toByte) : left = right := by
  rw [← ofByte_toByte left, same, ofByte_toByte]

end Provenance

/-- A typed quantity: a double, its unit and its provenance. -/
@[ext] structure Quantity where
  value : Binary64 := {}
  unit : MeasureUnit := .dimensionless
  provenance : Provenance := .unavailable
deriving DecidableEq

namespace Quantity

def isFinite (quantity : Quantity) : Bool := quantity.value.isFinite

def isIntegral (quantity : Quantity) : Bool := quantity.value.isIntegral

end Quantity

/-- The identifiers that fence an accounting event. -/
@[ext] structure AuthorityEnvelope where
  epoch : CoordinatorEpoch := {}
  workerBoot : WorkerBootId := {}
  requestGeneration : RequestGeneration := {}
  accountingGeneration : AccountingGeneration := {}
  attempt : AttemptId := {}
  attemptGeneration : AttemptGeneration := {}
  dispatch : DispatchId := {}
deriving DecidableEq

/-- The actor that produced an event. -/
@[ext] structure SourceIdentity where
  worker : WorkerId := {}
  boot : WorkerBootId := {}
  accountingGeneration : AccountingGeneration := {}
deriving DecidableEq

/-- `std::map<std::string, std::string>`. -/
abbrev Metadata := ExtTreeMap ByteString ByteString

/-- One immutable record of the ledger. -/
@[ext] structure LedgerEntry where
  id : LedgerEntryId := {}
  ledger : LedgerId := {}
  tenant : TenantId := {}
  workload : WorkloadId := {}
  request : RequestId := {}
  model : ModelId := {}
  modelRevision : ModelRevisionId := {}
  hasAdapter : Bool := false
  adapter : AdapterId := {}
  attempt : AttemptId := {}
  dispatch : DispatchId := {}
  worker : WorkerId := {}
  node : NodeId := {}
  device : DeviceId := {}
  eventKind : EventKind := .requestStart
  resourceKind : ResourceKind := .generic
  quantity : Quantity := {}
  startTsNs : UInt64 := 0
  endTsNs : UInt64 := 0
  hasEnd : Bool := false
  source : SourceIdentity := {}
  authority : AuthorityEnvelope := {}
  hasAccountingPolicy : Bool := false
  accountingPolicy : AccountingPolicyId := {}
  hasPricingPolicy : Bool := false
  pricingPolicy : PricingPolicyId := {}
  metadata : Metadata := ∅

namespace LedgerEntry

/-- `LedgerEntry::operator==`, conjunct by conjunct. -/
def operatorEq (left right : LedgerEntry) : Bool :=
  left.id == right.id && left.ledger == right.ledger && left.tenant == right.tenant &&
  left.workload == right.workload && left.request == right.request &&
  left.model == right.model && left.modelRevision == right.modelRevision &&
  left.hasAdapter == right.hasAdapter &&
  (!left.hasAdapter || left.adapter == right.adapter) && left.attempt == right.attempt &&
  left.dispatch == right.dispatch && left.worker == right.worker && left.node == right.node &&
  left.device == right.device && left.eventKind == right.eventKind &&
  left.resourceKind == right.resourceKind &&
  left.quantity.value.equals right.quantity.value &&
  left.quantity.unit == right.quantity.unit &&
  left.quantity.provenance == right.quantity.provenance &&
  left.startTsNs == right.startTsNs && left.endTsNs == right.endTsNs &&
  left.hasEnd == right.hasEnd && left.source.worker == right.source.worker &&
  left.source.boot == right.source.boot &&
  left.source.accountingGeneration == right.source.accountingGeneration &&
  left.authority.epoch == right.authority.epoch &&
  left.authority.workerBoot == right.authority.workerBoot &&
  left.authority.requestGeneration == right.authority.requestGeneration &&
  left.authority.accountingGeneration == right.authority.accountingGeneration &&
  left.authority.attempt == right.authority.attempt &&
  left.authority.attemptGeneration == right.authority.attemptGeneration &&
  left.authority.dispatch == right.authority.dispatch &&
  left.hasAccountingPolicy == right.hasAccountingPolicy &&
  (!left.hasAccountingPolicy || left.accountingPolicy == right.accountingPolicy) &&
  left.hasPricingPolicy == right.hasPricingPolicy &&
  (!left.hasPricingPolicy || left.pricingPolicy == right.pricingPolicy) &&
  left.metadata.toList == right.metadata.toList

instance : BEq LedgerEntry := ⟨operatorEq⟩

/-- Duration in nanoseconds; zero for an instantaneous or reversed event. -/
def durationNs (entry : LedgerEntry) : UInt64 :=
  if entry.hasEnd then
    if entry.startTsNs ≤ entry.endTsNs then entry.endTsNs - entry.startTsNs else 0
  else 0

/-- The part of an entry that the sparse encoding keeps: an optional identity
whose flag is clear is reset to zero. -/
def normalize (entry : LedgerEntry) : LedgerEntry :=
  { entry with
    adapter := if entry.hasAdapter then entry.adapter else {}
    accountingPolicy := if entry.hasAccountingPolicy then entry.accountingPolicy else {}
    pricingPolicy := if entry.hasPricingPolicy then entry.pricingPolicy else {} }

/-- What `operator==` compares exactly: the kept fields, without the double. -/
def comparable (entry : LedgerEntry) : LedgerEntry :=
  { entry.normalize with quantity := { entry.quantity with value := {} } }

/-- A flag and its optional payload, as `operator==` compares them. -/
theorem optional_agrees_iff {α : Type} {leftFlag rightFlag : Bool} {left right fallback : α}
    {others : Prop} :
    (leftFlag = rightFlag ∧ (if leftFlag then left else fallback) =
        (if rightFlag then right else fallback) ∧ others) ↔
      leftFlag = rightFlag ∧ (leftFlag = false ∨ left = right) ∧ others := by
  cases leftFlag <;> cases rightFlag <;> simp

/-- `operator==` is equality of the kept fields together with equality of the
two doubles. -/
theorem beq_iff (left right : LedgerEntry) :
    (left == right) = true ↔
      left.comparable = right.comparable ∧
        left.quantity.value.equals right.quantity.value = true := by
  change operatorEq left right = true ↔ _
  simp only [operatorEq, Bool.and_eq_true, beq_iff_eq, Bool.or_eq_true, Bool.not_eq_true',
    ExtTreeMap.toList_inj, comparable, normalize, LedgerEntry.ext_iff, Quantity.ext_iff,
    SourceIdentity.ext_iff, AuthorityEnvelope.ext_iff, true_and, and_assoc, optional_agrees_iff]
  -- Both sides list the same conjuncts; only the place of the double differs.
  cases left.quantity.value.equals right.quantity.value with
  | false => simp only [Bool.false_eq_true, false_and, and_false]
  | true => simp only [true_and, and_true]

/-- An entry with a finite quantity agrees with itself. -/
theorem beq_self_of_isFinite (entry : LedgerEntry)
    (finite : entry.quantity.value.isFinite = true) : (entry == entry) = true :=
  (beq_iff entry entry).mpr ⟨rfl, Binary64.equals_self_of_isFinite finite⟩

/-- An entry with a finite quantity agrees with what the encoding keeps of it. -/
theorem normalize_beq (entry : LedgerEntry) (finite : entry.quantity.value.isFinite = true) :
    (entry.normalize == entry) = true := by
  apply (beq_iff _ _).mpr
  refine ⟨?_, Binary64.equals_self_of_isFinite finite⟩
  cases hasAdapter : entry.hasAdapter <;> cases hasAccounting : entry.hasAccountingPolicy <;>
    cases hasPricing : entry.hasPricingPolicy <;>
    simp [comparable, normalize, hasAdapter, hasAccounting, hasPricing]

end LedgerEntry

end InferenceLedger
