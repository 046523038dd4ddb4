import InferenceLedger.Foundation.BigEndian

namespace InferenceLedger

open Foundation Std

/-!
# Identities and generations

Every identity is 128 bits wide and carries a tag in its type, so a request
cannot be mistaken for a worker.  The tag has no run-time content.  Identities
are ordered by their high and then their low word; that order decides how the
maps of the runtime are traversed, and with it which of two attempts that
ended at the same instant is preferred.

Generations are 64-bit counters, tagged in the same way.  `next` wraps.
-/

/-- The kinds of identity that the modelled functions use. -/
inductive IdTag where
  | request | tenant | workload | model | modelRevision | adapter | batch | attempt | dispatch
  | worker | workerBoot | node | device | ledgerEntry | ledger | pricingPolicy | accountingPolicy
deriving DecidableEq

/-- A 128-bit identity, `Id128<Tag>`.  The default identity is zero. -/
structure Id128 (tag : IdTag) where
  hi : UInt64 := 0
  lo : UInt64 := 0
deriving DecidableEq

abbrev RequestId := Id128 .request
abbrev TenantId := Id128 .tenant
abbrev WorkloadId := Id128 .workload
abbrev ModelId := Id128 .model
abbrev ModelRevisionId := Id128 .modelRevision
abbrev AdapterId := Id128 .adapter
abbrev BatchId := Id128 .batch
abbrev AttemptId := Id128 .attempt
abbrev DispatchId := Id128 .dispatch
abbrev WorkerId := Id128 .worker
abbrev WorkerBootId := Id128 .workerBoot
abbrev NodeId := Id128 .node
abbrev DeviceId := Id128 .device
abbrev LedgerEntryId := Id128 .ledgerEntry
abbrev LedgerId := Id128 .ledger
abbrev PricingPolicyId := Id128 .pricingPolicy
abbrev AccountingPolicyId := Id128 .accountingPolicy

namespace Id128

variable {tag : IdTag}

def isZero (id : Id128 tag) : Bool := id.hi == 0 && id.lo == 0

/-- `to_bytes`: sixteen bytes, both words big-endian, high word first. -/
def toBytes (id : Id128 tag) : List UInt8 := bytesOfU64 id.hi ++ bytesOfU64 id.lo

/-- `from_bytes` on the first sixteen bytes behind the pointer.  Its callers
always supply sixteen; a shorter list is not a pointer they could pass. -/
def fromBytes : List UInt8 → Id128 tag
  | a :: b :: c :: d :: e :: f :: g :: h :: i :: j :: k :: l :: m :: n :: o :: p :: _ =>
      { hi := u64OfOctets a b c d e f g h, lo := u64OfOctets i j k l m n o p }
  | _ => {}

/-- The digits of `to_string`, `'0'` to `'9'` and `'a'` to `'f'`. -/
def kHex : List UInt8 := "0123456789abcdef".toUTF8.toList

/-- `to_string`: two digits per byte, high half first. -/
def toString (id : Id128 tag) : List UInt8 :=
  id.toBytes.flatMap fun (byte : UInt8) =>
    [kHex.getD ((byte >>> 4) &&& 0x0F).toNat 0, kHex.getD (byte &&& 0x0F).toNat 0]

@[simp] theorem length_toBytes (id : Id128 tag) : id.toBytes.length = 16 := rfl

theorem u64OfOctets_bytesOfU64 (word : UInt64) :
    u64OfOctets (word >>> 56).toUInt8 (word >>> 48).toUInt8 (word >>> 40).toUInt8
      (word >>> 32).toUInt8 (word >>> 24).toUInt8 (word >>> 16).toUInt8 (word >>> 8).toUInt8
      word.toUInt8 = word := by
  apply UInt64.toNat_inj.mp
  rw [toNat_u64OfOctets]
  change bigEndianValue (bytesOfU64 word) = word.toNat
  rw [bytesOfU64_eq, bigEndianValue_bigEndian]
  exact Nat.mod_eq_of_lt word.toNat_lt

/-- The byte form of an identity is exact. -/
@[simp] theorem fromBytes_toBytes (id : Id128 tag) : fromBytes id.toBytes = id := by
  change (⟨u64OfOctets _ _ _ _ _ _ _ _, u64OfOctets _ _ _ _ _ _ _ _⟩ : Id128 tag) = id
  rw [u64OfOctets_bytesOfU64, u64OfOctets_bytesOfU64]

/-- Sixteen bytes are recovered from the identity they form. -/
theorem toBytes_fromBytes {bytes : List UInt8} (long : 16 ≤ bytes.length) :
    (fromBytes bytes : Id128 tag).toBytes = bytes.take 16 := by
  match bytes, long with
  | a :: b :: c :: d :: e :: f :: g :: h :: i :: j :: k :: l :: m :: n :: o :: p :: rest, _ =>
      change bytesOfU64 (u64OfOctets a b c d e f g h) ++
        bytesOfU64 (u64OfOctets i j k l m n o p) = _
      rw [bytesOfU64_u64OfOctets, bytesOfU64_u64OfOctets]
      rfl

/-- `operator<=>`: the high word decides, then the low word. -/
instance : Ord (Id128 tag) where
  compare left right :=
    if left.hi < right.hi then .lt
    else if right.hi < left.hi then .gt
    else if left.lo < right.lo then .lt
    else if right.lo < left.lo then .gt
    else .eq

theorem compare_word (left right : UInt64) :
    compare left right = if left < right then .lt else if right < left then .gt else .eq := by
  change compareOfLessAndEq left right = _
  unfold compareOfLessAndEq
  by_cases below : left < right
  · simp only [if_pos below]
  · by_cases same : left = right
    · subst same
      simp only [if_neg below, if_true]
    · have above : right < left :=
        lt_of_le_of_ne (UInt64.not_lt.mp below) (Ne.symm same)
      simp only [if_neg below, if_neg same, if_pos above]

theorem compare_eq_compareLex :
    (compare : Id128 tag → Id128 tag → Ordering) =
      compareLex (compareOn Id128.hi) (compareOn Id128.lo) := by
  funext left right
  change (if left.hi < right.hi then Ordering.lt else _) = _
  simp only [compareLex, compareOn, compare_word]
  by_cases below : left.hi < right.hi
  · simp only [if_pos below, Ordering.then]
  · by_cases above : right.hi < left.hi
    · simp only [if_neg below, if_pos above, Ordering.then]
    · simp only [if_neg below, if_neg above, Ordering.then]

instance : TransOrd (Id128 tag) := by
  unfold TransOrd
  rw [compare_eq_compareLex]
  infer_instance

instance : LawfulEqOrd (Id128 tag) where
  eq_of_compare {left right} same := by
    rw [compare_eq_compareLex] at same
    simp only [compareLex, compareOn, Ordering.then_eq_eq, Std.compare_eq_iff_eq] at same
    cases left
    cases right
    simp only [Id128.mk.injEq]
    exact same

end Id128

/-! ## Generations -/

inductive GenerationTag where
  | coordinatorEpoch | requestGeneration | attemptGeneration | accountingGeneration
deriving DecidableEq

/-- A tagged counter, `Generation<Tag>`. -/
structure Generation (tag : GenerationTag) where
  value : UInt64 := 0
deriving DecidableEq

abbrev CoordinatorEpoch := Generation .coordinatorEpoch
abbrev RequestGeneration := Generation .requestGeneration
abbrev AttemptGeneration := Generation .attemptGeneration
abbrev AccountingGeneration := Generation .accountingGeneration

namespace Generation

variable {tag : GenerationTag}

def next (generation : Generation tag) : Generation tag := ⟨generation.value + 1⟩

end Generation

end InferenceLedger
