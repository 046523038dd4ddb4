import InferenceLedger.Accounting.Account
import InferenceLedger.Foundation.History

namespace InferenceLedger

open Foundation Std

/-!
# Pricing

A pricing policy turns the physical account of a request into a cost.  Rates
are doubles; the cost is computed here from their exact values, so that a
statement about it is not one about rounding.

Policies are kept in a store by their identity alone.  The generation of a
policy is not part of the key, so a new generation takes the place of the old
one, and a policy that was added stays in the store exactly as long as no
different policy is added under its identity.
-/

/-- `struct PricingRates`. -/
structure PricingRates where
  gpuPerSecond : Binary64 := {}
  cpuPerSecond : Binary64 := {}
  memoryPerGibSecond : Binary64 := {}
  hostMemoryPerGibSecond : Binary64 := {}
  pinnedMemoryPerGibSecond : Binary64 := {}
  transferPerGib : Binary64 := {}
  storagePerGibSecond : Binary64 := {}
  persistentCacheCost : Binary64 := {}
  energyPerKwh : Binary64 := {}
  customDevicePerSecond : ExtTreeMap ByteString Binary64 := ∅

/-- `struct PricingPolicy`. -/
structure PricingPolicy where
  id : PricingPolicyId := {}
  generation : UInt64 := 0
  currency : ByteString := []
  name : ByteString := []
  rates : PricingRates := {}

/-- `struct CostResult`. -/
structure CostResult where
  policyId : PricingPolicyId := {}
  policyGeneration : UInt64 := 0
  currency : ByteString := []
  computeCost : ℚ := 0
  cpuComputeCost : ℚ := 0
  residencyCost : ℚ := 0
  transferCost : ℚ := 0
  storageCacheCost : ℚ := 0
  energyCost : ℚ := 0
  usefulWorkCost : ℚ := 0
  wastedWorkCost : ℚ := 0
  cancelledCost : ℚ := 0
  retryCost : ℚ := 0
  rejectedSpecCost : ℚ := 0
  recomputedCost : ℚ := 0
  reuseCredit : ℚ := 0
  energyKwh : ℚ := 0

namespace CostResult

/-- The billed parts; `reuse_credit` is reported but not subtracted. -/
def total (r : CostResult) : ℚ :=
  r.computeCost + r.residencyCost + r.transferCost + r.storageCacheCost + r.energyCost

def reconciles (r : CostResult) : Bool :=
  let sum := r.usefulWorkCost + r.wastedWorkCost + r.cancelledCost + r.recomputedCost +
    r.cpuComputeCost + r.residencyCost + r.transferCost + r.storageCacheCost + r.energyCost
  decide (|sum - r.total| < 1 / 10 ^ 9)

end CostResult

/-- `kGiB`. -/
def bytesPerGiB : ℚ := 1024 * 1024 * 1024

/-- `kJoulesPerKwh`. -/
def joulesPerKwh : ℚ := 3600000

/-- `apply_pricing`. -/
def applyPricing (acc : RequestAccount) (policy : PricingPolicy) : CostResult :=
  let rates := policy.rates
  let gpuRate := rates.gpuPerSecond.toRat
  let cpuRate := rates.cpuPerSecond.toRat
  let usefulWorkCost := acc.executionS.value * gpuRate
  let wastedWorkCost := (acc.failedAttemptWork.value + acc.specWastedWorkS.value) * gpuRate
  let cancelledCost := acc.cancelledWork.value * gpuRate
  let recomputedCost := acc.recomputedWork.value * gpuRate
  let cpuComputeCost := acc.cpuActiveS.value * cpuRate
  let transferBytes := acc.h2dBytes.value + acc.d2hBytes.value + acc.interNodeBytes.value
  let energyKwh := acc.energyJoules.value / joulesPerKwh
  let avoidedS := acc.reuseAvoidedWork.value + acc.reusedWork.value
  { policyId := policy.id
    policyGeneration := policy.generation
    currency := policy.currency
    usefulWorkCost
    wastedWorkCost
    cancelledCost
    retryCost := acc.failedAttemptWork.value * gpuRate
    rejectedSpecCost := acc.specWastedWorkS.value * gpuRate
    recomputedCost
    cpuComputeCost
    computeCost :=
      usefulWorkCost + wastedWorkCost + cancelledCost + recomputedCost + cpuComputeCost
    residencyCost := (acc.modelByteSeconds.value + acc.adapterByteSeconds.value) / bytesPerGiB *
      rates.memoryPerGibSecond.toRat
    transferCost := transferBytes / bytesPerGiB * rates.transferPerGib.toRat
    storageCacheCost := (acc.cacheWrites.toNat : ℚ) * rates.persistentCacheCost.toRat
    energyKwh
    energyCost := energyKwh * rates.energyPerKwh.toRat
    reuseCredit := avoidedS * gpuRate }

/-- The billed total is the sum of its components, whatever the account. -/
theorem reconciles_applyPricing (acc : RequestAccount) (policy : PricingPolicy) :
    (applyPricing acc policy).reconciles = true := by
  unfold CostResult.reconciles CostResult.total applyPricing
  simp only [sub_self, abs_zero]
  norm_num

/-! ## The store -/

/-- `class PricingPolicyStore`. -/
structure PricingPolicyStore where
  store : ExtTreeMap PricingPolicyId PricingPolicy := ∅

namespace PricingPolicyStore

/-- `add`, with the stored policy that it returns. -/
def add : Machine PricingPolicyStore PricingPolicy PricingPolicy := fun policies p =>
  (⟨policies.store.insert p.id p⟩, p)

def find (policies : PricingPolicyStore) (id : PricingPolicyId) : Option PricingPolicy :=
  policies.store[id]?

def all (policies : PricingPolicyStore) : List PricingPolicy :=
  policies.store.toList.map Prod.snd

/-- The policy is returned by `find`, or it is among `all`. -/
def Retrievable (policies : PricingPolicyStore) (p : PricingPolicy) : Prop :=
  policies.find p.id = some p ∨ p ∈ policies.all

/-- Every policy is stored under its own identity. -/
def Keyed (policies : PricingPolicyStore) : Prop :=
  ∀ id p, policies.find id = some p → p.id = id

theorem find_add (policies : PricingPolicyStore) (p : PricingPolicy) (id : PricingPolicyId) :
    (add policies p).1.find id = if p.id = id then some p else policies.find id := by
  change (policies.store.insert p.id p)[id]? = _
  rw [ExtTreeMap.getElem?_insert]
  simp only [Std.LawfulEqOrd.compare_eq_iff_eq]
  rfl

theorem keyed_run (adds : List PricingPolicy) : (add.run {} adds).Keyed := by
  apply Machine.run_invariant
  · intro policies p keyed id found stored
    rw [find_add] at stored
    split at stored
    · rename_i same
      rw [← Option.some.inj stored]
      exact same
    · exact keyed id found stored
  · intro id p stored
    cases stored

/-- In a store that is keyed, both ways to retrieve a policy come to the same. -/
theorem Keyed.retrievable_iff {policies : PricingPolicyStore} (keyed : policies.Keyed)
    (p : PricingPolicy) : policies.Retrievable p ↔ policies.find p.id = some p := by
  constructor
  · rintro (found | listed)
    · exact found
    · rcases List.mem_map.mp listed with ⟨⟨id, stored⟩, member, rfl⟩
      have found : policies.find id = some stored :=
        ExtTreeMap.mem_toList_iff_getElem?_eq_some.mp member
      rw [keyed id stored found]
      exact found
  · exact Or.inl

/-- As long as no identity is used for two policies, all of them are found. -/
theorem find_run {adds : List PricingPolicy}
    (unique : ∀ p ∈ adds, ∀ q ∈ adds, p.id = q.id → p = q) :
    ∀ p ∈ adds, (add.run {} adds).find p.id = some p := by
  induction adds using List.reverseRecOn with
  | nil =>
      intro p member
      cases member
  | append_singleton adds last ih =>
      have before := ih fun p member q other =>
        unique p (List.mem_append_left _ member) q (List.mem_append_left _ other)
      intro p member
      rw [Machine.run_concat, find_add]
      by_cases same : last.id = p.id
      · rw [if_pos same, unique last (by simp) p member same]
      · rw [if_neg same]
        rcases List.mem_append.mp member with earlier | single
        · exact before p earlier
        · rw [List.mem_singleton.mp single] at same
          exact (same rfl).elim

/-- Every policy that was added is still retrievable in every later state. -/
def StayRetrievable (adds : List PricingPolicy) : Prop :=
  ∀ before p between after, adds = before ++ p :: between ++ after →
    (add.run {} (before ++ p :: between)).Retrievable p

/-- Two adds in this order under one identity are adds of the same policy. -/
theorem StayRetrievable.eq_of_later {adds before between after : List PricingPolicy}
    {p q : PricingPolicy} (stay : StayRetrievable adds)
    (split : adds = before ++ p :: (between ++ q :: after)) (same : p.id = q.id) : p = q := by
  have later := stay before p (between ++ [q]) after (by rw [split]; simp)
  rw [(keyed_run _).retrievable_iff, ← List.cons_append, ← List.append_assoc, Machine.run_concat,
    find_add, if_pos same.symm] at later
  exact (Option.some.inj later).symm

/-- Stored policies stay what they are exactly when no two different policies
are added under one identity. -/
theorem stayRetrievable_iff (adds : List PricingPolicy) :
    StayRetrievable adds ↔ ∀ p ∈ adds, ∀ q ∈ adds, p.id = q.id → p = q := by
  constructor
  · intro stay p member q other same
    rcases List.append_of_mem member with ⟨before, after, split⟩
    rcases List.append_of_mem other with ⟨first, rest, also⟩
    rcases moments_compare (split.symm.trans also) with
      ⟨-, equal, -⟩ | ⟨between, -, rfl⟩ | ⟨between, -, rfl⟩
    · exact equal
    · exact stay.eq_of_later split same
    · exact (stay.eq_of_later also same.symm).symm
  · rintro unique before p between after rfl
    rw [(keyed_run _).retrievable_iff]
    apply find_run
    · intro p member q other
      exact unique p (List.mem_append_left _ member) q (List.mem_append_left _ other)
    · simp

/-- The second generation of a policy replaces the first. -/
theorem second_generation_replaces_first :
    ¬ ∀ adds : List PricingPolicy, StayRetrievable adds := by
  intro claim
  have both := claim [{ generation := 1 }, { generation := 2 }]
  have found := (keyed_run _).retrievable_iff _ |>.mp (both [] _ [{ generation := 2 }] [] rfl)
  have generations := congrArg (Option.map PricingPolicy.generation) found
  exact absurd generations (by decide)

end PricingPolicyStore

end InferenceLedger
