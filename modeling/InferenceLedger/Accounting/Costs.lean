import InferenceLedger.Accounting.Aggregates
import InferenceLedger.Accounting.Pricing
import InferenceLedger.Record.IdentityText

namespace InferenceLedger

open Foundation Std

/-!
# The bill of a request

`cmd_cost` finds the entries of a request in a snapshot, reconciles them, and
prices the account.  Times are never negative, so under rates that are not
negative the compute cost is not either, whatever was recorded.  What is billed
by the value of an entry has the sign of that value: the bytes of transfers, the
residency of models and adapters, energy, and the credit for reuse.  No other
value reaches the bill.

Nothing that depends on the order of the entries is priced, and so a bill is as
exact under redelivery as the account.
-/

/-- `useful_fraction`. -/
def CostResult.usefulFraction (r : CostResult) : ℚ :=
  let t := r.total
  if t > 0 then r.usefulWorkCost / t else 0

/-- `cmd_cost`: the bill that is printed.  A text that is no identity has none. -/
def cmdCost (overflow : ℚ → Int) (snap : List LedgerEntry) (reqhex : ByteString)
    (policy : PricingPolicy) : Option CostResult :=
  (Id128.parse reqhex : Option RequestId).map fun req =>
    let acc := reconcileRequest overflow (queryLedger snap { request := some req }) req
    applyPricing acc policy

/-! ## Sound bills -/

/-- No part of the bill is negative, and the parts that are declared as shares
of others make them up. -/
structure CostResult.Sound (r : CostResult) : Prop where
  useful : 0 ≤ r.usefulWorkCost
  retry : 0 ≤ r.retryCost
  rejectedSpec : 0 ≤ r.rejectedSpecCost
  cancelled : 0 ≤ r.cancelledCost
  recomputed : 0 ≤ r.recomputedCost
  cpu : 0 ≤ r.cpuComputeCost
  residency : 0 ≤ r.residencyCost
  transfer : 0 ≤ r.transferCost
  storageCache : 0 ≤ r.storageCacheCost
  energy : 0 ≤ r.energyCost
  credit : 0 ≤ r.reuseCredit
  wasted : r.wastedWorkCost = r.retryCost + r.rejectedSpecCost
  compute : r.computeCost = r.usefulWorkCost + r.wastedWorkCost + r.cancelledCost +
    r.recomputedCost + r.cpuComputeCost

namespace CostResult.Sound

variable {r : CostResult} (sound : r.Sound)
include sound

theorem useful_le_total : r.usefulWorkCost ≤ r.total := by
  rw [CostResult.total, sound.compute, sound.wasted]
  linarith [sound.retry, sound.rejectedSpec, sound.cancelled, sound.recomputed, sound.cpu,
    sound.residency, sound.transfer, sound.storageCache, sound.energy]

/-- The useful part of a bill is a fraction of it. -/
theorem usefulFraction_mem : 0 ≤ r.usefulFraction ∧ r.usefulFraction ≤ 1 := by
  unfold CostResult.usefulFraction
  by_cases positive : r.total > 0
  · simp only [if_pos positive]
    exact ⟨div_nonneg sound.useful positive.le, (div_le_one positive).mpr sound.useful_le_total⟩
  · simp only [if_neg positive]
    exact ⟨le_rfl, zero_le_one⟩

end CostResult.Sound

/-- The rates that are applied are not negative. -/
structure PricingRates.NonNegative (rates : PricingRates) : Prop where
  gpu : 0 ≤ rates.gpuPerSecond.toRat
  cpu : 0 ≤ rates.cpuPerSecond.toRat
  memory : 0 ≤ rates.memoryPerGibSecond.toRat
  transfer : 0 ≤ rates.transferPerGib.toRat
  cache : 0 ≤ rates.persistentCacheCost.toRat
  energy : 0 ≤ rates.energyPerKwh.toRat

/-- The bytes that were moved, in any direction. -/
def RequestAccount.transferBytes (acc : RequestAccount) : ℚ :=
  acc.h2dBytes.value + acc.d2hBytes.value + acc.interNodeBytes.value

/-- The residency that is billed. -/
def RequestAccount.residentByteSeconds (acc : RequestAccount) : ℚ :=
  acc.modelByteSeconds.value + acc.adapterByteSeconds.value

/-- The figures that are priced by the values of entries are not negative. -/
structure RequestAccount.Billable (acc : RequestAccount) : Prop where
  transfer : 0 ≤ acc.transferBytes
  residency : 0 ≤ acc.residentByteSeconds
  energy : 0 ≤ acc.energyJoules.value
  credit : 0 ≤ acc.reuseCredit

theorem sound_applyPricing {acc : RequestAccount} {policy : PricingPolicy} (timely : acc.Timely)
    (billable : acc.Billable) (rates : policy.rates.NonNegative) :
    (applyPricing acc policy).Sound where
  useful := mul_nonneg timely.execution rates.gpu
  retry := mul_nonneg timely.failed rates.gpu
  rejectedSpec := mul_nonneg timely.specWasted rates.gpu
  cancelled := mul_nonneg timely.cancelled rates.gpu
  recomputed := mul_nonneg timely.recomputed rates.gpu
  cpu := mul_nonneg timely.cpu rates.cpu
  residency := by
    have size : 0 ≤ bytesPerGiB := by norm_num [bytesPerGiB]
    exact mul_nonneg (div_nonneg billable.residency size) rates.memory
  transfer := by
    have size : 0 ≤ bytesPerGiB := by norm_num [bytesPerGiB]
    exact mul_nonneg (div_nonneg billable.transfer size) rates.transfer
  storageCache := mul_nonneg (Nat.cast_nonneg _) rates.cache
  energy := by
    have joules : 0 ≤ joulesPerKwh := by norm_num [joulesPerKwh]
    exact mul_nonneg (div_nonneg billable.energy joules) rates.energy
  credit := mul_nonneg billable.credit rates.gpu
  wasted := add_mul _ _ _
  compute := rfl

/-- Under positive rates nothing hides the sign of a figure. -/
theorem billable_of_sound {acc : RequestAccount} {policy : PricingPolicy}
    (sound : (applyPricing acc policy).Sound) (gpu : 0 < policy.rates.gpuPerSecond.toRat)
    (memory : 0 < policy.rates.memoryPerGibSecond.toRat)
    (transfer : 0 < policy.rates.transferPerGib.toRat)
    (energy : 0 < policy.rates.energyPerKwh.toRat) : acc.Billable := by
  have size : 0 < bytesPerGiB := by norm_num [bytesPerGiB]
  have joules : 0 < joulesPerKwh := by norm_num [joulesPerKwh]
  have undivided : ∀ {figure size : ℚ}, 0 < size → 0 ≤ figure / size → 0 ≤ figure := by
    intro figure size positive nonneg
    rw [div_eq_mul_inv] at nonneg
    exact nonneg_of_mul_nonneg_left nonneg (inv_pos.mpr positive)
  constructor
  · exact undivided size (nonneg_of_mul_nonneg_left sound.transfer transfer)
  · exact undivided size (nonneg_of_mul_nonneg_left sound.residency memory)
  · exact undivided joules (nonneg_of_mul_nonneg_left sound.energy energy)
  · exact nonneg_of_mul_nonneg_left sound.credit gpu

/-! ## What an entry adds to a bill -/

/-- The bytes that an entry moves. -/
def LedgerEntry.movedBytes (e : LedgerEntry) : ℚ :=
  e.amountOf [.transferH2D, .transferD2H, .transferInterNode]

/-- The residency of an entry: its value over its duration. -/
def LedgerEntry.byteSeconds (e : LedgerEntry) : ℚ :=
  if e.eventKind ∈ [.modelResidency, .adapterResidency] then e.quantity.value.toRat * durSec e
  else 0

/-- The energy of an entry, in joules. -/
def LedgerEntry.joules (e : LedgerEntry) : ℚ :=
  if e.eventKind = .energy then
    if e.quantity.unit = .energyWh then e.quantity.value.toRat * 3600 else e.quantity.value.toRat
  else 0

/-- Nothing that the entry adds to a bill by its value is negative. -/
structure LedgerEntry.Billable (e : LedgerEntry) : Prop where
  transfer : 0 ≤ e.movedBytes
  residency : 0 ≤ e.byteSeconds
  energy : 0 ≤ e.joules
  credit : 0 ≤ e.amountOf [.reuseAvoided]

section Figures

variable (overflow : ℚ → Int) (entries : List LedgerEntry) (request : RequestId)

theorem residentByteSeconds_eq_sum :
    (reconcileRequest overflow entries request).residentByteSeconds =
      (entries.map LedgerEntry.byteSeconds).sum := by
  change (scanEntries overflow entries).totals .modelBs +
    (scanEntries overflow entries).totals .adapterBs = _
  rw [totals_scanEntries, totals_scanEntries, ← List.sum_map_add]
  congr 1
  apply List.map_congr_left
  intro e _
  cases kind : e.eventKind <;>
    simp [Scan.observe, kind, Scan.add, Scan.count, Scan.visit, LedgerEntry.byteSeconds]

theorem energyJoules_eq_sum :
    (reconcileRequest overflow entries request).energyJoules.value =
      (entries.map LedgerEntry.joules).sum := by
  change (scanEntries overflow entries).totals .energyJ = _
  rw [totals_scanEntries]
  congr 1
  apply List.map_congr_left
  intro e _
  cases kind : e.eventKind <;>
    simp [Scan.observe, kind, Scan.add, Scan.count, Scan.visit, LedgerEntry.joules]

/-- The figures that are priced are sums over the entries. -/
theorem billable_reconcileRequest (billable : ∀ e ∈ entries, e.Billable) :
    (reconcileRequest overflow entries request).Billable := by
  have sums : ∀ {part : LedgerEntry → ℚ}, (∀ e ∈ entries, 0 ≤ part e) →
      0 ≤ (entries.map part).sum := by
    intro part nonneg
    apply List.sum_nonneg
    intro amount member
    rcases List.mem_map.mp member with ⟨e, inside, rfl⟩
    exact nonneg e inside
  constructor
  · rw [RequestAccount.transferBytes, transferred_eq_sum overflow entries request]
    exact sums fun e inside => (billable e inside).transfer
  · rw [residentByteSeconds_eq_sum]
    exact sums fun e inside => (billable e inside).residency
  · rw [energyJoules_eq_sum]
    exact sums fun e inside => (billable e inside).energy
  · rw [reuseCredit_eq_sum]
    exact sums fun e inside => (billable e inside).credit

/-- The account of a single entry bills that entry. -/
theorem billable_of_single {e : LedgerEntry}
    (billable : (reconcileRequest overflow [e] request).Billable) : e.Billable := by
  rcases billable with ⟨transfer, residency, energy, credit⟩
  rw [RequestAccount.transferBytes, transferred_eq_sum overflow [e] request, List.map_singleton,
    List.sum_singleton] at transfer
  rw [residentByteSeconds_eq_sum, List.map_singleton, List.sum_singleton] at residency
  rw [energyJoules_eq_sum, List.map_singleton, List.sum_singleton] at energy
  rw [reuseCredit_eq_sum, List.map_singleton, List.sum_singleton] at credit
  exact ⟨transfer, residency, energy, credit⟩

end Figures

/-! ## The bills of a ledger -/

/-- The double `1.0`. -/
def oneRate : Binary64 := ⟨0x3FF0000000000000⟩

theorem oneRate_pos : 0 < oneRate.toRat := by decide +kernel

/-- A policy that charges one for everything. -/
def unitPolicy : PricingPolicy where
  rates :=
    { gpuPerSecond := oneRate
      cpuPerSecond := oneRate
      memoryPerGibSecond := oneRate
      transferPerGib := oneRate
      persistentCacheCost := oneRate
      energyPerKwh := oneRate }

/-- Every bill that can be printed from a ledger, under rates that are not
negative, is sound. -/
def BillsSoundly (overflow : ℚ → Int) (ledger : Ledger) : Prop :=
  ∀ (policy : PricingPolicy) (reqhex : ByteString) (bill : CostResult),
    policy.rates.NonNegative → cmdCost overflow ledger.snapshot reqhex policy = some bill →
      bill.Sound ∧ bill.reconciles = true ∧ 0 ≤ bill.usefulFraction ∧ bill.usefulFraction ≤ 1

theorem billsSoundly_of_billable {overflow : ℚ → Int} {ledger : Ledger}
    (billable : ∀ e ∈ ledger.entries, e.Billable) : BillsSoundly overflow ledger := by
  intro policy reqhex bill rates printed
  rcases Option.map_eq_some_iff.mp printed with ⟨req, -, rfl⟩
  have figures := billable_reconcileRequest overflow
    (queryLedger ledger.snapshot { request := some req }) req
    fun e found => billable e (List.mem_of_mem_filter found)
  have sound := sound_applyPricing (timely_reconcileRequest overflow _ req) figures rates
  exact ⟨sound, reconciles_applyPricing _ policy, sound.usefulFraction_mem⟩

/-- No field that depends on the order of the entries is priced. -/
theorem applyPricing_orderFree (acc : RequestAccount) (policy : PricingPolicy) :
    applyPricing acc.orderFree policy = applyPricing acc policy := rfl

/-- Whoever delivers the entries of a set at least once each, in any order, gets
the bills over that set. -/
theorem cost_exactly_once (overflow : ℚ → Int) {entries deliveries : List LedgerEntry}
    (valid : ∀ e ∈ entries, contentIsValid e = true)
    (distinct : (entries.map LedgerEntry.id).Nodup)
    (delivered : ∀ e, e ∈ deliveries ↔ e ∈ entries) (ledgerId : LedgerId) (reqhex : ByteString)
    (policy : PricingPolicy) :
    cmdCost overflow (deliver ledgerId deliveries) reqhex policy =
      cmdCost overflow entries reqhex policy := by
  have same := deliver_perm valid distinct delivered ledgerId
  unfold cmdCost
  congr 1
  funext req
  have accounts := orderFree_eq_of_perm overflow
    (same.filter (LedgerQuery.admits { request := some req })) req
  dsimp only
  rw [← applyPricing_orderFree, queryLedger, accounts, applyPricing_orderFree, queryLedger]

/-- The end of a request delivered twice, and ahead of its start. -/
theorem cost_exactly_once_redelivered :
    cmdCost (fun _ => 0) (deliver {} [endEntry, startEntry, endEntry])
        (Id128.toString (⟨0, 3⟩ : RequestId)) unitPolicy =
      cmdCost (fun _ => 0) [startEntry, endEntry] (Id128.toString (⟨0, 3⟩ : RequestId))
        unitPolicy := by
  refine cost_exactly_once (fun _ => 0) (by decide +kernel) (by decide) (fun e => ?_) {} _ _
  simp only [List.mem_cons, List.not_mem_nil, or_false]
  tauto

end InferenceLedger
