import InferenceLedger.Accounting.Delivery
import InferenceLedger.Accounting.Durations
import InferenceLedger.Accounting.Grouping

namespace InferenceLedger

open Foundation Std

/-!
# Aggregates

`aggregate_accounts` adds up the accounts of many requests and divides by their
number.  A report over a ledger reconciles each of its requests and aggregates
the accounts; the sums are then sums over the entries of the ledger, whatever
their order, and leave out only the entries without a request.

Three figures of the report never move.  The costs are declared and never
assigned, and the work that `reuse_rate` compares is one that no kind of event
adds to.
-/

/-! ## Ratios of one account -/

namespace RequestAccount

variable (acc : RequestAccount)

/-- `reject_spec_work`. -/
def rejectSpecWork : ℚ := acc.specWastedWorkS.value

/-- The work of an account that was lost. -/
def wastedWork : ℚ :=
  acc.failedAttemptWork.value + acc.cancelledWork.value + acc.rejectSpecWork

/-- `waste_ratio`. -/
def wasteRatio : ℚ :=
  let useful := acc.executionS.value
  let waste := acc.wastedWork
  let total := useful + waste
  if total > 0 then waste / total else 0

/-- `reuse_credit`. -/
def reuseCredit : ℚ := acc.reuseAvoidedWork.value + acc.reusedWork.value

/-- `reuse_rate`. -/
def reuseRate : ℚ :=
  let useful := acc.executionS.value
  let reused := acc.reusedWork.value
  if useful + reused > 0 then reused / (useful + reused) else 0

/-- `spec_acceptance_efficiency`. -/
def specAcceptanceEfficiency : ℚ :=
  if acc.specProposed > 0 then (acc.specAccepted.toNat : ℚ) / (acc.specProposed.toNat : ℚ) else 0

end RequestAccount

/-! ## The loop -/

/-- `struct Aggregate`. -/
@[ext] structure Aggregate where
  requests : Nat := 0
  costPerRequest : ℚ := 0
  costPerToken : ℚ := 0
  gpuSecondsPerRequest : ℚ := 0
  gpuSecondsPerToken : ℚ := 0
  transferBytesPerRequest : ℚ := 0
  kvBytesPerRequest : ℚ := 0
  wasteRatioAvg : ℚ := 0
  retryOverhead : ℚ := 0
  reuseRateAvg : ℚ := 0
  avoidedWork : ℚ := 0
  totalCost : ℚ := 0
  totalGpuS : ℚ := 0
  totalTokens : ℚ := 0

/-- The local variables of `aggregate_accounts`. -/
structure AggregateScan where
  a : Aggregate := {}
  wasteSum : ℚ := 0
  reuseSum : ℚ := 0

/-- One round of the loop over the accounts. -/
def AggregateScan.add (s : AggregateScan) (acc : RequestAccount) : AggregateScan where
  a := { s.a with
    totalGpuS := s.a.totalGpuS + acc.gpuActiveS.value
    totalTokens := s.a.totalTokens + (acc.generatedTokens.toNat : ℚ)
    transferBytesPerRequest := s.a.transferBytesPerRequest +
      (acc.h2dBytes.value + acc.d2hBytes.value + acc.interNodeBytes.value)
    kvBytesPerRequest := s.a.kvBytesPerRequest + acc.kvAllocated.value
    retryOverhead := s.a.retryOverhead + (acc.retries.toNat : ℚ)
    avoidedWork := s.a.avoidedWork + (acc.reuseAvoidedWork.value + acc.reusedWork.value) }
  wasteSum := s.wasteSum + acc.wasteRatio
  reuseSum := s.reuseSum + acc.reuseRate

/-- `aggregate_accounts`. -/
def aggregateAccounts (accounts : List RequestAccount) : Aggregate :=
  let s := accounts.foldl AggregateScan.add { a := { requests := accounts.length } }
  let n : ℚ := if accounts.isEmpty then 1 else accounts.length
  { s.a with
    gpuSecondsPerRequest := s.a.totalGpuS / n
    kvBytesPerRequest := s.a.kvBytesPerRequest / n
    transferBytesPerRequest := s.a.transferBytesPerRequest / n
    wasteRatioAvg := s.wasteSum / n
    reuseRateAvg := s.reuseSum / n
    retryOverhead := s.a.retryOverhead / n
    costPerToken := if s.a.totalTokens > 0 then s.a.totalCost / s.a.totalTokens else 0
    gpuSecondsPerToken := if s.a.totalTokens > 0 then s.a.totalGpuS / s.a.totalTokens else 0 }

/-- The accounts of all requests of a snapshot, as every report makes them. -/
def requestAccounts (overflow : ℚ → Int) (snap : List LedgerEntry) : List RequestAccount :=
  (distinctRequests snap).map fun req =>
    reconcileRequest overflow (queryLedger snap { request := some req }) req

/-- The report over a snapshot. -/
def aggregateLedger (overflow : ℚ → Int) (snap : List LedgerEntry) : Aggregate :=
  aggregateAccounts (requestAccounts overflow snap)

/-! ## The aggregate as sums over the accounts -/

/-- The sum of a figure over accounts. -/
def sumOver (accounts : List RequestAccount) (figure : RequestAccount → ℚ) : ℚ :=
  (accounts.map figure).sum

theorem foldl_add_account (accounts : List RequestAccount) (s : AggregateScan) :
    accounts.foldl AggregateScan.add s =
      { a := { s.a with
          totalGpuS := s.a.totalGpuS + sumOver accounts fun acc => acc.gpuActiveS.value
          totalTokens := s.a.totalTokens + sumOver accounts fun acc => acc.generatedTokens.toNat
          transferBytesPerRequest := s.a.transferBytesPerRequest + sumOver accounts fun acc =>
            acc.h2dBytes.value + acc.d2hBytes.value + acc.interNodeBytes.value
          kvBytesPerRequest := s.a.kvBytesPerRequest +
            sumOver accounts fun acc => acc.kvAllocated.value
          retryOverhead := s.a.retryOverhead + sumOver accounts fun acc => acc.retries.toNat
          avoidedWork := s.a.avoidedWork + sumOver accounts RequestAccount.reuseCredit }
        wasteSum := s.wasteSum + sumOver accounts RequestAccount.wasteRatio
        reuseSum := s.reuseSum + sumOver accounts RequestAccount.reuseRate } := by
  induction accounts generalizing s with
  | nil => simp [sumOver]
  | cons acc accounts ih =>
      rw [List.foldl_cons, ih]
      simp only [AggregateScan.add, sumOver, List.map_cons, List.sum_cons, add_assoc,
        RequestAccount.reuseCredit]

/-- By what the sums are divided. -/
def divisor (accounts : List RequestAccount) : ℚ :=
  if accounts.isEmpty then 1 else accounts.length

/-- The aggregate, with the loop carried out. -/
theorem aggregateAccounts_eq (accounts : List RequestAccount) :
    let gpu := sumOver accounts fun acc => acc.gpuActiveS.value
    let tokens := sumOver accounts fun acc => acc.generatedTokens.toNat
    aggregateAccounts accounts =
      { requests := accounts.length
        totalGpuS := gpu
        totalTokens := tokens
        gpuSecondsPerRequest := gpu / divisor accounts
        gpuSecondsPerToken := if tokens > 0 then gpu / tokens else 0
        kvBytesPerRequest :=
          (sumOver accounts fun acc => acc.kvAllocated.value) / divisor accounts
        transferBytesPerRequest := (sumOver accounts fun acc =>
          acc.h2dBytes.value + acc.d2hBytes.value + acc.interNodeBytes.value) / divisor accounts
        wasteRatioAvg := sumOver accounts RequestAccount.wasteRatio / divisor accounts
        reuseRateAvg := sumOver accounts RequestAccount.reuseRate / divisor accounts
        retryOverhead := (sumOver accounts fun acc => acc.retries.toNat) / divisor accounts
        avoidedWork := sumOver accounts RequestAccount.reuseCredit } := by
  intro gpu tokens
  simp [aggregateAccounts, foldl_add_account, divisor, gpu, tokens]

/-! ## The order of the entries -/

section Order

variable {accounts others : List RequestAccount}
  (same : (accounts.map RequestAccount.orderFree).Perm (others.map RequestAccount.orderFree))
include same

/-- A figure that does not look at the order-dependent fields. -/
theorem sumOver_eq_of_perm {figure : RequestAccount → ℚ}
    (blind : ∀ acc, figure acc.orderFree = figure acc) :
    sumOver accounts figure = sumOver others figure := by
  have sums := (same.map figure).sum_eq
  rw [List.map_map, List.map_map, Function.comp_def] at sums
  simp only [blind] at sums
  exact sums

theorem divisor_eq_of_perm : divisor accounts = divisor others := by
  have lengths := same.length_eq
  rw [List.length_map, List.length_map] at lengths
  have empties : accounts.isEmpty = others.isEmpty := by
    rw [Bool.eq_iff_iff, List.isEmpty_iff_length_eq_zero, List.isEmpty_iff_length_eq_zero, lengths]
  rw [divisor, divisor, empties, lengths]

theorem aggregateAccounts_eq_of_perm : aggregateAccounts accounts = aggregateAccounts others := by
  have lengths := same.length_eq
  rw [List.length_map, List.length_map] at lengths
  have sums : ∀ {figure : RequestAccount → ℚ}, (∀ acc, figure acc.orderFree = figure acc) →
      sumOver accounts figure = sumOver others figure := fun blind => sumOver_eq_of_perm same blind
  rw [aggregateAccounts_eq, aggregateAccounts_eq, lengths, divisor_eq_of_perm same,
    sums (fun _ => rfl), sums (fun _ => rfl), sums (fun _ => rfl), sums (fun _ => rfl),
    sums (fun _ => rfl), sums (fun _ => rfl), sums (fun _ => rfl), sums (fun _ => rfl)]

end Order

section Entries

variable (overflow : ℚ → Int)

/-- Permuted snapshots have the same requests. -/
theorem distinctRequests_perm {first second : List LedgerEntry} (same : first.Perm second) :
    (distinctRequests first).Perm (distinctRequests second) := by
  refine (List.perm_ext_iff_of_nodup (nodup_distinctRequests first)
    (nodup_distinctRequests second)).mpr fun request => ?_
  rw [mem_distinctRequests, mem_distinctRequests]
  exact ((same.filter _).map _).mem_iff

/-- The report depends on which entries were stored and not on their order. -/
theorem aggregateLedger_eq_of_perm {first second : List LedgerEntry} (same : first.Perm second) :
    aggregateLedger overflow first = aggregateLedger overflow second := by
  apply aggregateAccounts_eq_of_perm
  simp only [requestAccounts, List.map_map]
  have each : (fun req => RequestAccount.orderFree (reconcileRequest overflow
      (queryLedger first { request := some req }) req)) =
      fun req => RequestAccount.orderFree (reconcileRequest overflow
        (queryLedger second { request := some req }) req) := by
    funext req
    exact orderFree_eq_of_perm overflow (same.filter _) req
  rw [Function.comp_def, Function.comp_def, each]
  exact (distinctRequests_perm same).map _

/-- Whoever delivers the entries of a set at least once each, in any order, gets
the report over that set. -/
theorem aggregate_exactly_once {entries deliveries : List LedgerEntry}
    (valid : ∀ e ∈ entries, contentIsValid e = true)
    (distinct : (entries.map LedgerEntry.id).Nodup)
    (delivered : ∀ e, e ∈ deliveries ↔ e ∈ entries) (ledgerId : LedgerId) :
    aggregateLedger overflow (deliver ledgerId deliveries) = aggregateLedger overflow entries :=
  aggregateLedger_eq_of_perm overflow (deliver_perm valid distinct delivered ledgerId)

/-- The end of a request delivered twice, and ahead of its start. -/
theorem aggregate_exactly_once_redelivered :
    aggregateLedger (fun _ => 0) (deliver {} [endEntry, startEntry, endEntry]) =
      aggregateLedger (fun _ => 0) [startEntry, endEntry] := by
  refine aggregate_exactly_once (fun _ => 0) (by decide +kernel) (by decide) (fun e => ?_) {}
  simp only [List.mem_cons, List.not_mem_nil, or_false]
  tauto

/-! ## The report as sums over the entries -/

/-- Sums over the entries of each request make up a sum over the entries that
belong to one. -/
theorem sum_requests (part : LedgerEntry → ℚ) (snap : List LedgerEntry) :
    ((distinctRequests snap).map fun request => ((entriesOf snap request).map part).sum).sum =
      ((snap.filter LedgerEntry.hasRequest).map part).sum := by
  have grouped := flatMap_entriesOf_perm snap (nodup_distinctRequests snap)
  have known : (snap.filter fun e => e.request ∈ distinctRequests snap) =
      snap.filter LedgerEntry.hasRequest := by
    apply List.filter_congr
    intro e member
    rw [Bool.eq_iff_iff, decide_eq_true_iff, mem_distinctRequests]
    constructor
    · intro requested
      simpa [LedgerEntry.hasRequest] using isZero_of_mem_requestsOf requested
    · intro nonzero
      exact List.mem_map_of_mem (List.mem_filter.mpr ⟨member, nonzero⟩)
  rw [known] at grouped
  rw [← (grouped.map part).sum_eq, List.map_flatMap, List.flatMap_def, List.sum_flatten,
    List.map_map]
  rfl

theorem sumOver_requestAccounts {figure : RequestAccount → ℚ} {part : LedgerEntry → ℚ}
    (each : ∀ entries request,
      figure (reconcileRequest overflow entries request) = (entries.map part).sum)
    (snap : List LedgerEntry) :
    sumOver (requestAccounts overflow snap) figure =
      ((snap.filter LedgerEntry.hasRequest).map part).sum := by
  rw [← sum_requests, sumOver, requestAccounts, List.map_map]
  congr 1
  apply List.map_congr_left
  intro request _
  rw [Function.comp_apply, each, queryLedger_request]

theorem sumOver_requestAccounts_le {figure : RequestAccount → ℚ} {part : LedgerEntry → ℚ}
    (each : ∀ entries request,
      figure (reconcileRequest overflow entries request) ≤ (entries.map part).sum)
    (snap : List LedgerEntry) :
    sumOver (requestAccounts overflow snap) figure ≤
      ((snap.filter LedgerEntry.hasRequest).map part).sum := by
  rw [← sum_requests, sumOver, requestAccounts, List.map_map]
  apply List.sum_le_sum
  intro request _
  rw [Function.comp_apply, ← queryLedger_request]
  exact each _ request

/-- Every account of a report is that of some entries. -/
theorem exists_of_mem_requestAccounts {snap : List LedgerEntry} {acc : RequestAccount}
    (member : acc ∈ requestAccounts overflow snap) :
    ∃ entries request, acc = reconcileRequest overflow entries request := by
  rcases List.mem_map.mp member with ⟨request, -, rfl⟩
  exact ⟨_, request, rfl⟩

/-- The value of an entry of one of these kinds. -/
def LedgerEntry.amountOf (kinds : List EventKind) (e : LedgerEntry) : ℚ :=
  if e.eventKind ∈ kinds then e.quantity.value.toRat else 0

/-- The GPU time of an entry. -/
def LedgerEntry.gpuTime (e : LedgerEntry) : ℚ :=
  if e.eventKind ∈ [.prefill, .decode, .gpuExecution] then durSec e else 0

/-- A total to which exactly these kinds of events add their value. -/
theorem totals_eq_amounts {total : Total} {kinds : List EventKind}
    (adds : ∀ e, (({} : Scan).observe overflow e).totals total = e.amountOf kinds)
    (entries : List LedgerEntry) :
    (scanEntries overflow entries).totals total =
      (entries.map (LedgerEntry.amountOf kinds)).sum := by
  rw [totals_scanEntries]
  congr 1
  apply List.map_congr_left
  intro e _
  exact adds e

/-- No kind of event adds to the work that was reused. -/
theorem reusedWork_eq_zero (entries : List LedgerEntry) (request : RequestId) :
    (reconcileRequest overflow entries request).reusedWork.value = 0 := by
  have silent : ∀ e, (({} : Scan).observe overflow e).totals .reused = e.amountOf [] := by
    intro e
    cases kind : e.eventKind <;>
      simp [Scan.observe, kind, Scan.add, Scan.count, Scan.visit, LedgerEntry.amountOf]
  change (scanEntries overflow entries).totals .reused = 0
  rw [totals_eq_amounts overflow silent]
  apply List.sum_eq_zero
  intro amount member
  rcases List.mem_map.mp member with ⟨e, -, rfl⟩
  exact if_neg List.not_mem_nil

theorem kvAllocated_eq_sum (entries : List LedgerEntry) (request : RequestId) :
    (reconcileRequest overflow entries request).kvAllocated.value =
      (entries.map (LedgerEntry.amountOf [.kvAllocate])).sum := by
  apply totals_eq_amounts overflow
  intro e
  cases kind : e.eventKind <;>
    simp [Scan.observe, kind, Scan.add, Scan.count, Scan.visit, LedgerEntry.amountOf]

theorem reuseCredit_eq_sum (entries : List LedgerEntry) (request : RequestId) :
    (reconcileRequest overflow entries request).reuseCredit =
      (entries.map (LedgerEntry.amountOf [.reuseAvoided])).sum := by
  rw [RequestAccount.reuseCredit, reusedWork_eq_zero, add_zero]
  apply totals_eq_amounts overflow
  intro e
  cases kind : e.eventKind <;>
    simp [Scan.observe, kind, Scan.add, Scan.count, Scan.visit, LedgerEntry.amountOf]

/-- The three directions of a transfer are one sum. -/
theorem transferred_eq_sum (entries : List LedgerEntry) (request : RequestId) :
    let account := reconcileRequest overflow entries request
    account.h2dBytes.value + account.d2hBytes.value + account.interNodeBytes.value =
      (entries.map
        (LedgerEntry.amountOf [.transferH2D, .transferD2H, .transferInterNode])).sum := by
  intro account
  have parts : ∀ e : LedgerEntry,
      e.amountOf [.transferH2D] + e.amountOf [.transferD2H] + e.amountOf [.transferInterNode] =
        e.amountOf [.transferH2D, .transferD2H, .transferInterNode] := by
    intro e
    cases kind : e.eventKind <;> simp [LedgerEntry.amountOf, kind]
  have adds : ∀ total kind, (total, kind) ∈ [(Total.h2d, EventKind.transferH2D),
      (.d2h, .transferD2H), (.node, .transferInterNode)] →
      (scanEntries overflow entries).totals total =
        (entries.map (LedgerEntry.amountOf [kind])).sum := by
    intro total kind member
    apply totals_eq_amounts overflow
    intro e
    simp only [List.mem_cons, Prod.mk.injEq, List.not_mem_nil, or_false] at member
    rcases member with ⟨rfl, rfl⟩ | ⟨rfl, rfl⟩ | ⟨rfl, rfl⟩ <;> cases here : e.eventKind <;>
      simp [Scan.observe, here, Scan.add, Scan.count, Scan.visit, LedgerEntry.amountOf]
  change (scanEntries overflow entries).totals .h2d + (scanEntries overflow entries).totals .d2h +
    (scanEntries overflow entries).totals .node = _
  rw [adds .h2d .transferH2D (by simp), adds .d2h .transferD2H (by simp),
    adds .node .transferInterNode (by simp), ← List.sum_map_add, ← List.sum_map_add]
  congr 1
  apply List.map_congr_left
  intro e _
  exact parts e

/-- The GPU time of an account is that of one attempt, and so at most that of
its entries. -/
theorem gpuActive_le (entries : List LedgerEntry) (request : RequestId) :
    (reconcileRequest overflow entries request).gpuActiveS.value ≤
      (entries.map LedgerEntry.gpuTime).sum := by
  have nonneg : ∀ time ∈ entries.map LedgerEntry.gpuTime, 0 ≤ time := by
    intro time member
    rcases List.mem_map.mp member with ⟨e, -, rfl⟩
    unfold LedgerEntry.gpuTime
    split
    · exact durSec_nonneg e
    · exact le_rfl
  rw [(useful_eq_winnerRecord overflow entries request).2.2.2.2.1, derived, winnerRecord]
  cases winningAttempt overflow entries with
  | none => exact List.sum_nonneg nonneg
  | some winner =>
      have step : ∀ (att : AttemptAttr) (e : LedgerEntry),
          (att.observe overflow e).gpuS = att.gpuS + e.gpuTime := by
        intro att e
        cases kind : e.eventKind <;> simp [AttemptAttr.observe, kind, LedgerEntry.gpuTime]
      change (attemptRecord overflow entries winner).gpuS ≤ _
      rw [attemptRecord_additive overflow entries rfl step]
      exact (List.filter_sublist.map _).sum_le_sum nonneg

end Entries

/-! ## What every report satisfies -/

section Report

variable (overflow : ℚ → Int) (snap : List LedgerEntry)

/-- There is one account for every request that occurs. -/
theorem length_requestAccounts :
    (requestAccounts overflow snap).length = (requestsOf snap).toFinset.card := by
  rw [requestAccounts, List.length_map, ← List.toFinset_card_of_nodup (nodup_distinctRequests snap)]
  congr 1
  ext request
  rw [List.mem_toFinset, List.mem_toFinset, mem_distinctRequests]

/-- A sum is recovered from its average, also when there is no request. -/
theorem requests_mul_div (figure : RequestAccount → ℚ) :
    ((requestAccounts overflow snap).length : ℚ) *
        (sumOver (requestAccounts overflow snap) figure / divisor (requestAccounts overflow snap)) =
      sumOver (requestAccounts overflow snap) figure := by
  generalize requestAccounts overflow snap = accounts
  cases accounts with
  | nil => simp [sumOver]
  | cons acc accounts =>
      have positive : ((acc :: accounts).length : ℚ) ≠ 0 := by
        rw [Nat.cast_ne_zero]
        simp
      rw [divisor, List.isEmpty_cons, if_neg Bool.false_ne_true]
      field_simp

/-- The averages of bytes come from sums over all entries that belong to a
request, the avoided work is such a sum, and no GPU time is reported that the
entries do not have. -/
structure Aggregate.Reconciles (report : Aggregate) (snap : List LedgerEntry) : Prop where
  requests : report.requests = (requestsOf snap).toFinset.card
  kvBytes : (report.requests : ℚ) * report.kvBytesPerRequest =
    ((snap.filter LedgerEntry.hasRequest).map (LedgerEntry.amountOf [.kvAllocate])).sum
  transferBytes : (report.requests : ℚ) * report.transferBytesPerRequest =
    ((snap.filter LedgerEntry.hasRequest).map
      (LedgerEntry.amountOf [.transferH2D, .transferD2H, .transferInterNode])).sum
  avoidedWork : report.avoidedWork =
    ((snap.filter LedgerEntry.hasRequest).map (LedgerEntry.amountOf [.reuseAvoided])).sum
  gpuSeconds : (report.requests : ℚ) * report.gpuSecondsPerRequest = report.totalGpuS
  gpuNonneg : 0 ≤ report.totalGpuS
  gpuCovered : report.totalGpuS ≤
    ((snap.filter LedgerEntry.hasRequest).map LedgerEntry.gpuTime).sum

/-- The figures of every report reconcile to the entries of the ledger. -/
theorem aggregate_reconciles : (aggregateLedger overflow snap).Reconciles snap := by
  have sums := aggregateAccounts_eq (requestAccounts overflow snap)
  have recovered := requests_mul_div overflow snap
  rw [aggregateLedger, sums]
  constructor
  · exact length_requestAccounts overflow snap
  · exact (recovered _).trans (sumOver_requestAccounts overflow (kvAllocated_eq_sum overflow) snap)
  · exact (recovered _).trans (sumOver_requestAccounts overflow (transferred_eq_sum overflow) snap)
  · exact sumOver_requestAccounts overflow (reuseCredit_eq_sum overflow) snap
  · exact recovered _
  · apply List.sum_nonneg
    intro time member
    rcases List.mem_map.mp member with ⟨acc, inside, rfl⟩
    rcases exists_of_mem_requestAccounts overflow inside with ⟨entries, request, rfl⟩
    have timely := timely_reconcileRequest overflow entries request
    linarith [timely.prefill, timely.decode, timely.phases]
  · exact sumOver_requestAccounts_le overflow (gpuActive_le overflow) snap

/-- The ratios of an account lie between zero and one, and nothing counts as
reused. -/
structure RequestAccount.Proportionate (acc : RequestAccount) : Prop where
  wasteNonneg : 0 ≤ acc.wasteRatio
  wasteLeOne : acc.wasteRatio ≤ 1
  reuse : acc.reuseRate = 0

theorem proportionate_reconcileRequest (entries : List LedgerEntry) (request : RequestId) :
    (reconcileRequest overflow entries request).Proportionate := by
  have timely := timely_reconcileRequest overflow entries request
  have nothing := reusedWork_eq_zero overflow entries request
  generalize reconcileRequest overflow entries request = account at timely nothing
  have useful := timely.execution
  have waste : 0 ≤ account.wastedWork := by
    rw [RequestAccount.wastedWork, RequestAccount.rejectSpecWork]
    linarith [timely.failed, timely.cancelled, timely.specWasted]
  constructor
  · rw [RequestAccount.wasteRatio]
    split
    · positivity
    · exact le_rfl
  · rw [RequestAccount.wasteRatio]
    split
    · rename_i positive
      rw [div_le_one positive]
      linarith
    · exact zero_le_one
  · rw [RequestAccount.reuseRate, nothing, zero_div, ite_self]

/-- An average lies between the same bounds as what it is taken over. -/
theorem average_mem_unit {accounts : List RequestAccount} {figure : RequestAccount → ℚ}
    (bounds : ∀ acc ∈ accounts, 0 ≤ figure acc ∧ figure acc ≤ 1) :
    0 ≤ sumOver accounts figure / divisor accounts ∧
      sumOver accounts figure / divisor accounts ≤ 1 := by
  have lower : 0 ≤ sumOver accounts figure := by
    apply List.sum_nonneg
    intro amount member
    rcases List.mem_map.mp member with ⟨acc, inside, rfl⟩
    exact (bounds acc inside).1
  have upper : sumOver accounts figure ≤ accounts.length := by
    have each : ∀ amount ∈ accounts.map figure, amount ≤ 1 := by
      intro amount member
      rcases List.mem_map.mp member with ⟨acc, inside, rfl⟩
      exact (bounds acc inside).2
    have total := List.sum_le_card_nsmul _ 1 each
    rwa [List.length_map, nsmul_eq_mul, mul_one] at total
  cases accounts with
  | nil => simp [sumOver]
  | cons acc accounts =>
      have positive : (0 : ℚ) < (acc :: accounts).length := by
        rw [Nat.cast_pos]
        simp
      rw [divisor, List.isEmpty_cons, if_neg Bool.false_ne_true]
      exact ⟨div_nonneg lower positive.le, (div_le_one positive).mpr upper⟩

/-- The averages of a report are ratios, and it has no costs. -/
structure Aggregate.Proportionate (report : Aggregate) : Prop where
  wasteNonneg : 0 ≤ report.wasteRatioAvg
  wasteLeOne : report.wasteRatioAvg ≤ 1
  reuse : report.reuseRateAvg = 0
  totalCost : report.totalCost = 0
  costPerRequest : report.costPerRequest = 0
  costPerToken : report.costPerToken = 0

/-- Whatever was recorded, the waste of a report is a ratio between zero and
one, for every request and on average; the reuse rate is zero, and so are all
costs of the report. -/
theorem aggregate_ratios :
    (∀ acc ∈ requestAccounts overflow snap, acc.Proportionate) ∧
      (aggregateLedger overflow snap).Proportionate := by
  have ratios : ∀ acc ∈ requestAccounts overflow snap, acc.Proportionate := by
    intro acc member
    rcases exists_of_mem_requestAccounts overflow member with ⟨entries, request, rfl⟩
    exact proportionate_reconcileRequest overflow entries request
  have nothing : sumOver (requestAccounts overflow snap) RequestAccount.reuseRate = 0 := by
    apply List.sum_eq_zero
    intro rate member
    rcases List.mem_map.mp member with ⟨acc, inside, rfl⟩
    exact (ratios acc inside).reuse
  have sums := aggregateAccounts_eq (requestAccounts overflow snap)
  rcases average_mem_unit fun acc member =>
    ⟨(ratios acc member).wasteNonneg, (ratios acc member).wasteLeOne⟩ with ⟨lower, upper⟩
  rw [aggregateLedger, sums]
  refine ⟨ratios, lower, upper, ?_, rfl, rfl, rfl⟩
  change sumOver _ _ / _ = 0
  rw [nothing, zero_div]

end Report

end InferenceLedger
