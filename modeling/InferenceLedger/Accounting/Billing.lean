import InferenceLedger.Accounting.Pricing
import InferenceLedger.Accounting.Totals
import InferenceLedger.Ledger.Append

namespace InferenceLedger

open Foundation Std

/-!
# From entries to a bill

The account and the price are computed in different files, and the seconds of a
request pass through several fields in between.  Two things show only when both
are put together.

Execution time includes the time on the CPU, and all of it is billed at the GPU
rate; the time on the CPU is then billed again at its own rate.  And a cost
adjustment, which the scan leaves to the pricing layer, is not in any field of
the account, so the pricing layer never sees it.
-/

/-! ## Compute seconds -/

/-- The kinds that run on the GPU. -/
def EventKind.isGpuWork : EventKind → Bool
  | prefill | decode | gpuExecution => true
  | _ => false

section Seconds

variable (entries : List LedgerEntry)

/-- The duration of the entries of the kinds that run on the GPU. -/
def gpuSeconds : ℚ := ((entries.filter (fun e => e.eventKind.isGpuWork)).map durSec).sum

/-- The duration of the entries that run on the CPU. -/
def cpuSeconds : ℚ := ((entries.filter (fun e => e.eventKind = .cpuExecution)).map durSec).sum

/-- There is no entry of a kind that is billed as waste. -/
def Clean : Prop :=
  ∀ e ∈ entries, e.eventKind ≠ .failure ∧ e.eventKind ≠ .cancellation ∧
    e.eventKind ≠ .speculationRejected ∧ e.eventKind ≠ .recompute

theorem sum_execWork : (entries.map execWork).sum = gpuSeconds entries + cpuSeconds entries := by
  induction entries with
  | nil => simp [gpuSeconds, cpuSeconds]
  | cons e entries ih =>
      rw [List.map_cons, List.sum_cons, ih]
      unfold gpuSeconds cpuSeconds execWork
      cases kind : e.eventKind <;>
        simp [kind, EventKind.isExecution, EventKind.isGpuWork, add_assoc, add_left_comm]

end Seconds

section SingleAttempt

variable (overflow : ℚ → Int) {entries : List LedgerEntry} {w : AttemptId}
  (only : ∀ e ∈ entries, e.attempt = w)

include only

theorem filter_attempt_eq_self : entries.filter (fun e => e.attempt = w) = entries := by
  rw [List.filter_eq_self]
  intro e member
  exact decide_eq_true (only e member)

theorem execS_attemptRecord :
    (attemptRecord overflow entries w).execS = gpuSeconds entries + cpuSeconds entries := by
  rw [(attemptRecord_fields overflow entries w).2.2.2.2, workOf, filter_attempt_eq_self only,
    sum_execWork]

theorem cpuS_attemptRecord :
    (attemptRecord overflow entries w).cpuS = cpuSeconds entries := by
  have step : ∀ (att : AttemptAttr) (e : LedgerEntry), (att.observe overflow e).cpuS =
      att.cpuS + if e.eventKind = .cpuExecution then durSec e else 0 := by
    intro att e
    cases kind : e.eventKind <;> simp [AttemptAttr.observe, kind]
  rw [attemptRecord_additive overflow entries rfl step, filter_attempt_eq_self only,
    List.sum_map_ite, List.map_const', List.sum_replicate, nsmul_zero, add_zero, cpuSeconds]

/-- With a single attempt that wins, no attempt is left to be wasted. -/
theorem wasteOf_eq_empty (winning : winningAttempt overflow entries = some w) :
    wasteOf (winningAttempt overflow entries) (scanEntries overflow entries).attempts.toList =
      {} := by
  have won : ∀ kvp ∈ (scanEntries overflow entries).attempts.toList, kvp.1 = w := by
    rintro ⟨attempt, att⟩ member
    rcases (mem_toList_attempts_iff overflow entries attempt att).mp member with ⟨known, -⟩
    rcases List.mem_map.mp (List.mem_toFinset.mp known) with ⟨e, inside, rfl⟩
    exact only e inside
  rw [winning]
  generalize (scanEntries overflow entries).attempts.toList = attempts at won
  induction attempts with
  | nil => rfl
  | cons kvp attempts ih =>
      rw [wasteOf, List.foldl_cons, if_pos (congrArg some (won kvp List.mem_cons_self).symm)]
      exact ih fun other member => won other (List.mem_cons_of_mem _ member)

end SingleAttempt

/-- Without rejected speculation, an attempt carries no waste of its own. -/
theorem specRejS_attemptRecord (overflow : ℚ → Int) {entries : List LedgerEntry}
    (clean : Clean entries) (attempt : AttemptId) :
    (attemptRecord overflow entries attempt).specRejS = 0 := by
  have step : ∀ (att : AttemptAttr) (e : LedgerEntry), (att.observe overflow e).specRejS =
      att.specRejS + if e.eventKind = .speculationRejected then durSec e else 0 := by
    intro att e
    cases kind : e.eventKind <;> simp [AttemptAttr.observe, kind]
  rw [attemptRecord_additive overflow entries rfl step]
  apply List.sum_eq_zero
  intro amount member
  rcases List.mem_map.mp member with ⟨e, inside, rfl⟩
  exact if_neg (clean e (List.mem_of_mem_filter inside)).2.2.1

/-- Without recomputation, nothing was recomputed. -/
theorem recomputeS_scanEntries (overflow : ℚ → Int) {entries : List LedgerEntry}
    (clean : Clean entries) : (scanEntries overflow entries).totals .recomputeS = 0 := by
  rw [totals_scanEntries]
  apply List.sum_eq_zero
  intro amount member
  rcases List.mem_map.mp member with ⟨e, inside, rfl⟩
  have other := (clean e inside).2.2.2
  cases kind : e.eventKind <;> simp [Scan.observe, Scan.add, kind] at other ⊢

/-- The bill for the compute seconds of a request with a single attempt. -/
theorem computeCost_of_single_attempt (overflow : ℚ → Int) {entries : List LedgerEntry}
    {w : AttemptId} (winning : winningAttempt overflow entries = some w)
    (only : ∀ e ∈ entries, e.attempt = w) (clean : Clean entries) (request : RequestId)
    (policy : PricingPolicy) :
    (applyPricing (reconcileRequest overflow entries request) policy).computeCost =
      (gpuSeconds entries + cpuSeconds entries) * policy.rates.gpuPerSecond.toRat +
        cpuSeconds entries * policy.rates.cpuPerSecond.toRat := by
  have record : winnerRecord overflow entries = some (attemptRecord overflow entries w) := by
    rw [winnerRecord, winning, Option.map_some]
  rcases useful_eq_winnerRecord overflow entries request with ⟨-, execution, -, -, -, cpu, -⟩
  rcases waste_eq_wasteOf overflow entries request with ⟨failed, cancelled, rejected⟩
  rw [wasteOf_eq_empty overflow only winning] at failed cancelled rejected
  have recomputed : (reconcileRequest overflow entries request).recomputedWork.value = 0 :=
    recomputeS_scanEntries overflow clean
  simp only [applyPricing, execution, cpu, failed, cancelled, rejected, recomputed, record, derived,
    Option.map_some, Option.getD_some, execS_attemptRecord overflow only,
    cpuS_attemptRecord overflow only, specRejS_attemptRecord overflow clean]
  ring

/-- All entries are of one request, and of one attempt of it, which wins and
wastes nothing. -/
structure CleanRun (overflow : ℚ → Int) (entries : List LedgerEntry) (request : RequestId)
    (w : AttemptId) : Prop where
  request : ∀ e ∈ entries, e.request = request
  winning : winningAttempt overflow entries = some w
  only : ∀ e ∈ entries, e.attempt = w
  clean : Clean entries

/-- Each compute second is billed once and at its own rate exactly when there
are no seconds on the CPU, or nothing is billed for the GPU. -/
theorem seconds_billed_once_iff {overflow : ℚ → Int} {entries : List LedgerEntry}
    {request : RequestId} {w : AttemptId} (run : CleanRun overflow entries request w)
    (policy : PricingPolicy) :
    (applyPricing (reconcileRequest overflow entries request) policy).computeCost =
        policy.rates.gpuPerSecond.toRat * gpuSeconds entries +
          policy.rates.cpuPerSecond.toRat * cpuSeconds entries ↔
      policy.rates.gpuPerSecond.toRat = 0 ∨ cpuSeconds entries = 0 := by
  rw [computeCost_of_single_attempt overflow run.winning run.only run.clean, ← mul_eq_zero]
  constructor
  · intro once
    linarith
  · intro nothing
    linarith

/-- A request with one second on the CPU. -/
def cpuRun : List LedgerEntry :=
  [{ request := ⟨0, 3⟩
     attempt := ⟨0, 4⟩
     eventKind := .cpuExecution
     resourceKind := .compute
     startTsNs := 0
     endTsNs := 1000000000
     hasEnd := true },
   { request := ⟨0, 3⟩, attempt := ⟨0, 4⟩, eventKind := .requestEnd }]

theorem cleanRun_cpuRun : CleanRun (fun _ => 0) cpuRun ⟨0, 3⟩ ⟨0, 4⟩ where
  request := by decide
  winning := by decide +kernel
  only := by decide
  clean := by
    intro e member
    fin_cases member <;> decide

/-- With no rate for the GPU, the second on the CPU is billed once. -/
theorem cpu_second_billed_once :
    (applyPricing (reconcileRequest (fun _ => 0) cpuRun ⟨0, 3⟩)
        { rates := { cpuPerSecond := ⟨0x3FF0000000000000⟩ } }).computeCost =
      (⟨0⟩ : Binary64).toRat * gpuSeconds cpuRun +
        (⟨0x3FF0000000000000⟩ : Binary64).toRat * cpuSeconds cpuRun :=
  (seconds_billed_once_iff cleanRun_cpuRun _).mpr (Or.inl (by decide +kernel))

/-- With a rate for the GPU it is billed twice, at both rates. -/
theorem cpu_second_billed_twice :
    ¬ ∀ (overflow : ℚ → Int) (entries : List LedgerEntry) (request : RequestId) (w : AttemptId),
      CleanRun overflow entries request w → ∀ policy : PricingPolicy,
      (applyPricing (reconcileRequest overflow entries request) policy).computeCost =
        policy.rates.gpuPerSecond.toRat * gpuSeconds entries +
          policy.rates.cpuPerSecond.toRat * cpuSeconds entries := by
  intro claim
  exact absurd
    (claim _ _ _ _ cleanRun_cpuRun
      { rates := { gpuPerSecond := ⟨0x3FF0000000000000⟩, cpuPerSecond := ⟨0x3FF0000000000000⟩ } })
    (by decide +kernel)

/-! ## Cost adjustments -/

namespace Scan

/-- The local variables of the loop other than the attempts. -/
def rest (s : Scan) : Scan := { s with attempts := ∅ }

theorem rest_observe (overflow : ℚ → Int) (s : Scan) (e : LedgerEntry) :
    (s.observe overflow e).rest = (s.rest.observe overflow e).rest := by
  cases kind : e.eventKind <;> simp only [observe, kind] <;> rfl

theorem rest_foldl_observe (overflow : ℚ → Int) (entries : List LedgerEntry) (s : Scan) :
    (entries.foldl (observe overflow) s).rest = (entries.foldl (observe overflow) s.rest).rest := by
  induction entries generalizing s with
  | nil => rfl
  | cons e entries ih =>
      rw [List.foldl_cons, List.foldl_cons, ih, ih (s.rest.observe overflow e), rest_observe]

end Scan

/-- An account without the identities copied from the first entry and without
what is said of the entries and attempts themselves: how many there are, and
(as the provenance of the time on the CPU) whether there are any. -/
def RequestAccount.physical (account : RequestAccount) : RequestAccount :=
  { account with
    tenant := {}
    workload := {}
    model := {}
    modelRevision := {}
    cpuActiveS := { account.cpuActiveS with provenance := .derived }
    attemptCount := 0
    reconcile := {} }

/-- Pricing reads the physical part alone. -/
theorem applyPricing_physical (account : RequestAccount) (policy : PricingPolicy) :
    applyPricing account.physical policy = applyPricing account policy := rfl

section SameRecords

variable {overflow : ℚ → Int} {first second : List LedgerEntry}
  (same : ∀ attempt, attemptRecord overflow first attempt = attemptRecord overflow second attempt)

include same

theorem winnerRecord_congr : winnerRecord overflow first = winnerRecord overflow second := by
  have records : attemptRecord overflow first = attemptRecord overflow second := by
    funext attempt
    exact same attempt
  rw [winnerRecord, winnerRecord, winningAttempt_congr same, records]

/-- A sum over the attempts does not see attempts with an empty record. -/
theorem sum_attempts_congr (amount : AttemptId → AttemptAttr → ℚ)
    (empty : ∀ attempt, amount attempt {} = 0) :
    ((scanEntries overflow first).attempts.toList.map fun kvp => amount kvp.1 kvp.2).sum =
      ((scanEntries overflow second).attempts.toList.map fun kvp => amount kvp.1 kvp.2).sum := by
  have extend : ∀ {entries more : List LedgerEntry},
      ((scanEntries overflow entries).attempts.toList.map fun kvp => amount kvp.1 kvp.2).sum =
        ∑ attempt ∈ attemptsOf entries ∪ attemptsOf more,
          amount attempt (attemptRecord overflow entries attempt) := by
    intro entries more
    rw [sum_toList (getElem?_attempts_scanEntries overflow entries)]
    apply Finset.sum_subset Finset.subset_union_left
    intro attempt _ absent
    rw [attemptRecord_of_not_mem overflow entries absent, empty]
  rw [@extend first second, @extend second first, Finset.union_comm]
  apply Finset.sum_congr rfl
  intro attempt _
  rw [same]

theorem wasteOf_congr :
    wasteOf (winningAttempt overflow first) (scanEntries overflow first).attempts.toList =
      wasteOf (winningAttempt overflow second) (scanEntries overflow second).attempts.toList := by
  rcases wasteOf_eq_sums (winningAttempt overflow first)
    (scanEntries overflow first).attempts.toList with ⟨failed, cancelled, rejected⟩
  rcases wasteOf_eq_sums (winningAttempt overflow second)
    (scanEntries overflow second).attempts.toList with ⟨failed', cancelled', rejected'⟩
  rw [winningAttempt_congr same] at failed cancelled rejected ⊢
  apply Waste.ext
  · rw [failed, failed']
    exact sum_attempts_congr same (fun attempt att =>
      if winningAttempt overflow second ≠ some attempt ∧ att.failed = true then att.execS else 0)
      (by simp)
  · rw [cancelled, cancelled']
    exact sum_attempts_congr same (fun attempt att =>
      if winningAttempt overflow second ≠ some attempt ∧ att.cancelled = true then att.execS else 0)
      (by simp)
  · rw [rejected, rejected']
    exact sum_attempts_congr same (fun attempt att =>
      if winningAttempt overflow second ≠ some attempt then att.specRejS else 0) (by simp)

/-- Whether some attempt has a flag that an empty record has not. -/
theorem any_attempts_congr (flagged : AttemptAttr → Bool) (empty : flagged {} = false) :
    (scanEntries overflow first).attempts.toList.any (fun kvp => flagged kvp.2) =
      (scanEntries overflow second).attempts.toList.any (fun kvp => flagged kvp.2) := by
  have anywhere : ∀ entries : List LedgerEntry,
      (scanEntries overflow entries).attempts.toList.any (fun kvp => flagged kvp.2) = true ↔
        ∃ attempt, flagged (attemptRecord overflow entries attempt) = true := by
    intro entries
    rw [List.any_eq_true]
    constructor
    · rintro ⟨⟨attempt, att⟩, member, marked⟩
      rw [((mem_toList_attempts_iff overflow entries attempt att).mp member).2] at marked
      exact ⟨attempt, marked⟩
    · rintro ⟨attempt, marked⟩
      have known : attempt ∈ attemptsOf entries := by
        by_contra absent
        rw [attemptRecord_of_not_mem overflow entries absent, empty] at marked
        cases marked
      exact ⟨_, (mem_toList_attempts_iff overflow entries attempt _).mpr ⟨known, rfl⟩, marked⟩
  apply Bool.eq_iff_iff.mpr
  simp only [anywhere, same]

/-- The physical part of the account depends on the records of the attempts and
on the rest of the scan, and not on which attempts occur. -/
theorem physical_congr
    (rest : (scanEntries overflow first).rest = (scanEntries overflow second).rest)
    (request : RequestId) :
    (reconcileRequest overflow first request).physical =
      (reconcileRequest overflow second request).physical := by
  have winner := (map_getD_winningAttempt overflow first).trans
    ((winnerRecord_congr same).trans (map_getD_winningAttempt overflow second).symm)
  have waste := wasteOf_congr same
  have cancelled := any_attempts_congr same (fun att => att.cancelled && !att.failed) rfl
  rw [winningAttempt, winningAttempt] at winner waste
  unfold reconcileRequest Scan.account RequestAccount.physical
  simp only [winner, waste, cancelled]
  generalize scanEntries overflow first = s at rest
  generalize scanEntries overflow second = s' at rest ⊢
  cases s
  cases s'
  cases rest
  rfl

end SameRecords

/-- A cost adjustment that the ledger admits, in a currency. -/
structure IsAdjustment (e : LedgerEntry) : Prop where
  kind : e.eventKind = .costAdjustment
  unit : e.quantity.unit = .currency
  valid : contentIsValid e = true

section Inserted

variable (overflow : ℚ → Int) (before after : List LedgerEntry) {e : LedgerEntry}
  (kind : e.eventKind = .costAdjustment)

include kind

/-- An adjustment leaves every record as it is. -/
theorem attemptRecord_insert_adjustment (attempt : AttemptId) :
    attemptRecord overflow (before ++ e :: after) attempt =
      attemptRecord overflow (before ++ after) attempt := by
  have ignored : ∀ att : AttemptAttr, att.observe overflow e = att := by
    intro att
    simp only [AttemptAttr.observe, kind]
  unfold attemptRecord
  rw [List.filter_append, List.filter_append, List.filter_cons]
  split
  · rw [List.foldl_append, List.foldl_append, List.foldl_cons, ignored]
  · rfl

/-- It leaves the rest of the scan as it is, too. -/
theorem rest_insert_adjustment :
    (scanEntries overflow (before ++ e :: after)).rest =
      (scanEntries overflow (before ++ after)).rest := by
  have ignored : ∀ s : Scan, (s.observe overflow e).rest = s.rest := by
    intro s
    simp only [Scan.observe, kind]
    rfl
  unfold scanEntries
  rw [List.foldl_append, List.foldl_append, List.foldl_cons, Scan.rest_foldl_observe, ignored,
    ← Scan.rest_foldl_observe]

/-- So the physical part of the account is the same with and without it. -/
theorem physical_insert_adjustment (request : RequestId) :
    (reconcileRequest overflow (before ++ e :: after) request).physical =
      (reconcileRequest overflow (before ++ after) request).physical :=
  physical_congr (attemptRecord_insert_adjustment overflow before after kind)
    (rest_insert_adjustment overflow before after kind) request

end Inserted

/-- An adjustment, inserted anywhere, never reaches the bill: the total changes
by its amount, with the physical account unchanged, exactly when that amount is
zero. -/
theorem adjustment_billed_iff (overflow : ℚ → Int) (before after : List LedgerEntry)
    {e : LedgerEntry} (adjustment : IsAdjustment e) (request : RequestId)
    (policy : PricingPolicy) :
    ((applyPricing (reconcileRequest overflow (before ++ e :: after) request) policy).total =
        (applyPricing (reconcileRequest overflow (before ++ after) request) policy).total +
          e.quantity.value.toRat ∧
      (reconcileRequest overflow (before ++ e :: after) request).physical =
        (reconcileRequest overflow (before ++ after) request).physical) ↔
      e.quantity.value.toRat = 0 := by
  have physical := physical_insert_adjustment overflow before after adjustment.kind request
  rw [← applyPricing_physical, physical, applyPricing_physical]
  simp

/-- An adjustment by an amount of a currency. -/
def adjustmentEntry (amount : Binary64) : LedgerEntry :=
  { request := ⟨0, 3⟩
    eventKind := .costAdjustment
    resourceKind := .generic
    quantity := { value := amount, unit := .currency, provenance := .reported } }

/-- An adjustment by nothing is billed. -/
theorem zero_adjustment_is_billed :
    (applyPricing (reconcileRequest (fun _ => 0) (cpuRun ++ [adjustmentEntry ⟨0⟩]) ⟨0, 3⟩)
        {}).total =
        (applyPricing (reconcileRequest (fun _ => 0) (cpuRun ++ []) ⟨0, 3⟩) {}).total +
          (⟨0⟩ : Binary64).toRat ∧
      (reconcileRequest (fun _ => 0) (cpuRun ++ [adjustmentEntry ⟨0⟩]) ⟨0, 3⟩).physical =
        (reconcileRequest (fun _ => 0) (cpuRun ++ []) ⟨0, 3⟩).physical := by
  have adjustment : IsAdjustment (adjustmentEntry ⟨0⟩) := ⟨rfl, rfl, by decide +kernel⟩
  exact (adjustment_billed_iff (fun _ => 0) cpuRun [] adjustment ⟨0, 3⟩ {}).mpr (by decide +kernel)

/-- An adjustment by one is not. -/
theorem adjustment_is_not_billed :
    ¬ ∀ (overflow : ℚ → Int) (before after : List LedgerEntry) (e : LedgerEntry)
      (request : RequestId) (policy : PricingPolicy),
      (∀ other ∈ before ++ e :: after, other.request = request) → IsAdjustment e →
      (applyPricing (reconcileRequest overflow (before ++ e :: after) request) policy).total =
        (applyPricing (reconcileRequest overflow (before ++ after) request) policy).total +
          e.quantity.value.toRat ∧
      (reconcileRequest overflow (before ++ e :: after) request).physical =
        (reconcileRequest overflow (before ++ after) request).physical := by
  intro claim
  have adjustment : IsAdjustment (adjustmentEntry ⟨0x3FF0000000000000⟩) :=
    ⟨rfl, rfl, by decide +kernel⟩
  exact absurd (claim (fun _ => 0) [] [] _ ⟨0, 3⟩ {} (by decide) adjustment).1 (by decide +kernel)

end InferenceLedger
