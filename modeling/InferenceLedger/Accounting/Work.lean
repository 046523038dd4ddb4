import InferenceLedger.Accounting.Totals

namespace InferenceLedger

open Foundation Std

/-!
# Where the execution time of a request goes

The account reports execution in three places: as useful work of the winner,
as failed work and as cancelled work.  An attempt that neither won nor failed
nor was cancelled (it was abandoned, or another attempt ended later) is in none
of them, and an attempt that both failed and was cancelled is in two, since the
source tests the two flags independently.

So the three totals differ from the execution time of the entries by exactly
the abandoned and the doubled work.  In the sum one can make up for the other;
attempt by attempt it cannot, and there only the abandoned attempts matter.
-/

section Work

variable (entries : List LedgerEntry)

open Classical in
/-- Execution of the attempts that did not win, fail or get cancelled. -/
noncomputable def abandonedWork : ℚ :=
  ∑ attempt ∈ attemptsOf entries with
    ¬ Wins entries attempt ∧ hasKind entries attempt .failure = false ∧
      hasKind entries attempt .cancellation = false,
    workOf entries attempt

/-- Execution of the attempts that both failed and were cancelled. -/
def doubledWork : ℚ :=
  ∑ attempt ∈ attemptsOf entries with
    hasKind entries attempt .failure = true ∧ hasKind entries attempt .cancellation = true,
    workOf entries attempt

theorem sum_workOf : ∑ attempt ∈ attemptsOf entries, workOf entries attempt = totalWork entries := by
  refine sum_groups LedgerEntry.attempt execWork entries (attemptsOf entries) ?_
  intro e member
  exact attempt_mem_attemptsOf member

end Work

/-! ## The three totals as sums over the attempts -/

section Totals

variable (overflow : ℚ → Int) (entries : List LedgerEntry) (request : RequestId)

open Classical in
theorem executionS_eq_sum :
    (reconcileRequest overflow entries request).executionS.value =
      ∑ attempt ∈ attemptsOf entries,
        if Wins entries attempt then workOf entries attempt else 0 := by
  rw [(useful_eq_winnerRecord overflow entries request).2.1, winnerRecord]
  cases winning : winningAttempt overflow entries with
  | none =>
      symm
      apply Finset.sum_eq_zero
      intro attempt _
      rw [if_neg]
      intro wins
      rw [(winning_iff_wins overflow entries attempt).mpr wins] at winning
      cases winning
  | some winner =>
      have wins := (winning_iff_wins overflow entries winner).mp winning
      have known := mem_attemptsOf_of_succeeds entries wins.1
      have only : ∀ attempt ∈ attemptsOf entries, attempt ≠ winner →
          (if Wins entries attempt then workOf entries attempt else 0) = 0 := by
        intro attempt _ other
        rw [if_neg]
        intro also
        rw [(winning_iff_wins overflow entries attempt).mpr also] at winning
        exact other (Option.some.inj winning)
      rw [Finset.sum_eq_single_of_mem winner known only, if_pos wins]
      exact (attemptRecord_fields overflow entries winner).2.2.2.2

/-- A bucket of the last loop, as a sum over the attempts that did not win. -/
theorem sum_not_won (flagged : AttemptAttr → Bool) (kind : EventKind)
    (reads : ∀ attempt, flagged (attemptRecord overflow entries attempt) =
      hasKind entries attempt kind) [DecidablePred (Wins entries)] :
    ((scanEntries overflow entries).attempts.toList.map fun kvp =>
        if winningAttempt overflow entries ≠ some kvp.1 ∧ flagged kvp.2 = true then kvp.2.execS
        else 0).sum =
      ∑ attempt ∈ attemptsOf entries,
        if ¬ Wins entries attempt ∧ hasKind entries attempt kind = true then
          workOf entries attempt
        else 0 := by
  rw [sum_toList (getElem?_attempts_scanEntries overflow entries)
    (fun attempt att =>
      if winningAttempt overflow entries ≠ some attempt ∧ flagged att = true then att.execS else 0)]
  refine Finset.sum_congr rfl fun attempt _ => ?_
  have exec := (attemptRecord_fields overflow entries attempt).2.2.2.2
  simp only [ne_eq, winning_iff_wins, reads, exec]

open Classical in
theorem failedWork_eq_sum :
    (reconcileRequest overflow entries request).failedAttemptWork.value =
      ∑ attempt ∈ attemptsOf entries,
        if ¬ Wins entries attempt ∧ hasKind entries attempt .failure = true then
          workOf entries attempt
        else 0 :=
  (wasteOf_eq_sums (winningAttempt overflow entries)
    (scanEntries overflow entries).attempts.toList).1.trans
    (sum_not_won overflow entries AttemptAttr.failed .failure
      fun attempt => (attemptRecord_fields overflow entries attempt).2.1)

open Classical in
theorem cancelledWork_eq_sum :
    (reconcileRequest overflow entries request).cancelledWork.value =
      ∑ attempt ∈ attemptsOf entries,
        if ¬ Wins entries attempt ∧ hasKind entries attempt .cancellation = true then
          workOf entries attempt
        else 0 :=
  (wasteOf_eq_sums (winningAttempt overflow entries)
    (scanEntries overflow entries).attempts.toList).2.1.trans
    (sum_not_won overflow entries AttemptAttr.cancelled .cancellation
      fun attempt => (attemptRecord_fields overflow entries attempt).2.2.1)

open Classical in
/-- The account balances up to the abandoned and the doubled work. -/
theorem billed_add_abandonedWork :
    (reconcileRequest overflow entries request).executionS.value +
        (reconcileRequest overflow entries request).failedAttemptWork.value +
        (reconcileRequest overflow entries request).cancelledWork.value +
        abandonedWork entries =
      totalWork entries + doubledWork entries := by
  rw [executionS_eq_sum, failedWork_eq_sum, cancelledWork_eq_sum, abandonedWork, doubledWork,
    ← sum_workOf, Finset.sum_filter, Finset.sum_filter, ← Finset.sum_add_distrib,
    ← Finset.sum_add_distrib, ← Finset.sum_add_distrib, ← Finset.sum_add_distrib]
  refine Finset.sum_congr rfl fun attempt _ => ?_
  -- A winner has neither flag, so the four cases of the flags are all there is.
  by_cases wins : Wins entries attempt
  · simp [wins, wins.1.2.1, wins.1.2.2]
  · cases failure : hasKind entries attempt .failure <;>
      cases cancellation : hasKind entries attempt .cancellation <;>
      simp [wins]

end Totals

/-! ## The work of one attempt in the totals -/

section Removal

variable (entries : List LedgerEntry) (attempt : AttemptId)

/-- The entries less the execution of this attempt. -/
def withoutWork : List LedgerEntry :=
  entries.filter fun e => !(e.attempt == attempt && e.eventKind.isExecution)

variable {entries attempt} in
theorem mem_withoutWork {e : LedgerEntry} :
    e ∈ withoutWork entries attempt ↔
      e ∈ entries ∧ ¬ (e.attempt = attempt ∧ e.eventKind.isExecution = true) := by
  rw [withoutWork, List.mem_filter, Bool.not_eq_true', ← Bool.not_eq_true, Bool.and_eq_true,
    beq_iff_eq]

theorem workOf_nonneg : 0 ≤ workOf entries attempt := by
  apply List.sum_nonneg
  intro work member
  rcases List.mem_map.mp member with ⟨e, -, rfl⟩
  unfold execWork
  split
  · exact durSec_nonneg e
  · exact le_rfl

/-- An attempt without entries did no work. -/
theorem workOf_of_not_mem (absent : attempt ∉ attemptsOf entries) : workOf entries attempt = 0 := by
  have others : ∀ e ∈ entries, e.attempt ≠ attempt := by
    rintro e member rfl
    exact absent (attempt_mem_attemptsOf member)
  rw [workOf, filter_attempt_eq_nil others, List.map_nil, List.sum_nil]

/-- What is not execution is still there. -/
theorem hasKind_withoutWork (kind : EventKind) (terminal : kind.isExecution = false)
    (other : AttemptId) :
    hasKind (withoutWork entries attempt) other kind = hasKind entries other kind := by
  rw [Bool.eq_iff_iff, hasKind, hasKind, List.any_eq_true, List.any_eq_true]
  refine exists_congr fun e => ?_
  rw [mem_withoutWork, Bool.and_eq_true, beq_iff_eq, beq_iff_eq]
  constructor
  · rintro ⟨⟨member, -⟩, found⟩
    exact ⟨member, found⟩
  · rintro ⟨member, found⟩
    refine ⟨⟨member, ?_⟩, found⟩
    rw [found.2, terminal]
    exact fun removed => Bool.noConfusion removed.2

theorem latestEnd_withoutWork (other : AttemptId) :
    latestEnd (withoutWork entries attempt) other = latestEnd entries other := by
  rw [latestEnd, latestEnd, withoutWork, List.filter_filter]
  congr 2
  apply List.filter_congr
  intro e _
  cases kind : e.eventKind <;> simp [EventKind.isExecution]

/-- The winner stays the same. -/
theorem wins_withoutWork (other : AttemptId) :
    Wins (withoutWork entries attempt) other ↔ Wins entries other := by
  have ended := hasKind_withoutWork entries attempt .requestEnd rfl
  have failed := hasKind_withoutWork entries attempt .failure rfl
  have cancelled := hasKind_withoutWork entries attempt .cancellation rfl
  simp only [Wins, Succeeds, PreferredTo, latestEnd_withoutWork, ended, failed, cancelled]

theorem workOf_withoutWork_self : workOf (withoutWork entries attempt) attempt = 0 := by
  apply List.sum_eq_zero
  intro work member
  rcases List.mem_map.mp member with ⟨e, listed, rfl⟩
  rcases List.mem_filter.mp listed with ⟨kept, own⟩
  rw [execWork, if_neg]
  exact fun execution => (mem_withoutWork.mp kept).2 ⟨of_decide_eq_true own, execution⟩

theorem workOf_withoutWork_of_ne {other : AttemptId} (different : other ≠ attempt) :
    workOf (withoutWork entries attempt) other = workOf entries other := by
  rw [workOf, workOf, withoutWork, List.filter_filter]
  congr 2
  apply List.filter_congr
  intro e _
  by_cases own : e.attempt = other
  · simp [own, different]
  · simp [own]

/-- A sum over some of the attempts loses the work of this one if it is among
them, and nothing else. -/
theorem sum_withoutWork (counted : AttemptId → Prop) [DecidablePred counted] :
    (∑ other ∈ attemptsOf (withoutWork entries attempt),
        if counted other then workOf (withoutWork entries attempt) other else 0) +
      (if counted attempt then workOf entries attempt else 0) =
      ∑ other ∈ attemptsOf entries, if counted other then workOf entries other else 0 := by
  have fewer : attemptsOf (withoutWork entries attempt) ⊆ attemptsOf entries := by
    intro other known
    rcases List.mem_map.mp (List.mem_toFinset.mp known) with ⟨e, member, rfl⟩
    exact attempt_mem_attemptsOf (mem_withoutWork.mp member).1
  rw [Finset.sum_subset fewer fun other _ absent => by
    rw [workOf_of_not_mem _ _ absent, ite_self]]
  by_cases known : attempt ∈ attemptsOf entries
  · rw [← Finset.sum_erase_add _ _ known, ← Finset.sum_erase_add _ _ known,
      workOf_withoutWork_self, ite_self, add_zero]
    congr 1
    apply Finset.sum_congr rfl
    intro other member
    rw [workOf_withoutWork_of_ne _ _ (Finset.ne_of_mem_erase member)]
  · rw [workOf_of_not_mem _ _ known, ite_self, add_zero]
    apply Finset.sum_congr rfl
    intro other member
    rw [workOf_withoutWork_of_ne]
    rintro rfl
    exact known member

/-- Nothing is abandoned when every attempt with work won, failed or was cancelled. -/
theorem abandonedWork_eq_zero
    (ended : ∀ attempt, workOf entries attempt ≠ 0 →
      Wins entries attempt ∨ hasKind entries attempt .failure = true ∨
        hasKind entries attempt .cancellation = true) :
    abandonedWork entries = 0 := by
  classical
  apply Finset.sum_eq_zero
  intro attempt member
  rcases (Finset.mem_filter.mp member).2 with ⟨lost, intact, kept⟩
  by_contra works
  rcases ended attempt works with wins | failed | cancelled
  · exact lost wins
  · rw [intact] at failed
    cases failed
  · rw [kept] at cancelled
    cases cancelled

theorem doubledWork_nonneg : 0 ≤ doubledWork entries :=
  Finset.sum_nonneg fun attempt _ => workOf_nonneg entries attempt

end Removal

/-- The work of the attempt is in a total of the account: without it, the total
is smaller by all of it. -/
def AppearsIn (total : RequestAccount → ℚ) (overflow : ℚ → Int) (entries : List LedgerEntry)
    (request : RequestId) (attempt : AttemptId) : Prop :=
  total (reconcileRequest overflow (withoutWork entries attempt) request) +
      workOf entries attempt ≤
    total (reconcileRequest overflow entries request)

/-- The work of the attempt is in the useful, the failed or the cancelled total. -/
def WorkAppears (overflow : ℚ → Int) (entries : List LedgerEntry) (request : RequestId)
    (attempt : AttemptId) : Prop :=
  AppearsIn (fun account => account.executionS.value) overflow entries request attempt ∨
    AppearsIn (fun account => account.failedAttemptWork.value) overflow entries request attempt ∨
    AppearsIn (fun account => account.cancelledWork.value) overflow entries request attempt

section Appearance

variable (overflow : ℚ → Int) (entries : List LedgerEntry) (request : RequestId)
  (attempt : AttemptId)

/-- A total that sums the work of some attempts, which are the same without the
work, contains that of an attempt with work exactly when it counts the attempt. -/
theorem appearsIn_iff {total : RequestAccount → ℚ} {counted : List LedgerEntry → AttemptId → Prop}
    [∀ entries, DecidablePred (counted entries)]
    (sums : ∀ entries, total (reconcileRequest overflow entries request) =
      ∑ other ∈ attemptsOf entries, if counted entries other then workOf entries other else 0)
    (same : ∀ other, counted (withoutWork entries attempt) other ↔ counted entries other) :
    AppearsIn total overflow entries request attempt ↔
      workOf entries attempt = 0 ∨ counted entries attempt := by
  have removed := sum_withoutWork entries attempt (counted entries)
  have nonneg := workOf_nonneg entries attempt
  simp only [AppearsIn, sums, same]
  rw [← removed, add_le_add_iff_left]
  by_cases counts : counted entries attempt
  · simp [counts]
  · rw [if_neg counts]
    constructor
    · exact fun small => Or.inl (small.antisymm nonneg)
    · rintro (idle | also)
      · exact idle.le
      · exact absurd also counts

open Classical in
/-- The work of an attempt is in a total exactly when the attempt won, failed or
was cancelled. -/
theorem workAppears_iff :
    WorkAppears overflow entries request attempt ↔
      workOf entries attempt = 0 ∨ Wins entries attempt ∨
        hasKind entries attempt .failure = true ∨
        hasKind entries attempt .cancellation = true := by
  have wins := wins_withoutWork entries attempt
  have failed := hasKind_withoutWork entries attempt .failure rfl
  have cancelled := hasKind_withoutWork entries attempt .cancellation rfl
  rw [WorkAppears,
    appearsIn_iff overflow entries request attempt
      (fun entries => executionS_eq_sum overflow entries request) wins,
    appearsIn_iff overflow entries request attempt
      (fun entries => failedWork_eq_sum overflow entries request)
      (fun other => by rw [wins, failed]),
    appearsIn_iff overflow entries request attempt
      (fun entries => cancelledWork_eq_sum overflow entries request)
      (fun other => by rw [wins, cancelled])]
  tauto

end Appearance

/-- No work is lost, in the sum and attempt by attempt, exactly when every
attempt with execution won, failed or was cancelled.  The sum alone is enough
exactly when the doubled work makes up for the abandoned. -/
theorem no_work_lost_iff (overflow : ℚ → Int) (entries : List LedgerEntry) (request : RequestId) :
    (totalWork entries ≤
          (reconcileRequest overflow entries request).executionS.value +
          (reconcileRequest overflow entries request).failedAttemptWork.value +
          (reconcileRequest overflow entries request).cancelledWork.value ∧
        (∀ attempt, WorkAppears overflow entries request attempt) ↔
      ∀ attempt, workOf entries attempt ≠ 0 →
        Wins entries attempt ∨ hasKind entries attempt .failure = true ∨
          hasKind entries attempt .cancellation = true) ∧
    (totalWork entries ≤
        (reconcileRequest overflow entries request).executionS.value +
        (reconcileRequest overflow entries request).failedAttemptWork.value +
        (reconcileRequest overflow entries request).cancelledWork.value ↔
      abandonedWork entries ≤ doubledWork entries) := by
  have balance := billed_add_abandonedWork overflow entries request
  refine ⟨?_, ?_⟩
  · constructor
    · rintro ⟨-, appear⟩ attempt works
      exact ((workAppears_iff overflow entries request attempt).mp (appear attempt)).resolve_left
        works
    · intro ended
      have none : abandonedWork entries = 0 := abandonedWork_eq_zero entries ended
      have positive := doubledWork_nonneg entries
      refine ⟨by linarith, fun attempt => ?_⟩
      rw [workAppears_iff]
      exact or_iff_not_imp_left.mpr (ended attempt)
  · constructor
    · intro enough
      linarith
    · intro compensated
      linarith

/-- No work is counted twice exactly when the abandoned work makes up for the
doubled. -/
theorem no_work_doubled_iff (overflow : ℚ → Int) (entries : List LedgerEntry)
    (request : RequestId) :
    (reconcileRequest overflow entries request).executionS.value +
        (reconcileRequest overflow entries request).failedAttemptWork.value +
        (reconcileRequest overflow entries request).cancelledWork.value ≤ totalWork entries ↔
      doubledWork entries ≤ abandonedWork entries := by
  have balance := billed_add_abandonedWork overflow entries request
  constructor
  · intro bounded
    linarith
  · intro compensated
    linarith

/-- One second of execution on the GPU. -/
def gpuSecond : LedgerEntry :=
  { id := ⟨0, 1⟩
    request := ⟨0, 3⟩
    attempt := ⟨0, 4⟩
    eventKind := .gpuExecution
    resourceKind := .compute
    startTsNs := 0
    endTsNs := 1000000000
    hasEnd := true }

/-- The second of an attempt without any terminal event is in no total. -/
theorem abandoned_second_is_lost :
    ¬ ∀ (overflow : ℚ → Int) (entries : List LedgerEntry) (request : RequestId),
      totalWork entries ≤
        (reconcileRequest overflow entries request).executionS.value +
        (reconcileRequest overflow entries request).failedAttemptWork.value +
        (reconcileRequest overflow entries request).cancelledWork.value := by
  intro claim
  exact absurd (claim (fun _ => 0) [gpuSecond] ⟨0, 3⟩) (by decide +kernel)

/-- The second of an attempt that failed and was cancelled is in both totals. -/
theorem failed_cancelled_second_is_doubled :
    ¬ ∀ (overflow : ℚ → Int) (entries : List LedgerEntry) (request : RequestId),
      (reconcileRequest overflow entries request).executionS.value +
        (reconcileRequest overflow entries request).failedAttemptWork.value +
        (reconcileRequest overflow entries request).cancelledWork.value ≤ totalWork entries := by
  intro claim
  exact absurd
    (claim (fun _ => 0)
      [gpuSecond, { gpuSecond with id := ⟨0, 2⟩, eventKind := .failure, hasEnd := false },
        { gpuSecond with id := ⟨0, 3⟩, eventKind := .cancellation, hasEnd := false }] ⟨0, 3⟩)
    (by decide +kernel)

end InferenceLedger
