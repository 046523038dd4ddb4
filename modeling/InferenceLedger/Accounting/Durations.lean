import InferenceLedger.Accounting.Signs

namespace InferenceLedger

open Foundation Std

/-!
# Times of an account

A duration is the unsigned difference of two timestamps, so no time of an
account is negative, whatever the entries are.  The times of an attempt fit
together as well: its execution is its GPU time and its CPU time, and the GPU
time covers prefill and decode.  The account takes all of them from one attempt,
the winner, and so they fit together there.
-/

/-- The times of an attempt fit together. -/
structure AttemptAttr.Timely (att : AttemptAttr) : Prop where
  prefill : 0 ≤ att.prefillS
  decode : 0 ≤ att.decodeS
  phases : att.prefillS + att.decodeS ≤ att.gpuS
  cpu : 0 ≤ att.cpuS
  split : att.execS = att.gpuS + att.cpuS
  rejected : 0 ≤ att.specRejS

namespace AttemptAttr.Timely

theorem empty : ({} : AttemptAttr).Timely :=
  ⟨le_rfl, le_rfl, by norm_num, le_rfl, by norm_num, le_rfl⟩

theorem gpu {att : AttemptAttr} (timely : att.Timely) : 0 ≤ att.gpuS := by
  linarith [timely.prefill, timely.decode, timely.phases]

theorem exec {att : AttemptAttr} (timely : att.Timely) : 0 ≤ att.execS := by
  rw [timely.split]
  exact add_nonneg timely.gpu timely.cpu

/-- Every kind of event keeps the times together. -/
theorem observe {att : AttemptAttr} (timely : att.Timely) (overflow : ℚ → Int) (e : LedgerEntry) :
    (att.observe overflow e).Timely := by
  have duration := durSec_nonneg e
  rcases timely with ⟨prefill, decode, phases, cpu, split, rejected⟩
  unfold AttemptAttr.observe
  dsimp only
  split
  -- The kinds that the loop does not tell apart leave the record as it is.
  case h_10 => exact ⟨prefill, decode, phases, cpu, split, rejected⟩
  all_goals
    refine ⟨?_, ?_, ?_, ?_, ?_, ?_⟩
    all_goals
      dsimp only
      linarith

end AttemptAttr.Timely

section Records

variable (overflow : ℚ → Int) (entries : List LedgerEntry)

theorem timely_attemptRecord (attempt : AttemptId) :
    (attemptRecord overflow entries attempt).Timely := by
  have folded : ∀ (group : List LedgerEntry) (att : AttemptAttr), att.Timely →
      (group.foldl (AttemptAttr.observe overflow) att).Timely := by
    intro group
    induction group with
    | nil => exact fun _ timely => timely
    | cons e group ih => exact fun att timely => ih _ (timely.observe overflow e)
  exact folded _ {} .empty

/-- The records that the last loop goes over. -/
theorem timely_of_mem_attempts {kvp : AttemptId × AttemptAttr}
    (member : kvp ∈ (scanEntries overflow entries).attempts.toList) : kvp.2.Timely := by
  rcases kvp with ⟨attempt, att⟩
  have found := ExtTreeMap.mem_toList_iff_getElem?_eq_some.mp member
  rw [getElem?_attempts_scanEntries] at found
  split at found
  · rw [← Option.some.inj found]
    exact timely_attemptRecord overflow entries attempt
  · cases found

/-- The record of the winner, or an empty one. -/
theorem timely_winnerRecord : ((winnerRecord overflow entries).getD {}).Timely := by
  rw [winnerRecord]
  cases winningAttempt overflow entries with
  | none => exact .empty
  | some winner => exact timely_attemptRecord overflow entries winner

/-- No kind of waste is negative. -/
theorem wasteOf_nonneg :
    let waste := wasteOf (winningAttempt overflow entries)
      (scanEntries overflow entries).attempts.toList
    0 ≤ waste.failedWork ∧ 0 ≤ waste.cancelledWork ∧ 0 ≤ waste.specWasted := by
  intro waste
  rcases wasteOf_eq_sums (winningAttempt overflow entries)
    (scanEntries overflow entries).attempts.toList with ⟨failed, cancelled, rejected⟩
  have terms : ∀ {part : AttemptId × AttemptAttr → ℚ},
      (∀ kvp, kvp.2.Timely → 0 ≤ part kvp) →
      0 ≤ ((scanEntries overflow entries).attempts.toList.map part).sum := by
    intro part nonneg
    apply List.sum_nonneg
    intro amount member
    rcases List.mem_map.mp member with ⟨kvp, inside, rfl⟩
    exact nonneg kvp (timely_of_mem_attempts overflow entries inside)
  refine ⟨?_, ?_, ?_⟩
  · rw [failed]
    apply terms
    intro kvp timely
    split
    · exact timely.exec
    · exact le_rfl
  · rw [cancelled]
    apply terms
    intro kvp timely
    split
    · exact timely.exec
    · exact le_rfl
  · rw [rejected]
    apply terms
    intro kvp timely
    split
    · exact timely.rejected
    · exact le_rfl

end Records

/-! ## The account -/

/-- The times of an account fit together. -/
structure RequestAccount.Timely (account : RequestAccount) : Prop where
  wall : 0 ≤ account.wallLatencyS.value
  queue : 0 ≤ account.queueTimeS.value
  batchWait : 0 ≤ account.batchWaitS.value
  transfer : 0 ≤ account.transferDurationS.value
  recomputed : 0 ≤ account.recomputedWork.value
  prefill : 0 ≤ account.prefillS.value
  decode : 0 ≤ account.decodeS.value
  phases : account.prefillS.value + account.decodeS.value ≤ account.gpuActiveS.value
  cpu : 0 ≤ account.cpuActiveS.value
  split : account.executionS.value = account.gpuActiveS.value + account.cpuActiveS.value
  failed : 0 ≤ account.failedAttemptWork.value
  cancelled : 0 ≤ account.cancelledWork.value
  specWasted : 0 ≤ account.specWastedWorkS.value

theorem RequestAccount.Timely.execution {account : RequestAccount} (timely : account.Timely) :
    0 ≤ account.executionS.value := by
  rw [timely.split]
  linarith [timely.prefill, timely.decode, timely.phases, timely.cpu]

/-- The totals of the scan that are times. -/
def Total.isTime : Total → Bool
  | .queueS | .batchS | .transDur | .recomputeS => true
  | _ => false

theorem observe_time_nonneg (overflow : ℚ → Int) (e : LedgerEntry) {total : Total}
    (time : total.isTime = true) : 0 ≤ (({} : Scan).observe overflow e).totals total := by
  have duration := durSec_nonneg e
  cases total <;> cases time <;> cases kind : e.eventKind <;>
    simp [Scan.observe, kind, Scan.add, Scan.count, Scan.visit, duration]

theorem totals_time_nonneg (overflow : ℚ → Int) (entries : List LedgerEntry) {total : Total}
    (time : total.isTime = true) : 0 ≤ (scanEntries overflow entries).totals total := by
  rw [totals_scanEntries]
  apply List.sum_nonneg
  intro amount member
  rcases List.mem_map.mp member with ⟨e, -, rfl⟩
  exact observe_time_nonneg overflow e time

theorem wallLatency_nonneg (overflow : ℚ → Int) (entries : List LedgerEntry)
    (request : RequestId) : 0 ≤ (reconcileRequest overflow entries request).wallLatencyS.value := by
  simp only [reconcileRequest, Scan.account, derived]
  split
  · unfold sec
    positivity
  · exact le_rfl

theorem timely_reconcileRequest (overflow : ℚ → Int) (entries : List LedgerEntry)
    (request : RequestId) : (reconcileRequest overflow entries request).Timely := by
  have winner := timely_winnerRecord overflow entries
  rcases useful_eq_winnerRecord overflow entries request with
    ⟨-, execution, prefill, decode, gpu, cpu, -⟩
  rcases waste_eq_wasteOf overflow entries request with ⟨failed, cancelled, rejected⟩
  rcases wasteOf_nonneg overflow entries with ⟨failedWork, cancelledWork, specWasted⟩
  have field : ∀ {part : AttemptAttr → ℚ}, part {} = 0 →
      ((winnerRecord overflow entries).map part).getD 0 =
        part ((winnerRecord overflow entries).getD {}) := by
    intro part zero
    cases winnerRecord overflow entries with
    | none => exact zero.symm
    | some att => rfl
  constructor
  · exact wallLatency_nonneg overflow entries request
  · exact totals_time_nonneg overflow entries (by decide : Total.queueS.isTime = true)
  · exact totals_time_nonneg overflow entries (by decide : Total.batchS.isTime = true)
  · exact totals_time_nonneg overflow entries (by decide : Total.transDur.isTime = true)
  · exact totals_time_nonneg overflow entries (by decide : Total.recomputeS.isTime = true)
  · rw [prefill, derived, field rfl]
    exact winner.prefill
  · rw [decode, derived, field rfl]
    exact winner.decode
  · rw [prefill, decode, gpu, derived, derived, derived, field rfl, field rfl, field rfl]
    exact winner.phases
  · rw [cpu, field rfl]
    exact winner.cpu
  · rw [execution, gpu, cpu, derived, derived, field rfl, field rfl, field rfl]
    exact winner.split
  · rw [failed]
    exact failedWork
  · rw [cancelled]
    exact cancelledWork
  · rw [rejected, derived, field rfl]
    exact add_nonneg specWasted winner.rejected

end InferenceLedger
