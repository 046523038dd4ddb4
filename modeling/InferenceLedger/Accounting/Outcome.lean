import InferenceLedger.Accounting.Isolation

namespace InferenceLedger

open Foundation Std

/-!
# The outcome of a request

A request is completed, cancelled or failed.  It is completed when some attempt
ended and neither failed nor was cancelled, wherever in the list that is said.
The account then reports the work of one attempt, the greatest pair of latest
end and identity among the successful ones.

The work of an attempt is stated here as sums over its entries, apart from the
records in which the scan collects them.  Neither these sums nor the choice
depends on the order of the entries.
-/

/-! ## The totals of an attempt -/

section Totals

variable (overflow : ℚ → Int) (entries : List LedgerEntry) (attempt : AttemptId)

/-- The seconds that the attempt spent in events of these kinds. -/
def secondsOf (kinds : List EventKind) : ℚ :=
  ((entries.filter (fun e => e.attempt = attempt)).map fun e =>
    if e.eventKind ∈ kinds then durSec e else 0).sum

/-- The tokens that an entry reports: a decode event in counts, or accepted
speculation. -/
def tokensIn (e : LedgerEntry) : UInt64 :=
  if e.eventKind = .decode ∧ e.quantity.unit = .count ∨ e.eventKind = .speculationAccepted then
    llroundU64 overflow e.quantity.value.toRat
  else 0

/-- The tokens of the attempt. -/
def tokensOf : UInt64 :=
  ((entries.filter (fun e => e.attempt = attempt)).map (tokensIn overflow)).sum

/-- What one entry adds to the fields that are reported of the winner. -/
theorem observe_work (att : AttemptAttr) (e : LedgerEntry) :
    (att.observe overflow e).execS = att.execS +
        (if e.eventKind ∈ [.prefill, .decode, .gpuExecution, .cpuExecution] then durSec e else 0) ∧
      (att.observe overflow e).prefillS = att.prefillS +
        (if e.eventKind ∈ [.prefill] then durSec e else 0) ∧
      (att.observe overflow e).decodeS = att.decodeS +
        (if e.eventKind ∈ [.decode] then durSec e else 0) ∧
      (att.observe overflow e).gpuS = att.gpuS +
        (if e.eventKind ∈ [.prefill, .decode, .gpuExecution] then durSec e else 0) ∧
      (att.observe overflow e).cpuS = att.cpuS +
        (if e.eventKind ∈ [.cpuExecution] then durSec e else 0) ∧
      (att.observe overflow e).genTokens = att.genTokens + tokensIn overflow e := by
  cases kind : e.eventKind with
  | decode =>
      by_cases counted : e.quantity.unit = .count
      · simp [AttemptAttr.observe, kind, tokensIn, counted]
      · simp [AttemptAttr.observe, kind, tokensIn, counted]
  | _ => simp [AttemptAttr.observe, kind, tokensIn]

/-- The record of an attempt holds its totals. -/
theorem attemptRecord_work :
    let record := attemptRecord overflow entries attempt
    record.execS =
        secondsOf entries attempt [.prefill, .decode, .gpuExecution, .cpuExecution] ∧
      record.prefillS = secondsOf entries attempt [.prefill] ∧
      record.decodeS = secondsOf entries attempt [.decode] ∧
      record.gpuS = secondsOf entries attempt [.prefill, .decode, .gpuExecution] ∧
      record.cpuS = secondsOf entries attempt [.cpuExecution] ∧
      record.genTokens = tokensOf overflow entries attempt := by
  have step := observe_work overflow
  refine ⟨?_, ?_, ?_, ?_, ?_, ?_⟩
  · exact attemptRecord_additive overflow entries rfl (fun att e => (step att e).1) attempt
  · exact attemptRecord_additive overflow entries rfl (fun att e => (step att e).2.1) attempt
  · exact attemptRecord_additive overflow entries rfl (fun att e => (step att e).2.2.1) attempt
  · exact attemptRecord_additive overflow entries rfl (fun att e => (step att e).2.2.2.1) attempt
  · exact attemptRecord_additive overflow entries rfl (fun att e => (step att e).2.2.2.2.1) attempt
  · exact attemptRecord_additive overflow entries rfl (fun att e => (step att e).2.2.2.2.2) attempt

end Totals

/-! ## The three outcomes -/

/-- Exactly one of the three flags is set, and the text names it. -/
inductive RequestAccount.HasOutcome (account : RequestAccount) : Prop where
  | completed (completed : account.completed = true) (cancelled : account.cancelled = false)
      (failed : account.failed = false) (named : account.terminalOutcome = "completed")
  | cancelled (completed : account.completed = false) (cancelled : account.cancelled = true)
      (failed : account.failed = false) (named : account.terminalOutcome = "cancelled")
  | failed (completed : account.completed = false) (cancelled : account.cancelled = false)
      (failed : account.failed = true) (named : account.terminalOutcome = "failed")

/-- The work that the account reports is that of this attempt. -/
structure RequestAccount.ReportsWorkOf (account : RequestAccount) (overflow : ℚ → Int)
    (entries : List LedgerEntry) (attempt : AttemptId) : Prop where
  executionS : account.executionS.value =
    secondsOf entries attempt [.prefill, .decode, .gpuExecution, .cpuExecution]
  prefillS : account.prefillS.value = secondsOf entries attempt [.prefill]
  decodeS : account.decodeS.value = secondsOf entries attempt [.decode]
  gpuActiveS : account.gpuActiveS.value =
    secondsOf entries attempt [.prefill, .decode, .gpuExecution]
  cpuActiveS : account.cpuActiveS.value = secondsOf entries attempt [.cpuExecution]
  generatedTokens : account.generatedTokens = tokensOf overflow entries attempt

/-- Two accounts with the same outcome and the same reported work. -/
structure RequestAccount.SameOutcome (left right : RequestAccount) : Prop where
  completed : left.completed = right.completed
  cancelled : left.cancelled = right.cancelled
  failed : left.failed = right.failed
  terminalOutcome : left.terminalOutcome = right.terminalOutcome
  executionS : left.executionS = right.executionS
  prefillS : left.prefillS = right.prefillS
  decodeS : left.decodeS = right.decodeS
  gpuActiveS : left.gpuActiveS = right.gpuActiveS
  cpuActiveS : left.cpuActiveS = right.cpuActiveS
  generatedTokens : left.generatedTokens = right.generatedTokens

section Outcome

variable (overflow : ℚ → Int) (entries : List LedgerEntry) (request : RequestId)

/-- Some attempt was cancelled and did not fail. -/
def anyCancelled : Bool :=
  (scanEntries overflow entries).attempts.toList.any (fun kvp => kvp.2.cancelled && !kvp.2.failed)

theorem anyCancelled_iff :
    anyCancelled overflow entries = true ↔
      ∃ attempt, hasKind entries attempt .cancellation = true ∧
        hasKind entries attempt .failure = false := by
  have fields := attemptRecord_fields overflow entries
  rw [anyCancelled, List.any_eq_true]
  constructor
  · rintro ⟨⟨attempt, att⟩, member, isCancelled⟩
    rcases (mem_toList_attempts_iff overflow entries attempt att).mp member with ⟨-, rfl⟩
    rw [Bool.and_eq_true, Bool.not_eq_true', (fields attempt).2.2.1, (fields attempt).2.1]
      at isCancelled
    exact ⟨attempt, isCancelled⟩
  · rintro ⟨attempt, cancelled, intact⟩
    rcases List.any_eq_true.mp cancelled with ⟨e, member, found⟩
    have same : e.attempt = attempt := by
      rw [Bool.and_eq_true, beq_iff_eq] at found
      exact found.1
    have known : attempt ∈ attemptsOf entries := same ▸ attempt_mem_attemptsOf member
    refine ⟨(attempt, attemptRecord overflow entries attempt), ?_, ?_⟩
    · exact (mem_toList_attempts_iff overflow entries attempt _).mpr ⟨known, rfl⟩
    · rw [Bool.and_eq_true, Bool.not_eq_true', (fields attempt).2.2.1, (fields attempt).2.1]
      exact ⟨cancelled, intact⟩

/-- The flags and the text, from the winner and the cancellations. -/
theorem outcome_eq :
    let account := reconcileRequest overflow entries request
    let won := (winnerRecord overflow entries).isSome
    let cancelled := anyCancelled overflow entries
    account.completed = won ∧ account.cancelled = (!won && cancelled) ∧
      account.failed = (!won && !cancelled) ∧
      account.terminalOutcome =
        if won then "completed" else if cancelled then "cancelled" else "failed" := by
  dsimp only
  have record := congrArg Option.isSome (map_getD_winningAttempt overflow entries)
  have absent : ∀ winner : Option AttemptAttr, winner.isNone = !winner.isSome := by
    intro winner
    cases winner <;> rfl
  refine ⟨record, ?_, ?_, ?_⟩
  · rw [← record, ← absent]
    rfl
  · rw [← record, ← absent]
    rfl
  · rw [← record]
    rfl

theorem hasOutcome_reconcileRequest : (reconcileRequest overflow entries request).HasOutcome := by
  rcases outcome_eq overflow entries request with ⟨completed, cancelled, failed, named⟩
  cases won : (winnerRecord overflow entries).isSome with
  | true =>
      simp only [won, Bool.not_true, Bool.false_and, if_true] at completed cancelled failed named
      exact .completed completed cancelled failed named
  | false =>
      cases found : anyCancelled overflow entries with
      | true =>
          simp only [won, found, Bool.not_false, Bool.not_true, Bool.and_true, Bool.and_false,
            Bool.false_eq_true, if_true, if_false] at completed cancelled failed named
          exact .cancelled completed cancelled failed named
      | false =>
          simp only [won, found, Bool.not_false, Bool.and_true, Bool.and_false,
            Bool.false_eq_true, if_false] at completed cancelled failed named
          exact .failed completed cancelled failed named

/-- The winner's totals are what is reported. -/
theorem reportsWorkOf_winner {attempt : AttemptId}
    (winning : winningAttempt overflow entries = some attempt) :
    (reconcileRequest overflow entries request).ReportsWorkOf overflow entries attempt := by
  have winner : winnerRecord overflow entries = some (attemptRecord overflow entries attempt) := by
    rw [winnerRecord, winning, Option.map_some]
  rcases useful_eq_winnerRecord overflow entries request with
    ⟨-, execution, prefill, decode, gpu, cpu, tokens⟩
  rcases attemptRecord_work overflow entries attempt with
    ⟨execS, prefillS, decodeS, gpuS, cpuS, genTokens⟩
  rw [winner] at execution prefill decode gpu cpu tokens
  exact ⟨(congrArg ExactQuantity.value execution).trans execS,
    (congrArg ExactQuantity.value prefill).trans prefillS,
    (congrArg ExactQuantity.value decode).trans decodeS,
    (congrArg ExactQuantity.value gpu).trans gpuS,
    (congrArg ExactQuantity.value cpu).trans cpuS, tokens.trans genTokens⟩

theorem completed_iff_winning :
    (reconcileRequest overflow entries request).completed = true ↔
      ∃ attempt, winningAttempt overflow entries = some attempt := by
  rw [(outcome_eq overflow entries request).1, winnerRecord, Option.isSome_map,
    Option.isSome_iff_exists]

variable {overflow entries} in
/-- The order of the entries does not matter to the outcome. -/
theorem sameOutcome_of_perm {other : List LedgerEntry} (same : entries.Perm other) :
    (reconcileRequest overflow entries request).SameOutcome
      (reconcileRequest overflow other request) := by
  have records := @attemptRecord_eq_of_perm overflow _ _ same
  have winner : winnerRecord overflow entries = winnerRecord overflow other := by
    rw [winnerRecord, winnerRecord, winningAttempt_congr records, funext records]
  have kinds : ∀ attempt kind, hasKind entries attempt kind = hasKind other attempt kind :=
    fun attempt kind => same.any_eq
  have cancellations : anyCancelled overflow entries = anyCancelled overflow other := by
    rw [Bool.eq_iff_iff, anyCancelled_iff, anyCancelled_iff]
    simp only [kinds]
  rcases outcome_eq overflow entries request with ⟨completed, cancelled, failed, named⟩
  rcases outcome_eq overflow other request with ⟨completed', cancelled', failed', named'⟩
  rcases useful_eq_winnerRecord overflow entries request with
    ⟨-, execution, prefill, decode, gpu, cpu, tokens⟩
  rcases useful_eq_winnerRecord overflow other request with
    ⟨-, execution', prefill', decode', gpu', cpu', tokens'⟩
  refine ⟨?_, ?_, ?_, ?_, ?_, ?_, ?_, ?_, ?_, ?_⟩
  · rw [completed, completed', winner]
  · rw [cancelled, cancelled', winner, cancellations]
  · rw [failed, failed', winner, cancellations]
  · rw [named, named', winner, cancellations]
  · rw [execution, execution', winner]
  · rw [prefill, prefill', winner]
  · rw [decode, decode', winner]
  · rw [gpu, gpu', winner]
  · rw [cpu, cpu', winner, same.isEmpty_eq]
  · rw [tokens, tokens', winner]

end Outcome

/-- The account of any list of entries has exactly one outcome.  It is completed
exactly when some attempt succeeds, and then it reports the work of the
successful attempt with the greatest pair of latest end and identity.  The same
is reported for the entries in any other order. -/
theorem outcome_selected (overflow : ℚ → Int) (entries : List LedgerEntry) (request : RequestId) :
    let account := reconcileRequest overflow entries request
    account.HasOutcome ∧
      (account.completed = true ↔ ∃ attempt, Succeeds entries attempt) ∧
      (account.completed = true ↔
        ∃ attempt, Wins entries attempt ∧ account.ReportsWorkOf overflow entries attempt) ∧
      ∀ other, entries.Perm other →
        account.SameOutcome (reconcileRequest overflow other request) := by
  intro account
  have completed := completed_iff_winning overflow entries request
  refine ⟨hasOutcome_reconcileRequest overflow entries request, ?_, ?_, ?_⟩
  · rw [completed]
    constructor
    · rintro ⟨attempt, winning⟩
      exact ⟨attempt, ((winning_iff_wins overflow entries attempt).mp winning).1⟩
    · rintro ⟨attempt, succeeds⟩
      exact exists_winning_of_succeeds overflow succeeds
  · rw [completed]
    constructor
    · rintro ⟨attempt, winning⟩
      exact ⟨attempt, (winning_iff_wins overflow entries attempt).mp winning,
        reportsWorkOf_winner overflow entries request winning⟩
    · rintro ⟨attempt, wins, -⟩
      exact ⟨attempt, (winning_iff_wins overflow entries attempt).mpr wins⟩
  · intro other same
    exact sameOutcome_of_perm request same

/-- Two attempts that end at the same time, in either order. -/
theorem tied_attempts_selected_in_any_order :
    (reconcileRequest (fun _ => 0) [attemptEnd ⟨0, 5⟩ 9, attemptEnd ⟨0, 4⟩ 9] ⟨0, 3⟩).SameOutcome
      (reconcileRequest (fun _ => 0) [attemptEnd ⟨0, 4⟩ 9, attemptEnd ⟨0, 5⟩ 9] ⟨0, 3⟩) :=
  (outcome_selected (fun _ => 0) _ ⟨0, 3⟩).2.2.2 _ (List.Perm.swap _ _ _)

end InferenceLedger
