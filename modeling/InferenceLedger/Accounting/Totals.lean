import InferenceLedger.Accounting.Attempts

namespace InferenceLedger

open Foundation Std

/-!
# Accounts as sums over the entries

Everything that the scan of `reconcile_request` only ever adds to is a sum of
what the single entries contribute: the totals and counters of the request, and
the seconds and tokens in the record of an attempt.  The waste is a sum over
the attempts, and what is reported as useful is the record of the winner.

The scan falls into two parts that do not look at each other: the records of
the attempts, and everything else.
-/

/-! ## Totals and counters -/

namespace Scan

variable (overflow : ℚ → Int)

theorem add_totals (s : Scan) (total : Total) (amount : ℚ) :
    (s.add total amount).totals = s.totals + Pi.single total amount := by
  funext other
  by_cases same : other = total
  · subst same
    simp [add]
  · simp [add, same]

theorem count_counters (s : Scan) (counter : Counter) (amount : UInt64) :
    (s.count counter amount).counters = s.counters + Pi.single counter amount := by
  funext other
  by_cases same : other = counter
  · subst same
    simp [count]
  · simp [count, same]

@[simp] theorem count_totals (s : Scan) (counter : Counter) (amount : UInt64) :
    (s.count counter amount).totals = s.totals := rfl

@[simp] theorem add_counters (s : Scan) (total : Total) (amount : ℚ) :
    (s.add total amount).counters = s.counters := rfl

@[simp] theorem visit_totals (s : Scan) (e : LedgerEntry) :
    (s.visit overflow e).totals = s.totals := rfl

@[simp] theorem visit_counters (s : Scan) (e : LedgerEntry) :
    (s.visit overflow e).counters = s.counters := rfl

/-- An entry adds to the running totals what it adds to empty ones. -/
theorem observe_totals (s : Scan) (e : LedgerEntry) :
    (s.observe overflow e).totals = s.totals + (({} : Scan).observe overflow e).totals := by
  cases kind : e.eventKind <;>
    simp only [observe, kind, add_totals, count_totals, visit_totals, ← Pi.zero_def, add_assoc,
      zero_add, add_zero]

theorem observe_counters (s : Scan) (e : LedgerEntry) :
    (s.observe overflow e).counters = s.counters + (({} : Scan).observe overflow e).counters := by
  cases kind : e.eventKind <;>
    simp only [observe, kind, count_counters, add_counters, visit_counters, ← Pi.zero_def,
      zero_add, add_zero]

end Scan

section Folds

variable (overflow : ℚ → Int)

theorem scanEntries_concat (entries : List LedgerEntry) (e : LedgerEntry) :
    scanEntries overflow (entries ++ [e]) = (scanEntries overflow entries).observe overflow e := by
  rw [scanEntries, List.foldl_append, List.foldl_cons, List.foldl_nil, scanEntries]

theorem totals_foldl_observe (entries : List LedgerEntry) (s : Scan) :
    (entries.foldl (Scan.observe overflow) s).totals =
      s.totals + (entries.map fun e => (({} : Scan).observe overflow e).totals).sum := by
  induction entries generalizing s with
  | nil => simp
  | cons e entries ih =>
      rw [List.foldl_cons, ih, Scan.observe_totals, List.map_cons, List.sum_cons, add_assoc]

theorem counters_foldl_observe (entries : List LedgerEntry) (s : Scan) :
    (entries.foldl (Scan.observe overflow) s).counters =
      s.counters + (entries.map fun e => (({} : Scan).observe overflow e).counters).sum := by
  induction entries generalizing s with
  | nil => simp
  | cons e entries ih =>
      rw [List.foldl_cons, ih, Scan.observe_counters, List.map_cons, List.sum_cons, add_assoc]

/-- A total is the sum of what the single entries add to it. -/
theorem totals_scanEntries (entries : List LedgerEntry) (total : Total) :
    (scanEntries overflow entries).totals total =
      (entries.map fun e => (({} : Scan).observe overflow e).totals total).sum := by
  rw [scanEntries, totals_foldl_observe, Pi.add_apply, Pi.list_sum_apply, List.map_map]
  exact zero_add _

theorem counters_scanEntries (entries : List LedgerEntry) (counter : Counter) :
    (scanEntries overflow entries).counters counter =
      (entries.map fun e => (({} : Scan).observe overflow e).counters counter).sum := by
  rw [scanEntries, counters_foldl_observe, Pi.add_apply, Pi.list_sum_apply, List.map_map]
  exact zero_add _

end Folds

/-! ## Records of attempts -/

section Records

variable (overflow : ℚ → Int) (entries : List LedgerEntry)

/-- A field of the records that every entry adds to is a sum over the entries
of the attempt. -/
theorem attemptRecord_additive {M : Type} [AddMonoid M] {field : AttemptAttr → M}
    {part : LedgerEntry → M} (start : field {} = 0)
    (step : ∀ att e, field (att.observe overflow e) = field att + part e) (attempt : AttemptId) :
    field (attemptRecord overflow entries attempt) =
      ((entries.filter (fun e => e.attempt = attempt)).map part).sum := by
  have folded : ∀ (group : List LedgerEntry) (att : AttemptAttr),
      field (group.foldl (AttemptAttr.observe overflow) att) = field att + (group.map part).sum := by
    intro group
    induction group with
    | nil => simp
    | cons e group ih =>
        intro att
        rw [List.foldl_cons, ih, step, List.map_cons, List.sum_cons, add_assoc]
  rw [attemptRecord, folded, start, zero_add]

/-- The record of an attempt without entries. -/
theorem attemptRecord_of_not_mem {attempt : AttemptId} (absent : attempt ∉ attemptsOf entries) :
    attemptRecord overflow entries attempt = {} := by
  have others : ∀ e ∈ entries, e.attempt ≠ attempt := by
    rintro e member rfl
    exact absent (attempt_mem_attemptsOf member)
  rw [attemptRecord, filter_attempt_eq_nil others, List.foldl_nil]

/-- The winner, with its record. -/
def winnerRecord : Option AttemptAttr :=
  (winningAttempt overflow entries).map (attemptRecord overflow entries)

/-- The record that the account reads back from the map. -/
theorem map_getD_winningAttempt :
    (winningAttempt overflow entries).map
        (fun attempt => (scanEntries overflow entries).attempts.getD attempt {}) =
      winnerRecord overflow entries := by
  cases winning : winningAttempt overflow entries with
  | none => rw [winnerRecord, winning, Option.map_none, Option.map_none]
  | some winner =>
      have wins := (winning_iff_wins overflow entries winner).mp winning
      have known := mem_attemptsOf_of_succeeds entries wins.1
      rw [winnerRecord, winning, Option.map_some, Option.map_some,
        ExtTreeMap.getD_eq_getD_getElem?, getElem?_attempts_scanEntries, if_pos known,
        Option.getD_some]

/-- The choice of the winner depends on the records alone. -/
theorem winningAttempt_congr {overflow : ℚ → Int} {first second : List LedgerEntry}
    (same : ∀ attempt, attemptRecord overflow first attempt = attemptRecord overflow second attempt) :
    winningAttempt overflow first = winningAttempt overflow second := by
  have succeeds : ∀ attempt, Succeeds first attempt ↔ Succeeds second attempt := by
    intro attempt
    rw [← successful_attemptRecord_iff overflow, same, successful_attemptRecord_iff]
  have latest : ∀ attempt, latestEnd first attempt = latestEnd second attempt := by
    intro attempt
    rw [← (attemptRecord_fields overflow first attempt).2.2.2.1, same,
      (attemptRecord_fields overflow second attempt).2.2.2.1]
  apply Option.ext
  intro attempt
  rw [winning_iff_wins, winning_iff_wins]
  simp only [Wins, PreferredTo, succeeds, latest]

theorem isEmpty_attempts_scanEntries :
    (scanEntries overflow entries).attempts.isEmpty = entries.isEmpty := by
  cases entries with
  | nil => exact ExtTreeMap.isEmpty_empty
  | cons e entries =>
      rw [List.isEmpty_cons, ExtTreeMap.isEmpty_eq_false_iff]
      intro empty
      have known := attempt_mem_attemptsOf (List.mem_cons_self : e ∈ e :: entries)
      have found := getElem?_attempts_scanEntries overflow (e :: entries) e.attempt
      rw [empty, ExtTreeMap.getElem?_empty, if_pos known] at found
      cases found

/-- What the account reports as useful is the record of the winner. -/
theorem useful_eq_winnerRecord (request : RequestId) :
    let account := reconcileRequest overflow entries request
    let winner := winnerRecord overflow entries
    account.completed = winner.isSome ∧
      account.executionS = derived .seconds ((winner.map AttemptAttr.execS).getD 0) ∧
      account.prefillS = derived .seconds ((winner.map AttemptAttr.prefillS).getD 0) ∧
      account.decodeS = derived .seconds ((winner.map AttemptAttr.decodeS).getD 0) ∧
      account.gpuActiveS = derived .seconds ((winner.map AttemptAttr.gpuS).getD 0) ∧
      account.cpuActiveS =
        { value := (winner.map AttemptAttr.cpuS).getD 0
          unit := .seconds
          provenance := if entries.isEmpty then .unavailable else .derived } ∧
      account.generatedTokens = (winner.map AttemptAttr.genTokens).getD 0 := by
  intro account winner
  have record := map_getD_winningAttempt overflow entries
  refine ⟨?_, ?_, ?_, ?_, ?_, ?_, ?_⟩
  · exact congrArg Option.isSome record
  · exact congrArg (fun winner => derived .seconds ((winner.map AttemptAttr.execS).getD 0)) record
  · exact congrArg (fun winner => derived .seconds ((winner.map AttemptAttr.prefillS).getD 0)) record
  · exact congrArg (fun winner => derived .seconds ((winner.map AttemptAttr.decodeS).getD 0)) record
  · exact congrArg (fun winner => derived .seconds ((winner.map AttemptAttr.gpuS).getD 0)) record
  · rw [← isEmpty_attempts_scanEntries overflow entries]
    exact congrArg (fun winner => ExactQuantity.mk ((winner.map AttemptAttr.cpuS).getD 0) .seconds
      (if (scanEntries overflow entries).attempts.isEmpty then .unavailable else .derived)) record
  · exact congrArg (fun winner => (winner.map AttemptAttr.genTokens).getD 0) record

end Records

/-! ## Waste -/

/-- What the last loop adds up, as sums over the attempts that did not win. -/
theorem wasteOf_eq_sums (winning : Option AttemptId) (attempts : List (AttemptId × AttemptAttr)) :
    (wasteOf winning attempts).failedWork =
        (attempts.map fun kvp =>
          if winning ≠ some kvp.1 ∧ kvp.2.failed = true then kvp.2.execS else 0).sum ∧
      (wasteOf winning attempts).cancelledWork =
        (attempts.map fun kvp =>
          if winning ≠ some kvp.1 ∧ kvp.2.cancelled = true then kvp.2.execS else 0).sum ∧
      (wasteOf winning attempts).specWasted =
        (attempts.map fun kvp => if winning ≠ some kvp.1 then kvp.2.specRejS else 0).sum := by
  induction attempts using List.reverseRecOn with
  | nil => exact ⟨rfl, rfl, rfl⟩
  | append_singleton attempts kvp ih =>
      rw [wasteOf] at ih ⊢
      rw [List.foldl_append, List.foldl_cons, List.foldl_nil, List.map_append, List.map_append,
        List.map_append, List.sum_append, List.sum_append, List.sum_append, ← ih.1, ← ih.2.1,
        ← ih.2.2]
      by_cases won : winning = some kvp.1
      · simp [won]
      · cases failed : kvp.2.failed <;> cases cancelled : kvp.2.cancelled <;>
          simp [won, failed, cancelled]

/-- What the account reports as wasted. -/
theorem waste_eq_wasteOf (overflow : ℚ → Int) (entries : List LedgerEntry) (request : RequestId) :
    let account := reconcileRequest overflow entries request
    let waste := wasteOf (winningAttempt overflow entries)
      (scanEntries overflow entries).attempts.toList
    account.failedAttemptWork = derived .seconds waste.failedWork ∧
      account.cancelledWork = derived .seconds waste.cancelledWork ∧
      account.specWastedWorkS = derived .seconds (waste.specWasted +
        ((winnerRecord overflow entries).map AttemptAttr.specRejS).getD 0) := by
  intro account waste
  refine ⟨rfl, rfl, ?_⟩
  exact congrArg (fun winner => derived .seconds
    (waste.specWasted + (winner.map AttemptAttr.specRejS).getD 0))
    (map_getD_winningAttempt overflow entries)

end InferenceLedger
