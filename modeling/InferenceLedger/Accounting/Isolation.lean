import InferenceLedger.Accounting.Totals

namespace InferenceLedger

open Foundation Std

/-!
# Attempts do not interfere

What an account reports as useful is the record of the attempt that won.  The
record is made of the entries of that attempt alone, so entries of other
attempts can only matter to it by making another attempt win.

Adding entries of other attempts, anywhere in the list, therefore leaves the
useful part as it was, unless one of these attempts ends successfully no
earlier than the winner.
-/

/-- The other attempt's latest end and identity are at or above the winner's. -/
def AtOrAbove (entries : List LedgerEntry) (other winner : AttemptId) : Prop :=
  latestEnd entries winner < latestEnd entries other ∨
    latestEnd entries other = latestEnd entries winner ∧ (compare winner other).isLE = true

/-- Of two attempts, one is at or above the other, or the other is preferred. -/
theorem preferredTo_of_not_atOrAbove {entries : List LedgerEntry} {other winner : AttemptId}
    (below : ¬ AtOrAbove entries other winner) : PreferredTo entries winner other := by
  have notAbove : ¬ latestEnd entries winner < latestEnd entries other :=
    fun above => below (Or.inl above)
  rcases UInt64.lt_or_eq_of_le (UInt64.not_lt.mp notAbove) with less | same
  · exact Or.inl less
  · refine Or.inr ⟨same, ?_⟩
    by_contra greater
    apply below
    exact Or.inr ⟨same, Ordering.isLE_of_eq_lt (OrientedCmp.lt_of_not_isLE greater)⟩

theorem preferredTo_self (entries : List LedgerEntry) (attempt : AttemptId) :
    PreferredTo entries attempt attempt := Or.inr ⟨rfl, by simp⟩

theorem isEmpty_of_winningAttempt {overflow : ℚ → Int} {entries : List LedgerEntry}
    {attempt : AttemptId} (winning : winningAttempt overflow entries = some attempt) :
    entries.isEmpty = false := by
  cases entries with
  | nil => cases winning
  | cons e entries => rfl

/-- The record of the attempt that the new entries leave alone. -/
theorem attemptRecord_of_mixed {es xs zs : List LedgerEntry} {w : AttemptId}
    (mixed : zs.Perm (es ++ xs)) (others : ∀ e ∈ xs, e.attempt ≠ w) (overflow : ℚ → Int) :
    attemptRecord overflow zs w = attemptRecord overflow es w := by
  rw [attemptRecord_eq_of_perm mixed, attemptRecord, attemptRecord, List.filter_append,
    filter_attempt_eq_nil others, List.append_nil]

/-- Attempts do not interfere.  Let `w` win among the entries `es`, and let the
entries `xs` belong to other attempts, none of which ends successfully at or
above `w` when both are taken together.  In whatever order `es` and `xs` are
mixed, the account reports the same useful work as for `es` alone. -/
theorem attempts_do_not_interfere (overflow : ℚ → Int) {es xs zs : List LedgerEntry}
    {w : AttemptId} (selected : winningAttempt overflow es = some w)
    (others : ∀ e ∈ xs, e.attempt ≠ w)
    (below : ∀ attempt, attempt ≠ w → Succeeds (es ++ xs) attempt →
      ¬ AtOrAbove (es ++ xs) attempt w)
    (mixed : zs.Perm (es ++ xs)) (request : RequestId) :
    let account := reconcileRequest overflow zs request
    let alone := reconcileRequest overflow es request
    account.completed = alone.completed ∧ account.executionS = alone.executionS ∧
      account.prefillS = alone.prefillS ∧ account.decodeS = alone.decodeS ∧
      account.gpuActiveS = alone.gpuActiveS ∧ account.cpuActiveS = alone.cpuActiveS ∧
      account.generatedTokens = alone.generatedTokens := by
  have records := @attemptRecord_eq_of_perm overflow _ _ mixed
  have record := attemptRecord_of_mixed mixed others overflow
  have wins : Wins (es ++ xs) w := by
    have succeeded := ((winning_iff_wins overflow es w).mp selected).1
    refine ⟨?_, ?_⟩
    · rw [← successful_attemptRecord_iff overflow, ← records, record,
        successful_attemptRecord_iff]
      exact succeeded
    · intro other succeeds
      by_cases same : other = w
      · rw [same]
        exact preferredTo_self (es ++ xs) w
      · exact preferredTo_of_not_atOrAbove (below other same succeeds)
  have stillSelected : winningAttempt overflow zs = some w := by
    rw [winningAttempt_congr records]
    exact (winning_iff_wins overflow (es ++ xs) w).mpr wins
  have sameWinner : winnerRecord overflow zs = winnerRecord overflow es := by
    rw [winnerRecord, winnerRecord, stillSelected, selected, Option.map_some, Option.map_some,
      record]
  rcases useful_eq_winnerRecord overflow zs request with
    ⟨completed, execution, prefill, decode, gpu, cpu, tokens⟩
  rcases useful_eq_winnerRecord overflow es request with
    ⟨completed', execution', prefill', decode', gpu', cpu', tokens'⟩
  refine ⟨?_, ?_, ?_, ?_, ?_, ?_, ?_⟩
  · rw [completed, completed', sameWinner]
  · rw [execution, execution', sameWinner]
  · rw [prefill, prefill', sameWinner]
  · rw [decode, decode', sameWinner]
  · rw [gpu, gpu', sameWinner]
  · rw [cpu, cpu', sameWinner, isEmpty_of_winningAttempt stillSelected,
      isEmpty_of_winningAttempt selected]
  · rw [tokens, tokens', sameWinner]

/-- The end of an attempt of the request `⟨0, 3⟩`. -/
def attemptEnd (attempt : AttemptId) (startTsNs : UInt64) : LedgerEntry :=
  { request := ⟨0, 3⟩, attempt, eventKind := .requestEnd, startTsNs }

/-- An earlier end of the attempt `⟨0, 5⟩`, mixed into the entries of `⟨0, 4⟩`. -/
theorem earlier_attempt_does_not_interfere :
    let account := reconcileRequest (fun _ => 0)
      [attemptEnd ⟨0, 4⟩ 8, attemptEnd ⟨0, 5⟩ 7, attemptEnd ⟨0, 4⟩ 9] ⟨0, 3⟩
    let alone := reconcileRequest (fun _ => 0) [attemptEnd ⟨0, 4⟩ 8, attemptEnd ⟨0, 4⟩ 9] ⟨0, 3⟩
    account.completed = alone.completed ∧ account.executionS = alone.executionS ∧
      account.prefillS = alone.prefillS ∧ account.decodeS = alone.decodeS ∧
      account.gpuActiveS = alone.gpuActiveS ∧ account.cpuActiveS = alone.cpuActiveS ∧
      account.generatedTokens = alone.generatedTokens := by
  have selected : winningAttempt (fun _ => 0) [attemptEnd ⟨0, 4⟩ 8, attemptEnd ⟨0, 4⟩ 9] =
      some ⟨0, 4⟩ := by decide +kernel
  have others : ∀ e ∈ [attemptEnd ⟨0, 5⟩ 7], e.attempt ≠ ⟨0, 4⟩ := by decide
  have below : ∀ attempt : AttemptId, attempt ≠ ⟨0, 4⟩ →
      Succeeds ([attemptEnd ⟨0, 4⟩ 8, attemptEnd ⟨0, 4⟩ 9] ++ [attemptEnd ⟨0, 5⟩ 7]) attempt →
      ¬ AtOrAbove ([attemptEnd ⟨0, 4⟩ 8, attemptEnd ⟨0, 4⟩ 9] ++ [attemptEnd ⟨0, 5⟩ 7]) attempt
        ⟨0, 4⟩ := by
    intro attempt different succeeds
    have known := mem_attemptsOf_of_succeeds _ succeeds
    have only : attempt = ⟨0, 5⟩ := by
      simpa [attemptsOf, attemptEnd, different] using known
    subst only
    simp only [AtOrAbove]
    decide
  exact attempts_do_not_interfere (fun _ => 0) selected others below
    (List.Perm.cons _ (List.Perm.swap _ _ _)) ⟨0, 3⟩

end InferenceLedger
