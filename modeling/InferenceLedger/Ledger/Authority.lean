import InferenceLedger.Record.Entry

namespace InferenceLedger

open Std

/-!
# Authority

The coordinator's view of who may account for what.  An event carries an
envelope of identities and generations; `validateAuthority` compares it with
the view, one axis after the other, and names the first axis that is stale.

Two axes are global (the epoch and the accounting generation), one belongs to
the worker (its boot), and the rest belong to the request.  A request that has
never been started has no recorded generations, and an axis without a record
is not compared.
-/

/-- The authority snapshot against which events are fenced. -/
structure AuthorityState where
  epoch : CoordinatorEpoch := {}
  accountingGeneration : AccountingGeneration := {}
  requestGeneration : ExtTreeMap RequestId RequestGeneration := ∅
  currentAttempt : ExtTreeMap RequestId AttemptId := ∅
  attemptGeneration : ExtTreeMap RequestId AttemptGeneration := ∅
  workerBoot : ExtTreeMap WorkerId WorkerBootId := ∅
  requestRolled : ExtTreeMap RequestId Bool := ∅
  enforceRequestScope : Bool := true

/-- `enum class AuthorityVerdict`. -/
inductive AuthorityVerdict where
  | accept | staleEpoch | staleWorker | staleGeneration | unknownWorker | invalid
deriving DecidableEq

/-- `authority_verdict_name`. -/
def AuthorityVerdict.name : AuthorityVerdict → String
  | accept => "accept"
  | staleEpoch => "stale_epoch"
  | staleWorker => "stale_worker"
  | staleGeneration => "stale_generation"
  | unknownWorker => "unknown_worker"
  | invalid => "invalid"

/-- A recorded value that differs from the one the event carries.  An absent
record never conflicts. -/
def recordConflicts {α : Type} [DecidableEq α] (recorded : Option α) (observed : α) : Bool :=
  match recorded with
  | none => false
  | some current => current != observed

/-- A value that is recorded does not conflict exactly when it is the same. -/
theorem recordConflicts_eq_false_iff {α : Type} [DecidableEq α] {recorded : Option α}
    {current observed : α} (present : recorded = some current) :
    recordConflicts recorded observed = false ↔ recorded = some observed := by
  rw [present, Option.some.injEq]
  exact bne_eq_false_iff_eq

/-- Validate one event against the authority snapshot. -/
def validateAuthority (entry : LedgerEntry) (state : AuthorityState) : AuthorityVerdict :=
  if entry.authority.epoch ≠ state.epoch then .staleEpoch
  else if entry.authority.accountingGeneration ≠ state.accountingGeneration then .staleGeneration
  else match state.workerBoot[entry.worker]? with
    | none => .unknownWorker
    | some boot =>
        if boot ≠ entry.authority.workerBoot then .staleWorker
        else if !state.enforceRequestScope then .accept
        -- A rolled request rejects everything except a fresh RequestStart.
        else if state.requestRolled[entry.request]? = some true ∧
            entry.eventKind ≠ .requestStart then .staleGeneration
        else if recordConflicts state.requestGeneration[entry.request]?
            entry.authority.requestGeneration then .staleGeneration
        else if recordConflicts state.currentAttempt[entry.request]?
            entry.authority.attempt then .staleGeneration
        else if recordConflicts state.attemptGeneration[entry.request]?
            entry.authority.attemptGeneration then .staleGeneration
        else .accept

/-- The request-scoped part of a successful validation. -/
structure RequestScopeCurrent (entry : LedgerEntry) (state : AuthorityState) : Prop where
  notRolled : state.requestRolled[entry.request]? = some true → entry.eventKind = .requestStart
  requestGeneration :
    recordConflicts state.requestGeneration[entry.request]? entry.authority.requestGeneration = false
  attempt : recordConflicts state.currentAttempt[entry.request]? entry.authority.attempt = false
  attemptGeneration :
    recordConflicts state.attemptGeneration[entry.request]? entry.authority.attemptGeneration = false

/-- One check of the chain: it either rejects or hands over to the rest. -/
theorem ite_eq_accept_iff {condition : Prop} [Decidable condition]
    {verdict rest : AuthorityVerdict} (rejecting : verdict ≠ .accept) :
    (if condition then verdict else rest) = .accept ↔ ¬ condition ∧ rest = .accept := by
  by_cases holds : condition
  · rw [if_pos holds]
    exact ⟨fun accepted => (rejecting accepted).elim, fun passed => (passed.1 holds).elim⟩
  · rw [if_neg holds]
    exact ⟨fun accepted => ⟨holds, accepted⟩, And.right⟩

/-- Everything an accepted event agrees with.  This is the only lemma about
the comparison order; later results quote it instead of unfolding the checks. -/
theorem validateAuthority_eq_accept_iff (entry : LedgerEntry) (state : AuthorityState) :
    validateAuthority entry state = .accept ↔
      entry.authority.epoch = state.epoch ∧
      entry.authority.accountingGeneration = state.accountingGeneration ∧
      state.workerBoot[entry.worker]? = some entry.authority.workerBoot ∧
      (state.enforceRequestScope = true → RequestScopeCurrent entry state) := by
  unfold validateAuthority
  rw [ite_eq_accept_iff (by decide), ite_eq_accept_iff (by decide)]
  simp only [ne_eq, not_not]
  refine and_congr_right fun _ => and_congr_right fun _ => ?_
  cases registered : state.workerBoot[entry.worker]? with
  | none => simp
  | some boot =>
      simp only [Option.some.injEq]
      rw [ite_eq_accept_iff (by decide), not_not]
      refine and_congr_right fun _ => ?_
      cases enforced : state.enforceRequestScope with
      | false => simp
      | true =>
          simp only [Bool.not_true, Bool.false_eq_true, if_false, true_implies]
          rw [ite_eq_accept_iff (by decide), ite_eq_accept_iff (by decide),
            ite_eq_accept_iff (by decide), ite_eq_accept_iff (by decide)]
          simp only [not_and, not_not, Bool.not_eq_true]
          constructor
          · rintro ⟨notRolled, requestGeneration, attempt, attemptGeneration, -⟩
            exact ⟨notRolled, requestGeneration, attempt, attemptGeneration⟩
          · intro current
            exact ⟨current.notRolled, current.requestGeneration, current.attempt,
              current.attemptGeneration, trivial⟩

end InferenceLedger
