import InferenceLedger.Distributed.Coordinator

namespace InferenceLedger

open Foundation Std

/-!
# What a refused event leaves behind

The ledger and the set of requests in flight change only with an accepted
event.  The request scopes do not: a `RequestStart` writes its generations
before it is appended, and nothing takes them back when the append answers
`Stale`, `Invalid`, `Duplicate` or `DuplicateConflict`.  The attempt that was
current until then is fenced out by an event that was never stored.

A refused event is therefore harmless exactly when it is no `RequestStart`, or
repeats a scope that is recorded already; and a `RequestStart` is refused
exactly when one of five conditions on the state before it fails.
-/

namespace Coordinator

/-- If the event is refused, the authoritative state is what it was. -/
def RefusalPreserves (c : Coordinator) (e : LedgerEntry) : Prop :=
  (c.accountEvent e).2.status ≠ .accepted →
    (c.accountEvent e).1.authority = c.authority ∧
    (c.accountEvent e).1.inFlight = c.inFlight ∧
    (c.accountEvent e).1.ledger.entries = c.ledger.entries ∧
    (c.accountEvent e).1.ledger.index = c.ledger.index

/-- What makes the coordinator accept a `RequestStart`.  The request scope is
not among the conditions, since the event has just written it. -/
structure StartAdmissible (c : Coordinator) (e : LedgerEntry) : Prop where
  content : contentIsValid e = true
  epoch : e.authority.epoch = c.authority.epoch
  accountingGeneration : e.authority.accountingGeneration = c.authority.accountingGeneration
  boot : c.authority.workerBoot[e.worker]? = some e.authority.workerBoot
  fresh : c.ledger.index[e.id]? = none

/-- The recorded scope of the request is the one that the event carries. -/
structure AlreadyAdopted (state : AuthorityState) (e : LedgerEntry) : Prop where
  requestGeneration : state.requestGeneration[e.request]? = some e.authority.requestGeneration
  attempt : state.currentAttempt[e.request]? = some e.authority.attempt
  attemptGeneration : state.attemptGeneration[e.request]? = some e.authority.attemptGeneration
  notRolled : state.requestRolled[e.request]? = some false

/-- The events that cannot leave a trace without being stored. -/
def RefusalHarmless (c : Coordinator) (e : LedgerEntry) : Prop :=
  e.eventKind ≠ .requestStart ∨ StartAdmissible c e ∨ AlreadyAdopted c.authority e

theorem adopt_eq_self_iff (state : AuthorityState) (e : LedgerEntry) :
    state.adopt e = state ↔ AlreadyAdopted state e := by
  constructor
  · intro unchanged
    exact
      { requestGeneration :=
          (insert_eq_self_iff _ _ _).mp (congrArg AuthorityState.requestGeneration unchanged)
        attempt := (insert_eq_self_iff _ _ _).mp (congrArg AuthorityState.currentAttempt unchanged)
        attemptGeneration :=
          (insert_eq_self_iff _ _ _).mp (congrArg AuthorityState.attemptGeneration unchanged)
        notRolled := (insert_eq_self_iff _ _ _).mp (congrArg AuthorityState.requestRolled unchanged) }
  · intro adopted
    simp only [AuthorityState.adopt, (insert_eq_self_iff _ _ _).mpr adopted.requestGeneration,
      (insert_eq_self_iff _ _ _).mpr adopted.attempt,
      (insert_eq_self_iff _ _ _).mpr adopted.attemptGeneration,
      (insert_eq_self_iff _ _ _).mpr adopted.notRolled]

theorem accepted_start_iff {c : Coordinator} {e : LedgerEntry}
    (start : e.eventKind = .requestStart) :
    (c.accountEvent e).2.status = .accepted ↔ StartAdmissible c e := by
  have adopted : c.authorityFor e = c.authority.adopt e := if_pos start
  constructor
  · intro accepted
    rcases fences_of_accepted accepted with ⟨epoch, generation, boot⟩
    rw [accountEvent_result, Ledger.append_accepted_iff] at accepted
    exact ⟨accepted.content, epoch, generation, boot, accepted.fresh⟩
  · intro admissible
    rw [accountEvent_result, Ledger.append_accepted_iff, adopted]
    refine ⟨admissible.content, ?_, admissible.fresh⟩
    exact (validateAuthority_eq_accept_iff e _).mpr ⟨admissible.epoch,
      admissible.accountingGeneration, admissible.boot,
      fun _ => requestScopeCurrent_adopt start c.authority⟩

/-- The exact condition, in every state. -/
theorem refusalPreserves_iff (c : Coordinator) (e : LedgerEntry) :
    RefusalPreserves c e ↔ RefusalHarmless c e := by
  by_cases start : e.eventKind = .requestStart
  · have adopted : (c.accountEvent e).1.authority = c.authority.adopt e := if_pos start
    constructor
    · intro preserves
      by_cases admissible : StartAdmissible c e
      · exact Or.inr (Or.inl admissible)
      · have unchanged := (preserves (mt (accepted_start_iff start).mp admissible)).1
        rw [adopted] at unchanged
        exact Or.inr (Or.inr ((adopt_eq_self_iff _ _).mp unchanged))
    · rintro (other | admissible | same) refused
      · exact (other start).elim
      · exact (refused ((accepted_start_iff start).mpr admissible)).elim
      · rcases accountEvent_of_refused refused with ⟨ledger, inFlight⟩
        rw [adopted, ledger]
        exact ⟨(adopt_eq_self_iff _ _).mpr same, inFlight, rfl, rfl⟩
  · refine ⟨fun _ => Or.inl start, fun _ refused => ?_⟩
    rcases accountEvent_of_refused refused with ⟨ledger, inFlight⟩
    have kept : (c.accountEvent e).1.authority = c.authority := if_neg start
    rw [ledger]
    exact ⟨kept, inFlight, rfl, rfl⟩

/-- Refused events over whole runs.  In every reachable state the condition is
exact; and a run whose events all meet it at their moment never loses
authoritative state to a refused event. -/
theorem refused_events_preserve_iff (ledgerId : LedgerId) (steps : List Action) :
    (∀ e, RefusalPreserves (actions.run (new ledgerId) steps) e ↔
      RefusalHarmless (actions.run (new ledgerId) steps) e) ∧
    ((∀ before conn e after, steps = before ++ .work (.event conn e) :: after →
        RefusalHarmless (actions.run (new ledgerId) before) e) →
      ∀ before conn e after, steps = before ++ .work (.event conn e) :: after →
        RefusalPreserves (actions.run (new ledgerId) before) e) := by
  refine ⟨fun e => refusalPreserves_iff _ e, ?_⟩
  intro harmless before conn e after split
  exact (refusalPreserves_iff _ e).mpr (harmless before conn e after split)

/-- One connection, on which worker 1 has registered with boot 2. -/
def oneWorker : List Action := [.accept, .work (.register 0 { worker := ⟨0, 1⟩, boot := ⟨0, 2⟩ })]

/-- A delayed `RequestStart` of that worker from before the current epoch. -/
def delayedStart : LedgerEntry :=
  { id := ⟨0, 5⟩
    request := ⟨0, 3⟩
    worker := ⟨0, 1⟩
    attempt := ⟨0, 4⟩
    eventKind := .requestStart
    authority :=
      { epoch := ⟨0⟩, workerBoot := ⟨0, 2⟩, accountingGeneration := ⟨1⟩, attempt := ⟨0, 4⟩ } }

/-- The delayed event is refused as stale, and its attempt becomes the current
one all the same. -/
theorem refused_start_leaves_scope :
    ¬ ∀ (ledgerId : LedgerId) (steps : List Action) (e : LedgerEntry),
      RefusalPreserves (actions.run (new ledgerId) steps) e := by
  intro preserves
  have refused : ((actions.run (new {}) oneWorker).accountEvent delayedStart).2.status = .stale := by
    decide +kernel
  have unchanged := (preserves {} oneWorker delayedStart (by rw [refused]; decide)).1
  have recorded : ((actions.run (new {}) oneWorker).accountEvent
      delayedStart).1.authority.currentAttempt[delayedStart.request]? = some ⟨0, 4⟩ := by
    decide +kernel
  have absent : (actions.run (new {}) oneWorker).authority.currentAttempt[delayedStart.request]? =
      none := by decide +kernel
  rw [unchanged, absent] at recorded
  cases recorded

end Coordinator

end InferenceLedger
