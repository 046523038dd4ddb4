import InferenceLedger.Distributed.Fencing
import InferenceLedger.Foundation.History

namespace InferenceLedger

open Foundation Std

/-!
# Request scopes over whole runs

Four maps hold the scope of a request, and the set of requests in flight says
whether its work is still open.  They are written at different places: a
`RequestStart` writes the maps before it is appended, an accepted start or end
moves the request in or out of flight, and the loss of a worker marks what is
in flight as rolled.

Two descriptions of that state are kept apart.  The maps follow the latest
`RequestStart` that was *handled*, whatever the ledger answered; `after_records`
and `rolled_after_iff` say so over the work items of the run.  The set in flight
follows the latest start or end that was *accepted*; `ScopeInvariant` says so
over the ledger.
-/

/-- A `RequestStart` of the given request. -/
def LedgerEntry.Starts (e : LedgerEntry) (request : RequestId) : Prop :=
  e.eventKind = .requestStart ∧ e.request = request

instance (e : LedgerEntry) (request : RequestId) : Decidable (e.Starts request) :=
  inferInstanceAs (Decidable (_ ∧ _))

/-- The kind of an entry that opens or closes the given request. -/
def requestMark (request : RequestId) (e : LedgerEntry) : Option EventKind :=
  if e.request = request ∧ (e.eventKind = .requestStart ∨ e.eventKind = .requestEnd) then
    some e.eventKind
  else none

namespace Coordinator

/-- The `RequestStart` of the given request that a work item carries. -/
def startOf (request : RequestId) : WorkItem → Option LedgerEntry
  | .event _ e => if e.Starts request then some e else none
  | .register _ _ => none
  | .workerLost _ _ => none

/-- The most recent `RequestStart` of a request that was handled. -/
abbrev lastStart (request : RequestId) (items : List WorkItem) : Option LedgerEntry :=
  latest (startOf request) items

/-! ## One work item -/

/-- The three maps hold, for this request, the generations and the attempt of
this `RequestStart`. -/
structure Records (state : AuthorityState) (request : RequestId) (start : Option LedgerEntry) :
    Prop where
  requestGeneration : state.requestGeneration[request]? =
    start.map fun s => s.authority.requestGeneration
  attempt : state.currentAttempt[request]? = start.map fun s => s.authority.attempt
  attemptGeneration : state.attemptGeneration[request]? =
    start.map fun s => s.authority.attemptGeneration

theorem records_authorityFor {c : Coordinator} {request : RequestId} {start : Option LedgerEntry}
    (records : Records c.authority request start) (conn : Option Nat) (e : LedgerEntry) :
    Records (c.authorityFor e) request ((startOf request (.event conn e)).or start) := by
  unfold authorityFor startOf LedgerEntry.Starts
  by_cases starts : e.eventKind = .requestStart
  · by_cases same : e.request = request
    · subst same
      simp only [starts, and_self, if_true]
      constructor <;> simp [AuthorityState.adopt]
    · simp only [starts, same, and_false, if_true, if_false, Option.none_or]
      constructor
      · simpa [AuthorityState.adopt, ExtTreeMap.getElem?_insert, same] using records.requestGeneration
      · simpa [AuthorityState.adopt, ExtTreeMap.getElem?_insert, same] using records.attempt
      · simpa [AuthorityState.adopt, ExtTreeMap.getElem?_insert, same] using records.attemptGeneration
  · simpa only [starts, false_and, if_false, Option.none_or] using records

theorem records_accounting {c : Coordinator} {request : RequestId} {start : Option LedgerEntry}
    (records : Records c.authority request start) (item : WorkItem) :
    Records (accounting c item).1.authority request ((startOf request item).or start) := by
  cases item with
  | register conn reg => exact ⟨records.1, records.2, records.3⟩
  | event conn e => exact records_authorityFor records conn e
  | workerLost conn worker => exact ⟨records.1, records.2, records.3⟩

/-- A start clears the flag of its request, a loss sets it for the requests in
flight, and nothing else touches it. -/
theorem rolled_accountEvent (c : Coordinator) (e : LedgerEntry) (request : RequestId) :
    (c.accountEvent e).1.authority.requestRolled[request]? =
      if e.Starts request then some false else c.authority.requestRolled[request]? := by
  change (c.authorityFor e).requestRolled[request]? = _
  unfold authorityFor LedgerEntry.Starts
  by_cases starts : e.eventKind = .requestStart
  · by_cases same : e.request = request
    · simp [starts, same, AuthorityState.adopt]
    · simp [starts, same, AuthorityState.adopt, ExtTreeMap.getElem?_insert]
  · simp [starts]

theorem rolled_handleWorkerLost (c : Coordinator) (worker : WorkerId) (request : RequestId) :
    (c.handleWorkerLost worker).1.authority.requestRolled[request]? =
      if request ∈ c.inFlight then some true else c.authority.requestRolled[request]? :=
  getElem?_foldl_set c.inFlight true c.authority.requestRolled request

/-- The scope of requests is enforced at all times. -/
theorem enforceRequestScope_accounting (c : Coordinator) (item : WorkItem) :
    (accounting c item).1.authority.enforceRequestScope = c.authority.enforceRequestScope := by
  cases item with
  | register conn reg => rfl
  | workerLost conn worker => rfl
  | event conn e =>
      change (c.authorityFor e).enforceRequestScope = _
      unfold authorityFor
      split <;> rfl

theorem accountEvent_of_accepted {c : Coordinator} {e : LedgerEntry}
    (accepted : (c.accountEvent e).2.status = .accepted) :
    (c.accountEvent e).1.ledger.entries = c.ledger.entries ++ [e] := by
  rw [accountEvent_result] at accepted
  change (c.ledger.append (some (c.authorityFor e)) e).1.entries = _
  rw [Ledger.append_of_admissible ((Ledger.append_accepted_iff _ _ _).mp accepted),
    Ledger.store_entries]

/-- Only an accepted start or end moves a request in or out of flight. -/
theorem mem_inFlight_accountEvent (c : Coordinator) (e : LedgerEntry) (request : RequestId) :
    request ∈ (c.accountEvent e).1.inFlight ↔
      if (c.accountEvent e).2.status = .accepted ∧ (requestMark request e).isSome = true then
        e.eventKind = .requestStart
      else request ∈ c.inFlight := by
  by_cases accepted : (c.accountEvent e).2.status = .accepted
  · have inFlight : (c.accountEvent e).1.inFlight =
        if e.eventKind = .requestStart then c.inFlight.insert e.request
        else if e.eventKind = .requestEnd then c.inFlight.erase e.request
        else c.inFlight := by
      rw [accountEvent_result] at accepted
      simp only [accountEvent, accepted, if_true]
    rw [inFlight]
    simp only [accepted, true_and, requestMark]
    by_cases start : e.eventKind = .requestStart
    · by_cases same : e.request = request
      · simp [start, same, ExtTreeSet.mem_insert]
      · simp [start, same, ExtTreeSet.mem_insert]
    · by_cases finish : e.eventKind = .requestEnd
      · by_cases same : e.request = request
        · simp [finish, same, ExtTreeSet.mem_erase]
        · simp [finish, same, ExtTreeSet.mem_erase]
      · simp [start, finish]
  · rw [(accountEvent_of_refused accepted).2, if_neg (fun both => accepted both.1)]

/-! ## The invariant of the containers -/

/-- How the five containers hang together, and how the set in flight is read
off the ledger. -/
structure ScopeInvariant (c : Coordinator) : Prop where
  attemptKeys : ∀ request,
    request ∈ c.authority.currentAttempt ↔ request ∈ c.authority.requestGeneration
  attemptGenerationKeys : ∀ request,
    request ∈ c.authority.attemptGeneration ↔ request ∈ c.authority.requestGeneration
  rolledKeys : ∀ request,
    request ∈ c.authority.requestRolled ↔ request ∈ c.authority.requestGeneration
  inFlightKeys : ∀ request, request ∈ c.inFlight → request ∈ c.authority.requestGeneration
  inFlight_iff : ∀ request,
    request ∈ c.inFlight ↔ latest (requestMark request) c.ledger.entries = some .requestStart

/-- The new ledger and the new set in flight agree, whatever was answered. -/
theorem inFlight_iff_accountEvent {c : Coordinator} {e : LedgerEntry} {request : RequestId}
    (before : request ∈ c.inFlight ↔
      latest (requestMark request) c.ledger.entries = some .requestStart) :
    request ∈ (c.accountEvent e).1.inFlight ↔
      latest (requestMark request) (c.accountEvent e).1.ledger.entries = some .requestStart := by
  rw [mem_inFlight_accountEvent]
  by_cases accepted : (c.accountEvent e).2.status = .accepted
  · rw [accountEvent_of_accepted accepted, latest_concat]
    by_cases marked : e.request = request ∧
        (e.eventKind = .requestStart ∨ e.eventKind = .requestEnd)
    · simp [accepted, requestMark, marked]
    · simp [requestMark, marked, before]
  · rw [(accountEvent_of_refused accepted).1, if_neg (fun both => accepted both.1)]
    exact before

theorem ScopeInvariant.event {c : Coordinator} (invariant : ScopeInvariant c) (e : LedgerEntry) :
    ScopeInvariant (c.accountEvent e).1 := by
  by_cases start : e.eventKind = .requestStart
  · have adopted : (c.accountEvent e).1.authority = c.authority.adopt e := if_pos start
    refine ⟨?_, ?_, ?_, ?_, fun request => inFlight_iff_accountEvent (invariant.inFlight_iff request)⟩
    · intro request
      simp [adopted, AuthorityState.adopt, ExtTreeMap.mem_insert, invariant.attemptKeys request]
    · intro request
      simp [adopted, AuthorityState.adopt, ExtTreeMap.mem_insert,
        invariant.attemptGenerationKeys request]
    · intro request
      simp [adopted, AuthorityState.adopt, ExtTreeMap.mem_insert, invariant.rolledKeys request]
    · intro request member
      rw [mem_inFlight_accountEvent] at member
      rw [adopted]
      simp only [AuthorityState.adopt, ExtTreeMap.mem_insert, Std.compare_eq_iff_eq]
      by_cases same : e.request = request
      · exact Or.inl same
      · simp only [requestMark, same, false_and, if_false, Option.isSome_none,
          Bool.false_eq_true, and_false] at member
        exact Or.inr (invariant.inFlightKeys request member)
  · have kept : (c.accountEvent e).1.authority = c.authority := if_neg start
    refine ⟨?_, ?_, ?_, ?_, fun request => inFlight_iff_accountEvent (invariant.inFlight_iff request)⟩
    · rw [kept]
      exact invariant.attemptKeys
    · rw [kept]
      exact invariant.attemptGenerationKeys
    · rw [kept]
      exact invariant.rolledKeys
    · intro request member
      rw [mem_inFlight_accountEvent] at member
      rw [kept]
      split at member
      · exact (start member).elim
      · exact invariant.inFlightKeys request member

/-- A loss only adds to the rolled map, and only under keys that are there. -/
theorem ScopeInvariant.workerLost {c : Coordinator} (invariant : ScopeInvariant c)
    (worker : WorkerId) : ScopeInvariant (c.handleWorkerLost worker).1 where
  attemptKeys := invariant.attemptKeys
  attemptGenerationKeys := invariant.attemptGenerationKeys
  inFlightKeys := invariant.inFlightKeys
  inFlight_iff := invariant.inFlight_iff
  rolledKeys request := by
    rw [ExtTreeMap.mem_iff_isSome_getElem?, rolled_handleWorkerLost]
    by_cases member : request ∈ c.inFlight
    · simp only [member, if_true, Option.isSome_some, true_iff]
      exact invariant.inFlightKeys request member
    · rw [if_neg member, ← ExtTreeMap.mem_iff_isSome_getElem?]
      exact invariant.rolledKeys request

/-- The invariant of the containers holds in every state of every run. -/
theorem scopeInvariant_after (ledgerId : LedgerId) (items : List WorkItem) :
    ScopeInvariant (after ledgerId items) := by
  have initial : ScopeInvariant (new ledgerId) := by
    constructor <;> simp [new]
  refine Machine.run_invariant ?_ initial items
  intro c item invariant
  cases item with
  | register conn reg => exact ⟨invariant.1, invariant.2, invariant.3, invariant.4, invariant.5⟩
  | event conn e => exact invariant.event e
  | workerLost conn worker => exact invariant.workerLost worker

/-! ## The scope in terms of the run -/

section Runs

variable (ledgerId : LedgerId) (items : List WorkItem) (request : RequestId)

/-- The maps follow the latest start that was handled. -/
theorem after_records : Records (after ledgerId items).authority request (lastStart request items) := by
  let Followed (items : List WorkItem) (c : Coordinator) : Prop :=
    Records c.authority request (lastStart request items)
  have initial : Followed [] (new ledgerId) := ⟨rfl, rfl, rfl⟩
  refine Machine.run_history initial ?_ items
  intro items item c _ records
  simp only [Followed, lastStart, latest_concat]
  exact records_accounting records item

theorem enforceRequestScope_after : (after ledgerId items).authority.enforceRequestScope = true := by
  let Enforced (c : Coordinator) : Prop := c.authority.enforceRequestScope = true
  have initial : Enforced (new ledgerId) := rfl
  refine Machine.run_invariant (fun c item enforced => ?_) initial items
  exact (enforceRequestScope_accounting c item).trans enforced

/-- What is in flight has been started. -/
theorem lastStart_of_mem_inFlight (member : request ∈ (after ledgerId items).inFlight) :
    lastStart request items ≠ none := by
  induction items using List.reverseRecOn with
  | nil => exact (ExtTreeSet.not_mem_empty member).elim
  | append_singleton items item ih =>
      rw [after, Machine.run_concat] at member
      rw [lastStart, latest_concat, ne_eq, Option.or_eq_none_iff, not_and]
      cases item with
      | register conn reg => exact fun _ => ih member
      | workerLost conn worker => exact fun _ => ih member
      | event conn e =>
          intro silent
          change request ∈ ((after ledgerId items).accountEvent e).1.inFlight at member
          rw [mem_inFlight_accountEvent] at member
          split at member
          · rename_i marked
            have same : e.request = request := by
              by_contra other
              simp [requestMark, other] at marked
            have starts : e.Starts request := ⟨member, same⟩
            simp [startOf, starts] at silent
          · exact ih member

/-- A loss was processed while the request was in flight, and the request has
not been started since. -/
def RolledIn : Prop :=
  ∃ before conn worker later, items = before ++ .workerLost conn worker :: later ∧
    request ∈ (after ledgerId before).inFlight ∧ lastStart request later = none

variable {ledgerId items request}

theorem rolledIn_concat {item : WorkItem} :
    RolledIn ledgerId (items ++ [item]) request ↔
      (∃ conn worker, item = .workerLost conn worker ∧
        request ∈ (after ledgerId items).inFlight) ∨
      (startOf request item = none ∧ RolledIn ledgerId items request) := by
  constructor
  · rintro ⟨before, conn, worker, later, split, member, silent⟩
    rcases concat_eq_append_cons_iff.mp split with ⟨rfl, rfl, -⟩ | ⟨rest, rfl, rfl⟩
    · exact Or.inl ⟨conn, worker, rfl, member⟩
    · rw [lastStart, latest_concat, Option.or_eq_none_iff] at silent
      exact Or.inr ⟨silent.1, before, conn, worker, rest, rfl, member, silent.2⟩
  · rintro (⟨conn, worker, rfl, member⟩ | ⟨silent, before, conn, worker, later, rfl, member, earlier⟩)
    · exact ⟨items, conn, worker, [], rfl, member, rfl⟩
    · refine ⟨before, conn, worker, later ++ [item], moment_append rfl [item], member, ?_⟩
      rw [lastStart, latest_concat, silent]
      exact earlier

variable (ledgerId items request)

/-- The flag of a request, read off the run. -/
theorem rolled_after_iff :
    (after ledgerId items).authority.requestRolled[request]? = some true ↔
      RolledIn ledgerId items request := by
  induction items using List.reverseRecOn with
  | nil =>
      constructor
      · intro flagged
        cases flagged
      · rintro ⟨before, conn, worker, later, split, -⟩
        cases before <;> cases split
  | append_singleton items item ih =>
      rw [rolledIn_concat, after, Machine.run_concat]
      cases item with
      | register conn reg =>
          change (after ledgerId items).authority.requestRolled[request]? = some true ↔ _
          simp [startOf, ih]
      | event conn e =>
          change ((after ledgerId items).accountEvent e).1.authority.requestRolled[request]? =
            some true ↔ _
          rw [rolled_accountEvent]
          by_cases starts : e.Starts request
          · simp [startOf, starts]
          · simp [startOf, starts, ih]
      | workerLost conn worker =>
          change ((after ledgerId items).handleWorkerLost worker).1.authority.requestRolled[request]? =
            some true ↔ _
          rw [rolled_handleWorkerLost]
          by_cases member : request ∈ (after ledgerId items).inFlight
          · simp [member]
          · simp [startOf, member, ih]

variable {ledgerId}

/-- The event is accepted when it is handled after these work items. -/
abbrev AcceptedAt (ledgerId : LedgerId) (before : List WorkItem) (e : LedgerEntry) : Prop :=
  ((after ledgerId before).accountEvent e).2.status = .accepted

theorem scopeCurrent_of_accepted {before : List WorkItem} {e : LedgerEntry}
    (accepted : AcceptedAt ledgerId before e) (other : e.eventKind ≠ .requestStart) :
    RequestScopeCurrent e (after ledgerId before).authority := by
  have kept : (after ledgerId before).authorityFor e = (after ledgerId before).authority :=
    if_neg other
  rw [AcceptedAt, accountEvent_result, Ledger.append_accepted_iff, kept] at accepted
  rcases (validateAuthority_eq_accept_iff e _).mp accepted.verdict with ⟨-, -, -, scope⟩
  exact scope (enforceRequestScope_after ledgerId before)

/-- An accepted event carries the scope of the latest start of its request. -/
theorem scope_eq_of_accepted {before : List WorkItem} {e s : LedgerEntry}
    (accepted : AcceptedAt ledgerId before e) (other : e.eventKind ≠ .requestStart)
    (latestStart : lastStart e.request before = some s) :
    e.authority.requestGeneration = s.authority.requestGeneration ∧
      e.authority.attempt = s.authority.attempt ∧
      e.authority.attemptGeneration = s.authority.attemptGeneration := by
  have scope := scopeCurrent_of_accepted accepted other
  have records := after_records ledgerId before e.request
  rw [latestStart] at records
  have requestGeneration :=
    (recordConflicts_eq_false_iff records.requestGeneration).mp scope.requestGeneration
  have attempt := (recordConflicts_eq_false_iff records.attempt).mp scope.attempt
  have attemptGeneration :=
    (recordConflicts_eq_false_iff records.attemptGeneration).mp scope.attemptGeneration
  exact ⟨Option.some.inj (requestGeneration.symm.trans records.requestGeneration),
    Option.some.inj (attempt.symm.trans records.attempt),
    Option.some.inj (attemptGeneration.symm.trans records.attemptGeneration)⟩

theorem not_rolledIn_of_accepted {before : List WorkItem} {e : LedgerEntry}
    (accepted : AcceptedAt ledgerId before e) (other : e.eventKind ≠ .requestStart) :
    ¬ RolledIn ledgerId before e.request := by
  intro rolled
  have flagged := (rolled_after_iff ledgerId before e.request).mpr rolled
  exact other ((scopeCurrent_of_accepted accepted other).notRolled flagged)

end Runs

/-- Request-scope fencing over whole runs.  An accepted event that starts
nothing carries the scope of the latest `RequestStart` of its request, and no
loss found the request in flight since.  Without any start, no loss has ever
marked the request. -/
theorem request_scope_fenced {ledgerId : LedgerId} {before : List WorkItem} {e : LedgerEntry}
    (accepted : AcceptedAt ledgerId before e) (other : e.eventKind ≠ .requestStart) :
    (∀ earlier conn s later, before = earlier ++ .event conn s :: later →
      s.Starts e.request → lastStart e.request later = none →
      (e.authority.requestGeneration = s.authority.requestGeneration ∧
        e.authority.attempt = s.authority.attempt ∧
        e.authority.attemptGeneration = s.authority.attemptGeneration) ∧
      ∀ between lost worker rest, later = between ++ .workerLost lost worker :: rest →
        e.request ∉ (after ledgerId (earlier ++ .event conn s :: between)).inFlight) ∧
    (lastStart e.request before = none →
      ∀ earlier lost worker rest, before = earlier ++ .workerLost lost worker :: rest →
        e.request ∉ (after ledgerId earlier).inFlight ∧
        (after ledgerId (earlier ++ [.workerLost lost worker])).authority.requestRolled[e.request]? ≠
          some true) := by
  have notRolled := not_rolledIn_of_accepted accepted other
  constructor
  · intro earlier conn s later split starts silent
    have latestStart : lastStart e.request before = some s :=
      latest_eq_some_iff.mpr ⟨earlier, .event conn s, later, split, if_pos starts, silent⟩
    refine ⟨scope_eq_of_accepted accepted other latestStart, ?_⟩
    intro between lost worker rest cut member
    rw [cut, lastStart, latest_append, Option.or_eq_none_iff, ← List.singleton_append,
      latest_append, Option.or_eq_none_iff] at silent
    refine notRolled ⟨earlier ++ .event conn s :: between, lost, worker, rest, ?_, member, silent.1.1⟩
    rw [split, cut]
    simp
  · intro none earlier lost worker rest split
    rw [split, lastStart, latest_append, Option.or_eq_none_iff] at none
    have unstarted : e.request ∉ (after ledgerId earlier).inFlight := fun member =>
      lastStart_of_mem_inFlight ledgerId earlier e.request member none.2
    refine ⟨unstarted, fun flagged => ?_⟩
    rw [rolled_after_iff, rolledIn_concat] at flagged
    rcases flagged with ⟨-, -, -, member⟩ | ⟨-, start, conn, first, later, rfl, member, -⟩
    · exact unstarted member
    · have silent := none.2
      rw [latest_append, Option.or_eq_none_iff] at silent
      exact lastStart_of_mem_inFlight ledgerId start e.request member silent.2

/-- The first attempt of a request is started. -/
def openStart : LedgerEntry :=
  { id := ⟨0, 10⟩
    request := ⟨0, 3⟩
    worker := ⟨0, 1⟩
    attempt := ⟨0, 4⟩
    eventKind := .requestStart
    authority :=
      { epoch := ⟨1⟩, accountingGeneration := ⟨1⟩, workerBoot := ⟨0, 2⟩
        requestGeneration := ⟨1⟩, attempt := ⟨0, 4⟩, attemptGeneration := ⟨1⟩ } }

/-- A worker registers and starts the request. -/
def openRequest : List WorkItem :=
  [.register 0 { worker := ⟨0, 1⟩, boot := ⟨0, 2⟩ }, .event (some 0) openStart]

/-- Work of that attempt. -/
def openWork : LedgerEntry :=
  { id := ⟨0, 11⟩
    request := ⟨0, 3⟩
    worker := ⟨0, 1⟩
    attempt := ⟨0, 4⟩
    eventKind := .gpuExecution
    authority :=
      { epoch := ⟨1⟩, accountingGeneration := ⟨1⟩, workerBoot := ⟨0, 2⟩
        requestGeneration := ⟨1⟩, attempt := ⟨0, 4⟩, attemptGeneration := ⟨1⟩ } }

/-- The work is accepted, under the attempt that was started. -/
theorem request_scope_fenced_open :
    AcceptedAt {} openRequest openWork ∧
      openWork.authority.attempt = openStart.authority.attempt := by
  have accepted : AcceptedAt {} openRequest openWork := by decide +kernel
  have fenced := request_scope_fenced accepted (by decide)
  have split : openRequest = [.register 0 { worker := ⟨0, 1⟩, boot := ⟨0, 2⟩ }] ++
      .event (some 0) openStart :: [] := rfl
  have current := fenced.1 _ _ _ _ split (by decide) rfl
  exact ⟨accepted, current.1.2.1⟩

end Coordinator

end InferenceLedger
