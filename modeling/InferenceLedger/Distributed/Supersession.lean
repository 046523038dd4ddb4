import InferenceLedger.Distributed.Refusals
import InferenceLedger.Distributed.RequestScope

namespace InferenceLedger

open Foundation Std

/-!
# Superseded generations and dispatches

A `RequestStart` is validated against the scope that it has just written, so
nothing compares its generations with those that were recorded before it.  A
start of an older attempt that arrives late, or arrives again, takes the request
back to that attempt, whether or not the ledger then stores it.  Generations
advance in exactly the runs in which no such start arrives.

The dispatch is part of the envelope, but it is neither recorded nor compared.
An event of a superseded dispatch is refused only because of the scope that it
carries, so the dispatches are fenced when they follow the scopes.
-/

/-- The generations of an entry are below those of another one, the request
generation first. -/
def LedgerEntry.Older (e s : LedgerEntry) : Prop :=
  e.authority.requestGeneration.value < s.authority.requestGeneration.value ∨
    e.authority.requestGeneration = s.authority.requestGeneration ∧
      e.authority.attemptGeneration.value < s.authority.attemptGeneration.value

namespace Coordinator

/-- The run handles the event right after these work items. -/
def HandledIn (items before : List WorkItem) (e : LedgerEntry) : Prop :=
  ∃ conn later, items = before ++ .event conn e :: later

/-- A `RequestStart` that was accepted among these work items. -/
def StartAccepted (ledgerId : LedgerId) (before : List WorkItem) (s : LedgerEntry) : Prop :=
  s.eventKind = .requestStart ∧
    ∃ earlier conn between, before = earlier ++ .event conn s :: between ∧
      AcceptedAt ledgerId earlier s

section Moments

variable {ledgerId : LedgerId} {items before : List WorkItem} {e s : LedgerEntry}

/-- What is handled at an earlier moment of a prefix is handled in the run. -/
theorem HandledIn.earlier (handled : HandledIn items before e) {first : List WorkItem}
    {conn : Option Nat} {rest : List WorkItem} (split : before = first ++ .event conn s :: rest) :
    HandledIn items first s := by
  rcases handled with ⟨last, later, rfl⟩
  exact ⟨conn, rest ++ .event last e :: later, moment_append split _⟩

theorem startOf_eq_some_iff {request : RequestId} {item : WorkItem} :
    startOf request item = some s ↔ ∃ conn, item = .event conn s ∧ s.Starts request := by
  cases item with
  | register conn reg => simp [startOf]
  | workerLost conn worker => simp [startOf]
  | event conn entry =>
      by_cases starts : entry.Starts request
      · simp only [startOf, if_pos starts, Option.some.injEq, WorkItem.event.injEq]
        constructor
        · rintro rfl
          exact ⟨conn, ⟨rfl, rfl⟩, starts⟩
        · rintro ⟨-, ⟨-, rfl⟩, -⟩
          rfl
      · simp only [startOf, if_neg starts, reduceCtorEq, WorkItem.event.injEq, false_iff]
        rintro ⟨-, ⟨-, rfl⟩, here⟩
        exact starts here

/-- Once a start of a request was handled, the latest one is that one or a
later one. -/
theorem exists_lastStart {earlier between : List WorkItem} {conn : Option Nat}
    (split : before = earlier ++ .event conn s :: between) (starts : s.Starts e.request) :
    ∃ newest, lastStart e.request before = some newest ∧ newest.Starts e.request ∧
      (newest = s ∨ ∃ middle later last, before = (earlier ++ .event conn s :: middle) ++
        .event last newest :: later) := by
  have present : lastStart e.request before ≠ none := by
    intro absent
    have silent := (latest_eq_none_iff _ _).mp absent (.event conn s) (by simp [split])
    simp [startOf, starts] at silent
  rcases Option.ne_none_iff_exists'.mp present with ⟨newest, found⟩
  rcases latest_eq_some_iff.mp found with ⟨first, item, later, cut, selected, silent⟩
  rcases startOf_eq_some_iff.mp selected with ⟨last, rfl, newestStarts⟩
  refine ⟨newest, found, newestStarts, ?_⟩
  rw [split] at cut
  rcases moments_compare cut with ⟨-, same, -⟩ | ⟨middle, after, -⟩ | ⟨middle, -, after⟩
  · cases same
    exact Or.inl rfl
  · refine Or.inr ⟨middle, later, last, ?_⟩
    rw [split, cut, after]
  · have missed := (latest_eq_none_iff _ _).mp silent (.event conn s) (by simp [after])
    simp [startOf, starts] at missed

end Moments

/-! ## Generations -/

/-- Generations never go backwards along the run: what is accepted after an
accepted start is not older than it, and an older start is answered as stale
and not adopted. -/
structure GenerationsAdvance (ledgerId : LedgerId) (items : List WorkItem) : Prop where
  forward : ∀ before s e, StartAccepted ledgerId before s → HandledIn items before e →
    e.request = s.request → AcceptedAt ledgerId before e →
    s.authority.requestGeneration.value ≤ e.authority.requestGeneration.value ∧
      (e.authority.requestGeneration = s.authority.requestGeneration →
        s.authority.attemptGeneration.value ≤ e.authority.attemptGeneration.value)
  superseded : ∀ before s e, StartAccepted ledgerId before s → HandledIn items before e →
    e.Starts s.request → e.Older s →
    ((after ledgerId before).accountEvent e).2.status = .stale ∧
      ¬ AlreadyAdopted ((after ledgerId before).accountEvent e).1.authority e

/-- Every start is adopted by being handled. -/
theorem alreadyAdopted_accountEvent (c : Coordinator) {e : LedgerEntry}
    (start : e.eventKind = .requestStart) :
    AlreadyAdopted (c.accountEvent e).1.authority e := by
  have adopted : (c.accountEvent e).1.authority = c.authority.adopt e := if_pos start
  rw [adopted]
  constructor <;> simp [AuthorityState.adopt]

theorem bounds_of_not_older {e s : LedgerEntry} (young : ¬ e.Older s) :
    s.authority.requestGeneration.value ≤ e.authority.requestGeneration.value ∧
      (e.authority.requestGeneration = s.authority.requestGeneration →
        s.authority.attemptGeneration.value ≤ e.authority.attemptGeneration.value) := by
  rw [LedgerEntry.Older, not_or, not_and] at young
  exact ⟨UInt64.not_lt.mp young.1, fun same => UInt64.not_lt.mp (young.2 same)⟩

/-- Generations advance along a run exactly when no start arrives that is older
than a start of the same request accepted before it. -/
theorem generations_advance_iff (ledgerId : LedgerId) (items : List WorkItem) :
    GenerationsAdvance ledgerId items ↔
      ∀ before s e, StartAccepted ledgerId before s → HandledIn items before e →
        e.Starts s.request → ¬ e.Older s := by
  constructor
  · intro advance before s e accepted handled starts older
    exact (advance.superseded before s e accepted handled starts older).2
      (alreadyAdopted_accountEvent _ starts.1)
  · intro young
    refine ⟨?_, fun before s e accepted handled starts older =>
      (young before s e accepted handled starts older).elim⟩
    intro before s e startAccepted handled same accepted
    apply bounds_of_not_older
    by_cases start : e.eventKind = .requestStart
    · exact young before s e startAccepted handled ⟨start, same⟩
    · -- The event carries the scope of the latest start, which is not older than `s`.
      rcases startAccepted with ⟨kind, earlier, conn, between, split, acceptedEarlier⟩
      rcases exists_lastStart split ⟨kind, same.symm⟩ with ⟨newest, found, starts, position⟩
      rcases scope_eq_of_accepted accepted start found with ⟨requestGeneration, -, attemptGeneration⟩
      unfold LedgerEntry.Older
      rw [requestGeneration, attemptGeneration]
      rcases position with rfl | ⟨middle, later, last, cut⟩
      · rintro (below | ⟨-, below⟩)
        · exact UInt64.lt_irrefl _ below
        · exact UInt64.lt_irrefl _ below
      · have earlierAccepted : StartAccepted ledgerId (earlier ++ .event conn s :: middle) s :=
          ⟨kind, earlier, conn, middle, rfl, acceptedEarlier⟩
        exact young _ s newest earlierAccepted (handled.earlier cut)
          ⟨starts.1, starts.2.trans same⟩

/-- The second attempt of the request that `openStart` starts. -/
def retryStart : LedgerEntry :=
  { openStart with
    id := ⟨0, 12⟩
    attempt := ⟨0, 5⟩
    authority :=
      { openStart.authority with
        requestGeneration := ⟨2⟩, attempt := ⟨0, 5⟩, attemptGeneration := ⟨2⟩ } }

/-- The second attempt has started when the start of the first one arrives. -/
def retriedRequest : List WorkItem :=
  [.register 0 { worker := ⟨0, 1⟩, boot := ⟨0, 2⟩ }, .event (some 0) retryStart]

/-- The delayed start is accepted, under lower generations. -/
theorem delayed_start_goes_back :
    ¬ ∀ (ledgerId : LedgerId) (items : List WorkItem), GenerationsAdvance ledgerId items := by
  intro advance
  have retried : StartAccepted {} retriedRequest retryStart :=
    ⟨rfl, [.register 0 { worker := ⟨0, 1⟩, boot := ⟨0, 2⟩ }], some 0, [], rfl, by decide +kernel⟩
  have delayed : HandledIn (retriedRequest ++ [.event (some 0) openStart]) retriedRequest openStart :=
    ⟨some 0, [], rfl⟩
  have accepted : AcceptedAt {} retriedRequest openStart := by decide +kernel
  have forward := (advance {} _).forward retriedRequest retryStart openStart retried delayed rfl accepted
  exact absurd forward.1 (by decide)

/-! ## Dispatches -/

/-- A start of the request was accepted under this dispatch, and later one
under another dispatch. -/
def DispatchSuperseded (ledgerId : LedgerId) (before : List WorkItem) (request : RequestId)
    (dispatch : DispatchId) : Prop :=
  ∃ earlier conn second between first, before = earlier ++ .event conn second :: between ∧
    AcceptedAt ledgerId earlier second ∧ second.Starts request ∧
    StartAccepted ledgerId earlier first ∧ first.request = request ∧
    first.authority.dispatch = dispatch ∧ second.authority.dispatch ≠ dispatch

/-- No event of a superseded dispatch is accepted, unless it starts its request
anew. -/
def DispatchesFenced (ledgerId : LedgerId) (items : List WorkItem) : Prop :=
  ∀ before e, HandledIn items before e → e.eventKind ≠ .requestStart →
    DispatchSuperseded ledgerId before e.request e.authority.dispatch →
    ¬ AcceptedAt ledgerId before e

/-- Events carry the dispatch of the start whose scope they carry, and no start
returns to a superseded dispatch. -/
structure DispatchesFollowStarts (ledgerId : LedgerId) (items : List WorkItem) : Prop where
  events : ∀ before e s, HandledIn items before e → e.eventKind ≠ .requestStart →
    lastStart e.request before = some s →
    e.authority.requestGeneration = s.authority.requestGeneration →
    e.authority.attempt = s.authority.attempt →
    e.authority.attemptGeneration = s.authority.attemptGeneration →
    e.authority.dispatch = s.authority.dispatch
  starts : ∀ before s, HandledIn items before s → s.eventKind = .requestStart →
    ¬ DispatchSuperseded ledgerId before s.request s.authority.dispatch

/-- Superseded dispatches are fenced in every run whose events carry the dispatch
of their scope and whose starts do not return to a superseded dispatch. -/
theorem dispatches_fenced {ledgerId : LedgerId} {items : List WorkItem}
    (follow : DispatchesFollowStarts ledgerId items) : DispatchesFenced ledgerId items := by
  rintro before e handled other superseded accepted
  rcases superseded with
    ⟨earlier, conn, second, between, first, split, secondAccepted, starts, firstAccepted, same,
      old, new⟩
  rcases exists_lastStart split starts with ⟨newest, found, newestStarts, position⟩
  rcases scope_eq_of_accepted accepted other found with
    ⟨requestGeneration, attempt, attemptGeneration⟩
  have dispatch := follow.events before e newest handled other found requestGeneration attempt
    attemptGeneration
  rcases position with rfl | ⟨middle, later, last, cut⟩
  · exact new dispatch.symm
  · refine follow.starts _ newest (handled.earlier cut) newestStarts.1 ?_
    rw [newestStarts.2, ← dispatch]
    exact ⟨earlier, conn, second, middle, first, rfl, secondAccepted, starts, firstAccepted, same,
      old, new⟩

/-- The request of `openStart` is dispatched again, with a new attempt. -/
def retryDispatch : LedgerEntry :=
  { retryStart with authority := { retryStart.authority with dispatch := ⟨0, 6⟩ } }

/-- Work of the first dispatch arrives after the second one started its attempt. -/
def lateWork : List WorkItem :=
  openRequest ++ [.event (some 0) retryDispatch] ++ [.event (some 0) openWork]

/-- The three events of that run. -/
theorem handledIn_lateWork {before : List WorkItem} {e : LedgerEntry}
    (handled : HandledIn lateWork before e) :
    before.length = 1 ∧ e = openStart ∨ before = openRequest ∧ e = retryDispatch ∨
      before = openRequest ++ [.event (some 0) retryDispatch] ∧ e = openWork := by
  rcases handled with ⟨conn, later, split⟩
  rcases before with _ | ⟨first, _ | ⟨second, _ | ⟨third, _ | ⟨fourth, rest⟩⟩⟩⟩ <;>
    simp [lateWork, openRequest] at split
  · exact Or.inl ⟨rfl, split.2.1.2.symm⟩
  · rcases split with ⟨rfl, rfl, ⟨-, rfl⟩, -⟩
    exact Or.inr (Or.inl ⟨rfl, rfl⟩)
  · rcases split with ⟨rfl, rfl, rfl, ⟨-, rfl⟩, -⟩
    exact Or.inr (Or.inr ⟨rfl, rfl⟩)

/-- The late work is refused. -/
theorem dispatches_fenced_late_work :
    DispatchesFenced {} lateWork ∧
      ¬ AcceptedAt {} (openRequest ++ [.event (some 0) retryDispatch]) openWork := by
  have follow : DispatchesFollowStarts {} lateWork := by
    constructor
    · intro before e s handled other found requestGeneration
      rcases handledIn_lateWork handled with ⟨-, rfl⟩ | ⟨-, rfl⟩ | ⟨rfl, rfl⟩
      · exact absurd rfl other
      · exact absurd rfl other
      · -- The work carries the generation of the first start, and the latest is the second.
        cases found
        exact absurd requestGeneration (by decide)
    · rintro before s handled start ⟨earlier, last, second, between, first, cut, -, -,
        ⟨-, moment, again, rest, known, -⟩, -, old, new⟩
      have member : WorkItem.event again first ∈ before := by simp [cut, known]
      rcases handledIn_lateWork handled with ⟨short, -⟩ | ⟨rfl, rfl⟩ | ⟨rfl, rfl⟩
      · rw [cut, known] at short
        simp at short
        omega
      · -- Nothing was started under the new dispatch before.
        simp [openRequest] at member
        rw [member.2] at old
        exact absurd old (by decide)
      · exact absurd start (by decide)
  have fenced := dispatches_fenced follow
  refine ⟨fenced, fenced _ openWork ⟨some 0, [], rfl⟩ (by decide) ?_⟩
  refine ⟨openRequest, some 0, retryDispatch, [], openStart, rfl, by decide +kernel, ⟨rfl, rfl⟩,
    ⟨rfl, [.register 0 { worker := ⟨0, 1⟩, boot := ⟨0, 2⟩ }], some 0, [], rfl,
      by decide +kernel⟩, rfl, rfl, by decide⟩

/-- The request of `openStart` is dispatched again, in the same attempt. -/
def redispatch : LedgerEntry :=
  { openStart with
    id := ⟨0, 14⟩
    authority := { openStart.authority with dispatch := ⟨0, 6⟩ } }

/-- Work of the first dispatch is accepted after the second one. -/
theorem superseded_dispatch_accepted :
    ¬ ∀ (ledgerId : LedgerId) (items : List WorkItem), DispatchesFenced ledgerId items := by
  intro fenced
  have first : StartAccepted {} openRequest openStart :=
    ⟨rfl, [.register 0 { worker := ⟨0, 1⟩, boot := ⟨0, 2⟩ }], some 0, [], rfl, by decide +kernel⟩
  have second : AcceptedAt {} openRequest redispatch := by decide +kernel
  have superseded : DispatchSuperseded {} (openRequest ++ [.event (some 0) redispatch])
      openWork.request openWork.authority.dispatch :=
    ⟨openRequest, some 0, redispatch, [], openStart, rfl, second, ⟨rfl, rfl⟩, first, rfl, rfl,
      by decide⟩
  have accepted : AcceptedAt {} (openRequest ++ [.event (some 0) redispatch]) openWork := by
    decide +kernel
  exact fenced {} (openRequest ++ [.event (some 0) redispatch] ++ [.event (some 0) openWork])
    _ openWork ⟨some 0, [], rfl⟩ (by decide) superseded accepted

end Coordinator

end InferenceLedger
