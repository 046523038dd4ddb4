import InferenceLedger.Distributed.Supersession

namespace InferenceLedger

open Foundation Std

/-!
# Retired boots

A boot of a worker is retired when the worker is lost while it is the registered
boot, or when the worker registers with another boot.  Only the second of the
two changes the boot map: after a loss the map still holds the lost boot, and
what keeps its events out is the epoch that they carry.  A registration, in
turn, is not compared with what was retired before.

So a retired boot comes back in two ways, with an event that has learned the
new epoch or with a registration of its own.  In runs without either of the two,
retired boots stay dead.
-/

namespace Coordinator

/-- The worker was lost while this boot was its registered one. -/
def LostBoot (ledgerId : LedgerId) (items : List WorkItem) (worker : WorkerId)
    (boot : WorkerBootId) : Prop :=
  ∃ before conn later, items = before ++ .workerLost conn worker :: later ∧
    (after ledgerId before).authority.workerBoot[worker]? = some boot

/-- The worker registered with another boot while this one was registered. -/
def ReplacedBoot (ledgerId : LedgerId) (items : List WorkItem) (worker : WorkerId)
    (boot : WorkerBootId) : Prop :=
  ∃ before conn reg later, items = before ++ .register conn reg :: later ∧
    reg.worker = worker ∧ reg.boot ≠ boot ∧
    (after ledgerId before).authority.workerBoot[worker]? = some boot

/-- The boot of the worker has been retired. -/
def RetiredBoot (ledgerId : LedgerId) (items : List WorkItem) (worker : WorkerId)
    (boot : WorkerBootId) : Prop :=
  LostBoot ledgerId items worker boot ∨ ReplacedBoot ledgerId items worker boot

/-- No event of a retired boot is accepted. -/
def DeadBootsStayDead (ledgerId : LedgerId) (items : List WorkItem) : Prop :=
  ∀ before e, HandledIn items before e →
    RetiredBoot ledgerId before e.worker e.authority.workerBoot → ¬ AcceptedAt ledgerId before e

/-- No worker registers with a boot of its own that has been retired. -/
def RegistrationsFresh (ledgerId : LedgerId) (items : List WorkItem) : Prop :=
  ∀ before conn reg later, items = before ++ .register conn reg :: later →
    ¬ RetiredBoot ledgerId before reg.worker reg.boot

/-- Whoever still sends under a lost boot has not learned the current epoch. -/
def LostBootsUninformed (ledgerId : LedgerId) (items : List WorkItem) : Prop :=
  ∀ before e, HandledIn items before e →
    LostBoot ledgerId before e.worker e.authority.workerBoot →
    e.authority.epoch ≠ (after ledgerId before).authority.epoch

/-- Nothing but its boot could keep the event out. -/
structure AdmissibleButBoot (c : Coordinator) (e : LedgerEntry) : Prop where
  content : contentIsValid e = true
  epoch : e.authority.epoch = c.authority.epoch
  accountingGeneration : e.authority.accountingGeneration = c.authority.accountingGeneration
  scope : RequestScopeCurrent e (c.authorityFor e)
  fresh : c.ledger.index[e.id]? = none

section Runs

variable {ledgerId : LedgerId} {before : List WorkItem} {e : LedgerEntry}

theorem acceptedAt_iff_boot :
    AcceptedAt ledgerId before e ↔
      (after ledgerId before).authority.workerBoot[e.worker]? = some e.authority.workerBoot ∧
      AdmissibleButBoot (after ledgerId before) e := by
  rcases (after ledgerId before).authorityFor_fences e with ⟨epoch, generation, boot⟩
  have enforced : ((after ledgerId before).authorityFor e).enforceRequestScope = true :=
    (enforceRequestScope_accounting (after ledgerId before) (.event none e)).trans
      (enforceRequestScope_after ledgerId before)
  have verdict := validateAuthority_eq_accept_iff e ((after ledgerId before).authorityFor e)
  rw [epoch, generation, boot] at verdict
  rw [AcceptedAt, accountEvent_result, Ledger.append_accepted_iff]
  constructor
  · intro admissible
    rcases verdict.mp admissible.verdict with ⟨sameEpoch, sameGeneration, registered, scope⟩
    exact ⟨registered, admissible.content, sameEpoch, sameGeneration, scope enforced,
      admissible.fresh⟩
  · rintro ⟨registered, admissible⟩
    exact ⟨admissible.content, verdict.mpr ⟨admissible.epoch, admissible.accountingGeneration,
      registered, fun _ => admissible.scope⟩, admissible.fresh⟩

/-- The boot with which a work item registers the given worker. -/
def bootOf (worker : WorkerId) : WorkItem → Option WorkerBootId
  | .register _ reg => if reg.worker = worker then some reg.boot else none
  | .event _ _ => none
  | .workerLost _ _ => none

theorem workerBoot_after (items : List WorkItem) (worker : WorkerId) :
    (after ledgerId items).authority.workerBoot[worker]? = latest (bootOf worker) items := by
  have same : bootsOf worker items = items.filterMap (bootOf worker) := by
    unfold bootsOf
    congr 1
    funext item
    cases item <;> rfl
  rw [(after_fences ledgerId items).2.2 worker, latest, same]

/-- A boot that was replaced is registered only if it was registered again. -/
theorem not_replaced_of_registered {items : List WorkItem} {worker : WorkerId} {boot : WorkerBootId}
    (fresh : RegistrationsFresh ledgerId items)
    (registered : (after ledgerId items).authority.workerBoot[worker]? = some boot) :
    ¬ ReplacedBoot ledgerId items worker boot := by
  rintro ⟨moment, conn, reg, later, split, rfl, different, held⟩
  rw [workerBoot_after] at registered
  rcases latest_eq_some_iff.mp registered with ⟨first, item, rest, cut, selected, silent⟩
  rw [split] at cut
  rcases moments_compare cut with ⟨-, rfl, -⟩ | ⟨between, rfl, -⟩ | ⟨between, -, rfl⟩
  · simp only [bootOf, if_true, Option.some.injEq] at selected
    exact different selected
  · -- The latest registration came after the replacement, so it brings the boot back.
    cases item with
    | event conn entry => cases selected
    | workerLost conn worker => cases selected
    | register again newest =>
        simp only [bootOf] at selected
        split at selected
        · rename_i same
          refine fresh _ again newest rest (split.trans cut) (Or.inr ?_)
          rw [same, Option.some.inj selected]
          exact ⟨moment, conn, reg, between, rfl, rfl, different, held⟩
        · cases selected
  · have missed := (latest_eq_none_iff _ _).mp silent (.register conn reg) (by simp)
    simp [bootOf] at missed

end Runs

/-- Retired boots stay dead in every run in which no retired boot registers again
and nobody who sends under a lost boot has learned the current epoch. -/
theorem dead_boots_stay_dead {ledgerId : LedgerId} {items : List WorkItem}
    (fresh : RegistrationsFresh ledgerId items) (uninformed : LostBootsUninformed ledgerId items) :
    DeadBootsStayDead ledgerId items := by
  intro before e handled retired accepted
  rcases acceptedAt_iff_boot.mp accepted with ⟨registered, admissible⟩
  rcases retired with lost | replaced
  · exact uninformed before e handled lost admissible.epoch
  · rcases handled with ⟨last, later, rfl⟩
    have earlier : RegistrationsFresh ledgerId before := by
      intro first conn reg rest split
      exact fresh first conn reg (rest ++ .event last e :: later) (moment_append split _)
    exact not_replaced_of_registered earlier registered replaced

/-- A worker registers and is lost. -/
def lostWorker : List WorkItem :=
  [.register 0 { worker := ⟨0, 1⟩, boot := ⟨0, 2⟩ }, .workerLost 0 ⟨0, 1⟩]

/-- A start that the worker sent before its loss is refused after it. -/
theorem dead_boots_stay_dead_in_flight :
    DeadBootsStayDead {} (lostWorker ++ [.event (some 0) openStart]) ∧
      ¬ AcceptedAt {} lostWorker openStart := by
  have fresh : RegistrationsFresh {} (lostWorker ++ [.event (some 0) openStart]) := by
    intro before conn reg later split retired
    cases before with
    | nil =>
        rcases retired with ⟨moment, _, _, cut, -⟩ | ⟨moment, _, _, _, cut, -⟩
        · cases moment <;> cases cut
        · cases moment <;> cases cut
    | cons first before =>
        simp only [lostWorker, List.cons_append, List.nil_append, List.cons.injEq] at split
        rcases before with _ | ⟨second, _ | ⟨third, rest⟩⟩ <;> simp at split
  have dead := dead_boots_stay_dead fresh ?_
  · refine ⟨dead, dead lostWorker openStart ⟨some 0, [], rfl⟩ (Or.inl ?_)⟩
    exact ⟨[.register 0 { worker := ⟨0, 1⟩, boot := ⟨0, 2⟩ }], 0, [], rfl, by decide +kernel⟩
  · rintro before e ⟨conn, later, split⟩ -
    rcases concat_eq_append_cons_iff.mp split with ⟨rfl, same, -⟩ | ⟨rest, -, cut⟩
    · cases same
      decide +kernel
    · rcases before with _ | ⟨first, _ | ⟨second, _ | ⟨third, more⟩⟩⟩ <;> simp [lostWorker] at cut

/-- A start of the lost boot that has learned the new epoch. -/
def zombieStart : LedgerEntry :=
  { openStart with
    authority := { openStart.authority with epoch := ⟨2⟩, accountingGeneration := ⟨2⟩ } }

/-- The lost boot accounts for new work. -/
theorem lost_boot_accepted :
    ¬ ∀ (ledgerId : LedgerId) (items : List WorkItem), DeadBootsStayDead ledgerId items := by
  intro dead
  have lost : LostBoot {} lostWorker zombieStart.worker zombieStart.authority.workerBoot :=
    ⟨[.register 0 { worker := ⟨0, 1⟩, boot := ⟨0, 2⟩ }], 0, [], rfl, by decide +kernel⟩
  have accepted : AcceptedAt {} lostWorker zombieStart := by decide +kernel
  exact dead {} (lostWorker ++ [.event (some 0) zombieStart]) lostWorker zombieStart
    ⟨some 0, [], rfl⟩ (Or.inl lost) accepted

end Coordinator

end InferenceLedger
