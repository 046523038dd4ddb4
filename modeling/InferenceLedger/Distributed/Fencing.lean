import InferenceLedger.Distributed.Coordinator

namespace InferenceLedger

open Foundation Std

/-!
# Epoch and boot fencing over whole runs

The three global fences are written by different work items: the loss of a
worker advances the epoch and the accounting generation, and a registration
records a boot.  `accounting_fences` says what each item does to them, and the
run lemmas below count and collect along the queue.

An entry is stored at one moment of the run.  `stored_at` finds that moment
from the entry's position in the ledger, and everything that the coordinator
compared then is known of the entry.
-/

namespace Coordinator

/-- How many losses a sequence of work items contains. -/
def lostCount : List WorkItem → Nat
  | [] => 0
  | .workerLost _ _ :: items => lostCount items + 1
  | .register _ _ :: items => lostCount items
  | .event _ _ :: items => lostCount items

/-- The boots that a worker has registered with, oldest first. -/
def bootsOf (worker : WorkerId) (items : List WorkItem) : List WorkerBootId :=
  items.filterMap fun
    | .register _ reg => if reg.worker = worker then some reg.boot else none
    | _ => none

/-- The coordinator after a sequence of work items. -/
abbrev after (ledgerId : LedgerId) (items : List WorkItem) : Coordinator :=
  accounting.run (new ledgerId) items

theorem lostCount_append (first second : List WorkItem) :
    lostCount (first ++ second) = lostCount first + lostCount second := by
  induction first with
  | nil => rw [List.nil_append, lostCount, Nat.zero_add]
  | cons item items ih =>
      cases item with
      | register conn reg => simp only [List.cons_append, lostCount, ih]
      | event conn entry => simp only [List.cons_append, lostCount, ih]
      | workerLost conn worker =>
          simp only [List.cons_append, lostCount, ih]
          omega

/-! ## One work item -/

/-- What one work item does to the global fences and to the ledger. -/
theorem accounting_fences (c : Coordinator) (item : WorkItem) :
    (accounting c item).1.authority.epoch.value =
        c.authority.epoch.value + UInt64.ofNat (lostCount [item]) ∧
    (accounting c item).1.authority.accountingGeneration.value =
        c.authority.accountingGeneration.value + UInt64.ofNat (lostCount [item]) ∧
    (∀ worker, (accounting c item).1.authority.workerBoot[worker]? =
      ((bootsOf worker [item]).getLast?).or c.authority.workerBoot[worker]?) := by
  cases item with
  | register conn reg =>
      refine ⟨(UInt64.add_zero _).symm, (UInt64.add_zero _).symm, fun worker => ?_⟩
      change (c.authority.workerBoot.insert reg.worker reg.boot)[worker]? = _
      rw [ExtTreeMap.getElem?_insert]
      by_cases same : reg.worker = worker
      · simp [bootsOf, same]
      · simp [bootsOf, same]
  | event conn entry =>
      rcases c.authorityFor_fences entry with ⟨epoch, generation, boot⟩
      refine ⟨?_, ?_, fun worker => ?_⟩
      · change (c.authorityFor entry).epoch.value = _
        rw [epoch]
        exact (UInt64.add_zero _).symm
      · change (c.authorityFor entry).accountingGeneration.value = _
        rw [generation]
        exact (UInt64.add_zero _).symm
      · change (c.authorityFor entry).workerBoot[worker]? = _
        rw [boot]
        rfl
  | workerLost conn worker => exact ⟨rfl, rfl, fun _ => rfl⟩

/-- One work item stores at most the entry that it carries. -/
theorem accounting_entries (c : Coordinator) (item : WorkItem) :
    (accounting c item).1.ledger.entries = c.ledger.entries ∨
    ∃ conn e, item = .event conn e ∧ (c.accountEvent e).2.status = .accepted ∧
      (accounting c item).1.ledger.entries = c.ledger.entries ++ [e] := by
  cases item with
  | register conn reg => exact Or.inl rfl
  | workerLost conn worker => exact Or.inl rfl
  | event conn e =>
      rcases Ledger.append_cases c.ledger (some (c.authorityFor e)) e with
        ⟨-, result⟩ | ⟨-, unchanged, -⟩
      · refine Or.inr ⟨conn, e, rfl, ?_, ?_⟩
        · rw [accountEvent_result, result]
        · change (c.ledger.append (some (c.authorityFor e)) e).1.entries = _
          rw [result, Ledger.store_entries]
      · refine Or.inl ?_
        change (c.ledger.append (some (c.authorityFor e)) e).1.entries = _
        rw [unchanged]

/-! ## Runs -/

section Runs

variable (ledgerId : LedgerId)

/-- The fences count the losses and keep the latest registration. -/
theorem after_fences (items : List WorkItem) :
    (after ledgerId items).authority.epoch.value = UInt64.ofNat (1 + lostCount items) ∧
    (after ledgerId items).authority.accountingGeneration.value =
      UInt64.ofNat (1 + lostCount items) ∧
    (∀ worker, (after ledgerId items).authority.workerBoot[worker]? =
      (bootsOf worker items).getLast?) := by
  let Fences (items : List WorkItem) (c : Coordinator) : Prop :=
    c.authority.epoch.value = UInt64.ofNat (1 + lostCount items) ∧
    c.authority.accountingGeneration.value = UInt64.ofNat (1 + lostCount items) ∧
    (∀ worker, c.authority.workerBoot[worker]? = (bootsOf worker items).getLast?)
  have initial : Fences [] (new ledgerId) := ⟨rfl, rfl, fun _ => rfl⟩
  refine Machine.run_history initial ?_ items
  · rintro items item c - ⟨epoch, generation, boots⟩
    simp only [Fences]
    rcases accounting_fences c item with ⟨nextEpoch, nextGeneration, nextBoots⟩
    rw [lostCount_append, ← Nat.add_assoc, UInt64.ofNat_add]
    refine ⟨by rw [nextEpoch, epoch], by rw [nextGeneration, generation], fun worker => ?_⟩
    rw [nextBoots, boots, bootsOf, bootsOf, bootsOf, List.filterMap_append, List.getLast?_append]

variable {ledgerId}

/-- As long as the counters have not wrapped, they are the number of losses. -/
theorem toNat_epoch {items : List WorkItem} (few : lostCount items < 2 ^ 64 - 1) :
    (after ledgerId items).authority.epoch.value.toNat = 1 + lostCount items ∧
      (after ledgerId items).authority.accountingGeneration.value.toNat = 1 + lostCount items := by
  rcases after_fences ledgerId items with ⟨epoch, generation, -⟩
  rw [epoch, generation, UInt64.toNat_ofNat']
  omega

/-- What is known of an event at the moment it is accepted. -/
structure FencedAt (ledgerId : LedgerId) (before : List WorkItem) (e : LedgerEntry) : Prop where
  accepted : ((after ledgerId before).accountEvent e).2.status = .accepted
  epoch : e.authority.epoch = (after ledgerId before).authority.epoch
  accountingGeneration :
    e.authority.accountingGeneration = (after ledgerId before).authority.accountingGeneration
  boot : (bootsOf e.worker before).getLast? = some e.authority.workerBoot

theorem fencedAt_of_accepted {before : List WorkItem} {e : LedgerEntry}
    (accepted : ((after ledgerId before).accountEvent e).2.status = .accepted) :
    FencedAt ledgerId before e := by
  rcases fences_of_accepted accepted with ⟨epoch, generation, boot⟩
  rcases after_fences ledgerId before with ⟨-, -, boots⟩
  rw [boots] at boot
  exact ⟨accepted, epoch, generation, boot⟩

/-- Every ledger entry was stored by one work item of the run, at the moment
when the ledger ended just before its position. -/
theorem stored_at (items : List WorkItem) (position : Nat) (e : LedgerEntry)
    (located : (after ledgerId items).ledger.entries[position]? = some e) :
    ∃ before conn later, items = before ++ .event conn e :: later ∧
      (after ledgerId before).ledger.entries.length = position ∧ FencedAt ledgerId before e := by
  induction items using List.reverseRecOn generalizing position e with
  | nil =>
      change ([] : List LedgerEntry)[position]? = some e at located
      simp at located
  | append_singleton items item ih =>
      rw [after, Machine.run_concat] at located
      have earlier : (after ledgerId items).ledger.entries[position]? = some e →
          ∃ before conn later, items ++ [item] = before ++ .event conn e :: later ∧
            (after ledgerId before).ledger.entries.length = position ∧
            FencedAt ledgerId before e := by
        intro old
        rcases ih position e old with ⟨before, conn, later, rfl, length, fenced⟩
        exact ⟨before, conn, later ++ [item], by simp, length, fenced⟩
      rcases accounting_entries (after ledgerId items) item with
        unchanged | ⟨conn, stored, rfl, accepted, extended⟩
      · rw [unchanged] at located
        exact earlier located
      · rw [extended] at located
        by_cases old : position < (after ledgerId items).ledger.entries.length
        · rw [List.getElem?_append_left old] at located
          exact earlier located
        · rw [List.getElem?_append_right (Nat.le_of_not_lt old)] at located
          have last : position - (after ledgerId items).ledger.entries.length = 0 ∧ stored = e := by
            rw [List.getElem?_singleton] at located
            split at located
            · rename_i zero
              exact ⟨zero, Option.some.inj located⟩
            · cases located
          rcases last with ⟨zero, rfl⟩
          refine ⟨items, conn, [], rfl, ?_, fencedAt_of_accepted accepted⟩
          omega

/-- The epochs along the ledger, and their bound by the current one. -/
theorem epochs_ordered (items : List WorkItem) (few : lostCount items < 2 ^ 64 - 1) :
    (after ledgerId items).ledger.entries.Pairwise
        (fun earlier later => earlier.authority.epoch.value ≤ later.authority.epoch.value) ∧
      ∀ e ∈ (after ledgerId items).ledger.entries,
        e.authority.epoch.value.toNat ≤ 1 + lostCount items := by
  induction items using List.reverseRecOn with
  | nil => exact ⟨List.Pairwise.nil, fun e member => by cases member⟩
  | append_singleton items item ih =>
      rw [lostCount_append] at few ⊢
      have fewBefore : lostCount items < 2 ^ 64 - 1 := by omega
      rcases ih fewBefore with ⟨ordered, bounded⟩
      have boundedNow : ∀ e ∈ (after ledgerId items).ledger.entries,
          e.authority.epoch.value.toNat ≤ 1 + (lostCount items + lostCount [item]) := by
        intro e member
        have := bounded e member
        omega
      rw [after, Machine.run_concat]
      rcases accounting_entries (after ledgerId items) item with
        unchanged | ⟨conn, stored, rfl, accepted, extended⟩
      · rw [unchanged]
        exact ⟨ordered, boundedNow⟩
      · have current : stored.authority.epoch.value.toNat = 1 + lostCount items := by
          rw [(fencedAt_of_accepted accepted).epoch]
          exact (toNat_epoch fewBefore).1
        rw [extended]
        constructor
        · refine List.pairwise_append.mpr ⟨ordered, List.pairwise_singleton _ _, ?_⟩
          intro old member new single
          rw [List.mem_singleton.mp single, UInt64.le_iff_toNat_le, current]
          exact bounded old member
        · intro e member
          rcases List.mem_append.mp member with old | new
          · exact boundedNow e old
          · rw [List.mem_singleton.mp new, current]
            omega

end Runs

/-- Epoch and boot fencing over whole runs.  The two counters are one more than
the number of losses; every ledger entry carried the fences of the moment at
which it was accepted; the epochs along the ledger do not decrease; and an
event of epoch `k` is never stored after `k` losses. -/
theorem fenced_runs (ledgerId : LedgerId) (items : List WorkItem)
    (few : lostCount items < 2 ^ 64 - 1) :
    ((after ledgerId items).authority.epoch.value.toNat = 1 + lostCount items ∧
      (after ledgerId items).authority.accountingGeneration.value.toNat = 1 + lostCount items) ∧
    (∀ (position : Nat) (e : LedgerEntry),
      (after ledgerId items).ledger.entries[position]? = some e →
      ∃ before conn later, items = before ++ .event conn e :: later ∧
        (after ledgerId before).ledger.entries.length = position ∧
        FencedAt ledgerId before e) ∧
    (after ledgerId items).ledger.entries.Pairwise
      (fun earlier later => earlier.authority.epoch.value ≤ later.authority.epoch.value) ∧
    (∀ (before : List WorkItem) (conn : Option Nat) (e : LedgerEntry) (later : List WorkItem),
      items = before ++ .event conn e :: later →
      e.authority.epoch.value.toNat ≤ lostCount before →
      (after ledgerId (before ++ [.event conn e])).ledger.entries =
        (after ledgerId before).ledger.entries) := by
  refine ⟨toNat_epoch few, stored_at items, (epochs_ordered items few).1, ?_⟩
  intro before conn e later split late
  have fewBefore : lostCount before < 2 ^ 64 - 1 := by
    rw [split, lostCount_append] at few
    omega
  rw [after, Machine.run_concat]
  rcases accounting_entries (after ledgerId before) (.event conn e) with
    unchanged | ⟨sameConn, stored, same, accepted, -⟩
  · exact unchanged
  · cases same
    have current : (after ledgerId before).authority.epoch.value.toNat = 1 + lostCount before :=
      (toNat_epoch fewBefore).1
    rw [← (fencedAt_of_accepted accepted).epoch] at current
    omega

/-- A worker registers, submits an event, and is lost. -/
def oneLoss : List WorkItem :=
  [.register 0 { worker := ⟨0, 1⟩, boot := ⟨0, 2⟩ },
    .event (some 0)
      { worker := ⟨0, 1⟩
        authority := { epoch := ⟨1⟩, accountingGeneration := ⟨1⟩, workerBoot := ⟨0, 2⟩ } },
    .workerLost 0 ⟨0, 1⟩]

/-- The event is stored under the first epoch, and the loss begins the second. -/
theorem fenced_runs_one_loss :
    (after {} oneLoss).authority.epoch.value.toNat = 2 ∧
      ∃ e before conn later, (after {} oneLoss).ledger.entries[0]? = some e ∧
        oneLoss = before ++ .event conn e :: later ∧ FencedAt {} before e := by
  have fenced := fenced_runs {} oneLoss (by decide)
  have stored : ((after {} oneLoss).ledger.entries[0]?).isSome = true := by decide +kernel
  rcases Option.isSome_iff_exists.mp stored with ⟨e, located⟩
  rcases fenced.2.1 0 e located with ⟨before, conn, later, split, -, moment⟩
  exact ⟨fenced.1.1, e, before, conn, later, located, split, moment⟩

end Coordinator

end InferenceLedger
