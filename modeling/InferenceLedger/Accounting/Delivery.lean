import InferenceLedger.Accounting.Totals
import InferenceLedger.Accounting.Query
import InferenceLedger.Ledger.History

namespace InferenceLedger

open Foundation Std

/-!
# Exactly-once accounting under at-least-once delivery

Deliveries may be reordered and repeated.  The index of the ledger removes the
repetitions, so two ledgers that received the same entries hold permutations of
one another.  Every branch of the accounting fold commutes with every other,
except for the wall clock, the peaks and what is copied from the first entry.
So the accounts agree in everything else.
-/

/-! ## The fold does not depend on the order -/

section Order

variable (overflow : ℚ → Int) {first second : List LedgerEntry}

theorem attempts_eq_of_perm (same : first.Perm second) :
    (scanEntries overflow first).attempts = (scanEntries overflow second).attempts := by
  apply ExtTreeMap.ext_getElem?
  intro attempt
  have keys : attemptsOf first = attemptsOf second :=
    List.toFinset_eq_of_perm _ _ (same.map LedgerEntry.attempt)
  rw [getElem?_attempts_scanEntries, getElem?_attempts_scanEntries, keys,
    attemptRecord_eq_of_perm same]

theorem totals_eq_of_perm (same : first.Perm second) :
    (scanEntries overflow first).totals = (scanEntries overflow second).totals := by
  rw [scanEntries, scanEntries, totals_foldl_observe, totals_foldl_observe,
    (same.map _).sum_eq]

theorem counters_eq_of_perm (same : first.Perm second) :
    (scanEntries overflow first).counters = (scanEntries overflow second).counters := by
  rw [scanEntries, scanEntries, counters_foldl_observe, counters_foldl_observe,
    (same.map _).sum_eq]

/-- An account without the fields that depend on the order of the entries. -/
def RequestAccount.orderFree (account : RequestAccount) : RequestAccount :=
  { account with
    wallLatencyS := {}
    kvPeak := {}
    tensorPeak := {}
    allocationPeak := {}
    tenant := {}
    workload := {}
    model := {}
    modelRevision := {} }

/-- Permuted entries have the same account, up to those fields. -/
theorem orderFree_eq_of_perm (same : first.Perm second) (request : RequestId) :
    (reconcileRequest overflow first request).orderFree =
      (reconcileRequest overflow second request).orderFree := by
  simp only [reconcileRequest, Scan.account, RequestAccount.orderFree,
    attempts_eq_of_perm overflow same, totals_eq_of_perm overflow same,
    counters_eq_of_perm overflow same, same.length_eq]

end Order

/-! ## Deliveries -/

/-- The snapshot of a detached ledger after a sequence of deliveries. -/
def deliver (ledgerId : LedgerId) (deliveries : List LedgerEntry) : List LedgerEntry :=
  (Ledger.appends.run { id := ledgerId } (deliveries.map fun e => ⟨none, e⟩)).snapshot

namespace Ledger

/-- What is accepted was delivered. -/
theorem mem_of_mem_acceptedEntries {ledger : Ledger} {deliveries : List LedgerEntry}
    {e : LedgerEntry}
    (accepted : e ∈ ledger.acceptedEntries (deliveries.map fun e => ⟨none, e⟩)) :
    e ∈ deliveries := by
  rcases offered_of_mem_acceptedEntries accepted with ⟨call, offered, rfl⟩
  rcases List.mem_map.mp offered with ⟨delivery, delivered, rfl⟩
  exact delivered

/-- A valid delivery to a detached ledger leaves its identity there. -/
theorem Consistent.id_mem_append {ledger : Ledger} (consistent : ledger.Consistent)
    {e : LedgerEntry} (valid : contentIsValid e = true) :
    e.id ∈ (ledger.append none e).1.entries.map LedgerEntry.id := by
  rcases append_cases ledger none e with ⟨-, result⟩ | ⟨refused, unchanged, -⟩
  · rw [result, store_entries]
    simp
  · rw [unchanged]
    by_contra absent
    exact refused ⟨valid, rfl, (consistent.index_eq_none_iff e.id).mpr absent⟩

/-- What was delivered is known by its identity at the end. -/
theorem Consistent.id_mem_appends {ledger : Ledger} (consistent : ledger.Consistent)
    {deliveries : List LedgerEntry} {e : LedgerEntry} (delivered : e ∈ deliveries)
    (valid : contentIsValid e = true) :
    e.id ∈ (appends.run ledger (deliveries.map fun e => ⟨none, e⟩)).entries.map
      LedgerEntry.id := by
  induction deliveries generalizing ledger with
  | nil => cases delivered
  | cons delivery deliveries ih =>
      rw [List.map_cons, Machine.run_cons]
      rcases List.mem_cons.mp delivered with rfl | later
      · rw [entries_appends, List.map_append]
        exact List.mem_append_left _ (consistent.id_mem_append valid)
      · exact ih (consistent.append none delivery) later

end Ledger

/-- Deliveries of a set of entries store a permutation of it. -/
theorem deliver_perm {entries deliveries : List LedgerEntry}
    (valid : ∀ e ∈ entries, contentIsValid e = true)
    (distinct : (entries.map LedgerEntry.id).Nodup)
    (delivered : ∀ e, e ∈ deliveries ↔ e ∈ entries) (ledgerId : LedgerId) :
    (deliver ledgerId deliveries).Perm entries := by
  have consistent := Ledger.appends_consistent (Ledger.consistent_empty ledgerId)
    (deliveries.map fun e => ⟨none, e⟩)
  have only : ∀ e ∈ deliver ledgerId deliveries, e ∈ entries := by
    intro e stored
    change e ∈ (Ledger.appends.run _ _).entries at stored
    rw [Ledger.entries_appends] at stored
    exact (delivered e).mp (Ledger.mem_of_mem_acceptedEntries stored)
  refine (List.perm_ext_iff_of_nodup (List.Nodup.of_map _ consistent.distinct)
    (List.Nodup.of_map _ distinct)).mpr fun e => ⟨only e, fun member => ?_⟩
  have known := (Ledger.consistent_empty ledgerId).id_mem_appends ((delivered e).mpr member)
    (valid e member)
  rcases List.mem_map.mp known with ⟨stored, inside, same⟩
  -- The stored entry is one of the set, and the set is determined by identity.
  rw [← List.inj_on_of_nodup_map distinct (only stored inside) member same]
  exact inside

/-- Exactly-once accounting: any two sequences that deliver each entry of a set
at least once, and nothing else, lead to the same stored entries up to order,
and to the same account of every request up to the order-dependent fields. -/
theorem exactly_once_accounting (overflow : ℚ → Int) {entries first second : List LedgerEntry}
    (valid : ∀ e ∈ entries, contentIsValid e = true)
    (distinct : (entries.map LedgerEntry.id).Nodup)
    (firstDelivers : ∀ e, e ∈ first ↔ e ∈ entries)
    (secondDelivers : ∀ e, e ∈ second ↔ e ∈ entries) (firstId secondId : LedgerId) :
    (deliver firstId first).Perm entries ∧ (deliver secondId second).Perm entries ∧
    ∀ request : RequestId,
      (reconcileRequest overflow
        (queryLedger (deliver firstId first) { request := some request }) request).orderFree =
      (reconcileRequest overflow
        (queryLedger (deliver secondId second) { request := some request }) request).orderFree := by
  have firstStored := deliver_perm valid distinct firstDelivers firstId
  have secondStored := deliver_perm valid distinct secondDelivers secondId
  refine ⟨firstStored, secondStored, fun request => ?_⟩
  apply orderFree_eq_of_perm
  exact (firstStored.trans secondStored.symm).filter _

/-- The start and the end of a request. -/
def startEntry : LedgerEntry := { id := ⟨0, 1⟩, request := ⟨0, 3⟩ }

def endEntry : LedgerEntry := { id := ⟨0, 2⟩, request := ⟨0, 3⟩, eventKind := .requestEnd }

/-- The end of a request delivered once, or twice and ahead of its start. -/
theorem exactly_once_accounting_redelivered :
    (deliver {} [startEntry, endEntry]).Perm [startEntry, endEntry] ∧
    (deliver {} [endEntry, startEntry, endEntry]).Perm [startEntry, endEntry] ∧
    (reconcileRequest (fun _ => 0)
      (queryLedger (deliver {} [startEntry, endEntry]) { request := some ⟨0, 3⟩ })
      ⟨0, 3⟩).orderFree =
    (reconcileRequest (fun _ => 0)
      (queryLedger (deliver {} [endEntry, startEntry, endEntry]) { request := some ⟨0, 3⟩ })
      ⟨0, 3⟩).orderFree := by
  have valid : ∀ e ∈ [startEntry, endEntry], contentIsValid e = true := by decide +kernel
  have distinct : ([startEntry, endEntry].map LedgerEntry.id).Nodup := by decide
  have redelivered : ∀ e, e ∈ [endEntry, startEntry, endEntry] ↔ e ∈ [startEntry, endEntry] := by
    intro e
    simp only [List.mem_cons, List.not_mem_nil, or_false]
    tauto
  have once := exactly_once_accounting (fun _ => 0) valid distinct (fun _ => Iff.rfl) redelivered
    {} {}
  exact ⟨once.1, once.2.1, once.2.2 ⟨0, 3⟩⟩

end InferenceLedger
