import InferenceLedger.Accounting.Query
import InferenceLedger.Accounting.Totals
import InferenceLedger.Ledger.History

namespace InferenceLedger

open Foundation Std

/-!
# Signs of the physical totals

The ledger admits an entry by its resource kind, and the account adds it up by
its event kind.  A negative value is refused for the physical resources only,
so an event of any kind may carry one under another resource.

What the scan does with the values is sound: sums of non-negative values are
non-negative, and a peak is never below zero.  The totals therefore keep their
sign in every run, provided that the negative values which the admission test
lets through belong to cost adjustments.
-/

/-- The physical totals of an account are not negative. -/
structure RequestAccount.NonNegative (account : RequestAccount) : Prop where
  h2dBytes : 0 ≤ account.h2dBytes.value
  d2hBytes : 0 ≤ account.d2hBytes.value
  interNodeBytes : 0 ≤ account.interNodeBytes.value
  kvAllocated : 0 ≤ account.kvAllocated.value
  kvPeak : 0 ≤ account.kvPeak.value
  kvReuse : 0 ≤ account.kvReuse.value
  tensorAllocated : 0 ≤ account.tensorAllocated.value
  tensorPeak : 0 ≤ account.tensorPeak.value
  tensorReuse : 0 ≤ account.tensorReuse.value
  modelByteSeconds : 0 ≤ account.modelByteSeconds.value
  adapterByteSeconds : 0 ≤ account.adapterByteSeconds.value
  reuseAvoidedWork : 0 ≤ account.reuseAvoidedWork.value
  energyJoules : 0 ≤ account.energyJoules.value

/-- A negative value belongs to a cost adjustment. -/
def LedgerEntry.Signed (e : LedgerEntry) : Prop :=
  e.quantity.value.isNegative = true → e.eventKind = .costAdjustment

theorem LedgerEntry.Signed.nonneg {e : LedgerEntry} (signed : e.Signed)
    (other : e.eventKind ≠ .costAdjustment) : 0 ≤ e.quantity.value.toRat := by
  apply Binary64.toRat_nonneg
  rw [← Bool.not_eq_true]
  exact mt signed other

section Scan

variable (overflow : ℚ → Int)

/-- No total is negative. -/
def Scan.NonNegative (s : Scan) : Prop := ∀ total, 0 ≤ s.totals total

theorem Scan.NonNegative.add {s : Scan} (nonNegative : s.NonNegative) (total : Total) {amount : ℚ}
    (positive : 0 ≤ amount) : (s.add total amount).NonNegative := by
  intro other
  rw [Scan.add_totals, Pi.add_apply]
  by_cases same : other = total
  · subst same
    rw [Pi.single_eq_same]
    exact add_nonneg (nonNegative other) positive
  · rw [Pi.single_eq_of_ne same, add_zero]
    exact nonNegative other

/-- Whatever an entry adds to the totals is not negative. -/
theorem observe_nonNegative {e : LedgerEntry} (signed : e.Signed) :
    (({} : Scan).observe overflow e).NonNegative := by
  have start : (({} : Scan).visit overflow e).NonNegative := fun _ => le_rfl
  have duration := durSec_nonneg e
  have value := signed.nonneg
  cases kind : e.eventKind with
  | queue | batchWait | recompute =>
      simp only [Scan.observe, kind]
      exact start.add _ duration
  | kvAllocate | kvReuse | tensorAllocate | tensorReuse | reuseAvoided =>
      simp only [Scan.observe, kind]
      exact start.add _ (value (by simp [kind]))
  | modelResidency | adapterResidency =>
      simp only [Scan.observe, kind]
      exact start.add _ (mul_nonneg (value (by simp [kind])) duration)
  | transferH2D | transferD2H | transferInterNode =>
      simp only [Scan.observe, kind]
      exact (start.add _ (value (by simp [kind]))).add _ duration
  | energy =>
      simp only [Scan.observe, kind]
      apply start.add
      have joules := value (by simp [kind])
      split
      · positivity
      · exact joules
  | _ =>
      simp only [Scan.observe, kind]
      exact start

theorem scanEntries_nonNegative {entries : List LedgerEntry} (signed : ∀ e ∈ entries, e.Signed) :
    (scanEntries overflow entries).NonNegative := by
  intro total
  rw [totals_scanEntries]
  apply List.sum_nonneg
  intro amount member
  rcases List.mem_map.mp member with ⟨e, inside, rfl⟩
  exact observe_nonNegative overflow (signed e inside) total

/-- A peak only rises. -/
theorem observe_peaks (s : Scan) (e : LedgerEntry) :
    s.kvPeak ≤ (s.observe overflow e).kvPeak ∧ s.tPeak ≤ (s.observe overflow e).tPeak := by
  cases kind : e.eventKind <;> simp [Scan.observe, kind, Scan.add, Scan.count, Scan.visit]

theorem foldl_observe_peaks (entries : List LedgerEntry) (s : Scan) :
    s.kvPeak ≤ (entries.foldl (Scan.observe overflow) s).kvPeak ∧
      s.tPeak ≤ (entries.foldl (Scan.observe overflow) s).tPeak := by
  induction entries generalizing s with
  | nil => exact ⟨le_rfl, le_rfl⟩
  | cons e entries ih =>
      rcases observe_peaks overflow s e with ⟨kv, tensor⟩
      rcases ih (s.observe overflow e) with ⟨kvLater, tensorLater⟩
      exact ⟨kv.trans kvLater, tensor.trans tensorLater⟩

/-- Where negative values belong to adjustments, the totals are not negative. -/
theorem nonNegative_reconcileRequest {entries : List LedgerEntry}
    (signed : ∀ e ∈ entries, e.Signed) (request : RequestId) :
    (reconcileRequest overflow entries request).NonNegative := by
  have totals := scanEntries_nonNegative overflow signed
  rcases foldl_observe_peaks overflow entries {} with ⟨kvPeak, tensorPeak⟩
  exact ⟨totals .h2d, totals .d2h, totals .node, totals .kvAlloc, kvPeak, totals .kvReuse,
    totals .tAlloc, tensorPeak, totals .tReuse, totals .modelBs, totals .adapterBs,
    totals .reuseAvoid, totals .energyJ⟩

end Scan

/-! ## Runs of the ledger -/

/-- The totals of every request are non-negative, and only adjustments carry a
sign. -/
def KeepsSigns (overflow : ℚ → Int) (ledger : Ledger) : Prop :=
  (∀ request, (reconcileRequest overflow
      (queryLedger ledger.snapshot { request := some request }) request).NonNegative) ∧
    ∀ e ∈ ledger.entries, e.Signed

theorem keepsSigns_of_signed {overflow : ℚ → Int} {ledger : Ledger}
    (signed : ∀ e ∈ ledger.entries, e.Signed) : KeepsSigns overflow ledger := by
  refine ⟨?_, signed⟩
  intro request
  apply nonNegative_reconcileRequest
  intro e member
  exact signed e (List.mem_of_mem_filter member)

/-- Physical totals stay non-negative, and only adjustments carry a sign, in
every state of every run over the allowed entries, exactly when the allowed
entries that have a negative value and pass the admission test are cost
adjustments. -/
theorem runs_keep_signs_iff (allowed : LedgerEntry → Prop) :
    (∀ (overflow : ℚ → Int) (ledgerId : LedgerId) (calls : List Ledger.Call),
        (∀ call ∈ calls, allowed call.entry) →
          KeepsSigns overflow (Ledger.appends.run { id := ledgerId } calls)) ↔
      ∀ e, allowed e → contentIsValid e = true → e.Signed := by
  constructor
  · intro kept e permitted valid
    have stored : e ∈ (Ledger.appends.run {} [⟨none, e⟩]).entries := by
      rw [Ledger.entries_appends_single {} valid]
      exact List.mem_cons_self
    exact (kept (fun _ => 0) {} [⟨none, e⟩] (by simpa using permitted)).2 e stored
  · intro signed overflow ledgerId calls permitted
    apply keepsSigns_of_signed
    intro e member
    rcases Ledger.offered_of_mem_appends member with ⟨valid, call, offered, rfl⟩
    exact signed call.entry (permitted call offered) valid

/-- An allocation of minus one byte, under a resource whose sign the admission
test does not look at. -/
def negativeAllocation : LedgerEntry :=
  { request := ⟨0, 3⟩
    eventKind := .kvAllocate
    resourceKind := .generic
    quantity := { value := ⟨0xBFF0000000000000⟩, unit := .bytes, provenance := .reported } }

/-- It is stored, and the request has allocated minus one byte. -/
theorem negative_allocation_is_stored :
    ¬ ∀ (overflow : ℚ → Int) (ledgerId : LedgerId) (calls : List Ledger.Call),
      KeepsSigns overflow (Ledger.appends.run { id := ledgerId } calls) := by
  intro claim
  have kept := (claim (fun _ => 0) {} [⟨none, negativeAllocation⟩]).1 ⟨0, 3⟩
  have stored : (Ledger.appends.run {} [⟨none, negativeAllocation⟩]).snapshot =
      [negativeAllocation] := Ledger.entries_appends_single {} (by decide +kernel)
  rw [stored] at kept
  exact absurd kept.kvAllocated (by decide +kernel)

end InferenceLedger
