import InferenceLedger.Accounting.Totals

namespace InferenceLedger

open Foundation Std

/-!
# Units of the account

Every quantity of an account has one unit.  An entry may carry any unit with
any kind of event, and of the branches of the scan that add the value of an
entry to such a quantity only one looks at the unit: energy in watt-hours is
converted to joules.  Everything else is added as if it had the right unit.

An entry with a foreign unit leaves its quantity alone exactly when there is
nothing to add.
-/

/-- The quantity of the account to which the value of an event of this kind is
added. -/
def EventKind.addedTo : EventKind → Option (RequestAccount → ExactQuantity)
  | kvAllocate => some RequestAccount.kvAllocated
  | kvReuse => some RequestAccount.kvReuse
  | tensorAllocate => some RequestAccount.tensorAllocated
  | tensorReuse => some RequestAccount.tensorReuse
  | transferH2D => some RequestAccount.h2dBytes
  | transferD2H => some RequestAccount.d2hBytes
  | transferInterNode => some RequestAccount.interNodeBytes
  | modelResidency => some RequestAccount.modelByteSeconds
  | adapterResidency => some RequestAccount.adapterByteSeconds
  | reuseAvoided => some RequestAccount.reuseAvoidedWork
  | energy => some RequestAccount.energyJoules
  | _ => none

/-- The units in which that quantity can take a value. -/
def EventKind.requiredUnits : EventKind → List MeasureUnit
  | kvAllocate | kvReuse | tensorAllocate | tensorReuse | transferH2D | transferD2H
  | transferInterNode | modelResidency | adapterResidency => [.bytes]
  | reuseAvoided => [.seconds]
  | energy => [.energyJoule, .energyWh]
  | _ => []

/-- Residency is measured in bytes, and accounted for in bytes times seconds. -/
def EventKind.isResidency : EventKind → Bool
  | modelResidency | adapterResidency => true
  | _ => false

/-- The value of the entry is added to a quantity of another unit. -/
def LedgerEntry.ForeignUnit (e : LedgerEntry) : Prop :=
  e.eventKind.addedTo ≠ none ∧ e.quantity.unit ∉ e.eventKind.requiredUnits

/-- Taking out any entry with a foreign unit leaves the quantity of its kind as
it was. -/
def UnitsKeptApart (overflow : ℚ → Int) (entries : List LedgerEntry) (request : RequestId) : Prop :=
  ∀ before e after field, entries = before ++ e :: after → e.ForeignUnit →
    e.eventKind.addedTo = some field →
    (field (reconcileRequest overflow entries request)).value =
      (field (reconcileRequest overflow (before ++ after) request)).value

/-! ## What an entry adds -/

/-- The amount that the scan adds for the entry. -/
def amountAdded (e : LedgerEntry) : ℚ :=
  if e.eventKind.isResidency then e.quantity.value.toRat * durSec e
  else if e.eventKind = .energy ∧ e.quantity.unit = .energyWh then e.quantity.value.toRat * 3600
  else e.quantity.value.toRat

/-- Such a quantity is one of the totals of the scan, and an event of the kind
adds its amount to it. -/
theorem total_of_addedTo (overflow : ℚ → Int) {kind : EventKind}
    {field : RequestAccount → ExactQuantity} (added : kind.addedTo = some field) :
    ∃ total, (∀ entries request, (field (reconcileRequest overflow entries request)).value =
        (scanEntries overflow entries).totals total) ∧
      ∀ e : LedgerEntry, e.eventKind = kind →
        (({} : Scan).observe overflow e).totals total = amountAdded e := by
  cases kind <;> cases added <;> refine ⟨_, fun _ _ => rfl, fun e kind => ?_⟩ <;>
    simp [Scan.observe, kind, Scan.add, Scan.visit, amountAdded, EventKind.isResidency]

/-- A foreign entry is added without conversion, so it adds nothing only if its
value is zero or, for residency, if it has no duration. -/
theorem amountAdded_eq_zero_iff {e : LedgerEntry} (foreign : e.ForeignUnit) :
    amountAdded e = 0 ↔
      e.quantity.value.toRat = 0 ∨ e.eventKind.isResidency = true ∧ durSec e = 0 := by
  rw [amountAdded]
  cases residency : e.eventKind.isResidency with
  | true => simp only [if_true, mul_eq_zero, true_and]
  | false =>
      have unconverted : ¬ (e.eventKind = .energy ∧ e.quantity.unit = .energyWh) := by
        rintro ⟨kind, unit⟩
        apply foreign.2
        rw [kind, unit]
        exact List.mem_cons_of_mem _ List.mem_cons_self
      simp only [Bool.false_eq_true, if_false, if_neg unconverted, false_and, or_false]

/-- Taking an entry out of the list takes out the amount that it added. -/
theorem removal_iff (overflow : ℚ → Int) {before after : List LedgerEntry} {e : LedgerEntry}
    {field : RequestAccount → ExactQuantity} (added : e.eventKind.addedTo = some field)
    (request : RequestId) :
    (field (reconcileRequest overflow (before ++ e :: after) request)).value =
        (field (reconcileRequest overflow (before ++ after) request)).value ↔
      amountAdded e = 0 := by
  rcases total_of_addedTo overflow added with ⟨total, value, amount⟩
  rw [value, value, totals_scanEntries, totals_scanEntries, List.map_append, List.map_append,
    List.map_cons, List.sum_append, List.sum_append, List.sum_cons, amount e rfl, add_right_inj]
  exact add_eq_right

/-- Units are kept apart exactly when every entry with a foreign unit has the
value zero or, for residency, no duration. -/
theorem units_kept_apart_iff (overflow : ℚ → Int) (entries : List LedgerEntry)
    (request : RequestId) :
    UnitsKeptApart overflow entries request ↔
      ∀ e ∈ entries, e.ForeignUnit →
        e.quantity.value.toRat = 0 ∨ e.eventKind.isResidency = true ∧ durSec e = 0 := by
  constructor
  · intro apart e member foreign
    rcases List.append_of_mem member with ⟨before, after, rfl⟩
    rcases Option.ne_none_iff_exists'.mp foreign.1 with ⟨field, added⟩
    have unchanged := apart before e after field rfl foreign added
    rw [removal_iff overflow added] at unchanged
    exact (amountAdded_eq_zero_iff foreign).mp unchanged
  · rintro empty before e after field rfl foreign added
    apply (removal_iff overflow added request).mpr
    exact (amountAdded_eq_zero_iff foreign).mpr (empty e (by simp) foreign)

/-- Work that was avoided, reported as one nanosecond. -/
def avoidedNanosecond : LedgerEntry :=
  { request := ⟨0, 3⟩
    eventKind := .reuseAvoided
    resourceKind := .compute
    quantity := { value := ⟨0x3FF0000000000000⟩, unit := .nanoseconds } }

/-- It is added to the seconds. -/
theorem nanosecond_counts_as_second :
    ¬ ∀ (overflow : ℚ → Int) (entries : List LedgerEntry) (request : RequestId),
      UnitsKeptApart overflow entries request := by
  intro claim
  have foreign : avoidedNanosecond.ForeignUnit :=
    ⟨Option.some_ne_none _, by decide⟩
  have unchanged := claim (fun _ => 0) [avoidedNanosecond] ⟨0, 3⟩ [] avoidedNanosecond []
    RequestAccount.reuseAvoidedWork rfl foreign rfl
  exact absurd unchanged (by decide +kernel)

end InferenceLedger
