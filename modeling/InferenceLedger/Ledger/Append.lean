import InferenceLedger.Ledger.Authority

namespace InferenceLedger

open Std

/-!
# The append-only ledger

The ledger holds its entries in arrival order together with an index from
entry identity to position.  `append` decides in three layers, always in the
same order: the content of the entry, its authority, and finally its identity.

The ledger only ever sees the attached authority through a pointer, so the
state behind that pointer at the moment of the call is an argument here, and
`none` stands for a detached ledger.  `append` takes the ledger's mutex, which
makes each call one atomic step; interleavings of callers are sequences of
these steps.
-/

/-- `enum class AppendStatus`. -/
inductive AppendStatus where
  | accepted | duplicate | duplicateConflict | stale | invalid
deriving DecidableEq

structure AppendResult where
  status : AppendStatus := .invalid
  reason : String := ""
deriving DecidableEq

/-- The ledger's containers.  `index` is a hash map in the source; no modelled
function iterates over it. -/
structure Ledger where
  id : LedgerId := {}
  entries : List LedgerEntry := []
  index : ExtTreeMap LedgerEntryId Nat := ∅

/-- `Ledger::content_is_valid`: finite, non-negative where the resource is
physical, integral where the unit is a count. -/
def contentIsValid (entry : LedgerEntry) : Bool :=
  if !entry.quantity.isFinite then false
  else if entry.resourceKind.isPhysical && entry.quantity.value.isNegative then false
  else if entry.quantity.unit == .count && !entry.quantity.isIntegral then false
  else true

theorem contentIsValid_iff (entry : LedgerEntry) :
    contentIsValid entry = true ↔
      entry.quantity.value.isFinite = true ∧
      (entry.resourceKind.isPhysical && entry.quantity.value.isNegative) = false ∧
      (entry.quantity.unit == .count && !entry.quantity.isIntegral) = false := by
  unfold contentIsValid
  change (if (!entry.quantity.value.isFinite) = true then false else _) = true ↔ _
  cases entry.quantity.value.isFinite <;>
    cases (entry.resourceKind.isPhysical && entry.quantity.value.isNegative) <;>
    cases (entry.quantity.unit == .count && !entry.quantity.isIntegral) <;> decide

theorem isFinite_of_contentIsValid {entry : LedgerEntry} (valid : contentIsValid entry = true) :
    entry.quantity.value.isFinite = true := ((contentIsValid_iff entry).mp valid).1

/-- The authority layer of `append`: a detached ledger accepts every event. -/
def authorityVerdict (authority : Option AuthorityState) (entry : LedgerEntry) :
    AuthorityVerdict :=
  match authority with
  | none => .accept
  | some state => validateAuthority entry state

namespace Ledger

/-- The two writes of a successful append: the position is recorded under the
entry's identity, and the entry goes to the end. -/
def store (ledger : Ledger) (entry : LedgerEntry) : Ledger :=
  { ledger with
    index := ledger.index.insert entry.id ledger.entries.length
    entries := ledger.entries ++ [entry] }

@[simp] theorem store_entries (ledger : Ledger) (entry : LedgerEntry) :
    (ledger.store entry).entries = ledger.entries ++ [entry] := rfl

@[simp] theorem store_index (ledger : Ledger) (entry : LedgerEntry) :
    (ledger.store entry).index = ledger.index.insert entry.id ledger.entries.length := rfl

/-- `Ledger::append`.  A position found in the index always exists in the
entries of a reachable ledger; elsewhere the comparison fails. -/
def append (ledger : Ledger) (authority : Option AuthorityState) (entry : LedgerEntry) :
    Ledger × AppendResult :=
  if !contentIsValid entry then (ledger, ⟨.invalid, "invalid content"⟩)
  else
    let verdict := authorityVerdict authority entry
    if verdict ≠ .accept then (ledger, ⟨.stale, verdict.name⟩)
    else match ledger.index[entry.id]? with
      | some position =>
          if (ledger.entries[position]?).any (· == entry) then
            (ledger, ⟨.duplicate, "idempotent duplicate ignored"⟩)
          else (ledger, ⟨.duplicateConflict, "same id with differing content rejected"⟩)
      | none => (ledger.store entry, ⟨.accepted, "accepted"⟩)

def snapshot (ledger : Ledger) : List LedgerEntry := ledger.entries

def size (ledger : Ledger) : Nat := ledger.entries.length

/-- `Ledger::find`. -/
def find (ledger : Ledger) (id : LedgerEntryId) : Option LedgerEntry :=
  match ledger.index[id]? with
  | none => none
  | some position => ledger.entries[position]?

/-! ## What one append can do -/

/-- The three layers that an accepted entry has passed. -/
structure Admissible (ledger : Ledger) (authority : Option AuthorityState)
    (entry : LedgerEntry) : Prop where
  content : contentIsValid entry = true
  verdict : authorityVerdict authority entry = .accept
  fresh : ledger.index[entry.id]? = none

theorem append_of_admissible {ledger : Ledger} {authority : Option AuthorityState}
    {entry : LedgerEntry} (admissible : Admissible ledger authority entry) :
    ledger.append authority entry = (ledger.store entry, ⟨.accepted, "accepted"⟩) := by
  simp [append, admissible.content, admissible.verdict, admissible.fresh]

/-- Every append either stores the entry, having passed all three layers, or
answers with another status and leaves the ledger exactly as it was. -/
theorem append_cases (ledger : Ledger) (authority : Option AuthorityState)
    (entry : LedgerEntry) :
    (Admissible ledger authority entry ∧
      ledger.append authority entry = (ledger.store entry, ⟨.accepted, "accepted"⟩)) ∨
    (¬ Admissible ledger authority entry ∧ (ledger.append authority entry).1 = ledger ∧
      (ledger.append authority entry).2.status ≠ .accepted) := by
  by_cases admissible : Admissible ledger authority entry
  · exact Or.inl ⟨admissible, append_of_admissible admissible⟩
  · refine Or.inr ⟨admissible, ?_⟩
    unfold append
    cases content : contentIsValid entry with
    | false => simp
    | true =>
        by_cases verdict : authorityVerdict authority entry = .accept
        · cases found : ledger.index[entry.id]? with
          | none => exact (admissible ⟨content, verdict, found⟩).elim
          | some position =>
              by_cases same : (ledger.entries[position]?).any (· == entry) = true
              · simp [verdict, same]
              · simp [verdict, same]
        · simp [verdict]

/-- The status alone tells whether the entry was stored. -/
theorem append_accepted_iff (ledger : Ledger) (authority : Option AuthorityState)
    (entry : LedgerEntry) :
    (ledger.append authority entry).2.status = .accepted ↔ Admissible ledger authority entry := by
  rcases append_cases ledger authority entry with ⟨admissible, result⟩ | ⟨rejected, -, status⟩
  · simp [admissible, result]
  · simp [rejected, status]

theorem append_of_not_accepted {ledger : Ledger} {authority : Option AuthorityState}
    {entry : LedgerEntry} (status : (ledger.append authority entry).2.status ≠ .accepted) :
    (ledger.append authority entry).1 = ledger := by
  rcases append_cases ledger authority entry with ⟨-, result⟩ | ⟨-, unchanged, -⟩
  · rw [result] at status
    exact (status rfl).elim
  · exact unchanged

end Ledger

end InferenceLedger
