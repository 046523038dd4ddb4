import InferenceLedger.Foundation.Machine
import InferenceLedger.Ledger.Append

namespace InferenceLedger

open Foundation Std

/-!
# The ledger over whole runs

The index and the entries are two containers that every accepted append
changes together.  `Ledger.Consistent` is what ties them: the index maps
exactly the identities of the entries to their positions, no identity occurs
twice, and every stored entry has valid content.  One append preserves it
whatever authority is attached at that moment, so it holds after any sequence
of appends by any callers.

Append-only growth, idempotence and the meaning of `find` are consequences.
-/

/-- The representation invariant of the two containers. -/
structure Ledger.Consistent (ledger : Ledger) : Prop where
  index_iff : ∀ (id : LedgerEntryId) (position : Nat), ledger.index[id]? = some position ↔
    ∃ entry : LedgerEntry, ledger.entries[position]? = some entry ∧ entry.id = id
  distinct : (ledger.entries.map LedgerEntry.id).Nodup
  valid : ∀ entry ∈ ledger.entries, contentIsValid entry = true

namespace Ledger

theorem consistent_empty (id : LedgerId) : Consistent { id := id } where
  index_iff := by simp
  distinct := by simp
  valid := by simp

/-- An identity is indexed exactly when some stored entry carries it. -/
theorem Consistent.index_eq_none_iff {ledger : Ledger} (consistent : ledger.Consistent)
    (id : LedgerEntryId) : ledger.index[id]? = none ↔ id ∉ ledger.entries.map LedgerEntry.id := by
  constructor
  · intro absent member
    rcases List.mem_map.mp member with ⟨entry, stored, rfl⟩
    rcases List.mem_iff_getElem?.mp stored with ⟨position, located⟩
    have indexed := (consistent.index_iff entry.id position).mpr ⟨entry, located, rfl⟩
    rw [absent] at indexed
    cases indexed
  · intro missing
    cases found : ledger.index[id]? with
    | none => rfl
    | some position =>
        rcases (consistent.index_iff id position).mp found with ⟨entry, located, rfl⟩
        exact (missing (List.mem_map_of_mem (List.mem_of_getElem? located))).elim

/-- Where an entry with a given identity stands after one more entry. -/
theorem exists_getElem?_concat (entries : List LedgerEntry) (last : LedgerEntry)
    (id : LedgerEntryId) (position : Nat) :
    (∃ entry : LedgerEntry, (entries ++ [last])[position]? = some entry ∧ entry.id = id) ↔
      (∃ entry : LedgerEntry, entries[position]? = some entry ∧ entry.id = id) ∨
        (position = entries.length ∧ last.id = id) := by
  rcases Nat.lt_trichotomy position entries.length with inside | rfl | outside
  · rw [List.getElem?_append_left inside]
    have different : position ≠ entries.length := Nat.ne_of_lt inside
    simp only [different, false_and, or_false]
  · simp
  · have absent : entries[position]? = none := List.getElem?_eq_none (Nat.le_of_lt outside)
    have beyond : (entries ++ [last])[position]? = none :=
      List.getElem?_eq_none (by simpa using outside)
    simp only [absent, beyond, Nat.ne_of_gt outside, reduceCtorEq, false_and, exists_false,
      or_false]

/-- Storing a fresh, valid entry keeps the containers tied together. -/
theorem Consistent.store {ledger : Ledger} (consistent : ledger.Consistent)
    {entry : LedgerEntry} (content : contentIsValid entry = true)
    (fresh : ledger.index[entry.id]? = none) : (ledger.store entry).Consistent where
  index_iff := by
    intro id position
    rw [store_index, store_entries, exists_getElem?_concat, ExtTreeMap.getElem?_insert,
      ← consistent.index_iff]
    simp only [Std.compare_eq_iff_eq]
    by_cases same : entry.id = id
    · subst same
      simp only [if_true, Option.some.injEq, fresh, reduceCtorEq, false_or, and_true]
      exact eq_comm
    · simp only [same, if_false, and_false, or_false]
  distinct := by
    have absent := (consistent.index_eq_none_iff entry.id).mp fresh
    rw [store_entries, List.map_append, List.map_singleton]
    exact List.nodup_append.mpr ⟨consistent.distinct, List.nodup_singleton _,
      fun id member last single equal => by
        rw [List.mem_singleton] at single
        exact absent (single ▸ equal ▸ member)⟩
  valid := by
    intro stored member
    rcases List.mem_append.mp member with earlier | last
    · exact consistent.valid stored earlier
    · rw [List.mem_singleton.mp last]
      exact content

theorem Consistent.append {ledger : Ledger} (consistent : ledger.Consistent)
    (authority : Option AuthorityState) (entry : LedgerEntry) :
    (ledger.append authority entry).1.Consistent := by
  rcases append_cases ledger authority entry with ⟨admissible, result⟩ | ⟨-, unchanged, -⟩
  · rw [result]
    exact consistent.store admissible.content admissible.fresh
  · rw [unchanged]
    exact consistent

/-! ## Lookup -/

/-- Entries of a consistent ledger are determined by their identity. -/
theorem Consistent.eq_of_id_eq {ledger : Ledger} (consistent : ledger.Consistent)
    {first second : LedgerEntry} (firstStored : first ∈ ledger.entries)
    (secondStored : second ∈ ledger.entries) (same : first.id = second.id) : first = second :=
  List.inj_on_of_nodup_map consistent.distinct firstStored secondStored same

/-- `find` returns the entry that a scan from the front would return. -/
theorem Consistent.find_eq {ledger : Ledger} (consistent : ledger.Consistent)
    (id : LedgerEntryId) :
    ledger.find id = ledger.entries.find? (fun entry => entry.id == id) := by
  unfold find
  cases found : ledger.index[id]? with
  | none =>
      have absent := (consistent.index_eq_none_iff id).mp found
      symm
      apply List.find?_eq_none.mpr
      intro entry stored same
      exact absent (List.mem_map.mpr ⟨entry, stored, beq_iff_eq.mp same⟩)
  | some position =>
      rcases (consistent.index_iff id position).mp found with ⟨entry, located, same⟩
      have stored := List.mem_of_getElem? located
      simp only [located]
      cases scanned : ledger.entries.find? (fun entry => entry.id == id) with
      | none =>
          have none := List.find?_eq_none.mp scanned entry stored
          exact (none (beq_iff_eq.mpr same)).elim
      | some other =>
          have otherStored := List.mem_of_find?_eq_some scanned
          have otherSame : other.id = id := by simpa using List.find?_some scanned
          rw [consistent.eq_of_id_eq stored otherStored (same.trans otherSame.symm)]

/-- The index leads from the identity of a stored entry back to that entry. -/
theorem Consistent.index_of_mem {ledger : Ledger} (consistent : ledger.Consistent)
    {stored : LedgerEntry} (member : stored ∈ ledger.entries) :
    ∃ position : Nat, ledger.index[stored.id]? = some position ∧
      ledger.entries[position]? = some stored := by
  rcases List.mem_iff_getElem?.mp member with ⟨position, located⟩
  exact ⟨position, (consistent.index_iff _ _).mpr ⟨stored, located, rfl⟩, located⟩

/-- The answer to an identity that is already stored. -/
theorem Consistent.append_of_stored {ledger : Ledger} (consistent : ledger.Consistent)
    (authority : Option AuthorityState) {stored entry : LedgerEntry}
    (member : stored ∈ ledger.entries) (same : stored.id = entry.id) :
    (ledger.append authority entry).2.status ≠ .accepted ∧
      ((ledger.append authority entry).2.status = .duplicate ↔
        contentIsValid entry = true ∧ authorityVerdict authority entry = .accept ∧
          (stored == entry) = true) := by
  rcases consistent.index_of_mem member with ⟨position, indexed, located⟩
  rw [same] at indexed
  unfold Ledger.append
  cases content : contentIsValid entry with
  | false => simp
  | true =>
      by_cases verdict : authorityVerdict authority entry = .accept
      · cases equal : stored == entry with
        | false => simp [verdict, indexed, located, equal]
        | true => simp [verdict, indexed, located, equal]
      · simp [verdict]

/-! ## Sequences of appends -/

/-- One call of `append`, with the state behind the authority pointer then. -/
structure Call where
  authority : Option AuthorityState
  entry : LedgerEntry

/-- Appends as steps of a machine; the mutex makes each call one step. -/
def appends : Machine Ledger Call AppendResult :=
  fun ledger call => ledger.append call.authority call.entry

/-- The entries whose append answered `Accepted`, in the order of the calls. -/
def acceptedEntries (ledger : Ledger) : List Call → List LedgerEntry
  | [] => []
  | call :: calls =>
      if (ledger.append call.authority call.entry).2.status = .accepted then
        call.entry :: acceptedEntries (ledger.append call.authority call.entry).1 calls
      else acceptedEntries (ledger.append call.authority call.entry).1 calls

theorem appends_consistent {ledger : Ledger} (consistent : ledger.Consistent)
    (calls : List Call) : (appends.run ledger calls).Consistent :=
  Machine.run_invariant (fun _ call invariant => invariant.append call.authority call.entry)
    consistent calls

/-- A run stores exactly the accepted entries, in order, at the end. -/
theorem entries_appends (ledger : Ledger) (calls : List Call) :
    (appends.run ledger calls).entries = ledger.entries ++ ledger.acceptedEntries calls := by
  induction calls generalizing ledger with
  | nil => simp [acceptedEntries]
  | cons call calls ih =>
      rw [Machine.run_cons, ih]
      change (ledger.append call.authority call.entry).1.entries ++ _ = _
      rcases append_cases ledger call.authority call.entry with
        ⟨-, result⟩ | ⟨-, unchanged, status⟩
      · simp [acceptedEntries, appends, result]
      · simp [acceptedEntries, appends, unchanged, status]

/-- What is accepted was offered. -/
theorem offered_of_mem_acceptedEntries {ledger : Ledger} {calls : List Call} {e : LedgerEntry}
    (accepted : e ∈ ledger.acceptedEntries calls) : ∃ call ∈ calls, call.entry = e := by
  induction calls generalizing ledger with
  | nil => cases accepted
  | cons call calls ih =>
      rw [acceptedEntries] at accepted
      split at accepted
      · rcases List.mem_cons.mp accepted with rfl | later
        · exact ⟨call, List.mem_cons_self, rfl⟩
        · rcases ih later with ⟨other, member, same⟩
          exact ⟨other, List.mem_cons_of_mem _ member, same⟩
      · rcases ih accepted with ⟨other, member, same⟩
        exact ⟨other, List.mem_cons_of_mem _ member, same⟩

/-- What a run stores was offered to it, and is valid. -/
theorem offered_of_mem_appends {id : LedgerId} {calls : List Call} {e : LedgerEntry}
    (stored : e ∈ (appends.run { id := id } calls).entries) :
    contentIsValid e = true ∧ ∃ call ∈ calls, call.entry = e := by
  refine ⟨(appends_consistent (consistent_empty id) calls).valid e stored, ?_⟩
  rw [entries_appends] at stored
  exact offered_of_mem_acceptedEntries stored

/-- A detached ledger stores a first entry that is valid. -/
theorem entries_appends_single (id : LedgerId) {e : LedgerEntry}
    (valid : contentIsValid e = true) :
    (appends.run { id := id } [⟨none, e⟩]).entries = [e] := by
  have admissible : Admissible { id := id } none e := ⟨valid, rfl, by simp⟩
  rw [entries_appends, acceptedEntries, if_pos ((append_accepted_iff _ _ _).mpr admissible)]
  rfl

/-- The representation invariant over whole runs.  Whatever calls are made and
whatever authority is attached at each of them, the containers stay tied
together, earlier snapshots are prefixes of later ones, `find` returns the
first accepted entry of an identity, and a stored identity is never accepted
again. -/
theorem appends_represent (id : LedgerId) (calls : List Call) :
    let ledger := appends.run { id := id } calls
    ledger.Consistent ∧
    (∀ authority entry,
      ((ledger.append authority entry).2.status = .accepted ∧
        (ledger.append authority entry).1.entries = ledger.entries ++ [entry]) ∨
      ((ledger.append authority entry).2.status ≠ .accepted ∧
        (ledger.append authority entry).1.entries = ledger.entries ∧
        (ledger.append authority entry).1.index = ledger.index)) ∧
    (∀ later, ledger.snapshot <+: (appends.run ledger later).snapshot) ∧
    (∀ entryId, ledger.find entryId =
      (acceptedEntries { id := id } calls).find? (fun entry => entry.id == entryId)) ∧
    (∀ authority entry, ∀ stored ∈ ledger.entries, stored.id = entry.id →
      (ledger.append authority entry).2.status ≠ .accepted ∧
      ((ledger.append authority entry).2.status = .duplicate ↔
        contentIsValid entry = true ∧ authorityVerdict authority entry = .accept ∧
          (stored == entry) = true)) := by
  intro ledger
  have consistent : ledger.Consistent := appends_consistent (consistent_empty id) calls
  have stored : ledger.entries = acceptedEntries { id := id } calls := by
    simpa using entries_appends { id := id } calls
  refine ⟨consistent, ?_, ?_, ?_, ?_⟩
  · intro authority entry
    rcases append_cases ledger authority entry with ⟨-, result⟩ | ⟨-, unchanged, status⟩
    · exact Or.inl ⟨by rw [result], by rw [result, store_entries]⟩
    · exact Or.inr ⟨status, by rw [unchanged], by rw [unchanged]⟩
  · intro later
    change ledger.entries <+: (appends.run ledger later).entries
    rw [entries_appends ledger later]
    exact List.prefix_append _ _
  · intro entryId
    rw [consistent.find_eq, stored]
  · intro authority entry earlier member same
    exact consistent.append_of_stored authority member same

/-- An entry of a worker that the authority does not know is refused, and stored
once the authority is detached. -/
def refusedEntry : LedgerEntry := { id := ⟨0, 1⟩, eventKind := .gpuExecution }

def refusedThenStored : List Call :=
  [⟨none, {}⟩, ⟨some {}, refusedEntry⟩, ⟨none, refusedEntry⟩]

/-- The entry is found under its identity, offering it again is a duplicate, and
another entry of its identity is not accepted. -/
theorem appends_represent_refused :
    (appends.run {} refusedThenStored).find ⟨0, 1⟩ = some refusedEntry ∧
    ((appends.run {} refusedThenStored).append none refusedEntry).2.status = .duplicate ∧
    ((appends.run {} refusedThenStored).append none { id := ⟨0, 1⟩ }).2.status ≠ .accepted := by
  have represented := appends_represent {} refusedThenStored
  have entries : (appends.run {} refusedThenStored).entries = [{}, refusedEntry] := rfl
  have stored : refusedEntry ∈ (appends.run {} refusedThenStored).entries := by
    rw [entries]
    exact List.mem_cons_of_mem _ List.mem_cons_self
  have again := represented.2.2.2.2 none
  refine ⟨represented.2.2.2.1 ⟨0, 1⟩, ?_, (again { id := ⟨0, 1⟩ } refusedEntry stored rfl).1⟩
  exact (again refusedEntry refusedEntry stored rfl).2.mpr ⟨by decide, rfl, by decide⟩

end Ledger

end InferenceLedger
