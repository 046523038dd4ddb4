import InferenceLedger.Persistence.Recovery

namespace InferenceLedger

open Foundation Std

/-!
# Replays that fail

`replay_into` loads the whole file before it touches the ledger, so a file that
is refused leaves the ledger alone.  After that it appends entry by entry and
returns at the first answer that is neither `Accepted` nor `Duplicate`.  Nothing
is taken back: the entries accepted before that one stay.

A failed replay is therefore a successful replay of the entries in front of the
first one that was turned down.
-/

/-- The calls that a replay makes, under the authority attached to the ledger. -/
def replayCalls (authority : Option AuthorityState) (entries : List LedgerEntry) :
    List Ledger.Call :=
  entries.map fun e => ⟨authority, e⟩

/-! ## What a replay of some entries does -/

/-- A replay succeeds when its first entry is not turned down and the rest
succeeds. -/
theorem replayEntries_cons_ok_iff {authority : Option AuthorityState} {e : LedgerEntry}
    {entries : List LedgerEntry} {out left : Ledger} :
    replayEntries authority (e :: entries) out = (left, .ok ()) ↔
      ¬ ((out.append authority e).2.status ≠ .accepted ∧
        (out.append authority e).2.status ≠ .duplicate) ∧
      replayEntries authority entries (out.append authority e).1 = (left, .ok ()) := by
  rw [replayEntries]
  by_cases refused : (out.append authority e).2.status ≠ .accepted ∧
      (out.append authority e).2.status ≠ .duplicate
  · simp only [if_pos refused]
    refine ⟨fun replayed => ?_, fun taken => (taken.1 refused).elim⟩
    cases congrArg Prod.snd replayed
  · simp only [if_neg refused]
    exact (and_iff_right refused).symm

/-- A replay that succeeds has made all its calls. -/
theorem replayEntries_ok {authority : Option AuthorityState} {entries : List LedgerEntry}
    {out left : Ledger} (replayed : replayEntries authority entries out = (left, .ok ())) :
    left = Ledger.appends.run out (replayCalls authority entries) := by
  induction entries generalizing out with
  | nil => exact (congrArg Prod.fst replayed).symm
  | cons e entries ih => exact ih (replayEntries_cons_ok_iff.mp replayed).2

/-- A replay that fails has succeeded on the entries before the first one that
was turned down, and that one has changed nothing. -/
theorem replayEntries_error {authority : Option AuthorityState} {entries : List LedgerEntry}
    {out left : Ledger} {err : String}
    (failed : replayEntries authority entries out = (left, .error err)) :
    ∃ front e back, entries = front ++ e :: back ∧
      replayEntries authority front out = (left, .ok ()) ∧
      (left.append authority e).2.status ≠ .accepted ∧
      (left.append authority e).2.status ≠ .duplicate ∧
      err = "replay rejected entry: " ++ (left.append authority e).2.reason := by
  induction entries generalizing out with
  | nil => cases congrArg Prod.snd failed
  | cons e entries ih =>
      rw [replayEntries] at failed
      by_cases refused : (out.append authority e).2.status ≠ .accepted ∧
          (out.append authority e).2.status ≠ .duplicate
      · simp only [if_pos refused, Ledger.append_of_not_accepted refused.1, Prod.mk.injEq,
          Except.error.injEq] at failed
        rcases failed with ⟨rfl, rfl⟩
        exact ⟨[], e, entries, rfl, rfl, refused.1, refused.2, rfl⟩
      · simp only [if_neg refused] at failed
        rcases ih failed with ⟨front, stopped, back, rfl, replayed, rest⟩
        exact ⟨e :: front, stopped, back, rfl,
          replayEntries_cons_ok_iff.mpr ⟨refused, replayed⟩, rest⟩

/-! ## What appends leave alone -/

namespace Ledger

/-- What was indexed is still indexed, at the same position. -/
def KeepsIndex (earlier later : Ledger) : Prop :=
  ∀ (id : LedgerEntryId) (position : Nat),
    earlier.index[id]? = some position → later.index[id]? = some position

/-- No append moves an entry that is already indexed. -/
theorem keepsIndex_append (ledger : Ledger) (call : Call) :
    KeepsIndex ledger (ledger.append call.authority call.entry).1 := by
  intro id position indexed
  rcases append_cases ledger call.authority call.entry with
    ⟨admissible, result⟩ | ⟨-, unchanged, -⟩
  · have other : call.entry.id ≠ id := by
      rintro rfl
      rw [admissible.fresh] at indexed
      cases indexed
    rw [result, store_index, ExtTreeMap.getElem?_insert, if_neg (mt LawfulEqOrd.eq_of_compare other)]
    exact indexed
  · rw [unchanged]
    exact indexed

theorem keepsIndex_appends (ledger : Ledger) (calls : List Call) :
    KeepsIndex ledger (appends.run ledger calls) :=
  Machine.run_related (fun _ _ _ indexed => indexed)
    (fun first second id position indexed => second id position (first id position indexed))
    keepsIndex_append ledger calls

/-- A run changes the ledger exactly when it has accepted something. -/
theorem appends_eq_self_iff (ledger : Ledger) (calls : List Call) :
    appends.run ledger calls = ledger ↔ ledger.acceptedEntries calls = [] := by
  constructor
  · intro unchanged
    have entries := entries_appends ledger calls
    rw [unchanged] at entries
    exact List.self_eq_append_right.mp entries
  · intro none
    induction calls with
    | nil => rfl
    | cons call calls ih =>
        rw [acceptedEntries] at none
        by_cases accepted : (ledger.append call.authority call.entry).2.status = .accepted
        · rw [if_pos accepted] at none
          cases none
        · have unchanged := append_of_not_accepted accepted
          rw [if_neg accepted, unchanged] at none
          rw [Machine.run_cons]
          change appends.run (ledger.append call.authority call.entry).1 calls = ledger
          rw [unchanged]
          exact ih none

end Ledger

/-! ## Failed replays -/

/-- Failed replays.  Either the file was refused and the ledger is as it was, or
the replay stopped at the first entry that was answered neither `Accepted` nor
`Duplicate`.  The ledger is then what replaying the entries before that one
makes of it: the accepted ones among them stand behind the old entries, which
keep their places, and it is unchanged exactly when all of them were
duplicates. -/
theorem failed_replay_stops {out left : Ledger} {authority : Option AuthorityState} {path : String}
    {file : Option (List UInt8)} {err : String}
    (failed : replayInto out authority path file = .done (left, .error err)) :
    ∃ result, load path file = .done result ∧
      ((result.ok = false ∧ left = out ∧ err = result.reason) ∨
      (result.ok = true ∧ ∃ front e back, result.entries = front ++ e :: back ∧
        replayEntries authority front out = (left, .ok ()) ∧
        (left.append authority e).2.status ≠ .accepted ∧
        (left.append authority e).2.status ≠ .duplicate ∧
        err = "replay rejected entry: " ++ (left.append authority e).2.reason ∧
        left.entries = out.entries ++ out.acceptedEntries (replayCalls authority front) ∧
        out.KeepsIndex left ∧
        (left = out ↔ out.acceptedEntries (replayCalls authority front) = []))) := by
  cases loaded : load path file with
  | outOfBounds =>
      rw [replayInto, loaded] at failed
      cases failed
  | rejected =>
      rw [replayInto, loaded] at failed
      cases failed
  | done result =>
      refine ⟨result, rfl, ?_⟩
      cases ok : result.ok with
      | false =>
          rw [replayInto, loaded] at failed
          simp only [Access.bind_done, ok, Bool.not_false, if_true, Access.done.injEq,
            Prod.mk.injEq, Except.error.injEq] at failed
          exact Or.inl ⟨rfl, failed.1.symm, failed.2.symm⟩
      | true =>
          rw [replayInto_of_loaded loaded ok] at failed
          rcases replayEntries_error (Access.done.inj failed) with
            ⟨front, e, back, split, replayed, notAccepted, notDuplicate, reason⟩
          refine Or.inr ⟨rfl, front, e, back, split, replayed, notAccepted, notDuplicate, reason, ?_⟩
          have made := replayEntries_ok replayed
          refine ⟨?_, ?_, ?_⟩
          · rw [made]
            exact Ledger.entries_appends out _
          · rw [made]
            exact Ledger.keepsIndex_appends out _
          · rw [made]
            exact Ledger.appends_eq_self_iff out _

/-- A ledger with one entry. -/
def startedLedger : Ledger := (Ledger.append {} none { id := ⟨0, 1⟩ }).1

/-- An entry under the same identity for another tenant. -/
def conflictingEntry : LedgerEntry := { id := ⟨0, 1⟩, tenant := ⟨0, 1⟩ }

/-- The first of two entries is accepted before the second one conflicts. -/
theorem replay_conflicting :
    ∃ file left err,
      replayInto startedLedger none "ledger.bin" (some file) = .done (left, .error err) ∧
      left.entries.length = 2 := by
  have encodable : Encodable conflictingEntry :=
    ⟨by decide +kernel, by decide +kernel, by decide +kernel, by decide +kernel⟩
  have fits : FitsFrame conflictingEntry := ⟨by decide +kernel, by decide +kernel⟩
  have listed : conflictingEntry.Listed := ⟨rfl, rfl, rfl, rfl⟩
  have file := isLedgerFile_of_encodable
    (List.forall_mem_cons.mpr ⟨encodable_sample, List.forall_mem_singleton.mpr encodable⟩)
    (List.forall_mem_cons.mpr ⟨listed_sample, List.forall_mem_singleton.mpr listed⟩)
    (List.forall_mem_cons.mpr ⟨fitsFrame_sample, List.forall_mem_singleton.mpr fits⟩)
    (by decide) ⟨0, 1⟩
  have replayed := replayInto_of_loaded (load_of_isLedgerFile file "ledger.bin") rfl startedLedger none
  have stopped : (replayEntries none ([sampleEntry, conflictingEntry].map LedgerEntry.normalize)
      startedLedger).2 = .error "replay rejected entry: same id with differing content rejected" := by
    decide +kernel
  exact ⟨_, _, _, replayed.trans (congrArg Access.done (Prod.ext rfl stopped)), by decide +kernel⟩

/-- The replay that stops has kept what it had accepted. -/
theorem failed_replay_stops_conflict :
    ∃ file left err,
      replayInto startedLedger none "ledger.bin" (some file) = .done (left, .error err) ∧
      ∃ front, left.entries =
        startedLedger.entries ++ startedLedger.acceptedEntries (replayCalls none front) := by
  rcases replay_conflicting with ⟨file, left, err, failed, stored⟩
  refine ⟨file, left, err, failed, ?_⟩
  rcases failed_replay_stops failed with
    ⟨result, -, ⟨-, rfl, -⟩ | ⟨-, front, e, back, -, -, -, -, -, entries, -⟩⟩
  · exact absurd stored (by decide +kernel)
  · exact ⟨front, entries⟩

/-- A failed replay has added to the ledger. -/
theorem failed_replay_adds :
    ¬ ∀ (out left : Ledger) (authority : Option AuthorityState) (path : String)
      (file : Option (List UInt8)) (err : String),
      replayInto out authority path file = .done (left, .error err) →
      left.entries = out.entries ∧ left.index = out.index := by
  intro unchanged
  rcases replay_conflicting with ⟨file, left, err, failed, stored⟩
  rw [(unchanged _ _ _ _ _ _ failed).1] at stored
  exact absurd stored (by decide +kernel)

end InferenceLedger
