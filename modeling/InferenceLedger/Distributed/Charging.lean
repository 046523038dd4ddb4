import InferenceLedger.Accounting.Attempts
import InferenceLedger.Accounting.Query
import InferenceLedger.Distributed.Supersession

namespace InferenceLedger

open Foundation Std

/-!
# The attempt that is charged

An entry names an attempt twice.  The fence compares the attempt in the
envelope; `reconcile_request` charges the attempt of the entry itself, and
nothing compares the two.  The fence moreover follows the latest `RequestStart`
that was handled, which need not be the latest one that was accepted.

The results here say under which events of a run every accepted entry is
charged to the attempt that was current when it was accepted.
-/

/-- The entry, if it starts the given request. -/
def ledgerStart (request : RequestId) (e : LedgerEntry) : Option LedgerEntry :=
  if e.Starts request then some e else none

/-- One more entry only changes the record of the attempt that it names. -/
theorem attempts_scanEntries_concat (overflow : ℚ → Int) (entries : List LedgerEntry)
    (e : LedgerEntry) {attempt : AttemptId} (other : attempt ≠ e.attempt) :
    (scanEntries overflow (entries ++ [e])).attempts[attempt]? =
      (scanEntries overflow entries).attempts[attempt]? := by
  rw [scanEntries, List.foldl_append, List.foldl_cons, List.foldl_nil, Scan.observe_attempts,
    ExtTreeMap.getElem?_insert]
  simp [Ne.symm other, scanEntries]

/-- The entries from which a request is reconciled. -/
def requestEntries (entries : List LedgerEntry) (request : RequestId) : List LedgerEntry :=
  queryLedger entries { request := some request }

theorem requestEntries_concat (entries : List LedgerEntry) (e : LedgerEntry) :
    requestEntries (entries ++ [e]) e.request = requestEntries entries e.request ++ [e] := by
  simp [requestEntries, queryLedger, LedgerQuery.admits]

namespace Coordinator

/-- Every accepted event of a request with an accepted start is charged to the
attempt of the latest such start, and the records of all other attempts of the
request stay as they are. -/
def ChargesCurrentAttempt (ledgerId : LedgerId) (items : List WorkItem) : Prop :=
  ∀ before e s, HandledIn items before e → AcceptedAt ledgerId before e →
    latest (ledgerStart e.request) ((after ledgerId before).accountEvent e).1.ledger.entries = some s →
    e.attempt = s.authority.attempt ∧
    ∀ overflow attempt, attempt ≠ s.authority.attempt →
      (scanEntries overflow (requestEntries
        ((after ledgerId before).accountEvent e).1.ledger.entries e.request)).attempts[attempt]? =
      (scanEntries overflow (requestEntries
        (after ledgerId before).ledger.entries e.request)).attempts[attempt]?

/-- The event names one attempt in both places; and if it starts a request that
is in the ledger already, it is admissible or starts the same attempt. -/
structure NamesOneAttempt (ledgerId : LedgerId) (before : List WorkItem) (e : LedgerEntry) :
    Prop where
  fields : e.attempt = e.authority.attempt
  starts : ∀ s, e.eventKind = .requestStart →
    latest (ledgerStart e.request) (after ledgerId before).ledger.entries = some s →
    StartAdmissible (after ledgerId before) e ∨ e.authority.attempt = s.authority.attempt

/-- In such runs the recorded attempt is that of the latest accepted start. -/
theorem lastStart_attempt {ledgerId : LedgerId} {items : List WorkItem}
    (consistent : ∀ before e, HandledIn items before e → NamesOneAttempt ledgerId before e)
    {request : RequestId} {s : LedgerEntry}
    (accepted : latest (ledgerStart request) (after ledgerId items).ledger.entries = some s) :
    (lastStart request items).map (fun start => start.authority.attempt) =
      some s.authority.attempt := by
  induction items using List.reverseRecOn generalizing s with
  | nil => cases accepted
  | append_singleton items item ih =>
      have earlier : ∀ before e, HandledIn items before e → NamesOneAttempt ledgerId before e := by
        rintro before e ⟨conn, later, split⟩
        exact consistent before e ⟨conn, later ++ [item], moment_append split [item]⟩
      rw [after, Machine.run_concat] at accepted
      rw [lastStart, latest_concat]
      cases item with
      | register conn reg => exact ih earlier accepted
      | workerLost conn worker => exact ih earlier accepted
      | event conn e =>
          change latest (ledgerStart request)
            ((after ledgerId items).accountEvent e).1.ledger.entries = some s at accepted
          have named := consistent items e ⟨conn, [], rfl⟩
          by_cases starts : e.Starts request
          · simp only [startOf, if_pos starts, Option.some_or, Option.map_some, Option.some.injEq]
            by_cases stored : AcceptedAt ledgerId items e
            · rw [accountEvent_of_accepted stored, latest_concat, ledgerStart, if_pos starts] at accepted
              rw [Option.some.inj accepted]
            · rw [(accountEvent_of_refused stored).1, ← starts.2] at accepted
              rcases named.starts s starts.1 accepted with admissible | same
              · exact (stored ((accepted_start_iff starts.1).mpr admissible)).elim
              · exact same
          · have kept : latest (ledgerStart request) (after ledgerId items).ledger.entries = some s := by
              by_cases stored : AcceptedAt ledgerId items e
              · rwa [accountEvent_of_accepted stored, latest_concat, ledgerStart, if_neg starts]
                  at accepted
              · rwa [(accountEvent_of_refused stored).1] at accepted
            rw [startOf, if_neg starts]
            exact ih earlier kept

/-- Runs in which every event names one attempt, and no refused start takes a
started request to another attempt, charge every accepted event to the current
attempt. -/
theorem charges_current_attempt (ledgerId : LedgerId) (items : List WorkItem)
    (consistent : ∀ before e, HandledIn items before e → NamesOneAttempt ledgerId before e) :
    ChargesCurrentAttempt ledgerId items := by
  intro before e s handled accepted current
  have charged : e.attempt = s.authority.attempt := by
    rw [(consistent before e handled).fields]
    rw [accountEvent_of_accepted accepted, latest_concat] at current
    by_cases start : e.eventKind = .requestStart
    · have starts : e.Starts e.request := ⟨start, rfl⟩
      rw [ledgerStart, if_pos starts] at current
      rw [Option.some.inj current]
    · have other : ¬ e.Starts e.request := fun starts => start starts.1
      rw [ledgerStart, if_neg other, Option.none_or] at current
      have earlier : ∀ first event, HandledIn before first event →
          NamesOneAttempt ledgerId first event := by
        rintro first event ⟨conn, later, split⟩
        exact consistent first event (handled.earlier split)
      have recorded := lastStart_attempt earlier current
      rcases Option.map_eq_some_iff.mp recorded with ⟨newest, found, same⟩
      rw [(scope_eq_of_accepted accepted start found).2.1, same]
  refine ⟨charged, fun overflow attempt other => ?_⟩
  rw [accountEvent_of_accepted accepted, requestEntries_concat]
  exact attempts_scanEntries_concat overflow _ e (charged ▸ other)

theorem entries_openRequest : (after {} openRequest).ledger.entries = [openStart] := by
  have accepted : AcceptedAt {} [.register 0 { worker := ⟨0, 1⟩, boot := ⟨0, 2⟩ }] openStart := by
    decide +kernel
  exact accountEvent_of_accepted accepted

/-- A request is started and worked on, with one attempt named throughout. -/
theorem charges_current_attempt_open :
    ChargesCurrentAttempt {} (openRequest ++ [.event (some 0) openWork]) ∧
      openWork.attempt = openStart.authority.attempt := by
  have consistent : ∀ before e, HandledIn (openRequest ++ [.event (some 0) openWork]) before e →
      NamesOneAttempt {} before e := by
    rintro before e ⟨conn, later, split⟩
    rcases concat_eq_append_cons_iff.mp split with ⟨rfl, same, -⟩ | ⟨rest, -, cut⟩
    · cases same
      exact ⟨rfl, fun s start => absurd start (by decide)⟩
    · have last : openRequest = [.register 0 { worker := ⟨0, 1⟩, boot := ⟨0, 2⟩ }] ++
          [.event (some 0) openStart] := rfl
      rw [last] at cut
      rcases concat_eq_append_cons_iff.mp cut with ⟨rfl, same, -⟩ | ⟨rest, -, cut⟩
      · cases same
        exact ⟨rfl, fun s _ none => by cases none⟩
      · rcases List.cons_eq_append_iff.mp cut with ⟨-, same⟩ | ⟨tail, -, same⟩
        · cases same
        · simp at same
  have charges := charges_current_attempt {} _ consistent
  have accepted : AcceptedAt {} openRequest openWork := by decide +kernel
  refine ⟨charges, (charges openRequest openWork openStart ⟨some 0, [], rfl⟩ accepted ?_).1⟩
  rw [accountEvent_of_accepted accepted, entries_openRequest]
  rfl

/-- Work whose envelope names the current attempt, and whose entry another. -/
def misattributedWork : LedgerEntry := { openWork with attempt := ⟨0, 9⟩ }

/-- The work is accepted, and charged to an attempt that was never started. -/
theorem misattributed_work_charged :
    ¬ ∀ (ledgerId : LedgerId) (items : List WorkItem), ChargesCurrentAttempt ledgerId items := by
  intro charges
  have accepted : AcceptedAt {} openRequest misattributedWork := by decide +kernel
  have current : latest (ledgerStart misattributedWork.request)
      ((after {} openRequest).accountEvent misattributedWork).1.ledger.entries = some openStart := by
    rw [accountEvent_of_accepted accepted, entries_openRequest]
    rfl
  have charged := charges {} (openRequest ++ [.event (some 0) misattributedWork]) openRequest
    misattributedWork openStart ⟨some 0, [], rfl⟩ accepted current
  exact absurd charged.1 (by decide)

end Coordinator

end InferenceLedger
