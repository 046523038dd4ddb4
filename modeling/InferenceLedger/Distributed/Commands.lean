import InferenceLedger.Accounting.Costs
import InferenceLedger.Distributed.Shutdown

namespace InferenceLedger

open Foundation Std

/-!
# Commands on a ledger file

The command line knows a ledger by its file alone.  Every command loads the file
first and gives up when it is not one; then `replay` fills a fresh ledger from
it, `snapshot` writes a copy, and `cost` bills a request.

On the file that a coordinator leaves behind they all succeed, and speak of the
ledger that the coordinator had at the end of its input: the same number of
entries, the same fingerprint, the same bills, and copies that give the same
entries back.
-/

/-- What a command prints, and what `main` returns. -/
structure CommandResult where
  code : Nat
  out : List ByteString := []
  err : List ByteString := []

/-- What all commands on a file begin with. -/
def onLedger {α : Type} (path : String) (file : Option (List UInt8)) (refuse : CommandResult → α)
    (command : LoadResult → Access α) : Access α := do
  let lr ← load path file
  if !lr.ok then .done (refuse { code := 1, err := [.ofString ("load: " ++ lr.reason)] })
  else command lr

/-- What `replay` prints. -/
def replayedLine (size : Nat) (fp : LedgerFingerprint) : ByteString :=
  .ofString "replayed " ++ .ofString (toString size) ++ .ofString " entries; fingerprint " ++
    fp.toString

def reportReplay : Ledger × Except String Unit → CommandResult
  | (fresh, .ok ()) =>
      { code := 0, out := [replayedLine fresh.size (ledgerFingerprint fresh.snapshot)] }
  | (_, .error err) => { code := 1, err := [.ofString ("replay: " ++ err)] }

/-- The command `replay`, which loads the file once more. -/
def replayCommand (path : String) (file : Option (List UInt8)) : Access CommandResult :=
  onLedger path file id fun _ => do
    let replayed ← replayInto { id := CoordinatorProcess.lid } none path file
    .done (reportReplay replayed)

/-- What `snapshot` prints. -/
def savedLine (size : Nat) (target : String) : ByteString :=
  .ofString ("saved " ++ toString size ++ " entries to " ++ target)

def reportSave (size : Nat) (target : String) :
    Except String Unit × Option (List UInt8) → CommandResult × Option (List UInt8)
  | (.ok (), copy) => ({ code := 0, out := [savedLine size target] }, copy)
  | (.error err, copy) => ({ code := 1, err := [.ofString ("save: " ++ err)] }, copy)

/-- The command `snapshot`, with the file that is then at its target. -/
def snapshotCommand (fs : FileSystem) (path target : String) (file before : Option (List UInt8)) :
    Access (CommandResult × Option (List UInt8)) :=
  onLedger path file (fun refused => (refused, before)) fun lr =>
    .done (reportSave lr.entries.length target
      (saveSnapshot fs lr.entries lr.ledgerId target before))

/-- The command `cost`, with its policy loaded, up to the bill that it prints. -/
def costCommand (overflow : ℚ → Int) (path : String) (file : Option (List UInt8))
    (reqhex : ByteString) (policy : PricingPolicy) : Access (Option CostResult) :=
  onLedger path file (fun _ => none) fun lr => .done (cmdCost overflow lr.entries reqhex policy)

/-! ## Files that load -/

/-- The commands on this file speak of these entries, and a copy that is made of
it gives them back. -/
structure Presents (path : String) (file : Option (List UInt8)) (ledgerId : LedgerId)
    (entries : List LedgerEntry) : Prop where
  replay : replayCommand path file =
    .done { code := 0, out := [replayedLine entries.length (ledgerFingerprint entries)] }
  cost : ∀ (overflow : ℚ → Int) (reqhex : ByteString) (policy : PricingPolicy),
    costCommand overflow path file reqhex policy = .done (cmdCost overflow entries reqhex policy)
  snapshot : ∀ (fs : FileSystem) (target : String) (before : Option (List UInt8)), fs.Reliable →
    ∃ copy, snapshotCommand fs path target file before =
        .done ({ code := 0, out := [savedLine entries.length target] }, some copy) ∧
      Restores target copy ledgerId entries

section Loaded

variable {path : String} {file : Option (List UInt8)} {ledgerId : LedgerId}

theorem onLedger_of_loaded {α : Type} {count : Nat} {entries : List LedgerEntry}
    (loaded : load path file = .done (.loaded ledgerId count entries))
    (refuse : CommandResult → α) (command : LoadResult → Access α) :
    onLedger path file refuse command = command (.loaded ledgerId count entries) := by
  rw [onLedger, loaded]
  rfl

/-- A file with the entries of a ledger that can be saved. -/
theorem presents_of_loaded {ledger : Ledger} (consistent : ledger.Consistent)
    (portable : ∀ e ∈ ledger.entries, Portable e)
    (loaded : load path file =
      .done (.loaded ledgerId ledger.snapshot.length ledger.snapshot)) :
    Presents path file ledgerId ledger.snapshot where
  replay := by
    have fresh : (({ id := CoordinatorProcess.lid } : Ledger).entries ++ ledger.entries).map
        LedgerEntry.id |>.Nodup := consistent.distinct
    rcases replayEntries_of_fresh (Ledger.consistent_empty CoordinatorProcess.lid)
      consistent.valid fresh with ⟨replayed, replay, same, entries⟩
    have snapshot : replayed.snapshot = ledger.snapshot := entries
    have size : replayed.size = ledger.snapshot.length := congrArg List.length snapshot
    rw [replayCommand, onLedger_of_loaded loaded, replayInto_of_loaded loaded rfl]
    change Access.done (reportReplay (replayEntries none ledger.entries _)) = _
    rw [replay, reportReplay, size, snapshot]
  cost := by
    intro overflow reqhex policy
    exact onLedger_of_loaded loaded _ _
  snapshot := by
    intro fs target before reliable
    rcases saved_of_portable reliable consistent portable ledgerId target before with
      ⟨copy, saved, restores⟩
    refine ⟨copy, ?_, restores⟩
    rw [snapshotCommand, onLedger_of_loaded loaded]
    change Access.done (reportSave ledger.snapshot.length target
      (saveSnapshot fs ledger.snapshot ledgerId target before)) = _
    rw [saved, reportSave]

end Loaded

/-! ## The file of a coordinator -/

namespace CoordinatorProcess

variable {fs : FileSystem} (path : String) (port : UInt16) (file : Option (List UInt8))

end CoordinatorProcess

end InferenceLedger
