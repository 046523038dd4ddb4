import InferenceLedger.Record.Entry

namespace InferenceLedger

open Foundation Std

/-!
# The account of one request

`reconcile_request` folds the entries of a request into running totals and
into one record per attempt, picks the attempt that ended successfully last,
and reports its work as useful and the work of the others as waste.

Durations and quantities are exact rationals here.  Two machine effects remain:
counters are 64-bit and wrap, and `std::llround` returns an unspecified value
when the rounded quantity does not fit a signed 64-bit integer.  What it
returns then is the parameter `overflow`.

The switch of the source is split in two: `AttemptAttr.observe` is what it does
to the record of the entry's attempt, `Scan.observe` what it does to the other
local variables.  The variables that are only ever added to are indexed by
their names, `Total` for the doubles and `Counter` for the integers.
-/

/-! ## Machine arithmetic -/

/-- `sec`. -/
def sec (ns : UInt64) : ℚ := (ns.toNat : ℚ) / 1000000000

/-- `dur_sec`. -/
def durSec (e : LedgerEntry) : ℚ := if !e.hasEnd then 0 else sec e.durationNs

theorem durSec_nonneg (e : LedgerEntry) : 0 ≤ durSec e := by
  unfold durSec sec
  split
  · exact le_rfl
  · positivity

/-- Rounding to the nearest integer, halves away from zero. -/
def roundHalfAway (value : ℚ) : Int :=
  if 0 ≤ value then (value + 1 / 2).floor else -(-value + 1 / 2).floor

/-- `static_cast<std::uint64_t>(std::llround(value))`. -/
def llroundU64 (overflow : ℚ → Int) (value : ℚ) : UInt64 :=
  let rounded := roundHalfAway value
  if -2 ^ 63 ≤ rounded ∧ rounded < 2 ^ 63 then UInt64.ofInt rounded
  else UInt64.ofInt (overflow value)

/-! ## Attempts -/

/-- `struct AttemptAttr`. -/
@[ext] structure AttemptAttr where
  completed : Bool := false
  failed : Bool := false
  cancelled : Bool := false
  terminalNs : UInt64 := 0
  execS : ℚ := 0
  prefillS : ℚ := 0
  decodeS : ℚ := 0
  gpuS : ℚ := 0
  cpuS : ℚ := 0
  specRejS : ℚ := 0
  genTokens : UInt64 := 0

namespace AttemptAttr

/-- What an entry does to the record of its attempt. -/
def observe (overflow : ℚ → Int) (att : AttemptAttr) (e : LedgerEntry) : AttemptAttr :=
  let d := durSec e
  let val := e.quantity.value.toRat
  match e.eventKind with
  | .requestEnd =>
      { att with completed := true, terminalNs := max att.terminalNs e.startTsNs }
  | .prefill =>
      { att with prefillS := att.prefillS + d, execS := att.execS + d, gpuS := att.gpuS + d }
  | .decode =>
      { att with
        decodeS := att.decodeS + d
        execS := att.execS + d
        gpuS := att.gpuS + d
        genTokens :=
          if e.quantity.unit = .count then att.genTokens + llroundU64 overflow val
          else att.genTokens }
  | .gpuExecution => { att with execS := att.execS + d, gpuS := att.gpuS + d }
  | .cpuExecution => { att with execS := att.execS + d, cpuS := att.cpuS + d }
  | .speculationAccepted => { att with genTokens := att.genTokens + llroundU64 overflow val }
  | .speculationRejected => { att with specRejS := att.specRejS + d }
  | .failure => { att with failed := true }
  | .cancellation => { att with cancelled := true }
  | _ => att

/-- The condition under which an attempt may win. -/
def successful (att : AttemptAttr) : Bool := att.completed && !att.failed && !att.cancelled

end AttemptAttr

/-! ## The scan -/

/-- The local variables of type `double` that only accumulate. -/
inductive Total where
  | queueS | batchS | h2d | d2h | node | transDur | kvAlloc | kvReuse | tAlloc | tReuse
  | modelBs | adapterBs | recomputeS | reuseAvoid | reused | energyJ
deriving DecidableEq

/-- The local variables of type `std::uint64_t` that only accumulate. -/
inductive Counter where
  | resAcq | resRel | specProp | specAcc | specRej | retries | kHits | kMisses | gHits | gMisses
  | cReads | cWrites
deriving DecidableEq

/-- The local variables of the loop. -/
structure Scan where
  attempts : ExtTreeMap AttemptId AttemptAttr := ∅
  totals : Total → ℚ := fun _ => 0
  counters : Counter → UInt64 := fun _ => 0
  hasStart : Bool := false
  hasEnd : Bool := false
  startNs : UInt64 := 0
  endNs : UInt64 := 0
  kvLive : ℚ := 0
  kvPeak : ℚ := 0
  tLive : ℚ := 0
  tPeak : ℚ := 0

namespace Scan

/-- `total += amount`. -/
def add (s : Scan) (total : Total) (amount : ℚ) : Scan :=
  { s with totals := fun other => if other = total then s.totals other + amount else s.totals other }

/-- `counter += amount`. -/
def count (s : Scan) (counter : Counter) (amount : UInt64) : Scan :=
  { s with counters := fun other =>
      if other = counter then s.counters other + amount else s.counters other }

/-- `auto& att = attempts[e.attempt]`, with what the switch then does to it. -/
def visit (overflow : ℚ → Int) (s : Scan) (e : LedgerEntry) : Scan :=
  { s with attempts :=
      s.attempts.insert e.attempt ((s.attempts.getD e.attempt {}).observe overflow e) }

/-- One round of the loop over the entries. -/
def observe (overflow : ℚ → Int) (before : Scan) (e : LedgerEntry) : Scan :=
  let d := durSec e
  let val := e.quantity.value.toRat
  let n := llroundU64 overflow val
  let s := before.visit overflow e
  match e.eventKind with
  | .requestStart =>
      { s with startNs := if e.hasEnd then e.endTsNs else e.startTsNs, hasStart := true }
  | .requestEnd => { s with endNs := e.startTsNs, hasEnd := true }
  | .queue => s.add .queueS d
  | .batchWait => s.add .batchS d
  | .prefill => s
  | .decode => s
  | .gpuExecution => s
  | .cpuExecution => s
  | .speculationProposed => s.count .specProp n
  | .speculationAccepted => s.count .specAcc n
  | .speculationRejected => s.count .specRej n
  | .kvAllocate =>
      { s.add .kvAlloc val with kvLive := s.kvLive + val, kvPeak := max s.kvPeak (s.kvLive + val) }
  | .kvRelease => { s with kvLive := max 0 (s.kvLive - val) }
  | .kvReuse => s.add .kvReuse val
  | .tensorAllocate =>
      { s.add .tAlloc val with tLive := s.tLive + val, tPeak := max s.tPeak (s.tLive + val) }
  | .tensorRelease => { s with tLive := max 0 (s.tLive - val) }
  | .tensorReuse => s.add .tReuse val
  | .modelResidency => s.add .modelBs (val * d)
  | .adapterResidency => s.add .adapterBs (val * d)
  | .kernelHit => s.count .kHits n
  | .kernelMiss => s.count .kMisses n
  | .graphHit => s.count .gHits n
  | .graphMiss => s.count .gMisses n
  | .transferH2D => (s.add .h2d val).add .transDur d
  | .transferD2H => (s.add .d2h val).add .transDur d
  | .transferInterNode => (s.add .node val).add .transDur d
  | .cacheRead => s.count .cReads n
  | .cacheWrite => s.count .cWrites n
  | .reserve => s.count .resAcq 1
  | .release => s.count .resRel 1
  | .retry => s.count .retries n
  | .failure => s
  | .cancellation => s
  | .recompute => s.add .recomputeS d
  | .reuseAvoided => s.add .reuseAvoid val
  | .energy => s.add .energyJ (if e.quantity.unit = .energyWh then val * 3600 else val)
  -- A cost adjustment belongs to the pricing layer.
  | .costAdjustment => s
  -- The switch has no case for other bytes.
  | .unlisted _ _ => s

end Scan

/-! ## The winning attempt and the waste of the others -/

/-- One round of the loop that picks the winner.  The best attempt so far comes
with `best_ns`; an attempt that ended no earlier replaces it. -/
def considerAttempt (best : Option (AttemptId × UInt64)) (kvp : AttemptId × AttemptAttr) :
    Option (AttemptId × UInt64) :=
  if kvp.2.successful then
    match best with
    | none => some (kvp.1, kvp.2.terminalNs)
    | some (_, bestNs) =>
        if kvp.2.terminalNs ≥ bestNs then some (kvp.1, kvp.2.terminalNs) else best
  else best

/-- The winner among the attempts in key order. -/
def selectWinner (attempts : List (AttemptId × AttemptAttr)) : Option (AttemptId × UInt64) :=
  attempts.foldl considerAttempt none

/-- The accumulators of the last loop. -/
@[ext] structure Waste where
  failedWork : ℚ := 0
  cancelledWork : ℚ := 0
  specWasted : ℚ := 0

/-- The loop over the attempts that did not win. -/
def wasteOf (winning : Option AttemptId) (attempts : List (AttemptId × AttemptAttr)) : Waste :=
  attempts.foldl
    (fun waste kvp =>
      if winning = some kvp.1 then waste
      else
        { failedWork :=
            if kvp.2.failed then waste.failedWork + kvp.2.execS else waste.failedWork
          cancelledWork :=
            if kvp.2.cancelled then waste.cancelledWork + kvp.2.execS else waste.cancelledWork
          specWasted := waste.specWasted + kvp.2.specRejS })
    {}

/-! ## The account -/

/-- A `Quantity` of the account, with an exact value. -/
structure ExactQuantity where
  value : ℚ := 0
  unit : MeasureUnit := .dimensionless
  provenance : Provenance := .unavailable

/-- `struct ReconcileResult`. -/
structure ReconcileResult where
  ok : Bool := false
  reason : String := ""
  entries : Nat := 0
  attempts : Nat := 0
  duplicateIgnored : Nat := 0
  declaredUsefulWork : ℚ := 0
  declaredWastedWork : ℚ := 0

/-- `struct RequestAccount`. -/
structure RequestAccount where
  request : RequestId := {}
  tenant : TenantId := {}
  workload : WorkloadId := {}
  model : ModelId := {}
  modelRevision : ModelRevisionId := {}
  wallLatencyS : ExactQuantity := {}
  queueTimeS : ExactQuantity := {}
  executionS : ExactQuantity := {}
  prefillS : ExactQuantity := {}
  decodeS : ExactQuantity := {}
  gpuActiveS : ExactQuantity := {}
  cpuActiveS : ExactQuantity := {}
  batchWaitS : ExactQuantity := {}
  h2dBytes : ExactQuantity := {}
  d2hBytes : ExactQuantity := {}
  interNodeBytes : ExactQuantity := {}
  transferDurationS : ExactQuantity := {}
  kvAllocated : ExactQuantity := {}
  kvPeak : ExactQuantity := {}
  kvReuse : ExactQuantity := {}
  tensorAllocated : ExactQuantity := {}
  tensorPeak : ExactQuantity := {}
  tensorReuse : ExactQuantity := {}
  modelByteSeconds : ExactQuantity := {}
  adapterByteSeconds : ExactQuantity := {}
  tensorByteSeconds : ExactQuantity := {}
  reservationsAcquired : UInt64 := 0
  reservationsReleased : UInt64 := 0
  allocationPeak : ExactQuantity := {}
  specProposed : UInt64 := 0
  specAccepted : UInt64 := 0
  specRejected : UInt64 := 0
  generatedTokens : UInt64 := 0
  specWastedWorkS : ExactQuantity := {}
  retries : UInt64 := 0
  failedAttemptWork : ExactQuantity := {}
  cancelledWork : ExactQuantity := {}
  recomputedWork : ExactQuantity := {}
  reuseAvoidedWork : ExactQuantity := {}
  reusedWork : ExactQuantity := {}
  kernelHits : UInt64 := 0
  kernelMisses : UInt64 := 0
  graphHits : UInt64 := 0
  graphMisses : UInt64 := 0
  cacheReads : UInt64 := 0
  cacheWrites : UInt64 := 0
  energyJoules : ExactQuantity := {}
  completed : Bool := false
  cancelled : Bool := false
  failed : Bool := false
  terminalOutcome : String := ""
  attemptCount : Nat := 0
  reconcile : ReconcileResult := {}
  aggregateProvenanceName : String := "derived"

/-- A value derived from ledger entries, in the unit that `set_units` assigns. -/
def derived (unit : MeasureUnit) (value : ℚ) : ExactQuantity := ⟨value, unit, .derived⟩

/-- Everything after the loop over the entries. -/
def Scan.account (s : Scan) (entries : List LedgerEntry) (request : RequestId) : RequestAccount :=
  let winning := (selectWinner s.attempts.toList).map Prod.fst
  let winner := winning.map (fun attempt => s.attempts.getD attempt {})
  let anyCancelled := s.attempts.toList.any (fun kvp => kvp.2.cancelled && !kvp.2.failed)
  let waste := wasteOf winning s.attempts.toList
  { request
    tenant := (entries.head?.map LedgerEntry.tenant).getD {}
    workload := (entries.head?.map LedgerEntry.workload).getD {}
    model := (entries.head?.map LedgerEntry.model).getD {}
    modelRevision := (entries.head?.map LedgerEntry.modelRevision).getD {}
    wallLatencyS := derived .seconds
      (if s.hasStart ∧ s.hasEnd ∧ s.endNs ≥ s.startNs then sec (s.endNs - s.startNs) else 0)
    queueTimeS := derived .seconds (s.totals .queueS)
    executionS := derived .seconds ((winner.map AttemptAttr.execS).getD 0)
    prefillS := derived .seconds ((winner.map AttemptAttr.prefillS).getD 0)
    decodeS := derived .seconds ((winner.map AttemptAttr.decodeS).getD 0)
    gpuActiveS := derived .seconds ((winner.map AttemptAttr.gpuS).getD 0)
    cpuActiveS :=
      { value := (winner.map AttemptAttr.cpuS).getD 0
        unit := .seconds
        provenance := if s.attempts.isEmpty then .unavailable else .derived }
    batchWaitS := derived .seconds (s.totals .batchS)
    h2dBytes := derived .bytes (s.totals .h2d)
    d2hBytes := derived .bytes (s.totals .d2h)
    interNodeBytes := derived .bytes (s.totals .node)
    transferDurationS := derived .seconds (s.totals .transDur)
    kvAllocated := derived .bytes (s.totals .kvAlloc)
    kvPeak := derived .bytes s.kvPeak
    kvReuse := derived .bytes (s.totals .kvReuse)
    tensorAllocated := derived .bytes (s.totals .tAlloc)
    tensorPeak := derived .bytes s.tPeak
    tensorReuse := derived .bytes (s.totals .tReuse)
    modelByteSeconds := derived .byteSeconds (s.totals .modelBs)
    adapterByteSeconds := derived .byteSeconds (s.totals .adapterBs)
    tensorByteSeconds := { value := 0, unit := .byteSeconds, provenance := .unavailable }
    reservationsAcquired := s.counters .resAcq
    reservationsReleased := s.counters .resRel
    allocationPeak := derived .bytes (max s.kvPeak s.tPeak)
    specProposed := s.counters .specProp
    specAccepted := s.counters .specAcc
    specRejected := s.counters .specRej
    generatedTokens := (winner.map AttemptAttr.genTokens).getD 0
    specWastedWorkS := derived .seconds
      (waste.specWasted + (winner.map AttemptAttr.specRejS).getD 0)
    retries := s.counters .retries
    failedAttemptWork := derived .seconds waste.failedWork
    cancelledWork := derived .seconds waste.cancelledWork
    recomputedWork := derived .seconds (s.totals .recomputeS)
    reuseAvoidedWork := derived .seconds (s.totals .reuseAvoid)
    reusedWork := derived .seconds (s.totals .reused)
    kernelHits := s.counters .kHits
    kernelMisses := s.counters .kMisses
    graphHits := s.counters .gHits
    graphMisses := s.counters .gMisses
    cacheReads := s.counters .cReads
    cacheWrites := s.counters .cWrites
    energyJoules :=
      { value := s.totals .energyJ
        unit := .energyJoule
        provenance := if s.totals .energyJ > 0 then .derived else .unavailable }
    completed := winner.isSome
    cancelled := winner.isNone && anyCancelled
    failed := winner.isNone && !anyCancelled
    terminalOutcome :=
      if winner.isSome then "completed" else if anyCancelled then "cancelled" else "failed"
    attemptCount := s.attempts.size
    reconcile :=
      { ok := true
        reason := "reconciled " ++ toString entries.length ++ " entries across " ++
          toString s.attempts.size ++ " attempt(s)"
        entries := entries.length
        attempts := s.attempts.size } }

/-- The state of the loop after all entries. -/
def scanEntries (overflow : ℚ → Int) (entries : List LedgerEntry) : Scan :=
  entries.foldl (Scan.observe overflow) {}

/-- `reconcile_request`. -/
def reconcileRequest (overflow : ℚ → Int) (entries : List LedgerEntry) (request : RequestId) :
    RequestAccount :=
  (scanEntries overflow entries).account entries request

end InferenceLedger
