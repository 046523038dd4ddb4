import InferenceLedger.Accounting.Query
import InferenceLedger.Accounting.Totals
import InferenceLedger.Foundation.WordSums
import InferenceLedger.Ledger.History

namespace InferenceLedger

open Foundation Std

/-!
# Counters

Eleven counters of an account are fed with rounded quantities: ten for the
whole request, and the generated tokens for each attempt.  Every quantity goes
through `std::llround`, a cast to an unsigned word and a 64-bit addition.

The ledger admits any finite value, and negative ones under resources that are
not physical, so none of the three steps is safe for everything it stores.
What is needed is exactly that each quantity rounds to a non-negative signed
word, and that the sum of each counter fits an unsigned one.
-/

/-! ## Rounding -/

/-- The quantities that round to a non-negative signed 64-bit integer. -/
theorem roundHalfAway_fits_iff (value : ℚ) :
    (0 ≤ roundHalfAway value ∧ roundHalfAway value < 2 ^ 63) ↔
      -(1 / 2) < value ∧ value < 2 ^ 63 - 1 / 2 := by
  unfold roundHalfAway
  by_cases positive : 0 ≤ value
  · rw [if_pos positive, Rat.le_floor_iff, Rat.floor_lt_iff]
    push_cast
    constructor
    · rintro ⟨-, bounded⟩
      constructor <;> linarith
    · rintro ⟨-, bounded⟩
      constructor <;> linarith
  · have negative : value < 0 := lt_of_not_ge positive
    have atLeast : 0 ≤ (-value + 1 / 2).floor := by
      rw [Rat.le_floor_iff]
      push_cast
      linarith
    have small : (-value + 1 / 2).floor < 1 ↔ -value + 1 / 2 < 1 := by
      rw [Rat.floor_lt_iff]
      push_cast
      rfl
    rw [if_neg positive]
    constructor
    · rintro ⟨nonNegative, -⟩
      have below := small.mp (by omega)
      constructor <;> linarith
    · rintro ⟨above, -⟩
      have zero := small.mpr (by linarith)
      constructor <;> omega

/-- Such a quantity survives the cast. -/
theorem toNat_llroundU64 (overflow : ℚ → Int) {value : ℚ} (nonNegative : 0 ≤ roundHalfAway value)
    (bounded : roundHalfAway value < 2 ^ 63) :
    ((llroundU64 overflow value).toNat : Int) = roundHalfAway value := by
  unfold llroundU64
  simp only
  rw [if_pos ⟨by omega, bounded⟩]
  unfold UInt64.ofInt
  rw [UInt64.toNat_ofNat']
  omega

/-! ## What feeds which counter -/

/-- The counter that the quantity of an event goes to. -/
def EventKind.counter : EventKind → Option Counter
  | speculationProposed => some .specProp
  | speculationAccepted => some .specAcc
  | speculationRejected => some .specRej
  | retry => some .retries
  | kernelHit => some .kHits
  | kernelMiss => some .kMisses
  | graphHit => some .gHits
  | graphMiss => some .gMisses
  | cacheRead => some .cReads
  | cacheWrite => some .cWrites
  | _ => none

/-- An entry that reports generated tokens. -/
def LedgerEntry.reportsTokens (e : LedgerEntry) : Bool :=
  (e.eventKind == .decode && e.quantity.unit == .count) || e.eventKind == .speculationAccepted

/-- The accumulators of rounded quantities.  Reservations are counted one by
one, whatever their quantity. -/
inductive Tally where
  | counter (which : Counter) (quantities : which ≠ .resAcq ∧ which ≠ .resRel)
  | tokens (attempt : AttemptId)

namespace Tally

/-- The entry is added to the accumulator. -/
def fedBy : Tally → LedgerEntry → Bool
  | .counter which _, e => e.eventKind.counter = some which
  | .tokens attempt, e => e.attempt == attempt && e.reportsTokens

/-- The accumulator after a list of entries. -/
def value (overflow : ℚ → Int) (entries : List LedgerEntry) : Tally → UInt64
  | .counter which _ => (scanEntries overflow entries).counters which
  | .tokens attempt => (attemptRecord overflow entries attempt).genTokens

/-- The sum of the rounded quantities, without a bound. -/
def sum (tally : Tally) (entries : List LedgerEntry) : Int :=
  ((entries.filter tally.fedBy).map fun e => roundHalfAway e.quantity.value.toRat).sum

end Tally

/-! ## Accumulators as sums -/

section Sums

variable (overflow : ℚ → Int) (entries : List LedgerEntry)

/-- The word that is added for an entry. -/
def countOf (e : LedgerEntry) : UInt64 := llroundU64 overflow e.quantity.value.toRat

/-- What an entry adds to a counter of quantities. -/
theorem observe_counter {which : Counter} (quantities : which ≠ .resAcq ∧ which ≠ .resRel)
    (e : LedgerEntry) :
    (({} : Scan).observe overflow e).counters which =
      if e.eventKind.counter = some which then countOf overflow e else 0 := by
  cases kind : e.eventKind <;>
    simp [Scan.observe, kind, Scan.count_counters, EventKind.counter, countOf, quantities,
      Pi.single_apply, @eq_comm _ which]

theorem observe_genTokens (att : AttemptAttr) (e : LedgerEntry) :
    (att.observe overflow e).genTokens =
      att.genTokens + if e.reportsTokens then countOf overflow e else 0 := by
  cases kind : e.eventKind with
  | decode =>
      by_cases counted : e.quantity.unit = .count
      · simp [AttemptAttr.observe, kind, LedgerEntry.reportsTokens, counted, countOf]
      · simp [AttemptAttr.observe, kind, LedgerEntry.reportsTokens, counted]
  | _ => simp [AttemptAttr.observe, kind, LedgerEntry.reportsTokens, countOf]

/-- Every accumulator is the sum of the words that were added to it. -/
theorem Tally.value_eq_accumulated (tally : Tally) :
    tally.value overflow entries = accumulated tally.fedBy (countOf overflow) entries := by
  cases tally with
  | counter which quantities =>
      rw [Tally.value, counters_scanEntries]
      simp only [observe_counter overflow quantities]
      rw [List.sum_map_ite, List.map_const', List.sum_replicate, nsmul_zero, add_zero]
      rfl
  | tokens attempt =>
      rw [Tally.value, attemptRecord_additive overflow entries rfl (observe_genTokens overflow),
        List.sum_map_ite, List.map_const', List.sum_replicate, nsmul_zero, add_zero,
        List.filter_filter, accumulated]
      congr 3
      funext e
      simp [Tally.fedBy, Bool.and_comm, Bool.beq_eq_decide_eq]

end Sums

/-! ## Exactness -/

/-- The fields of the account that report the counters. -/
def RequestAccount.counter (account : RequestAccount) : Counter → UInt64
  | .resAcq => account.reservationsAcquired
  | .resRel => account.reservationsReleased
  | .specProp => account.specProposed
  | .specAcc => account.specAccepted
  | .specRej => account.specRejected
  | .retries => account.retries
  | .kHits => account.kernelHits
  | .kMisses => account.kernelMisses
  | .gHits => account.graphHits
  | .gMisses => account.graphMisses
  | .cReads => account.cacheReads
  | .cWrites => account.cacheWrites

/-- The counters of the account are the sums of the rounded quantities, and no
step on the way there leaves the range of its type. -/
structure CountersExact (overflow : ℚ → Int) (entries : List LedgerEntry) (request : RequestId) :
    Prop where
  inRange : ∀ tally : Tally, ∀ e ∈ entries, tally.fedBy e = true →
    -2 ^ 63 ≤ roundHalfAway e.quantity.value.toRat ∧ roundHalfAway e.quantity.value.toRat < 2 ^ 63
  notNegative : ∀ tally : Tally, ∀ e ∈ entries, tally.fedBy e = true →
    0 ≤ roundHalfAway e.quantity.value.toRat
  noWrap : ∀ (tally : Tally) (before : List LedgerEntry) (e : LedgerEntry)
    (after : List LedgerEntry), entries = before ++ e :: after → tally.fedBy e = true →
    (tally.value overflow before).toNat + (llroundU64 overflow e.quantity.value.toRat).toNat < 2 ^ 64
  counters : ∀ (which : Counter) (quantities : which ≠ .resAcq ∧ which ≠ .resRel),
    (((reconcileRequest overflow entries request).counter which).toNat : Int) =
      (Tally.counter which quantities).sum entries
  generatedTokens : ((reconcileRequest overflow entries request).generatedTokens.toNat : Int) =
    ((winningAttempt overflow entries).map fun w => (Tally.tokens w).sum entries).getD 0

/-- Every quantity that is counted rounds to a non-negative signed word, and
the sum for every counter fits an unsigned one. -/
structure CountersFit (entries : List LedgerEntry) : Prop where
  quantities : ∀ tally : Tally, ∀ e ∈ entries, tally.fedBy e = true →
    -(1 / 2) < e.quantity.value.toRat ∧ e.quantity.value.toRat < 2 ^ 63 - 1 / 2
  sums : ∀ tally : Tally, tally.sum entries < 2 ^ 64

section Exact

variable {overflow : ℚ → Int} {entries : List LedgerEntry}

/-- Where the quantities round well, the words that are added are the rounded
quantities. -/
theorem Tally.exactSum_eq_sum {tally : Tally}
    (rounded : ∀ e ∈ entries, tally.fedBy e = true →
      0 ≤ roundHalfAway e.quantity.value.toRat ∧ roundHalfAway e.quantity.value.toRat < 2 ^ 63) :
    (exactSum tally.fedBy (countOf overflow) entries : Int) = tally.sum entries := by
  rw [exactSum, Tally.sum, Nat.cast_list_sum, List.map_map]
  congr 1
  apply List.map_congr_left
  intro e member
  rcases List.mem_filter.mp member with ⟨inside, fed⟩
  rcases rounded e inside fed with ⟨notNegative, bounded⟩
  exact toNat_llroundU64 overflow notNegative bounded

/-- Without a wrap, an accumulator holds the sum of the rounded quantities. -/
theorem Tally.toNat_value {tally : Tally}
    (rounded : ∀ e ∈ entries, tally.fedBy e = true →
      0 ≤ roundHalfAway e.quantity.value.toRat ∧ roundHalfAway e.quantity.value.toRat < 2 ^ 63)
    (fits : tally.sum entries < 2 ^ 64) :
    ((tally.value overflow entries).toNat : Int) = tally.sum entries := by
  have same := @Tally.exactSum_eq_sum overflow _ _ rounded
  rw [Tally.value_eq_accumulated, toNat_accumulated, Nat.mod_eq_of_lt (by omega), same]

/-- Counters are exact if and only if everything fits. -/
theorem countersExact_iff (request : RequestId) :
    CountersExact overflow entries request ↔ CountersFit entries := by
  constructor
  · intro counted
    have rounded : ∀ tally : Tally, ∀ e ∈ entries, tally.fedBy e = true →
        0 ≤ roundHalfAway e.quantity.value.toRat ∧
          roundHalfAway e.quantity.value.toRat < 2 ^ 63 := fun tally e member fed =>
      ⟨counted.notNegative tally e member fed, (counted.inRange tally e member fed).2⟩
    refine ⟨?_, ?_⟩
    · intro tally e member fed
      exact (roundHalfAway_fits_iff _).mp (rounded tally e member fed)
    · intro tally
      have noWrap : NoWrap tally.fedBy (countOf overflow) entries := by
        intro before e after split fed
        rw [← Tally.value_eq_accumulated]
        exact counted.noWrap tally before e after split fed
      have fits := (noWrap_iff _ _ _).mp noWrap
      rw [← Tally.exactSum_eq_sum (rounded tally)]
      exact_mod_cast fits
  · intro fit
    have rounded : ∀ tally : Tally, ∀ e ∈ entries, tally.fedBy e = true →
        0 ≤ roundHalfAway e.quantity.value.toRat ∧
          roundHalfAway e.quantity.value.toRat < 2 ^ 63 := fun tally e member fed =>
      (roundHalfAway_fits_iff _).mpr (fit.quantities tally e member fed)
    refine ⟨?_, ?_, ?_, ?_, ?_⟩
    · intro tally e member fed
      rcases rounded tally e member fed with ⟨notNegative, bounded⟩
      exact ⟨by omega, bounded⟩
    · intro tally e member fed
      exact (rounded tally e member fed).1
    · intro tally before e after split fed
      have fits : exactSum tally.fedBy (countOf overflow) entries < 2 ^ 64 := by
        have same := @Tally.exactSum_eq_sum overflow _ _ (rounded tally)
        have bounded := fit.sums tally
        omega
      rw [Tally.value_eq_accumulated]
      exact (noWrap_iff _ _ _).mpr fits before e after split fed
    · intro which quantities
      have field : (reconcileRequest overflow entries request).counter which =
          (Tally.counter which quantities).value overflow entries := by
        cases which <;> rfl
      rw [field]
      exact Tally.toNat_value (rounded _) (fit.sums _)
    · rw [(useful_eq_winnerRecord overflow entries request).2.2.2.2.2.2, winnerRecord]
      cases winning : winningAttempt overflow entries with
      | none => rfl
      | some w => exact Tally.toNat_value (rounded (.tokens w)) (fit.sums (.tokens w))

end Exact

/-- Counters are exact, in the account of any request in any ledger that a
sequence of appends leads to, exactly when every counted quantity of the
request is above minus one half and below `2^63` by more than one half, and the
rounded quantities of each counter add up to less than `2^64`. -/
theorem appends_counters_exact_iff (overflow : ℚ → Int) (ledgerId : LedgerId)
    (calls : List Ledger.Call) (request : RequestId) :
    let entries := queryLedger (Ledger.appends.run { id := ledgerId } calls).snapshot
      { request := some request }
    CountersExact overflow entries request ↔ CountersFit entries :=
  countersExact_iff request

/-- Minus one proposed token, under a resource whose sign is not tested. -/
def negativeProposal : LedgerEntry :=
  { request := ⟨0, 3⟩
    eventKind := .speculationProposed
    resourceKind := .generic
    quantity := { value := ⟨0xBFF0000000000000⟩, unit := .count, provenance := .reported } }

/-- It is stored, and cast to an unsigned word. -/
theorem negative_proposal_is_counted :
    ¬ ∀ (overflow : ℚ → Int) (ledgerId : LedgerId) (calls : List Ledger.Call)
      (request : RequestId),
      CountersExact overflow
        (queryLedger (Ledger.appends.run { id := ledgerId } calls).snapshot
          { request := some request }) request := by
  intro claim
  have counted := (claim (fun _ => 0) {} [⟨none, negativeProposal⟩] ⟨0, 3⟩).counters .specProp
    (by decide)
  have stored : (Ledger.appends.run {} [⟨none, negativeProposal⟩]).snapshot =
      [negativeProposal] := Ledger.entries_appends_single {} (by decide +kernel)
  rw [stored] at counted
  exact absurd counted (by decide +kernel)

end InferenceLedger
