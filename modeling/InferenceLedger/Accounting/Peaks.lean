import InferenceLedger.Accounting.Totals
import InferenceLedger.Foundation.Gauge
import InferenceLedger.Foundation.History

namespace InferenceLedger

open Foundation Std

/-!
# Peak memory

The scan meters two kinds of memory in the same way.  An allocation raises the
live amount and then looks whether it is the highest so far; a release lowers
it, but not below zero, and does not look.

For amounts that are not negative this is a gauge over the allocations and
releases in list order, whatever other events stand between them.  The reported
peak is therefore the largest net amount of a window of these events.
-/

/-- The change that an event makes to the live amount. -/
def memoryChange (allocating releasing : EventKind) (e : LedgerEntry) : Option ℚ :=
  if e.eventKind = allocating then some e.quantity.value.toRat
  else if e.eventKind = releasing then some (-e.quantity.value.toRat)
  else none

section Changes

variable {allocating releasing : EventKind} {e : LedgerEntry}

theorem memoryChange_of_allocating (allocation : e.eventKind = allocating) :
    memoryChange allocating releasing e = some e.quantity.value.toRat := if_pos allocation

theorem memoryChange_of_releasing (other : e.eventKind ≠ allocating)
    (isRelease : e.eventKind = releasing) :
    memoryChange allocating releasing e = some (-e.quantity.value.toRat) := by
  rw [memoryChange, if_neg other, if_pos isRelease]

theorem memoryChange_of_other (other : e.eventKind ≠ allocating)
    (another : e.eventKind ≠ releasing) : memoryChange allocating releasing e = none := by
  rw [memoryChange, if_neg other, if_neg another]

end Changes

/-- The changes in list order. -/
def memoryChanges (allocating releasing : EventKind) (entries : List LedgerEntry) : List ℚ :=
  entries.filterMap (memoryChange allocating releasing)

/-- The allocations and releases carry no negative amount. -/
def AmountsNonNegative (allocating releasing : EventKind) (entries : List LedgerEntry) : Prop :=
  ∀ e ∈ entries, e.eventKind = allocating ∨ e.eventKind = releasing →
    e.quantity.value.isNegative = false

/-- No release exceeds what is live when it happens. -/
def ReleasesCovered (allocating releasing : EventKind) (entries : List LedgerEntry) : Prop :=
  ∀ before e after, entries = before ++ e :: after → e.eventKind = releasing →
    e.quantity.value.toRat ≤ (memoryChanges allocating releasing before).sum

/-- What a reported peak says about the events. -/
structure IsPeak (allocating releasing : EventKind) (entries : List LedgerEntry)
    (peak allocated : ℚ) : Prop where
  window : IsGreatest
    (insert 0 (netChanges (· <:+: memoryChanges allocating releasing entries))) peak
  atMostAllocated : peak ≤ allocated
  abovePrefix : ∀ front, front <+: memoryChanges allocating releasing entries → front.sum ≤ peak
  exact : ReleasesCovered allocating releasing entries →
    IsGreatest (netChanges (· <+: memoryChanges allocating releasing entries)) peak

/-! ## The scan as a gauge -/

/-- The variables of the scan that meter the events of these kinds: the live
amount, its peak, and the total of what was allocated. -/
structure Meters (overflow : ℚ → Int) (allocating releasing : EventKind) (live peak : Scan → ℚ)
    (total : Total) : Prop where
  start : live {} = 0 ∧ peak {} = 0
  allocates : ∀ s e, e.eventKind = allocating →
    live (s.observe overflow e) = live s + e.quantity.value.toRat ∧
      peak (s.observe overflow e) = max (peak s) (live s + e.quantity.value.toRat)
  releases : ∀ s e, e.eventKind = releasing →
    live (s.observe overflow e) = max 0 (live s - e.quantity.value.toRat) ∧
      peak (s.observe overflow e) = peak s
  others : ∀ s e, e.eventKind ≠ allocating → e.eventKind ≠ releasing →
    live (s.observe overflow e) = live s ∧ peak (s.observe overflow e) = peak s
  adds : ∀ e, (({} : Scan).observe overflow e).totals total =
    if e.eventKind = allocating then e.quantity.value.toRat else 0

theorem meters_kv (overflow : ℚ → Int) :
    Meters overflow .kvAllocate .kvRelease Scan.kvLive Scan.kvPeak .kvAlloc where
  start := ⟨rfl, rfl⟩
  allocates := by
    intro s e kind
    simp only [Scan.observe, kind]
    exact ⟨rfl, rfl⟩
  releases := by
    intro s e kind
    simp only [Scan.observe, kind]
    exact ⟨rfl, rfl⟩
  others := by
    intro s e notAllocate notRelease
    cases kind : e.eventKind with
    | kvAllocate => exact (notAllocate kind).elim
    | kvRelease => exact (notRelease kind).elim
    | _ =>
        simp only [Scan.observe, kind]
        exact ⟨rfl, rfl⟩
  adds := by
    intro e
    cases kind : e.eventKind <;> simp [Scan.observe, kind, Scan.add, Scan.count, Scan.visit]

theorem meters_tensor (overflow : ℚ → Int) :
    Meters overflow .tensorAllocate .tensorRelease Scan.tLive Scan.tPeak .tAlloc where
  start := ⟨rfl, rfl⟩
  allocates := by
    intro s e kind
    simp only [Scan.observe, kind]
    exact ⟨rfl, rfl⟩
  releases := by
    intro s e kind
    simp only [Scan.observe, kind]
    exact ⟨rfl, rfl⟩
  others := by
    intro s e notAllocate notRelease
    cases kind : e.eventKind with
    | tensorAllocate => exact (notAllocate kind).elim
    | tensorRelease => exact (notRelease kind).elim
    | _ =>
        simp only [Scan.observe, kind]
        exact ⟨rfl, rfl⟩
  adds := by
    intro e
    cases kind : e.eventKind <;> simp [Scan.observe, kind, Scan.add, Scan.count, Scan.visit]

namespace Meters

variable {overflow : ℚ → Int} {allocating releasing : EventKind} {live peak : Scan → ℚ}
  {total : Total} {entries : List LedgerEntry}

/-- One event, seen by the gauge. -/
theorem observe (meters : Meters overflow allocating releasing live peak total) {s : Scan}
    {e : LedgerEntry}
    (amount : e.eventKind = allocating ∨ e.eventKind = releasing → 0 ≤ e.quantity.value.toRat)
    (nonneg : 0 ≤ live s) (below : live s ≤ peak s) :
    (⟨live (s.observe overflow e), peak (s.observe overflow e)⟩ : Gauge ℚ) =
      (memoryChange allocating releasing e).elim ⟨live s, peak s⟩
        (Gauge.observe ⟨live s, peak s⟩) := by
  by_cases allocation : e.eventKind = allocating
  · have raised : 0 ≤ live s + e.quantity.value.toRat :=
      add_nonneg nonneg (amount (Or.inl allocation))
    rcases meters.allocates s e allocation with ⟨newLive, newPeak⟩
    rw [memoryChange_of_allocating allocation, Option.elim_some, newLive, newPeak, Gauge.observe,
      max_eq_right raised]
  · by_cases isRelease : e.eventKind = releasing
    · rcases meters.releases s e isRelease with ⟨newLive, newPeak⟩
      -- What remains after a release is no more than before, so the peak stays.
      have lower : max 0 (live s - e.quantity.value.toRat) ≤ peak s := by
        apply max_le (nonneg.trans below)
        exact (sub_le_self _ (amount (Or.inr isRelease))).trans below
      rw [memoryChange_of_releasing allocation isRelease, Option.elim_some, newLive, newPeak,
        Gauge.observe, ← sub_eq_add_neg, max_eq_left lower]
    · rcases meters.others s e allocation isRelease with ⟨newLive, newPeak⟩
      rw [memoryChange_of_other allocation isRelease, Option.elim_none, newLive, newPeak]

theorem amount_nonneg (nonNegative : AmountsNonNegative allocating releasing entries)
    {e : LedgerEntry} (member : e ∈ entries) (metered : e.eventKind = allocating ∨ e.eventKind = releasing) :
    0 ≤ e.quantity.value.toRat := Binary64.toRat_nonneg (nonNegative e member metered)

theorem memoryChanges_concat (entries : List LedgerEntry) (e : LedgerEntry) :
    memoryChanges allocating releasing (entries ++ [e]) =
      memoryChanges allocating releasing entries ++ (memoryChange allocating releasing e).toList := by
  rw [memoryChanges, List.filterMap_append, memoryChanges]
  cases change : memoryChange allocating releasing e with
  | none => rw [List.filterMap_cons_none change, List.filterMap_nil, Option.toList_none]
  | some amount => rw [List.filterMap_cons_some change, List.filterMap_nil, Option.toList_some]

/-- After all entries the variables are the gauge of the changes. -/
theorem gauge_scanEntries (meters : Meters overflow allocating releasing live peak total)
    (nonNegative : AmountsNonNegative allocating releasing entries) :
    (⟨live (scanEntries overflow entries), peak (scanEntries overflow entries)⟩ : Gauge ℚ) =
      Gauge.of (memoryChanges allocating releasing entries) := by
  induction entries using List.reverseRecOn with
  | nil =>
      rcases meters.start with ⟨noLive, noPeak⟩
      exact Gauge.ext noLive noPeak
  | append_singleton entries e ih =>
      have before := ih fun other member => nonNegative other (List.mem_append_left _ member)
      have nonneg := Gauge.level_nonneg (memoryChanges allocating releasing entries)
      have below := Gauge.level_le_peak (memoryChanges allocating releasing entries)
      rw [← before] at nonneg below
      rw [scanEntries_concat, meters.observe (amount_nonneg nonNegative (by simp)) nonneg below, before,
        memoryChanges_concat]
      cases memoryChange allocating releasing e with
      | none => rw [Option.elim_none, Option.toList_none, List.append_nil]
      | some change => rw [Option.elim_some, Option.toList_some, Gauge.of_concat]

/-- What was allocated is the sum of the increases. -/
theorem sum_increases (nonNegative : AmountsNonNegative allocating releasing entries) :
    ((memoryChanges allocating releasing entries).map (max 0)).sum =
      (entries.map fun e => if e.eventKind = allocating then e.quantity.value.toRat else 0).sum := by
  induction entries with
  | nil => rfl
  | cons e entries ih =>
      have amount := amount_nonneg nonNegative List.mem_cons_self
      have rest := ih fun other member => nonNegative other (List.mem_cons_of_mem _ member)
      rw [memoryChanges] at rest ⊢
      rw [List.map_cons, List.sum_cons, ← rest]
      by_cases allocation : e.eventKind = allocating
      · rw [List.filterMap_cons_some (memoryChange_of_allocating allocation), List.map_cons,
          List.sum_cons, max_eq_right (amount (Or.inl allocation)), if_pos allocation]
      · rw [if_neg allocation, zero_add]
        by_cases isRelease : e.eventKind = releasing
        · rw [List.filterMap_cons_some (memoryChange_of_releasing allocation isRelease),
            List.map_cons, List.sum_cons, max_eq_left (neg_nonpos.mpr (amount (Or.inr isRelease))),
            zero_add]
        · rw [List.filterMap_cons_none (memoryChange_of_other allocation isRelease)]

/-- When every release is covered, one more event leaves the net amount at or
above zero. -/
theorem change_covered {e : LedgerEntry} {change : ℚ}
    (nonNegative : AmountsNonNegative allocating releasing (entries ++ [e]))
    (covered : ReleasesCovered allocating releasing (entries ++ [e]))
    (whole : 0 ≤ (memoryChanges allocating releasing entries).sum)
    (changed : memoryChange allocating releasing e = some change) :
    0 ≤ (memoryChanges allocating releasing entries).sum + change := by
  by_cases allocation : e.eventKind = allocating
  · rw [memoryChange_of_allocating allocation] at changed
    rw [← Option.some.inj changed]
    exact add_nonneg whole (amount_nonneg nonNegative (by simp) (Or.inl allocation))
  · by_cases isRelease : e.eventKind = releasing
    · rw [memoryChange_of_releasing allocation isRelease] at changed
      rw [← Option.some.inj changed, ← sub_eq_add_neg, sub_nonneg]
      exact covered entries e [] rfl isRelease
    · rw [memoryChange_of_other allocation isRelease] at changed
      cases changed

theorem prefix_sum_nonneg (nonNegative : AmountsNonNegative allocating releasing entries)
    (covered : ReleasesCovered allocating releasing entries) :
    ∀ front, front <+: memoryChanges allocating releasing entries → 0 ≤ front.sum := by
  induction entries using List.reverseRecOn with
  | nil =>
      intro front inside
      rw [List.prefix_nil.mp inside]
      exact le_rfl
  | append_singleton entries e ih =>
      have earlier := ih (fun other member => nonNegative other (List.mem_append_left _ member))
        (fun before other after split => covered before other (after ++ [e]) (moment_append split [e]))
      intro front inside
      rw [memoryChanges_concat] at inside
      cases changed : memoryChange allocating releasing e with
      | none =>
          rw [changed, Option.toList_none, List.append_nil] at inside
          exact earlier front inside
      | some change =>
          rw [changed, Option.toList_some] at inside
          rcases List.prefix_concat_iff.mp inside with rfl | before
          · rw [List.sum_append, List.sum_singleton]
            exact change_covered nonNegative covered (earlier _ List.prefix_rfl) changed
          · exact earlier front before

/-- The metered peak is a peak of the events. -/
theorem isPeak (meters : Meters overflow allocating releasing live peak total)
    (nonNegative : AmountsNonNegative allocating releasing entries) :
    IsPeak allocating releasing entries (peak (scanEntries overflow entries))
      ((scanEntries overflow entries).totals total) := by
  have allocated : (scanEntries overflow entries).totals total =
      ((memoryChanges allocating releasing entries).map (max 0)).sum := by
    rw [sum_increases nonNegative, totals_scanEntries]
    simp only [meters.adds]
  have gauge := congrArg Gauge.peak (meters.gauge_scanEntries nonNegative)
  change peak _ = _ at gauge
  rw [gauge]
  have greatest := Gauge.isGreatest_peak (memoryChanges allocating releasing entries)
  refine ⟨?_, ?_, ?_, ?_⟩
  · have empty : 0 ∈ netChanges (· <:+: memoryChanges allocating releasing entries) :=
      ⟨[], List.nil_infix, rfl⟩
    rw [Set.insert_eq_of_mem empty]
    exact greatest
  · rw [allocated]
    exact Gauge.peak_le_increases _
  · intro front inside
    exact Gauge.sum_prefix_le_peak _ inside
  · intro covered
    exact Gauge.isGreatest_peak_of_nonneg (prefix_sum_nonneg nonNegative covered)

end Meters

/-- The reported peaks are the largest net amounts over windows of the
allocations and releases. -/
theorem peaks_are_windows (overflow : ℚ → Int) (entries : List LedgerEntry) (request : RequestId) :
    let account := reconcileRequest overflow entries request
    (AmountsNonNegative .kvAllocate .kvRelease entries →
      IsPeak .kvAllocate .kvRelease entries account.kvPeak.value account.kvAllocated.value) ∧
    (AmountsNonNegative .tensorAllocate .tensorRelease entries →
      IsPeak .tensorAllocate .tensorRelease entries account.tensorPeak.value
        account.tensorAllocated.value) :=
  ⟨(meters_kv overflow).isPeak, (meters_tensor overflow).isPeak⟩

/-- Some memory of the request `⟨0, 3⟩` is allocated or released. -/
def memoryEvent (eventKind : EventKind) (value : Binary64) : LedgerEntry :=
  { request := ⟨0, 3⟩, eventKind, resourceKind := .memory, quantity := { value, unit := .bytes } }

/-- Two bytes, of which one is released, and two more: the peak is three. -/
theorem peak_of_three :
    let entries := [memoryEvent .kvAllocate ⟨0x4000000000000000⟩,
      memoryEvent .kvRelease ⟨0x3FF0000000000000⟩, memoryEvent .kvAllocate ⟨0x4000000000000000⟩]
    (reconcileRequest (fun _ => 0) entries ⟨0, 3⟩).kvPeak.value = 3 ∧
      IsPeak .kvAllocate .kvRelease entries
        (reconcileRequest (fun _ => 0) entries ⟨0, 3⟩).kvPeak.value
        (reconcileRequest (fun _ => 0) entries ⟨0, 3⟩).kvAllocated.value := by
  intro entries
  have nonNegative : AmountsNonNegative .kvAllocate .kvRelease entries := by
    intro e member _
    revert e
    decide +kernel
  exact ⟨by decide +kernel, (peaks_are_windows (fun _ => 0) entries ⟨0, 3⟩).1 nonNegative⟩

end InferenceLedger
