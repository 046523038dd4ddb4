import InferenceLedger.Accounting.Totals
import InferenceLedger.Foundation.History

namespace InferenceLedger

open Foundation Std

/-!
# Wall latency

The scan keeps one start time and one end time, and every start and every end
overwrites them.  What it reports in the end is the time from the start that
stands last in the list to the end that stands last in the list.  With retries,
or with entries that arrive out of order, these need not be the earliest start
and the latest end.
-/

/-! ## Starts and ends -/

/-- The time of a `RequestStart`. -/
def startTime (e : LedgerEntry) : Option UInt64 :=
  if e.eventKind = .requestStart then some (if e.hasEnd then e.endTsNs else e.startTsNs) else none

/-- The time of a `RequestEnd`. -/
def endTime (e : LedgerEntry) : Option UInt64 :=
  if e.eventKind = .requestEnd then some e.startTsNs else none

/-- The times of the starts in list order, in nanoseconds. -/
def startTimes (entries : List LedgerEntry) : List Nat :=
  (entries.filterMap startTime).map UInt64.toNat

/-- The times of the ends in list order, in nanoseconds. -/
def endTimes (entries : List LedgerEntry) : List Nat :=
  (entries.filterMap endTime).map UInt64.toNat

/-- The seconds from one time to another; zero if the other is not later. -/
def secondsBetween (first last : Nat) : ℚ := max 0 (((last : ℚ) - first) / 1000000000)

theorem secondsBetween_of_le {first last : Nat} (early : last ≤ first) :
    secondsBetween first last = 0 := by
  have cast : (last : ℚ) ≤ first := by exact_mod_cast early
  exact max_eq_left (div_nonpos_of_nonpos_of_nonneg (sub_nonpos.mpr cast) (by norm_num))

theorem secondsBetween_of_ge {first last : Nat} (ordered : first ≤ last) :
    secondsBetween first last = ((last : ℚ) - first) / 1000000000 := by
  have cast : (first : ℚ) ≤ last := by exact_mod_cast ordered
  exact max_eq_right (div_nonneg (sub_nonneg.mpr cast) (by norm_num))

theorem sec_sub {first last : UInt64} (ordered : first ≤ last) :
    sec (last - first) = secondsBetween first.toNat last.toNat := by
  have below := UInt64.le_iff_toNat_le.mp ordered
  rw [sec, UInt64.toNat_sub_of_le _ _ ordered, Nat.cast_sub below, secondsBetween_of_ge below]

/-- A shorter span inside a longer one is as long only if it is the same, or if
both are empty. -/
theorem secondsBetween_eq_iff {first last start finish : Nat} (after : first ≤ start)
    (before : finish ≤ last) :
    secondsBetween start finish = secondsBetween first last ↔
      last ≤ first ∨ start = first ∧ finish = last := by
  constructor
  · intro same
    by_contra! different
    rcases different with ⟨longer, moved⟩
    rw [secondsBetween_of_ge longer.le] at same
    have positive : (0 : ℚ) < ((last : ℚ) - first) / 1000000000 := by
      have cast : (first : ℚ) < last := by exact_mod_cast longer
      exact div_pos (sub_pos.mpr cast) (by norm_num)
    rcases Nat.lt_or_ge start finish with shorter | empty
    · rw [secondsBetween_of_ge shorter.le, div_left_inj' (by norm_num)] at same
      have sums : (finish : ℚ) + first = last + start := by linarith
      have equal : finish + first = last + start := by exact_mod_cast sums
      exact moved (by omega) (by omega)
    · rw [secondsBetween_of_le empty] at same
      exact positive.ne same
  · rintro (empty | ⟨rfl, rfl⟩)
    · rw [secondsBetween_of_le empty, secondsBetween_of_le (by omega)]
    · rfl

/-! ## What the scan keeps -/

section Scan

variable (overflow : ℚ → Int)

/-- A start or an end overwrites the time before. -/
theorem observe_times (s : Scan) (e : LedgerEntry) :
    (s.observe overflow e).hasStart = ((startTime e).isSome || s.hasStart) ∧
      (s.observe overflow e).startNs = (startTime e).getD s.startNs ∧
      (s.observe overflow e).hasEnd = ((endTime e).isSome || s.hasEnd) ∧
      (s.observe overflow e).endNs = (endTime e).getD s.endNs := by
  cases kind : e.eventKind <;>
    simp [Scan.observe, kind, startTime, endTime, Scan.add, Scan.count, Scan.visit]

theorem times_scanEntries (entries : List LedgerEntry) :
    (scanEntries overflow entries).hasStart = (latest startTime entries).isSome ∧
      (scanEntries overflow entries).startNs = (latest startTime entries).getD 0 ∧
      (scanEntries overflow entries).hasEnd = (latest endTime entries).isSome ∧
      (scanEntries overflow entries).endNs = (latest endTime entries).getD 0 := by
  induction entries using List.reverseRecOn with
  | nil => exact ⟨rfl, rfl, rfl, rfl⟩
  | append_singleton entries e ih =>
      rcases observe_times overflow (scanEntries overflow entries) e with
        ⟨hasStart, startNs, hasEnd, endNs⟩
      rcases ih with ⟨oldHasStart, oldStartNs, oldHasEnd, oldEndNs⟩
      rw [scanEntries_concat, hasStart, startNs, hasEnd, endNs, oldHasStart, oldStartNs, oldHasEnd,
        oldEndNs, latest_concat, latest_concat]
      cases startTime e <;> cases endTime e <;> simp

/-- The reported latency runs from the last start of the list to its last end. -/
theorem wallLatencyS_eq {entries : List LedgerEntry} {start finish : UInt64}
    (started : latest startTime entries = some start)
    (ended : latest endTime entries = some finish) (request : RequestId) :
    (reconcileRequest overflow entries request).wallLatencyS.value =
      secondsBetween start.toNat finish.toNat := by
  rcases times_scanEntries overflow entries with ⟨hasStart, startNs, hasEnd, endNs⟩
  rw [started] at hasStart startNs
  rw [ended] at hasEnd endNs
  change (if (scanEntries overflow entries).hasStart = true ∧
      (scanEntries overflow entries).hasEnd = true ∧
      (scanEntries overflow entries).endNs ≥ (scanEntries overflow entries).startNs then
    sec ((scanEntries overflow entries).endNs - (scanEntries overflow entries).startNs) else 0) = _
  rw [hasStart, startNs, hasEnd, endNs]
  simp only [Option.isSome_some, Option.getD_some, true_and]
  by_cases ordered : start ≤ finish
  · rw [if_pos ordered, sec_sub ordered]
  · rw [if_neg ordered, secondsBetween_of_le]
    exact Nat.le_of_not_le (mt UInt64.le_iff_toNat_le.mpr ordered)

end Scan

/-- A list of times that has a member has a last one, which is a member. -/
theorem exists_latest {select : LedgerEntry → Option UInt64} {entries : List LedgerEntry}
    {time : Nat} (member : time ∈ (entries.filterMap select).map UInt64.toNat) :
    ∃ last, latest select entries = some last ∧
      last.toNat ∈ (entries.filterMap select).map UInt64.toNat ∧
      ((entries.filterMap select).map UInt64.toNat).getLast? = some last.toNat := by
  rcases List.mem_map.mp member with ⟨word, inside, -⟩
  have nonempty : entries.filterMap select ≠ [] := List.ne_nil_of_mem inside
  refine ⟨(entries.filterMap select).getLast nonempty, ?_, ?_, ?_⟩
  · rw [latest, List.getLast?_eq_some_getLast nonempty]
  · exact List.mem_map_of_mem (List.getLast_mem nonempty)
  · rw [List.getLast?_map, List.getLast?_eq_some_getLast nonempty, Option.map_some]

/-- The wall latency spans the whole request exactly when the start that stands
last in the list is the earliest and the end that stands last is the latest, or
when no end comes after the earliest start. -/
theorem latency_spans_iff (overflow : ℚ → Int) (entries : List LedgerEntry) (request : RequestId)
    {first last : Nat} (earliest : IsLeast {time | time ∈ startTimes entries} first)
    (final : IsGreatest {time | time ∈ endTimes entries} last) :
    (reconcileRequest overflow entries request).wallLatencyS.value = secondsBetween first last ↔
      last ≤ first ∨
        (startTimes entries).getLast? = some first ∧ (endTimes entries).getLast? = some last := by
  rcases exists_latest earliest.1 with ⟨start, started, startMember, startLast⟩
  rcases exists_latest final.1 with ⟨finish, ended, endMember, endLast⟩
  rw [wallLatencyS_eq overflow started ended,
    secondsBetween_eq_iff (earliest.2 startMember) (final.2 endMember), startTimes, endTimes,
    startLast, endLast, Option.some.injEq, Option.some.injEq]

/-- A start or an end of the request `⟨0, 3⟩`. -/
def boundary (eventKind : EventKind) (startTsNs : UInt64) : LedgerEntry :=
  { request := ⟨0, 3⟩, eventKind, startTsNs }

/-- One start at one second and one end at two seconds. -/
theorem single_attempt_spans :
    (reconcileRequest (fun _ => 0)
      [boundary .requestStart 1000000000, boundary .requestEnd 2000000000]
      ⟨0, 3⟩).wallLatencyS.value = secondsBetween 1000000000 2000000000 := by
  have earliest : IsLeast {time | time ∈ startTimes
      [boundary .requestStart 1000000000, boundary .requestEnd 2000000000]} 1000000000 := by
    change IsLeast {time | time ∈ [1000000000]} 1000000000
    simp
  have final : IsGreatest {time | time ∈ endTimes
      [boundary .requestStart 1000000000, boundary .requestEnd 2000000000]} 2000000000 := by
    change IsGreatest {time | time ∈ [2000000000]} 2000000000
    simp
  exact (latency_spans_iff (fun _ => 0) _ ⟨0, 3⟩ earliest final).mpr (Or.inr ⟨rfl, rfl⟩)

/-- A retry that starts half a second later takes that half second away. -/
theorem retry_shortens_latency :
    ¬ ∀ (overflow : ℚ → Int) (entries : List LedgerEntry) (request : RequestId) (first last : Nat),
      IsLeast {time | time ∈ startTimes entries} first →
      IsGreatest {time | time ∈ endTimes entries} last →
      (reconcileRequest overflow entries request).wallLatencyS.value =
        secondsBetween first last := by
  intro claim
  have earliest : IsLeast {time | time ∈ startTimes [boundary .requestStart 1000000000,
      boundary .requestStart 1500000000, boundary .requestEnd 2000000000]} 1000000000 := by
    change IsLeast {time | time ∈ [1000000000, 1500000000]} 1000000000
    simp [IsLeast, lowerBounds]
  have final : IsGreatest {time | time ∈ endTimes [boundary .requestStart 1000000000,
      boundary .requestStart 1500000000, boundary .requestEnd 2000000000]} 2000000000 := by
    change IsGreatest {time | time ∈ [2000000000]} 2000000000
    simp
  have spans := claim (fun _ => 0) _ ⟨0, 3⟩ _ _ earliest final
  exact absurd spans (by decide +kernel)

end InferenceLedger
