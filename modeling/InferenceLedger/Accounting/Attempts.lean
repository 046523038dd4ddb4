import InferenceLedger.Accounting.Account
import InferenceLedger.Foundation.OrderedMap

namespace InferenceLedger

open Foundation Std

/-!
# Attempts as functions of the entries

What the fold of `reconcile_request` knows of an attempt can be said directly:
whether some entry of that attempt ended, failed or cancelled it, the latest
end, and the sum of its durations.  `attempts_scanEntries` connects the two
levels, and `winning_iff_wins` does so for the choice of the winner, which is the
greatest pair of latest end and identity among the successful attempts.

The records of an attempt form a commutative monoid under `merge`, and an entry
acts on a record by merging what it contributes on its own.  That is why the
order of the entries does not matter to them.
-/

/-! ## Merging records -/

theorem toNat_max (left right : UInt64) :
    (max left right).toNat = max left.toNat right.toNat := by
  change (if left ≤ right then right else left).toNat = _
  by_cases below : left ≤ right
  · rw [if_pos below, max_eq_right (UInt64.le_iff_toNat_le.mp below)]
  · rw [if_neg below, max_eq_left]
    exact Nat.le_of_not_le (mt UInt64.le_iff_toNat_le.mpr below)

/-- The kinds whose duration is execution time. -/
def EventKind.isExecution : EventKind → Bool
  | prefill | decode | gpuExecution | cpuExecution => true
  | _ => false

/-- The execution time that an entry reports. -/
def execWork (e : LedgerEntry) : ℚ := if e.eventKind.isExecution then durSec e else 0

namespace AttemptAttr

/-- The record of two disjoint sets of entries of one attempt. -/
def merge (left right : AttemptAttr) : AttemptAttr where
  completed := left.completed || right.completed
  failed := left.failed || right.failed
  cancelled := left.cancelled || right.cancelled
  terminalNs := max left.terminalNs right.terminalNs
  execS := left.execS + right.execS
  prefillS := left.prefillS + right.prefillS
  decodeS := left.decodeS + right.decodeS
  gpuS := left.gpuS + right.gpuS
  cpuS := left.cpuS + right.cpuS
  specRejS := left.specRejS + right.specRejS
  genTokens := left.genTokens + right.genTokens

theorem merge_right_comm (left middle right : AttemptAttr) :
    (left.merge middle).merge right = (left.merge right).merge middle := by
  have terminal : max (max left.terminalNs middle.terminalNs) right.terminalNs =
      max (max left.terminalNs right.terminalNs) middle.terminalNs := by
    apply UInt64.toNat_inj.mp
    simp only [toNat_max, max_right_comm]
  simp only [merge, terminal, Bool.or_right_comm, add_right_comm]

theorem max_zero_word (word : UInt64) : max word 0 = word := by
  apply UInt64.toNat_inj.mp
  rw [toNat_max]
  exact Nat.max_zero _

theorem zero_max_word (word : UInt64) : max 0 word = word := by
  apply UInt64.toNat_inj.mp
  rw [toNat_max]
  exact Nat.zero_max _

theorem merge_empty (att : AttemptAttr) : att.merge {} = att := by
  simp [merge, max_zero_word]

/-- An entry acts by merging what it contributes to an empty record. -/
theorem observe_eq_merge (overflow : ℚ → Int) (att : AttemptAttr) (e : LedgerEntry) :
    att.observe overflow e = att.merge (({} : AttemptAttr).observe overflow e) := by
  cases kind : e.eventKind with
  | requestEnd => simp [observe, kind, merge, zero_max_word]
  | prefill => simp [observe, kind, merge, max_zero_word]
  | decode =>
      by_cases counted : e.quantity.unit = .count
      · simp [observe, kind, merge, max_zero_word, counted]
      · simp [observe, kind, merge, max_zero_word, counted]
  | gpuExecution => simp [observe, kind, merge, max_zero_word]
  | cpuExecution => simp [observe, kind, merge, max_zero_word]
  | speculationAccepted => simp [observe, kind, merge, max_zero_word]
  | speculationRejected => simp [observe, kind, merge, max_zero_word]
  | failure => simp [observe, kind, merge, max_zero_word]
  | cancellation => simp [observe, kind, merge, max_zero_word]
  | _ => simp only [observe, kind, merge_empty]

instance (overflow : ℚ → Int) : RightCommutative (observe overflow) where
  right_comm att first second := by
    rw [observe_eq_merge overflow (att.observe overflow first), observe_eq_merge overflow att first,
      observe_eq_merge overflow (att.observe overflow second), observe_eq_merge overflow att second,
      merge_right_comm]

/-- The fields that decide the classification of an attempt, entry by entry. -/
theorem observe_fields (overflow : ℚ → Int) (att : AttemptAttr) (e : LedgerEntry) :
    (att.observe overflow e).completed = (att.completed || e.eventKind == .requestEnd) ∧
    (att.observe overflow e).failed = (att.failed || e.eventKind == .failure) ∧
    (att.observe overflow e).cancelled = (att.cancelled || e.eventKind == .cancellation) ∧
    (att.observe overflow e).terminalNs =
      (if e.eventKind = .requestEnd then max att.terminalNs e.startTsNs else att.terminalNs) ∧
    (att.observe overflow e).execS = att.execS + execWork e := by
  cases kind : e.eventKind <;> simp [observe, kind, execWork, EventKind.isExecution]

/-- The same fields after a list of entries. -/
theorem foldl_observe_fields (overflow : ℚ → Int) (group : List LedgerEntry) (att : AttemptAttr) :
    (group.foldl (observe overflow) att).completed =
      (att.completed || group.any (fun e => e.eventKind == .requestEnd)) ∧
    (group.foldl (observe overflow) att).failed =
      (att.failed || group.any (fun e => e.eventKind == .failure)) ∧
    (group.foldl (observe overflow) att).cancelled =
      (att.cancelled || group.any (fun e => e.eventKind == .cancellation)) ∧
    (group.foldl (observe overflow) att).terminalNs =
      group.foldl (fun latest e =>
        if e.eventKind = .requestEnd then max latest e.startTsNs else latest) att.terminalNs ∧
    (group.foldl (observe overflow) att).execS = att.execS + (group.map execWork).sum := by
  induction group generalizing att with
  | nil => simp
  | cons e group ih =>
      rcases observe_fields overflow att e with ⟨completed, failed, cancelled, terminal, exec⟩
      rcases ih (att.observe overflow e) with
          ⟨ihCompleted, ihFailed, ihCancelled, ihTerminal, ihExec⟩
      simp only [List.foldl_cons, List.any_cons, List.map_cons, List.sum_cons]
      refine ⟨?_, ?_, ?_, ?_, ?_⟩
      · rw [ihCompleted, completed, Bool.or_assoc]
      · rw [ihFailed, failed, Bool.or_assoc]
      · rw [ihCancelled, cancelled, Bool.or_assoc]
      · rw [ihTerminal, terminal]
      · rw [ihExec, exec, add_assoc]

end AttemptAttr

/-! ## The attempts of a list of entries -/

section Attempts

variable (entries : List LedgerEntry) (attempt : AttemptId)

/-- The attempts that occur in the entries. -/
def attemptsOf : Finset AttemptId := (entries.map LedgerEntry.attempt).toFinset

variable {entries} in
theorem attempt_mem_attemptsOf {e : LedgerEntry} (member : e ∈ entries) :
    e.attempt ∈ attemptsOf entries := List.mem_toFinset.mpr (List.mem_map_of_mem member)

/-- Some entry of the attempt has this kind. -/
def hasKind (kind : EventKind) : Bool :=
  entries.any (fun e => e.attempt == attempt && e.eventKind == kind)

/-- The latest `RequestEnd` of the attempt; zero when it has none. -/
def latestEnd : UInt64 :=
  ((entries.filter (fun e => e.attempt = attempt ∧ e.eventKind = .requestEnd)).map
    LedgerEntry.startTsNs).foldl max 0

/-- The execution time of the attempt. -/
def workOf : ℚ := ((entries.filter (fun e => e.attempt = attempt)).map execWork).sum

/-- The execution time of all attempts. -/
def totalWork : ℚ := (entries.map execWork).sum

/-- The attempt ended, and neither failed nor was cancelled. -/
def Succeeds : Prop :=
  hasKind entries attempt .requestEnd = true ∧ hasKind entries attempt .failure = false ∧
    hasKind entries attempt .cancellation = false

/-- The order in which successful attempts are preferred: by their latest end,
then by identity. -/
def PreferredTo (winner other : AttemptId) : Prop :=
  latestEnd entries other < latestEnd entries winner ∨
    latestEnd entries other = latestEnd entries winner ∧ (compare other winner).isLE = true

/-- The successful attempt that is preferred to all successful attempts. -/
def Wins : Prop :=
  Succeeds entries attempt ∧ ∀ other, Succeeds entries other → PreferredTo entries attempt other

end Attempts

/-! ## The fold computes them -/

section Fold

variable (overflow : ℚ → Int) (entries : List LedgerEntry) (attempt : AttemptId)

/-- The record that the scan ends with, from the entries of the attempt alone. -/
def attemptRecord : AttemptAttr :=
  (entries.filter (fun e => e.attempt = attempt)).foldl (AttemptAttr.observe overflow) {}

/-- The record does not depend on the order of the entries. -/
theorem attemptRecord_eq_of_perm {overflow : ℚ → Int} {first second : List LedgerEntry}
    (same : first.Perm second) (attempt : AttemptId) :
    attemptRecord overflow first attempt = attemptRecord overflow second attempt :=
  (same.filter _).foldl_eq _

/-- Entries of other attempts do not matter to it. -/
theorem filter_attempt_eq_nil {entries : List LedgerEntry} {attempt : AttemptId}
    (others : ∀ e ∈ entries, e.attempt ≠ attempt) :
    entries.filter (fun e => e.attempt = attempt) = [] := by
  rw [List.filter_eq_nil_iff]
  intro e member same
  exact others e member (of_decide_eq_true same)

theorem Scan.observe_attempts (s : Scan) (e : LedgerEntry) :
    (s.observe overflow e).attempts =
      s.attempts.insert e.attempt ((s.attempts.getD e.attempt {}).observe overflow e) := by
  cases kind : e.eventKind <;> simp only [Scan.observe, kind] <;> rfl

theorem attempts_foldl_observe (s : Scan) :
    (entries.foldl (Scan.observe overflow) s).attempts =
      foldByKey LedgerEntry.attempt (AttemptAttr.observe overflow) {} entries s.attempts := by
  induction entries generalizing s with
  | nil => rfl
  | cons e entries ih =>
      rw [List.foldl_cons, ih, Scan.observe_attempts]
      rfl

/-- The map of attempts after the scan. -/
theorem getElem?_attempts_scanEntries :
    (scanEntries overflow entries).attempts[attempt]? =
      if attempt ∈ attemptsOf entries then some (attemptRecord overflow entries attempt)
      else none := by
  rw [scanEntries, attempts_foldl_observe, getElem?_foldByKey]
  simp only [attemptsOf, List.mem_toFinset, ExtTreeMap.getElem?_empty, ExtTreeMap.getD_empty,
    attemptRecord]

theorem any_filter_attempt (kind : EventKind) :
    (entries.filter (fun e => e.attempt = attempt)).any (fun e => e.eventKind == kind) =
      hasKind entries attempt kind := by
  rw [List.any_filter, hasKind]
  simp only [Bool.beq_eq_decide_eq]

/-- The classification of an attempt by its record. -/
theorem attemptRecord_fields :
    (attemptRecord overflow entries attempt).completed = hasKind entries attempt .requestEnd ∧
    (attemptRecord overflow entries attempt).failed = hasKind entries attempt .failure ∧
    (attemptRecord overflow entries attempt).cancelled = hasKind entries attempt .cancellation ∧
    (attemptRecord overflow entries attempt).terminalNs = latestEnd entries attempt ∧
    (attemptRecord overflow entries attempt).execS = workOf entries attempt := by
  rcases AttemptAttr.foldl_observe_fields overflow
      (entries.filter (fun e => e.attempt = attempt)) {} with
      ⟨completed, failed, cancelled, terminal, exec⟩
  refine ⟨?_, ?_, ?_, ?_, ?_⟩
  · rw [attemptRecord, completed, Bool.false_or, any_filter_attempt]
  · rw [attemptRecord, failed, Bool.false_or, any_filter_attempt]
  · rw [attemptRecord, cancelled, Bool.false_or, any_filter_attempt]
  · rw [attemptRecord, terminal, latestEnd, List.foldl_map, List.foldl_filter, List.foldl_filter]
    congr 1
    funext latest e
    by_cases same : e.attempt = attempt
    · simp [same]
    · simp [same]
  · rw [attemptRecord, exec, zero_add, workOf]

theorem successful_attemptRecord_iff :
    (attemptRecord overflow entries attempt).successful = true ↔ Succeeds entries attempt := by
  rcases attemptRecord_fields overflow entries attempt with ⟨completed, failed, cancelled, -, -⟩
  simp only [AttemptAttr.successful, completed, failed, cancelled, Succeeds, Bool.and_eq_true,
    Bool.not_eq_true', and_assoc]

end Fold

/-! ## The winner -/

/-- What the loop over a list of attempts in key order has found. -/
def BestOf (attempts : List (AttemptId × AttemptAttr)) : Option (AttemptId × UInt64) → Prop
  | none => ∀ pair ∈ attempts, pair.2.successful = false
  | some (attempt, bestNs) =>
      (∃ att, (attempt, att) ∈ attempts ∧ att.successful = true ∧ att.terminalNs = bestNs) ∧
      ∀ pair ∈ attempts, pair.2.successful = true → pair.2.terminalNs < bestNs ∨
        pair.2.terminalNs = bestNs ∧ (compare pair.1 attempt).isLE = true

/-- One more attempt that cannot win. -/
theorem BestOf.concat_unsuccessful {attempts : List (AttemptId × AttemptAttr)}
    {best : Option (AttemptId × UInt64)} (found : BestOf attempts best)
    {last : AttemptId × AttemptAttr} (unsuccessful : last.2.successful = false) :
    BestOf (attempts ++ [last]) best := by
  cases best with
  | none =>
      intro pair member
      rcases List.mem_append.mp member with earlier | single
      · exact found pair earlier
      · rw [List.mem_singleton.mp single]
        exact unsuccessful
  | some current =>
      rcases found with ⟨⟨att, member, successful, terminal⟩, maximal⟩
      refine ⟨⟨att, List.mem_append_left _ member, successful, terminal⟩, ?_⟩
      intro pair inside pairSuccessful
      rcases List.mem_append.mp inside with earlier | single
      · exact maximal pair earlier pairSuccessful
      · rw [List.mem_singleton.mp single, unsuccessful] at pairSuccessful
        cases pairSuccessful

/-- One more attempt, later in key order than all before it. -/
theorem BestOf.concat {attempts : List (AttemptId × AttemptAttr)}
    {best : Option (AttemptId × UInt64)} (found : BestOf attempts best)
    {last : AttemptId × AttemptAttr}
    (later : ∀ pair ∈ attempts, compare pair.1 last.1 = .lt) :
    BestOf (attempts ++ [last]) (considerAttempt best last) := by
  have present : (last.1, last.2) ∈ attempts ++ [last] := by simp
  have self : (compare last.1 last.1).isLE = true := by simp
  cases successful : last.2.successful with
  | false =>
      have skipped : considerAttempt best last = best := by simp [considerAttempt, successful]
      rw [skipped]
      exact found.concat_unsuccessful successful
  | true =>
      cases best with
      | none =>
          have first : considerAttempt none last = some (last.1, last.2.terminalNs) := by
            simp [considerAttempt, successful]
          rw [first]
          refine ⟨⟨last.2, present, successful, rfl⟩, ?_⟩
          intro pair member pairSuccessful
          rcases List.mem_append.mp member with earlier | single
          · rw [found pair earlier] at pairSuccessful
            cases pairSuccessful
          · rw [List.mem_singleton.mp single]
            exact Or.inr ⟨rfl, self⟩
      | some current =>
          rcases current with ⟨attempt, bestNs⟩
          rcases found with ⟨⟨att, member, attSuccessful, terminal⟩, maximal⟩
          by_cases replaced : last.2.terminalNs ≥ bestNs
          · have chosen : considerAttempt (some (attempt, bestNs)) last =
                some (last.1, last.2.terminalNs) := by
              simp [considerAttempt, successful, replaced]
            rw [chosen]
            refine ⟨⟨last.2, present, successful, rfl⟩, ?_⟩
            intro pair inside pairSuccessful
            rcases List.mem_append.mp inside with earlier | single
            · have below : pair.2.terminalNs ≤ last.2.terminalNs := by
                rcases maximal pair earlier pairSuccessful with less | ⟨same, -⟩
                · exact UInt64.le_trans (UInt64.le_of_lt less) replaced
                · rw [same]
                  exact replaced
              rcases UInt64.lt_or_eq_of_le below with less | same
              · exact Or.inl less
              · refine Or.inr ⟨same, ?_⟩
                rw [later pair earlier]
                rfl
            · rw [List.mem_singleton.mp single]
              exact Or.inr ⟨rfl, self⟩
          · have kept : considerAttempt (some (attempt, bestNs)) last = some (attempt, bestNs) := by
              simp [considerAttempt, successful, replaced]
            rw [kept]
            refine ⟨⟨att, List.mem_append_left _ member, attSuccessful, terminal⟩, ?_⟩
            intro pair inside pairSuccessful
            rcases List.mem_append.mp inside with earlier | single
            · exact maximal pair earlier pairSuccessful
            · rw [List.mem_singleton.mp single]
              exact Or.inl (UInt64.not_le.mp replaced)

/-- The loop finds the best attempt of a list in key order. -/
theorem bestOf_selectWinner {attempts : List (AttemptId × AttemptAttr)}
    (ordered : attempts.Pairwise (fun left right => compare left.1 right.1 = .lt)) :
    BestOf attempts (selectWinner attempts) := by
  induction attempts using List.reverseRecOn with
  | nil =>
      intro pair member
      cases member
  | append_singleton attempts last ih =>
      rcases List.pairwise_append.mp ordered with ⟨before, -, later⟩
      have found := ih before
      have after : ∀ pair ∈ attempts, compare pair.1 last.1 = .lt :=
        fun pair member => later pair member last List.mem_cons_self
      rw [selectWinner, List.foldl_append, List.foldl_cons, List.foldl_nil]
      exact found.concat after

/-- Two attempts that are each preferred to the other are the same. -/
theorem PreferredTo.antisymm {entries : List LedgerEntry} {first second : AttemptId}
    (forward : PreferredTo entries first second) (backward : PreferredTo entries second first) :
    first = second := by
  have noLess : ∀ {left right : UInt64}, left < right → ¬ right < left :=
    fun less more => UInt64.lt_irrefl _ (UInt64.lt_trans less more)
  rcases forward with less | ⟨same, below⟩
  · rcases backward with more | ⟨equal, -⟩
    · exact (noLess less more).elim
    · rw [equal] at less
      exact (UInt64.lt_irrefl _ less).elim
  · rcases backward with more | ⟨-, above⟩
    · rw [same] at more
      exact (UInt64.lt_irrefl _ more).elim
    · exact LawfulEqOrd.eq_of_compare (OrientedCmp.isLE_antisymm above below)

section Winner

variable (overflow : ℚ → Int) (entries : List LedgerEntry)

/-- The winner that `reconcile_request` selects. -/
def winningAttempt : Option AttemptId :=
  (selectWinner (scanEntries overflow entries).attempts.toList).map Prod.fst

theorem mem_attemptsOf_of_succeeds {attempt : AttemptId} (succeeds : Succeeds entries attempt) :
    attempt ∈ attemptsOf entries := by
  rcases List.any_eq_true.mp succeeds.1 with ⟨e, member, ended⟩
  rw [Bool.and_eq_true, beq_iff_eq] at ended
  rw [← ended.1]
  exact attempt_mem_attemptsOf member

theorem mem_toList_attempts_iff (attempt : AttemptId) (att : AttemptAttr) :
    (attempt, att) ∈ (scanEntries overflow entries).attempts.toList ↔
      attempt ∈ attemptsOf entries ∧ att = attemptRecord overflow entries attempt := by
  rw [ExtTreeMap.mem_toList_iff_getElem?_eq_some, getElem?_attempts_scanEntries]
  by_cases known : attempt ∈ attemptsOf entries
  · simp [known, eq_comm]
  · simp [known]

variable {entries} in
/-- The record of a successful attempt is among those that are compared. -/
theorem listed_of_succeeds {attempt : AttemptId} (succeeds : Succeeds entries attempt) :
    (attempt, attemptRecord overflow entries attempt) ∈
        (scanEntries overflow entries).attempts.toList ∧
      (attemptRecord overflow entries attempt).successful = true :=
  ⟨(mem_toList_attempts_iff overflow entries attempt _).mpr
      ⟨mem_attemptsOf_of_succeeds entries succeeds, rfl⟩,
    (successful_attemptRecord_iff overflow entries attempt).mpr succeeds⟩

variable {entries} in
/-- As soon as one attempt succeeds, one wins. -/
theorem exists_winning_of_succeeds {attempt : AttemptId} (succeeds : Succeeds entries attempt) :
    ∃ winner, winningAttempt overflow entries = some winner := by
  have best := bestOf_selectWinner (scanEntries overflow entries).attempts.ordered_keys_toList
  rcases listed_of_succeeds overflow succeeds with ⟨member, successful⟩
  cases selected : selectWinner (scanEntries overflow entries).attempts.toList with
  | none =>
      rw [selected] at best
      have unsuccessful := best _ member
      rw [successful] at unsuccessful
      cases unsuccessful
  | some pair =>
      refine ⟨pair.1, ?_⟩
      rw [winningAttempt, selected, Option.map_some]

/-- The fold picks exactly the winner. -/
theorem winning_iff_wins (attempt : AttemptId) :
    winningAttempt overflow entries = some attempt ↔ Wins entries attempt := by
  have ordered := (scanEntries overflow entries).attempts.ordered_keys_toList
  have best := bestOf_selectWinner ordered
  have terminal := fun other => (attemptRecord_fields overflow entries other).2.2.2.1
  cases selected : selectWinner (scanEntries overflow entries).attempts.toList with
  | none =>
      have nobody : winningAttempt overflow entries = none := by
        rw [winningAttempt, selected, Option.map_none]
      rw [nobody]
      constructor
      · intro impossible
        cases impossible
      · intro wins
        rcases exists_winning_of_succeeds overflow wins.1 with ⟨winner, winning⟩
        rw [nobody] at winning
        cases winning
  | some pair =>
      rcases pair with ⟨winner, bestNs⟩
      rw [selected] at best
      rcases best with ⟨⟨att, member, successful, rfl⟩, maximal⟩
      rcases (mem_toList_attempts_iff overflow entries winner att).mp member with ⟨-, rfl⟩
      rw [terminal] at maximal
      have wins : Wins entries winner := by
        refine ⟨(successful_attemptRecord_iff overflow entries winner).mp successful, ?_⟩
        intro other succeeds
        rcases listed_of_succeeds overflow succeeds with ⟨inside, compared⟩
        have bounded := maximal _ inside compared
        rw [terminal] at bounded
        exact bounded
      rw [winningAttempt, selected, Option.map_some, Option.some.injEq]
      constructor
      · rintro rfl
        exact wins
      · intro otherWins
        exact PreferredTo.antisymm (wins.2 attempt otherWins.1) (otherWins.2 winner wins.1)

end Winner

end InferenceLedger
