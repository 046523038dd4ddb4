import InferenceLedger.Accounting.Batch
import InferenceLedger.Accounting.Durations

namespace InferenceLedger

open Foundation Std

/-!
# Attribution of a batch

A shared cost goes from the entries of a batch to its members in three steps:
`reconcile_batch` makes their accounts, `member_weights_for_policy` reads a
weight off each account, and `allocate_shared` splits the cost by the weights.
No weight is negative where only adjustments carry a sign, so nobody is charged
less than nothing or more than there is, and the shares stand to each other as
the weights do.

`reconciles` compares with a tolerance.  For a cost that is not negative the
tolerance never hides anything: shares that do not add up are off by at least
the cost itself.
-/

/-- `SharedAllocation::reconciles`. -/
def SharedAllocation.reconciles (allocation : SharedAllocation) : Bool :=
  let diff := (allocation.memberSum + allocation.unallocatedOverhead) - allocation.total
  let scale := if allocation.total > 0 then allocation.total else 1
  decide (diff < 1 / 10 ^ 9 * scale) && decide (diff > -(1 / 10 ^ 9) * scale)

/-! ## The check -/

section Check

variable {total : ℚ} (members : List RequestId) (weights : List ℚ) (policy : AttributionPolicy)
  (directOwner : RequestId)

theorem total_allocateShared :
    (allocateShared total members weights policy directOwner).total = total := by
  unfold allocateShared
  by_cases none : members.length = 0
  · simp only [if_pos none]
  · by_cases direct : policy = .directOwnership
    · simp only [if_neg none, if_pos direct]
    · simp only [if_neg none, if_neg direct]

/-- What is missing is a multiple of the total. -/
theorem missing_eq_mul :
    ∃ k : ℤ, (allocateShared total members weights policy directOwner).memberSum +
      (allocateShared total members weights policy directOwner).unallocatedOverhead - total =
        k * total := by
  by_cases none : members = []
  · subst none
    refine ⟨-1, ?_⟩
    change (0 : ℚ) + 0 - total = _
    push_cast
    ring
  · by_cases direct : policy = .directOwnership
    · subst direct
      rcases allocateShared_direct total members weights directOwner none with ⟨sum, overhead⟩
      refine ⟨members.count (ownerAmong members directOwner) - 1, ?_⟩
      rw [sum, overhead]
      push_cast
      ring
    · rcases allocateShared_weighted total members weights policy directOwner none direct with
        ⟨sum, overhead⟩
      refine ⟨0, ?_⟩
      rw [sum, overhead]
      push_cast
      ring

/-- For a cost that is not negative, `reconciles` holds exactly when shares and
overhead add up to it. -/
theorem reconciles_allocateShared_iff (nonneg : 0 ≤ total) :
    (allocateShared total members weights policy directOwner).reconciles = true ↔
      (allocateShared total members weights policy directOwner).memberSum +
        (allocateShared total members weights policy directOwner).unallocatedOverhead = total := by
  rcases missing_eq_mul members weights policy directOwner with ⟨k, missing⟩
  rw [SharedAllocation.reconciles, total_allocateShared, missing, Bool.and_eq_true,
    decide_eq_true_iff, decide_eq_true_iff, ← sub_eq_zero, missing]
  rcases nonneg.eq_or_lt with zero | positive
  · subst zero
    norm_num
  · rw [if_pos positive, mul_eq_zero, or_iff_left (ne_of_gt positive), Int.cast_eq_zero]
    constructor
    · rintro ⟨above, below⟩
      have small : (k : ℚ) < 1 := by nlinarith
      have large : (-1 : ℚ) < k := by nlinarith
      have upper : k < 1 := by exact_mod_cast small
      have lower : -1 < k := by exact_mod_cast large
      omega
    · intro zero
      subst zero
      constructor
      · simp only [Int.cast_zero, zero_mul]
        positivity
      · simp only [Int.cast_zero, zero_mul, neg_mul]
        linarith [mul_pos (by norm_num : (0 : ℚ) < 1 / 10 ^ 9) positive]

end Check

/-! ## Shares and weights -/

/-- Each member has one share, and the shares stand to the total as the weights
stand to their sum. -/
structure SharedAllocation.Fair (allocation : SharedAllocation) (members : List RequestId)
    (total : ℚ) : Prop where
  requests : allocation.members.map MemberShare.request = members
  weights : ∀ m ∈ allocation.members, 0 ≤ m.weight
  positive : 0 < (allocation.members.map MemberShare.weight).sum
  proportional : ∀ m ∈ allocation.members,
    m.share * (allocation.members.map MemberShare.weight).sum = total * m.weight

namespace SharedAllocation.Fair

variable {allocation : SharedAllocation} {members : List RequestId} {total : ℚ}
  (fair : allocation.Fair members total)
include fair

/-- Nobody is charged less than nothing, or more than there is. -/
theorem share_bounds (nonneg : 0 ≤ total) {m : MemberShare} (member : m ∈ allocation.members) :
    0 ≤ m.share ∧ m.share ≤ total := by
  have weight := fair.weights m member
  have sum := fair.positive
  have share := fair.proportional m member
  have part : m.weight ≤ (allocation.members.map MemberShare.weight).sum := by
    apply List.single_le_sum
    · intro other inside
      rcases List.mem_map.mp inside with ⟨n, listed, rfl⟩
      exact fair.weights n listed
    · exact List.mem_map_of_mem member
  constructor
  · by_contra negative
    have below := mul_neg_of_neg_of_pos (lt_of_not_ge negative) sum
    have above := mul_nonneg nonneg weight
    linarith
  · by_contra more
    have above := mul_lt_mul_of_pos_right (lt_of_not_ge more) sum
    have below := mul_le_mul_of_nonneg_left part nonneg
    linarith

end SharedAllocation.Fair

section Fairness

variable {total : ℚ} {members : List RequestId} {weights : List ℚ} {policy : AttributionPolicy}
  (directOwner : RequestId)

/-- The share of one member under a policy with weights. -/
def proportionalShare (total wsum : ℚ) (m : RequestId) (wi : ℚ) : MemberShare :=
  { request := m, weight := wi, share := total * (wi / wsum) }

/-- The share of one member under direct ownership. -/
def ownedShare (total : ℚ) (owner m : RequestId) : MemberShare :=
  { request := m, share := if m = owner then total else 0, weight := if m = owner then 1 else 0 }

theorem map_zipWith_share {members : List RequestId} {w : List ℚ}
    (same : w.length = members.length) (total wsum : ℚ) :
    let shares := List.zipWith (proportionalShare total wsum) members w
    shares.map MemberShare.request = members ∧ shares.map MemberShare.weight = w ∧
      ∀ m ∈ shares, m.weight ∈ w ∧ m.share = total * (m.weight / wsum) := by
  induction members generalizing w with
  | nil =>
      rw [List.length_eq_zero_iff.mp same]
      simp
  | cons first members ih =>
      cases w with
      | nil => cases same
      | cons wi w =>
          rcases ih (Nat.succ.inj same) with ⟨requests, each, shares⟩
          simp only [List.zipWith_cons_cons, List.map_cons, requests, each, List.mem_cons,
            forall_eq_or_imp, proportionalShare, true_or, true_and]
          intro m member
          exact ⟨Or.inr (shares m member).1, (shares m member).2⟩

theorem uniformWeights_nonneg (n : Nat) : ∀ wi ∈ uniformWeights n, 0 ≤ wi := by
  intro wi member
  rw [List.eq_of_mem_replicate member]
  exact zero_le_one

/-- The weights that are used are not negative when the given ones are not. -/
theorem effectiveWeights_nonneg (n : Nat) (nonneg : ∀ wi ∈ weights, 0 ≤ wi)
    (policy : AttributionPolicy) : ∀ wi ∈ (effectiveWeights n weights policy).1, 0 ≤ wi := by
  have chosen : ∀ wi ∈ chosenWeights n weights policy, 0 ≤ wi := by
    unfold chosenWeights
    by_cases equal : policy = .equalShare
    · rw [if_pos equal]
      exact uniformWeights_nonneg n
    · by_cases other : weights.length ≠ n
      · rw [if_neg equal, if_pos other]
        exact uniformWeights_nonneg n
      · rw [if_neg equal, if_neg other]
        exact nonneg
  unfold effectiveWeights
  simp only
  split
  · exact uniformWeights_nonneg n
  · exact chosen

theorem fair_weighted (occupied : members ≠ []) (nonneg : ∀ wi ∈ weights, 0 ≤ wi)
    (weighted : policy ≠ .directOwnership) :
    (allocateShared total members weights policy directOwner).Fair members total := by
  have count : members.length ≠ 0 := mt List.length_eq_zero_iff.mp occupied
  rcases effectiveWeights_spec count weights policy with ⟨length, sum, positive⟩
  have signs := effectiveWeights_nonneg members.length nonneg policy
  have listed : (allocateShared total members weights policy directOwner).members =
      List.zipWith (proportionalShare total (effectiveWeights members.length weights policy).2)
        members (effectiveWeights members.length weights policy).1 := by
    unfold allocateShared
    simp only [if_neg count, if_neg weighted]
    rfl
  generalize effectiveWeights members.length weights policy = effective at *
  rcases map_zipWith_share length total effective.2 with ⟨requests, each, shares⟩
  refine ⟨?_, ?_, ?_, ?_⟩
  · rw [listed]
    exact requests
  · rw [listed]
    intro m member
    exact signs m.weight (shares m member).1
  · rw [listed, each, sum]
    exact positive
  · rw [listed]
    intro m member
    rw [each, sum, (shares m member).2]
    field_simp

/-- Direct ownership gives the owner the weight one, and no weight to others. -/
theorem fair_direct (once : members.count (ownerAmong members directOwner) = 1) :
    (allocateShared total members weights .directOwnership directOwner).Fair members total := by
  have occupied : members.length ≠ 0 := by
    intro none
    rw [List.length_eq_zero_iff.mp none] at once
    cases once
  have listed : (allocateShared total members weights .directOwnership directOwner).members =
      members.map (ownedShare total (ownerAmong members directOwner)) := by
    unfold allocateShared
    simp only [if_neg occupied, if_true]
    rfl
  have sum : ((allocateShared total members weights .directOwnership directOwner).members.map
      MemberShare.weight).sum = 1 := by
    rw [listed, List.map_map, Function.comp_def]
    change (members.map fun m => if m = ownerAmong members directOwner then (1 : ℚ) else 0).sum = 1
    rw [List.sum_map_ite, List.map_const', List.map_const', List.sum_replicate, List.sum_replicate,
      nsmul_zero, add_zero, nsmul_one, ← List.countP_eq_length_filter]
    exact_mod_cast once
  refine ⟨?_, ?_, ?_, ?_⟩
  · rw [listed, List.map_map]
    exact List.map_id' members
  · rw [listed]
    intro m member
    rcases List.mem_map.mp member with ⟨request, -, rfl⟩
    rw [ownedShare]
    split <;> norm_num
  · rw [sum]
    exact one_pos
  · rw [sum, listed]
    intro m member
    rcases List.mem_map.mp member with ⟨request, -, rfl⟩
    by_cases owner : request = ownerAmong members directOwner
    · simp [ownedShare, owner]
    · simp [ownedShare, owner]

/-- Weights that fit the members and do not all vanish are the ones that are
used. -/
theorem weights_used (occupied : members ≠ []) (weighted : policy ≠ .directOwnership)
    (fits : weights.length = members.length) (positive : 0 < weights.sum)
    (equal : policy = .equalShare → weights = uniformWeights members.length) :
    (allocateShared total members weights policy directOwner).members.map MemberShare.weight =
      weights := by
  have count : members.length ≠ 0 := mt List.length_eq_zero_iff.mp occupied
  have chosen : chosenWeights members.length weights policy = weights := by
    unfold chosenWeights
    by_cases shared : policy = .equalShare
    · rw [if_pos shared]
      exact (equal shared).symm
    · rw [if_neg shared, if_neg (not_not.mpr fits)]
  have effective : effectiveWeights members.length weights policy = (weights, weights.sum) := by
    have occurs : ¬ weights.sum ≤ 0 := by linarith
    unfold effectiveWeights
    simp only [chosen, foldl_weights, zero_add, if_neg occurs]
  have listed : (allocateShared total members weights policy directOwner).members =
      List.zipWith (proportionalShare total weights.sum) members weights := by
    unfold allocateShared
    simp only [if_neg count, if_neg weighted, effective]
    rfl
  rw [listed]
  exact (map_zipWith_share fits total weights.sum).2.1

end Fairness

/-! ## From entries to shares -/

section Batch

variable (overflow : ℚ → Int) {entries : List LedgerEntry}

/-- The split of a shared cost among the members of a batch. -/
def attributeBatch (entries : List LedgerEntry) (batch : BatchId) (total : ℚ)
    (policy : AttributionPolicy) (directOwner : RequestId) : SharedAllocation :=
  let ba := reconcileBatch overflow entries batch
  allocateShared total ba.members (memberWeightsForPolicy ba.memberAccounts policy) policy
    directOwner

/-- No policy reads a negative weight off an account. -/
theorem memberWeights_nonneg (signed : ∀ e ∈ entries, e.Signed) (batch : BatchId)
    (policy : AttributionPolicy) :
    ∀ wi ∈ memberWeightsForPolicy (reconcileBatch overflow entries batch).memberAccounts policy,
      0 ≤ wi := by
  intro wi member
  rcases List.mem_map.mp member with ⟨acc, listed, rfl⟩
  rw [(reconcileBatch_fields overflow batch entries).2.1] at listed
  rcases List.mem_map.mp listed with ⟨request, -, rfl⟩
  have inside : ∀ e ∈ groupOf batch entries request, e.Signed := by
    intro e grouped
    exact signed e (List.mem_of_mem_filter (List.mem_of_mem_filter grouped))
  have nonNegative := nonNegative_reconcileRequest overflow inside request
  have timely := timely_reconcileRequest overflow (groupOf batch entries request) request
  cases policy with
  | proportionalBytes => exact add_nonneg nonNegative.kvAllocated nonNegative.tensorAllocated
  | proportionalTokens => exact Nat.cast_nonneg _
  | proportionalExecution => exact timely.execution
  | proportionalReserved => exact Nat.cast_nonneg _
  | equalShare => exact zero_le_one
  | directOwnership => exact zero_le_one
  | weighted => exact zero_le_one

theorem length_memberWeights (batch : BatchId) (policy : AttributionPolicy) :
    (memberWeightsForPolicy (reconcileBatch overflow entries batch).memberAccounts policy).length =
      (reconcileBatch overflow entries batch).members.length := by
  rcases reconcileBatch_fields overflow batch entries with ⟨members, accounts, -⟩
  rw [memberWeightsForPolicy, List.length_map, accounts, members, List.length_map]

end Batch

end InferenceLedger
