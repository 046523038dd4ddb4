import InferenceLedger.Record.Identity

namespace InferenceLedger

/-!
# Shared cost

`allocate_shared` splits a total among the members of a batch and reports what
is left as overhead, so that shares and overhead should add up to the total.

They do for every policy that works with weights: the weights are replaced by
uniform ones whenever their sum could not serve as a divisor, and then the
shares add up exactly.  They need not where no weights are used.  Without
members nothing is allocated and nothing is left, and direct ownership gives
the whole total to every occurrence of the owner, however many there are.

Amounts are exact rationals; the threshold below which a negative remainder is
dropped is never reached by them.
-/

/-- `enum class AttributionPolicy`. -/
inductive AttributionPolicy where
  | equalShare | proportionalBytes | proportionalTokens | proportionalExecution
  | proportionalReserved | directOwnership | weighted
deriving DecidableEq

structure MemberShare where
  request : RequestId := {}
  share : ℚ := 0
  weight : ℚ := 0

structure SharedAllocation where
  policy : AttributionPolicy := .equalShare
  members : List MemberShare := []
  unallocatedOverhead : ℚ := 0
  total : ℚ := 0

/-- `member_sum`. -/
def SharedAllocation.memberSum (allocation : SharedAllocation) : ℚ :=
  allocation.members.foldl (fun s m => s + m.share) 0

def uniformWeights (n : Nat) : List ℚ := List.replicate n 1

/-- The owner under direct ownership; the first member where none is given. -/
def ownerAmong (members : List RequestId) (directOwner : RequestId) : RequestId :=
  if directOwner.isZero then members.headD {} else directOwner

/-- The given weights, where they match the members and the policy uses them. -/
def chosenWeights (n : Nat) (weights : List ℚ) (policy : AttributionPolicy) : List ℚ :=
  let w := if weights.length ≠ n then uniformWeights n else weights
  if policy = .equalShare then uniformWeights n else w

/-- The weights that are used, with their sum. -/
def effectiveWeights (n : Nat) (weights : List ℚ) (policy : AttributionPolicy) : List ℚ × ℚ :=
  let w := chosenWeights n weights policy
  let wsum := w.foldl (fun wsum wi => wsum + wi) 0
  if wsum ≤ 0 then (uniformWeights n, n) else (w, wsum)

/-- `allocate_shared`. -/
def allocateShared (total : ℚ) (members : List RequestId) (weights : List ℚ)
    (policy : AttributionPolicy) (directOwner : RequestId) : SharedAllocation :=
  let n := members.length
  if n = 0 then { policy, total }
  else if policy = .directOwnership then
    let owner := ownerAmong members directOwner
    { policy
      total
      members := members.map fun m =>
        { request := m
          share := if m = owner then total else 0
          weight := if m = owner then 1 else 0 }
      unallocatedOverhead := 0 }
  else
    let (w, wsum) := effectiveWeights n weights policy
    let shares := List.zipWith
      (fun m wi => ({ request := m, weight := wi, share := total * (wi / wsum) } : MemberShare))
      members w
    let assigned := shares.foldl (fun assigned ms => assigned + ms.share) 0
    let overhead := total - assigned
    { policy
      total
      members := shares
      unallocatedOverhead := if overhead < 0 ∧ overhead > -(1 / 10 ^ 12) then 0 else overhead }

/-! ## Weights -/

theorem foldl_share (members : List MemberShare) (start : ℚ) :
    members.foldl (fun s m => s + m.share) start = start + (members.map MemberShare.share).sum := by
  induction members generalizing start with
  | nil => simp
  | cons m members ih => rw [List.foldl_cons, ih, List.map_cons, List.sum_cons, add_assoc]

theorem foldl_weights (weights : List ℚ) (start : ℚ) :
    weights.foldl (fun wsum wi => wsum + wi) start = start + weights.sum := by
  induction weights generalizing start with
  | nil => simp
  | cons wi weights ih => rw [List.foldl_cons, ih, List.sum_cons, add_assoc]

theorem length_uniformWeights (n : Nat) : (uniformWeights n).length = n := List.length_replicate

theorem sum_uniformWeights (n : Nat) : (uniformWeights n).sum = n := by
  simp [uniformWeights]

theorem length_chosenWeights (n : Nat) (weights : List ℚ) (policy : AttributionPolicy) :
    (chosenWeights n weights policy).length = n := by
  unfold chosenWeights
  by_cases equal : policy = .equalShare
  · rw [if_pos equal]
    exact length_uniformWeights n
  · rw [if_neg equal]
    by_cases different : weights.length ≠ n
    · rw [if_pos different]
      exact length_uniformWeights n
    · rw [if_neg different]
      exact not_not.mp different

/-- Whatever weights were given, those that are used are as many as the members
and have a positive sum. -/
theorem effectiveWeights_spec {n : Nat} (occupied : n ≠ 0) (weights : List ℚ)
    (policy : AttributionPolicy) :
    (effectiveWeights n weights policy).1.length = n ∧
      (effectiveWeights n weights policy).1.sum = (effectiveWeights n weights policy).2 ∧
      0 < (effectiveWeights n weights policy).2 := by
  have positive : (0 : ℚ) < n := Nat.cast_pos.mpr (Nat.pos_of_ne_zero occupied)
  have length := length_chosenWeights n weights policy
  unfold effectiveWeights
  simp only [foldl_weights, zero_add]
  by_cases useless : (chosenWeights n weights policy).sum ≤ 0
  · rw [if_pos useless]
    exact ⟨length_uniformWeights n, sum_uniformWeights n, positive⟩
  · rw [if_neg useless]
    exact ⟨length, rfl, lt_of_not_ge useless⟩

/-- With as many members as weights, the shares are those of the weights. -/
theorem map_share_zipWith {members : List RequestId} {weights : List ℚ}
    (same : weights.length = members.length) (share : ℚ → ℚ) :
    (List.zipWith (fun m wi => ({ request := m, weight := wi, share := share wi } : MemberShare))
      members weights).map MemberShare.share = weights.map share := by
  induction members generalizing weights with
  | nil => rw [List.length_eq_zero_iff.mp same, List.zipWith_nil_right, List.map_nil, List.map_nil]
  | cons m members ih =>
      cases weights with
      | nil => cases same
      | cons wi weights =>
          rw [List.zipWith_cons_cons, List.map_cons, List.map_cons, ih (Nat.succ.inj same)]

/-- Shares in proportion to weights add up to the total. -/
theorem sum_proportional (total : ℚ) {weights : List ℚ} {wsum : ℚ} (sum : weights.sum = wsum)
    (positive : 0 < wsum) : (weights.map fun wi => total * (wi / wsum)).sum = total := by
  have scaled : (fun wi : ℚ => total * (wi / wsum)) = fun wi => wi * (total / wsum) := by
    funext wi
    ring
  rw [scaled, List.sum_map_mul_right, List.map_id', sum]
  exact mul_div_cancel₀ total (ne_of_gt positive)

/-! ## Conservation -/

section Conservation

variable (total : ℚ) (members : List RequestId) (weights : List ℚ) (policy : AttributionPolicy)
  (directOwner : RequestId)

/-- A policy with weights hands out everything. -/
theorem allocateShared_weighted (occupied : members ≠ []) (weighted : policy ≠ .directOwnership) :
    (allocateShared total members weights policy directOwner).memberSum = total ∧
      (allocateShared total members weights policy directOwner).unallocatedOverhead = 0 := by
  have count : members.length ≠ 0 := mt List.length_eq_zero_iff.mp occupied
  rcases effectiveWeights_spec count weights policy with ⟨length, sum, positive⟩
  unfold allocateShared SharedAllocation.memberSum
  simp only [if_neg count, if_neg weighted]
  generalize effectiveWeights members.length weights policy = effective at length sum positive
  rcases effective with ⟨w, wsum⟩
  simp only at length sum positive
  have assigned : (List.zipWith
      (fun m wi => ({ request := m, weight := wi, share := total * (wi / wsum) } : MemberShare))
      members w).foldl (fun s m => s + m.share) 0 = total := by
    rw [foldl_share, zero_add, map_share_zipWith length, sum_proportional total sum positive]
  simp only [assigned, sub_self, lt_self_iff_false, false_and, if_false, and_self]

/-- Direct ownership hands out the total once for each occurrence of the owner. -/
theorem allocateShared_direct (occupied : members ≠ []) :
    (allocateShared total members weights .directOwnership directOwner).memberSum =
        members.count (ownerAmong members directOwner) * total ∧
      (allocateShared total members weights .directOwnership directOwner).unallocatedOverhead = 0 := by
  have count : members.length ≠ 0 := mt List.length_eq_zero_iff.mp occupied
  unfold allocateShared SharedAllocation.memberSum
  simp only [if_neg count, if_true, and_true]
  generalize ownerAmong members directOwner = owner
  rw [foldl_share, zero_add, List.map_map]
  clear occupied count
  induction members with
  | nil => simp
  | cons m members ih =>
      rw [List.map_cons, List.sum_cons, ih, List.count_cons]
      by_cases same : m = owner
      · rw [if_pos (beq_iff_eq.mpr same)]
        simp only [Function.comp, if_pos same]
        push_cast
        ring
      · simp [same]

/-- Conservation of shared cost.  Shares and overhead add up to the total
exactly when there is nothing to share, or there are members and direct
ownership finds its owner among them just once. -/
theorem shares_conserve_iff :
    (allocateShared total members weights policy directOwner).memberSum +
        (allocateShared total members weights policy directOwner).unallocatedOverhead = total ↔
      total = 0 ∨ (members ≠ [] ∧
        (policy = .directOwnership → members.count (ownerAmong members directOwner) = 1)) := by
  by_cases none : members = []
  · subst none
    change (0 : ℚ) + 0 = total ↔ _
    rw [add_zero]
    simp [eq_comm]
  · by_cases direct : policy = .directOwnership
    · subst direct
      rcases allocateShared_direct total members weights directOwner none with ⟨sum, overhead⟩
      rw [sum, overhead, add_zero]
      simp only [ne_eq, none, not_false_eq_true, true_and, forall_const]
      by_cases nothing : total = 0
      · simp [nothing]
      · rw [mul_eq_right₀ nothing, Nat.cast_eq_one]
        simp [nothing]
    · rcases allocateShared_weighted total members weights policy directOwner none direct with
        ⟨sum, overhead⟩
      simp [sum, overhead, none, direct]

end Conservation

/-- A total without members is lost. -/
theorem memberless_total_lost :
    ¬ ∀ (total : ℚ) (members : List RequestId) (weights : List ℚ) (policy : AttributionPolicy)
      (directOwner : RequestId),
      (allocateShared total members weights policy directOwner).memberSum +
        (allocateShared total members weights policy directOwner).unallocatedOverhead = total := by
  intro conserved
  exact absurd (conserved 1 [] [] .equalShare {}) (by decide +kernel)

end InferenceLedger
