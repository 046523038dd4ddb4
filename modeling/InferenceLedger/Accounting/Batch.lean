import InferenceLedger.Accounting.Account
import InferenceLedger.Accounting.Query
import InferenceLedger.Accounting.Sharing
import InferenceLedger.Foundation.OrderedMap

namespace InferenceLedger

open Foundation Std

/-!
# Batches

`reconcile_batch` groups the entries of a batch by request and reconciles each
group.  The batch of an entry is a tag in its metadata, and the tag is tested
here and in `query_ledger`, but not in the same way: an entry without a tag
belongs to no batch for the query, and to every batch for the account.

The two therefore agree on a list of entries exactly when all of them are
tagged.  One more detail depends on entries of other batches: an account
without members is called partial when there were any entries at all.
-/

/-- `struct BatchAccount`. -/
structure BatchAccount where
  batch : BatchId := {}
  members : List RequestId := []
  phase : String := ""
  totalExecutionS : ℚ := 0
  totalGeneratedTokens : ℚ := 0
  totalGpuS : ℚ := 0
  cancelledMembers : UInt64 := 0
  partialCompletion : Bool := false
  memberAccounts : List RequestAccount := []

/-- The batch that an entry was recorded for. -/
def LedgerEntry.batchTag (e : LedgerEntry) : Option ByteString :=
  e.metadata[ByteString.ofString "batch"]?

/-- The test of `reconcile_batch`; it skips an entry only for a different tag. -/
def joinsBatch (batch : BatchId) (e : LedgerEntry) : Bool :=
  match e.batchTag with
  | some tag => tag == batch.toString
  | none => true

/-- `by_request`. -/
def byRequest (batch : BatchId) (entries : List LedgerEntry) :
    ExtTreeMap RequestId (List LedgerEntry) :=
  foldByKey LedgerEntry.request (fun group e => group ++ [e]) [] (entries.filter (joinsBatch batch))
    ∅

/-- One round of the loop over the requests. -/
def BatchAccount.addMember (overflow : ℚ → Int) (ba : BatchAccount)
    (kvp : RequestId × List LedgerEntry) : BatchAccount :=
  let acc := reconcileRequest overflow kvp.2 kvp.1
  { ba with
    members := ba.members ++ [kvp.1]
    memberAccounts := ba.memberAccounts ++ [acc]
    totalExecutionS := ba.totalExecutionS + acc.executionS.value
    totalGeneratedTokens := ba.totalGeneratedTokens + (acc.generatedTokens.toNat : ℚ)
    totalGpuS := ba.totalGpuS + acc.gpuActiveS.value
    cancelledMembers := if acc.cancelled then ba.cancelledMembers + 1 else ba.cancelledMembers
    partialCompletion := if !acc.completed then true else ba.partialCompletion }

/-- `reconcile_batch`. -/
def reconcileBatch (overflow : ℚ → Int) (entries : List LedgerEntry) (batch : BatchId) :
    BatchAccount :=
  let ba := (byRequest batch entries).toList.foldl (BatchAccount.addMember overflow) { batch }
  if ba.members.isEmpty && !entries.isEmpty then { ba with partialCompletion := true } else ba

/-- `member_weights_for_policy`. -/
def memberWeightsForPolicy (members : List RequestAccount) (policy : AttributionPolicy) : List ℚ :=
  members.map fun m =>
    match policy with
    | .proportionalBytes => m.kvAllocated.value + m.tensorAllocated.value
    | .proportionalTokens => (m.generatedTokens.toNat : ℚ)
    | .proportionalExecution => m.executionS.value
    | .proportionalReserved => (m.reservationsAcquired.toNat : ℚ)
    | .equalShare | .directOwnership | .weighted => 1

/-! ## The groups -/

section Groups

variable (batch : BatchId) (entries : List LedgerEntry)

/-- The entries of one request that the account takes for the batch. -/
def groupOf (request : RequestId) : List LedgerEntry :=
  (entries.filter (joinsBatch batch)).filter (fun e => e.request = request)

theorem getElem?_byRequest (request : RequestId) :
    (byRequest batch entries)[request]? =
      if request ∈ (entries.filter (joinsBatch batch)).map LedgerEntry.request then
        some (groupOf batch entries request)
      else none := by
  rw [byRequest, getElem?_foldByKey, ExtTreeMap.getElem?_empty, ExtTreeMap.getD_empty,
    List.foldl_append_eq_append, List.nil_append, ← List.flatMap_def, List.flatMap_singleton']
  rfl

theorem mem_keys_byRequest (request : RequestId) :
    request ∈ (byRequest batch entries).keys ↔
      request ∈ (entries.filter (joinsBatch batch)).map LedgerEntry.request := by
  rw [ExtTreeMap.mem_keys, ExtTreeMap.mem_iff_isSome_getElem?, getElem?_byRequest]
  split <;> simp [*]

theorem toList_byRequest :
    (byRequest batch entries).toList =
      (byRequest batch entries).keys.map (fun request => (request, groupOf batch entries request)) := by
  apply toList_eq_map_keys
  intro request group found
  rw [getElem?_byRequest] at found
  split at found
  · exact (Option.some.inj found).symm
  · cases found

end Groups

/-! ## The account in terms of its members -/

section Members

variable (overflow : ℚ → Int)

/-- The loop over the requests, from any state. -/
theorem foldl_addMember (pairs : List (RequestId × List LedgerEntry)) (ba : BatchAccount) :
    let accounts := pairs.map fun kvp => reconcileRequest overflow kvp.2 kvp.1
    pairs.foldl (BatchAccount.addMember overflow) ba =
      { batch := ba.batch
        members := ba.members ++ pairs.map Prod.fst
        phase := ba.phase
        totalExecutionS := ba.totalExecutionS + (accounts.map (fun acc => acc.executionS.value)).sum
        totalGeneratedTokens := ba.totalGeneratedTokens +
          (accounts.map (fun acc => (acc.generatedTokens.toNat : ℚ))).sum
        totalGpuS := ba.totalGpuS + (accounts.map (fun acc => acc.gpuActiveS.value)).sum
        cancelledMembers := ba.cancelledMembers +
          (accounts.map (fun acc => if acc.cancelled then (1 : UInt64) else 0)).sum
        partialCompletion := ba.partialCompletion || accounts.any (fun acc => !acc.completed)
        memberAccounts := ba.memberAccounts ++ accounts } := by
  induction pairs generalizing ba with
  | nil => simp
  | cons kvp pairs ih =>
      rw [List.foldl_cons, ih]
      cases cancelled : (reconcileRequest overflow kvp.2 kvp.1).cancelled <;>
        cases completed : (reconcileRequest overflow kvp.2 kvp.1).completed <;>
        simp [BatchAccount.addMember, cancelled, completed, add_assoc]

/-- The account before the last test, from the entries of the batch. -/
def membersAccount (batch : BatchId) (entries : List LedgerEntry) : BatchAccount :=
  let members := (byRequest batch entries).keys
  let accounts := members.map fun request =>
    reconcileRequest overflow (groupOf batch entries request) request
  { batch
    members
    totalExecutionS := (accounts.map (fun acc => acc.executionS.value)).sum
    totalGeneratedTokens := (accounts.map (fun acc => (acc.generatedTokens.toNat : ℚ))).sum
    totalGpuS := (accounts.map (fun acc => acc.gpuActiveS.value)).sum
    cancelledMembers := (accounts.map (fun acc => if acc.cancelled then (1 : UInt64) else 0)).sum
    partialCompletion := accounts.any (fun acc => !acc.completed)
    memberAccounts := accounts }

theorem reconcileBatch_eq (batch : BatchId) (entries : List LedgerEntry) :
    reconcileBatch overflow entries batch =
      if (byRequest batch entries).keys.isEmpty && !entries.isEmpty then
        { membersAccount overflow batch entries with partialCompletion := true }
      else membersAccount overflow batch entries := by
  have folded : (byRequest batch entries).toList.foldl (BatchAccount.addMember overflow) { batch } =
      membersAccount overflow batch entries := by
    rw [foldl_addMember, toList_byRequest]
    simp [membersAccount, Function.comp_def]
  unfold reconcileBatch
  simp only [folded]
  rfl

/-- Everything but the last test reads the entries of the batch alone. -/
theorem membersAccount_congr {batch : BatchId} {first second : List LedgerEntry}
    (same : first.filter (joinsBatch batch) = second.filter (joinsBatch batch)) :
    membersAccount overflow batch first = membersAccount overflow batch second := by
  simp only [membersAccount, byRequest, groupOf, same]

/-- The last test writes nothing but one flag. -/
theorem reconcileBatch_fields (batch : BatchId) (entries : List LedgerEntry) :
    (reconcileBatch overflow entries batch).members = (byRequest batch entries).keys ∧
      (reconcileBatch overflow entries batch).memberAccounts =
        (byRequest batch entries).keys.map (fun request =>
          reconcileRequest overflow (groupOf batch entries request) request) ∧
      (reconcileBatch overflow entries batch).totalExecutionS =
        ((reconcileBatch overflow entries batch).memberAccounts.map
          fun acc => acc.executionS.value).sum ∧
      (reconcileBatch overflow entries batch).totalGpuS =
        ((reconcileBatch overflow entries batch).memberAccounts.map
          fun acc => acc.gpuActiveS.value).sum ∧
      (reconcileBatch overflow entries batch).totalGeneratedTokens =
        ((reconcileBatch overflow entries batch).memberAccounts.map
          fun acc => (acc.generatedTokens.toNat : ℚ)).sum := by
  rw [reconcileBatch_eq]
  split <;> exact ⟨rfl, rfl, rfl, rfl, rfl⟩

end Members

/-! ## The query -/

section AgainstQuery

variable (overflow : ℚ → Int) (entries : List LedgerEntry) (batch : BatchId)

theorem queryLedger_batch :
    queryLedger entries { batch := some batch } =
      entries.filter (fun e => e.batchTag = some batch.toString) := by
  unfold queryLedger
  apply List.filter_congr
  intro e _
  rw [Bool.eq_iff_iff, decide_eq_true_iff]
  simp [LedgerQuery.admits, LedgerEntry.batchTag]

theorem queryLedger_request_batch (request : RequestId) :
    queryLedger entries { request := some request, batch := some batch } =
      (queryLedger entries { batch := some batch }).filter (fun e => e.request = request) := by
  rw [queryLedger_batch, List.filter_filter]
  unfold queryLedger
  apply List.filter_congr
  intro e _
  rw [Bool.eq_iff_iff, Bool.and_eq_true, decide_eq_true_iff, decide_eq_true_iff]
  simp [LedgerQuery.admits, LedgerEntry.batchTag]

/-- The query returns the tagged entries among those that the account takes. -/
theorem queryLedger_batch_eq_filter :
    queryLedger entries { batch := some batch } =
      (entries.filter (joinsBatch batch)).filter (fun e => e.batchTag.isSome) := by
  rw [queryLedger_batch, List.filter_filter]
  congr 1
  funext e
  cases tag : e.batchTag with
  | none => simp [joinsBatch, tag]
  | some bytes => simp [joinsBatch, tag, Bool.beq_eq_decide_eq]

/-- What the account of a batch should be, in terms of queries: one member for
each request of the batch, in increasing order, reconciled from its own entries
in the batch, with totals over the members; and it makes no difference how many
of the entries that were not recorded for the batch are there. -/
structure AgreesWithQuery : Prop where
  ascending : (reconcileBatch overflow entries batch).members.Pairwise
    (fun left right => compare left right = .lt)
  members : ∀ request, request ∈ (reconcileBatch overflow entries batch).members ↔
    request ∈ (queryLedger entries { batch := some batch }).map LedgerEntry.request
  accounts : (reconcileBatch overflow entries batch).memberAccounts =
    (reconcileBatch overflow entries batch).members.map (fun request =>
      reconcileRequest overflow
        (queryLedger entries { request := some request, batch := some batch }) request)
  executionS : (reconcileBatch overflow entries batch).totalExecutionS =
    ((reconcileBatch overflow entries batch).memberAccounts.map fun acc => acc.executionS.value).sum
  gpuS : (reconcileBatch overflow entries batch).totalGpuS =
    ((reconcileBatch overflow entries batch).memberAccounts.map fun acc => acc.gpuActiveS.value).sum
  generatedTokens : (reconcileBatch overflow entries batch).totalGeneratedTokens =
    ((reconcileBatch overflow entries batch).memberAccounts.map
      fun acc => (acc.generatedTokens.toNat : ℚ)).sum
  unaffected : ∀ kept, kept.Sublist entries →
    kept.filter (fun e => e.batchTag = some batch.toString) =
      entries.filter (fun e => e.batchTag = some batch.toString) →
    reconcileBatch overflow kept batch = reconcileBatch overflow entries batch

end AgainstQuery

/-- Where the account agrees with the query, every entry has a tag: an entry
without one is counted by the account of its request, and not by the query. -/
theorem AgreesWithQuery.tagged {overflow : ℚ → Int} {entries : List LedgerEntry} {batch : BatchId}
    (agrees : AgreesWithQuery overflow entries batch) {e : LedgerEntry} (member : e ∈ entries) :
    e.batchTag.isSome = true := by
  by_contra untagged
  rcases reconcileBatch_fields overflow batch entries with ⟨members, accounts, -, -, -⟩
  have taken : e ∈ entries.filter (joinsBatch batch) := by
    rw [List.mem_filter, joinsBatch, Option.not_isSome_iff_eq_none.mp untagged]
    exact ⟨member, rfl⟩
  have known : e.request ∈ (byRequest batch entries).keys :=
    (mem_keys_byRequest batch entries e.request).mpr (List.mem_map_of_mem taken)
  have reconciled : reconcileRequest overflow (groupOf batch entries e.request) e.request =
      reconcileRequest overflow
        (queryLedger entries { request := some e.request, batch := some batch }) e.request := by
    have both := accounts.symm.trans agrees.accounts
    rw [members] at both
    exact List.map_inj_left.mp both e.request known
  have counts := congrArg (fun acc => acc.reconcile.entries) reconciled
  change (groupOf batch entries e.request).length = (queryLedger _ _).length at counts
  have grouped : queryLedger entries { request := some e.request, batch := some batch } =
      (groupOf batch entries e.request).filter (fun e => e.batchTag.isSome) := by
    rw [queryLedger_request_batch, queryLedger_batch_eq_filter, groupOf, List.filter_comm]
  have inside : e ∈ groupOf batch entries e.request :=
    List.mem_filter.mpr ⟨taken, decide_eq_true rfl⟩
  rw [grouped] at counts
  exact untagged (List.length_filter_eq_length_iff.mp counts.symm e inside)

/-- Entries of other batches alone make an account without members partial. -/
theorem AgreesWithQuery.recorded {overflow : ℚ → Int} {entries : List LedgerEntry}
    {batch : BatchId} (agrees : AgreesWithQuery overflow entries batch) (occupied : entries ≠ []) :
    ∃ e ∈ entries, e.batchTag = some batch.toString := by
  by_contra! foreign
  have none : entries.filter (fun e => e.batchTag = some batch.toString) = [] := by
    rw [List.filter_eq_nil_iff]
    intro e member recorded
    exact foreign e member (of_decide_eq_true recorded)
  have skipped : entries.filter (joinsBatch batch) = [].filter (joinsBatch batch) := by
    rw [List.filter_nil, List.filter_eq_nil_iff]
    intro e member joins
    rcases Option.isSome_iff_exists.mp (agrees.tagged member) with ⟨tag, found⟩
    rw [joinsBatch, found] at joins
    exact foreign e member (found.trans (congrArg some (eq_of_beq joins)))
  have flags := congrArg BatchAccount.partialCompletion
    (agrees.unaffected [] (List.nil_sublist entries) none.symm)
  have present : entries.isEmpty = false := List.isEmpty_eq_false_iff.mpr occupied
  rw [reconcileBatch_eq, reconcileBatch_eq,
    membersAccount_congr overflow skipped, byRequest, byRequest, skipped, present] at flags
  simp [foldByKey, membersAccount, byRequest] at flags

/-- Batch accounting agrees with the batch query exactly where every entry is
tagged and, if there are entries at all, one of them is recorded for the batch. -/
theorem agreesWithQuery_iff (overflow : ℚ → Int) (entries : List LedgerEntry) (batch : BatchId) :
    AgreesWithQuery overflow entries batch ↔
      (∀ e ∈ entries, e.batchTag.isSome = true) ∧
        (entries = [] ∨ ∃ e ∈ entries, e.batchTag = some batch.toString) := by
  constructor
  · intro agrees
    exact ⟨fun e member => agrees.tagged member, or_iff_not_imp_left.mpr agrees.recorded⟩
  · rintro ⟨tagged, recorded⟩
    have taken : ∀ kept : List LedgerEntry, (∀ e ∈ kept, e.batchTag.isSome = true) →
        kept.filter (joinsBatch batch) = queryLedger kept { batch := some batch } := by
      intro kept tagged
      rw [queryLedger_batch_eq_filter, eq_comm, List.filter_eq_self]
      intro e member
      exact tagged e (List.mem_of_mem_filter member)
    rcases reconcileBatch_fields overflow batch entries with
      ⟨members, accounts, executionS, gpuS, generatedTokens⟩
    refine ⟨?_, ?_, ?_, executionS, gpuS, generatedTokens, ?_⟩
    · rw [members]
      exact ExtTreeMap.ordered_keys
    · intro request
      rw [members, mem_keys_byRequest, taken entries tagged]
    · rw [accounts, members]
      apply List.map_congr_left
      intro request _
      rw [queryLedger_request_batch, groupOf, taken entries tagged]
    · intro kept part same
      have skipped : kept.filter (joinsBatch batch) = entries.filter (joinsBatch batch) := by
        rw [taken kept fun e member => tagged e (part.subset member), taken entries tagged,
          queryLedger_batch, queryLedger_batch, same]
      have empties : kept.isEmpty = entries.isEmpty := by
        rcases recorded with rfl | ⟨e, member, own⟩
        · rw [List.sublist_nil.mp part]
        · have still : e ∈ kept := by
            have listed : e ∈ entries.filter (fun e => e.batchTag = some batch.toString) :=
              List.mem_filter.mpr ⟨member, decide_eq_true own⟩
            rw [← same] at listed
            exact List.mem_of_mem_filter listed
          rw [List.isEmpty_eq_false_iff.mpr (List.ne_nil_of_mem still),
            List.isEmpty_eq_false_iff.mpr (List.ne_nil_of_mem member)]
      rw [reconcileBatch_eq, reconcileBatch_eq, membersAccount_congr overflow skipped, byRequest,
        byRequest, skipped, empties]

/-- An entry without a tag is a member of every batch. -/
theorem untagged_entry_joins :
    ¬ ∀ (overflow : ℚ → Int) (entries : List LedgerEntry) (batch : BatchId),
      AgreesWithQuery overflow entries batch := by
  intro claim
  have agrees := claim (fun _ => 0) [{ request := ⟨0, 3⟩ }] ⟨0, 7⟩
  exact absurd (agrees.members ⟨0, 3⟩) (by decide +kernel)

/-! ## Sharing a cost within a batch -/

/-- The members of a reconciled batch are all different. -/
theorem nodup_members (overflow : ℚ → Int) (entries : List LedgerEntry) (batch : BatchId) :
    (reconcileBatch overflow entries batch).members.Nodup := by
  rw [(reconcileBatch_fields overflow batch entries).1]
  exact ExtTreeMap.nodup_keys

/-- Split among the members of a reconciled batch, with the weights of any
policy, a cost is conserved; the owner only has to be one of the members, or
left to the first of them. -/
theorem batch_shares_conserve (overflow : ℚ → Int) (entries : List LedgerEntry) (batch : BatchId)
    (total : ℚ) (policy : AttributionPolicy) (directOwner : RequestId)
    (occupied : (reconcileBatch overflow entries batch).members ≠ [])
    (owned : directOwner.isZero = true ∨
      directOwner ∈ (reconcileBatch overflow entries batch).members) :
    let ba := reconcileBatch overflow entries batch
    let allocation := allocateShared total ba.members
      (memberWeightsForPolicy ba.memberAccounts policy) policy directOwner
    allocation.memberSum + allocation.unallocatedOverhead = total := by
  intro ba allocation
  by_cases direct : policy = .directOwnership
  · subst direct
    have owner : ownerAmong ba.members directOwner ∈ ba.members := by
      unfold ownerAmong
      split
      · cases members : ba.members with
        | nil => exact (occupied members).elim
        | cons first rest => exact List.mem_cons_self
      · rename_i nonzero
        exact owned.resolve_left nonzero
    have once : ba.members.count (ownerAmong ba.members directOwner) = 1 :=
      List.count_eq_one_of_mem (nodup_members overflow entries batch) owner
    rcases allocateShared_direct total ba.members
      (memberWeightsForPolicy ba.memberAccounts .directOwnership) directOwner occupied with
      ⟨sum, overhead⟩
    rw [sum, overhead, once, Nat.cast_one, one_mul, add_zero]
  · rcases allocateShared_weighted total ba.members (memberWeightsForPolicy ba.memberAccounts policy)
      policy directOwner occupied direct with ⟨sum, overhead⟩
    rw [sum, overhead, add_zero]

end InferenceLedger
