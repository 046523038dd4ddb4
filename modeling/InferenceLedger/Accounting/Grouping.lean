import InferenceLedger.Accounting.Query
import InferenceLedger.Foundation.History

namespace InferenceLedger

open Foundation Std

/-!
# Grouping against querying

Three functions look at the requests of a list of entries with three different
containers: the distinct requests are a list in first-seen order, the groups
come out of an ordered set, and a query filters the list.  The groups have the
same members as the queries, and together they are all the entries that belong
to a request.

Their order is another matter.  The header promises first-seen order; the set
yields the order of the identities.  The two agree exactly when the requests
appear in that order.
-/

/-- The entry belongs to a request. -/
def LedgerEntry.hasRequest (e : LedgerEntry) : Bool := !e.request.isZero

/-- The entries of one request, in the order of the list. -/
def entriesOf (entries : List LedgerEntry) (request : RequestId) : List LedgerEntry :=
  entries.filter fun e => e.request = request

theorem queryLedger_request (entries : List LedgerEntry) (request : RequestId) :
    queryLedger entries { request := some request } = entriesOf entries request := by
  unfold queryLedger entriesOf
  apply List.filter_congr
  intro e _
  rw [Bool.eq_iff_iff, decide_eq_true_iff]
  simp [LedgerQuery.admits]

/-! ## The loops -/

theorem mem_insert_iff {requests : ExtTreeSet RequestId} {request other : RequestId} :
    request ∈ requests.insert other ↔ request ∈ requests ∨ request = other := by
  rw [ExtTreeSet.mem_insert, LawfulEqOrd.compare_eq_iff_eq, or_comm, eq_comm]

section Loops

variable (entries : List LedgerEntry)

/-- The requests of the entries, zero left out. -/
def requestsOf : List RequestId := (entries.filter LedgerEntry.hasRequest).map LedgerEntry.request

theorem requestsOf_concat (e : LedgerEntry) :
    requestsOf (entries ++ [e]) =
      requestsOf entries ++ if e.request.isZero then [] else [e.request] := by
  rw [requestsOf, List.filter_append, List.map_append, requestsOf]
  congr 1
  cases zero : e.request.isZero <;> simp [LedgerEntry.hasRequest, zero]

/-- The set of `distinct_requests` holds what its list holds. -/
theorem foldl_distinctStep (request : RequestId) :
    (request ∈ (entries.foldl distinctStep (∅, [])).1 ↔ request ∈ requestsOf entries) ∧
      (request ∈ distinctRequests entries ↔ request ∈ requestsOf entries) := by
  rw [distinctRequests]
  induction entries using List.reverseRecOn with
  | nil => simp [requestsOf]
  | append_singleton entries e ih =>
      rw [List.foldl_append, List.foldl_cons, List.foldl_nil, requestsOf_concat, distinctStep]
      generalize entries.foldl distinctStep (∅, []) = state at ih ⊢
      cases zero : e.request.isZero with
      | true => simpa using ih
      | false =>
          by_cases known : e.request ∈ state.1
          · simp only [ExtTreeSet.contains_iff_mem.mpr known, Bool.false_eq_true, if_false, if_true,
              List.mem_append, List.mem_singleton]
            by_cases same : request = e.request
            · subst same
              simp only [known, or_true, iff_true, true_and]
              exact ih.2.mpr (ih.1.mp known)
            · simpa only [same, or_false] using ih
          · have unknown : state.1.contains e.request = false := by
              rw [Bool.eq_false_iff]
              exact mt ExtTreeSet.contains_iff_mem.mp known
            simp only [unknown, Bool.false_eq_true, if_false, List.mem_append, List.mem_singleton,
              mem_insert_iff, ih, and_self]

theorem mem_distinctRequests (request : RequestId) :
    request ∈ distinctRequests entries ↔ request ∈ requestsOf entries :=
  (foldl_distinctStep entries request).2

/-- A request that was not seen before goes to the end. -/
theorem distinctRequests_concat (e : LedgerEntry) :
    distinctRequests (entries ++ [e]) =
      if e.request.isZero ∨ e.request ∈ requestsOf entries then distinctRequests entries
      else distinctRequests entries ++ [e.request] := by
  have seen := (foldl_distinctStep entries e.request).1
  rw [distinctRequests, List.foldl_append, List.foldl_cons, List.foldl_nil, distinctStep,
    distinctRequests]
  cases zero : e.request.isZero with
  | true => simp
  | false =>
      by_cases known : e.request ∈ requestsOf entries
      · simp [known, ExtTreeSet.contains_iff_mem.mpr (seen.mpr known)]
      · have unknown : (entries.foldl distinctStep (∅, [])).1.contains e.request = false := by
          rw [Bool.eq_false_iff]
          exact mt (fun found => seen.mp (ExtTreeSet.contains_iff_mem.mp found)) known
        simp [known, unknown]

theorem nodup_distinctRequests : (distinctRequests entries).Nodup := by
  induction entries using List.reverseRecOn with
  | nil => exact List.nodup_nil
  | append_singleton entries e ih =>
      rw [distinctRequests_concat]
      split
      · exact ih
      · rename_i fresh
        rw [not_or] at fresh
        rw [List.nodup_append_comm, List.singleton_append, List.nodup_cons, mem_distinctRequests]
        exact ⟨fresh.2, ih⟩

/-- What `group_by_request` collects. -/
theorem foldl_add (request : RequestId) :
    (request ∈ (entries.foldl Groups.add {}).order ↔ request ∈ requestsOf entries) ∧
      (request.isZero = false →
        (entries.foldl Groups.add {}).m.getD request [] = entriesOf entries request) := by
  induction entries using List.reverseRecOn with
  | nil =>
      refine ⟨by simp [requestsOf], fun _ => ?_⟩
      rw [List.foldl_nil, ExtTreeMap.getD_empty]
      rfl
  | append_singleton entries e ih =>
      rw [List.foldl_append, List.foldl_cons, List.foldl_nil, requestsOf_concat, Groups.add,
        entriesOf, List.filter_append]
      change _ ∧ (_ → _ = entriesOf entries request ++ _)
      generalize entries.foldl Groups.add {} = groups at ih ⊢
      cases zero : e.request.isZero with
      | true =>
          refine ⟨by simpa using ih.1, fun nonzero => ?_⟩
          have other : e.request ≠ request := by
            rintro rfl
            rw [zero] at nonzero
            cases nonzero
          simpa [other] using ih.2 nonzero
      | false =>
          refine ⟨?_, fun nonzero => ?_⟩
          · simp only [Bool.false_eq_true, if_false, mem_insert_iff, ih.1, List.mem_append,
              List.mem_singleton]
          · by_cases same : e.request = request
            · subst same
              simp [ih.2 nonzero]
            · simpa [same, ExtTreeMap.getD_insert] using ih.2 nonzero

end Loops

/-! ## Groups and queries -/

/-- The groups are those that the queries return for the distinct requests in
first-seen order, and together they are all entries that belong to a request. -/
structure GroupsAgree (entries : List LedgerEntry) : Prop where
  groups : groupByRequest entries =
    (distinctRequests entries).map fun r => (r, queryLedger entries { request := some r })
  complete : ((groupByRequest entries).flatMap Prod.snd).Perm
    (entries.filter LedgerEntry.hasRequest)

/-- A request that appears for the first time is greater than all requests
before it. -/
def FirstSeenAscending (entries : List LedgerEntry) : Prop :=
  ∀ before e after, entries = before ++ e :: after → e.request.isZero = false →
    e.request ∉ requestsOf before → ∀ other ∈ requestsOf before, compare other e.request = .lt

theorem isZero_of_mem_requestsOf {entries : List LedgerEntry} {request : RequestId}
    (member : request ∈ requestsOf entries) : request.isZero = false := by
  rcases List.mem_map.mp member with ⟨e, inside, rfl⟩
  simpa [LedgerEntry.hasRequest] using (List.mem_filter.mp inside).2

section Ordered

variable (entries : List LedgerEntry)

/-- The requests in the order of the set. -/
def orderedRequests : List RequestId := (entries.foldl Groups.add {}).order.toList

theorem mem_orderedRequests (request : RequestId) :
    request ∈ orderedRequests entries ↔ request ∈ requestsOf entries := by
  rw [orderedRequests, ExtTreeSet.mem_toList, (foldl_add entries request).1]

theorem groupByRequest_eq :
    groupByRequest entries =
      (orderedRequests entries).map fun request => (request, entriesOf entries request) := by
  change (orderedRequests entries).map _ = _
  apply List.map_congr_left
  intro request member
  have nonzero := isZero_of_mem_requestsOf ((mem_orderedRequests entries request).mp member)
  rw [(foldl_add entries request).2 nonzero]

theorem pairwise_orderedRequests :
    (orderedRequests entries).Pairwise fun left right => compare left right = .lt :=
  ExtTreeSet.ordered_toList

theorem nodup_orderedRequests : (orderedRequests entries).Nodup := by
  refine (pairwise_orderedRequests entries).imp fun {left right} below same => ?_
  rw [same, Std.compare_self] at below
  cases below

/-- The set yields the requests in first-seen order exactly when they were first
seen in its own order. -/
theorem orderedRequests_eq_iff :
    orderedRequests entries = distinctRequests entries ↔
      (distinctRequests entries).Pairwise fun left right => compare left right = .lt := by
  constructor
  · intro same
    rw [← same]
    exact pairwise_orderedRequests entries
  · intro ascending
    have permuted : (orderedRequests entries).Perm (distinctRequests entries) := by
      apply (List.perm_ext_iff_of_nodup (nodup_orderedRequests entries)
        (nodup_distinctRequests entries)).mpr
      intro request
      rw [mem_orderedRequests, mem_distinctRequests]
    refine permuted.eq_of_pairwise ?_ (pairwise_orderedRequests entries) ascending
    intro left right _ _ below above
    rw [Std.OrientedCmp.gt_of_lt below] at above
    cases above

theorem pairwise_distinctRequests_iff :
    ((distinctRequests entries).Pairwise fun left right => compare left right = .lt) ↔
      FirstSeenAscending entries := by
  induction entries using List.reverseRecOn with
  | nil =>
      refine ⟨fun _ before e after split => ?_, fun _ => List.Pairwise.nil⟩
      simp at split
  | append_singleton entries e ih =>
      -- The moments of the longer list are the old ones and the new entry.
      have moments : FirstSeenAscending (entries ++ [e]) ↔ FirstSeenAscending entries ∧
          (e.request.isZero = false → e.request ∉ requestsOf entries →
            ∀ other ∈ requestsOf entries, compare other e.request = .lt) := by
        constructor
        · intro ascending
          refine ⟨?_, ascending entries e [] rfl⟩
          intro before first after split
          exact ascending before first (after ++ [e]) (moment_append split [e])
        · rintro ⟨earlier, last⟩ before first after split
          rcases concat_eq_append_cons_iff.mp split with ⟨rfl, rfl, -⟩ | ⟨rest, -, inside⟩
          · exact last
          · exact earlier before first rest inside
      rw [moments, ← ih, distinctRequests_concat]
      split
      · rename_i known
        refine (and_iff_left fun nonzero fresh => ?_).symm
        rcases known with zero | again
        · rw [zero] at nonzero
          cases nonzero
        · exact (fresh again).elim
      · rename_i fresh
        rw [not_or, Bool.not_eq_true] at fresh
        simp only [List.pairwise_append, List.pairwise_singleton, true_and, List.mem_singleton,
          forall_eq, mem_distinctRequests, fresh, not_false_eq_true, true_implies]

/-- The groups of distinct keys, put together. -/
theorem flatMap_entriesOf_perm {requests : List RequestId} (distinct : requests.Nodup) :
    (requests.flatMap (entriesOf entries)).Perm
      (entries.filter fun e => e.request ∈ requests) := by
  induction requests with
  | nil => simp
  | cons request requests ih =>
      rcases List.nodup_cons.mp distinct with ⟨fresh, others⟩
      have split := List.filter_append_perm (fun e : LedgerEntry => e.request = request)
        (entries.filter fun e => e.request ∈ request :: requests)
      rw [List.filter_filter, List.filter_filter] at split
      have first : entriesOf entries request = entries.filter fun e =>
          decide (e.request = request) && decide (e.request ∈ request :: requests) := by
        apply List.filter_congr
        intro e _
        by_cases same : e.request = request
        · simp [same]
        · simp [same]
      have rest : (entries.filter fun e => e.request ∈ requests) = entries.filter fun e =>
          (!decide (e.request = request)) && decide (e.request ∈ request :: requests) := by
        apply List.filter_congr
        intro e _
        by_cases same : e.request = request
        · simp [same, fresh]
        · simp [same]
      rw [List.flatMap_cons, first]
      exact (List.Perm.append_left _ ((ih others).trans (List.Perm.of_eq rest))).trans split

theorem complete_groupByRequest :
    ((groupByRequest entries).flatMap Prod.snd).Perm (entries.filter LedgerEntry.hasRequest) := by
  rw [groupByRequest_eq, List.flatMap_map]
  apply (flatMap_entriesOf_perm entries (nodup_orderedRequests entries)).trans
  apply List.Perm.of_eq
  apply List.filter_congr
  intro e member
  rw [Bool.eq_iff_iff, decide_eq_true_iff, mem_orderedRequests]
  constructor
  · intro known
    simpa [LedgerEntry.hasRequest] using isZero_of_mem_requestsOf known
  · intro nonzero
    exact List.mem_map_of_mem (List.mem_filter.mpr ⟨member, nonzero⟩)

/-- Grouping agrees with querying exactly when the requests are first seen in
the order of their identities. -/
theorem groups_agree_iff : GroupsAgree entries ↔ FirstSeenAscending entries := by
  have queried : ((distinctRequests entries).map fun r =>
      (r, queryLedger entries { request := some r })) =
        (distinctRequests entries).map fun r => (r, entriesOf entries r) := by
    simp only [queryLedger_request]
  rw [← pairwise_distinctRequests_iff, ← orderedRequests_eq_iff]
  constructor
  · intro agree
    have same := agree.groups
    rw [queried, groupByRequest_eq] at same
    have keys := congrArg (List.map Prod.fst) same
    rwa [List.map_map, List.map_map, Function.comp_def, List.map_id', List.map_id'] at keys
  · intro same
    refine ⟨?_, complete_groupByRequest entries⟩
    rw [queried, groupByRequest_eq, same]

end Ordered

/-- Two requests, the greater one first: the groups come out the other way
round. -/
theorem later_request_grouped_first : ¬ ∀ entries : List LedgerEntry, GroupsAgree entries := by
  intro claim
  have same := (claim [{ request := ⟨0, 2⟩ }, { request := ⟨0, 1⟩ }]).groups
  exact absurd (congrArg (List.map Prod.fst) same) (by decide +kernel)

end InferenceLedger
