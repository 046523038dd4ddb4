import InferenceLedger.Accounting.Query

namespace InferenceLedger

open Foundation Std

/-!
# What a query returns

A query has fifteen criteria, and what each of them asks of an entry is said
here on its own.  `query_ledger` tests fourteen of them.  The fifteenth, the
pricing policy, is part of the query and is never looked at, so an entry under
another policy, or under none, is returned as if it matched.

Two queries one after the other return what meets the criteria of both.
-/

/-- The entry meets every criterion that is set in the query. -/
structure LedgerQuery.Satisfied (q : LedgerQuery) (e : LedgerEntry) : Prop where
  request : ∀ request, q.request = some request → e.request = request
  tenant : ∀ tenant, q.tenant = some tenant → e.tenant = tenant
  model : ∀ model, q.model = some model → e.model = model
  modelRevision : ∀ revision, q.modelRevision = some revision → e.modelRevision = revision
  adapter : ∀ adapter, q.adapter = some adapter → e.hasAdapter = true ∧ e.adapter = adapter
  attempt : ∀ attempt, q.attempt = some attempt → e.attempt = attempt
  worker : ∀ worker, q.worker = some worker → e.worker = worker
  device : ∀ device, q.device = some device → e.device = device
  eventKind : ∀ kind, q.eventKind = some kind → e.eventKind = kind
  resourceKind : ∀ kind, q.resourceKind = some kind → e.resourceKind = kind
  startNs : ∀ start, q.startNs = some start → start ≤ e.startTsNs
  endNs : ∀ finish, q.endNs = some finish → e.startTsNs ≤ finish
  batch : ∀ batch, q.batch = some batch →
    e.metadata[ByteString.ofString "batch"]? = some batch.toString
  outcome : q.outcome ≠ [] → e.metadata[ByteString.ofString "outcome"]? = some q.outcome
  pricingPolicy : ∀ policy, q.pricingPolicy = some policy →
    e.hasPricingPolicy = true ∧ e.pricingPolicy = policy

/-- The criterion that `query_ledger` does not test. -/
def LedgerQuery.policyMet (q : LedgerQuery) (e : LedgerEntry) : Bool :=
  q.pricingPolicy.all fun policy => e.hasPricingPolicy && e.pricingPolicy == policy

/-- The criteria are the tests of `query_ledger` and the pricing policy. -/
theorem LedgerQuery.satisfied_iff (q : LedgerQuery) (e : LedgerEntry) :
    q.Satisfied e ↔ (q.admits e && q.policyMet e) = true := by
  simp only [admits, policyMet, Bool.and_eq_true, Option.all_eq_true, beq_iff_eq,
    Bool.not_eq_true', decide_eq_false_iff_not, UInt64.not_lt, Bool.or_eq_true,
    List.isEmpty_iff]
  constructor
  · intro satisfied
    refine ⟨⟨⟨⟨⟨⟨⟨⟨⟨⟨⟨⟨⟨⟨satisfied.request, satisfied.tenant⟩, satisfied.model⟩,
      satisfied.modelRevision⟩, satisfied.adapter⟩, satisfied.attempt⟩, satisfied.worker⟩,
      satisfied.device⟩, satisfied.eventKind⟩, satisfied.resourceKind⟩, satisfied.startNs⟩,
      satisfied.endNs⟩, satisfied.batch⟩, ?_⟩, satisfied.pricingPolicy⟩
    exact or_iff_not_imp_left.mpr satisfied.outcome
  · rintro ⟨⟨⟨⟨⟨⟨⟨⟨⟨⟨⟨⟨⟨⟨request, tenant⟩, model⟩, revision⟩, adapter⟩, attempt⟩, worker⟩, device⟩,
      eventKind⟩, resourceKind⟩, startNs⟩, endNs⟩, batch⟩, outcome⟩, policy⟩
    exact ⟨request, tenant, model, revision, adapter, attempt, worker, device, eventKind,
      resourceKind, startNs, endNs, batch, or_iff_not_imp_left.mp outcome, policy⟩

instance (q : LedgerQuery) (e : LedgerEntry) : Decidable (q.Satisfied e) :=
  decidable_of_iff _ (q.satisfied_iff e).symm

/-! ## Two queries in one -/

/-- One optional criterion that asks for what two others ask for. -/
def Joined {Value : Type} (first second both : Option Value) : Prop :=
  first = none ∧ both = second ∨ second = none ∧ both = first ∨ first = second ∧ both = first

theorem Joined.all {Value : Type} {first second both : Option Value}
    (joined : Joined first second both) (test : Value → Bool) :
    both.all test = (first.all test && second.all test) := by
  rcases joined with ⟨rfl, rfl⟩ | ⟨rfl, rfl⟩ | ⟨rfl, rfl⟩
  · rw [Option.all_none, Bool.true_and]
  · rw [Option.all_none, Bool.and_true]
  · rw [Bool.and_self]

/-- The outcome as an optional criterion; the empty text is none. -/
def LedgerQuery.outcomeText (q : LedgerQuery) : Option ByteString :=
  if q.outcome.isEmpty then none else some q.outcome

/-- A query with the criteria of two others.  Where both set the same criterion
they have to set it alike. -/
structure LedgerQuery.Combines (first second both : LedgerQuery) : Prop where
  request : Joined first.request second.request both.request
  tenant : Joined first.tenant second.tenant both.tenant
  model : Joined first.model second.model both.model
  modelRevision : Joined first.modelRevision second.modelRevision both.modelRevision
  adapter : Joined first.adapter second.adapter both.adapter
  attempt : Joined first.attempt second.attempt both.attempt
  worker : Joined first.worker second.worker both.worker
  device : Joined first.device second.device both.device
  eventKind : Joined first.eventKind second.eventKind both.eventKind
  resourceKind : Joined first.resourceKind second.resourceKind both.resourceKind
  startNs : Joined first.startNs second.startNs both.startNs
  endNs : Joined first.endNs second.endNs both.endNs
  batch : Joined first.batch second.batch both.batch
  outcome : Joined first.outcomeText second.outcomeText both.outcomeText
  pricingPolicy : Joined first.pricingPolicy second.pricingPolicy both.pricingPolicy

theorem LedgerQuery.outcome_test (q : LedgerQuery) (e : LedgerEntry) :
    (q.outcome.isEmpty || e.metadata[ByteString.ofString "outcome"]? == some q.outcome) =
      q.outcomeText.all fun text => e.metadata[ByteString.ofString "outcome"]? == some text := by
  unfold outcomeText
  cases q.outcome.isEmpty with
  | false => rw [Bool.false_or, if_neg Bool.false_ne_true, Option.all_some]
  | true => rw [Bool.true_or, if_pos rfl, Option.all_none]

/-- The combined query passes what both queries pass. -/
theorem LedgerQuery.Combines.admits {first second both : LedgerQuery}
    (combines : first.Combines second both) (e : LedgerEntry) :
    both.admits e = (first.admits e && second.admits e) := by
  simp only [LedgerQuery.admits, LedgerQuery.outcome_test, combines.request.all,
    combines.tenant.all, combines.model.all, combines.modelRevision.all, combines.adapter.all,
    combines.attempt.all, combines.worker.all, combines.device.all, combines.eventKind.all,
    combines.resourceKind.all, combines.startNs.all, combines.endNs.all, combines.batch.all,
    combines.outcome.all]
  ac_rfl

theorem queryLedger_queryLedger (entries : List LedgerEntry) (first second : LedgerQuery) :
    queryLedger (queryLedger entries first) second =
      entries.filter fun e => first.admits e && second.admits e := by
  rw [queryLedger, queryLedger, List.filter_filter]
  congr 1
  funext e
  exact Bool.and_comm _ _

/-! ## Exactness -/

/-- The first query returns exactly what it asks for; the second, run on that
result, exactly what both ask for, which is also what one query with both sets
of criteria returns. -/
structure FiltersExactly (entries : List LedgerEntry) (first second : LedgerQuery) : Prop where
  one : queryLedger entries first = entries.filter fun e => first.Satisfied e
  both : queryLedger (queryLedger entries first) second =
    entries.filter fun e => first.Satisfied e ∧ second.Satisfied e
  combined : ∀ combined, first.Combines second combined →
    queryLedger (queryLedger entries first) second = queryLedger entries combined

/-- A further test changes nothing exactly when all that passed pass it. -/
theorem filter_eq_filter_and_iff {Entry : Type} (entries : List Entry) (test more : Entry → Bool) :
    entries.filter test = (entries.filter fun e => test e && more e) ↔
      ∀ e ∈ entries, test e = true → more e = true := by
  constructor
  · intro same e member passed
    have kept : e ∈ entries.filter test := List.mem_filter.mpr ⟨member, passed⟩
    rw [same, List.mem_filter, Bool.and_eq_true] at kept
    exact kept.2.2
  · intro passes
    apply List.filter_congr
    intro e member
    cases passed : test e with
    | false => rfl
    | true => rw [passes e member passed, Bool.and_self]

/-- Queries filter exactly when every entry that passes the other tests of the
first query meets its pricing policy, and every one that passes those of both
meets the pricing policy of the second. -/
theorem filters_exactly_iff (entries : List LedgerEntry) (first second : LedgerQuery) :
    FiltersExactly entries first second ↔
      (∀ e ∈ entries, first.admits e = true → first.policyMet e = true) ∧
        ∀ e ∈ entries, (first.admits e && second.admits e) = true → second.policyMet e = true := by
  have satisfied : ∀ (q : LedgerQuery) e, decide (q.Satisfied e) = (q.admits e && q.policyMet e) :=
    fun q e => by rw [Bool.eq_iff_iff, decide_eq_true_iff, q.satisfied_iff]
  have one : (queryLedger entries first = entries.filter fun e => first.Satisfied e) ↔
      ∀ e ∈ entries, first.admits e = true → first.policyMet e = true := by
    rw [queryLedger, ← filter_eq_filter_and_iff]
    simp only [satisfied]
  have both : (queryLedger (queryLedger entries first) second =
      entries.filter fun e => first.Satisfied e ∧ second.Satisfied e) ↔
        ∀ e ∈ entries, (first.admits e && second.admits e) = true →
          (first.policyMet e && second.policyMet e) = true := by
    rw [queryLedger_queryLedger, ← filter_eq_filter_and_iff]
    have regrouped : ∀ e, decide (first.Satisfied e ∧ second.Satisfied e) =
        ((first.admits e && second.admits e) && (first.policyMet e && second.policyMet e)) := by
      intro e
      rw [Bool.decide_and, satisfied, satisfied]
      ac_rfl
    simp only [regrouped]
  constructor
  · intro exact
    refine ⟨one.mp exact.one, ?_⟩
    intro e member passed
    have met := both.mp exact.both e member passed
    exact (Bool.and_eq_true_iff.mp met).2
  · rintro ⟨metFirst, metSecond⟩
    refine ⟨one.mpr metFirst, both.mpr ?_, ?_⟩
    · intro e member passed
      have passedFirst := (Bool.and_eq_true_iff.mp passed).1
      rw [metFirst e member passedFirst, metSecond e member passed]
      rfl
    · intro combined combines
      rw [queryLedger_queryLedger, queryLedger]
      congr 1
      funext e
      exact (combines.admits e).symm

/-- An entry without a pricing policy is returned for the policy `⟨0, 1⟩`. -/
theorem unpriced_entry_returned :
    ¬ ∀ (entries : List LedgerEntry) (first second : LedgerQuery),
      FiltersExactly entries first second := by
  intro claim
  have returned := (claim [{}] { pricingPolicy := some ⟨0, 1⟩ } {}).one
  exact absurd (congrArg List.length returned) (by decide +kernel)

end InferenceLedger
