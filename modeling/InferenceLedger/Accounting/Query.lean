import InferenceLedger.Record.Entry

namespace InferenceLedger

open Std

/-!
# Ledger queries

A query is a set of optional criteria; an entry is returned when it meets every
criterion that is present.  Two more functions look at the requests of a list
of entries; both skip the entries whose request is zero.
-/

/-- `struct LedgerQuery`.  The pricing policy is part of the query but
`query_ledger` never looks at it. -/
structure LedgerQuery where
  request : Option RequestId := none
  tenant : Option TenantId := none
  model : Option ModelId := none
  modelRevision : Option ModelRevisionId := none
  adapter : Option AdapterId := none
  batch : Option BatchId := none
  attempt : Option AttemptId := none
  worker : Option WorkerId := none
  device : Option DeviceId := none
  eventKind : Option EventKind := none
  resourceKind : Option ResourceKind := none
  startNs : Option UInt64 := none
  endNs : Option UInt64 := none
  pricingPolicy : Option PricingPolicyId := none
  outcome : ByteString := []

/-- The tests of `query_ledger`, in its order; each passes when its criterion
is absent. -/
def LedgerQuery.admits (q : LedgerQuery) (e : LedgerEntry) : Bool :=
  q.request.all (fun request => e.request == request) &&
  q.tenant.all (fun tenant => e.tenant == tenant) &&
  q.model.all (fun model => e.model == model) &&
  q.modelRevision.all (fun revision => e.modelRevision == revision) &&
  q.adapter.all (fun adapter => e.hasAdapter && e.adapter == adapter) &&
  q.attempt.all (fun attempt => e.attempt == attempt) &&
  q.worker.all (fun worker => e.worker == worker) &&
  q.device.all (fun device => e.device == device) &&
  q.eventKind.all (fun kind => e.eventKind == kind) &&
  q.resourceKind.all (fun kind => e.resourceKind == kind) &&
  q.startNs.all (fun start => !decide (e.startTsNs < start)) &&
  q.endNs.all (fun finish => !decide (e.startTsNs > finish)) &&
  q.batch.all (fun batch => e.metadata[ByteString.ofString "batch"]? == some batch.toString) &&
  (q.outcome.isEmpty || e.metadata[ByteString.ofString "outcome"]? == some q.outcome)

/-- `query_ledger`. -/
def queryLedger (entries : List LedgerEntry) (q : LedgerQuery) : List LedgerEntry :=
  entries.filter q.admits

/-! ## Requests -/

/-- One round of the loop of `distinct_requests`, over `seen` and `out`. -/
def distinctStep (state : ExtTreeSet RequestId × List RequestId) (e : LedgerEntry) :
    ExtTreeSet RequestId × List RequestId :=
  if e.request.isZero then state
  else if state.1.contains e.request then state
  else (state.1.insert e.request, state.2 ++ [e.request])

/-- `distinct_requests`. -/
def distinctRequests (entries : List LedgerEntry) : List RequestId :=
  (entries.foldl distinctStep (∅, [])).2

/-- The local variables of `group_by_request`. -/
structure Groups where
  order : ExtTreeSet RequestId := ∅
  m : ExtTreeMap RequestId (List LedgerEntry) := ∅

/-- One round of the loop of `group_by_request`. -/
def Groups.add (groups : Groups) (e : LedgerEntry) : Groups :=
  if e.request.isZero then groups
  else
    { order := groups.order.insert e.request
      m := groups.m.insert e.request (groups.m.getD e.request [] ++ [e]) }

/-- `group_by_request`.  The requests come out in the order of the set, which is
the order of their identities. -/
def groupByRequest (entries : List LedgerEntry) : List (RequestId × List LedgerEntry) :=
  let groups := entries.foldl Groups.add {}
  groups.order.toList.map fun req => (req, groups.m.getD req [])

end InferenceLedger
