import InferenceLedger.Distributed.Protocol
import InferenceLedger.Foundation.Machine
import InferenceLedger.Foundation.OrderedMap
import InferenceLedger.Ledger.History

namespace InferenceLedger

open Foundation Std

/-!
# The coordinator

Reader threads put work items into one queue, and a single accounting thread
takes them out and handles them one after the other.  That thread is the only
one that changes the ledger, the request scopes and the set of requests in
flight, so each work item is one step of a machine, whose outputs are the
messages it sends.

The authority is attached to the ledger for the coordinator's whole life, and
an append sees it as it is at that moment.  A `RequestStart` writes its request
scope into the authority before it is appended.
-/

/-- `Coordinator::Conn`.  The socket is the position in the list of all
connections. -/
structure Conn where
  worker : WorkerId := {}
  registered : Bool := false
deriving DecidableEq

/-- The state behind `state_mu_`, with the connections. -/
structure Coordinator where
  ledgerId : LedgerId
  ledger : Ledger
  authority : AuthorityState
  inFlight : ExtTreeSet RequestId := ∅
  allConns : List Conn := []

/-- `Coordinator::WorkItem`, with what its kind uses.  Only an event may come
without a connection, through `enqueue_event`. -/
inductive WorkItem where
  | register (conn : Nat) (reg : RegisterMsg)
  | event (conn : Option Nat) (entry : LedgerEntry)
  | workerLost (conn : Nat) (worker : WorkerId)

/-- A message handed to a socket.  Without a connection there is no socket, and
the source would go through a null pointer. -/
structure Send where
  conn : Option Nat
  message : Message

/-- The writes with which a `RequestStart` takes over its request; the body of
`set_request_authority` is the same. -/
def AuthorityState.adopt (state : AuthorityState) (e : LedgerEntry) : AuthorityState :=
  { state with
    requestGeneration := state.requestGeneration.insert e.request e.authority.requestGeneration
    currentAttempt := state.currentAttempt.insert e.request e.authority.attempt
    attemptGeneration := state.attemptGeneration.insert e.request e.authority.attemptGeneration
    requestRolled := state.requestRolled.insert e.request false }

namespace Coordinator

/-- The constructor. -/
def new (ledgerId : LedgerId) : Coordinator where
  ledgerId := ledgerId
  ledger := { id := ledgerId }
  authority := { epoch := ⟨1⟩, accountingGeneration := ⟨1⟩ }

/-- `accept_loop` adds a connection. -/
def accept (c : Coordinator) : Coordinator := { c with allConns := c.allConns ++ [{}] }

def advanceEpoch (c : Coordinator) : Coordinator :=
  { c with authority := { c.authority with
      epoch := c.authority.epoch.next
      accountingGeneration := c.authority.accountingGeneration.next } }

def setRequestAuthority (c : Coordinator) (e : LedgerEntry) : Coordinator :=
  { c with authority := c.authority.adopt e }

/-- `connected_workers`. -/
def connectedWorkers (c : Coordinator) : Nat := c.allConns.countP (fun conn => conn.registered)

/-- `handle_registration`. -/
def handleRegistration (c : Coordinator) (conn : Nat) (reg : RegisterMsg) :
    Coordinator × List Send :=
  let registered : Coordinator := { c with
    authority := { c.authority with
      workerBoot := c.authority.workerBoot.insert reg.worker reg.boot }
    allConns := c.allConns.modify conn (fun _ => { worker := reg.worker, registered := true }) }
  (registered, [⟨some conn, .registerAck
    { ok := true
      epoch := c.authority.epoch
      accountingGeneration := c.authority.accountingGeneration
      reason := .ofString "registered" }⟩])

/-- The authority against which an event is appended. -/
def authorityFor (c : Coordinator) (e : LedgerEntry) : AuthorityState :=
  if e.eventKind = .requestStart then c.authority.adopt e else c.authority

/-- The part of `handle_event` under the lock. -/
def accountEvent (c : Coordinator) (e : LedgerEntry) : Coordinator × AppendResult :=
  let authority := c.authorityFor e
  let (ledger, result) := c.ledger.append (some authority) e
  let inFlight :=
    if result.status = .accepted then
      if e.eventKind = .requestStart then c.inFlight.insert e.request
      else if e.eventKind = .requestEnd then c.inFlight.erase e.request
      else c.inFlight
    else c.inFlight
  ({ c with authority, ledger, inFlight }, result)

/-- `handle_event`. -/
def handleEvent (c : Coordinator) (conn : Option Nat) (e : LedgerEntry) :
    Coordinator × List Send :=
  let (next, result) := c.accountEvent e
  (next, [⟨conn, .eventAck
    { status := result.status.value, reason := .ofString result.reason }⟩])

/-- The first loop of `handle_worker_lost`. -/
def markRolled (c : Coordinator) : Coordinator :=
  { c with authority := { c.authority with
      requestRolled := c.inFlight.foldl (fun rolled request => rolled.insert request true)
        c.authority.requestRolled } }

/-- The connections that are told about a roll: registered, and not of the
worker that was lost. -/
def rollTargets (c : Coordinator) (worker : WorkerId) : List Nat :=
  (List.range c.allConns.length).filter fun index =>
    (c.allConns[index]?).any fun conn => conn.registered && conn.worker != worker

/-- `handle_worker_lost`. -/
def handleWorkerLost (c : Coordinator) (worker : WorkerId) : Coordinator × List Send :=
  let rolled := c.markRolled.advanceEpoch
  (rolled, (rolled.rollTargets worker).map fun index => ⟨some index, .roll
    { epoch := rolled.authority.epoch
      accountingGeneration := rolled.authority.accountingGeneration }⟩)

/-- One round of `accounting_loop`. -/
def accounting : Machine Coordinator WorkItem (List Send)
  | c, .register conn reg => c.handleRegistration conn reg
  | c, .event conn entry => c.handleEvent conn entry
  | c, .workerLost _ worker => c.handleWorkerLost worker

/-! ## Runs with the public calls -/

/-- Everything that changes a coordinator: new connections, work items, and
the two public calls. -/
inductive Action where
  | accept
  | work (item : WorkItem)
  | setRequestAuthority (entry : LedgerEntry)
  | advanceEpoch

def actions : Machine Coordinator Action (List Send)
  | c, .accept => (c.accept, [])
  | c, .work item => accounting c item
  | c, .setRequestAuthority entry => (c.setRequestAuthority entry, [])
  | c, .advanceEpoch => (c.advanceEpoch, [])

/-! ## What the handlers leave alone -/

/-- Adopting a request touches none of the global fences. -/
theorem authorityFor_fences (c : Coordinator) (e : LedgerEntry) :
    (c.authorityFor e).epoch = c.authority.epoch ∧
      (c.authorityFor e).accountingGeneration = c.authority.accountingGeneration ∧
      (c.authorityFor e).workerBoot = c.authority.workerBoot := by
  unfold authorityFor
  by_cases start : e.eventKind = .requestStart
  · rw [if_pos start]
    exact ⟨rfl, rfl, rfl⟩
  · rw [if_neg start]
    exact ⟨rfl, rfl, rfl⟩

theorem accountEvent_result (c : Coordinator) (e : LedgerEntry) :
    (c.accountEvent e).2 = (c.ledger.append (some (c.authorityFor e)) e).2 := rfl

/-- The adopted scope is current for the event that adopted it. -/
theorem requestScopeCurrent_adopt {e : LedgerEntry} (start : e.eventKind = .requestStart)
    (state : AuthorityState) : RequestScopeCurrent e (state.adopt e) where
  notRolled := fun _ => start
  requestGeneration := by simp [AuthorityState.adopt, recordConflicts]
  attempt := by simp [AuthorityState.adopt, recordConflicts]
  attemptGeneration := by simp [AuthorityState.adopt, recordConflicts]

/-- What the coordinator knew of an event that it accepted. -/
theorem fences_of_accepted {c : Coordinator} {e : LedgerEntry}
    (accepted : (c.accountEvent e).2.status = .accepted) :
    e.authority.epoch = c.authority.epoch ∧
      e.authority.accountingGeneration = c.authority.accountingGeneration ∧
      c.authority.workerBoot[e.worker]? = some e.authority.workerBoot := by
  rw [accountEvent_result, Ledger.append_accepted_iff] at accepted
  rcases (validateAuthority_eq_accept_iff e (c.authorityFor e)).mp accepted.verdict with
      ⟨epoch, generation, boot, -⟩
  rcases c.authorityFor_fences e with ⟨sameEpoch, sameGeneration, sameBoot⟩
  rw [sameBoot] at boot
  exact ⟨epoch.trans sameEpoch, generation.trans sameGeneration, boot⟩

/-- An event that was not accepted changes neither the ledger nor the set of
requests in flight. -/
theorem accountEvent_of_refused {c : Coordinator} {e : LedgerEntry}
    (refused : (c.accountEvent e).2.status ≠ .accepted) :
    (c.accountEvent e).1.ledger = c.ledger ∧ (c.accountEvent e).1.inFlight = c.inFlight := by
  rw [accountEvent_result] at refused
  refine ⟨Ledger.append_of_not_accepted refused, ?_⟩
  simp only [accountEvent, refused, if_false]

end Coordinator

end InferenceLedger
