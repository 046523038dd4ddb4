import InferenceLedger.Distributed.RequestScope

namespace InferenceLedger

open Foundation Std

/-!
# The threads of the coordinator

Every connection has a reader thread, and all readers feed the one queue from
which the accounting thread takes its work items.  A reader either receives a
message, which it turns into a work item or answers itself, or fails to receive;
it then reports the loss of the worker if the connection is registered at that
moment, and ends.

The state is what the threads share.  What happened is the trace of a run: the
messages received, the items handled, and the messages handed to the sockets, in
their order.  The write mutex of a socket makes each send one event of that
order, and an item is handled without a reader's step in between, since readers
only look at whether their connection is registered and only append to the
queue.
-/

/-- What a reader thread is doing.  It only ends when a receive fails. -/
inductive Reader where
  | reading | ended
deriving DecidableEq

/-- The coordinator with its reader threads and the queue `queue_`. -/
structure Threads where
  coordinator : Coordinator
  readers : List Reader := []
  queue : List WorkItem := []

/-- The steps of the threads: a new connection, a message or a failure in the
`read_loop` of a connection, and one round of `accounting_loop`. -/
inductive ThreadStep where
  | accept
  | receive (conn : Nat) (message : Message)
  | receiveFailure (conn : Nat)
  | account

/-- What an observer of the threads sees. -/
inductive Observation where
  | received (conn : Nat) (message : Message)
  | handled (item : WorkItem)
  | sent (send : Send)

namespace Threads

/-- Before the first connection. -/
def new (ledgerId : LedgerId) : Threads := { coordinator := .new ledgerId }

/-- `enqueue`. -/
def enqueue (threads : Threads) (item : WorkItem) : Threads :=
  { threads with queue := threads.queue ++ [item] }

/-- `accept_loop`: the connection is listed, and its reader starts. -/
def accept (threads : Threads) : Threads :=
  { threads with
    coordinator := threads.coordinator.accept
    readers := threads.readers ++ [.reading] }

/-- The switch of `read_loop` over the type of a received message. -/
def receive (threads : Threads) (conn : Nat) (message : Message) : Threads × List Send :=
  match message with
  | .register reg => (threads.enqueue (.register conn reg), [])
  | .eventSubmit entry => (threads.enqueue (.event (some conn) entry), [])
  | .ping => (threads, [⟨some conn, .ping⟩])
  | .registerAck _ => (threads, [])
  | .eventAck _ => (threads, [])
  | .roll _ => (threads, [])
  | .shutdown => (threads, [])

/-- The connection carries a registered worker. -/
def Registered (threads : Threads) (conn : Nat) (worker : WorkerId) : Prop :=
  threads.coordinator.allConns[conn]? = some { worker, registered := true }

instance (threads : Threads) (conn : Nat) (worker : WorkerId) :
    Decidable (threads.Registered conn worker) := inferInstanceAs (Decidable (_ = _))

/-- The branch of `read_loop` for a failed receive. -/
def receiveFailure (threads : Threads) (conn : Nat) : Threads :=
  let ended := { threads with readers := threads.readers.set conn .ended }
  match threads.coordinator.allConns[conn]? with
  | some { worker, registered := true } => ended.enqueue (.workerLost conn worker)
  | some { worker := _, registered := false } => ended
  | none => ended

/-- One round of `accounting_loop`; on an empty queue it waits. -/
def account (threads : Threads) : Threads × List Observation :=
  match threads.queue with
  | [] => (threads, [])
  | item :: rest =>
      let (coordinator, sends) := Coordinator.accounting threads.coordinator item
      ({ threads with coordinator, queue := rest }, .handled item :: sends.map .sent)

/-- The threads as one machine.  Steps of a reader that does not exist or has
ended do nothing. -/
def step : Machine Threads ThreadStep (List Observation)
  | threads, .accept => (threads.accept, [])
  | threads, .receive conn message =>
      if threads.readers[conn]? = some .reading then
        let (next, sends) := threads.receive conn message
        (next, .received conn message :: sends.map .sent)
      else (threads, [])
  | threads, .receiveFailure conn =>
      if threads.readers[conn]? = some .reading then (threads.receiveFailure conn, [])
      else (threads, [])
  | threads, .account => threads.account

/-- The threads after these steps. -/
abbrev after (ledgerId : LedgerId) (steps : List ThreadStep) : Threads :=
  step.run (new ledgerId) steps

/-- What was seen along these steps. -/
abbrev seen (ledgerId : LedgerId) (steps : List ThreadStep) : List Observation :=
  step.trace (new ledgerId) steps

/-- The work item that an observation shows as handled. -/
def handledItem : Observation → Option WorkItem
  | .handled item => some item
  | .received _ _ => none
  | .sent _ => none

/-- The items that were handled, in order. -/
def handled (observed : List Observation) : List WorkItem := observed.filterMap handledItem

theorem handled_nil : handled [] = [] := rfl

theorem handled_append (first second : List Observation) :
    handled (first ++ second) = handled first ++ handled second := List.filterMap_append

theorem handled_received (conn : Nat) (message : Message) (observed : List Observation) :
    handled (.received conn message :: observed) = handled observed := rfl

theorem handled_cons (item : WorkItem) (observed : List Observation) :
    handled (.handled item :: observed) = item :: handled observed := rfl

theorem handled_sent (sends : List Send) : handled (sends.map .sent) = [] := by
  simp [handled, handledItem, List.filterMap_map]

/-! ## What one step can do -/

/-- The items that a received message puts into the queue. -/
def itemsOf (conn : Nat) : Message → List WorkItem
  | .register reg => [.register conn reg]
  | .eventSubmit entry => [.event (some conn) entry]
  | _ => []

theorem receive_eq (threads : Threads) (conn : Nat) (message : Message) :
    (threads.receive conn message).1 =
        { threads with queue := threads.queue ++ itemsOf conn message } ∧
      ∀ send ∈ (threads.receive conn message).2, send = ⟨some conn, .ping⟩ := by
  cases message <;> simp [receive, itemsOf, enqueue]

/-- The items that a failed receive puts into the queue. -/
def lossOf (threads : Threads) (conn : Nat) : List WorkItem :=
  match threads.coordinator.allConns[conn]? with
  | some { worker, registered := true } => [.workerLost conn worker]
  | some { worker := _, registered := false } => []
  | none => []

theorem receiveFailure_eq (threads : Threads) (conn : Nat) :
    threads.receiveFailure conn =
      { threads with
        readers := threads.readers.set conn .ended
        queue := threads.queue ++ threads.lossOf conn } := by
  unfold receiveFailure lossOf
  split <;> simp [enqueue]

theorem lossOf_of_registered {threads : Threads} {conn : Nat} {worker : WorkerId}
    (registered : threads.Registered conn worker) :
    threads.lossOf conn = [.workerLost conn worker] := by
  rw [lossOf, registered]

theorem lossOf_of_not_registered {threads : Threads} {conn : Nat}
    (unregistered : ∀ worker, ¬ threads.Registered conn worker) : threads.lossOf conn = [] := by
  unfold lossOf
  split
  · rename_i worker found
    exact (unregistered worker found).elim
  · rfl
  · rfl

/-- Every step is one of five: nothing happens, a connection is added, a message
is received, a receive fails, or an item is handled. -/
theorem step_cases (threads : Threads) (input : ThreadStep) :
    step threads input = (threads, []) ∨
    step threads input = (threads.accept, []) ∨
    (∃ conn message, input = .receive conn message ∧ threads.readers[conn]? = some .reading ∧
      step threads input =
        ({ threads with queue := threads.queue ++ itemsOf conn message },
          .received conn message :: (threads.receive conn message).2.map .sent)) ∨
    (∃ conn, input = .receiveFailure conn ∧ threads.readers[conn]? = some .reading ∧
      step threads input =
        ({ threads with
            readers := threads.readers.set conn .ended
            queue := threads.queue ++ threads.lossOf conn }, [])) ∨
    (∃ item rest, input = .account ∧ threads.queue = item :: rest ∧
      step threads input =
        ({ threads with
            coordinator := (Coordinator.accounting threads.coordinator item).1
            queue := rest },
          .handled item :: (Coordinator.accounting threads.coordinator item).2.map .sent)) := by
  cases input with
  | accept => exact Or.inr (Or.inl rfl)
  | receive conn message =>
      by_cases reading : threads.readers[conn]? = some .reading
      · refine Or.inr (Or.inr (Or.inl ⟨conn, message, rfl, reading, ?_⟩))
        simp only [step, if_pos reading, (receive_eq threads conn message).1]
      · exact Or.inl (if_neg reading)
  | receiveFailure conn =>
      by_cases reading : threads.readers[conn]? = some .reading
      · refine Or.inr (Or.inr (Or.inr (Or.inl ⟨conn, rfl, reading, ?_⟩)))
        simp only [step, if_pos reading, receiveFailure_eq]
      · exact Or.inl (if_neg reading)
  | account =>
      cases queued : threads.queue with
      | nil => exact Or.inl (by simp [step, account, queued])
      | cons item rest =>
          refine Or.inr (Or.inr (Or.inr (Or.inr ⟨item, rest, rfl, rfl, ?_⟩)))
          simp only [step, account, queued]

/-- What is still being read after the reader of a connection has ended. -/
theorem reading_set_iff {readers : List Reader} {source conn : Nat} :
    (readers.set source .ended)[conn]? = some .reading ↔
      source ≠ conn ∧ readers[conn]? = some .reading := by
  rw [List.getElem?_set]
  by_cases same : source = conn
  · simp [same]
  · simp [same]

/-- A new reader has not ended. -/
theorem ended_of_accept {threads : Threads} {conn : Nat}
    (ended : threads.accept.readers[conn]? = some .ended) :
    threads.readers[conn]? = some .ended := by
  change (threads.readers ++ [.reading])[conn]? = some .ended at ended
  rw [List.getElem?_append] at ended
  split at ended
  · exact ended
  · rw [List.getElem?_singleton] at ended
    split at ended <;> cases ended

/-! ## Readers and connections -/

/-- The list of readers runs along the list of connections. -/
def Aligned (threads : Threads) : Prop :=
  threads.readers.length = threads.coordinator.allConns.length

/-- Handling an item adds no connection and removes none. -/
theorem length_allConns_accounting (c : Coordinator) (item : WorkItem) :
    (Coordinator.accounting c item).1.allConns.length = c.allConns.length := by
  cases item with
  | register conn reg => exact List.length_modify _ _ _
  | event conn e => rfl
  | workerLost conn worker => rfl

theorem Aligned.step {threads : Threads} (aligned : threads.Aligned) (input : ThreadStep) :
    (step threads input).1.Aligned := by
  rcases step_cases threads input with idle | added | ⟨source, message, -, -, received⟩ |
    ⟨source, -, -, failed⟩ | ⟨item, rest, -, -, done⟩
  · rw [idle]
    exact aligned
  · rw [added]
    simpa [Aligned, accept, Coordinator.accept] using aligned
  · rw [received]
    exact aligned
  · rw [failed]
    exact List.length_set.trans aligned
  · rw [done]
    exact aligned.trans (length_allConns_accounting threads.coordinator item).symm

/-! ## Who is registered -/

/-- A new connection is not registered. -/
theorem registered_accept_iff {threads : Threads} {conn : Nat} {worker : WorkerId} :
    threads.accept.Registered conn worker ↔ threads.Registered conn worker := by
  change (threads.coordinator.allConns ++ [({} : Conn)])[conn]? = _ ↔ _
  rw [List.getElem?_append]
  split
  · rfl
  · rename_i outside
    rw [Registered, List.getElem?_eq_none_iff.mpr (Nat.le_of_not_lt outside)]
    simp [List.getElem?_singleton]

/-- A connection becomes registered by its own registration only. -/
theorem registered_of_accounting {c : Coordinator} {item : WorkItem} {conn : Nat} {worker : WorkerId}
    (registered : (Coordinator.accounting c item).1.allConns[conn]? =
      some { worker, registered := true }) :
    c.allConns[conn]? = some { worker, registered := true } ∨ ∃ reg, item = .register conn reg := by
  cases item with
  | register source reg =>
      by_cases same : source = conn
      · exact Or.inr ⟨reg, by rw [same]⟩
      · refine Or.inl ?_
        change (c.allConns.modify source _)[conn]? = _ at registered
        rw [List.getElem?_modify] at registered
        simpa [same] using registered
  | event source e => exact Or.inl registered
  | workerLost source lost => exact Or.inl registered

/-! ## The accounting thread by itself -/

/-- Two coordinators that differ at most in their connections. -/
structure SameCore (left right : Coordinator) : Prop where
  ledger : left.ledger = right.ledger
  authority : left.authority = right.authority
  inFlight : left.inFlight = right.inFlight

theorem SameCore.accountEvent {left right : Coordinator} (same : SameCore left right)
    (e : LedgerEntry) :
    SameCore (left.accountEvent e).1 (right.accountEvent e).1 ∧
      (left.accountEvent e).2 = (right.accountEvent e).2 := by
  rcases left with ⟨leftId, ledger, authority, inFlight, leftConns⟩
  rcases right with ⟨rightId, _, _, _, rightConns⟩
  rcases same with ⟨rfl, rfl, rfl⟩
  exact ⟨⟨rfl, rfl, rfl⟩, rfl⟩

/-- Handling an item does not depend on the connections, except for whom it
tells. -/
theorem SameCore.accounting {left right : Coordinator} (same : SameCore left right)
    (item : WorkItem) :
    SameCore (Coordinator.accounting left item).1 (Coordinator.accounting right item).1 := by
  cases item with
  | event conn e => exact (same.accountEvent e).1
  | register conn reg =>
      rcases left with ⟨leftId, ledger, authority, inFlight, leftConns⟩
      rcases right with ⟨rightId, _, _, _, rightConns⟩
      rcases same with ⟨rfl, rfl, rfl⟩
      exact ⟨rfl, rfl, rfl⟩
  | workerLost conn worker =>
      rcases left with ⟨leftId, ledger, authority, inFlight, leftConns⟩
      rcases right with ⟨rightId, _, _, _, rightConns⟩
      rcases same with ⟨rfl, rfl, rfl⟩
      exact ⟨rfl, rfl, rfl⟩

section Runs

variable (ledgerId : LedgerId) (steps : List ThreadStep)

/-- Whatever the schedule, the coordinator is where the accounting loop alone
takes it on the items that were handled. -/
theorem sameCore_after :
    SameCore (after ledgerId steps).coordinator
      (Coordinator.after ledgerId (handled (seen ledgerId steps))) := by
  let Followed (observed : List Observation) (threads : Threads) : Prop :=
    SameCore threads.coordinator (Coordinator.after ledgerId (handled observed))
  have initial : Followed [] (new ledgerId) := ⟨rfl, rfl, rfl⟩
  refine Machine.run_traced initial ?_ steps
  intro observed threads input same
  simp only [Followed, handled_append]
  rcases step_cases threads input with idle | added | ⟨conn, message, -, -, received⟩ |
    ⟨conn, -, -, failed⟩ | ⟨item, rest, -, -, done⟩
  · simp only [idle, handled_nil, List.append_nil]
    exact same
  · simp only [added, handled_nil, List.append_nil]
    exact ⟨same.ledger, same.authority, same.inFlight⟩
  · simp only [received, handled_received, handled_sent, List.append_nil]
    exact same
  · simp only [failed, handled_nil, List.append_nil]
    exact same
  · simp only [done, handled_cons, handled_sent, Coordinator.after, Machine.run_concat]
    exact same.accounting item

end Runs

end Threads

end InferenceLedger
