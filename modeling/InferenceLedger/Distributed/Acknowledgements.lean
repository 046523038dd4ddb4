import InferenceLedger.Distributed.Threads

namespace InferenceLedger

open Foundation Std

/-!
# Acknowledgements by position

A worker matches the acknowledgements that it receives to its submissions by
their order alone.  Two facts make that right for every schedule.  The queue
hands the submissions of a connection to the accounting thread in the order in
which they were received, whatever other connections put between them.  And the
accounting thread answers each event that it handles once, on the connection
from which the event came, with the status of that append.
-/

namespace Threads

/-- The entry that an observation shows as submitted on the connection. -/
def submittedOn (conn : Nat) : Observation → Option LedgerEntry
  | .received source (.eventSubmit entry) => if source = conn then some entry else none
  | _ => none

/-- The acknowledgement that a message carries to the connection. -/
def ackOf (conn : Nat) (send : Send) : Option EventAckMsg :=
  match send.message with
  | .eventAck ack => if send.conn = some conn then some ack else none
  | _ => none

def ackOn (conn : Nat) : Observation → Option EventAckMsg
  | .sent send => ackOf conn send
  | .received _ _ => none
  | .handled _ => none

/-- The entry of a work item that came from the connection. -/
def eventOn (conn : Nat) : WorkItem → Option LedgerEntry
  | .event source entry => if source = some conn then some entry else none
  | .register _ _ => none
  | .workerLost _ _ => none

/-- The entries submitted on a connection, in the order received. -/
def submissions (conn : Nat) (observed : List Observation) : List LedgerEntry :=
  observed.filterMap (submittedOn conn)

/-- The acknowledgements sent on a connection, in the order sent. -/
def acks (conn : Nat) (observed : List Observation) : List EventAckMsg :=
  observed.filterMap (ackOn conn)

/-- The events of a connection among work items. -/
def eventsOn (conn : Nat) (items : List WorkItem) : List LedgerEntry :=
  items.filterMap (eventOn conn)

/-- The answer to an event, given what the ledger returned. -/
def acknowledgement (result : AppendResult) : EventAckMsg :=
  { status := result.status.value, reason := .ofString result.reason }

section OneStep

variable (conn : Nat)

theorem submissions_append (first second : List Observation) :
    submissions conn (first ++ second) = submissions conn first ++ submissions conn second :=
  List.filterMap_append

theorem acks_append (first second : List Observation) :
    acks conn (first ++ second) = acks conn first ++ acks conn second := List.filterMap_append

theorem eventsOn_append (first second : List WorkItem) :
    eventsOn conn (first ++ second) = eventsOn conn first ++ eventsOn conn second :=
  List.filterMap_append

theorem submissions_sent (sends : List Send) : submissions conn (sends.map .sent) = [] := by
  simp [submissions, submittedOn, List.filterMap_map]

theorem acks_sent (sends : List Send) :
    acks conn (sends.map .sent) = sends.filterMap (ackOf conn) := by
  rw [acks, List.filterMap_map]
  rfl

/-- What a message adds to the submissions is what it adds to the queue. -/
theorem submissions_received (source : Nat) (message : Message) (sends : List Send) :
    submissions conn (.received source message :: sends.map .sent) =
      eventsOn conn (itemsOf source message) := by
  have rest := submissions_sent conn sends
  unfold submissions at rest
  cases message with
  | eventSubmit entry =>
      by_cases same : source = conn
      · simp [submissions, submittedOn, rest, eventsOn, eventOn, itemsOf, same]
      · simp [submissions, submittedOn, rest, eventsOn, eventOn, itemsOf, same]
  | _ => exact rest

/-- Losses are no events. -/
theorem eventsOn_lossOf (threads : Threads) (source : Nat) :
    eventsOn conn (threads.lossOf source) = [] := by
  unfold lossOf
  split <;> rfl

/-- The accounting thread answers the events of the connection, and only those,
once each. -/
theorem acks_accounting (c : Coordinator) (item : WorkItem) :
    (Coordinator.accounting c item).2.filterMap (ackOf conn) =
      (eventsOn conn [item]).map (fun e => acknowledgement (c.accountEvent e).2) := by
  cases item with
  | register source reg => rfl
  | event source e =>
      change [(⟨source, .eventAck (acknowledgement (c.accountEvent e).2)⟩ : Send)].filterMap
        (ackOf conn) = _
      by_cases same : source = some conn
      · simp [ackOf, eventsOn, eventOn, same]
      · simp [ackOf, eventsOn, eventOn, same]
  | workerLost source worker =>
      apply List.filterMap_eq_nil_iff.mpr
      intro send member
      rcases List.mem_map.mp member with ⟨index, -, rfl⟩
      rfl

end OneStep

/-! ## The answers of the accounting thread alone -/

section Answers

variable (ledgerId : LedgerId) (conn : Nat)

/-- The acknowledgements that the accounting loop produces on these items. -/
def answers (items : List WorkItem) : List EventAckMsg :=
  (Coordinator.accounting.trace (.new ledgerId) items).filterMap (ackOf conn)

theorem answers_concat (items : List WorkItem) (item : WorkItem) :
    answers ledgerId conn (items ++ [item]) = answers ledgerId conn items ++
      (eventsOn conn [item]).map
        (fun e => acknowledgement ((Coordinator.after ledgerId items).accountEvent e).2) := by
  rw [answers, Machine.trace_concat, List.filterMap_append, acks_accounting]
  rfl

theorem length_answers (items : List WorkItem) :
    (answers ledgerId conn items).length = (eventsOn conn items).length := by
  induction items using List.reverseRecOn with
  | nil => rfl
  | append_singleton items item ih =>
      rw [answers_concat, eventsOn_append, List.length_append, List.length_append, List.length_map, ih]

/-- The answer to an event stands where the event stands among the events of
its connection. -/
theorem answers_moment {items before later : List WorkItem} {e : LedgerEntry}
    (split : items = before ++ .event (some conn) e :: later) :
    (answers ledgerId conn items)[(eventsOn conn before).length]? =
      some (acknowledgement ((Coordinator.after ledgerId before).accountEvent e).2) := by
  rw [split, answers, Machine.trace_append, Machine.trace_cons, List.filterMap_append,
    List.filterMap_append, acks_accounting]
  have first := length_answers ledgerId conn before
  rw [answers] at first
  rw [List.getElem?_append_right (Nat.le_of_eq first), first, Nat.sub_self]
  simp [eventsOn, eventOn]

end Answers

/-! ## Every schedule -/

section Runs

variable (ledgerId : LedgerId) (steps : List ThreadStep) (conn : Nat)

/-- The queue keeps the submissions of a connection in order, and neither loses
nor repeats any. -/
theorem submissions_eq :
    submissions conn (seen ledgerId steps) =
      eventsOn conn (handled (seen ledgerId steps)) ++
        eventsOn conn (after ledgerId steps).queue := by
  let Queued (observed : List Observation) (threads : Threads) : Prop :=
    submissions conn observed = eventsOn conn (handled observed) ++ eventsOn conn threads.queue
  have initial : Queued [] (new ledgerId) := rfl
  refine Machine.run_traced initial ?_ steps
  intro observed threads input queued
  simp only [Queued, submissions_append, handled_append]
  rcases step_cases threads input with idle | added | ⟨source, message, -, -, received⟩ |
    ⟨source, -, -, failed⟩ | ⟨item, rest, -, front, done⟩
  · simp only [idle, handled_nil, List.append_nil]
    exact (List.append_nil _).trans queued
  · simp only [added, handled_nil, List.append_nil]
    exact (List.append_nil _).trans queued
  · simp only [received, handled_received, handled_sent, List.append_nil, submissions_received,
      eventsOn_append]
    rw [queued, List.append_assoc]
  · simp only [failed, handled_nil, List.append_nil, eventsOn_append, eventsOn_lossOf]
    exact (List.append_nil _).trans queued
  · simp only [done, handled_cons, handled_sent, eventsOn_append]
    have quiet : submissions conn
        (.handled item :: (Coordinator.accounting threads.coordinator item).2.map .sent) = [] :=
      submissions_sent conn _
    rw [quiet, List.append_nil, queued, front, ← List.singleton_append, eventsOn_append,
      List.append_assoc]

/-- The acknowledgements on a connection are the answers of the accounting
loop to the items that were handled. -/
theorem acks_eq_answers :
    acks conn (seen ledgerId steps) = answers ledgerId conn (handled (seen ledgerId steps)) := by
  induction steps using List.reverseRecOn with
  | nil => rfl
  | append_singleton steps input ih =>
      rw [seen, Machine.trace_concat, acks_append, handled_append]
      rcases step_cases (after ledgerId steps) input with idle | added |
        ⟨source, message, -, -, received⟩ | ⟨source, -, -, failed⟩ | ⟨item, rest, -, -, done⟩
      · simp only [idle, handled_nil, List.append_nil]
        exact (List.append_nil _).trans ih
      · simp only [added, handled_nil, List.append_nil]
        exact (List.append_nil _).trans ih
      · simp only [received, handled_received, handled_sent, List.append_nil]
        have quiet : acks conn (.received source message ::
            ((after ledgerId steps).receive source message).2.map .sent) = [] := by
          change acks conn (((after ledgerId steps).receive source message).2.map .sent) = []
          rw [acks_sent, List.filterMap_eq_nil_iff]
          intro send member
          rw [(receive_eq (after ledgerId steps) source message).2 send member]
          rfl
        rw [quiet, List.append_nil]
        exact ih
      · simp only [failed, handled_nil, List.append_nil]
        exact (List.append_nil _).trans ih
      · simp only [done, handled_cons, handled_sent, answers_concat]
        have answered : acks conn (.handled item ::
            (Coordinator.accounting (after ledgerId steps).coordinator item).2.map .sent) =
            (eventsOn conn [item]).map (fun e =>
              acknowledgement ((after ledgerId steps).coordinator.accountEvent e).2) :=
          (acks_sent conn _).trans (acks_accounting conn _ item)
        have core := sameCore_after ledgerId steps
        simp only [(core.accountEvent _).2] at answered
        rw [answered]
        exact congrArg (· ++ _) ih

end Runs

/-- In-order, exactly-once acknowledgement.  For every schedule, the events of a
connection that were handled are the first of its submissions; there is one
acknowledgement for each of them; and the acknowledgement of an event has the
position of its submission and the status that the ledger returned for it. -/
theorem acks_in_order (ledgerId : LedgerId) (steps : List ThreadStep) (conn : Nat) :
    submissions conn (seen ledgerId steps) =
      eventsOn conn (handled (seen ledgerId steps)) ++
        eventsOn conn (after ledgerId steps).queue ∧
    (acks conn (seen ledgerId steps)).length =
      (eventsOn conn (handled (seen ledgerId steps))).length ∧
    ∀ before e later, handled (seen ledgerId steps) = before ++ .event (some conn) e :: later →
      (submissions conn (seen ledgerId steps))[(eventsOn conn before).length]? = some e ∧
      (acks conn (seen ledgerId steps))[(eventsOn conn before).length]? =
        some (acknowledgement ((Coordinator.after ledgerId before).accountEvent e).2) := by
  refine ⟨submissions_eq ledgerId steps conn, ?_, ?_⟩
  · rw [acks_eq_answers, length_answers]
  · intro before e later split
    constructor
    · rw [submissions_eq, split, eventsOn_append, List.append_assoc,
        List.getElem?_append_right (Nat.le_refl _), Nat.sub_self]
      simp [eventsOn, eventOn]
    · rw [acks_eq_answers]
      exact answers_moment ledgerId conn split

end Threads

end InferenceLedger
