import InferenceLedger.Distributed.Threads

namespace InferenceLedger

open Foundation Std

/-!
# Public calls beside the threads

The queue of the coordinator has one consumer, which goes through the
connection of every event and registration without looking whether there is
one.  Each producer has to set it.  The readers do, with their own connection;
the public call `enqueue_event` does not.

Here the threads take their steps with public calls in between.  Whatever the
readers enqueue carries a connection that exists, in every order of steps, so
the accounting thread is safe as long as `enqueue_event` is not called.  Once it
is, enough rounds of the accounting thread bring the event to the front.
-/

/-- A step of the threads, or a public call between two of them. -/
inductive CallStep where
  | thread (step : ThreadStep)
  | enqueueEvent (entry : LedgerEntry)
  | advanceEpoch
  | setRequestAuthority (entry : LedgerEntry)

/-- One round of the accounting thread. -/
def CallStep.round : CallStep := .thread .account

def CallStep.isRound : CallStep → Bool
  | .thread .account => true
  | _ => false

/-- What handling the item dereferences is there: an event and a registration
carry one of the connections.  The loss of a worker is handled without one. -/
def WorkItem.Connected (conns : List Conn) : WorkItem → Prop
  | .register conn _ => conn < conns.length
  | .event conn _ => ∃ index, conn = some index ∧ index < conns.length
  | .workerLost _ _ => True

namespace Threads

/-- `enqueue_event`: a work item of kind `Event`, without a connection. -/
def enqueueEvent (threads : Threads) (e : LedgerEntry) : Threads := threads.enqueue (.event none e)

/-- The threads and the public calls as one machine. -/
def callStep : Machine Threads CallStep (List Observation)
  | threads, .thread input => step threads input
  | threads, .enqueueEvent e => (threads.enqueueEvent e, [])
  | threads, .advanceEpoch =>
      ({ threads with coordinator := threads.coordinator.advanceEpoch }, [])
  | threads, .setRequestAuthority e =>
      ({ threads with coordinator := threads.coordinator.setRequestAuthority e }, [])

/-- The threads after these steps and calls. -/
abbrev afterCalls (ledgerId : LedgerId) (steps : List CallStep) : Threads :=
  callStep.run (new ledgerId) steps

/-- Whenever the accounting thread takes an item from the queue, the item is
connected. -/
def DequeuesConnected (ledgerId : LedgerId) (steps : List CallStep) : Prop :=
  ∀ before after item, steps = before ++ .round :: after →
    (afterCalls ledgerId before).queue.head? = some item →
    item.Connected (afterCalls ledgerId before).coordinator.allConns

/-! ## What the readers enqueue -/

/-- Readers and connections are aligned, and every queued item is connected. -/
structure QueueConnected (threads : Threads) : Prop where
  aligned : threads.Aligned
  connected : ∀ item ∈ threads.queue, item.Connected threads.coordinator.allConns

theorem connected_of_length_le {item : WorkItem} {conns more : List Conn}
    (connected : item.Connected conns) (grown : conns.length ≤ more.length) :
    item.Connected more := by
  cases item with
  | register conn reg => exact Nat.lt_of_lt_of_le connected grown
  | event conn e =>
      rcases connected with ⟨index, same, inside⟩
      exact ⟨index, same, Nat.lt_of_lt_of_le inside grown⟩
  | workerLost conn worker => trivial

/-- The item of a received message carries the connection it came from. -/
theorem connected_itemsOf {conn : Nat} {conns : List Conn} (inside : conn < conns.length)
    (message : Message) : ∀ item ∈ itemsOf conn message, item.Connected conns := by
  intro item member
  cases message with
  | register reg =>
      rw [List.mem_singleton.mp member]
      exact inside
  | eventSubmit e =>
      rw [List.mem_singleton.mp member]
      exact ⟨conn, rfl, inside⟩
  | _ => cases member

theorem connected_lossOf (threads : Threads) (conn : Nat) (conns : List Conn) :
    ∀ item ∈ threads.lossOf conn, item.Connected conns := by
  intro item member
  unfold lossOf at member
  split at member
  · rw [List.mem_singleton.mp member]
    trivial
  · cases member
  · cases member

theorem QueueConnected.step {threads : Threads} (safe : threads.QueueConnected)
    (input : ThreadStep) : (step threads input).1.QueueConnected := by
  refine ⟨safe.aligned.step input, ?_⟩
  rcases step_cases threads input with idle | added | ⟨source, message, -, reading, received⟩ |
    ⟨source, -, -, failed⟩ | ⟨item, rest, -, front, done⟩
  · rw [idle]
    exact safe.connected
  · rw [added]
    intro item member
    apply connected_of_length_le (safe.connected item member)
    simp [Threads.accept, Coordinator.accept]
  · rw [received]
    intro item member
    rcases List.mem_append.mp member with earlier | new
    · exact safe.connected item earlier
    · rcases List.getElem?_eq_some_iff.mp reading with ⟨inside, -⟩
      exact connected_itemsOf (Nat.lt_of_lt_of_eq inside safe.aligned) message item new
  · rw [failed]
    intro item member
    rcases List.mem_append.mp member with earlier | new
    · exact safe.connected item earlier
    · exact connected_lossOf threads source _ item new
  · rw [done]
    intro other member
    have queued : other ∈ threads.queue := by
      rw [front]
      exact List.mem_cons_of_mem _ member
    apply connected_of_length_le (safe.connected other queued)
    exact Nat.le_of_eq (length_allConns_accounting threads.coordinator item).symm

/-- Without `enqueue_event`, every item in the queue is connected. -/
theorem queueConnected_afterCalls (ledgerId : LedgerId) {steps : List CallStep}
    (uncalled : ∀ e, .enqueueEvent e ∉ steps) : (afterCalls ledgerId steps).QueueConnected := by
  induction steps using List.reverseRecOn with
  | nil =>
      refine ⟨rfl, ?_⟩
      intro item member
      cases member
  | append_singleton steps last ih =>
      have safe := ih fun e member => uncalled e (List.mem_append_left _ member)
      rw [afterCalls, Machine.run_concat]
      cases last with
      | thread input => exact safe.step input
      | enqueueEvent e => exact (uncalled e (by simp)).elim
      | advanceEpoch => exact ⟨safe.aligned, safe.connected⟩
      | setRequestAuthority e => exact ⟨safe.aligned, safe.connected⟩

/-! ## An item on its way to the front -/

/-- A step other than a round only adds to the end of the queue. -/
theorem queue_callStep {threads : Threads} {input : CallStep} (other : input.isRound = false) :
    ∃ items, (callStep threads input).1.queue = threads.queue ++ items := by
  cases input with
  | thread input =>
      rcases step_cases threads input with idle | added | ⟨source, message, -, -, received⟩ |
        ⟨source, -, -, failed⟩ | ⟨item, rest, rfl, -, -⟩
      · exact ⟨[], by simp [callStep, idle]⟩
      · exact ⟨[], by simp [callStep, added, Threads.accept]⟩
      · exact ⟨itemsOf source message, by simp [callStep, received]⟩
      · exact ⟨threads.lossOf source, by simp [callStep, failed]⟩
      · cases other
  | enqueueEvent e => exact ⟨[.event none e], rfl⟩
  | advanceEpoch => exact ⟨[], by simp [callStep]⟩
  | setRequestAuthority e => exact ⟨[], by simp [callStep]⟩

/-- An item with so many others before it comes to the front in a run with
more rounds than that. -/
theorem reaches_front {threads : Threads} {item : WorkItem} {ahead : Nat} {steps : List CallStep}
    (queued : threads.queue[ahead]? = some item) (enough : ahead < steps.countP CallStep.isRound) :
    ∃ before after, steps = before ++ .round :: after ∧
      (callStep.run threads before).queue.head? = some item := by
  induction steps generalizing threads ahead with
  | nil => cases enough
  | cons input steps ih =>
      cases round : input.isRound with
      | false =>
          rw [List.countP_cons_of_neg (by simp [round])] at enough
          rcases @queue_callStep threads input round with ⟨items, grown⟩
          have still : (callStep threads input).1.queue[ahead]? = some item := by
            rcases List.getElem?_eq_some_iff.mp queued with ⟨inside, -⟩
            rw [grown, List.getElem?_append_left inside]
            exact queued
          rcases ih still enough with ⟨before, after, split, front⟩
          exact ⟨input :: before, after, by rw [split]; rfl, front⟩
      | true =>
          have same : input = .round := by
            cases input with
            | thread input => cases input <;> first | rfl | cases round
            | _ => cases round
          subst same
          cases queue : threads.queue with
          | nil =>
              rw [queue] at queued
              cases queued
          | cons first rest =>
              rw [queue] at queued
              cases ahead with
              | zero => exact ⟨[], steps, rfl, by rw [Machine.run_nil, queue]; exact queued⟩
              | succ ahead =>
                  rw [List.countP_cons_of_pos round] at enough
                  have moved : (callStep threads .round).1.queue[ahead]? = some item := by
                    simp only [callStep, CallStep.round, step, account, queue]
                    exact queued
                  rcases ih moved (Nat.lt_of_succ_lt_succ enough) with
                    ⟨before, after, split, front⟩
                  exact ⟨.round :: before, after, by rw [split]; rfl, front⟩

/-- However the accounting thread goes on, it never handles an item without a
connection, exactly when `enqueue_event` was not called. -/
theorem dequeues_connected_iff (ledgerId : LedgerId) (steps : List CallStep) :
    (∀ rounds, DequeuesConnected ledgerId (steps ++ List.replicate rounds .round)) ↔
      ∀ e, .enqueueEvent e ∉ steps := by
  constructor
  · intro safe e called
    rcases List.append_of_mem called with ⟨earlier, later, rfl⟩
    -- The event is behind everything that was queued before the call.
    have queued : (afterCalls ledgerId (earlier ++ [.enqueueEvent e])).queue[
        (afterCalls ledgerId earlier).queue.length]? = some (.event none e) := by
      rw [afterCalls, Machine.run_concat]
      simp [callStep, enqueueEvent, enqueue]
    generalize (afterCalls ledgerId earlier).queue.length = ahead at queued
    have enough : ahead <
        (later ++ List.replicate (ahead + 1) CallStep.round).countP CallStep.isRound := by
      rw [List.countP_append, List.countP_replicate]
      simp [CallStep.isRound, CallStep.round]
      omega
    rcases reaches_front queued enough with ⟨before, after, split, front⟩
    rw [← Machine.run_append] at front
    have connected := safe (ahead + 1) (earlier ++ [.enqueueEvent e] ++ before) after _ (by
      rw [List.append_assoc, List.append_assoc, ← split]
      simp) front
    rcases connected with ⟨index, absent, -⟩
    cases absent
  · intro uncalled rounds before after item split front
    have uncalledBefore : ∀ e, .enqueueEvent e ∉ before := by
      intro e called
      have inside : .enqueueEvent e ∈ steps ++ List.replicate rounds .round := by
        rw [split]
        exact List.mem_append_left _ called
      rcases List.mem_append.mp inside with early | late
      · exact uncalled e early
      · cases List.eq_of_mem_replicate late
    have queued : item ∈ (afterCalls ledgerId before).queue := List.mem_of_head? front
    exact (queueConnected_afterCalls ledgerId uncalledBefore).connected item queued

/-- An event from a public call is handled without a connection. -/
theorem enqueued_event_without_connection :
    ¬ ∀ (ledgerId : LedgerId) (steps : List CallStep), DequeuesConnected ledgerId steps := by
  intro claim
  rcases claim {} [.enqueueEvent {}, .round] [.enqueueEvent {}] [] (.event none {}) rfl rfl with
    ⟨index, absent, -⟩
  cases absent

end Threads

end InferenceLedger
