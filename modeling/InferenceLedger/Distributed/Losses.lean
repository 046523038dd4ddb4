import InferenceLedger.Distributed.Acknowledgements

namespace InferenceLedger

open Foundation Std

/-!
# Whether a loss is noticed

The reader of a connection reports the loss of its worker only if it finds the
connection registered when the receive fails.  The flag is set by the
accounting thread, when it handles the registration.  A worker that registers,
submits and disconnects before the accounting thread gets to its registration is
therefore never reported as lost: the connection becomes registered after its
reader has ended, and the requests that it started stay in flight.

If no registration of a connection is pending when its reader fails, every loss
is handled, and it is handled after everything that the connection submitted.
-/

namespace Threads

/-- The loss of the connection was handled after every event that it submitted,
and whatever was in flight then is rolled, unless it was started again. -/
def LossNoticed (ledgerId : LedgerId) (steps : List ThreadStep) (conn : Nat) : Prop :=
  ∃ before worker later,
    handled (seen ledgerId steps) = before ++ .workerLost conn worker :: later ∧
    submissions conn (seen ledgerId steps) = eventsOn conn before ∧
    ∀ request ∈ (Coordinator.after ledgerId before).inFlight,
      (after ledgerId steps).coordinator.authority.requestRolled[request]? = some true ∨
        Coordinator.lastStart request later ≠ none

/-- With nothing left in the queue, the loss of every registered connection
whose reader has ended was noticed. -/
def LossesNoticed (ledgerId : LedgerId) (steps : List ThreadStep) : Prop :=
  ∀ conn worker, (after ledgerId steps).readers[conn]? = some .ended →
    (after ledgerId steps).queue = [] → (after ledgerId steps).Registered conn worker →
    LossNoticed ledgerId steps conn

/-- The connection is registered, or no registration of it is pending. -/
def NotPending (threads : Threads) (conn : Nat) : Prop :=
  (∃ worker, threads.Registered conn worker) ∨ ∀ reg, .register conn reg ∉ threads.queue

/-- What is known of a connection whose reader has ended: its loss is in the
queue or has been handled, behind all its events, or it will never be
registered. -/
def Reported (conn : Nat) (observed : List Observation) (threads : Threads) : Prop :=
  threads.readers[conn]? = some .ended →
    (∃ before worker later,
      handled observed ++ threads.queue = before ++ .workerLost conn worker :: later ∧
      eventsOn conn later = []) ∨
    ((∀ worker, ¬ threads.Registered conn worker) ∧ ∀ reg, .register conn reg ∉ threads.queue)

/-! ## One step -/

section OneStep

variable {threads : Threads} {observed : List Observation} {conn : Nat}

theorem Reported.accept (reported : Reported conn observed threads) :
    Reported conn observed threads.accept := by
  intro ended
  rcases reported (ended_of_accept ended) with lost | ⟨unregistered, silent⟩
  · exact Or.inl lost
  · exact Or.inr ⟨fun worker registered =>
      unregistered worker (registered_accept_iff.mp registered), silent⟩

/-- More items in the queue do no harm when they are no events and no
registrations of the connection. -/
theorem Reported.enqueue (reported : Reported conn observed threads) {items : List WorkItem}
    (events : eventsOn conn items = []) (registrations : ∀ reg, .register conn reg ∉ items) :
    Reported conn observed { threads with queue := threads.queue ++ items } := by
  intro ended
  rcases reported ended with ⟨before, worker, later, split, quiet⟩ | ⟨unregistered, silent⟩
  · refine Or.inl ⟨before, worker, later ++ items, ?_, ?_⟩
    · rw [← List.append_assoc, split, List.append_assoc, List.cons_append]
    · rw [eventsOn_append, quiet, events]
      rfl
  · refine Or.inr ⟨unregistered, fun reg member => ?_⟩
    rcases List.mem_append.mp member with old | new
    · exact silent reg old
    · exact registrations reg new

/-- The items of a message that came on another connection. -/
theorem itemsOf_other {source : Nat} (other : source ≠ conn) (message : Message) :
    eventsOn conn (itemsOf source message) = [] ∧
      ∀ reg, .register conn reg ∉ itemsOf source message := by
  cases message with
  | register reg => simp [itemsOf, eventsOn, eventOn, Ne.symm other]
  | eventSubmit e => simp [itemsOf, eventsOn, eventOn, other]
  | _ => exact ⟨rfl, fun _ member => by cases member⟩

theorem register_not_mem_lossOf (source : Nat) (reg : RegisterMsg) :
    .register conn reg ∉ threads.lossOf source := by
  unfold lossOf
  split <;> simp

/-- The reader of this connection ends. -/
theorem reported_of_failure (settled : NotPending threads conn) :
    Reported conn observed
      { threads with
        readers := threads.readers.set conn .ended
        queue := threads.queue ++ threads.lossOf conn } := by
  intro _
  by_cases registered : ∃ worker, threads.Registered conn worker
  · rcases registered with ⟨worker, registered⟩
    refine Or.inl ⟨handled observed ++ threads.queue, worker, [], ?_, rfl⟩
    rw [lossOf_of_registered registered, List.append_assoc]
  · have unregistered : ∀ worker, ¬ threads.Registered conn worker := not_exists.mp registered
    refine Or.inr ⟨unregistered, ?_⟩
    rw [lossOf_of_not_registered unregistered, List.append_nil]
    exact settled.resolve_left registered

/-- The reader of another connection ends. -/
theorem Reported.failure (reported : Reported conn observed threads) {source : Nat}
    (other : source ≠ conn) :
    Reported conn observed
      { threads with
        readers := threads.readers.set source .ended
        queue := threads.queue ++ threads.lossOf source } := by
  intro ended
  rw [List.getElem?_set_ne other] at ended
  exact reported.enqueue (eventsOn_lossOf conn threads source)
    (register_not_mem_lossOf source) ended

theorem Reported.account (reported : Reported conn observed threads) {item : WorkItem}
    {rest : List WorkItem} (front : threads.queue = item :: rest) :
    Reported conn (observed ++ .handled item ::
        (Coordinator.accounting threads.coordinator item).2.map .sent)
      { threads with
        coordinator := (Coordinator.accounting threads.coordinator item).1
        queue := rest } := by
  intro ended
  rcases reported ended with ⟨before, worker, later, split, quiet⟩ | ⟨unregistered, silent⟩
  · refine Or.inl ⟨before, worker, later, ?_, quiet⟩
    rw [handled_append, handled_cons, handled_sent, List.append_assoc, List.singleton_append,
      ← front]
    exact split
  · rw [front] at silent
    refine Or.inr ⟨fun worker registered => ?_, fun reg member =>
      silent reg (List.mem_cons_of_mem _ member)⟩
    rcases registered_of_accounting registered with before | ⟨reg, rfl⟩
    · exact unregistered worker before
    · exact silent reg List.mem_cons_self

/-- A reader that fails at this step leaves no registration behind. -/
def Settled (threads : Threads) (input : ThreadStep) : Prop :=
  ∀ conn, input = .receiveFailure conn → threads.readers[conn]? = some .reading →
    NotPending threads conn

theorem Reported.step (reported : Reported conn observed threads) {input : ThreadStep}
    (settled : Settled threads input) :
    Reported conn (observed ++ (step threads input).2) (step threads input).1 := by
  rcases step_cases threads input with idle | added | ⟨source, message, -, reading, received⟩ |
    ⟨source, failure, reading, failed⟩ | ⟨item, rest, -, front, done⟩
  · simp only [idle, List.append_nil]
    exact reported
  · simp only [added, List.append_nil]
    exact reported.accept
  · simp only [received]
    intro ended
    have other : source ≠ conn := by
      rintro rfl
      rw [reading] at ended
      cases ended
    rcases itemsOf_other other message with ⟨events, registrations⟩
    have next := reported.enqueue events registrations ended
    simp only [handled_append, handled_received, handled_sent, List.append_nil]
    exact next
  · simp only [failed, List.append_nil]
    by_cases same : source = conn
    · subst same
      exact reported_of_failure (settled source failure reading)
    · exact reported.failure same
  · simp only [done]
    exact reported.account front

end OneStep

/-! ## Whole runs -/

theorem reported_after {ledgerId : LedgerId} {steps : List ThreadStep}
    (settled : ∀ before input later, steps = before ++ input :: later →
      Settled (after ledgerId before) input)
    (conn : Nat) : Reported conn (seen ledgerId steps) (after ledgerId steps) := by
  have initial : Reported conn [] (new ledgerId) := by
    intro ended
    cases ended
  exact Machine.run_traced_of_steps initial
    (fun _ _ _ settled reported => reported.step settled) settled

/-- In every run in which no registration of a connection is pending when its
reader fails, the losses are noticed in every state. -/
theorem losses_noticed (ledgerId : LedgerId) (steps : List ThreadStep)
    (settled : ∀ before conn later, steps = before ++ .receiveFailure conn :: later →
      (after ledgerId before).readers[conn]? = some .reading →
      NotPending (after ledgerId before) conn) :
    ∀ reached, reached <+: steps → LossesNoticed ledgerId reached := by
  rintro reached ⟨further, rfl⟩ conn worker ended empty registered
  have met : ∀ before input later, reached = before ++ input :: later →
      Settled (after ledgerId before) input := by
    rintro before input later split source rfl
    exact settled before source (later ++ further) (moment_append split further)
  have reported := reported_after met conn ended
  rcases reported with ⟨before, lost, later, split, quiet⟩ | ⟨unregistered, -⟩
  · rw [empty, List.append_nil] at split
    refine ⟨before, lost, later, split, ?_, fun request member => ?_⟩
    · rw [submissions_eq, empty, split, eventsOn_append, ← List.singleton_append, eventsOn_append,
        quiet]
      simp [eventsOn, eventOn]
    · by_cases silent : Coordinator.lastStart request later = none
      · refine Or.inl ?_
        rw [(sameCore_after ledgerId reached).authority, Coordinator.rolled_after_iff]
        exact ⟨before, conn, lost, later, split, member, silent⟩
      · exact Or.inr silent
  · exact (unregistered worker registered).elim

/-- A worker registers and starts a request, and both are handled. -/
def openConnection : List ThreadStep :=
  [.accept, .receive 0 (.register { worker := ⟨0, 1⟩, boot := ⟨0, 2⟩ }), .account,
    .receive 0 (.eventSubmit Coordinator.openStart), .account]

/-- The worker then disconnects, and its loss is noticed. -/
theorem losses_noticed_open :
    LossNoticed {} (openConnection ++ [.receiveFailure 0] ++ [.account]) 0 := by
  have settled : ∀ before conn later,
      openConnection ++ [.receiveFailure 0] ++ [.account] = before ++ .receiveFailure conn :: later →
      (after {} before).readers[conn]? = some .reading → NotPending (after {} before) conn := by
    intro before conn later split _
    rcases concat_eq_append_cons_iff.mp split with ⟨-, impossible, -⟩ | ⟨rest, -, cut⟩
    · cases impossible
    rcases concat_eq_append_cons_iff.mp cut with ⟨rfl, same, -⟩ | ⟨earlier, -, first⟩
    · cases same
      exact Or.inl ⟨⟨0, 1⟩, by decide +kernel⟩
    · have member : ThreadStep.receiveFailure conn ∈ openConnection := by simp [first]
      simp [openConnection] at member
  exact losses_noticed {} _ settled _ (List.prefix_refl _) 0 ⟨0, 1⟩ (by decide +kernel)
    (List.isEmpty_iff.mp (by decide +kernel)) (by decide +kernel)

/-- The worker disconnects while its registration is still in the queue. -/
def hastyConnection : List ThreadStep :=
  [.accept, .receive 0 (.register { worker := ⟨0, 1⟩, boot := ⟨0, 2⟩ }),
    .receive 0 (.eventSubmit Coordinator.openStart), .receiveFailure 0, .account, .account]

/-- The connection ends up registered, with nothing left in the queue, and no
loss was ever handled. -/
theorem hasty_loss_unnoticed :
    ¬ ∀ (ledgerId : LedgerId) (steps : List ThreadStep), LossesNoticed ledgerId steps := by
  intro noticed
  have empty : (after {} hastyConnection).queue.isEmpty = true := by decide +kernel
  rcases noticed {} hastyConnection 0 ⟨0, 1⟩ (by decide +kernel) (List.isEmpty_iff.mp empty)
    (by decide +kernel) with ⟨before, worker, later, split, -⟩
  have none : Coordinator.lostCount (handled (seen {} hastyConnection)) = 0 := by decide +kernel
  rw [split, Coordinator.lostCount_append, Coordinator.lostCount] at none
  omega

end Threads

end InferenceLedger
