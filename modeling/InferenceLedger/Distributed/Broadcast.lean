import InferenceLedger.Distributed.Threads

namespace InferenceLedger

open Foundation Std

/-!
# Who knows the current authority

A worker learns the epoch and the accounting generation from the answer to its
registration, and from the `Roll` that follows the loss of another worker.  The
broadcast leaves out every connection of the lost *worker*, though only one
connection was lost.  A worker that has already reconnected under the same
identity, and was registered before the loss of its old connection is handled,
is left out with it, and all it submits from then on is stale.

That is the only way to be left behind: `all_informed_iff` says that every live
connection is informed at every point of a run exactly when no loss is handled
while its worker has another live connection.
-/

namespace Threads

/-- The authority that a worker goes by. -/
abbrev AuthorityPair := CoordinatorEpoch × AccountingGeneration

/-- The current authority. -/
def currentPair (threads : Threads) : AuthorityPair :=
  (threads.coordinator.authority.epoch, threads.coordinator.authority.accountingGeneration)

/-- The authority that a message carries to the connection. -/
def pairOf (conn : Nat) (send : Send) : Option AuthorityPair :=
  match send.message with
  | .registerAck ack =>
      if send.conn = some conn then some (ack.epoch, ack.accountingGeneration) else none
  | .roll roll =>
      if send.conn = some conn then some (roll.epoch, roll.accountingGeneration) else none
  | _ => none

def pairOn (conn : Nat) : Observation → Option AuthorityPair
  | .sent send => pairOf conn send
  | .received _ _ => none
  | .handled _ => none

/-- The last authority that was sent on the connection. -/
def lastPair (conn : Nat) (observed : List Observation) : Option AuthorityPair :=
  latest (pairOn conn) observed

/-- Every registered connection whose reader has not failed was last told the
current authority. -/
def AllInformed (ledgerId : LedgerId) (steps : List ThreadStep) : Prop :=
  ∀ conn worker, (after ledgerId steps).Registered conn worker →
    (after ledgerId steps).readers[conn]? = some .reading →
    lastPair conn (seen ledgerId steps) = some (after ledgerId steps).currentPair

/-- If the next item is the loss of a worker, that worker has no live
connection. -/
def LossSparesLive (threads : Threads) : Prop :=
  ∀ lost worker rest, threads.queue = .workerLost lost worker :: rest →
    ∀ conn, threads.Registered conn worker → threads.readers[conn]? ≠ some .reading

/-! ## What one item tells whom -/

section OneItem

variable (conn : Nat)

theorem lastPair_sent (sends : List Send) (observed : List Observation) :
    lastPair conn (observed ++ sends.map .sent) =
      (latest (pairOf conn) sends).or (lastPair conn observed) := by
  rw [lastPair, latest_append, latest, List.filterMap_map]
  rfl

theorem mem_rollTargets_iff (c : Coordinator) (worker : WorkerId) :
    conn ∈ c.rollTargets worker ↔
      ∃ other, c.allConns[conn]? = some { worker := other, registered := true } ∧
        other ≠ worker := by
  rw [Coordinator.rollTargets, List.mem_filter, List.mem_range]
  constructor
  · rintro ⟨-, chosen⟩
    cases found : c.allConns[conn]? with
    | none =>
        rw [found] at chosen
        cases chosen
    | some entry =>
        rw [found] at chosen
        rcases Bool.and_eq_true_iff.mp chosen with ⟨registered, different⟩
        rcases entry with ⟨other, _⟩
        cases registered
        exact ⟨other, rfl, bne_iff_ne.mp different⟩
  · rintro ⟨other, found, different⟩
    rcases List.getElem?_eq_some_iff.mp found with ⟨inside, -⟩
    refine ⟨inside, ?_⟩
    rw [found]
    simp [different]

/-- A loss tells the new authority to the registered connections of the other
workers, and to no one else. -/
theorem latest_pairOf_workerLost (c : Coordinator) (worker : WorkerId) :
    latest (pairOf conn) (c.handleWorkerLost worker).2 =
      if conn ∈ c.rollTargets worker then
        some ((c.handleWorkerLost worker).1.authority.epoch,
          (c.handleWorkerLost worker).1.authority.accountingGeneration)
      else none := by
  by_cases target : conn ∈ c.rollTargets worker
  · rw [if_pos target]
    refine latest_eq_of_unique ?_ (List.mem_map.mpr ⟨conn, target, rfl⟩) (if_pos rfl)
    intro send member other selected
    rcases List.mem_map.mp member with ⟨index, -, rfl⟩
    simp only [pairOf] at selected
    split at selected
    · exact (Option.some.inj selected).symm
    · cases selected
  · rw [if_neg target, latest_eq_none_iff]
    intro send member
    rcases List.mem_map.mp member with ⟨index, chosen, rfl⟩
    have different : index ≠ conn := by
      rintro rfl
      exact target chosen
    simp [pairOf, different]

end OneItem

/-! ## One step -/

theorem aligned_after (ledgerId : LedgerId) (steps : List ThreadStep) :
    (after ledgerId steps).Aligned := by
  have initial : (new ledgerId).Aligned := rfl
  exact Machine.run_invariant (fun _ input aligned => aligned.step input) initial steps

/-- Every registered connection that is being read was last told the current
authority. -/
def Informed (observed : List Observation) (threads : Threads) : Prop :=
  ∀ conn worker, threads.Registered conn worker → threads.readers[conn]? = some .reading →
    lastPair conn observed = some threads.currentPair

section OneStep

variable {threads : Threads} {observed : List Observation}

theorem Informed.accept (informed : Informed observed threads)
    (aligned : threads.Aligned) : Informed observed threads.accept := by
  intro conn worker registered reading
  have before := registered_accept_iff.mp registered
  rcases List.getElem?_eq_some_iff.mp before with ⟨old, -⟩
  change (threads.readers ++ [.reading])[conn]? = some .reading at reading
  rw [List.getElem?_append_left (Nat.lt_of_lt_of_eq old aligned.symm)] at reading
  exact informed conn worker before reading

theorem lastPair_received (conn source : Nat) (message : Message) :
    lastPair conn (observed ++
      .received source message :: (threads.receive source message).2.map .sent) =
      lastPair conn observed := by
  rw [← List.singleton_append, ← List.append_assoc, lastPair_sent, lastPair, latest_append]
  have pings : latest (pairOf conn) (threads.receive source message).2 = none := by
    rw [latest_eq_none_iff]
    intro send member
    rw [(receive_eq threads source message).2 send member]
    rfl
  rw [pings]
  rfl

theorem lastPair_handled (conn : Nat) (item : WorkItem) (sends : List Send) :
    lastPair conn (observed ++ .handled item :: sends.map .sent) =
      (latest (pairOf conn) sends).or (lastPair conn observed) := by
  rw [← List.singleton_append, ← List.append_assoc, lastPair_sent]
  congr 1
  rw [lastPair, latest_append]
  rfl

/-- Handling an item keeps every live connection informed, as long as a loss
finds no live connection of its worker. -/
theorem Informed.account (informed : Informed observed threads) (spares : LossSparesLive threads)
    {item : WorkItem} {rest : List WorkItem} (front : threads.queue = item :: rest) :
    Informed (observed ++ .handled item ::
        (Coordinator.accounting threads.coordinator item).2.map .sent)
      { threads with
        coordinator := (Coordinator.accounting threads.coordinator item).1
        queue := rest } := by
  intro conn worker registered reading
  rw [lastPair_handled]
  cases item with
  | register source reg =>
      by_cases same : source = conn
      · have told : latest (pairOf conn)
            (Coordinator.accounting threads.coordinator (.register source reg)).2 =
            some threads.currentPair := by
          change latest (pairOf conn) [_] = _
          rw [latest_singleton]
          exact if_pos (congrArg some same)
        rw [told]
        rfl
      · have silent : latest (pairOf conn)
            (Coordinator.accounting threads.coordinator (.register source reg)).2 = none := by
          change latest (pairOf conn) [_] = _
          rw [latest_singleton]
          exact if_neg fun equal => same (Option.some.inj equal)
        rw [silent]
        rcases registered_of_accounting registered with before | ⟨other, equal⟩
        · exact informed conn worker before reading
        · cases equal
          exact (same rfl).elim
  | event source e =>
      have pair : ((threads.coordinator.accountEvent e).1.authority.epoch,
          (threads.coordinator.accountEvent e).1.authority.accountingGeneration) =
          threads.currentPair := by
        rcases threads.coordinator.authorityFor_fences e with ⟨epoch, generation, -⟩
        exact Prod.ext epoch generation
      exact (informed conn worker registered reading).trans (congrArg some pair.symm)
  | workerLost source lost =>
      have different : worker ≠ lost := by
        rintro rfl
        exact spares source worker rest front conn registered reading
      have target : conn ∈ threads.coordinator.rollTargets lost :=
        (mem_rollTargets_iff conn _ lost).mpr ⟨worker, registered, different⟩
      have told := latest_pairOf_workerLost conn threads.coordinator lost
      rw [if_pos target] at told
      change (latest (pairOf conn) (threads.coordinator.handleWorkerLost lost).2).or _ = _
      rw [told]
      rfl

/-- A loss advances the authority and tells nothing to the connections of the
lost worker. -/
theorem left_behind {conn lost : Nat} {worker : WorkerId} {rest : List WorkItem}
    (registered : threads.Registered conn worker)
    (before : lastPair conn observed = some threads.currentPair) :
    lastPair conn (observed ++ .handled (.workerLost lost worker) ::
        (threads.coordinator.handleWorkerLost worker).2.map .sent) ≠
      some (currentPair
        { threads with
          coordinator := (threads.coordinator.handleWorkerLost worker).1
          queue := rest }) := by
  have skipped : conn ∉ threads.coordinator.rollTargets worker := by
    rw [mem_rollTargets_iff]
    rintro ⟨other, found, different⟩
    rw [registered] at found
    cases found
    exact different rfl
  rw [lastPair_handled, latest_pairOf_workerLost, if_neg skipped, Option.none_or, before]
  intro same
  have epochs : threads.coordinator.authority.epoch =
      threads.coordinator.authority.epoch.next := congrArg Prod.fst (Option.some.inj same)
  have values := congrArg Generation.value epochs
  simp [Generation.next] at values

/-- What the run has to meet at a step: the two lists are aligned, and a loss
that is handled spares the live connections. -/
def Spares (threads : Threads) (input : ThreadStep) : Prop :=
  threads.readers.length = threads.coordinator.allConns.length ∧
    (input = .account → LossSparesLive threads)

theorem Informed.step (informed : Informed observed threads) {input : ThreadStep}
    (spares : Spares threads input) :
    Informed (observed ++ (step threads input).2) (step threads input).1 := by
  rcases step_cases threads input with idle | added | ⟨source, message, -, -, received⟩ |
    ⟨source, -, -, failed⟩ | ⟨item, rest, account, front, done⟩
  · simp only [idle, List.append_nil]
    exact informed
  · simp only [added, List.append_nil]
    exact informed.accept spares.1
  · simp only [received]
    intro conn worker registered reading
    rw [lastPair_received]
    exact informed conn worker registered reading
  · simp only [failed, List.append_nil]
    intro conn worker registered reading
    exact informed conn worker registered (reading_set_iff.mp reading).2
  · simp only [done]
    exact informed.account (spares.2 account) front

end OneStep

/-! ## Whole runs -/

theorem informed_after {ledgerId : LedgerId} {steps : List ThreadStep}
    (spares : ∀ before later, steps = before ++ .account :: later →
      LossSparesLive (after ledgerId before)) :
    Informed (seen ledgerId steps) (after ledgerId steps) := by
  have initial : Informed [] (new ledgerId) := by
    intro conn worker registered
    cases registered
  have met : ∀ before input later, steps = before ++ input :: later →
      Spares (after ledgerId before) input := by
    rintro before input later split
    refine ⟨aligned_after ledgerId before, ?_⟩
    rintro rfl
    exact spares before later split
  exact Machine.run_traced_of_steps initial
    (fun _ _ _ spares informed => informed.step spares) met

/-- Every live connection is informed at every point of a run exactly when no
loss is handled while its worker has a live connection. -/
theorem all_informed_iff (ledgerId : LedgerId) (steps : List ThreadStep) :
    (∀ before, before <+: steps → AllInformed ledgerId before) ↔
      ∀ before later, steps = before ++ .account :: later →
        LossSparesLive (after ledgerId before) := by
  constructor
  · intro informed before later split lost worker rest front conn registered reading
    have now := informed before ⟨.account :: later, split.symm⟩ conn worker registered reading
    have next := informed (before ++ [.account]) ⟨later, by rw [split]; simp⟩
    have handled : step (after ledgerId before) .account =
        ({ after ledgerId before with
            coordinator := ((after ledgerId before).coordinator.handleWorkerLost worker).1
            queue := rest },
          .handled (.workerLost lost worker) ::
            ((after ledgerId before).coordinator.handleWorkerLost worker).2.map .sent) := by
      simp only [step, account, front]
      rfl
    rw [AllInformed, seen, after, Machine.trace_concat, Machine.run_concat, handled] at next
    exact left_behind registered now (next conn worker registered reading)
  · rintro spares before ⟨later, rfl⟩
    refine informed_after fun first rest split => ?_
    exact spares first (rest ++ later) (moment_append split later)

/-- A worker reconnects with a new boot, and registers before the loss of its
old connection is handled. -/
def reconnected : List ThreadStep :=
  [.accept, .accept,
    .receive 0 (.register { worker := ⟨0, 1⟩, boot := ⟨0, 2⟩ }), .account,
    .receive 1 (.register { worker := ⟨0, 1⟩, boot := ⟨0, 3⟩ }), .account,
    .receiveFailure 0, .account]

/-- The new connection is live and registered, and was last told the authority
from before the loss. -/
theorem reconnected_not_informed :
    ¬ ∀ (ledgerId : LedgerId) (steps : List ThreadStep), AllInformed ledgerId steps := by
  intro informed
  have registered : (after {} reconnected).Registered 1 ⟨0, 1⟩ := by decide +kernel
  have reading : (after {} reconnected).readers[1]? = some .reading := by decide +kernel
  have told : lastPair 1 (seen {} reconnected) = some (⟨1⟩, ⟨1⟩) := by decide +kernel
  have current : (after {} reconnected).currentPair = (⟨2⟩, ⟨2⟩) := by decide +kernel
  have known := informed {} reconnected 1 ⟨0, 1⟩ registered reading
  rw [told, current] at known
  exact absurd known (by decide)

end Threads

end InferenceLedger
