import InferenceLedger.Distributed.PublicCalls
import InferenceLedger.Distributed.Losses

namespace InferenceLedger

open Foundation Std

/-!
# How many workers are connected

`connected_workers` counts the connections whose flag `registered` is set.  The
accounting thread sets the flag when it handles a registration, and nothing ever
clears it: the reader of a lost connection ends, its loss is handled, and the
connection stays in the list with its flag.

Once the queue is empty, the count is therefore the number of connections that
ever registered.  It is the number of those that are still being read exactly
as long as no receive has failed on a connection that sent a registration.
-/

section Positions

variable {α : Type} (property : α → Bool) (items : List α)

/-- The positions in a list at which a property holds. -/
def positions : Set Nat := {index : Nat | (items[index]?).any property = true}

theorem positions_subset : positions property items ⊆ {index | index < items.length} := by
  intro index found
  by_contra outside
  rw [positions, Set.mem_ofPred_eq, List.getElem?_eq_none (Nat.le_of_not_lt outside)] at found
  cases found

theorem positions_finite : (positions property items).Finite :=
  (Set.finite_lt_nat items.length).subset (positions_subset property items)

theorem positions_concat (last : α) :
    positions property (items ++ [last]) =
      if property last then insert items.length (positions property items)
      else positions property items := by
  have added : ∀ index, index ∈ positions property (items ++ [last]) ↔
      (index = items.length ∧ property last) ∨ index ∈ positions property items := by
    intro index
    rcases Nat.lt_trichotomy index items.length with inside | rfl | outside
    · simp [positions, List.getElem?_append_left inside, Nat.ne_of_lt inside]
    · simp [positions]
    · simp [positions, List.getElem?_append_right (Nat.le_of_lt outside), Nat.ne_of_gt outside,
        Nat.sub_ne_zero_of_lt outside, Nat.le_of_lt outside]
  ext index
  rw [added]
  by_cases holds : property last <;> simp [holds]

/-- Counting the elements with a property counts their positions. -/
theorem countP_eq_ncard_positions : items.countP property = (positions property items).ncard := by
  induction items using List.reverseRecOn with
  | nil => simp [positions]
  | append_singleton items last ih =>
      have fresh : items.length ∉ positions property items := by simp [positions]
      rw [List.countP_append, positions_concat, ih]
      by_cases holds : property last
      · rw [if_pos holds, Set.ncard_insert_of_notMem fresh (positions_finite property items)]
        simp [holds]
      · rw [if_neg holds]
        simp [holds]

end Positions

namespace Threads

/-- The registration of the connection was handled, and its reader has not
ended. -/
def Live (ledgerId : LedgerId) (steps : List ThreadStep) (conn : Nat) : Prop :=
  (∃ reg, .register conn reg ∈ handled (seen ledgerId steps)) ∧
    (after ledgerId steps).readers[conn]? ≠ some .ended

/-- Whenever the queue is empty along these steps, `connected_workers` is the
number of live connections. -/
def LiveCountExact (ledgerId : LedgerId) (steps : List ThreadStep) : Prop :=
  ∀ reached, reached <+: steps → (after ledgerId reached).queue = [] →
    (after ledgerId reached).coordinator.connectedWorkers =
      {conn | Live ledgerId reached conn}.ncard

/-- No receive fails on a connection after a registration was received on it. -/
def KeepsRegistered (ledgerId : LedgerId) (steps : List ThreadStep) : Prop :=
  ∀ before conn later, steps = before ++ .receiveFailure conn :: later →
    (after ledgerId before).readers[conn]? = some .reading →
    ∀ reg, .received conn (.register reg) ∉ seen ledgerId before

/-! ## Registrations on their way -/

/-- A round of the accounting thread shows no received message. -/
theorem received_not_mem_sent {conn : Nat} {message : Message} (sends : List Send) :
    .received conn message ∉ sends.map Observation.sent := by
  intro member
  rcases List.mem_map.mp member with ⟨send, -, same⟩
  cases same

theorem register_mem_itemsOf_iff {conn source : Nat} {reg : RegisterMsg} {message : Message} :
    .register conn reg ∈ itemsOf source message ↔ conn = source ∧ message = .register reg := by
  cases message with
  | register other =>
      simp only [itemsOf, List.mem_singleton, WorkItem.register.injEq, Message.register.injEq]
      rw [@eq_comm _ reg]
  | _ => simp [itemsOf]

/-- The positions of the set flags are the registered connections. -/
theorem mem_positions_iff {threads : Threads} {conn : Nat} :
    conn ∈ positions (fun entry => entry.registered) threads.coordinator.allConns ↔
      ∃ worker, threads.Registered conn worker := by
  simp only [positions, Set.mem_ofPred_eq, Registered]
  cases threads.coordinator.allConns[conn]? with
  | none => simp
  | some entry =>
      rcases entry with ⟨worker, registered⟩
      cases registered <;> simp

/-- Handling an item whose connection exists sets the flag of that connection if
it is a registration, and changes no other flag. -/
theorem registered_accounting_iff {c : Coordinator} {item : WorkItem} (conn : Nat)
    (connected : item.Connected c.allConns) :
    (∃ worker, (Coordinator.accounting c item).1.allConns[conn]? =
        some { worker, registered := true }) ↔
      (∃ worker, c.allConns[conn]? = some { worker, registered := true }) ∨
        ∃ reg, item = .register conn reg := by
  constructor
  · rintro ⟨worker, registered⟩
    rcases registered_of_accounting registered with before | now
    · exact Or.inl ⟨worker, before⟩
    · exact Or.inr now
  · rintro (⟨worker, before⟩ | ⟨reg, rfl⟩)
    · cases item with
      | register source reg =>
          change ∃ worker, (c.allConns.modify source _)[conn]? = _
          by_cases same : source = conn
          · exact ⟨reg.worker, by simp [same, before]⟩
          · exact ⟨worker, by simp [same, before]⟩
      | event source e => exact ⟨worker, before⟩
      | workerLost source lost => exact ⟨worker, before⟩
    · have inside : conn < c.allConns.length := connected
      change ∃ worker, (c.allConns.modify conn _)[conn]? = _
      exact ⟨reg.worker, by simp [inside]⟩

section Runs

variable (ledgerId : LedgerId) (steps : List ThreadStep)

/-- The flag of a connection is set exactly if a registration of it was handled. -/
theorem registered_after_iff (conn : Nat) :
    (∃ worker, (after ledgerId steps).Registered conn worker) ↔
      ∃ reg, .register conn reg ∈ handled (seen ledgerId steps) := by
  let Flagged (observed : List Observation) (threads : Threads) : Prop :=
    threads.QueueConnected ∧ ((∃ worker, threads.Registered conn worker) ↔
      ∃ reg, .register conn reg ∈ handled observed)
  have initial : Flagged [] (new ledgerId) := by
    refine ⟨⟨rfl, fun item member => by cases member⟩, ?_⟩
    simp [Registered, handled, new, Coordinator.new]
  refine (Machine.run_traced initial ?_ steps).2
  rintro observed threads input ⟨safe, flagged⟩
  refine ⟨safe.step input, ?_⟩
  rcases step_cases threads input with idle | added | ⟨source, message, -, -, received⟩ |
    ⟨source, -, -, failed⟩ | ⟨item, rest, -, front, done⟩
  · simp only [idle, List.append_nil]
    exact flagged
  · simp only [added, List.append_nil, registered_accept_iff]
    exact flagged
  · simp only [received, handled_append, handled_received, handled_sent, List.append_nil]
    exact flagged
  · simp only [failed, List.append_nil]
    exact flagged
  · have connected : item.Connected threads.coordinator.allConns :=
      safe.connected item (by rw [front]; exact List.mem_cons_self)
    simp only [done, handled_append, handled_cons, handled_sent, Registered]
    rw [registered_accounting_iff conn connected]
    simp only [List.mem_append, List.mem_singleton, exists_or, @eq_comm _ item]
    exact or_congr_left flagged

/-- The registrations that were received are those that were handled or are in
the queue. -/
theorem received_register_iff (conn : Nat) (reg : RegisterMsg) :
    .received conn (.register reg) ∈ seen ledgerId steps ↔
      .register conn reg ∈ handled (seen ledgerId steps) ++ (after ledgerId steps).queue := by
  let Carried (observed : List Observation) (threads : Threads) : Prop :=
    .received conn (.register reg) ∈ observed ↔ .register conn reg ∈ handled observed ++ threads.queue
  have initial : Carried [] (new ledgerId) := by simp [Carried, handled, new]
  refine Machine.run_traced initial ?_ steps
  intro observed threads input carried
  simp only [Carried] at carried ⊢
  rcases step_cases threads input with idle | added | ⟨source, message, -, -, received⟩ |
    ⟨source, -, -, failed⟩ | ⟨item, rest, -, front, done⟩
  · simp only [idle, List.append_nil]
    exact carried
  · simp only [added, List.append_nil]
    exact carried
  · simp only [received, handled_append, handled_received, handled_sent, List.append_nil]
    rw [← List.append_assoc, List.mem_append, List.mem_append (t := itemsOf source message),
      register_mem_itemsOf_iff, ← carried, List.mem_cons]
    simp [received_not_mem_sent, eq_comm]
  · simp only [failed, List.append_nil]
    rw [← List.append_assoc, List.mem_append (t := threads.lossOf source), ← carried]
    simp [register_not_mem_lossOf]
  · simp only [done, handled_append, handled_cons, handled_sent]
    rw [List.append_assoc, List.singleton_append, ← front, ← carried, List.mem_append]
    simp [received_not_mem_sent]

/-- With an empty queue, `connected_workers` is exact if and only if no
connection whose registration was handled has lost its reader. -/
theorem connectedWorkers_eq_iff :
    (after ledgerId steps).coordinator.connectedWorkers =
        {conn | Live ledgerId steps conn}.ncard ↔
      ∀ conn reg, .register conn reg ∈ handled (seen ledgerId steps) →
        (after ledgerId steps).readers[conn]? ≠ some .ended := by
  let flags := positions (fun entry => entry.registered) (after ledgerId steps).coordinator.allConns
  have counted : (after ledgerId steps).coordinator.connectedWorkers = flags.ncard :=
    countP_eq_ncard_positions _ _
  have flagged : ∀ conn, conn ∈ flags ↔ ∃ reg, .register conn reg ∈ handled (seen ledgerId steps) :=
    fun conn => mem_positions_iff.trans (registered_after_iff ledgerId steps conn)
  have fewer : {conn | Live ledgerId steps conn} ⊆ flags :=
    fun conn live => (flagged conn).mpr live.1
  rw [counted]
  constructor
  · intro same conn reg done
    have all := Set.eq_of_subset_of_ncard_le fewer (Nat.le_of_eq same) (positions_finite _ _)
    have live : conn ∈ {conn | Live ledgerId steps conn} := by
      rw [all]
      exact (flagged conn).mpr ⟨reg, done⟩
    exact live.2
  · intro kept
    congr 1
    ext conn
    constructor
    · intro flag
      rcases (flagged conn).mp flag with ⟨reg, done⟩
      exact ⟨⟨reg, done⟩, kept conn reg done⟩
    · exact fun live => fewer live

end Runs

/-! ## Readers that have ended -/

/-- A reader that has ended does not start again. -/
theorem ended_step {threads : Threads} {conn : Nat} (ended : threads.readers[conn]? = some .ended)
    (input : ThreadStep) : (step threads input).1.readers[conn]? = some .ended := by
  rcases step_cases threads input with idle | added | ⟨source, message, -, -, received⟩ |
    ⟨source, -, -, failed⟩ | ⟨item, rest, -, -, done⟩
  · rw [idle]
    exact ended
  · rw [added]
    rcases List.getElem?_eq_some_iff.mp ended with ⟨inside, -⟩
    exact (List.getElem?_append_left inside).trans ended
  · rw [received]
    exact ended
  · rw [failed]
    change (threads.readers.set source .ended)[conn]? = some .ended
    rw [List.getElem?_set]
    split
    · rename_i same
      rcases List.getElem?_eq_some_iff.mp ended with ⟨inside, -⟩
      rw [same, if_pos inside]
    · exact ended
  · rw [done]
    exact ended

/-- A receive that failed has ended its reader, whatever happened afterwards. -/
theorem ended_of_failure {ledgerId : LedgerId} {before : List ThreadStep} {conn : Nat}
    (reading : (after ledgerId before).readers[conn]? = some .reading) (later : List ThreadStep) :
    (after ledgerId (before ++ .receiveFailure conn :: later)).readers[conn]? = some .ended := by
  have stays : ∀ threads input, threads.readers[conn]? = some .ended →
      (step threads input).1.readers[conn]? = some .ended :=
    fun threads input ended => ended_step ended input
  have ended : (step (after ledgerId before) (.receiveFailure conn)).1.readers[conn]? =
      some .ended := by
    rcases List.getElem?_eq_some_iff.mp reading with ⟨inside, -⟩
    rw [step, if_pos reading, receiveFailure_eq]
    exact List.getElem?_set_self inside
  rw [after, Machine.run_append, Machine.run_cons]
  exact Machine.run_invariant stays ended later

/-- As long as no receive fails on a connection that sent a registration, these
connections are all being read. -/
theorem not_ended_of_keepsRegistered {ledgerId : LedgerId} {steps : List ThreadStep}
    (keeps : KeepsRegistered ledgerId steps) {conn : Nat} {reg : RegisterMsg}
    (sent : .received conn (.register reg) ∈ seen ledgerId steps) :
    (after ledgerId steps).readers[conn]? ≠ some .ended := by
  induction steps using List.reverseRecOn with
  | nil => cases sent
  | append_singleton steps last ih =>
      have earlier : KeepsRegistered ledgerId steps := fun before source later split =>
        keeps before source (later ++ [last]) (moment_append split [last])
      rw [seen, Machine.trace_concat, List.mem_append] at sent
      rw [after, Machine.run_concat]
      rcases step_cases (after ledgerId steps) last with idle | added |
        ⟨source, message, -, reading, received⟩ | ⟨source, rfl, reading, failed⟩ |
        ⟨item, rest, -, -, done⟩
      · rw [idle] at sent ⊢
        exact ih earlier (sent.resolve_right List.not_mem_nil)
      · rw [added] at sent ⊢
        intro ended
        exact ih earlier (sent.resolve_right List.not_mem_nil) (ended_of_accept ended)
      · rw [received] at sent ⊢
        rcases sent with old | new
        · exact ih earlier old
        · rcases List.mem_cons.mp new with same | reply
          · cases same
            change (after ledgerId steps).readers[conn]? ≠ _
            rw [reading]
            simp
          · exact (received_not_mem_sent _ reply).elim
      · rw [failed] at sent ⊢
        have old := sent.resolve_right List.not_mem_nil
        have other : source ≠ conn := by
          rintro rfl
          exact keeps steps source [] rfl reading reg old
        change (List.set (after ledgerId steps).readers source .ended)[conn]? ≠ _
        rw [List.getElem?_set_ne other]
        exact ih earlier old
      · rw [done] at sent ⊢
        rcases sent with old | new
        · exact ih earlier old
        · rcases List.mem_cons.mp new with same | reply
          · cases same
          · exact (received_not_mem_sent _ reply).elim

/-! ## Rounds of the accounting thread -/

/-- Rounds of the accounting thread take items from the queue and leave the
readers alone. -/
theorem run_rounds (threads : Threads) (rounds : Nat) :
    (step.run threads (List.replicate rounds .account)).queue = threads.queue.drop rounds ∧
      (step.run threads (List.replicate rounds .account)).readers = threads.readers := by
  induction rounds generalizing threads with
  | zero => exact ⟨rfl, rfl⟩
  | succ rounds ih =>
      rw [List.replicate_succ, Machine.run_cons, (ih _).1, (ih _).2]
      cases queued : threads.queue with
      | nil => simp [step, account, queued]
      | cons item rest => simp [step, account, queued]

/-- What was seen stays seen. -/
theorem mem_seen_append {ledgerId : LedgerId} {observation : Observation}
    (before later : List ThreadStep) (member : observation ∈ seen ledgerId before) :
    observation ∈ seen ledgerId (before ++ later) := by
  rw [seen, Machine.trace_append]
  exact List.mem_append_left _ member

/-- A receive that fails does so before the rounds. -/
theorem failure_before_rounds {steps before later : List ThreadStep} {conn rounds : Nat}
    (split : steps ++ List.replicate rounds .account = before ++ .receiveFailure conn :: later) :
    ∃ rest, steps = before ++ .receiveFailure conn :: rest := by
  have elsewhere : .receiveFailure conn ∉ List.replicate rounds ThreadStep.account := by
    intro member
    cases List.eq_of_mem_replicate member
  rcases List.append_eq_append_iff.mp split with ⟨gap, -, back⟩ | ⟨gap, front, back⟩
  · exact (elsewhere (by simp [back])).elim
  · cases gap with
    | nil =>
        rw [List.nil_append] at back
        rw [← back] at elsewhere
        exact (elsewhere List.mem_cons_self).elim
    | cons input rest =>
        rcases List.cons.inj back with ⟨rfl, -⟩
        exact ⟨rest, front⟩

/-- However the accounting thread goes on, `connected_workers` is exact whenever
the queue is empty, if and only if no receive failed on a connection that had
sent a registration. -/
theorem live_count_exact_iff (ledgerId : LedgerId) (steps : List ThreadStep) :
    (∀ rounds, LiveCountExact ledgerId (steps ++ List.replicate rounds .account)) ↔
      KeepsRegistered ledgerId steps := by
  constructor
  · rintro counted before conn later rfl reading reg sent
    let failing := before ++ ThreadStep.receiveFailure conn :: later
    let whole := failing ++ List.replicate (after ledgerId failing).queue.length .account
    have reached : after ledgerId whole = step.run (after ledgerId failing)
        (List.replicate (after ledgerId failing).queue.length .account) :=
      Machine.run_append _ _ _ _
    rcases run_rounds (after ledgerId failing) (after ledgerId failing).queue.length with
      ⟨drained, untouched⟩
    rw [← reached] at drained untouched
    have empty : (after ledgerId whole).queue = [] := drained.trans List.drop_length
    have ended : (after ledgerId whole).readers[conn]? = some .ended := by
      rw [untouched]
      exact ended_of_failure reading later
    have received : .received conn (.register reg) ∈ seen ledgerId whole :=
      mem_seen_append _ _ (mem_seen_append _ _ sent)
    have done : .register conn reg ∈ handled (seen ledgerId whole) := by
      have carried := (received_register_iff ledgerId whole conn reg).mp received
      rwa [empty, List.append_nil] at carried
    have same := counted _ whole (List.prefix_refl _) empty
    exact (connectedWorkers_eq_iff ledgerId whole).mp same conn reg done ended
  · rintro keeps rounds reached ⟨further, split⟩ empty
    have kept : KeepsRegistered ledgerId reached := by
      intro before conn later cut
      have whole := moment_append cut further
      rw [split] at whole
      rcases failure_before_rounds whole with ⟨rest, early⟩
      exact keeps before conn rest early
    rw [connectedWorkers_eq_iff]
    intro conn reg done
    have received := (received_register_iff ledgerId reached conn reg).mpr
      (List.mem_append_left _ done)
    exact not_ended_of_keepsRegistered kept received

/-- The connection of `openConnection` fails, and its loss is handled: nobody is
connected, and one worker is counted. -/
theorem lost_worker_still_counted :
    ¬ ∀ (ledgerId : LedgerId) (steps : List ThreadStep), LiveCountExact ledgerId steps := by
  intro claim
  let lost := openConnection ++ [.receiveFailure 0] ++ [.account]
  have same := claim {} lost lost (List.prefix_refl _) (List.isEmpty_iff.mp (by decide +kernel))
  rcases (registered_after_iff {} lost 0).mp ⟨⟨0, 1⟩, by decide +kernel⟩ with ⟨reg, done⟩
  exact (connectedWorkers_eq_iff {} lost).mp same 0 reg done (by decide +kernel)

end Threads

end InferenceLedger
