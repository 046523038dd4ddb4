import InferenceLedger.Distributed.Process

namespace InferenceLedger

open Foundation Std Threads

/-!
# Stopping the threads

`stop` comes back when it has joined the accept thread and the accounting
thread.  The accounting thread ends behind the last item of its queue, so
everything that was queued at the call is handled.  The accept thread ends when
`accept` returns; nothing that `main` does makes it return, unless the system
lets `accept` fail on a listening socket that is closed.
-/

namespace CoordinatorProcess

/-! ## What is queued when the threads are asked to stop -/

/-- The items that were queued when `stop` was called have been handled, or are
still in front. -/
structure Draining (code : Nat) (queue : List WorkItem) (events : List ProcessEvent)
    (p : CoordinatorProcess) : Prop where
  asked : p.phase.stopRequested = true
  outcome : p.phase.outcome = some code
  order : queue <+: handled (events.map ProcessEvent.tried) ++ p.threads.queue
  done : p.accounting = false → queue <+: handled (events.map ProcessEvent.tried)
  joined : ∀ other, p.phase = .returned other → p.accepting = false ∧ p.accounting = false

section Drain

variable {fs : FileSystem} {path : String} {code : Nat} {queue : List WorkItem}
  {events : List ProcessEvent} {p : CoordinatorProcess}

theorem Draining.thread (draining : Draining code queue events p) (input : ThreadStep) :
    Draining code queue (events ++ (step fs path p (.thread input)).2)
      (step fs path p (.thread input)).1 := by
  have late : step fs path p (.thread input) =
      ((p.lateStep input).1, (p.lateStep input).2.map (ProcessEvent.attempt p.closed)) := by
    rw [step, threadStep, if_pos draining.asked]
  rw [late]
  cases lateStep_cases p input with
  | idle same =>
      rw [same, List.map_nil, List.append_nil]
      exact draining
  | quit empty same =>
      rw [same, List.map_nil, List.append_nil]
      have order := draining.order
      rw [empty, List.append_nil] at order
      refine ⟨draining.asked, draining.outcome, ?_, fun _ => order, fun other returned =>
        ⟨(draining.joined other returned).1, rfl⟩⟩
      rw [empty, List.append_nil]
      exact order
  | accept same =>
      rw [same, List.map_nil, List.append_nil]
      exact ⟨draining.asked, draining.outcome, draining.order, draining.done,
        fun other returned => ⟨rfl, (draining.joined other returned).2⟩⟩
  | read conn more seen reading same silent =>
      rw [same]
      refine ⟨draining.asked, draining.outcome, ?_, ?_, draining.joined⟩
      · rw [List.map_append, ProcessEvent.map_tried_attempt, handled_append, silent,
          List.append_nil, ← List.append_assoc]
        exact draining.order.trans (List.prefix_append _ _)
      · rw [List.map_append, ProcessEvent.map_tried_attempt, handled_append, silent,
          List.append_nil]
        exact draining.done
  | handle item rest active front same =>
      rw [same]
      refine ⟨draining.asked, draining.outcome, ?_, fun quit => ?_, draining.joined⟩
      · rw [List.map_append, ProcessEvent.map_tried_attempt, handled_append, handled_cons,
          handled_sent, List.append_assoc, List.singleton_append, ← front]
        exact draining.order
      · change p.accounting = false at quit
        rw [active] at quit
        cases quit

theorem Draining.main (draining : Draining code queue events p) {input : ProcessStep}
    (own : ∀ other, input ≠ .thread other) :
    Draining code queue (events ++ (step fs path p input).2) (step fs path p input).1 := by
  rcases draining with ⟨asked, outcome, order, done, joined⟩
  rw [main_silent own, List.append_nil]
  cases @main_cases fs path p input own with
  | idle same =>
      rw [same]
      exact ⟨asked, outcome, order, done, joined⟩
  | acceptFails _ same =>
      rw [same]
      exact ⟨asked, outcome, order, done, fun other returned => ⟨rfl, (joined other returned).2⟩⟩
  | snapshot phase same => simp [phase, MainPhase.stopRequested] at asked
  | save snap phase same => simp [phase, MainPhase.stopRequested] at asked
  | stop code phase same => simp [phase, MainPhase.stopRequested] at asked
  | closeSocket other phase more same =>
      rw [same]
      exact ⟨asked, outcome, order, done, joined⟩
  | allClosed other phase all same =>
      rw [same]
      rw [phase] at outcome
      exact ⟨rfl, outcome, order, done, fun _ returned => MainPhase.noConfusion returned⟩
  | join other phase listening active same =>
      rw [same]
      rw [phase] at outcome
      exact ⟨rfl, outcome, order, done, fun _ _ => ⟨listening, active⟩⟩

theorem Draining.step (draining : Draining code queue events p) (input : ProcessStep) :
    Draining code queue (events ++ (CoordinatorProcess.step fs path p input).2)
      (CoordinatorProcess.step fs path p input).1 := by
  cases input with
  | thread other => exact draining.thread other
  | _ => exact draining.main (by simp)

/-- The accounting thread is at work until it is asked to stop. -/
def Working (p : CoordinatorProcess) : Prop := p.phase.stopRequested = false → p.accounting = true

theorem Working.step (working : p.Working) (input : ProcessStep) :
    (CoordinatorProcess.step fs path p input).1.Working := by
  intro running
  have before : p.phase.stopRequested = false := by
    by_contra asked
    rw [stopRequested_step (Bool.eq_true_of_not_eq_false asked)] at running
    cases running
  cases input with
  | thread other =>
      simp only [CoordinatorProcess.step, threadStep, before]
      exact working before
  | _ =>
      rw [(main_keeps (by simp)).2]
      exact working before

/-! ## What is left to be done -/

/-- Behind its loop over the connections, `main` closes nothing. -/
theorem run_closeSocket_of_closed (closed : p.phase.socketsClosed = true) (count : Nat) :
    (CoordinatorProcess.step fs path).run p (List.replicate count .closeSocket) = p := by
  induction count with
  | zero => rfl
  | succ count ih =>
      have idle : CoordinatorProcess.step fs path p .closeSocket = (p, []) := by
        cases phase : p.phase <;>
          simp_all [CoordinatorProcess.step, mainStep, MainPhase.socketsClosed]
      rw [List.replicate_succ, Machine.run_cons, idle]
      exact ih

/-- As many rounds of the loop as there are open connections, and one more, end
it. -/
theorem closes_after_rounds (asked : p.phase.stopRequested = true)
    (outcome : p.phase.outcome = some code) {count : Nat}
    (enough : p.threads.coordinator.allConns.length - p.closed < count) :
    ∃ q, (CoordinatorProcess.step fs path).run p (List.replicate count .closeSocket) = q ∧
      q.phase.socketsClosed = true ∧ q.phase.outcome = some code ∧ q.threads = p.threads ∧
      q.accepting = p.accepting := by
  induction count generalizing p with
  | zero => exact absurd enough (Nat.not_lt_zero _)
  | succ count ih =>
      cases phase : p.phase with
      | stopping other =>
          rw [List.replicate_succ, Machine.run_cons]
          by_cases more : p.closed < p.threads.coordinator.allConns.length
          · have closes : CoordinatorProcess.step fs path p .closeSocket =
                ({ p with closed := p.closed + 1 }, []) := by
              simp [CoordinatorProcess.step, mainStep, phase, more]
            rw [closes]
            exact ih asked outcome (by simp only; omega)
          · have ends : CoordinatorProcess.step fs path p .closeSocket =
                ({ p with phase := .joining other }, []) := by
              simp [CoordinatorProcess.step, mainStep, phase, more]
            rw [ends, run_closeSocket_of_closed rfl]
            rw [phase] at outcome
            exact ⟨_, rfl, rfl, outcome, rfl, rfl⟩
      | joining other =>
          rw [run_closeSocket_of_closed (by rw [phase]; rfl)]
          exact ⟨p, rfl, by rw [phase]; rfl, outcome, rfl, rfl⟩
      | returned other =>
          rw [run_closeSocket_of_closed (by rw [phase]; rfl)]
          exact ⟨p, rfl, by rw [phase]; rfl, outcome, rfl, rfl⟩
      | _ => simp [phase, MainPhase.stopRequested] at asked

/-- One round of the accounting thread that has been asked to stop. -/
theorem round_of_asked (asked : p.phase.stopRequested = true) :
    (CoordinatorProcess.step fs path p (.thread .account)).1 = (p.lateStep .account).1 := by
  rw [CoordinatorProcess.step, threadStep, if_pos asked]

/-- A thread that has returned takes no more rounds. -/
theorem run_rounds_of_quit (asked : p.phase.stopRequested = true) (quit : p.accounting = false)
    (count : Nat) :
    (CoordinatorProcess.step fs path).run p (List.replicate count (.thread .account)) = p := by
  induction count with
  | zero => rfl
  | succ count ih =>
      have idle : p.lateStep .account = (p, []) := by simp [lateStep, quit]
      rw [List.replicate_succ, Machine.run_cons, round_of_asked asked, idle]
      exact ih

/-- As many rounds as there are items, and one more, end the accounting thread. -/
theorem quits_after_rounds (asked : p.phase.stopRequested = true) {count : Nat}
    (enough : p.threads.queue.length < count) :
    ∃ q, (CoordinatorProcess.step fs path).run p (List.replicate count (.thread .account)) = q ∧
      q.accounting = false ∧ q.phase = p.phase ∧ q.accepting = p.accepting := by
  induction count generalizing p with
  | zero => exact absurd enough (Nat.not_lt_zero _)
  | succ count ih =>
      cases active : p.accounting with
      | false =>
          rw [run_rounds_of_quit asked active]
          exact ⟨p, rfl, active, rfl, rfl⟩
      | true =>
          rw [List.replicate_succ, Machine.run_cons, round_of_asked asked]
          cases front : p.threads.queue with
          | nil =>
              have quits : (p.lateStep .account).1 = { p with accounting := false } := by
                simp [lateStep, active, front]
              rw [quits, @run_rounds_of_quit fs path { p with accounting := false } asked rfl count]
              exact ⟨_, rfl, rfl, rfl, rfl⟩
          | cons item rest =>
              have handles : (p.lateStep .account).1 = { p with threads := { p.threads with
                  coordinator := (Coordinator.accounting p.threads.coordinator item).1
                  queue := rest } } := by
                simp [lateStep, active, front, account]
              rw [handles]
              rw [front, List.length_cons] at enough
              refine @ih { p with threads := { p.threads with
                coordinator := (Coordinator.accounting p.threads.coordinator item).1
                queue := rest } } asked (Nat.lt_of_succ_lt_succ enough)

/-- What brings `main` to return: `accept` fails, the remaining sockets are
closed, the accounting thread finishes its queue, and both threads are joined. -/
def remaining (p : CoordinatorProcess) : List ProcessStep :=
  .acceptFails ::
    (List.replicate (p.threads.coordinator.allConns.length - p.closed + 1) .closeSocket ++
      (List.replicate (p.threads.queue.length + 1) (.thread .account) ++ [.join]))

theorem returns_after_remaining (asked : p.phase.stopRequested = true)
    (outcome : p.phase.outcome = some code) :
    ((CoordinatorProcess.step fs path).run p p.remaining).phase = .returned code := by
  have fails : CoordinatorProcess.step fs path p .acceptFails = ({ p with accepting := false }, []) := by
    rw [CoordinatorProcess.step, if_pos asked]
  rw [remaining, Machine.run_cons, fails, Machine.run_append]
  rcases @closes_after_rounds fs path code { p with accepting := false } asked outcome _
    (Nat.lt_succ_self _) with ⟨q, closes, closed, decided, threads, listening⟩
  change (CoordinatorProcess.step fs path).run _ _ = q at closes
  have late := MainPhase.stopRequested_of_socketsClosed closed
  have length : q.threads.queue.length < p.threads.queue.length + 1 := by
    rw [threads]
    exact Nat.lt_succ_self _
  rcases @quits_after_rounds fs path q late _ length with ⟨r, rounds, quit, phase, accepting⟩
  rw [closes, Machine.run_append, rounds, Machine.run_cons, Machine.run_nil]
  have idle : r.accepting = false := accepting.trans listening
  rw [← phase] at closed decided
  cases at_ : r.phase with
  | joining other =>
      rw [at_] at decided
      simp only [CoordinatorProcess.step, mainStep, at_, idle, quit]
      exact congrArg MainPhase.returned (Option.some.inj decided)
  | returned other =>
      rw [at_] at decided
      simp only [CoordinatorProcess.step, mainStep, at_]
      exact congrArg MainPhase.returned (Option.some.inj decided)
  | _ => simp [at_, MainPhase.socketsClosed] at closed

end Drain

/-- `main` returns only when `accept` has returned in the accept thread, with the
code that was decided before `stop`, and when everything that was queued at the
call has been handled, in that order.  And it always can return, whatever the
readers have done in the meantime: `accept` has only to return, and the
accounting thread to finish its queue, for which it has to be awake (`stop`
notifies it without the lock of the queue, so that it may miss that). -/
theorem stop_drains_queue {fs : FileSystem} (path : String) (port : UInt16)
    (file : Option (List UInt8)) (steps : List ProcessStep) (code : Nat)
    (saved : (after fs path port file steps).phase = .saved code) (later : List ProcessStep) :
    (∀ other, (after fs path port file (steps ++ .stop :: later)).phase = .returned other →
      other = code ∧ (after fs path port file (steps ++ .stop :: later)).accepting = false ∧
      (after fs path port file steps).threads.queue <+:
        handled (((step fs path).trace (after fs path port file steps) (.stop :: later)).map
          ProcessEvent.tried)) ∧
    ((step fs path).run (after fs path port file (steps ++ .stop :: later))
      (after fs path port file (steps ++ .stop :: later)).remaining).phase = .returned code := by
  have draining : Draining code (after fs path port file steps).threads.queue
      ((step fs path).trace (after fs path port file steps) (.stop :: later))
      (after fs path port file (steps ++ .stop :: later)) := by
    have preserved (q : CoordinatorProcess) (input : ProcessStep) (working : q.Working) :
        (step fs path q input).1.Working := working.step input
    have working : (after fs path port file steps).Working :=
      Machine.run_invariant preserved (fun _ => rfl) steps
    rw [after_append]
    generalize after fs path port file steps = start at saved working
    have active : start.accounting = true := working (by rw [saved]; rfl)
    have stops : step fs path start .stop = ({ start with phase := .stopping code }, []) := by
      simp only [step, mainStep, saved]
    have initial : Draining code start.threads.queue [] { start with phase := .stopping code } :=
      ⟨rfl, rfl, List.prefix_rfl, fun quit => absurd quit (by simp [active]),
        fun _ returned => MainPhase.noConfusion returned⟩
    rw [Machine.run_cons, Machine.trace_cons, stops, List.nil_append]
    exact Machine.run_traced initial (fun events q input draining => draining.step input) later
  refine ⟨fun other returned => ?_, returns_after_remaining draining.asked draining.outcome⟩
  have outcome := draining.outcome
  rw [returned] at outcome
  rcases draining.joined other returned with ⟨listening, quit⟩
  exact ⟨Option.some.inj outcome, listening, draining.done quit⟩

/-- A registration is queued when the ledger has been saved. -/
def queuedRegistration : List ProcessStep :=
  [.thread .accept, .endOfInput, .save,
    .thread (.receive 0 (.register { worker := ⟨0, 1⟩, boot := ⟨0, 2⟩ }))]

/-- The sockets are closed, the accounting thread finishes its queue, and another
worker connects. -/
def windingDown : List ProcessStep :=
  [.closeSocket, .closeSocket, .thread .account, .thread .account, .thread .accept, .join]

theorem stop_drains_queue_registration :
    WorkItem.register 0 { worker := ⟨0, 1⟩, boot := ⟨0, 2⟩ } ∈
      handled (((step unlimitedDisk "ledger.db").trace
        (after unlimitedDisk "ledger.db" 38921 none queuedRegistration) (.stop :: windingDown)).map
          ProcessEvent.tried) := by
  have returned : (after unlimitedDisk "ledger.db" 38921 none
      (queuedRegistration ++ .stop :: windingDown)).phase = .returned 0 := rfl
  rcases (@stop_drains_queue unlimitedDisk "ledger.db" 38921 none queuedRegistration 0 rfl
    windingDown).1 0 returned with ⟨-, -, drained⟩
  exact drained.subset List.mem_cons_self

end CoordinatorProcess

end InferenceLedger
