import InferenceLedger.Distributed.Process

namespace InferenceLedger

open Foundation Std Threads

/-!
# What a shutdown leaves behind

What `main` of the coordinator saves is the ledger at the moment of its snapshot,
the end of its input.  An event that is handled later is stored and answered
like any other, and is not in the file; and once `stop` has closed the sockets,
the answer reaches nobody.
-/

namespace CoordinatorProcess

/-! ## How the ledger grows -/

/-- An event was answered as accepted. -/
def acceptedAck : Observation → Bool
  | .sent ⟨_, .eventAck ack⟩ => ack.status == AppendStatus.accepted.value
  | _ => false

/-- The ledger has grown by as many entries as were answered as accepted. -/
def Grown (start : Ledger) (observed : List Observation) (ledger : Ledger) : Prop :=
  ∃ late, ledger.snapshot = start.snapshot ++ late ∧ late.length = observed.countP acceptedAck

theorem Grown.refl (ledger : Ledger) : Grown ledger [] ledger :=
  ⟨[], (List.append_nil _).symm, rfl⟩

theorem Grown.trans {first second third : Ledger} {seen more : List Observation}
    (earlier : Grown first seen second) (later : Grown second more third) :
    Grown first (seen ++ more) third := by
  rcases earlier with ⟨before, grown, count⟩
  rcases later with ⟨behind, grownMore, countMore⟩
  refine ⟨before ++ behind, ?_, ?_⟩
  · rw [grownMore, grown, List.append_assoc]
  · rw [List.length_append, List.countP_append, count, countMore]

theorem value_eq_accepted_iff (status : AppendStatus) :
    (status.value == AppendStatus.accepted.value) = decide (status = .accepted) := by
  cases status <;> rfl

/-- Handling an item acknowledges an event as accepted exactly when it stores
it. -/
theorem grown_accounting (c : Coordinator) (item : WorkItem) :
    Grown c.ledger (.handled item :: (Coordinator.accounting c item).2.map .sent)
      (Coordinator.accounting c item).1.ledger := by
  cases item with
  | register conn reg => exact Grown.refl c.ledger
  | workerLost conn worker =>
      refine ⟨[], (List.append_nil _).symm, ?_⟩
      symm
      rw [List.length_nil, List.countP_eq_zero]
      intro observation member
      rcases List.mem_cons.mp member with rfl | sent
      · simp [acceptedAck]
      · rcases List.mem_map.mp sent with ⟨send, rolled, rfl⟩
        rcases List.mem_map.mp rolled with ⟨index, -, rfl⟩
        simp [acceptedAck]
  | event conn e =>
      have verdict : (Observation.handled (.event conn e) ::
          (Coordinator.accounting c (.event conn e)).2.map .sent).countP acceptedAck =
          if (c.accountEvent e).2.status = .accepted then 1 else 0 := by
        simp [Coordinator.accounting, Coordinator.handleEvent, acceptedAck, List.countP_cons,
          value_eq_accepted_iff]
      rw [Coordinator.accountEvent_result] at verdict
      rcases Ledger.append_cases c.ledger (some (c.authorityFor e)) e with
        ⟨-, result⟩ | ⟨-, unchanged, refused⟩
      · refine ⟨[e], ?_, ?_⟩
        · change (c.ledger.append (some (c.authorityFor e)) e).1.entries = _
          rw [result, Ledger.store_entries]
          rfl
        · rw [verdict, result, if_pos rfl]
          rfl
      · refine ⟨[], ?_, ?_⟩
        · change (c.ledger.append (some (c.authorityFor e)) e).1.entries = _
          rw [unchanged, List.append_nil]
          rfl
        · rw [verdict, if_neg refused]
          rfl

section Growth

variable {fs : FileSystem} {path : String}

/-- Nothing that a reader does makes the ledger grow. -/
theorem grown_of_quiet {ledger : Ledger} {observed : List Observation}
    (pings : ∀ send, .sent send ∈ observed → send.message = .ping) :
    Grown ledger observed ledger := by
  refine ⟨[], (List.append_nil _).symm, ?_⟩
  symm
  rw [List.length_nil, List.countP_eq_zero]
  intro observation member
  cases observation with
  | received conn message => simp [acceptedAck]
  | handled item => simp [acceptedAck]
  | sent send =>
      have ping := pings send member
      rcases send with ⟨conn, message⟩
      simp only at ping
      simp [acceptedAck, ping]

theorem grown_of_main (p : CoordinatorProcess) {input : ProcessStep}
    (own : ∀ other, input ≠ .thread other) :
    Grown p.ledger ((step fs path p input).2.map ProcessEvent.tried)
      (step fs path p input).1.ledger := by
  rw [main_silent own, ledger, ledger, (main_keeps own).1]
  exact Grown.refl _

/-- A step of a thread stores as many entries as it answers with an acceptance. -/
theorem grown_threadStep (p : CoordinatorProcess) (input : ThreadStep) :
    Grown p.ledger (p.threadStep input).2 (p.threadStep input).1.ledger := by
  unfold threadStep
  split
  · cases lateStep_cases p input with
    | read conn more observed reading same silent pings =>
        rw [same]
        exact grown_of_quiet fun send member => by rw [pings send member]
    | handle item rest active front same =>
        rw [same]
        exact grown_accounting p.threads.coordinator item
    | _ =>
        rename_i same
        rw [same]
        exact Grown.refl p.ledger
  · rcases step_cases p.threads input with same | same | ⟨conn, message, -, -, same⟩ |
      ⟨conn, -, -, same⟩ | ⟨item, rest, -, -, same⟩
    · simp only [same]
      exact Grown.refl p.ledger
    · simp only [same]
      exact Grown.refl p.ledger
    · simp only [same]
      apply grown_of_quiet
      intro send member
      rcases List.mem_cons.mp member with other | sent
      · cases other
      · rcases List.mem_map.mp sent with ⟨other, inside, equal⟩
        cases equal
        rw [(receive_eq p.threads conn message).2 send inside]
    · simp only [same]
      exact Grown.refl p.ledger
    · simp only [same]
      exact grown_accounting p.threads.coordinator item

theorem grown_step (p : CoordinatorProcess) (input : ProcessStep) :
    Grown p.ledger ((step fs path p input).2.map ProcessEvent.tried)
      (step fs path p input).1.ledger := by
  cases input with
  | thread other =>
      simp only [step, ProcessEvent.map_tried_attempt]
      exact grown_threadStep p other
  | _ => exact grown_of_main p (by simp)

/-- Along every run the ledger grows by what is answered with an acceptance. -/
theorem grown_run (p : CoordinatorProcess) (steps : List ProcessStep) :
    Grown p.ledger (((step fs path).trace p steps).map ProcessEvent.tried)
      ((step fs path).run p steps).ledger := by
  let GrownTo (events : List ProcessEvent) (q : CoordinatorProcess) : Prop :=
    Grown p.ledger (events.map ProcessEvent.tried) q.ledger
  have initial : GrownTo [] p := Grown.refl p.ledger
  refine Machine.run_traced initial ?_ steps
  intro events q input grown
  change Grown p.ledger ((events ++ _).map ProcessEvent.tried) _
  rw [List.map_append]
  exact grown.trans (grown_step q input)

end Growth

/-! ## What reaches the peers -/

/-- The item came from the reader of one of the first so many connections. -/
def Within (bound : Nat) (item : WorkItem) : Prop := ∃ conn < bound, item.OnConnection conn

/-- Only the first so many connections have a reader, an item in the queue, or a
registered worker. -/
structure Confined (bound : Nat) (threads : Threads) : Prop where
  reading : ∀ conn, threads.readers[conn]? = some .reading → conn < bound
  queued : ∀ item ∈ threads.queue, Within bound item
  registered : ∀ conn worker, threads.Registered conn worker → conn < bound

section Confinement

variable {bound : Nat} {threads : Threads}

theorem Confined.mono (confined : Confined bound threads) {more : Nat} (le : bound ≤ more) :
    Confined more threads where
  reading conn reads := (confined.reading conn reads).trans_le le
  queued item member := by
    rcases confined.queued item member with ⟨conn, below, source⟩
    exact ⟨conn, below.trans_le le, source⟩
  registered conn worker listed := (confined.registered conn worker listed).trans_le le

/-- A reader puts items of its own connection into the queue, and may end. -/
theorem Confined.enqueued (confined : Confined bound threads) {conn : Nat} {more : List WorkItem}
    (reads : threads.readers[conn]? = some .reading) (source : ∀ item ∈ more, item.OnConnection conn)
    {readers : List Reader} (same : readers = threads.readers ∨ readers = threads.readers.set conn .ended) :
    Confined bound { threads with readers, queue := threads.queue ++ more } where
  reading other still := by
    rcases same with rfl | rfl
    · exact confined.reading other still
    · exact confined.reading other (reading_set_iff.mp still).2
  queued item member := by
    rcases List.mem_append.mp member with old | new
    · exact confined.queued item old
    · exact ⟨conn, confined.reading conn reads, source item new⟩
  registered := confined.registered

theorem Confined.handled (confined : Confined bound threads) {item : WorkItem}
    {rest : List WorkItem} (front : threads.queue = item :: rest) :
    Confined bound { threads with
      coordinator := (Coordinator.accounting threads.coordinator item).1
      queue := rest } where
  reading := confined.reading
  queued other member := confined.queued other (front ▸ List.mem_cons_of_mem item member)
  registered conn worker listed := by
    rcases registered_of_accounting listed with already | ⟨reg, rfl⟩
    · exact confined.registered conn worker already
    · rcases confined.queued _ (front ▸ List.mem_cons_self) with ⟨source, below, same⟩
      exact same ▸ below

/-- What is sent for an item goes to one of these connections. -/
theorem Confined.answered (confined : Confined bound threads) {item : WorkItem}
    {rest : List WorkItem} (front : threads.queue = item :: rest) {send : Send}
    (sent : send ∈ (Coordinator.accounting threads.coordinator item).2) :
    ∃ conn < bound, send.conn = some conn := by
  rcases confined.queued item (front ▸ List.mem_cons_self) with ⟨source, below, origin⟩
  cases item with
  | register conn reg =>
      rw [List.mem_singleton.mp sent]
      exact ⟨conn, origin ▸ below, rfl⟩
  | event conn e =>
      have answer : send.conn = conn := by rw [List.mem_singleton.mp sent]
      exact ⟨source, below, answer.trans origin⟩
  | workerLost conn worker =>
      rcases List.mem_map.mp sent with ⟨index, target, rfl⟩
      rcases List.mem_filter.mp target with ⟨-, told⟩
      rcases (Option.any_eq_true _ _).mp told with ⟨found, listed, chosen⟩
      have flag : found.registered = true := (Bool.and_eq_true_iff.mp chosen).1
      have registered : threads.Registered index found.worker := by
        rw [Registered, ← flag]
        exact listed
      exact ⟨index, confined.registered index _ registered, rfl⟩

theorem Confined.accept (confined : Confined threads.coordinator.allConns.length threads)
    (aligned : threads.Aligned) :
    Confined (threads.coordinator.allConns.length + 1) threads.accept where
  reading conn reads := by
    have inside := (List.getElem?_eq_some_iff.mp reads).1
    change conn < (threads.readers ++ [Reader.reading]).length at inside
    rwa [List.length_append, aligned] at inside
  queued := (confined.mono (Nat.le_succ _)).queued
  registered conn worker listed :=
    (confined.mono (Nat.le_succ _)).registered conn worker (registered_accept_iff.mp listed)

/-- A connection without a reader changes nothing. -/
theorem Confined.acceptEnded (confined : Confined bound threads) :
    Confined bound { threads with
      coordinator := threads.coordinator.accept
      readers := threads.readers ++ [.ended] } where
  reading conn reads := by
    rw [List.getElem?_append] at reads
    split at reads
    · exact confined.reading conn reads
    · rw [List.getElem?_singleton] at reads
      split at reads <;> cases reads
  queued := confined.queued
  registered conn worker listed :=
    confined.registered conn worker (registered_accept_iff.mp listed)

end Confinement

/-- The connections that count: all of them, until `stop` has closed the sockets,
and from then on those that it has closed. -/
def bound (p : CoordinatorProcess) : Nat :=
  if p.phase.socketsClosed then p.closed else p.threads.coordinator.allConns.length

/-- What the process does concerns these connections. -/
structure Contained (p : CoordinatorProcess) : Prop where
  aligned : p.threads.Aligned
  confined : Confined p.bound p.threads

section Containment

variable {fs : FileSystem} {path : String} {p : CoordinatorProcess}

theorem contained_started (port : UInt16) (file : Option (List UInt8)) :
    (started port file).Contained := by
  refine ⟨rfl, ?_, ?_, ?_⟩
  · intro conn reads
    simp [started, new] at reads
  · intro item member
    simp [started, new] at member
  · intro conn worker listed
    simp [started, new, Registered, Coordinator.new] at listed

theorem bound_of_running (running : p.phase.stopRequested = false) :
    p.bound = p.threads.coordinator.allConns.length := by
  apply if_neg
  intro closed
  rw [MainPhase.stopRequested_of_socketsClosed closed] at running
  cases running

/-- The bound of a process with other threads. -/
theorem bound_le {threads : Threads}
    (longer : p.threads.coordinator.allConns.length ≤ threads.coordinator.allConns.length)
    {accepting accounting : Bool} :
    p.bound ≤ bound { p with threads, accepting, accounting } := by
  unfold bound
  split
  · exact Nat.le_refl _
  · exact longer

theorem Contained.lateStep (contained : p.Contained) (input : ThreadStep) :
    (p.lateStep input).1.Contained := by
  have aligned := contained.aligned
  have confined := contained.confined
  cases lateStep_cases p input with
  | idle same =>
      rw [same]
      exact contained
  | quit empty same =>
      rw [same]
      exact ⟨aligned, confined⟩
  | accept same =>
      rw [same]
      refine ⟨?_, confined.acceptEnded.mono (bound_le ?_)⟩
      · simpa [Aligned, Coordinator.accept] using aligned
      · simp [Coordinator.accept]
  | read conn more observed reading same silent pings source =>
      rw [same]
      exact ⟨List.length_set.trans aligned, confined.enqueued reading source (Or.inr rfl)⟩
  | handle item rest active front same =>
      rw [same]
      have length := length_allConns_accounting p.threads.coordinator item
      exact ⟨aligned.trans length.symm, (confined.handled front).mono (bound_le length.ge)⟩

theorem Contained.threadStep (contained : p.Contained) (input : ThreadStep) :
    (p.threadStep input).1.Contained := by
  unfold CoordinatorProcess.threadStep
  split
  · exact contained.lateStep input
  · rename_i notAsked
    rcases contained with ⟨aligned, confined⟩
    have running : p.phase.stopRequested = false := Bool.eq_false_iff.mpr notAsked
    refine ⟨aligned.step input, ?_⟩
    rw [bound_of_running running] at confined
    rw [bound_of_running (p := { p with threads := (Threads.step p.threads input).1 }) running]
    rcases step_cases p.threads input with same | same | ⟨conn, message, -, reads, same⟩ |
      ⟨conn, -, reads, same⟩ | ⟨item, rest, -, front, same⟩
    · rw [same]
      exact confined
    · rw [same]
      have more := confined.accept aligned
      rwa [← List.length_singleton (a := ({} : Conn)), ← List.length_append] at more
    · rw [same]
      exact confined.enqueued reads onConnection_itemsOf (Or.inl rfl)
    · rw [same]
      exact confined.enqueued reads onConnection_lossOf (Or.inr rfl)
    · rw [same]
      have length := length_allConns_accounting p.threads.coordinator item
      exact (confined.handled front).mono length.ge

theorem Contained.main (contained : p.Contained) {input : ProcessStep}
    (own : ∀ other, input ≠ .thread other) :
    (CoordinatorProcess.step fs path p input).1.Contained := by
  have keeps := (@main_keeps fs path p input own).1
  have le : p.bound ≤ (CoordinatorProcess.step fs path p input).1.bound := by
    cases @main_cases fs path p input own with
    | idle same => rw [same]
    | acceptFails asked same =>
        rw [same]
        exact Nat.le_refl _
    | snapshot phase same => simp [same, bound, phase, MainPhase.socketsClosed]
    | save snap phase same =>
        rw [same, CoordinatorProcess.save]
        split <;> simp [bound, phase, MainPhase.socketsClosed]
    | stop code phase same => simp [same, bound, phase, MainPhase.socketsClosed]
    | closeSocket code phase more same => simp [same, bound, phase, MainPhase.socketsClosed]
    | allClosed code phase all same => simp [same, bound, phase, MainPhase.socketsClosed, all]
    | join code phase listening active same => simp [same, bound, phase, MainPhase.socketsClosed]
  refine ⟨?_, ?_⟩
  · rw [keeps]
    exact contained.aligned
  · rw [keeps]
    exact contained.confined.mono le

theorem Contained.step (contained : p.Contained) (input : ProcessStep) :
    (CoordinatorProcess.step fs path p input).1.Contained := by
  cases input with
  | thread other => exact contained.threadStep other
  | _ => exact contained.main (by simp)

theorem socketsClosed_main (closed : p.phase.socketsClosed = true) {input : ProcessStep}
    (own : ∀ other, input ≠ .thread other) :
    (CoordinatorProcess.step fs path p input).1.phase.socketsClosed = true := by
  cases @main_cases fs path p input own with
  | idle same =>
      rw [same]
      exact closed
  | acceptFails asked same =>
      rw [same]
      exact closed
  | snapshot phase same => simp [phase, MainPhase.socketsClosed] at closed
  | save snap phase same => simp [phase, MainPhase.socketsClosed] at closed
  | stop code phase same => simp [phase, MainPhase.socketsClosed] at closed
  | closeSocket code phase more same => simp [phase, MainPhase.socketsClosed] at closed
  | allClosed code phase all same => simp [phase, MainPhase.socketsClosed] at closed
  | join code phase listening active same =>
      rw [same]
      rfl

/-- Once the sockets are closed they stay so, and no message reaches a peer. -/
theorem Contained.unsent (contained : p.Contained) (closed : p.phase.socketsClosed = true)
    (input : ProcessStep) :
    (CoordinatorProcess.step fs path p input).1.phase.socketsClosed = true ∧
      ∀ send, .seen (.sent send) ∉ (CoordinatorProcess.step fs path p input).2 := by
  have asked := MainPhase.stopRequested_of_socketsClosed closed
  have confined := contained.confined
  rw [bound, if_pos closed] at confined
  cases input with
  | thread other =>
      refine ⟨(thread_keeps p other).1 ▸ closed, fun send member => ?_⟩
      rcases List.mem_map.mp member with ⟨observation, tried, took⟩
      rcases ProcessEvent.of_attempt_sent took with ⟨rfl, openSocket⟩
      rw [CoordinatorProcess.threadStep, if_pos asked] at tried
      have within : ∃ conn < p.closed, send.conn = some conn := by
        cases lateStep_cases p other with
        | read conn more observed reading same silent pings =>
            rw [same] at tried
            exact ⟨conn, confined.reading conn reading, by rw [pings send tried]⟩
        | handle item rest active front same =>
            rw [same] at tried
            rcases List.mem_cons.mp tried with other | sent
            · cases other
            · rcases List.mem_map.mp sent with ⟨answer, answered, equal⟩
              cases equal
              exact confined.answered front answered
        | _ =>
            rename_i same
            simp [same] at tried
      rcases within with ⟨conn, below, same⟩
      exact absurd below (Nat.not_lt_of_le (openSocket conn same))
  | _ =>
      refine ⟨socketsClosed_main closed (by simp), fun send => ?_⟩
      rw [main_silent (by simp)]
      exact List.not_mem_nil

end Containment

/-! ## What the file holds -/

/-- What `main` has done since it took this snapshot of a process: nothing yet,
or the snapshot is in the file and was reported. -/
inductive Finishing (path : String) (start : CoordinatorProcess) (p : CoordinatorProcess) : Prop
  | snapped (phase : p.phase = .snapped start.ledger.snapshot) (file : p.file = start.file)
      (out : p.out = start.out) (err : p.err = start.err)
  | saved {bytes : List UInt8} (phase : p.phase.outcome = some 0) (file : p.file = some bytes)
      (restores : Restores path bytes lid start.ledger.snapshot)
      (out : p.out = start.out ++ [stoppedLine start.ledger.snapshot]) (err : p.err = start.err)

section Finish

variable {fs : FileSystem} {path : String} {start p : CoordinatorProcess}

theorem Finishing.save (reliable : fs.Reliable) (savable : start.threads.Savable)
    (out : p.out = start.out) (err : p.err = start.err) :
    Finishing path start (p.save fs path start.ledger.snapshot) := by
  rcases saved_of_portable reliable savable.consistent savable.ledger lid path p.file with
    ⟨bytes, saved, restores⟩
  have done : p.save fs path start.ledger.snapshot =
      { p with file := some bytes, phase := .saved 0
               out := p.out ++ [stoppedLine start.ledger.snapshot] } := by
    unfold CoordinatorProcess.save
    rw [ledger, saved]
  rw [done, out]
  exact .saved rfl rfl restores rfl err

/-- A step on which `main` holds to what it has decided. -/
theorem Finishing.congr (finishing : Finishing path start p) {q : CoordinatorProcess}
    (phase : q.phase = p.phase ∨ q.phase.outcome = p.phase.outcome ∧ p.phase.outcome ≠ none)
    (file : q.file = p.file) (out : q.out = p.out) (err : q.err = p.err) :
    Finishing path start q := by
  cases finishing with
  | snapped atStart sameFile sameOut sameErr =>
      rcases phase with same | ⟨-, decided⟩
      · exact .snapped (same.trans atStart) (file.trans sameFile) (out.trans sameOut)
          (err.trans sameErr)
      · rw [atStart] at decided
        exact absurd rfl decided
  | saved atStart sameFile restores sameOut sameErr =>
      have outcome : q.phase.outcome = some 0 := by
        rcases phase with same | ⟨same, -⟩
        · rw [same, atStart]
        · rw [same, atStart]
      exact .saved outcome (file.trans sameFile) restores (out.trans sameOut) (err.trans sameErr)

theorem Finishing.main (reliable : fs.Reliable) (savable : start.threads.Savable)
    (finishing : Finishing path start p) {input : ProcessStep}
    (own : ∀ other, input ≠ .thread other) :
    Finishing path start (step fs path p input).1 := by
  have behind : p.phase ≠ .reading := by
    intro reading
    cases finishing with
    | snapped phase file out err => simp [phase] at reading
    | saved phase file restores out err => simp [reading, MainPhase.outcome] at phase
  cases @main_cases fs path p input own with
  | idle same =>
      rw [same]
      exact finishing
  | acceptFails asked same =>
      rw [same]
      exact finishing.congr (Or.inl rfl) rfl rfl rfl
  | snapshot phase same => exact absurd phase behind
  | save snap phase same =>
      rw [same]
      cases finishing with
      | snapped atStart file out err =>
          cases phase.symm.trans atStart
          exact Finishing.save reliable savable out err
      | saved atStart file restores out err => simp [phase, MainPhase.outcome] at atStart
  | stop code phase same =>
      rw [same]
      exact finishing.congr (by simp [phase, MainPhase.outcome]) rfl rfl rfl
  | closeSocket code phase more same =>
      rw [same]
      exact finishing.congr (Or.inl rfl) rfl rfl rfl
  | allClosed code phase all same =>
      rw [same]
      exact finishing.congr (by simp [phase, MainPhase.outcome]) rfl rfl rfl
  | join code phase listening active same =>
      rw [same]
      exact finishing.congr (by simp [phase, MainPhase.outcome]) rfl rfl rfl

theorem Finishing.step (reliable : fs.Reliable) (savable : start.threads.Savable)
    (finishing : Finishing path start p) (input : ProcessStep) :
    Finishing path start (step fs path p input).1 := by
  cases input with
  | thread other =>
      rcases thread_keeps p other with ⟨phase, file, out, err, -⟩
      exact finishing.congr (Or.inl phase) file out err
  | _ => exact finishing.main reliable savable (by simp)

theorem finishing_of_end (reading : p.phase = .reading) {ending : ProcessStep}
    (ends : ending.endsInput = true) : Finishing path p (CoordinatorProcess.step fs path p ending).1 := by
  cases ending with
  | line text =>
      have shutdown : text = .ofString "SHUTDOWN" := eq_of_beq ends
      simp only [CoordinatorProcess.step, mainStep, reading, if_pos shutdown]
      exact .snapped rfl rfl rfl rfl
  | endOfInput =>
      simp only [CoordinatorProcess.step, mainStep, reading]
      exact .snapped rfl rfl rfl rfl
  | _ => cases ends

end Finish

variable {fs : FileSystem} (path : String) (port : UInt16) (file : Option (List UInt8))

/-- From the end of its input on, `main` is finishing what it began there. -/
theorem finishing_after (reliable : fs.Reliable) {before : List ProcessStep}
    (wired : ∀ input ∈ before, input.Wired) (reading : (after fs path port file before).phase = .reading)
    {ending : ProcessStep} (ends : ending.endsInput = true) (later : List ProcessStep) :
    Finishing path (after fs path port file before)
      (after fs path port file (before ++ ending :: later)) := by
  have savable := @savable_after fs path port file _ wired
  rw [after_append]
  exact Machine.run_invariant (fun p input finishing => finishing.step reliable savable input)
    (finishing_of_end reading ends) later

theorem contained_after (before : List ProcessStep) :
    (after fs path port file before).Contained := by
  have preserved (q : CoordinatorProcess) (input : ProcessStep) (contained : q.Contained) :
      (step fs path q input).1.Contained := contained.step input
  exact Machine.run_invariant preserved (contained_started port file) before

/-- From the moment at which the sockets are closed, nothing reaches a peer. -/
theorem silent_after {mid : List ProcessStep}
    (closed : (after fs path port file mid).phase.socketsClosed = true) (rest : List ProcessStep)
    (send : Send) :
    .seen (.sent send) ∉ (step fs path).trace (after fs path port file mid) rest := by
  let Silent (events : List ProcessEvent) (q : CoordinatorProcess) : Prop :=
    .seen (.sent send) ∉ events ∧ q.Contained ∧ q.phase.socketsClosed = true
  have initial : Silent [] (after fs path port file mid) :=
    ⟨List.not_mem_nil, contained_after path port file mid, closed⟩
  refine (Machine.run_traced initial ?_ rest).1
  rintro events q input ⟨silent, contained, shut⟩
  rcases @Contained.unsent fs path q contained shut input with ⟨still, unsent⟩
  refine ⟨fun member => ?_, contained.step input, still⟩
  rcases List.mem_append.mp member with old | new
  · exact silent old
  · exact unsent send new

/-- What the worker of these runs submits. -/
def timelyEntry (lo : UInt64) : LedgerEntry :=
  { id := ⟨0, lo⟩
    worker := ⟨0, 1⟩
    authority := { epoch := ⟨1⟩, workerBoot := ⟨0, 2⟩, accountingGeneration := ⟨1⟩ } }

theorem arrived_timely (lo : UInt64) : (Message.eventSubmit (timelyEntry lo)).Arrived := by
  have encodable : Encodable (timelyEntry lo) :=
    ⟨encodable_default.finite, encodable_default.nonNegative, encodable_default.integral,
      encodable_default.metadataSize⟩
  have size : (Message.eventSubmit (timelyEntry lo)).wireSize ≤ frameLimit := by
    have same : (Message.eventSubmit (timelyEntry lo)).wireSize =
        (Message.eventSubmit (timelyEntry 0)).wireSize := rfl
    rw [same]
    decide
  exact Message.arrived_submit encodable ⟨rfl, rfl, rfl, rfl⟩ size rfl

/-- A worker registers, and an event of it is stored. -/
def earlyEvents : List ProcessStep :=
  [.thread .accept, .thread (.receive 0 (.register { worker := ⟨0, 1⟩, boot := ⟨0, 2⟩ })),
    .thread .account, .thread (.receive 0 (.eventSubmit (timelyEntry 3))), .thread .account]

theorem wired_early : ∀ input ∈ earlyEvents, input.Wired := by
  have registers : (Message.register { worker := ⟨0, 1⟩, boot := ⟨0, 2⟩ }).Arrived :=
    @Message.arrived_of_content _ (ByteWriter.putId (⟨0, 1⟩ : WorkerId) ++
      ByteWriter.putId (⟨0, 2⟩ : WorkerBootId)) rfl (by decide)
  exact List.forall_mem_cons.mpr ⟨trivial, List.forall_mem_cons.mpr ⟨registers,
    List.forall_mem_cons.mpr ⟨trivial, List.forall_mem_cons.mpr ⟨arrived_timely 3,
      List.forall_mem_singleton.mpr trivial⟩⟩⟩⟩

/-- After the end of the input, an event is answered before the ledger is saved,
and another one when the sockets are closed. -/
def lateEvents : List ProcessStep :=
  [.thread (.receive 0 (.eventSubmit (timelyEntry 4))), .thread .account, .save, .stop,
    .thread (.receive 0 (.eventSubmit (timelyEntry 5))), .closeSocket, .closeSocket,
    .thread .account, .thread .account, .acceptFails, .join]

end CoordinatorProcess

end InferenceLedger
