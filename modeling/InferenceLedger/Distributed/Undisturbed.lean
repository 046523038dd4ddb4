import InferenceLedger.Accounting.Delivery
import InferenceLedger.Distributed.Arrivals
import InferenceLedger.Distributed.Boots
import InferenceLedger.Distributed.LiveWorkers
import InferenceLedger.Distributed.ScriptDelivery

namespace InferenceLedger

open Foundation Std Threads

/-!
# Undisturbed runs

The fences of the coordinator only ever keep out what is late.  When no process
is killed and all of them hold their connections, no epoch is advanced; and when
their scripts agree on the boot of each worker and on the scope of each request,
every comparison of `validate_authority` succeeds, in whichever order the
entries of different workers meet in the queue.  So such a run ends with all of
the written entries in the ledger, each of them once, and with nothing else.

The order in the ledger is that of the queue and differs from run to run.  The
account of a request does not.
-/

/-- What the processes of a run agree on. -/
structure Agreement where
  boot : WorkerId → WorkerBootId
  requestGeneration : RequestId → RequestGeneration
  attempt : RequestId → AttemptId
  attemptGeneration : RequestId → AttemptGeneration

namespace Agreement

variable (agreement : Agreement)

/-- The entry carries what was agreed, under the authority of a coordinator that
has lost no worker. -/
structure Covers (e : LedgerEntry) : Prop where
  epoch : e.authority.epoch = ⟨1⟩
  accountingGeneration : e.authority.accountingGeneration = ⟨1⟩
  boot : e.authority.workerBoot = agreement.boot e.worker
  requestGeneration : e.authority.requestGeneration = agreement.requestGeneration e.request
  attempt : e.authority.attempt = agreement.attempt e.request
  attemptGeneration : e.authority.attemptGeneration = agreement.attemptGeneration e.request

/-- Work items that follow the agreement.  No worker is lost, and an event comes
after a registration of its worker. -/
structure Admits (items : List WorkItem) : Prop where
  registrations : ∀ conn reg, .register conn reg ∈ items → reg.boot = agreement.boot reg.worker
  events : ∀ conn e, .event conn e ∈ items → agreement.Covers e
  introduced : ∀ before conn e later, items = before ++ .event conn e :: later →
    ∃ source reg, .register source reg ∈ before ∧ reg.worker = e.worker
  losses : ∀ conn worker, .workerLost conn worker ∉ items

end Agreement

/-! ## The coordinator -/

theorem Coordinator.consistent_after (ledgerId : LedgerId) (items : List WorkItem) :
    (after ledgerId items).ledger.Consistent := by
  let Tied (c : Coordinator) : Prop := c.ledger.Consistent
  have initial : Tied (new ledgerId) := Ledger.consistent_empty ledgerId
  refine Machine.run_invariant ?_ initial items
  intro c item consistent
  cases item with
  | register conn reg => exact consistent
  | event conn e => exact Ledger.Consistent.append consistent _ e
  | workerLost conn worker => exact consistent

/-- The entries of the events among work items. -/
def Threads.eventsIn (items : List WorkItem) : List LedgerEntry := items.filterMap eventIn

/-- The answer to an event that was stored. -/
def Threads.acceptance : EventAckMsg := acknowledgement ⟨.accepted, "accepted"⟩

theorem Threads.eventsIn_append (first second : List WorkItem) :
    eventsIn (first ++ second) = eventsIn first ++ eventsIn second := List.filterMap_append

namespace Agreement.Admits

variable {agreement : Agreement} {items first second : List WorkItem}

theorem of_append (admits : agreement.Admits (first ++ second)) : agreement.Admits first where
  registrations := fun conn reg member =>
    admits.registrations conn reg (List.mem_append_left _ member)
  events := fun conn e member => admits.events conn e (List.mem_append_left _ member)
  introduced := fun before conn e later split =>
    admits.introduced before conn e (later ++ second) (moment_append split second)
  losses := fun conn worker member => admits.losses conn worker (List.mem_append_left _ member)

theorem register (admits : agreement.Admits items) {conn : Nat} {reg : RegisterMsg}
    (agreed : reg.boot = agreement.boot reg.worker) :
    agreement.Admits (items ++ [.register conn reg]) where
  registrations := by
    intro source other member
    rcases List.mem_append.mp member with earlier | now
    · exact admits.registrations source other earlier
    · cases List.mem_singleton.mp now
      exact agreed
  events := by
    intro source e member
    apply admits.events source
    simpa using member
  introduced := by
    intro before source e later split
    rcases concat_eq_append_cons_iff.mp split with ⟨-, same, -⟩ | ⟨rest, -, earlier⟩
    · cases same
    · exact admits.introduced before source e rest earlier
  losses := by
    intro source worker member
    apply admits.losses source worker
    simpa using member

theorem event (admits : agreement.Admits items) {conn : Option Nat} {e : LedgerEntry}
    (covered : agreement.Covers e) {source : Nat} {reg : RegisterMsg}
    (registered : .register source reg ∈ items) (same : reg.worker = e.worker) :
    agreement.Admits (items ++ [.event conn e]) where
  registrations := by
    intro source other member
    apply admits.registrations source
    simpa using member
  events := by
    intro other entry member
    rcases List.mem_append.mp member with earlier | now
    · exact admits.events other entry earlier
    · cases List.mem_singleton.mp now
      exact covered
  introduced := by
    intro before other entry later split
    rcases concat_eq_append_cons_iff.mp split with ⟨now, last, -⟩ | ⟨rest, -, earlier⟩
    · cases last
      rw [← now]
      exact ⟨source, reg, registered, same⟩
    · exact admits.introduced before other entry rest earlier
  losses := by
    intro other worker member
    apply admits.losses other worker
    simpa using member

/-- Nothing was lost, so the first epoch is the current one. -/
theorem lostCount_eq_zero (admits : agreement.Admits items) : Coordinator.lostCount items = 0 := by
  induction items using List.reverseRecOn with
  | nil => rfl
  | append_singleton items item ih =>
      rw [Coordinator.lostCount_append, ih admits.of_append]
      cases item with
      | register conn reg => rfl
      | event conn e => rfl
      | workerLost conn worker =>
          exact absurd (List.mem_append_right items List.mem_cons_self) (admits.losses conn worker)

theorem fences (admits : agreement.Admits items) (ledgerId : LedgerId) :
    (Coordinator.after ledgerId items).authority.epoch = ⟨1⟩ ∧
      (Coordinator.after ledgerId items).authority.accountingGeneration = ⟨1⟩ := by
  rcases Coordinator.after_fences ledgerId items with ⟨epoch, generation, -⟩
  rw [admits.lostCount_eq_zero] at epoch generation
  exact ⟨congrArg Generation.mk epoch, congrArg Generation.mk generation⟩

/-- A worker that has registered is known under its agreed boot. -/
theorem workerBoot (admits : agreement.Admits items) {source : Nat} {reg : RegisterMsg}
    (registered : .register source reg ∈ items) (ledgerId : LedgerId) :
    (Coordinator.after ledgerId items).authority.workerBoot[reg.worker]? =
      some (agreement.boot reg.worker) := by
  rw [Coordinator.workerBoot_after]
  cases found : latest (Coordinator.bootOf reg.worker) items with
  | none =>
      have silent := (latest_eq_none_iff _ items).mp found _ registered
      simp [Coordinator.bootOf] at silent
  | some boot =>
      rcases latest_eq_some_iff.mp found with ⟨before, item, later, split, chosen, -⟩
      have member : item ∈ items := by
        rw [split]
        exact List.mem_append_right before List.mem_cons_self
      cases item with
      | register conn other =>
          rcases Option.ite_none_right_eq_some.mp chosen with ⟨same, value⟩
          rw [← Option.some.inj value, admits.registrations conn other member, same]
      | event conn e => cases chosen
      | workerLost conn worker => cases chosen

/-- The starts of a request that were handled carry its agreed scope. -/
theorem lastStart (admits : agreement.Admits items) {request : RequestId} {s : LedgerEntry}
    (started : Coordinator.lastStart request items = some s) :
    agreement.Covers s ∧ s.request = request := by
  rcases latest_eq_some_iff.mp started with ⟨before, item, later, split, chosen, -⟩
  have member : item ∈ items := by
    rw [split]
    exact List.mem_append_right before List.mem_cons_self
  cases item with
  | event conn e =>
      rcases Option.ite_none_right_eq_some.mp chosen with ⟨starts, same⟩
      rw [← Option.some.inj same]
      exact ⟨admits.events conn e member, starts.2⟩
  | register conn reg => cases chosen
  | workerLost conn worker => cases chosen

/-- The records of a request never conflict with what was agreed. -/
theorem scopeCurrent (admits : agreement.Admits items) {e : LedgerEntry}
    (covered : agreement.Covers e) (ledgerId : LedgerId) :
    RequestScopeCurrent e ((Coordinator.after ledgerId items).authorityFor e) := by
  rw [Coordinator.authorityFor]
  split
  · rename_i start
    exact Coordinator.requestScopeCurrent_adopt start _
  · have records := Coordinator.after_records ledgerId items e.request
    refine ⟨?_, ?_, ?_, ?_⟩
    · intro flagged
      rcases (Coordinator.rolled_after_iff ledgerId items e.request).mp flagged with
        ⟨before, conn, worker, later, split, -⟩
      refine absurd ?_ (admits.losses conn worker)
      rw [split]
      exact List.mem_append_right before List.mem_cons_self
    all_goals
      cases started : Coordinator.lastStart e.request items with
      | none => simp [records.requestGeneration, records.attempt, records.attemptGeneration,
          started, recordConflicts]
      | some s =>
          rcases admits.lastStart started with ⟨other, same⟩
          simp [records.requestGeneration, records.attempt, records.attemptGeneration, started,
            recordConflicts, covered.requestGeneration, covered.attempt,
            covered.attemptGeneration, other.requestGeneration, other.attempt,
            other.attemptGeneration, same]

/-- Only what is malformed or known already is refused. -/
theorem acceptedAt_iff (admits : agreement.Admits items) {before later : List WorkItem}
    {conn : Option Nat} {e : LedgerEntry} (handled : items = before ++ .event conn e :: later)
    (ledgerId : LedgerId) :
    Coordinator.AcceptedAt ledgerId before e ↔ contentIsValid e = true ∧
      (Coordinator.after ledgerId before).ledger.index[e.id]? = none := by
  have earlier : agreement.Admits before := by
    rw [handled] at admits
    exact admits.of_append
  have covered : agreement.Covers e := by
    apply admits.events conn
    rw [handled]
    exact List.mem_append_right before List.mem_cons_self
  rcases admits.introduced before conn e later handled with ⟨source, reg, registered, same⟩
  have boot := earlier.workerBoot registered ledgerId
  rcases earlier.fences ledgerId with ⟨epoch, generation⟩
  rw [Coordinator.acceptedAt_iff_boot]
  constructor
  · rintro ⟨-, admissible⟩
    exact ⟨admissible.content, admissible.fresh⟩
  · rintro ⟨content, fresh⟩
    rw [same, ← covered.boot] at boot
    exact ⟨boot, content, covered.epoch.trans epoch.symm,
      covered.accountingGeneration.trans generation.symm, earlier.scopeCurrent covered ledgerId, fresh⟩

/-- Distinct and well-formed events are all stored, in their order, and all
answered alike. -/
theorem settles (admits : agreement.Admits items)
    (valid : ∀ e ∈ eventsIn items, contentIsValid e = true)
    (distinct : ((eventsIn items).map LedgerEntry.id).Nodup) (ledgerId : LedgerId) :
    (Coordinator.after ledgerId items).ledger.entries = eventsIn items ∧
      ∀ conn, ∀ ack ∈ answers ledgerId conn items, ack = acceptance := by
  induction items using List.reverseRecOn with
  | nil =>
      refine ⟨rfl, fun conn ack member => ?_⟩
      cases member
  | append_singleton items item ih =>
      rw [eventsIn_append] at valid distinct ⊢
      rw [List.map_append, List.nodup_append] at distinct
      rcases ih admits.of_append (fun e member => valid e (List.mem_append_left _ member))
        distinct.1 with ⟨entries, answered⟩
      rw [Coordinator.after, Machine.run_concat]
      simp only [answers_concat, List.mem_append]
      cases item with
      | register source reg =>
          refine ⟨entries.trans (List.append_nil _).symm, fun conn ack => ?_⟩
          rintro (earlier | now)
          · exact answered conn ack earlier
          · cases now
      | workerLost source worker =>
          exact absurd (List.mem_append_right items List.mem_cons_self)
            (admits.losses source worker)
      | event source e =>
          have fresh : (Coordinator.after ledgerId items).ledger.index[e.id]? = none := by
            rw [(Coordinator.consistent_after ledgerId items).index_eq_none_iff, entries]
            intro known
            exact distinct.2.2 _ known _ (List.mem_map_of_mem List.mem_cons_self) rfl
          have accepted := (admits.acceptedAt_iff rfl ledgerId).mpr
            ⟨valid e (List.mem_append_right _ List.mem_cons_self), fresh⟩
          rw [Coordinator.AcceptedAt, Coordinator.accountEvent_result,
            Ledger.append_accepted_iff] at accepted
          have stored := Ledger.append_of_admissible accepted
          constructor
          · change ((Coordinator.after ledgerId items).ledger.append _ e).1.entries = _
            rw [stored, Ledger.store_entries, entries]
            rfl
          · intro conn ack
            rintro (earlier | now)
            · exact answered conn ack earlier
            · rcases List.mem_map.mp now with ⟨other, own, rfl⟩
              have same : other = e := by
                by_cases here : source = some conn
                · simpa [eventsOn, eventOn, here] using own
                · simp [eventsOn, eventOn, here] at own
              rw [same, Coordinator.accountEvent_result, stored, acceptance]

end Agreement.Admits

/-! ## The items of a run -/

namespace Threads

/-- One connection has the event. -/
theorem filterMap_eventOn_range {count source : Nat} (inside : source < count) (e : LedgerEntry) :
    (List.range count).filterMap (fun conn => eventOn conn (.event (some source) e)) = [e] := by
  induction count with
  | zero => cases inside
  | succ count ih =>
      rw [List.range_succ, List.filterMap_append]
      by_cases last : source = count
      · subst last
        have others : (List.range source).filterMap
            (fun conn => eventOn conn (.event (some source) e)) = [] := by
          rw [List.filterMap_eq_nil_iff]
          intro conn member
          have below := List.mem_range.mp member
          simp [eventOn, Nat.ne_of_gt below]
        rw [others]
        simp [eventOn]
      · rw [ih (by omega)]
        simp [eventOn, last]

/-- The events of all connections, put together. -/
theorem flatMap_eventsOn_perm {items : List WorkItem} {count : Nat}
    (known : ∀ conn e, .event conn e ∈ items → ∃ source < count, conn = some source) :
    ((List.range count).flatMap fun conn => eventsOn conn items).Perm (eventsIn items) := by
  induction items with
  | nil => simp [eventsOn, eventsIn]
  | cons item items ih =>
      have rest := ih fun conn e member => known conn e (List.mem_cons_of_mem item member)
      have split := List.flatMap_append_perm (List.range count)
        (fun conn => (eventOn conn item).toList) (fun conn => eventsOn conn items)
      have each : (fun conn => eventsOn conn (item :: items)) = fun conn =>
          (eventOn conn item).toList ++ eventsOn conn items := by
        funext conn
        cases chosen : eventOn conn item <;> simp [eventsOn, chosen]
      have front : ((List.range count).flatMap fun conn => (eventOn conn item).toList) =
          (eventIn item).toList := by
        rw [← List.filterMap_eq_flatMap_toList]
        cases item with
        | register source reg => simp [eventOn, eventIn]
        | workerLost source worker => simp [eventOn, eventIn]
        | event conn e =>
            rcases known conn e List.mem_cons_self with ⟨source, inside, rfl⟩
            exact filterMap_eventOn_range inside e
      have whole : eventsIn (item :: items) = (eventIn item).toList ++ eventsIn items := by
        cases chosen : eventIn item <;> simp [eventsIn, chosen]
      rw [each, whole, ← front]
      exact split.symm.trans (rest.append_left _)

/-- What was handled and what is queued: all the items that there ever were, in
their order. -/
def items (ledgerId : LedgerId) (steps : List ThreadStep) : List WorkItem :=
  handled (seen ledgerId steps) ++ (after ledgerId steps).queue

/-- The items that a step adds. -/
def added (threads : Threads) : ThreadStep → List WorkItem
  | .accept => []
  | .receive conn message =>
      if threads.readers[conn]? = some .reading then itemsOf conn message else []
  | .receiveFailure conn =>
      if threads.readers[conn]? = some .reading then threads.lossOf conn else []
  | .account => []

theorem items_concat (ledgerId : LedgerId) (steps : List ThreadStep) (input : ThreadStep) :
    items ledgerId (steps ++ [input]) =
      items ledgerId steps ++ added (after ledgerId steps) input := by
  rw [items, seen, Machine.trace_concat, after, Machine.run_concat, handled_append]
  change _ ++ handled (step (after ledgerId steps) input).2 ++
    (step (after ledgerId steps) input).1.queue = _
  rw [items]
  cases input with
  | accept => simp [step, accept, added, handled_nil]
  | receive conn message =>
      by_cases reading : (after ledgerId steps).readers[conn]? = some .reading
      · simp [step, reading, added, (receive_eq (after ledgerId steps) conn message).1,
          handled_received, handled_sent]
      · simp [step, reading, added, handled_nil]
  | receiveFailure conn =>
      by_cases reading : (after ledgerId steps).readers[conn]? = some .reading
      · simp [step, reading, added, receiveFailure_eq, handled_nil]
      · simp [step, reading, added, handled_nil]
  | account =>
      cases queued : (after ledgerId steps).queue with
      | nil => simp [step, account, queued, added, handled_nil]
      | cons item rest => simp [step, account, queued, added, handled_cons, handled_sent]

end Threads

/-! ## The cluster -/

/-- The same process, later. -/
structure Session.Continues (before s : Session) : Prop where
  arguments : s.worker.arguments = before.worker.arguments
  alive : s.killed = false → before.killed = false

namespace Session.Continues

variable {before s : Session}

theorem refl (s : Session) : s.Continues s := ⟨rfl, id⟩

theorem trans {first second third : Session} (left : first.Continues second)
    (right : second.Continues third) : first.Continues third where
  arguments := right.arguments.trans left.arguments
  alive := fun living => left.alive (right.alive living)

theorem worker (continues : before.Continues s) : s.worker.worker = before.worker.worker :=
  congrArg Prod.fst continues.arguments

theorem boot (continues : before.Continues s) : s.worker.boot = before.worker.boot :=
  congrArg (fun arguments => arguments.2.1) continues.arguments

theorem script (continues : before.Continues s) : s.worker.script = before.worker.script :=
  congrArg (fun arguments => arguments.2.2.1) continues.arguments

theorem hold (continues : before.Continues s) : s.worker.hold = before.worker.hold :=
  congrArg (fun arguments => arguments.2.2.2) continues.arguments

end Session.Continues

/-- A process that follows the agreement: it was not killed, it holds its
connection, and its script was written from entries under its own name. -/
structure Agreement.Serves (agreement : Agreement) (s : Session) (entries : List LedgerEntry) :
    Prop where
  alive : s.killed = false
  hold : s.worker.hold = true
  boot : s.worker.boot = agreement.boot s.worker.worker
  runs : s.worker.Runs entries
  covers : ∀ e ∈ writtenEntries entries, agreement.Covers e ∧ e.worker = s.worker.worker

/-- What is agreed on are the arguments of a process. -/
theorem Agreement.Serves.earlier {agreement : Agreement} {s before : Session}
    {entries : List LedgerEntry} (serves : agreement.Serves s entries)
    (continues : before.Continues s) : agreement.Serves before entries where
  alive := continues.alive serves.alive
  hold := continues.hold ▸ serves.hold
  boot := by
    rw [← continues.boot, ← continues.worker]
    exact serves.boot
  runs := ⟨continues.script ▸ serves.runs.script, serves.runs.listed, serves.runs.fits⟩
  covers := by
    rw [← continues.worker]
    exact serves.covers

/-- A process under the agreement closes its connection never. -/
theorem Agreement.Serves.not_gone {agreement : Agreement} {conn : Nat} {s : Session} {d : Desk}
    {up down : List Message} {entries : List LedgerEntry} (serves : agreement.Serves s entries)
    (conversation : Conversation conn s d up down) : s.gone = false := by
  rw [Session.gone, serves.alive, Bool.false_or]
  by_contra left
  have exited : s.worker.exited = true := by simpa using left
  have ended : s.worker.phase.ended = true := by
    cases phase : s.worker.phase <;> simp_all [Worker.exited, Phase.ended]
  have started : s.worker.phase ≠ .connected := by
    intro phase
    simp [phase, Phase.ended] at ended
  have idle : s.worker.waiting = false := by
    cases phase : s.worker.phase <;> simp_all [Phase.ended, Worker.waiting]
  have finished := serves.runs.finished_of_ended conversation.orderly
    (conversation.talk.of_settled started idle).1 ended
  simp [Worker.exited, finished, serves.hold] at exited

namespace Cluster

/-- What a worker sends is its registration, or, once it is registered, an entry
of its script. -/
theorem request_cases {conn : Nat} {s : Session} {d : Desk} {message : Message}
    {up down : List Message} (conversation : Conversation conn s d (message :: up) down) :
    message = s.worker.registration ∨
      d.registered = true ∧ ∃ e, message = .eventSubmit e ∧
        scriptEntry s.worker.data s.worker.index = some e := by
  have talk := conversation.talk
  generalize d.registered = flag at talk ⊢
  generalize d.queued = queued at talk
  generalize sent : message :: up = messages at talk
  cases talk with
  | registrationSent phase =>
      cases sent
      exact Or.inl rfl
  | entrySent phase entry behind =>
      cases sent
      exact Or.inr ⟨rfl, _, rfl, entry⟩
  | _ => cases sent

section Sessions

variable {c : Cluster} {conn : Nat} {before : Session}
  (listed : c.sessions[conn]? = some before)
include listed

theorem continues_modify (source : Nat) {change : Session → Session}
    (kept : ∀ s : Session, s.Continues (change s)) :
    ∃ s, (c.sessions.modify source change)[conn]? = some s ∧ before.Continues s := by
  by_cases own : source = conn
  · exact ⟨change before, by simp [own, listed], kept before⟩
  · exact ⟨before, by simp [own, listed], .refl before⟩

theorem continues_advance (input : ThreadStep) :
    ∃ s, (c.advance input).1.sessions[conn]? = some s ∧ before.Continues s := by
  refine ⟨before.post (sentTo conn (Threads.step c.threads input).2), ?_, rfl, id⟩
  rw [getElem?_advance, listed, Option.map_some]

/-- A step leaves every process in its place, with its arguments, and revives
none. -/
theorem continues_step (input : ClusterStep) :
    ∃ s, (step c input).1.sessions[conn]? = some s ∧ before.Continues s := by
  cases input with
  | connect worker boot script hold =>
      refine ⟨before, ?_, .refl before⟩
      rcases List.getElem?_eq_some_iff.mp listed with ⟨inside, -⟩
      exact (List.getElem?_append_left inside).trans listed
  | proceed source =>
      refine continues_modify listed source fun s => ⟨s.arguments_proceed, fun alive => ?_⟩
      unfold Session.proceed at alive
      split at alive <;> exact alive
  | deliver source =>
      refine continues_modify listed source fun s => ⟨s.arguments_deliver, fun alive => ?_⟩
      unfold Session.deliver at alive
      split at alive
      · exact alive
      · split at alive <;> exact alive
  | kill source =>
      exact continues_modify listed source fun s => ⟨rfl, fun dead => by cases dead⟩
  | account => exact continues_advance listed .account
  | lose source =>
      simp only [step]
      split
      · exact ⟨before, listed, .refl before⟩
      · split
        · exact continues_advance listed (.receiveFailure source)
        · exact ⟨before, listed, .refl before⟩
  | read source =>
      simp only [step]
      split
      · exact ⟨before, listed, .refl before⟩
      · split
        · unfold Cluster.read
          split
          · exact ⟨before, listed, .refl before⟩
          · exact continues_advance listed (.receiveFailure source)
          · exact ⟨before, listed, .refl before⟩
          · rename_i message rest arrived
            rcases @continues_modify c conn before listed source
              (fun s => { s with toCoordinator := rest }) (fun _ => ⟨rfl, id⟩) with
              ⟨between, there, first⟩
            rcases @continues_advance
              { c with sessions := c.sessions.modify source fun s => { s with toCoordinator := rest } }
              conn between there (.receive source message) with ⟨s, found, second⟩
            exact ⟨s, found, first.trans second⟩
        · exact ⟨before, listed, .refl before⟩

end Sessions

/-! ## Undisturbed steps -/

/-- The items of a run so far follow the agreement, and each of them belongs to
a process that was started. -/
structure Calm (agreement : Agreement) (items : List WorkItem) (c : Cluster) : Prop where
  admits : agreement.Admits items
  registrations : ∀ (conn : Nat) (reg : RegisterMsg), .register conn reg ∈ items →
    ∃ s, c.sessions[conn]? = some s ∧ reg = { worker := s.worker.worker, boot := s.worker.boot }
  events : ∀ conn e, .event conn e ∈ items → ∃ source < c.sessions.length, conn = some source

section Calm

variable {agreement : Agreement} {ledgerId : LedgerId} {schedule : List ThreadStep} {c : Cluster}
  {scripts : Nat → List LedgerEntry}

/-- The items stay, or a reader adds what it has received. -/
theorem items_step (coherent : Coherent ledgerId schedule c)
    (served : ∀ (conn : Nat) (s : Session), c.sessions[conn]? = some s →
      agreement.Serves s (scripts conn)) (input : ClusterStep) :
    items ledgerId (schedule ++ (step c input).2) = items ledgerId schedule ∨
    ∃ conn s message rest, c.sessions[conn]? = some s ∧
      receipt s.toCoordinator = .received message rest ∧
      items ledgerId (schedule ++ (step c input).2) =
        items ledgerId schedule ++ itemsOf conn message := by
  have silent : ∀ {inputs}, inputs = [] →
      items ledgerId (schedule ++ inputs) = items ledgerId schedule := by
    rintro inputs rfl
    rw [List.append_nil]
  have quiet : ∀ {input}, added (Threads.after ledgerId schedule) input = [] →
      items ledgerId (schedule ++ [input]) = items ledgerId schedule := by
    intro input nothing
    rw [items_concat, nothing, List.append_nil]
  cases input with
  | connect worker boot script hold => exact Or.inl (quiet rfl)
  | proceed source => exact Or.inl (silent rfl)
  | deliver source => exact Or.inl (silent rfl)
  | kill source => exact Or.inl (silent rfl)
  | account => exact Or.inl (quiet rfl)
  | lose source =>
      simp only [step]
      split
      · exact Or.inl (silent rfl)
      · rename_i s listed
        have serves := served source s listed
        rcases coherent.converses source s listed serves.runs.scriptFits with
          ⟨up, down, conversation⟩
        rw [serves.not_gone conversation]
        exact Or.inl (silent rfl)
  | read source =>
      simp only [step]
      split
      · exact Or.inl (silent rfl)
      · rename_i s listed
        rcases coherent.converses source s listed (served source s listed).runs.scriptFits with
          ⟨up, down, conversation⟩
        split
        · rename_i reading
          unfold Cluster.read
          split
          · exact Or.inl (silent rfl)
          · rename_i failure
            exact absurd failure conversation.not_failed
          · exact Or.inl (silent rfl)
          · rename_i message rest arrived
            refine Or.inr ⟨source, s, message, rest, listed, arrived, ?_⟩
            rw [coherent.threads] at reading
            change items ledgerId (schedule ++ [.receive source message]) = _
            rw [items_concat, added, if_pos reading]
        · exact Or.inl (silent rfl)

theorem Calm.kept {items : List WorkItem} {c' : Cluster} (calm : Calm agreement items c)
    (continues : ∀ (conn : Nat) (before : Session), c.sessions[conn]? = some before →
      ∃ s, c'.sessions[conn]? = some s ∧ before.Continues s) : Calm agreement items c' where
  admits := calm.admits
  registrations := by
    intro conn reg member
    rcases calm.registrations conn reg member with ⟨before, listed, rfl⟩
    rcases continues conn before listed with ⟨s, found, same⟩
    exact ⟨s, found, by rw [same.worker, same.boot]⟩
  events := by
    intro conn e member
    rcases calm.events conn e member with ⟨source, inside, same⟩
    rcases continues source _ (List.getElem?_eq_getElem inside) with ⟨s, found, -⟩
    exact ⟨source, (List.getElem?_eq_some_iff.mp found).1, same⟩

/-- A reader adds a registration under the agreed boot, or an entry of a worker
that was registered before. -/
theorem Calm.received {conn : Nat} {s : Session} {message : Message} {rest : List UInt8}
    (calm : Calm agreement (items ledgerId schedule) c) (coherent : Coherent ledgerId schedule c)
    (listed : c.sessions[conn]? = some s) (serves : agreement.Serves s (scripts conn))
    (arrived : receipt s.toCoordinator = .received message rest) :
    Calm agreement (items ledgerId schedule ++ itemsOf conn message) c := by
  rcases List.getElem?_eq_some_iff.mp listed with ⟨inside, -⟩
  rcases coherent.converses conn s listed serves.runs.scriptFits with ⟨up, down, conversation⟩
  rcases conversation.receipt_toCoordinator with ⟨-, blocked⟩ | ⟨first, behind, rfl, taken⟩
  · cases blocked.symm.trans arrived
  cases taken.symm.trans arrived
  rcases request_cases conversation with rfl | ⟨flag, e, rfl, entry⟩
  · refine ⟨calm.admits.register serves.boot, ?_, ?_⟩
    · intro source reg member
      rcases List.mem_append.mp member with earlier | now
      · exact calm.registrations source reg earlier
      · cases List.mem_singleton.mp now
        exact ⟨s, listed, rfl⟩
    · intro source e member
      apply calm.events source e
      simpa [itemsOf, Worker.registration] using member
  · rcases serves.runs.of_scriptEntry entry with ⟨original, written, rfl⟩
    rcases serves.covers original written with ⟨covered, own⟩
    -- The flag is set by the registration of this connection, which names the process.
    have flagged : ∃ worker, (Threads.after ledgerId schedule).Registered conn worker := by
      rw [← coherent.threads, ← mem_positions_iff]
      exact flag
    rcases (registered_after_iff ledgerId schedule conn).mp flagged with ⟨reg, handledReg⟩
    have known : .register conn reg ∈ items ledgerId schedule :=
      List.mem_append_left _ handledReg
    rcases calm.registrations conn reg known with ⟨other, found, rfl⟩
    rw [listed] at found
    cases found
    refine ⟨calm.admits.event ⟨covered.epoch, covered.accountingGeneration, covered.boot,
      covered.requestGeneration, covered.attempt, covered.attemptGeneration⟩ known own.symm,
      ?_, ?_⟩
    · intro source reg member
      apply calm.registrations source reg
      simpa [itemsOf] using member
    · intro source e member
      rcases List.mem_append.mp member with earlier | now
      · exact calm.events source e earlier
      · cases List.mem_singleton.mp now
        exact ⟨conn, inside, rfl⟩

end Calm

/-- Every undisturbed run follows the agreement. -/
theorem calm_after {agreement : Agreement} {scripts : Nat → List LedgerEntry}
    {ledgerId : LedgerId} {steps : List ClusterStep}
    (served : ∀ (conn : Nat) (s : Session), (after ledgerId steps).sessions[conn]? = some s →
      agreement.Serves s (scripts conn)) :
    Calm agreement (items ledgerId (schedule ledgerId steps)) (after ledgerId steps) := by
  induction steps using List.reverseRecOn with
  | nil =>
      have nothing : items ledgerId (schedule ledgerId []) = [] := rfl
      rw [nothing]
      refine ⟨⟨?_, ?_, ?_, ?_⟩, ?_, ?_⟩
      all_goals simp
  | append_singleton steps input ih =>
      have schedules : schedule ledgerId (steps ++ [input]) =
          schedule ledgerId steps ++ (step (after ledgerId steps) input).2 :=
        Machine.trace_concat _ _ _
      have ends : after ledgerId (steps ++ [input]) = (step (after ledgerId steps) input).1 :=
        Machine.run_concat _ _ _ _
      rw [ends] at served ⊢
      rw [schedules]
      have earlier : ∀ (conn : Nat) (s : Session), (after ledgerId steps).sessions[conn]? = some s →
          agreement.Serves s (scripts conn) := by
        intro conn before listed
        rcases continues_step listed input with ⟨s, found, continues⟩
        exact (served conn s found).earlier continues
      have coherent := coherent_after ledgerId steps
      apply Calm.kept _ (fun conn before listed => continues_step listed input)
      rcases items_step coherent earlier input with same |
        ⟨conn, s, message, rest, listed, arrived, grown⟩
      · rw [same]
        exact ih earlier
      · rw [grown]
        exact (ih earlier).received coherent listed (earlier conn s listed) arrived

/-! ## The end of an undisturbed run -/

/-- The entries written for the first connections, as a decoder gives them. -/
def writtenFor (scripts : Nat → List LedgerEntry) (count : Nat) : List LedgerEntry :=
  (List.range count).flatMap fun conn => (writtenEntries (scripts conn)).map LedgerEntry.normalize

section Rest

variable {agreement : Agreement} {scripts : Nat → List LedgerEntry} {ledgerId : LedgerId}
  {steps : List ClusterStep}
  (served : ∀ (conn : Nat) (s : Session), (after ledgerId steps).sessions[conn]? = some s →
    agreement.Serves s (scripts conn))
  (rest : Machine.AtRest moves Internal (after ledgerId steps))
include served rest

theorem finished_of_served {conn : Nat} {s : Session}
    (listed : (after ledgerId steps).sessions[conn]? = some s) : s.worker.phase = .finished := by
  have serves := served conn s listed
  refine finished_of_rest listed serves.runs (fun other t found => ?_) rest serves.alive
  exact ⟨_, (served other t found).runs⟩

/-- At rest the queue is empty, so what was handled is all there is. -/
theorem calm_handled :
    Calm agreement (handled (seen ledgerId steps)) (after ledgerId steps) := by
  have drained : (after ledgerId steps).threads.queue = [] := by
    have still := rest .account trivial
    simpa [moves] using still
  have all : items ledgerId (schedule ledgerId steps) = handled (seen ledgerId steps) := by
    rw [items, ← threads_after, drained, List.append_nil]
  rw [← all]
  exact calm_after served

/-- What was handled is what was written. -/
theorem eventsIn_perm :
    (eventsIn (handled (seen ledgerId steps))).Perm
      (writtenFor scripts (after ledgerId steps).sessions.length) := by
  have together := flatMap_eventsOn_perm (calm_handled served rest).events
  apply together.symm.trans
  apply List.Perm.of_eq
  apply List.flatMap_congr
  intro conn member
  have listed := List.getElem?_eq_getElem (List.mem_range.mp member)
  exact (handled_written listed (served conn _ listed).runs
    (finished_of_served served rest listed)).1

end Rest

/-- What was written is well formed. -/
theorem valid_of_mem_writtenFor {scripts : Nat → List LedgerEntry} {count : Nat} {e : LedgerEntry}
    (member : e ∈ writtenFor scripts count) : contentIsValid e = true := by
  rcases List.mem_flatMap.mp member with ⟨conn, -, inside⟩
  rcases List.mem_map.mp inside with ⟨original, written, rfl⟩
  have encodable := encodable_of_mem_written written
  exact (encodable_iff_contentIsValid encodable.metadataSize).mp encodable

end Cluster

end InferenceLedger
