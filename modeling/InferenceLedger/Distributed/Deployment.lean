import InferenceLedger.Distributed.ScriptDelivery

namespace InferenceLedger

open Foundation Std Threads

/-!
# The deployment, and the end of the coordinator

In the cluster every message that the coordinator sends to a process that is gone
is simply lost.  On a POSIX system this holds of the first of them; the answer to
it closes the connection for good, and a later `send` on it raises SIGPIPE, which
ends the coordinator, since neither the flags of `send` nor the tool prevent it.
The broadcast of `handle_worker_lost` goes to every connection that was ever
registered, so that this can happen in any run in which processes end.

The deployment is the cluster with that one more thing to happen.  Up to it, a
run of the deployment is a run of the cluster.  From then on the workers are by
themselves, and those that wait for an answer find their connections closed.
-/

/-- The cluster, and whether the process of the coordinator is still there. -/
structure Deployment where
  cluster : Cluster
  up : Bool := true

/-- The steps: one of the cluster, and a SIGPIPE that ends the coordinator at one
of the messages that its accounting thread sends. -/
inductive DeploymentStep where
  | cluster (input : ClusterStep)
  | brokenPipe (place : Nat)

/-- The process waits for a message, and none will come. -/
def Session.hangUp (s : Session) : Session :=
  if s.killed || !s.worker.waiting then s
  else match receipt s.toWorker with
    | .blocked => { s with worker := s.worker.receiveFailure "connection closed during recv" }
    | _ => s.deliver

namespace Deployment

def new (ledgerId : LedgerId) : Deployment := { cluster := .new ledgerId }

/-- The process at the far end is gone. -/
def targetGone (d : Deployment) (send : Send) : Bool :=
  send.conn.any fun conn => (d.cluster.sessions[conn]?).any Session.gone

/-- The accounting thread handles an item, and the message at this place of what
it then does raises the signal.  What it sent before is on its way. -/
def brokenPipe (d : Deployment) (place : Nat) : Deployment × List ThreadStep :=
  let next := Threads.step d.cluster.threads .account
  match next.2[place]? with
  | some (.sent send) =>
      if d.targetGone send then
        let sessions := d.cluster.sessions.mapIdx fun conn s =>
          s.post (sentTo conn (next.2.take place))
        ({ cluster := { threads := next.1, sessions }, up := false }, [.account])
      else (d, [])
  | _ => (d, [])

/-- The workers without a coordinator.  A new one cannot connect. -/
def orphaned (c : Cluster) : ClusterStep → Cluster
  | .proceed conn => { c with sessions := c.sessions.modify conn Session.proceed }
  | .deliver conn => { c with sessions := c.sessions.modify conn Session.hangUp }
  | .kill conn =>
      { c with sessions := c.sessions.modify conn fun s => { s with killed := true } }
  | _ => c

/-- The steps of the deployment, with those that the threads of the coordinator
take. -/
def step : Machine Deployment DeploymentStep (List ThreadStep)
  | d, .cluster input =>
      if d.up then ({ d with cluster := (Cluster.step d.cluster input).1 },
        (Cluster.step d.cluster input).2)
      else ({ d with cluster := orphaned d.cluster input }, [])
  | d, .brokenPipe place => if d.up then d.brokenPipe place else (d, [])

abbrev after (ledgerId : LedgerId) (steps : List DeploymentStep) : Deployment :=
  step.run (new ledgerId) steps

/-- What an observer of the coordinator has seen. -/
abbrev seen (ledgerId : LedgerId) (steps : List DeploymentStep) : List Observation :=
  Threads.seen ledgerId (step.trace (new ledgerId) steps)

/-! ## As long as the coordinator is there -/

/-- A signal that leaves the coordinator there did not come. -/
theorem brokenPipe_of_up {d : Deployment} {place : Nat} (up : (d.brokenPipe place).1.up = true) :
    d.brokenPipe place = (d, []) := by
  unfold brokenPipe at up ⊢
  cases found : (Threads.step d.cluster.threads .account).2[place]? with
  | none => simp only [found]
  | some observation =>
      cases observation with
      | sent send =>
          by_cases gone : d.targetGone send = true
          · simp [found, gone] at up
          · simp only [found, if_neg gone]
      | _ => simp only [found]

/-- The cluster has taken these steps. -/
structure Follows (ledgerId : LedgerId) (taken : List ThreadStep) (d : Deployment) : Prop where
  up : d.up = true → ∃ steps, d.cluster = Cluster.after ledgerId steps ∧
    taken = Cluster.schedule ledgerId steps

theorem Follows.step {ledgerId : LedgerId} {taken : List ThreadStep} {d : Deployment}
    (follows : Follows ledgerId taken d) (input : DeploymentStep) :
    Follows ledgerId (taken ++ (step d input).2) (step d input).1 := by
  refine ⟨fun up => ?_⟩
  cases input with
  | cluster own =>
      cases before : d.up with
      | false => simp [Deployment.step, before] at up
      | true =>
          rcases follows.up before with ⟨steps, cluster, schedule⟩
          refine ⟨steps ++ [own], ?_, ?_⟩
          · rw [Cluster.after, Machine.run_concat]
            change _ = (Cluster.step (Cluster.after ledgerId steps) own).1
            simp only [← cluster, Deployment.step, before, if_true]
          · rw [Cluster.schedule, Machine.trace_concat]
            change _ = Cluster.schedule ledgerId steps ++
              (Cluster.step (Cluster.after ledgerId steps) own).2
            simp only [← cluster, ← schedule, Deployment.step, before, if_true]
  | brokenPipe place =>
      cases before : d.up with
      | false => simp [Deployment.step, before] at up
      | true =>
          simp only [Deployment.step, before, if_true] at up ⊢
          rw [brokenPipe_of_up up, List.append_nil]
          exact follows.up before

/-- As long as the coordinator is there, a run is one of the cluster. -/
theorem cluster_of_up {ledgerId : LedgerId} {steps : List DeploymentStep}
    (up : (after ledgerId steps).up = true) :
    ∃ taken, (after ledgerId steps).cluster = Cluster.after ledgerId taken ∧
      seen ledgerId steps = Cluster.seen ledgerId taken := by
  have initial : Follows ledgerId [] (new ledgerId) := ⟨fun _ => ⟨[], rfl, rfl⟩⟩
  have follows := Machine.run_traced initial
    (fun taken d input follows => Follows.step follows input) steps
  rcases follows.up up with ⟨taken, cluster, schedule⟩
  exact ⟨taken, cluster, congrArg (Threads.seen ledgerId) schedule⟩

/-- A worker registers and then finds a single byte in its script.  A signal does
not come, since the accounting thread has nothing to do. -/
def strayByte : List DeploymentStep :=
  [.cluster (.connect ⟨0, 1⟩ ⟨0, 2⟩ (some [0]) true), .cluster (.proceed 0), .cluster (.read 0),
    .cluster .account, .brokenPipe 1, .cluster (.deliver 0), .cluster (.proceed 0)]

/-- Two of three processes are killed.  The broadcast for one of them meets the
connection of the other, and the third worker is cut off. -/
example : ((after {} [.cluster (.connect ⟨0, 1⟩ ⟨0, 2⟩ (some []) true),
      .cluster (.connect ⟨0, 3⟩ ⟨0, 4⟩ (some (entryFrame Cluster.onlyEntry)) true),
      .cluster (.proceed 0), .cluster (.read 0), .cluster .account, .cluster (.kill 0),
      .cluster (.proceed 1), .cluster (.connect ⟨0, 5⟩ ⟨0, 6⟩ (some []) true),
      .cluster (.proceed 2), .cluster (.read 2), .cluster .account, .cluster (.kill 2),
      .cluster (.lose 2), .brokenPipe 1, .cluster (.deliver 1)]).cluster.sessions[1]?).map
        (fun s => s.worker.phase) =
    some (.failed (.recvRegack "connection closed during recv")) := by decide +kernel

/-- The deployment on which nothing else happens. -/
theorem after_map_cluster (ledgerId : LedgerId) (steps : List ClusterStep) :
    after ledgerId (steps.map .cluster) = { cluster := Cluster.after ledgerId steps } := by
  induction steps using List.reverseRecOn with
  | nil => rfl
  | append_singleton steps input ih =>
      rw [List.map_append, after, Machine.run_append]
      change (Deployment.step.run (after ledgerId (steps.map .cluster)) _) = _
      rw [ih]
      change _ = ({ cluster := Cluster.step.run _ (steps ++ [input]) } : Deployment)
      rw [Machine.run_concat]
      rfl

end Deployment

end InferenceLedger
