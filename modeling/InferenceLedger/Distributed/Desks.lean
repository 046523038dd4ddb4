import InferenceLedger.Distributed.Cluster

namespace InferenceLedger

open Foundation Std

/-!
# What the coordinator has of a connection

Of all that the coordinator holds, four things matter to the worker at the far
end of a connection: whether the connection is registered, which of its requests
are queued, which entries were received from it, and what was sent to it.  A
step of the threads that takes no message from the connection either changes
none of them, answers the first queued request, or sends rolls.

Every message that the coordinator sends is small, so it arrives as it was sent.
-/

/-! ## What the coordinator sends arrives as it was sent -/

theorem length_ofString (text : String) :
    (ByteString.ofString text).length = text.utf8ByteSize := by
  rw [ByteString.ofString, toList_byteArray]
  simp

theorem AuthorityVerdict.name_short (verdict : AuthorityVerdict) :
    verdict.name.utf8ByteSize ≤ 64 := by
  cases verdict <;> decide

theorem Ledger.append_reason_short (ledger : Ledger) (authority : Option AuthorityState)
    (e : LedgerEntry) : (ledger.append authority e).2.reason.utf8ByteSize ≤ 64 := by
  unfold append
  split
  · dsimp only
    decide
  · dsimp only
    split
    · exact AuthorityVerdict.name_short _
    · split
      · split
        · dsimp only
          decide
        · dsimp only
          decide
      · dsimp only
        decide

theorem Message.sound_register (reg : RegisterMsg) : (Message.register reg).Sound :=
  ⟨rfl, trivial, by rw [wireSize, frameLimit]; decide, rfl⟩

/-- The next entry of a script, if it can be encoded and fits. -/
theorem Message.sound_submit {data : List UInt8} {index : Nat} {e : LedgerEntry}
    (yielded : scriptEntry data index = some e)
    (encoded : (encodeMessage (.eventSubmit e)).isSome = true)
    (size : (Message.eventSubmit e).wireSize ≤ frameLimit) : (Message.eventSubmit e).Sound where
  encoded := encoded
  listed := listed_of_scriptEntry yielded
  size := size
  sparse := congrArg Message.eventSubmit (normalize_of_scriptEntry yielded)

/-- Every answer of the accounting thread arrives as it was sent. -/
theorem Coordinator.sound_of_sent {c : Coordinator} {item : WorkItem} {send : Send}
    (sent : send ∈ (Coordinator.accounting c item).2) : send.message.Sound := by
  cases item with
  | register conn reg =>
      cases List.mem_singleton.mp sent
      refine ⟨rfl, trivial, ?_, rfl⟩
      rw [Message.wireSize, length_ofString, frameLimit]
      decide
  | event conn e =>
      have answer : send = ⟨conn, .eventAck (Threads.acknowledgement (c.accountEvent e).2)⟩ :=
        List.mem_singleton.mp sent
      subst answer
      refine ⟨rfl, trivial, ?_, rfl⟩
      have short := Ledger.append_reason_short c.ledger (some (c.authorityFor e)) e
      rw [← c.accountEvent_result e] at short
      rw [Message.wireSize, Threads.acknowledgement, length_ofString, frameLimit]
      omega
  | workerLost conn worker =>
      rcases List.mem_map.mp sent with ⟨index, -, rfl⟩
      refine ⟨rfl, trivial, ?_, rfl⟩
      rw [Message.wireSize, frameLimit]
      decide

/-! ## The desk of a connection -/

namespace Threads

/-- The work item came from the connection. -/
def isItemOn (conn : Nat) : WorkItem → Bool
  | .register source _ => source == conn
  | .event source _ => source == some conn
  | .workerLost _ _ => false

/-- What the coordinator has of a connection. -/
structure Desk where
  registered : Bool
  queued : List WorkItem
  submissions : List LedgerEntry
  sent : List Message

def desk (conn : Nat) (observed : List Observation) (threads : Threads) : Desk where
  registered := (threads.coordinator.allConns[conn]?).any fun entry => entry.registered
  queued := threads.queue.filter (isItemOn conn)
  submissions := submissions conn observed
  sent := sentTo conn observed

/-- Nothing but rolls. -/
def Rolls (messages : List Message) : Prop := ∀ message ∈ messages, ∃ roll, message = .roll roll

/-- What a step of the threads that takes no message from the connection can do
for it, and what it sends there. -/
inductive DeskStep (conn : Nat) (before : Desk) : List Message → Desk → Prop
  | quiet : DeskStep conn before [] before
  | registered {reg : RegisterMsg} {rest : List WorkItem} {ack : RegisterAckMsg}
      (front : before.queued = .register conn reg :: rest) (ok : ack.ok = true) :
      DeskStep conn before [.registerAck ack]
        { before with
          registered := true, queued := rest, sent := before.sent ++ [.registerAck ack] }
  | answered {e : LedgerEntry} {rest : List WorkItem} {ack : EventAckMsg}
      (front : before.queued = .event (some conn) e :: rest) :
      DeskStep conn before [.eventAck ack]
        { before with queued := rest, sent := before.sent ++ [.eventAck ack] }
  | rolled {new : List Message} (registered : before.registered = true) (rolls : Rolls new) :
      DeskStep conn before new { before with sent := before.sent ++ new }

section Desks

variable (conn : Nat)

theorem sentTo_append (first second : List Observation) :
    sentTo conn (first ++ second) = sentTo conn first ++ sentTo conn second :=
  List.filterMap_append

/-- The messages to the connection among those that were sent. -/
def messagesTo (sends : List Send) : List Message :=
  sends.filterMap fun send => if send.conn = some conn then some send.message else none

theorem sentTo_map_sent (sends : List Send) :
    sentTo conn (sends.map .sent) = messagesTo conn sends := by
  rw [sentTo, List.filterMap_map]
  rfl

theorem isItemOn_lossOf (threads : Threads) (source : Nat) :
    (threads.lossOf source).filter (isItemOn conn) = [] := by
  unfold lossOf
  split <;> rfl

theorem filter_itemsOf_self (message : Message) :
    (itemsOf conn message).filter (isItemOn conn) = itemsOf conn message := by
  cases message <;> simp [itemsOf, isItemOn]

theorem filter_itemsOf_other {source : Nat} (other : source ≠ conn) (message : Message) :
    (itemsOf source message).filter (isItemOn conn) = [] ∧
      eventsOn conn (itemsOf source message) = [] := by
  cases message <;> simp [itemsOf, isItemOn, eventsOn, eventOn, other]

/-- A reader answers nothing but a ping, and only on its own connection. -/
theorem messagesTo_receive (threads : Threads) (source : Nat) (message : Message)
    (silent : source ≠ conn ∨ message ≠ .ping) :
    messagesTo conn (threads.receive source message).2 = [] := by
  cases message with
  | ping =>
      have other : source ≠ conn := silent.resolve_right fun different => different rfl
      simp [messagesTo, receive, other]
  | _ => rfl

/-- A loss sends nothing but rolls, and only to registered connections. -/
theorem messagesTo_workerLost (c : Coordinator) (source : Nat) (worker : WorkerId) :
    Rolls (messagesTo conn (Coordinator.accounting c (.workerLost source worker)).2) ∧
      (messagesTo conn (Coordinator.accounting c (.workerLost source worker)).2 ≠ [] →
        (c.allConns[conn]?).any (fun entry => entry.registered) = true) := by
  have shape : ∀ message ∈ messagesTo conn (Coordinator.accounting c (.workerLost source worker)).2,
      conn ∈ c.rollTargets worker ∧ ∃ roll, message = .roll roll := by
    intro message member
    rcases List.mem_filterMap.mp member with ⟨send, sent, chosen⟩
    rcases List.mem_map.mp sent with ⟨index, target, rfl⟩
    simp only [Option.some.injEq, Option.ite_none_right_eq_some] at chosen
    rcases chosen with ⟨rfl, rfl⟩
    exact ⟨target, _, rfl⟩
  refine ⟨fun message member => (shape message member).2, ?_⟩
  intro some
  rcases List.exists_mem_of_ne_nil _ some with ⟨message, member⟩
  rcases (mem_rollTargets_iff conn c worker).mp (shape message member).1 with ⟨other, found, -⟩
  rw [found]
  rfl

variable {conn}

/-- Handling an item changes the desk of a connection that it came from, and
otherwise at most sends rolls there. -/
theorem desk_account {threads : Threads} {item : WorkItem} {rest : List WorkItem}
    (observed : List Observation) (front : threads.queue = item :: rest)
    (known : (desk conn observed threads).queued ≠ [] →
      conn < threads.coordinator.allConns.length) :
    let sends := (Coordinator.accounting threads.coordinator item).2
    DeskStep conn (desk conn observed threads)
      (sentTo conn (.handled item :: sends.map .sent))
      (desk conn (observed ++ .handled item :: sends.map .sent)
        { threads with
          coordinator := (Coordinator.accounting threads.coordinator item).1
          queue := rest }) := by
  intro sends
  have new : sentTo conn (.handled item :: sends.map .sent) = messagesTo conn sends :=
    sentTo_map_sent conn sends
  have submitted : submissions conn (observed ++ .handled item :: sends.map .sent) =
      submissions conn observed := by
    rw [submissions_append]
    exact (congrArg _ (submissions_sent conn sends)).trans (List.append_nil _)
  have queued : (desk conn observed threads).queued =
      if isItemOn conn item then item :: rest.filter (isItemOn conn)
      else rest.filter (isItemOn conn) := by
    rw [desk, front, List.filter_cons]
  simp only [desk, submitted, sentTo_append, new]
  cases item with
  | register source reg =>
      by_cases same : source = conn
      · subst same
        have asked : (desk source observed threads).queued =
            .register source reg :: rest.filter (isItemOn source) := by
          rw [queued]
          simp [isItemOn]
        have inside := known (by rw [asked]; simp)
        have answer : messagesTo source sends = [.registerAck
            { ok := true
              epoch := threads.coordinator.authority.epoch
              accountingGeneration := threads.coordinator.authority.accountingGeneration
              reason := .ofString "registered" }] := by
          simp [messagesTo, sends, Coordinator.accounting, Coordinator.handleRegistration]
        have flag : ((Coordinator.accounting threads.coordinator
            (.register source reg)).1.allConns[source]?).any (fun entry => entry.registered) =
            true := by
          simp [Coordinator.accounting, Coordinator.handleRegistration, inside]
        rw [answer, flag]
        exact @DeskStep.registered source (desk source observed threads) reg _ _ asked rfl
      · have silent : messagesTo conn sends = [] := by
          simp [messagesTo, sends, Coordinator.accounting, Coordinator.handleRegistration, same]
        have flag : ((Coordinator.accounting threads.coordinator
            (.register source reg)).1.allConns[conn]?) = threads.coordinator.allConns[conn]? := by
          simp [Coordinator.accounting, Coordinator.handleRegistration, same]
        have kept : rest.filter (isItemOn conn) = (desk conn observed threads).queued := by
          rw [queued]
          simp [isItemOn, same]
        rw [silent, flag, kept, List.append_nil]
        exact DeskStep.quiet
  | event source e =>
      by_cases same : source = some conn
      · subst same
        have answer : messagesTo conn sends =
            [.eventAck (acknowledgement (threads.coordinator.accountEvent e).2)] := by
          simp [messagesTo, sends, Coordinator.accounting, Coordinator.handleEvent, acknowledgement]
        rw [answer]
        refine @DeskStep.answered conn (desk conn observed threads) e _ _ ?_
        rw [queued]
        simp [isItemOn]
      · have silent : messagesTo conn sends = [] := by
          simp [messagesTo, sends, Coordinator.accounting, Coordinator.handleEvent, same]
        have kept : rest.filter (isItemOn conn) = (desk conn observed threads).queued := by
          rw [queued]
          simp [isItemOn, same]
        rw [silent, kept, List.append_nil]
        exact DeskStep.quiet
  | workerLost source worker =>
      have kept : rest.filter (isItemOn conn) = (desk conn observed threads).queued := by
        rw [queued]
        simp [isItemOn]
      rcases messagesTo_workerLost conn threads.coordinator source worker with ⟨rolls, told⟩
      rw [kept]
      by_cases none : messagesTo conn sends = []
      · rw [none, List.append_nil]
        exact DeskStep.quiet
      · exact @DeskStep.rolled conn (desk conn observed threads) _ (told none) rolls

/-- No connection is ever removed. -/
theorem length_allConns_le (threads : Threads) (input : ThreadStep) :
    threads.coordinator.allConns.length ≤ (step threads input).1.coordinator.allConns.length := by
  rcases step_cases threads input with idle | added | ⟨source, message, -, -, received⟩ |
    ⟨source, -, -, failed⟩ | ⟨item, rest, -, -, done⟩
  · rw [idle]
  · rw [added]
    simp [accept, Coordinator.accept]
  · rw [received]
  · rw [failed]
  · rw [done]
    exact Nat.le_of_eq (length_allConns_accounting threads.coordinator item).symm

/-- A new connection is not registered. -/
theorem desk_accept (observed : List Observation) (threads : Threads) :
    desk conn observed threads.accept = desk conn observed threads := by
  have flag : (threads.accept.coordinator.allConns[conn]?).any (fun entry => entry.registered) =
      (threads.coordinator.allConns[conn]?).any (fun entry => entry.registered) := by
    change ((threads.coordinator.allConns ++ [({} : Conn)])[conn]?).any _ = _
    rw [List.getElem?_append]
    split
    · rfl
    · rename_i outside
      rw [List.getElem?_eq_none_iff.mpr (Nat.le_of_not_lt outside), List.getElem?_singleton]
      split <;> rfl
  simp only [desk, flag]
  rfl

/-- What a step of the threads does for a connection that it takes no message
from. -/
theorem desk_step {threads : Threads} {observed : List Observation}
    (known : (desk conn observed threads).queued ≠ [] →
      conn < threads.coordinator.allConns.length)
    {input : ThreadStep} (other : ∀ message, input ≠ .receive conn message) :
    DeskStep conn (desk conn observed threads) (sentTo conn (step threads input).2)
      (desk conn (observed ++ (step threads input).2) (step threads input).1) := by
  rcases step_cases threads input with idle | added | ⟨source, message, receives, -, received⟩ |
    ⟨source, -, -, failed⟩ | ⟨item, rest, -, front, done⟩
  · rw [idle, List.append_nil]
    exact DeskStep.quiet
  · rw [added, List.append_nil]
    rw [desk_accept]
    exact DeskStep.quiet
  · have different : source ≠ conn := by
      rintro rfl
      exact other message receives
    rw [received]
    have new : sentTo conn (.received source message ::
        (threads.receive source message).2.map .sent) = [] :=
      (sentTo_map_sent conn _).trans
        (messagesTo_receive conn threads source message (Or.inl different))
    rcases filter_itemsOf_other conn different message with ⟨items, events⟩
    simp only [desk, submissions_append, submissions_received, sentTo_append, new,
      List.filter_append, items, events, List.append_nil]
    exact DeskStep.quiet
  · rw [failed, List.append_nil]
    simp only [desk, List.filter_append, isItemOn_lossOf, List.append_nil]
    exact DeskStep.quiet
  · rw [done]
    exact desk_account observed front known

/-- A message from the connection is queued, and no answer is sent yet. -/
theorem desk_receive {threads : Threads} (reading : threads.readers[conn]? = some .reading)
    (observed : List Observation) {message : Message} (request : message ≠ .ping) :
    sentTo conn (step threads (.receive conn message)).2 = [] ∧
    desk conn (observed ++ (step threads (.receive conn message)).2)
        (step threads (.receive conn message)).1 =
      { desk conn observed threads with
        queued := (desk conn observed threads).queued ++ itemsOf conn message
        submissions := (desk conn observed threads).submissions ++
          eventsOn conn (itemsOf conn message) } := by
  have taken : step threads (.receive conn message) =
      ({ threads with queue := threads.queue ++ itemsOf conn message },
        .received conn message :: (threads.receive conn message).2.map .sent) := by
    simp only [step, if_pos reading, (receive_eq threads conn message).1]
  have new : sentTo conn (.received conn message ::
      (threads.receive conn message).2.map .sent) = [] :=
    (sentTo_map_sent conn _).trans
      (messagesTo_receive conn threads conn message (Or.inr request))
  rw [taken]
  refine ⟨new, ?_⟩
  simp only [desk, submissions_append, submissions_received, sentTo_append, new,
    List.filter_append, filter_itemsOf_self, List.append_nil]

/-- Before a connection exists the coordinator has nothing of it. -/
theorem desk_unknown (ledgerId : LedgerId) (steps : List ThreadStep)
    (unknown : (after ledgerId steps).coordinator.allConns.length ≤ conn) :
    desk conn (seen ledgerId steps) (after ledgerId steps) =
      { registered := false, queued := [], submissions := [], sent := [] } := by
  induction steps using List.reverseRecOn with
  | nil => rfl
  | append_singleton steps input ih =>
      have aligned := aligned_after ledgerId steps
      rw [after, Machine.run_concat] at unknown
      rw [after, seen, Machine.run_concat, Machine.trace_concat]
      have before : (after ledgerId steps).coordinator.allConns.length ≤ conn :=
        (length_allConns_le _ input).trans unknown
      have empty := ih before
      by_cases own : ∃ message, input = .receive conn message
      · rcases own with ⟨message, rfl⟩
        have unread : (after ledgerId steps).readers[conn]? ≠ some .reading := by
          rw [List.getElem?_eq_none (aligned.trans_le before)]
          simp
        have idle : step (after ledgerId steps) (.receive conn message) =
            (after ledgerId steps, []) := if_neg unread
        rw [idle, List.append_nil]
        exact empty
      · have known : (desk conn (seen ledgerId steps) (after ledgerId steps)).queued ≠ [] →
            conn < (after ledgerId steps).coordinator.allConns.length := by
          intro asked
          rw [empty] at asked
          exact (asked rfl).elim
        have moved := desk_step known fun message same => own ⟨message, same⟩
        generalize desk conn _ (step (after ledgerId steps) input).1 = next at moved ⊢
        generalize sentTo conn _ = new at moved
        rw [empty] at moved
        cases moved with
        | quiet => rfl
        | registered front ok => cases front
        | answered front => cases front
        | rolled registered rolls => cases registered

end Desks

end Threads

/-- Whatever the threads send arrives as it was sent. -/
theorem Threads.sound_of_sentTo {threads : Threads} {input : ThreadStep} {conn : Nat}
    {message : Message} (sent : message ∈ sentTo conn (Threads.step threads input).2) :
    message.Sound := by
  rcases step_cases threads input with idle | added | ⟨source, other, -, -, received⟩ |
    ⟨source, -, -, failed⟩ | ⟨item, rest, -, -, done⟩
  · rw [idle] at sent
    cases sent
  · rw [added] at sent
    cases sent
  · rw [received] at sent
    change message ∈ sentTo conn (List.map .sent _) at sent
    rw [sentTo_map_sent] at sent
    rcases List.mem_filterMap.mp sent with ⟨send, member, chosen⟩
    rw [(receive_eq threads source other).2 send member] at chosen
    rcases Option.ite_none_right_eq_some.mp chosen with ⟨-, same⟩
    rw [← Option.some.inj same]
    exact ⟨rfl, trivial, by rw [Message.wireSize, frameLimit]; decide, rfl⟩
  · rw [failed] at sent
    cases sent
  · rw [done] at sent
    change message ∈ sentTo conn (List.map .sent _) at sent
    rw [sentTo_map_sent] at sent
    rcases List.mem_filterMap.mp sent with ⟨send, member, chosen⟩
    rcases Option.ite_none_right_eq_some.mp chosen with ⟨-, same⟩
    rw [← Option.some.inj same]
    exact Coordinator.sound_of_sent member

end InferenceLedger
