import InferenceLedger.Codec.Layout
import InferenceLedger.Distributed.MessageBounds
import InferenceLedger.Distributed.MessageRoundTrip

namespace InferenceLedger

open Foundation ReadProgram

/-!
# Enumerators on the wire

Two bytes of a message stand for enumerators, and `decode_message` checks
neither.  The type byte goes through a conversion that takes every unknown value
for a `Ping`, and the status of an acknowledgement is cast as it is.

A content that is accepted therefore has valid enumerators exactly when the
bytes were valid to begin with; the payload parse in between does not see them.
-/

/-! ## The decoded type -/

/-- Every program returns a message of its own type. -/
theorem ensures_type_readMessage (type : MessageType) :
    Ensures (fun message => message.type = type) (readMessage type) := by
  cases type with
  | register =>
      refine ensures_bind fun worker => ensures_bind fun boot => ensures_bind fun left =>
        ensures_bind fun _ => ?_
      exact ensures_pure rfl
  | registerAck =>
      refine ensures_bind fun ok => ensures_bind fun e => ensures_bind fun g =>
        ensures_bind fun reason => ensures_bind fun left => ensures_bind fun _ => ?_
      exact ensures_pure rfl
  | eventSubmit =>
      intro bytes message rest parsed
      cases parsed
  | eventAck =>
      refine ensures_bind fun st => ensures_bind fun reason => ensures_bind fun left =>
        ensures_bind fun _ => ?_
      exact ensures_pure rfl
  | roll =>
      refine ensures_bind fun e => ensures_bind fun g => ensures_bind fun left =>
        ensures_bind fun _ => ?_
      exact ensures_pure rfl
  | shutdown =>
      refine ensures_bind fun left => ensures_bind fun _ => ?_
      exact ensures_pure rfl
  | ping =>
      refine ensures_bind fun left => ensures_bind fun _ => ?_
      exact ensures_pure rfl

section Accepted

variable {data : List UInt8} {message : Message}

/-- An accepted content without an embedded entry is parsed by one program. -/
theorem parse_of_accepted (accepted : decodeMessage data = .done message)
    (other : msgTypeFrom (data.getD 0 0) ≠ .eventSubmit) :
    ∃ rest, parse (readMessage (msgTypeFrom (data.getD 0 0))) (data.drop 1) =
      some (message, rest) := by
  unfold decodeMessage at accepted
  split at accepted
  · cases accepted
  simp only [if_neg other] at accepted
  rcases Access.bind_eq_done_iff.mp accepted with ⟨⟨found, position⟩, ran, same⟩
  cases same
  have window : data.length - 1 ≤ (data.drop 1).length := by rw [List.length_drop]
  rw [run_eq_parse _ _ window _ 0 (Nat.zero_le _), List.drop_zero,
    List.take_of_length_le (by rw [List.length_drop]), Access.ofOption_eq_done_iff,
    Option.map_eq_some_iff] at ran
  rcases ran with ⟨⟨value, rest⟩, parsed, same⟩
  cases same
  exact ⟨rest, parsed⟩

/-- The type of an accepted message is what its first byte is taken for. -/
theorem type_of_accepted (accepted : decodeMessage data = .done message) :
    message.type = msgTypeFrom (data.getD 0 0) := by
  by_cases submit : msgTypeFrom (data.getD 0 0) = .eventSubmit
  · rw [submit]
    unfold decodeMessage at accepted
    split at accepted
    · cases accepted
    simp only [if_pos submit] at accepted
    rcases Access.bind_eq_done_iff.mp accepted with ⟨⟨flen, position⟩, -, continued⟩
    split at continued
    · cases continued
    rcases Access.bind_eq_done_iff.mp continued with ⟨⟨entry, consumed⟩, -, final⟩
    split at final
    · cases final
      rfl
    · cases final
  · rcases parse_of_accepted accepted submit with ⟨rest, parsed⟩
    exact ensures_type_readMessage _ _ _ _ parsed

theorem length_pos_of_accepted (accepted : decodeMessage data = .done message) :
    0 < data.length := by
  unfold decodeMessage at accepted
  split at accepted
  · cases accepted
  · omega

/-- The status of an accepted acknowledgement is its second byte. -/
theorem status_of_accepted {ack : EventAckMsg} (accepted : decodeMessage data = .done (.eventAck ack)) :
    data[1]? = some ack.status := by
  have type : MessageType.eventAck = msgTypeFrom (data.getD 0 0) := type_of_accepted accepted
  rcases parse_of_accepted accepted (by rw [← type]; decide) with ⟨rest, parsed⟩
  rw [← type] at parsed
  rcases parse_bind_eq_some_iff.mp parsed with ⟨st, left, read, continued⟩
  have returned : Ensures (fun message => ∀ ack, message = .eventAck ack → ack.status = st)
      ((do
        let reason ← ByteReader.string
        let left ← ByteReader.remaining
        ByteReader.require (left == 0)
        pure (.eventAck { status := st, reason })) : ReadProgram Message) := by
    refine ensures_bind fun reason => ensures_bind fun left => ensures_bind fun _ => ?_
    apply ensures_pure
    intro ack same
    cases same
    rfl
  rw [returned _ _ _ continued ack rfl]
  have second : (data.drop 1)[0]? = some st := by
    rw [ByteReader.parse_u8_eq_some_iff.mp read]
    rfl
  rwa [List.getElem?_drop] at second

end Accepted

/-! ## Valid bytes -/

theorem msgTypeVal_msgTypeFrom (value : UInt8) :
    1 ≤ value ∧ value ≤ 7 → msgTypeVal (msgTypeFrom value) = value := by
  revert value
  apply forall_byte
  decide +kernel

theorem msgTypeVal_bounds (type : MessageType) : 1 ≤ msgTypeVal type ∧ msgTypeVal type ≤ 7 := by
  cases type <;> decide

theorem msgTypeFrom_eq_eventAck_iff (value : UInt8) :
    msgTypeFrom value = .eventAck ↔ value = 4 := msgTypeFrom_eq_iff (by decide) value

theorem byte_le_four (value : UInt8) :
    value ≤ 4 → value = 0 ∨ value = 1 ∨ value = 2 ∨ value = 3 ∨ value = 4 := by
  revert value
  apply forall_byte
  decide +kernel

theorem exists_status_iff (value : UInt8) :
    (∃ status : AppendStatus, value = status.value) ↔ value ≤ 4 := by
  constructor
  · rintro ⟨status, rfl⟩
    cases status <;> decide
  · intro small
    rcases byte_le_four value small with rfl | rfl | rfl | rfl | rfl
    · exact ⟨.accepted, rfl⟩
    · exact ⟨.duplicate, rfl⟩
    · exact ⟨.duplicateConflict, rfl⟩
    · exact ⟨.stale, rfl⟩
    · exact ⟨.invalid, rfl⟩

/-- The first byte of a frame after its header is the type of the message. -/
theorem type_of_encoded {message : Message} {bytes : List UInt8}
    (encoded : encodeMessage message = some bytes) : bytes[8]? = some (msgTypeVal message.type) := by
  rcases Option.map_eq_some_iff.mp encoded with ⟨payload, -, rfl⟩
  rfl

theorem status_of_encoded {ack : EventAckMsg} {bytes : List UInt8}
    (encoded : encodeMessage (.eventAck ack) = some bytes) : bytes[9]? = some ack.status := by
  rcases Option.map_eq_some_iff.mp encoded with ⟨payload, same, rfl⟩
  cases same
  rfl

/-- The enumerators of an accepted content are valid, and encoding the message
again writes them as they were. -/
structure EnumsKept (data : List UInt8) (message : Message) : Prop where
  type : ∃ type : MessageType, data[0]? = some (msgTypeVal type) ∧ message.type = type
  status : ∀ ack, message = .eventAck ack →
    ∃ status : AppendStatus, data[1]? = some status.value ∧ ack.status = status.value
  sameType : ∀ bytes, encodeMessage message = some bytes → bytes[8]? = data[0]?
  sameStatus : ∀ ack bytes, message = .eventAck ack → encodeMessage message = some bytes →
    bytes[9]? = data[1]?

/-- The enumerators of an accepted content are valid exactly when its first byte
is one of the seven types and, in an acknowledgement, its second byte one of the
five statuses. -/
theorem enums_kept_iff {data : List UInt8} {message : Message}
    (accepted : decodeMessage data = .done message) :
    EnumsKept data message ↔
      (1 ≤ data.getD 0 0 ∧ data.getD 0 0 ≤ 7) ∧ (data.getD 0 0 = 4 → data.getD 1 0 ≤ 4) := by
  have type := type_of_accepted accepted
  have first : data[0]? = some (data.getD 0 0) := by
    rw [List.getD_eq_getElem?_getD, List.getElem?_eq_getElem (length_pos_of_accepted accepted)]
    rfl
  constructor
  · intro kept
    rcases kept.type with ⟨_, named, rfl⟩
    rw [first, Option.some.injEq] at named
    refine ⟨?_, ?_⟩
    · rw [named]
      exact msgTypeVal_bounds message.type
    · intro four
      rw [four, (msgTypeFrom_eq_eventAck_iff 4).mpr rfl] at type
      cases message with
      | eventAck ack =>
          rcases kept.status ack rfl with ⟨status, second, -⟩
          rw [List.getD_eq_getElem?_getD, second]
          exact (exists_status_iff _).mp ⟨status, rfl⟩
      | _ => cases type
  · rintro ⟨bounds, small⟩
    have named : data.getD 0 0 = msgTypeVal message.type := by
      rw [type, msgTypeVal_msgTypeFrom _ bounds]
    refine ⟨⟨message.type, by rw [first, named], rfl⟩, ?_, ?_, ?_⟩
    · rintro ack rfl
      have second := status_of_accepted accepted
      have four : data.getD 0 0 = 4 := (msgTypeFrom_eq_eventAck_iff _).mp type.symm
      have bounded := small four
      rw [List.getD_eq_getElem?_getD, second] at bounded
      rcases (exists_status_iff ack.status).mpr bounded with ⟨status, same⟩
      exact ⟨status, by rw [second, same], same⟩
    · intro bytes encoded
      rw [type_of_encoded encoded, first, named]
    · rintro ack bytes rfl encoded
      rw [status_of_encoded encoded, status_of_accepted accepted]

/-- An acknowledgement keeps its type and its status byte. -/
theorem enums_kept_stale :
    EnumsKept [4, 3, 0, 0, 0, 2, 111, 107] (.eventAck { status := 3, reason := [111, 107] }) :=
  (enums_kept_iff rfl).mpr (by decide)

/-! ## Accepted contents with invalid bytes -/

theorem msgTypeFrom_of_unknown {value : UInt8} (unknown : ¬ (1 ≤ value ∧ value ≤ 7)) :
    msgTypeFrom value = .ping := by
  revert value
  apply forall_byte
  decide +kernel

/-- What is taken for a `Ping` holds no other byte. -/
theorem content_of_ping {data : List UInt8} {message : Message}
    (accepted : decodeMessage data = .done message) (ping : msgTypeFrom (data.getD 0 0) = .ping) :
    data = [data.getD 0 0] := by
  rcases parse_of_accepted accepted (by rw [ping]; decide) with ⟨rest, parsed⟩
  rw [ping] at parsed
  have nothing : data.drop 1 = [] := by
    rw [readMessage, ByteReader.parse_remaining_bind,
      ByteReader.parse_require_bind_eq_some_iff] at parsed
    exact List.length_eq_zero_iff.mp (eq_of_beq parsed.1)
  cases data with
  | nil => exact absurd (length_pos_of_accepted accepted) (Nat.lt_irrefl 0)
  | cons first behind =>
      rw [List.drop_succ_cons, List.drop_zero] at nothing
      rw [nothing]
      rfl

/-- The content of an acknowledgement is its two bytes and its reason. -/
theorem content_of_ack {data : List UInt8} {message : Message}
    (accepted : decodeMessage data = .done message) (ack : data.getD 0 0 = 4) :
    ∃ status reason, reason.length < 2 ^ 32 ∧ data = 4 :: status :: ByteWriter.string reason := by
  have type : msgTypeFrom (data.getD 0 0) = .eventAck := by rw [ack]; rfl
  rcases parse_of_accepted accepted (by rw [type]; decide) with ⟨rest, parsed⟩
  rw [type, readMessage] at parsed
  rcases parse_bind_eq_some_iff.mp parsed with ⟨status, behind, read, parsed⟩
  rcases parse_bind_eq_some_iff.mp parsed with ⟨reason, left, text, parsed⟩
  rcases ByteReader.parse_string_eq_some_iff.mp text with ⟨short, string⟩
  rw [ByteReader.parse_remaining_bind, ByteReader.parse_require_bind_eq_some_iff] at parsed
  have nothing : left = [] := List.length_eq_zero_iff.mp (eq_of_beq parsed.1)
  have drop : data.drop 1 = status :: ByteWriter.string reason := by
    rw [ByteReader.parse_u8_eq_some_iff.mp read, string, nothing, List.append_nil]
    rfl
  refine ⟨status, reason, short, ?_⟩
  cases data with
  | nil => exact absurd (length_pos_of_accepted accepted) (Nat.lt_irrefl 0)
  | cons first behind =>
      rw [← drop, ← ack]
      rfl

theorem decodeMessage_of_unknown {value : UInt8} (unknown : ¬ (1 ≤ value ∧ value ≤ 7)) :
    decodeMessage [value] = .done .ping := by
  have type := msgTypeFrom_of_unknown unknown
  rw [decodeMessage_cons_eq (by rw [type]; decide), type]
  rfl

theorem decodeMessage_ack {status : UInt8} {reason : ByteString} (short : reason.length < 2 ^ 32) :
    decodeMessage (4 :: status :: ByteWriter.string reason) =
      .done (.eventAck { status, reason }) := by
  have other : (Message.eventAck { status, reason }).type ≠ .eventSubmit := nofun
  have parsed : parse (readMessage (Message.eventAck { status, reason }).type)
      (ByteWriter.u8 status ++ ByteWriter.string reason) =
        some (.eventAck { status, reason }, []) := parse_readMessage rfl short other
  have content := decodeMessage_of_not_submit_eq other
    (ByteWriter.u8 status ++ ByteWriter.string reason)
  rw [parsed] at content
  exact content

/-- Two kinds of contents with an invalid enumerator are accepted: a single
unknown byte, and an acknowledgement with an unknown status. -/
theorem accepted_without_enums_iff (data : List UInt8) :
    (∃ message, decodeMessage data = .done message ∧ ¬ EnumsKept data message) ↔
      (∃ value, ¬ (1 ≤ value ∧ value ≤ 7) ∧ data = [value]) ∨
      ∃ status reason, 4 < status ∧ reason.length < 2 ^ 32 ∧
        data = 4 :: status :: ByteWriter.string reason := by
  constructor
  · rintro ⟨message, accepted, lost⟩
    rw [enums_kept_iff accepted, not_and_or] at lost
    rcases lost with unknown | status
    · exact Or.inl ⟨_, unknown, content_of_ping accepted (msgTypeFrom_of_unknown unknown)⟩
    · rw [Classical.not_imp] at status
      rcases content_of_ack accepted status.1 with ⟨value, reason, short, same⟩
      refine Or.inr ⟨value, reason, ?_, short, same⟩
      have large := status.2
      rw [same] at large
      exact UInt8.not_le.mp large
  · rintro (⟨value, unknown, rfl⟩ | ⟨status, reason, large, short, rfl⟩)
    · have accepted := decodeMessage_of_unknown unknown
      exact ⟨_, accepted, fun kept => unknown ((enums_kept_iff accepted).mp kept).1⟩
    · have accepted := @decodeMessage_ack status reason short
      refine ⟨_, accepted, fun kept => ?_⟩
      exact UInt8.not_le.mpr large (((enums_kept_iff accepted).mp kept).2 rfl)

/-- Every unknown type byte is accepted as a `Ping`. -/
theorem unknown_type_accepted :
    ¬ ∀ (data : List UInt8) (message : Message), decodeMessage data = .done message →
      EnumsKept data message := by
  intro claim
  rcases (claim [99] .ping rfl).type with ⟨type, named, -⟩
  cases type <;> exact absurd named (by decide)

end InferenceLedger
