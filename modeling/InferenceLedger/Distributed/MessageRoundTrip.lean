import InferenceLedger.Codec.FrameBounds
import InferenceLedger.Distributed.Protocol
import InferenceLedger.Foundation.Chunks

namespace InferenceLedger

open Foundation ReadProgram

/-!
# Messages over a chunked stream

`recv_message` asks the socket for eight header bytes and then for the content,
and `read_all` repeats each request until it is filled.  On every stream that
arrives in non-empty chunks, this is what `recvMessage` does with the
concatenation of the chunks.

On the concatenation of encoded frames, the header restores the length of the
content, each reader call undoes the writer call in its place, and the entry
frame inside an `EventSubmit` ends where the message ends.  Repeated calls
therefore return the messages that were sent, one by one, unless an entry holds
an enumeration byte without an enumerator: the sender does not look at it, and
the receiver refuses it.
-/

/-! ## Receiving from a socket -/

namespace FramedSocket

/-- `read_all`. -/
def readAll (arrivals : List (Arrival UInt8)) (n : Nat) :
    Except String (List UInt8 × List (Arrival UInt8)) :=
  (readExactly arrivals n).mapError fun
    | .closed => "connection closed during recv"
    | .failed => "recv error"

/-- `recv_message`, on what the socket delivers. -/
def recvMessage (arrivals : List (Arrival UInt8)) :
    Except String (Access Message × List (Arrival UInt8)) := do
  let (hdr, arrivals) ← readAll arrivals 8
  let len := wordAt hdr 0
  let crcWant := wordAt hdr 4
  if len = 0 then .error "zero-length frame"
  else if len > (16 : UInt32) <<< 20 then .error "frame too large"
  else do
    let (content, arrivals) ← readAll arrivals len.toNat
    if crc32 content ≠ crcWant then .error "frame checksum mismatch"
    else .ok (decodeMessage content, arrivals)

/-- Repeated calls of `recv_message`; `none` when one of them fails. -/
def recvMessages : Nat → List (Arrival UInt8) → Option (List Message × List (Arrival UInt8))
  | 0, arrivals => some ([], arrivals)
  | count + 1, arrivals =>
      match recvMessage arrivals with
      | .ok (.done message, arrivals) =>
          (recvMessages count arrivals).map fun rest => (message :: rest.1, rest.2)
      | _ => none

end FramedSocket

section Chunks

variable {chunks : List (List UInt8)}

theorem readAll_chunks (nonEmpty : NonEmpty chunks) {count : Nat}
    (enough : count ≤ chunks.flatten.length) :
    ∃ left, NonEmpty left ∧ left.flatten = chunks.flatten.drop count ∧
      FramedSocket.readAll (chunks.map .chunk) count =
        .ok (chunks.flatten.take count, left.map .chunk) := by
  rcases readExactly_chunks nonEmpty enough with ⟨left, nonEmptyLeft, flat, read⟩
  exact ⟨left, nonEmptyLeft, flat, by rw [FramedSocket.readAll, read]; rfl⟩

theorem readAll_short (nonEmpty : NonEmpty chunks) {count : Nat}
    (short : chunks.flatten.length < count) :
    FramedSocket.readAll (chunks.map .chunk) count = .error "connection closed during recv" := by
  rw [FramedSocket.readAll, readExactly_short nonEmpty short]
  rfl

theorem wordAt_take (data : List UInt8) {offset count : Nat} (inside : offset + 4 ≤ count) :
    wordAt (data.take count) offset = wordAt data offset := by
  have same : ∀ index < count, (data.take count).getD index 0 = data.getD index 0 := by
    intro index below
    rw [List.getD_eq_getElem?_getD, List.getD_eq_getElem?_getD, List.getElem?_take_of_lt below]
  simp only [wordAt, same offset (by omega), same (offset + 1) (by omega),
    same (offset + 2) (by omega), same (offset + 3) (by omega)]

theorem bind_ok {α β : Type} (value : α) (next : α → Except String β) :
    (Except.ok value >>= next) = next value := rfl

/-- The boundaries of the chunks do not matter: a socket receives what is
received from the concatenation. -/
theorem recvMessage_chunks (nonEmpty : NonEmpty chunks) :
    match recvMessage chunks.flatten with
    | .error reason => FramedSocket.recvMessage (chunks.map .chunk) = .error reason
    | .ok (result, rest) => ∃ left, NonEmpty left ∧ left.flatten = rest ∧
        FramedSocket.recvMessage (chunks.map .chunk) = .ok (result, left.map .chunk) := by
  unfold recvMessage recvFrame FramedSocket.recvMessage
  by_cases header : chunks.flatten.length < 8
  · rw [if_pos header, readAll_short nonEmpty header]
    rfl
  · rw [if_neg header]
    rcases readAll_chunks nonEmpty (Nat.le_of_not_lt header) with ⟨rest, nonEmptyRest, flat, read⟩
    have len : wordAt (chunks.flatten.take 8) 0 = wordAt chunks.flatten 0 :=
      wordAt_take _ (by decide)
    have crc : wordAt (chunks.flatten.take 8) 4 = wordAt chunks.flatten 4 :=
      wordAt_take _ (by decide)
    simp only [read, bind_ok, len, crc]
    by_cases zero : wordAt chunks.flatten 0 = 0
    · simp only [if_pos zero]
      rfl
    by_cases large : wordAt chunks.flatten 0 > (16 : UInt32) <<< 20
    · simp only [if_neg zero, if_pos large]
      rfl
    simp only [if_neg zero, if_neg large, ← flat]
    by_cases short : rest.flatten.length < (wordAt chunks.flatten 0).toNat
    · simp only [if_pos short, readAll_short nonEmptyRest short]
      rfl
    · rcases readAll_chunks nonEmptyRest (Nat.le_of_not_lt short) with
        ⟨left, nonEmptyLeft, flatLeft, readContent⟩
      simp only [if_neg short, readContent, bind_ok]
      by_cases checksum : crc32 (rest.flatten.take (wordAt chunks.flatten 0).toNat) =
          wordAt chunks.flatten 4
      · simp only [if_neg (not_not.mpr checksum)]
        refine ⟨left, nonEmptyLeft, ?_, rfl⟩
        rw [flatLeft, flat, List.drop_drop]
      · simp only [if_pos checksum]
        rfl

end Chunks

/-! ## Decoding what was encoded -/

/-- Equal type and equal payload of that type; entries are compared with their
`operator==`. -/
def Message.Agrees : Message → Message → Prop
  | .eventSubmit received, .eventSubmit sent => (received == sent) = true
  | received, sent => received = sent

/-- No string of the message is too long for its length field. -/
def Message.StringsFit : Message → Prop
  | .registerAck ack => ack.reason.length < 2 ^ 32
  | .eventAck ack => ack.reason.length < 2 ^ 32
  | .eventSubmit e =>
      ∀ pair ∈ e.metadata.toList, pair.1.length < 2 ^ 32 ∧ pair.2.length < 2 ^ 32
  | _ => True

/-- The content of a message frame: the type byte and the payload. -/
def messageContent (message : Message) (payload : List UInt8) : List UInt8 :=
  msgTypeVal message.type :: payload

theorem msgTypeFrom_msgTypeVal (type : MessageType) : msgTypeFrom (msgTypeVal type) = type := by
  cases type <;> rfl

/-- Behind a type byte other than that of an `EventSubmit`, one program reads the
whole payload. -/
theorem decodeMessage_cons_eq {first : UInt8} (other : msgTypeFrom first ≠ .eventSubmit)
    (payload : List UInt8) :
    decodeMessage (first :: payload) =
      Access.ofOption ((parse (readMessage (msgTypeFrom first)) payload).map Prod.fst) := by
  have nonEmpty : ¬ (first :: payload).length < 1 := by simp
  unfold decodeMessage
  rw [if_neg nonEmpty]
  have type : (first :: payload).getD 0 0 = first := rfl
  simp only [type, if_neg other]
  rw [List.drop_succ_cons, List.drop_zero, List.length_cons, Nat.add_sub_cancel,
    run_eq_parse payload payload.length (Nat.le_refl _) _ 0 (Nat.zero_le _),
    List.take_length, List.drop_zero]
  cases parse (readMessage (msgTypeFrom first)) payload with
  | none => rfl
  | some result => rfl

theorem decodeMessage_of_not_submit_eq {message : Message} (other : message.type ≠ .eventSubmit)
    (payload : List UInt8) :
    decodeMessage (messageContent message payload) =
      Access.ofOption ((parse (readMessage message.type) payload).map Prod.fst) := by
  have type := msgTypeFrom_msgTypeVal message.type
  rw [← type] at other
  rw [messageContent, decodeMessage_cons_eq other, type]

open ByteReader in
/-- Every payload parses back to its message, apart from the entries. -/
theorem parse_readMessage {message : Message} {payload : List UInt8}
    (encoded : messagePayload message = some payload) (fits : message.StringsFit)
    (other : message.type ≠ .eventSubmit) :
    parse (readMessage message.type) payload = some (message, []) := by
  rw [← List.append_nil payload]
  cases message with
  | register reg =>
      rw [← Option.some.inj encoded]
      simp only [Message.type, readMessage, List.append_assoc, parse_getId_bind,
        parse_remaining_bind, List.length_nil, beq_self_eq_true, parse_require_true_bind, parse_pure]
  | registerAck ack =>
      rw [← Option.some.inj encoded]
      simp only [Message.type, readMessage, List.append_assoc, parse_bool8_bind, parse_u64_bind]
      rw [parse_string_bind [] fits]
      simp only [parse_remaining_bind, List.length_nil, beq_self_eq_true, parse_require_true_bind,
        parse_pure]
  | eventSubmit e => exact (other rfl).elim
  | eventAck ack =>
      rw [← Option.some.inj encoded]
      simp only [Message.type, readMessage, List.append_assoc, parse_u8_bind]
      rw [parse_string_bind [] fits]
      simp only [parse_remaining_bind, List.length_nil, beq_self_eq_true, parse_require_true_bind,
        parse_pure]
  | roll roll =>
      rw [← Option.some.inj encoded]
      simp only [Message.type, readMessage, List.append_assoc, parse_u64_bind,
        parse_remaining_bind, List.length_nil, beq_self_eq_true, parse_require_true_bind, parse_pure]
  | shutdown =>
      rw [← Option.some.inj encoded]
      rfl
  | ping =>
      rw [← Option.some.inj encoded]
      rfl

/-- An `EventSubmit` content is accepted when the entry behind the length ends
where the content ends. -/
theorem decodeMessage_submit {bytes : List UInt8} (small : bytes.length < 2 ^ 32) :
    decodeMessage (3 :: (ByteWriter.u32 (UInt32.ofNat bytes.length) ++ bytes)) =
      (decodeEntry bytes >>= fun result =>
        if result.2 = bytes.length then .done (.eventSubmit result.1) else .rejected) := by
  have lenNat : (UInt32.ofNat bytes.length).toNat = bytes.length := by
    rw [UInt32.toNat_ofNat', Nat.mod_eq_of_lt small]
  generalize memory_eq : ByteWriter.u32 (UInt32.ofNat bytes.length) ++ bytes = memory
  have length : memory.length = 4 + bytes.length := by
    rw [← memory_eq, List.length_append, ByteWriter.length_u32]
  have behind : memory.drop 4 = bytes := by
    rw [← memory_eq, ← ByteWriter.length_u32 (UInt32.ofNat bytes.length), List.drop_left]
  have word := run_eq_parse memory memory.length (Nat.le_refl _) ByteReader.u32 0 (Nat.zero_le _)
  have parsed : parse ByteReader.u32 memory = some (UInt32.ofNat bytes.length, bytes) := by
    rw [← memory_eq]
    exact ByteReader.parse_u32 bytes _
  have position : memory.length - bytes.length = 4 := by omega
  rw [List.take_length, List.drop_zero, parsed, Option.map_some, Access.ofOption_some, position]
    at word
  have left : memory.length - 4 = bytes.length := by omega
  have nonEmpty : ¬ (3 :: memory).length < 1 := by simp
  have type : msgTypeFrom ((3 :: memory).getD 0 0) = .eventSubmit := rfl
  have payload : (3 :: memory).drop 1 = memory := rfl
  have frameAt : (3 :: memory).drop (1 + 4) = bytes := behind
  have available : (3 :: memory).length - 1 = memory.length := by simp
  simp only [decodeMessage, if_neg nonEmpty, type, if_true, payload, available, word,
    Access.bind_done, left, lenNat, ne_eq, not_true_eq_false, if_false, frameAt, and_self]

theorem messagePayload_submit {e : LedgerEntry} {payload : List UInt8}
    (encoded : messagePayload (.eventSubmit e) = some payload) :
    Encodable e ∧ payload = ByteWriter.u32 (UInt32.ofNat (frame (entryPayload e)).length) ++
      frame (entryPayload e) := by
  rw [messagePayload] at encoded
  cases frameBytes : encodeEntry e with
  | none =>
      rw [frameBytes] at encoded
      cases encoded
  | some bytes =>
      rw [frameBytes] at encoded
      rcases (encodeEntry_eq_some_iff e bytes).mp frameBytes with ⟨encodable, rfl⟩
      exact ⟨encodable, (Option.some.inj encoded).symm⟩

/-- An `EventSubmit` of an allowed size is read as its entry payload is read. -/
theorem decodeMessage_submitted {e : LedgerEntry} {payload : List UInt8}
    (encoded : messagePayload (.eventSubmit e) = some payload)
    (small : (messageContent (.eventSubmit e) payload).length ≤ 16 * 2 ^ 20) :
    decodeMessage (messageContent (.eventSubmit e) payload) =
      Access.ofOption ((parse readEntry (entryPayload e)).map fun result => .eventSubmit result.1) := by
  rcases messagePayload_submit encoded with ⟨-, rfl⟩
  rw [messageContent, List.length_cons, List.length_append, ByteWriter.length_u32,
    length_frame] at small
  have whole := decodeEntry_frame (by omega : (entryPayload e).length < 2 ^ 32 - 8) []
  rw [List.append_nil] at whole
  change decodeMessage (3 :: _) = _
  rw [decodeMessage_submit (by rw [length_frame]; omega), whole]
  cases parse readEntry (entryPayload e) with
  | none => rfl
  | some result => exact if_pos rfl

/-- The entry frame inside an `EventSubmit` is read back. -/
theorem decodeMessage_eventSubmit {e : LedgerEntry} {payload : List UInt8}
    (encoded : messagePayload (.eventSubmit e) = some payload) (listed : e.Listed)
    (fits : (Message.eventSubmit e).StringsFit)
    (small : (messageContent (.eventSubmit e) payload).length ≤ 16 * 2 ^ 20) :
    decodeMessage (messageContent (.eventSubmit e) payload) = .done (.eventSubmit e.normalize) ∧
      (e.normalize == e) = true := by
  have encodable := (messagePayload_submit encoded).1
  refine ⟨?_, e.normalize_beq encodable.finite⟩
  rw [decodeMessage_submitted encoded small,
    (parse_entryPayload_eq_some_iff encodable.metadataSize _).mpr
      ⟨fits, encodable.acceptable listed, rfl⟩]
  rfl

/-- The entry of a submission holds enumerators. -/
def Message.Listed : Message → Prop
  | .eventSubmit e => e.Listed
  | _ => True

/-- The content of any other submission is refused. -/
theorem decodeMessage_of_unlisted {message : Message} {payload : List UInt8}
    (encoded : messagePayload message = some payload) (unlisted : ¬ message.Listed)
    (small : (messageContent message payload).length ≤ 16 * 2 ^ 20) :
    decodeMessage (messageContent message payload) = .rejected := by
  cases message with
  | eventSubmit e =>
      have unread : parse readEntry (entryPayload e) = none := by
        rw [Option.eq_none_iff_forall_ne_some]
        intro result parsed
        have size := (messagePayload_submit encoded).1.metadataSize
        exact unlisted ((parse_entryPayload_eq_some_iff size result).mp parsed).2.1.listed
      rw [decodeMessage_submitted encoded small, unread]
      rfl
  | _ => exact (unlisted trivial).elim

/-- One message: its content is decoded to a message that agrees with it. -/
theorem decodeMessage_content {message : Message} {payload : List UInt8}
    (encoded : messagePayload message = some payload) (listed : message.Listed)
    (fits : message.StringsFit)
    (small : (messageContent message payload).length ≤ 16 * 2 ^ 20) :
    ∃ received, decodeMessage (messageContent message payload) = .done received ∧
      received.Agrees message := by
  by_cases submit : message.type = .eventSubmit
  · cases message with
    | eventSubmit e =>
        rcases decodeMessage_eventSubmit encoded listed fits small with ⟨decoded, agrees⟩
        exact ⟨.eventSubmit e.normalize, decoded, agrees⟩
    | _ => cases submit
  · refine ⟨message, ?_, ?_⟩
    · rw [decodeMessage_of_not_submit_eq submit, parse_readMessage encoded fits submit]
      rfl
    cases message with
    | eventSubmit e => exact (submit rfl).elim
    | _ => exact rfl

/-! ## Frames on the stream -/

/-- A frame in front of any further bytes is taken off the stream on its own. -/
theorem recvFrame_frame {content : List UInt8} (nonEmpty : 0 < content.length)
    (small : content.length ≤ 16 * 2 ^ 20) (rest : List UInt8) :
    recvFrame (frame content ++ rest) = .ok (content, rest) := by
  rcases frame_header content rest with ⟨len, crc, behind⟩
  have lenNat : (UInt32.ofNat content.length).toNat = content.length := by
    rw [UInt32.toNat_ofNat']
    omega
  have long : ¬ (frame content ++ rest).length < 8 := by
    rw [List.length_append, length_frame]
    omega
  have nonZero : UInt32.ofNat content.length ≠ 0 := by
    intro zero
    have := congrArg UInt32.toNat zero
    rw [lenNat] at this
    exact Nat.ne_of_gt nonEmpty this
  have allowed : ¬ UInt32.ofNat content.length > (16 : UInt32) <<< 20 := by
    change ¬ (16 : UInt32) <<< 20 < _
    rw [UInt32.lt_iff_toNat_lt, lenNat]
    exact Nat.not_lt_of_le small
  have present : ¬ (content ++ rest).length < content.length := by
    rw [List.length_append]
    omega
  have further : (frame content ++ rest).drop (8 + content.length) = rest := by
    rw [← List.drop_drop, behind, List.drop_left]
  simp only [recvFrame, if_neg long, len, crc, if_neg nonZero, if_neg allowed, lenNat, behind,
    if_neg present, List.take_left, ne_eq, not_true_eq_false, if_false, further]

/-- The frame of a message is taken off the stream, and its content decoded. -/
theorem recvMessage_frame {message : Message} {payload : List UInt8}
    (small : (messageContent message payload).length ≤ 16 * 2 ^ 20) (rest : List UInt8) :
    recvMessage (frame (messageContent message payload) ++ rest) =
      .ok (decodeMessage (messageContent message payload), rest) := by
  have taken : recvFrame (frame (messageContent message payload) ++ rest) =
      .ok (messageContent message payload, rest) :=
    recvFrame_frame (by simp [messageContent]) small rest
  rw [recvMessage, taken, bind_ok]
  rfl

/-- One message off the stream. -/
theorem recvMessage_encodeMessage {message : Message} {bytes : List UInt8}
    (encoded : encodeMessage message = some bytes) (listed : message.Listed)
    (fits : message.StringsFit) (small : bytes.length ≤ 8 + 16 * 2 ^ 20) (rest : List UInt8) :
    ∃ received, recvMessage (bytes ++ rest) = .ok (.done received, rest) ∧
      received.Agrees message := by
  rcases Option.map_eq_some_iff.mp encoded with ⟨payload, written, rfl⟩
  rw [length_frame] at small
  have bound : (messageContent message payload).length ≤ 16 * 2 ^ 20 := by
    rw [messageContent]
    omega
  rcases decodeMessage_content written listed fits bound with ⟨received, decoded, agrees⟩
  refine ⟨received, ?_, agrees⟩
  change recvMessage (frame (messageContent message payload) ++ rest) = _
  rw [recvMessage_frame bound, decoded]

/-- A submission with a byte that is no enumerator is taken off the stream and
refused. -/
theorem recvMessage_unlisted {message : Message} {bytes : List UInt8}
    (encoded : encodeMessage message = some bytes) (unlisted : ¬ message.Listed)
    (small : bytes.length ≤ 8 + 16 * 2 ^ 20) (rest : List UInt8) :
    recvMessage (bytes ++ rest) = .ok (.rejected, rest) := by
  rcases Option.map_eq_some_iff.mp encoded with ⟨payload, written, rfl⟩
  rw [length_frame] at small
  have bound : (messageContent message payload).length ≤ 16 * 2 ^ 20 := by
    rw [messageContent]
    omega
  change recvMessage (frame (messageContent message payload) ++ rest) = _
  rw [recvMessage_frame bound, decodeMessage_of_unlisted written unlisted bound]

/-- One call of `recv_message` on a socket whose chunks begin with a frame. -/
theorem socket_recvMessage {message : Message} {bytes : List UInt8}
    (encoded : encodeMessage message = some bytes) (listed : message.Listed)
    (fits : message.StringsFit)
    (small : bytes.length ≤ 8 + 16 * 2 ^ 20) {chunks : List (List UInt8)}
    (nonEmpty : NonEmpty chunks) {rest : List UInt8} (split : chunks.flatten = bytes ++ rest) :
    ∃ received left, NonEmpty left ∧ left.flatten = rest ∧ received.Agrees message ∧
      FramedSocket.recvMessage (chunks.map .chunk) =
        .ok (.done received, left.map .chunk) := by
  rcases recvMessage_encodeMessage encoded listed fits small rest with ⟨received, flat, agrees⟩
  have socket := recvMessage_chunks nonEmpty
  rw [split, flat] at socket
  rcases socket with ⟨left, nonEmptyLeft, remains, read⟩
  exact ⟨received, left, nonEmptyLeft, remains, agrees, read⟩

/-- Repeated calls return messages, and consume the stream exactly. -/
def ReturnsAll (messages : List Message) (chunks : List (List UInt8)) : Prop :=
  ∃ received,
    FramedSocket.recvMessages messages.length (chunks.map .chunk) = some (received, []) ∧
      List.Forall₂ Message.Agrees received messages

/-- Repeated `recv_message` calls return the messages that were encoded, in
order, however the transport splits the frames, and nothing is left of the
stream. -/
theorem returnsAll_of_listed {messages : List Message} {frames : List (List UInt8)}
    (encoded : messages.map encodeMessage = frames.map some)
    (listed : ∀ message ∈ messages, message.Listed)
    (fit : ∀ message ∈ messages, message.StringsFit)
    (small : ∀ bytes ∈ frames, bytes.length ≤ 8 + 16 * 2 ^ 20) {chunks : List (List UInt8)}
    (nonEmpty : NonEmpty chunks) (split : chunks.flatten = frames.flatten) :
    ReturnsAll messages chunks := by
  induction messages generalizing frames chunks with
  | nil =>
      cases frames with
      | nil =>
          rw [eq_nil_of_flatten nonEmpty split]
          exact ⟨[], rfl, .nil⟩
      | cons bytes frames => cases encoded
  | cons message messages ih =>
      cases frames with
      | nil => cases encoded
      | cons bytes frames =>
          rw [List.map_cons, List.map_cons, List.cons.injEq] at encoded
          rw [List.forall_mem_cons] at listed fit small
          rcases socket_recvMessage encoded.1 listed.1 fit.1 small.1 nonEmpty split with
            ⟨first, left, nonEmptyLeft, remains, agrees, read⟩
          rcases ih encoded.2 listed.2 fit.2 small.2 nonEmptyLeft remains with
            ⟨others, reads, agree⟩
          refine ⟨first :: others, ?_, .cons agrees agree⟩
          simp only [List.length_cons, FramedSocket.recvMessages, read, reads, Option.map_some]

/-- A message that is refused ends the calls. -/
theorem listed_of_returnsAll {messages : List Message} {frames : List (List UInt8)}
    (encoded : messages.map encodeMessage = frames.map some)
    (fit : ∀ message ∈ messages, message.StringsFit)
    (small : ∀ bytes ∈ frames, bytes.length ≤ 8 + 16 * 2 ^ 20) {chunks : List (List UInt8)}
    (nonEmpty : NonEmpty chunks) (split : chunks.flatten = frames.flatten)
    (returns : ReturnsAll messages chunks) : ∀ message ∈ messages, message.Listed := by
  induction messages generalizing frames chunks with
  | nil => exact List.forall_mem_nil _
  | cons message messages ih =>
      cases frames with
      | nil => cases encoded
      | cons bytes frames =>
          rw [List.map_cons, List.map_cons, List.cons.injEq] at encoded
          rw [List.forall_mem_cons] at fit small
          rw [List.flatten_cons] at split
          rcases returns with ⟨received, reads, agree⟩
          have flat := recvMessage_chunks nonEmpty
          by_cases listed : message.Listed
          · rcases socket_recvMessage encoded.1 listed fit.1 small.1 nonEmpty split with
              ⟨first, left, nonEmptyLeft, remains, -, read⟩
            simp only [List.length_cons, FramedSocket.recvMessages, read] at reads
            rcases Option.map_eq_some_iff.mp reads with ⟨⟨others, behind⟩, later, same⟩
            cases same
            cases agree with
            | cons _ others =>
                exact List.forall_mem_cons.mpr
                  ⟨listed, ih encoded.2 fit.2 small.2 nonEmptyLeft remains ⟨_, later, others⟩⟩
          · rw [split, recvMessage_unlisted encoded.1 listed small.1] at flat
            rcases flat with ⟨left, -, -, read⟩
            simp only [List.length_cons, FramedSocket.recvMessages, read] at reads
            cases reads

/-- The wire protocol.  However the transport splits the frames, repeated
`recv_message` calls return the messages that were encoded, in order, and consume
the stream exactly, if and only if the entries among them hold enumerators. -/
theorem wire_round_trip_iff {messages : List Message} {frames : List (List UInt8)}
    (encoded : messages.map encodeMessage = frames.map some)
    (fit : ∀ message ∈ messages, message.StringsFit)
    (small : ∀ bytes ∈ frames, bytes.length ≤ 8 + 16 * 2 ^ 20) {chunks : List (List UInt8)}
    (nonEmpty : NonEmpty chunks) (split : chunks.flatten = frames.flatten) :
    ReturnsAll messages chunks ↔ ∀ message ∈ messages, message.Listed := by
  constructor
  · exact listed_of_returnsAll encoded fit small nonEmpty split
  · intro listed
    exact returnsAll_of_listed encoded listed fit small nonEmpty split

/-- Every byte of the frames on its own. -/
def bytewise (frames : List (List UInt8)) : List (List UInt8) :=
  frames.flatten.map fun byte => [byte]

theorem flatten_bytewise (frames : List (List UInt8)) :
    (bytewise frames).flatten = frames.flatten := by
  rw [bytewise, ← List.flatMap_def, List.flatMap_singleton']

theorem nonEmpty_bytewise (frames : List (List UInt8)) : NonEmpty (bytewise frames) := by
  intro chunk inside
  rcases List.mem_map.mp inside with ⟨byte, -, rfl⟩
  exact List.cons_ne_nil byte []

/-- A registration, an event and a ping. -/
def threeMessages : List Message :=
  [.register { worker := ⟨0, 1⟩, boot := ⟨0, 2⟩ }, .eventSubmit sampleEntry, .ping]

/-- The three messages, delivered byte by byte. -/
theorem wire_round_trip_bytewise :
    ∃ frames : List (List UInt8), threeMessages.map encodeMessage = frames.map some ∧
      ReturnsAll threeMessages (bytewise frames) := by
  have entry := encodable_sample.encoded
  have submit : ∃ bytes, encodeMessage (.eventSubmit sampleEntry) = some bytes ∧
      bytes.length ≤ 8 + 16 * 2 ^ 20 := by
    refine ⟨_, by rw [encodeMessage, messagePayload, entry]; rfl, ?_⟩
    decide +kernel
  rcases submit with ⟨bytes, encoded, small⟩
  let frames := [frame (1 :: (ByteWriter.putId (⟨0, 1⟩ : WorkerId) ++
    ByteWriter.putId (⟨0, 2⟩ : WorkerBootId))), bytes, frame [7]]
  have all : threeMessages.map encodeMessage = frames.map some := by
    change [_, encodeMessage (.eventSubmit sampleEntry), _] = _
    rw [encoded]
    rfl
  have listed : ∀ message ∈ threeMessages, message.Listed :=
    List.forall_mem_cons.mpr ⟨trivial, List.forall_mem_cons.mpr ⟨listed_sample,
      List.forall_mem_singleton.mpr trivial⟩⟩
  have fit : ∀ message ∈ threeMessages, message.StringsFit :=
    List.forall_mem_cons.mpr ⟨trivial, List.forall_mem_cons.mpr ⟨fitsFrame_sample.strings,
      List.forall_mem_singleton.mpr trivial⟩⟩
  have short : ∀ bytes ∈ frames, bytes.length ≤ 8 + 16 * 2 ^ 20 :=
    List.forall_mem_cons.mpr ⟨by decide, List.forall_mem_cons.mpr ⟨small,
      List.forall_mem_singleton.mpr (by decide)⟩⟩
  exact ⟨frames, all, (wire_round_trip_iff all fit short (nonEmpty_bytewise frames)
    (flatten_bytewise frames)).mpr listed⟩

/-- An event without a kind is sent and not received. -/
theorem unlisted_event_refused :
    ¬ ∀ (messages : List Message) (frames chunks : List (List UInt8)),
      messages.map encodeMessage = frames.map some →
      (∀ message ∈ messages, message.StringsFit) →
      (∀ bytes ∈ frames, bytes.length ≤ 8 + 16 * 2 ^ 20) → NonEmpty chunks →
      chunks.flatten = frames.flatten → ReturnsAll messages chunks := by
  intro claim
  have submit : ∃ bytes, encodeMessage (.eventSubmit unlistedEntry) = some bytes ∧
      bytes.length ≤ 8 + 16 * 2 ^ 20 := by
    refine ⟨_, by rw [encodeMessage, messagePayload, encodable_unlisted.encoded]; rfl, ?_⟩
    decide +kernel
  rcases submit with ⟨bytes, encoded, short⟩
  have all : [Message.eventSubmit unlistedEntry].map encodeMessage = [bytes].map some := by
    rw [List.map_singleton, encoded, List.map_singleton]
  have fit : ∀ message ∈ [Message.eventSubmit unlistedEntry], message.StringsFit :=
    List.forall_mem_singleton.mpr fun pair member => by cases member
  have small : ∀ bytes' ∈ [bytes], bytes'.length ≤ 8 + 16 * 2 ^ 20 :=
    List.forall_mem_singleton.mpr short
  have listed := listed_of_returnsAll all fit small (nonEmpty_bytewise _) (flatten_bytewise _)
    (claim _ _ _ all fit small (nonEmpty_bytewise _) (flatten_bytewise _))
  exact absurd (List.forall_mem_singleton.mp listed).eventKind (by decide)

end InferenceLedger
