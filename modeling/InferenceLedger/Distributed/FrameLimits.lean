import InferenceLedger.Codec.Oversize
import InferenceLedger.Distributed.MessageBounds
import InferenceLedger.Distributed.MessageRoundTrip
import InferenceLedger.Distributed.Threads

namespace InferenceLedger

open Foundation ReadProgram

/-!
# What fits in a frame

The sender puts any content into a frame.  The receiver refuses a content of
more than sixteen megabytes, and with that ends the connection.  Neither looks
at the other's limit, and a string of four gigabytes does not even reach the
frame: the writer skips it.

`Message.wireSize` is the size that the content has when nothing is skipped.  A
message that was encoded arrives exactly when this size is within the limit of
the receiver and the enumerations of its entry hold enumerators, at which the
sender does not look either.
-/

/-! ## Sizes -/

/-- The limit of `recv_message`. -/
def frameLimit : Nat := 16 * 2 ^ 20

/-- The size of the content of a message, with all its strings. -/
def Message.wireSize : Message → Nat
  | .register _ => 33
  | .registerAck ack => 22 + ack.reason.length
  | .eventSubmit e => 13 + e.fixedSize + pairsSize e.metadata.toList
  | .eventAck ack => 6 + ack.reason.length
  | .roll _ => 17
  | .shutdown => 1
  | .ping => 1

/-- When no string is skipped, the content has this size. -/
theorem length_messageContent {message : Message} {payload : List UInt8}
    (encoded : messagePayload message = some payload) (fits : message.StringsFit) :
    (messageContent message payload).length = message.wireSize := by
  rw [messageContent, List.length_cons]
  cases message with
  | register reg =>
      rw [← Option.some.inj encoded]
      rfl
  | registerAck ack =>
      rw [← Option.some.inj encoded, ByteWriter.string_of_lt fits]
      simp only [List.length_append, ByteWriter.bool8, ByteWriter.length_u8, ByteWriter.length_u32,
        ByteWriter.length_u64, Message.wireSize]
      omega
  | eventSubmit e =>
      rcases messagePayload_submit encoded with ⟨-, rfl⟩
      rw [List.length_append, ByteWriter.length_u32, length_frame, length_entryPayload fits,
        Message.wireSize]
      omega
  | eventAck ack =>
      rw [← Option.some.inj encoded, ByteWriter.string_of_lt fits]
      simp only [List.length_append, ByteWriter.length_u8, ByteWriter.length_u32, Message.wireSize]
      omega
  | roll roll =>
      rw [← Option.some.inj encoded]
      rfl
  | shutdown =>
      rw [← Option.some.inj encoded]
      rfl
  | ping =>
      rw [← Option.some.inj encoded]
      rfl

/-- A message that is small enough has no string to skip. -/
theorem stringsFit_of_wireSize {message : Message} (small : message.wireSize < 2 ^ 32) :
    message.StringsFit := by
  cases message with
  | registerAck ack =>
      simp only [Message.wireSize] at small
      simp only [Message.StringsFit]
      omega
  | eventAck ack =>
      simp only [Message.wireSize] at small
      simp only [Message.StringsFit]
      omega
  | eventSubmit e =>
      simp only [Message.wireSize] at small
      exact shortPairs_of_pairsSize (by omega)
  | register reg => trivial
  | roll roll => trivial
  | shutdown => trivial
  | ping => trivial

/-! ## Messages with a skipped string -/

/-- The decoder misses the string that was skipped. -/
theorem decodeMessage_of_skipped {message : Message} {payload : List UInt8}
    (encoded : messagePayload message = some payload) (skipped : ¬ message.StringsFit)
    (small : (messageContent message payload).length ≤ frameLimit) :
    decodeMessage (messageContent message payload) = .rejected := by
  cases message with
  | registerAck ack =>
      have missing : ByteWriter.string ack.reason = [] :=
        if_pos (Nat.le_of_not_lt fun short => skipped short)
      rw [decodeMessage_of_not_submit_eq (by simp [Message.type]), ← Option.some.inj encoded, missing]
      simp only [Message.type, readMessage, List.append_assoc, ByteReader.parse_bool8_bind,
        ByteReader.parse_u64_bind]
      rfl
  | eventAck ack =>
      have missing : ByteWriter.string ack.reason = [] :=
        if_pos (Nat.le_of_not_lt fun short => skipped short)
      rw [decodeMessage_of_not_submit_eq (by simp [Message.type]), ← Option.some.inj encoded, missing]
      simp only [Message.type, readMessage, ByteReader.parse_u8_bind]
      rfl
  | eventSubmit e =>
      have unread : parse readEntry (entryPayload e) = none := by
        rw [Option.eq_none_iff_forall_ne_some]
        intro result parsed
        have size := (messagePayload_submit encoded).1.metadataSize
        exact skipped ((parse_entryPayload_eq_some_iff size result).mp parsed).1
      rw [decodeMessage_submitted encoded small, unread]
      rfl
  | register reg => exact (skipped trivial).elim
  | roll roll => exact (skipped trivial).elim
  | shutdown => exact (skipped trivial).elim
  | ping => exact (skipped trivial).elim

/-! ## Messages that arrive -/

/-- A frame that is taken off the stream whole is taken off with its content. -/
theorem content_of_recvFrame {content other rest : List UInt8}
    (received : recvFrame (frame content ++ rest) = .ok (other, rest)) : other = content := by
  have behind := (frame_header content rest).2.2
  unfold recvFrame at received
  simp only at received
  split_ifs at received with short zero large missing checksum
  simp only [Except.ok.injEq, Prod.mk.injEq] at received
  have whole := List.take_append_drop (wordAt (frame content ++ rest) 0).toNat
    ((frame content ++ rest).drop 8)
  rw [List.drop_drop, received.1, received.2, behind] at whole
  exact List.append_cancel_right whole

/-- One round of `read_loop` on what its socket will deliver. -/
def readRound (conn : Nat) (stream : List UInt8) : Access ThreadStep :=
  match recvMessage stream with
  | .error _ => .done (.receiveFailure conn)
  | .ok (.outOfBounds, _) => .outOfBounds
  | .ok (.rejected, _) => .done (.receiveFailure conn)
  | .ok (.done message, _) => .done (.receive conn message)

/-- A message arrives when `recv_message` takes its frame off the stream,
whatever follows, and returns what was sent; a reader then does not give its
connection up. -/
structure Arrives (message : Message) (bytes : List UInt8) : Prop where
  received : ∀ rest, ∃ received, recvMessage (bytes ++ rest) = .ok (.done received, rest) ∧
    received.Agrees message
  kept : ∀ conn rest, readRound conn (bytes ++ rest) ≠ .done (.receiveFailure conn)

/-- A frame above the limit ends the connection. -/
theorem recvMessage_too_large {content : List UInt8} (large : frameLimit < content.length)
    (small : content.length < 2 ^ 32) (rest : List UInt8) :
    recvMessage (frame content ++ rest) = .error "frame too large" := by
  rcases frame_header content rest with ⟨len, -, -⟩
  have lenNat : (UInt32.ofNat content.length).toNat = content.length := by
    rw [UInt32.toNat_ofNat', Nat.mod_eq_of_lt small]
  have long : ¬ (frame content ++ rest).length < 8 := by
    rw [List.length_append, length_frame]
    omega
  have refused : UInt32.ofNat content.length > (16 : UInt32) <<< 20 := by
    change (16 : UInt32) <<< 20 < _
    rw [UInt32.lt_iff_toNat_lt, lenNat]
    exact large
  have nonZero : UInt32.ofNat content.length ≠ 0 := by
    intro zero
    rw [zero] at refused
    exact absurd refused (by decide)
  simp only [recvMessage, recvFrame, if_neg long, len, if_neg nonZero, if_pos refused]
  rfl

/-- What a whole frame that was received says about its content. -/
theorem content_of_recvMessage {content rest : List UInt8} {received : Message}
    (arrived : recvMessage (frame content ++ rest) = .ok (.done received, rest)) :
    content.length ≤ frameLimit ∧ decodeMessage content = .done received := by
  rw [recvMessage] at arrived
  cases taken : recvFrame (frame content ++ rest) with
  | error reason =>
      rw [taken] at arrived
      cases arrived
  | ok result =>
      rcases result with ⟨other, left⟩
      rw [taken, bind_ok] at arrived
      simp only [pure, Except.pure, Except.ok.injEq, Prod.mk.injEq] at arrived
      rcases arrived with ⟨decoded, rfl⟩
      have same := content_of_recvFrame taken
      subst same
      exact ⟨length_le_of_recvFrame taken, decoded⟩

/-- What arrives is within the limit. -/
theorem wireSize_le_of_arrives {message : Message} {payload : List UInt8}
    (written : messagePayload message = some payload)
    (arrives : Arrives message (frame (messageContent message payload))) :
    message.wireSize ≤ frameLimit := by
  rcases arrives.received [] with ⟨received, arrived, -⟩
  rcases content_of_recvMessage arrived with ⟨small, decoded⟩
  by_cases fits : message.StringsFit
  · rwa [length_messageContent written fits] at small
  · rw [decodeMessage_of_skipped written fits small] at decoded
    cases decoded

/-- What arrives holds enumerators. -/
theorem listed_of_arrives {message : Message} {payload : List UInt8}
    (written : messagePayload message = some payload)
    (arrives : Arrives message (frame (messageContent message payload))) : message.Listed := by
  rcases arrives.received [] with ⟨received, arrived, -⟩
  rcases content_of_recvMessage arrived with ⟨small, decoded⟩
  by_contra unlisted
  rw [decodeMessage_of_unlisted written unlisted small] at decoded
  cases decoded

/-- Any other message below four gigabytes ends the connection. -/
theorem readRound_of_refused {message : Message} {payload : List UInt8}
    (written : messagePayload message = some payload)
    (refused : ¬ (message.wireSize ≤ frameLimit ∧ message.Listed))
    (short : message.wireSize < 2 ^ 32) (conn : Nat) (rest : List UInt8) :
    readRound conn (frame (messageContent message payload) ++ rest) =
      .done (.receiveFailure conn) := by
  have length := length_messageContent written (stringsFit_of_wireSize short)
  by_cases small : message.wireSize ≤ frameLimit
  · have unlisted : ¬ message.Listed := fun listed => refused ⟨small, listed⟩
    rw [← length] at small
    rw [readRound, recvMessage_frame small, decodeMessage_of_unlisted written unlisted small]
  · rw [← length] at small short
    rw [readRound, recvMessage_too_large (Nat.lt_of_not_le small) short]

/-- Frame limits.  A message that was encoded arrives exactly when its content,
with all strings, is at most sixteen megabytes and its entry holds enumerators.
Any other message below four gigabytes makes the reader that meets it give its
connection up. -/
theorem arrives_iff {message : Message} {bytes : List UInt8}
    (encoded : encodeMessage message = some bytes) :
    (Arrives message bytes ↔ message.wireSize ≤ 16 * 2 ^ 20 ∧ message.Listed) ∧
    (¬ (message.wireSize ≤ 16 * 2 ^ 20 ∧ message.Listed) → message.wireSize < 2 ^ 32 →
      ∀ conn rest, readRound conn (bytes ++ rest) = .done (.receiveFailure conn)) := by
  rcases Option.map_eq_some_iff.mp encoded with ⟨payload, written, rfl⟩
  change (Arrives message (frame (messageContent message payload)) ↔ _) ∧ (_ → _ → ∀ conn rest,
    readRound conn (frame (messageContent message payload) ++ rest) = _)
  refine ⟨⟨?_, ?_⟩, readRound_of_refused written⟩
  · intro arrives
    exact ⟨wireSize_le_of_arrives written arrives, listed_of_arrives written arrives⟩
  · rintro ⟨small, listed⟩
    have fits : message.StringsFit := stringsFit_of_wireSize (by omega)
    have length := length_messageContent written fits
    have total : (frame (messageContent message payload)).length ≤ 8 + 16 * 2 ^ 20 := by
      rw [length_frame]
      omega
    have received := recvMessage_encodeMessage encoded listed fits total
    refine ⟨received, ?_⟩
    intro conn rest
    rcases received rest with ⟨message', arrived, -⟩
    change recvMessage (frame (messageContent message payload) ++ rest) = _ at arrived
    rw [readRound, arrived]
    simp

/-- An event with an adapter and a metadata pair arrives. -/
theorem arrives_iff_sample :
    ∃ bytes, encodeMessage (.eventSubmit sampleEntry) = some bytes ∧
      Arrives (.eventSubmit sampleEntry) bytes := by
  have written : ∃ bytes, encodeMessage (.eventSubmit sampleEntry) = some bytes := by
    rw [encodeMessage, messagePayload, encodable_sample.encoded]
    exact ⟨_, rfl⟩
  rcases written with ⟨bytes, encoded⟩
  exact ⟨bytes, encoded, (arrives_iff encoded).1.mpr ⟨by decide +kernel, listed_sample⟩⟩

theorem wireSize_entryWith (value : ByteString) :
    (Message.eventSubmit (entryWith value)).wireSize = 375 + value.length := by
  have fixed : (entryWith value).fixedSize = 353 := rfl
  rw [Message.wireSize, toList_entryWith, fixed]
  simp only [pairsSize, List.map_cons, List.map_nil, List.sum_cons, List.sum_nil, List.length_cons,
    List.length_nil]
  omega

/-- An event with a metadata string of sixteen megabytes is encoded and does not
arrive. -/
theorem large_event_refused :
    ¬ ∀ (message : Message) (bytes : List UInt8), encodeMessage message = some bytes →
      Arrives message bytes := by
  intro always
  have long : frameLimit ≤ (List.replicate frameLimit (0 : UInt8)).length :=
    Nat.le_of_eq List.length_replicate.symm
  generalize List.replicate frameLimit (0 : UInt8) = value at long
  have entry := (encodable_entryWith value).encoded
  have written : ∃ payload, messagePayload (.eventSubmit (entryWith value)) = some payload := by
    rw [messagePayload, entry]
    exact ⟨_, rfl⟩
  rcases written with ⟨payload, written⟩
  have encoded : encodeMessage (.eventSubmit (entryWith value)) =
      some (frame (messageContent (.eventSubmit (entryWith value)) payload)) := by
    rw [encodeMessage, written]
    rfl
  have small := wireSize_le_of_arrives written (always _ _ encoded)
  rw [wireSize_entryWith] at small
  omega

end InferenceLedger
