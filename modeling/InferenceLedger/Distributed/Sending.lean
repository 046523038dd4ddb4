import InferenceLedger.Distributed.FrameLimits
import InferenceLedger.Foundation.Writers

namespace InferenceLedger

open Foundation SharedStream

/-!
# Sending under the write lock

`send_message` encodes and writes under the lock of its socket, and `write_all`
repeats `send` until the frame is out.  The coordinator sends on a connection
from two threads, its reader and the accounting thread, so that other frames
wait while one is written piece by piece.

What comes out at the far end are the messages whose calls returned true, whole
and in the order in which they returned.  A frame at which the connection broke
is not taken for a message.  This is what lets the threads treat a send as one
event.

A `send` that fails inside a frame leaves the piece of it on the socket.
`write_all` keeps no note of that, and the next call sends its frame behind the
piece, where the far end reads it as the rest of the torn one.  The messages
arrive up to there; behind a torn frame nothing is promised, unless the socket
took nothing more.
-/

namespace FramedSocket

/-- What `send_message` reports when it returns false. -/
def sendError : WriteResult → Option String
  | .complete => none
  | .refused => some "message encode failed"
  | .closed => some "connection closed during send"
  | .failed => some "send error"

/-- A socket and the frame that is being written on it. -/
abbrev Outgoing (Thread : Type) := SharedStream Thread Message UInt8

/-- The calls of `send_message` on one socket, by any threads, and what `send`
makes of them. -/
abbrev sends {Thread : Type} :
    Machine (Outgoing Thread) (WriteStep Thread Message) (List (WriteEnd Thread Message)) :=
  step encodeMessage

/-- The messages whose `send_message` returned true before a call gave up inside
a frame, in that order. -/
def delivered {Thread : Type} (steps : List (WriteStep Thread Message)) : List Message :=
  (untilTorn (sends.trace ({} : Outgoing Thread) steps)).filterMap completed

/-- From the moment at which a call gave up inside a frame, the socket took
nothing more. -/
def QuietAfterTorn {Thread : Type} (steps : List (WriteStep Thread Message)) : Prop :=
  Quiet (sends.trace ({} : Outgoing Thread) steps) (sends.run ({} : Outgoing Thread) steps)

end FramedSocket

/-! ## A frame that was cut -/

/-- The receiver of a frame that is not complete waits for the rest. -/
theorem recvFrame_cut {content : List UInt8} (nonEmpty : 0 < content.length)
    (limit : content.length ≤ frameLimit) {sent : Nat} (short : sent < (frame content).length) :
    recvFrame ((frame content).take sent) = .error "connection closed during recv" := by
  have length : ((frame content).take sent).length = sent := by
    rw [List.length_take]
    omega
  rw [length_frame] at short
  unfold recvFrame
  by_cases header : sent < 8
  · rw [if_pos (by rw [length]; exact header)]
  · have word : wordAt ((frame content).take sent) 0 = UInt32.ofNat content.length := by
      have whole := (frame_header content []).1
      rw [List.append_nil] at whole
      rw [wordAt_take _ (by omega), whole]
    have lenNat : (UInt32.ofNat content.length).toNat = content.length := by
      rw [frameLimit] at limit
      rw [UInt32.toNat_ofNat']
      omega
    have nonZero : UInt32.ofNat content.length ≠ 0 := by
      intro zero
      have same := congrArg UInt32.toNat zero
      rw [lenNat] at same
      exact Nat.ne_of_gt nonEmpty same
    have allowed : ¬ UInt32.ofNat content.length > (16 : UInt32) <<< 20 := by
      change ¬ (16 : UInt32) <<< 20 < _
      rw [UInt32.lt_iff_toNat_lt, lenNat]
      exact Nat.not_lt_of_le limit
    have missing : (((frame content).take sent).drop 8).length < content.length := by
      rw [List.length_drop, length]
      omega
    rw [if_neg (by rw [length]; exact header)]
    simp only [word, lenNat, if_neg nonZero, if_neg allowed, if_pos missing]

/-- A piece of a frame is not taken for a message. -/
theorem recvMessage_cut {message : Message} {bytes : List UInt8}
    (encoded : encodeMessage message = some bytes) (fits : message.wireSize ≤ frameLimit) {sent : Nat}
    (short : sent < bytes.length) :
    recvMessage (bytes.take sent) = .error "connection closed during recv" := by
  have strings : message.StringsFit := by
    apply stringsFit_of_wireSize
    rw [frameLimit] at fits
    omega
  rcases Option.map_eq_some_iff.mp encoded with ⟨payload, written, framed⟩
  have length := length_messageContent written strings
  have cut : recvFrame (bytes.take sent) = .error "connection closed during recv" := by
    rw [← framed] at short ⊢
    apply recvFrame_cut
    · exact Nat.zero_lt_succ _
    · exact length.trans_le fits
    · exact short
  rw [recvMessage, cut]
  rfl

theorem recvMessage_nil : recvMessage [] = .error "connection closed during recv" := rfl

/-! ## The far end -/

/-- The frames in front of a tail are received as the messages that they are. -/
theorem recvMessages_wire {messages : List Message}
    (encoded : ∀ message ∈ messages, (encodeMessage message).isSome = true)
    (listed : ∀ message ∈ messages, message.Listed)
    (fit : ∀ message ∈ messages, message.wireSize ≤ frameLimit) {chunks : List (List UInt8)}
    (nonEmpty : NonEmpty chunks) {tail : List UInt8}
    (split : chunks.flatten =
      messages.flatMap (fun message => (encodeMessage message).getD []) ++ tail) :
    ∃ received left, NonEmpty left ∧ left.flatten = tail ∧
      FramedSocket.recvMessages messages.length (chunks.map .chunk) =
        some (received, left.map .chunk) ∧
      List.Forall₂ Message.Agrees received messages := by
  induction messages generalizing chunks with
  | nil => exact ⟨[], chunks, nonEmpty, split, rfl, .nil⟩
  | cons message messages ih =>
      rw [List.forall_mem_cons] at encoded listed fit
      rcases Option.isSome_iff_exists.mp encoded.1 with ⟨bytes, frameBytes⟩
      have strings : message.StringsFit := by
        have size := fit.1
        apply stringsFit_of_wireSize
        rw [frameLimit] at size
        omega
      have small : bytes.length ≤ 8 + 16 * 2 ^ 20 := by
        rcases Option.map_eq_some_iff.mp frameBytes with ⟨payload, written, framed⟩
        have size := fit.1
        have content := length_messageContent written strings
        rw [frameLimit] at size
        rw [← framed, length_frame]
        change 8 + (messageContent message payload).length ≤ _
        omega
      rw [List.flatMap_cons, frameBytes, Option.getD_some, List.append_assoc] at split
      rcases socket_recvMessage frameBytes listed.1 strings small nonEmpty split with
        ⟨first, left, nonEmptyLeft, remains, agrees, read⟩
      rcases ih encoded.2 listed.2 fit.2 nonEmptyLeft remains with
        ⟨others, rest, nonEmptyRest, flat, reads, agree⟩
      refine ⟨first :: others, rest, nonEmptyRest, flat, ?_, .cons agrees agree⟩
      simp only [List.length_cons, FramedSocket.recvMessages, read, reads, Option.map_some]

namespace FramedSocket

/-- A message whose call returned true was sent by someone, and it has a frame. -/
theorem delivered_known {Thread : Type} {steps : List (WriteStep Thread Message)} {message : Message}
    (member : message ∈ delivered steps) :
    message ∈ steps.filterMap entered ∧ (encodeMessage message).isSome = true := by
  rcases List.mem_filterMap.mp member with ⟨ended, inside, isCompleted⟩
  have known := (laid_run encodeMessage steps).accounted ended (untorn_of_mem_untilTorn inside).1
  unfold completed at isCompleted
  split at isCompleted
  · rename_i complete
    cases isCompleted
    rcases known.whole complete with ⟨bytes, encoded, -⟩
    exact ⟨known.known, by rw [encoded]; rfl⟩
  · cases isCompleted

/-- A reader answers a ping, the accounting thread waits for the lock, and `send`
fails in the middle of its frame. -/
def brokenSends : List (WriteStep Nat Message) :=
  [.enter 0 .ping, .enter 1 .shutdown, .take 3, .take 100, .enter 1 .shutdown, .take 4, .failed]

/-- When another thread sends behind the piece, only what was sent before it is
sure to arrive. -/
example : delivered (brokenSends ++ [.enter 0 .ping, .take 9]) = [.ping] := rfl

end FramedSocket

end InferenceLedger
