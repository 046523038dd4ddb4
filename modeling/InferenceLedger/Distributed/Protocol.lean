import InferenceLedger.Codec.Entry
import InferenceLedger.Ledger.Append

namespace InferenceLedger

open Foundation

/-!
# Framed messages between workers and the coordinator

A wire frame has the same header as an entry frame, over a content that starts
with a type byte.  `recvFrame` is the part of `recv_message` that reads one
frame off the stream and checks its length and checksum; `decodeMessage`
interprets the content.

An `EventSubmit` content embeds a whole entry frame.  The outer checks say
nothing about the length field of the inner frame.
-/

/-- `enum class MessageType`. -/
inductive MessageType where
  | register | registerAck | eventSubmit | eventAck | roll | shutdown | ping
deriving DecidableEq

def msgTypeVal : MessageType → UInt8
  | .register => 1
  | .registerAck => 2
  | .eventSubmit => 3
  | .eventAck => 4
  | .roll => 5
  | .shutdown => 6
  | .ping => 7

/-- Every byte that names no type is taken for a `Ping`. -/
def msgTypeFrom (value : UInt8) : MessageType :=
  if value = 1 then .register
  else if value = 2 then .registerAck
  else if value = 3 then .eventSubmit
  else if value = 4 then .eventAck
  else if value = 5 then .roll
  else if value = 6 then .shutdown
  else .ping

structure RegisterMsg where
  worker : WorkerId := {}
  boot : WorkerBootId := {}
deriving DecidableEq

structure RegisterAckMsg where
  ok : Bool := false
  epoch : CoordinatorEpoch := {}
  accountingGeneration : AccountingGeneration := {}
  reason : ByteString := []
deriving DecidableEq

/-- The status travels as one byte and is cast back without a check, so a
received status need not be one of the five enumerators. -/
structure EventAckMsg where
  status : UInt8 := 4
  reason : ByteString := []
deriving DecidableEq

structure RollMsg where
  epoch : CoordinatorEpoch := {}
  accountingGeneration : AccountingGeneration := {}
deriving DecidableEq

/-- A message; only the payload that belongs to its type is populated. -/
inductive Message where
  | register (reg : RegisterMsg)
  | registerAck (ack : RegisterAckMsg)
  | eventSubmit (entry : LedgerEntry)
  | eventAck (ack : EventAckMsg)
  | roll (roll : RollMsg)
  | shutdown
  | ping

/-- The underlying value of an append status. -/
def AppendStatus.value : AppendStatus → UInt8
  | accepted => 0
  | duplicate => 1
  | duplicateConflict => 2
  | stale => 3
  | invalid => 4

/-! ## Encoding -/

section Encoding

open ByteWriter

/-- The payload of a message; `none` when its entry cannot be encoded. -/
def messagePayload : Message → Option (List UInt8)
  | .register reg => some (putId reg.worker ++ putId reg.boot)
  | .registerAck ack =>
      some (bool8 ack.ok ++ u64 ack.epoch.value ++ u64 ack.accountingGeneration.value ++
        string ack.reason)
  | .eventSubmit entry =>
      match encodeEntry entry with
      | none => none
      | some bytes => some (u32 (UInt32.ofNat bytes.length) ++ bytes)
  | .eventAck ack => some (u8 ack.status ++ string ack.reason)
  | .roll roll => some (u64 roll.epoch.value ++ u64 roll.accountingGeneration.value)
  | .shutdown => some []
  | .ping => some []

def Message.type : Message → MessageType
  | .register _ => .register
  | .registerAck _ => .registerAck
  | .eventSubmit _ => .eventSubmit
  | .eventAck _ => .eventAck
  | .roll _ => .roll
  | .shutdown => .shutdown
  | .ping => .ping

/-- `encode_message`: the frame around the type byte and the payload. -/
def encodeMessage (message : Message) : Option (List UInt8) :=
  (messagePayload message).map (fun payload => frame (msgTypeVal message.type :: payload))

end Encoding

/-! ## Decoding -/

section Decoding

open ByteReader

/-- The messages that a `ByteReader` over the content decodes by itself. -/
def readMessage : MessageType → ReadProgram Message
  | .register => do
      let worker ← getId
      let boot ← getId
      let left ← remaining
      require (left == 0)
      pure (.register { worker, boot })
  | .registerAck => do
      let ok ← bool8
      let e ← u64
      let g ← u64
      let reason ← string
      let left ← remaining
      require (left == 0)
      pure (.registerAck { ok, epoch := ⟨e⟩, accountingGeneration := ⟨g⟩, reason })
  | .eventAck => do
      let st ← u8
      let reason ← string
      let left ← remaining
      require (left == 0)
      pure (.eventAck { status := st, reason })
  | .roll => do
      let e ← u64
      let g ← u64
      let left ← remaining
      require (left == 0)
      pure (.roll { epoch := ⟨e⟩, accountingGeneration := ⟨g⟩ })
  | .shutdown => do
      let left ← remaining
      require (left == 0)
      pure .shutdown
  | .ping => do
      let left ← remaining
      require (left == 0)
      pure .ping
  -- The embedded entry frame is decoded from the raw content instead.
  | .eventSubmit => .reject

/-- `decode_message(data, n)` on a content of `n` bytes. -/
def decodeMessage (data : List UInt8) : Access Message :=
  if data.length < 1 then .rejected
  else
    let type := msgTypeFrom (data.getD 0 0)
    let memory := data.drop 1
    let n := data.length - 1
    if type = .eventSubmit then do
      let (flen, position) ← u32.run memory n 0
      if n - position ≠ flen.toNat then .rejected
      else do
        let (entry, consumed) ← decodeEntry (data.drop (1 + 4))
        if consumed = flen.toNat ∧ consumed = n - position then .done (.eventSubmit entry)
        else .rejected
    else do
      let (message, _) ← (readMessage type).run memory n 0
      .done message

/-- The bytes that one `recv_message` call takes off the stream: eight header
bytes and `len` content bytes, after the length and checksum tests.  The
stream is everything the peer sends before it closes the connection. -/
def recvFrame (stream : List UInt8) : Except String (List UInt8 × List UInt8) :=
  if stream.length < 8 then .error "connection closed during recv"
  else
    let len := wordAt stream 0
    let crcWant := wordAt stream 4
    if len = 0 then .error "zero-length frame"
    else if len > (16 : UInt32) <<< 20 then .error "frame too large"
    else if (stream.drop 8).length < len.toNat then .error "connection closed during recv"
    else
      let content := (stream.drop 8).take len.toNat
      if crc32 content ≠ crcWant then .error "frame checksum mismatch"
      else .ok (content, stream.drop (8 + len.toNat))

/-- `recv_message`: a framing error, or the outcome of decoding the content
together with the rest of the stream. -/
def recvMessage (stream : List UInt8) : Except String (Access Message × List UInt8) := do
  let (content, rest) ← recvFrame stream
  pure (decodeMessage content, rest)

end Decoding

end InferenceLedger
