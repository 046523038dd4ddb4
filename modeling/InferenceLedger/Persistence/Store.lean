import InferenceLedger.Codec.Entry
import InferenceLedger.Ledger.Append

namespace InferenceLedger

open Foundation

/-!
# Files of the ledger store

A ledger file is a header (magic, schema version, ledger identity) followed by
entry frames up to the end of the file.  Saving truncates the file and writes
it anew; appending writes behind what is there, if it reads the magic at its start;
loading checks every frame and refuses the whole file at the first fault;
replaying loads and then appends entry by entry.

What the operating system does to a stream is a parameter.  `FileSystem` says
whether a file opens for writing, what an input stream gets to read of it, what
a write leaves behind and whether a flush succeeds; `FileSystem.Reliable` is the
case in which nothing fails.
-/

/-! ## Fingerprints -/

/-- `struct Mix`: two 64-bit lanes. -/
structure Mix where
  a : UInt64 := 0xCBF29CE484222325
  b : UInt64 := 0x9E3779B97F4A7C15
deriving DecidableEq

namespace Mix

def feed (mix : Mix) (value : UInt64) : Mix where
  a := mix.a ^^^ (value + (0x9E3779B97F4A7C15 : UInt64) + (mix.a <<< 6) + (mix.a >>> 2))
  b := (mix.b ^^^ (value * (0x100000001B3 : UInt64))) * 0x9E3779B97F4A7C15

def feedBytes (mix : Mix) (bytes : List UInt8) : Mix :=
  bytes.foldl (fun mix byte => mix.feed byte.toUInt64) mix

end Mix

/-- Sixteen bytes of digest. -/
structure LedgerFingerprint where
  bytes : List UInt8 := List.replicate 16 0
deriving DecidableEq

/-- One round of the fingerprint loop: an entry contributes its frame, and an
entry without one a fixed word. -/
def fingerprintEntry (mix : Mix) (e : LedgerEntry) : Mix :=
  match encodeEntry e with
  | none => mix.feed 0xFFFFFFFFFFFFFFFF
  | some frame => mix.feedBytes frame

/-- `ledger_fingerprint`. -/
def ledgerFingerprint (entries : List LedgerEntry) : LedgerFingerprint :=
  let mix := entries.foldl fingerprintEntry {}
  { bytes := bytesOfU64 mix.a ++ bytesOfU64 mix.b }

/-! ## Writing -/

/-- A stream open for writing: the file behind it, and whether it is good. -/
structure OutStream where
  contents : List UInt8
  good : Bool

/-- What the operating system answers to a stream. -/
structure FileSystem where
  opens : String → Bool
  /-- What an `std::ifstream` delivers of a file; nothing if it does not open. -/
  read : String → List UInt8 → List UInt8
  write : List UInt8 → List UInt8 → OutStream
  flush : List UInt8 → Bool

/-- A file system on which no operation fails. -/
structure FileSystem.Reliable (fs : FileSystem) : Prop where
  opens : ∀ path, fs.opens path = true
  read : ∀ path contents, fs.read path contents = contents
  write : ∀ contents bytes, fs.write contents bytes = ⟨contents ++ bytes, true⟩
  flush : ∀ contents, fs.flush contents = true

/-- Writing to a stream that is no longer good does nothing. -/
def OutStream.write (fs : FileSystem) (stream : OutStream) (bytes : List UInt8) : OutStream :=
  if stream.good then fs.write stream.contents bytes else stream

def kLedgerMagic : UInt64 := 0x494C45444745524B

/-- `write_header`: three writes, whose success is tested afterwards. -/
def writeHeader (fs : FileSystem) (stream : OutStream) (ledgerId : LedgerId) : OutStream :=
  ((stream.write fs (bytesOfU64 kLedgerMagic)).write fs (bytesOfU32 kSchemaVersion)).write fs
    ledgerId.toBytes

/-- The loop that writes one frame per entry, with the text for a failed write. -/
def writeEntries (fs : FileSystem) (writeFailed : String) :
    List LedgerEntry → OutStream → Except String Unit × OutStream
  | [], stream => (.ok (), stream)
  | e :: entries, stream =>
      match encodeEntry e with
      | none => (.error "entry failed to encode", stream)
      | some frame =>
          let written := stream.write fs frame
          if !written.good then (.error writeFailed, written)
          else writeEntries fs writeFailed entries written

/-- `LedgerStore::save_snapshot`.  The second component is the file afterwards;
`before` is the file that an unsuccessful open leaves alone. -/
def saveSnapshot (fs : FileSystem) (entries : List LedgerEntry) (ledgerId : LedgerId)
    (path : String) (before : Option (List UInt8)) : Except String Unit × Option (List UInt8) :=
  if !fs.opens path then (.error ("cannot open " ++ path), before)
  else
    let header := writeHeader fs ⟨[], true⟩ ledgerId
    if !header.good then (.error "cannot write header", some header.contents)
    else
      match writeEntries fs "write failed" entries header with
      | (.error err, stream) => (.error err, some stream.contents)
      | (.ok (), stream) =>
          if !fs.flush stream.contents then (.error "flush failed", some stream.contents)
          else (.ok (), some stream.contents)

/-- The probe of `append_entries`: the file is there, eight bytes of it can be
read, and they are the magic. -/
def hasHeader (fs : FileSystem) (path : String) : Option (List UInt8) → Bool
  | none => false
  | some data =>
      let magic := (fs.read path data).take 8
      magic.length == 8 && u64OfBytes magic == kLedgerMagic

/-- The part of `append_entries` behind the header: open at the end, write,
flush. -/
def appendFrames (fs : FileSystem) (entries : List LedgerEntry) (path : String)
    (contents : List UInt8) : Except String Unit × Option (List UInt8) :=
  if !fs.opens path then (.error "cannot open for append", some contents)
  else
    match writeEntries fs "append write failed" entries ⟨contents, true⟩ with
    | (.error err, stream) => (.error err, some stream.contents)
    | (.ok (), stream) =>
        if !fs.flush stream.contents then (.error "append flush failed", some stream.contents)
        else (.ok (), some stream.contents)

/-- `LedgerStore::append_entries`, with the file afterwards.  Without a header
the file is truncated and gets one, under the first entry's ledger. -/
def appendEntries (fs : FileSystem) (entries : List LedgerEntry) (path : String)
    (before : Option (List UInt8)) : Except String Unit × Option (List UInt8) :=
  if hasHeader fs path before then appendFrames fs entries path (before.getD [])
  else
    let ledgerId : LedgerId :=
      match entries with
      | [] => {}
      | e :: _ => e.ledger
    if !fs.opens path then (.error "cannot create file", before)
    else
      let header := writeHeader fs ⟨[], true⟩ ledgerId
      if !header.good then (.error "cannot create file", some header.contents)
      else appendFrames fs entries path header.contents

/-! ## Loading -/

/-- `struct LoadResult`. -/
structure LoadResult where
  ok : Bool := false
  reason : String := ""
  ledgerId : LedgerId := {}
  entries : List LedgerEntry := []
  fingerprint : LedgerFingerprint := {}
  frameCount : Nat := 0

/-- The result as it stands when the loop gives up. -/
def LoadResult.refused (ledgerId : LedgerId) (frameCount : Nat) (reason : String) : LoadResult :=
  { reason, ledgerId, frameCount }

/-- The result after the loop has reached the end of the file. -/
def LoadResult.loaded (ledgerId : LedgerId) (frameCount : Nat) (seen : List LedgerEntry) :
    LoadResult :=
  { ok := true
    reason := "loaded " ++ toString frameCount ++ " frames"
    ledgerId
    entries := seen
    fingerprint := ledgerFingerprint seen
    frameCount }

/-- The loop of `load`.  `rest` is the file from the current position on; the
length is compared with it in 64 bits before `decode_entry` sees it. -/
def loadFrames (ledgerId : LedgerId) (rest : List UInt8) (ids : List LedgerEntryId)
    (seen : List LedgerEntry) (frameCount : Nat) : Access LoadResult :=
  if rest.length = 0 then .done (.loaded ledgerId frameCount seen)
  else if _header : rest.length < 8 then
    .done (.refused ledgerId frameCount "truncated frame header")
  else
    let len := (wordAt rest 0).toNat
    if len + 8 > rest.length then .done (.refused ledgerId frameCount "truncated frame payload")
    else
      match decodeEntry rest with
      | .outOfBounds => .outOfBounds
      | .rejected => .done (.refused ledgerId frameCount "corrupt frame or invalid record")
      | .done (e, consumed) =>
          if _mismatch : consumed ≠ len + 8 then
            .done (.refused ledgerId frameCount "frame length mismatch")
          else if ids.contains e.id then
            .done (.refused ledgerId frameCount "duplicate entry id")
          else
            loadFrames ledgerId (rest.drop consumed) (ids ++ [e.id]) (seen ++ [e]) (frameCount + 1)
termination_by rest.length
decreasing_by
  rw [List.length_drop]
  omega

/-- `LedgerStore::load` on the file found at the path, if there is one. -/
def load (path : String) : Option (List UInt8) → Access LoadResult
  | none => .done { reason := "cannot open " ++ path }
  | some data =>
      if data.length < 8 + 4 + 16 then .done { reason := "file too small for header" }
      else if u64OfBytes (data.take 8) ≠ kLedgerMagic then .done { reason := "bad magic" }
      else if wordAt data 8 ≠ kSchemaVersion then .done { reason := "unsupported version" }
      else loadFrames (.fromBytes (data.drop 12)) (data.drop 28) [] [] 0

/-! ## Replaying -/

/-- The loop of `replay_into`: it stops at the first entry that is neither
accepted nor a duplicate. -/
def replayEntries (authority : Option AuthorityState) :
    List LedgerEntry → Ledger → Ledger × Except String Unit
  | [], out => (out, .ok ())
  | e :: entries, out =>
      let (next, result) := out.append authority e
      if result.status ≠ .accepted ∧ result.status ≠ .duplicate then
        (next, .error ("replay rejected entry: " ++ result.reason))
      else replayEntries authority entries next

/-- `LedgerStore::replay_into`, with the authority attached to `out`. -/
def replayInto (out : Ledger) (authority : Option AuthorityState) (path : String)
    (file : Option (List UInt8)) : Access (Ledger × Except String Unit) := do
  let result ← load path file
  if !result.ok then .done (out, .error result.reason)
  else .done (replayEntries authority result.entries out)

end InferenceLedger
