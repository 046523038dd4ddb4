import InferenceLedger.Foundation.ReadProgram
import InferenceLedger.Record.Entry

namespace InferenceLedger

open Foundation

/-!
# Byte writer and byte reader

Every `ByteWriter` call appends to the writer's buffer, so a call is modelled
by the bytes that it appends and a sequence of calls by their concatenation.

Every `ByteReader` call compares its request with the bytes remaining before it
touches memory, and a failed call makes its caller return false.  That is the
shape of a `ReadProgram`, so the reader's calls are programs and their memory
accesses are those of `ReadProgram.run`.

The lemmas named `parse_..._bind` say that a reader call undoes the writer call
of the same name and leaves the following bytes alone.  The lemmas named
`parse_..._eq_some_iff` say that a reader call accepts nothing else, which is
not quite true of `bool8`.
-/

namespace ByteWriter

def u8 (value : UInt8) : List UInt8 := [value]

def u32 (value : UInt32) : List UInt8 := bytesOfU32 value

def u64 (value : UInt64) : List UInt8 := u32 (value >>> 32).toUInt32 ++ u32 value.toUInt32

def bool8 (value : Bool) : List UInt8 := u8 (if value then 1 else 0)

/-- `ByteWriter::id`, and `put_id` of the codec with the same body. -/
def putId {tag : IdTag} (value : Id128 tag) : List UInt8 := value.toBytes

/-- A string that is too long for its length field is silently skipped. -/
def string (text : ByteString) : List UInt8 :=
  if text.length > 0xFFFFFFFF then [] else u32 (UInt32.ofNat text.length) ++ text

/-- `if (flag) put_id(w, value)`. -/
def optionalId {tag : IdTag} (flag : Bool) (value : Id128 tag) : List UInt8 :=
  if flag then putId value else []

@[simp] theorem length_u8 (value : UInt8) : (u8 value).length = 1 := rfl

@[simp] theorem length_u32 (value : UInt32) : (u32 value).length = 4 := rfl

@[simp] theorem length_u64 (value : UInt64) : (u64 value).length = 8 := rfl

@[simp] theorem length_putId {tag : IdTag} (value : Id128 tag) : (putId value).length = 16 := rfl

@[simp] theorem length_optionalId {tag : IdTag} (flag : Bool) (value : Id128 tag) :
    (optionalId flag value).length = if flag then 16 else 0 := by
  cases flag <;> rfl

theorem string_of_lt {text : ByteString} (short : text.length < 2 ^ 32) :
    string text = u32 (UInt32.ofNat text.length) ++ text :=
  if_neg (by omega)

end ByteWriter

namespace ByteReader

open ReadProgram

def u8 : ReadProgram UInt8 := .read 1 (fun bytes => .done (bytes.headD 0))

def u32 : ReadProgram UInt32 := do
  let a ← u8
  let b ← u8
  let c ← u8
  let d ← u8
  pure (u32OfBytes a b c d)

def u64 : ReadProgram UInt64 := do
  let hi ← u32
  let lo ← u32
  pure (u64OfHalves hi lo)

def bytes (count : Nat) : ReadProgram (List UInt8) := .read count .done

/-- Any non-zero byte reads as true. -/
def bool8 : ReadProgram Bool := do
  let value ← u8
  pure (value != 0)

/-- `ByteReader::id`, and `get_id` of the codec with the same body. -/
def getId {tag : IdTag} : ReadProgram (Id128 tag) := do
  let b ← bytes 16
  pure (Id128.fromBytes b)

def string : ReadProgram ByteString := do
  let len ← u32
  bytes len.toNat

def remaining : ReadProgram Nat := .remaining .done

/-- `if (flag && !get_id(r, x)) return false`, where `x` starts out as zero. -/
def optionalId {tag : IdTag} (flag : Bool) : ReadProgram (Id128 tag) :=
  if flag then getId else .done {}

/-- A check between two reads; failing it makes the decoder return false. -/
def require (condition : Bool) : ReadProgram PUnit := if condition then .done ⟨⟩ else .reject

section Undo

variable {α : Type} (rest : List UInt8)

@[simp] theorem parse_u8_cons (value : UInt8) : parse u8 (value :: rest) = some (value, rest) := by
  simp [u8, parse]

@[simp] theorem parse_u8_bind (value : UInt8) (next : UInt8 → ReadProgram α) :
    parse (u8 >>= next) (ByteWriter.u8 value ++ rest) = parse (next value) rest := by
  rw [parse_bind, ByteWriter.u8, List.singleton_append, parse_u8_cons, Option.bind_some]

theorem parse_u32 (value : UInt32) : parse u32 (ByteWriter.u32 value ++ rest) = some (value, rest) := by
  have assembled : u32OfBytes (value >>> 24).toUInt8 (value >>> 16).toUInt8 (value >>> 8).toUInt8
      value.toUInt8 = value := by
    apply UInt32.toNat_inj.mp
    rw [toNat_u32OfBytes]
    change bigEndianValue (bytesOfU32 value) = value.toNat
    rw [bytesOfU32_eq, bigEndianValue_bigEndian]
    exact Nat.mod_eq_of_lt value.toNat_lt
  simp only [u32, ByteWriter.u32, bytesOfU32, List.cons_append, List.nil_append, parse_bind,
    parse_u8_cons, Option.bind_some, parse_pure, assembled]

@[simp] theorem parse_u32_bind (value : UInt32) (next : UInt32 → ReadProgram α) :
    parse (u32 >>= next) (ByteWriter.u32 value ++ rest) = parse (next value) rest := by
  rw [parse_bind, parse_u32, Option.bind_some]

@[simp] theorem parse_u64_bind (value : UInt64) (next : UInt64 → ReadProgram α) :
    parse (u64 >>= next) (ByteWriter.u64 value ++ rest) = parse (next value) rest := by
  simp only [u64, ByteWriter.u64, List.append_assoc, parse_bind, parse_u32, Option.bind_some,
    parse_pure, u64OfHalves_split]

@[simp] theorem parse_bool8_bind (value : Bool) (next : Bool → ReadProgram α) :
    parse (bool8 >>= next) (ByteWriter.bool8 value ++ rest) = parse (next value) rest := by
  cases value <;> simp [bool8, ByteWriter.bool8, ByteWriter.u8, parse_bind]

@[simp] theorem parse_flag_bind (flag : UInt8) (next : Bool → ReadProgram α) :
    parse (bool8 >>= next) (ByteWriter.u8 flag ++ rest) = parse (next (flag != 0)) rest := by
  simp [bool8, ByteWriter.u8, parse_bind]

theorem parse_bytes (content : List UInt8) :
    parse (bytes content.length) (content ++ rest) = some (content, rest) := by
  simp [bytes, parse]

@[simp] theorem parse_getId_bind {tag : IdTag} (value : Id128 tag) (next : Id128 tag → ReadProgram α) :
    parse (getId >>= next) (ByteWriter.putId value ++ rest) = parse (next value) rest := by
  have content := parse_bytes rest value.toBytes
  rw [Id128.length_toBytes] at content
  simp only [getId, ByteWriter.putId, parse_bind, content, Option.bind_some, parse_pure,
    Id128.fromBytes_toBytes]

theorem parse_string_bind {text : ByteString} (short : text.length < 2 ^ 32)
    (next : ByteString → ReadProgram α) :
    parse (string >>= next) (ByteWriter.string text ++ rest) = parse (next text) rest := by
  have length : (UInt32.ofNat text.length).toNat = text.length := by
    rw [UInt32.toNat_ofNat']
    exact Nat.mod_eq_of_lt short
  simp only [string, ByteWriter.string_of_lt short, List.append_assoc, parse_bind, parse_u32,
    Option.bind_some, length, parse_bytes]

@[simp] theorem parse_require_true_bind (next : PUnit → ReadProgram α) :
    parse (require true >>= next) rest = parse (next ⟨⟩) rest := rfl

@[simp] theorem parse_remaining_bind (next : Nat → ReadProgram α) :
    parse (remaining >>= next) rest = parse (next rest.length) rest := rfl

/-- An identity that is only present when its flag is set. -/
@[simp] theorem parse_optionalId_bind {tag : IdTag} (flag : Bool) (value : Id128 tag)
    (next : Id128 tag → ReadProgram α) :
    parse (optionalId flag >>= next) (ByteWriter.optionalId flag value ++ rest) =
      parse (next (if flag then value else {})) rest := by
  cases flag with
  | false => rfl
  | true => exact parse_getId_bind rest value next

end Undo

section Accept

variable {bytes rest : List UInt8}

theorem parse_u8_eq_some_iff {value : UInt8} :
    parse u8 bytes = some (value, rest) ↔ bytes = ByteWriter.u8 value ++ rest := by
  cases bytes with
  | nil => simp [u8, parse, ByteWriter.u8]
  | cons first others =>
      rw [parse_u8_cons, ByteWriter.u8, List.singleton_append]
      simp

theorem parse_u32_eq_some_iff {value : UInt32} :
    parse u32 bytes = some (value, rest) ↔ bytes = ByteWriter.u32 value ++ rest := by
  constructor
  · intro parsed
    simp only [u32, parse_bind_eq_some_iff, parse_u8_eq_some_iff, parse_pure, Option.some.injEq,
      Prod.mk.injEq] at parsed
    rcases parsed with ⟨a, _, rfl, b, _, rfl, c, _, rfl, d, _, rfl, rfl, rfl⟩
    rw [ByteWriter.u32, bytesOfU32_u32OfBytes]
    rfl
  · rintro rfl
    exact parse_u32 rest value

theorem parse_u64_eq_some_iff {value : UInt64} :
    parse u64 bytes = some (value, rest) ↔ bytes = ByteWriter.u64 value ++ rest := by
  constructor
  · intro parsed
    simp only [u64, parse_bind_eq_some_iff, parse_u32_eq_some_iff, parse_pure, Option.some.injEq,
      Prod.mk.injEq] at parsed
    rcases parsed with ⟨high, _, rfl, low, _, rfl, rfl, rfl⟩
    rw [ByteWriter.u64, high_u64OfHalves, low_u64OfHalves, List.append_assoc]
  · rintro rfl
    have parsed := parse_u64_bind rest value pure
    rwa [parse_pure] at parsed

/-- Two flag bytes that are not zero read alike. -/
theorem parse_bool8_eq_some_iff {value : Bool} :
    parse bool8 bytes = some (value, rest) ↔
      ∃ flag, (flag != 0) = value ∧ bytes = ByteWriter.u8 flag ++ rest := by
  simp only [bool8, parse_bind_eq_some_iff, parse_u8_eq_some_iff, parse_pure, Option.some.injEq,
    Prod.mk.injEq]
  constructor
  · rintro ⟨flag, _, rfl, rfl, rfl⟩
    exact ⟨flag, rfl, rfl⟩
  · rintro ⟨flag, rfl, rfl⟩
    exact ⟨flag, rest, rfl, rfl, rfl⟩

theorem parse_bytes_eq_some_iff {count : Nat} {content : List UInt8} :
    parse (ByteReader.bytes count) bytes = some (content, rest) ↔
      content.length = count ∧ bytes = content ++ rest := by
  constructor
  · intro parsed
    simp only [ByteReader.bytes, parse] at parsed
    split_ifs at parsed with short
    simp only [Option.some.injEq, Prod.mk.injEq] at parsed
    rcases parsed with ⟨rfl, rfl⟩
    exact ⟨List.length_take_of_le (Nat.le_of_not_lt short), (List.take_append_drop _ _).symm⟩
  · rintro ⟨rfl, rfl⟩
    exact parse_bytes rest content

theorem parse_getId_eq_some_iff {tag : IdTag} {value : Id128 tag} :
    parse getId bytes = some (value, rest) ↔ bytes = ByteWriter.putId value ++ rest := by
  constructor
  · intro parsed
    simp only [getId, parse_bind_eq_some_iff, parse_bytes_eq_some_iff, parse_pure,
      Option.some.injEq, Prod.mk.injEq] at parsed
    rcases parsed with ⟨content, _, ⟨sixteen, rfl⟩, rfl, rfl⟩
    have whole : content.take 16 = content := List.take_of_length_le (Nat.le_of_eq sixteen)
    rw [ByteWriter.putId, Id128.toBytes_fromBytes (Nat.le_of_eq sixteen.symm), whole]
  · rintro rfl
    have parsed := parse_getId_bind rest value pure
    rwa [parse_pure] at parsed

theorem parse_string_eq_some_iff {text : ByteString} :
    parse string bytes = some (text, rest) ↔
      text.length < 2 ^ 32 ∧ bytes = ByteWriter.string text ++ rest := by
  constructor
  · intro parsed
    simp only [string, parse_bind_eq_some_iff, parse_u32_eq_some_iff,
      parse_bytes_eq_some_iff] at parsed
    rcases parsed with ⟨length, _, rfl, same, rfl⟩
    have short : text.length < 2 ^ 32 := same ▸ length.toNat_lt
    refine ⟨short, ?_⟩
    rw [ByteWriter.string_of_lt short, same, UInt32.ofNat_toNat, List.append_assoc]
  · rintro ⟨short, rfl⟩
    have parsed := parse_string_bind rest short pure
    rwa [parse_pure] at parsed

theorem parse_optionalId_eq_some_iff {tag : IdTag} {flag : Bool} {value : Id128 tag} :
    parse (optionalId flag) bytes = some (value, rest) ↔
      (flag = false → value = {}) ∧ bytes = ByteWriter.optionalId flag value ++ rest := by
  cases flag with
  | false =>
      simp only [optionalId, ByteWriter.optionalId, Bool.false_eq_true, if_false, parse,
        Option.some.injEq, Prod.mk.injEq, true_implies, List.nil_append]
      exact and_congr_left' eq_comm
  | true =>
      simp only [optionalId, ByteWriter.optionalId, if_true, parse_getId_eq_some_iff,
        Bool.true_eq_false, false_implies, true_and]

theorem parse_require_bind_eq_some_iff {α : Type} {condition : Bool}
    {next : PUnit → ReadProgram α} {result : α × List UInt8} :
    parse (require condition >>= next) bytes = some result ↔
      condition = true ∧ parse (next ⟨⟩) bytes = some result := by
  cases condition with
  | false => simp [require, parse_bind, parse]
  | true => simp [require, parse_bind, parse]

end Accept

/-! Taking a successful reader apart, one call at a time. -/

section Peel

variable {α : Type} {bytes : List UInt8} {result : α × List UInt8} {motive : List UInt8 → Prop}

/-- The same step for every call that accepts only what the writer writes. -/
theorem peel {β : Type} {reader : ReadProgram β} {writer : β → List UInt8}
    (accepts : ∀ {bytes rest value}, parse reader bytes = some (value, rest) →
      bytes = writer value ++ rest)
    {next : β → ReadProgram α} (parsed : parse (reader >>= next) bytes = some result)
    (step : ∀ value rest, parse (next value) rest = some result → motive (writer value ++ rest)) :
    motive bytes := by
  rcases parse_bind_eq_some_iff.mp parsed with ⟨value, rest, read, others⟩
  rw [accepts read]
  exact step value rest others

@[elab_as_elim] theorem peel_u8 {next : UInt8 → ReadProgram α}
    (parsed : parse (u8 >>= next) bytes = some result)
    (step : ∀ value rest, parse (next value) rest = some result →
      motive (ByteWriter.u8 value ++ rest)) : motive bytes :=
  peel parse_u8_eq_some_iff.mp parsed step

@[elab_as_elim] theorem peel_u32 {next : UInt32 → ReadProgram α}
    (parsed : parse (u32 >>= next) bytes = some result)
    (step : ∀ value rest, parse (next value) rest = some result →
      motive (ByteWriter.u32 value ++ rest)) : motive bytes :=
  peel parse_u32_eq_some_iff.mp parsed step

@[elab_as_elim] theorem peel_u64 {next : UInt64 → ReadProgram α}
    (parsed : parse (u64 >>= next) bytes = some result)
    (step : ∀ value rest, parse (next value) rest = some result →
      motive (ByteWriter.u64 value ++ rest)) : motive bytes :=
  peel parse_u64_eq_some_iff.mp parsed step

@[elab_as_elim] theorem peel_getId {tag : IdTag} {next : Id128 tag → ReadProgram α}
    (parsed : parse (getId >>= next) bytes = some result)
    (step : ∀ value rest, parse (next value) rest = some result →
      motive (ByteWriter.putId value ++ rest)) : motive bytes :=
  peel parse_getId_eq_some_iff.mp parsed step

@[elab_as_elim] theorem peel_bool8 {next : Bool → ReadProgram α}
    (parsed : parse (bool8 >>= next) bytes = some result)
    (step : ∀ flag rest, parse (next (flag != 0)) rest = some result →
      motive (ByteWriter.u8 flag ++ rest)) : motive bytes := by
  rcases parse_bind_eq_some_iff.mp parsed with ⟨value, rest, read, others⟩
  rcases parse_bool8_eq_some_iff.mp read with ⟨flag, rfl, rfl⟩
  exact step flag rest others

@[elab_as_elim] theorem peel_optionalId {tag : IdTag} {flag : Bool} {next : Id128 tag → ReadProgram α}
    (parsed : parse (optionalId flag >>= next) bytes = some result)
    (step : ∀ value rest, (if flag then value else {}) = value →
      parse (next value) rest = some result →
      motive (ByteWriter.optionalId flag value ++ rest)) : motive bytes := by
  rcases parse_bind_eq_some_iff.mp parsed with ⟨value, rest, read, others⟩
  rcases parse_optionalId_eq_some_iff.mp read with ⟨absent, rfl⟩
  refine step value rest ?_ others
  cases flag with
  | false => exact (absent rfl).symm
  | true => rfl

end Peel

end ByteReader

end InferenceLedger
