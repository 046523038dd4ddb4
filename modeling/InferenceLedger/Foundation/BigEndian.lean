import Mathlib

namespace Foundation

/-!
# Big-endian words

Byte strings read as numbers, most significant byte first.  The numeric view
is independent of any machine width: `bigEndian width number` keeps the low
`8 * width` bits of the number, and `bigEndianValue` recovers them.

The machine-word functions below are the shift-and-mask forms that real code
uses.  Each is proved equal to the numeric view once, so that a round trip or
a bound on a decoded length never has to look at individual bits again.
-/

/-- The `width` low-order bytes of a number, most significant byte first. -/
def bigEndian : Nat → Nat → List UInt8
  | 0, _ => []
  | width + 1, number => UInt8.ofNat (number / 256 ^ width) :: bigEndian width number

/-- The number a byte string denotes, most significant byte first. -/
def bigEndianValue : List UInt8 → Nat
  | [] => 0
  | byte :: rest => byte.toNat * 256 ^ rest.length + bigEndianValue rest

@[simp] theorem length_bigEndian (width number : Nat) :
    (bigEndian width number).length = width := by
  induction width with
  | zero => rfl
  | succ width ih => simp only [bigEndian, List.length_cons, ih]

theorem bigEndianValue_lt (bytes : List UInt8) :
    bigEndianValue bytes < 256 ^ bytes.length := by
  induction bytes with
  | nil => decide
  | cons byte rest ih =>
      have byteBound : byte.toNat + 1 ≤ 256 := byte.toNat_lt
      calc
        bigEndianValue (byte :: rest) < byte.toNat * 256 ^ rest.length + 256 ^ rest.length :=
          Nat.add_lt_add_left ih _
        _ = (byte.toNat + 1) * 256 ^ rest.length := by rw [Nat.add_mul, Nat.one_mul]
        _ ≤ 256 * 256 ^ rest.length := Nat.mul_le_mul_right _ byteBound
        _ = 256 ^ (byte :: rest).length := by
          rw [List.length_cons, Nat.pow_succ, Nat.mul_comm]

/-- Writing a number and reading it back keeps its low-order bytes. -/
theorem bigEndianValue_bigEndian (width number : Nat) :
    bigEndianValue (bigEndian width number) = number % 256 ^ width := by
  induction width with
  | zero => simp [bigEndian, bigEndianValue, Nat.mod_one]
  | succ width ih =>
      have leading : (UInt8.ofNat (number / 256 ^ width)).toNat =
          number / 256 ^ width % 256 := by simp
      simp only [bigEndian, bigEndianValue, length_bigEndian, ih, leading]
      rw [Nat.pow_succ, Nat.mod_mul, Nat.mul_comm (256 ^ width), Nat.add_comm]

/-- Adding whole multiples of `256 ^ width` does not disturb the low bytes. -/
theorem bigEndian_add_mul (width number extra : Nat) :
    bigEndian width (extra * 256 ^ width + number) = bigEndian width number := by
  induction width generalizing extra with
  | zero => rfl
  | succ width ih =>
      have shifted : extra * 256 ^ (width + 1) + number =
          (extra * 256) * 256 ^ width + number := by
        rw [Nat.pow_succ, Nat.mul_assoc, Nat.mul_comm 256]
      have quotient : (extra * 256 ^ (width + 1) + number) / 256 ^ width =
          extra * 256 + number / 256 ^ width := by
        rw [shifted, Nat.add_comm, Nat.add_mul_div_right _ _ (Nat.pow_pos (by decide)),
          Nat.add_comm]
      have leading : UInt8.ofNat (extra * 256 + number / 256 ^ width) =
          UInt8.ofNat (number / 256 ^ width) := by
        apply UInt8.toNat_inj.mp
        simp only [UInt8.toNat_ofNat']
        omega
      simp only [bigEndian]
      rw [quotient, leading, shifted, ih]

/-- Reading a byte string and writing the number back restores the string. -/
theorem bigEndian_bigEndianValue (bytes : List UInt8) :
    bigEndian bytes.length (bigEndianValue bytes) = bytes := by
  induction bytes with
  | nil => rfl
  | cons byte rest ih =>
      have quotient : (byte.toNat * 256 ^ rest.length + bigEndianValue rest) /
          256 ^ rest.length = byte.toNat := by
        rw [Nat.add_comm, Nat.add_mul_div_right _ _ (Nat.pow_pos (by decide)),
          Nat.div_eq_of_lt (bigEndianValue_lt rest), Nat.zero_add]
      simp only [List.length_cons, bigEndian, bigEndianValue]
      rw [quotient, bigEndian_add_mul, ih, UInt8.ofNat_toNat]

/-! ## Thirty-two bit words -/

/-- Four bytes of a 32-bit word, as a writer shifts them out. -/
def bytesOfU32 (word : UInt32) : List UInt8 :=
  [(word >>> 24).toUInt8, (word >>> 16).toUInt8, (word >>> 8).toUInt8, word.toUInt8]

/-- The 32-bit word assembled from four bytes by shifts and disjunctions. -/
def u32OfBytes (first second third fourth : UInt8) : UInt32 :=
  (first.toUInt32 <<< 24) ||| (second.toUInt32 <<< 16) ||| (third.toUInt32 <<< 8) |||
    fourth.toUInt32

theorem bytesOfU32_eq (word : UInt32) : bytesOfU32 word = bigEndian 4 word.toNat := by
  simp only [bytesOfU32, bigEndian, List.cons.injEq, and_true]
  refine ⟨?_, ?_, ?_, ?_⟩ <;> apply UInt8.toNat_inj.mp <;>
    simp [Nat.shiftRight_eq_div_pow]

/-- Appending one byte below a word that is already shifted past it. -/
theorem or_shifted_byte {high byte above : Nat} (shift : Nat) (gap : above = shift + 8)
    (bound : byte < 2 ^ 8) :
    high * 2 ^ above ||| byte * 2 ^ shift = (high * 2 ^ 8 + byte) * 2 ^ shift := by
  have split : high * 2 ^ above = 2 ^ above * high := Nat.mul_comm _ _
  have small : byte * 2 ^ shift < 2 ^ above := by
    rw [gap, Nat.pow_add, Nat.mul_comm (2 ^ shift)]
    exact Nat.mul_lt_mul_of_pos_right bound (Nat.two_pow_pos shift)
  rw [split, ← Nat.two_pow_add_eq_or_of_lt small, gap, Nat.pow_add, Nat.add_mul]
  ring

theorem toNat_u32OfBytes (first second third fourth : UInt8) :
    (u32OfBytes first second third fourth).toNat =
      bigEndianValue [first, second, third, fourth] := by
  have firstBound := first.toNat_lt
  have secondBound := second.toNat_lt
  have thirdBound := third.toNat_lt
  have fourthBound := fourth.toNat_lt
  have assembled : first.toNat * 2 ^ 24 ||| second.toNat * 2 ^ 16 ||| third.toNat * 2 ^ 8 |||
      fourth.toNat * 2 ^ 0 = bigEndianValue [first, second, third, fourth] := by
    rw [or_shifted_byte 16 rfl secondBound, or_shifted_byte 8 rfl thirdBound,
      or_shifted_byte 0 rfl fourthBound]
    simp only [bigEndianValue, List.length_cons, List.length_nil]
    omega
  rw [← assembled]
  simp only [u32OfBytes, UInt32.toNat_or, UInt32.toNat_shiftLeft, UInt8.toNat_toUInt32,
    Nat.shiftLeft_eq]
  rw [Nat.mod_eq_of_lt (a := first.toNat * 2 ^ (UInt32.toNat 24 % 32)) (by simp; omega),
    Nat.mod_eq_of_lt (a := second.toNat * 2 ^ (UInt32.toNat 16 % 32)) (by simp; omega),
    Nat.mod_eq_of_lt (a := third.toNat * 2 ^ (UInt32.toNat 8 % 32)) (by simp; omega)]
  simp

/-- Four bytes are recovered from the word they form. -/
theorem bytesOfU32_u32OfBytes (a b c d : UInt8) : bytesOfU32 (u32OfBytes a b c d) = [a, b, c, d] := by
  rw [bytesOfU32_eq, toNat_u32OfBytes]
  exact bigEndian_bigEndianValue [a, b, c, d]

/-! ## Sixty-four bit words -/

/-- Eight bytes of a 64-bit word, as a writer shifts them out. -/
def bytesOfU64 (word : UInt64) : List UInt8 :=
  [(word >>> 56).toUInt8, (word >>> 48).toUInt8, (word >>> 40).toUInt8, (word >>> 32).toUInt8,
    (word >>> 24).toUInt8, (word >>> 16).toUInt8, (word >>> 8).toUInt8, word.toUInt8]

/-- Accumulate bytes into a 64-bit word; bytes beyond the eighth push the
earliest ones out at the top. -/
def u64OfBytes (bytes : List UInt8) : UInt64 :=
  bytes.foldl (fun (word : UInt64) byte => (word <<< 8) ||| byte.toUInt64) 0

theorem bytesOfU64_eq (word : UInt64) : bytesOfU64 word = bigEndian 8 word.toNat := by
  simp only [bytesOfU64, bigEndian, List.cons.injEq, and_true]
  refine ⟨?_, ?_, ?_, ?_, ?_, ?_, ?_, ?_⟩ <;> apply UInt8.toNat_inj.mp <;>
    simp [Nat.shiftRight_eq_div_pow]

theorem toNat_shiftLeft_or_byte (word : UInt64) (byte : UInt8) :
    ((word <<< 8) ||| byte.toUInt64).toNat = (word.toNat * 256 + byte.toNat) % 2 ^ 64 := by
  have byteBound := byte.toNat_lt
  have wordBound := word.toNat_lt
  have low : word.toNat * 2 ^ 8 % 2 ^ 64 = word.toNat % 2 ^ 56 * 2 ^ 8 := by omega
  have joined : word.toNat % 2 ^ 56 * 2 ^ 8 ||| byte.toNat * 2 ^ 0 =
      (word.toNat % 2 ^ 56 * 2 ^ 8 + byte.toNat) * 2 ^ 0 := or_shifted_byte 0 rfl byteBound
  simp only [UInt64.toNat_or, UInt64.toNat_shiftLeft, UInt8.toNat_toUInt64, Nat.shiftLeft_eq]
  change word.toNat * 2 ^ 8 % 2 ^ 64 ||| byte.toNat = _
  rw [low]
  simp only [Nat.pow_zero, Nat.mul_one] at joined
  omega

theorem toNat_foldl_shiftLeft_or (bytes : List UInt8) (word : UInt64) :
    (bytes.foldl (fun (word : UInt64) byte => (word <<< 8) ||| byte.toUInt64) word).toNat =
      (word.toNat * 256 ^ bytes.length + bigEndianValue bytes) % 2 ^ 64 := by
  induction bytes generalizing word with
  | nil =>
      simp only [List.foldl_nil, List.length_nil, Nat.pow_zero, Nat.mul_one, bigEndianValue,
        Nat.add_zero]
      exact (Nat.mod_eq_of_lt word.toNat_lt).symm
  | cons byte rest ih =>
      rw [List.foldl_cons, ih, toNat_shiftLeft_or_byte]
      simp only [bigEndianValue, List.length_cons]
      rw [Nat.add_mod, Nat.mod_mul_mod, ← Nat.add_mod]
      congr 1
      ring

theorem toNat_u64OfBytes (bytes : List UInt8) :
    (u64OfBytes bytes).toNat = bigEndianValue bytes % 2 ^ 64 := by
  rw [u64OfBytes, toNat_foldl_shiftLeft_or]
  simp

/-- Eight bytes determine and are determined by the word they spell. -/
theorem bytesOfU64_u64OfBytes (bytes : List UInt8) (eight : bytes.length = 8) :
    bytesOfU64 (u64OfBytes bytes) = bytes := by
  have bound : bigEndianValue bytes < 2 ^ 64 := by
    have := bigEndianValue_lt bytes
    rw [eight] at this
    exact this
  rw [bytesOfU64_eq, toNat_u64OfBytes, Nat.mod_eq_of_lt bound, ← eight, bigEndian_bigEndianValue]

theorem u64OfBytes_bytesOfU64 (word : UInt64) : u64OfBytes (bytesOfU64 word) = word := by
  apply UInt64.toNat_inj.mp
  rw [toNat_u64OfBytes, bytesOfU64_eq, bigEndianValue_bigEndian]
  have := word.toNat_lt
  omega

/-- The word assembled from eight bytes in a single disjunction. -/
def u64OfOctets (first second third fourth fifth sixth seventh eighth : UInt8) : UInt64 :=
  (first.toUInt64 <<< 56) ||| (second.toUInt64 <<< 48) ||| (third.toUInt64 <<< 40) |||
    (fourth.toUInt64 <<< 32) ||| (fifth.toUInt64 <<< 24) ||| (sixth.toUInt64 <<< 16) |||
    (seventh.toUInt64 <<< 8) ||| eighth.toUInt64

theorem toNat_shiftLeft_byte (byte : UInt8) (shift : UInt64) (small : shift.toNat ≤ 56) :
    (byte.toUInt64 <<< shift).toNat = byte.toNat * 2 ^ shift.toNat := by
  have noWrap : byte.toNat * 2 ^ shift.toNat < 2 ^ 64 :=
    calc
      byte.toNat * 2 ^ shift.toNat < 2 ^ 8 * 2 ^ shift.toNat :=
        Nat.mul_lt_mul_of_pos_right byte.toNat_lt (Nat.two_pow_pos _)
      _ ≤ 2 ^ 8 * 2 ^ 56 := Nat.mul_le_mul_left _ (Nat.pow_le_pow_right (by decide) small)
      _ = 2 ^ 64 := by decide
  rw [UInt64.toNat_shiftLeft, UInt8.toNat_toUInt64, Nat.mod_eq_of_lt (by omega : shift.toNat < 64),
    Nat.shiftLeft_eq, Nat.mod_eq_of_lt noWrap]

theorem toNat_u64OfOctets (a b c d e f g h : UInt8) :
    (u64OfOctets a b c d e f g h).toNat = bigEndianValue [a, b, c, d, e, f, g, h] := by
  simp only [u64OfOctets, UInt64.toNat_or]
  rw [toNat_shiftLeft_byte a 56 (by decide), toNat_shiftLeft_byte b 48 (by decide),
    toNat_shiftLeft_byte c 40 (by decide), toNat_shiftLeft_byte d 32 (by decide),
    toNat_shiftLeft_byte e 24 (by decide), toNat_shiftLeft_byte f 16 (by decide),
    toNat_shiftLeft_byte g 8 (by decide), UInt8.toNat_toUInt64]
  have last : h.toNat = h.toNat * 2 ^ 0 := (Nat.mul_one _).symm
  rw [last]
  change a.toNat * 2 ^ 56 ||| b.toNat * 2 ^ 48 ||| c.toNat * 2 ^ 40 ||| d.toNat * 2 ^ 32 |||
    e.toNat * 2 ^ 24 ||| f.toNat * 2 ^ 16 ||| g.toNat * 2 ^ 8 ||| h.toNat * 2 ^ 0 = _
  rw [or_shifted_byte 48 rfl b.toNat_lt, or_shifted_byte 40 rfl c.toNat_lt,
    or_shifted_byte 32 rfl d.toNat_lt, or_shifted_byte 24 rfl e.toNat_lt,
    or_shifted_byte 16 rfl f.toNat_lt, or_shifted_byte 8 rfl g.toNat_lt,
    or_shifted_byte 0 rfl h.toNat_lt]
  simp only [bigEndianValue, List.length_cons, List.length_nil]
  omega

/-- Eight bytes are recovered from the word they form. -/
theorem bytesOfU64_u64OfOctets (a b c d e f g h : UInt8) :
    bytesOfU64 (u64OfOctets a b c d e f g h) = [a, b, c, d, e, f, g, h] := by
  rw [bytesOfU64_eq, toNat_u64OfOctets]
  exact bigEndian_bigEndianValue [a, b, c, d, e, f, g, h]

/-- The word whose high and low halves are given. -/
def u64OfHalves (high low : UInt32) : UInt64 := (high.toUInt64 <<< 32) ||| low.toUInt64

theorem toNat_u64OfHalves (high low : UInt32) :
    (u64OfHalves high low).toNat = high.toNat * 2 ^ 32 + low.toNat := by
  have highBound := high.toNat_lt
  have lowBound := low.toNat_lt
  have noWrap : high.toNat * 2 ^ 32 < 2 ^ 64 := by omega
  rw [u64OfHalves, UInt64.toNat_or, UInt64.toNat_shiftLeft, UInt32.toNat_toUInt64,
    UInt32.toNat_toUInt64, Nat.shiftLeft_eq]
  change high.toNat * 2 ^ 32 % 2 ^ 64 ||| low.toNat = _
  rw [Nat.mod_eq_of_lt noWrap, Nat.mul_comm, Nat.two_pow_add_eq_or_of_lt lowBound]

theorem u64OfHalves_split (word : UInt64) :
    u64OfHalves (word >>> 32).toUInt32 word.toUInt32 = word := by
  have bound := word.toNat_lt
  apply UInt64.toNat_inj.mp
  rw [toNat_u64OfHalves]
  simp [Nat.shiftRight_eq_div_pow]
  omega

theorem high_u64OfHalves (high low : UInt32) : (u64OfHalves high low >>> 32).toUInt32 = high := by
  have highBound := high.toNat_lt
  have lowBound := low.toNat_lt
  apply UInt32.toNat_inj.mp
  simp only [UInt64.toNat_toUInt32, UInt64.toNat_shiftRight, toNat_u64OfHalves,
    Nat.shiftRight_eq_div_pow]
  change (high.toNat * 2 ^ 32 + low.toNat) / 2 ^ 32 % 2 ^ 32 = high.toNat
  omega

theorem low_u64OfHalves (high low : UInt32) : (u64OfHalves high low).toUInt32 = low := by
  have lowBound := low.toNat_lt
  apply UInt32.toNat_inj.mp
  rw [UInt64.toNat_toUInt32, toNat_u64OfHalves]
  omega

/-! ## Byte arrays -/

theorem loop_toList (bytes : ByteArray) (i : Nat) (front : List UInt8) :
    ByteArray.toList.loop bytes i front = front.reverse ++ bytes.data.toList.drop i := by
  induction i, front using ByteArray.toList.loop.induct bytes with
  | case1 i front inside ih =>
      have indexed : i < bytes.data.toList.length := inside
      have byte : bytes.get! i = bytes.data.toList[i] := by
        change bytes.data[i]! = _
        rw [getElem!_pos bytes.data i inside]
        rfl
      rw [ByteArray.toList.loop, if_pos inside, ih, List.reverse_cons, List.append_assoc, byte,
        List.drop_eq_getElem_cons indexed, List.singleton_append]
  | case2 i front outside =>
      have past : bytes.data.toList.length ≤ i := Nat.le_of_not_lt outside
      rw [ByteArray.toList.loop, if_neg outside, List.drop_of_length_le past, List.append_nil]

/-- The bytes of a string can be computed from the array behind it, which the
loop of `ByteArray.toList` hides. -/
theorem toList_byteArray (bytes : ByteArray) : bytes.toList = bytes.data.toList := by
  rw [ByteArray.toList, loop_toList, List.reverse_nil, List.nil_append, List.drop_zero]

end Foundation
