import InferenceLedger.Foundation.Numerals
import InferenceLedger.Record.Identity

namespace InferenceLedger

open Foundation Std

/-!
# The text of an identity

An identity is written with thirty-two hexadecimal digits, and read from a text
one digit at a time: each digit is shifted to its place and joined to the word
that it belongs to.  The reader takes digits of either case.

The words, the bytes and the text are three ways to write one number of 128
bits.  The number is what they are compared through: the bytes are its digits to
the base 256 and the text has its digits to the base 16.
-/

/-- `tolower` in the C locale. -/
def toLower (c : UInt8) : UInt8 := if 65 ≤ c && c ≤ 90 then c + 32 else c

/-- The hexadecimal digits of either case. -/
def hexDigits : List UInt8 :=
  ['0', '1', '2', '3', '4', '5', '6', '7', '8', '9', 'a', 'b', 'c', 'd', 'e', 'f',
    'A', 'B', 'C', 'D', 'E', 'F'].map Char.toUInt8

namespace Id128

variable {tag : IdTag}

/-! ## Reading -/

/-- `hex_to_nibble`, with nothing in place of the value `-1`. -/
def hexToNibble (c : UInt8) : Option UInt8 :=
  if Char.toUInt8 '0' ≤ c && c ≤ Char.toUInt8 '9' then some (c - Char.toUInt8 '0')
  else if Char.toUInt8 'a' ≤ c && c ≤ Char.toUInt8 'f' then some (c - Char.toUInt8 'a' + 10)
  else if Char.toUInt8 'A' ≤ c && c ≤ Char.toUInt8 'F' then some (c - Char.toUInt8 'A' + 10)
  else none

/-- What one round of the loop of `parse` does with the digit at index `i`. -/
def place (out : Id128 tag) (i : Nat) (nib : UInt8) : Id128 tag :=
  let byteIndex := i / 2
  let shift := if i % 2 = 0 then 4 else 0
  if byteIndex < 8 then
    { out with
      hi := out.hi ||| (nib.toUInt64 &&& 0x0F) <<< UInt64.ofNat (56 - byteIndex * 8 + shift) }
  else
    let loIdx := byteIndex - 8
    { out with
      lo := out.lo ||| (nib.toUInt64 &&& 0x0F) <<< UInt64.ofNat (56 - loIdx * 8 + shift) }

/-- The loop of `parse` from index `i` on. -/
def parseFrom (out : Id128 tag) (i : Nat) : List UInt8 → Option (Id128 tag)
  | [] => some out
  | c :: rest =>
      match hexToNibble c with
      | none => none
      | some nib => parseFrom (out.place i nib) (i + 1) rest

/-- `parse`. -/
def parse (hex : List UInt8) : Option (Id128 tag) :=
  if hex.length ≠ 32 then none else parseFrom {} 0 hex

/-! ## Digits -/

/-- The value of a digit. -/
def digitValue (c : UInt8) : Nat := ((hexToNibble c).getD 0).toNat

/-- The digit that `to_string` writes for a value. -/
def digit (value : Nat) : UInt8 := kHex.getD value 0

theorem kHex_eq : kHex = [48, 49, 50, 51, 52, 53, 54, 55, 56, 57, 97, 98, 99, 100, 101, 102] := by
  rw [kHex, toList_byteArray]
  rfl

/-- The codes of the digits: figures, small letters and capital letters. -/
theorem mem_hexDigits_iff (c : UInt8) :
    c ∈ hexDigits ↔ (48 ≤ c.toNat ∧ c.toNat ≤ 57) ∨ (97 ≤ c.toNat ∧ c.toNat ≤ 102) ∨
      (65 ≤ c.toNat ∧ c.toNat ≤ 70) := by
  have codes : hexDigits =
      [48, 49, 50, 51, 52, 53, 54, 55, 56, 57, 97, 98, 99, 100, 101, 102, 65, 66, 67, 68, 69, 70] := rfl
  rw [codes]
  simp only [List.mem_cons, List.not_mem_nil, or_false, ← UInt8.toNat_inj, UInt8.reduceToNat]
  omega

theorem between_iff (low c high : UInt8) :
    (low ≤ c && c ≤ high) = true ↔ low.toNat ≤ c.toNat ∧ c.toNat ≤ high.toNat := by
  rw [Bool.and_eq_true, decide_eq_true_eq, decide_eq_true_eq]
  rfl

/-- `hex_to_nibble` on the code of the character. -/
theorem map_hexToNibble (c : UInt8) :
    (hexToNibble c).map UInt8.toNat =
      if 48 ≤ c.toNat ∧ c.toNat ≤ 57 then some (c.toNat - 48)
      else if 97 ≤ c.toNat ∧ c.toNat ≤ 102 then some (c.toNat - 87)
      else if 65 ≤ c.toNat ∧ c.toNat ≤ 70 then some (c.toNat - 55)
      else none := by
  have bound := c.toNat_lt
  have shifted : ∀ base : UInt8, base.toNat ≤ c.toNat →
      (c - base).toNat = c.toNat - base.toNat := fun base le => UInt8.toNat_sub_of_le c base le
  have letter : ∀ base : UInt8, 10 ≤ base.toNat → base.toNat ≤ c.toNat →
      (c - base + 10).toNat = c.toNat - (base.toNat - 10) := by
    intro base room le
    rw [UInt8.toNat_add, shifted base le]
    change (c.toNat - base.toNat + 10) % 256 = _
    omega
  simp only [hexToNibble, between_iff]
  change Option.map UInt8.toNat
    (if 48 ≤ c.toNat ∧ c.toNat ≤ 57 then some (c - Char.toUInt8 '0')
      else if 97 ≤ c.toNat ∧ c.toNat ≤ 102 then some (c - Char.toUInt8 'a' + 10)
      else if 65 ≤ c.toNat ∧ c.toNat ≤ 70 then some (c - Char.toUInt8 'A' + 10) else none) = _
  split
  case isTrue figure => exact congrArg some (shifted _ figure.1)
  case isFalse =>
    split
    case isTrue small => exact congrArg some (letter (Char.toUInt8 'a') (by decide) small.1)
    case isFalse =>
      split
      case isTrue capital => exact congrArg some (letter (Char.toUInt8 'A') (by decide) capital.1)
      case isFalse => rfl

theorem mem_hexDigits_of_hexToNibble {c nib : UInt8} (found : hexToNibble c = some nib) :
    c ∈ hexDigits := by
  have codes := map_hexToNibble c
  rw [found, Option.map_some] at codes
  rw [mem_hexDigits_iff]
  split_ifs at codes with figure small capital
  · exact Or.inl figure
  · exact Or.inr (Or.inl small)
  · exact Or.inr (Or.inr capital)

/-- The value of a digit, for each of the three ranges. -/
theorem hexToNibble_of_mem {c : UInt8} (member : c ∈ hexDigits) :
    ∃ nib, hexToNibble c = some nib ∧ nib.toNat < 16 ∧
      nib.toNat + (if c.toNat ≤ 57 then 48 else if c.toNat ≤ 70 then 55 else 87) = c.toNat := by
  have codes := map_hexToNibble c
  rw [mem_hexDigits_iff] at member
  cases found : hexToNibble c with
  | none =>
      rw [found, Option.map_none] at codes
      split_ifs at codes
      omega
  | some nib =>
      rw [found, Option.map_some] at codes
      refine ⟨nib, rfl, ?_⟩
      split_ifs at codes with figure small capital
      all_goals
        have value := Option.some.inj codes
        split_ifs <;> omega

theorem digitValue_of_hexToNibble {c nib : UInt8} (found : hexToNibble c = some nib) :
    digitValue c = nib.toNat := by
  rw [digitValue, found]
  rfl

theorem digitValue_lt {c : UInt8} (member : c ∈ hexDigits) : digitValue c < 16 := by
  rcases hexToNibble_of_mem member with ⟨nib, found, small, _⟩
  rw [digitValue_of_hexToNibble found]
  exact small

theorem toNat_digit {value : Nat} (small : value < 16) :
    (digit value).toNat = if value < 10 then 48 + value else 87 + value := by
  have table : ∀ value < 16, (digit value).toNat = if value < 10 then 48 + value else 87 + value := by
    simp only [digit, kHex_eq]
    decide
  exact table value small

theorem digit_mem {value : Nat} (small : value < 16) : digit value ∈ hexDigits := by
  rw [mem_hexDigits_iff, toNat_digit small]
  split <;> omega

theorem digitValue_digit {value : Nat} (small : value < 16) : digitValue (digit value) = value := by
  rcases hexToNibble_of_mem (digit_mem small) with ⟨nib, found, _, code⟩
  rw [digitValue_of_hexToNibble found]
  rw [toNat_digit small] at code
  split_ifs at code <;> omega

theorem toNat_toLower (c : UInt8) :
    (toLower c).toNat = if 65 ≤ c.toNat ∧ c.toNat ≤ 90 then c.toNat + 32 else c.toNat := by
  simp only [toLower, between_iff]
  change (if 65 ≤ c.toNat ∧ c.toNat ≤ 90 then c + 32 else c).toNat = _
  split
  case isTrue capital =>
    rw [UInt8.toNat_add]
    change (c.toNat + 32) % 256 = _
    omega
  case isFalse => rfl

/-- Reading a digit and writing it back makes it a small letter. -/
theorem digit_digitValue {c : UInt8} (member : c ∈ hexDigits) : digit (digitValue c) = toLower c := by
  rcases hexToNibble_of_mem member with ⟨nib, found, small, code⟩
  apply UInt8.toNat_inj.mp
  rw [digitValue_of_hexToNibble found, toNat_digit small, toNat_toLower]
  rw [mem_hexDigits_iff] at member
  split_ifs at code ⊢ <;> omega

/-- The digits stand in the order of their values, because letters follow the
figures. -/
theorem compare_digit {first second : Nat} (firstSmall : first < 16) (secondSmall : second < 16) :
    compare (digit first) (digit second) = compare first second := by
  have monotone : ∀ {less more : Nat}, less < 16 → more < 16 →
      ((digit less).toNat < (digit more).toNat ↔ less < more) := by
    intro less more lessSmall moreSmall
    rw [toNat_digit lessSmall, toNat_digit moreSmall]
    split <;> split <;> omega
  rw [← compare_toNat_byte, Nat.compare_eq_ite_lt, Nat.compare_eq_ite_lt]
  simp only [monotone firstSmall secondSmall, monotone secondSmall firstSmall]

/-! ## The number of an identity -/

/-- The number that both words form. -/
def toNat (id : Id128 tag) : Nat := id.hi.toNat * 2 ^ 64 + id.lo.toNat

/-- The values of the digits, two for each byte. -/
def nibbles (id : Id128 tag) : List Nat :=
  (id.toBytes.map UInt8.toNat).flatMap fun value => [value / 16, value % 16]

theorem toNat_injective {x y : Id128 tag} (same : x.toNat = y.toNat) : x = y := by
  have xLow := x.lo.toNat_lt
  have yLow := y.lo.toNat_lt
  simp only [toNat] at same
  have high : x.hi = y.hi := UInt64.toNat_inj.mp (by omega)
  have low : x.lo = y.lo := UInt64.toNat_inj.mp (by omega)
  cases x
  cases y
  rw [Id128.mk.injEq]
  exact ⟨high, low⟩

theorem numeral_bytesOfU64 (word : UInt64) :
    numeral 256 ((bytesOfU64 word).map UInt8.toNat) = word.toNat := by
  rw [← bigEndianValue_eq_numeral, bytesOfU64_eq, bigEndianValue_bigEndian]
  exact Nat.mod_eq_of_lt word.toNat_lt

theorem numeral_toBytes (id : Id128 tag) : numeral 256 (id.toBytes.map UInt8.toNat) = id.toNat := by
  have length : ((bytesOfU64 id.lo).map UInt8.toNat).length = 8 := rfl
  have unit : 256 ^ 8 = 2 ^ 64 := by decide
  rw [toBytes, List.map_append, numeral_append, numeral_bytesOfU64, numeral_bytesOfU64, length, unit,
    toNat]

theorem numeral_nibbles (id : Id128 tag) : numeral 16 id.nibbles = id.toNat := by
  rw [nibbles, ← numeral_pairs]
  exact numeral_toBytes id

theorem length_nibbles (id : Id128 tag) : id.nibbles.length = 32 := rfl

theorem nibbles_lt (id : Id128 tag) : ∀ value ∈ id.nibbles, value < 16 := by
  intro value member
  rcases List.mem_flatMap.mp member with ⟨byte, byteMember, half⟩
  rcases List.mem_map.mp byteMember with ⟨source, _, rfl⟩
  have bound := source.toNat_lt
  simp only [List.mem_cons, List.not_mem_nil, or_false] at half
  omega

theorem toString_eq (id : Id128 tag) : id.toString = id.nibbles.map digit := by
  have high : ∀ byte : UInt8, ((byte >>> 4) &&& 0x0F).toNat = byte.toNat / 16 := by
    intro byte
    have bound := byte.toNat_lt
    have half : ((byte >>> 4) &&& 0x0F).toNat = byte.toNat / 2 ^ 4 % 2 ^ 4 := by
      rw [← Nat.shiftRight_eq_div_pow, ← Nat.and_two_pow_sub_one_eq_mod]
      rfl
    omega
  have low : ∀ byte : UInt8, (byte &&& 0x0F).toNat = byte.toNat % 16 := by
    intro byte
    exact Nat.and_two_pow_sub_one_eq_mod byte.toNat 4
  simp only [toString, nibbles, List.map_flatMap, List.flatMap_map, high, low]
  rfl

/-- The order of identities is the order of their numbers. -/
theorem compare_toNat (x y : Id128 tag) : compare x y = compare x.toNat y.toNat := by
  have words : ∀ left right : UInt64, compare left right = compare left.toNat right.toNat := by
    intro left right
    rw [compare_word, Nat.compare_eq_ite_lt]
    rfl
  rw [compare_eq_compareLex, toNat, toNat, compare_leading x.lo.toNat_lt y.lo.toNat_lt, ← words,
    ← words]
  rfl

theorem compare_toBytes (x y : Id128 tag) : compare x.toBytes y.toBytes = compare x y := by
  have small : ∀ id : Id128 tag, ∀ value ∈ id.toBytes.map UInt8.toNat, value < 256 := by
    intro id value member
    rcases List.mem_map.mp member with ⟨byte, _, rfl⟩
    exact byte.toNat_lt
  have length : (x.toBytes.map UInt8.toNat).length = (y.toBytes.map UInt8.toNat).length := by
    rw [List.length_map, List.length_map, length_toBytes, length_toBytes]
  rw [← compare_map fun first _ second _ => compare_toNat_byte first second,
    compare_numeral (by decide) (small x) (small y) length, numeral_toBytes, numeral_toBytes,
    compare_toNat]

theorem compare_toString (x y : Id128 tag) : compare x.toString y.toString = compare x y := by
  have length : x.nibbles.length = y.nibbles.length := by rw [length_nibbles, length_nibbles]
  rw [toString_eq, toString_eq,
    compare_map fun first xMember second yMember =>
      compare_digit (nibbles_lt x first xMember) (nibbles_lt y second yMember),
    compare_numeral (by decide) (nibbles_lt x) (nibbles_lt y) length, numeral_nibbles,
    numeral_nibbles, compare_toNat]

/-! ## The loop -/

theorem toNat_half {nib : UInt8} (small : nib.toNat < 16) :
    (nib.toUInt64 &&& 0x0F).toNat = nib.toNat := by
  have masked : (nib.toUInt64 &&& 0x0F).toNat = nib.toNat % 2 ^ 4 := by
    rw [← Nat.and_two_pow_sub_one_eq_mod]
    rfl
  omega

/-- The places of the upper word, with `behind` more digits in it. -/
theorem place_high (out : Id128 tag) {i behind : Nat} (nib : UInt8) (index : i + behind = 15) :
    out.place i nib =
      { out with hi := out.hi ||| (nib.toUInt64 &&& 0x0F) <<< UInt64.ofNat (4 * behind) } := by
  have amount : 56 - i / 2 * 8 + (if i % 2 = 0 then 4 else 0) = 4 * behind := by
    split <;> omega
  simp only [place, amount]
  rw [if_pos (by omega)]

/-- The places of the lower word. -/
theorem place_low (out : Id128 tag) {i behind : Nat} (nib : UInt8) (index : i + behind = 31)
    (low : behind < 16) :
    out.place i nib =
      { out with lo := out.lo ||| (nib.toUInt64 &&& 0x0F) <<< UInt64.ofNat (4 * behind) } := by
  have amount : 56 - (i / 2 - 8) * 8 + (if i % 2 = 0 then 4 else 0) = 4 * behind := by
    split <;> omega
  simp only [place, amount]
  rw [if_neg (by omega)]

section OneDigit

variable {out : Id128 tag} {i behind : Nat} {nib : UInt8}

/-- As long as digits are placed in the upper word, nothing is in the lower. -/
theorem toNat_place_high (index : i + behind = 15)
    (clear : 16 ^ (behind + 1) * 2 ^ 64 ∣ out.toNat) (small : nib.toNat < 16) :
    (out.place i nib).toNat = out.toNat + nib.toNat * 16 ^ behind * 2 ^ 64 := by
  have lowClear : out.lo.toNat = 0 := by
    have divides : 2 ^ 64 ∣ out.toNat := Nat.dvd_trans (Nat.dvd_mul_left _ _) clear
    have bound := out.lo.toNat_lt
    simp only [toNat] at divides
    omega
  have number : out.toNat = out.hi.toNat * 2 ^ 64 := by rw [toNat, lowClear, Nat.add_zero]
  have highClear : 16 ^ (behind + 1) ∣ out.hi.toNat := by
    rw [number] at clear
    exact Nat.dvd_of_mul_dvd_mul_right (by positivity) clear
  have half := toNat_half small
  rw [place_high out nib index, number, toNat,
    toNat_or_half (by omega) highClear (by rw [half]; exact small), half, lowClear, Nat.add_zero,
    Nat.add_mul]

/-- Once the upper word is complete, digits are placed in the lower. -/
theorem toNat_place_low (index : i + behind = 31) (low : behind < 16)
    (clear : 16 ^ (behind + 1) ∣ out.toNat) (small : nib.toNat < 16) :
    (out.place i nib).toNat = out.toNat + nib.toNat * 16 ^ behind := by
  have upper : 16 ^ (behind + 1) ∣ out.hi.toNat * 2 ^ 64 := by
    apply Nat.dvd_mul_left_of_dvd
    exact Nat.pow_dvd_pow 16 (show behind + 1 ≤ 16 from low)
  have lowClear : 16 ^ (behind + 1) ∣ out.lo.toNat := (Nat.dvd_add_iff_right upper).mpr clear
  have half := toNat_half small
  rw [place_low out nib index low, toNat, toNat,
    toNat_or_half low lowClear (by rw [half]; exact small), half, Nat.add_assoc]

/-- One round adds a digit at its place, if nothing is there yet. -/
theorem toNat_place (index : i + behind = 31) (clear : 16 ^ (behind + 1) ∣ out.toNat)
    (small : nib.toNat < 16) :
    (out.place i nib).toNat = out.toNat + nib.toNat * 16 ^ behind := by
  by_cases low : behind < 16
  · exact toNat_place_low index low clear small
  · have word : 16 ^ 16 = 2 ^ 64 := by decide
    rcases Nat.exists_eq_add_of_le (Nat.le_of_not_lt low) with ⟨inner, rfl⟩
    rw [show 16 + inner + 1 = inner + 1 + 16 by omega, Nat.pow_add, word] at clear
    rw [toNat_place_high (by omega) clear small, Nat.pow_add, word, Nat.mul_assoc,
      Nat.mul_comm (2 ^ 64)]

end OneDigit

/-- A text of digits is read as the number that it denotes. -/
theorem parseFrom_of_digits {out : Id128 tag} {i : Nat} {text : List UInt8}
    (complete : i + text.length = 32) (clear : 16 ^ text.length ∣ out.toNat)
    (digits : ∀ c ∈ text, c ∈ hexDigits) :
    ∃ x, parseFrom out i text = some x ∧
      x.toNat = out.toNat + numeral 16 (text.map digitValue) := by
  induction text generalizing out i with
  | nil =>
      refine ⟨out, rfl, ?_⟩
      rw [List.map_nil, numeral_nil, Nat.add_zero]
  | cons c rest ih =>
      rcases hexToNibble_of_mem (digits c List.mem_cons_self) with ⟨nib, found, small, _⟩
      have value : digitValue c = nib.toNat := digitValue_of_hexToNibble found
      rw [List.length_cons] at complete clear
      have placed := toNat_place (show i + rest.length = 31 by omega) clear small
      have cleared : 16 ^ rest.length ∣ (out.place i nib).toNat := by
        rw [placed]
        apply Nat.dvd_add
        · exact Nat.dvd_trans (Nat.pow_dvd_pow 16 (Nat.le_succ _)) clear
        · exact Nat.dvd_mul_left _ _
      have next : i + 1 + rest.length = 32 := by omega
      rcases ih next cleared (fun c member => digits c (List.mem_cons_of_mem _ member)) with
        ⟨x, read, number⟩
      refine ⟨x, ?_, ?_⟩
      · rw [parseFrom, found]
        exact read
      · rw [number, placed, List.map_cons, numeral_cons, List.length_map, value, Nat.add_assoc]

theorem digits_of_parseFrom {out x : Id128 tag} {i : Nat} {text : List UInt8}
    (read : parseFrom out i text = some x) : ∀ c ∈ text, c ∈ hexDigits := by
  induction text generalizing out i with
  | nil =>
      intro c member
      cases member
  | cons c rest ih =>
      rw [parseFrom] at read
      cases found : hexToNibble c with
      | none =>
          rw [found] at read
          cases read
      | some nib =>
          rw [found] at read
          intro other member
          rcases List.mem_cons.mp member with same | member
          · rw [same]
            exact mem_hexDigits_of_hexToNibble found
          · exact ih read other member

theorem parse_of_digits {text : List UInt8} (length : text.length = 32)
    (digits : ∀ c ∈ text, c ∈ hexDigits) :
    ∃ x : Id128 tag, parse text = some x ∧ x.toNat = numeral 16 (text.map digitValue) := by
  have zero : ({} : Id128 tag).toNat = 0 := by simp [toNat]
  have clear : 16 ^ text.length ∣ ({} : Id128 tag).toNat := by
    rw [zero]
    exact Nat.dvd_zero _
  have complete : 0 + text.length = 32 := by omega
  rcases parseFrom_of_digits complete clear digits with ⟨x, read, number⟩
  rw [zero, Nat.zero_add] at number
  rw [parse, if_neg (not_not_intro length)]
  exact ⟨x, read, number⟩

theorem digits_of_parse {text : List UInt8} {x : Id128 tag} (accepted : parse text = some x) :
    text.length = 32 ∧ ∀ c ∈ text, c ∈ hexDigits := by
  by_cases length : text.length = 32
  · rw [parse, if_neg (not_not_intro length)] at accepted
    exact ⟨length, digits_of_parseFrom accepted⟩
  · rw [parse, if_pos length] at accepted
    cases accepted

/-- `parse` accepts every text of thirty-two digits and nothing else. -/
theorem exists_parse_iff (text : List UInt8) :
    (∃ x : Id128 tag, parse text = some x) ↔ text.length = 32 ∧ ∀ c ∈ text, c ∈ hexDigits := by
  constructor
  · rintro ⟨x, accepted⟩
    exact digits_of_parse accepted
  · rintro ⟨length, digits⟩
    rcases parse_of_digits length digits with ⟨x, accepted, _⟩
    exact ⟨x, accepted⟩

/-- An accepted text denotes the number of the identity. -/
theorem toNat_of_parse {text : List UInt8} {x : Id128 tag} (accepted : parse text = some x) :
    x.toNat = numeral 16 (text.map digitValue) := by
  rcases digits_of_parse accepted with ⟨length, digits⟩
  rcases @parse_of_digits tag _ length digits with ⟨y, again, number⟩
  rw [accepted] at again
  cases again
  exact number

/-! ## Round trips -/

@[simp] theorem parse_toString (x : Id128 tag) : parse x.toString = some x := by
  have length : x.toString.length = 32 := by rw [toString_eq, List.length_map, length_nibbles]
  have digits : ∀ c ∈ x.toString, c ∈ hexDigits := by
    intro c member
    rw [toString_eq] at member
    rcases List.mem_map.mp member with ⟨value, valueMember, rfl⟩
    exact digit_mem (nibbles_lt x value valueMember)
  have values : x.toString.map digitValue = x.nibbles := by
    have each : x.nibbles.map (digitValue ∘ digit) = x.nibbles.map id := by
      apply List.map_congr_left
      intro value member
      exact digitValue_digit (nibbles_lt x value member)
    rw [toString_eq, List.map_map, each, List.map_id]
  rcases @parse_of_digits tag _ length digits with ⟨y, accepted, number⟩
  rw [values, numeral_nibbles] at number
  rw [accepted, toNat_injective number]

/-- The text of an identity that was read is the text in small letters. -/
theorem toString_of_parse {text : List UInt8} {x : Id128 tag} (accepted : parse text = some x) :
    x.toString = text.map toLower := by
  rcases digits_of_parse accepted with ⟨length, digits⟩
  have values : x.nibbles = text.map digitValue := by
    apply numeral_injective (by decide : 1 < 16) (nibbles_lt x)
    · intro value member
      rcases List.mem_map.mp member with ⟨c, charMember, rfl⟩
      exact digitValue_lt (digits c charMember)
    · rw [length_nibbles, List.length_map, length]
    · rw [numeral_nibbles, toNat_of_parse accepted]
  rw [toString_eq, values, List.map_map]
  apply List.map_congr_left
  intro c member
  exact digit_digitValue (digits c member)

/-- The words, the bytes and the text of an identity are the same identity.  What
is written is read back, exactly the texts of thirty-two hexadecimal digits are
read, and all three are ordered alike. -/
theorem identity_forms (tag : IdTag) :
    (∀ x : Id128 tag, fromBytes x.toBytes = x ∧ parse x.toString = some x) ∧
    (∀ bytes, bytes.length = 16 → (fromBytes bytes : Id128 tag).toBytes = bytes) ∧
    (∀ s, (∃ x : Id128 tag, parse s = some x) ↔ s.length = 32 ∧ ∀ c ∈ s, c ∈ hexDigits) ∧
    (∀ s, ∀ x : Id128 tag, parse s = some x → x.toString = s.map toLower) ∧
    (∀ x y : Id128 tag,
      compare x y = compare x.toBytes y.toBytes ∧
      compare x y = compare x.toString y.toString) := by
  refine ⟨?_, ?_, exists_parse_iff, ?_, ?_⟩
  · intro x
    exact ⟨fromBytes_toBytes x, parse_toString x⟩
  · intro bytes length
    rw [toBytes_fromBytes (Nat.le_of_eq length.symm), List.take_of_length_le (Nat.le_of_eq length)]
  · intro s x accepted
    exact toString_of_parse accepted
  · intro x y
    exact ⟨(compare_toBytes x y).symm, (compare_toString x y).symm⟩

theorem mixed_case_read :
    (⟨0x0123456789ABCDEF, 0xFEDCBA9876543210⟩ : RequestId).toString =
        (['0', '1', '2', '3', '4', '5', '6', '7', '8', '9', 'A', 'b', 'C', 'd', 'E', 'f',
          'F', 'e', 'D', 'c', 'B', 'a', '9', '8', '7', '6', '5', '4', '3', '2', '1', '0'].map
            Char.toUInt8).map toLower ∧
      (fromBytes (List.replicate 15 0 ++ [255]) : RequestId).toBytes =
        List.replicate 15 0 ++ [255] := by
  rcases identity_forms .request with ⟨_, bytes, _, text, _⟩
  refine ⟨text _ _ ?_, bytes _ rfl⟩
  rfl

end Id128

end InferenceLedger
