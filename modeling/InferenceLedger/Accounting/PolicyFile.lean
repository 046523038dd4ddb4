import InferenceLedger.Accounting.Pricing
import InferenceLedger.Record.IdentityText

namespace InferenceLedger

open Foundation Std

/-!
# Policy files

A policy file has lines of the form `key=value`, and the command line tool reads
it in one loop.  All values but one are numbers.  The loop converts the text
behind the `=` before it looks at the key, so the conversion is also tried on
the text of a currency, which is usually not a number, and what it throws ends
the whole command.

`std::stod` throws if no number starts the text, or if the number is out of
range.  The number itself, correctly rounded, is a parameter here; nothing
depends on how it is computed.
-/

/-! ## Numbers -/

/-- What `std::stod` throws. -/
inductive StodError where
  | invalidArgument | outOfRange
deriving DecidableEq

/-- `isspace` in the C locale. -/
def isSpace (c : UInt8) : Bool := c == 32 || (9 ≤ c && c ≤ 13)

def isDigit (c : UInt8) : Bool := 48 ≤ c && c ≤ 57

/-- A number starts the text: after white space and a sign there is a digit, a
point with a digit behind it, an infinity or a NaN. -/
def startsNumber (text : ByteString) : Bool :=
  let unspaced := text.dropWhile isSpace
  let unsigned :=
    if unspaced.head? = some (Char.toUInt8 '+') ∨ unspaced.head? = some (Char.toUInt8 '-')
    then unspaced.tail else unspaced
  match unsigned with
  | [] => false
  | c :: rest =>
      isDigit c || (c == Char.toUInt8 '.' && rest.head?.any isDigit) ||
        [ByteString.ofString "inf", ByteString.ofString "nan"].contains
          ((unsigned.take 3).map toLower)

section Loading

-- The number that starts a text, or nothing if it is out of range.
variable (convert : ByteString → Option Binary64)

/-- `std::stod`. -/
def stod (text : ByteString) : Except StodError Binary64 :=
  if startsNumber text then
    match convert text with
    | some v => .ok v
    | none => .error .outOfRange
  else .error .invalidArgument

/-! ## The loop -/

/-- The lines that `std::getline` reads: what follows the last line break is a
line only if there is something. -/
def getlines (content : ByteString) : List ByteString :=
  let pieces := content.splitOn (Char.toUInt8 '\n')
  if pieces.getLast? = some [] then pieces.dropLast else pieces

/-- The keys that `load_policy` knows. -/
inductive PolicyKey where
  | gpuPerSecond | cpuPerSecond | memoryPerGibSecond | transferPerGib | energyPerKwh
  | persistentCacheCost | currency
deriving DecidableEq

def PolicyKey.text : PolicyKey → ByteString
  | gpuPerSecond => .ofString "gpu_per_second"
  | cpuPerSecond => .ofString "cpu_per_second"
  | memoryPerGibSecond => .ofString "memory_per_gib_second"
  | transferPerGib => .ofString "transfer_per_gib"
  | energyPerKwh => .ofString "energy_per_kwh"
  | persistentCacheCost => .ofString "persistent_cache_cost"
  | currency => .ofString "currency"

/-- The chain of comparisons with the known keys.  An unknown key changes
nothing. -/
def PricingPolicy.assign (p : PricingPolicy) (k : ByteString) (v : Binary64) (text : ByteString) :
    PricingPolicy :=
  if k = PolicyKey.gpuPerSecond.text then { p with rates := { p.rates with gpuPerSecond := v } }
  else if k = PolicyKey.cpuPerSecond.text then
    { p with rates := { p.rates with cpuPerSecond := v } }
  else if k = PolicyKey.memoryPerGibSecond.text then
    { p with rates := { p.rates with memoryPerGibSecond := v } }
  else if k = PolicyKey.transferPerGib.text then
    { p with rates := { p.rates with transferPerGib := v } }
  else if k = PolicyKey.energyPerKwh.text then
    { p with rates := { p.rates with energyPerKwh := v } }
  else if k = PolicyKey.persistentCacheCost.text then
    { p with rates := { p.rates with persistentCacheCost := v } }
  else if k = PolicyKey.currency.text then { p with currency := text }
  else p

/-- What the loop takes from a line: nothing from an empty line, a comment, or a
line without `=`, and otherwise what is before and behind the first `=`. -/
def setting (line : ByteString) : Option (ByteString × ByteString) :=
  if line = [] ∨ line.head? = some (Char.toUInt8 '#') then none
  else match line.dropWhile (· != Char.toUInt8 '=') with
    | [] => none
    | _ :: text => some (line.takeWhile (· != Char.toUInt8 '='), text)

/-- One round of the loop. -/
def policyLine (p : PricingPolicy) (line : ByteString) : Except StodError PricingPolicy :=
  match setting line with
  | none => .ok p
  | some (k, text) => do
      let v ← stod convert text
      return p.assign k v text

/-- The policy before the first line. -/
def defaultPolicy : PricingPolicy := { currency := .ofString "usd", generation := 1 }

/-- `load_policy` on the content of the file.  A file that cannot be opened has
no lines. -/
def loadPolicy (content : ByteString) : Except StodError PricingPolicy := do
  let p ← (getlines content).foldlM (policyLine convert) defaultPolicy
  return { p with id := ⟨0xCAFE, 1⟩ }

/-! ## What the file says -/

/-- The lines that a policy file is made of. -/
inductive AdmissibleLine : ByteString → Prop where
  | blank : AdmissibleLine []
  | comment (rest : ByteString) : AdmissibleLine (Char.toUInt8 '#' :: rest)
  | plain (line : ByteString) (without : Char.toUInt8 '=' ∉ line) : AdmissibleLine line
  | number (k text : ByteString) (v : Binary64) (first : Char.toUInt8 '=' ∉ k)
      (accepted : stod convert text = .ok v) : AdmissibleLine (k ++ Char.toUInt8 '=' :: text)
  | currency (text : ByteString) :
      AdmissibleLine (PolicyKey.currency.text ++ Char.toUInt8 '=' :: text)

/-- The number that a line gives for a key. -/
def numberOn (key : PolicyKey) (line : ByteString) : Option Binary64 :=
  match setting line with
  | none => none
  | some (k, text) => if k = key.text then (stod convert text).toOption else none

/-- The currency that a line gives. -/
def currencyOn (line : ByteString) : Option ByteString :=
  match setting line with
  | none => none
  | some (k, text) => if k = PolicyKey.currency.text then some text else none

/-- The rates that a file can give, with their keys. -/
def knownRates : List (PolicyKey × (PricingRates → Binary64)) :=
  [(.gpuPerSecond, PricingRates.gpuPerSecond), (.cpuPerSecond, PricingRates.cpuPerSecond),
    (.memoryPerGibSecond, PricingRates.memoryPerGibSecond),
    (.transferPerGib, PricingRates.transferPerGib), (.energyPerKwh, PricingRates.energyPerKwh),
    (.persistentCacheCost, PricingRates.persistentCacheCost)]

/-- The policy has what the last line for each key says, and the default where
no line says anything. -/
structure LastValues (lines : List ByteString) (p : PricingPolicy) : Prop where
  rates : ∀ known ∈ knownRates,
    known.2 p.rates = (latest (numberOn convert known.1) lines).getD (known.2 defaultPolicy.rates)
  currency : p.currency = (latest currencyOn lines).getD defaultPolicy.currency

/-- The file is read to its end, and gives a policy with the last values. -/
def Loads (content : ByteString) : Prop :=
  ∃ p, loadPolicy convert content = .ok p ∧ LastValues convert (getlines content) p

/-! ## One line -/

section OneLine

variable {convert} {p next : PricingPolicy} {line k text : ByteString} {v : Binary64}

theorem ofString_eq (text : String) : ByteString.ofString text = text.toUTF8.data.toList :=
  toList_byteArray _

theorem PolicyKey.text_injective : Function.Injective PolicyKey.text := by
  intro left right same
  cases left <;> cases right <;> simp only [PolicyKey.text, ofString_eq] at same <;>
    first | rfl | exact absurd same (by decide)

/-- The field of a known key. -/
def PricingPolicy.set (p : PricingPolicy) (key : PolicyKey) (v : Binary64) (text : ByteString) :
    PricingPolicy :=
  match key with
  | .gpuPerSecond => { p with rates := { p.rates with gpuPerSecond := v } }
  | .cpuPerSecond => { p with rates := { p.rates with cpuPerSecond := v } }
  | .memoryPerGibSecond => { p with rates := { p.rates with memoryPerGibSecond := v } }
  | .transferPerGib => { p with rates := { p.rates with transferPerGib := v } }
  | .energyPerKwh => { p with rates := { p.rates with energyPerKwh := v } }
  | .persistentCacheCost => { p with rates := { p.rates with persistentCacheCost := v } }
  | .currency => { p with currency := text }

theorem assign_text (key : PolicyKey) : p.assign key.text v text = p.set key v text := by
  cases key <;> simp [PricingPolicy.assign, PricingPolicy.set, PolicyKey.text_injective.eq_iff]

theorem assign_of_unknown (unknown : ∀ key : PolicyKey, k ≠ key.text) :
    p.assign k v text = p := by
  simp [PricingPolicy.assign, unknown]

/-- A number is written to the rate of its key, and to no other. -/
theorem rate_assign {known : PolicyKey × (PricingRates → Binary64)} (member : known ∈ knownRates) :
    known.2 (p.assign k v text).rates = if k = known.1.text then v else known.2 p.rates := by
  by_cases named : ∃ key : PolicyKey, k = key.text
  · rcases named with ⟨key, rfl⟩
    rw [assign_text]
    simp only [PolicyKey.text_injective.eq_iff]
    simp only [knownRates, List.mem_cons, List.not_mem_nil, or_false] at member
    rcases member with rfl | rfl | rfl | rfl | rfl | rfl <;> cases key <;> rfl
  · rw [not_exists] at named
    rw [assign_of_unknown named, if_neg (named known.1)]

theorem currency_assign :
    (p.assign k v text).currency = if k = PolicyKey.currency.text then text else p.currency := by
  by_cases named : ∃ key : PolicyKey, k = key.text
  · rcases named with ⟨key, rfl⟩
    rw [assign_text]
    simp only [PolicyKey.text_injective.eq_iff]
    cases key <;> rfl
  · rw [not_exists] at named
    rw [assign_of_unknown named, if_neg (named .currency)]

theorem policyLine_eq_ok_iff :
    policyLine convert p line = .ok next ↔
      (setting line = none ∧ next = p) ∨
      ∃ k text v, setting line = some (k, text) ∧ stod convert text = .ok v ∧
        next = p.assign k v text := by
  unfold policyLine
  cases found : setting line with
  | none => simp [eq_comm]
  | some pair =>
      rcases pair with ⟨k, text⟩
      cases number : stod convert text with
      | error thrown => simp [number]
      | ok v => simp [number, eq_comm]

/-- What a line says of a rate replaces what was said before. -/
theorem rate_policyLine {known : PolicyKey × (PricingRates → Binary64)}
    (member : known ∈ knownRates) (read : policyLine convert p line = .ok next) :
    known.2 next.rates = (numberOn convert known.1 line).getD (known.2 p.rates) := by
  rcases policyLine_eq_ok_iff.mp read with ⟨skipped, rfl⟩ | ⟨k, text, v, found, number, rfl⟩
  · simp [numberOn, skipped]
  · rw [rate_assign member]
    by_cases same : k = known.1.text
    · simp [numberOn, found, same, number, Except.toOption]
    · simp [numberOn, found, same]

theorem currency_policyLine (read : policyLine convert p line = .ok next) :
    next.currency = (currencyOn line).getD p.currency := by
  rcases policyLine_eq_ok_iff.mp read with ⟨skipped, rfl⟩ | ⟨k, text, v, found, number, rfl⟩
  · simp [currencyOn, skipped]
  · rw [currency_assign]
    by_cases same : k = PolicyKey.currency.text
    · simp [currencyOn, found, same]
    · simp [currencyOn, found, same]

theorem LastValues.policyLine {lines : List ByteString} (values : LastValues convert lines p)
    (read : policyLine convert p line = .ok next) :
    LastValues convert (lines ++ [line]) next := by
  refine ⟨fun known member => ?_, ?_⟩
  · rw [rate_policyLine member read, values.rates known member, latest_concat]
    cases numberOn convert known.1 line <;> rfl
  · rw [currency_policyLine read, values.currency, latest_concat]
    cases currencyOn line <;> rfl

end OneLine

/-! ## Whole files -/

section WholeFile

variable {convert} {start p : PricingPolicy} {lines : List ByteString}

/-- What a line sets can be converted. -/
def Converts (convert : ByteString → Option Binary64) (line : ByteString) : Prop :=
  ∀ k text, setting line = some (k, text) → ∃ v, stod convert text = .ok v

theorem lastValues_of_read (read : lines.foldlM (policyLine convert) defaultPolicy = .ok p) :
    LastValues convert lines p := by
  induction lines using List.reverseRecOn generalizing p with
  | nil =>
      cases read
      exact ⟨fun _ _ => rfl, rfl⟩
  | append_singleton lines last ih =>
      rw [List.foldlM_append] at read
      cases earlier : lines.foldlM (policyLine convert) defaultPolicy with
      | error thrown =>
          rw [earlier] at read
          cases read
      | ok before =>
          rw [earlier] at read
          change List.foldlM (policyLine convert) before [last] = .ok p at read
          rw [List.foldlM_cons] at read
          exact (ih earlier).policyLine (by simpa using read)

theorem policyLine_read_iff {line : ByteString} :
    (∃ next, policyLine convert p line = .ok next) ↔ Converts convert line := by
  constructor
  · rintro ⟨next, read⟩ k text found
    rcases policyLine_eq_ok_iff.mp read with ⟨skipped, -⟩ | ⟨_, _, v, settled, number, -⟩
    · rw [skipped] at found
      cases found
    · rw [settled] at found
      cases found
      exact ⟨v, number⟩
  · intro converts
    cases found : setting line with
    | none => exact ⟨p, policyLine_eq_ok_iff.mpr (Or.inl ⟨found, rfl⟩)⟩
    | some pair =>
        rcases pair with ⟨k, text⟩
        rcases converts k text found with ⟨v, number⟩
        exact ⟨_, policyLine_eq_ok_iff.mpr (Or.inr ⟨k, text, v, found, number, rfl⟩)⟩

/-- The loop comes to its end exactly if every text that is set can be
converted. -/
theorem read_iff :
    (∃ p, lines.foldlM (policyLine convert) start = .ok p) ↔
      ∀ line ∈ lines, Converts convert line := by
  induction lines generalizing start with
  | nil => exact iff_of_true ⟨start, rfl⟩ (by simp)
  | cons line lines ih =>
      rw [List.forall_mem_cons, ← policyLine_read_iff (p := start), List.foldlM_cons]
      cases policyLine convert start line with
      | error thrown =>
          refine iff_of_false ?_ ?_
          · rintro ⟨p, impossible⟩
            cases impossible
          · rintro ⟨⟨next, impossible⟩, -⟩
            cases impossible
      | ok next => exact (@ih next).trans (by simp)

/-- A line that sets something. -/
theorem setting_append {k text : ByteString} (first : Char.toUInt8 '=' ∉ k)
    (uncommented : (k ++ Char.toUInt8 '=' :: text).head? ≠ some (Char.toUInt8 '#')) :
    setting (k ++ Char.toUInt8 '=' :: text) = some (k, text) := by
  have before : ∀ c ∈ k, (c != Char.toUInt8 '=') = true := by
    intro c member
    rw [bne_iff_ne]
    rintro rfl
    exact first member
  have nonempty : ¬ (k ++ Char.toUInt8 '=' :: text = [] ∨
      (k ++ Char.toUInt8 '=' :: text).head? = some (Char.toUInt8 '#')) := by
    simpa using uncommented
  rw [setting, if_neg nonempty, List.dropWhile_append_of_pos before,
    List.takeWhile_append_of_pos before]
  simp

theorem setting_currency (text : ByteString) :
    setting (PolicyKey.currency.text ++ Char.toUInt8 '=' :: text) =
      some (PolicyKey.currency.text, text) := by
  have letters : PolicyKey.currency.text = [99, 117, 114, 114, 101, 110, 99, 121] := by
    rw [PolicyKey.text, ofString_eq]
    rfl
  apply setting_append
  · rw [letters]
    decide
  · rw [letters, List.cons_append, List.head?_cons]
    decide

/-- What is set on an admissible line can be converted, or it is a currency. -/
theorem AdmissibleLine.converts {line k text : ByteString}
    (admissible : AdmissibleLine convert line) (found : setting line = some (k, text)) :
    (∃ v, stod convert text = .ok v) ∨
      line = PolicyKey.currency.text ++ Char.toUInt8 '=' :: text := by
  cases admissible with
  | blank => simp [setting] at found
  | comment rest => simp [setting] at found
  | plain _ without =>
      have absent : line.dropWhile (· != Char.toUInt8 '=') = [] := by
        rw [List.dropWhile_eq_nil_iff]
        intro c member
        rw [bne_iff_ne]
        rintro rfl
        exact without member
      simp [setting, absent] at found
  | number key value v first accepted =>
      by_cases comment : (key ++ Char.toUInt8 '=' :: value).head? = some (Char.toUInt8 '#')
      · simp [setting, comment] at found
      · rw [setting_append first comment] at found
        cases found
        exact Or.inl ⟨v, accepted⟩
  | currency value =>
      rw [setting_currency] at found
      cases found
      exact Or.inr rfl

theorem loads_iff_read (content : ByteString) :
    Loads convert content ↔
      ∃ p, (getlines content).foldlM (policyLine convert) defaultPolicy = .ok p := by
  constructor
  · rintro ⟨p, loaded, -⟩
    cases read : (getlines content).foldlM (policyLine convert) defaultPolicy with
    | error thrown =>
        rw [loadPolicy, read] at loaded
        cases loaded
    | ok before => exact ⟨before, rfl⟩
  · rintro ⟨p, read⟩
    have values := lastValues_of_read read
    refine ⟨{ p with id := ⟨0xCAFE, 1⟩ }, ?_, values.rates, values.currency⟩
    rw [loadPolicy, read]
    rfl

/-- Every admissible file is read, and gives the last values, exactly if every
text that it names as a currency can be converted to a number. -/
theorem policy_loads_iff (content : ByteString)
    (admissible : ∀ line ∈ getlines content, AdmissibleLine convert line) :
    Loads convert content ↔
      ∀ text, PolicyKey.currency.text ++ Char.toUInt8 '=' :: text ∈ getlines content →
        ∃ v, stod convert text = .ok v := by
  rw [loads_iff_read, read_iff]
  constructor
  · intro converts text member
    exact converts _ member _ text (setting_currency text)
  · intro currencies line member k text found
    rcases (admissible line member).converts found with number | rfl
    · exact number
    · exact currencies text member

end WholeFile

end Loading

/-- The conversion of the text `2`. -/
def convertTwo (text : ByteString) : Option Binary64 :=
  if text = [50] then some ⟨0x4000000000000000⟩ else none

/-- A rate of two, and a currency that happens to be a number. -/
theorem numeric_currency_loads :
    Loads convertTwo (.ofString "gpu_per_second=2\ncurrency=2") := by
  have lines : getlines (.ofString "gpu_per_second=2\ncurrency=2") =
      [PolicyKey.gpuPerSecond.text ++ Char.toUInt8 '=' :: [50],
        PolicyKey.currency.text ++ Char.toUInt8 '=' :: [50]] := by
    simp only [PolicyKey.text, ofString_eq]
    rfl
  have first : Char.toUInt8 '=' ∉ PolicyKey.gpuPerSecond.text := by
    simp only [PolicyKey.text, ofString_eq]
    decide
  have uncommented : (PolicyKey.gpuPerSecond.text ++ Char.toUInt8 '=' :: [50]).head? ≠
      some (Char.toUInt8 '#') := by
    simp only [PolicyKey.text, ofString_eq]
    decide
  have two : stod convertTwo [50] = .ok ⟨0x4000000000000000⟩ := rfl
  refine (policy_loads_iff _ ?_).mpr ?_
  · rw [lines]
    intro line member
    rcases List.mem_pair.mp member with rfl | rfl
    · exact .number _ _ _ first two
    · exact .currency _
  · rw [lines]
    intro text member
    have value : text = [50] := by
      rcases List.mem_pair.mp member with rate | currency
      · have same := congrArg setting rate
        rw [setting_currency, setting_append first uncommented] at same
        exact (Prod.mk.inj (Option.some.inj same)).2
      · have same := congrArg setting currency
        rw [setting_currency, setting_currency] at same
        exact (Prod.mk.inj (Option.some.inj same)).2
    exact ⟨_, value ▸ two⟩

/-- The text `usd` of a currency is not a number, and nothing is loaded. -/
theorem currency_text_throws :
    ¬ ∀ (convert : ByteString → Option Binary64) (content : ByteString),
      (∀ line ∈ getlines content, AdmissibleLine convert line) → Loads convert content := by
  intro claim
  have lines : getlines (.ofString "currency=usd") =
      [PolicyKey.currency.text ++ Char.toUInt8 '=' :: ByteString.ofString "usd"] := by
    simp only [PolicyKey.text, ofString_eq]
    rfl
  have loads := claim (fun _ => none) (.ofString "currency=usd") (by
    rw [lines]
    intro line member
    rw [List.mem_singleton.mp member]
    exact .currency _)
  rw [loads_iff_read, read_iff, lines] at loads
  rcases loads _ (List.mem_singleton_self _) _ _ (setting_currency _) with ⟨v, converted⟩
  have unnumbered : startsNumber (.ofString "usd") = false := by
    simp only [startsNumber, ofString_eq]
    rfl
  have thrown : stod (fun _ => none) (.ofString "usd") = .error .invalidArgument := by
    rw [stod, unnumbered]
    rfl
  rw [thrown] at converted
  cases converted

end InferenceLedger
