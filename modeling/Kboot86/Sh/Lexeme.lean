import Kboot86.Sh.Bounds
import Mathlib.Data.Nat.Digits.Defs

/-!
# The lexemes of the shell's language

What a line consists of, said without the lexer: words, variables, strings,
numbers and runs that begin like none of these, each with where it ends, when
it is valid and which token it stands for. The digits of a number are taken
positionally, and a number goes on over all hexadecimal digits, whatever its
base.

`munch_lexeme` says that the lexer takes a lexeme off the line exactly where it
ends, and gives the token of a valid lexeme and an error for any other.
-/

namespace Kboot86.Sh

/-- A lexeme by its class; a string is given without its delimiters. -/
inductive Lexeme where
  | identifier (text : List UInt8)
  | variable (text : List UInt8)
  | string (inside : List UInt8)
  | number (text : List UInt8)
  | unknown (text : List UInt8)

def isSigil (c : UInt8) : Bool := c == sigilStrVar || c == sigilIntVar || c == sigilBoolVar

def isOctDigit (c : UInt8) : Bool := decide ('0'.toUInt8 ≤ c ∧ c ≤ '7'.toUInt8)

def isHexMark (c : UInt8) : Bool := 'x'.toUInt8 == c || 'X'.toUInt8 == c

def digitValue (c : UInt8) : Nat :=
  if charIsDigit c then c.toNat - '0'.toUInt8.toNat
  else if 'a'.toUInt8 ≤ c ∧ c ≤ 'f'.toUInt8 then 10 + (c.toNat - 'a'.toUInt8.toNat)
  else 10 + (c.toNat - 'A'.toUInt8.toNat)

def positional (base : Nat) (digits : List UInt8) : Nat :=
  Nat.ofDigits base (digits.map digitValue).reverse

/-- A character of one class and then characters of another, as many as the
line has. -/
def Run (first later : UInt8 → Bool) (text rest : List UInt8) : Prop :=
  ∃ c cs, text = c :: cs ∧ first c = true ∧ (∀ a ∈ cs, later a = true) ∧
    ∀ a ∈ rest.head?, later a = false

def HexText (text digits : List UInt8) : Prop :=
  ∃ m, text = '0'.toUInt8 :: m :: digits ∧ isHexMark m = true ∧ ∀ a ∈ digits, charIsHex a = true

namespace Lexeme

def text : Lexeme → List UInt8
  | .identifier text => text
  | .variable text => text
  | .string inside => delimiterStr :: (inside ++ [delimiterStr])
  | .number text => text
  | .unknown text => text

/-- The lexeme has the form of its class and ends where `rest` begins. -/
def EndsAt : Lexeme → List UInt8 → Prop
  | .identifier text, rest => Run charIsAlpha charIsAlphanum text rest
  | .variable text, rest => Run isSigil charIsAlphanum text rest
  | .string inside, _ => delimiterStr ∉ inside
  | .number text, rest =>
      (∃ digits, HexText text digits) ∧ (∀ a ∈ rest.head?, charIsHex a = false) ∨
        Run charIsDigit charIsHex text rest ∧
          ¬ (text = ['0'.toUInt8] ∧ ∃ m ∈ rest.head?, isHexMark m = true)
  | .unknown text, rest =>
      Run (fun c => beginsNoToken c && ' '.toUInt8 != c) (' '.toUInt8 != ·) text rest ∧ rest ≠ []

def Valid : Lexeme → Prop
  | .identifier text => text.length ≤ 15
  | .variable text => text.length ≤ 15
  | .string inside => inside.length ≤ 15
  | .number text =>
      (∃ digits, HexText text digits ∧ 1 ≤ digits.length ∧ digits.length ≤ 8) ∨
      (∃ digits, text = '0'.toUInt8 :: digits ∧ digits.length ≤ 10 ∧
        ∀ a ∈ digits, isOctDigit a = true) ∨
      (∃ c digits, text = c :: digits ∧ c ≠ '0'.toUInt8 ∧ text.length ≤ 9 ∧
        ∀ a ∈ text, charIsDigit a = true)
  | .unknown _ => False

def numberValue : List UInt8 → Nat
  | c :: m :: digits =>
      if '0'.toUInt8 == c then
        if isHexMark m then positional 16 digits else positional 8 (c :: m :: digits)
      else positional 10 (c :: m :: digits)
  | text => positional 10 text

def token : Lexeme → Token
  | .identifier text => .identifier text
  | .variable text => .variable text
  | .string inside => .lstring inside
  | .number text => .luinteger (UInt32.ofNat (numberValue text))
  | .unknown _ => .unknown

end Lexeme

def Token.isRefused (t : Token) : Bool := t.isError || t.isUnknown

/-! ### Digits -/

theorem sub_toUInt32 {a c : UInt8} (h : a ≤ c) :
    (c - a).toUInt32 = UInt32.ofNat (c.toNat - a.toNat) := by
  have hc := c.toNat_lt
  rw [UInt8.le_iff_toNat_le] at h
  rw [← UInt32.toNat_inj, UInt8.toNat_toUInt32, UInt8.toNat_sub, UInt32.toNat_ofNat']
  omega

theorem char2int10_eq (c : UInt8) :
    char2int10 c = if charIsDigit c then some (UInt32.ofNat (digitValue c)) else none := by
  rw [char2int10, charIsDigit]
  by_cases h : '0'.toUInt8 ≤ c ∧ c ≤ '9'.toUInt8
  · rw [if_pos h, if_pos (decide_eq_true h), digitValue, charIsDigit, if_pos (decide_eq_true h),
      sub_toUInt32 h.1]
  · rw [if_neg h, if_neg (by simpa using h)]

theorem char2int8_eq (c : UInt8) :
    char2int8 c = if isOctDigit c then some (UInt32.ofNat (digitValue c)) else none := by
  rw [char2int8, isOctDigit]
  by_cases h : '0'.toUInt8 ≤ c ∧ c ≤ '7'.toUInt8
  · have hdigit : charIsDigit c = true :=
      decide_eq_true ⟨h.1, UInt8.le_trans h.2 (by decide)⟩
    rw [if_pos h, if_pos (decide_eq_true h), digitValue, if_pos hdigit, sub_toUInt32 h.1]
  · rw [if_neg h, if_neg (by simpa using h)]

theorem char2int16_eq (c : UInt8) :
    char2int16 c = if charIsHex c then some (UInt32.ofNat (digitValue c)) else none := by
  rw [char2int16, charIsHex, digitValue, charIsDigit]
  by_cases hdigit : '0'.toUInt8 ≤ c ∧ c ≤ '9'.toUInt8
  · simp only [if_pos hdigit, decide_eq_true hdigit, Bool.true_or, if_true, sub_toUInt32 hdigit.1]
  by_cases hlower : 'a'.toUInt8 ≤ c ∧ c ≤ 'f'.toUInt8
  · simp only [if_neg hdigit, decide_eq_false hdigit, if_pos hlower, decide_eq_true hlower,
      Bool.false_or, Bool.true_or, if_true, sub_toUInt32 hlower.1, Bool.false_eq_true, if_false,
      UInt32.ofNat_add]
    rfl
  by_cases hupper : 'A'.toUInt8 ≤ c ∧ c ≤ 'F'.toUInt8
  · simp only [if_neg hdigit, decide_eq_false hdigit, if_neg hlower, decide_eq_false hlower,
      if_pos hupper, decide_eq_true hupper, Bool.false_or, if_true, sub_toUInt32 hupper.1,
      Bool.false_eq_true, if_false, UInt32.ofNat_add]
    rfl
  · simp only [if_neg hdigit, decide_eq_false hdigit, if_neg hlower, decide_eq_false hlower,
      if_neg hupper, decide_eq_false hupper, Bool.or_false]
    rfl

/-- The loop over digits that all convert adds their positional value. -/
theorem setLuintegerLoop_digits (base : UInt32) {converter : UInt8 → Option UInt32} :
    ∀ (l : List UInt8) (number factor : UInt32),
      (∀ c ∈ l, converter c = some (UInt32.ofNat (digitValue c))) →
      setLuintegerLoop base converter l number factor =
        .luinteger (number + UInt32.ofNat (Nat.ofDigits base.toNat (l.map digitValue)) * factor)
  | [], number, factor, _ => by
      rw [setLuintegerLoop, List.map_nil, Nat.ofDigits_nil]
      congr 1
      grind
  | c :: rest, number, factor, h => by
      have hrest := setLuintegerLoop_digits base rest
        (number + UInt32.ofNat (digitValue c) * factor) (factor * base)
        fun a ha => h a (List.mem_cons_of_mem c ha)
      rw [setLuintegerLoop, h c List.mem_cons_self]
      dsimp only
      rw [hrest, List.map_cons, Nat.ofDigits_cons, UInt32.ofNat_add, UInt32.ofNat_mul,
        UInt32.ofNat_toNat]
      congr 1
      grind

theorem setLuintegerLoop_error (base : UInt32) {converter : UInt8 → Option UInt32} :
    ∀ (l : List UInt8) (number factor : UInt32), (∃ c ∈ l, converter c = none) →
      (setLuintegerLoop base converter l number factor).isError = true
  | [], _, _, h => by
      rcases h with ⟨c, hc, -⟩
      cases hc
  | c :: rest, number, factor, h => by
      rw [setLuintegerLoop]
      cases hconv : converter c with
      | none => rfl
      | some digit =>
          apply setLuintegerLoop_error base rest _ _
          rcases h with ⟨a, ha, hnone⟩
          rcases List.mem_cons.mp ha with rfl | ha
          · rw [hconv] at hnone
            cases hnone
          · exact ⟨a, ha, hnone⟩

theorem setLuinteger_of_valid {lenMax : Nat} (base : UInt32) {converter : UInt8 → Option UInt32}
    {isDigit : UInt8 → Bool}
    (hconv : ∀ c, converter c = if isDigit c then some (UInt32.ofNat (digitValue c)) else none)
    {digits : List UInt8} (hlen : digits.length ≤ lenMax)
    (hdigits : ∀ c ∈ digits, isDigit c = true) :
    setLuinteger lenMax base converter digits =
      .luinteger (UInt32.ofNat (positional base.toNat digits)) := by
  have hall : ∀ c ∈ digits.reverse, converter c = some (UInt32.ofNat (digitValue c)) :=
    fun c hc => by rw [hconv, if_pos (hdigits c (List.mem_reverse.mp hc))]
  rw [setLuinteger, if_neg (by omega), setLuintegerLoop_digits base _ 0 1 hall, positional,
    List.map_reverse]
  congr 1
  grind

/-- Too many characters, or one that is no digit of the base, are an error. -/
theorem setLuinteger_of_invalid {lenMax : Nat} (base : UInt32) {converter : UInt8 → Option UInt32}
    {isDigit : UInt8 → Bool}
    (hconv : ∀ c, converter c = if isDigit c then some (UInt32.ofNat (digitValue c)) else none)
    {digits : List UInt8} (h : ¬ (digits.length ≤ lenMax ∧ ∀ c ∈ digits, isDigit c = true)) :
    (setLuinteger lenMax base converter digits).isError = true := by
  rw [setLuinteger]
  by_cases hlen : digits.length ≤ lenMax
  · have hno : ∃ c ∈ digits.reverse, converter c = none := by
      by_contra hall
      refine h ⟨hlen, fun c hc => ?_⟩
      by_contra hc'
      refine hall ⟨c, List.mem_reverse.mpr hc, ?_⟩
      rw [hconv, if_neg hc']
    rw [if_neg (by omega)]
    exact setLuintegerLoop_error base _ 0 1 hno
  · rw [if_pos (by omega)]
    rfl

/-! ### What the lexer takes off the line -/

/-- The token `t` is the one of the lexeme when it is valid and is refused when
it is not. -/
def Lexeme.Gives (x : Lexeme) (t : Token) : Prop :=
  (x.Valid → t = x.token) ∧ (¬ x.Valid → t.isRefused = true)

theorem takeWhile_run {p : UInt8 → Bool} {cs rest : List UInt8} (hcs : ∀ a ∈ cs, p a = true)
    (hrest : ∀ a ∈ rest.head?, p a = false) : (cs ++ rest).takeWhile p = cs := by
  rw [List.takeWhile_append_of_pos hcs]
  cases rest with
  | nil => rw [List.takeWhile_nil, List.append_nil]
  | cons a rest =>
      have ha := hrest a rfl
      rw [List.takeWhile_cons_of_neg (by simp [ha]), List.append_nil]

theorem dropWhile_run {p : UInt8 → Bool} {cs rest : List UInt8} (hcs : ∀ a ∈ cs, p a = true)
    (hrest : ∀ a ∈ rest.head?, p a = false) : (cs ++ rest).dropWhile p = rest := by
  rw [List.dropWhile_append_of_pos hcs]
  cases rest with
  | nil => rfl
  | cons a rest =>
      have ha := hrest a rfl
      rw [List.dropWhile_cons_of_neg (by simp [ha])]

theorem setStrlex_gives {x : Lexeme} {set : List UInt8 → Token} {lexeme : List UInt8}
    (hvalid : x.Valid ↔ lexeme.length ≤ 15) (htoken : x.token = set lexeme) :
    x.Gives (setStrlex set lexeme) := by
  rw [Lexeme.Gives, hvalid, htoken, setStrlex, tokenStrLenMax]
  by_cases hlen : lexeme.length ≤ 15
  · rw [if_neg (by omega)]
    exact ⟨fun _ => rfl, fun hno => absurd hlen hno⟩
  · rw [if_pos (by omega)]
    exact ⟨fun h => absurd h hlen, fun _ => rfl⟩

theorem not_sigil_of {c : UInt8} (p : UInt8 → Bool) (hc : p c = true)
    (hp : p sigilStrVar = false ∧ p sigilIntVar = false ∧ p sigilBoolVar = false) :
    ¬ (c = sigilStrVar ∨ c = sigilIntVar ∨ c = sigilBoolVar) := by
  rintro (rfl | rfl | rfl)
  · rw [hp.1] at hc
    cases hc
  · rw [hp.2.1] at hc
    cases hc
  · rw [hp.2.2] at hc
    cases hc

theorem not_delimiter_of {c : UInt8} (p : UInt8 → Bool) (hc : p c = true)
    (hp : p delimiterStr = false) : c ≠ delimiterStr := by
  rintro rfl
  rw [hp] at hc
  cases hc

theorem munch_variable {c : UInt8} (hc : isSigil c = true) (rest : List UInt8) :
    munch (c :: rest) =
      (tokenSetVariable (c :: rest.takeWhile charIsAlphanum), rest.dropWhile charIsAlphanum) := by
  simp only [isSigil, Bool.or_eq_true, beq_iff_eq, or_assoc] at hc
  rw [munch, if_pos hc]

theorem munch_identifier {c : UInt8} (hc : charIsAlpha c = true) (rest : List UInt8) :
    munch (c :: rest) =
      (tokenSetIdentifier (c :: rest.takeWhile charIsAlphanum), rest.dropWhile charIsAlphanum) := by
  rw [munch, if_neg (not_sigil_of charIsAlpha hc (by decide)),
    if_neg (not_delimiter_of charIsAlpha hc (by decide)), if_pos hc]

theorem munch_string (rest : List UInt8) :
    munch (delimiterStr :: rest) = (tokenSetLstring (rest.takeWhile (delimiterStr != ·)),
      (rest.dropWhile (delimiterStr != ·)).tail) := by
  rw [munch, if_neg (by decide), if_pos rfl]

theorem munch_number {c : UInt8} (hc : charIsDigit c = true) (rest : List UInt8) :
    munch (c :: rest) = munchNumber c rest := by
  have halpha : ¬ charIsAlpha c = true := by
    intro halpha
    simp only [charIsAlpha, charIsDigit, Bool.or_eq_true, decide_eq_true_eq, beq_iff_eq,
      UInt8.le_iff_toNat_le] at hc halpha
    rcases halpha with (h | h) | h
    · have := h.1.trans hc.2
      revert this
      decide
    · have := h.1.trans hc.2
      revert this
      decide
    · rw [← h] at hc
      revert hc
      decide
  rw [munch, if_neg (not_sigil_of charIsDigit hc (by decide)),
    if_neg (not_delimiter_of charIsDigit hc (by decide)), if_neg halpha, if_pos hc]

theorem munch_unknown {c : UInt8} (hc : beginsNoToken c = true) (rest : List UInt8) :
    munch (c :: rest) = (.unknown, rest.dropWhile (' '.toUInt8 != ·)) := by
  simp only [beginsNoToken, Bool.and_eq_true, bne_iff_ne, ne_eq, Bool.not_eq_true'] at hc
  rcases hc with ⟨⟨⟨⟨⟨hs, hi⟩, hb⟩, hd⟩, halpha⟩, hdigit⟩
  rw [munch, if_neg (by simp [hs, hi, hb]), if_neg hd, if_neg (by simp [halpha]),
    if_neg (by simp [hdigit])]

/-! ### Numbers -/

theorem not_hexMark_of_hex {c : UInt8} (hc : charIsHex c = true) : isHexMark c = false := by
  rw [isHexMark, Bool.or_eq_false_iff]
  constructor
  · rw [beq_eq_false_iff_ne]
    rintro rfl
    revert hc
    decide
  · rw [beq_eq_false_iff_ne]
    rintro rfl
    revert hc
    decide

theorem octDigit_digit {c : UInt8} (hc : isOctDigit c = true) : charIsDigit c = true := by
  simp only [isOctDigit, charIsDigit, decide_eq_true_eq] at hc ⊢
  exact ⟨hc.1, UInt8.le_trans hc.2 (by decide)⟩

theorem valid_hexText_iff {text digits : List UInt8} (h : HexText text digits) :
    (Lexeme.number text).Valid ↔ digits ≠ [] ∧ digits.length ≤ 8 := by
  rcases h with ⟨m, rfl, hm, hdigits⟩
  constructor
  · rintro (⟨ds, ⟨m', htext, -, -⟩, hpos, hlen⟩ | ⟨ds, htext, -, hoct⟩ | ⟨c, ds, htext, hc, -⟩)
    · obtain ⟨-, rfl⟩ : m = m' ∧ digits = ds := by simpa using htext
      exact ⟨List.ne_nil_of_length_pos hpos, hlen⟩
    · obtain rfl : m :: digits = ds := (List.cons.inj htext).2
      have hmark := not_hexMark_of_hex (c := m) (by
        rw [charIsHex, octDigit_digit (hoct m List.mem_cons_self)]
        rfl)
      rw [hm] at hmark
      cases hmark
    · exact absurd (List.cons.inj htext).1.symm hc
  · rintro ⟨hne, hlen⟩
    exact .inl ⟨digits, ⟨m, rfl, hm, hdigits⟩, List.length_pos_iff.mpr hne, hlen⟩

theorem valid_octal_iff {ds : List UInt8} (hhex : ∀ a ∈ ds, charIsHex a = true) :
    (Lexeme.number ('0'.toUInt8 :: ds)).Valid ↔
      ds.length ≤ 10 ∧ ∀ a ∈ ds, isOctDigit a = true := by
  constructor
  · rintro (⟨digits, ⟨m, htext, hm, -⟩, -⟩ | ⟨digits, htext, hlen, hoct⟩ |
      ⟨c, digits, htext, hc, -⟩)
    · obtain rfl : ds = m :: digits := (List.cons.inj htext).2
      rw [not_hexMark_of_hex (hhex m List.mem_cons_self)] at hm
      cases hm
    · obtain rfl : ds = digits := (List.cons.inj htext).2
      exact ⟨hlen, hoct⟩
    · exact absurd (List.cons.inj htext).1.symm hc
  · rintro ⟨hlen, hoct⟩
    exact .inr (.inl ⟨ds, rfl, hlen, hoct⟩)

theorem valid_decimal_iff {c : UInt8} {ds : List UInt8} (hc : c ≠ '0'.toUInt8) :
    (Lexeme.number (c :: ds)).Valid ↔
      (c :: ds).length ≤ 9 ∧ ∀ a ∈ c :: ds, charIsDigit a = true := by
  constructor
  · rintro (⟨digits, ⟨m, htext, -, -⟩, -⟩ | ⟨digits, htext, -⟩ | ⟨c', digits, -, -, hlen, hdec⟩)
    · exact absurd (List.cons.inj htext).1 hc
    · exact absurd (List.cons.inj htext).1 hc
    · exact ⟨hlen, hdec⟩
  · rintro ⟨hlen, hdec⟩
    exact .inr (.inr ⟨c, ds, rfl, hc, hlen, hdec⟩)

/-- What the conversion of a number gives, for a text that is valid as its
digits are. -/
theorem setLuinteger_gives {text digits : List UInt8} {lenMax : Nat} {base : UInt32}
    {converter : UInt8 → Option UInt32} {isDigit : UInt8 → Bool}
    (hconv : ∀ c, converter c = if isDigit c then some (UInt32.ofNat (digitValue c)) else none)
    (hvalid : (Lexeme.number text).Valid ↔
      digits.length ≤ lenMax ∧ ∀ a ∈ digits, isDigit a = true)
    (hvalue : Lexeme.numberValue text = positional base.toNat digits) :
    (Lexeme.number text).Gives (setLuinteger lenMax base converter digits) := by
  rw [Lexeme.Gives, hvalid]
  constructor
  · rintro ⟨hlen, hdigits⟩
    rw [setLuinteger_of_valid base hconv hlen hdigits, Lexeme.token, hvalue]
  · intro hno
    rw [Token.isRefused, setLuinteger_of_invalid base hconv hno]
    rfl

theorem munchNumber_hex {text digits rest : List UInt8} (h : HexText text digits)
    (hrest : ∀ a ∈ rest.head?, charIsHex a = false) :
    ∃ t, munch (text ++ rest) = (t, rest) ∧ (Lexeme.number text).Gives t := by
  have hvalid := valid_hexText_iff h
  rcases h with ⟨m, rfl, hm, hdigits⟩
  have hmark : ('x'.toUInt8 == m || 'X'.toUInt8 == m) = true := hm
  have hvalue : Lexeme.numberValue ('0'.toUInt8 :: m :: digits) = positional 16 digits := by
    rw [Lexeme.numberValue, if_pos (by decide), if_pos hm]
  rw [List.cons_append, List.cons_append, munch_number (by decide), munchNumber,
    if_pos (by decide), curChar, if_pos hmark, List.tail_cons]
  cases digits with
  | nil =>
      have hcur : charIsHex (curChar rest) = false := by
        cases rest with
        | nil => decide
        | cons a rest => exact hrest a rfl
      rw [List.nil_append, hcur]
      exact ⟨_, rfl, fun hv => absurd rfl (hvalid.mp hv).1, fun _ => rfl⟩
  | cons d ds =>
      have hd : charIsHex d = true := hdigits d List.mem_cons_self
      rw [List.cons_append, curChar, hd, if_neg (by decide), ← List.cons_append,
        takeWhile_run hdigits hrest, dropWhile_run hdigits hrest]
      refine ⟨_, rfl, setLuinteger_gives char2int16_eq ?_ hvalue⟩
      rw [hvalid]
      exact ⟨fun hv => ⟨hv.2, hdigits⟩, fun hv => ⟨List.cons_ne_nil _ _, hv.1⟩⟩

theorem numberValue_octal {ds : List UInt8} (hhex : ∀ a ∈ ds, charIsHex a = true) :
    Lexeme.numberValue ('0'.toUInt8 :: ds) = positional 8 ('0'.toUInt8 :: ds) := by
  cases ds with
  | nil => rfl
  | cons d ds =>
      rw [Lexeme.numberValue, if_pos (by decide),
        if_neg (by simp [not_hexMark_of_hex (hhex d List.mem_cons_self)])]

theorem numberValue_decimal {c : UInt8} {ds : List UInt8} (hc : c ≠ '0'.toUInt8) :
    Lexeme.numberValue (c :: ds) = positional 10 (c :: ds) := by
  cases ds with
  | nil => rfl
  | cons d ds => rw [Lexeme.numberValue, if_neg (by simpa using hc.symm)]

theorem munchNumber_plain {text rest : List UInt8} (h : Run charIsDigit charIsHex text rest)
    (hplain : ¬ (text = ['0'.toUInt8] ∧ ∃ m ∈ rest.head?, isHexMark m = true)) :
    ∃ t, munch (text ++ rest) = (t, rest) ∧ (Lexeme.number text).Gives t := by
  rcases h with ⟨c, ds, rfl, hc, hds, hrest⟩
  rw [List.cons_append, munch_number hc, munchNumber, takeWhile_run hds hrest,
    dropWhile_run hds hrest]
  by_cases hzero : c = '0'.toUInt8
  · subst hzero
    have hmark : isHexMark (curChar (ds ++ rest)) = false := by
      cases ds with
      | cons d ds => exact not_hexMark_of_hex (hds d List.mem_cons_self)
      | nil =>
          cases rest with
          | nil => decide
          | cons a rest =>
              rw [← Bool.not_eq_true]
              exact fun ha => hplain ⟨rfl, a, rfl, ha⟩
    rw [if_pos (by decide), if_neg (by simpa [isHexMark] using hmark)]
    refine ⟨_, rfl, setLuinteger_gives char2int8_eq ?_ (numberValue_octal hds)⟩
    rw [valid_octal_iff hds, List.length_cons]
    constructor
    · rintro ⟨hlen, hoct⟩
      exact ⟨by omega, List.forall_mem_cons.mpr ⟨by decide, hoct⟩⟩
    · rintro ⟨hlen, hoct⟩
      exact ⟨by omega, (List.forall_mem_cons.mp hoct).2⟩
  · rw [if_neg (by simpa using Ne.symm hzero)]
    exact ⟨_, rfl, setLuinteger_gives char2int10_eq (valid_decimal_iff hzero)
      (numberValue_decimal hzero)⟩

/-- The lexer takes a lexeme off the line where it ends. -/
theorem munch_lexeme {x : Lexeme} {rest : List UInt8} (h : x.EndsAt rest) :
    ∃ t, munch (x.text ++ rest) = (t, rest) ∧ x.Gives t := by
  cases x with
  | identifier text =>
      rcases h with ⟨c, cs, rfl, hc, hcs, hrest⟩
      rw [Lexeme.text, List.cons_append, munch_identifier hc, takeWhile_run hcs hrest,
        dropWhile_run hcs hrest]
      exact ⟨_, rfl, setStrlex_gives Iff.rfl rfl⟩
  | «variable» text =>
      rcases h with ⟨c, cs, rfl, hc, hcs, hrest⟩
      rw [Lexeme.text, List.cons_append, munch_variable hc, takeWhile_run hcs hrest,
        dropWhile_run hcs hrest]
      exact ⟨_, rfl, setStrlex_gives Iff.rfl rfl⟩
  | string inside =>
      have hin : ∀ a ∈ inside, (delimiterStr != a) = true := fun a ha =>
        bne_iff_ne.mpr fun heq => h (heq ▸ ha)
      have hstop : ∀ a ∈ (delimiterStr :: rest).head?, (delimiterStr != a) = false := by
        rintro a ha
        obtain rfl := Option.some.inj ha
        decide
      rw [Lexeme.text, List.cons_append, List.append_assoc, munch_string, List.singleton_append,
        takeWhile_run hin hstop, dropWhile_run hin hstop]
      exact ⟨_, rfl, setStrlex_gives Iff.rfl rfl⟩
  | number text =>
      rcases h with ⟨⟨digits, hhex⟩, hrest⟩ | ⟨hrun, hplain⟩
      · exact munchNumber_hex hhex hrest
      · exact munchNumber_plain hrun hplain
  | unknown text =>
      rcases h with ⟨⟨c, cs, rfl, hc, hcs, hrest⟩, -⟩
      rw [Bool.and_eq_true] at hc
      rw [Lexeme.text, List.cons_append, munch_unknown hc.1, dropWhile_run hcs hrest]
      exact ⟨_, rfl, fun hno => hno.elim, fun _ => rfl⟩

end Kboot86.Sh
