import Kboot86.Sh.Lexeme

/-!
# The values of numbers

`_process_luinteger` hands the digits of a number to the function for its base,
which adds them up from the last one on in 32 bits. The limits on the length
keep every partial sum below 2^32; the factor of a digit that no longer comes
may wrap. A hexadecimal number has at most 8 digits, an octal one 10 behind the
0 that it begins with, a decimal one 9.
-/

namespace Kboot86.Sh

inductive Radix where
  | hex
  | oct
  | dec

namespace Radix

def base : Radix → UInt32
  | hex => 16
  | oct => 8
  | dec => 10

def lenMax : Radix → Nat
  | hex => 8
  | oct => 11
  | dec => 9

def converter : Radix → UInt8 → Option UInt32
  | hex => char2int16
  | oct => char2int8
  | dec => char2int10

def isDigit : Radix → UInt8 → Bool
  | hex => charIsHex
  | oct => isOctDigit
  | dec => charIsDigit

def Valid (r : Radix) (digits : List UInt8) : Prop :=
  digits ≠ [] ∧ digits.length ≤ r.lenMax ∧ ∀ c ∈ digits, r.isDigit c = true

end Radix

/-- The base of the number that a line begins with, and the characters of its
lexeme, without the prefix. -/
def numeral (c : UInt8) (rest : List UInt8) : Radix × List UInt8 :=
  if '0'.toUInt8 == c then
    if isHexMark (curChar rest) then (.hex, rest.tail.takeWhile charIsHex)
    else (.oct, c :: rest.takeWhile charIsHex)
  else (.dec, c :: rest.takeWhile charIsHex)

/-- The variables `number` and `factor` of `_set_luinteger` after the
characters, which come from the last one on. -/
def accumulate (base : UInt32) (converter : UInt8 → Option UInt32) :
    List UInt8 → UInt32 → UInt32 → Option (UInt32 × UInt32)
  | [], number, factor => some (number, factor)
  | c :: rest, number, factor =>
      match converter c with
      | none => none
      | some digit => accumulate base converter rest (number + digit * factor) (factor * base)

/-- No addition has wrapped: after each of the digits the number is the
positional value of the digits so far. -/
def NoWrap (r : Radix) (digits : List UInt8) : Prop :=
  ∀ j ≤ digits.length, ∃ number factor,
    accumulate r.base r.converter (digits.reverse.take j) 0 1 = some (number, factor) ∧
      number.toNat = positional r.base.toNat (digits.drop (digits.length - j))

structure NumberRight (r : Radix) (digits : List UInt8) (t : Token) : Prop where
  valid : r.Valid digits →
    (∃ v, t = .luinteger v ∧ v.toNat = positional r.base.toNat digits) ∧ NoWrap r digits
  invalid : ¬ r.Valid digits → t.isError = true

section

variable {r : Radix} {digits : List UInt8}

theorem Radix.converter_eq (r : Radix) (c : UInt8) :
    r.converter c = if r.isDigit c then some (UInt32.ofNat (digitValue c)) else none := by
  cases r with
  | hex => exact char2int16_eq c
  | oct => exact char2int8_eq c
  | dec => exact char2int10_eq c

theorem setLuintegerLoop_eq (base : UInt32) (converter : UInt8 → Option UInt32) :
    ∀ (l : List UInt8) (number factor : UInt32),
      setLuintegerLoop base converter l number factor =
        match accumulate base converter l number factor with
        | none => .error .wrongNum
        | some r => .luinteger r.1
  | [], _, _ => rfl
  | c :: rest, number, factor => by
      rw [setLuintegerLoop, accumulate]
      cases converter c with
      | none => rfl
      | some digit => exact setLuintegerLoop_eq base converter rest _ _

theorem accumulate_digits (base : UInt32) {converter : UInt8 → Option UInt32} {l : List UInt8}
    (number factor : UInt32) (h : ∀ c ∈ l, converter c = some (UInt32.ofNat (digitValue c))) :
    ∃ factor', accumulate base converter l number factor =
      some (number + UInt32.ofNat (Nat.ofDigits base.toNat (l.map digitValue)) * factor,
        factor') := by
  have hloop := setLuintegerLoop_digits base l number factor h
  rw [setLuintegerLoop_eq] at hloop
  cases hacc : accumulate base converter l number factor with
  | none =>
      rw [hacc] at hloop
      cases hloop
  | some p =>
      rw [hacc] at hloop
      exact ⟨p.2, congrArg (fun n => some (n, p.2)) (Token.luinteger.inj hloop)⟩

theorem positional_drop_le (base : Nat) (digits : List UInt8) (j : Nat) :
    positional base (digits.drop j) ≤ positional base digits := by
  have hsplit : (digits.map digitValue).reverse =
      ((digits.drop j).map digitValue).reverse ++ ((digits.take j).map digitValue).reverse := by
    rw [← List.reverse_append, ← List.map_append, List.take_append_drop]
  rw [positional, positional, hsplit, Nat.ofDigits_append]
  exact Nat.le_add_right _ _

theorem positional_lt {base : Nat} (hbase : 1 < base)
    (hdigits : ∀ c ∈ digits, digitValue c < base) :
    positional base digits < base ^ digits.length := by
  have hlt := Nat.ofDigits_lt_base_pow_length (l := (digits.map digitValue).reverse) hbase
    fun d hd => by
      obtain ⟨c, hc, rfl⟩ := List.mem_map.mp (List.mem_reverse.mp hd)
      exact hdigits c hc
  rwa [List.length_reverse, List.length_map] at hlt

theorem positional_zero_cons (base : Nat) (digits : List UInt8) :
    positional base ('0'.toUInt8 :: digits) = positional base digits := by
  have hzero : digitValue '0'.toUInt8 = 0 := rfl
  rw [positional, positional, List.map_cons, List.reverse_cons, Nat.ofDigits_append, hzero,
    Nat.ofDigits_singleton, Nat.mul_zero, Nat.add_zero]

theorem digitValue_lt {c : UInt8} (h : r.isDigit c = true) : digitValue c < r.base.toNat := by
  have hzero : '0'.toUInt8.toNat = 48 := rfl
  have hnine : '9'.toUInt8.toNat = 57 := rfl
  rw [digitValue]
  cases r with
  | hex =>
      have hbase : Radix.hex.base.toNat = 16 := rfl
      have hlower : 'a'.toUInt8.toNat = 97 ∧ 'f'.toUInt8.toNat = 102 := ⟨rfl, rfl⟩
      have hupper : 'A'.toUInt8.toNat = 65 ∧ 'F'.toUInt8.toNat = 70 := ⟨rfl, rfl⟩
      simp only [Radix.isDigit, charIsHex, charIsDigit, Bool.or_eq_true, decide_eq_true_eq,
        UInt8.le_iff_toNat_le] at h ⊢
      split_ifs <;> omega
  | oct =>
      have hbase : Radix.oct.base.toNat = 8 := rfl
      have hseven : '7'.toUInt8.toNat = 55 := rfl
      rw [if_pos (octDigit_digit h)]
      simp only [Radix.isDigit, isOctDigit, decide_eq_true_eq, UInt8.le_iff_toNat_le] at h
      omega
  | dec =>
      have hbase : Radix.dec.base.toNat = 10 := rfl
      have hdigit : charIsDigit c = true := h
      rw [if_pos hdigit]
      simp only [charIsDigit, decide_eq_true_eq, UInt8.le_iff_toNat_le] at hdigit
      omega

theorem positional_lt_pow {n : Nat} (hlen : digits.length ≤ n)
    (hdigits : ∀ c ∈ digits, r.isDigit c = true) :
    positional r.base.toNat digits < r.base.toNat ^ n := by
  have hbase : 1 < r.base.toNat := by cases r <;> decide
  exact lt_of_lt_of_le (positional_lt hbase fun c hc => digitValue_lt (hdigits c hc))
    (Nat.pow_le_pow_right (by omega) hlen)

/-- The number of a valid lexeme fits in 32 bits. An octal one begins with 0. -/
theorem numeral_lt {c : UInt8} {rest : List UInt8}
    (h : (numeral c rest).1.Valid (numeral c rest).2) :
    positional (numeral c rest).1.base.toNat (numeral c rest).2 < UInt32.size := by
  by_cases hzero : ('0'.toUInt8 == c) = true
  · by_cases hmark : isHexMark (curChar rest) = true
    · rw [numeral, if_pos hzero, if_pos hmark] at h ⊢
      have hlt := positional_lt_pow h.2.1 h.2.2
      have hsize : 16 ^ 8 ≤ UInt32.size := by decide
      exact lt_of_lt_of_le hlt hsize
    · rw [numeral, if_pos hzero, if_neg hmark] at h ⊢
      obtain rfl : '0'.toUInt8 = c := eq_of_beq hzero
      have hcount : (rest.takeWhile charIsHex).length ≤ 10 := Nat.le_of_succ_le_succ h.2.1
      have hlt : positional 8 (rest.takeWhile charIsHex) < 8 ^ 10 :=
        positional_lt_pow hcount fun a ha => h.2.2 a (List.mem_cons_of_mem _ ha)
      have hsize : 8 ^ 10 < UInt32.size := by decide
      rw [positional_zero_cons]
      exact hlt.trans hsize
  · rw [numeral, if_neg hzero] at h ⊢
    have hlt := positional_lt_pow h.2.1 h.2.2
    have hsize : 10 ^ 9 < UInt32.size := by decide
    exact lt_of_lt_of_le hlt hsize.le

/-- Within 32 bits the accumulated number is exact at every digit. -/
theorem noWrap_of_lt (hdigits : ∀ c ∈ digits, r.isDigit c = true)
    (hlt : positional r.base.toNat digits < UInt32.size) : NoWrap r digits := by
  intro j hj
  have hall : ∀ c ∈ digits.reverse.take j, r.converter c = some (UInt32.ofNat (digitValue c)) :=
    fun c hc => by
      rw [r.converter_eq, if_pos (hdigits c (List.mem_reverse.mp (List.mem_of_mem_take hc)))]
  obtain ⟨factor, hacc⟩ := accumulate_digits r.base 0 1 hall
  refine ⟨_, factor, hacc, ?_⟩
  have hlast : digits.reverse.take j = (digits.drop (digits.length - j)).reverse :=
    List.take_reverse
  have hsmall := lt_of_le_of_lt (positional_drop_le r.base.toNat digits (digits.length - j)) hlt
  rw [hlast, List.map_reverse, UInt32.zero_add, UInt32.mul_one]
  exact UInt32.toNat_ofNat_of_lt' hsmall

/-- The function of the base is right about a number that fits in 32 bits. -/
theorem setLuinteger_right (hne : digits ≠ [])
    (hlt : r.Valid digits → positional r.base.toNat digits < UInt32.size) :
    NumberRight r digits (setLuinteger r.lenMax r.base r.converter digits) where
  valid h := by
    refine ⟨⟨_, setLuinteger_of_valid r.base r.converter_eq h.2.1 h.2.2, ?_⟩,
      noWrap_of_lt h.2.2 (hlt h)⟩
    exact UInt32.toNat_ofNat_of_lt' (hlt h)
  invalid h := setLuinteger_of_invalid r.base r.converter_eq fun hv => h ⟨hne, hv⟩

end

/-- The token of a number, whatever the line goes on with: it has the value of
the digits, and no other, or is an error. -/
theorem processLuinteger_value (c : UInt8) (rest : List UInt8) :
    ∃ t forward, processLuinteger (c :: rest) = .ok (t, forward) ∧
      NumberRight (numeral c rest).1 (numeral c rest).2 t := by
  have hlt : (numeral c rest).1.Valid (numeral c rest).2 →
      positional (numeral c rest).1.base.toNat (numeral c rest).2 < UInt32.size := numeral_lt
  rw [processLuinteger_eq, munchNumber]
  by_cases hzero : ('0'.toUInt8 == c) = true
  · by_cases hmark : isHexMark (curChar rest) = true
    · have hprefix : ('x'.toUInt8 == curChar rest || 'X'.toUInt8 == curChar rest) = true := hmark
      rw [numeral, if_pos hzero, if_pos hmark] at hlt ⊢
      rw [if_pos hzero, if_pos hprefix]
      cases hrest : rest.tail with
      | nil =>
          rw [List.takeWhile_nil]
          exact ⟨_, _, rfl, fun hv => absurd rfl hv.1, fun _ => rfl⟩
      | cons a as =>
          cases ha : charIsHex a with
          | false =>
              rw [List.takeWhile_cons_of_neg (by simp [ha]), curChar, ha]
              exact ⟨_, _, rfl, fun hv => absurd rfl hv.1, fun _ => rfl⟩
          | true =>
              rw [hrest, List.takeWhile_cons_of_pos ha] at hlt
              rw [List.takeWhile_cons_of_pos ha, curChar, ha]
              exact ⟨_, _, rfl, setLuinteger_right (List.cons_ne_nil _ _) hlt⟩
    · have hplain : ¬ ('x'.toUInt8 == curChar rest || 'X'.toUInt8 == curChar rest) = true := hmark
      rw [numeral, if_pos hzero, if_neg hmark] at hlt ⊢
      rw [if_pos hzero, if_neg hplain]
      exact ⟨_, _, rfl, setLuinteger_right (List.cons_ne_nil _ _) hlt⟩
  · rw [numeral, if_neg hzero] at hlt ⊢
    rw [if_neg hzero]
    exact ⟨_, _, rfl, setLuinteger_right (List.cons_ne_nil _ _) hlt⟩

end Kboot86.Sh
