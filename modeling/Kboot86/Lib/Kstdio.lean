import Mathlib.Algebra.Order.Ring.Nat
import Mathlib.Data.UInt

/-!
# Formatted output

`kvsprintf` of `kstdio.c` with `number` and `skip_atoi`. A format is the list of
its characters before the NUL. What is written to the buffer is a list that
grows at its end; the lengths are `int` in the source and integers here.

An argument is a machine word or a pointer to a string; a conversion that finds
an argument of the other kind, or none, has no result.
-/

namespace Kboot86.Kstdio

def text (s : String) : List UInt8 := s.toList.map Char.toUInt8

structure Flags where
  zeropad : Bool
  sign : Bool
  plus : Bool
  space : Bool
  left : Bool
  special : Bool
  small : Bool
deriving DecidableEq

def noFlags : Flags := ⟨false, false, false, false, false, false, false⟩

/-! ### `number` -/

/-- `while (bound < size--) *str++ = c;` -/
def padWhile (c : UInt8) (bound size : Int) : List UInt8 × Int :=
  if bound < size then
    let r := padWhile c bound (size - 1)
    (c :: r.1, r.2)
  else ([], size - 1)
termination_by (size - bound).toNat

def digitTable (small : Bool) : List UInt8 :=
  if small then text "0123456789abcdefghijklmnopqrstuvwxyz"
  else text "0123456789ABCDEFGHIJKLMNOPQRSTUVWXYZ"

theorem div_toNat_lt {num base : UInt32} (hbase : 2 ≤ base.toNat) (hnum : num ≠ 0) :
    (num / base).toNat < num.toNat := by
  have hne : num.toNat ≠ 0 := fun h => hnum (UInt32.toNat_inj.mp h)
  rw [UInt32.toNat_div]
  exact Nat.div_lt_self (by omega) hbase

def tmpDigits (digits : List UInt8) (base : UInt32) (hbase : 2 ≤ base.toNat) (num : UInt32) :
    List UInt8 :=
  if _hnum : num = 0 then []
  else digits.getD (num % base).toNat 0 :: tmpDigits digits base hbase (num / base)
termination_by num.toNat
decreasing_by exact div_toNat_lt hbase _hnum

def signChar (num : UInt32) (type : Flags) : UInt8 :=
  if type.sign && num.toInt32 < 0 then '-'.toUInt8
  else if type.plus then '+'.toUInt8
  else if type.space then ' '.toUInt8
  else 0

def sizeBehindPrefix (sign : UInt8) (base : UInt32) (size : Int) (type : Flags) : Int :=
  let size := if sign ≠ 0 then size - 1 else size
  if type.special then
    if base = 16 then size - 2 else if base = 8 then size - 1 else size
  else size

def writePrefix (str : List UInt8) (sign : UInt8) (base : UInt32) (type : Flags)
    (digits : List UInt8) : List UInt8 :=
  let str := if sign ≠ 0 then str ++ [sign] else str
  if type.special then
    if base = 8 then str ++ ['0'.toUInt8]
    else if base = 16 then str ++ ['0'.toUInt8, digits.getD 33 0]
    else str
  else str

def writeNumber (sign : UInt8) (base : UInt32) (size precision : Int) (type : Flags)
    (digits tmp : List UInt8) : List UInt8 :=
  let c := if type.zeropad then '0'.toUInt8 else ' '.toUInt8
  let i : Int := tmp.length
  let precision := if i > precision then i else precision
  let size := size - precision
  let blanks := if !(type.zeropad || type.left) then padWhile ' '.toUInt8 0 size else ([], size)
  let str := writePrefix blanks.1 sign base type digits
  let fill := if !type.left then padWhile c 0 blanks.2 else ([], blanks.2)
  let str := str ++ fill.1
  let str := str ++ (padWhile '0'.toUInt8 i precision).1
  let str := str ++ tmp.reverse
  str ++ (padWhile ' '.toUInt8 0 fill.2).1

/-- `number`, with the characters that it writes; nothing for a base that it
refuses. -/
def number (num base : UInt32) (size precision : Int) (type : Flags) : Option (List UInt8) :=
  let digits := digitTable type.small
  let type := if type.left then { type with zeropad := false } else type
  if hbase : 2 ≤ base.toNat ∧ base.toNat ≤ 36 then
    let sign := signChar num type
    let num := if type.sign && num.toInt32 < 0 then -num else num
    let size := sizeBehindPrefix sign base size type
    let tmp := if num = 0 then ['0'.toUInt8] else tmpDigits digits base hbase.1 num
    some (writeNumber sign base size precision type digits tmp)
  else none

/-! ### `kvsprintf` -/

/-- An argument: a word, or a pointer to the characters of a string. -/
inductive Arg where
  | word (w : UInt32)
  | str (s : List UInt8)
deriving DecidableEq

/-- What has been written to the buffer, and through the pointers of `%n`. -/
structure Output where
  str : List UInt8
  stores : List (UInt32 × Nat)
deriving DecidableEq

def Output.put (out : Output) (s : List UInt8) : Output := { out with str := out.str ++ s }

def fmtChar (fmt : List UInt8) : UInt8 := fmt.headD 0

def isDigit (c : UInt8) : Bool := decide ('0'.toUInt8 ≤ c ∧ c ≤ '9'.toUInt8)

def skipAtoi : List UInt8 → Int → Int × List UInt8
  | [], i => (i, [])
  | c :: fmt, i =>
      if isDigit c then skipAtoi fmt (i * 10 + c.toNat - '0'.toUInt8.toNat) else (i, c :: fmt)

def Flags.set (flags : Flags) (c : UInt8) : Option Flags :=
  if c = '-'.toUInt8 then some { flags with left := true }
  else if c = '+'.toUInt8 then some { flags with plus := true }
  else if c = ' '.toUInt8 then some { flags with space := true }
  else if c = '#'.toUInt8 then some { flags with special := true }
  else if c = '0'.toUInt8 then some { flags with zeropad := true }
  else none

def parseFlags : List UInt8 → Flags → Flags × List UInt8
  | [], flags => (flags, [])
  | c :: fmt, flags =>
      match flags.set c with
      | some flags => parseFlags fmt flags
      | none => (flags, c :: fmt)

def nextWord : List Arg → Option (UInt32 × List Arg)
  | .word w :: args => some (w, args)
  | _ => none

/-- `va_arg(args, char *)`; the null pointer has the length 0. -/
def nextStr : List Arg → Option (List UInt8 × List Arg)
  | .str s :: args => some (s, args)
  | .word 0 :: args => some ([], args)
  | _ => none

structure Conv where
  flags : Flags
  fieldWidth : Int
  precision : Int
  fmt : List UInt8
  args : List Arg

/-- The field width. A `*` takes an argument, but the pointer into the format
does not move on. -/
def Conv.parseWidth (v : Conv) : Option Conv :=
  if isDigit (fmtChar v.fmt) then
    let r := skipAtoi v.fmt 0
    some { v with fieldWidth := r.1, fmt := r.2 }
  else if fmtChar v.fmt = '*'.toUInt8 then
    match nextWord v.args with
    | none => none
    | some (w, args) =>
        let width := w.toInt32.toInt
        if width < 0 then
          some { v with fieldWidth := -width, flags := { v.flags with left := true }, args := args }
        else some { v with fieldWidth := width, args := args }
  else some v

/-- The precision, with the same flaw. -/
def Conv.parsePrecision (v : Conv) : Option Conv :=
  if fmtChar v.fmt = '.'.toUInt8 then
    let v := { v with fmt := v.fmt.tail }
    let v? :=
      if isDigit (fmtChar v.fmt) then
        let r := skipAtoi v.fmt 0
        some { v with precision := r.1, fmt := r.2 }
      else if fmtChar v.fmt = '*'.toUInt8 then
        match nextWord v.args with
        | none => none
        | some (w, args) => some { v with precision := w.toInt32.toInt, args := args }
      else some v
    v?.map fun v => if v.precision < 0 then { v with precision := 0 } else v
  else some v

def Conv.skipQualifier (v : Conv) : Conv :=
  if fmtChar v.fmt = 'h'.toUInt8 ∨ fmtChar v.fmt = 'l'.toUInt8 ∨ fmtChar v.fmt = 'L'.toUInt8 then
    { v with fmt := v.fmt.tail }
  else v

/-- The flags, the field width, the precision and the qualifier, behind a `%`. -/
def parseConv (fmt : List UInt8) (args : List Arg) : Option Conv :=
  let r := parseFlags fmt noFlags
  let v : Conv := { flags := r.1, fieldWidth := -1, precision := -1, fmt := r.2, args := args }
  ((v.parseWidth).bind Conv.parsePrecision).map Conv.skipQualifier

/-- `while (--size > 0) *str++ = ' ';` -/
def blanksWhile (size : Int) : List UInt8 × Int :=
  if size - 1 > 0 then
    let r := blanksWhile (size - 1)
    (' '.toUInt8 :: r.1, r.2)
  else ([], size - 1)
termination_by size.toNat

def Conv.putChar (v : Conv) (w : UInt32) : List UInt8 :=
  let (blanks, fieldWidth) :=
    if !v.flags.left then blanksWhile v.fieldWidth else ([], v.fieldWidth)
  blanks ++ [w.toUInt8] ++ (blanksWhile fieldWidth).1

def Conv.putStr (v : Conv) (s : List UInt8) : List UInt8 :=
  let len : Int := s.length
  let len := if v.precision < 0 then len else if len > v.precision then v.precision else len
  let (blanks, fieldWidth) :=
    if !v.flags.left then padWhile ' '.toUInt8 len v.fieldWidth else ([], v.fieldWidth)
  blanks ++ s.take len.toNat ++ (padWhile ' '.toUInt8 len fieldWidth).1

def Conv.putNumber (v : Conv) (base : UInt32) (out : Output) :
    Option (Output × List UInt8 × List Arg) :=
  match nextWord v.args with
  | none => none
  | some (w, args) =>
      (number w base v.fieldWidth v.precision v.flags).map fun s => (out.put s, v.fmt.tail, args)

/-- The `default` of the `switch`. At the NUL the pointer moves back, so that the
loop finds the NUL again. -/
def Conv.putOther (v : Conv) (out : Output) : Output × List UInt8 × List Arg :=
  let c := fmtChar v.fmt
  let out := if c ≠ '%'.toUInt8 then out.put ['%'.toUInt8] else out
  if c ≠ 0 then (out.put [c], v.fmt.tail, v.args) else (out, v.fmt, v.args)

/-- The `switch` over the conversion character: the output after it, the format
behind it and the arguments that are left. -/
def Conv.convert (v : Conv) (out : Output) : Option (Output × List UInt8 × List Arg) :=
  let c := fmtChar v.fmt
  if c = 'c'.toUInt8 then
    (nextWord v.args).map fun a => (out.put (v.putChar a.1), v.fmt.tail, a.2)
  else if c = 's'.toUInt8 then
    (nextStr v.args).map fun a => (out.put (v.putStr a.1), v.fmt.tail, a.2)
  else if c = 'o'.toUInt8 then v.putNumber 8 out
  else if c = 'p'.toUInt8 then
    if v.fieldWidth = -1 then
      { v with fieldWidth := 8, flags := { v.flags with zeropad := true } }.putNumber 16 out
    else v.putNumber 16 out
  else if c = 'x'.toUInt8 then { v with flags := { v.flags with small := true } }.putNumber 16 out
  else if c = 'X'.toUInt8 then v.putNumber 16 out
  else if c = 'd'.toUInt8 ∨ c = 'i'.toUInt8 then
    { v with flags := { v.flags with sign := true } }.putNumber 10 out
  else if c = 'u'.toUInt8 then v.putNumber 10 out
  else if c = 'n'.toUInt8 then
    (nextWord v.args).map fun a =>
      ({ out with stores := out.stores ++ [(a.1, out.str.length)] }, v.fmt.tail, a.2)
  else some (v.putOther out)

def directive (fmt : List UInt8) (args : List Arg) (out : Output) :
    Option (Output × List UInt8 × List Arg) :=
  (parseConv fmt args).bind fun v => v.convert out

/-! ### The format is read from its begin to its end -/

theorem parseFlags_length (fmt : List UInt8) (flags : Flags) :
    (parseFlags fmt flags).2.length ≤ fmt.length := by
  induction fmt generalizing flags with
  | nil => exact Nat.le_refl _
  | cons c fmt ih =>
      rw [parseFlags]
      split
      · exact Nat.le_succ_of_le (ih _)
      · exact Nat.le_refl _

theorem skipAtoi_length (fmt : List UInt8) (i : Int) : (skipAtoi fmt i).2.length ≤ fmt.length := by
  induction fmt generalizing i with
  | nil => exact Nat.le_refl _
  | cons c fmt ih =>
      rw [skipAtoi]
      split
      · exact Nat.le_succ_of_le (ih _)
      · exact Nat.le_refl _

theorem tail_length_le (fmt : List UInt8) : fmt.tail.length ≤ fmt.length := by
  rw [List.length_tail]
  exact Nat.sub_le _ _

theorem Conv.parseWidth_length {v v' : Conv} (h : v.parseWidth = some v') :
    v'.fmt.length ≤ v.fmt.length := by
  unfold Conv.parseWidth at h
  split at h
  · obtain rfl := Option.some.inj h
    exact skipAtoi_length _ _
  split at h
  · split at h
    · cases h
    · dsimp only at h
      split at h
      all_goals
        obtain rfl := Option.some.inj h
        exact Nat.le_refl _
  · obtain rfl := Option.some.inj h
    exact Nat.le_refl _

theorem Conv.parsePrecision_length {v v' : Conv} (h : v.parsePrecision = some v') :
    v'.fmt.length ≤ v.fmt.length := by
  unfold Conv.parsePrecision at h
  split at h
  · obtain ⟨u, hu, rfl⟩ := Option.map_eq_some_iff.mp h
    have hfmt : u.fmt.length ≤ v.fmt.tail.length := by
      split at hu
      · obtain rfl := Option.some.inj hu
        exact skipAtoi_length _ _
      split at hu
      · split at hu
        · cases hu
        · obtain rfl := Option.some.inj hu
          exact Nat.le_refl _
      · obtain rfl := Option.some.inj hu
        exact Nat.le_refl _
    have hle := Nat.le_trans hfmt (tail_length_le v.fmt)
    split
    · exact hle
    · exact hle
  · obtain rfl := Option.some.inj h
    exact Nat.le_refl _

theorem Conv.skipQualifier_length (v : Conv) : v.skipQualifier.fmt.length ≤ v.fmt.length := by
  unfold Conv.skipQualifier
  split
  · exact tail_length_le _
  · exact Nat.le_refl _

theorem parseConv_length {fmt : List UInt8} {args : List Arg} {v : Conv}
    (h : parseConv fmt args = some v) : v.fmt.length ≤ fmt.length := by
  obtain ⟨u, hu, rfl⟩ := Option.map_eq_some_iff.mp h
  obtain ⟨w, hw, hu⟩ := Option.bind_eq_some_iff.mp hu
  have hflags := parseFlags_length fmt noFlags
  have hwidth := Conv.parseWidth_length hw
  have hprecision := Conv.parsePrecision_length hu
  have hqualifier := u.skipQualifier_length
  dsimp only at hwidth
  omega

section

variable {v : Conv} {base : UInt32} {out out' : Output} {fmt' : List UInt8} {args' : List Arg}

theorem Conv.putNumber_fmt (h : v.putNumber base out = some (out', fmt', args')) :
    fmt' = v.fmt.tail := by
  unfold Conv.putNumber at h
  split at h
  · cases h
  · obtain ⟨s, -, hs⟩ := Option.map_eq_some_iff.mp h
    exact (Prod.mk.inj (Prod.mk.inj hs).2).1.symm

theorem Conv.putOther_fmt (v : Conv) (out : Output) (hnul : fmtChar v.fmt ≠ 0) :
    (v.putOther out).2.1 = v.fmt.tail := by
  unfold Conv.putOther
  dsimp only
  rw [if_pos hnul]

theorem Conv.convert_fmt (h : v.convert out = some (out', fmt', args')) (hnul : fmtChar v.fmt ≠ 0) :
    fmt' = v.fmt.tail := by
  unfold Conv.convert at h
  dsimp only at h
  by_cases hc : fmtChar v.fmt = 'c'.toUInt8
  · rw [if_pos hc] at h
    obtain ⟨a, -, ha⟩ := Option.map_eq_some_iff.mp h
    exact (Prod.mk.inj (Prod.mk.inj ha).2).1.symm
  rw [if_neg hc] at h
  by_cases hs : fmtChar v.fmt = 's'.toUInt8
  · rw [if_pos hs] at h
    obtain ⟨a, -, ha⟩ := Option.map_eq_some_iff.mp h
    exact (Prod.mk.inj (Prod.mk.inj ha).2).1.symm
  rw [if_neg hs] at h
  by_cases ho : fmtChar v.fmt = 'o'.toUInt8
  · rw [if_pos ho] at h
    exact Conv.putNumber_fmt h
  rw [if_neg ho] at h
  by_cases hp : fmtChar v.fmt = 'p'.toUInt8
  · rw [if_pos hp] at h
    by_cases hwidth : v.fieldWidth = -1
    · rw [if_pos hwidth] at h
      have hfmt := Conv.putNumber_fmt h
      exact hfmt
    · rw [if_neg hwidth] at h
      exact Conv.putNumber_fmt h
  rw [if_neg hp] at h
  by_cases hx : fmtChar v.fmt = 'x'.toUInt8
  · rw [if_pos hx] at h
    have hfmt := Conv.putNumber_fmt h
    exact hfmt
  rw [if_neg hx] at h
  by_cases hX : fmtChar v.fmt = 'X'.toUInt8
  · rw [if_pos hX] at h
    exact Conv.putNumber_fmt h
  rw [if_neg hX] at h
  by_cases hd : fmtChar v.fmt = 'd'.toUInt8 ∨ fmtChar v.fmt = 'i'.toUInt8
  · rw [if_pos hd] at h
    have hfmt := Conv.putNumber_fmt h
    exact hfmt
  rw [if_neg hd] at h
  by_cases hu : fmtChar v.fmt = 'u'.toUInt8
  · rw [if_pos hu] at h
    exact Conv.putNumber_fmt h
  rw [if_neg hu] at h
  by_cases hn : fmtChar v.fmt = 'n'.toUInt8
  · rw [if_pos hn] at h
    obtain ⟨a, -, ha⟩ := Option.map_eq_some_iff.mp h
    exact (Prod.mk.inj (Prod.mk.inj ha).2).1.symm
  rw [if_neg hn] at h
  have hother := v.putOther_fmt out hnul
  rw [Option.some.inj h] at hother
  exact hother

/-- At the NUL a conversion is none, and the pointer stays there. -/
theorem Conv.convert_nul (hnul : fmtChar v.fmt = 0) (out : Output) :
    v.convert out = some (out.put ['%'.toUInt8], v.fmt, v.args) := by
  unfold Conv.convert Conv.putOther
  rw [hnul]
  rfl

theorem Conv.convert_length (h : v.convert out = some (out', fmt', args')) :
    fmt'.length ≤ v.fmt.length := by
  by_cases hnul : fmtChar v.fmt = 0
  · rw [Conv.convert_nul hnul] at h
    rw [(Prod.mk.inj (Prod.mk.inj (Option.some.inj h)).2).1]
  · rw [Conv.convert_fmt h hnul]
    exact tail_length_le _

end

theorem directive_length {fmt fmt' : List UInt8} {args args' : List Arg} {out out' : Output}
    (h : directive fmt args out = some (out', fmt', args')) : fmt'.length ≤ fmt.length := by
  obtain ⟨v, hv, hconv⟩ := Option.bind_eq_some_iff.mp h
  exact Nat.le_trans (Conv.convert_length hconv) (parseConv_length hv)

def kvsprintfFrom (fmt : List UInt8) (args : List Arg) (out : Output) :
    Option (Output × List Arg) :=
  match fmt with
  | [] => some (out, args)
  | c :: fmt =>
      if c ≠ '%'.toUInt8 then kvsprintfFrom fmt args (out.put [c])
      else
        match _h : directive fmt args out with
        | none => none
        | some (out', fmt', args') => kvsprintfFrom fmt' args' out'
termination_by fmt.length
decreasing_by
  · exact Nat.lt_succ_self _
  · exact Nat.lt_succ_of_le (directive_length _h)

def kvsprintf (fmt : List UInt8) (args : List Arg) : Option (List UInt8) :=
  (kvsprintfFrom fmt args ⟨[], []⟩).map fun r => r.1.str

end Kboot86.Kstdio
