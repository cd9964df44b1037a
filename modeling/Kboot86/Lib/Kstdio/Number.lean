import Kboot86.Lib.Kstdio
import Mathlib.Data.Nat.Digits.Lemmas
import Mathlib.Tactic.IntervalCases

/-!
# The text of a number

`number` lays its text out as a head, the sign and the prefix of the base, and
a body, the digits behind the zeros of the precision. The field is filled up to
its width at one of three places. The digits are those of the magnitude, so
that the number can be read back from them.
-/

namespace Kboot86.Kstdio

def justify (type : Flags) (width : Int) (head body : List UInt8) : List UInt8 :=
  let fill := (width - (head.length + body.length)).toNat
  if type.left then head ++ body ++ List.replicate fill ' '.toUInt8
  else if type.zeropad then head ++ List.replicate fill '0'.toUInt8 ++ body
  else List.replicate fill ' '.toUInt8 ++ head ++ body

def digitsOf (small : Bool) (base n : Nat) : List UInt8 :=
  if n = 0 then ['0'.toUInt8]
  else ((Nat.digits base n).map fun d => (digitTable small).getD d 0).reverse

def readDigits (small : Bool) (base : Nat) (s : List UInt8) : Nat :=
  Nat.ofDigits base (s.reverse.map (digitTable small).idxOf)

def magnitude (num : UInt32) (type : Flags) : Nat :=
  if type.sign then num.toInt32.toInt.natAbs else num.toNat

def signText (num : UInt32) (type : Flags) : List UInt8 :=
  if type.sign ∧ num.toInt32.toInt < 0 then ['-'.toUInt8]
  else if type.plus then ['+'.toUInt8]
  else if type.space then [' '.toUInt8]
  else []

def prefixText (base : UInt32) (type : Flags) : List UInt8 :=
  if type.special then
    if base = 8 then ['0'.toUInt8]
    else if base = 16 then ['0'.toUInt8, if type.small then 'x'.toUInt8 else 'X'.toUInt8]
    else []
  else []

def withPrecision (precision : Int) (digits : List UInt8) : List UInt8 :=
  List.replicate (precision - digits.length).toNat '0'.toUInt8 ++ digits

/-! ### The loops of `number` -/

theorem padWhile_eq (c : UInt8) (bound size : Int) :
    padWhile c bound size = (List.replicate (size - bound).toNat c, min size bound - 1) := by
  induction hn : (size - bound).toNat generalizing size with
  | zero =>
      have hle : size ≤ bound := by omega
      rw [padWhile, if_neg (by omega), List.replicate_zero, min_eq_left hle]
  | succ n ih =>
      have hlt : bound < size := by omega
      rw [padWhile, if_pos hlt, ih (size - 1) (by omega), List.replicate_succ,
        min_eq_right hlt.le, min_eq_right (by omega)]

theorem tmpDigits_eq (digits : List UInt8) {base : UInt32} (hbase : 2 ≤ base.toNat) (num : UInt32) :
    tmpDigits digits base hbase num =
      (Nat.digits base.toNat num.toNat).map fun d => digits.getD d 0 := by
  induction hn : num.toNat using Nat.strong_induction_on generalizing num with
  | _ n ih =>
      subst hn
      rw [tmpDigits]
      by_cases hnum : num = 0
      · rw [dif_pos hnum, hnum, UInt32.toNat_zero, Nat.digits_zero, List.map_nil]
      · have hne : num.toNat ≠ 0 := fun h => hnum (UInt32.toNat_inj.mp h)
        rw [dif_neg hnum, ih _ (div_toNat_lt hbase hnum) (num / base) rfl,
          Nat.digits_def' (by omega) (Nat.pos_of_ne_zero hne), List.map_cons, UInt32.toNat_mod,
          UInt32.toNat_div]

/-! ### Sign and prefix -/

theorem toInt32_neg_iff (num : UInt32) : num.toInt32 < 0 ↔ num.toInt32.toInt < 0 :=
  Int32.lt_iff_toInt_lt

theorem toInt32_toInt_eq (num : UInt32) : num.toInt32.toInt =
    if 2 * num.toNat < 4294967296 then (num.toNat : Int) else num.toNat - 4294967296 :=
  BitVec.toInt_eq_toNat_cond num.toBitVec

/-- The magnitude of a negative number is what its negation is as a word. -/
theorem neg_toNat_of_neg {num : UInt32} (h : num.toInt32.toInt < 0) :
    (-num).toNat = num.toInt32.toInt.natAbs := by
  have hlt := num.toNat_lt
  have hneg : (-num).toNat = (4294967296 - num.toNat) % 4294967296 := UInt32.toNat_neg num
  rw [toInt32_toInt_eq] at h ⊢
  split at h
  · omega
  · rw [if_neg ‹_›, hneg]
    omega

theorem toNat_of_nonneg {num : UInt32} (h : ¬ num.toInt32.toInt < 0) :
    num.toNat = num.toInt32.toInt.natAbs := by
  have hlt := num.toNat_lt
  rw [toInt32_toInt_eq] at h ⊢
  split at h
  · rw [if_pos ‹_›, Int.natAbs_natCast]
  · omega

theorem magnitude_eq (num : UInt32) (type : Flags) :
    (if type.sign && num.toInt32 < 0 then -num else num).toNat = magnitude num type := by
  unfold magnitude
  cases type.sign with
  | false => rfl
  | true =>
      rw [Bool.true_and, if_pos rfl]
      by_cases hneg : num.toInt32.toInt < 0
      · rw [if_pos (by simpa [toInt32_neg_iff] using hneg), neg_toNat_of_neg hneg]
      · rw [if_neg (by simpa [toInt32_neg_iff] using hneg), toNat_of_nonneg hneg]

theorem signText_eq (num : UInt32) (type : Flags) :
    signText num type = if signChar num type ≠ 0 then [signChar num type] else [] := by
  have hneg : (type.sign && decide (num.toInt32 < 0)) = true ↔
      type.sign ∧ num.toInt32.toInt < 0 := by simp [toInt32_neg_iff]
  unfold signText signChar
  by_cases h : type.sign ∧ num.toInt32.toInt < 0
  · rw [if_pos h, if_pos (hneg.mpr h), if_pos (by decide)]
  rw [if_neg h, if_neg (hneg.not.mpr h)]
  by_cases hplus : type.plus
  · rw [if_pos hplus, if_pos hplus, if_pos (by decide)]
  rw [if_neg hplus, if_neg hplus]
  by_cases hspace : type.space
  · rw [if_pos hspace, if_pos hspace, if_pos (by decide)]
  · rw [if_neg hspace, if_neg hspace, if_neg (by decide)]

theorem tmp_reverse {base num : UInt32} (small : Bool) (hbase : 2 ≤ base.toNat) :
    (if num = 0 then ['0'.toUInt8] else tmpDigits (digitTable small) base hbase num).reverse =
      digitsOf small base.toNat num.toNat := by
  unfold digitsOf
  by_cases hnum : num = 0
  · rw [if_pos hnum, hnum]
    rfl
  · have hne : num.toNat ≠ 0 := fun h => hnum (UInt32.toNat_inj.mp h)
    rw [if_neg hnum, if_neg hne, tmpDigits_eq]

theorem writePrefix_eq (str : List UInt8) (num base : UInt32) (type : Flags) :
    writePrefix str (signChar num type) base type (digitTable type.small) =
      str ++ (signText num type ++ prefixText base type) := by
  have hmark : (digitTable type.small).getD 33 0 =
      if type.small then 'x'.toUInt8 else 'X'.toUInt8 := by
    cases type.small <;> decide
  unfold writePrefix prefixText
  rw [signText_eq, hmark]
  split_ifs <;> simp

theorem sizeBehindPrefix_eq (num base : UInt32) (size : Int) (type : Flags) :
    sizeBehindPrefix (signChar num type) base size type =
      size - (signText num type ++ prefixText base type).length := by
  have hdistinct : (8 : UInt32) ≠ 16 := by decide
  unfold sizeBehindPrefix prefixText
  rw [signText_eq]
  by_cases hsign : signChar num type ≠ 0 <;> by_cases hspecial : type.special <;>
    by_cases h8 : base = 8 <;> by_cases h16 : base = 16 <;>
    simp [hsign, hspecial, h8, h16] <;> omega

/-- The precision that the source goes on with is at least the number of digits. -/
theorem withPrecision_length (precision : Int) (digits : List UInt8) :
    ((withPrecision precision digits).length : Int) =
      if (digits.length : Int) > precision then (digits.length : Int) else precision := by
  rw [withPrecision, List.length_append, List.length_replicate]
  split <;> omega

/-- The field is filled up at the one place that the flags choose. -/
theorem writeNumber_eq (num base : UInt32) (size precision : Int) (type : Flags)
    (tmp : List UInt8) :
    writeNumber (signChar num type) base
        (size - (signText num type ++ prefixText base type).length) precision type
        (digitTable type.small) tmp =
      justify type size (signText num type ++ prefixText base type)
        (withPrecision precision tmp.reverse) := by
  have hlen := withPrecision_length precision tmp.reverse
  rw [List.length_reverse] at hlen
  unfold writeNumber justify
  dsimp only
  rw [hlen]
  simp only [padWhile_eq, writePrefix_eq]
  generalize hprecision :
    (if (tmp.length : Int) > precision then (tmp.length : Int) else precision) = p
  have hzeros : (p - tmp.length).toNat = (precision - tmp.length).toNat := by
    rw [← hprecision]
    split <;> omega
  unfold withPrecision
  rw [hzeros, List.length_reverse, Int.sub_zero, Int.sub_sub]
  generalize signText num type ++ prefixText base type = head
  by_cases hleft : type.left = true
  · simp [hleft]
  by_cases hzeropad : type.zeropad = true
  · simp [hleft, hzeropad, ← List.append_assoc]
  · simp [hleft, hzeropad]

/-- The flag for zeros has no effect beside the one for the left. -/
theorem justify_left {type : Flags} (hleft : type.left = true) (width : Int)
    (head body : List UInt8) :
    justify { type with zeropad := false } width head body = justify type width head body := by
  unfold justify
  dsimp only
  rw [if_pos hleft, if_pos hleft]

theorem number_eq {num base : UInt32} (size precision : Int) (type : Flags)
    (hbase : 2 ≤ base.toNat ∧ base.toNat ≤ 36) :
    number num base size precision type =
      some (justify type size (signText num type ++ prefixText base type)
        (withPrecision precision (digitsOf type.small base.toNat (magnitude num type)))) := by
  have hwrite := fun type => writeNumber_eq num base size precision type
    (if (if type.sign && num.toInt32 < 0 then -num else num) = 0 then ['0'.toUInt8]
      else tmpDigits (digitTable type.small) base hbase.1
        (if type.sign && num.toInt32 < 0 then -num else num))
  simp only [tmp_reverse, magnitude_eq] at hwrite
  unfold number
  dsimp only
  rw [dif_pos hbase, sizeBehindPrefix_eq]
  by_cases hleft : type.left = true
  · rw [if_pos hleft, ← justify_left hleft]
    exact congrArg some (hwrite { type with zeropad := false })
  · rw [if_neg hleft]
    exact congrArg some (hwrite type)

/-! ### Reading the digits -/

section

variable {small : Bool} {base n : Nat}

theorem idxOf_digitTable {d : Nat} (small : Bool) (hd : d < 36) :
    (digitTable small).idxOf ((digitTable small).getD d 0) = d := by
  have hall : ∀ small, ∀ d < 36, (digitTable small).idxOf ((digitTable small).getD d 0) = d := by
    decide
  exact hall small d hd

theorem readDigits_digitsOf (small : Bool) (n : Nat) (hbase : 2 ≤ base ∧ base ≤ 36) :
    readDigits small base (digitsOf small base n) = n := by
  unfold readDigits digitsOf
  by_cases hn : n = 0
  · rw [if_pos hn, hn]
    cases small <;> exact Nat.ofDigits_singleton
  have hdigits : ((Nat.digits base n).map fun d => (digitTable small).getD d 0).map
      (digitTable small).idxOf = Nat.digits base n := by
    rw [List.map_map]
    conv_rhs => rw [← List.map_id (Nat.digits base n)]
    refine List.map_congr_left fun d hd => ?_
    exact idxOf_digitTable small (lt_of_lt_of_le (Nat.digits_lt_base (by omega) hd) hbase.2)
  rw [if_neg hn, List.reverse_reverse, hdigits, Nat.ofDigits_digits]

theorem readDigits_withPrecision (precision : Int) (s : List UInt8) :
    readDigits small base (withPrecision precision s) = readDigits small base s := by
  have hzero : (digitTable small).idxOf '0'.toUInt8 = 0 := by cases small <;> decide
  rw [withPrecision, readDigits, List.reverse_append, List.map_append, List.reverse_replicate,
    List.map_replicate, hzero, Nat.ofDigits_append_replicate_zero]
  rfl

theorem digitsOf_length_le (small : Bool) (hbase : 2 ≤ base) {k : Nat} (hk : 0 < k)
    (hn : n < base ^ k) : (digitsOf small base n).length ≤ k := by
  unfold digitsOf
  split
  · exact hk
  · rw [List.length_reverse, List.length_map, Nat.digits_length_le_iff (by omega)]
    exact hn

/-- A number of 32 bits has at most 32 digits, whatever the base. -/
theorem digitsOf_length_le_word (small : Bool) (hbase : 2 ≤ base) (hn : n < 4294967296) :
    (digitsOf small base n).length ≤ 32 :=
  digitsOf_length_le small hbase (by decide) <|
    calc n < 2 ^ 32 := hn
      _ ≤ base ^ 32 := Nat.pow_le_pow_left hbase 32

theorem digitsOf_length_pos (small : Bool) (base n : Nat) : 0 < (digitsOf small base n).length := by
  unfold digitsOf
  split
  · exact Nat.one_pos
  · rename_i hn
    rw [List.length_reverse, List.length_map, List.length_pos_iff]
    exact fun h => hn (Nat.digits_eq_nil_iff_eq_zero.mp h)

theorem head_digitsOf (hbase : 2 ≤ base ∧ base ≤ 36) (hn : n ≠ 0) :
    (digitsOf small base n).head? ≠ some '0'.toUInt8 := by
  have hne : Nat.digits base n ≠ [] := fun h => hn (Nat.digits_eq_nil_iff_eq_zero.mp h)
  have hlast := Nat.getLast_digit_ne_zero base hn
  have hlt : (Nat.digits base n).getLast hne < 36 :=
    lt_of_lt_of_le (Nat.digits_lt_base (by omega) (List.getLast_mem hne)) hbase.2
  have hzero : (digitTable small).idxOf '0'.toUInt8 = 0 := by cases small <;> decide
  unfold digitsOf
  rw [if_neg hn, List.head?_reverse, List.getLast?_map, List.getLast?_eq_some_getLast hne]
  intro h
  have hidx := idxOf_digitTable small hlt
  rw [Option.map_some] at h
  rw [Option.some.inj h, hzero] at hidx
  exact hlast hidx.symm

end

theorem magnitude_lt (num : UInt32) (type : Flags) : magnitude num type < 4294967296 := by
  rw [← magnitude_eq]
  exact UInt32.toNat_lt _

theorem justify_length (type : Flags) (width : Int) (head body : List UInt8) :
    ((justify type width head body).length : Int) = max width (head.length + body.length) := by
  unfold justify
  dsimp only
  split_ifs <;> simp only [List.length_append, List.length_replicate, Nat.cast_add] <;> omega

theorem justify_of_nonpos (type : Flags) {width : Int} (h : width ≤ 0) (head body : List UInt8) :
    justify type width head body = head ++ body := by
  have hfill : (width - (head.length + body.length)).toNat = 0 := by omega
  unfold justify
  dsimp only
  rw [hfill]
  split_ifs <;> simp

/-- What `number` writes for a base from 2 to 36: a field of the width, or as
long as the number is, with the sign, the prefix, and digits that the magnitude
can be read back from. There are at least as many as the precision asks for,
and before the zeros of the precision no more than `tmp` has room for. -/
theorem number_text (num : UInt32) {base : UInt32} (size precision : Int) (type : Flags)
    (hbase : 2 ≤ base.toNat ∧ base.toNat ≤ 36) :
    ∃ digits : List UInt8,
      number num base size precision type = some (justify type size
        (signText num type ++ prefixText base type) (withPrecision precision digits)) ∧
      readDigits type.small base.toNat (withPrecision precision digits) = magnitude num type ∧
      0 < digits.length ∧ digits.length ≤ 32 ∧
      (magnitude num type ≠ 0 → digits.head? ≠ some '0'.toUInt8) ∧
      ((justify type size (signText num type ++ prefixText base type)
        (withPrecision precision digits)).length : Int) =
        max size ((signText num type ++ prefixText base type).length +
          max (digits.length : Int) precision) := by
  refine ⟨digitsOf type.small base.toNat (magnitude num type), number_eq size precision type hbase,
    ?_, digitsOf_length_pos _ _ _, digitsOf_length_le_word _ hbase.1 (magnitude_lt num type),
    head_digitsOf hbase, ?_⟩
  · rw [readDigits_withPrecision, readDigits_digitsOf _ _ hbase]
  · rw [justify_length, withPrecision_length]
    congr 2
    split <;> omega

/-- `%#8x` of 255. -/
theorem number_text_sample :
    ∃ digits : List UInt8,
      number 255 16 8 (-1) { noFlags with special := true, small := true } =
        some (justify { noFlags with special := true, small := true } 8
          (signText 255 { noFlags with special := true, small := true } ++
            prefixText 16 { noFlags with special := true, small := true })
          (withPrecision (-1) digits)) ∧
      readDigits true 16 (withPrecision (-1) digits) = 255 := by
  have hbase : 2 ≤ (16 : UInt32).toNat ∧ (16 : UInt32).toNat ≤ 36 := by decide
  obtain ⟨digits, htext, hread, -⟩ := number_text 255 8 (-1)
    { noFlags with special := true, small := true } hbase
  exact ⟨digits, htext, hread⟩

end Kboot86.Kstdio
