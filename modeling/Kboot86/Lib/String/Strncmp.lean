import Kboot86.Foundation.Terminated
import Kboot86.Lib.String
import Mathlib.Algebra.Order.Group.Unbundled.Int
import Mathlib.Data.UInt

/-!
# `strncmp` of the loader's library

A comparison of `n` characters finds the first difference among them, tells its
sign, and reads nothing behind them. The loop decrements `n` before it looks at
a character, so the last of the `n` is not compared; and a string that ends is
taken for the smaller one, also against a negative character.
-/

namespace Kboot86

/-- `strncmp`, from character `k` on, with the characters that it reads: `inl`
of the first string, `inr` of the second. -/
def strncmpLogFrom (s1 s2 : Nat → UInt8) : Nat → Nat → List (Nat ⊕ Nat) × Int
  | 0, _ => ([], 0)
  | 1, _ => ([], 0)
  | n + 2, k =>
      if s1 k = 0 then ([.inl k, .inr k], if s2 k = 0 then 0 else -1)
      else if s2 k = 0 then ([.inl k, .inr k], 1)
      else if (s1 k).toInt8 < (s2 k).toInt8 then ([.inl k, .inr k, .inl k, .inr k], -1)
      else if (s1 k).toInt8 > (s2 k).toInt8 then
        ([.inl k, .inr k, .inl k, .inr k, .inl k, .inr k], 1)
      else
        let r := strncmpLogFrom s1 s2 (n + 1) (k + 1)
        ([.inl k, .inr k, .inl k, .inr k, .inl k, .inr k] ++ r.1, r.2)

def strncmpReads (s1 s2 : Nat → UInt8) (n : Nat) : List (Nat ⊕ Nat) :=
  (strncmpLogFrom s1 s2 n 0).1

def charDiff (c1 c2 : UInt8) : Int := c1.toInt8.toInt - c2.toInt8.toInt

/-- One of the two strings ends where the other has a negative character. -/
def EndsAgainstNegative (c1 c2 : UInt8) : Prop := (c1 = 0 ∧ c2 ≥ 0x80) ∨ (c2 = 0 ∧ c1 ≥ 0x80)

/-- What a comparison of the first `n` characters is to do. -/
structure StrncmpRight (s1 s2 : Nat → UInt8) (n : Nat) : Prop where
  zero_iff : strncmp s1 s2 n = 0 ↔ AgreeUpTo s1 s2 n
  sign : ∀ k < n, FirstDiff s1 s2 k → strncmp s1 s2 n = (charDiff (s1 k) (s2 k)).sign
  reads : ∀ k, .inl k ∈ strncmpReads s1 s2 n ∨ .inr k ∈ strncmpReads s1 s2 n → k < n

section

variable {s1 s2 : Nat → UInt8} {n k : Nat}

theorem strncmpLogFrom_snd (s1 s2 : Nat → UInt8) :
    ∀ n k, (strncmpLogFrom s1 s2 n k).2 = strncmpFrom s1 s2 n k
  | 0, _ => rfl
  | 1, _ => rfl
  | n + 2, k => by
      rw [strncmpLogFrom, strncmpFrom]
      split
      · rfl
      split
      · rfl
      split
      · rfl
      split
      · rfl
      exact strncmpLogFrom_snd s1 s2 (n + 1) (k + 1)

theorem strncmpLogFrom_reads (s1 s2 : Nat → UInt8) :
    ∀ n k j, .inl j ∈ (strncmpLogFrom s1 s2 n k).1 ∨ .inr j ∈ (strncmpLogFrom s1 s2 n k).1 →
      k ≤ j ∧ j + 1 < k + n
  | 0, _, _, h => by simp [strncmpLogFrom] at h
  | 1, _, _, h => by simp [strncmpLogFrom] at h
  | n + 2, k, j, h => by
      have hhere : j = k → k ≤ j ∧ j + 1 < k + (n + 2) := fun hj => by omega
      rw [strncmpLogFrom] at h
      split at h
      · exact hhere (by simpa using h)
      split at h
      · exact hhere (by simpa using h)
      split at h
      · exact hhere (by simpa using h)
      split at h
      · exact hhere (by simpa using h)
      simp only [List.cons_append, List.nil_append, List.mem_cons, Sum.inl.injEq, reduceCtorEq,
        Sum.inr.injEq, false_or] at h
      by_cases hj : j = k
      · exact hhere hj
      · have hlater := strncmpLogFrom_reads s1 s2 (n + 1) (k + 1) j (by simpa [hj] using h)
        omega

theorem strncmpReads_lt (h : .inl k ∈ strncmpReads s1 s2 n ∨ .inr k ∈ strncmpReads s1 s2 n) :
    k < n := by
  have hk := (strncmpLogFrom_reads s1 s2 n 0 k h).2
  omega

theorem strncmpFrom_alike (s1 s2 : Nat → UInt8) (n k : Nat) (hsame : s1 k = s2 k)
    (hne : s1 k ≠ 0) : strncmpFrom s1 s2 (n + 2) k = strncmpFrom s1 s2 (n + 1) (k + 1) := by
  rw [strncmpFrom, if_neg hne, if_neg (hsame ▸ hne), ← hsame, if_neg (Int8.lt_irrefl),
    if_neg (Int8.lt_irrefl)]

theorem SameUpTo.strncmp (h : SameUpTo s1 s2 k) (n : Nat) :
    strncmp s1 s2 (k + n + 1) = strncmpFrom s1 s2 (n + 1) k :=
  h.skip (f := fun n k => strncmpFrom s1 s2 (n + 1) k) (strncmpFrom_alike s1 s2) n

def verdict (c1 c2 : UInt8) : Int :=
  if c1 = 0 then -1 else if c2 = 0 then 1 else if c1.toInt8 < c2.toInt8 then -1 else 1

theorem verdict_ne_zero (c1 c2 : UInt8) : verdict c1 c2 ≠ 0 := by
  unfold verdict
  split_ifs <;> decide

theorem FirstDiff.strncmp (h : FirstDiff s1 s2 k) (hk : k + 1 < n) :
    strncmp s1 s2 n = verdict (s1 k) (s2 k) := by
  obtain ⟨m, rfl⟩ : ∃ m, n = k + (m + 1) + 1 := ⟨n - (k + 2), by omega⟩
  rw [h.same.strncmp, strncmpFrom, verdict]
  by_cases h1 : s1 k = 0
  · rw [if_pos h1, if_neg fun h2 => h.ne (h1.trans h2.symm), if_pos h1]
  by_cases h2 : s2 k = 0
  · rw [if_neg h1, if_pos h2, if_neg h1, if_pos h2]
  by_cases hlt : (s1 k).toInt8 < (s2 k).toInt8
  · rw [if_neg h1, if_neg h2, if_pos hlt, if_neg h1, if_neg h2, if_pos hlt]
  · have hgt : (s1 k).toInt8 > (s2 k).toInt8 := by
      by_contra hgt
      exact h.ne (char_eq_of_not_lt hlt hgt)
    rw [if_neg h1, if_neg h2, if_neg hlt, if_pos hgt, if_neg h1, if_neg h2, if_neg hlt]

/-- A difference at the last of the `n` characters is not seen. -/
theorem SameUpTo.strncmp_succ (h : SameUpTo s1 s2 k) : Kboot86.strncmp s1 s2 (k + 1) = 0 :=
  h.strncmp 0

theorem strncmp_of_agree (h : AgreeUpTo s1 s2 n) : strncmp s1 s2 n = 0 := by
  rcases compare_cases s1 s2 n with hsame | ⟨e, he, hsame, h1, h2⟩ | ⟨k, hk, hdiff⟩
  · cases n with
    | zero => rfl
    | succ n => exact SameUpTo.strncmp_succ fun i hi => hsame i (Nat.lt_succ_of_lt hi)
  · obtain ⟨m, rfl⟩ : ∃ m, n = e + m + 1 := ⟨n - (e + 1), by omega⟩
    rw [hsame.strncmp]
    cases m with
    | zero => rfl
    | succ m => rw [strncmpFrom, if_pos h1, if_pos h2]
  · exact absurd h (hdiff.not_agreeUpTo hk)

theorem toInt8_toInt (c : UInt8) :
    c.toInt8.toInt = if c.toNat < 128 then (c.toNat : Int) else c.toNat - 256 := by
  have h : c.toInt8.toInt = c.toBitVec.toInt := rfl
  have hlt := c.toNat_lt
  rw [h, BitVec.toInt_eq_toNat_cond, UInt8.toNat_toBitVec]
  split_ifs <;> omega

theorem sign_charDiff {c1 c2 : UInt8} (hne : c1 ≠ c2) :
    (charDiff c1 c2).sign = if c1.toInt8 < c2.toInt8 then -1 else 1 := by
  have hne' : c1.toInt8.toInt ≠ c2.toInt8.toInt := fun h =>
    hne (congrArg Int8.toUInt8 (Int8.toInt_inj.mp h))
  unfold charDiff
  split
  · rename_i hlt
    have hlt' := Int8.lt_iff_toInt_lt.mp hlt
    exact Int.sign_eq_neg_one_iff_neg.mpr (by omega)
  · rename_i hlt
    have hge := mt Int8.lt_iff_toInt_lt.mpr hlt
    exact Int.sign_eq_one_iff_pos.mpr (by omega)

/-- A NUL is less than the characters below `0x80`, and greater than the others. -/
theorem zero_lt_toInt8_iff {c : UInt8} (hc : c ≠ 0) :
    (0 : UInt8).toInt8 < c.toInt8 ↔ ¬ c ≥ 0x80 := by
  have hc' : c.toNat ≠ 0 := fun h => hc (UInt8.toNat_inj.mp h)
  have hzero : (0 : UInt8).toInt8.toInt = 0 := rfl
  have hsmall : (0x80 : UInt8).toNat = 128 := rfl
  rw [Int8.lt_iff_toInt_lt, hzero, toInt8_toInt, ge_iff_le, UInt8.le_iff_toNat_le, hsmall]
  have hlt := c.toNat_lt
  split_ifs <;> omega

theorem verdict_eq_sign_iff {c1 c2 : UInt8} (hne : c1 ≠ c2) :
    verdict c1 c2 = (charDiff c1 c2).sign ↔ ¬ EndsAgainstNegative c1 c2 := by
  have hflip : ((1 : Int) = if c1.toInt8 < c2.toInt8 then -1 else 1) ↔
      ¬ c1.toInt8 < c2.toInt8 := by
    split <;> simp [*]
  have hkeep : ((-1 : Int) = if c1.toInt8 < c2.toInt8 then -1 else 1) ↔
      c1.toInt8 < c2.toInt8 := by
    split <;> simp [*]
  rw [sign_charDiff hne, verdict, EndsAgainstNegative]
  by_cases h1 : c1 = 0
  · subst h1
    rw [if_pos rfl, hkeep, zero_lt_toInt8_iff hne.symm]
    simp [hne.symm]
  by_cases h2 : c2 = 0
  · subst h2
    have hswap : ¬ c1.toInt8 < (0 : UInt8).toInt8 ↔ (0 : UInt8).toInt8 < c1.toInt8 := by
      refine ⟨fun hle => ?_, fun hlt hgt => Int8.lt_irrefl (Int8.lt_trans hlt hgt)⟩
      by_contra hge
      exact h1 (char_eq_of_not_lt hle hge)
    rw [if_neg h1, if_pos rfl, hflip, hswap, zero_lt_toInt8_iff h1]
    simp [h1]
  · rw [if_neg h1, if_neg h2]
    simp [h1, h2]

/-- The comparison is right when it sees the first difference, and this is not
the end of one string against a negative character. -/
theorem strncmp_right_iff (s1 s2 : Nat → UInt8) (n : Nat) :
    StrncmpRight s1 s2 n ↔
      ∀ k < n, FirstDiff s1 s2 k → k + 1 < n ∧ ¬ EndsAgainstNegative (s1 k) (s2 k) := by
  constructor
  · intro h k hk hdiff
    have hseen : k + 1 < n := by
      by_contra hlast
      obtain rfl : n = k + 1 := by omega
      exact hdiff.not_agreeUpTo hk (h.zero_iff.mp hdiff.same.strncmp_succ)
    have hsign := h.sign k hk hdiff
    rw [hdiff.strncmp hseen] at hsign
    exact ⟨hseen, (verdict_eq_sign_iff hdiff.ne).mp hsign⟩
  · intro h
    refine ⟨⟨fun hzero => ?_, strncmp_of_agree⟩, fun k hk hdiff => ?_, fun _ => strncmpReads_lt⟩
    · refine agreeUpTo_iff.mpr fun k hk hdiff => ?_
      rw [hdiff.strncmp (h k hk hdiff).1] at hzero
      exact verdict_ne_zero _ _ hzero
    · obtain ⟨hseen, hends⟩ := h k hk hdiff
      rw [hdiff.strncmp hseen]
      exact (verdict_eq_sign_iff hdiff.ne).mpr hends

end

/-- The strings `"a"` and `"b"`, of which one character is compared. -/
theorem strncmp_last_ignored :
    ¬ StrncmpRight (fun k => if k = 0 then 97 else 0) (fun k => if k = 0 then 98 else 0) 1 := by
  intro h
  have hdiff : FirstDiff (fun k => if k = 0 then (97 : UInt8) else 0)
      (fun k => if k = 0 then 98 else 0) 0 := ⟨fun i hi => absurd hi (Nat.not_lt_zero i), by decide⟩
  exact hdiff.not_agreeUpTo Nat.one_pos (h.zero_iff.mp rfl)

end Kboot86
