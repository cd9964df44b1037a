import Kboot86.Foundation.Terminated
import Kboot86.Lib.String
import Mathlib.Data.UInt

/-!
# `strncmp` of the kernel's library

It looks at all `n` characters, but does not look at the second string when the
first has ended: a proper prefix compares equal to the longer string in one
order and less in the other.
-/

namespace Kboot86.Kernel

/-- `strncmp`, from character `k` on with `n` characters to go. -/
def strncmpFrom (s1 s2 : Nat → UInt8) : Nat → Nat → Int
  | 0, _ => 0
  | n + 1, k =>
      if s1 k = 0 then 0
      else if s2 k = 0 then 1
      else if (s2 k).toInt8 > (s1 k).toInt8 then -1
      else if (s1 k).toInt8 > (s2 k).toInt8 then 1
      else strncmpFrom s1 s2 n (k + 1)

def strncmp (s1 s2 : Nat → UInt8) (n : Nat) : Int := strncmpFrom s1 s2 n 0

def Opposite (a b : Int) : Prop := (a < 0 ∧ 0 < b) ∨ (0 < a ∧ b < 0)

/-- The comparison of the first `n` characters tells equality, and any
difference in both orders. -/
structure Antisymmetric (s1 s2 : Nat → UInt8) (n : Nat) : Prop where
  zero_iff : strncmp s1 s2 n = 0 ↔ AgreeUpTo s1 s2 n
  opposite : ¬ AgreeUpTo s1 s2 n → Opposite (strncmp s1 s2 n) (strncmp s2 s1 n)

def PrefixAt (s1 s2 : Nat → UInt8) (k : Nat) : Prop :=
  FirstDiff s1 s2 k ∧ (s1 k = 0 ∨ s2 k = 0)

section

variable {s1 s2 : Nat → UInt8} {n k : Nat}

theorem strncmpFrom_alike (s1 s2 : Nat → UInt8) (n k : Nat) (hsame : s1 k = s2 k)
    (hne : s1 k ≠ 0) : strncmpFrom s1 s2 (n + 1) k = strncmpFrom s1 s2 n (k + 1) := by
  rw [strncmpFrom, if_neg hne, if_neg (hsame ▸ hne), ← hsame, if_neg (Int8.lt_irrefl),
    if_neg (Int8.lt_irrefl)]

theorem strncmp_of_sameUpTo (h : SameUpTo s1 s2 k) (n : Nat) :
    strncmp s1 s2 (k + n) = strncmpFrom s1 s2 n k :=
  h.skip (strncmpFrom_alike s1 s2) n

def verdict (c1 c2 : UInt8) : Int :=
  if c1 = 0 then 0 else if c2 = 0 then 1 else if c2.toInt8 > c1.toInt8 then -1 else 1

theorem strncmp_of_firstDiff (h : FirstDiff s1 s2 k) (hk : k < n) :
    strncmp s1 s2 n = verdict (s1 k) (s2 k) := by
  obtain ⟨m, rfl⟩ : ∃ m, n = k + (m + 1) := ⟨n - (k + 1), by omega⟩
  rw [strncmp_of_sameUpTo h.same, strncmpFrom, verdict]
  by_cases h1 : s1 k = 0
  · rw [if_pos h1, if_pos h1]
  by_cases h2 : s2 k = 0
  · rw [if_neg h1, if_pos h2, if_neg h1, if_pos h2]
  by_cases hlt : (s2 k).toInt8 > (s1 k).toInt8
  · rw [if_neg h1, if_neg h2, if_pos hlt, if_neg h1, if_neg h2, if_pos hlt]
  · have hgt : (s1 k).toInt8 > (s2 k).toInt8 := by
      by_contra hgt
      exact h.ne (char_eq_of_not_lt hlt hgt)
    rw [if_neg h1, if_neg h2, if_neg hlt, if_pos hgt, if_neg h1, if_neg h2, if_neg hlt]

theorem strncmp_of_agree (h : AgreeUpTo s1 s2 n) : strncmp s1 s2 n = 0 := by
  rcases compare_cases s1 s2 n with hsame | ⟨e, he, hsame, h1, -⟩ | ⟨k, hk, hdiff⟩
  · exact strncmp_of_sameUpTo hsame 0
  · obtain ⟨m, rfl⟩ : ∃ m, n = e + (m + 1) := ⟨n - (e + 1), by omega⟩
    rw [strncmp_of_sameUpTo hsame, strncmpFrom, if_pos h1]
  · exact absurd h (hdiff.not_agreeUpTo hk)

/-- Two different characters are told in both orders unless one of them is the
end of its string. -/
theorem verdict_opposite_iff {c1 c2 : UInt8} (hne : c1 ≠ c2) :
    Opposite (verdict c1 c2) (verdict c2 c1) ↔ ¬ (c1 = 0 ∨ c2 = 0) := by
  unfold Opposite verdict
  by_cases h1 : c1 = 0
  · simp [h1]
  by_cases h2 : c2 = 0
  · simp [h2]
  rw [if_neg h1, if_neg h2, if_neg h2, if_neg h1]
  refine iff_of_true ?_ (not_or.mpr ⟨h1, h2⟩)
  by_cases hlt : c2.toInt8 > c1.toInt8
  · rw [if_pos hlt, if_neg fun hgt => Int8.lt_irrefl (Int8.lt_trans hlt hgt)]
    decide
  · have hgt : c1.toInt8 > c2.toInt8 := by
      by_contra hgt
      exact hne (char_eq_of_not_lt hlt hgt)
    rw [if_neg hlt, if_pos hgt]
    decide

/-- The comparison is antisymmetric when neither string ends, among the first
`n` characters, where the other goes on. -/
theorem strncmp_antisymmetric_iff (s1 s2 : Nat → UInt8) (n : Nat) :
    Antisymmetric s1 s2 n ↔ ∀ k < n, ¬ PrefixAt s1 s2 k := by
  constructor
  · rintro h k hk ⟨hdiff, hend⟩
    have hopp := h.opposite (hdiff.not_agreeUpTo hk)
    rw [strncmp_of_firstDiff hdiff hk, strncmp_of_firstDiff hdiff.symm hk] at hopp
    exact (verdict_opposite_iff hdiff.ne).mp hopp hend
  · intro h
    have hopp : ∀ k < n, FirstDiff s1 s2 k → Opposite (strncmp s1 s2 n) (strncmp s2 s1 n) := by
      intro k hk hdiff
      rw [strncmp_of_firstDiff hdiff hk, strncmp_of_firstDiff hdiff.symm hk]
      exact (verdict_opposite_iff hdiff.ne).mpr fun hend => h k hk ⟨hdiff, hend⟩
    refine ⟨⟨fun hzero => agreeUpTo_iff.mpr fun k hk hdiff => ?_, strncmp_of_agree⟩, fun hno => ?_⟩
    · have hne := hopp k hk hdiff
      rw [hzero] at hne
      exact hne.elim (fun h0 => Int.lt_irrefl 0 h0.1) fun h0 => Int.lt_irrefl 0 h0.1
    · obtain ⟨k, hk, hdiff⟩ := exists_firstDiff hno
      exact hopp k hk hdiff

end

/-- The empty string and `"a"`. -/
theorem strncmp_prefix_equal :
    ¬ Antisymmetric (fun _ => 0) (fun k => if k = 0 then 97 else 0) 5 := by
  intro h
  have hdiff : FirstDiff (fun _ => (0 : UInt8)) (fun k => if k = 0 then 97 else 0) 0 :=
    ⟨fun i hi => absurd hi (Nat.not_lt_zero i), by decide⟩
  exact hdiff.not_agreeUpTo (by decide) (h.zero_iff.mp rfl)

end Kboot86.Kernel
