import Mathlib.Algebra.Notation.Defs

/-!
# Terminated sequences

A string is a sequence that ends with its first zero; what comes after it does
not belong to it. Two strings are compared up to a bound: they agree, or there
is a first position at which they differ.
-/

namespace Kboot86

variable {α : Type*} [Zero α]

def SameUpTo (s1 s2 : Nat → α) (k : Nat) : Prop :=
  ∀ i < k, s1 i = s2 i ∧ s1 i ≠ 0

structure FirstDiff (s1 s2 : Nat → α) (k : Nat) : Prop where
  same : SameUpTo s1 s2 k
  ne : s1 k ≠ s2 k

/-- The first `n` elements agree, or those up to and including a common
terminator do. -/
def AgreeUpTo (s1 s2 : Nat → α) (n : Nat) : Prop :=
  (∀ j < n, s1 j = s2 j) ∨ ∃ e < n, s1 e = 0 ∧ ∀ j ≤ e, s1 j = s2 j

variable {s1 s2 : Nat → α} {k n : Nat}

theorem SameUpTo.symm (h : SameUpTo s1 s2 k) : SameUpTo s2 s1 k := fun i hi =>
  ⟨(h i hi).1.symm, (h i hi).1 ▸ (h i hi).2⟩

theorem FirstDiff.symm (h : FirstDiff s1 s2 k) : FirstDiff s2 s1 k :=
  ⟨h.same.symm, h.ne.symm⟩

/-- A comparison that goes on over an element that both have comes to `k`; its
first argument counts what is left, its second one is the position. -/
theorem SameUpTo.skip {β : Type*} {f : Nat → Nat → β} (h : SameUpTo s1 s2 k)
    (hf : ∀ n i, s1 i = s2 i → s1 i ≠ 0 → f (n + 1) i = f n (i + 1)) (n : Nat) :
    f (k + n) 0 = f n k := by
  induction k generalizing n with
  | zero => rw [Nat.zero_add]
  | succ k ih =>
      obtain ⟨hsame, hne⟩ := h k (Nat.lt_succ_self k)
      have hbefore : SameUpTo s1 s2 k := fun i hi => h i (Nat.lt_succ_of_lt hi)
      rw [Nat.add_right_comm k 1 n, Nat.add_assoc k n 1, ih hbefore (n + 1), hf n k hsame hne]

/-- The three ways in which a comparison of `n` elements ends. -/
theorem compare_cases (s1 s2 : Nat → α) (n : Nat) :
    SameUpTo s1 s2 n ∨ (∃ e < n, SameUpTo s1 s2 e ∧ s1 e = 0 ∧ s2 e = 0) ∨
      ∃ k < n, FirstDiff s1 s2 k := by
  induction n with
  | zero => exact .inl fun i hi => absurd hi (Nat.not_lt_zero i)
  | succ n ih =>
      rcases ih with hsame | ⟨e, he, hend⟩ | ⟨k, hk, hdiff⟩
      · by_cases hne : s1 n = s2 n
        · by_cases hzero : s1 n = 0
          · exact .inr (.inl ⟨n, Nat.lt_succ_self n, hsame, hzero, hne ▸ hzero⟩)
          · refine .inl fun i hi => ?_
            rcases Nat.lt_succ_iff_lt_or_eq.mp hi with hlt | rfl
            · exact hsame i hlt
            · exact ⟨hne, hzero⟩
        · exact .inr (.inr ⟨n, Nat.lt_succ_self n, hsame, hne⟩)
      · exact .inr (.inl ⟨e, Nat.lt_succ_of_lt he, hend⟩)
      · exact .inr (.inr ⟨k, Nat.lt_succ_of_lt hk, hdiff⟩)

theorem FirstDiff.not_agreeUpTo (h : FirstDiff s1 s2 k) (hk : k < n) :
    ¬ AgreeUpTo s1 s2 n := by
  rintro (hall | ⟨e, -, hzero, hall⟩)
  · exact h.ne (hall k hk)
  · rcases Nat.lt_or_ge e k with hek | hke
    · exact (h.same e hek).2 hzero
    · exact h.ne (hall k hke)

theorem SameUpTo.agreeUpTo (h : SameUpTo s1 s2 n) : AgreeUpTo s1 s2 n :=
  .inl fun j hj => (h j hj).1

theorem SameUpTo.agreeUpTo_of_end {e : Nat} (h : SameUpTo s1 s2 e) (he : e < n)
    (h1 : s1 e = 0) (h2 : s2 e = 0) : AgreeUpTo s1 s2 n := by
  refine .inr ⟨e, he, h1, fun j hj => ?_⟩
  rcases Nat.lt_or_eq_of_le hj with hlt | rfl
  · exact (h j hlt).1
  · exact h1.trans h2.symm

theorem exists_firstDiff (h : ¬ AgreeUpTo s1 s2 n) : ∃ k < n, FirstDiff s1 s2 k := by
  rcases compare_cases s1 s2 n with hsame | ⟨e, he, hsame, h1, h2⟩ | hdiff
  · exact absurd hsame.agreeUpTo h
  · exact absurd (hsame.agreeUpTo_of_end he h1 h2) h
  · exact hdiff

theorem agreeUpTo_iff : AgreeUpTo s1 s2 n ↔ ∀ k < n, ¬ FirstDiff s1 s2 k := by
  refine ⟨fun h k hk hdiff => hdiff.not_agreeUpTo hk h, fun h => Classical.byContradiction ?_⟩
  intro hno
  obtain ⟨k, hk, hdiff⟩ := exists_firstDiff hno
  exact h k hk hdiff

end Kboot86
