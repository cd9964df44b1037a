import Mathlib.Logic.Function.Basic

/-!
# String functions of the loader's library

`strncmp` and `strncpy` of `string.c`, over strings that are memory: functions
from an offset to a byte. Neither needs a terminating NUL. `strcmp` does; its
strings are the lists of the characters before it.
-/

namespace Kboot86

/-- `strncmp`, from character `k` on with `n` characters to go. The source
decrements `n` before it looks at a character, so the last of the `n` is never
compared. -/
def strncmpFrom (s1 s2 : Nat → UInt8) : Nat → Nat → Int
  | 0, _ => 0
  | 1, _ => 0
  | n + 2, k =>
      if s1 k = 0 then (if s2 k = 0 then 0 else -1)
      else if s2 k = 0 then 1
      else if (s1 k).toInt8 < (s2 k).toInt8 then -1
      else if (s1 k).toInt8 > (s2 k).toInt8 then 1
      else strncmpFrom s1 s2 (n + 1) (k + 1)

def strncmp (s1 s2 : Nat → UInt8) (n : Nat) : Int := strncmpFrom s1 s2 n 0

/-- `strncpy`, from character `i` on with `n` characters to go. It stops after
a NUL and leaves the rest of `dest` as it was. -/
def strncpyFrom (src : Nat → UInt8) : Nat → Nat → (Nat → UInt8) → Nat → UInt8
  | 0, _, dest => dest
  | n + 1, i, dest =>
      if src i = 0 then Function.update dest i (src i)
      else strncpyFrom src n (i + 1) (Function.update dest i (src i))

def strncpy (dest src : Nat → UInt8) (n : Nat) : Nat → UInt8 := strncpyFrom src n 0 dest

def strcmp : List UInt8 → List UInt8 → Int
  | [], s2 => if s2.isEmpty then 0 else -1
  | _ :: _, [] => 1
  | c1 :: s1, c2 :: s2 =>
      if c1.toInt8 < c2.toInt8 then -1
      else if c1.toInt8 > c2.toInt8 then 1
      else strcmp s1 s2

theorem char_eq_of_not_lt {c1 c2 : UInt8} (hlt : ¬ c1.toInt8 < c2.toInt8)
    (hgt : ¬ c1.toInt8 > c2.toInt8) : c1 = c2 :=
  congrArg Int8.toUInt8 (Int8.le_antisymm (Int8.not_lt.mp hgt) (Int8.not_lt.mp hlt))

theorem strcmp_eq_zero_iff : ∀ s1 s2 : List UInt8, strcmp s1 s2 = 0 ↔ s1 = s2
  | [], [] => iff_of_true rfl rfl
  | [], c2 :: s2 =>
      iff_of_false (by rw [strcmp, List.isEmpty_cons]; decide) (List.cons_ne_nil c2 s2).symm
  | _ :: _, [] => iff_of_false (by rw [strcmp]; decide) (List.cons_ne_nil _ _)
  | c1 :: s1, c2 :: s2 => by
      have ih := strcmp_eq_zero_iff s1 s2
      rw [strcmp, List.cons.injEq]
      by_cases hlt : c1.toInt8 < c2.toInt8
      · rw [if_pos hlt]
        exact iff_of_false (by decide) fun h => Int8.lt_irrefl (h.1 ▸ hlt)
      by_cases hgt : c1.toInt8 > c2.toInt8
      · rw [if_neg hlt, if_pos hgt]
        exact iff_of_false (by decide) fun h => Int8.lt_irrefl (h.1 ▸ hgt)
      rw [if_neg hlt, if_neg hgt, ih, char_eq_of_not_lt hlt hgt]
      exact (and_iff_right rfl).symm

/-- For a first string without a NUL, `strncmp` finds no difference when the
first `n - 1` characters agree; the last one is not looked at. -/
theorem strncmpFrom_eq_zero_iff (s1 s2 : Nat → UInt8) :
    ∀ n k, (∀ j < n, s1 (k + j) ≠ 0) →
      (strncmpFrom s1 s2 n k = 0 ↔ ∀ j, j + 1 < n → s1 (k + j) = s2 (k + j))
  | 0, _, _ => iff_of_true rfl fun j hj => absurd hj (Nat.not_lt_zero _)
  | 1, _, _ => iff_of_true rfl fun j hj => absurd hj (by omega)
  | n + 2, k, hs1 => by
      have hhead : s1 k ≠ 0 := hs1 0 (by omega)
      have hnext : ∀ j, k + 1 + j = k + (j + 1) := fun j => by omega
      have ih := strncmpFrom_eq_zero_iff s1 s2 (n + 1) (k + 1) fun j hj => by
        rw [hnext]
        exact hs1 (j + 1) (by omega)
      rw [strncmpFrom, if_neg hhead]
      by_cases hzero : s2 k = 0
      · rw [if_pos hzero]
        exact iff_of_false (by decide) fun h => hhead ((h 0 (by omega)).trans hzero)
      by_cases hlt : (s1 k).toInt8 < (s2 k).toInt8
      · rw [if_neg hzero, if_pos hlt]
        refine iff_of_false (by decide) fun h => ?_
        have heq : s1 k = s2 k := h 0 (by omega)
        exact Int8.lt_irrefl (heq ▸ hlt)
      by_cases hgt : (s1 k).toInt8 > (s2 k).toInt8
      · rw [if_neg hzero, if_neg hlt, if_pos hgt]
        refine iff_of_false (by decide) fun h => ?_
        have heq : s1 k = s2 k := h 0 (by omega)
        exact Int8.lt_irrefl (heq ▸ hgt)
      rw [if_neg hzero, if_neg hlt, if_neg hgt, ih]
      constructor
      · intro h j hj
        cases j with
        | zero => exact char_eq_of_not_lt hlt hgt
        | succ j =>
            rw [← hnext]
            exact h j (by omega)
      · intro h j hj
        rw [hnext]
        exact h (j + 1) (by omega)

theorem strncmp_eq_zero_iff {s1 s2 : Nat → UInt8} {n : Nat} (h : ∀ j < n, s1 j ≠ 0) :
    strncmp s1 s2 n = 0 ↔ ∀ j, j + 1 < n → s1 j = s2 j := by
  have hfrom := strncmpFrom_eq_zero_iff s1 s2 n 0 fun j hj => by
    rw [Nat.zero_add]
    exact h j hj
  simpa only [strncmp, Nat.zero_add] using hfrom

end Kboot86
