import Mathlib.Data.Nat.Bitwise
import Mathlib.Logic.Function.Basic

/-!
# Bitmaps over 32-bit words

An array of `N` words holds the bits of the numbers below `32 * N`: bit `n` is
bit `n % 32` of word `n / 32`. Setting or clearing one bit of one word changes
the bit of one number, and the first word that is not full leads to the least
number whose bit is clear.
-/

namespace Kboot86

def wordBit (w : UInt32) (j : Nat) : Bool := w.toNat.testBit j

theorem wordBit_one_shiftLeft {j : Nat} (hj : j < 32) (k : Nat) :
    wordBit ((1 : UInt32) <<< UInt32.ofNat j) k = decide (k = j) := by
  have hpow : ((1 : UInt32) <<< UInt32.ofNat j).toNat = 2 ^ j := by
    have hmod : j % 2 ^ 32 % 32 = j := by omega
    have hlt : 2 ^ j < 2 ^ 32 := Nat.pow_lt_pow_right (by omega) hj
    rw [UInt32.toNat_shiftLeft, UInt32.toNat_ofNat', hmod, UInt32.toNat_one, Nat.one_shiftLeft,
      Nat.mod_eq_of_lt hlt]
  rw [wordBit, hpow, Nat.testBit_two_pow]
  exact decide_eq_decide.mpr eq_comm

theorem wordBit_or (v w : UInt32) (k : Nat) :
    wordBit (v ||| w) k = (wordBit v k || wordBit w k) := by
  rw [wordBit, UInt32.toNat_or, Nat.testBit_or, wordBit, wordBit]

theorem wordBit_and (v w : UInt32) (k : Nat) :
    wordBit (v &&& w) k = (wordBit v k && wordBit w k) := by
  rw [wordBit, UInt32.toNat_and, Nat.testBit_and, wordBit, wordBit]

theorem wordBit_not (w : UInt32) {k : Nat} (hk : k < 32) : wordBit (~~~w) k = !wordBit w k := by
  have hsub : (~~~w).toNat = 2 ^ 32 - (w.toNat + 1) := by
    rw [UInt32.toNat_not, UInt32.size]
    omega
  rw [wordBit, hsub, Nat.testBit_two_pow_sub_succ w.toNat_lt, decide_eq_true hk, Bool.true_and,
    wordBit]

theorem word_ext {v w : UInt32} (h : ∀ k < 32, wordBit v k = wordBit w k) : v = w := by
  rw [← UInt32.toNat_inj]
  refine Nat.eq_of_testBit_eq fun k => ?_
  by_cases hk : k < 32
  · exact h k hk
  · have hpow : 2 ^ 32 ≤ 2 ^ k := Nat.pow_le_pow_right (by omega) (by omega)
    rw [Nat.testBit_lt_two_pow (lt_of_lt_of_le v.toNat_lt hpow),
      Nat.testBit_lt_two_pow (lt_of_lt_of_le w.toNat_lt hpow)]

theorem wordBit_zero (k : Nat) : wordBit 0 k = false := Nat.zero_testBit k

/-- A word that is not full has a clear bit. -/
theorem ne_full_iff (w : UInt32) : w ≠ ~~~(0 : UInt32) ↔ ∃ k < 32, wordBit w k = false := by
  have hfull : ∀ k < 32, wordBit (~~~(0 : UInt32)) k = true := fun k hk => by
    rw [wordBit_not 0 hk, wordBit_zero, Bool.not_false]
  constructor
  · intro hne
    by_contra hall
    refine hne (word_ext fun k hk => ?_)
    rw [hfull k hk, ← Bool.not_eq_false]
    exact fun hclear => hall ⟨k, hk, hclear⟩
  · rintro ⟨k, hk, hclear⟩ rfl
    rw [hfull k hk] at hclear
    cases hclear

/-- A mask of one bit meets a word in nothing exactly when the bit is clear. -/
theorem and_one_shiftLeft_ne_zero (w : UInt32) {j : Nat} (hj : j < 32) :
    (w &&& (1 : UInt32) <<< UInt32.ofNat j != 0) = wordBit w j := by
  have hbit : ∀ k, wordBit (w &&& (1 : UInt32) <<< UInt32.ofNat j) k =
      (wordBit w k && decide (k = j)) := fun k => by
    rw [wordBit_and, wordBit_one_shiftLeft hj]
  cases hw : wordBit w j with
  | true =>
      rw [bne_iff_ne]
      intro hzero
      have hj' := hbit j
      rw [hzero, hw, wordBit_zero] at hj'
      simp at hj'
  | false =>
      have hzero : (w &&& (1 : UInt32) <<< UInt32.ofNat j) = 0 := by
        refine word_ext fun k _ => ?_
        rw [hbit k, wordBit_zero]
        by_cases hk : k = j
        · rw [hk, hw, Bool.false_and]
        · rw [decide_eq_false hk, Bool.and_false]
      rw [hzero]
      rfl

section

variable {N : Nat}

/-- Bit `n` of an array of words; no bit is set beyond its end. -/
def bitAt (b : Fin N → UInt32) (n : Nat) : Bool :=
  if h : n / 32 < N then wordBit (b ⟨n / 32, h⟩) (n % 32) else false

theorem bitAt_mk (b : Fin N → UInt32) (i : Fin N) {j : Nat} (hj : j < 32) :
    bitAt b (32 * i.val + j) = wordBit (b i) j := by
  have hdiv : (32 * i.val + j) / 32 = i.val := by omega
  have hmod : (32 * i.val + j) % 32 = j := by omega
  have hlt : (32 * i.val + j) / 32 < N := by rw [hdiv]; exact i.isLt
  rw [bitAt, dif_pos hlt, hmod]
  congr 2
  exact Fin.ext hdiv

/-- A word written in which bit `j` alone may differ changes the bit of one
number. -/
theorem bitAt_update (b : Fin N → UInt32) (i : Fin N) {j : Nat} (hj : j < 32) {w : UInt32}
    (hw : ∀ k < 32, k ≠ j → wordBit w k = wordBit (b i) k) (n : Nat) :
    bitAt (Function.update b i w) n =
      if n = 32 * i.val + j then wordBit w j else bitAt b n := by
  by_cases hn : n / 32 < N
  · have hnum : n = 32 * (n / 32) + n % 32 := by omega
    have hmod : n % 32 < 32 := Nat.mod_lt _ (by omega)
    rw [bitAt, dif_pos hn, bitAt, dif_pos hn]
    by_cases hi : (⟨n / 32, hn⟩ : Fin N) = i
    · have hval : n / 32 = i.val := congrArg Fin.val hi
      rw [hi, Function.update_self]
      by_cases hk : n % 32 = j
      · rw [if_pos (by omega), hk]
      · rw [if_neg (by omega), hw _ hmod hk]
    · have hval : n / 32 ≠ i.val := fun he => hi (Fin.ext he)
      rw [Function.update_of_ne hi, if_neg (by omega)]
  · have hi := i.isLt
    rw [bitAt, dif_neg hn, bitAt, dif_neg hn, if_neg (by omega)]

/-- Behind full words, the least clear bit of a word is the least clear bit of
the array. -/
theorem bitAt_least {b : Fin N → UInt32} {i : Fin N} {j : Nat} (hj : j < 32)
    (hfull : ∀ k < i, b k = ~~~(0 : UInt32)) (hset : ∀ k < j, wordBit (b i) k = true) :
    ∀ n < 32 * i.val + j, bitAt b n = true := by
  intro n hn
  have hi := i.isLt
  have hlt : n / 32 < N := by omega
  rw [bitAt, dif_pos hlt]
  by_cases hword : n / 32 = i.val
  · have heq : (⟨n / 32, hlt⟩ : Fin N) = i := Fin.ext hword
    rw [heq]
    exact hset _ (by omega)
  · have hbefore : (⟨n / 32, hlt⟩ : Fin N) < i := Fin.mk_lt_of_lt_val (by omega)
    rw [hfull _ hbefore, wordBit_not 0 (Nat.mod_lt _ (by omega)), wordBit_zero, Bool.not_false]

theorem all_full_iff (b : Fin N → UInt32) :
    (∀ i, b i = ~~~(0 : UInt32)) ↔ ∀ n < 32 * N, bitAt b n = true := by
  constructor
  · intro hfull n hn
    have hlt : n / 32 < N := by omega
    rw [bitAt, dif_pos hlt, hfull, wordBit_not 0 (Nat.mod_lt _ (by omega)), wordBit_zero,
      Bool.not_false]
  · intro hset i
    by_contra hne
    obtain ⟨k, hk, hclear⟩ := (ne_full_iff (b i)).mp hne
    have hi := i.isLt
    have hbit := hset (32 * i.val + k) (by omega)
    rw [bitAt_mk b i hk, hclear] at hbit
    cases hbit

end

end Kboot86
