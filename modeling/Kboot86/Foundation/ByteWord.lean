import Mathlib.Algebra.Order.Ring.Nat
import Mathlib.Tactic.NormNum

/-!
# Little-endian words

A byte-addressed store is a function from addresses to bytes. `le16 f a` and
`le32 f a` read a little-endian word at `a`; `byteOf w k` is byte `k` of a word
and `setByteOf w k b` the word with that byte replaced. Reading a word whose
bytes are the bytes of `w` gives `w` back.
-/

namespace Kboot86

def le16 (f : Nat → UInt8) (a : Nat) : Nat := (f a).toNat + 256 * (f (a + 1)).toNat

def le32 (f : Nat → UInt8) (a : Nat) : Nat := le16 f a + 65536 * le16 f (a + 2)

def byteOf (w k : Nat) : UInt8 := UInt8.ofNat (w / 256 ^ k)

def setByteOf (w k : Nat) (b : UInt8) : Nat :=
  w / 256 ^ (k + 1) * 256 ^ (k + 1) + b.toNat * 256 ^ k + w % 256 ^ k

theorem byteOf_toNat (w k : Nat) : (byteOf w k).toNat = w / 256 ^ k % 256 := by
  rw [byteOf, UInt8.toNat_ofNat']

theorem setByteOf_lt {w k : Nat} (hw : w < 2 ^ 32) (hk : k < 4) (b : UInt8) :
    setByteOf w k b < 2 ^ 32 := by
  have hb := b.toNat_lt
  unfold setByteOf
  obtain rfl | rfl | rfl | rfl : k = 0 ∨ k = 1 ∨ k = 2 ∨ k = 3 := by omega
  all_goals norm_num
  all_goals omega

/-- A word that agrees with `w` below byte `k`, with that byte taken from `w`. -/
theorem setByteOf_byteOf_mod {v w k : Nat} (h : v % 256 ^ k = w % 256 ^ k) :
    setByteOf v k (byteOf w k) % 256 ^ (k + 1) = w % 256 ^ (k + 1) := by
  have hlow : (byteOf w k).toNat * 256 ^ k + v % 256 ^ k = w % 256 ^ (k + 1) := by
    rw [byteOf_toNat, h, Nat.mod_pow_succ, Nat.add_comm, Nat.mul_comm]
  rw [setByteOf, Nat.add_assoc, hlow, Nat.mul_add_mod_self_right, Nat.mod_mod]

theorem setByteOf_bytes {v w : Nat} (hv : v < 2 ^ 32) (hw : w < 2 ^ 32) :
    setByteOf (setByteOf (setByteOf (setByteOf v 0 (byteOf w 0)) 1 (byteOf w 1)) 2
      (byteOf w 2)) 3 (byteOf w 3) = w := by
  have hlt := fun k hk u hu => setByteOf_lt (w := u) (k := k) hu hk (byteOf w k)
  have hthree := hlt 2 (by omega) _ (hlt 1 (by omega) _ (hlt 0 (by omega) v hv))
  have hbound := hlt 3 (by omega) _ hthree
  have hzero : v % 256 ^ 0 = w % 256 ^ 0 := by rw [pow_zero, Nat.mod_one, Nat.mod_one]
  have hall := setByteOf_byteOf_mod (setByteOf_byteOf_mod (setByteOf_byteOf_mod
    (setByteOf_byteOf_mod hzero)))
  have hpow : 256 ^ (0 + 1 + 1 + 1 + 1) = 2 ^ 32 := by norm_num
  rw [hpow, Nat.mod_eq_of_lt hw, Nat.mod_eq_of_lt hbound] at hall
  exact hall

theorem le16_lt (f : Nat → UInt8) (a : Nat) : le16 f a < 2 ^ 16 := by
  have h0 := (f a).toNat_lt
  have h1 := (f (a + 1)).toNat_lt
  unfold le16
  omega

theorem le32_lt (f : Nat → UInt8) (a : Nat) : le32 f a < 2 ^ 32 := by
  have h0 := le16_lt f a
  have h1 := le16_lt f (a + 2)
  unfold le32
  omega

theorem le16_congr {f g : Nat → UInt8} {a b : Nat} (h : ∀ j < 2, f (a + j) = g (b + j)) :
    le16 f a = le16 g b := by
  have h0 := h 0 (by omega)
  have h1 := h 1 (by omega)
  simp only [Nat.add_zero] at h0
  rw [le16, le16, h0, h1]

/-- A store that holds the four bytes of a word reads as that word. -/
theorem le32_of_bytes {f : Nat → UInt8} {a w : Nat} (hw : w < 2 ^ 32)
    (h : ∀ j < 4, f (a + j) = byteOf w j) : le32 f a = w := by
  have h0 := congrArg UInt8.toNat (h 0 (by omega))
  have h1 := congrArg UInt8.toNat (h 1 (by omega))
  have h2 := congrArg UInt8.toNat (h 2 (by omega))
  have h3 := congrArg UInt8.toNat (h 3 (by omega))
  simp only [byteOf_toNat, Nat.add_zero] at h0 h1 h2 h3
  simp only [le32, le16, Nat.add_assoc]
  norm_num at h0 h1 h2 h3 ⊢
  omega

end Kboot86
