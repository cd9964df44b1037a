import Mathlib.Data.BitVec

/-!
# Page directory and page table entries

`page_dir_entry_t` and `page_table_entry_t` declare the same bit-fields in the
same order, so one structure stands for both. `toWord` is the 32-bit word that
the bit-fields occupy, which is what the MMU and `paging_vaddr2paddr` read;
`ofWord` reads the bit-fields back from a word.
-/

namespace Kboot86

/-- The bit-fields of an entry, from the lowest bit on. -/
@[ext] structure PageEntry where
  present : Bool
  write : Bool
  user : Bool
  writeThrough : Bool
  cacheDisabled : Bool
  zero : BitVec 7
  paddr : BitVec 20
deriving DecidableEq

namespace PageEntry

def cleared : PageEntry := ⟨false, false, false, false, false, 0, 0⟩

def frame (e : PageEntry) : Nat := 4096 * e.paddr.toNat

def toWord (e : PageEntry) : Nat :=
  e.present.toNat + 2 * e.write.toNat + 4 * e.user.toNat + 8 * e.writeThrough.toNat +
    16 * e.cacheDisabled.toNat + 32 * e.zero.toNat + 4096 * e.paddr.toNat

def ofWord (w : Nat) : PageEntry where
  present := decide (w % 2 = 1)
  write := decide (w / 2 % 2 = 1)
  user := decide (w / 4 % 2 = 1)
  writeThrough := decide (w / 8 % 2 = 1)
  cacheDisabled := decide (w / 16 % 2 = 1)
  zero := BitVec.ofNat 7 (w / 32)
  paddr := BitVec.ofNat 20 (w / 4096)

@[simp] theorem cleared_present : cleared.present = false := rfl

theorem toWord_lt (e : PageEntry) : e.toWord < 2 ^ 32 := by
  have hp := e.present.toNat_le
  have hw := e.write.toNat_le
  have hu := e.user.toNat_le
  have ht := e.writeThrough.toNat_le
  have hc := e.cacheDisabled.toNat_le
  have hz := e.zero.isLt
  have hf := e.paddr.isLt
  unfold toWord
  omega

/-- The low twelve bits of the word are the flags, the others the frame. -/
theorem toWord_div (e : PageEntry) : e.toWord / 4096 * 4096 = e.frame := by
  have hp := e.present.toNat_le
  have hw := e.write.toNat_le
  have hu := e.user.toNat_le
  have ht := e.writeThrough.toNat_le
  have hc := e.cacheDisabled.toNat_le
  have hz := e.zero.isLt
  unfold toWord frame
  omega

theorem toWord_mod_two (e : PageEntry) : e.toWord % 2 = e.present.toNat := by
  have hp := e.present.toNat_le
  unfold toWord
  omega

theorem toWord_write (e : PageEntry) : e.toWord / 2 % 2 = e.write.toNat := by
  have hp := e.present.toNat_le
  have hw := e.write.toNat_le
  unfold toWord
  omega

theorem toWord_ofWord {w : Nat} (hw : w < 2 ^ 32) : (ofWord w).toWord = w := by
  have hbit : ∀ n : Nat, (decide (n % 2 = 1)).toNat = n % 2 := by
    intro n
    rcases Nat.mod_two_eq_zero_or_one n with h | h <;> simp [h]
  simp only [toWord, ofWord, hbit, BitVec.toNat_ofNat]
  omega

theorem ofWord_toWord (e : PageEntry) : ofWord e.toWord = e := by
  have hz := e.zero.isLt
  have hf := e.paddr.isLt
  have hbit : ∀ b : Bool, decide (b.toNat = 1) = b := by decide
  have hp := e.present.toNat_le
  have hw := e.write.toNat_le
  have hu := e.user.toNat_le
  have ht := e.writeThrough.toNat_le
  have hc := e.cacheDisabled.toNat_le
  have huser : e.toWord / 4 % 2 = e.user.toNat := by
    unfold toWord
    omega
  have hthrough : e.toWord / 8 % 2 = e.writeThrough.toNat := by
    unfold toWord
    omega
  have hcache : e.toWord / 16 % 2 = e.cacheDisabled.toNat := by
    unfold toWord
    omega
  have hzero : e.toWord / 32 % 2 ^ 7 = e.zero.toNat := by
    unfold toWord
    omega
  have hpaddr : e.toWord / 4096 % 2 ^ 20 = e.paddr.toNat := by
    unfold toWord
    omega
  ext1
  · rw [ofWord, toWord_mod_two, hbit]
  · rw [ofWord, toWord_write, hbit]
  · rw [ofWord, huser, hbit]
  · rw [ofWord, hthrough, hbit]
  · rw [ofWord, hcache, hbit]
  · exact BitVec.eq_of_toNat_eq (by rw [ofWord, BitVec.toNat_ofNat, hzero])
  · exact BitVec.eq_of_toNat_eq (by rw [ofWord, BitVec.toNat_ofNat, hpaddr])

end PageEntry

end Kboot86
