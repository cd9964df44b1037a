import Mathlib.Data.Nat.Bitwise
import Mathlib.Tactic.Ring

/-!
# Memory constants and the alignment test

The constants of `mm_common.h` and `paging.h`, as 32-bit values, and the
alignment test that the paging code and the ELF loader share. The mask of
`isAddrPageAligned` is `0x3ff`, so what it tests is a multiple of 1024.
-/

namespace Kboot86

def paddrMin : UInt32 := (1 : UInt32) <<< 20

def paddrMax : UInt32 := ((15 : UInt32) <<< 20) - 1

def kernelMemszMax : UInt32 := (1 : UInt32) <<< 20

def kernelPaddrMin : UInt32 := paddrMin

def kernelPaddrMax : UInt32 := paddrMax

def kernelVaddrMin : UInt32 := (1 : UInt32) <<< 20

def kernelVaddrMax : UInt32 := ((0x3ff : UInt32) <<< 22) - 1

def pageSize : UInt32 := 4096

def isAddrPageAligned (addr : UInt32) : Bool := addr &&& 0x3ff == 0

@[simp] theorem paddrMax_toNat : paddrMax.toNat = 15728639 := rfl

@[simp] theorem kernelPaddrMax_toNat : kernelPaddrMax.toNat = 15728639 := rfl

@[simp] theorem kernelVaddrMax_toNat : kernelVaddrMax.toNat = 4290772991 := rfl

@[simp] theorem kernelMemszMax_toNat : kernelMemszMax.toNat = 1048576 := rfl

@[simp] theorem pageSize_toNat : pageSize.toNat = 4096 := rfl

theorem isAddrPageAligned_iff (addr : UInt32) :
    isAddrPageAligned addr = true ↔ addr.toNat % 1024 = 0 := by
  have hmask : (addr &&& 0x3ff).toNat = addr.toNat % 1024 := by
    rw [UInt32.toNat_and]
    exact Nat.and_two_pow_sub_one_eq_mod addr.toNat 10
  rw [isAddrPageAligned, beq_iff_eq, ← UInt32.toNat_inj, hmask]
  rfl

theorem isAddrPageAligned_of_dvd {addr : UInt32} (h : addr.toNat % 4096 = 0) :
    isAddrPageAligned addr = true := by
  rw [isAddrPageAligned_iff]
  omega

end Kboot86
