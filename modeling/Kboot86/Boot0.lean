import Kboot86.Boot1
import Mathlib.Data.UInt

/-!
# The first stage of the boot loader

`boot0.asm` reads the sectors behind its own, one by one, to where the second
stage runs. The loop compares the sector number as a signed byte.
-/

namespace Kboot86.Boot0

open Boot1 (Mem Floppy phys deliver)

def firstSector2Load : UInt8 := 2

def numSectors2Load : UInt8 := 8

def sectorNumMax : UInt8 := numSectors2Load + firstSector2Load - 1

def sectorSize : Nat := 512

def bufSeg : UInt16 := 0x9000

abbrev Int13 := UInt8 → UInt8 → UInt8 → UInt8 → Option (Nat → UInt8)

/-- The variables of `read_sector` and the digit that is printed next, which lie
in the first stage, and the memory. -/
structure State where
  sectorNum : UInt8
  sectorNumStr : UInt8
  bufOff : UInt16
  mem : Mem

def initial (mem : Mem) : State := ⟨firstSector2Load, firstSector2Load + '0'.toUInt8, 0, mem⟩

/-- `read_sector`; there is no state after an error, which hangs. -/
def readSector (int13 : Int13) (s : State) : Option State :=
  match int13 1 0 s.sectorNum 0 with
  | none => none
  | some sector =>
      some
        { sectorNum := s.sectorNum + 1
          sectorNumStr := s.sectorNum + 1 + '0'.toUInt8
          bufOff := s.bufOff + 512
          mem := deliver sectorSize sector (phys bufSeg s.bufOff) s.mem }

theorem readSector_sectorNum {int13 : Int13} {s s' : State} (h : readSector int13 s = some s') :
    s'.sectorNum = s.sectorNum + 1 := by
  rw [readSector] at h
  split at h
  · cases h
  · cases h
    rfl

theorem left_lt {x : UInt8} (h : (x + 1).toInt8 ≤ sectorNumMax.toInt8) :
    (sectorNumMax - (x + 1)).toNat < (sectorNumMax - x).toNat := by
  have hmax : sectorNumMax.toNat = 9 := rfl
  have hone : (1 : UInt8).toNat = 1 := rfl
  have hlt := x.toNat_lt
  have hne : x.toNat ≠ 9 := fun hx => by
    obtain rfl : x = 9 := UInt8.toNat_inj.mp hx
    revert h
    decide
  rw [UInt8.toNat_sub, UInt8.toNat_sub, UInt8.toNat_add, hmax, hone]
  omega

def repeatSectorRead (int13 : Int13) (s : State) : Option State :=
  match hread : readSector int13 s with
  | none => none
  | some s' =>
      if h : s'.sectorNum.toInt8 ≤ sectorNumMax.toInt8 then repeatSectorRead int13 s' else some s'
termination_by (sectorNumMax - s.sectorNum).toNat
decreasing_by
  rw [readSector_sectorNum hread] at h ⊢
  exact left_lt h

/-! ### What is loaded -/

def Reads (int13 : Int13) (floppy : Floppy) : Prop :=
  ∀ al ch cl dh : UInt8, 0 < al → ch < 80 → dh < 2 → 0 < cl → cl.toNat + al.toNat ≤ 19 →
    int13 al ch cl dh = some fun j => floppy ch dh ((cl.toNat - 1) * sectorSize + j)

section

variable {int13 : Int13} {floppy : Floppy} {mem : Mem} {s : State} {k : Nat}

/-- Before sector `k` of those to be loaded: the ones before it are in memory,
and what lies below them and behind the first stage is as it was. -/
structure Loaded (floppy : Floppy) (mem : Mem) (k : Nat) (s : State) : Prop where
  num : s.sectorNum.toNat = k + 2
  off : s.bufOff.toNat = k * sectorSize
  sectors : ∀ i < k * sectorSize, s.mem (0x90000 + i) = floppy 0 0 (sectorSize + i)
  rest : ∀ a, 0x7e00 ≤ a → a < 0x90000 → s.mem a = mem a

theorem initial_loaded (floppy : Floppy) (mem : Mem) : Loaded floppy mem 0 (initial mem) where
  num := rfl
  off := rfl
  sectors i hi := absurd hi (by omega)
  rest _ _ _ := rfl

theorem readSector_loaded (hbios : Reads int13 floppy) (h : Loaded floppy mem k s) (hk : k < 8) :
    ∃ s', readSector int13 s = some s' ∧ Loaded floppy mem (k + 1) s' := by
  have hsize : sectorSize = 512 := rfl
  have hone : (1 : UInt8).toNat = 1 := rfl
  have hstep : (512 : UInt16).toNat = 512 := rfl
  have hnum := h.num
  have hoff := h.off
  have hbase : phys bufSeg s.bufOff = 0x90000 + k * sectorSize := by
    rw [phys, hoff]
    rfl
  have hnext : (k + 1) * sectorSize = k * sectorSize + sectorSize := Nat.succ_mul k sectorSize
  have hle : k * sectorSize ≤ 7 * sectorSize := Nat.mul_le_mul_right _ (by omega)
  have hfirst : 0 < s.sectorNum := UInt8.lt_iff_toNat_lt.mpr (by
    rw [hnum]
    exact Nat.succ_pos _)
  rw [readSector, hbios 1 0 s.sectorNum 0 (by decide) (by decide) (by decide) hfirst (by omega)]
  refine ⟨_, rfl, ?_, ?_, fun i hi => ?_, fun a ha hbelow => ?_⟩
  · dsimp only
    rw [UInt8.toNat_add, hone]
    omega
  · dsimp only
    rw [UInt16.toNat_add, hstep]
    omega
  · dsimp only
    rw [deliver, hbase]
    by_cases hnew : k * sectorSize ≤ i
    · have hindex : (s.sectorNum.toNat - 1) * sectorSize +
          (0x90000 + i - (0x90000 + k * sectorSize)) = sectorSize + i := by
        rw [hnum, Nat.add_sub_assoc (by decide), hnext]
        omega
      rw [if_pos (by omega), hindex]
    · rw [if_neg (by omega)]
      exact h.sectors i (by omega)
  · dsimp only
    rw [deliver, hbase, if_neg (by omega)]
    exact h.rest a ha hbelow

theorem repeatSectorRead_eq {s' : State} (hread : readSector int13 s = some s') :
    repeatSectorRead int13 s =
      if s'.sectorNum.toInt8 ≤ sectorNumMax.toInt8 then repeatSectorRead int13 s' else some s' := by
  rw [repeatSectorRead]
  split
  · rename_i hnone
    rw [hread] at hnone
    cases hnone
  · rename_i s₂ hsome
    obtain rfl : s' = s₂ := Option.some.inj (hread.symm.trans hsome)
    rw [dite_eq_ite]

theorem le_sectorNumMax_iff {x : UInt8} (hx : x.toNat < 128) :
    x.toInt8 ≤ sectorNumMax.toInt8 ↔ x.toNat ≤ 9 := by
  have hval : x.toInt8.toInt = x.toNat := BitVec.toInt_eq_toNat_of_lt (by
    change 2 * x.toNat < 256
    omega)
  have hmax : sectorNumMax.toInt8.toInt = 9 := rfl
  rw [Int8.le_iff_toInt_le, hval, hmax]
  omega

/-- The loop with `m` sectors to go. -/
theorem repeatSectorRead_loaded (hbios : Reads int13 floppy) (m : Nat)
    (h : Loaded floppy mem k s) (hk : k + (m + 1) = 8) :
    ∃ s', repeatSectorRead int13 s = some s' ∧ Loaded floppy mem 8 s' := by
  induction m generalizing k s with
  | zero =>
      obtain ⟨s', hread, hloaded⟩ := readSector_loaded hbios h (by omega)
      have hnum := hloaded.num
      have hend : ¬ s'.sectorNum.toInt8 ≤ sectorNumMax.toInt8 := by
        rw [le_sectorNumMax_iff (by omega)]
        omega
      rw [repeatSectorRead_eq hread, if_neg hend]
      exact ⟨s', rfl, hk ▸ hloaded⟩
  | succ m ih =>
      obtain ⟨s', hread, hloaded⟩ := readSector_loaded hbios h (by omega)
      have hnum := hloaded.num
      have hmore : s'.sectorNum.toInt8 ≤ sectorNumMax.toInt8 :=
        (le_sectorNumMax_iff (by omega)).mpr (by omega)
      rw [repeatSectorRead_eq hread, if_pos hmore]
      exact ih hloaded (by omega)

end

end Kboot86.Boot0
