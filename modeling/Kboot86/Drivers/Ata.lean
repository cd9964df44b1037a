import Kboot86.Drivers.Hdd

/-!
# The ATA drive

The part of `ata.c` between the registers of the drive and the rest of the
loader: what IDENTIFY tells about the geometry, the translation of a sector
number to cylinder, head and sector, and the read of one sector. The drive
answers a read command according to its registers with a sector or with an
error; the polling of its status is not part of this model.

The geometry is taken from the drive as it is, so the translation may divide
by zero.
-/

namespace Kboot86.Ata

def udiv (a b : UInt32) : Except DivideError UInt32 :=
  if b = 0 then .error .divideError else .ok (a / b)

structure ChsRegs where
  secNum : UInt8
  cylLo : UInt8
  cylHi : UInt8
  headSel : BitVec 4
deriving DecidableEq

/-- What a drive answers: the words of its IDENTIFY block, if it has one, and a
sector or an error for a read command. -/
structure Device where
  identify : Option (Nat → UInt16)
  readSector : ChsRegs → Option Sector

structure IdData where
  valid : Bool
  numSectors : UInt32
  cylinders : UInt16
  heads : UInt16
  spt : UInt16
deriving DecidableEq

def IdData.zero : IdData := ⟨false, 0, 0, 0, 0⟩

def setIdentifyData (p : Nat → UInt16) : IdData where
  valid := true
  numSectors := (p 58).toUInt32 <<< 16 ||| (p 57).toUInt32
  cylinders := p 1
  heads := p 3
  spt := p 6

def ataInit (dev : Device) (old : IdData) : IdData × Int :=
  match dev.identify with
  | none => (old, 1)
  | some p => (setIdentifyData p, 0)

def chsRegs (cylNum headNum secNum : UInt32) : ChsRegs where
  secNum := secNum.toUInt8
  cylLo := (cylNum &&& 0xff).toUInt8
  cylHi := ((cylNum &&& 0x300) >>> 8).toUInt8
  headSel := BitVec.ofNat 4 headNum.toNat

def ataReadSectorChs (dev : Device) (cylNum headNum secNum : UInt32) : Option Sector :=
  if cylNum > 1023 then none
  else if headNum > 15 then none
  else if secNum < 1 ∨ secNum > 256 then none
  else dev.readSector (chsRegs cylNum headNum secNum)

/-- Cylinder, head and sector, if the number is below the capacity. -/
def lba2chs (id : IdData) (lba : UInt32) :
    Except DivideError (Option (UInt32 × UInt32 × UInt32)) := do
  if lba ≥ id.numSectors then pure none
  else
    let heads := id.heads.toUInt32
    let spt := id.spt.toUInt32
    let c ← udiv lba (heads * spt)
    let h ← udiv (lba - c * heads * spt) spt
    pure (some (c, h, (lba - c * heads * spt - h * spt) + 1))

def ataReadSectorLba (dev : Device) (id : IdData) (lba : UInt32) :
    Except DivideError (Option Sector) := do
  match ← lba2chs id lba with
  | none => pure none
  | some (c, h, s) => pure (ataReadSectorChs dev c h s)

/-- The tracks of the geometry are not empty, so it can be divided by. -/
def IdData.Divisible (id : IdData) : Prop := id.heads ≠ 0 ∧ id.spt ≠ 0

theorem toUInt32_eq_zero_iff (a : UInt16) : a.toUInt32 = 0 ↔ a = 0 := by
  rw [← UInt32.toNat_inj, ← UInt16.toNat_inj, UInt16.toNat_toUInt32]
  rfl

theorem product_eq_zero_iff (a b : UInt16) : a.toUInt32 * b.toUInt32 = 0 ↔ a = 0 ∨ b = 0 := by
  have ha := a.toNat_lt
  have hb := b.toNat_lt
  have hmul := Nat.mul_le_mul (Nat.le_of_lt_succ ha) (Nat.le_of_lt_succ hb)
  have hval : (a.toUInt32 * b.toUInt32).toNat = a.toNat * b.toNat := by
    rw [UInt32.toNat_mul, UInt16.toNat_toUInt32, UInt16.toNat_toUInt32]
    exact Nat.mod_eq_of_lt (by omega)
  rw [← UInt32.toNat_inj, hval, UInt32.toNat_zero, Nat.mul_eq_zero, ← UInt16.toNat_inj,
    ← UInt16.toNat_inj, UInt16.toNat_zero]

theorem IdData.divisible_iff (id : IdData) :
    id.Divisible ↔ id.heads.toUInt32 * id.spt.toUInt32 ≠ 0 := by
  rw [ne_eq, product_eq_zero_iff, not_or]
  rfl

section

variable (dev : Device) {id : IdData} {lba : UInt32}

theorem lba2chs_of_le (h : id.numSectors ≤ lba) : lba2chs id lba = .ok none := by
  rw [lba2chs, if_pos h]
  rfl

theorem lba2chs_of_divisible (hlt : lba < id.numSectors) (h : id.Divisible) :
    ∃ chs, lba2chs id lba = .ok (some chs) := by
  have hspt : id.spt.toUInt32 ≠ 0 := mt (toUInt32_eq_zero_iff _).mp h.2
  rw [lba2chs, if_neg (UInt32.not_le.mpr hlt)]
  simp only [udiv, if_neg (id.divisible_iff.mp h), if_neg hspt]
  exact ⟨_, rfl⟩

theorem lba2chs_of_not_divisible (hlt : lba < id.numSectors) (h : ¬ id.Divisible) :
    lba2chs id lba = .error .divideError := by
  rw [id.divisible_iff, not_not] at h
  rw [lba2chs, if_neg (UInt32.not_le.mpr hlt)]
  dsimp only
  rw [udiv, if_pos h]
  rfl

/-- A read divides by zero exactly when the number is below the capacity and
the geometry is empty. -/
theorem ataReadSectorLba_fault_iff :
    ataReadSectorLba dev id lba = .error .divideError ↔
      lba < id.numSectors ∧ ¬ id.Divisible := by
  unfold ataReadSectorLba
  by_cases hlt : lba < id.numSectors
  · by_cases h : id.Divisible
    · obtain ⟨chs, hchs⟩ := lba2chs_of_divisible hlt h
      rw [hchs]
      exact iff_of_false (fun he => by cases he) fun hno => hno.2 h
    · rw [lba2chs_of_not_divisible hlt h]
      exact iff_of_true rfl ⟨hlt, h⟩
  · rw [lba2chs_of_le (UInt32.not_lt.mp hlt)]
    exact iff_of_false (fun he => by cases he) fun hno => hlt hno.1

theorem ataReadSectorLba_of_le (h : id.numSectors ≤ lba) :
    ataReadSectorLba dev id lba = .ok none := by
  rw [ataReadSectorLba, lba2chs_of_le h]
  rfl

theorem ataReadSectorLba_total (h : lba < id.numSectors → id.Divisible) :
    ∃ r, ataReadSectorLba dev id lba = .ok r := by
  cases hread : ataReadSectorLba dev id lba with
  | ok r => exact ⟨r, rfl⟩
  | error e =>
      cases e
      obtain ⟨hlt, hno⟩ := (ataReadSectorLba_fault_iff dev).mp hread
      exact absurd (h hlt) hno

end

end Kboot86.Ata
