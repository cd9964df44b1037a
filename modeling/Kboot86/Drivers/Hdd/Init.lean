import Kboot86.Drivers.Mbr

/-!
# Initialising the disk and reading a sector of a partition

`hdd_init` identifies the drive and reads the partition table. It divides by
zero exactly when the drive tells a capacity and an empty geometry; once it has
returned, with whatever code, no read of a sector does, and the drive is a
`Drive`: a partition table and a sector or nothing for every number.

`hdd_read_sector` adds the number in the partition to the first sector with 32
bits, so behind the last sector number it delivers one from the front of the
disk.
-/

namespace Kboot86

structure Hdd where
  idData : Ata.IdData
  mbr : Mbr.State

namespace Hdd

def zero : Hdd := ⟨Ata.IdData.zero, Mbr.State.zero⟩

end Hdd

def hddInit (dev : Ata.Device) (s : Hdd) : Except DivideError (Hdd × Int) :=
  let a := Ata.ataInit dev s.idData
  if a.2 ≠ 0 then pure ({ s with idData := a.1 }, 1)
  else do
    let m ← Mbr.mbrInit dev a.1 s.mbr
    if m.2 ≠ 0 then pure (⟨a.1, m.1⟩, 1) else pure (⟨a.1, m.1⟩, 0)

namespace Hdd

def drive (dev : Ata.Device) (s : Hdd) : Drive where
  partitionEntry := s.mbr.partitionEntry
  ataReadSectorLba lba :=
    match Ata.ataReadSectorLba dev s.idData lba with
    | .ok r => r
    | .error _ => none

/-- `hdd_read_sector` with the division in it. -/
def readSector (dev : Ata.Device) (s : Hdd) (pnum : Fin 4) (rsecNum : UInt32) :
    Except DivideError (Option Sector) :=
  match (s.drive dev).rel2absSector pnum rsecNum with
  | none => pure none
  | some asecNum => Ata.ataReadSectorLba dev s.idData asecNum

def BadGeometry (dev : Ata.Device) : Prop :=
  ∃ p, dev.identify = some p ∧ 0 < (Ata.setIdentifyData p).numSectors ∧
    ¬ (Ata.setIdentifyData p).Divisible

section

variable {dev : Ata.Device}

theorem init_of_absent (s : Hdd) (h : dev.identify = none) : hddInit dev s = .ok (s, 1) := by
  rw [hddInit, Ata.ataInit, h]
  rfl

theorem init_of_fault (s : Hdd) {p : Nat → UInt16} (h : dev.identify = some p)
    (hread : Ata.ataReadSectorLba dev (Ata.setIdentifyData p) 0 = .error .divideError) :
    hddInit dev s = .error .divideError := by
  rw [hddInit, Ata.ataInit, h]
  dsimp only
  rw [if_neg (not_not.mpr rfl), Mbr.mbrInit, hread]
  rfl

theorem init_of_no_sector (s : Hdd) {p : Nat → UInt16} (h : dev.identify = some p)
    (hread : Ata.ataReadSectorLba dev (Ata.setIdentifyData p) 0 = .ok none) :
    hddInit dev s = .ok (⟨Ata.setIdentifyData p, s.mbr.invalidate⟩, 1) := by
  rw [hddInit, Ata.ataInit, h]
  dsimp only
  rw [if_neg (not_not.mpr rfl), Mbr.mbrInit, hread]
  rfl

theorem init_of_sector (s : Hdd) {p : Nat → UInt16} {mbr : Sector} (h : dev.identify = some p)
    (hread : Ata.ataReadSectorLba dev (Ata.setIdentifyData p) 0 = .ok (some mbr)) :
    hddInit dev s = .ok (⟨Ata.setIdentifyData p, s.mbr.invalidate.load mbr⟩, 0) := by
  rw [hddInit, Ata.ataInit, h]
  dsimp only
  rw [if_neg (not_not.mpr rfl), Mbr.mbrInit, hread]
  rfl

theorem init_cases (dev : Ata.Device) (s : Hdd) :
    (dev.identify = none ∧ hddInit dev s = .ok (s, 1)) ∨
    ∃ p, dev.identify = some p ∧
      ((Ata.ataReadSectorLba dev (Ata.setIdentifyData p) 0 = .error .divideError ∧
          hddInit dev s = .error .divideError) ∨
        (Ata.ataReadSectorLba dev (Ata.setIdentifyData p) 0 = .ok none ∧
          hddInit dev s = .ok (⟨Ata.setIdentifyData p, s.mbr.invalidate⟩, 1)) ∨
        ∃ mbr, Ata.ataReadSectorLba dev (Ata.setIdentifyData p) 0 = .ok (some mbr) ∧
          hddInit dev s = .ok (⟨Ata.setIdentifyData p, s.mbr.invalidate.load mbr⟩, 0)) := by
  cases h : dev.identify with
  | none => exact .inl ⟨rfl, init_of_absent s h⟩
  | some p =>
      refine .inr ⟨p, rfl, ?_⟩
      cases hread : Ata.ataReadSectorLba dev (Ata.setIdentifyData p) 0 with
      | error e =>
          cases e
          exact .inl ⟨rfl, init_of_fault s h hread⟩
      | ok r =>
          cases r with
          | none => exact .inr (.inl ⟨rfl, init_of_no_sector s h hread⟩)
          | some mbr => exact .inr (.inr ⟨mbr, rfl, init_of_sector s h hread⟩)

theorem init_fault_iff (dev : Ata.Device) (s : Hdd) :
    hddInit dev s = .error .divideError ↔ BadGeometry dev := by
  rcases init_cases dev s with ⟨hid, he⟩ | ⟨p, hid, ⟨hread, he⟩ | ⟨hread, he⟩ | ⟨mbr, hread, he⟩⟩
  · rw [he, BadGeometry, hid]
    exact iff_of_false (fun h => by cases h) fun ⟨p, hp, _⟩ => by cases hp
  · rw [he, BadGeometry]
    exact iff_of_true rfl ⟨p, hid, (Ata.ataReadSectorLba_fault_iff dev).mp hread⟩
  all_goals
    rw [he, BadGeometry, hid]
    refine iff_of_false (fun h => by cases h) ?_
    rintro ⟨q, hq, hbad⟩
    cases hq
    have hfault := (Ata.ataReadSectorLba_fault_iff dev).mpr hbad
    rw [hread] at hfault
    cases hfault

/-- Sector 0 can be read only when there is a sector and the geometry can be
divided by. -/
theorem divisible_of_mbr {p : Nat → UInt16} {mbr : Sector}
    (hread : Ata.ataReadSectorLba dev (Ata.setIdentifyData p) 0 = .ok (some mbr)) :
    (Ata.setIdentifyData p).Divisible := by
  by_contra hbad
  by_cases hpos : 0 < (Ata.setIdentifyData p).numSectors
  · have hfault := (Ata.ataReadSectorLba_fault_iff dev).mpr ⟨hpos, hbad⟩
    rw [hread] at hfault
    cases hfault
  · rw [Ata.ataReadSectorLba_of_le dev (UInt32.not_lt.mp hpos)] at hread
    cases hread

theorem rel2absSector_of_invalid {s : Hdd} {pnum : Fin 4}
    (hv : (s.mbr.partitionEntry pnum).valid = false) (r : UInt32) :
    (s.drive dev).rel2absSector pnum r = none := by
  have hinfo : (s.drive dev).mbrGetPartitionInfo pnum = none := by
    rw [Drive.mbrGetPartitionInfo, drive, hv]
    rfl
  simp [Drive.rel2absSector, Drive.withinPartition, hinfo]

theorem readSector_of_invalid {s : Hdd} {pnum : Fin 4}
    (hv : (s.mbr.partitionEntry pnum).valid = false) (r : UInt32) :
    s.readSector dev pnum r = .ok none := by
  rw [readSector, rel2absSector_of_invalid hv]
  rfl

theorem hddReadSector_of_invalid {s : Hdd} {pnum : Fin 4}
    (hv : (s.mbr.partitionEntry pnum).valid = false) (r : UInt32) :
    (s.drive dev).hddReadSector pnum r = none := by
  rw [Drive.hddReadSector, rel2absSector_of_invalid hv]

/-- Once `hdd_init` has returned, a read does not divide by zero. -/
theorem readSector_of_init {s : Hdd} {c : Int} (h : hddInit dev zero = .ok (s, c)) (pnum : Fin 4)
    (r : UInt32) : s.readSector dev pnum r = .ok ((s.drive dev).hddReadSector pnum r) := by
  rcases init_cases dev zero with ⟨-, he⟩ | ⟨p, -, ⟨-, he⟩ | ⟨-, he⟩ | ⟨mbr, hread, he⟩⟩
  · rw [he] at h
    obtain ⟨rfl, -⟩ := Prod.mk.inj (Except.ok.inj h)
    rw [readSector_of_invalid rfl, hddReadSector_of_invalid rfl]
  · rw [he] at h
    cases h
  · rw [he] at h
    obtain ⟨rfl, -⟩ := Prod.mk.inj (Except.ok.inj h)
    rw [readSector_of_invalid rfl, hddReadSector_of_invalid rfl]
  · rw [he] at h
    obtain ⟨rfl, -⟩ := Prod.mk.inj (Except.ok.inj h)
    rw [readSector, Drive.hddReadSector]
    cases Drive.rel2absSector _ pnum r with
    | none => rfl
    | some asecNum =>
        have hread' : ∃ x, Ata.ataReadSectorLba dev _ asecNum = .ok x :=
          Ata.ataReadSectorLba_total dev fun _ => divisible_of_mbr hread
        rcases hread' with ⟨x, hx⟩
        simp only [drive, hx]

end

end Hdd

end Kboot86
