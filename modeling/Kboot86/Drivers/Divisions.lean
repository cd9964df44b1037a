import Kboot86.Drivers.Fat16.DisplayRoot
import Kboot86.Drivers.Hdd.Init

/-!
# Where the disk drivers divide by zero

The loader divides by numbers that it takes from the drive and from the disk
and checks none of them: the geometry of the IDENTIFY block in `hdd_init` and
in every read of a sector, and the sectors per cluster of the boot sector in
the functions of the file system.
-/

namespace Kboot86

open Fat16

/-- `hdd_init` divides by zero exactly when the drive tells a capacity and an
empty geometry. When it has returned, with either code, no read of a sector
does, so neither does `fat16_init`; and the functions that look at the root
directory do so exactly when a cluster has no sector, those that search it only
if it has room for an entry. -/
theorem divisions_iff (dev : Ata.Device) :
    (hddInit dev Hdd.zero = .error .divideError ↔
      ∃ p, dev.identify = some p ∧ 0 < (Ata.setIdentifyData p).numSectors ∧
        ((Ata.setIdentifyData p).heads = 0 ∨ (Ata.setIdentifyData p).spt = 0)) ∧
    (∀ s c, hddInit dev Hdd.zero = .ok (s, c) → ∀ pnum r,
      s.readSector dev pnum r = .ok ((s.drive dev).hddReadSector pnum r)) ∧
    ∀ (d : Drive) (f : Volume),
      (fat16DisplayRoot d f = .error .divideError ↔ f.vid.sectorsPerCluster = 0) ∧
      (∀ filename, fat16GetFileSize d f filename = .error .divideError ↔
        f.vid.sectorsPerCluster = 0 ∧ f.vid.maxRootEntries ≠ 0) ∧
      ∀ filename buf bufSize, fat16Load d f filename buf bufSize = .error .divideError ↔
        f.vid.sectorsPerCluster = 0 ∧ f.vid.maxRootEntries ≠ 0 := by
  have hbad : Hdd.BadGeometry dev ↔
      ∃ p, dev.identify = some p ∧ 0 < (Ata.setIdentifyData p).numSectors ∧
        ((Ata.setIdentifyData p).heads = 0 ∨ (Ata.setIdentifyData p).spt = 0) := by
    simp only [Hdd.BadGeometry, Ata.IdData.Divisible, not_and_or, not_not, ne_eq]
  refine ⟨?_, fun s c h pnum r => Hdd.readSector_of_init h pnum r, fun d f => ⟨?_, ?_, ?_⟩⟩
  · rw [Hdd.init_fault_iff, hbad]
  · exact fat16DisplayRoot_fault_iff
  · exact fat16GetFileSize_fault_iff
  · exact fat16Load_fault_iff

/-- A drive of one sector without heads, and a disk of zeros. -/
theorem divides_by_zero :
    hddInit ⟨some fun n => if n = 57 then 1 else 0, fun _ => none⟩ Hdd.zero =
        .error .divideError ∧
      ∃ f, fat16Init ⟨fun _ => ⟨true, false, 0, 1⟩, fun _ => some fun _ => 0⟩
          ⟨0, 0, 0, ⟨0, 0, 0, 0, 0, 0, fun _ => 0, fun _ => 0, 0⟩⟩ 0 = (f, 0) ∧
        fat16DisplayRoot ⟨fun _ => ⟨true, false, 0, 1⟩, fun _ => some fun _ => 0⟩ f =
          .error .divideError :=
  ⟨rfl, _, rfl, fat16DisplayRoot_fault rfl⟩

end Kboot86
