import Kboot86.Drivers.Hdd.Init

/-!
# Which sectors of the disk a partition gives access to

`hdd_read_sector` compares the relative number with the length of the
partition, adds the first sector and lets the capacity of the drive decide. A
partition that ends behind sector `2 ^ 32` passes the comparison with numbers
whose sum wraps, and if the drive has the sector at the front of the disk, it
is delivered.
-/

namespace Kboot86.Hdd

open Mbr

/-- The sector that is delivered for `r` lies in the partition, as far from its
first sector as asked for. -/
def ReadConfined (dev : Ata.Device) (s : Hdd) (mbr : Sector) (pnum : Fin 4) (r : UInt32) : Prop :=
  ∀ sec, s.readSector dev pnum r = .ok (some sec) →
    (s.mbr.partitionEntry pnum).valid = true ∧ r < (partition mbr pnum.val).numSectors ∧
      ∃ lba : UInt32, lba.toNat = (partition mbr pnum.val).firstLba.toNat + r.toNat ∧
        Ata.ataReadSectorLba dev s.idData lba = .ok (some sec)

section

variable {dev : Ata.Device} {s : Hdd} {mbr : Sector}

theorem copies_of_init (h : hddInit dev zero = .ok (s, 0))
    (hmbr : Ata.ataReadSectorLba dev s.idData 0 = .ok (some mbr)) : s.mbr.Copies mbr := by
  rcases init_cases dev zero with ⟨-, he⟩ | ⟨p, -, ⟨-, he⟩ | ⟨-, he⟩ | ⟨mbr', hread, he⟩⟩
  · rw [he] at h
    cases h
  · rw [he] at h
    cases h
  · rw [he] at h
    cases h
  · rw [he] at h
    obtain ⟨rfl, -⟩ := Prod.mk.inj (Except.ok.inj h)
    obtain rfl : mbr' = mbr := Option.some.inj (Except.ok.inj (hread.symm.trans hmbr))
    exact State.load_copies _ _

theorem readSector_of_valid (hcopies : s.mbr.Copies mbr) {pnum : Fin 4}
    (hv : (s.mbr.partitionEntry pnum).valid = true) (r : UInt32) :
    s.readSector dev pnum r =
      if r < (partition mbr pnum.val).numSectors then
        Ata.ataReadSectorLba dev s.idData ((partition mbr pnum.val).firstLba + r)
      else .ok none := by
  obtain ⟨hfirst, hnum⟩ := hcopies pnum hv
  have hinfo : (s.drive dev).mbrGetPartitionInfo pnum =
      some ((partition mbr pnum.val).firstLba, (partition mbr pnum.val).numSectors) := by
    rw [Drive.mbrGetPartitionInfo, drive, hv, if_pos rfl, hfirst, hnum]
  unfold readSector Drive.rel2absSector
  rw [Drive.withinPartition_eq hinfo, hinfo]
  by_cases hr : r < (partition mbr pnum.val).numSectors <;> simp [hr]
  rfl

/-- After `hdd_init`, a sector outside the partition is delivered exactly when
the partition is valid, the number is below its length, the sum with its first
sector wraps and the drive delivers the sector that it wraps to. -/
theorem readConfined_iff (hinit : hddInit dev zero = .ok (s, 0))
    (hmbr : Ata.ataReadSectorLba dev s.idData 0 = .ok (some mbr)) (pnum : Fin 4) (r : UInt32) :
    ReadConfined dev s mbr pnum r ↔
      (s.mbr.partitionEntry pnum).valid = false ∨ (partition mbr pnum.val).numSectors ≤ r ∨
        (partition mbr pnum.val).firstLba.toNat + r.toNat < 2 ^ 32 ∨
        ∀ sec, Ata.ataReadSectorLba dev s.idData ((partition mbr pnum.val).firstLba + r) ≠
          .ok (some sec) := by
  have hcopies := copies_of_init hinit hmbr
  cases hv : (s.mbr.partitionEntry pnum).valid with
  | false =>
      refine iff_of_true (fun sec hsec => ?_) (.inl rfl)
      rw [readSector_of_invalid hv] at hsec
      cases hsec
  | true =>
  by_cases hr : r < (partition mbr pnum.val).numSectors
  swap
  · refine iff_of_true (fun sec hsec => ?_) (.inr (.inl (UInt32.not_lt.mp hr)))
    rw [readSector_of_valid hcopies hv, if_neg hr] at hsec
    cases hsec
  rw [ReadConfined, readSector_of_valid hcopies hv, if_pos hr]
  constructor
  · intro h
    refine .inr (.inr ?_)
    by_cases hsum : (partition mbr pnum.val).firstLba.toNat + r.toNat < 2 ^ 32
    · exact .inl hsum
    · refine .inr fun sec hsec => ?_
      obtain ⟨-, -, lba, hlba, -⟩ := h sec hsec
      have hlt := lba.toNat_lt
      omega
  · rintro (hno | hno | hsum | hno) sec hsec
    · cases hno
    · exact absurd hr (UInt32.not_lt.mpr hno)
    · refine ⟨hv, hr, _, ?_, hsec⟩
      rw [UInt32.toNat_add]
      omega
    · exact absurd hsec (hno sec)

end

def sampleMbr : Sector := fun k =>
  if k = 450 then 6
  else if 454 ≤ k ∧ k < 458 then 0xff
  else if k = 458 then 10
  else 0

def sampleDevice : Ata.Device where
  identify := some fun n => if n = 57 then 20 else if n = 1 ∨ n = 3 then 1 else
    if n = 6 then 20 else 0
  readSector regs := some (if regs.secNum = 1 then sampleMbr else fun _ => 0)

theorem sampleDevice_init :
    ∃ s, hddInit sampleDevice zero = .ok (s, 0) ∧
      Ata.ataReadSectorLba sampleDevice s.idData 0 = .ok (some sampleMbr) ∧
      (s.mbr.partitionEntry 0).valid = true :=
  ⟨_, init_of_sector _ rfl rfl, rfl, rfl⟩

/-- The number 1 of the sample partition is delivered from sector 0, the boot
sector of the disk. -/
theorem readSector_wraps :
    ∃ s, hddInit sampleDevice zero = .ok (s, 0) ∧ ¬ ReadConfined sampleDevice s sampleMbr 0 1 := by
  rcases sampleDevice_init with ⟨s, hinit, hmbr, hv⟩
  refine ⟨s, hinit, fun h => ?_⟩
  have hread : s.readSector sampleDevice 0 1 = .ok (some sampleMbr) := by
    rw [readSector_of_valid (copies_of_init hinit hmbr) hv]
    exact hmbr
  obtain ⟨-, -, lba, hlba, -⟩ := h sampleMbr hread
  have hlt := lba.toNat_lt
  have hfirst : (partition sampleMbr (0 : Fin 4).val).firstLba.toNat = 2 ^ 32 - 1 := rfl
  rw [hfirst, UInt32.toNat_one] at hlba
  omega

theorem readConfined_sample :
    ∃ s, hddInit sampleDevice zero = .ok (s, 0) ∧ ReadConfined sampleDevice s sampleMbr 0 0 := by
  rcases sampleDevice_init with ⟨s, hinit, hmbr, -⟩
  have hsum : (partition sampleMbr (0 : Fin 4).val).firstLba.toNat + (0 : UInt32).toNat <
      2 ^ 32 := by decide
  exact ⟨s, hinit, (readConfined_iff hinit hmbr 0 0).mpr (.inr (.inr (.inl hsum)))⟩

end Kboot86.Hdd
