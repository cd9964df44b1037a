import Kboot86.Drivers.Ata.Address
import Kboot86.Drivers.Fat16.Contents
import Kboot86.Drivers.Hdd.Init
import Kboot86.Drivers.Mbr.Table

/-!
# A drive with an image

The sectors of a drive are numbered track after track, in the geometry that it
identifies itself with. On a drive whose geometry fits the registers,
`hdd_init` and the reads of a partition then give the sectors of the image that
their numbers say.
-/

namespace Kboot86

namespace Ata

def ChsRegs.lba (id : IdData) (regs : ChsRegs) : Nat :=
  ((regs.cylHi.toNat * 256 + regs.cylLo.toNat) * id.heads.toNat + regs.headSel.toNat) *
    id.spt.toNat + (regs.secNum.toNat - 1)

/-- A geometry that cylinder, head and sector registers can address. -/
structure IdData.Addressable (id : IdData) : Prop where
  heads : 1 ≤ id.heads ∧ id.heads ≤ 16
  spt : 1 ≤ id.spt ∧ id.spt ≤ 255
  capacity : id.numSectors.toNat ≤ 1024 * (id.heads.toNat * id.spt.toNat)

structure Presents (dev : Device) (id : IdData) (image : Nat → Sector) : Prop where
  identify : dev.identify.map setIdentifyData = some id
  sector : ∀ regs : ChsRegs, regs.headSel.toNat < id.heads.toNat → 1 ≤ regs.secNum.toNat →
    regs.secNum.toNat ≤ id.spt.toNat → regs.lba id < id.numSectors.toNat →
      dev.readSector regs = some (image (regs.lba id))

section

variable {dev : Device} {id : IdData} {image : Nat → Sector} {lba : UInt32}

theorem IdData.Addressable.divisible (h : id.Addressable) : id.Divisible :=
  ⟨fun h0 => absurd h.heads.1 (by rw [h0]; decide), fun h0 => absurd h.spt.1 (by rw [h0]; decide)⟩

theorem chsRegs_lba (id : IdData) {c hd s : UInt32} (hc : c.toNat ≤ 1023) (hhd : hd.toNat ≤ 15)
    (hs : 1 ≤ s.toNat ∧ s.toNat ≤ 255) :
    (chsRegs c hd s).headSel.toNat = hd.toNat ∧ (chsRegs c hd s).secNum.toNat = s.toNat ∧
      (chsRegs c hd s).lba id =
        (c.toNat * id.heads.toNat + hd.toNat) * id.spt.toNat + (s.toNat - 1) := by
  have hhead : (chsRegs c hd s).headSel.toNat = hd.toNat := by
    rw [chsRegs, BitVec.toNat_ofNat]
    omega
  have hsec : (chsRegs c hd s).secNum.toNat = s.toNat := by
    rw [chsRegs_sec]
    omega
  refine ⟨hhead, hsec, ?_⟩
  rw [ChsRegs.lba, chsRegs_cyl hc, hhead, hsec]

theorem Presents.ataReadSectorLba_eq (h : Presents dev id image) (hid : id.Addressable)
    (hlt : lba < id.numSectors) : ataReadSectorLba dev id lba = .ok (some (image lba.toNat)) := by
  obtain ⟨c, hd, s, hchs, hc, hhd, hs⟩ := lba2chs_eq hid.divisible hlt
  obtain ⟨hheads, hspt⟩ := hid.divisible.pos
  have hlt' : lba.toNat < id.numSectors.toNat := UInt32.lt_iff_toNat_lt.mp hlt
  have hcap := hid.capacity
  have hheads16 : id.heads.toNat ≤ 16 := UInt16.le_iff_toNat_le.mp hid.heads.2
  have hspt255 : id.spt.toNat ≤ 255 := UInt16.le_iff_toNat_le.mp hid.spt.2
  have hcyl : c.toNat ≤ 1023 := by
    rw [hc]
    exact Nat.le_of_lt_succ (Nat.div_lt_of_lt_mul (by rw [Nat.mul_comm]; omega))
  have hhead : hd.toNat < id.heads.toNat := by
    rw [hhd]
    exact Nat.mod_lt _ hheads
  have hsec : 1 ≤ s.toNat ∧ s.toNat ≤ id.spt.toNat := by
    have hmod := Nat.mod_lt lba.toNat hspt
    omega
  obtain ⟨hregHead, hregSec, hreg⟩ :=
    chsRegs_lba id hcyl (Nat.le_of_lt_succ (hhead.trans_le hheads16))
      ⟨hsec.1, hsec.2.trans hspt255⟩
  have hvalue : (chsRegs c hd s).lba id = lba.toNat := by
    have hchs := chs_value lba.toNat id.heads.toNat id.spt.toNat
    rw [hreg, hc, hhd, hs, Nat.add_sub_cancel, hchs]
  obtain ⟨hc1023, hh15, hsecs⟩ :=
    Port.inRange_iff.mpr
      (show c.toNat ≤ 1023 ∧ hd.toNat ≤ 15 ∧ 1 ≤ s.toNat ∧ s.toNat ≤ 256 by omega)
  rw [ataReadSectorLba, hchs]
  change Except.ok (ataReadSectorChs dev c hd s) = _
  rw [ataReadSectorChs, if_neg hc1023, if_neg hh15, if_neg hsecs,
    h.sector _ (by omega) (by omega) (by omega) (by omega), hvalue]

end

end Ata

namespace Hdd

open Ata (Device IdData Presents)

section

variable {dev : Device} {id : IdData} {image : Nat → Sector} {s : Hdd}

def ofImage (id : IdData) (image : Nat → Sector) : Hdd :=
  ⟨id, Mbr.State.zero.invalidate.load (image 0)⟩

theorem hddInit_image (h : Presents dev id image) (hid : id.Addressable)
    (hpos : 0 < id.numSectors) : hddInit dev zero = .ok (ofImage id image, 0) := by
  obtain ⟨p, hp, rfl⟩ := Option.map_eq_some_iff.mp h.identify
  exact init_of_sector zero hp (h.ataReadSectorLba_eq hid hpos)

def partitionSectors (image : Nat → Sector) (n r : Nat) : Sector :=
  image ((Mbr.partition (image 0) n).firstLba.toNat + r)

theorem partitionEntry_ofImage (dev : Device) (id : IdData) {n : Fin 4}
    (h : Mbr.Accepted (image 0) n.val) :
    (((ofImage id image).drive dev).partitionEntry n).valid = true ∧
      (((ofImage id image).drive dev).partitionEntry n).startingSecLba =
        (Mbr.partition (image 0) n.val).firstLba ∧
      (((ofImage id image).drive dev).partitionEntry n).numSecs =
        (Mbr.partition (image 0) n.val).numSectors := by
  have hholds := Mbr.State.zero.load_holds (image 0)
  have hvalid := (hholds.valid_iff n).mpr h
  exact ⟨hvalid, hholds.copies n hvalid⟩

/-- A partition that lies on the drive is read as it is in the image. -/
theorem reads_ofImage (h : Presents dev id image) (hid : id.Addressable) {f : Fat16.Volume}
    (hacc : Mbr.Accepted (image 0) f.partitionNum.val)
    (hin : (Mbr.partition (image 0) f.partitionNum.val).firstLba.toNat +
      (Mbr.partition (image 0) f.partitionNum.val).numSectors.toNat ≤ id.numSectors.toNat) :
    Fat16.Reads ((ofImage id image).drive dev) f (partitionSectors image f.partitionNum.val) := by
  obtain ⟨hvalid, hstart, hnum⟩ := partitionEntry_ofImage dev id hacc
  refine ⟨hvalid, fun r hr => ?_⟩
  rw [hnum, UInt32.lt_iff_toNat_lt] at hr
  have hcap := id.numSectors.toNat_lt
  have hsum : ((Mbr.partition (image 0) f.partitionNum.val).firstLba + r).toNat =
      (Mbr.partition (image 0) f.partitionNum.val).firstLba.toNat + r.toNat := by
    rw [UInt32.toNat_add]
    exact Nat.mod_eq_of_lt (by omega)
  have hread := h.ataReadSectorLba_eq hid
    (UInt32.lt_iff_toNat_lt.mpr (by rw [hsum]; omega : _ < id.numSectors.toNat))
  rw [hstart]
  simp only [drive, ofImage, hread]
  rw [hsum]
  rfl

end

end Hdd

end Kboot86
