import Mathlib.Data.Fin.Basic

/-!
# Partitions and relative sectors

The in-memory partition table of `mbr.c` and `hdd_read_sector` of `hdd.c`, over
a drive that returns a sector for an absolute number or fails.
-/

namespace Kboot86

inductive DivideError where
  | divideError
deriving DecidableEq

/-- The 512 bytes of a sector; offsets beyond are never used. -/
abbrev Sector := Nat → UInt8

structure Mpe where
  valid : Bool
  bootable : Bool
  startingSecLba : UInt32
  numSecs : UInt32
deriving DecidableEq

/-- The drive as the loader sees it: its partition table and what
`ata_read_sector_lba` delivers for a sector. -/
structure Drive where
  partitionEntry : Fin 4 → Mpe
  ataReadSectorLba : UInt32 → Option Sector

namespace Drive

def mbrGetPartitionInfo (d : Drive) (pnum : Fin 4) : Option (UInt32 × UInt32) :=
  if (d.partitionEntry pnum).valid then
    some ((d.partitionEntry pnum).startingSecLba, (d.partitionEntry pnum).numSecs)
  else none

def withinPartition (d : Drive) (pnum : Fin 4) (secNumLba : UInt32) : Bool :=
  match d.mbrGetPartitionInfo pnum with
  | none => false
  | some (_, numSecs) => if secNumLba ≥ numSecs then false else true

/-- The sum wraps when the partition passes the last sector number. -/
def rel2absSector (d : Drive) (pnum : Fin 4) (rsecNum : UInt32) : Option UInt32 :=
  if !d.withinPartition pnum rsecNum then none
  else match d.mbrGetPartitionInfo pnum with
    | none => none
    | some (startAsec, _) => some (startAsec + rsecNum)

def hddReadSector (d : Drive) (pnum : Fin 4) (rsecNum : UInt32) : Option Sector :=
  match d.rel2absSector pnum rsecNum with
  | none => none
  | some asecNum => d.ataReadSectorLba asecNum

theorem withinPartition_eq {d : Drive} {pnum : Fin 4} {start num : UInt32}
    (h : d.mbrGetPartitionInfo pnum = some (start, num)) (r : UInt32) :
    d.withinPartition pnum r = decide (r < num) := by
  unfold withinPartition
  rw [h]
  by_cases hr : r < num
  · simp [hr]
  · simp [hr, UInt32.not_lt.mp hr]

/-- A sector inside the partition is the drive's sector at the same distance
from the start of the partition; outside there is none. -/
theorem hddReadSector_eq {d : Drive} {pnum : Fin 4} {start num : UInt32}
    (h : d.mbrGetPartitionInfo pnum = some (start, num)) (r : UInt32) :
    d.hddReadSector pnum r = if r < num then d.ataReadSectorLba (start + r) else none := by
  unfold hddReadSector rel2absSector
  rw [withinPartition_eq h, h]
  by_cases hr : r < num <;> simp [hr]

end Drive

end Kboot86
