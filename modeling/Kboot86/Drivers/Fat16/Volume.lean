import Kboot86.Drivers.Hdd
import Kboot86.Foundation.ByteWord
import Kboot86.Lib.String

/-!
# The mounted volume

The statics of `fat16.c`, `fat16_init`, and the functions that find and read a
sector of a cluster and an entry of the FAT. Clusters are numbered from 2 with
those of the root directory first, so an on-disk cluster number becomes an
internal one by adding `ROOT_CLUSTERS`.

The sector buffer of the source is shared by all reads; every reader uses its
contents before the next read, so a read returns the contents.
-/

namespace Kboot86.Fat16

def udiv (a b : Nat) : Except DivideError Nat :=
  if b = 0 then .error .divideError else .ok (a / b)

def umod (a b : Nat) : Except DivideError Nat :=
  if b = 0 then .error .divideError else .ok (a % b)

structure Vid where
  bytesPerSector : UInt16
  sectorsPerCluster : UInt8
  reservedSectors : UInt16
  numFats : UInt8
  maxRootEntries : UInt16
  sectorsPerFat : UInt16
  volLabel : Nat → UInt8
  type : Nat → UInt8
  signature : UInt16

structure Volume where
  partitionNum : Fin 4
  startingCluSecNum : UInt32
  startingFatSecNum : UInt32
  vid : Vid

def sectorSize : Nat := 512

def dirEntrySize : Nat := 32

namespace Vid

def clusterSize (v : Vid) : Nat := v.sectorsPerCluster.toNat * sectorSize

/-- `ROOT_CLUSTERS`, rounded down. -/
def rootClusters (v : Vid) : Except DivideError Nat :=
  udiv (v.maxRootEntries.toNat * dirEntrySize) v.clusterSize

end Vid

section

variable (d : Drive) (f : Volume)

def readSector (secNum : UInt32) : Option Sector := d.hddReadSector f.partitionNum secNum

def clu2rsec (cluNum : UInt16) : UInt32 :=
  UInt32.ofNat (cluNum.toNat * f.vid.sectorsPerCluster.toNat) + f.startingCluSecNum

/-- The sector of a cluster, relative to the partition. -/
def clusterSec (cluNum : UInt16) (secNum : Nat) : UInt32 :=
  UInt32.ofNat secNum + clu2rsec f (cluNum - 2)

def readClusterSec (cluNum : UInt16) (secNum : Nat) : Option Sector :=
  if cluNum < 2 then none
  else if secNum ≥ f.vid.sectorsPerCluster.toNat then none
  else readSector d f (clusterSec f cluNum secNum)

def startingRootCluNum : Nat := 2

def fatGetNextCluNum (cluNum : UInt16) : Except DivideError UInt16 := do
  let rootClusters ← f.vid.rootClusters
  if cluNum.toNat < startingRootCluNum + rootClusters then pure 0xffff
  else
    let cluNum := cluNum - UInt16.ofNat rootClusters
    let secNum := UInt32.ofNat (cluNum.toNat / 256) + f.startingFatSecNum
    match d.hddReadSector f.partitionNum secNum with
    | none => pure 0xffff
    | some sec => pure (UInt16.ofNat (le16 sec (2 * (cluNum.toNat % 256))))

end

/-! ### Mounting -/

def initVid (old : Vid) (base : Sector) : Vid where
  bytesPerSector := UInt16.ofNat (le16 base 0xb)
  sectorsPerCluster := base 0xd
  reservedSectors := UInt16.ofNat (le16 base 0xe)
  numFats := base 0x10
  maxRootEntries := UInt16.ofNat (le16 base 0x11)
  sectorsPerFat := UInt16.ofNat (le16 base 0x16)
  signature := UInt16.ofNat (le16 base 0x1fe)
  volLabel := Function.update (strncpy old.volLabel (fun k => base (0x2b + k)) 11) 11 0
  type := Function.update (strncpy old.type (fun k => base (0x36 + k)) 8) 8 0

/-- `fat16_init` stores the partition number before it reads the boot sector,
and so also when it fails. -/
def fat16Init (d : Drive) (f : Volume) (partitionNum : Nat) : Volume × Int :=
  if h : partitionNum < 4 then
    let f : Volume := { f with partitionNum := ⟨partitionNum, h⟩ }
    match readSector d f 0 with
    | none => (f, 1)
    | some sec =>
        let vid := initVid f.vid sec
        ({ f with
            vid := vid
            startingCluSecNum := UInt32.ofNat
              (vid.reservedSectors.toNat + vid.numFats.toNat * vid.sectorsPerFat.toNat)
            startingFatSecNum := UInt32.ofNat vid.reservedSectors.toNat }, 0)
  else (f, 1)

def Mounted (d : Drive) (f : Volume) : Prop := ∃ f₀ p, fat16Init d f₀ p = (f, 0)

structure Volume.Located (f : Volume) : Prop where
  fat : f.startingFatSecNum.toNat = f.vid.reservedSectors.toNat
  clu : f.startingCluSecNum.toNat =
    f.vid.reservedSectors.toNat + f.vid.numFats.toNat * f.vid.sectorsPerFat.toNat

theorem Mounted.located {d : Drive} {f : Volume} (h : Mounted d f) : f.Located := by
  rcases h with ⟨f₀, p, h⟩
  unfold fat16Init at h
  split at h
  · dsimp only at h
    split at h
    · cases congrArg Prod.snd h
    · rename_i sec _
      obtain rfl := congrArg Prod.fst h
      have hsize : UInt32.size = 4294967296 := rfl
      have hres := (initVid f₀.vid sec).reservedSectors.toNat_lt
      have hfats := (initVid f₀.vid sec).numFats.toNat_lt
      have hspf := (initVid f₀.vid sec).sectorsPerFat.toNat_lt
      have hmul := Nat.mul_le_mul (Nat.le_of_lt_succ hfats) (Nat.le_of_lt_succ hspf)
      exact ⟨UInt32.toNat_ofNat_of_lt' (by omega), UInt32.toNat_ofNat_of_lt' (by omega)⟩
  · cases congrArg Prod.snd h

end Kboot86.Fat16
