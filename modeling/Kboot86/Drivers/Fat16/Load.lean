import Kboot86.Drivers.Fat16.Directory

/-!
# Loading a file

`fat16_load` and `fat16_get_file_size`. The loop of `fat16_load` copies byte by
byte; at the start of a sector it reads the sector, and at the start of every
cluster but the first it follows a link of the FAT before that.

`log` records the sectors whose bytes are stored and the links that are
followed; nothing reads it.
-/

namespace Kboot86.Fat16

/-- A sector from which bytes are stored, or a link that is followed, with the
sector of the FAT it was read from. -/
inductive Access where
  | data (sec : Nat)
  | link (fatSec : Nat) (value : UInt16)
deriving DecidableEq

structure Output where
  buf : Nat → UInt8
  log : List Access

def toSsize (n : Nat) : Int :=
  if n % 2 ^ 32 < 2 ^ 31 then (n % 2 ^ 32 : Nat) else (n % 2 ^ 32 : Nat) - 2 ^ 32

theorem toSsize_of_lt {n : Nat} (h : n < 2 ^ 31) : toSsize n = n := by
  rw [toSsize, Nat.mod_eq_of_lt (by omega), if_pos h]

theorem toSsize_of_le {n : Nat} (h : 2 ^ 31 ≤ n) (hn : n < 2 ^ 32) :
    toSsize n = (n : Int) - 2 ^ 32 := by
  rw [toSsize, Nat.mod_eq_of_lt hn, if_neg (by omega)]

section

variable (d : Drive) (f : Volume)

def fatSecOf (rootClusters : Nat) (cluNum : UInt16) : Nat :=
  (cluNum - UInt16.ofNat rootClusters).toNat / 256

/-- The cluster for byte `i`: the same one, or at the start of a cluster the
one that the link leads to, if there is one. -/
def updateCluster (i : Nat) (cluNum : UInt16) (out : Output) :
    Except DivideError (Option UInt16 × Output) :=
  if i = 0 then pure (some cluNum, out) else do
    let r ← umod i f.vid.clusterSize
    if r ≠ 0 then pure (some cluNum, out) else do
      let rootClusters ← f.vid.rootClusters
      let link ← fatGetNextCluNum d f cluNum
      if link = 0 ∨ 0xffff = link then pure (none, out)
      else pure (some (link + 8),
        { out with log := out.log ++ [.link (fatSecOf rootClusters cluNum) link] })

def loadLoop : Nat → Nat → UInt16 → Sector → Nat → Output → Except DivideError (Int × Output)
  | 0, i, _, _, _, out => pure (toSsize i, out)
  | n + 1, i, cluNum, sec, psec, out =>
      if i % sectorSize = 0 then do
        let rsecNum ← umod (i / sectorSize) f.vid.sectorsPerCluster.toNat
        match ← updateCluster d f i cluNum out with
        | (none, out) => pure (-1, out)
        | (some cluNum, out) =>
            match readClusterSec d f cluNum rsecNum with
            | none => pure (-1, out)
            | some sec =>
                loadLoop n (i + 1) cluNum sec 1
                  { buf := Function.update out.buf i (sec 0)
                    log := out.log ++ [.data (clusterSec f cluNum rsecNum).toNat] }
      else
        loadLoop n (i + 1) cluNum sec (psec + 1)
          { out with buf := Function.update out.buf i (sec psec) }

/-- `fat16_load` into a buffer of `bufSize` bytes. -/
def fat16Load (filename : List UInt8) (buf : Nat → UInt8) (bufSize : UInt32) :
    Except DivideError (Int × Output) := do
  match ← rootdirFindEntry d f filename with
  | none => pure (-1, ⟨buf, []⟩)
  | some de =>
      let rootClusters ← f.vid.rootClusters
      let cluNum := de.startingCluster + UInt16.ofNat rootClusters
      let max := if de.size < bufSize then de.size else bufSize
      loadLoop d f max.toNat 0 cluNum (fun _ => 0) 0 ⟨buf, []⟩

def fat16GetFileSize (filename : List UInt8) : Except DivideError Int := do
  match ← rootdirFindEntry d f filename with
  | none => pure (-1)
  | some de => pure (toSsize de.size.toNat)

end

end Kboot86.Fat16
