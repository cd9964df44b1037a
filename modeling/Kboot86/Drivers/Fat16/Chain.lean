import Kboot86.Drivers.Fat16.Load

/-!
# The chain of a file

What the loop of `fat16_load` walks, in on-disk cluster numbers: `follow` takes
the link of a cluster, with the distance of 8 that the source adds where
`ROOT_CLUSTERS` is what it takes off, and `chain` is the sequence from the
starting cluster on. `fileSector` is the sector with a given number in the
file. The functions of the source are these, over internal numbers, as long as
a cluster has a sector.
-/

namespace Kboot86.Fat16

def Vid.roots (v : Vid) : Nat := v.maxRootEntries.toNat * dirEntrySize / v.clusterSize

theorem ok_bind {α β : Type} (a : α) (g : α → Except DivideError β) :
    (Except.ok a >>= g) = g a := rfl

theorem error_bind {α β : Type} (e : DivideError) (g : α → Except DivideError β) :
    (Except.error e >>= g) = Except.error e := rfl

theorem udiv_of_pos {a b : Nat} (h : 0 < b) : udiv a b = .ok (a / b) := by
  rw [udiv, if_neg (by omega)]

theorem umod_of_pos {a b : Nat} (h : 0 < b) : umod a b = .ok (a % b) := by
  rw [umod, if_neg (by omega)]

theorem Vid.clusterSize_pos {v : Vid} (h : 0 < v.sectorsPerCluster.toNat) :
    0 < v.clusterSize := by
  rw [Vid.clusterSize, sectorSize]
  omega

theorem Vid.rootClusters_eq {v : Vid} (h : 0 < v.sectorsPerCluster.toNat) :
    v.rootClusters = .ok v.roots := udiv_of_pos (Vid.clusterSize_pos h)

theorem Vid.roots_lt {v : Vid} (h : 0 < v.sectorsPerCluster.toNat) : v.roots < 4096 := by
  have hmax := v.maxRootEntries.toNat_lt
  rw [Vid.roots, Nat.div_lt_iff_lt_mul (Vid.clusterSize_pos h), Vid.clusterSize, sectorSize,
    dirEntrySize]
  omega

section

variable (d : Drive) (f : Volume)

def fatWord (n : Nat) : Option UInt16 :=
  (d.hddReadSector f.partitionNum (UInt32.ofNat (n / 256) + f.startingFatSecNum)).map fun sec =>
    UInt16.ofNat (le16 sec (2 * (n % 256)))

def internal (n : UInt16) : UInt16 := n + UInt16.ofNat f.vid.roots

/-- The cluster has an internal number that is that of a data cluster. -/
def IsData (n : UInt16) : Prop := 2 ≤ n.toNat ∧ n.toNat + f.vid.roots < 65536

instance (n : UInt16) : Decidable (IsData f n) := by
  unfold IsData
  infer_instance

def linkOf (n : UInt16) : Option UInt16 :=
  if IsData f n then (fatWord d f n.toNat).filter fun w => w ≠ 0 ∧ w ≠ 0xffff else none

def follow (n : UInt16) : Option UInt16 :=
  (linkOf d f n).map fun w => w + 8 - UInt16.ofNat f.vid.roots

def chain (start : UInt16) : Nat → Option UInt16
  | 0 => some start
  | k + 1 => (chain start k).bind (follow d f)

def fileSector (start : UInt16) (j : Nat) : Option Sector :=
  (chain d f start (j / f.vid.sectorsPerCluster.toNat)).bind fun n =>
    readClusterSec d f (internal f n) (j % f.vid.sectorsPerCluster.toNat)

end

section

variable {d : Drive} {f : Volume}

theorem internal_toNat (hspc : 0 < f.vid.sectorsPerCluster.toNat) (n : UInt16) :
    (internal f n).toNat = (n.toNat + f.vid.roots) % 65536 := by
  have hroots := Vid.roots_lt hspc
  rw [internal, UInt16.toNat_add, UInt16.toNat_ofNat_of_lt' (Nat.lt_trans hroots (by decide))]

theorem internal_lt_iff (hspc : 0 < f.vid.sectorsPerCluster.toNat) (n : UInt16) :
    (internal f n).toNat < startingRootCluNum + f.vid.roots ↔ ¬ IsData f n := by
  have hroots := Vid.roots_lt hspc
  have hn := n.toNat_lt
  rw [internal_toNat hspc, startingRootCluNum, IsData]
  omega

theorem internal_sub (n : UInt16) : internal f n - UInt16.ofNat f.vid.roots = n :=
  UInt16.add_sub_cancel _ _

theorem fatGetNextCluNum_eq (hspc : 0 < f.vid.sectorsPerCluster.toNat) (n : UInt16) :
    fatGetNextCluNum d f (internal f n) =
      .ok (if IsData f n then (fatWord d f n.toNat).getD 0xffff else 0xffff) := by
  have hlt := internal_lt_iff hspc n
  unfold fatGetNextCluNum
  rw [Vid.rootClusters_eq hspc, ok_bind]
  by_cases hdata : IsData f n
  · rw [if_neg (by rw [hlt]; exact not_not_intro hdata), if_pos hdata]
    dsimp only
    rw [internal_sub, fatWord]
    cases d.hddReadSector f.partitionNum (UInt32.ofNat (n.toNat / 256) + f.startingFatSecNum) with
    | none => rfl
    | some sec => rfl
  · rw [if_pos (hlt.mpr hdata), if_neg hdata]
    rfl

/-- `fat16_load` makes its test of a link on what `_fat_get_next_clu_num`
returns. -/
theorem fatGetNextCluNum_link (hspc : 0 < f.vid.sectorsPerCluster.toNat) (n : UInt16) :
    ∃ w, fatGetNextCluNum d f (internal f n) = .ok w ∧
      linkOf d f n = if w = 0 ∨ 0xffff = w then none else some w := by
  refine ⟨_, fatGetNextCluNum_eq hspc n, ?_⟩
  unfold linkOf
  by_cases hdata : IsData f n
  · simp only [if_pos hdata]
    cases fatWord d f n.toNat with
    | none => rfl
    | some w =>
        by_cases hw : w = 0 ∨ 0xffff = w
        · simp only [Option.getD_some, if_pos hw]
          rcases hw with rfl | rfl <;> rfl
        · rw [not_or] at hw
          simp [Option.filter, hw.1, hw.2, Ne.symm hw.2]
  · simp only [if_neg hdata]
    rfl

theorem internal_follow (w : UInt16) :
    internal f (w + 8 - UInt16.ofNat f.vid.roots) = w + 8 := UInt16.sub_add_cancel _ _

end

end Kboot86.Fat16
