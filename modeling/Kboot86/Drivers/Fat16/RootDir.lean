import Kboot86.Drivers.Fat16.Contents

/-!
# The search of the root directory

Where the root directory fills whole clusters, the division of an entry number
into a cluster, a sector of it and an entry of that comes back to the sector
that a division by 16 gives, and `_rootdir_find_entry` returns the first entry
that is in use, has a short name and is the one of the file name, unless the
directory ends before it.
-/

namespace Kboot86.Fat16

def rootStart (v : Vid) : Nat :=
  v.reservedSectors.toNat + v.numFats.toNat * v.sectorsPerFat.toNat

def rootEntry (v : Vid) (image : Nat → Sector) (i : Nat) : DirEntry := fun k =>
  image (rootStart v + i / 16) (32 * (i % 16) + k)

def ReadsRoot (d : Drive) (f : Volume) (image : Nat → Sector) : Prop :=
  ∀ r, rootStart f.vid ≤ r → r < dataStart f.vid →
    readSector d f (UInt32.ofNat r) = some (image r)

/-- Entry `i` is one of the file: in use, with a short name that is the file
name, and not behind the end of the directory. -/
structure IsEntryOf (v : Vid) (image : Nat → Sector) (filename : List UInt8) (i : Nat) : Prop where
  lt : i < v.maxRootEntries.toNat
  no_end : ∀ j ≤ i, rootEntry v image j 0 ≠ 0
  used : rootEntry v image i 0 ≠ 0xe5
  short : (rootEntry v image i).hasLongName = false
  named : dirEntryIsFilename (rootEntry v image i) filename = true

section

variable {d : Drive} {f : Volume} {image : Nat → Sector}

theorem dataStart_lt (v : Vid) : dataStart v < 2 ^ 32 := by
  have hres := v.reservedSectors.toNat_lt
  have hmax := v.maxRootEntries.toNat_lt
  have hfats := Nat.mul_le_mul (Nat.le_of_lt_succ v.numFats.toNat_lt)
    (Nat.le_of_lt_succ v.sectorsPerFat.toNat_lt)
  rw [dataStart, sectorSize, dirEntrySize]
  omega

theorem readClusterSec_eq {c : UInt16} (hc : 2 ≤ c.toNat) {s : Nat}
    (hs : s < f.vid.sectorsPerCluster.toNat) :
    readClusterSec d f c s = readSector d f (clusterSec f c s) := by
  have hnot : ¬ c < 2 := by
    rw [UInt16.lt_iff_toNat_lt]
    exact Nat.not_lt.mpr hc
  rw [readClusterSec, if_neg hnot, if_neg (Nat.not_le.mpr hs)]

/-- The offset of an entry that lies in a cluster of the root directory does not
wrap, and the sector of that cluster is the one that its number says. -/
theorem clusterSec_rootEntry (hf : f.Located) (hspc : 0 < f.vid.sectorsPerCluster.toNat)
    {num : Nat} (h : num * dirEntrySize / f.vid.clusterSize < f.vid.roots) :
    num * dirEntrySize < 2 ^ 32 ∧
    clusterSec f (UInt16.ofNat startingRootCluNum +
        UInt16.ofNat (num * dirEntrySize / f.vid.clusterSize))
      (num * dirEntrySize / sectorSize % f.vid.sectorsPerCluster.toNat) =
      UInt32.ofNat (rootStart f.vid + num / 16) ∧
    2 ≤ (UInt16.ofNat startingRootCluNum +
      UInt16.ofNat (num * dirEntrySize / f.vid.clusterSize)).toNat := by
  have hmax := f.vid.maxRootEntries.toNat_lt
  have hroots := Vid.roots_lt hspc
  have hnum : num * dirEntrySize < f.vid.maxRootEntries.toNat * dirEntrySize :=
    Nat.lt_of_div_lt_div h
  have hoff : num * dirEntrySize < 2 ^ 32 := by
    rw [dirEntrySize] at hnum ⊢
    omega
  have hsector : num * dirEntrySize / sectorSize = num / 16 := by
    rw [dirEntrySize, sectorSize]
    omega
  have hsteps : num * dirEntrySize / f.vid.clusterSize =
      num / 16 / f.vid.sectorsPerCluster.toNat := by
    rw [Vid.clusterSize, Nat.mul_comm f.vid.sectorsPerCluster.toNat, ← Nat.div_div_eq_div_mul,
      hsector]
  have hsplit := Nat.mod_add_div' (num / 16) f.vid.sectorsPerCluster.toNat
  have hmod := Nat.mod_lt (num / 16) hspc
  rw [hsteps] at h
  rw [hsteps, hsector]
  generalize num / 16 / f.vid.sectorsPerCluster.toNat = steps at h hsplit ⊢
  generalize num / 16 % f.vid.sectorsPerCluster.toNat = rsec at hmod hsplit ⊢
  have hclu : (UInt16.ofNat startingRootCluNum + UInt16.ofNat steps).toNat = 2 + steps := by
    rw [UInt16.toNat_add, UInt16.toNat_ofNat', UInt16.toNat_ofNat', startingRootCluNum]
    omega
  have hlt := dataStart_lt f.vid
  rw [dataStart, sectorSize, dirEntrySize] at hlt
  rw [dirEntrySize] at hnum
  refine ⟨hoff, UInt32.toNat_inj.mp ?_, by omega⟩
  rw [clusterSec_toNat hf (by omega) hmod, hclu, rootStart, UInt32.toNat_ofNat',
    Nat.add_sub_cancel_left]
  omega

theorem rootdirGetEntryNum_of_lt (hf : f.Located) (hspc : 0 < f.vid.sectorsPerCluster.toNat)
    {num : Nat} (h : num * dirEntrySize / f.vid.clusterSize < f.vid.roots) :
    rootdirGetEntryNum d f num =
      .ok ((readSector d f (UInt32.ofNat (rootStart f.vid + num / 16))).map fun sec k =>
        sec (32 * (num % 16) + k)) := by
  obtain ⟨hoff, hsec, hclu⟩ := clusterSec_rootEntry hf hspc h
  unfold rootdirGetEntryNum
  dsimp only
  rw [Nat.mod_eq_of_lt hoff, udiv_of_pos (Vid.clusterSize_pos hspc), ok_bind,
    Vid.rootClusters_eq hspc, ok_bind, if_neg (Nat.not_le.mpr h), umod_of_pos hspc, ok_bind,
    readClusterSec_eq hclu (Nat.mod_lt _ hspc), hsec]
  cases readSector d f (UInt32.ofNat (rootStart f.vid + num / 16)) with
  | none => rfl
  | some sec => rfl

theorem steps_lt_roots (hspc : 0 < f.vid.sectorsPerCluster.toNat)
    (hroot : f.vid.maxRootEntries.toNat * dirEntrySize % f.vid.clusterSize = 0) {num : Nat}
    (h : num < f.vid.maxRootEntries.toNat) :
    num * dirEntrySize / f.vid.clusterSize < f.vid.roots := by
  rw [Vid.roots, Nat.div_lt_iff_lt_mul (Vid.clusterSize_pos hspc),
    Nat.div_mul_cancel (Nat.dvd_of_mod_eq_zero hroot), dirEntrySize]
  omega

theorem ReadsRoot.getEntryNum (hreads : ReadsRoot d f image) (hf : f.Located)
    (hspc : 0 < f.vid.sectorsPerCluster.toNat)
    (hroot : f.vid.maxRootEntries.toNat * dirEntrySize % f.vid.clusterSize = 0) {i : Nat}
    (hi : i < f.vid.maxRootEntries.toNat) :
    rootdirGetEntryNum d f i = .ok (some (rootEntry f.vid image i)) := by
  have hlt : rootStart f.vid + i / 16 < dataStart f.vid := by
    rw [rootStart, dataStart, dirEntrySize, sectorSize]
    omega
  rw [rootdirGetEntryNum_of_lt hf hspc (steps_lt_roots hspc hroot hi),
    hreads _ (Nat.le_add_right _ _) hlt]
  rfl

/-- The loop from entry `i` on, when the first one of the file is not before
`i`. -/
theorem findEntryFrom_spec (hreads : ReadsRoot d f image) (hf : f.Located)
    (hspc : 0 < f.vid.sectorsPerCluster.toNat)
    (hroot : f.vid.maxRootEntries.toNat * dirEntrySize % f.vid.clusterSize = 0)
    (filename : List UInt8) :
    ∀ n i, i + n = f.vid.maxRootEntries.toNat → (∀ j < i, rootEntry f.vid image j 0 ≠ 0) →
      (∀ j < i, ¬ IsEntryOf f.vid image filename j) →
      (∃ k, IsEntryOf f.vid image filename k ∧ (∀ j < k, ¬ IsEntryOf f.vid image filename j) ∧
        findEntryFrom d f filename n i = .ok (some (rootEntry f.vid image k))) ∨
      ((∀ k, ¬ IsEntryOf f.vid image filename k) ∧ findEntryFrom d f filename n i = .ok none)
  | 0, i, hn, _, hno => .inr ⟨fun k hk => hno k (by have := hk.lt; omega) hk, rfl⟩
  | n + 1, i, hn, hend, hno => by
      have hget := hreads.getEntryNum hf hspc hroot (i := i) (by omega)
      rw [findEntryFrom, hget, ok_bind]
      dsimp only
      by_cases hzero : rootEntry f.vid image i 0 = 0
      · right
        refine ⟨fun k hk => ?_, if_pos (by rw [DirEntry.isEnd, hzero]; rfl)⟩
        by_cases hki : k < i
        · exact hno k hki hk
        · exact hk.no_end i (Nat.le_of_not_lt hki) hzero
      rw [if_neg (by simpa [DirEntry.isEnd] using hzero)]
      have hend' : ∀ j < i + 1, rootEntry f.vid image j 0 ≠ 0 := fun j hj => by
        rcases Nat.lt_succ_iff_lt_or_eq.mp hj with hlt | rfl
        · exact hend j hlt
        · exact hzero
      have hrest : ¬ IsEntryOf f.vid image filename i → _ := fun hi =>
        findEntryFrom_spec hreads hf hspc hroot filename n (i + 1) (by omega) hend' fun j hj => by
          rcases Nat.lt_succ_iff_lt_or_eq.mp hj with hlt | rfl
          · exact hno j hlt
          · exact hi
      by_cases hunused : (rootEntry f.vid image i).isUnused = true
      · rw [if_pos hunused]
        exact hrest fun hi => hi.used (by simpa [DirEntry.isUnused] using hunused)
      rw [if_neg hunused]
      by_cases hlong : (rootEntry f.vid image i).hasLongName = true
      · rw [if_pos hlong]
        exact hrest fun hi => absurd (hi.short.symm.trans hlong) (by decide)
      rw [if_neg hlong]
      by_cases hnamed : dirEntryIsFilename (rootEntry f.vid image i) filename = true
      · rw [if_pos hnamed]
        exact .inl ⟨i, ⟨by omega, fun j hj => hend' j (by omega),
          by simpa [DirEntry.isUnused] using hunused, by simpa using hlong, hnamed⟩, hno, rfl⟩
      · rw [if_neg hnamed]
        exact hrest fun hi => hnamed hi.named

/-- On a volume whose root directory fills whole clusters, the search returns
the first entry of the file, and nothing when there is none. -/
theorem rootdirFindEntry_least (hf : Mounted d f) (hspc : 0 < f.vid.sectorsPerCluster.toNat)
    (hroot : f.vid.maxRootEntries.toNat * dirEntrySize % f.vid.clusterSize = 0)
    (hreads : ReadsRoot d f image) (filename : List UInt8) :
    (∀ i, IsEntryOf f.vid image filename i → (∀ j < i, ¬ IsEntryOf f.vid image filename j) →
      rootdirFindEntry d f filename = .ok (some (rootEntry f.vid image i))) ∧
    ((∀ i, ¬ IsEntryOf f.vid image filename i) → rootdirFindEntry d f filename = .ok none) := by
  have hspec := findEntryFrom_spec hreads hf.located hspc hroot filename
    f.vid.maxRootEntries.toNat 0 (Nat.zero_add _) (fun j hj => absurd hj (Nat.not_lt_zero j))
    fun j hj => absurd hj (Nat.not_lt_zero j)
  rcases hspec with ⟨k, hk, hleast, heq⟩ | ⟨hnone, heq⟩
  · refine ⟨fun i hi hi' => ?_, fun hno => absurd hk (hno k)⟩
    obtain rfl : i = k :=
      Nat.le_antisymm (Nat.le_of_not_lt fun h => hi' k h hk)
        (Nat.le_of_not_lt fun h => hleast i h hi)
    exact heq
  · exact ⟨fun i hi _ => absurd hi (hnone i), fun _ => heq⟩

theorem Reads.readsRoot (h : Reads d f image)
    (hin : dataStart f.vid ≤ (d.partitionEntry f.partitionNum).numSecs.toNat) :
    ReadsRoot d f image := by
  intro r _ hr
  have hlt := dataStart_lt f.vid
  have hval : (UInt32.ofNat r).toNat = r := by
    rw [UInt32.toNat_ofNat']
    omega
  rw [readSector, h.hddReadSector_eq, hval,
    if_pos (by rw [UInt32.lt_iff_toNat_lt, hval]; omega)]

end

theorem rootdirFindEntry_least_sample :
    rootdirFindEntry (sampleDrive (sampleFileSectors 128)) (sampleVolume (sampleFileSectors 128))
        sampleName =
      .ok (some (rootEntry (sampleVolume (sampleFileSectors 128)).vid
        (sampleFileSectors 128) 0)) := by
  have hreads := (sample_reads (sampleFileSectors 128)).readsRoot (by decide)
  have hentry : IsEntryOf (sampleVolume (sampleFileSectors 128)).vid (sampleFileSectors 128)
      sampleName 0 :=
    ⟨by decide, fun j hj => by
      obtain rfl := Nat.le_zero.mp hj
      decide, by decide, by decide, by decide⟩
  exact (rootdirFindEntry_least ⟨clearedVolume, 0, rfl⟩ (by decide) (by decide) hreads
    sampleName).1 0 hentry fun j hj => absurd hj (Nat.not_lt_zero j)

end Kboot86.Fat16
