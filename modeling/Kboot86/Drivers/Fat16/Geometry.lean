import Kboot86.Drivers.Fat16.RootDir

/-!
# Where the clusters of a volume lie

The driver counts the root directory in whole clusters, rounded down, and
numbers its clusters before those of the data area. Entries beyond the last
whole cluster are not reached, and every data cluster is looked for that much
too early, so the layout is right exactly when nothing is rounded off. The sum
of the two numbers is a 16-bit value: the last data clusters of a volume with
many root clusters wrap to clusters of the root directory.
-/

namespace Kboot86.Fat16

/-- Every entry of the root directory is reached, and the clusters of the data
area begin behind the root directory. -/
structure LayoutRight (d : Drive) (f : Volume) : Prop where
  root : ∀ i < f.vid.maxRootEntries.toNat, ∃ de, rootdirGetEntryNum d f i = .ok (some de)
  data : ∀ n s, IsData f n → s < f.vid.sectorsPerCluster.toNat →
    (clusterSec f (internal f n) s).toNat =
      dataStart f.vid + (n.toNat - 2) * f.vid.sectorsPerCluster.toNat + s

/-- The internal number of a data cluster leads to its first sector and to its
entry of the first FAT. -/
structure ClusterFound (d : Drive) (f : Volume) (n : UInt16) : Prop where
  two_le : 2 ≤ (internal f n).toNat
  first : (clusterSec f (internal f n) 0).toNat =
    dataStart f.vid + (n.toNat - 2) * f.vid.sectorsPerCluster.toNat
  next : ∀ sec,
    readSector d f (UInt32.ofNat (f.vid.reservedSectors.toNat + n.toNat / 256)) = some sec →
      fatGetNextCluNum d f (internal f n) = .ok (UInt16.ofNat (le16 sec (2 * (n.toNat % 256))))

section

variable {d : Drive} {f : Volume} {image : Nat → Sector}

theorem clusterSec_internal (hf : f.Located)
    (hroot : f.vid.maxRootEntries.toNat * dirEntrySize % f.vid.clusterSize = 0) {n : UInt16}
    (hn : IsData f n) {s : Nat} (hs : s < f.vid.sectorsPerCluster.toNat) :
    (clusterSec f (internal f n) s).toNat =
      dataStart f.vid + (n.toNat - 2) * f.vid.sectorsPerCluster.toNat + s := by
  rw [clusterSec_dataSector hf hroot hn hs, dataSector, dataStart_eq hroot, roots_mul hroot]

/-- The last entry of a directory that does not fill its clusters is not
reached. -/
theorem rootdirGetEntryNum_last (hspc : 0 < f.vid.sectorsPerCluster.toNat)
    (hroot : f.vid.maxRootEntries.toNat * dirEntrySize % f.vid.clusterSize ≠ 0) :
    rootdirGetEntryNum d f (f.vid.maxRootEntries.toNat - 1) = .ok none := by
  have hpos := Vid.clusterSize_pos hspc
  have hmax := f.vid.maxRootEntries.toNat_lt
  have hle : f.vid.roots ≤
      (f.vid.maxRootEntries.toNat - 1) * dirEntrySize / f.vid.clusterSize := by
    have hsplit := Nat.div_add_mod' (f.vid.maxRootEntries.toNat * dirEntrySize) f.vid.clusterSize
    have hcluster : f.vid.roots * f.vid.clusterSize =
        32 * (16 * (f.vid.roots * f.vid.sectorsPerCluster.toNat)) := by
      rw [Vid.clusterSize, sectorSize]
      ring
    rw [← Vid.roots, hcluster] at hsplit
    rw [Nat.le_div_iff_mul_le hpos, hcluster]
    generalize f.vid.roots * f.vid.sectorsPerCluster.toNat = r at hsplit ⊢
    rw [dirEntrySize] at hsplit hroot ⊢
    omega
  have hoff : (f.vid.maxRootEntries.toNat - 1) * dirEntrySize % 2 ^ 32 =
      (f.vid.maxRootEntries.toNat - 1) * dirEntrySize := by
    rw [dirEntrySize]
    omega
  unfold rootdirGetEntryNum
  dsimp only
  rw [hoff, udiv_of_pos hpos, ok_bind, Vid.rootClusters_eq hspc, ok_bind, if_pos hle]
  rfl

/-- On every volume whose root directory can be read, the layout is right
exactly when the directory fills a whole number of clusters. -/
theorem layoutRight_iff (hf : Mounted d f) (hspc : 0 < f.vid.sectorsPerCluster.toNat)
    (hreads : ReadsRoot d f image) :
    LayoutRight d f ↔ f.vid.maxRootEntries.toNat * dirEntrySize % f.vid.clusterSize = 0 := by
  constructor
  · intro h
    by_contra hroot
    have hpos : 0 < f.vid.maxRootEntries.toNat := by
      refine Nat.pos_of_ne_zero fun hzero => hroot ?_
      rw [hzero, Nat.zero_mul, Nat.zero_mod]
    obtain ⟨de, hde⟩ := h.root (f.vid.maxRootEntries.toNat - 1) (by omega)
    rw [rootdirGetEntryNum_last hspc hroot] at hde
    cases hde
  · intro hroot
    exact ⟨fun i hi => ⟨_, hreads.getEntryNum hf.located hspc hroot hi⟩,
      fun n s hn hs => clusterSec_internal hf.located hroot hn hs⟩

/-! ### The number of a cluster -/

theorem fatGetNextCluNum_of_isData (hf : f.Located) (hspc : 0 < f.vid.sectorsPerCluster.toNat)
    {n : UInt16} (hn : IsData f n) {sec : Sector}
    (hsec : readSector d f (UInt32.ofNat (f.vid.reservedSectors.toNat + n.toNat / 256)) =
      some sec) :
    fatGetNextCluNum d f (internal f n) =
      .ok (UInt16.ofNat (le16 sec (2 * (n.toNat % 256)))) := by
  have haddr : UInt32.ofNat (n.toNat / 256) + f.startingFatSecNum =
      UInt32.ofNat (f.vid.reservedSectors.toNat + n.toNat / 256) := by
    have hres := f.vid.reservedSectors.toNat_lt
    have hlt := n.toNat_lt
    apply UInt32.toNat_inj.mp
    rw [UInt32.toNat_add, UInt32.toNat_ofNat', UInt32.toNat_ofNat', hf.fat]
    omega
  rw [readSector, ← haddr] at hsec
  rw [fatGetNextCluNum_eq hspc, if_pos hn, fatWord, hsec]
  rfl

/-- On every volume whose root directory fills whole clusters, a data cluster
is found exactly when its number and that of the root clusters have a sum of 16
bits. -/
theorem clusterFound_iff (hf : Mounted d f) (hspc : 0 < f.vid.sectorsPerCluster.toNat)
    (hroot : f.vid.maxRootEntries.toNat * dirEntrySize % f.vid.clusterSize = 0) {n : UInt16}
    (hn : 2 ≤ n.toNat ∧ n.toNat ≤ 0xffef) :
    ClusterFound d f n ↔ n.toNat + f.vid.roots < 65536 := by
  constructor
  · intro h
    have hfirst := h.first
    have hlt := (internal f n).toNat_lt
    have htwo := h.two_le
    rw [clusterSec_toNat hf.located htwo hspc, dataStart_eq hroot] at hfirst
    have hmul : ((internal f n).toNat - 2) * f.vid.sectorsPerCluster.toNat =
        (f.vid.roots + (n.toNat - 2)) * f.vid.sectorsPerCluster.toNat := by
      rw [Nat.add_mul]
      omega
    have heq := Nat.eq_of_mul_eq_mul_right hspc hmul
    omega
  · intro hlt
    have hdata : IsData f n := ⟨hn.1, hlt⟩
    refine ⟨?_, clusterSec_internal hf.located hroot hdata hspc, fun sec hsec =>
      fatGetNextCluNum_of_isData hf.located hspc hdata hsec⟩
    rw [hdata.internal_toNat hspc]
    omega

end

/-! ### Two volumes -/

def rootBoot (spc : UInt8) : Sector := fun k =>
  if k = 0xd then spc else if k = 0x12 then 2
  else if k = 0xe ∨ k = 0x10 ∨ k = 0x16 then 1 else 0

def rootSectors (spc : UInt8) : Nat → Sector
  | 0 => rootBoot spc
  | _ => fun _ => 0

theorem rootSectors_readsRoot (spc : UInt8) :
    ReadsRoot (sampleDrive (rootSectors spc)) (sampleVolume (rootSectors spc))
      (rootSectors spc) := by
  have hres : (sampleVolume (rootSectors spc)).vid.reservedSectors = 1 := rfl
  have hfats : (sampleVolume (rootSectors spc)).vid.numFats = 1 := rfl
  have hspf : (sampleVolume (rootSectors spc)).vid.sectorsPerFat = 1 := rfl
  have hmax : (sampleVolume (rootSectors spc)).vid.maxRootEntries = 512 := rfl
  have hnum : ((sampleDrive (rootSectors spc)).partitionEntry
      (sampleVolume (rootSectors spc)).partitionNum).numSecs = 1000 := rfl
  apply (sample_reads (rootSectors spc)).readsRoot
  rw [dataStart, hres, hfats, hspf, hmax, hnum]
  decide

theorem layoutRight_whole :
    LayoutRight (sampleDrive (rootSectors 1)) (sampleVolume (rootSectors 1)) :=
  (layoutRight_iff ⟨clearedVolume, 0, rfl⟩ (by decide) (rootSectors_readsRoot 1)).mpr (by decide)

/-- With 64 sectors in a cluster 512 entries fill half of one, and none of them
is reached. -/
theorem layoutRight_half :
    Mounted (sampleDrive (rootSectors 64)) (sampleVolume (rootSectors 64)) ∧
      0 < (sampleVolume (rootSectors 64)).vid.sectorsPerCluster.toNat ∧
      ReadsRoot (sampleDrive (rootSectors 64)) (sampleVolume (rootSectors 64)) (rootSectors 64) ∧
      ¬ LayoutRight (sampleDrive (rootSectors 64)) (sampleVolume (rootSectors 64)) := by
  refine ⟨⟨clearedVolume, 0, rfl⟩, by decide, rootSectors_readsRoot 64, fun h => ?_⟩
  obtain ⟨de, hde⟩ := h.root 511 (by decide)
  have hlast := rootdirGetEntryNum_last (d := sampleDrive (rootSectors 64))
    (f := sampleVolume (rootSectors 64)) (by decide) (by decide)
  have hnum : (sampleVolume (rootSectors 64)).vid.maxRootEntries.toNat - 1 = 511 := by decide
  rw [hnum, hde] at hlast
  cases hlast

theorem clusterFound_two :
    ClusterFound (sampleDrive (rootSectors 1)) (sampleVolume (rootSectors 1)) 2 :=
  (clusterFound_iff ⟨clearedVolume, 0, rfl⟩ (by decide) (by decide) (by decide)).mpr (by decide)

/-- With one sector in a cluster 512 entries fill 32 of them, and cluster
`0xffef` is taken for cluster 15, one of the root directory. -/
theorem clusterFound_wraps :
    Mounted (sampleDrive (rootSectors 1)) (sampleVolume (rootSectors 1)) ∧
      0 < (sampleVolume (rootSectors 1)).vid.sectorsPerCluster.toNat ∧
      (sampleVolume (rootSectors 1)).vid.maxRootEntries.toNat * dirEntrySize %
        (sampleVolume (rootSectors 1)).vid.clusterSize = 0 ∧
      ¬ ClusterFound (sampleDrive (rootSectors 1)) (sampleVolume (rootSectors 1)) 0xffef := by
  refine ⟨⟨clearedVolume, 0, rfl⟩, by decide, by decide, fun h => ?_⟩
  exact absurd h.first (by decide)

end Kboot86.Fat16
