import Kboot86.Drivers.Fat16.Confined

/-!
# Is what is loaded the file?

A file whose chain lies in the FAT is loaded correctly when no link has to be
followed, or when the root directory has the 8 clusters that the source adds to
every link in place of `ROOT_CLUSTERS`. In every other volume the second
cluster is taken from the wrong place, so the result is wrong for some contents
of the data area; and a count from `2^31` on is returned as a negative one.
-/

namespace Kboot86.Fat16

structure Reads (d : Drive) (f : Volume) (image : Nat → Sector) : Prop where
  valid : (d.partitionEntry f.partitionNum).valid = true
  sector : ∀ r, r < (d.partitionEntry f.partitionNum).numSecs →
    d.ataReadSectorLba ((d.partitionEntry f.partitionNum).startingSecLba + r) =
      some (image r.toNat)

def dataSector (v : Vid) (n : UInt16) (s : Nat) : Nat :=
  v.reservedSectors.toNat + v.numFats.toNat * v.sectorsPerFat.toNat +
    v.maxRootEntries.toNat * dirEntrySize / sectorSize +
      (n.toNat - 2) * v.sectorsPerCluster.toNat + s

def fatEntry (v : Vid) (image : Nat → Sector) (n : UInt16) : UInt16 :=
  UInt16.ofNat (le16 (image (v.reservedSectors.toNat + n.toNat / 256)) (2 * (n.toNat % 256)))

/-- The clusters `c 0`, `c 1`, … are the chain of the entry, as far as the size
of the file needs them, and lie in the partition of `numSecs` sectors. -/
structure FatChain (v : Vid) (image : Nat → Sector) (numSecs : Nat) (de : DirEntry)
    (c : Nat → UInt16) : Prop where
  start : c 0 = de.startingCluster
  data : ∀ k, v.clusterSize * k < de.size.toNat →
    2 ≤ (c k).toNat ∧ (c k).toNat + v.roots < 65536
  inside : ∀ k, v.clusterSize * k < de.size.toNat →
    dataSector v (c k) 0 + v.sectorsPerCluster.toNat ≤ numSecs
  link : ∀ k, v.clusterSize * (k + 1) < de.size.toNat →
    (c k).toNat / 256 < v.sectorsPerFat.toNat ∧ fatEntry v image (c k) = c (k + 1)

def LoadsFile (d : Drive) (f : Volume) (image : Nat → Sector) (filename : List UInt8)
    (de : DirEntry) (c : Nat → UInt16) (buf : Nat → UInt8) (bufSize : UInt32) : Prop :=
  ∃ out, fat16Load d f filename buf bufSize = .ok ((loadMax de bufSize : Int), out) ∧
    ∀ i < loadMax de bufSize, out.buf i =
      image (dataSector f.vid (c (i / f.vid.clusterSize)) (i % f.vid.clusterSize / sectorSize))
        (i % sectorSize)

/-- The drive with other contents of the data area. -/
structure SameVolume (d d' : Drive) (f : Volume) (image image' : Nat → Sector) : Prop where
  partition : d'.partitionEntry f.partitionNum = d.partitionEntry f.partitionNum
  reads : Reads d' f image'
  metadata : ∀ s < dataStart f.vid, image' s = image s

section

variable {d d' : Drive} {f : Volume} {image image' : Nat → Sector}

theorem Reads.hddReadSector_eq (h : Reads d f image) (r : UInt32) :
    d.hddReadSector f.partitionNum r =
      if r < (d.partitionEntry f.partitionNum).numSecs then some (image r.toNat) else none := by
  have hinfo : d.mbrGetPartitionInfo f.partitionNum =
      some ((d.partitionEntry f.partitionNum).startingSecLba,
        (d.partitionEntry f.partitionNum).numSecs) := by
    rw [Drive.mbrGetPartitionInfo, if_pos h.valid]
  rw [Drive.hddReadSector_eq hinfo]
  by_cases hr : r < (d.partitionEntry f.partitionNum).numSecs
  · rw [if_pos hr, if_pos hr, h.sector r hr]
  · rw [if_neg hr, if_neg hr]

theorem SameVolume.hddReadSector_eq (h : SameVolume d d' f image image')
    (hreads : Reads d f image) {r : UInt32} (hr : r.toNat < dataStart f.vid) :
    d'.hddReadSector f.partitionNum r = d.hddReadSector f.partitionNum r := by
  rw [h.reads.hddReadSector_eq, hreads.hddReadSector_eq, h.partition, h.metadata _ hr]

theorem SameVolume.refl (hreads : Reads d f image) : SameVolume d d f image image :=
  ⟨rfl, hreads, fun _ _ => rfl⟩

/-! ### The root directory is the same -/

theorem roots_mul (hroot : f.vid.maxRootEntries.toNat * dirEntrySize % f.vid.clusterSize = 0) :
    f.vid.roots * f.vid.sectorsPerCluster.toNat =
      f.vid.maxRootEntries.toNat * dirEntrySize / sectorSize := by
  have hmul := Nat.div_mul_cancel (Nat.dvd_of_mod_eq_zero hroot)
  rw [← hmul, Vid.roots, Vid.clusterSize, ← Nat.mul_assoc, Nat.mul_div_cancel _ (by decide)]

theorem dataStart_eq (hroot : f.vid.maxRootEntries.toNat * dirEntrySize % f.vid.clusterSize = 0) :
    dataStart f.vid = f.vid.reservedSectors.toNat +
      f.vid.numFats.toNat * f.vid.sectorsPerFat.toNat +
        f.vid.roots * f.vid.sectorsPerCluster.toNat := by
  have hmul := Nat.div_mul_cancel (Nat.dvd_of_mod_eq_zero hroot)
  have hsize : f.vid.maxRootEntries.toNat * dirEntrySize =
      sectorSize * (f.vid.roots * f.vid.sectorsPerCluster.toNat) := by
    rw [← hmul, Vid.roots, Vid.clusterSize]
    ring
  rw [dataStart, hsize, sectorSize]
  omega

theorem readClusterSec_congr (hf : f.Located)
    (hroot : f.vid.maxRootEntries.toNat * dirEntrySize % f.vid.clusterSize = 0)
    (hreads : Reads d f image) (h : SameVolume d d' f image image') {c : UInt16}
    (hc : c.toNat < 2 + f.vid.roots) (s : Nat) :
    readClusterSec d' f c s = readClusterSec d f c s := by
  unfold readClusterSec
  split
  · rfl
  · rename_i htwo
    split
    · rfl
    · rename_i hs
      rw [UInt16.lt_iff_toNat_lt, show (2 : UInt16).toNat = 2 from rfl] at htwo
      apply h.hddReadSector_eq hreads
      have hmul := Nat.mul_le_mul_right f.vid.sectorsPerCluster.toNat
        (show c.toNat - 2 + 1 ≤ f.vid.roots by omega)
      rw [Nat.succ_mul] at hmul
      rw [clusterSec_toNat hf (by omega) (by omega), dataStart_eq hroot]
      omega

theorem rootdirGetEntryNum_congr (hf : f.Located) (hspc : 0 < f.vid.sectorsPerCluster.toNat)
    (hroot : f.vid.maxRootEntries.toNat * dirEntrySize % f.vid.clusterSize = 0)
    (hreads : Reads d f image) (h : SameVolume d d' f image image') (num : Nat) :
    rootdirGetEntryNum d' f num = rootdirGetEntryNum d f num := by
  have hpos := Vid.clusterSize_pos hspc
  have hlt := Vid.roots_lt hspc
  unfold rootdirGetEntryNum
  dsimp only
  rw [udiv_of_pos hpos, ok_bind, ok_bind, Vid.rootClusters_eq hspc, ok_bind, ok_bind]
  by_cases hsteps : num * dirEntrySize % 2 ^ 32 / f.vid.clusterSize ≥ f.vid.roots
  · rw [if_pos hsteps, if_pos hsteps]
  · have hclu : (UInt16.ofNat startingRootCluNum +
        UInt16.ofNat (num * dirEntrySize % 2 ^ 32 / f.vid.clusterSize)).toNat <
        2 + f.vid.roots := by
      rw [UInt16.toNat_add, UInt16.toNat_ofNat', UInt16.toNat_ofNat', startingRootCluNum]
      generalize num * dirEntrySize % 2 ^ 32 / f.vid.clusterSize = steps at hsteps ⊢
      omega
    rw [if_neg hsteps, if_neg hsteps]
    simp only [readClusterSec_congr hf hroot hreads h hclu]

theorem findEntryFrom_congr (hf : f.Located) (hspc : 0 < f.vid.sectorsPerCluster.toNat)
    (hroot : f.vid.maxRootEntries.toNat * dirEntrySize % f.vid.clusterSize = 0)
    (hreads : Reads d f image) (h : SameVolume d d' f image image') (filename : List UInt8) :
    ∀ n i, findEntryFrom d' f filename n i = findEntryFrom d f filename n i
  | 0, _ => rfl
  | n + 1, i => by
      rw [findEntryFrom, findEntryFrom, rootdirGetEntryNum_congr hf hspc hroot hreads h,
        findEntryFrom_congr hf hspc hroot hreads h filename n (i + 1)]

/-- An entry can only be found when the root directory has a cluster. -/
theorem roots_pos_of_found {filename : List UInt8} {de : DirEntry}
    (h : rootdirFindEntry d f filename = .ok (some de)) : 0 < f.vid.roots := by
  have hspc := spc_pos_of_found h
  by_contra hroots
  unfold rootdirFindEntry at h
  cases hmax : f.vid.maxRootEntries.toNat with
  | zero =>
      rw [hmax] at h
      cases h
  | succ n =>
      rw [hmax, findEntryFrom, rootdirGetEntryNum] at h
      dsimp only at h
      rw [udiv_of_pos (Vid.clusterSize_pos hspc), ok_bind, Vid.rootClusters_eq hspc, ok_bind,
        if_pos (Nat.le_trans (Nat.le_of_not_lt hroots) (Nat.zero_le _))] at h
      cases h

/-! ### The chain -/

variable {filename : List UInt8} {de : DirEntry} {c : Nat → UInt16} {buf : Nat → UInt8}
  {bufSize : UInt32} {numSecs : Nat}

theorem loadMax_le (de : DirEntry) (bufSize : UInt32) : loadMax de bufSize ≤ de.size.toNat :=
  Nat.min_le_left _ _

theorem FatChain.isData (hc : FatChain f.vid image numSecs de c) {k : Nat}
    (hk : f.vid.clusterSize * k < de.size.toNat) : IsData f (c k) := hc.data k hk

theorem clusterSec_dataSector (hf : f.Located)
    (hroot : f.vid.maxRootEntries.toNat * dirEntrySize % f.vid.clusterSize = 0) {n : UInt16}
    (hn : IsData f n) {s : Nat} (hs : s < f.vid.sectorsPerCluster.toNat) :
    (clusterSec f (internal f n) s).toNat = dataSector f.vid n s := by
  have hspc : 0 < f.vid.sectorsPerCluster.toNat := by omega
  have hint := hn.internal_toNat hspc
  have htwo := hn.1
  have hmul := roots_mul hroot
  have hsplit : (n.toNat + f.vid.roots - 2) * f.vid.sectorsPerCluster.toNat =
      (n.toNat - 2) * f.vid.sectorsPerCluster.toNat +
        f.vid.roots * f.vid.sectorsPerCluster.toNat := by
    rw [← Nat.add_mul]
    congr 1
    omega
  rw [clusterSec_toNat hf (by omega) hs, hint, dataSector, hsplit, hmul]
  omega

theorem Reads.read_dataSector (hreads : Reads d f image) (hf : f.Located)
    (hroot : f.vid.maxRootEntries.toNat * dirEntrySize % f.vid.clusterSize = 0) {n : UInt16}
    (hn : IsData f n)
    (hin : dataSector f.vid n 0 + f.vid.sectorsPerCluster.toNat ≤
      (d.partitionEntry f.partitionNum).numSecs.toNat) {s : Nat}
    (hs : s < f.vid.sectorsPerCluster.toNat) :
    readClusterSec d f (internal f n) s = some (image (dataSector f.vid n s)) := by
  have hspc : 0 < f.vid.sectorsPerCluster.toNat := by omega
  have hint := hn.internal_toNat hspc
  have htwo := hn.1
  have hsec := clusterSec_dataSector hf hroot hn hs
  have hlt : clusterSec f (internal f n) s < (d.partitionEntry f.partitionNum).numSecs := by
    rw [UInt32.lt_iff_toNat_lt, hsec]
    simp only [dataSector] at hin ⊢
    omega
  rw [readClusterSec, if_neg, if_neg (Nat.not_le.mpr hs), readSector, hreads.hddReadSector_eq,
    if_pos hlt, hsec]
  rw [UInt16.lt_iff_toNat_lt, show (2 : UInt16).toNat = 2 from rfl]
  omega

theorem FatChain.linkOf_eq
    (hc : FatChain f.vid image (d.partitionEntry f.partitionNum).numSecs.toNat de c)
    (hreads : Reads d f image) (hf : f.Located)
    (hspc : 0 < f.vid.sectorsPerCluster.toNat) (hpos : 0 < f.vid.roots) {k : Nat}
    (hk : f.vid.clusterSize * (k + 1) < de.size.toNat) :
    linkOf d f (c k) = some (c (k + 1)) := by
  have hk' : f.vid.clusterSize * k < de.size.toNat := by
    rw [Nat.mul_succ] at hk
    omega
  have hdata := hc.data k hk'
  have hin := hc.inside k hk'
  have hnext := hc.data (k + 1) hk
  have hfatsec : (UInt32.ofNat ((c k).toNat / 256) + f.startingFatSecNum).toNat =
      f.vid.reservedSectors.toNat + (c k).toNat / 256 := by
    have hres := f.vid.reservedSectors.toNat_lt
    have hck := (c k).toNat_lt
    rw [UInt32.toNat_add, UInt32.toNat_ofNat', hf.fat]
    omega
  have hlt : UInt32.ofNat ((c k).toNat / 256) + f.startingFatSecNum <
      (d.partitionEntry f.partitionNum).numSecs := by
    have hmul := Nat.le_mul_of_pos_right ((c k).toNat - 2) hspc
    rw [UInt32.lt_iff_toNat_lt, hfatsec]
    rw [dataSector, sectorSize] at hin
    omega
  have hword : fatWord d f (c k).toNat = some (c (k + 1)) := by
    rw [fatWord, hreads.hddReadSector_eq, if_pos hlt, hfatsec, Option.map_some]
    exact congrArg some (hc.link k hk).2
  have hzero : c (k + 1) ≠ 0 := by
    intro h
    rw [h] at hnext
    exact absurd hnext.1 (by decide)
  have hend : c (k + 1) ≠ 0xffff := by
    intro h
    rw [h, show (0xffff : UInt16).toNat = 65535 from rfl] at hnext
    omega
  rw [linkOf, if_pos (hc.isData hk'), hword]
  simp [Option.filter, hzero, hend]

theorem FatChain.chain_eq (hc : FatChain f.vid image (d.partitionEntry f.partitionNum).numSecs.toNat
    de c) (hreads : Reads d f image) (hf : f.Located)
    (hspc : 0 < f.vid.sectorsPerCluster.toNat) (height : f.vid.roots = 8) :
    ∀ k, f.vid.clusterSize * k < de.size.toNat → chain d f de.startingCluster k = some (c k)
  | 0, _ => by rw [chain, hc.start]
  | k + 1, hk => by
      have hk' : f.vid.clusterSize * k < de.size.toNat := by
        rw [Nat.mul_succ] at hk
        omega
      rw [chain, hc.chain_eq hreads hf hspc height k hk', Option.bind_some, follow,
        hc.linkOf_eq hreads hf hspc (by omega) hk, Option.map_some, height]
      exact congrArg some (UInt16.add_sub_cancel _ _)

/-- A load that only needs sectors of clusters which the loop reaches as they
are on the disk is correct. -/
theorem FatChain.loadsFile
    (hc : FatChain f.vid image (d.partitionEntry f.partitionNum).numSecs.toNat de c)
    (hreads : Reads d f image) (hf : f.Located)
    (hroot : f.vid.maxRootEntries.toNat * dirEntrySize % f.vid.clusterSize = 0)
    (hde : rootdirFindEntry d f filename = .ok (some de))
    (hchain : ∀ k, f.vid.clusterSize * k < loadMax de bufSize →
      chain d f de.startingCluster k = some (c k))
    (hsmall : loadMax de bufSize < 2 ^ 31) :
    LoadsFile d f image filename de c buf bufSize := by
  have hspc := spc_pos_of_found hde
  have hpos := Vid.clusterSize_pos hspc
  have hle := loadMax_le de bufSize
  have hsector : ∀ j, sectorSize * j < loadMax de bufSize →
      fileSector d f de.startingCluster j =
        some (image (dataSector f.vid (c (j / f.vid.sectorsPerCluster.toNat))
          (j % f.vid.sectorsPerCluster.toNat))) := by
    intro j hj
    have hsplit := Nat.div_add_mod j f.vid.sectorsPerCluster.toNat
    have hk : f.vid.clusterSize * (j / f.vid.sectorsPerCluster.toNat) < loadMax de bufSize := by
      have hmul : f.vid.clusterSize * (j / f.vid.sectorsPerCluster.toNat) =
          sectorSize * (f.vid.sectorsPerCluster.toNat * (j / f.vid.sectorsPerCluster.toNat)) := by
        rw [Vid.clusterSize]
        ring
      rw [hmul]
      rw [sectorSize] at hj ⊢
      omega
    rw [fileSector, hchain _ hk, Option.bind_some]
    exact hreads.read_dataSector hf hroot (hc.isData (by omega)) (hc.inside _ (by omega))
      (Nat.mod_lt _ hspc)
  obtain ⟨out, hout, hholds, -⟩ := fat16Load_readable buf hde
    (show Readable d f de.startingCluster (loadMax de bufSize) from
      fun j hj => by rw [hsector j hj]; rfl)
  rw [toSsize_of_lt hsmall] at hout
  refine ⟨out, hout, fun i hi => ?_⟩
  have hmod : i % f.vid.clusterSize / sectorSize =
      i / sectorSize % f.vid.sectorsPerCluster.toNat := by
    rw [Vid.clusterSize, Nat.mul_comm, Nat.mod_mul_right_div_self]
  rw [hholds i, if_pos hi, fileByte, hsector (i / sectorSize) (by rw [sectorSize]; omega),
    div_clusterSize, hmod]

/-! ### The second cluster -/

/-- Of a correct load of more than a cluster: the first byte that the loop takes
from the second cluster, `c 1 + 8` in internal numbers, is the right one. -/
theorem LoadsFile.second_cluster (h : LoadsFile d f image filename de c buf bufSize)
    (hc : FatChain f.vid image (d.partitionEntry f.partitionNum).numSecs.toNat de c)
    (hreads : Reads d f image) (hf : f.Located) (hpos : 0 < f.vid.roots)
    (hde : rootdirFindEntry d f filename = .ok (some de))
    (hmore : f.vid.clusterSize < loadMax de bufSize) (hsmall : loadMax de bufSize < 2 ^ 31) :
    2 ≤ (c 1 + 8).toNat ∧ image (clusterSec f (c 1 + 8) 0).toNat 0 =
      image (dataSector f.vid (c 1) 0) 0 := by
  have hspc := spc_pos_of_found hde
  have hcs := Vid.clusterSize_pos hspc
  have hle := loadMax_le de bufSize
  rcases h with ⟨out, hout, hbytes⟩
  have hread : Readable d f de.startingCluster (loadMax de bufSize) := by
    by_contra hno
    obtain ⟨out', hout', -⟩ := fat16Load_not_readable buf hde hno
    have hret := congrArg Prod.fst (Except.ok.inj (hout'.symm.trans hout))
    dsimp only at hret
    omega
  obtain ⟨out', hout', hholds, -⟩ := fat16Load_readable buf hde hread
  obtain rfl : out' = out := congrArg Prod.snd (Except.ok.inj (hout'.symm.trans hout))
  -- Byte `clusterSize` is the first of sector number `sectorsPerCluster`.
  have hdiv : f.vid.clusterSize / sectorSize = f.vid.sectorsPerCluster.toNat :=
    Nat.mul_div_cancel _ (by decide)
  have hmod : f.vid.clusterSize % sectorSize = 0 := Nat.mul_mod_left _ _
  have hchain : chain d f de.startingCluster 1 =
      some (c 1 + 8 - UInt16.ofNat f.vid.roots) := by
    rw [chain, chain, Option.bind_some, follow, ← hc.start,
      hc.linkOf_eq hreads hf hspc hpos (by rw [Nat.mul_one]; omega)]
    rfl
  have hsec : fileSector d f de.startingCluster f.vid.sectorsPerCluster.toNat =
      readClusterSec d f (c 1 + 8) 0 := by
    rw [fileSector, Nat.div_self hspc, hchain, Option.bind_some, internal_follow, Nat.mod_self]
  have hsome := hread f.vid.sectorsPerCluster.toNat (by
    rw [← hdiv, Nat.mul_div_cancel' (Nat.dvd_of_mod_eq_zero hmod)]
    exact hmore)
  rw [hsec] at hsome
  have htwo := two_le_of_readable hsome
  obtain ⟨sec, hsome⟩ := Option.isSome_iff_exists.mp hsome
  have hvalue : sec = image (clusterSec f (c 1 + 8) 0).toNat := by
    rw [readClusterSec, if_neg (by
        rw [UInt16.lt_iff_toNat_lt]
        exact Nat.not_lt.mpr htwo), if_neg (by omega), readSector,
      hreads.hddReadSector_eq] at hsome
    split at hsome
    · exact (Option.some.inj hsome).symm
    · cases hsome
  have hbyte := hbytes f.vid.clusterSize hmore
  rw [hholds, if_pos hmore, fileByte, hdiv, hsec, hsome, hmod, Nat.div_self hcs,
    Nat.mod_self, Nat.zero_div, hvalue] at hbyte
  exact ⟨htwo, hbyte⟩

theorem second_cluster_ne (hf : f.Located) (hspc : 0 < f.vid.sectorsPerCluster.toNat)
    (hroot : f.vid.maxRootEntries.toNat * dirEntrySize % f.vid.clusterSize = 0) {n : UInt16}
    (hn : IsData f n) (htwo : 2 ≤ (n + 8).toNat) (hne : f.vid.roots ≠ 8) :
    (clusterSec f (n + 8) 0).toNat ≠ dataSector f.vid n 0 := by
  intro h
  have hint := hn.internal_toNat hspc
  have hn2 := hn.1
  rw [← clusterSec_dataSector hf hroot hn hspc, clusterSec_toNat hf htwo hspc,
    clusterSec_toNat hf (by omega) hspc] at h
  have hmul : ((n + 8).toNat - 2) * f.vid.sectorsPerCluster.toNat =
      ((internal f n).toNat - 2) * f.vid.sectorsPerCluster.toNat := by omega
  have heq := Nat.eq_of_mul_eq_mul_right hspc hmul
  have hwrap := hn.2
  have hlt := Vid.roots_lt hspc
  rw [UInt16.toNat_add, show (8 : UInt16).toNat = 8 from rfl] at heq htwo
  omega

/-! ### Other contents of the data area -/

def flipFirst (image : Nat → Sector) (s : Nat) : Nat → Sector :=
  Function.update image s (Function.update (image s) 0 (image s 0 + 1))

def withImage (d : Drive) (f : Volume) (image : Nat → Sector) : Drive where
  partitionEntry := d.partitionEntry
  ataReadSectorLba lba :=
    some (image (lba - (d.partitionEntry f.partitionNum).startingSecLba).toNat)

theorem sameVolume_withImage (hreads : Reads d f image)
    (hmeta : ∀ s < dataStart f.vid, image' s = image s) :
    SameVolume d (withImage d f image') f image image' where
  partition := rfl
  reads :=
    { valid := hreads.valid
      sector := fun r _ => by
        change some (image' ((d.partitionEntry f.partitionNum).startingSecLba + r -
          (d.partitionEntry f.partitionNum).startingSecLba).toNat) = _
        rw [UInt32.add_comm, UInt32.add_sub_cancel] }
  metadata := hmeta

theorem FatChain.congr (hc : FatChain f.vid image numSecs de c) (hfats : 0 < f.vid.numFats.toNat)
    (hmeta : ∀ s < dataStart f.vid, image' s = image s) :
    FatChain f.vid image' numSecs de c where
  start := hc.start
  data := hc.data
  inside := hc.inside
  link k hk := by
    obtain ⟨hfat, hnext⟩ := hc.link k hk
    have hmul := Nat.le_mul_of_pos_left f.vid.sectorsPerFat.toNat hfats
    have hlt : f.vid.reservedSectors.toNat + (c k).toNat / 256 < dataStart f.vid := by
      rw [dataStart, sectorSize]
      omega
    refine ⟨hfat, ?_⟩
    rw [← hnext, fatEntry, fatEntry, hmeta _ hlt]

theorem dataStart_le_dataSector (v : Vid) (hroot : v.maxRootEntries.toNat * dirEntrySize %
    v.clusterSize = 0) (n : UInt16) (s : Nat) : dataStart v ≤ dataSector v n s := by
  have hdvd : sectorSize ∣ v.maxRootEntries.toNat * dirEntrySize :=
    Nat.dvd_trans ⟨v.sectorsPerCluster.toNat, Nat.mul_comm _ _⟩ (Nat.dvd_of_mod_eq_zero hroot)
  rcases hdvd with ⟨q, hq⟩
  rw [dataStart, dataSector, hq, sectorSize]
  omega

/-- On every volume whose root directory fills whole clusters, and for every
entry whose chain lies in the FAT and in the partition: `fat16_load` is correct
for all contents of the data area exactly when there are 8 root clusters or at
most one cluster is loaded, and the count is below `2^31`. -/
theorem fat16Load_contents_iff (hf : Mounted d f) (hreads : Reads d f image)
    (hroot : f.vid.maxRootEntries.toNat * dirEntrySize % f.vid.clusterSize = 0)
    (hfats : 0 < f.vid.numFats.toNat) (hde : rootdirFindEntry d f filename = .ok (some de))
    (hc : FatChain f.vid image (d.partitionEntry f.partitionNum).numSecs.toNat de c)
    (buf : Nat → UInt8) (bufSize : UInt32) :
    (∀ d' image', SameVolume d d' f image image' →
        LoadsFile d' f image' filename de c buf bufSize) ↔
      (f.vid.roots = 8 ∨ loadMax de bufSize ≤ f.vid.clusterSize) ∧
        loadMax de bufSize < 2 ^ 31 := by
  have hspc := spc_pos_of_found hde
  have hpos := roots_pos_of_found hde
  have hloc := hf.located
  have hlt := loadMax_lt de bufSize
  have hle := loadMax_le de bufSize
  have hfind : ∀ d' image', SameVolume d d' f image image' →
      rootdirFindEntry d' f filename = .ok (some de) := by
    intro d' image' h
    rw [← hde]
    exact findEntryFrom_congr hloc hspc hroot hreads h filename _ _
  have hchain : ∀ d' image', SameVolume d d' f image image' →
      FatChain f.vid image' (d'.partitionEntry f.partitionNum).numSecs.toNat de c := by
    intro d' image' h
    rw [h.partition]
    exact hc.congr hfats h.metadata
  constructor
  · intro h
    have hload := h d image (SameVolume.refl hreads)
    have hsmall : loadMax de bufSize < 2 ^ 31 := by
      by_contra hbig
      rcases hload with ⟨out, hout, -⟩
      have hret : toSsize (loadMax de bufSize) = (loadMax de bufSize : Int) ∨
          (-1 : Int) = (loadMax de bufSize : Int) := by
        by_cases hread : Readable d f de.startingCluster (loadMax de bufSize)
        · obtain ⟨out', hout', -⟩ := fat16Load_readable buf hde hread
          exact .inl (congrArg Prod.fst (Except.ok.inj (hout'.symm.trans hout)))
        · obtain ⟨out', hout', -⟩ := fat16Load_not_readable buf hde hread
          exact .inr (congrArg Prod.fst (Except.ok.inj (hout'.symm.trans hout)))
      rw [toSsize_of_le (by omega) hlt] at hret
      omega
    refine ⟨?_, hsmall⟩
    by_contra hcond
    obtain ⟨hne, hmore⟩ := not_or.mp hcond
    have hmore := Nat.not_le.mp hmore
    have hmore' : f.vid.clusterSize * 1 < de.size.toNat := by omega
    obtain ⟨htwo, hbyte⟩ := hload.second_cluster hc hreads hloc hpos hde hmore hsmall
    have hsec := second_cluster_ne hloc hspc hroot (hc.isData hmore') htwo hne
    -- The first byte of the right sector is changed, the sector that is read is not.
    have hmeta : ∀ s < dataStart f.vid,
        flipFirst image (dataSector f.vid (c 1) 0) s = image s := fun s hs => by
      have hstart := dataStart_le_dataSector f.vid hroot (c 1) 0
      exact Function.update_of_ne (by omega) _ _
    have hsame := sameVolume_withImage hreads hmeta
    obtain ⟨-, hflip⟩ := (h _ _ hsame).second_cluster (hchain _ _ hsame) hsame.reads hloc hpos
      (hfind _ _ hsame) hmore hsmall
    rw [flipFirst, Function.update_of_ne hsec, hbyte, Function.update_self,
      Function.update_self] at hflip
    exact absurd hflip (by grind)
  · rintro ⟨hcond, hsmall⟩ d' image' h
    refine (hchain d' image' h).loadsFile h.reads hloc hroot (hfind d' image' h) (fun k hk => ?_)
      hsmall
    rcases hcond with height | hone
    · exact (hchain d' image' h).chain_eq h.reads hloc hspc height k (by omega)
    · obtain rfl : k = 0 := by
        by_contra hk0
        have := Nat.le_mul_of_pos_right f.vid.clusterSize (Nat.pos_of_ne_zero hk0)
        omega
      rw [chain, hc.start]

end

/-! ### A file of two clusters -/

/-- The volume with a file of 513 bytes in the clusters 2 and 3; with 16 root
entries cluster 3 is sector 4 and holds `0x55`. -/
def sampleFileSectors (maxRoot : UInt8) : Nat → Sector :=
  sampleSectors maxRoot 2 513 fun n _ => if n = 4 then 0x55 else 0

def sampleClusters (k : Nat) : UInt16 := UInt16.ofNat (k + 2)

theorem sample_reads (image : Nat → Sector) :
    Reads (sampleDrive image) (sampleVolume image) image where
  valid := rfl
  sector r hr := by
    have hnum : r < 1000 := hr
    have hlt : r.toNat < 1000 := UInt32.lt_iff_toNat_lt.mp hnum
    have hback : (1 + r).toNat - 1 = r.toNat := by
      rw [UInt32.toNat_add, UInt32.toNat_one]
      omega
    exact congrArg (fun k => some (image k)) hback

theorem sample_fatChain {v : Vid} {image : Nat → Sector} {de : DirEntry}
    (hc : de.startingCluster = 2) (hz : de.size = 513) (hsize : v.clusterSize = 512)
    (hroots : v.roots < 60000) (hin : ∀ k < 2, dataSector v (sampleClusters k) 0 +
      v.sectorsPerCluster.toNat ≤ 1000) (hspf : 0 < v.sectorsPerFat.toNat)
    (hfat : fatEntry v image 2 = 3) : FatChain v image 1000 de sampleClusters where
  start := hc.symm
  data k hk := by
    rw [hsize, hz, show (513 : UInt32).toNat = 513 from rfl] at hk
    rw [sampleClusters, UInt16.toNat_ofNat_of_lt' (show k + 2 < 65536 by omega)]
    omega
  inside k hk := by
    rw [hsize, hz, show (513 : UInt32).toNat = 513 from rfl] at hk
    exact hin k (by omega)
  link k hk := by
    rw [hsize, hz, show (513 : UInt32).toNat = 513 from rfl] at hk
    obtain rfl : k = 0 := by omega
    exact ⟨hspf, hfat⟩

theorem fat16Load_contents_sample :
    ∃ de, rootdirFindEntry (sampleDrive (sampleFileSectors 128))
        (sampleVolume (sampleFileSectors 128)) sampleName = .ok (some de) ∧
      LoadsFile (sampleDrive (sampleFileSectors 128)) (sampleVolume (sampleFileSectors 128))
        (sampleFileSectors 128) sampleName de sampleClusters (fun _ => 0) 1024 := by
  have hfound : foundAt (sampleDrive (sampleFileSectors 128))
      (sampleVolume (sampleFileSectors 128)) sampleName = some (2, 513) := by decide
  obtain ⟨de, hde, hc, hz⟩ := found_of_foundAt hfound
  have hmax : loadMax de 1024 = 513 := by
    rw [loadMax, hz]
    rfl
  have hreads := sample_reads (sampleFileSectors 128)
  refine ⟨de, hde, (fat16Load_contents_iff ⟨clearedVolume, 0, rfl⟩ hreads (by decide) (by decide)
    hde (sample_fatChain hc hz (by decide) (by decide) (by decide) (by decide) (by decide))
    (fun _ => 0) 1024).mpr ⟨.inl (by decide), ?_⟩ _ _ (SameVolume.refl hreads)⟩
  rw [hmax]
  decide

/-- With 16 root entries, which fill one cluster, byte 512 of the file is taken
from sector 11 instead of sector 4. -/
theorem fat16Load_second_cluster_wrong :
    ∃ de, Mounted (sampleDrive (sampleFileSectors 16)) (sampleVolume (sampleFileSectors 16)) ∧
      Reads (sampleDrive (sampleFileSectors 16)) (sampleVolume (sampleFileSectors 16))
        (sampleFileSectors 16) ∧
      rootdirFindEntry (sampleDrive (sampleFileSectors 16)) (sampleVolume (sampleFileSectors 16))
        sampleName = .ok (some de) ∧
      FatChain (sampleVolume (sampleFileSectors 16)).vid (sampleFileSectors 16) 1000 de
        sampleClusters ∧
      ¬ LoadsFile (sampleDrive (sampleFileSectors 16)) (sampleVolume (sampleFileSectors 16))
        (sampleFileSectors 16) sampleName de sampleClusters (fun _ => 0) 1024 := by
  have hfound : foundAt (sampleDrive (sampleFileSectors 16))
      (sampleVolume (sampleFileSectors 16)) sampleName = some (2, 513) := by decide
  obtain ⟨de, hde, hc, hz⟩ := found_of_foundAt hfound
  have hmax : loadMax de 1024 = 513 := by
    rw [loadMax, hz]
    rfl
  have hf : Mounted (sampleDrive (sampleFileSectors 16)) (sampleVolume (sampleFileSectors 16)) :=
    ⟨clearedVolume, 0, rfl⟩
  have hreads := sample_reads (sampleFileSectors 16)
  have hchain : FatChain (sampleVolume (sampleFileSectors 16)).vid (sampleFileSectors 16) 1000 de
      sampleClusters :=
    sample_fatChain hc hz (by decide) (by decide) (by decide) (by decide) (by decide)
  refine ⟨de, hf, hreads, hde, hchain, fun h => ?_⟩
  have hsize : (sampleVolume (sampleFileSectors 16)).vid.clusterSize = 512 := by decide
  obtain ⟨-, hbyte⟩ := h.second_cluster hchain hreads hf.located (by decide) hde
    (by rw [hmax, hsize]; decide) (by rw [hmax]; decide)
  exact absurd hbyte (by decide)

end Kboot86.Fat16
