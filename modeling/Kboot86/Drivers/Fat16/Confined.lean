import Kboot86.Drivers.Fat16.LoadSpec
import Mathlib.Tactic.Ring

/-!
# Does a load stay in the data area?

`LoadConfined` is what one would like of `fat16_load` on any disk: a
non-negative count means that all bytes came from the data area and that only
links of the first FAT to data clusters were followed, and everything else is
-1. It holds exactly when the chain, walked with the source's distance of 8, is
confined as far as it is used, or breaks off, or the count turns negative in
the right way.
-/

namespace Kboot86.Fat16

def dataStart (v : Vid) : Nat :=
  v.reservedSectors.toNat + v.numFats.toNat * v.sectorsPerFat.toNat +
    (v.maxRootEntries.toNat * dirEntrySize + 511) / sectorSize

def Vid.rootsUp (v : Vid) : Nat :=
  (v.maxRootEntries.toNat * dirEntrySize + (v.clusterSize - 1)) / v.clusterSize

/-- What an access may be: a sector of the data area, or a link to a data
cluster read from the first FAT. -/
def InVolume (v : Vid) : Access → Prop
  | .data sec => dataStart v ≤ sec
  | .link fatSec value => fatSec < v.sectorsPerFat.toNat ∧ 2 ≤ value.toNat ∧ value.toNat ≤ 0xffef

def LoadConfined (d : Drive) (f : Volume) (filename : List UInt8) (buf : Nat → UInt8)
    (bufSize : UInt32) : Prop :=
  ∃ ret out, fat16Load d f filename buf bufSize = .ok (ret, out) ∧
    (0 ≤ ret → ∀ e ∈ out.log, InVolume f.vid e) ∧ (ret < 0 → ret = -1)

/-- The cluster lies in the data area and its internal number does not wrap. -/
def InData (f : Volume) (n : UInt16) : Prop :=
  f.vid.rootsUp + 2 ≤ n.toNat + f.vid.roots ∧ n.toNat + f.vid.roots < 65536

/-- The clusters of the first `m` bytes lie in the data area, and the links
between them are those of the first FAT to data clusters. -/
structure ChainConfined (d : Drive) (f : Volume) (start : UInt16) (m : Nat) : Prop where
  cluster : ∀ k n, f.vid.clusterSize * k < m → chain d f start k = some n → InData f n
  link : ∀ k n w, f.vid.clusterSize * (k + 1) < m → chain d f start k = some n →
    linkOf d f n = some w →
    n.toNat / 256 < f.vid.sectorsPerFat.toNat ∧ 2 ≤ w.toNat ∧ w.toNat ≤ 0xffef

section

variable {d : Drive} {f : Volume} {start : UInt16}

theorem clusterSec_toNat (hf : f.Located) {c : UInt16} (hc : 2 ≤ c.toNat) {s : Nat}
    (hs : s < f.vid.sectorsPerCluster.toNat) :
    (clusterSec f c s).toNat =
      s + ((c.toNat - 2) * f.vid.sectorsPerCluster.toNat +
        (f.vid.reservedSectors.toNat + f.vid.numFats.toNat * f.vid.sectorsPerFat.toNat)) := by
  have hstart := hf.clu
  have hsub : (c - 2).toNat = c.toNat - 2 :=
    UInt16.toNat_sub_of_le _ _ (UInt16.le_iff_toNat_le.mpr hc)
  have hspc := f.vid.sectorsPerCluster.toNat_lt
  have hres := f.vid.reservedSectors.toNat_lt
  have hclu := Nat.mul_le_mul (Nat.le_of_lt_succ (Nat.lt_of_le_of_lt (Nat.sub_le c.toNat 2)
    c.toNat_lt)) (Nat.le_of_lt_succ hspc)
  have hfats := Nat.mul_le_mul (Nat.le_of_lt_succ f.vid.numFats.toNat_lt)
    (Nat.le_of_lt_succ f.vid.sectorsPerFat.toNat_lt)
  rw [clusterSec, clu2rsec, UInt32.toNat_add, UInt32.toNat_add, hstart, hsub,
    UInt32.toNat_ofNat', UInt32.toNat_ofNat']
  omega

theorem Vid.roots_le_rootsUp (v : Vid) : v.roots ≤ v.rootsUp :=
  Nat.div_le_div_right (Nat.le_add_right _ _)

theorem rootSectors_le_iff (hspc : 0 < f.vid.sectorsPerCluster.toNat) (y : Nat) :
    (f.vid.maxRootEntries.toNat * dirEntrySize + 511) / sectorSize ≤
      y * f.vid.sectorsPerCluster.toNat ↔ f.vid.rootsUp ≤ y := by
  have hpos := Vid.clusterSize_pos hspc
  have hmul : f.vid.clusterSize * y = sectorSize * (y * f.vid.sectorsPerCluster.toNat) := by
    rw [Vid.clusterSize]
    ring
  rw [Vid.rootsUp, Nat.div_le_iff_le_mul_add_pred hpos,
    Nat.div_le_iff_le_mul_add_pred (by decide), hmul, sectorSize]
  omega

theorem InData.isData {n : UInt16} (h : InData f n) : IsData f n := by
  have hup := f.vid.roots_le_rootsUp
  have h1 := h.1
  exact ⟨by omega, h.2⟩

theorem IsData.internal_toNat (hspc : 0 < f.vid.sectorsPerCluster.toNat) {n : UInt16}
    (h : IsData f n) : (internal f n).toNat = n.toNat + f.vid.roots := by
  rw [Fat16.internal_toNat hspc, Nat.mod_eq_of_lt h.2]

theorem dataStart_le_iff (hf : f.Located) (hspc : 0 < f.vid.sectorsPerCluster.toNat)
    {n : UInt16} (hc : 2 ≤ (internal f n).toNat) :
    dataStart f.vid ≤ (clusterSec f (internal f n) 0).toNat ↔ InData f n := by
  have hroots := rootSectors_le_iff hspc ((internal f n).toNat - 2)
  have hup := f.vid.roots_le_rootsUp
  have hlt := internal_lt_iff hspc n
  rw [startingRootCluNum] at hlt
  rw [clusterSec_toNat hf hc hspc, dataStart, InData]
  constructor
  · intro h
    have hle := hroots.mp (by omega)
    have hdata : IsData f n := by
      by_contra hno
      have := hlt.mpr hno
      omega
    rw [hdata.internal_toNat hspc] at hle
    rcases hdata with ⟨htwo, hwrap⟩
    omega
  · intro h
    have hint := (InData.isData h).internal_toNat hspc
    have := hroots.mpr (by omega)
    omega

theorem dataStart_le (hf : f.Located) (hspc : 0 < f.vid.sectorsPerCluster.toNat)
    {n : UInt16} (h : InData f n) {s : Nat} (hs : s < f.vid.sectorsPerCluster.toNat) :
    dataStart f.vid ≤ (clusterSec f (internal f n) s).toNat := by
  have hint := h.isData.internal_toNat hspc
  have hc : 2 ≤ (internal f n).toNat := by
    have := h.isData.1
    omega
  have h0 := (dataStart_le_iff hf hspc hc).mpr h
  rw [clusterSec_toNat hf hc hspc] at h0
  rw [clusterSec_toNat hf hc hs]
  omega

theorem two_le_of_readable {c : UInt16} {s : Nat}
    (h : (readClusterSec d f c s).isSome = true) : 2 ≤ c.toNat := by
  by_contra hlt
  rw [readClusterSec, if_pos (by rw [UInt16.lt_iff_toNat_lt]; exact Nat.not_le.mp hlt)] at h
  cases h

theorem lt_sectorsBegun {j m : Nat} : j < sectorsBegun m ↔ sectorSize * j < m := by
  simp only [sectorsBegun, sectorSize]
  omega

theorem log_confined_iff (hf : f.Located) (hspc : 0 < f.vid.sectorsPerCluster.toNat) {m : Nat}
    (hread : Readable d f start m) :
    (∀ e ∈ (List.range (sectorsBegun m)).flatMap (sectorLog d f start), InVolume f.vid e) ↔
      ChainConfined d f start m := by
  have hsize : ∀ k, f.vid.clusterSize * k = sectorSize * (f.vid.sectorsPerCluster.toNat * k) := by
    intro k
    rw [Vid.clusterSize]
    ring
  constructor
  · intro h
    constructor
    · intro k n hk hn
      rw [hsize] at hk
      have hdiv : f.vid.sectorsPerCluster.toNat * k / f.vid.sectorsPerCluster.toNat = k :=
        Nat.mul_div_cancel_left _ hspc
      have hmod : f.vid.sectorsPerCluster.toNat * k % f.vid.sectorsPerCluster.toNat = 0 :=
        Nat.mul_mod_right _ _
      have hsome := hread _ hk
      rw [fileSector, hdiv, hn, Option.bind_some, hmod] at hsome
      refine (dataStart_le_iff hf hspc (two_le_of_readable hsome)).mp ?_
      refine h (.data _) (List.mem_flatMap.mpr ⟨_, List.mem_range.mpr (lt_sectorsBegun.mpr hk), ?_⟩)
      rw [sectorLog, hdiv, hn, hmod]
      simp
    · intro k n w hk hn hw
      rw [hsize] at hk
      have hdiv : f.vid.sectorsPerCluster.toNat * (k + 1) / f.vid.sectorsPerCluster.toNat = k + 1 :=
        Nat.mul_div_cancel_left _ hspc
      refine h (.link _ _) (List.mem_flatMap.mpr
        ⟨_, List.mem_range.mpr (lt_sectorsBegun.mpr hk), List.mem_append_left _ ?_⟩)
      rw [clusterLog, hdiv, if_pos ⟨Nat.mul_mod_right _ _, by
        rw [Nat.mul_succ]
        omega⟩, Nat.add_sub_cancel, hn]
      simp [linkLog, hw]
  · intro h e he
    obtain ⟨j, hj, he⟩ := List.mem_flatMap.mp he
    have hj := lt_sectorsBegun.mp (List.mem_range.mp hj)
    have hsplit := Nat.div_add_mod j f.vid.sectorsPerCluster.toNat
    rcases List.mem_append.mp he with he | he
    · rw [clusterLog] at he
      split at he
      · rename_i hstart
        obtain ⟨n, hn, he⟩ := List.mem_flatMap.mp he
        obtain ⟨w, hw, rfl⟩ := List.mem_map.mp he
        have hpos : 0 < j / f.vid.sectorsPerCluster.toNat := by
          rw [Nat.div_pos_iff]
          refine ⟨hspc, Nat.le_of_dvd (by omega) (Nat.dvd_of_mod_eq_zero hstart.1)⟩
        refine h.link (j / f.vid.sectorsPerCluster.toNat - 1) n w ?_
          (Option.mem_toList.mp hn) (Option.mem_toList.mp hw)
        rw [hsize, Nat.sub_add_cancel hpos]
        rw [sectorSize] at hj ⊢
        omega
      · cases he
    · obtain ⟨n, hn, rfl⟩ := List.mem_map.mp he
      refine dataStart_le hf hspc (h.cluster _ n ?_ (Option.mem_toList.mp hn)) (Nat.mod_lt _ hspc)
      rw [hsize]
      rw [sectorSize] at hj ⊢
      omega

theorem loadMax_lt (de : DirEntry) (bufSize : UInt32) : loadMax de bufSize < 2 ^ 32 :=
  Nat.lt_of_le_of_lt (Nat.min_le_right _ _) bufSize.toNat_lt

/-- On every volume and for every entry: the load is confined exactly when a
sector that it needs cannot be read, or the count is `2^32 - 1`, or it is below
`2^31` and the chain is confined. -/
theorem fat16Load_confined_iff (hf : Mounted d f) (filename : List UInt8) (de : DirEntry)
    (hde : rootdirFindEntry d f filename = .ok (some de)) (buf : Nat → UInt8)
    (bufSize : UInt32) :
    LoadConfined d f filename buf bufSize ↔
      ¬ Readable d f de.startingCluster (loadMax de bufSize) ∨
        loadMax de bufSize = 2 ^ 32 - 1 ∨
        loadMax de bufSize < 2 ^ 31 ∧
          ChainConfined d f de.startingCluster (loadMax de bufSize) := by
  have hspc := spc_pos_of_found hde
  have hlt := loadMax_lt de bufSize
  by_cases hread : Readable d f de.startingCluster (loadMax de bufSize)
  · obtain ⟨out, hout, -, hlog⟩ := fat16Load_readable buf hde hread
    have hiff := log_confined_iff hf.located hspc hread
    rw [← hlog] at hiff
    have hret : LoadConfined d f filename buf bufSize ↔
        (0 ≤ toSsize (loadMax de bufSize) → ∀ e ∈ out.log, InVolume f.vid e) ∧
          (toSsize (loadMax de bufSize) < 0 → toSsize (loadMax de bufSize) = -1) := by
      rw [LoadConfined, hout]
      constructor
      · rintro ⟨ret, out', heq, h⟩
        cases heq
        exact h
      · exact fun h => ⟨_, out, rfl, h⟩
    rw [hret, hiff]
    by_cases hsmall : loadMax de bufSize < 2 ^ 31
    · rw [toSsize_of_lt hsmall]
      constructor
      · intro h
        exact .inr (.inr ⟨hsmall, h.1 (by omega)⟩)
      · rintro (h | h | h)
        · exact absurd hread h
        · omega
        · exact ⟨fun _ => h.2, fun _ => by omega⟩
    · rw [toSsize_of_le (by omega) hlt]
      constructor
      · intro h
        have := h.2 (by omega)
        exact .inr (.inl (by omega))
      · rintro (h | h | h)
        · exact absurd hread h
        · exact ⟨fun _ => by omega, fun _ => by omega⟩
        · omega
  · obtain ⟨out, hout, -⟩ := fat16Load_not_readable buf hde hread
    exact ⟨fun _ => .inl hread, fun _ => ⟨-1, out, hout, fun h => by omega, fun _ => rfl⟩⟩

end

/-! ### A small volume -/

def sampleName : List UInt8 := [107, 101, 114, 110, 101, 108, 46, 101, 108, 102]

/-- A boot sector with one sector for a cluster, one reserved sector, one FAT of
one sector and `maxRoot` root entries. -/
def sampleBoot (maxRoot : UInt8) : Sector := fun k =>
  if k = 0xd ∨ k = 0xe ∨ k = 0x10 ∨ k = 0x16 then 1 else if k = 0x11 then maxRoot else 0

def sampleFat : Sector := fun k => if k = 4 then 3 else if k = 6 ∨ k = 7 then 0xff else 0

def sampleRoot (start : UInt8) (size : Nat) : Sector := fun k =>
  if k = 26 then start
  else if 28 ≤ k ∧ k < 32 then byteOf size (k - 28)
  else [75, 69, 82, 78, 69, 76, 32, 32, 69, 76, 70, 0x20].getD k 0

/-- The sectors of the volume, with `data` beyond the first sector of the root
directory. -/
def sampleSectors (maxRoot start : UInt8) (size : Nat) (data : Nat → Sector) : Nat → Sector
  | 0 => sampleBoot maxRoot
  | 1 => sampleFat
  | 2 => sampleRoot start size
  | n => data n

def sampleDrive (image : Nat → Sector) : Drive where
  partitionEntry n := if n = 0 then ⟨true, true, 1, 1000⟩ else ⟨false, false, 0, 0⟩
  ataReadSectorLba lba := some (image (lba.toNat - 1))

def clearedVolume : Volume :=
  ⟨0, 0, 0, ⟨0, 0, 0, 0, 0, 0, fun _ => 0, fun _ => 0, 0⟩⟩

def sampleVolume (image : Nat → Sector) : Volume :=
  (fat16Init (sampleDrive image) clearedVolume 0).1

def foundAt (d : Drive) (f : Volume) (filename : List UInt8) : Option (UInt16 × UInt32) :=
  match rootdirFindEntry d f filename with
  | .ok (some de) => some (de.startingCluster, de.size)
  | _ => none

theorem found_of_foundAt {d : Drive} {f : Volume} {filename : List UInt8} {c : UInt16}
    {z : UInt32} (h : foundAt d f filename = some (c, z)) :
    ∃ de, rootdirFindEntry d f filename = .ok (some de) ∧ de.startingCluster = c ∧ de.size = z := by
  unfold foundAt at h
  split at h
  · rename_i de hde
    obtain ⟨hc, hz⟩ := Prod.mk.inj (Option.some.inj h)
    exact ⟨de, hde, hc, hz⟩
  · cases h

def loadTrace (d : Drive) (f : Volume) (filename : List UInt8) (bufSize : UInt32) :
    Option (Int × List Access) :=
  match fat16Load d f filename (fun _ => 0) bufSize with
  | .ok (ret, out) => some (ret, out.log)
  | .error _ => none

theorem fat16Load_confined_sample :
    LoadConfined (sampleDrive (sampleSectors 128 2 1 fun _ _ => 0))
      (sampleVolume (sampleSectors 128 2 1 fun _ _ => 0)) sampleName (fun _ => 0) 1 := by
  have hfound : foundAt (sampleDrive (sampleSectors 128 2 1 fun _ _ => 0))
      (sampleVolume (sampleSectors 128 2 1 fun _ _ => 0)) sampleName = some (2, 1) := by decide
  obtain ⟨de, hde, hc, hz⟩ := found_of_foundAt hfound
  have hmax : loadMax de 1 = 1 := by
    rw [loadMax, hz]
    rfl
  refine (fat16Load_confined_iff ⟨clearedVolume, 0, rfl⟩ sampleName de hde _ _).mpr
    (.inr (.inr ?_))
  rw [hmax, hc]
  have hsize : (sampleVolume (sampleSectors 128 2 1 fun _ _ => 0)).vid.clusterSize = 512 := by
    decide
  refine ⟨by decide, ⟨fun k n hk hn => ?_, fun k n w hk _ _ => ?_⟩⟩
  · rw [hsize] at hk
    obtain rfl : k = 0 := by omega
    obtain rfl := Option.some.inj hn
    unfold InData
    decide
  · rw [hsize] at hk
    omega

/-- The file starts at cluster 1, which the source takes for the last cluster
of the root directory: a byte of the directory is loaded. -/
theorem fat16Load_reads_directory :
    ¬ LoadConfined (sampleDrive (sampleSectors 128 1 1 fun _ _ => 0))
      (sampleVolume (sampleSectors 128 1 1 fun _ _ => 0)) sampleName (fun _ => 0) 1 := by
  rintro ⟨ret, out, hload, hdata, -⟩
  have htrace : loadTrace (sampleDrive (sampleSectors 128 1 1 fun _ _ => 0))
      (sampleVolume (sampleSectors 128 1 1 fun _ _ => 0)) sampleName 1 =
      some (1, [.data 9]) := by decide
  rw [loadTrace, hload] at htrace
  obtain ⟨rfl, hlog⟩ := Prod.mk.inj (Option.some.inj htrace)
  have hstart := hdata (by decide) (.data 9) (by simp [hlog])
  have hlt : ¬ dataStart (sampleVolume (sampleSectors 128 1 1 fun _ _ => 0)).vid ≤ 9 := by decide
  exact hlt hstart

end Kboot86.Fat16
