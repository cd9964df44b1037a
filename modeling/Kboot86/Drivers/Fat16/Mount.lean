import Kboot86.Drivers.Fat16.DisplayRoot
import Kboot86.Drivers.Fat16.RootDir
import Kboot86.Foundation.Transition

/-!
# Mounting a volume, and failing to

The statics of the driver change in `fat16_init` only, so the reachable states
are those that a sequence of its calls leads to, each on the drive as it is at
that time. A call that fails leaves the identifier and the start sectors of the
mounted volume, but it has stored its partition number.
-/

namespace Kboot86.Fat16

structure InitEvent where
  drive : Drive
  partitionNum : Nat

def initStep (f : Volume) (e : InitEvent) : Volume := (fat16Init e.drive f e.partitionNum).1

def mountSystem : System Volume InitEvent := .ofFun (· = clearedVolume) initStep

def Reachable (f : Volume) : Prop := ∃ es, mountSystem.Run es f

section

variable {d : Drive} {f : Volume}

theorem fat16Init_cases (d : Drive) (f : Volume) (p : Nat) :
    (4 ≤ p ∧ fat16Init d f p = (f, 1)) ∨
    (∃ h : p < 4, readSector d { f with partitionNum := ⟨p, h⟩ } 0 = none ∧
      fat16Init d f p = ({ f with partitionNum := ⟨p, h⟩ }, 1)) ∨
    ((fat16Init d f p).2 = 0 ∧ Mounted d (fat16Init d f p).1) := by
  by_cases h : p < 4
  · cases hread : readSector d { f with partitionNum := ⟨p, h⟩ } 0 with
    | none =>
        refine .inr (.inl ⟨h, hread, ?_⟩)
        rw [fat16Init, dif_pos h]
        dsimp only
        rw [hread]
    | some sec =>
        have hcode : (fat16Init d f p).2 = 0 := by
          rw [fat16Init, dif_pos h]
          dsimp only
          rw [hread]
        exact .inr (.inr ⟨hcode, f, p, Prod.ext rfl hcode⟩)
  · exact .inl ⟨Nat.le_of_not_lt h, by rw [fat16Init, dif_neg h]⟩

theorem Reachable.located (h : Reachable f) : f.Located := by
  obtain ⟨es, hrun⟩ := h
  refine hrun.invariant ?_ ?_
  · rintro _ rfl
    exact ⟨rfl, rfl⟩
  · rintro g e _ hg rfl
    rcases fat16Init_cases e.drive g e.partitionNum with ⟨-, h⟩ | ⟨_, -, h⟩ | ⟨-, h⟩
    · rw [initStep, h]
      exact hg
    · rw [initStep, h]
      exact ⟨hg.fat, hg.clu⟩
    · exact h.located

/-! ### A volume without a cluster for its root directory -/

/-- No entry of such a volume is looked at, so it does not matter what is on
the partition. -/
theorem rootdirFindEntry_rootless (h : f.vid.roots = 0) (filename : List UInt8) :
    rootdirFindEntry d f filename =
      if f.vid.sectorsPerCluster = 0 ∧ f.vid.maxRootEntries ≠ 0 then .error .divideError
      else .ok none := by
  by_cases hspc : f.vid.sectorsPerCluster = 0
  · rw [rootdirFindEntry_of_zero hspc]
    by_cases hmax : f.vid.maxRootEntries = 0
    · rw [if_pos hmax, if_neg fun h => h.2 hmax]
    · rw [if_neg hmax, if_pos ⟨hspc, hmax⟩]
  · rw [if_neg fun h => hspc h.1, rootdirFindEntry]
    have hpos := spc_pos_iff.mpr hspc
    cases f.vid.maxRootEntries.toNat with
    | zero => rfl
    | succ n =>
        have hget : rootdirGetEntryNum d f 0 = .ok none := by
          unfold rootdirGetEntryNum
          dsimp only
          rw [udiv_of_pos (Vid.clusterSize_pos hpos), ok_bind, Vid.rootClusters_eq hpos, ok_bind,
            h, if_pos (Nat.zero_le _)]
          rfl
        rw [findEntryFrom, hget]
        rfl

theorem fat16Load_rootless (h : f.vid.roots = 0) (filename : List UInt8) (buf : Nat → UInt8)
    (bufSize : UInt32) :
    fat16Load d f filename buf bufSize =
      if f.vid.sectorsPerCluster = 0 ∧ f.vid.maxRootEntries ≠ 0 then .error .divideError
      else .ok (-1, ⟨buf, []⟩) := by
  rw [fat16Load, rootdirFindEntry_rootless h]
  split <;> rfl

theorem fat16GetFileSize_rootless (h : f.vid.roots = 0) (filename : List UInt8) :
    fat16GetFileSize d f filename =
      if f.vid.sectorsPerCluster = 0 ∧ f.vid.maxRootEntries ≠ 0 then .error .divideError
      else .ok (-1) := by
  rw [fat16GetFileSize, rootdirFindEntry_rootless h]
  split <;> rfl

/-! ### Later calls -/

def loadResult (d : Drive) (f : Volume) (filename : List UInt8) (buf : Nat → UInt8)
    (bufSize : UInt32) : Except DivideError (Int × (Nat → UInt8)) :=
  (fat16Load d f filename buf bufSize).map fun r => (r.1, r.2.buf)

/-- Whatever calls of `fat16_init` follow, and on whatever drive, a file has
the same size from `f` and from `g`, and loading it has the same result. -/
def SameLater (f g : Volume) : Prop :=
  ∀ (es : List InitEvent) (d : Drive) (filename : List UInt8),
    fat16GetFileSize d (es.foldl initStep f) filename =
        fat16GetFileSize d (es.foldl initStep g) filename ∧
      ∀ buf bufSize, loadResult d (es.foldl initStep f) filename buf bufSize =
        loadResult d (es.foldl initStep g) filename buf bufSize

/-- Two states that differ at most in the partition number, and in it only when
the root directory has no cluster. -/
def Alike (f g : Volume) : Prop :=
  f = g ∨ f.vid.roots = 0 ∧ g = { f with partitionNum := g.partitionNum }

theorem Alike.step {g : Volume} (h : Alike f g) (e : InitEvent) :
    Alike (initStep f e) (initStep g e) := by
  rcases h with rfl | ⟨hroots, hg⟩
  · exact .inl rfl
  by_cases hp : e.partitionNum < 4
  · left
    rw [hg, initStep, initStep, fat16Init, fat16Init, dif_pos hp, dif_pos hp]
  · right
    rw [initStep, initStep, fat16Init, fat16Init, dif_neg hp, dif_neg hp]
    exact ⟨hroots, hg⟩

theorem Alike.run {g : Volume} (h : Alike f g) (es : List InitEvent) :
    Alike (es.foldl initStep f) (es.foldl initStep g) := by
  induction es generalizing f g with
  | nil => exact h
  | cons e es ih => exact ih (h.step e)

theorem Alike.sameLater {g : Volume} (h : Alike f g) : SameLater f g := by
  intro es d filename
  rcases h.run es with heq | ⟨hroots, hg⟩
  · rw [heq]
    exact ⟨rfl, fun _ _ => rfl⟩
  generalize es.foldl initStep f = f' at hroots hg
  generalize es.foldl initStep g = g' at hg ⊢
  have hvid : g'.vid = f'.vid := by rw [hg]
  have hroots' : g'.vid.roots = 0 := by rw [hvid, hroots]
  refine ⟨?_, fun buf bufSize => ?_⟩
  · rw [fat16GetFileSize_rootless hroots, fat16GetFileSize_rootless hroots', hvid]
  · rw [loadResult, loadResult, fat16Load_rootless hroots, fat16Load_rootless hroots', hvid]

/-! ### Noticing the partition number -/

def entrySector : Sector := fun k =>
  if k = 0 then 'A'.toUInt8 else if k < 11 then ' '.toUInt8 else 0

def driveWith (q : Fin 4) : Drive where
  partitionEntry n := if n = q then ⟨true, false, 0, 0xffffffff⟩ else ⟨false, false, 0, 0⟩
  ataReadSectorLba _ := some entrySector

theorem readSector_driveWith {r : Nat} (hr : r < 2 ^ 32 - 1) :
    readSector (driveWith f.partitionNum) f (UInt32.ofNat r) = some entrySector := by
  have hlt : UInt32.ofNat r < 0xffffffff := by
    rw [UInt32.lt_iff_toNat_lt, UInt32.toNat_ofNat_of_lt' (show r < 2 ^ 32 by omega)]
    exact hr
  have hinfo : (driveWith f.partitionNum).mbrGetPartitionInfo f.partitionNum =
      some (0, 0xffffffff) := by
    have hentry : (driveWith f.partitionNum).partitionEntry f.partitionNum =
        ⟨true, false, 0, 0xffffffff⟩ := if_pos rfl
    rw [Drive.mbrGetPartitionInfo, hentry]
    rfl
  rw [readSector, Drive.hddReadSector, Drive.rel2absSector, Drive.withinPartition_eq hinfo, hinfo,
    decide_eq_true hlt]
  rfl

theorem readSector_driveWith_other {q : Fin 4} (hq : f.partitionNum ≠ q) (r : UInt32) :
    readSector (driveWith q) f r = none := by
  have hinfo : (driveWith q).mbrGetPartitionInfo f.partitionNum = none := by
    have hentry : (driveWith q).partitionEntry f.partitionNum = ⟨false, false, 0, 0⟩ :=
      if_neg hq
    rw [Drive.mbrGetPartitionInfo, hentry]
    rfl
  rw [readSector, Drive.hddReadSector, Drive.rel2absSector, Drive.withinPartition, hinfo]
  rfl

theorem rootStart_lt (v : Vid) : rootStart v < 2 ^ 32 - 1 := by
  have hres := v.reservedSectors.toNat_lt
  have hmul := Nat.mul_le_mul (Nat.le_of_lt_succ v.numFats.toNat_lt)
    (Nat.le_of_lt_succ v.sectorsPerFat.toNat_lt)
  rw [rootStart]
  omega

theorem spc_pos_of_roots (h : 0 < f.vid.roots) : 0 < f.vid.sectorsPerCluster.toNat := by
  by_contra hspc
  have hsize : f.vid.clusterSize = 0 := by
    rw [Vid.clusterSize, Nat.eq_zero_of_not_pos hspc, Nat.zero_mul]
  rw [Vid.roots, hsize, Nat.div_zero] at h
  exact Nat.lt_irrefl 0 h

theorem rootdirGetEntryNum_zero (hf : f.Located) (h : 0 < f.vid.roots) :
    rootdirGetEntryNum d f 0 =
      .ok ((readSector d f (UInt32.ofNat (rootStart f.vid))).map fun sec k => sec (0 + k)) := by
  have hlt : 0 * dirEntrySize / f.vid.clusterSize < f.vid.roots := by
    rwa [Nat.zero_mul, Nat.zero_div]
  exact rootdirGetEntryNum_of_lt hf (spc_pos_of_roots h) hlt

theorem maxRootEntries_pos (h : 0 < f.vid.roots) : ∃ n, f.vid.maxRootEntries.toNat = n + 1 := by
  refine Nat.exists_eq_succ_of_ne_zero fun hmax => ?_
  rw [Vid.roots, hmax, Nat.zero_mul, Nat.zero_div] at h
  exact Nat.lt_irrefl 0 h

theorem fat16GetFileSize_driveWith (hf : f.Located) (h : 0 < f.vid.roots) :
    fat16GetFileSize (driveWith f.partitionNum) f ['A'.toUInt8] = .ok 0 := by
  obtain ⟨n, hn⟩ := maxRootEntries_pos h
  have hget := rootdirGetEntryNum_zero (d := driveWith f.partitionNum) hf h
  rw [readSector_driveWith (rootStart_lt f.vid), Option.map_some] at hget
  have hnamed : dirEntryIsFilename (fun k => entrySector (0 + k)) ['A'.toUInt8] = true := by
    decide
  have hfind : rootdirFindEntry (driveWith f.partitionNum) f ['A'.toUInt8] =
      .ok (some fun k => entrySector (0 + k)) := by
    rw [rootdirFindEntry, hn, findEntryFrom, hget, ok_bind]
    dsimp only
    rw [hnamed]
    rfl
  rw [fat16GetFileSize, hfind]
  rfl

theorem fat16GetFileSize_driveWith_other (hf : f.Located) (h : 0 < f.vid.roots) {q : Fin 4}
    (hq : f.partitionNum ≠ q) : fat16GetFileSize (driveWith q) f ['A'.toUInt8] = .ok (-1) := by
  obtain ⟨n, hn⟩ := maxRootEntries_pos h
  have hget := rootdirGetEntryNum_zero (d := driveWith q) hf h
  rw [readSector_driveWith_other hq] at hget
  rw [fat16GetFileSize, rootdirFindEntry, hn, findEntryFrom, hget]
  rfl

/-- A call of `fat16_init` that fails goes unnoticed exactly when it stores no
other partition number, or when no entry of the root directory is looked at
anyway. -/
theorem fat16Init_failed_iff (hf : Reachable f) {p : Nat} (hfail : (fat16Init d f p).2 = 1) :
    SameLater f (fat16Init d f p).1 ↔ 4 ≤ p ∨ p = f.partitionNum.val ∨ f.vid.roots = 0 := by
  rcases fat16Init_cases d f p with ⟨hp, h⟩ | ⟨hp, -, h⟩ | ⟨hcode, -⟩
  · rw [h]
    exact iff_of_true (Alike.sameLater (.inl rfl)) (.inl hp)
  · rw [h]
    constructor
    · intro hsame
      by_contra hcond
      obtain ⟨-, hne, hroots⟩ : ¬ 4 ≤ p ∧ p ≠ f.partitionNum.val ∧ f.vid.roots ≠ 0 := by
        simpa only [not_or, ne_eq] using hcond
      have hpos := Nat.pos_of_ne_zero hroots
      have hsize := (hsame [] (driveWith f.partitionNum) ['A'.toUInt8]).1
      rw [List.foldl_nil, List.foldl_nil, fat16GetFileSize_driveWith hf.located hpos,
        fat16GetFileSize_driveWith_other (f := { f with partitionNum := ⟨p, hp⟩ })
          ⟨hf.located.fat, hf.located.clu⟩ hpos fun hq => hne (congrArg Fin.val hq)] at hsize
      cases hsize
    · rintro (h4 | rfl | hroots)
      · omega
      · exact Alike.sameLater (.inl rfl)
      · exact Alike.sameLater (.inr ⟨hroots, rfl⟩)
  · rw [hcode] at hfail
    cases hfail

end

theorem sampleVolume_reachable (image : Nat → Sector) : Reachable (sampleVolume image) := by
  have hstep : mountSystem.step clearedVolume ⟨sampleDrive image, 0⟩ (sampleVolume image) := rfl
  exact ⟨_, .snoc (.init rfl) hstep⟩

theorem fat16Init_failed_unused :
    SameLater (sampleVolume (sampleFileSectors 128))
      (fat16Init (sampleDrive (sampleFileSectors 128))
        (sampleVolume (sampleFileSectors 128)) 4).1 :=
  (fat16Init_failed_iff (d := sampleDrive (sampleFileSectors 128)) (p := 4)
    (sampleVolume_reachable (sampleFileSectors 128)) rfl).mpr (.inl (by decide))

/-- After `fat16_init` on a partition that is not there, `kernel.elf` with its
513 bytes is no longer found on the same drive. -/
theorem fat16Init_failed_noticed :
    Reachable (sampleVolume (sampleFileSectors 128)) ∧
      (fat16Init (sampleDrive (sampleFileSectors 128))
        (sampleVolume (sampleFileSectors 128)) 1).2 = 1 ∧
      fat16GetFileSize (sampleDrive (sampleFileSectors 128))
        (sampleVolume (sampleFileSectors 128)) sampleName = .ok 513 ∧
      fat16GetFileSize (sampleDrive (sampleFileSectors 128))
        (fat16Init (sampleDrive (sampleFileSectors 128))
          (sampleVolume (sampleFileSectors 128)) 1).1 sampleName = .ok (-1) ∧
      ¬ SameLater (sampleVolume (sampleFileSectors 128))
        (fat16Init (sampleDrive (sampleFileSectors 128))
          (sampleVolume (sampleFileSectors 128)) 1).1 := by
  have hbefore : fat16GetFileSize (sampleDrive (sampleFileSectors 128))
      (sampleVolume (sampleFileSectors 128)) sampleName = .ok 513 := by rfl
  have hafter : fat16GetFileSize (sampleDrive (sampleFileSectors 128))
      (fat16Init (sampleDrive (sampleFileSectors 128))
        (sampleVolume (sampleFileSectors 128)) 1).1 sampleName = .ok (-1) := by rfl
  refine ⟨sampleVolume_reachable _, rfl, hbefore, hafter, fun hsame => ?_⟩
  have hsize := (hsame [] (sampleDrive (sampleFileSectors 128)) sampleName).1
  rw [List.foldl_nil, List.foldl_nil, hbefore, hafter] at hsize
  cases hsize

end Kboot86.Fat16
