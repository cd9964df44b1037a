import Kboot86.Drivers.Fat16.Chain

/-!
# What `fat16_load` returns

The loop is followed byte by byte; `At` says where it stands after `i` bytes.
As long as the sectors of the file can be read, `i` bytes of the file are in
the buffer and the log is that of the sectors begun. The loop stops with -1 at
the first sector that cannot be read.
-/

namespace Kboot86.Fat16

section

variable (d : Drive) (f : Volume) (start : UInt16)

def fileByte (i : Nat) : UInt8 :=
  match fileSector d f start (i / sectorSize) with
  | none => 0
  | some sec => sec (i % sectorSize)

def Readable (m : Nat) : Prop :=
  ∀ j, sectorSize * j < m → (fileSector d f start j).isSome = true

/-- The link from a cluster to the next. -/
def linkLog (n : UInt16) : List Access :=
  (linkOf d f n).toList.map (.link (n.toNat / 256))

def clusterLog (j : Nat) : List Access :=
  if j % f.vid.sectorsPerCluster.toNat = 0 ∧ j ≠ 0 then
    (chain d f start (j / f.vid.sectorsPerCluster.toNat - 1)).toList.flatMap (linkLog d f)
  else []

def sectorLog (j : Nat) : List Access :=
  clusterLog d f start j ++
    (chain d f start (j / f.vid.sectorsPerCluster.toNat)).toList.map fun n =>
      .data (clusterSec f (internal f n) (j % f.vid.sectorsPerCluster.toNat)).toNat

def sectorsBegun (i : Nat) : Nat := (i + 511) / sectorSize

/-- The loop after `i` bytes, with `buf` what the buffer held before. -/
structure At (buf : Nat → UInt8) (i : Nat) (cluNum : UInt16) (sec : Sector) (psec : Nat)
    (out : Output) : Prop where
  cluster : (chain d f start ((i - 1) / f.vid.clusterSize)).map (internal f) = some cluNum
  sector : i % sectorSize ≠ 0 → fileSector d f start (i / sectorSize) = some sec ∧
    psec = i % sectorSize
  buf : ∀ a, out.buf a = if a < i then fileByte d f start a else buf a
  log : out.log = (List.range (sectorsBegun i)).flatMap (sectorLog d f start)

end

section

variable {d : Drive} {f : Volume} {start : UInt16} {buf : Nat → UInt8}

theorem At.init (start : UInt16) (sec : Sector) (psec : Nat) :
    At d f start buf 0 (internal f start) sec psec ⟨buf, []⟩ where
  cluster := by
    rw [Nat.zero_sub, Nat.zero_div]
    rfl
  sector h := absurd rfl h
  buf a := by rw [if_neg (Nat.not_lt_zero a)]
  log := rfl

theorem div_clusterSize (i : Nat) :
    i / f.vid.clusterSize = i / sectorSize / f.vid.sectorsPerCluster.toNat := by
  rw [Vid.clusterSize, Nat.mul_comm, Nat.div_div_eq_div_mul]

/-- A byte that starts a cluster starts the first sector of it. -/
theorem mod_clusterSize_eq_zero (i : Nat) (hi : i % sectorSize = 0) :
    i % f.vid.clusterSize = 0 ↔ i / sectorSize % f.vid.sectorsPerCluster.toNat = 0 := by
  rw [Vid.clusterSize, Nat.mul_comm, Nat.mod_mul, hi, Nat.zero_add, sectorSize]
  omega

/-- The cluster for the sector that byte `i` starts, as `updateCluster` finds
it. -/
theorem updateCluster_eq (hspc : 0 < f.vid.sectorsPerCluster.toNat) {i : Nat}
    (hi : i % sectorSize = 0) {n : UInt16}
    (hn : chain d f start ((i - 1) / f.vid.clusterSize) = some n) (out : Output) :
    updateCluster d f i (internal f n) out =
      .ok (match chain d f start (i / sectorSize / f.vid.sectorsPerCluster.toNat) with
        | none => (none, out)
        | some n' => (some (internal f n'),
            { out with log := out.log ++ clusterLog d f start (i / sectorSize) })) := by
  have hpos := Vid.clusterSize_pos hspc
  have hmod := mod_clusterSize_eq_zero (f := f) i hi
  have hdiv := div_clusterSize (f := f) i
  unfold updateCluster
  by_cases hzero : i = 0
  · subst hzero
    rw [Nat.zero_sub, Nat.zero_div] at hn
    rw [if_pos rfl, Nat.zero_div, Nat.zero_div, hn, clusterLog, if_neg (by simp), List.append_nil]
    rfl
  rw [if_neg hzero, umod_of_pos hpos, ok_bind]
  by_cases hstart : i % f.vid.clusterSize = 0
  · have hj : i / sectorSize ≠ 0 := by
      rw [sectorSize] at hi ⊢
      omega
    obtain ⟨k, hk⟩ : ∃ k, i = f.vid.clusterSize * (k + 1) := by
      obtain ⟨k, rfl⟩ := Nat.dvd_of_mod_eq_zero hstart
      exact ⟨k - 1, by rw [Nat.sub_add_cancel (Nat.pos_of_ne_zero fun h => hzero (by simp [h]))]⟩
    have hprev : (i - 1) / f.vid.clusterSize = k := by
      rw [hk, Nat.mul_succ]
      refine Nat.div_eq_of_lt_le ?_ ?_
      · rw [Nat.mul_comm k]
        omega
      · rw [Nat.mul_comm (k + 1), Nat.mul_succ]
        omega
    have hnext : i / sectorSize / f.vid.sectorsPerCluster.toNat = k + 1 := by
      rw [← hdiv, hk, Nat.mul_div_cancel_left _ hpos]
    rw [hprev] at hn
    obtain ⟨w, hw, hlink⟩ := fatGetNextCluNum_link (d := d) hspc n
    have hchain : chain d f start (k + 1) = (linkOf d f n).map fun w =>
        w + 8 - UInt16.ofNat f.vid.roots := by
      rw [chain, hn, Option.bind_some, follow]
    rw [if_neg (by simpa using hstart), Vid.rootClusters_eq hspc, ok_bind, hw, ok_bind, hnext,
      hchain, hlink]
    by_cases hend : w = 0 ∨ 0xffff = w
    · rw [if_pos hend, if_pos hend]
      rfl
    · rw [if_neg hend, if_neg hend, Option.map_some, fatSecOf, internal_sub]
      dsimp only
      rw [internal_follow, clusterLog, if_pos ⟨hmod.mp hstart, hj⟩, hnext, Nat.add_sub_cancel, hn,
        Option.toList_some, List.flatMap_singleton, linkLog, hlink, if_neg hend]
      rfl
  · have hprev : (i - 1) / f.vid.clusterSize = i / f.vid.clusterSize := by
      have hle := Nat.div_add_mod i f.vid.clusterSize
      have hlt := Nat.mod_lt i hpos
      refine Nat.div_eq_of_lt_le ?_ ?_
      · rw [Nat.mul_comm (i / f.vid.clusterSize)]
        omega
      · rw [Nat.mul_comm (i / f.vid.clusterSize + 1), Nat.mul_succ]
        omega
    rw [hprev, hdiv] at hn
    rw [if_pos hstart, hn, clusterLog, if_neg (fun h => hstart (hmod.mpr h.1)), List.append_nil]
    rfl

/-! ### One byte -/

variable {i n : Nat} {cluNum : UInt16} {sec : Sector} {psec : Nat} {out : Output}

theorem At.sectorStart (hspc : 0 < f.vid.sectorsPerCluster.toNat)
    (h : At d f start buf i cluNum sec psec out) (hi : i % sectorSize = 0) {sec' : Sector}
    (hsec : fileSector d f start (i / sectorSize) = some sec') :
    ∃ cluNum' out', loadLoop d f (n + 1) i cluNum sec psec out =
        loadLoop d f n (i + 1) cluNum' sec' 1 out' ∧
      At d f start buf (i + 1) cluNum' sec' 1 out' := by
  obtain ⟨m, hm, rfl⟩ := Option.map_eq_some_iff.mp h.cluster
  obtain ⟨m', hm', hread⟩ := Option.bind_eq_some_iff.mp hsec
  have hbegun : sectorsBegun (i + 1) = i / sectorSize + 1 ∧ sectorsBegun i = i / sectorSize := by
    simp only [sectorsBegun, sectorSize] at hi ⊢
    omega
  have hnext : (i + 1) / sectorSize = i / sectorSize ∧ (i + 1) % sectorSize = 1 := by
    rw [sectorSize] at hi ⊢
    omega
  refine ⟨internal f m',
    { buf := Function.update out.buf i (sec' 0)
      log := out.log ++ clusterLog d f start (i / sectorSize) ++
        [.data (clusterSec f (internal f m')
          (i / sectorSize % f.vid.sectorsPerCluster.toNat)).toNat] }, ?_, ?_⟩
  · rw [loadLoop, if_pos hi, umod_of_pos hspc, ok_bind, updateCluster_eq hspc hi hm, hm', ok_bind]
    dsimp only
    rw [hread]
  · constructor
    · rw [Nat.add_sub_cancel, div_clusterSize, hm']
      rfl
    · intro _
      rw [hnext.1, hnext.2]
      exact ⟨hsec, rfl⟩
    · intro a
      dsimp only
      by_cases ha : a = i
      · subst ha
        rw [Function.update_self, if_pos (by omega), fileByte, hsec, hi]
      · rw [Function.update_of_ne ha, h.buf a]
        by_cases hlt : a < i
        · rw [if_pos hlt, if_pos (by omega)]
        · rw [if_neg hlt, if_neg (by omega)]
    · dsimp only
      rw [h.log, hbegun.1, hbegun.2, List.range_succ, List.flatMap_append, List.flatMap_singleton,
        sectorLog, hm', List.append_assoc]
      rfl

theorem At.sectorNext (h : At d f start buf i cluNum sec psec out) (hi : i % sectorSize ≠ 0) :
    ∃ out', loadLoop d f (n + 1) i cluNum sec psec out =
        loadLoop d f n (i + 1) cluNum sec (psec + 1) out' ∧
      At d f start buf (i + 1) cluNum sec (psec + 1) out' := by
  obtain ⟨hsec, rfl⟩ := h.sector hi
  have hbegun : sectorsBegun (i + 1) = sectorsBegun i := by
    simp only [sectorsBegun, sectorSize] at hi ⊢
    omega
  refine ⟨{ out with buf := Function.update out.buf i (sec (i % sectorSize)) }, ?_, ?_⟩
  · rw [loadLoop, if_neg hi]
  · constructor
    · have hdiv : (i - 1) / sectorSize = i / sectorSize := by
        rw [sectorSize] at hi ⊢
        omega
      have hclu := h.cluster
      rw [div_clusterSize, hdiv] at hclu
      rw [Nat.add_sub_cancel, div_clusterSize]
      exact hclu
    · intro hnext
      have hsame : (i + 1) / sectorSize = i / sectorSize ∧
          (i + 1) % sectorSize = i % sectorSize + 1 := by
        rw [sectorSize] at hi hnext ⊢
        omega
      rw [hsame.1, hsame.2]
      exact ⟨hsec, rfl⟩
    · intro a
      dsimp only
      by_cases ha : a = i
      · subst ha
        rw [Function.update_self, if_pos (by omega), fileByte, hsec]
      · rw [Function.update_of_ne ha, h.buf a]
        by_cases hlt : a < i
        · rw [if_pos hlt, if_pos (by omega)]
        · rw [if_neg hlt, if_neg (by omega)]
    · rw [hbegun]
      exact h.log

theorem At.sectorMissing (hspc : 0 < f.vid.sectorsPerCluster.toNat)
    (h : At d f start buf i cluNum sec psec out) (hi : i % sectorSize = 0)
    (hsec : fileSector d f start (i / sectorSize) = none) :
    ∃ out', loadLoop d f (n + 1) i cluNum sec psec out = .ok (-1, out') ∧ out'.buf = out.buf := by
  obtain ⟨m, hm, rfl⟩ := Option.map_eq_some_iff.mp h.cluster
  rw [loadLoop, if_pos hi, umod_of_pos hspc, ok_bind, updateCluster_eq hspc hi hm, ok_bind]
  cases hm' : chain d f start (i / sectorSize / f.vid.sectorsPerCluster.toNat) with
  | none => exact ⟨out, rfl, rfl⟩
  | some m' =>
      rw [fileSector, hm', Option.bind_some] at hsec
      dsimp only
      rw [hsec]
      exact ⟨_, rfl, rfl⟩

/-! ### The whole loop -/

def Holds (d : Drive) (f : Volume) (start : UInt16) (buf : Nat → UInt8) (i : Nat)
    (out : Output) : Prop :=
  ∀ a, out.buf a = if a < i then fileByte d f start a else buf a

theorem loadLoop_readable (hspc : 0 < f.vid.sectorsPerCluster.toNat) :
    ∀ (n i : Nat) (cluNum : UInt16) (sec : Sector) (psec : Nat) (out : Output),
      At d f start buf i cluNum sec psec out → Readable d f start (i + n) →
      ∃ out', loadLoop d f n i cluNum sec psec out = .ok (toSsize (i + n), out') ∧
        Holds d f start buf (i + n) out' ∧
        out'.log = (List.range (sectorsBegun (i + n))).flatMap (sectorLog d f start)
  | 0, i, cluNum, sec, psec, out, h, _ => ⟨out, rfl, h.buf, h.log⟩
  | n + 1, i, cluNum, sec, psec, out, h, hread => by
      have hcount : i + (n + 1) = i + 1 + n := by omega
      rw [hcount] at hread ⊢
      by_cases hi : i % sectorSize = 0
      · obtain ⟨sec', hsec⟩ := Option.isSome_iff_exists.mp (hread (i / sectorSize) (by
          rw [Nat.mul_div_cancel' (Nat.dvd_of_mod_eq_zero hi)]
          omega))
        obtain ⟨cluNum', out', hloop, h'⟩ := h.sectorStart (n := n) hspc hi hsec
        rw [hloop]
        exact loadLoop_readable hspc n (i + 1) _ _ _ _ h' hread
      · obtain ⟨out', hloop, h'⟩ := h.sectorNext (n := n) hi
        rw [hloop]
        exact loadLoop_readable hspc n (i + 1) _ _ _ _ h' hread

theorem loadLoop_not_readable (hspc : 0 < f.vid.sectorsPerCluster.toNat) :
    ∀ (n i : Nat) (cluNum : UInt16) (sec : Sector) (psec : Nat) (out : Output),
      At d f start buf i cluNum sec psec out →
      (∃ j, i ≤ sectorSize * j ∧ sectorSize * j < i + n ∧ fileSector d f start j = none) →
      ∃ out', loadLoop d f n i cluNum sec psec out = .ok (-1, out') ∧
        ∃ m, m < i + n ∧ Holds d f start buf m out'
  | 0, i, cluNum, sec, psec, out, _, ⟨j, hlo, hhi, _⟩ => by omega
  | n + 1, i, cluNum, sec, psec, out, h, ⟨j, hlo, hhi, hnone⟩ => by
      have hcount : i + (n + 1) = i + 1 + n := by omega
      by_cases hi : i % sectorSize = 0
      · cases hsec : fileSector d f start (i / sectorSize) with
        | none =>
            obtain ⟨out', hloop, hbuf⟩ := h.sectorMissing (n := n) hspc hi hsec
            refine ⟨out', hloop, i, by omega, fun a => ?_⟩
            rw [hbuf, h.buf a]
        | some sec' =>
            have hne : sectorSize * j ≠ i := by
              rintro rfl
              rw [Nat.mul_div_cancel_left _ (by decide), hnone] at hsec
              cases hsec
            obtain ⟨cluNum', out', hloop, h'⟩ := h.sectorStart (n := n) hspc hi hsec
            rw [hloop, hcount]
            exact loadLoop_not_readable hspc n (i + 1) _ _ _ _ h'
              ⟨j, by omega, by omega, hnone⟩
      · have hne : sectorSize * j ≠ i := by
          rintro rfl
          exact hi (Nat.mul_mod_right _ _)
        obtain ⟨out', hloop, h'⟩ := h.sectorNext (n := n) hi
        rw [hloop, hcount]
        exact loadLoop_not_readable hspc n (i + 1) _ _ _ _ h' ⟨j, by omega, by omega, hnone⟩

/-! ### The function -/

def loadMax (de : DirEntry) (bufSize : UInt32) : Nat := min de.size.toNat bufSize.toNat

/-- An entry can only be found when a cluster has a sector: otherwise the
search divides by zero or does not begin. -/
theorem spc_pos_of_found {filename : List UInt8} {de : DirEntry}
    (h : rootdirFindEntry d f filename = .ok (some de)) : 0 < f.vid.sectorsPerCluster.toNat := by
  by_contra hspc
  have hsize : f.vid.clusterSize = 0 := by
    rw [Vid.clusterSize, Nat.eq_zero_of_not_pos hspc, Nat.zero_mul]
  unfold rootdirFindEntry at h
  cases hmax : f.vid.maxRootEntries.toNat with
  | zero =>
      rw [hmax] at h
      cases h
  | succ n =>
      rw [hmax, findEntryFrom, rootdirGetEntryNum, hsize] at h
      cases h

theorem fat16Load_eq {filename : List UInt8} {de : DirEntry}
    (hde : rootdirFindEntry d f filename = .ok (some de)) (bufSize : UInt32) :
    fat16Load d f filename buf bufSize =
      loadLoop d f (loadMax de bufSize) 0 (internal f de.startingCluster) (fun _ => 0) 0
        ⟨buf, []⟩ := by
  have hspc := spc_pos_of_found hde
  have hmax : (if de.size < bufSize then de.size else bufSize).toNat = loadMax de bufSize := by
    rw [loadMax]
    split
    · rename_i hlt
      rw [UInt32.lt_iff_toNat_lt] at hlt
      omega
    · rename_i hlt
      rw [UInt32.lt_iff_toNat_lt] at hlt
      omega
  unfold fat16Load
  rw [hde, ok_bind]
  dsimp only
  rw [Vid.rootClusters_eq hspc, ok_bind, hmax]
  rfl

theorem fat16Load_readable (buf : Nat → UInt8) {filename : List UInt8} {de : DirEntry}
    (hde : rootdirFindEntry d f filename = .ok (some de)) {bufSize : UInt32}
    (hread : Readable d f de.startingCluster (loadMax de bufSize)) :
    ∃ out, fat16Load d f filename buf bufSize = .ok (toSsize (loadMax de bufSize), out) ∧
      Holds d f de.startingCluster buf (loadMax de bufSize) out ∧
      out.log = (List.range (sectorsBegun (loadMax de bufSize))).flatMap
        (sectorLog d f de.startingCluster) := by
  have h := loadLoop_readable (spc_pos_of_found hde) (loadMax de bufSize) 0 _ (fun _ => 0) 0
    ⟨buf, []⟩ (At.init de.startingCluster _ _) (by rwa [Nat.zero_add])
  rw [Nat.zero_add] at h
  rwa [fat16Load_eq hde]

theorem fat16Load_not_readable (buf : Nat → UInt8) {filename : List UInt8} {de : DirEntry}
    (hde : rootdirFindEntry d f filename = .ok (some de)) {bufSize : UInt32}
    (hread : ¬ Readable d f de.startingCluster (loadMax de bufSize)) :
    ∃ out, fat16Load d f filename buf bufSize = .ok (-1, out) ∧
      ∃ m, m < loadMax de bufSize ∧ Holds d f de.startingCluster buf m out := by
  obtain ⟨j, hj⟩ := not_forall.mp hread
  obtain ⟨hj, hnone⟩ := Classical.not_imp.mp hj
  have h := loadLoop_not_readable (spc_pos_of_found hde) (loadMax de bufSize) 0 _ (fun _ => 0) 0
    ⟨buf, []⟩ (At.init de.startingCluster _ _)
    ⟨j, Nat.zero_le _, by omega, by simpa using hnone⟩
  rw [Nat.zero_add] at h
  rwa [fat16Load_eq hde]

/-- `fat16_load` returns -1 or the smaller of the size of the file and of the
buffer. -/
theorem fat16Load_count {filename : List UInt8} {bufSize : UInt32} {ret : Int} {out : Output}
    (h : fat16Load d f filename buf bufSize = .ok (ret, out)) (hret : ret ≠ -1) :
    ∃ de, rootdirFindEntry d f filename = .ok (some de) ∧ ret = toSsize (loadMax de bufSize) := by
  cases hde : rootdirFindEntry d f filename with
  | error e =>
      unfold fat16Load at h
      rw [hde] at h
      cases h
  | ok found =>
      cases found with
      | none =>
          unfold fat16Load at h
          rw [hde] at h
          obtain ⟨rfl, -⟩ := Prod.mk.inj (Except.ok.inj h)
          exact absurd rfl hret
      | some de =>
          refine ⟨de, rfl, ?_⟩
          by_cases hread : Readable d f de.startingCluster (loadMax de bufSize)
          · obtain ⟨out', hload, -⟩ := fat16Load_readable buf hde hread
            exact congrArg Prod.fst (Except.ok.inj (h.symm.trans hload))
          · obtain ⟨out', hload, -⟩ := fat16Load_not_readable buf hde hread
            exact absurd (congrArg Prod.fst (Except.ok.inj (h.symm.trans hload))) hret

end

end Kboot86.Fat16
