import Kboot86.Drivers.Fat16.Candidates

/-!
# Listing the root directory, and the divisions of the driver

`fat16_display_root` lists entries until one marks the end or there is none.
The loop has no bound of its own; it ends because an entry beyond the last
cluster of the root directory is not found.

Every division of the driver is by the cluster size or by the sectors per
cluster. With at least one sector per cluster none of the functions divides by
zero; with none, the first look at the root directory does.
-/

namespace Kboot86.Fat16

inductive Line where
  | entry (num : Nat) (de : DirEntry)
  | endReached

def listed (ls : List Line) : List (Nat × DirEntry) :=
  ls.filterMap fun l => match l with
    | .entry num de => some (num, de)
    | .endReached => none

section

variable (d : Drive) (f : Volume)

/-- The loop from entry `i` on, with at most `n` turns; `none` when these do
not suffice. -/
def displayFrom : Nat → Nat → Except DivideError (Option (List Line))
  | 0, _ => pure none
  | n + 1, i => do
      match ← rootdirGetEntryNum d f i with
      | none => pure (some [])
      | some de =>
          if de.isEnd then pure (some [.endReached])
          else if de.isUnused then displayFrom n (i + 1)
          else if de.hasLongName then displayFrom n (i + 1)
          else do
            let rest ← displayFrom n (i + 1)
            pure (rest.map (.entry i de :: ·))

/-- An entry number is below `2 ^ 16` when there is such an entry, so the bound
is never met. -/
def fat16DisplayRoot : Except DivideError (Option (List Line)) := displayFrom d f (2 ^ 16) 0

variable {d f}

theorem Vid.clusterSize_zero {v : Vid} (h : v.sectorsPerCluster = 0) : v.clusterSize = 0 := by
  rw [Vid.clusterSize, h]
  exact Nat.zero_mul _

theorem spc_pos_iff {v : Vid} : 0 < v.sectorsPerCluster.toNat ↔ v.sectorsPerCluster ≠ 0 := by
  rw [Nat.pos_iff_ne_zero, ne_eq, ne_eq, ← UInt8.toNat_inj, UInt8.toNat_zero]

/-! ### No sector in a cluster -/

theorem rootdirGetEntryNum_fault (h : f.vid.sectorsPerCluster = 0) (num : Nat) :
    rootdirGetEntryNum d f num = .error .divideError := by
  rw [rootdirGetEntryNum, Vid.clusterSize_zero h]
  rfl

theorem fat16DisplayRoot_fault (h : f.vid.sectorsPerCluster = 0) :
    fat16DisplayRoot d f = .error .divideError := by
  change displayFrom d f (65535 + 1) 0 = _
  rw [displayFrom, rootdirGetEntryNum_fault h]
  rfl

theorem rootdirFindEntry_of_zero (h : f.vid.sectorsPerCluster = 0) (filename : List UInt8) :
    rootdirFindEntry d f filename =
      if f.vid.maxRootEntries = 0 then .ok none else .error .divideError := by
  rw [rootdirFindEntry]
  by_cases hmax : f.vid.maxRootEntries = 0
  · rw [if_pos hmax, hmax]
    rfl
  · rw [if_neg hmax]
    cases hn : f.vid.maxRootEntries.toNat with
    | zero => exact absurd (UInt16.toNat_inj.mp hn) hmax
    | succ n =>
        rw [findEntryFrom, rootdirGetEntryNum_fault h]
        rfl

/-! ### At least one sector in a cluster -/

theorem listed_cons (num : Nat) (de : DirEntry) (ls : List Line) :
    listed (.entry num de :: ls) = (num, de) :: listed ls := rfl

theorem displayFrom_listed (hspc : 0 < f.vid.sectorsPerCluster.toNat) :
    ∀ n i, i ≤ f.vid.maxRootEntries.toNat → f.vid.maxRootEntries.toNat < i + n →
      ∃ ls, displayFrom d f n i = .ok (some ls) ∧
        listed ls = candidatesFrom d f (f.vid.maxRootEntries.toNat - i) i
  | 0, i, hi, hn => by omega
  | n + 1, i, hi, hn => by
      have hlt := f.vid.maxRootEntries.toNat_lt
      rw [displayFrom]
      by_cases hend : i = f.vid.maxRootEntries.toNat
      · rw [rootdirGetEntryNum_beyond hspc (by omega) (by omega), hend, Nat.sub_self]
        exact ⟨[], rfl, rfl⟩
      obtain ⟨m, hm, hm'⟩ : ∃ m, f.vid.maxRootEntries.toNat - i = m + 1 ∧
          f.vid.maxRootEntries.toNat - (i + 1) = m :=
        ⟨f.vid.maxRootEntries.toNat - (i + 1), by omega, rfl⟩
      obtain ⟨ls, hls, hlisted⟩ :=
        displayFrom_listed hspc n (i + 1) (by omega) (by omega)
      rw [hm'] at hlisted
      rw [hm]
      rcases turn (d := d) hspc i with get | ⟨de, get, isEnd⟩ | ⟨de, get, notEnd, notShort⟩ |
        ⟨de, get, notEnd, short⟩
      · rw [get, candidatesFrom_of_absent get]
        exact ⟨[], rfl, rfl⟩
      · rw [get, ok_bind, candidatesFrom_of_end get isEnd]
        exact ⟨[.endReached], if_pos isEnd, rfl⟩
      · rw [get, ok_bind, candidatesFrom_of_skipped get notEnd notShort, ← hlisted]
        dsimp only
        rw [if_neg (by rw [notEnd]; decide), ite_of_not_isShort notShort]
        exact ⟨ls, hls, rfl⟩
      · rw [get, ok_bind, candidatesFrom_of_candidate get notEnd short, ← hlisted]
        dsimp only
        rw [if_neg (by rw [notEnd]; decide), ite_of_isShort short, hls]
        exact ⟨.entry i de :: ls, rfl, listed_cons i de ls⟩

theorem fat16DisplayRoot_total (h : 0 < f.vid.sectorsPerCluster.toNat) :
    ∃ ls, fat16DisplayRoot d f = .ok (some ls) := by
  have hlt := f.vid.maxRootEntries.toNat_lt
  obtain ⟨ls, hls, -⟩ := displayFrom_listed (d := d) h (2 ^ 16) 0 (Nat.zero_le _) (by omega)
  exact ⟨ls, hls⟩

theorem fat16Load_total (h : 0 < f.vid.sectorsPerCluster.toNat) (filename : List UInt8)
    (buf : Nat → UInt8) (bufSize : UInt32) : ∃ r, fat16Load d f filename buf bufSize = .ok r := by
  obtain ⟨found, hfound⟩ := findEntryFrom_total (d := d) h filename f.vid.maxRootEntries.toNat 0
  cases found with
  | none =>
      rw [fat16Load, rootdirFindEntry, hfound]
      exact ⟨_, rfl⟩
  | some de =>
      by_cases hread : Readable d f de.startingCluster (loadMax de bufSize)
      · obtain ⟨out, hload, -⟩ := fat16Load_readable buf hfound hread
        exact ⟨_, hload⟩
      · obtain ⟨out, hload, -⟩ := fat16Load_not_readable buf hfound hread
        exact ⟨_, hload⟩

/-! ### The functions -/

theorem fat16DisplayRoot_fault_iff :
    fat16DisplayRoot d f = .error .divideError ↔ f.vid.sectorsPerCluster = 0 := by
  refine ⟨fun hfault => ?_, fat16DisplayRoot_fault⟩
  by_contra hspc
  obtain ⟨ls, hls⟩ := fat16DisplayRoot_total (d := d) (spc_pos_iff.mpr hspc)
  rw [hls] at hfault
  cases hfault

theorem rootdirFindEntry_fault_iff (filename : List UInt8) :
    rootdirFindEntry d f filename = .error .divideError ↔
      f.vid.sectorsPerCluster = 0 ∧ f.vid.maxRootEntries ≠ 0 := by
  by_cases hspc : f.vid.sectorsPerCluster = 0
  · rw [rootdirFindEntry_of_zero hspc]
    by_cases hmax : f.vid.maxRootEntries = 0
    · rw [if_pos hmax]
      exact iff_of_false (fun h => by cases h) fun h => h.2 hmax
    · rw [if_neg hmax]
      exact iff_of_true rfl ⟨hspc, hmax⟩
  · obtain ⟨r, hr⟩ := findEntryFrom_total (d := d) (spc_pos_iff.mpr hspc) filename
      f.vid.maxRootEntries.toNat 0
    rw [rootdirFindEntry, hr]
    exact iff_of_false (fun h => by cases h) fun h => hspc h.1

theorem fat16GetFileSize_fault_iff (filename : List UInt8) :
    fat16GetFileSize d f filename = .error .divideError ↔
      f.vid.sectorsPerCluster = 0 ∧ f.vid.maxRootEntries ≠ 0 := by
  rw [← rootdirFindEntry_fault_iff filename, fat16GetFileSize]
  cases rootdirFindEntry d f filename with
  | error e =>
      rw [error_bind, Except.error.injEq, Except.error.injEq]
  | ok r =>
      refine iff_of_false (fun h => ?_) fun h => by cases h
      cases r <;> cases h

/-- Once an entry is found, no division of `fat16_load` fails. -/
theorem fat16Load_fault_iff (filename : List UInt8) (buf : Nat → UInt8) (bufSize : UInt32) :
    fat16Load d f filename buf bufSize = .error .divideError ↔
      f.vid.sectorsPerCluster = 0 ∧ f.vid.maxRootEntries ≠ 0 := by
  rw [← rootdirFindEntry_fault_iff filename]
  cases hfound : rootdirFindEntry d f filename with
  | error e =>
      rw [fat16Load, hfound, error_bind, Except.error.injEq, Except.error.injEq]
  | ok r =>
      refine iff_of_false (fun h => ?_) fun h => by cases h
      cases r with
      | none =>
          rw [fat16Load, hfound] at h
          cases h
      | some de =>
          obtain ⟨out, hout⟩ := fat16Load_total (spc_pos_of_found hfound) filename buf bufSize
          rw [hout] at h
          cases h

end

end Kboot86.Fat16
