import Kboot86.Drivers.Fat16.Mount

/-!
# Listing against searching

`fat16_display_root` and `_rootdir_find_entry` go over the root directory with
loops of their own, of which only the second has a bound. Both stop at the same
entry and pass over the same ones: what is listed are the candidates of every
search.
-/

namespace Kboot86.Fat16

section

variable {d : Drive} {f : Volume} {i n : Nat} {de : DirEntry}

theorem displayFrom_mono {ls : List Line} (h : displayFrom d f n i = .ok (some ls)) (k : Nat) :
    displayFrom d f (n + k) i = .ok (some ls) := by
  induction n generalizing i ls with
  | zero => cases h
  | succ n ih =>
      rw [Nat.add_right_comm, displayFrom]
      rw [displayFrom] at h
      cases hget : rootdirGetEntryNum d f i with
      | error e =>
          rw [hget] at h
          cases h
      | ok r =>
          rw [hget, ok_bind] at h
          rw [ok_bind]
          cases r with
          | none => exact h
          | some de =>
              dsimp only at h ⊢
              split at h
              · rename_i hend
                rwa [if_pos hend]
              rename_i hend
              rw [if_neg hend]
              cases hshort : de.isShort with
              | false =>
                  rw [ite_of_not_isShort hshort] at h ⊢
                  exact ih h
              | true =>
                  rw [ite_of_isShort hshort] at h ⊢
                  cases hrest : displayFrom d f n (i + 1) with
                  | error e =>
                      rw [hrest] at h
                      cases h
                  | ok rest =>
                      rw [hrest, ok_bind] at h
                      cases rest with
                      | none => cases h
                      | some ls' =>
                          rw [ih hrest]
                          exact h

/-! ### The number of an entry -/

/-- The arithmetic on the number of an entry stays in its types: the counter of
the loop, the offset, the cluster, and the sector if the entry lies in a cluster
of the root directory. -/
structure IndexFits (f : Volume) (i : Nat) : Prop where
  counter : i + 1 < 2 ^ 31
  offset : i * dirEntrySize < 2 ^ 32
  cluster : startingRootCluNum + i * dirEntrySize / f.vid.clusterSize < 2 ^ 16
  sector : i * dirEntrySize / f.vid.clusterSize < f.vid.roots →
    (clusterSec f (UInt16.ofNat startingRootCluNum +
        UInt16.ofNat (i * dirEntrySize / f.vid.clusterSize))
      (i * dirEntrySize / sectorSize % f.vid.sectorsPerCluster.toNat)).toNat =
        rootStart f.vid + i / 16

theorem indexFits (hf : f.Located) (hspc : 0 < f.vid.sectorsPerCluster.toNat)
    (hi : i ≤ f.vid.maxRootEntries.toNat) : IndexFits f i := by
  have hmax := f.vid.maxRootEntries.toNat_lt
  have hsteps : i * dirEntrySize / f.vid.clusterSize ≤ i * dirEntrySize / sectorSize :=
    Nat.div_le_div_left (Nat.le_mul_of_pos_left _ hspc) (by decide)
  have hlt : i * dirEntrySize < 2 ^ 21 := by
    rw [dirEntrySize]
    omega
  constructor
  · omega
  · omega
  · rw [sectorSize] at hsteps
    rw [startingRootCluNum]
    omega
  · intro h
    have hstart := rootStart_lt f.vid
    have hdata := dataStart_lt f.vid
    rw [(clusterSec_rootEntry hf hspc h).2.1, UInt32.toNat_ofNat', Nat.mod_eq_of_lt]
    rw [dataStart, dirEntrySize, sectorSize, ← rootStart] at hdata
    have hin := Nat.lt_of_div_lt_div h
    rw [dirEntrySize] at hin
    omega

theorem compared_of_find?_eq_none {filename : List UInt8} {l : List (Nat × DirEntry)}
    (h : l.find? (named filename) = none) : compared filename l = l := by
  have hno : ∀ e ∈ l, (!named filename e) = true := fun e he => by
    rw [Bool.not_eq_true', Bool.eq_false_iff]
    exact List.find?_eq_none.mp h e he
  rw [compared, h, List.takeWhile_eq_self_iff.mpr hno]
  exact List.append_nil l

/-- No entry is the one of the name `.`, which the comparison refuses. -/
theorem find?_named_dot (l : List (Nat × DirEntry)) :
    l.find? (named ['.'.toUInt8]) = none :=
  List.find?_eq_none.mpr fun e _ => by
    rw [show named ['.'.toUInt8] e = false from rfl]
    decide

/-- On every volume and every contents of the root directory, the loop of
`fat16_display_root` ends at the entry `max_root_entries` at the latest, with
the number of no entry wrapping, and it lists the candidates: those which every
search compares up to the first one of its name, and the search for `.` all. -/
theorem fat16DisplayRoot_lists (hf : Reachable f) (hspc : 1 ≤ f.vid.sectorsPerCluster)
    (d : Drive) :
    ∃ ls, fat16DisplayRoot d f = .ok (some ls) ∧
      displayFrom d f (f.vid.maxRootEntries.toNat + 1) 0 = .ok (some ls) ∧
      rootdirGetEntryNum d f f.vid.maxRootEntries.toNat = .ok none ∧
      (∀ i ≤ f.vid.maxRootEntries.toNat, IndexFits f i) ∧
      listed ls = candidates d f ∧
      (∀ filename, ∃ found,
        findEntryLogFrom d f filename f.vid.maxRootEntries.toNat 0 =
            .ok (compared filename (listed ls), found) ∧
          rootdirFindEntry d f filename = .ok found ∧
          found = ((listed ls).find? (named filename)).map Prod.snd) ∧
      findEntryLogFrom d f ['.'.toUInt8] f.vid.maxRootEntries.toNat 0 =
        .ok (listed ls, none) := by
  have hpos : 0 < f.vid.sectorsPerCluster.toNat := UInt8.le_iff_toNat_le.mp hspc
  have hlt := f.vid.maxRootEntries.toNat_lt
  obtain ⟨ls, hls, hlisted⟩ := displayFrom_listed (d := d) hpos (f.vid.maxRootEntries.toNat + 1) 0
    (Nat.zero_le _) (by omega)
  obtain ⟨k, hk⟩ := Nat.exists_eq_add_of_le (show f.vid.maxRootEntries.toNat + 1 ≤ 2 ^ 16 by omega)
  rw [Nat.sub_zero] at hlisted
  refine ⟨ls, ?_, hls, rootdirGetEntryNum_beyond hpos le_rfl (by omega),
    fun i hi => indexFits hf.located hpos hi, hlisted, fun filename => ?_, ?_⟩
  · rw [fat16DisplayRoot, hk]
    exact displayFrom_mono hls k
  · rw [hlisted]
    exact ⟨_, findEntryLogFrom_eq hpos filename _ 0, rootdirFindEntry_eq hpos filename, rfl⟩
  · rw [findEntryLogFrom_eq hpos, hlisted, compared_of_find?_eq_none (find?_named_dot _),
      find?_named_dot]
    rfl

end

theorem fat16DisplayRoot_lists_sample :
    ∃ ls, fat16DisplayRoot (sampleDrive (sampleFileSectors 128))
        (sampleVolume (sampleFileSectors 128)) = .ok (some ls) ∧
      displayFrom (sampleDrive (sampleFileSectors 128)) (sampleVolume (sampleFileSectors 128))
        (128 + 1) 0 = .ok (some ls) ∧
      rootdirGetEntryNum (sampleDrive (sampleFileSectors 128))
        (sampleVolume (sampleFileSectors 128)) 128 = .ok none ∧
      (∀ i ≤ 128, IndexFits (sampleVolume (sampleFileSectors 128)) i) ∧
      listed ls = candidates (sampleDrive (sampleFileSectors 128))
        (sampleVolume (sampleFileSectors 128)) ∧
      (∀ filename, ∃ found,
        findEntryLogFrom (sampleDrive (sampleFileSectors 128))
            (sampleVolume (sampleFileSectors 128)) filename 128 0 =
            .ok (compared filename (listed ls), found) ∧
          rootdirFindEntry (sampleDrive (sampleFileSectors 128))
            (sampleVolume (sampleFileSectors 128)) filename = .ok found ∧
          found = ((listed ls).find? (named filename)).map Prod.snd) ∧
      findEntryLogFrom (sampleDrive (sampleFileSectors 128))
        (sampleVolume (sampleFileSectors 128)) ['.'.toUInt8] 128 0 = .ok (listed ls, none) :=
  fat16DisplayRoot_lists (sampleVolume_reachable (sampleFileSectors 128)) (by decide)
    (sampleDrive (sampleFileSectors 128))

end Kboot86.Fat16
