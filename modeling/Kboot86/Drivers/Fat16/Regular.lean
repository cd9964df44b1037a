import Kboot86.Drivers.Fat16.Scan

/-!
# Entries that are not files

The attributes mark volume labels and subdirectories. The search of the root
directory looks at the label bit only as a part of the mark of a long name, and
at the subdirectory bit not at all, so it returns the first entry of a name
whatever it is.
-/

namespace Kboot86.Fat16

namespace DirEntry

def subdir (de : DirEntry) : Bool := attr de &&& 0x10 != 0

def isRegular (de : DirEntry) : Bool := !de.volLabel && !de.subdir

end DirEntry

section

variable (d : Drive) (f : Volume) (filename : List UInt8)

/-- The search finds regular files only, and one if there is one. -/
structure FindsRegular : Prop where
  accepted : ∀ de, rootdirFindEntry d f filename = .ok (some de) → de.isRegular = true
  not_hidden : ∀ e ∈ candidates d f, named filename e = true → e.2.isRegular = true →
    ∃ de, rootdirFindEntry d f filename = .ok (some de) ∧ de.isRegular = true

variable {d : Drive} {f : Volume} {filename : List UInt8}

theorem candidates_pairwise : (candidates d f).Pairwise fun e e' => e.1 < e'.1 := by
  refine List.Pairwise.filterMap _ ?_
    (List.Pairwise.sublist (List.takeWhile_sublist _) List.pairwise_lt_range')
  intro j j' hlt e he e' he'
  obtain ⟨de, -, rfl⟩ := Option.map_eq_some_iff.mp he
  obtain ⟨de', -, rfl⟩ := Option.map_eq_some_iff.mp he'
  exact hlt

theorem le_of_find? {l : List (Nat × DirEntry)} (hl : l.Pairwise fun e e' => e.1 < e'.1)
    {p : Nat × DirEntry → Bool} {e e' : Nat × DirEntry} (h : l.find? p = some e) (he' : e' ∈ l)
    (hp : p e' = true) : e' = e ∨ e.1 < e'.1 := by
  obtain ⟨-, before, after, rfl, hbefore⟩ := List.find?_eq_some_iff_append.mp h
  rcases List.mem_append.mp he' with hmem | hmem
  · have hnot := hbefore e' hmem
    rw [hp] at hnot
    cases hnot
  · rcases List.mem_cons.mp hmem with rfl | hmem
    · exact .inl rfl
    · exact .inr (List.rel_of_pairwise_cons (List.pairwise_append.mp hl).2.1 hmem)

theorem candidates_of_zero (hspc : ¬ 0 < f.vid.sectorsPerCluster.toNat) :
    candidates d f = [] := by
  refine candidatesFrom_of_none ?_
  rw [entryAt, rootdirGetEntryNum_fault (by simpa [spc_pos_iff] using hspc)]

theorem find?_of_found {de : DirEntry} (h : rootdirFindEntry d f filename = .ok (some de)) :
    ∃ i, (candidates d f).find? (named filename) = some (i, de) := by
  rw [rootdirFindEntry_eq (spc_pos_of_found h), Except.ok.injEq] at h
  obtain ⟨e, he, rfl⟩ := Option.map_eq_some_iff.mp h
  exact ⟨e.1, he⟩

theorem found_of_candidate {e : Nat × DirEntry} (he : e ∈ candidates d f)
    (hnamed : named filename e = true) :
    ∃ e₀, (candidates d f).find? (named filename) = some e₀ ∧
      rootdirFindEntry d f filename = .ok (some e₀.2) := by
  have hspc : 0 < f.vid.sectorsPerCluster.toNat := by
    by_contra hspc
    rw [candidates_of_zero hspc] at he
    cases he
  obtain ⟨e₀, he₀⟩ := Option.isSome_iff_exists.mp (List.find?_isSome.mpr ⟨e, he, hnamed⟩)
  refine ⟨e₀, he₀, ?_⟩
  rw [rootdirFindEntry_eq hspc, he₀]
  rfl

/-- The search finds regular files exactly when every volume label and
directory of the name stands behind a regular file of the name. -/
theorem findsRegular_iff :
    FindsRegular d f filename ↔
      ∀ e ∈ candidates d f, named filename e = true → e.2.isRegular = false →
        ∃ e' ∈ candidates d f, named filename e' = true ∧ e'.2.isRegular = true ∧ e'.1 < e.1 := by
  constructor
  · intro h e he hnamed hnot
    obtain ⟨e₀, hfirst, hfound⟩ := found_of_candidate he hnamed
    have hregular := h.accepted e₀.2 hfound
    refine ⟨e₀, List.mem_of_find?_eq_some hfirst, List.find?_some hfirst, hregular, ?_⟩
    rcases le_of_find? candidates_pairwise hfirst he hnamed with rfl | hlt
    · rw [hregular] at hnot
      cases hnot
    · exact hlt
  · intro h
    have haccepted : ∀ de, rootdirFindEntry d f filename = .ok (some de) →
        de.isRegular = true := by
      intro de hfound
      obtain ⟨i, hfirst⟩ := find?_of_found hfound
      by_contra hnot
      obtain ⟨e', he', hnamed, -, hlt⟩ := h (i, de) (List.mem_of_find?_eq_some hfirst)
        (List.find?_some hfirst) (Bool.eq_false_iff.mpr hnot)
      rcases le_of_find? candidates_pairwise hfirst he' hnamed with rfl | hlt'
      · exact Nat.lt_irrefl _ hlt
      · exact Nat.lt_asymm hlt hlt'
    refine ⟨haccepted, fun e he hnamed _ => ?_⟩
    obtain ⟨e₀, -, hfound⟩ := found_of_candidate he hnamed
    exact ⟨e₀.2, hfound, haccepted e₀.2 hfound⟩

end

/-- The volume with a directory `KERNEL.ELF` in entry 0 of the root directory
and the file in entry 1. -/
def shadowedSectors : Nat → Sector
  | 2 => fun k => if k = 11 then 0x10 else if k < 32 then sampleRoot 2 0 k
      else sampleRoot 2 513 (k - 32)
  | n => sampleFileSectors 128 n

theorem findsRegular_shadowed :
    Reachable (sampleVolume shadowedSectors) ∧
      fat16GetFileSize (sampleDrive shadowedSectors) (sampleVolume shadowedSectors) sampleName =
        .ok 0 ∧
      ¬ FindsRegular (sampleDrive shadowedSectors) (sampleVolume shadowedSectors) sampleName := by
  refine ⟨sampleVolume_reachable _, rfl, fun h => ?_⟩
  have hregular : (rootdirFindEntry (sampleDrive shadowedSectors) (sampleVolume shadowedSectors)
      sampleName).toOption.join.map DirEntry.isRegular = some false := by decide
  cases hfound : rootdirFindEntry (sampleDrive shadowedSectors) (sampleVolume shadowedSectors)
      sampleName with
  | error e =>
      rw [hfound] at hregular
      cases hregular
  | ok r =>
      rw [hfound] at hregular
      obtain ⟨de, rfl, hde⟩ := Option.map_eq_some_iff.mp hregular
      rw [h.accepted de hfound] at hde
      cases hde

end Kboot86.Fat16
