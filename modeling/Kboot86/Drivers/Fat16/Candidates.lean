import Kboot86.Drivers.Fat16.LoadSpec
import Mathlib.Data.List.TakeWhile

/-!
# The entries that a loop looks at

The loops over the root directory stop at the same entry and pass over the same
ones. The others, in their order, are the candidates. A search compares them
with its file name up to the first one that has it.
-/

namespace Kboot86.Fat16

def DirEntry.isShort (de : DirEntry) : Bool := !de.isUnused && !de.hasLongName

section

variable (d : Drive) (f : Volume)

/-- The loop of `_rootdir_find_entry`, which also returns the entries that it
hands to `_dir_entry_is_filename`, with their numbers. -/
def findEntryLogFrom (filename : List UInt8) :
    Nat → Nat → Except DivideError (List (Nat × DirEntry) × Option DirEntry)
  | 0, _ => pure ([], none)
  | n + 1, i => do
      match ← rootdirGetEntryNum d f i with
      | none => pure ([], none)
      | some de =>
          if de.isEnd then pure ([], none)
          else if de.isUnused then findEntryLogFrom filename n (i + 1)
          else if de.hasLongName then findEntryLogFrom filename n (i + 1)
          else if dirEntryIsFilename de filename then pure ([(i, de)], some de)
          else do
            let r ← findEntryLogFrom filename n (i + 1)
            pure ((i, de) :: r.1, r.2)

def entryAt (i : Nat) : Option DirEntry :=
  match rootdirGetEntryNum d f i with
  | .ok (some de) => if de.isEnd then none else some de
  | _ => none

/-- Of the `n` entries from `i` on, those before the end of the directory that
are in use and have a short name, with their numbers. -/
def candidatesFrom (n i : Nat) : List (Nat × DirEntry) :=
  ((List.range' i n).takeWhile fun j => (entryAt d f j).isSome).filterMap fun j =>
    ((entryAt d f j).filter DirEntry.isShort).map (j, ·)

def candidates : List (Nat × DirEntry) := candidatesFrom d f f.vid.maxRootEntries.toNat 0

inductive Turn (i : Nat) : Prop where
  | absent (get : rootdirGetEntryNum d f i = .ok none)
  | ended (de : DirEntry) (get : rootdirGetEntryNum d f i = .ok (some de))
      (isEnd : de.isEnd = true)
  | skipped (de : DirEntry) (get : rootdirGetEntryNum d f i = .ok (some de))
      (notEnd : de.isEnd = false) (notShort : de.isShort = false)
  | candidate (de : DirEntry) (get : rootdirGetEntryNum d f i = .ok (some de))
      (notEnd : de.isEnd = false) (short : de.isShort = true)

end

def named (filename : List UInt8) (e : Nat × DirEntry) : Bool := dirEntryIsFilename e.2 filename

/-- The candidates up to the first one of the file name. -/
def compared (filename : List UInt8) (l : List (Nat × DirEntry)) : List (Nat × DirEntry) :=
  l.takeWhile (fun e => !named filename e) ++ (l.find? (named filename)).toList

section

variable {d : Drive} {f : Volume} {i n : Nat} {de : DirEntry}

theorem rootdirGetEntryNum_total (h : 0 < f.vid.sectorsPerCluster.toNat) (num : Nat) :
    ∃ r, rootdirGetEntryNum d f num = .ok r := by
  unfold rootdirGetEntryNum
  dsimp only
  rw [udiv_of_pos (Vid.clusterSize_pos h), ok_bind, Vid.rootClusters_eq h, ok_bind]
  split
  · exact ⟨_, rfl⟩
  · rw [umod_of_pos h, ok_bind]
    split
    · exact ⟨_, rfl⟩
    · exact ⟨_, rfl⟩

theorem rootdirGetEntryNum_beyond (h : 0 < f.vid.sectorsPerCluster.toNat) {num : Nat}
    (hmax : f.vid.maxRootEntries.toNat ≤ num) (hnum : num < 2 ^ 27) :
    rootdirGetEntryNum d f num = .ok none := by
  have hoff : num * dirEntrySize % 2 ^ 32 = num * dirEntrySize := by
    rw [dirEntrySize]
    omega
  have hle : f.vid.roots ≤ num * dirEntrySize / f.vid.clusterSize :=
    Nat.div_le_div_right (Nat.mul_le_mul_right _ hmax)
  unfold rootdirGetEntryNum
  dsimp only
  rw [udiv_of_pos (Vid.clusterSize_pos h), ok_bind, Vid.rootClusters_eq h, ok_bind, hoff,
    if_pos hle]
  rfl

theorem ite_of_isShort {α : Type*} (h : de.isShort = true) (a b : α) :
    (if de.isUnused then a else if de.hasLongName then a else b) = b := by
  have hsplit : de.isUnused = false ∧ de.hasLongName = false := by
    simpa [DirEntry.isShort] using h
  rw [hsplit.1, hsplit.2]
  rfl

theorem ite_of_not_isShort {α : Type*} (h : de.isShort = false) (a b : α) :
    (if de.isUnused then a else if de.hasLongName then a else b) = a := by
  by_cases hunused : de.isUnused = true
  · rw [if_pos hunused]
  · have hlong : de.hasLongName = true := by simpa [DirEntry.isShort, hunused] using h
    rw [if_neg hunused, if_pos hlong]

theorem turn (hspc : 0 < f.vid.sectorsPerCluster.toNat) (i : Nat) : Turn d f i := by
  obtain ⟨r, hr⟩ := rootdirGetEntryNum_total (d := d) hspc i
  cases r with
  | none => exact .absent hr
  | some de =>
      cases hend : de.isEnd with
      | true => exact .ended de hr hend
      | false =>
          cases hshort : de.isShort with
          | true => exact .candidate de hr hend hshort
          | false => exact .skipped de hr hend hshort

/-! ### The candidates -/

theorem entryAt_of_get (get : rootdirGetEntryNum d f i = .ok (some de))
    (notEnd : de.isEnd = false) : entryAt d f i = some de := by
  rw [entryAt, get]
  dsimp only
  rw [notEnd]
  rfl

theorem candidatesFrom_of_none (h : entryAt d f i = none) : candidatesFrom d f n i = [] := by
  cases n with
  | zero => rfl
  | succ n =>
      rw [candidatesFrom, List.range'_succ, List.takeWhile_cons_of_neg (by rw [h]; simp)]
      rfl

theorem candidatesFrom_of_absent (get : rootdirGetEntryNum d f i = .ok none) :
    candidatesFrom d f n i = [] := candidatesFrom_of_none (by rw [entryAt, get])

theorem candidatesFrom_of_end (get : rootdirGetEntryNum d f i = .ok (some de))
    (isEnd : de.isEnd = true) : candidatesFrom d f n i = [] :=
  candidatesFrom_of_none (by
    rw [entryAt, get]
    exact if_pos isEnd)

theorem candidatesFrom_of_skipped (get : rootdirGetEntryNum d f i = .ok (some de))
    (notEnd : de.isEnd = false) (notShort : de.isShort = false) :
    candidatesFrom d f (n + 1) i = candidatesFrom d f n (i + 1) := by
  have hat := entryAt_of_get get notEnd
  rw [candidatesFrom, List.range'_succ, List.takeWhile_cons_of_pos (by rw [hat]; rfl),
    List.filterMap_cons_none (by rw [hat, Option.filter_some, notShort]; rfl)]
  rfl

theorem candidatesFrom_of_candidate (get : rootdirGetEntryNum d f i = .ok (some de))
    (notEnd : de.isEnd = false) (short : de.isShort = true) :
    candidatesFrom d f (n + 1) i = (i, de) :: candidatesFrom d f n (i + 1) := by
  have hat := entryAt_of_get get notEnd
  rw [candidatesFrom, List.range'_succ, List.takeWhile_cons_of_pos (by rw [hat]; rfl),
    List.filterMap_cons_some (by rw [hat, Option.filter_some, short]; rfl)]
  rfl

/-! ### The search -/

/-- The log does not change what is found. -/
theorem findEntryLogFrom_found (filename : List UInt8) (n i : Nat) :
    (findEntryLogFrom d f filename n i).map Prod.snd = findEntryFrom d f filename n i := by
  induction n generalizing i with
  | zero => rfl
  | succ n ih =>
      rw [findEntryLogFrom, findEntryFrom]
      cases rootdirGetEntryNum d f i with
      | error e => rfl
      | ok r =>
          rw [ok_bind, ok_bind]
          cases r with
          | none => rfl
          | some de =>
              dsimp only
              split
              · rfl
              split
              · exact ih (i + 1)
              split
              · exact ih (i + 1)
              split
              · rfl
              · rw [← ih (i + 1)]
                cases findEntryLogFrom d f filename n (i + 1) <;> rfl

theorem compared_of_named {filename : List UInt8} {e : Nat × DirEntry}
    (h : named filename e = true) (l : List (Nat × DirEntry)) :
    compared filename (e :: l) = [e] := by
  rw [compared, List.takeWhile_cons_of_neg (by rw [h]; decide), List.find?_cons_of_pos h]
  rfl

theorem compared_of_not_named {filename : List UInt8} {e : Nat × DirEntry}
    (h : named filename e = false) (l : List (Nat × DirEntry)) :
    compared filename (e :: l) = e :: compared filename l := by
  rw [compared, List.takeWhile_cons_of_pos (by rw [h]; rfl),
    List.find?_cons_of_neg (by rw [h]; decide)]
  rfl

/-- The search compares the candidates in their order and stops at the first
one of the file name. -/
theorem findEntryLogFrom_eq (hspc : 0 < f.vid.sectorsPerCluster.toNat) (filename : List UInt8)
    (n i : Nat) :
    findEntryLogFrom d f filename n i =
      .ok (compared filename (candidatesFrom d f n i),
        ((candidatesFrom d f n i).find? (named filename)).map Prod.snd) := by
  induction n generalizing i with
  | zero => rfl
  | succ n ih =>
      rw [findEntryLogFrom]
      rcases turn (d := d) hspc i with get | ⟨de, get, isEnd⟩ | ⟨de, get, notEnd, notShort⟩ |
        ⟨de, get, notEnd, short⟩
      · rw [get, candidatesFrom_of_absent get]
        rfl
      · rw [get, ok_bind, candidatesFrom_of_end get isEnd]
        dsimp only
        rw [if_pos isEnd]
        rfl
      · rw [get, ok_bind, candidatesFrom_of_skipped get notEnd notShort]
        dsimp only
        rw [if_neg (by rw [notEnd]; decide), ite_of_not_isShort notShort, ih]
      · rw [get, ok_bind, candidatesFrom_of_candidate get notEnd short]
        dsimp only
        rw [if_neg (by rw [notEnd]; decide), ite_of_isShort short,
          show dirEntryIsFilename de filename = named filename (i, de) from rfl]
        cases hnamed : named filename (i, de) with
        | true =>
            rw [compared_of_named hnamed, List.find?_cons_of_pos hnamed]
            rfl
        | false =>
            rw [compared_of_not_named hnamed,
              List.find?_cons_of_neg (by rw [hnamed]; decide), ih]
            rfl

/-- The entry found is the first candidate of the file name. -/
theorem rootdirFindEntry_eq (hspc : 0 < f.vid.sectorsPerCluster.toNat) (filename : List UInt8) :
    rootdirFindEntry d f filename =
      .ok (((candidates d f).find? (named filename)).map Prod.snd) := by
  rw [rootdirFindEntry, ← findEntryLogFrom_found, findEntryLogFrom_eq hspc]
  rfl

theorem findEntryFrom_total (h : 0 < f.vid.sectorsPerCluster.toNat) (filename : List UInt8)
    (n i : Nat) : ∃ r, findEntryFrom d f filename n i = .ok r := by
  rw [← findEntryLogFrom_found, findEntryLogFrom_eq h]
  exact ⟨_, rfl⟩

end

end Kboot86.Fat16
