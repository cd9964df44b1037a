import Kboot86.Drivers.Fat16.DisplayRoot
import Kboot86.Drivers.Fat16.Contents

/-!
# Loading into a shorter buffer

What `fat16_load` stores depends on the buffer only in how much it stores: on
the same disk, a load into a shorter buffer copies the beginning of what a load
into a longer one copies, and it succeeds when the longer one does.
-/

namespace Kboot86.Fat16

section

variable {d : Drive} {f : Volume} {start : UInt16} {buf : Nat → UInt8}

/-- A load of `filename` into a buffer of `n` bytes that ends with `ret`:
the file is not found, or the load stores in the first `min(size, n)` bytes
only, and counts them unless it fails. -/
inductive LoadResult (d : Drive) (f : Volume) (filename : List UInt8) (buf : Nat → UInt8)
    (n : UInt32) (ret : Int) (out : Output) : Prop where
  | missing (found : rootdirFindEntry d f filename = .ok none) (ret_eq : ret = -1)
      (unchanged : out.buf = buf)
  | loaded (de : DirEntry) (found : rootdirFindEntry d f filename = .ok (some de))
      (ret_eq : ret = -1 ∨ ret = (min de.size.toNat n.toNat : Nat))
      (beyond : ∀ a, min de.size.toNat n.toNat ≤ a → out.buf a = buf a)

theorem Readable.mono {m n : Nat} (h : Readable d f start n) (hmn : m ≤ n) :
    Readable d f start m := fun j hj => h j (lt_of_lt_of_le hj hmn)

theorem loadMax_mono {m n : UInt32} (de : DirEntry) (hmn : m ≤ n) :
    loadMax de m ≤ loadMax de n :=
  min_le_min_left _ (UInt32.le_iff_toNat_le.mp hmn)

theorem toSsize_loadMax {n : UInt32} (de : DirEntry) (hn : n.toNat < 2 ^ 31) :
    toSsize (loadMax de n) = (min de.size.toNat n.toNat : Nat) :=
  toSsize_of_lt (lt_of_le_of_lt (min_le_right _ _) hn)

theorem Holds.beyond {i : Nat} {out : Output} (h : Holds d f start buf i out) {a : Nat}
    (ha : i ≤ a) : out.buf a = buf a := by
  rw [h a, if_neg (Nat.not_lt.mpr ha)]

theorem Holds.agree {buf' : Nat → UInt8} {i j : Nat} {out out' : Output}
    (h : Holds d f start buf i out) (h' : Holds d f start buf' j out') (hji : j ≤ i) {a : Nat}
    (ha : a < j) : out'.buf a = out.buf a := by
  rw [h a, h' a, if_pos ha, if_pos (lt_of_lt_of_le ha hji)]

theorem fat16Load_missing {filename : List UInt8}
    (h : rootdirFindEntry d f filename = .ok none) (n : UInt32) :
    fat16Load d f filename buf n = .ok (-1, ⟨buf, []⟩) := by
  rw [fat16Load, h]
  rfl

theorem fat16Load_result (hspc : 0 < f.vid.sectorsPerCluster.toNat) (filename : List UInt8)
    (buf : Nat → UInt8) {n : UInt32} (hn : n.toNat < 2 ^ 31) :
    ∃ ret out, fat16Load d f filename buf n = .ok (ret, out) ∧
      LoadResult d f filename buf n ret out := by
  obtain ⟨found, hfound⟩ := findEntryFrom_total (d := d) hspc filename
    f.vid.maxRootEntries.toNat 0
  cases found with
  | none => exact ⟨-1, ⟨buf, []⟩, fat16Load_missing hfound n, .missing hfound rfl rfl⟩
  | some de =>
      by_cases hread : Readable d f de.startingCluster (loadMax de n)
      · obtain ⟨out, hload, hholds, -⟩ := fat16Load_readable buf hfound hread
        rw [toSsize_loadMax de hn] at hload
        exact ⟨_, out, hload, .loaded de hfound (.inr rfl) fun a ha => hholds.beyond ha⟩
      · obtain ⟨out, hload, m, hm, hholds⟩ := fat16Load_not_readable buf hfound hread
        exact ⟨-1, out, hload, .loaded de hfound (.inl rfl) fun a ha =>
          hholds.beyond (le_trans (le_of_lt hm) ha)⟩

theorem readable_of_load {filename : List UInt8} {n : UInt32} {ret : Int} {out : Output}
    (h : fat16Load d f filename buf n = .ok (ret, out)) (hret : ret ≠ -1) :
    ∃ de, rootdirFindEntry d f filename = .ok (some de) ∧
      Readable d f de.startingCluster (loadMax de n) ∧
      Holds d f de.startingCluster buf (loadMax de n) out := by
  obtain ⟨de, hde, -⟩ := fat16Load_count h hret
  refine ⟨de, hde, ?_⟩
  by_cases hread : Readable d f de.startingCluster (loadMax de n)
  · obtain ⟨out', hload, hholds, -⟩ := fat16Load_readable buf hde hread
    obtain rfl : out' = out := congrArg Prod.snd (Except.ok.inj (hload.symm.trans h))
    exact ⟨hread, hholds⟩
  · obtain ⟨out', hload, -⟩ := fat16Load_not_readable buf hde hread
    exact absurd (congrArg Prod.fst (Except.ok.inj (h.symm.trans hload))) hret

/-- A load into a shorter buffer, of any contents, succeeds with the longer one
and stores the beginning of what that stores. -/
theorem fat16Load_shorter {filename : List UInt8} {m n : UInt32} (hmn : m ≤ n)
    (hn : n.toNat < 2 ^ 31) {ret : Int} {out : Output}
    (h : fat16Load d f filename buf n = .ok (ret, out)) (hret : ret ≠ -1) (buf' : Nat → UInt8) :
    ∃ de out', rootdirFindEntry d f filename = .ok (some de) ∧
      fat16Load d f filename buf' m = .ok ((min de.size.toNat m.toNat : Nat), out') ∧
      ∀ a, out'.buf a = if a < min de.size.toNat m.toNat then out.buf a else buf' a := by
  obtain ⟨de, hde, hread, hholds⟩ := readable_of_load h hret
  have hle := loadMax_mono de hmn
  obtain ⟨out', hload, hholds', -⟩ := fat16Load_readable buf' hde (hread.mono hle)
  rw [toSsize_loadMax de (lt_of_le_of_lt (UInt32.le_iff_toNat_le.mp hmn) hn)] at hload
  refine ⟨de, out', hde, hload, fun a => ?_⟩
  split
  · rename_i ha
    exact hholds.agree hholds' hle ha
  · rename_i ha
    exact hholds'.beyond (Nat.not_lt.mp ha)

/-- On any disk, `fat16_load` stores within its bounds, and a load into a
shorter buffer copies the beginning of what a load that succeeds copies. -/
theorem fat16Load_prefix (hspc : 1 ≤ f.vid.sectorsPerCluster) (filename : List UInt8)
    (buf buf' : Nat → UInt8) {m n : UInt32} (hmn : m ≤ n) (hn : n.toNat < 2 ^ 31) :
    ∃ ret out, fat16Load d f filename buf n = .ok (ret, out) ∧
      LoadResult d f filename buf n ret out ∧
      (ret ≠ -1 → ∃ de out', rootdirFindEntry d f filename = .ok (some de) ∧
        fat16Load d f filename buf' m = .ok ((min de.size.toNat m.toNat : Nat), out') ∧
        ∀ a, out'.buf a = if a < min de.size.toNat m.toNat then out.buf a else buf' a) := by
  obtain ⟨ret, out, hload, hresult⟩ :=
    fat16Load_result (d := d) (UInt8.le_iff_toNat_le.mp hspc) filename buf hn
  exact ⟨ret, out, hload, hresult, fun hret => fat16Load_shorter hmn hn hload hret buf'⟩

end

theorem fat16Load_prefix_sample :
    ∃ ret out, fat16Load (sampleDrive (sampleFileSectors 128))
        (sampleVolume (sampleFileSectors 128)) sampleName (fun _ => 0) 1024 = .ok (ret, out) ∧
      LoadResult (sampleDrive (sampleFileSectors 128)) (sampleVolume (sampleFileSectors 128))
        sampleName (fun _ => 0) 1024 ret out ∧
      (ret ≠ -1 → ∃ de out', rootdirFindEntry (sampleDrive (sampleFileSectors 128))
          (sampleVolume (sampleFileSectors 128)) sampleName = .ok (some de) ∧
        fat16Load (sampleDrive (sampleFileSectors 128)) (sampleVolume (sampleFileSectors 128))
          sampleName (fun _ => 1) 100 = .ok ((min de.size.toNat 100 : Nat), out') ∧
        ∀ a, out'.buf a = if a < min de.size.toNat 100 then out.buf a else 1) :=
  fat16Load_prefix (m := 100) (by decide) sampleName (fun _ => 0) (fun _ => 1) (by decide)
    (by decide)

end Kboot86.Fat16
