import Kboot86.Foundation.Transition
import Kboot86.Mm.Memory
import Kboot86.Mm.Paging

/-!
# What every sequence of paging calls keeps

`TablesInv` ties the two levels together: a present directory entry, other than
the last one, points at the page table of its own index, and the page table of
an absent entry maps nothing. Under it the hardware walk of an address below
the last 4 MiB is `lookup`, one look into one page table. `PagingInv` adds what
`paging_init` sets up for good: the last directory entry points at the
directory itself and the first four page tables are in place.
-/

namespace Kboot86

inductive PagingOp where
  | map (vaddr paddr : UInt32) (writable : Bool)
  | unmap (vaddr : UInt32)

def pagingStep (L : Layout) (t : Tables) : PagingOp → Tables × Int
  | .map v p w => pagingMap L t v p w
  | .unmap v => pagingUnmap t v

/-- Any sequence of calls, successful or not, after a successful
`paging_init`. -/
def pagingSystem (L : Layout) : System Tables PagingOp where
  init t := ∃ t₀, pagingInit L t₀ = (t, 0)
  step t op t' := t' = (pagingStep L t op).1

structure TablesInv (L : Layout) (t : Tables) : Prop where
  pde : ∀ n < 1023, (t.pageDir (entryIdx n)).present = true →
    isTableIdxImplemented n = true ∧
      t.pageDir (entryIdx n) = pdeOf (L.tableAddr (tableIdx2ArrayIdx n))
  absent : ∀ n, isTableIdxImplemented n = true → (t.pageDir (entryIdx n)).present = false →
    ∀ i, (t.pageTables (tableIdx2ArrayIdx n) i).present = false

structure PagingInv (L : Layout) (t : Tables) : Prop extends TablesInv L t where
  self : t.pageDir (entryIdx 1023) = pdeOf L.pageDirAddr
  low : ∀ n < 4, (t.pageDir (entryIdx n)).present = true

/-- The page table entry of an address, when it has a page table and the entry
is present. -/
def lookup (t : Tables) (va : UInt32) : Option PageEntry :=
  let e := t.pageTables (tableIdx2ArrayIdx (vaddr2pdIdx va)) (vaddr2ptIdx va)
  if isTableIdxImplemented (vaddr2pdIdx va) && e.present then some e else none

def PageEntry.translation (e : PageEntry) (va : UInt32) : Translation :=
  ⟨e.frame + va.toNat % 4096, e.write⟩

theorem isTableIdxImplemented_lt {n : Nat} (h : isTableIdxImplemented n = true) : n < 1023 := by
  rw [isTableIdxImplemented_iff] at h
  omega

theorem vaddr2ptIdx_eq (v : UInt32) : vaddr2ptIdx v = entryIdx (v.toNat / 4096 % 1024) := by
  apply Fin.ext
  rw [vaddr2ptIdx_val, entryIdx_val, Nat.mod_mod]

/-! ### The walk of an address below the last 4 MiB -/

theorem translate_eq_lookup {L : Layout} {m : Memory} (h : TablesInv L m.tables) {va : UInt32}
    (hva : va.toNat < 0xffc00000) :
    translate L m va = (lookup m.tables va).map fun e => e.translation va := by
  have hn : va.toNat / 4194304 < 1023 := by omega
  have hpd : vaddr2pdIdx va = va.toNat / 4194304 := vaddr2pdIdx_eq va
  have hpt := vaddr2ptIdx_eq va
  cases hpres : (m.tables.pageDir (entryIdx (va.toNat / 4194304))).present with
  | true =>
      obtain ⟨himpl, hpde⟩ := h.pde _ hn hpres
      have hframe := pdeOf_frame (L.tableAddr_aligned (tableIdx2ArrayIdx (va.toNat / 4194304)))
      rw [translate_of_table L m va hpde rfl hframe, lookup, hpd, hpt, himpl]
      generalize m.tables.pageTables (tableIdx2ArrayIdx (va.toNat / 4194304))
        (entryIdx (va.toNat / 4096 % 1024)) = e
      cases he : e.present <;> simp [PageEntry.translation, pdeOf]
  | false =>
      have hnone : lookup m.tables va = none := by
        cases himpl : isTableIdxImplemented (va.toNat / 4194304) with
        | false => simp [lookup, hpd, himpl]
        | true =>
            have habs := h.absent _ himpl hpres (entryIdx (va.toNat / 4096 % 1024))
            simp [lookup, hpd, hpt, habs]
      rw [translate_of_absent L m va hpres, hnone, Option.map_none]

/-- In the last 4 MiB the walk reads the page directory as a page table. -/
theorem translate_window {L : Layout} {m : Memory} (h : PagingInv L m.tables) {va : UInt32}
    (hva : 0xffc00000 ≤ va.toNat) :
    translate L m va =
      if (m.tables.pageDir (vaddr2ptIdx va)).present then
        some ((m.tables.pageDir (vaddr2ptIdx va)).translation va)
      else none := by
  have hlt := va.toNat_lt
  have hn : va.toNat / 4194304 = 1023 := by omega
  have hself := h.self
  rw [← hn] at hself
  rw [translate_of_self L m va hself rfl (pdeOf_frame L.pageDir_aligned), vaddr2ptIdx_eq]
  simp [PageEntry.translation, pdeOf]

/-! ### One call -/

theorem pteOf_frame (old : PageEntry) (p : UInt32) (w : Bool) :
    (pteOf old p w).frame = p.toNat / 4096 * 4096 := by
  have hlt := p.toNat_lt
  simp only [PageEntry.frame, pteOf, BitVec.toNat_ofNat, Nat.shiftRight_eq_div_pow]
  omega

/-- Two addresses with a page table use the same slot of the same table exactly
when they lie on one page. -/
theorem slot_eq_iff {v v' : UInt32} (hv : isTableIdxImplemented (vaddr2pdIdx v) = true)
    (hv' : isTableIdxImplemented (vaddr2pdIdx v') = true) :
    (tableIdx2ArrayIdx (vaddr2pdIdx v') = tableIdx2ArrayIdx (vaddr2pdIdx v) ∧
      vaddr2ptIdx v' = vaddr2ptIdx v) ↔ v'.toNat / 4096 = v.toNat / 4096 := by
  rw [tableIdx2ArrayIdx_inj hv' hv, vaddr_idx_eq_iff]

theorem lookup_setPte {t : Tables} {v v' : UInt32} (e : PageEntry)
    (hv : isTableIdxImplemented (vaddr2pdIdx v) = true) :
    lookup (t.setPte (tableIdx2ArrayIdx (vaddr2pdIdx v)) (vaddr2ptIdx v) e) v' =
      if v'.toNat / 4096 = v.toNat / 4096 then (if e.present then some e else none)
      else lookup t v' := by
  by_cases hpage : v'.toNat / 4096 = v.toNat / 4096
  · have hidx := (vaddr_idx_eq_iff v' v).mpr hpage
    simp [lookup, hidx.1, hidx.2, Tables.setPte_pageTables, hv, hpage]
  · rw [if_neg hpage]
    cases hv' : isTableIdxImplemented (vaddr2pdIdx v') with
    | false => simp [lookup, hv']
    | true =>
        have hslot := mt (slot_eq_iff hv hv').mp hpage
        rw [lookup, lookup, Tables.setPte_pageTables, if_neg hslot]

theorem lookup_withPde (L : Layout) (t : Tables) (v v' : UInt32) :
    lookup (t.withPde L v) v' = lookup t v' := by
  rw [lookup, lookup, Tables.withPde_pageTables]

theorem lookup_pagingMap (L : Layout) (t : Tables) {v p : UInt32} (w : Bool)
    (h : mapAccepts v p = true) (v' : UInt32) :
    lookup (pagingMap L t v p w).1 v' =
      if v'.toNat / 4096 = v.toNat / 4096 then
        some (pteOf (t.pageTables (tableIdx2ArrayIdx (vaddr2pdIdx v)) (vaddr2ptIdx v)) p w)
      else lookup t v' := by
  have himpl : isTableIdxImplemented (vaddr2pdIdx v) = true := by
    simp only [mapAccepts, Bool.and_eq_true] at h
    exact h.2
  rw [pagingMap_of_accepts L t w h, lookup_setPte _ himpl, lookup_withPde]
  simp [pteOf]

/-- `paging_unmap` clears one entry, or finds no directory entry, or fails at
the last directory entry, which is no page table. -/
theorem pagingUnmap_cases (L : Layout) {t : Tables} (h : TablesInv L t) (v : UInt32) :
    (pagingUnmap t v = (t, 1) ∧
      (isAddrPageAligned v = false ∨ vaddr2pdIdx v = 1023)) ∨
    (pagingUnmap t v = (t, 0) ∧ lookup t v = none) ∨
    (isTableIdxImplemented (vaddr2pdIdx v) = true ∧
      pagingUnmap t v =
        (t.setPte (tableIdx2ArrayIdx (vaddr2pdIdx v)) (vaddr2ptIdx v) PageEntry.cleared, 0)) := by
  have hlt := vaddr2pdIdx_lt v
  cases halign : isAddrPageAligned v with
  | false => exact .inl ⟨by simp [pagingUnmap, halign], .inl rfl⟩
  | true =>
  cases hpres : pageDirEntryIsPresent t (vaddr2pdIdx v) with
  | false =>
      refine .inr (.inl ⟨by simp [pagingUnmap, halign, hpres], ?_⟩)
      cases himpl : isTableIdxImplemented (vaddr2pdIdx v) with
      | false => simp [lookup, himpl]
      | true =>
          rw [pageDirEntryIsPresent_eq t hlt] at hpres
          simp [lookup, h.absent _ himpl hpres]
  | true =>
  cases himpl : isTableIdxImplemented (vaddr2pdIdx v) with
  | true =>
      exact .inr (.inr ⟨rfl, by simp [pagingUnmap, halign, hpres, pageTablesClearEntry, himpl]⟩)
  | false =>
      refine .inl ⟨by simp [pagingUnmap, halign, hpres, pageTablesClearEntry, himpl], .inr ?_⟩
      rw [pageDirEntryIsPresent_eq t hlt] at hpres
      by_contra hne
      have himpl' := (h.pde _ (by omega) hpres).1
      rw [himpl] at himpl'
      cases himpl'

/-! ### The invariant -/

theorem TablesInv.setPte_cleared {L : Layout} {t : Tables} (h : TablesInv L t) (a : Fin 5)
    (i : Fin 1024) : TablesInv L (t.setPte a i PageEntry.cleared) where
  pde n hn hp := h.pde n hn hp
  absent n hn hp j := by
    rw [Tables.setPte_pageTables]
    split
    · rfl
    · exact h.absent n hn hp j

theorem withPde_pageDir_of_ne (L : Layout) (t : Tables) (v : UInt32) {n : Nat} (hn : n < 1024)
    (hne : n ≠ vaddr2pdIdx v) : (t.withPde L v).pageDir (entryIdx n) = t.pageDir (entryIdx n) := by
  have hidx : entryIdx n ≠ entryIdx (vaddr2pdIdx v) :=
    mt (entryIdx_inj hn (vaddr2pdIdx_lt v)).mp hne
  unfold Tables.withPde
  split
  · rfl
  · rw [Tables.setPde_pageDir, Function.update_of_ne hidx]

/-- The directory entry of a mapped address is the one of its own table,
whether `paging_map` found it or installed it. -/
theorem withPde_pageDir_self {L : Layout} {t : Tables} (h : TablesInv L t) {v : UInt32}
    (hv : isTableIdxImplemented (vaddr2pdIdx v) = true) :
    (t.withPde L v).pageDir (entryIdx (vaddr2pdIdx v)) =
      pdeOf (L.tableAddr (tableIdx2ArrayIdx (vaddr2pdIdx v))) := by
  have hlt := isTableIdxImplemented_lt hv
  unfold Tables.withPde
  split
  · next hpres =>
      rw [pageDirEntryIsPresent_eq t (by omega)] at hpres
      exact (h.pde _ hlt hpres).2
  · rw [Tables.setPde_pageDir, Function.update_self]

theorem TablesInv.pagingMap {L : Layout} {t : Tables} (h : TablesInv L t) (v p : UInt32)
    (w : Bool) : TablesInv L (pagingMap L t v p w).1 := by
  cases hacc : mapAccepts v p with
  | false => rw [pagingMap_of_not_accepts L t w hacc]; exact h
  | true =>
  have himpl : isTableIdxImplemented (vaddr2pdIdx v) = true := by
    simp only [mapAccepts, Bool.and_eq_true] at hacc
    exact hacc.2
  rw [pagingMap_of_accepts L t w hacc]
  constructor
  · intro n hn hp
    rw [Tables.setPte_pageDir] at hp ⊢
    by_cases hnv : n = vaddr2pdIdx v
    · subst hnv
      exact ⟨himpl, withPde_pageDir_self h himpl⟩
    · rw [withPde_pageDir_of_ne L t v (by omega) hnv] at hp ⊢
      exact h.pde n hn hp
  · intro n hn hp i
    rw [Tables.setPte_pageDir] at hp
    by_cases hnv : n = vaddr2pdIdx v
    · subst hnv
      rw [withPde_pageDir_self h himpl] at hp
      cases hp
    · have hlt := isTableIdxImplemented_lt hn
      rw [withPde_pageDir_of_ne L t v (by omega) hnv] at hp
      have harr : tableIdx2ArrayIdx n ≠ tableIdx2ArrayIdx (vaddr2pdIdx v) :=
        mt (tableIdx2ArrayIdx_inj hn himpl).mp hnv
      rw [Tables.setPte_pageTables, if_neg (fun h => harr h.1), Tables.withPde_pageTables]
      exact h.absent n hn hp i

theorem TablesInv.pagingUnmap {L : Layout} {t : Tables} (h : TablesInv L t) (v : UInt32) :
    TablesInv L (pagingUnmap t v).1 := by
  rcases pagingUnmap_cases L h v with ⟨he, -⟩ | ⟨he, -⟩ | ⟨-, he⟩
  · rw [he]; exact h
  · rw [he]; exact h
  · rw [he]; exact h.setPte_cleared _ _

theorem pagingMap_pageDir_of_present {L : Layout} (t : Tables) (v p : UInt32) (w : Bool)
    {n : Nat} (hn : n < 1024) (hp : (t.pageDir (entryIdx n)).present = true) :
    (pagingMap L t v p w).1.pageDir (entryIdx n) = t.pageDir (entryIdx n) := by
  cases hacc : mapAccepts v p with
  | false => rw [pagingMap_of_not_accepts L t w hacc]
  | true =>
  rw [pagingMap_of_accepts L t w hacc, Tables.setPte_pageDir]
  by_cases hnv : n = vaddr2pdIdx v
  · subst hnv
    rw [Tables.withPde, if_pos (by rw [pageDirEntryIsPresent_eq t hn]; exact hp)]
  · exact withPde_pageDir_of_ne L t v hn hnv

theorem pagingUnmap_pageDir {L : Layout} {t : Tables} (h : TablesInv L t) (v : UInt32) :
    (pagingUnmap t v).1.pageDir = t.pageDir := by
  rcases pagingUnmap_cases L h v with ⟨he, -⟩ | ⟨he, -⟩ | ⟨-, he⟩
  · rw [he]
  · rw [he]
  · rw [he]
    rfl

theorem PagingInv.step {L : Layout} {t : Tables} (h : PagingInv L t) (op : PagingOp) :
    PagingInv L (pagingStep L t op).1 := by
  cases op with
  | map v p w =>
      refine ⟨h.toTablesInv.pagingMap v p w, ?_, ?_⟩
      · have hpres : (t.pageDir (entryIdx 1023)).present = true := by rw [h.self]; rfl
        rw [pagingStep, pagingMap_pageDir_of_present t v p w (by omega) hpres]
        exact h.self
      · intro n hn
        rw [pagingStep, pagingMap_pageDir_of_present t v p w (by omega) (h.low n hn)]
        exact h.low n hn
  | unmap v =>
      refine ⟨h.toTablesInv.pagingUnmap v, ?_, ?_⟩
      · rw [pagingStep, pagingUnmap_pageDir h.toTablesInv]
        exact h.self
      · intro n hn
        rw [pagingStep, pagingUnmap_pageDir h.toTablesInv]
        exact h.low n hn

end Kboot86
