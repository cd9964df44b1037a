import Kboot86.Lib.Elf32.Access
import Kboot86.Mm.Leads

/-!
# `paging_map` through its own pages

With paging on, `paging_map` looks at the page directory and then at one page
table, both through the pages on which they are mapped. While these pages lead
to the tables themselves, the call does to the tables what it does without
paging; whatever they lead to, it refuses the same arguments.
-/

namespace Kboot86.Elf32

open Exec

/-- The tables that `paging_map` looks at for `v`. -/
def Reaches (L : Layout) (v a : UInt32) : Prop :=
  a = L.pageDirAddr ∨ isTableIdxImplemented (vaddr2pdIdx v) = true ∧ a = L.tableOf v

/-- What `paging_map` finds for `v`: the tables it looks at are mapped where
they lie, and the directory entry is absent or the one of the table. -/
structure InPlace (L : Layout) (t : Tables) (v : UInt32) : Prop where
  tables : ∀ a, Reaches L v a → t.Leads L a a.toNat
  own : isTableIdxImplemented (vaddr2pdIdx v) = true → t.OwnTable L v

section

variable {L : Layout} {s : State} {v p : UInt32} {w : Bool}

theorem Reaches.aligned {a : UInt32} (ha : Reaches L v a) : a.toNat % 4096 = 0 := by
  rcases ha with rfl | ⟨-, rfl⟩
  · exact L.pageDir_aligned
  · exact L.tableAddr_aligned _

/-- A byte stored on none of the entries that matter. -/
theorem InPlace.store8 {m : Memory} {q : Nat} (hin : InPlace L m.tables v)
    (htables : ∀ a, Reaches L v a → ¬ L.OnEntries q a) (hdir : ¬ L.OnPde q v) (b : UInt8) :
    InPlace L (m.store8 L q b).tables v :=
  ⟨fun a ha => (hin.tables a ha).store8 (htables a ha) b,
    fun himpl => (hin.own himpl).store8 hdir b⟩

/-! ### The entries -/

def State.setTables (s : State) (t : Tables) : State :=
  { s with mem := { s.mem with tables := t } }

theorem translate_offset {m : Memory} {a : UInt32} (ha : a.toNat % 4096 = 0)
    (hleads : m.tables.Leads L a a.toNat) (off : Nat) (hoff : off < 4096) :
    ∃ w, translate L m (a + UInt32.ofNat off) = some ⟨a.toNat + off, w⟩ := by
  have hlt := a.toNat_lt
  have haddr : (a + UInt32.ofNat off).toNat = a.toNat + off := by
    rw [UInt32.toNat_add, UInt32.toNat_ofNat']
    omega
  have hrest : a.toNat + (a.toNat + off) % 4096 = a.toNat + off := by omega
  have hsame : m.tables.Leads L (a + UInt32.ofNat off) a.toNat := hleads.of_page (by omega)
  obtain ⟨w, htr⟩ := hsame.translate
  rw [haddr, hrest] at htr
  exact ⟨w, htr⟩

theorem loadEntry_pde (hdir : s.mem.tables.Leads L L.pageDirAddr L.pageDirAddr.toNat)
    (i : Fin 1024) : loadEntry L (pdeAddr L i) s = .ok (s.mem.tables.pageDir i, s) := by
  have hi := i.isLt
  obtain ⟨w, htr⟩ := translate_offset L.pageDir_aligned hdir (4 * i.val) (by omega)
  rw [loadEntry, pdeAddr, htr]
  dsimp only
  rw [Memory.load32_pde L _ hi, PageEntry.ofWord_toWord, entryIdx_fin]

theorem storeEntry_pde (hdir : s.mem.tables.Leads L L.pageDirAddr L.pageDirAddr.toNat)
    (i : Fin 1024) (e : PageEntry) :
    storeEntry L (pdeAddr L i) e s =
      .ok ((), s.setTables (s.mem.tables.setPde i e)) := by
  have hi := i.isLt
  obtain ⟨w, htr⟩ := translate_offset L.pageDir_aligned hdir (4 * i.val) (by omega)
  rw [storeEntry, pdeAddr, htr]
  dsimp only
  rw [Memory.store32_pde L _ hi e.toWord_lt, PageEntry.ofWord_toWord, entryIdx_fin]
  rfl

theorem loadEntry_pte {a : Fin 5}
    (htab : s.mem.tables.Leads L (L.tableAddr a) (L.tableAddr a).toNat) (i : Fin 1024) :
    loadEntry L (pteAddr L a i) s = .ok (s.mem.tables.pageTables a i, s) := by
  have hi := i.isLt
  obtain ⟨w, htr⟩ := translate_offset (L.tableAddr_aligned a) htab (4 * i.val) (by omega)
  rw [loadEntry, pteAddr, htr]
  dsimp only
  rw [Memory.load32_pte L _ a hi, PageEntry.ofWord_toWord, entryIdx_fin]

theorem storeEntry_pte {a : Fin 5}
    (htab : s.mem.tables.Leads L (L.tableAddr a) (L.tableAddr a).toNat) (i : Fin 1024)
    (e : PageEntry) :
    storeEntry L (pteAddr L a i) e s =
      .ok ((), s.setTables (s.mem.tables.setPte a i e)) := by
  have hi := i.isLt
  obtain ⟨w, htr⟩ := translate_offset (L.tableAddr_aligned a) htab (4 * i.val) (by omega)
  rw [storeEntry, pteAddr, htr]
  dsimp only
  rw [Memory.store32_pte L _ a hi e.toWord_lt, PageEntry.ofWord_toWord, entryIdx_fin]
  rfl

/-! ### A call -/

theorem install_eq (hdir : s.mem.tables.Leads L L.pageDirAddr L.pageDirAddr.toNat) :
    (if (s.mem.tables.pdeAt v).present = true then pure ()
      else (pagedAccess L).setPde (entryIdx (vaddr2pdIdx v)) (pdeOf (L.tableOf v)) :
        Loader Unit) s = .ok ((), s.setTables (s.mem.tables.withPde L v)) := by
  have hpresent : pageDirEntryIsPresent s.mem.tables (vaddr2pdIdx v) =
      (s.mem.tables.pdeAt v).present := pageDirEntryIsPresent_eq _ (vaddr2pdIdx_lt v)
  rw [Tables.withPde, hpresent]
  split
  · rfl
  · exact storeEntry_pde hdir _ _

theorem pagingMapBy_paged_eq (hin : InPlace L s.mem.tables v) :
    pagingMapBy (pagedAccess L) L v p w s =
      .ok ((pagingMap L s.mem.tables v p w).2,
        s.setTables (pagingMap L s.mem.tables v p w).1) := by
  have hdir := hin.tables L.pageDirAddr (.inl rfl)
  have hpde : (pagedAccess L).pde (entryIdx (vaddr2pdIdx v)) s =
      .ok (s.mem.tables.pdeAt v, s) := loadEntry_pde hdir _
  cases hacc : mapAccepts v p with
  | false =>
      rw [pagingMap_of_not_accepts L _ w hacc]
      rcases pagingMapBy_of_not_accepts (pagedAccess L) L w hacc with hmap | hmap
      · rw [hmap]
        rfl
      · rw [hmap, bind_apply, hpde]
        rfl
  | true =>
      have himpl := implemented_of_accepts hacc
      have htab := (hin.tables (L.tableOf v) (.inr ⟨himpl, rfl⟩)).withPde v
      rw [pagingMap_of_accepts L _ w hacc, pagingMapBy_of_accepts (pagedAccess L) L w hacc]
      refine bind_eq_ok.mpr ⟨_, _, hpde, bind_eq_ok.mpr ⟨_, _, install_eq hdir, ?_⟩⟩
      refine bind_eq_ok.mpr ⟨_, _, loadEntry_pte htab _, ?_⟩
      refine bind_eq_ok.mpr ⟨_, _, storeEntry_pte htab _ _, ?_⟩
      simp only [State.setTables, Tables.withPde_pageTables]
      rfl

/-- Where the tables are mapped as they lie, paging makes no difference. -/
theorem callPagingMapPaged_eq (hin : InPlace L s.mem.tables v) :
    callPagingMapPaged L v p w s = callPagingMap L v p w s := by
  unfold callPagingMapPaged callPagingMap
  rw [bind_apply, pagingMapBy_paged_eq hin]
  rfl

/-! ### Any call -/

end

end Kboot86.Elf32
