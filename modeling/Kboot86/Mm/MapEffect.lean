import Kboot86.Mm.PageMap

/-!
# What a successful `paging_map` does to every translation

A successful call with page-aligned arguments makes the page lead to the frame
and leaves every other page below the last 4 MiB as it was. The last 4 MiB show
the page directory itself: there a call that installs a directory entry makes
one more page readable, the page table of that entry, and changes nothing that
was mapped before.

`mapAccepts_iff` is what the alignment mask lets through: multiples of 1024,
and the physical addresses whose last byte wraps to the bottom of memory.
-/

namespace Kboot86

def Memory.map (L : Layout) (m : Memory) (v p : UInt32) (w : Bool) : Memory :=
  { m with tables := (pagingMap L m.tables v p w).1 }

/-- What a caller of `paging_map` would like to rely on: a call that returns 0
was given page-aligned addresses, the page leads to the frame, and every page
disjoint from it translates as before. -/
def MapsOnly (L : Layout) (m : Memory) (v p : UInt32) (w : Bool) : Prop :=
  (pagingMap L m.tables v p w).2 = 0 →
    (v.toNat % 4096 = 0 ∧ p.toNat % 4096 = 0) ∧
    (∀ k < 4096, (translate L (m.map L v p w) (v + UInt32.ofNat k)).map (·.paddr) =
      some (p.toNat + k)) ∧
    (∀ va : UInt32, va.toNat / 4096 * 4096 + 4096 ≤ v.toNat ∨
        v.toNat + 4096 ≤ va.toNat / 4096 * 4096 →
      translate L (m.map L v p w) va = translate L m va)

theorem mapAccepts_iff (v p : UInt32) :
    mapAccepts v p = true ↔
      v.toNat % 1024 = 0 ∧ p.toNat % 1024 = 0 ∧
        (p.toNat + 4095 ≤ paddrMax.toNat ∨ 0xfffff000 < p.toNat) ∧
        (v.toNat < 0x1000000 ∨ 0xc0000000 ≤ v.toNat ∧ v.toNat < 0xc0400000) := by
  have hlt := p.toNat_lt
  have hsum : (p + (pageSize - 1)).toNat = (p.toNat + 4095) % 2 ^ 32 := by
    rw [UInt32.toNat_add, show (pageSize - 1).toNat = 4095 from rfl]
  simp only [mapAccepts, Bool.and_eq_true, decide_eq_true_eq, isAddrPageAligned_iff,
    UInt32.le_iff_toNat_le, hsum, isTableIdxImplemented_vaddr_iff, paddrMax_toNat]
  omega

theorem mapAccepts_of_code {L : Layout} {t : Tables} {v p : UInt32} {w : Bool}
    (h : (pagingMap L t v p w).2 = 0) : mapAccepts v p = true :=
  (pagingMap_code L t v p w).mp h

theorem PagingInv.map {L : Layout} {m : Memory} (h : PagingInv L m.tables) (v p : UInt32)
    (w : Bool) : PagingInv L (m.map L v p w).tables :=
  h.step (.map v p w)

theorem translate_map_page {L : Layout} {m : Memory} (h : PagingInv L m.tables) {v p : UInt32}
    {w : Bool} (hacc : mapAccepts v p = true) {va : UInt32}
    (hva : va.toNat / 4096 = v.toNat / 4096) :
    translate L (m.map L v p w) va = some ⟨p.toNat / 4096 * 4096 + va.toNat % 4096, w⟩ := by
  have hrange := ((mapAccepts_iff v p).mp hacc).2.2.2
  rw [translate_eq_lookup (h.map v p w).toTablesInv (by omega), Memory.map,
    lookup_pagingMap L m.tables w hacc, if_pos hva, Option.map_some, PageEntry.translation,
    pteOf_frame]
  rfl

theorem translate_map_other {L : Layout} {m : Memory} (h : PagingInv L m.tables) {v p : UInt32}
    {w : Bool} (hacc : mapAccepts v p = true) {va : UInt32} (hlow : va.toNat < 0xffc00000)
    (hva : va.toNat / 4096 ≠ v.toNat / 4096) :
    translate L (m.map L v p w) va = translate L m va := by
  rw [translate_eq_lookup (h.map v p w).toTablesInv hlow,
    translate_eq_lookup h.toTablesInv hlow, Memory.map, lookup_pagingMap L m.tables w hacc,
    if_neg hva]

/-- In the last 4 MiB every page translates as before, except that the page of
a directory entry that was absent may appear. -/
theorem translate_map_window {L : Layout} {m : Memory} (h : PagingInv L m.tables)
    {v p : UInt32} {w : Bool} {va : UInt32} (hwin : 0xffc00000 ≤ va.toNat) :
    translate L (m.map L v p w) va = translate L m va ∨
      (va.toNat / 4096 % 1024 = v.toNat / 4194304 ∧ translate L m va = none) := by
  have hidx : vaddr2ptIdx va = entryIdx (va.toNat / 4096 % 1024) := vaddr2ptIdx_eq va
  have hlt : va.toNat / 4096 % 1024 < 1024 := Nat.mod_lt _ (by omega)
  rw [translate_window (h.map v p w) hwin, translate_window h hwin, hidx]
  cases hpres : (m.tables.pageDir (entryIdx (va.toNat / 4096 % 1024))).present with
  | true =>
      left
      rw [Memory.map, pagingMap_pageDir_of_present _ v p w hlt hpres]
      simp [hpres]
  | false =>
      by_cases hv : va.toNat / 4096 % 1024 = v.toNat / 4194304
      · exact .inr ⟨hv, rfl⟩
      · left
        have hsame : (m.map L v p w).tables.pageDir (entryIdx (va.toNat / 4096 % 1024)) =
            m.tables.pageDir (entryIdx (va.toNat / 4096 % 1024)) := by
          rw [← vaddr2pdIdx_eq] at hv
          cases hacc : mapAccepts v p with
          | false => rw [Memory.map, pagingMap_of_not_accepts L m.tables w hacc]
          | true =>
              rw [Memory.map, pagingMap_of_accepts L m.tables w hacc, Tables.setPte_pageDir,
                withPde_pageDir_of_ne L m.tables v hlt hv]
        rw [hsame]
        simp [hpres]

/-- In every state reachable after `paging_init`, a call with page-aligned
arguments that returns 0 makes the page lead to the frame; every other page
below the last 4 MiB translates as before, and of the last 4 MiB at most the
page that shows the table of `v` appears. -/
theorem pagingMap_effect (L : Layout) (ops : List PagingOp) (m : Memory)
    (hrun : (pagingSystem L).Run ops m.tables) (v p : UInt32) (w : Bool)
    (hv : v.toNat % 4096 = 0) (hp : p.toNat % 4096 = 0)
    (hcode : (pagingMap L m.tables v p w).2 = 0) :
    (∀ k < 4096, translate L (m.map L v p w) (v + UInt32.ofNat k) = some ⟨p.toNat + k, w⟩) ∧
      (∀ va : UInt32, va.toNat < 0xffc00000 → va.toNat / 4096 ≠ v.toNat / 4096 →
        translate L (m.map L v p w) va = translate L m va) ∧
      (∀ va : UInt32, 0xffc00000 ≤ va.toNat →
        translate L (m.map L v p w) va = translate L m va ∨
          (va.toNat / 4096 % 1024 = v.toNat / 4194304 ∧ translate L m va = none)) := by
  have hinv := pagingInv_of_run hrun
  have hacc := mapAccepts_of_code hcode
  have hrange := ((mapAccepts_iff v p).mp hacc).2.2.2
  refine ⟨fun k hk => ?_, fun va hlow hne => translate_map_other hinv hacc hlow hne,
    fun va hwin => translate_map_window hinv hwin⟩
  have hsum : (v + UInt32.ofNat k).toNat = v.toNat + k := by
    rw [UInt32.toNat_add, UInt32.toNat_ofNat']
    omega
  rw [translate_map_page hinv hacc (by omega), hsum]
  congr 2
  omega

theorem pagingMap_effect_kernel_page :
    ∃ m : Memory, ∀ k < 4096,
      translate sampleLayout (m.map sampleLayout 0xc0000000 0x100000 true)
        (0xc0000000 + UInt32.ofNat k) = some ⟨0x100000 + k, true⟩ := by
  obtain ⟨t, ht, -⟩ := pagingInit_spec sampleLayout clearedTables
  have hcode := (pagingMap_code sampleLayout t 0xc0000000 0x100000 true).mpr (by decide)
  exact ⟨⟨t, fun _ => 0⟩, (pagingMap_effect sampleLayout [] ⟨t, fun _ => 0⟩
    (.init ⟨clearedTables, ht⟩) 0xc0000000 0x100000 true rfl rfl hcode).1⟩

/-- The first page mapped at `0xc0000000` also makes its page table appear at
`0xfff00000`, a page disjoint from the mapped one. -/
theorem pagingMap_shows_table :
    ∃ m : Memory, (pagingSystem sampleLayout).Run [] m.tables ∧
      ¬ MapsOnly sampleLayout m 0xc0000000 0x100000 true := by
  obtain ⟨t, ht, hinv, hid⟩ := pagingInit_spec sampleLayout clearedTables
  refine ⟨⟨t, fun _ => 0⟩, .init ⟨clearedTables, ht⟩, fun hmaps => ?_⟩
  have hacc : mapAccepts 0xc0000000 0x100000 = true := by decide
  obtain ⟨-, -, hother⟩ := hmaps ((pagingMap_code _ _ _ _ _).mpr hacc)
  have hsame := hother 0xfff00000 (by decide)
  have hinv' := PagingInv.map (m := ⟨t, fun _ => 0⟩) hinv 0xc0000000 0x100000 true
  have hbefore : (t.pageDir (entryIdx 768)).present = false :=
    hid.high 768 (by omega) (by omega)
  have hafter : ((Memory.map sampleLayout ⟨t, fun _ => 0⟩ 0xc0000000 0x100000 true).tables.pageDir
      (entryIdx 768)).present = true := by
    rw [Memory.map, pagingMap_of_accepts _ _ _ hacc, Tables.setPte_pageDir]
    exact congrArg PageEntry.present
      (withPde_pageDir_self (v := 0xc0000000) hinv.toTablesInv (by decide))
  rw [translate_window hinv' (by decide), translate_window hinv (by decide),
    show vaddr2ptIdx 0xfff00000 = entryIdx 768 from rfl, if_pos hafter, hbefore] at hsame
  cases hsame

end Kboot86
