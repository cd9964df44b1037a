import Kboot86.Mm.MapEffect

/-!
# A paging call that fails changes nothing

`paging_map` writes the page directory before the page table, and
`page_tables_get_paddr` tells of a missing table with the value 1, which its
caller takes for an address. All the same no failure comes after a write: the
entry of a missing table is refused by `page_dir_set_entry`, whose test finds 1
not aligned.
-/

namespace Kboot86

theorem pagingUnmap_of_code {t : Tables} {v : UInt32} (h : (pagingUnmap t v).2 ≠ 0) :
    (pagingUnmap t v).1 = t := by
  unfold pagingUnmap at h ⊢
  split
  · rfl
  next halign =>
  split
  · rfl
  next hpres =>
    rw [if_neg halign, if_neg hpres] at h
    cases himpl : isTableIdxImplemented (vaddr2pdIdx v) with
    | true => simp [pageTablesClearEntry, himpl] at h
    | false => simp [pageTablesClearEntry, himpl]

theorem pagingMap_of_code {L : Layout} {t : Tables} {v p : UInt32} {w : Bool}
    (h : (pagingMap L t v p w).2 ≠ 0) : (pagingMap L t v p w).1 = t := by
  cases hacc : mapAccepts v p with
  | true => exact absurd ((pagingMap_code L t v p w).mpr hacc) h
  | false => rw [pagingMap_of_not_accepts L t w hacc]

theorem pagingStep_of_code {L : Layout} {t : Tables} {op : PagingOp}
    (h : (pagingStep L t op).2 ≠ 0) : (pagingStep L t op).1 = t := by
  cases op with
  | map v p w => exact pagingMap_of_code h
  | unmap v => exact pagingUnmap_of_code h

/-- Whatever the tables hold, a call that returns another code than 0 leaves
the page directory and the page tables as they were. -/
theorem pagingStep_refused (L : Layout) (t : Tables) (op : PagingOp)
    (h : (pagingStep L t op).2 ≠ 0) :
    (pagingStep L t op).1.pageDir = t.pageDir ∧
      (pagingStep L t op).1.pageTables = t.pageTables := by
  rw [pagingStep_of_code h]
  exact ⟨rfl, rfl⟩

/-- No page table maps `0x1000000`. -/
theorem pagingStep_refused_no_table :
    (pagingStep sampleLayout clearedTables (.map 0x1000000 0 true)).1.pageDir =
      clearedTables.pageDir :=
  (pagingStep_refused sampleLayout clearedTables (.map 0x1000000 0 true) fun h =>
    absurd ((pagingMap_code _ _ _ _ _).mp h) (by decide)).1

end Kboot86
