import Kboot86.Mm.PageDir

/-!
# The page tables

The functions of `page_tables.c`. Only five page tables exist: the first four
page directory indices have one each and index 768 has the last one. An index
without a table is refused, by `pageTablesGetPaddr` with the odd address 1.
-/

namespace Kboot86

def numPageTables : Nat := 5

def isTableIdxImplemented (tableIdx : Nat) : Bool :=
  decide (tableIdx < numPageTables - 1) || decide (768 = tableIdx)

def arrayIdx (n : Nat) : Fin 5 := Fin.ofNat 5 n

def tableIdx2ArrayIdx (tableIdx : Nat) : Fin 5 :=
  if tableIdx < numPageTables - 1 then arrayIdx tableIdx
  else arrayIdx (numPageTables - 1)

def pageTablesInit (t : Tables) : Tables :=
  { t with pageTables := fun _ _ => PageEntry.cleared }

def Layout.tableAddr (L : Layout) (a : Fin 5) : UInt32 :=
  L.pageTablesAddr + 4096 * UInt32.ofNat a.val

def pageTablesGetPaddr (L : Layout) (tableIdx : Nat) : UInt32 :=
  if !isTableIdxImplemented tableIdx then 1
  else L.tableAddr (tableIdx2ArrayIdx tableIdx)

/-- The fields that `page_tables_set_entry` writes; `write_through` is the one
it leaves as it was. -/
def pteOf (old : PageEntry) (paddr : UInt32) (writable : Bool) : PageEntry :=
  { old with
    paddr := BitVec.ofNat 20 (paddr.toNat >>> 12)
    zero := 0
    cacheDisabled := true
    user := false
    write := writable
    present := true }

def pageTablesSetEntryBy {M : Type → Type} [Monad M] (acc : EntryAccess M) (tableIdx : Nat)
    (entryNum : Fin 1024) (paddr : UInt32) (writable : Bool) : M Int :=
  if !isAddrPageAligned paddr then pure 1
  else if !isTableIdxImplemented tableIdx then pure 1
  else do
    let arrayIdx := tableIdx2ArrayIdx tableIdx
    let old ← acc.pte arrayIdx entryNum
    acc.setPte arrayIdx entryNum (pteOf old paddr writable)
    pure 0

def pageTablesClearEntry (t : Tables) (tableIdx : Nat) (entryNum : Fin 1024) :
    Tables × Int :=
  if !isTableIdxImplemented tableIdx then (t, 1)
  else (t.setPte (tableIdx2ArrayIdx tableIdx) entryNum PageEntry.cleared, 0)

theorem isTableIdxImplemented_iff (n : Nat) :
    isTableIdxImplemented n = true ↔ n < 4 ∨ n = 768 := by
  have hlen : numPageTables - 1 = 4 := rfl
  rw [isTableIdxImplemented, Bool.or_eq_true, decide_eq_true_eq, decide_eq_true_eq, hlen]
  omega

/-- The index remapping is injective on the indices that have a table, so no
two of them share one. -/
theorem tableIdx2ArrayIdx_inj {m n : Nat} (hm : isTableIdxImplemented m = true)
    (hn : isTableIdxImplemented n = true) :
    tableIdx2ArrayIdx m = tableIdx2ArrayIdx n ↔ m = n := by
  rw [isTableIdxImplemented_iff] at hm hn
  have hval : ∀ k, k < 4 ∨ k = 768 →
      (tableIdx2ArrayIdx k).val = if k < 4 then k else 4 := by
    intro k hk
    unfold tableIdx2ArrayIdx arrayIdx numPageTables
    split
    · exact Nat.mod_eq_of_lt (by omega)
    · rfl
  rw [Fin.ext_iff, hval m hm, hval n hn]
  split <;> split <;> omega

theorem Layout.tableAddr_toNat (L : Layout) (a : Fin 5) :
    (L.tableAddr a).toNat = L.pageTablesAddr.toNat + 4096 * a.val := by
  have hfit := L.pageTables_fit
  have ha := a.isLt
  have hmul : (4096 * UInt32.ofNat a.val).toNat = 4096 * a.val := by
    rw [UInt32.toNat_mul, UInt32.toNat_ofNat']
    simp only [UInt32.reduceToNat]
    omega
  rw [Layout.tableAddr, UInt32.toNat_add, hmul]
  omega

theorem Layout.tableAddr_aligned (L : Layout) (a : Fin 5) :
    (L.tableAddr a).toNat % 4096 = 0 := by
  have := L.pageTables_aligned
  rw [L.tableAddr_toNat]
  omega

theorem Layout.tableAddr_ne_zero (L : Layout) (a : Fin 5) : L.tableAddr a ≠ 0 := by
  intro h
  have hpos := L.pageTables_ne_null
  have hval := L.tableAddr_toNat a
  rw [h] at hval
  simp only [UInt32.toNat_zero] at hval
  omega

theorem pageTablesGetPaddr_of_implemented (L : Layout) {n : Nat}
    (h : isTableIdxImplemented n = true) :
    pageTablesGetPaddr L n = L.tableAddr (tableIdx2ArrayIdx n) := by
  simp [pageTablesGetPaddr, h]

/-- The error value 1 is not zero, so `paging_map` takes it for an address; it
is the alignment test of `page_dir_set_entry` that refuses it. -/
theorem pageTablesGetPaddr_of_not_implemented (L : Layout) {n : Nat}
    (h : isTableIdxImplemented n = false) : pageTablesGetPaddr L n = 1 := by
  simp [pageTablesGetPaddr, h]

section

variable {M : Type → Type} [Monad M] (acc : EntryAccess M) {n : Nat} (i : Fin 1024) (w : Bool)

theorem pageTablesSetEntryBy_of_implemented {paddr : UInt32}
    (hp : isAddrPageAligned paddr = true) (hn : isTableIdxImplemented n = true) :
    pageTablesSetEntryBy acc n i paddr w = (do
      let old ← acc.pte (tableIdx2ArrayIdx n) i
      acc.setPte (tableIdx2ArrayIdx n) i (pteOf old paddr w)
      pure 0) := by
  simp [pageTablesSetEntryBy, hp, hn]

theorem pageTablesSetEntryBy_of_not_implemented (paddr : UInt32)
    (hn : isTableIdxImplemented n = false) :
    pageTablesSetEntryBy acc n i paddr w = pure 1 := by
  unfold pageTablesSetEntryBy
  split
  · rfl
  · simp [hn]

end

end Kboot86
