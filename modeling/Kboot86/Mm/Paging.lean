import Kboot86.Mm.PageTables

/-!
# Mapping and unmapping pages

The functions of `paging.c`. Each returns the tables it leaves behind with the
code it returns: a non-zero code says that the call failed, and what the call
had written by then is part of the result. The reload of CR3 that ends a
successful call drops cached translations; the walk of this model has no cache.
-/

namespace Kboot86

def vaddr2pdIdx (vaddr : UInt32) : Nat := vaddr.toNat >>> 22

def vaddr2ptIdx (vaddr : UInt32) : Fin 1024 := entryIdx (vaddr.toNat >>> 12 &&& 0x3ff)

section

variable {M : Type → Type} [Monad M] (acc : EntryAccess M)

/-- The end of `paging_map`, after the page directory entry is there. -/
def pagingMapEntryBy (vaddr paddr : UInt32) (writable : Bool) : M Int := do
  let rc ← pageTablesSetEntryBy acc (vaddr2pdIdx vaddr) (vaddr2ptIdx vaddr) paddr writable
  if rc ≠ 0 then pure 1 else pure 0

def pagingMapBy (L : Layout) (vaddr paddr : UInt32) (writable : Bool) : M Int :=
  if !isAddrPageAligned vaddr || !isAddrPageAligned paddr then pure 1
  -- 32-bit addition: the sum wraps for the last addresses
  else if paddr + (pageSize - 1) > paddrMax then pure 1
  else do
    let present ← pageDirEntryIsPresentBy acc (vaddr2pdIdx vaddr)
    if !present then
      let ptPaddr := pageTablesGetPaddr L (vaddr2pdIdx vaddr)
      if ptPaddr = 0 then pure 1
      else do
        let rc ← pageDirSetEntryBy acc (vaddr2pdIdx vaddr) ptPaddr
        if rc ≠ 0 then pure 1 else pagingMapEntryBy acc vaddr paddr writable
    else pagingMapEntryBy acc vaddr paddr writable

end

def pagingMap (L : Layout) (t : Tables) (vaddr paddr : UInt32) (writable : Bool) :
    Tables × Int :=
  onTables (pagingMapBy Tables.access L vaddr paddr writable) t

def pagingUnmap (t : Tables) (vaddr : UInt32) : Tables × Int :=
  if !isAddrPageAligned vaddr then (t, 1)
  else if !pageDirEntryIsPresent t (vaddr2pdIdx vaddr) then (t, 0)
  else
    let r := pageTablesClearEntry t (vaddr2pdIdx vaddr) (vaddr2ptIdx vaddr)
    if r.2 ≠ 0 then (r.1, 1) else (r.1, 0)

/-- The loop of `_setup_identity` from `addr` on. The first argument bounds the
number of iterations; running out of it counts as a failure. -/
def setupIdentityFrom (L : Layout) : Nat → UInt32 → Tables → Tables × Int
  | 0, _, t => (t, 1)
  | n + 1, addr, t =>
      if addr + (pageSize - 1) ≤ paddrMax then
        let r := pagingMap L t addr addr true
        if r.2 ≠ 0 then (r.1, 1) else setupIdentityFrom L n (addr + pageSize) r.1
      else (t, 0)

/-- At most `2 ^ 20` pages fit in the address space, so the bound is never
met. -/
def setupIdentity (L : Layout) (t : Tables) : Tables × Int :=
  setupIdentityFrom L (2 ^ 20) 0 t

def pagingInit (L : Layout) (t : Tables) : Tables × Int :=
  let r := setupIdentity L (pageTablesInit (pageDirInit t))
  if r.2 ≠ 0 then (r.1, 1)
  else
    let r' := pageDirAutomap L r.1
    if r'.2 ≠ 0 then (r'.1, 1) else (r'.1, 0)

/-- When `paging_map` refuses its arguments or finds no page table, whatever
the tables hold: the tests of the source, in their order. -/
def mapAccepts (vaddr paddr : UInt32) : Bool :=
  isAddrPageAligned vaddr && isAddrPageAligned paddr &&
    decide (paddr + (pageSize - 1) ≤ paddrMax) && isTableIdxImplemented (vaddr2pdIdx vaddr)

theorem vaddr2pdIdx_eq (v : UInt32) : vaddr2pdIdx v = v.toNat / 4194304 := by
  rw [vaddr2pdIdx, Nat.shiftRight_eq_div_pow]

theorem vaddr2pdIdx_lt (v : UInt32) : vaddr2pdIdx v < 1024 := by
  have := v.toNat_lt
  rw [vaddr2pdIdx_eq]
  omega

theorem vaddr2ptIdx_val (v : UInt32) : (vaddr2ptIdx v).val = v.toNat / 4096 % 1024 := by
  have hmask : v.toNat >>> 12 &&& 0x3ff = v.toNat >>> 12 % 1024 :=
    Nat.and_two_pow_sub_one_eq_mod _ 10
  rw [vaddr2ptIdx, entryIdx_val, hmask, Nat.shiftRight_eq_div_pow]
  omega

theorem vaddr_idx_eq_iff (v v' : UInt32) :
    (vaddr2pdIdx v = vaddr2pdIdx v' ∧ vaddr2ptIdx v = vaddr2ptIdx v') ↔
      v.toNat / 4096 = v'.toNat / 4096 := by
  rw [Fin.ext_iff, vaddr2ptIdx_val, vaddr2ptIdx_val, vaddr2pdIdx_eq, vaddr2pdIdx_eq]
  omega

/-- The virtual addresses that have a page table: the first 16 MiB and the
4 MiB from `0xc0000000` on. -/
theorem isTableIdxImplemented_vaddr_iff (v : UInt32) :
    isTableIdxImplemented (vaddr2pdIdx v) = true ↔
      v.toNat < 0x1000000 ∨ (0xc0000000 ≤ v.toNat ∧ v.toNat < 0xc0400000) := by
  rw [isTableIdxImplemented_iff, vaddr2pdIdx_eq]
  omega

section

variable {M : Type → Type} [Monad M] [LawfulMonad M] (acc : EntryAccess M) (L : Layout)
  {v p : UInt32} (w : Bool)

theorem pagingMapBy_of_accepts (h : mapAccepts v p = true) :
    pagingMapBy acc L v p w = (do
      let e ← acc.pde (entryIdx (vaddr2pdIdx v))
      let _ ← (if e.present then pure ()
        else acc.setPde (entryIdx (vaddr2pdIdx v))
          (pdeOf (L.tableAddr (tableIdx2ArrayIdx (vaddr2pdIdx v)))))
      let old ← acc.pte (tableIdx2ArrayIdx (vaddr2pdIdx v)) (vaddr2ptIdx v)
      acc.setPte (tableIdx2ArrayIdx (vaddr2pdIdx v)) (vaddr2ptIdx v) (pteOf old p w)
      pure 0) := by
  simp only [mapAccepts, Bool.and_eq_true, decide_eq_true_eq] at h
  rcases h with ⟨⟨⟨hv, hp⟩, hle⟩, himpl⟩
  have hgt : ¬ p + (pageSize - 1) > paddrMax := UInt32.not_lt.mpr hle
  have halign := isAddrPageAligned_of_dvd
    (L.tableAddr_aligned (tableIdx2ArrayIdx (vaddr2pdIdx v)))
  have hset := pageDirSetEntryBy_of_aligned acc (vaddr2pdIdx_lt v) halign
  have hentry := pageTablesSetEntryBy_of_implemented acc (vaddr2ptIdx v) w hp himpl
  unfold pagingMapBy pagingMapEntryBy
  rw [if_neg (by simp [hv, hp]), if_neg hgt, pageDirEntryIsPresentBy_eq acc (vaddr2pdIdx_lt v),
    pageTablesGetPaddr_of_implemented L himpl, if_neg (L.tableAddr_ne_zero _), hset, hentry]
  simp only [bind_assoc, pure_bind]
  congr 1
  funext e
  cases e.present <;> simp

/-- Refused arguments are refused before the entries are reached or, for an
index without a table, after the page directory was looked at: a present entry
leads to `page_tables_set_entry`, an absent one to `page_dir_set_entry`, and
both refuse. -/
theorem pagingMapBy_of_not_accepts (h : mapAccepts v p = false) :
    pagingMapBy acc L v p w = pure 1 ∨
      pagingMapBy acc L v p w = (do let _ ← acc.pde (entryIdx (vaddr2pdIdx v)); pure 1) := by
  unfold pagingMapBy pagingMapEntryBy
  by_cases halign : (!isAddrPageAligned v || !isAddrPageAligned p) = true
  · exact .inl (if_pos halign)
  by_cases hgt : p + (pageSize - 1) > paddrMax
  · exact .inl (by rw [if_neg halign, if_pos hgt])
  right
  have hle : p + (pageSize - 1) ≤ paddrMax := UInt32.not_lt.mp hgt
  simp only [Bool.or_eq_true, Bool.not_eq_eq_eq_not, Bool.not_true, not_or,
    Bool.not_eq_false] at halign
  have himpl : isTableIdxImplemented (vaddr2pdIdx v) = false := by
    simpa [mapAccepts, halign.1, halign.2, hle] using h
  have hone : isAddrPageAligned 1 = false := by decide
  rw [if_neg (by simp [halign.1, halign.2]), if_neg hgt]
  simp only [pageDirEntryIsPresentBy_eq acc (vaddr2pdIdx_lt v),
    pageTablesGetPaddr_of_not_implemented L himpl, pageDirSetEntryBy_of_not_aligned acc _ hone,
    pageTablesSetEntryBy_of_not_implemented acc _ w p himpl, bind_assoc, pure_bind]
  congr 1
  funext e
  cases e.present <;> simp

end

/-- The page directory after a successful `paging_map`: the entry of `v` is
installed when it was not present. -/
def Tables.withPde (L : Layout) (t : Tables) (v : UInt32) : Tables :=
  if pageDirEntryIsPresent t (vaddr2pdIdx v) then t
  else t.setPde (entryIdx (vaddr2pdIdx v))
    (pdeOf (L.tableAddr (tableIdx2ArrayIdx (vaddr2pdIdx v))))

@[simp] theorem Tables.withPde_pageTables (L : Layout) (t : Tables) (v : UInt32) :
    (t.withPde L v).pageTables = t.pageTables := by
  unfold Tables.withPde
  split <;> rfl

theorem pagingMap_of_accepts (L : Layout) (t : Tables) {v p : UInt32} (w : Bool)
    (h : mapAccepts v p = true) :
    pagingMap L t v p w =
      ((t.withPde L v).setPte (tableIdx2ArrayIdx (vaddr2pdIdx v)) (vaddr2ptIdx v)
        (pteOf (t.pageTables (tableIdx2ArrayIdx (vaddr2pdIdx v)) (vaddr2ptIdx v)) p w), 0) := by
  have hpresent := pageDirEntryIsPresent_eq t (vaddr2pdIdx_lt v)
  rw [pagingMap, pagingMapBy_of_accepts _ L w h, Tables.withPde, hpresent]
  cases he : (t.pageDir (entryIdx (vaddr2pdIdx v))).present <;> simp [he]

theorem pagingMap_of_not_accepts (L : Layout) (t : Tables) {v p : UInt32} (w : Bool)
    (h : mapAccepts v p = false) : pagingMap L t v p w = (t, 1) := by
  rcases pagingMapBy_of_not_accepts Tables.access L w h with hmap | hmap
  · rw [pagingMap, hmap]
    rfl
  · rw [pagingMap, hmap]
    rfl

theorem pagingMap_code (L : Layout) (t : Tables) (v p : UInt32) (w : Bool) :
    (pagingMap L t v p w).2 = 0 ↔ mapAccepts v p = true := by
  cases h : mapAccepts v p with
  | true => simp [pagingMap_of_accepts L t w h]
  | false => simp [pagingMap_of_not_accepts L t w h]

end Kboot86
