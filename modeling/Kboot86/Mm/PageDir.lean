import Kboot86.Mm.Common
import Kboot86.Mm.PageEntry

/-!
# The page directory

The functions of `page_dir.c` over the loader's static tables. `Tables` holds
the page directory and the five page tables as the arrays they are in the
source; `Layout` holds where the linker put them, with what the `aligned(4096)`
attributes and the C language promise about these addresses.
-/

namespace Kboot86

structure Layout where
  pageDirAddr : UInt32
  pageTablesAddr : UInt32
  pageDir_aligned : pageDirAddr.toNat % 4096 = 0
  pageTables_aligned : pageTablesAddr.toNat % 4096 = 0
  pageTables_ne_null : 0 < pageTablesAddr.toNat
  pageTables_fit : pageTablesAddr.toNat + 5 * 4096 ≤ 2 ^ 32
  disjoint : pageDirAddr.toNat + 4096 ≤ pageTablesAddr.toNat ∨
    pageTablesAddr.toNat + 5 * 4096 ≤ pageDirAddr.toNat

@[ext] structure Tables where
  pageDir : Fin 1024 → PageEntry
  pageTables : Fin 5 → Fin 1024 → PageEntry

def entryIdx (entryNum : Nat) : Fin 1024 := Fin.ofNat 1024 entryNum

@[simp] theorem entryIdx_val (n : Nat) : (entryIdx n).val = n % 1024 := rfl

theorem entryIdx_fin (i : Fin 1024) : entryIdx i.val = i :=
  Fin.ext (Nat.mod_eq_of_lt i.isLt)

theorem entryIdx_inj {m n : Nat} (hm : m < 1024) (hn : n < 1024) :
    entryIdx m = entryIdx n ↔ m = n := by
  rw [Fin.ext_iff, entryIdx_val, entryIdx_val, Nat.mod_eq_of_lt hm, Nat.mod_eq_of_lt hn]

namespace Tables

def setPde (t : Tables) (i : Fin 1024) (e : PageEntry) : Tables :=
  { t with pageDir := Function.update t.pageDir i e }

def setPte (t : Tables) (a : Fin 5) (i : Fin 1024) (e : PageEntry) : Tables :=
  { t with pageTables :=
      Function.update t.pageTables a (Function.update (t.pageTables a) i e) }

@[simp] theorem setPde_pageDir (t : Tables) (i : Fin 1024) (e : PageEntry) :
    (t.setPde i e).pageDir = Function.update t.pageDir i e := rfl

@[simp] theorem setPde_pageTables (t : Tables) (i : Fin 1024) (e : PageEntry) :
    (t.setPde i e).pageTables = t.pageTables := rfl

@[simp] theorem setPte_pageDir (t : Tables) (a : Fin 5) (i : Fin 1024) (e : PageEntry) :
    (t.setPte a i e).pageDir = t.pageDir := rfl

theorem setPte_pageTables (t : Tables) (a b : Fin 5) (i j : Fin 1024) (e : PageEntry) :
    (t.setPte a i e).pageTables b j = if b = a ∧ j = i then e else t.pageTables b j := by
  by_cases hb : b = a
  · subst hb
    by_cases hj : j = i <;> simp [setPte, hj]
  · simp [setPte, hb]

end Tables

/-! ### Reaching the entries -/

/-- How code reads and writes the entries of the two levels. -/
structure EntryAccess (M : Type → Type) where
  pde (i : Fin 1024) : M PageEntry
  setPde (i : Fin 1024) (e : PageEntry) : M Unit
  pte (a : Fin 5) (i : Fin 1024) : M PageEntry
  setPte (a : Fin 5) (i : Fin 1024) (e : PageEntry) : M Unit

/-- The entries of the arrays themselves. -/
def Tables.access : EntryAccess (StateM Tables) where
  pde i t := (t.pageDir i, t)
  setPde i e t := ((), t.setPde i e)
  pte a i t := (t.pageTables a i, t)
  setPte a i e t := ((), t.setPte a i e)

/-- The tables that a function over the arrays leaves behind, and what it
returns. -/
def onTables {α : Type} (x : StateM Tables α) (t : Tables) : Tables × α := ((x t).2, (x t).1)

section

variable {α β : Type} (t : Tables)

@[simp] theorem onTables_pure (a : α) : onTables (pure a) t = (t, a) := rfl

@[simp] theorem onTables_bind (x : StateM Tables α) (f : α → StateM Tables β) :
    onTables (x >>= f) t = onTables (f (onTables x t).2) (onTables x t).1 := rfl

@[simp] theorem onTables_map (f : α → β) (x : StateM Tables α) :
    onTables (f <$> x) t = ((onTables x t).1, f (onTables x t).2) := rfl

@[simp] theorem onTables_pde (i : Fin 1024) :
    onTables (Tables.access.pde i) t = (t, t.pageDir i) := rfl

@[simp] theorem onTables_setPde (i : Fin 1024) (e : PageEntry) :
    onTables (Tables.access.setPde i e) t = (t.setPde i e, ()) := rfl

@[simp] theorem onTables_pte (a : Fin 5) (i : Fin 1024) :
    onTables (Tables.access.pte a i) t = (t, t.pageTables a i) := rfl

@[simp] theorem onTables_setPte (a : Fin 5) (i : Fin 1024) (e : PageEntry) :
    onTables (Tables.access.setPte a i e) t = (t.setPte a i e, ()) := rfl

end

def pageDirTableLen : Nat := 1024

def entryNumIsValid (entryNum : Nat) : Bool := decide (entryNum < pageDirTableLen)

/-- The fields that `page_dir_set_entry` writes, all seven of them. -/
def pdeOf (paddr : UInt32) : PageEntry where
  present := true
  write := true
  user := false
  writeThrough := false
  cacheDisabled := true
  zero := 0
  paddr := BitVec.ofNat 20 (paddr.toNat >>> 12)

section

variable {M : Type → Type} [Monad M] (acc : EntryAccess M)

def pageDirGetEntryBy (entryNum : Nat) : M PageEntry := acc.pde (entryIdx (entryNum &&& 0x3ff))

def pageDirSetEntryBy (entryNum : Nat) (paddr : UInt32) : M Int :=
  if !entryNumIsValid entryNum then pure 1
  else if !isAddrPageAligned paddr then pure 1
  else do
    acc.setPde (entryIdx entryNum) (pdeOf paddr)
    pure 0

def pageDirEntryIsPresentBy (entryNum : Nat) : M Bool :=
  if !entryNumIsValid entryNum then pure false
  else do
    let e ← pageDirGetEntryBy acc entryNum
    pure e.present

end

def pageDirSetEntry (t : Tables) (entryNum : Nat) (paddr : UInt32) : Tables × Int :=
  onTables (pageDirSetEntryBy Tables.access entryNum paddr) t

def pageDirEntryIsPresent (t : Tables) (entryNum : Nat) : Bool :=
  (onTables (pageDirEntryIsPresentBy Tables.access entryNum) t).2

def pageDirAutomap (L : Layout) (t : Tables) : Tables × Int :=
  if (pageDirSetEntry t (pageDirTableLen - 1) L.pageDirAddr).2 ≠ 0 then
    ((pageDirSetEntry t (pageDirTableLen - 1) L.pageDirAddr).1, 1)
  else
    ((pageDirSetEntry t (pageDirTableLen - 1) L.pageDirAddr).1, 0)

/-- The entries become zero; the load of CR3 that follows is the choice of this
page directory for the walk. -/
def pageDirInit (t : Tables) : Tables :=
  { t with pageDir := fun _ => PageEntry.cleared }

section

variable {M : Type → Type} [Monad M] (acc : EntryAccess M) {n : Nat} {paddr : UInt32}

theorem pageDirEntryIsPresentBy_eq (hn : n < 1024) :
    pageDirEntryIsPresentBy acc n = (do let e ← acc.pde (entryIdx n); pure e.present) := by
  have hmask : n &&& 0x3ff = n % 1024 := Nat.and_two_pow_sub_one_eq_mod n 10
  have hidx : entryIdx (n % 1024) = entryIdx n := Fin.ext (by simp)
  simp [pageDirEntryIsPresentBy, entryNumIsValid, pageDirTableLen, hn, pageDirGetEntryBy, hmask,
    hidx]

theorem pageDirSetEntryBy_of_aligned (hn : n < 1024) (h : isAddrPageAligned paddr = true) :
    pageDirSetEntryBy acc n paddr = (do acc.setPde (entryIdx n) (pdeOf paddr); pure 0) := by
  simp [pageDirSetEntryBy, entryNumIsValid, pageDirTableLen, hn, h]

theorem pageDirSetEntryBy_of_not_aligned (n : Nat) (h : isAddrPageAligned paddr = false) :
    pageDirSetEntryBy acc n paddr = pure 1 := by
  unfold pageDirSetEntryBy
  split
  · rfl
  · simp [h]

end

theorem pageDirEntryIsPresent_eq (t : Tables) {n : Nat} (hn : n < 1024) :
    pageDirEntryIsPresent t n = (t.pageDir (entryIdx n)).present := by
  rw [pageDirEntryIsPresent, pageDirEntryIsPresentBy_eq _ hn]
  rfl

theorem pageDirSetEntry_of_aligned (t : Tables) {n : Nat} (hn : n < 1024) {paddr : UInt32}
    (h : isAddrPageAligned paddr = true) :
    pageDirSetEntry t n paddr = (t.setPde (entryIdx n) (pdeOf paddr), 0) := by
  rw [pageDirSetEntry, pageDirSetEntryBy_of_aligned _ hn h]
  rfl

theorem pageDirAutomap_eq (L : Layout) (t : Tables) :
    pageDirAutomap L t = (t.setPde (entryIdx 1023) (pdeOf L.pageDirAddr), 0) := by
  have haligned := isAddrPageAligned_of_dvd L.pageDir_aligned
  have hset := pageDirSetEntry_of_aligned t (n := 1023) (by omega) haligned
  simp [pageDirAutomap, pageDirTableLen, hset]

theorem pdeOf_frame {paddr : UInt32} (h : paddr.toNat % 4096 = 0) :
    (pdeOf paddr).frame = paddr.toNat := by
  have hlt := paddr.toNat_lt
  simp only [PageEntry.frame, pdeOf, BitVec.toNat_ofNat, Nat.shiftRight_eq_div_pow]
  omega

end Kboot86
