import Kboot86.Foundation.Exec
import Kboot86.Mm.Invariant

/-!
# Accesses of the ELF loader

With paging on, the loader reads the image and writes the kernel through
virtual addresses. An access to an address that does not translate is a page
fault. The loader runs in supervisor mode with the write-protect bit of CR0
clear, so the read/write bit of a page does not stop a store.

`trace` records the accesses to the image and to the segments and the calls of
`paging_map`, in order; nothing reads it.
-/

namespace Kboot86.Elf32

inductive Fault where
  | pageFault (vaddr : UInt32)
  | diverged
deriving DecidableEq

/-- What `_str_error` points at: a text of the source, or the text that
`ksprintf` makes of a format and its arguments. -/
inductive StrError where
  | text (s : String)
  | format (s : String) (args : List UInt32)
deriving DecidableEq

inductive Access where
  | load (vaddr : UInt32)
  | store (vaddr : UInt32)
  | map (vaddr paddr : UInt32)
deriving DecidableEq

structure State where
  mem : Memory
  strError : StrError
  trace : List Access

abbrev Loader := Exec Fault State

def loadByte (L : Layout) (va : UInt32) : Loader UInt8 := fun s =>
  match translate L s.mem va with
  | none => .error (.pageFault va)
  | some tr => .ok (s.mem.load8 L tr.paddr, { s with trace := s.trace ++ [.load va] })

def storeByte (L : Layout) (va : UInt32) (b : UInt8) : Loader Unit := fun s =>
  match translate L s.mem va with
  | none => .error (.pageFault va)
  | some tr =>
      .ok ((), { s with mem := s.mem.store8 L tr.paddr b, trace := s.trace ++ [.store va] })

theorem loadByte_eq {L : Layout} {va : UInt32} {s : State} {tr : Translation}
    (htr : translate L s.mem va = some tr) :
    loadByte L va s =
      .ok (s.mem.load8 L tr.paddr, { s with trace := s.trace ++ [.load va] }) := by
  rw [loadByte, htr]

theorem storeByte_eq {L : Layout} {va : UInt32} {b : UInt8} {s : State} {tr : Translation}
    (htr : translate L s.mem va = some tr) :
    storeByte L va b s =
      .ok ((), { s with mem := s.mem.store8 L tr.paddr b, trace := s.trace ++ [.store va] }) := by
  rw [storeByte, htr]

def loadHalf (L : Layout) (va : UInt32) : Loader UInt32 := do
  let b0 ← loadByte L va
  let b1 ← loadByte L (va + 1)
  pure (UInt32.ofNat (b0.toNat + 256 * b1.toNat))

def loadWord (L : Layout) (va : UInt32) : Loader UInt32 := do
  let h0 ← loadHalf L va
  let h1 ← loadHalf L (va + 2)
  pure (UInt32.ofNat (h0.toNat + 65536 * h1.toNat))

def setStrError (e : StrError) : Loader Unit := fun s => .ok ((), { s with strError := e })

/-! ### Calls of `paging_map` -/

abbrev PagingCall := UInt32 → UInt32 → Bool → Loader Int

/-- `paging_map` on the tables of the running loader, as long as they are mapped
where they lie. -/
def callPagingMap (L : Layout) : PagingCall := fun v p w s =>
  let r := pagingMap L s.mem.tables v p w
  .ok (r.2, { s with mem := { s.mem with tables := r.1 }, trace := s.trace ++ [.map v p] })

/-- The entry whose word is at a virtual address. -/
def loadEntry (L : Layout) (va : UInt32) : Loader PageEntry := fun s =>
  match translate L s.mem va with
  | none => .error (.pageFault va)
  | some tr => .ok (PageEntry.ofWord (s.mem.load32 L tr.paddr), s)

def storeEntry (L : Layout) (va : UInt32) (e : PageEntry) : Loader Unit := fun s =>
  match translate L s.mem va with
  | none => .error (.pageFault va)
  | some tr => .ok ((), { s with mem := s.mem.store32 L tr.paddr e.toWord })

/-- The addresses of the entries, which are virtual ones once paging is on. -/
def pdeAddr (L : Layout) (i : Fin 1024) : UInt32 :=
  L.pageDirAddr + UInt32.ofNat (4 * i.val)

def pteAddr (L : Layout) (a : Fin 5) (i : Fin 1024) : UInt32 :=
  L.tableAddr a + UInt32.ofNat (4 * i.val)

/-- The entries through the pages that they lie on. The fields of an entry are
written together, as one word. -/
def pagedAccess (L : Layout) : EntryAccess Loader where
  pde i := loadEntry L (pdeAddr L i)
  setPde i e := storeEntry L (pdeAddr L i) e
  pte a i := loadEntry L (pteAddr L a i)
  setPte a i e := storeEntry L (pteAddr L a i) e

/-- `paging_map` with paging on: it finds its own tables through the pages that
they are mapped on. -/
def callPagingMapPaged (L : Layout) : PagingCall := fun v p w => do
  let rc ← pagingMapBy (pagedAccess L) L v p w
  modify fun s => { s with trace := s.trace ++ [.map v p] }
  pure rc

end Kboot86.Elf32
