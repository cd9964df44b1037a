import Kboot86.Foundation.ByteWord
import Kboot86.Mm.PageTables

/-!
# Physical memory and the hardware walk

Physical memory is the static tables, at the addresses of the `Layout`, and
every other byte. A load or store that falls on a table reads or replaces a
byte of one of its entries, so the tables are memory like any other to the MMU
and to a stray pointer.

`walk` is the two-level walk of the x86 from a given CR3. It reads the entries
as 32-bit words and does not know which tables there are; `translate` is the
walk from the page directory of the loader.
-/

namespace Kboot86

structure Memory where
  tables : Tables
  bytes : Nat → UInt8

inductive Place where
  | pde (i : Fin 1024)
  | pte (a : Fin 5) (i : Fin 1024)
  | other
deriving DecidableEq

def Layout.place (L : Layout) (pa : Nat) : Place :=
  if L.pageDirAddr.toNat ≤ pa ∧ pa < L.pageDirAddr.toNat + 4096 then
    .pde (entryIdx ((pa - L.pageDirAddr.toNat) / 4))
  else if L.pageTablesAddr.toNat ≤ pa ∧ pa < L.pageTablesAddr.toNat + 5 * 4096 then
    .pte (arrayIdx ((pa - L.pageTablesAddr.toNat) / 4096))
      (entryIdx ((pa - L.pageTablesAddr.toNat) % 4096 / 4))
  else .other

namespace Memory

def load8 (L : Layout) (m : Memory) (pa : Nat) : UInt8 :=
  match L.place pa with
  | .pde i => byteOf (m.tables.pageDir i).toWord (pa % 4)
  | .pte a i => byteOf (m.tables.pageTables a i).toWord (pa % 4)
  | .other => m.bytes pa

def store8 (L : Layout) (m : Memory) (pa : Nat) (b : UInt8) : Memory :=
  match L.place pa with
  | .pde i =>
      let w := setByteOf (m.tables.pageDir i).toWord (pa % 4) b
      { m with tables := m.tables.setPde i (PageEntry.ofWord w) }
  | .pte a i =>
      let w := setByteOf (m.tables.pageTables a i).toWord (pa % 4) b
      { m with tables := m.tables.setPte a i (PageEntry.ofWord w) }
  | .other => { m with bytes := Function.update m.bytes pa b }

def load32 (L : Layout) (m : Memory) (pa : Nat) : Nat := le32 (m.load8 L) pa

def store32 (L : Layout) (m : Memory) (pa w : Nat) : Memory :=
  (((m.store8 L pa (byteOf w 0)).store8 L (pa + 1) (byteOf w 1)).store8 L (pa + 2)
    (byteOf w 2)).store8 L (pa + 3) (byteOf w 3)

end Memory

/-- Where a virtual address leads, and whether a write would be allowed to code
that is subject to the read/write bits. -/
@[ext] structure Translation where
  paddr : Nat
  writable : Bool
deriving DecidableEq

/-- The two-level hardware walk from the page directory at `cr3`. -/
def walk (L : Layout) (m : Memory) (cr3 : Nat) (va : UInt32) : Option Translation :=
  let pde := m.load32 L (cr3 + 4 * (va.toNat / 4194304))
  if pde % 2 = 0 then none
  else
    let pte := m.load32 L (pde / 4096 * 4096 + 4 * (va.toNat / 4096 % 1024))
    if pte % 2 = 0 then none
    else some
      { paddr := pte / 4096 * 4096 + va.toNat % 4096
        writable := decide (pde / 2 % 2 = 1) && decide (pte / 2 % 2 = 1) }

def translate (L : Layout) (m : Memory) (va : UInt32) : Option Translation :=
  walk L m L.pageDirAddr.toNat va

theorem Layout.place_pde (L : Layout) {i : Nat} (hi : i < 1024) {k : Nat} (hk : k < 4) :
    L.place (L.pageDirAddr.toNat + 4 * i + k) = .pde (entryIdx i) := by
  have hidx : (L.pageDirAddr.toNat + 4 * i + k - L.pageDirAddr.toNat) / 4 = i := by omega
  rw [Layout.place, if_pos (by omega), hidx]

theorem Layout.place_pte (L : Layout) (a : Fin 5) {i : Nat} (hi : i < 1024) {k : Nat}
    (hk : k < 4) :
    L.place ((L.tableAddr a).toNat + 4 * i + k) = .pte a (entryIdx i) := by
  have ha := a.isLt
  have haddr := L.tableAddr_toNat a
  have hdisj := L.disjoint
  have htab : ((L.tableAddr a).toNat + 4 * i + k - L.pageTablesAddr.toNat) / 4096 = a.val := by
    omega
  have hidx :
      ((L.tableAddr a).toNat + 4 * i + k - L.pageTablesAddr.toNat) % 4096 / 4 = i := by
    omega
  rw [Layout.place, if_neg (by omega), if_pos (by omega), htab, hidx]
  congr 1
  exact Fin.ext (Nat.mod_eq_of_lt ha)

namespace Memory

theorem load32_pde (L : Layout) (m : Memory) {i : Nat} (hi : i < 1024) :
    m.load32 L (L.pageDirAddr.toNat + 4 * i) = (m.tables.pageDir (entryIdx i)).toWord := by
  have hal := L.pageDir_aligned
  refine le32_of_bytes (PageEntry.toWord_lt _) fun k hk => ?_
  have hmod : (L.pageDirAddr.toNat + 4 * i + k) % 4 = k := by omega
  rw [load8, L.place_pde hi hk, hmod]

theorem load32_pte (L : Layout) (m : Memory) (a : Fin 5) {i : Nat} (hi : i < 1024) :
    m.load32 L ((L.tableAddr a).toNat + 4 * i) =
      (m.tables.pageTables a (entryIdx i)).toWord := by
  have hal := L.tableAddr_aligned a
  refine le32_of_bytes (PageEntry.toWord_lt _) fun k hk => ?_
  have hmod : ((L.tableAddr a).toNat + 4 * i + k) % 4 = k := by omega
  rw [load8, L.place_pte a hi hk, hmod]

theorem store32_entry {L : Layout} (pa : Nat) {w : Nat} (hw : w < 2 ^ 32) {f : PageEntry → Memory}
    (hf : ∀ e, ∀ k < 4, ∀ b,
      (f e).store8 L (pa + k) b = f (PageEntry.ofWord (setByteOf e.toWord k b)))
    (e : PageEntry) : (f e).store32 L pa w = f (PageEntry.ofWord w) := by
  have hlt := fun k hk v hv => setByteOf_lt (w := v) (k := k) hv hk (byteOf w k)
  have h0 := hlt 0 (by omega) _ e.toWord_lt
  have h1 := hlt 1 (by omega) _ h0
  have h2 := hlt 2 (by omega) _ h1
  have hfirst := hf e 0 (by omega) (byteOf w 0)
  rw [Nat.add_zero] at hfirst
  rw [store32, hfirst, hf _ 1 (by omega), hf _ 2 (by omega), hf _ 3 (by omega),
    PageEntry.toWord_ofWord h0, PageEntry.toWord_ofWord h1, PageEntry.toWord_ofWord h2,
    setByteOf_bytes e.toWord_lt hw]

theorem store32_pde (L : Layout) (m : Memory) {i : Nat} (hi : i < 1024) {w : Nat}
    (hw : w < 2 ^ 32) :
    m.store32 L (L.pageDirAddr.toNat + 4 * i) w =
      { m with tables := m.tables.setPde (entryIdx i) (PageEntry.ofWord w) } := by
  have hal := L.pageDir_aligned
  have hstore := store32_entry (L := L) (L.pageDirAddr.toNat + 4 * i) hw
    (f := fun e => { m with tables := m.tables.setPde (entryIdx i) e }) (fun e k hk b => by
      have hmod : (L.pageDirAddr.toNat + 4 * i + k) % 4 = k := by omega
      simp [store8, L.place_pde hi hk, hmod, Tables.setPde]) (m.tables.pageDir (entryIdx i))
  rwa [Tables.setPde, Function.update_eq_self] at hstore

theorem store32_pte (L : Layout) (m : Memory) (a : Fin 5) {i : Nat} (hi : i < 1024) {w : Nat}
    (hw : w < 2 ^ 32) :
    m.store32 L ((L.tableAddr a).toNat + 4 * i) w =
      { m with tables := m.tables.setPte a (entryIdx i) (PageEntry.ofWord w) } := by
  have hal := L.tableAddr_aligned a
  have hstore := store32_entry (L := L) ((L.tableAddr a).toNat + 4 * i) hw
    (f := fun e => { m with tables := m.tables.setPte a (entryIdx i) e }) (fun e k hk b => by
      have hmod : ((L.tableAddr a).toNat + 4 * i + k) % 4 = k := by omega
      simp [store8, L.place_pte a hi hk, hmod, Tables.setPte]) (m.tables.pageTables a (entryIdx i))
  rwa [Tables.setPte, Function.update_eq_self, Function.update_eq_self] at hstore

theorem store8_tables (L : Layout) (m : Memory) {pa : Nat} (b : UInt8)
    (h : L.place pa = .other) : (m.store8 L pa b).tables = m.tables := by
  rw [store8, h]

theorem load8_store8_self (L : Layout) (m : Memory) {pa : Nat} (b : UInt8)
    (h : L.place pa = .other) : (m.store8 L pa b).load8 L pa = b := by
  simp [load8, store8, h]

theorem load8_store8_of_ne (L : Layout) (m : Memory) {pa qa : Nat} (b : UInt8)
    (h : L.place pa = .other) (hne : qa ≠ pa) :
    (m.store8 L pa b).load8 L qa = m.load8 L qa := by
  cases hq : L.place qa <;> simp [load8, store8, h, hq, hne]

theorem load8_of_other (L : Layout) (m : Memory) {pa : Nat} (h : L.place pa = .other) :
    m.load8 L pa = m.bytes pa := by
  rw [load8, h]

end Memory

/-- The part of the walk after the page directory, for an entry that points at
one of the page tables. -/
theorem translate_of_table (L : Layout) (m : Memory) (va : UInt32) {e : PageEntry} {a : Fin 5}
    (he : m.tables.pageDir (entryIdx (va.toNat / 4194304)) = e)
    (hpres : e.present = true) (hframe : e.frame = (L.tableAddr a).toNat) :
    translate L m va =
      if (m.tables.pageTables a (entryIdx (va.toNat / 4096 % 1024))).present then
        some ⟨(m.tables.pageTables a (entryIdx (va.toNat / 4096 % 1024))).frame +
            va.toNat % 4096,
          e.write && (m.tables.pageTables a (entryIdx (va.toNat / 4096 % 1024))).write⟩
      else none := by
  have hlt := va.toNat_lt
  have hidx : va.toNat / 4096 % 1024 < 1024 := Nat.mod_lt _ (by omega)
  have hpde := m.load32_pde L (i := va.toNat / 4194304) (by omega)
  have hpte := m.load32_pte L a hidx
  rw [he] at hpde
  generalize m.tables.pageTables a (entryIdx (va.toNat / 4096 % 1024)) = f at hpte ⊢
  simp only [translate, walk, hpde, e.toWord_div, hframe, hpte, e.toWord_mod_two,
    f.toWord_mod_two, e.toWord_write, f.toWord_write, f.toWord_div, hpres]
  cases f.present <;> simp

/-- The walk through an entry that points back at the page directory reads the
page directory as a page table. -/
theorem translate_of_self (L : Layout) (m : Memory) (va : UInt32) {e : PageEntry}
    (he : m.tables.pageDir (entryIdx (va.toNat / 4194304)) = e)
    (hpres : e.present = true) (hframe : e.frame = L.pageDirAddr.toNat) :
    translate L m va =
      if (m.tables.pageDir (entryIdx (va.toNat / 4096 % 1024))).present then
        some ⟨(m.tables.pageDir (entryIdx (va.toNat / 4096 % 1024))).frame + va.toNat % 4096,
          e.write && (m.tables.pageDir (entryIdx (va.toNat / 4096 % 1024))).write⟩
      else none := by
  have hlt := va.toNat_lt
  have hidx : va.toNat / 4096 % 1024 < 1024 := Nat.mod_lt _ (by omega)
  have hpde := m.load32_pde L (i := va.toNat / 4194304) (by omega)
  have hpte := m.load32_pde L hidx
  rw [he] at hpde
  generalize m.tables.pageDir (entryIdx (va.toNat / 4096 % 1024)) = f at hpte ⊢
  simp only [translate, walk, hpde, e.toWord_div, hframe, hpte, e.toWord_mod_two,
    f.toWord_mod_two, e.toWord_write, f.toWord_write, f.toWord_div, hpres]
  cases f.present <;> simp

theorem translate_of_absent (L : Layout) (m : Memory) (va : UInt32)
    (h : (m.tables.pageDir (entryIdx (va.toNat / 4194304))).present = false) :
    translate L m va = none := by
  have hlt := va.toNat_lt
  have hpde := m.load32_pde L (i := va.toNat / 4194304) (by omega)
  simp [translate, walk, hpde, PageEntry.toWord_mod_two, h]

end Kboot86
