import Kboot86.Lib.Elf32.Progress

/-!
# The image in memory

`ImageAt L m img len file` says that the `len` bytes from `img` on are the
bytes of `file`, outside the loader's tables and mapped to themselves. Reading
a header field then gives the field of the file and changes nothing but the
trace. A segment in progress that stays away from the image keeps it in place.
-/

namespace Kboot86.Elf32

open Exec

structure ImageAt (L : Layout) (m : Memory) (img : UInt32) (len : Nat) (file : Nat → UInt8) :
    Prop where
  fits : img.toNat + len ≤ 2 ^ 32
  place : ∀ pa, img.toNat ≤ pa → pa < img.toNat + len → L.place pa = .other
  ident : ∀ va : UInt32, img.toNat ≤ va.toNat → va.toNat < img.toNat + len →
    (translate L m va).map (·.paddr) = some va.toNat
  bytes : ∀ k < len, m.load8 L (img.toNat + k) = file k

def halfAt (file : Nat → UInt8) (k : Nat) : UInt32 := UInt32.ofNat (le16 file k)

def wordAt (file : Nat → UInt8) (k : Nat) : UInt32 := UInt32.ofNat (le32 file k)

structure Phdr where
  type : UInt32
  offset : UInt32
  vaddr : UInt32
  paddr : UInt32
  filesz : UInt32
  memsz : UInt32
  flags : UInt32
deriving DecidableEq

def phdrAt (file : Nat → UInt8) (o : Nat) : Phdr where
  type := wordAt file o
  offset := wordAt file (o + 4)
  vaddr := wordAt file (o + 8)
  paddr := wordAt file (o + 12)
  filesz := wordAt file (o + 16)
  memsz := wordAt file (o + 20)
  flags := wordAt file (o + 24)

namespace Phdr

def loadable (h : Phdr) : Bool := h.type == ptLoad

def target (h : Phdr) : Target where
  vaddr := h.vaddr.toNat
  paddr := h.paddr.toNat
  memsz := h.memsz.toNat
  writable := pfW &&& h.flags != 0

/-- What the segment holds in memory: the bytes of the file, then zeros. -/
def content (file : Nat → UInt8) (h : Phdr) (k : Nat) : UInt8 :=
  if k < h.filesz.toNat then file (h.offset.toNat + k) else 0

end Phdr

/-- The loadable headers among `k` headers from number `i` on, for a table at
offset `phoff`. -/
def segmentsFrom (file : Nat → UInt8) (phoff i k : Nat) : List Phdr :=
  ((List.range' i k).map fun j => phdrAt file (phoff + 32 * j)).filter Phdr.loadable

def segments (file : Nat → UInt8) : List Phdr :=
  segmentsFrom file (wordAt file 28).toNat 0 (halfAt file 44).toNat

theorem segmentsFrom_succ (file : Nat → UInt8) (phoff i k : Nat) :
    segmentsFrom file phoff i (k + 1) =
      if (phdrAt file (phoff + 32 * i)).loadable then
        phdrAt file (phoff + 32 * i) :: segmentsFrom file phoff (i + 1) k
      else segmentsFrom file phoff (i + 1) k := by
  rw [segmentsFrom, List.range'_succ, List.map_cons, List.filter_cons]
  rfl

theorem halfAt_toNat (file : Nat → UInt8) (k : Nat) : (halfAt file k).toNat = le16 file k := by
  have := le16_lt file k
  rw [halfAt, UInt32.toNat_ofNat']
  omega

/-! ### The last 4 MiB show nothing but tables -/

theorem Layout.place_pageDir (L : Layout) {off : Nat} (h : off < 4096) :
    L.place (L.pageDirAddr.toNat + off) ≠ .other := by
  have hsplit : L.pageDirAddr.toNat + off = L.pageDirAddr.toNat + 4 * (off / 4) + off % 4 := by
    omega
  rw [hsplit, L.place_pde (by omega) (by omega)]
  simp

theorem Layout.place_table (L : Layout) (a : Fin 5) {off : Nat} (h : off < 4096) :
    L.place ((L.tableAddr a).toNat + off) ≠ .other := by
  have hsplit : (L.tableAddr a).toNat + off =
      (L.tableAddr a).toNat + 4 * (off / 4) + off % 4 := by omega
  rw [hsplit, L.place_pte a (by omega) (by omega)]
  simp

theorem place_of_window {L : Layout} {m : Memory} (h : PagingInv L m.tables) {va : UInt32}
    (hva : 0xffc00000 ≤ va.toNat) {tr : Translation} (htr : translate L m va = some tr) :
    L.place tr.paddr ≠ .other := by
  rw [translate_window h hva, vaddr2ptIdx_eq] at htr
  have hoff : va.toNat % 4096 < 4096 := Nat.mod_lt _ (by omega)
  have hidx : va.toNat / 4096 % 1024 < 1024 := Nat.mod_lt _ (by omega)
  cases hpres : (m.tables.pageDir (entryIdx (va.toNat / 4096 % 1024))).present with
  | false => simp [hpres] at htr
  | true =>
      rw [hpres, if_pos rfl] at htr
      cases htr
      by_cases hlast : va.toNat / 4096 % 1024 = 1023
      · rw [PageEntry.translation, hlast, h.self, pdeOf_frame L.pageDir_aligned]
        exact Layout.place_pageDir L hoff
      · have hpde := (h.pde _ (by omega) hpres).2
        rw [PageEntry.translation, hpde, pdeOf_frame (L.tableAddr_aligned _)]
        exact Layout.place_table L _ hoff

namespace ImageAt

variable {L : Layout} {m : Memory} {img : UInt32} {len : Nat} {file : Nat → UInt8}

theorem below (h : ImageAt L m img len file) (hinv : PagingInv L m.tables) {va : UInt32}
    (hlo : img.toNat ≤ va.toNat) (hhi : va.toNat < img.toNat + len) :
    va.toNat < 0xffc00000 := by
  by_contra hwin
  obtain ⟨tr, htr, hpa⟩ := Option.map_eq_some_iff.mp (h.ident va hlo hhi)
  apply place_of_window hinv (by omega) htr
  rw [hpa]
  exact h.place _ hlo hhi

/-! ### Reading the image -/

theorem loadByte_wp {s : State} (h : ImageAt L s.mem img len file) {va : UInt32} {k : Nat}
    (hva : va.toNat = img.toNat + k) (hk : k < len) :
    wp (loadByte L va) s fun b s' => b = file k ∧ s'.mem = s.mem := by
  obtain ⟨tr, htr, hpa⟩ := Option.map_eq_some_iff.mp (h.ident va (by omega) (by omega))
  refine ⟨s.mem.load8 L tr.paddr, { s with trace := s.trace ++ [.load va] }, ?_, ?_, rfl⟩
  · simp [loadByte, htr]
  · rw [hpa, hva, h.bytes k hk]

theorem loadHalf_wp {s : State} (h : ImageAt L s.mem img len file) {va : UInt32} {k : Nat}
    (hva : va.toNat = img.toNat + k) (hk : k + 1 < len) :
    wp (loadHalf L va) s fun a s' => a = halfAt file k ∧ s'.mem = s.mem := by
  have hfits := h.fits
  have hnext : (va + 1).toNat = img.toNat + (k + 1) := by
    rw [UInt32.toNat_add, UInt32.toNat_one]
    omega
  apply wp_bind (h.loadByte_wp hva (by omega))
  rintro b0 s1 ⟨rfl, hs1⟩
  have h1 : ImageAt L s1.mem img len file := hs1 ▸ h
  apply wp_bind (h1.loadByte_wp hnext hk)
  rintro b1 s2 ⟨rfl, hs2⟩
  exact wp_pure ⟨rfl, hs2.trans hs1⟩

theorem loadWord_wp {s : State} (h : ImageAt L s.mem img len file) {va : UInt32} {k : Nat}
    (hva : va.toNat = img.toNat + k) (hk : k + 3 < len) :
    wp (loadWord L va) s fun a s' => a = wordAt file k ∧ s'.mem = s.mem := by
  have hfits := h.fits
  have hnext : (va + 2).toNat = img.toNat + (k + 2) := by
    rw [UInt32.toNat_add, show (2 : UInt32).toNat = 2 from rfl]
    omega
  apply wp_bind (h.loadHalf_wp hva (by omega))
  rintro h0 s1 ⟨rfl, hs1⟩
  have h1 : ImageAt L s1.mem img len file := hs1 ▸ h
  apply wp_bind (h1.loadHalf_wp hnext (by omega))
  rintro h1 s2 ⟨rfl, hs2⟩
  refine wp_pure ⟨?_, hs2.trans hs1⟩
  rw [halfAt_toNat, halfAt_toNat]
  rfl

/-! ### What keeps the image in place -/

/-- Where a target may not go: no page of it holds a byte of the image, and no
frame. -/
def Avoids (g : Target) (img : UInt32) (len : Nat) : Prop :=
  ∀ a, img.toNat ≤ a → a < img.toNat + len →
    ¬ (g.vaddr ≤ a ∧ a < g.vaddr + roundUp g.memsz) ∧
    ¬ (g.paddr ≤ a ∧ a < g.paddr + roundUp g.memsz)

theorem progress {g : Target} {c : Nat → UInt8} {m' : Memory} {q n : Nat}
    (h : ImageAt L m img len file) (hinv : PagingInv L m.tables)
    (hav : Avoids g img len) (hp : Progress L g c m m' q n) (hq : q ≤ roundUp g.memsz)
    (hn : n ≤ g.memsz) : ImageAt L m' img len file where
  fits := h.fits
  place := h.place
  ident va hlo hhi := by
    have hnot := (hav va.toNat hlo hhi).1
    rw [hp.pages va (h.below hinv hlo hhi), if_neg (by omega)]
    exact h.ident va hlo hhi
  bytes k hk := by
    have hnot := (hav (img.toNat + k) (by omega) (by omega)).2
    have hround := le_roundUp g.memsz
    rw [hp.bytes _ (h.place _ (by omega) (by omega)), if_neg (by omega)]
    exact h.bytes k hk

end ImageAt

end Kboot86.Elf32
