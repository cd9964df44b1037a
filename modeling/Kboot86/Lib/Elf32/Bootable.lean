import Kboot86.Lib.Elf32.Correct
import Kboot86.Mm.Init
import Mathlib.Data.Set.Basic

/-!
# What a bootable image becomes

`Bootable` collects what the boot loader needs of an image and of the memory
around it: the image is accepted and identity-mapped, its segments have
page-aligned addresses in the ranges that can be mapped, and their pages and
frames avoid each other, the image and the loader's own memory. From every
state reachable after `paging_init`, `elf32_map` loads such an image.

The one page outside the segments whose translation may change is one of the
last 4 MiB: the page that shows a page table which was not in use before.
-/

namespace Kboot86.Elf32

open Exec

/-- What a segment may be. `own` is the memory of the loader itself. -/
structure BootableSegment (own : Set Nat) (img : UInt32) (len : Nat) (h : Phdr) : Prop where
  vaddr_aligned : h.vaddr.toNat % 4096 = 0
  paddr_aligned : h.paddr.toNat % 4096 = 0
  filesz_le : h.filesz.toNat ≤ h.memsz.toNat
  inFile : 0 < h.filesz.toNat → h.offset.toNat + h.filesz.toNat ≤ len
  paddr_le : h.paddr.toNat + h.memsz.toNat ≤ kernelPaddrMax.toNat
  vaddr_range : h.memsz.toNat = 0 ∧ h.vaddr.toNat ≤ kernelVaddrMax.toNat ∨
    h.vaddr.toNat + roundUp h.memsz.toNat ≤ 0x1000000 ∨
    0xc0000000 ≤ h.vaddr.toNat ∧ h.vaddr.toNat + roundUp h.memsz.toNat ≤ 0xc0400000
  frames : ∀ pa, h.paddr.toNat ≤ pa → pa < h.paddr.toNat + roundUp h.memsz.toNat →
    pa ∉ own ∧ ¬ (img.toNat ≤ pa ∧ pa < img.toNat + len)
  pages : ∀ a, h.Covers a → a ∉ own ∧ ¬ (img.toNat ≤ a ∧ a < img.toNat + len)

/-- The image of `len` bytes at `img`, in a state of the running loader. -/
structure Bootable (L : Layout) (own : Set Nat) (ops : List PagingOp) (s : State) (img : UInt32)
    (len : Nat) (file : Nat → UInt8) : Prop where
  run : (pagingSystem L).Run ops s.mem.tables
  tables_own : ∀ pa, L.place pa ≠ .other → pa ∈ own
  fits : img.toNat + len ≤ 2 ^ 32
  notOwn : ∀ pa, img.toNat ≤ pa → pa < img.toNat + len → pa ∉ own
  ident : ∀ va : UInt32, img.toNat ≤ va.toNat → va.toNat < img.toNat + len →
    (translate L s.mem va).map (·.paddr) = some va.toNat
  bytes : ∀ k < len, s.mem.load8 L (img.toNat + k) = file k
  header : 52 ≤ len
  accepted : ∃ s', elf32IsSupported L img s = .ok (true, s')
  table : (wordAt file 28).toNat + 32 * (halfAt file 44).toNat ≤ len
  segment : ∀ h ∈ segments file, BootableSegment own img len h
  apart : (segments file).Pairwise Phdr.Apart
  total : totalMemsz (segments file) ≤ kernelMemszMax.toNat

section

variable {L : Layout} {own : Set Nat} {ops : List PagingOp} {s : State} {img : UInt32}
  {len : Nat} {file : Nat → UInt8}

theorem BootableSegment.segmentOk {h : Phdr} (hb : BootableSegment own img len h)
    (hown : ∀ pa, L.place pa ≠ .other → pa ∈ own) : SegmentOk L img len h where
  target :=
    { vaddr_aligned := hb.vaddr_aligned
      paddr_aligned := hb.paddr_aligned
      paddr_le := hb.paddr_le
      vaddr_range := hb.vaddr_range
      place := fun pa hlo hhi => by
        by_contra hplace
        exact (hb.frames pa hlo hhi).1 (hown pa hplace) }
  filesz_le := hb.filesz_le
  inFile := hb.inFile
  avoids a hlo hhi :=
    ⟨fun hcov => (hb.pages a hcov).2 ⟨hlo, hhi⟩,
      fun hfr => (hb.frames a hfr.1 hfr.2).2 ⟨hlo, hhi⟩⟩

theorem Bootable.mappable (hb : Bootable L own ops s img len file) :
    Mappable L s.mem img len file where
  image :=
    { fits := hb.fits
      place := fun pa hlo hhi => by
        by_contra hplace
        exact hb.notOwn pa hlo hhi (hb.tables_own pa hplace)
      ident := hb.ident
      bytes := hb.bytes }
  header := hb.header
  table := hb.table
  mappable h hh := (hb.segment h hh).segmentOk hb.tables_own
  apart := hb.apart
  total := hb.total

theorem Bootable.wp_elf32Map (hb : Bootable L own ops s img len file) :
    wp (elf32Map L img) s fun entry s' =>
      entry = wordAt file 24 ∧ PagingInv L s'.mem.tables ∧
        Loaded L file (segments file) s.mem s'.mem := by
  obtain ⟨s', hs'⟩ := hb.accepted
  exact elf32Map_wp (pagingInv_of_run hb.run) hb.mappable ⟨true, s', hs', rfl⟩

/-- `elf32_map` returns the entry point of a bootable image and leaves its
segments loaded. -/
theorem elf32Map_loads (hb : Bootable L own ops s img len file) :
    ∃ s', elf32Map L img s = .ok (wordAt file 24, s') ∧
      Loaded L file (segments file) s.mem s'.mem := by
  obtain ⟨entry, s', hs', rfl, -, hloaded⟩ := hb.wp_elf32Map
  exact ⟨s', hs', hloaded⟩

end

/-! ### A small image -/

/-- An executable of 84 bytes with one segment at `0xc0000000`, which takes its
first byte from the image and clears the next. -/
def sampleImage : List UInt8 :=
  [0x7f, 0x45, 0x4c, 0x46, 1, 1, 1, 0, 0, 0, 0, 0, 0, 0, 0, 0,
    2, 0, 3, 0, 1, 0, 0, 0, 0, 0, 0, 0xc0, 52, 0, 0, 0,
    0, 0, 0, 0, 0, 0, 0, 0, 52, 0, 32, 0, 1, 0, 40, 0, 0, 0, 0, 0,
    1, 0, 0, 0, 0, 0, 0, 0, 0, 0, 0, 0xc0, 0, 0, 0x40, 0,
    1, 0, 0, 0, 2, 0, 0, 0, 6, 0, 0, 0, 0, 0x10, 0, 0]

def sampleFile (k : Nat) : UInt8 := sampleImage.getD k 0

def sampleOwn : Set Nat := {pa | pa < 0x100000}

def sampleState (t : Tables) : State where
  mem := ⟨t, fun pa => if 0x200000 ≤ pa then sampleFile (pa - 0x200000) else 0⟩
  strError := .text ""
  trace := []

def sampleSegment : Phdr := ⟨1, 0, 0xc0000000, 0x400000, 1, 2, 6⟩

theorem segments_sampleFile : segments sampleFile = [sampleSegment] := by decide

theorem sampleLayout_place {pa : Nat} (h : 0x100000 ≤ pa) : sampleLayout.place pa = .other := by
  have hdir : sampleLayout.pageDirAddr.toNat = 0x20000 := rfl
  have htab : sampleLayout.pageTablesAddr.toNat = 0x21000 := rfl
  rw [Layout.place, if_neg (by omega), if_neg (by omega)]

theorem translate_identity {L : Layout} {m : Memory} (hinv : PagingInv L m.tables)
    (hid : IdentityUpTo m.tables 3840) {va : UInt32} (hva : va.toNat < 15728640) :
    (translate L m va).map (·.paddr) = some va.toNat := by
  have hmap := hid.mapped va
  rw [if_pos (by omega)] at hmap
  obtain ⟨e, he, hpair⟩ := Option.map_eq_some_iff.mp hmap
  have hframe : e.frame = va.toNat / 4096 * 4096 := congrArg Prod.fst hpair
  rw [translate_eq_lookup hinv.toTablesInv (by omega), he, Option.map_some, Option.map_some,
    PageEntry.translation, hframe]
  congr 1
  change va.toNat / 4096 * 4096 + va.toNat % 4096 = va.toNat
  omega

theorem sample_segment : BootableSegment sampleOwn 0x200000 84 sampleSegment where
  vaddr_aligned := by decide
  paddr_aligned := by decide
  filesz_le := by decide
  inFile _ := by decide
  paddr_le := by decide
  vaddr_range := .inr (.inr (by decide))
  frames pa hlo hhi := by
    have hpaddr : sampleSegment.paddr.toNat = 0x400000 := rfl
    have himg : (0x200000 : UInt32).toNat = 0x200000 := rfl
    exact ⟨fun hown => by have : pa < 0x100000 := hown; omega, by omega⟩
  pages a hcov := by
    have hvaddr : sampleSegment.vaddr.toNat = 0xc0000000 := rfl
    have himg : (0x200000 : UInt32).toNat = 0x200000 := rfl
    have hlo := hcov.1
    exact ⟨fun hown => by have : a < 0x100000 := hown; omega, by omega⟩

theorem sample_bootable {t : Tables} (ht : pagingInit sampleLayout clearedTables = (t, 0))
    (hinv : PagingInv sampleLayout t) (hid : IdentityUpTo t 3840) :
    Bootable sampleLayout sampleOwn [] (sampleState t) 0x200000 84 sampleFile := by
  have himg : (0x200000 : UInt32).toNat = 0x200000 := rfl
  have hident : ∀ va : UInt32, (0x200000 : UInt32).toNat ≤ va.toNat →
      va.toNat < (0x200000 : UInt32).toNat + 84 →
      (translate sampleLayout (sampleState t).mem va).map (·.paddr) = some va.toNat :=
    fun va _ hhi => translate_identity hinv hid (by omega)
  have hbytes : ∀ k < 84,
      (sampleState t).mem.load8 sampleLayout ((0x200000 : UInt32).toNat + k) = sampleFile k := by
    intro k _
    rw [Memory.load8_of_other _ _ (sampleLayout_place (by omega)), himg]
    simp [sampleState]
  have himage : ImageAt sampleLayout (sampleState t).mem 0x200000 84 sampleFile :=
    ⟨by decide, fun pa hlo _ => sampleLayout_place (by omega), hident, hbytes⟩
  obtain ⟨ok, s', hs', hok, -⟩ := elf32IsSupported_wp himage (by decide) (by decide)
  have hsup : supported sampleFile = true := by decide
  exact
    { run := .init ⟨clearedTables, ht⟩
      tables_own := fun pa hplace => by
        by_contra hown
        exact hplace (sampleLayout_place (Nat.not_lt.mp hown))
      fits := by decide
      notOwn := fun pa hlo _ hown => by
        have : pa < 0x100000 := hown
        omega
      ident := hident
      bytes := hbytes
      header := by decide
      accepted := ⟨s', by rw [hs', hok, hsup]⟩
      table := by decide
      segment := by
        rw [segments_sampleFile]
        rintro h hh
        obtain rfl := List.mem_singleton.mp hh
        exact sample_segment
      apart := by
        rw [segments_sampleFile]
        exact List.pairwise_singleton _ _
      total := by decide }

theorem elf32Map_loads_sample :
    ∃ s s' : State, elf32Map sampleLayout 0x200000 s = .ok (0xc0000000, s') ∧
      Loaded sampleLayout sampleFile [sampleSegment] s.mem s'.mem := by
  obtain ⟨t, ht, hinv, hid⟩ := pagingInit_spec sampleLayout clearedTables
  obtain ⟨s', hs', hloaded⟩ := elf32Map_loads (sample_bootable ht hinv hid)
  rw [segments_sampleFile] at hloaded
  exact ⟨sampleState t, s', hs', hloaded⟩

/-- Loading the small image makes the page table of `0xc0000000` appear at
`0xfff00000`, a page of no segment. -/
theorem elf32Map_shows_table :
    ∃ s : State, Bootable sampleLayout sampleOwn [] s 0x200000 84 sampleFile ∧
      ¬ ∃ s', elf32Map sampleLayout 0x200000 s = .ok (wordAt sampleFile 24, s') ∧
        ∀ va : UInt32, (∀ h ∈ segments sampleFile, ¬ h.Covers va.toNat) →
          translate sampleLayout s'.mem va = translate sampleLayout s.mem va := by
  obtain ⟨t, ht, hinv, hid⟩ := pagingInit_spec sampleLayout clearedTables
  have hb := sample_bootable ht hinv hid
  refine ⟨sampleState t, hb, ?_⟩
  rintro ⟨s', hs', hsame⟩
  obtain ⟨entry, s'', hs'', -, hinv', hloaded⟩ := hb.wp_elf32Map
  obtain ⟨-, rfl⟩ := Prod.mk.inj (Except.ok.inj (hs'.symm.trans hs''))
  rw [segments_sampleFile] at hloaded hsame
  -- The first page of the segment is mapped, so its directory entry is present.
  have hmap := hloaded.maps sampleSegment (by simp) 0 0xc0000000 (by decide) rfl
  have hafter : (s'.mem.tables.pageDir (entryIdx 768)).present = true := by
    by_contra hp
    rw [Bool.not_eq_true] at hp
    rw [translate_of_absent sampleLayout s'.mem 0xc0000000 hp] at hmap
    cases hmap
  have hbefore : ((sampleState t).mem.tables.pageDir (entryIdx 768)).present = false :=
    hid.high 768 (by omega) (by omega)
  have hcov : ∀ h ∈ [sampleSegment], ¬ h.Covers (0xfff00000 : UInt32).toNat := by
    rintro h hh
    obtain rfl := List.mem_singleton.mp hh
    unfold Phdr.Covers
    decide
  have hwin := hsame 0xfff00000 hcov
  have hinv0 : PagingInv sampleLayout (sampleState t).mem.tables := hinv
  rw [translate_window hinv' (by decide), translate_window hinv0 (by decide),
    show vaddr2ptIdx 0xfff00000 = entryIdx 768 from rfl, if_pos hafter, hbefore] at hwin
  cases hwin

/-! ### Other images -/

def wordBytes (w : UInt32) : List UInt8 :=
  [w.toUInt8, (w >>> 8).toUInt8, (w >>> 16).toUInt8, (w >>> 24).toUInt8]

def elfHeader (phnum : UInt8) : List UInt8 :=
  [0x7f, 0x45, 0x4c, 0x46, 1, 1, 1, 0, 0, 0, 0, 0, 0, 0, 0, 0,
    2, 0, 3, 0, 1, 0, 0, 0, 0, 0, 0x10, 0, 52, 0, 0, 0,
    0, 0, 0, 0, 0, 0, 0, 0, 52, 0, 32, 0, phnum, 0, 40, 0, 0, 0, 0, 0]

def progHeader (vaddr paddr filesz memsz : UInt32) : List UInt8 :=
  wordBytes ptLoad ++ wordBytes 0 ++ wordBytes vaddr ++ wordBytes paddr ++ wordBytes filesz ++
    wordBytes memsz ++ wordBytes 6 ++ wordBytes 0x1000

def fileOf (image : List UInt8) (k : Nat) : UInt8 := image.getD k 0

def stateWith (file : Nat → UInt8) (t : Tables) : State where
  mem := ⟨t, fun pa => if 0x200000 ≤ pa then file (pa - 0x200000) else 0⟩
  strError := .text ""
  trace := []

theorem stateWith_imageAt (file : Nat → UInt8) {t : Tables} (hinv : PagingInv sampleLayout t)
    (hid : IdentityUpTo t 3840) (len : Nat) (hlen : len ≤ 0x100000) :
    ImageAt sampleLayout (stateWith file t).mem 0x200000 len file := by
  have himg : (0x200000 : UInt32).toNat = 0x200000 := rfl
  refine ⟨by omega, fun pa hlo _ => sampleLayout_place (by omega), fun va _ hhi => ?_,
    fun k _ => ?_⟩
  · exact translate_identity hinv hid (by omega)
  · rw [Memory.load8_of_other _ _ (sampleLayout_place (by omega)), himg]
    simp [stateWith]

end Kboot86.Elf32
