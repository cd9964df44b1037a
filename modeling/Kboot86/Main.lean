import Kboot86.Drivers.Fat16.Contents
import Kboot86.Lib.Elf32.Contained
import Kboot86.Mm.Vaddr2Paddr

/-!
# From the disk to the kernel

`main` of `main.c`, from `paging_init` to the jump. The kernel file is loaded
to 2 MiB, into a buffer of 1 MiB that paging maps to itself, and mapped from
there. What `fat16_load` returns only tells whether it failed: `elf32_map` is
given the address of the buffer and not how many bytes are in it.

The model leaves out what else `main` writes in the first megabyte: the text on
the screen, the interrupt table, the variables of the loader and its stack. What
`pit_init` and `hdd_init` return is part of `Boot`, the state that `main` finds.
-/

namespace Kboot86

/-- What stops `main` without an error path. -/
inductive Fault where
  | fat16 (e : DivideError)
  | elf32 (e : Elf32.Fault)
  | pageFault
deriving DecidableEq

/-- What `main` finds. `hddInit` is `none` when `hdd_init` fails. -/
structure Boot where
  mem : Memory
  pitInit : Int
  hddInit : Option Drive
  volume : Fat16.Volume
  strError : Elf32.StrError

/-- What `main` knows when it jumps, and the states before and after
`elf32_map`. -/
structure Jump where
  count : Int
  jmpAddr : UInt32
  loaded : Elf32.State
  mapped : Elf32.State

def filename : List UInt8 := ['k', 'e', 'r', 'n', 'e', 'l', '.', 'e', 'l', 'f'].map Char.toUInt8

def bufSize : UInt32 := (1 : UInt32) <<< 20

def memLoadAddr : UInt32 := (2 : UInt32) <<< 20

def Memory.buffer (L : Layout) (m : Memory) (k : Nat) : UInt8 :=
  m.load8 L (memLoadAddr.toNat + k)

def Memory.withBuffer (m : Memory) (buf : Nat → UInt8) : Memory where
  tables := m.tables
  bytes pa :=
    if memLoadAddr.toNat ≤ pa ∧ pa < memLoadAddr.toNat + bufSize.toNat then
      buf (pa - memLoadAddr.toNat)
    else m.bytes pa

/-- The end of `main`, with `count` bytes loaded; `none` is the error path. -/
def mapAndJump (L : Layout) (count : Int) (s : Elf32.State) : Except Fault (Option Jump) :=
  match Elf32.elf32Map L memLoadAddr s with
  | .error e => .error (.elf32 e)
  | .ok (jmpAddr, s') =>
      if jmpAddr = 0 then .ok none
      else match pagingVaddr2paddr L s'.mem jmpAddr with
        | none => .error .pageFault
        | some _ => .ok (some ⟨count, jmpAddr, s, s'⟩)

def loadAndJump (L : Layout) (d : Drive) (f : Fat16.Volume) (s : Elf32.State) :
    Except Fault (Option Jump) :=
  match Fat16.fat16GetFileSize d f filename with
  | .error e => .error (.fat16 e)
  | .ok _ =>
      match Fat16.fat16Load d f filename (s.mem.buffer L) bufSize with
      | .error e => .error (.fat16 e)
      | .ok (count, out) =>
          if -1 = count then .ok none
          else mapAndJump L count { s with mem := s.mem.withBuffer out.buf }

def main (L : Layout) (b : Boot) : Except Fault (Option Jump) :=
  if b.pitInit ≠ 0 then .ok none
  else
    let r := pagingInit L b.mem.tables
    if r.2 ≠ 0 then .ok none
    else
      let r' := pagingUnmap r.1 0
      if r'.2 ≠ 0 then .ok none
      else match b.hddInit with
        | none => .ok none
        | some d =>
            let f := Fat16.fat16Init d b.volume 0
            if f.2 ≠ 0 then .ok none
            else loadAndJump L d f.1 ⟨{ b.mem with tables := r'.1 }, b.strError, []⟩

/-! ### The state in which the image is mapped -/

def lowMemory : Set Nat := {pa | pa < 0x100000}

structure Layout.Low (L : Layout) : Prop where
  pageDir : L.pageDirAddr.toNat + 4096 ≤ 0x100000
  pageTables : L.pageTablesAddr.toNat + 5 * 4096 ≤ 0x100000

theorem memLoadAddr_toNat : memLoadAddr.toNat = 0x200000 := rfl

theorem bufSize_toNat : bufSize.toNat = 0x100000 := rfl

theorem Layout.Low.place {L : Layout} (h : L.Low) {pa : Nat} (hpa : 0x100000 ≤ pa) :
    L.place pa = .other := by
  have hdir := h.pageDir
  have htab := h.pageTables
  rw [Layout.place, if_neg (by omega), if_neg (by omega)]

theorem Layout.Low.own {L : Layout} (h : L.Low) (pa : Nat) (hpa : L.place pa ≠ .other) :
    pa ∈ lowMemory := by
  by_contra hlow
  exact hpa (h.place (Nat.not_lt.mp hlow))

/-- The paging that `main` sets up: the first 15 MiB without the first page. -/
def bootPages : PageMap := PageMap.identity.step (.unmap 0)

theorem bootPages_translate {va : UInt32} (hva : 4096 ≤ va.toNat) :
    bootPages.translate va =
      if va.toNat < 15 * 2 ^ 20 then some ⟨va.toNat, true⟩ else none := by
  have hpage : va.toNat / 4096 ≠ (0 : UInt32).toNat / 4096 := by
    rw [UInt32.toNat_zero]
    omega
  rw [PageMap.translate, bootPages, PageMap.step, if_pos (by decide),
    Function.update_of_ne hpage, PageMap.identity]
  by_cases hlt : va.toNat < 15 * 2 ^ 20
  · rw [if_pos (by omega), if_pos hlt, Option.map_some]
    congr 2
    exact Nat.div_add_mod _ _
  · rw [if_neg (by omega), if_neg hlt, Option.map_none]

/-- With the boot paging, the buffer is an image that nothing else leads to. -/
theorem guarded_of_represents {L : Layout} (hL : L.Low) {m : Memory}
    (hrep : Represents L m.tables bootPages) {len : Nat} (hlen : len ≤ bufSize.toNat) :
    Elf32.Guarded L lowMemory memLoadAddr len (m.buffer L) m := by
  have hload := memLoadAddr_toNat
  rw [bufSize_toNat] at hlen
  have htranslate : ∀ va : UInt32, 4096 ≤ va.toNat → va.toNat < 0xffc00000 →
      translate L m va = if va.toNat < 15 * 2 ^ 20 then some ⟨va.toNat, true⟩ else none := by
    intro va hlow hhigh
    rw [← bootPages_translate hlow]
    exact hrep.agrees m.bytes va hhigh
  refine ⟨hrep.1, ⟨by omega, fun pa hlo _ => hL.place (by omega), fun va hlo hhi => ?_,
    fun _ _ => rfl⟩, ?_⟩
  · rw [htranslate va (by omega) (by omega), if_pos (by omega)]
    rfl
  · intro va hhigh hown hout tr htr
    have hlow : 0x100000 ≤ va.toNat := Nat.not_lt.mp hown
    rw [htranslate va (by omega) hhigh] at htr
    split at htr
    · obtain rfl := Option.some.inj htr
      exact ⟨hL.place hlow, hout⟩
    · cases htr

theorem main_eq {L : Layout} {b : Boot} {t : Tables} {d : Drive} {f : Fat16.Volume}
    (hpit : b.pitInit = 0) (hinit : pagingInit L b.mem.tables = (t, 0))
    (hunmap : (pagingUnmap t 0).2 = 0) (hhdd : b.hddInit = some d)
    (hfat : Fat16.fat16Init d b.volume 0 = (f, 0)) :
    main L b = loadAndJump L d f
      ⟨{ b.mem with tables := (pagingUnmap t 0).1 }, b.strError, []⟩ := by
  unfold main
  simp only [hpit, hinit, hunmap, hhdd, hfat, ne_eq, not_true_eq_false, ↓reduceIte]

theorem main_cases {L : Layout} {b : Boot} {j : Jump} (h : main L b = .ok (some j)) :
    ∃ d f out buf, b.hddInit = some d ∧ Fat16.Mounted d f ∧
      Fat16.fat16Load d f filename buf bufSize = .ok (j.count, out) ∧ j.count ≠ -1 ∧
      Represents L j.loaded.mem.tables bootPages ∧ j.loaded.trace = [] ∧
      Elf32.elf32Map L memLoadAddr j.loaded = .ok (j.jmpAddr, j.mapped) ∧ j.jmpAddr ≠ 0 := by
  obtain ⟨t, ht, -⟩ := pagingInit_spec L b.mem.tables
  have hrep := ((represents_init ht).unmap (v := 0) rfl).1
  unfold main at h
  rw [ht] at h
  split at h
  · cases h
  dsimp only at h
  split at h
  · cases h
  split at h
  · cases h
  split at h
  · cases h
  next d hd =>
  split at h
  · cases h
  next hinit =>
  unfold loadAndJump at h
  split at h
  · cases h
  split at h
  · cases h
  next count out hload =>
  split at h
  · cases h
  next hcount =>
  unfold mapAndJump at h
  split at h
  · cases h
  next jmpAddr s' hmap =>
  split at h
  · cases h
  next hjmp =>
  split at h
  · cases h
  obtain rfl := Option.some.inj (Except.ok.inj h)
  have hmounted : Fat16.Mounted d (Fat16.fat16Init d b.volume 0).1 :=
    ⟨b.volume, 0, Prod.ext rfl (not_not.mp hinit)⟩
  exact ⟨d, _, out, _, hd, hmounted, hload, fun h => hcount h.symm, hrep, rfl, hmap, hjmp⟩

theorem main_count {L : Layout} {b : Boot} {j : Jump} (h : main L b = .ok (some j)) :
    j.count.toNat ≤ bufSize.toNat := by
  obtain ⟨d, f, out, buf, -, -, hload, hcount, -⟩ := main_cases h
  obtain ⟨de, -, hret⟩ := Fat16.fat16Load_count hload hcount
  have hmax : Fat16.loadMax de bufSize ≤ bufSize.toNat := Nat.min_le_right _ _
  rw [bufSize_toNat] at hmax ⊢
  rw [hret, Fat16.toSsize_of_lt (by omega), Int.toNat_natCast]
  exact hmax

/-- `main` jumps to a kernel of which `elf32_map` read only what was loaded,
when the tables and the segments of the image lie in what was loaded and no
page or frame of a segment holds a byte of it, of the first megabyte or of the
last 4 MiB. -/
theorem main_reads_loaded {L : Layout} (hL : L.Low) {b : Boot} {j : Jump}
    (hmain : main L b = .ok (some j))
    (hself : Elf32.SelfContained (j.loaded.mem.buffer L) j.count.toNat)
    (hclear : ∀ h ∈ Elf32.segments (j.loaded.mem.buffer L),
      Elf32.Clear lowMemory memLoadAddr j.count.toNat h)
    {va : UInt32} (hva : .load va ∈ j.mapped.trace) :
    memLoadAddr.toNat ≤ va.toNat ∧ va.toNat < memLoadAddr.toNat + j.count.toNat := by
  have hcount := main_count hmain
  have hload := memLoadAddr_toNat
  obtain ⟨d, f, out, buf, -, -, -, -, hrep, htrace, hmap, -⟩ := main_cases hmain
  have hg := guarded_of_represents hL hrep hcount
  rw [bufSize_toNat] at hcount
  obtain ⟨added, hadded, hin⟩ := Elf32.elf32Map_reads (by omega) hL.own hself hclear hg
    _ _ hmap
  rw [hadded, htrace, List.nil_append] at hva
  exact hin va hva

/-! ### A kernel on a small volume -/

def sampleContents (image : List UInt8) (k : Nat) : UInt8 := image.getD k 0

def sampleKernel (image : List UInt8) : Nat → Sector :=
  Fat16.sampleSectors 128 2 image.length fun n k => if n = 10 then sampleContents image k else 0

def sampleBoot (image : List UInt8) : Boot where
  mem := ⟨clearedTables, fun _ => 0⟩
  pitInit := 0
  hddInit := some (Fat16.sampleDrive (sampleKernel image))
  volume := Fat16.clearedVolume
  strError := .text ""

theorem sampleLayout_low : sampleLayout.Low := ⟨by decide, by decide⟩

theorem sampleKernel_roots (image : List UInt8) :
    (Fat16.sampleVolume (sampleKernel image)).vid.roots = 8 := by
  have hentries : (Fat16.sampleVolume (sampleKernel image)).vid.maxRootEntries = 128 := rfl
  have hspc : (Fat16.sampleVolume (sampleKernel image)).vid.sectorsPerCluster = 1 := rfl
  rw [Fat16.Vid.roots, Fat16.Vid.clusterSize, hentries, hspc]
  rfl

theorem sampleKernel_sector (image : List UInt8) :
    Fat16.fileSector (Fat16.sampleDrive (sampleKernel image))
      (Fat16.sampleVolume (sampleKernel image)) 2 0 = some (sampleContents image) := by
  have hcluster : Fat16.internal (Fat16.sampleVolume (sampleKernel image)) 2 = 10 := by
    rw [Fat16.internal, sampleKernel_roots]
    rfl
  rw [Fat16.fileSector, Nat.zero_div, Nat.zero_mod, Fat16.chain, Option.bind_some, hcluster]
  rfl

theorem sampleKernel_load {image : List UInt8} (hlen : image.length ≤ 512)
    (hfound : Fat16.foundAt (Fat16.sampleDrive (sampleKernel image))
      (Fat16.sampleVolume (sampleKernel image)) filename =
        some (2, UInt32.ofNat image.length)) :
    ∃ out, Fat16.fat16Load (Fat16.sampleDrive (sampleKernel image))
        (Fat16.sampleVolume (sampleKernel image)) filename (fun _ => 0) bufSize =
        .ok ((image.length : Int), out) ∧ out.buf = sampleContents image := by
  obtain ⟨de, hde, hc, hz⟩ := Fat16.found_of_foundAt hfound
  have hmax : Fat16.loadMax de bufSize = image.length := by
    rw [Fat16.loadMax, hz, bufSize_toNat, UInt32.toNat_ofNat']
    omega
  have hread : Fat16.Readable (Fat16.sampleDrive (sampleKernel image))
      (Fat16.sampleVolume (sampleKernel image)) de.startingCluster (Fat16.loadMax de bufSize) := by
    intro j hj
    rw [hmax, Fat16.sectorSize] at hj
    obtain rfl : j = 0 := by omega
    rw [hc, sampleKernel_sector]
    rfl
  obtain ⟨out, hload, hbuf, -⟩ := Fat16.fat16Load_readable (fun _ => 0) hde hread
  rw [hmax] at hload hbuf
  refine ⟨out, by rw [hload, Fat16.toSsize_of_lt (by omega)], funext fun k => ?_⟩
  rw [hbuf k]
  by_cases hk : k < image.length
  · rw [if_pos hk, Fat16.fileByte, hc, Nat.div_eq_of_lt (by rw [Fat16.sectorSize]; omega),
      sampleKernel_sector, Nat.mod_eq_of_lt (by rw [Fat16.sectorSize]; omega)]
  · rw [if_neg hk, sampleContents, List.getD_eq_default _ _ (Nat.not_lt.mp hk)]

/-- `main` jumps to a kernel on the small volume that can be mapped from the
cleared memory around it. -/
theorem main_jumps_sample (image : List UInt8) (hlen : image.length ≤ 512)
    (hfound : Fat16.foundAt (Fat16.sampleDrive (sampleKernel image))
      (Fat16.sampleVolume (sampleKernel image)) filename =
        some (2, UInt32.ofNat image.length))
    (hsup : Elf32.supported (sampleContents image) = true)
    (htable : (Elf32.wordAt (sampleContents image) 28).toNat +
      32 * (Elf32.halfAt (sampleContents image) 44).toNat ≤ 1024)
    (hentry : Elf32.wordAt (sampleContents image) 24 ≠ 0)
    (hsegs : ∀ h ∈ Elf32.segments (sampleContents image),
      Elf32.SegmentOk sampleLayout memLoadAddr 1024 h)
    (hapart : (Elf32.segments (sampleContents image)).Pairwise Elf32.Phdr.Apart)
    (htotal : Elf32.totalMemsz (Elf32.segments (sampleContents image)) ≤
      kernelMemszMax.toNat) :
    ∃ j, main sampleLayout (sampleBoot image) = .ok (some j) ∧ j.count = image.length ∧
      j.loaded.mem.buffer sampleLayout = sampleContents image := by
  obtain ⟨t, ht, -⟩ := pagingInit_spec sampleLayout clearedTables
  have hunmap := (represents_init ht).unmap (v := 0) rfl
  have hcode : (pagingUnmap t 0).2 = 0 := hunmap.2 (by decide)
  obtain ⟨out, hload, hbuf⟩ := sampleKernel_load hlen hfound
  obtain ⟨de, hde, -⟩ := Fat16.found_of_foundAt hfound
  have hclear : Memory.buffer sampleLayout ⟨(pagingUnmap t 0).1, fun _ => 0⟩ = fun _ => 0 :=
    funext fun k => Memory.load8_of_other _ _ (sampleLayout_low.place (by
      rw [memLoadAddr_toNat]
      omega))
  let s : Elf32.State :=
    ⟨Memory.withBuffer ⟨(pagingUnmap t 0).1, fun _ => 0⟩ out.buf, .text "", []⟩
  have hfile : s.mem.buffer sampleLayout = sampleContents image := by
    funext k
    rw [Memory.buffer, Memory.load8_of_other _ _ (sampleLayout_low.place (by
      rw [memLoadAddr_toNat]
      omega))]
    simp only [s, Memory.withBuffer, hbuf, Nat.add_sub_cancel_left]
    split
    · rfl
    · rw [sampleContents, List.getD_eq_default _ _ (by rw [bufSize_toNat] at *; omega)]
  have hmain : main sampleLayout (sampleBoot image) =
      mapAndJump sampleLayout image.length s := by
    have hsize : Fat16.fat16GetFileSize (Fat16.sampleDrive (sampleKernel image))
        (Fat16.sampleVolume (sampleKernel image)) filename =
        .ok (Fat16.toSsize de.size.toNat) := by
      rw [Fat16.fat16GetFileSize, hde]
      rfl
    have hlast : loadAndJump sampleLayout (Fat16.sampleDrive (sampleKernel image))
        (Fat16.sampleVolume (sampleKernel image))
        ⟨⟨(pagingUnmap t 0).1, fun _ => 0⟩, .text "", []⟩ =
        mapAndJump sampleLayout image.length s := by
      unfold loadAndJump
      rw [hsize]
      dsimp only
      rw [hclear, hload]
      dsimp only
      rw [if_neg (by omega)]
    rw [← hlast]
    exact main_eq (b := sampleBoot image) rfl ht hcode rfl rfl
  have hg := guarded_of_represents sampleLayout_low (m := s.mem) hunmap.1
    (show 1024 ≤ bufSize.toNat by decide)
  rw [hfile] at hg
  have hm : Elf32.Mappable sampleLayout s.mem memLoadAddr 1024 (sampleContents image) :=
    ⟨hg.image, by decide, htable, hsegs, hapart, htotal⟩
  obtain ⟨ok, s1, hs1, hok, -⟩ := Elf32.elf32IsSupported_wp hg.image (by decide) (by decide)
  obtain ⟨entry, s', hmap, rfl, hinv, -⟩ := Elf32.elf32Map_wp hg.inv hm
    ⟨true, s1, by rw [hs1, hok, hsup], rfl⟩
  obtain ⟨p, hp⟩ := Option.isSome_iff_exists.mp (pagingVaddr2paddr_isSome hinv
    (Elf32.wordAt (sampleContents image) 24))
  refine ⟨⟨image.length, Elf32.wordAt (sampleContents image) 24, s, s'⟩, ?_, rfl, hfile⟩
  rw [hmain, mapAndJump, hmap]
  dsimp only
  rw [if_neg hentry, hp]

theorem main_reads_loaded_sample :
    ∃ j, main sampleLayout (sampleBoot Elf32.sampleImage) = .ok (some j) ∧ j.count = 84 ∧
      ∀ va : UInt32, .load va ∈ j.mapped.trace → 0x200000 ≤ va.toNat ∧ va.toNat < 0x200054 := by
  have hsegs : Elf32.segments (sampleContents Elf32.sampleImage) = [Elf32.sampleSegment] :=
    Elf32.segments_sampleFile
  have hload := memLoadAddr_toNat
  have hpaddr : Elf32.sampleSegment.paddr.toNat = 0x400000 := rfl
  have hvaddr : Elf32.sampleSegment.vaddr.toNat = 0xc0000000 := rfl
  have hok : Elf32.SegmentOk sampleLayout memLoadAddr 1024 Elf32.sampleSegment :=
    { target := (Elf32.sample_segment.segmentOk sampleLayout_low.own).target
      filesz_le := by decide
      inFile := fun _ => by decide
      avoids := fun a hlo hhi => by
        have hround : Elf32.roundUp Elf32.sampleSegment.target.memsz = 4096 := rfl
        have hpa : Elf32.sampleSegment.target.paddr = 0x400000 := rfl
        have hva : Elf32.sampleSegment.target.vaddr = 0xc0000000 := rfl
        omega }
  obtain ⟨j, hmain, hcount, hfile⟩ := main_jumps_sample Elf32.sampleImage (by decide)
    (by decide) (by decide) (by decide) (by decide)
    (by rw [hsegs]; simpa using hok) (by rw [hsegs]; exact List.pairwise_singleton _ _)
    (by rw [hsegs]; decide)
  have hlen : j.count.toNat = 84 := by
    rw [hcount]
    rfl
  refine ⟨j, hmain, hcount, fun va hva => ?_⟩
  have hself : Elf32.SelfContained (j.loaded.mem.buffer sampleLayout) j.count.toNat := by
    rw [hfile, hlen]
    refine ⟨by decide, by decide, ?_⟩
    rw [hsegs]
    simp only [List.mem_singleton, forall_eq]
    decide
  have hclear : ∀ h ∈ Elf32.segments (j.loaded.mem.buffer sampleLayout),
      Elf32.Clear lowMemory memLoadAddr j.count.toNat h := by
    rw [hfile, hlen, hsegs]
    simp only [List.mem_singleton, forall_eq]
    intro k hk
    have hk : k < 2 := hk
    have hv : (Elf32.sampleSegment.vaddr + UInt32.ofNat k).toNat = 0xc0000000 + k := by
      rw [UInt32.toNat_add, hvaddr, UInt32.toNat_ofNat']
      omega
    have hp : (Elf32.sampleSegment.paddr + UInt32.ofNat k).toNat = 0x400000 + k := by
      rw [UInt32.toNat_add, hpaddr, UInt32.toNat_ofNat']
      omega
    refine ⟨fun a ha => ⟨by omega, fun hlow => ?_, fun himg => ?_⟩,
      fun a ha => ⟨fun hlow => ?_, fun himg => ?_⟩⟩
    · have : a < 0x100000 := hlow
      omega
    · have := himg.2
      omega
    · have : a < 0x100000 := hlow
      omega
    · have := himg.2
      omega
  have hreads := main_reads_loaded sampleLayout_low hmain hself hclear hva
  rwa [hlen] at hreads

/-- The first 52 bytes of the small image: an ELF header that announces a
program header behind the end of the file. -/
def sampleHeader : List UInt8 := Elf32.sampleImage.take 52

/-- `main` jumps to the kernel of 52 bytes, and `elf32_map` has read the byte
behind them. -/
theorem main_reads_beyond :
    ∃ j, main sampleLayout (sampleBoot sampleHeader) = .ok (some j) ∧
      ¬ ∀ va : UInt32, .load va ∈ j.mapped.trace →
        memLoadAddr.toNat ≤ va.toNat ∧ va.toNat < memLoadAddr.toNat + j.count.toNat := by
  have hsegs : Elf32.segments (sampleContents sampleHeader) = [] := by decide
  obtain ⟨j, hmain, hcount, hfile⟩ := main_jumps_sample sampleHeader (by decide)
    (by decide) (by decide) (by decide) (by decide) (by rw [hsegs]; simp)
    (by rw [hsegs]; exact .nil) (by rw [hsegs]; decide)
  refine ⟨j, hmain, fun hall => ?_⟩
  obtain ⟨-, -, -, -, -, -, -, -, hrep, -, hmap, hjmp⟩ := main_cases hmain
  have hg := guarded_of_represents sampleLayout_low hrep (show 1024 ≤ bufSize.toNat by decide)
  rw [hfile] at hg
  have hself : Elf32.SelfContained (sampleContents sampleHeader) 1024 :=
    ⟨by decide, by decide, by rw [hsegs]; simp⟩
  have hfetch := Elf32.elf32Map_fetches (by decide) sampleLayout_low.own hself
    (by rw [hsegs]; simp) (by decide) hg _ _ hmap hjmp
  obtain ⟨-, hlt⟩ := hall _ hfetch
  rw [hcount] at hlt
  exact absurd hlt (by decide)

end Kboot86
