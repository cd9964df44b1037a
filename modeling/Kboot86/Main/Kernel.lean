import Kboot86.Drivers.Ata.Drive
import Kboot86.Drivers.Fat16.File
import Kboot86.Drivers.Hdd.Image
import Kboot86.Drivers.Pit
import Kboot86.Lib.Elf32.Paged
import Kboot86.Main

/-!
# The kernel on a disk

What the sectors of a disk must hold for the loader to start a kernel from
them: a partition table, a FAT16 volume on the first partition, `kernel.elf` on
the volume, and an executable in the file. From every such disk `main` jumps to
the entry point, and at the addresses that the executable asks for the kernel
finds its segments.
-/

namespace Kboot86

open Elf32 (Loaded segments totalMemsz wordAt halfAt)

/-! ### The disk -/

/-- An executable of `len` bytes that `elf32_map` can map from the buffer. -/
structure KernelFile (len : Nat) (file : Nat → UInt8) : Prop where
  supported : Elf32.supported file = true
  header : 52 ≤ len
  table : (wordAt file 28).toNat + 32 * (halfAt file 44).toNat ≤ len
  entry : wordAt file 24 ≠ 0
  segment : ∀ h ∈ segments file, Elf32.BootableSegment lowMemory memLoadAddr len h
  apart : (segments file).Pairwise Elf32.Phdr.Apart
  total : totalMemsz (segments file) ≤ kernelMemszMax.toNat

def firstPartition (image : Nat → Sector) : Mbr.PartitionEntry := Mbr.partition (image 0) 0

def firstVid (image : Nat → Sector) : Fat16.Vid :=
  Fat16.initVid Fat16.clearedVolume.vid (Hdd.partitionSectors image 0 0)

structure KernelDisk (image : Nat → Sector) (numSectors len : Nat) (file : Nat → UInt8) :
    Prop where
  accepted : Mbr.Accepted (image 0) 0
  inside : (firstPartition image).firstLba.toNat + (firstPartition image).numSectors.toNat ≤
    numSectors
  volume : Fat16.HoldsFile (firstVid image) (Hdd.partitionSectors image 0)
    (firstPartition image).numSectors.toNat filename len file
  fits : len ≤ bufSize.toNat
  kernel : KernelFile len file

/-! ### The start -/

/-- `pit_init` returns 1 when the frequency is refused. -/
def pitInit : Int := if (Pit.setFreqHz 40 []).2 ≠ 0 then 1 else 0

/-- What `main` finds on a machine with the drive, whatever is in memory. -/
def bootFrom (dev : Ata.Device) (mem : Memory) : Boot where
  mem := mem
  pitInit := pitInit
  hddInit :=
    match hddInit dev Hdd.zero with
    | .ok (s, 0) => some (s.drive dev)
    | _ => none
  volume := Fat16.clearedVolume
  strError := .text ""

/-- The kernel is in place: its segments hold what the file says at the addresses
that the file says, and all other pages up to 15 MiB are mapped to themselves
except the first one, which is not mapped. Behind its pointer to the destination
`elf32_map` has changed nothing else since the file was loaded. -/
structure Started (L : Layout) (file : Nat → UInt8) (loaded mapped : Memory) : Prop where
  segment : ∀ h ∈ segments file, ∀ k < h.memsz.toNat, ∀ va : UInt32,
    va.toNat = h.vaddr.toNat + k →
      ∃ tr, translate L mapped va = some tr ∧ tr.writable = h.target.writable ∧
        mapped.load8 L tr.paddr = h.content file k
  otherPages : ∀ va : UInt32, va.toNat < 0xffc00000 →
    (∀ h ∈ segments file, ¬ h.Covers va.toNat) →
      translate L mapped va =
        if 4096 ≤ va.toNat ∧ va.toNat < 15 * 2 ^ 20 then some ⟨va.toNat, true⟩ else none
  otherBytes : ∀ pa, L.place pa = .other → (∀ h ∈ segments file, ¬ h.Holds pa) →
    mapped.load8 L pa = loaded.load8 L pa

section

variable {L : Layout} {dev : Ata.Device} {id : Ata.IdData} {image : Nat → Sector} {len : Nat}
  {file : Nat → UInt8} {m m' : Memory}

theorem bootPages_translate_eq (va : UInt32) :
    bootPages.translate va =
      if 4096 ≤ va.toNat ∧ va.toNat < 15 * 2 ^ 20 then some ⟨va.toNat, true⟩ else none := by
  by_cases hva : 4096 ≤ va.toNat
  · rw [bootPages_translate hva]
    exact if_congr (and_iff_right hva).symm rfl rfl
  · have hpage : va.toNat / 4096 = (0 : UInt32).toNat / 4096 := by
      rw [UInt32.toNat_zero]
      omega
    rw [if_neg fun h => hva h.1, PageMap.translate, bootPages, PageMap.step, if_pos (by decide),
      hpage, Function.update_self]
    rfl

theorem imageAt_buffer (hL : L.Low) (hrep : Represents L m.tables bootPages)
    (hlen : len ≤ bufSize.toNat) (hfile : ∀ k < len, m.buffer L k = file k) :
    Elf32.ImageAt L m memLoadAddr len file :=
  have himage := (guarded_of_represents hL hrep hlen).image
  ⟨himage.fits, himage.place, himage.ident, hfile⟩

theorem KernelFile.mappable (hk : KernelFile len file) (hL : L.Low)
    (himg : Elf32.ImageAt L m memLoadAddr len file) :
    Elf32.Mappable L m memLoadAddr len file where
  image := himg
  header := hk.header
  table := hk.table
  mappable h hh := (hk.segment h hh).segmentOk hL.own
  apart := hk.apart
  total := hk.total

/-- Loaded segments, on the paging that `main` has set up, are the kernel in
place. -/
theorem started_of_loaded (hrep : Represents L m.tables bootPages)
    (hloaded : Loaded L file (segments file) m m') : Started L file m m' where
  segment h hh k hlt va hva :=
    ⟨_, hloaded.maps h hh k va hlt hva, rfl, hloaded.bytes h hh k hlt⟩
  otherPages va hva hnot := by
    rw [hloaded.otherPages va hva hnot, ← bootPages_translate_eq]
    exact hrep.agrees m.bytes va hva
  otherBytes := hloaded.otherBytes

/-! ### From the disk to the jump -/

/-- The tables are in place on the paging that `main` has set up, which leaves
out the first page. -/
theorem inPlace_of_represents (hL : L.Low) (hdir : L.pageDirAddr ≠ 0)
    (hrep : Represents L m.tables bootPages) (v : UInt32) : Elf32.InPlace L m.tables v where
  tables a ha := by
    have hpages : 4096 ≤ a.toNat ∧ a.toNat < 0x100000 := by
      have haligned := ha.aligned
      rcases ha with rfl | ⟨-, rfl⟩
      · have hend := hL.pageDir
        have hne : L.pageDirAddr.toNat ≠ 0 := fun h => hdir (UInt32.toNat_inj.mp h)
        omega
      · have hend := hL.pageTables
        have hpos := L.pageTables_ne_null
        have hbase := L.pageTables_aligned
        have htable := L.tableAddr_toNat (tableIdx2ArrayIdx (vaddr2pdIdx v))
        rw [Layout.tableOf]
        omega
    have htr := hrep.agrees m.bytes a (by omega)
    rw [bootPages_translate_eq, if_pos (by omega)] at htr
    exact hrep.1.toTablesInv.leads_of_translate (by omega) ha.aligned htr
  own himpl := hrep.1.toTablesInv.ownTable himpl

/-- The file in the buffer is mapped, and its entry point is jumped to. -/
theorem KernelFile.mapAndJump_eq (hk : KernelFile len file) {s : Elf32.State}
    (hrep : Represents L s.mem.tables bootPages) (hL : L.Low)
    (himg : Elf32.ImageAt L s.mem memLoadAddr len file) (count : Int) :
    ∃ s', mapAndJump L count s = .ok (some ⟨count, wordAt file 24, s, s'⟩) ∧
      (L.pageDirAddr ≠ 0 → Elf32.elf32MapPaged L memLoadAddr s = .ok (wordAt file 24, s')) ∧
      Loaded L file (segments file) s.mem s'.mem := by
  obtain ⟨ok, s1, hs1, hok, -⟩ := Elf32.elf32IsSupported_wp himg hk.header (by decide)
  have hsup : Elf32.elf32IsSupported L memLoadAddr s = .ok (true, s1) := by
    rw [hs1, hok, hk.supported]
  have hmappable := hk.mappable hL himg
  obtain ⟨entry, s', hmap, rfl, hinv, hloaded⟩ :=
    Elf32.elf32Map_wp hrep.1 hmappable ⟨true, s1, hsup, rfl⟩
  obtain ⟨p, hp⟩ := Option.isSome_iff_exists.mp (pagingVaddr2paddr_isSome hinv (wordAt file 24))
  refine ⟨s', ?_, fun hdir => ?_, hloaded⟩
  · rw [mapAndJump, hmap]
    dsimp only
    rw [if_neg hk.entry, hp]
  · rw [hmappable.elf32MapPaged_eq hrep.1 ⟨true, s1, hsup, rfl⟩
      (inPlace_of_represents hL hdir hrep)
      fun h hh => (hk.segment h hh).sparesTables hL.own, hmap]

/-- A file that the volume holds is loaded into the buffer and started. -/
theorem KernelFile.loadAndJump_eq (hk : KernelFile len file) (hL : L.Low) {d : Drive}
    {f : Fat16.Volume} {part : Nat → Sector} (hloc : f.Located) (hreads : Fat16.Reads d f part)
    (hvolume : Fat16.HoldsFile f.vid part (d.partitionEntry f.partitionNum).numSecs.toNat filename
      len file) (hfits : len ≤ bufSize.toNat) (hrep : Represents L m.tables bootPages)
    (e : Elf32.StrError) :
    ∃ j, loadAndJump L d f ⟨m, e, []⟩ = .ok (some j) ∧ j.count = len ∧
      j.jmpAddr = wordAt file 24 ∧ Started L file j.loaded.mem j.mapped.mem ∧
      (L.pageDirAddr ≠ 0 →
        Elf32.elf32MapPaged L memLoadAddr j.loaded = .ok (j.jmpAddr, j.mapped)) := by
  have hbuf := bufSize_toNat
  have hload := memLoadAddr_toNat
  obtain ⟨hsize, out, hfile, hbytes⟩ := hvolume.loads hloc hreads hfits (by omega) (m.buffer L)
  let s : Elf32.State := ⟨m.withBuffer out.buf, e, []⟩
  have himg : Elf32.ImageAt L s.mem memLoadAddr len file := by
    refine imageAt_buffer hL hrep hfits fun k hk => ?_
    rw [Memory.buffer, Memory.load8_of_other _ _ (hL.place (by omega)), ← hbytes k hk]
    simp only [s, Memory.withBuffer, Nat.add_sub_cancel_left]
    exact if_pos (by omega)
  obtain ⟨s', hjump, hpaged, hloaded⟩ := hk.mapAndJump_eq (s := s) hrep hL himg len
  refine ⟨⟨len, wordAt file 24, s, s'⟩, ?_, rfl, rfl, started_of_loaded hrep hloaded, hpaged⟩
  unfold loadAndJump
  rw [hsize]
  dsimp only
  rw [hfile]
  dsimp only
  rw [if_neg (by omega)]
  exact hjump

theorem KernelDisk.numSectors_pos {n : Nat} (h : KernelDisk image n len file) :
    0 < (firstPartition image).numSectors.toNat := by
  obtain ⟨i, c, hfile⟩ := h.volume.found
  have hheader := h.kernel.header
  have hin := hfile.chain.inside 0 (by rw [hfile.size]; omega)
  have hspc := h.volume.spc
  omega

theorem KernelDisk.fat16Init_eq (h : KernelDisk image id.numSectors.toNat len file)
    (hdisk : Ata.Presents dev id image) (hid : id.Addressable) :
    ∃ f, Fat16.fat16Init ((Hdd.ofImage id image).drive dev) Fat16.clearedVolume 0 = (f, 0) ∧
      f.partitionNum = 0 ∧ f.vid = firstVid image := by
  have hreads := Hdd.reads_ofImage hdisk hid (f := Fat16.clearedVolume) h.accepted h.inside
  have hentry := Hdd.partitionEntry_ofImage dev id (n := 0) h.accepted
  have hpos := h.numSectors_pos
  have hread : Fat16.readSector ((Hdd.ofImage id image).drive dev) Fat16.clearedVolume 0 =
      some (Hdd.partitionSectors image 0 0) := by
    have hlt : (0 : UInt32) < (((Hdd.ofImage id image).drive dev).partitionEntry
        Fat16.clearedVolume.partitionNum).numSecs := by
      rw [UInt32.lt_iff_toNat_lt]
      exact hentry.2.2 ▸ hpos
    rw [Fat16.readSector, hreads.hddReadSector_eq, if_pos hlt]
    rfl
  obtain ⟨hcode, hpart, hvid⟩ := Fat16.fat16Init_of_read (by decide : 0 < 4) hread
  exact ⟨_, Prod.ext rfl hcode, hpart, hvid⟩

/-- From every disk with a kernel, on a drive of any geometry that the driver
can address and with anything in memory, `main` starts the kernel. It makes no
difference that `paging_map` finds the tables through the pages on which they
are mapped, as long as they are not on the first one. -/
theorem main_starts (hL : L.Low) (hdisk : Ata.Presents dev id image) (hid : id.Addressable)
    (hk : KernelDisk image id.numSectors.toNat len file) (mem : Memory) :
    ∃ j, main L (bootFrom dev mem) = .ok (some j) ∧ j.count = len ∧
      j.jmpAddr = wordAt file 24 ∧ Started L file j.loaded.mem j.mapped.mem ∧
      (L.pageDirAddr ≠ 0 →
        Elf32.elf32MapPaged L memLoadAddr j.loaded = .ok (j.jmpAddr, j.mapped)) := by
  obtain ⟨t, ht, -⟩ := pagingInit_spec L mem.tables
  have hunmap := (represents_init ht).unmap (v := 0) rfl
  have hcode : (pagingUnmap t 0).2 = 0 := hunmap.2 (by decide)
  have hpos : 0 < id.numSectors := by
    have hnum := hk.numSectors_pos
    have hin := hk.inside
    rw [UInt32.lt_iff_toNat_lt, UInt32.toNat_zero]
    omega
  have hhdd : (bootFrom dev mem).hddInit = some ((Hdd.ofImage id image).drive dev) := by
    rw [bootFrom, Hdd.hddInit_image hdisk hid hpos]
    rfl
  obtain ⟨f, hinit, hpart, hvid⟩ := hk.fat16Init_eq hdisk hid
  have hreads : Fat16.Reads ((Hdd.ofImage id image).drive dev) f
      (Hdd.partitionSectors image 0) := by
    have hacc : Mbr.Accepted (image 0) f.partitionNum.val := by
      rw [hpart]
      exact hk.accepted
    have hall := Hdd.reads_ofImage hdisk hid hacc (by rw [hpart]; exact hk.inside)
    rwa [hpart] at hall
  have hvolume : Fat16.HoldsFile f.vid (Hdd.partitionSectors image 0)
      (((Hdd.ofImage id image).drive dev).partitionEntry f.partitionNum).numSecs.toNat
      filename len file := by
    rw [hvid, hpart, (Hdd.partitionEntry_ofImage dev id hk.accepted).2.2]
    exact hk.volume
  obtain ⟨j, hjump, hrest⟩ := hk.kernel.loadAndJump_eq
    (m := { mem with tables := (pagingUnmap t 0).1 }) hL (Fat16.Mounted.located ⟨_, _, hinit⟩)
    hreads hvolume hk.fits hunmap.1 (.text "")
  exact ⟨j, (main_eq rfl ht hcode hhdd hinit).trans hjump, hrest⟩

end

/-! ### A small disk -/

def sampleDisk : Nat → Sector
  | 0 => fun k => if k = 454 then 1 else if k = 458 then 0xe8 else if k = 459 then 3 else 0
  | r + 1 => sampleKernel Elf32.sampleImage r

def sampleHardware : Ata.Disk where
  identify i := if i = 57 then 1008 else if i = 1 then 1 else if i = 3 then 16
    else if i = 6 then 63 else 0
  readSector regs := some (sampleDisk (regs.lba ⟨true, 1008, 1, 16, 63⟩))
  resetWait := 2
  wordWait _ _ := 1

theorem sampleHardware_presents :
    Ata.Presents (Ata.Drive.device sampleHardware) ⟨true, 1008, 1, 16, 63⟩ sampleDisk :=
  ⟨rfl, fun _ _ _ _ _ => rfl⟩

theorem sampleDisk_isFile : Fat16.IsFile (firstVid sampleDisk) (Hdd.partitionSectors sampleDisk 0)
    1000 filename 0 (fun _ => 2) 84 Elf32.sampleFile where
  entry := ⟨by decide, fun j hj => by
    obtain rfl := Nat.le_zero.mp hj
    decide, by decide, by decide, by decide⟩
  first j hj := absurd hj (Nat.not_lt_zero j)
  size := by decide
  chain :=
    { start := by decide
      data := fun _ _ => by decide
      inside := fun _ _ => by decide
      link := fun k hk => by
        have hcluster : (firstVid sampleDisk).clusterSize = 512 := by decide
        have hsize : (Fat16.rootEntry (firstVid sampleDisk) (Hdd.partitionSectors sampleDisk 0)
          0).size.toNat = 84 := by decide
        rw [hcluster, hsize] at hk
        omega }
  bytes k hk := by
    have hcluster : (firstVid sampleDisk).clusterSize = 512 := by decide
    have hsector : Fat16.dataSector (firstVid sampleDisk) 2 0 = 10 := by decide
    rw [hcluster, Fat16.sectorSize, Nat.mod_eq_of_lt (by omega : k < 512),
      Nat.div_eq_of_lt (by omega : k < 512), hsector]
    rfl

theorem sampleDisk_kernel : KernelDisk sampleDisk 1008 84 Elf32.sampleFile where
  accepted := ⟨by decide, fun h => by
    obtain ⟨j, hj, -⟩ := h.2
    exact absurd hj (Nat.not_lt_zero j)⟩
  inside := by decide
  volume := ⟨by decide, by decide, by decide, .inl (by decide), 0, _, sampleDisk_isFile⟩
  fits := by decide
  kernel :=
    { supported := by decide
      header := by decide
      table := by decide
      entry := by decide
      segment := by
        rw [Elf32.segments_sampleFile]
        rintro h hh
        obtain rfl := List.mem_singleton.mp hh
        exact Elf32.sample_segment
      apart := by
        rw [Elf32.segments_sampleFile]
        exact List.pairwise_singleton _ _
      total := by decide }

theorem main_starts_sample :
    ∃ j, main sampleLayout (bootFrom (Ata.Drive.device sampleHardware)
        ⟨clearedTables, fun _ => 0⟩) = .ok (some j) ∧
      j.count = (84 : Nat) ∧ j.jmpAddr = wordAt Elf32.sampleFile 24 ∧
        Started sampleLayout Elf32.sampleFile j.loaded.mem j.mapped.mem ∧
        Elf32.elf32MapPaged sampleLayout memLoadAddr j.loaded = .ok (j.jmpAddr, j.mapped) := by
  obtain ⟨j, hmain, hcount, haddr, hstarted, hpaged⟩ := main_starts sampleLayout_low
    sampleHardware_presents ⟨by decide, by decide, by decide⟩ sampleDisk_kernel
    ⟨clearedTables, fun _ => 0⟩
  exact ⟨j, hmain, hcount, haddr, hstarted, hpaged (by decide)⟩

end Kboot86
