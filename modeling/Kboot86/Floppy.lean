import Kboot86.Boot0

/-!
# The floppy image

The build puts the stages of the loader one behind the other, and pads the
first track and the floppy. The sectors and the tracks that `boot0.asm` and
`boot1.asm` read are then those of the next stage.
-/

namespace Kboot86.Floppy

open Boot0 (Int13 Reads)
open Boot1 (Mem Floppy Bios Delivers trackSize numTracksToLoad linear)

/-! ### The build -/

def numTracks : Nat := 80 * 2

def floppySize : Nat := numTracks * trackSize

def times (n : Nat) (code : List UInt8) : Option (List UInt8) :=
  if code.length ≤ n then some (code ++ List.replicate (n - code.length) 0) else none

def boot0Bin (code : List UInt8) : Option (List UInt8) :=
  (times 510 code).map (· ++ [0x55, 0xaa])

def boot1Bin (code : List UInt8) : Option (List UInt8) := times 4096 code

/-- `dd` of one block of zeroes, whose size may not be 0. -/
def dd (bs : Int) : Option (List UInt8) :=
  if 0 < bs then some (List.replicate bs.toNat 0) else none

def kboot86Bin (boot0 boot1 boot2 : List UInt8) : Option (List UInt8) :=
  (dd (trackSize - (boot0.length + boot1.length : Nat))).map fun track0Pad =>
    boot0 ++ boot1 ++ track0Pad ++ boot2

def floppyPad (size : Nat) : Option (List UInt8) :=
  if size ≤ floppySize then dd (floppySize - size) else none

def checkImageSize (image : List UInt8) : Option (List UInt8) :=
  if image.length = floppySize then some image else none

/-- The code of the stages; that of the second is assembled for a number of
tracks. -/
structure Stages where
  boot0 : List UInt8
  boot1 : Nat → List UInt8
  boot2 : List UInt8

def floppyImg (stages : Stages) : Option (List UInt8) := do
  let n ← numTracksToLoad stages.boot2.length
  let boot0 ← boot0Bin stages.boot0
  let boot1 ← boot1Bin (stages.boot1 n)
  let kboot86 ← kboot86Bin boot0 boot1 stages.boot2
  let pad ← floppyPad kboot86.length
  checkImageSize (kboot86 ++ pad)

/-! ### The layout -/

section

variable {stages : Stages} {image : List UInt8} {n : Nat}

theorem times_eq_some {code bin : List UInt8} (h : times n code = some bin) :
    code.length ≤ n ∧ bin.length = n := by
  rw [times] at h
  split at h
  · rename_i hle
    obtain rfl := Option.some.inj h
    refine ⟨hle, ?_⟩
    rw [List.length_append, List.length_replicate]
    omega
  · cases h

theorem boot0Bin_length {code bin : List UInt8} (h : boot0Bin code = some bin) :
    bin.length = 512 := by
  rw [boot0Bin, Option.map_eq_some_iff] at h
  obtain ⟨padded, htimes, rfl⟩ := h
  rw [List.length_append, (times_eq_some htimes).2]
  rfl

theorem kboot86Bin_eq {boot0 boot1 : List UInt8} (h0 : boot0.length = 512)
    (h1 : boot1.length = 4096) (boot2 : List UInt8) :
    kboot86Bin boot0 boot1 boot2 =
      some (boot0 ++ boot1 ++ List.replicate 4608 0 ++ boot2) := by
  rw [kboot86Bin, h0, h1, dd, if_pos (by decide), Option.map_some]
  rfl

theorem firstTrack_length {boot0 boot1 : List UInt8} (h0 : boot0.length = 512)
    (h1 : boot1.length = 4096) :
    (boot0 ++ boot1 ++ List.replicate 4608 0).length = trackSize := by
  rw [List.length_append, List.length_append, h0, h1, List.length_replicate]
  rfl

structure Layout (stages : Stages) (n : Nat) (boot1 image : List UInt8) : Prop where
  boot1_eq : boot1Bin (stages.boot1 n) = some boot1
  second : ∀ i < 4096, image[512 + i]? = boot1[i]?
  third : ∀ i < stages.boot2.length, image[trackSize + i]? = stages.boot2[i]?
  fits : trackSize + stages.boot2.length < floppySize

theorem getElem?_middle (a b c : List UInt8) {i : Nat} (hi : i < b.length) :
    (a ++ (b ++ c))[a.length + i]? = b[i]? := by
  rw [List.getElem?_append_right (Nat.le_add_right _ _), Nat.add_sub_cancel_left,
    List.getElem?_append_left hi]

theorem floppyPad_some {size : Nat} {pad : List UInt8} (h : floppyPad size = some pad) :
    size < floppySize := by
  rw [floppyPad, dd] at h
  split at h
  · split at h
    · rename_i hpos
      omega
    · cases h
  · cases h

theorem floppyImg_layout (himg : floppyImg stages = some image)
    (hn : numTracksToLoad stages.boot2.length = some n) :
    ∃ boot1, Layout stages n boot1 image := by
  simp only [floppyImg, hn, Option.bind_eq_bind, Option.bind_some, Option.bind_eq_some_iff] at himg
  obtain ⟨boot0, h0, boot1, h1, kboot86, hk, pad, hpad, hcheck⟩ := himg
  have hlen0 : boot0.length = 512 := boot0Bin_length h0
  have hlen1 : boot1.length = 4096 := (times_eq_some h1).2
  rw [kboot86Bin_eq hlen0 hlen1] at hk
  obtain rfl := Option.some.inj hk
  rw [checkImageSize] at hcheck
  split at hcheck
  · obtain rfl := Option.some.inj hcheck
    have hfirst := firstTrack_length hlen0 hlen1
    have hsize := floppyPad_some hpad
    refine ⟨boot1, h1, fun i hi => ?_, fun i hi => ?_, ?_⟩
    · rw [← hlen0, List.append_assoc, List.append_assoc, List.append_assoc]
      exact getElem?_middle _ _ _ (by omega)
    · rw [← hfirst, List.append_assoc]
      exact getElem?_middle _ _ _ hi
    · rw [List.length_append, hfirst] at hsize
      exact hsize
  · cases hcheck

/-! ### The tracks of the image -/

def floppy (image : List UInt8) : Floppy := fun cyl head j =>
  image.getD ((cyl.toNat * 2 + head.toNat) * trackSize + j) 0

/-- The request of `boot1.asm` for all sectors of a track. -/
def wholeTrack (int13 : Int13) : Bios := fun cyl head => int13 18 cyl 1 head

theorem linear_floppy (image : List UInt8) {k : Nat} (hk : k < floppySize) :
    linear (floppy image) k = image.getD k 0 := by
  have hcyl : k / trackSize / 2 < 80 := by
    rw [Nat.div_div_eq_div_mul]
    exact Nat.div_lt_of_lt_mul hk
  have hhead : k / trackSize % 2 < 2 := Nat.mod_lt _ (by decide)
  have htrack : k / trackSize / 2 * 2 + k / trackSize % 2 = k / trackSize := by omega
  have hbyte : k / trackSize * trackSize + k % trackSize = k := by
    rw [Nat.mul_comm]
    exact Nat.div_add_mod k trackSize
  rw [linear, floppy, UInt8.toNat_ofNat_of_lt' (by change _ < 256; omega),
    UInt8.toNat_ofNat_of_lt' (by change _ < 256; omega), htrack, hbyte]

theorem wholeTrack_eq {int13 : Int13} {disk : Floppy} (hbios : Reads int13 disk) {cyl head : UInt8}
    (hcyl : cyl < 80) (hhead : head < 2) :
    wholeTrack int13 cyl head = some (disk cyl head) := by
  rw [wholeTrack, hbios 18 cyl 1 head (by decide) hcyl hhead (by decide) (by decide)]
  exact congrArg some (funext fun j => congrArg (disk cyl head) (Nat.zero_add j))

end

/-! ### The second stage from the disk -/

section

variable {int13 : Int13} {disk : Floppy} {s : Boot1.State} {k : Nat}

/-- A BIOS that delivers every track, also those that no floppy has. -/
def everyTrack (disk : Floppy) : Bios := fun cyl head => some (disk cyl head)

theorem everyTrack_delivers (disk : Floppy) : Delivers (everyTrack disk) disk := fun _ _ => rfl

theorem loadTrack_wholeTrack (hbios : Reads int13 disk) (h : Boot1.Loaded disk k s) (hk : k < 56) :
    Boot1.loadTrack (wholeTrack int13) s = Boot1.loadTrack (everyTrack disk) s := by
  have hcyl : s.cylinderNum < 80 := UInt8.lt_iff_toNat_lt.mpr (by
    rw [h.cyl]
    change _ < 80
    omega)
  have hhead : s.headNum < 2 := UInt8.lt_iff_toNat_lt.mpr (by
    rw [h.head]
    exact Nat.mod_lt _ (by decide))
  rw [Boot1.loadTrack, wholeTrack_eq hbios hcyl hhead]
  rfl

/-- The loop only asks for tracks of the floppy. -/
theorem callLoadTrackAgain_wholeTrack (hbios : Reads int13 disk) {m : Nat}
    (h : Boot1.Loaded disk k s) (hk : k + m ≤ 56) (hm : 0 < m) :
    Boot1.callLoadTrackAgain (wholeTrack int13) (UInt32.ofNat m) s =
      Boot1.callLoadTrackAgain (everyTrack disk) (UInt32.ofNat m) s := by
  induction m generalizing k s with
  | zero => omega
  | succ m ih =>
      obtain ⟨s₁, hload, hloaded⟩ :=
        Boot1.loadTrack_loaded (everyTrack_delivers disk) h (by omega)
      have hsize : m < UInt32.size := by
        change m < 2 ^ 32
        omega
      have hwhole := loadTrack_wholeTrack hbios h (by omega)
      rw [Boot1.callLoadTrackAgain_succ (hwhole.trans hload) hsize,
        Boot1.callLoadTrackAgain_succ hload hsize]
      split
      · rfl
      · exact ih hloaded (by omega) (by omega)

theorem callLoadTrackAgain_frame {m : Nat} {s' : Boot1.State} (h : Boot1.Loaded disk k s)
    (hk : k + m ≤ 56) (hm : 0 < m)
    (hrun : Boot1.callLoadTrackAgain (everyTrack disk) (UInt32.ofNat m) s = some s') {a : Nat}
    (ha : 0x10000 + (k + m) * trackSize ≤ a) : s'.mem a = s.mem a := by
  induction m generalizing k s with
  | zero => omega
  | succ m ih =>
      obtain ⟨s₁, hload, hloaded⟩ :=
        Boot1.loadTrack_loaded (everyTrack_delivers disk) h (by omega)
      have hlen : trackSize = 9216 := rfl
      have hbase : Boot1.phys s.bufSeg s.bufOff = 0x10000 + k * trackSize := by
        have hzero : (0 : UInt16).toNat = 0 := rfl
        rw [Boot1.phys, h.off, h.seg, hlen, hzero]
        omega
      have hmem : s₁.mem a = s.mem a := by
        rw [Boot1.loadTrack_eq (everyTrack_delivers disk)] at hload
        obtain rfl := Option.some.inj hload
        dsimp only
        rw [Boot1.deliver, hbase, if_neg]
        rw [hlen] at ha ⊢
        omega
      rw [Boot1.callLoadTrackAgain_succ hload (by change m < 2 ^ 32; omega)] at hrun
      split at hrun
      · obtain rfl := Option.some.inj hrun
        exact hmem
      · have hcount : k + 1 + m = k + (m + 1) := by omega
        rw [ih hloaded (by omega) (by omega) hrun (hcount ▸ ha), hmem]

theorem relocate_frame {n : Nat} (hn : n ≤ 7) (mem : Mem) {a : Nat}
    (ha : 0x7e00 + n * trackSize ≤ a) :
    Boot1.relocate (UInt32.ofNat n) mem a = mem a := by
  have hlen : trackSize = 9216 := rfl
  have hcount : (Boot1.wordCount (UInt32.ofNat n)).toUInt16.toNat = n * 4608 := by
    rw [UInt32.toNat_toUInt16, Boot1.wordCount_toNat (by omega)]
    omega
  rw [hlen] at ha
  rw [Boot1.relocate, hcount, (Boot1.repMovswTo_moved mem (by omega)).mem_eq, if_neg (by omega)]

/-- The second stage moves the tracks behind the first to `0x7e00`, and writes
nothing between the tracks that it has loaded and itself. -/
theorem boot_wholeTrack (hbios : Reads int13 disk) {n : Nat} (hpos : 0 < n) (hn : n ≤ 7)
    (mem : Mem) :
    ∃ mem', Boot1.boot (wholeTrack int13) n mem = some mem' ∧
      (∀ i < n * trackSize, mem' (0x7e00 + i) = linear disk (trackSize + i)) ∧
      ∀ a, 0x10000 + n * trackSize ≤ a → a < 0x90000 → mem' a = mem a := by
  have hstart : Boot1.Loaded disk 0 (Boot1.initial mem) := Boot1.initial_loaded disk mem
  obtain ⟨mem', hboot, hmoved⟩ :=
    Boot1.relocates_of_le hpos hn (everyTrack disk) disk mem (everyTrack_delivers disk)
  have hsame : Boot1.boot (wholeTrack int13) n mem = Boot1.boot (everyTrack disk) n mem := by
    rw [Boot1.boot, Boot1.boot, callLoadTrackAgain_wholeTrack hbios hstart (by omega) hpos]
  refine ⟨mem', hsame.trans hboot, hmoved, fun a ha _ => ?_⟩
  rw [Boot1.boot, Option.map_eq_some_iff] at hboot
  obtain ⟨s, hrun, rfl⟩ := hboot
  rw [relocate_frame hn s.mem (by omega)]
  exact callLoadTrackAgain_frame hstart (by omega) hpos hrun (by rwa [Nat.zero_add])

end

/-! ### From the build to the third stage -/

section

variable {stages : Stages} {image : List UInt8} {n : Nat}

/-- An image is built when the first two stages fit in their sectors and the
third one leaves a byte of the floppy for the padding. -/
theorem floppyImg_isSome_iff : (floppyImg stages).isSome ↔
    ∃ n, numTracksToLoad stages.boot2.length = some n ∧ stages.boot0.length ≤ 510 ∧
      (stages.boot1 n).length ≤ 4096 ∧ trackSize + stages.boot2.length < floppySize := by
  constructor
  · intro h
    obtain ⟨image, himg⟩ := Option.isSome_iff_exists.mp h
    have hparts := himg
    simp only [floppyImg, Option.bind_eq_bind, Option.bind_eq_some_iff] at hparts
    obtain ⟨n, hn, boot0, h0, boot1, h1, -⟩ := hparts
    rw [boot0Bin, Option.map_eq_some_iff] at h0
    obtain ⟨padded, htimes, -⟩ := h0
    obtain ⟨_, hlayout⟩ := floppyImg_layout himg hn
    exact ⟨n, hn, (times_eq_some htimes).1, (times_eq_some h1).1, hlayout.fits⟩
  · rintro ⟨n, hn, h0, h1, hfits⟩
    have htimes0 : times 510 stages.boot0 = some _ := if_pos h0
    have htimes1 : times 4096 (stages.boot1 n) = some _ := if_pos h1
    have hbin0 : boot0Bin stages.boot0 = some _ := congrArg (Option.map _) htimes0
    have hfirst := firstTrack_length (boot0Bin_length hbin0) (times_eq_some htimes1).2
    have hpad : floppyPad (trackSize + stages.boot2.length) = some _ :=
      (if_pos hfits.le).trans (if_pos (by omega))
    simp only [floppyImg, hn, hbin0, boot1Bin, htimes1, Option.bind_eq_bind, Option.bind_some,
      kboot86Bin_eq (boot0Bin_length hbin0) (times_eq_some htimes1).2]
    rw [List.length_append, hfirst, hpad, Option.bind_some, checkImageSize, if_pos]
    · rfl
    · rw [List.length_append, List.length_append, hfirst, List.length_replicate]
      omega

theorem le_numTracksToLoad {size : Nat} (hn : numTracksToLoad size = some n) :
    size ≤ n * trackSize := by
  have hlen : trackSize = 9216 := rfl
  rw [numTracksToLoad] at hn
  split at hn
  · cases hn
  · have heq := Option.some.inj hn
    rw [hlen] at heq ⊢
    omega

def Holds (mem : Mem) (base : Nat) (bytes : List UInt8) : Prop :=
  ∀ i, ∀ h : i < bytes.length, mem (base + i) = bytes[i]

/-- The first stage loads the second, and the second the third; the memory
between the tracks that were loaded and the second stage is as it was. -/
def Boots (stages : Stages) (n : Nat) (int13 : Int13) (mem : Mem) : Prop :=
  ∃ boot1 s mem', boot1Bin (stages.boot1 n) = some boot1 ∧
    Boot0.repeatSectorRead int13 (Boot0.initial mem) = some s ∧ Holds s.mem 0x90000 boot1 ∧
    Boot1.boot (wholeTrack int13) n s.mem = some mem' ∧
    Holds mem' 0x7e00 stages.boot2 ∧
    ∀ a, 0x10000 + n * trackSize ≤ a → a < 0x90000 → mem' a = mem a

theorem Layout.holds_boot1 {boot1 : List UInt8} (h : Layout stages n boot1 image) {mem : Mem}
    {s : Boot0.State} (hs : Boot0.Loaded (floppy image) mem 8 s) :
    Holds s.mem 0x90000 boot1 := by
  intro i hi
  have hlen : boot1.length = 4096 := (times_eq_some h.boot1_eq).2
  have hsector : Boot0.sectorSize = 512 := rfl
  have hzero : ((0 : UInt8).toNat * 2 + (0 : UInt8).toNat) * trackSize + (512 + i) = 512 + i :=
    Nat.zero_add _
  rw [hs.sectors i (by omega), floppy, hsector, hzero, List.getD_eq_getElem?_getD,
    h.second i (by omega), List.getElem?_eq_getElem hi, Option.getD_some]

theorem Layout.holds_boot2 {boot1 : List UInt8} (h : Layout stages n boot1 image) {mem : Mem}
    (hn : numTracksToLoad stages.boot2.length = some n)
    (hmoved : ∀ i < n * trackSize, mem (0x7e00 + i) = linear (floppy image) (trackSize + i)) :
    Holds mem 0x7e00 stages.boot2 := by
  intro i hi
  have hsize := le_numTracksToLoad hn
  have hfits := h.fits
  rw [hmoved i (by omega), linear_floppy image (by omega), List.getD_eq_getElem?_getD,
    h.third i hi, List.getElem?_eq_getElem hi, Option.getD_some]

/-- A built image boots when the third stage has at most 7 tracks. -/
theorem floppyImg_boots (himg : floppyImg stages = some image)
    (hn : numTracksToLoad stages.boot2.length = some n) (hseven : n ≤ 7) {int13 : Int13}
    (hbios : Reads int13 (floppy image)) (mem : Mem) : Boots stages n int13 mem := by
  obtain ⟨boot1, hlayout⟩ := floppyImg_layout himg hn
  obtain ⟨s, hfirst, hloaded⟩ :=
    Boot0.repeatSectorRead_loaded hbios 7 (Boot0.initial_loaded (floppy image) mem) rfl
  obtain ⟨mem', hsecond, hmoved, hframe⟩ :=
    boot_wholeTrack hbios (Boot1.numTracksToLoad_pos hn) hseven s.mem
  refine ⟨boot1, s, mem', hlayout.boot1_eq, hfirst, hlayout.holds_boot1 hloaded, hsecond,
    hlayout.holds_boot2 hn hmoved, fun a ha hbelow => ?_⟩
  rw [hframe a ha hbelow, hloaded.rest a (by omega) hbelow]

/-- A BIOS that reads sectors of a track, and fails for all else. -/
def ofDisk (disk : Floppy) : Int13 := fun al ch cl dh =>
  if 0 < al ∧ ch < 80 ∧ dh < 2 ∧ 0 < cl ∧ cl.toNat + al.toNat ≤ 19 then
    some fun j => disk ch dh ((cl.toNat - 1) * Boot0.sectorSize + j)
  else none

theorem ofDisk_reads (disk : Floppy) : Reads (ofDisk disk) disk :=
  fun _ _ _ _ hal hch hdh hcl hsum => if_pos ⟨hal, hch, hdh, hcl, hsum⟩

def smallStages : Stages := ⟨[0xea], fun n => [0xea, UInt8.ofNat n], [1, 2, 3]⟩

theorem floppyImg_boots_small : ∃ image, floppyImg smallStages = some image ∧
    Boots smallStages 1 (ofDisk (floppy image)) fun _ => 0 := by
  have htracks : numTracksToLoad 3 = some 1 := rfl
  have hbuilt : (floppyImg smallStages).isSome :=
    floppyImg_isSome_iff.mpr ⟨1, htracks, by decide, by decide, by decide⟩
  obtain ⟨image, himg⟩ := Option.isSome_iff_exists.mp hbuilt
  exact ⟨image, himg, floppyImg_boots himg htracks (by decide) (ofDisk_reads _) fun _ => 0⟩

end

end Kboot86.Floppy
