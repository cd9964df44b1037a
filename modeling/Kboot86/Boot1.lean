import Mathlib.Algebra.Order.Ring.Nat
import Mathlib.Data.UInt
import Mathlib.Logic.Function.Basic

/-!
# The second stage of the boot loader

`boot1.asm` reads the tracks of the loader one after the other to the memory
from `0x10000` on and moves them down to `0x7e00`. The number of tracks comes
from the size of the binary. The move is one `rep movsw` in 16-bit mode: it
counts in `CX` and addresses with `SI` and `DI`, so it stays within 64 KiB.
-/

namespace Kboot86.Boot1

/-! ### The build -/

def trackSize : Nat := 18 * 512

/-- `SIZE_IN_TRACKS` of the size of `boot2.bin`, as `gen-boot_config.pl` takes
it: not for 0. -/
def numTracksToLoad (size : Nat) : Option Nat :=
  let n := (size + (trackSize - 1)) / trackSize
  if n = 0 then none else some n

def blStage1Addr : Nat := 0x90000

def FitsBelow (n : Nat) : Prop := 0x10000 + n * trackSize ≤ blStage1Addr

instance (n : Nat) : Decidable (FitsBelow n) := Nat.decLe _ _

/-! ### Loading -/

/-- A byte-addressed physical memory, as what is loaded and moved changes it. The
variables and the stack of the stage that runs are kept apart from it. -/
abbrev Mem := Nat → UInt8

def phys (seg off : UInt16) : Nat := 16 * seg.toNat + off.toNat

abbrev Floppy := UInt8 → UInt8 → Nat → UInt8

/-- Function 2 of `int 0x13` for all sectors of a track; nothing if it fails. -/
abbrev Bios := UInt8 → UInt8 → Option (Nat → UInt8)

/-- The variables of `load_track`, which lie in the second stage, and the memory. -/
structure State where
  cylinderNum : UInt8
  headNum : UInt8
  bufSeg : UInt16
  bufOff : UInt16
  mem : Mem

def initial (mem : Mem) : State := ⟨0, 1, 0x1000, 0, mem⟩

def deliver (len : Nat) (data : Nat → UInt8) (base : Nat) (mem : Mem) : Mem := fun a =>
  if base ≤ a ∧ a < base + len then data (a - base) else mem a

/-- `load_track`; there is no state after an error, which hangs. -/
def loadTrack (bios : Bios) (s : State) : Option State :=
  match bios s.cylinderNum s.headNum with
  | none => none
  | some track =>
      let s : State := { s with mem := deliver trackSize track (phys s.bufSeg s.bufOff) s.mem }
      let s : State := { s with bufSeg := s.bufSeg + 576 }
      let s : State := if s.headNum = 1 then { s with cylinderNum := s.cylinderNum + 1 } else s
      some { s with headNum := 1 - s.headNum }

theorem sub_one_toNat_lt {ecx : UInt32} (h : ecx ≠ 0) : (ecx - 1).toNat < ecx.toNat := by
  have hne : ecx.toNat ≠ 0 := fun heq => h (UInt32.toNat_inj.mp heq)
  have hone : (1 : UInt32).toNat = 1 := rfl
  rw [UInt32.toNat_sub, hone]
  have hlt := ecx.toNat_lt
  omega

def callLoadTrackAgain (bios : Bios) (ecx : UInt32) (s : State) : Option State :=
  match loadTrack bios s with
  | none => none
  | some s' => if h : ecx - 1 = 0 then some s' else callLoadTrackAgain bios (ecx - 1) s'
termination_by (ecx - 1).toNat
decreasing_by exact sub_one_toNat_lt h

/-! ### Relocation -/

structure Move where
  si : UInt16
  di : UInt16
  mem : Mem

def movsw (ds es : UInt16) (s : Move) : Move where
  si := s.si + 2
  di := s.di + 2
  mem := Function.update (Function.update s.mem (phys es s.di) (s.mem (phys ds s.si)))
    (phys es (s.di + 1)) (s.mem (phys ds (s.si + 1)))

def repMovswTo (ds es : UInt16) : Nat → Move → Move
  | 0, s => s
  | n + 1, s => movsw ds es (repMovswTo ds es n s)

/-- The count that the code prepares in `ECX`. -/
def wordCount (numTracks : UInt32) : UInt32 :=
  let ecx := numTracks <<< 1
  let ecx := ecx + numTracks <<< 4
  ecx <<< 8

/-- The instruction counts in `CX`. -/
def relocate (numTracks : UInt32) (mem : Mem) : Mem :=
  (repMovswTo 0x1000 0x7e0 (wordCount numTracks).toUInt16.toNat ⟨0, 0, mem⟩).mem

def boot (bios : Bios) (n : Nat) (mem : Mem) : Option Mem :=
  (callLoadTrackAgain bios (UInt32.ofNat n) (initial mem)).map fun s =>
    relocate (UInt32.ofNat n) s.mem

/-! ### What is to be loaded -/

/-- Byte `k` of the floppy: head after head of one cylinder after the other. -/
def linear (floppy : Floppy) (k : Nat) : UInt8 :=
  floppy (UInt8.ofNat (k / trackSize / 2)) (UInt8.ofNat (k / trackSize % 2)) (k % trackSize)

def Delivers (bios : Bios) (floppy : Floppy) : Prop :=
  ∀ cyl head, bios cyl head = some (floppy cyl head)

/-- Whatever is on the floppy and in memory, the `n` tracks behind the first one
arrive at `0x7e00`. -/
def Relocates (n : Nat) : Prop :=
  ∀ bios floppy mem, Delivers bios floppy →
    ∃ mem', boot bios n mem = some mem' ∧
      ∀ i < n * trackSize, mem' (0x7e00 + i) = linear floppy (trackSize + i)

/-! ### The load loop -/

section

variable {bios : Bios} {floppy : Floppy} {s : State} {k : Nat}

/-- Before track `k` of those to be loaded: it is the next one, the segment
points behind the tracks before it, and these are in memory. -/
structure Loaded (floppy : Floppy) (k : Nat) (s : State) : Prop where
  cyl : s.cylinderNum.toNat = (k + 1) / 2
  head : s.headNum.toNat = (k + 1) % 2
  seg : s.bufSeg.toNat = 0x1000 + 576 * k
  off : s.bufOff = 0
  tracks : ∀ i < k * trackSize, s.mem (0x10000 + i) = linear floppy (trackSize + i)

theorem initial_loaded (floppy : Floppy) (mem : Mem) : Loaded floppy 0 (initial mem) where
  cyl := rfl
  head := rfl
  seg := rfl
  off := rfl
  tracks i hi := absurd hi (by omega)

theorem linear_track (floppy : Floppy) (T : Nat) {j : Nat} (hj : j < trackSize) :
    linear floppy (T * trackSize + j) = floppy (UInt8.ofNat (T / 2)) (UInt8.ofNat (T % 2)) j := by
  have hpos : 0 < trackSize := by decide
  have hdiv : (T * trackSize + j) / trackSize = T := by
    rw [Nat.mul_comm, Nat.mul_add_div hpos, Nat.div_eq_of_lt hj, Nat.add_zero]
  have hmod : (T * trackSize + j) % trackSize = j := by
    rw [Nat.mul_comm, Nat.mul_add_mod, Nat.mod_eq_of_lt hj]
  rw [linear, hdiv, hmod]

theorem loadTrack_eq (hbios : Delivers bios floppy) (s : State) :
    loadTrack bios s = some
      { cylinderNum := if s.headNum = 1 then s.cylinderNum + 1 else s.cylinderNum
        headNum := 1 - s.headNum
        bufSeg := s.bufSeg + 576
        bufOff := s.bufOff
        mem := deliver trackSize (floppy s.cylinderNum s.headNum)
          (phys s.bufSeg s.bufOff) s.mem } := by
  rw [loadTrack, hbios]
  dsimp only
  split <;> rfl

theorem loadTrack_loaded (hbios : Delivers bios floppy) (h : Loaded floppy k s) (hk : k < 56) :
    ∃ s', loadTrack bios s = some s' ∧ Loaded floppy (k + 1) s' := by
  have hcyl := h.cyl
  have hhead := h.head
  have hseg := h.seg
  have hone : (1 : UInt8).toNat = 1 := rfl
  have hstep : (576 : UInt16).toNat = 576 := rfl
  have hlen : trackSize = 9216 := rfl
  have hbase : phys s.bufSeg s.bufOff = 0x10000 + k * trackSize := by
    have hzero : (0 : UInt16).toNat = 0 := rfl
    rw [phys, h.off, hseg, hlen, hzero]
    omega
  have htrack : ∀ j < trackSize, floppy s.cylinderNum s.headNum j =
      linear floppy ((k + 1) * trackSize + j) := fun j hj => by
    rw [linear_track floppy (k + 1) hj, ← hcyl, ← hhead, UInt8.ofNat_toNat, UInt8.ofNat_toNat]
  rw [loadTrack_eq hbios]
  refine ⟨_, rfl, ?_, ?_, ?_, h.off, fun i hi => ?_⟩
  · dsimp only
    by_cases hodd : s.headNum = 1
    · have hval : s.headNum.toNat = 1 := congrArg UInt8.toNat hodd
      rw [if_pos hodd, UInt8.toNat_add, hone]
      omega
    · have hval : s.headNum.toNat ≠ 1 := fun heq => hodd (UInt8.toNat_inj.mp heq)
      rw [if_neg hodd]
      omega
  · dsimp only
    rw [UInt8.toNat_sub, hone]
    omega
  · dsimp only
    rw [UInt16.toNat_add, hstep]
    omega
  · have hmul : (k + 1) * trackSize = k * trackSize + trackSize := Nat.succ_mul k trackSize
    dsimp only
    rw [deliver, hbase]
    by_cases hnew : k * trackSize ≤ i
    · have hj : 0x10000 + i - (0x10000 + k * trackSize) = i - k * trackSize := by omega
      have hindex : (k + 1) * trackSize + (i - k * trackSize) = trackSize + i := by omega
      rw [if_pos (by omega), hj, htrack _ (by omega), hindex]
    · rw [if_neg (by omega)]
      exact h.tracks i (by omega)

theorem callLoadTrackAgain_succ {s' : State} (hload : loadTrack bios s = some s') {m : Nat}
    (hm : m < UInt32.size) :
    callLoadTrackAgain bios (UInt32.ofNat (m + 1)) s =
      if m = 0 then some s' else callLoadTrackAgain bios (UInt32.ofNat m) s' := by
  have hdec : UInt32.ofNat (m + 1) - 1 = UInt32.ofNat m := by
    rw [UInt32.ofNat_add]
    exact UInt32.add_sub_cancel _ _
  have hzero : UInt32.ofNat m = 0 ↔ m = 0 := by
    rw [← UInt32.toNat_inj, UInt32.toNat_ofNat_of_lt' hm, UInt32.toNat_zero]
  rw [callLoadTrackAgain, hload, hdec]
  dsimp only
  rw [dite_eq_ite]
  exact if_congr hzero rfl rfl

/-- The loop with `m` tracks to go. -/
theorem callLoadTrackAgain_loaded (hbios : Delivers bios floppy) {m : Nat}
    (hm : 0 < m) (h : Loaded floppy k s) (hk : k + m ≤ 56) :
    ∃ s', callLoadTrackAgain bios (UInt32.ofNat m) s = some s' ∧ Loaded floppy (k + m) s' := by
  induction m generalizing k s with
  | zero => omega
  | succ m ih =>
      obtain ⟨s₁, hload, hloaded⟩ := loadTrack_loaded hbios h (by omega)
      rw [callLoadTrackAgain_succ hload (by change m < 2 ^ 32; omega)]
      by_cases hlast : m = 0
      · subst hlast
        exact ⟨s₁, if_pos rfl, hloaded⟩
      · obtain ⟨s', hrun, hend⟩ := ih (Nat.pos_of_ne_zero hlast) hloaded (by omega)
        have hcount : k + 1 + m = k + (m + 1) := by omega
        rw [if_neg hlast]
        exact ⟨s', hrun, hcount ▸ hend⟩

/-! ### The move -/

structure Moved (mem : Mem) (n : Nat) (s : Move) : Prop where
  si : s.si.toNat = 2 * n
  di : s.di.toNat = 2 * n
  mem_eq : ∀ a, s.mem a = if 0x7e00 ≤ a ∧ a < 0x7e00 + 2 * n then mem (a + 0x8200) else mem a

theorem phys_src (off : UInt16) : phys 0x1000 off = 0x10000 + off.toNat := rfl

theorem phys_dst (off : UInt16) : phys 0x7e0 off = 0x7e00 + off.toNat := rfl

/-- A word is read where no iteration before has written: the destination lies
below the source. -/
theorem Moved.movsw {mem : Mem} {n : Nat} {s : Move} (h : Moved mem n s) (hn : 2 * n + 2 < 65536) :
    Moved mem (n + 1) (movsw 0x1000 0x7e0 s) := by
  have hsi := h.si
  have hdi := h.di
  have htwo : (2 : UInt16).toNat = 2 := rfl
  have hone : (1 : UInt16).toNat = 1 := rfl
  have hsi1 : (s.si + 1).toNat = 2 * n + 1 := by
    rw [UInt16.toNat_add, hone]
    omega
  have hdi1 : (s.di + 1).toNat = 2 * n + 1 := by
    rw [UInt16.toNat_add, hone]
    omega
  refine ⟨?_, ?_, fun a => ?_⟩
  · rw [Boot1.movsw, UInt16.toNat_add, htwo]
    omega
  · rw [Boot1.movsw, UInt16.toNat_add, htwo]
    omega
  · rw [Boot1.movsw]
    dsimp only
    rw [phys_src, phys_src, phys_dst, phys_dst, hsi, hdi, hsi1, hdi1, h.mem_eq, h.mem_eq,
      if_neg (by omega), if_neg (by omega)]
    by_cases hhigh : a = 0x7e00 + (2 * n + 1)
    · have hsrc : a + 0x8200 = 0x10000 + (2 * n + 1) := by omega
      rw [if_pos (by omega), hsrc, hhigh, Function.update_self]
    by_cases hlow : a = 0x7e00 + 2 * n
    · have hsrc : a + 0x8200 = 0x10000 + 2 * n := by omega
      rw [if_pos (by omega), hsrc, Function.update_of_ne hhigh, hlow, Function.update_self]
    · rw [Function.update_of_ne hhigh, Function.update_of_ne hlow, h.mem_eq]
      exact if_congr (by omega) rfl rfl

theorem repMovswTo_moved (mem : Mem) {n : Nat} (hn : 2 * n < 65536) :
    Moved mem n (repMovswTo 0x1000 0x7e0 n ⟨0, 0, mem⟩) := by
  induction n with
  | zero => exact ⟨rfl, rfl, fun a => (if_neg (by omega)).symm⟩
  | succ n ih => exact (ih (by omega)).movsw hn

/-- Nothing is written outside the 64 KiB of the segment. -/
theorem repMovswTo_frame (mem : Mem) (n : Nat) {a : Nat} (ha : 0x7e00 + 65536 ≤ a) :
    (repMovswTo 0x1000 0x7e0 n ⟨0, 0, mem⟩).mem a = mem a := by
  induction n with
  | zero => rfl
  | succ n ih =>
      have hin : ∀ off : UInt16, a ≠ phys 0x7e0 off := fun off => by
        have hlt := off.toNat_lt
        rw [phys_dst]
        omega
      rw [repMovswTo, movsw]
      dsimp only
      rw [Function.update_of_ne (hin _), Function.update_of_ne (hin _), ih]

theorem wordCount_toNat {n : Nat} (hn : n ≤ 56) :
    (wordCount (UInt32.ofNat n)).toNat = n * 4608 := by
  have hsize : UInt32.size = 4294967296 := rfl
  have hval : (UInt32.ofNat n).toNat = n := UInt32.toNat_ofNat_of_lt' (by omega)
  have h1 : (UInt32.ofNat n <<< 1).toNat = n * 2 := by
    rw [UInt32.toNat_shiftLeft, hval]
    change n <<< 1 % 4294967296 = _
    rw [Nat.shiftLeft_eq]
    omega
  have h4 : (UInt32.ofNat n <<< 4).toNat = n * 16 := by
    rw [UInt32.toNat_shiftLeft, hval]
    change n <<< 4 % 4294967296 = _
    rw [Nat.shiftLeft_eq]
    omega
  rw [wordCount, UInt32.toNat_shiftLeft, UInt32.toNat_add, h1, h4]
  change ((n * 2 + n * 16) % 4294967296) <<< 8 % 4294967296 = _
  rw [Nat.shiftLeft_eq]
  omega

end

/-- Up to 7 tracks the count and the offsets fit in 16 bits. -/
theorem relocates_of_le {n : Nat} (hpos : 0 < n) (hn : n ≤ 7) : Relocates n := by
  intro bios floppy mem hbios
  obtain ⟨s, hrun, hloaded⟩ :=
    callLoadTrackAgain_loaded hbios hpos (initial_loaded floppy mem) (by omega)
  rw [Nat.zero_add] at hloaded
  refine ⟨_, by rw [boot, hrun, Option.map_some], fun i hi => ?_⟩
  have hlen : trackSize = 9216 := rfl
  have hcount : (wordCount (UInt32.ofNat n)).toUInt16.toNat = n * 4608 := by
    rw [UInt32.toNat_toUInt16, wordCount_toNat (by omega)]
    omega
  have hin : 0x7e00 ≤ 0x7e00 + i ∧ 0x7e00 + i < 0x7e00 + 2 * (n * 4608) := by
    rw [hlen] at hi
    omega
  have hsrc : 0x7e00 + i + 0x8200 = 0x10000 + i := by omega
  rw [relocate, hcount, (repMovswTo_moved s.mem (by omega)).mem_eq, if_pos hin, hsrc]
  exact hloaded.tracks i hi

/-- A floppy whose tracks have a 1 in byte 1024 only. -/
def markedFloppy : Floppy := fun _ _ j => if j = 1024 then 1 else 0

/-- From 8 tracks on the byte at `0x17e00` is not moved any more. -/
theorem not_relocates_of_lt {n : Nat} (hn : 7 < n) (hfits : FitsBelow n) : ¬ Relocates n := by
  intro h
  have hlen : trackSize = 9216 := rfl
  have hmax : n ≤ 56 := by
    rw [FitsBelow, hlen, blStage1Addr] at hfits
    omega
  obtain ⟨mem', hboot, hright⟩ := h (fun cyl head => some (markedFloppy cyl head)) markedFloppy
    (fun _ => 0) fun _ _ => rfl
  have hbios : Delivers (fun cyl head => some (markedFloppy cyl head)) markedFloppy :=
    fun _ _ => rfl
  obtain ⟨s, hrun, hloaded⟩ := callLoadTrackAgain_loaded hbios (by omega)
    (initial_loaded markedFloppy fun _ => 0) (by omega : 0 + n ≤ 56)
  rw [Nat.zero_add] at hloaded
  rw [boot, hrun, Option.map_some] at hboot
  obtain rfl := Option.some.inj hboot
  have hbyte := hright 65536 (by rw [hlen]; omega)
  rw [relocate, repMovswTo_frame _ _ (by decide)] at hbyte
  have hold := hloaded.tracks 32256 (by rw [hlen]; omega)
  rw [hold] at hbyte
  exact absurd hbyte (by decide)

theorem numTracksToLoad_pos {size n : Nat} (h : numTracksToLoad size = some n) : 0 < n := by
  rw [numTracksToLoad] at h
  split at h
  · cases h
  · rename_i hne
    obtain rfl := Option.some.inj h
    exact Nat.pos_of_ne_zero hne

/-- The tracks arrive when there are at most 7. -/
theorem relocates_iff {size n : Nat} (hn : numTracksToLoad size = some n) (hfits : FitsBelow n) :
    Relocates n ↔ n ≤ 7 := by
  constructor
  · intro h
    by_contra hlt
    exact not_relocates_of_lt (by omega) hfits h
  · exact relocates_of_le (numTracksToLoad_pos hn)

theorem relocates_iff_seven : FitsBelow 7 ∧ (Relocates 7 ↔ 7 ≤ 7) :=
  ⟨by decide, relocates_iff (show numTracksToLoad 60000 = some 7 from rfl) (by decide)⟩

/-- A binary of 8 tracks. -/
theorem eight_tracks_not_relocated :
    numTracksToLoad 73728 = some 8 ∧ FitsBelow 8 ∧ ¬ Relocates 8 :=
  ⟨rfl, by decide, not_relocates_of_lt (by decide) (by decide)⟩

end Kboot86.Boot1
