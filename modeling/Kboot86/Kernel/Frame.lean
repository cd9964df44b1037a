import Kboot86.Foundation.Bitmap
import Kboot86.Foundation.Transition
import Mathlib.Data.Finset.Card
import Mathlib.Data.List.FinRange

/-!
# The frame allocator of the kernel

The functions of `frame.c`. Each bit of the bitmap stands for one frame of the
managed memory, from 2 MiB on. `frame_alloc` takes the first clear bit of the
first word that is not full and `frame_dealloc` clears the bit of an address.
-/

namespace Kboot86.Frame

def pageSize : UInt32 := (1 : UInt32) <<< 12

def paddrMin : UInt32 := (2 : UInt32) <<< 20

def paddrMax : UInt32 := ((14 : UInt32) <<< 20) - 1

def pmemAvail : UInt32 := paddrMax - paddrMin + 1

def framesAvail : Nat := (pmemAvail / pageSize).toNat

def len : Nat := framesAvail / 32

/-- The bitmap; a set bit is a frame in use. -/
abbrev Bitmap := Fin len → UInt32

def setBit (bitmap : UInt32) (bitNum : Nat) : UInt32 :=
  bitmap ||| (1 : UInt32) <<< UInt32.ofNat bitNum

def clearBit (bitmap : UInt32) (bitNum : Nat) : UInt32 :=
  bitmap &&& ~~~((1 : UInt32) <<< UInt32.ofNat bitNum)

def isBitSet (bitmap : UInt32) (bitNum : Nat) : Bool :=
  bitmap &&& (1 : UInt32) <<< UInt32.ofNat bitNum != 0

/-- The index of the lowest bit that is clear, `~0` when there is none. -/
def getClearBitNum (bitmap : UInt32) : Nat :=
  ((List.range 32).find? fun i => !isBitSet bitmap i).getD (2 ^ 32 - 1)

def hasFreeFrame (bitmap : UInt32) : Bool := bitmap != ~~~(0 : UInt32)

def idx2paddr (i j : Nat) : UInt32 := paddrMin + pageSize * UInt32.ofNat (32 * i + j)

/-- The code it returns, which is always 0, and the two indices. -/
def paddr2idx (paddr : UInt32) : Int × Nat × Nat :=
  let pageNum := ((paddr - paddrMin) / pageSize).toNat
  (0, pageNum / 32, pageNum % 32)

def frameAlloc (b : Bitmap) : Bitmap × UInt32 :=
  match (List.finRange len).find? fun i => hasFreeFrame (b i) with
  | some i =>
      let j := getClearBitNum (b i)
      (Function.update b i (setBit (b i) j), idx2paddr i j)
  | none => (b, 0)

def frameDealloc (b : Bitmap) (paddr : UInt32) : Bitmap × Int :=
  if paddr &&& 0x3ff ≠ 0 then (b, 1)
  else
    let r := paddr2idx paddr
    if r.1 ≠ 0 then (b, 1)
    else if h : r.2.1 < len then
      let i : Fin len := ⟨r.2.1, h⟩
      if !isBitSet (b i) r.2.2 then (b, 1)
      else (Function.update b i (clearBit (b i) r.2.2), 0)
    else (b, 1)

theorem framesAvail_eq : framesAvail = 3072 := rfl

theorem len_eq : len = 96 := rfl

/-! ### The bits of a word -/

theorem isBitSet_eq (w : UInt32) {j : Nat} (hj : j < 32) : isBitSet w j = wordBit w j :=
  and_one_shiftLeft_ne_zero w hj

theorem wordBit_setBit (w : UInt32) {j : Nat} (hj : j < 32) (k : Nat) :
    wordBit (setBit w j) k = (wordBit w k || decide (k = j)) := by
  rw [setBit, wordBit_or, wordBit_one_shiftLeft hj]

theorem wordBit_clearBit (w : UInt32) {j k : Nat} (hj : j < 32) (hk : k < 32) :
    wordBit (clearBit w j) k = (wordBit w k && !decide (k = j)) := by
  rw [clearBit, wordBit_and, wordBit_not _ hk, wordBit_one_shiftLeft hj]

theorem getClearBitNum_spec {w : UInt32} (h : hasFreeFrame w = true) :
    getClearBitNum w < 32 ∧ wordBit w (getClearBitNum w) = false ∧
      ∀ k < getClearBitNum w, wordBit w k = true := by
  obtain ⟨k, hk, hclear⟩ := (ne_full_iff w).mp (bne_iff_ne.mp h)
  cases hfind : (List.range 32).find? fun i => !isBitSet w i with
  | none =>
      have hnone := List.find?_eq_none.mp hfind k (List.mem_range.mpr hk)
      rw [isBitSet_eq w hk, hclear] at hnone
      exact absurd rfl hnone
  | some j =>
      have hj : getClearBitNum w = j := by rw [getClearBitNum, hfind, Option.getD_some]
      obtain ⟨hclear', hmem, hset⟩ := List.find?_range_eq_some.mp hfind
      have hj32 : j < 32 := List.mem_range.mp hmem
      rw [hj]
      refine ⟨hj32, ?_, fun k hk => ?_⟩
      · rwa [isBitSet_eq w hj32, Bool.not_eq_true'] at hclear'
      · have hk' := hset k hk
        rwa [isBitSet_eq w (by omega), Bool.not_not] at hk'

/-! ### The frames -/

def frameAddr (n : Nat) : UInt32 := idx2paddr (n / 32) (n % 32)

def frameNum (paddr : UInt32) : Nat := ((paddr - paddrMin) / pageSize).toNat

def frames : Finset UInt32 := (Finset.range framesAvail).image frameAddr

theorem frameAddr_toNat {n : Nat} (hn : n < 3072) :
    (frameAddr n).toNat = 2 * 2 ^ 20 + 4096 * n := by
  have hidx : 32 * (n / 32) + n % 32 = n := by omega
  rw [frameAddr, idx2paddr, hidx, UInt32.toNat_add, UInt32.toNat_mul, UInt32.toNat_ofNat',
    show paddrMin.toNat = 2097152 from rfl, show pageSize.toNat = 4096 from rfl]
  omega

theorem idx2paddr_eq (i : Nat) {j : Nat} (hj : j < 32) :
    idx2paddr i j = frameAddr (32 * i + j) := by
  have hdiv : (32 * i + j) / 32 = i := by omega
  have hmod : (32 * i + j) % 32 = j := by omega
  rw [frameAddr, hdiv, hmod]

theorem frameAddr_inj {m n : Nat} (hm : m < 3072) (hn : n < 3072) :
    frameAddr m = frameAddr n ↔ m = n := by
  rw [← UInt32.toNat_inj, frameAddr_toNat hm, frameAddr_toNat hn]
  omega

theorem frameNum_frameAddr {n : Nat} (hn : n < 3072) : frameNum (frameAddr n) = n := by
  have haddr := frameAddr_toNat hn
  rw [frameNum, UInt32.toNat_div, UInt32.toNat_sub, haddr,
    show paddrMin.toNat = 2097152 from rfl, show pageSize.toNat = 4096 from rfl]
  omega

theorem mem_frames_iff (p : UInt32) : p ∈ frames ↔ ∃ n < 3072, p = frameAddr n := by
  rw [frames, Finset.mem_image, framesAvail_eq]
  constructor
  · rintro ⟨n, hn, rfl⟩
    exact ⟨n, Finset.mem_range.mp hn, rfl⟩
  · rintro ⟨n, hn, rfl⟩
    exact ⟨n, Finset.mem_range.mpr hn, rfl⟩

/-- The frames are the multiples of 4096 in the 12 MiB from 2 MiB on. -/
theorem mem_frames_iff_range (p : UInt32) :
    p ∈ frames ↔ p.toNat % 4096 = 0 ∧ 2 * 2 ^ 20 ≤ p.toNat ∧ p.toNat < 14 * 2 ^ 20 := by
  rw [mem_frames_iff]
  constructor
  · rintro ⟨n, hn, rfl⟩
    rw [frameAddr_toNat hn]
    omega
  · intro hp
    have hn : (p.toNat - 2 * 2 ^ 20) / 4096 < 3072 := by omega
    refine ⟨(p.toNat - 2 * 2 ^ 20) / 4096, hn, ?_⟩
    rw [← UInt32.toNat_inj, frameAddr_toNat hn]
    omega

theorem card_frames : frames.card = 3072 := by
  have hinj : Set.InjOn frameAddr (Finset.range framesAvail : Finset Nat) := by
    intro m hm n hn heq
    rw [Finset.mem_coe, Finset.mem_range, framesAvail_eq] at hm hn
    exact (frameAddr_inj hm hn).mp heq
  rw [frames, Finset.card_image_of_injOn hinj, Finset.card_range, framesAvail_eq]

theorem ne_zero_of_mem_frames {p : UInt32} (hp : p ∈ frames) : p ≠ 0 := by
  rintro rfl
  have hrange := (mem_frames_iff_range 0).mp hp
  rw [UInt32.toNat_zero] at hrange
  omega

end Kboot86.Frame
