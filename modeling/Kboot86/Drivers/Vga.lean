import Mathlib.Data.List.Basic
import Mathlib.Data.UInt

/-!
# The text screen

`vga.c`: the 16-bit cells at `BASE_ADDR`, indexed as `_mem` is, and the cursor
location that the CRT controller holds. The coordinates of every call of
`vga_writec_attr_xy` are kept in order; nothing reads them.
-/

namespace Kboot86

def vgaNumCols : Nat := 80
def vgaNumRows : Nat := 25

def attrGreenOnBlack : UInt8 := 0x0a
def attrWhiteOnBlue : UInt8 := 0x1f

structure Vga where
  mem : UInt16 → UInt16
  cursor : UInt16
  calls : List (UInt32 × UInt32)

namespace Vga

/-- `_xy2idx`, with the conversion of the result to `uint16_t`. -/
def xy2idx (col row : UInt32) : UInt16 := (row * UInt32.ofNat vgaNumCols + col).toUInt16

/-- The character is a `char`, so it is extended with its sign. -/
def encodeCharAttr (c attr : UInt8) : UInt16 := attr.toUInt16 <<< 8 ||| c.toInt8.toInt16.toUInt16

def vgaWritecAttrXy (v : Vga) (c attr : UInt8) (x y : UInt32) : Vga :=
  { v with
    mem := Function.update v.mem (xy2idx x y) (encodeCharAttr c attr)
    calls := v.calls ++ [(x, y)] }

def vgaDrawCursorXy (v : Vga) (x y : UInt32) : Vga := { v with cursor := xy2idx x y }

def clearRowTo (y : UInt32) : Nat → Vga → Vga
  | 0, v => v
  | n + 1, v => (v.clearRowTo y n).vgaWritecAttrXy 0x20 attrGreenOnBlack (UInt32.ofNat n) y

def vgaClearRow (v : Vga) (y : UInt32) : Vga := v.clearRowTo y vgaNumCols

def scrollTo : Nat → Vga → Vga
  | 0, v => v
  | n + 1, v =>
      let v := v.scrollTo n
      { v with
        mem := Function.update v.mem (UInt16.ofNat n) (v.mem (UInt16.ofNat (n + vgaNumCols))) }

def vgaScrollDown (v : Vga) : Vga :=
  (v.scrollTo (vgaNumCols * vgaNumRows - vgaNumCols)).vgaClearRow
    (UInt32.ofNat (vgaNumRows - 1))

def clearTo : Nat → Vga → Vga
  | 0, v => v
  | n + 1, v => (v.clearTo n).vgaClearRow (UInt32.ofNat n)

def vgaClear (v : Vga) : Vga := v.clearTo vgaNumRows

/-- The first `n` iterations of the inner loop of `vga_set_bsod`, down the
column `i`. -/
def bsodColumnTo (i : UInt32) : Nat → Vga → Vga
  | 0, v => v
  | n + 1, v =>
      let v := v.bsodColumnTo i n
      let idx := xy2idx i (UInt32.ofNat n)
      { v with
        mem := Function.update v.mem idx
          (encodeCharAttr (v.mem idx &&& 0xff).toUInt8 attrWhiteOnBlue) }

def bsodTo : Nat → Vga → Vga
  | 0, v => v
  | n + 1, v => (v.bsodTo n).bsodColumnTo (UInt32.ofNat n) vgaNumRows

def vgaSetBsod (v : Vga) : Vga := v.bsodTo vgaNumCols

/-! ### Which cells are written -/

def OnScreen (x y : UInt32) : Prop := x.toNat < vgaNumCols ∧ y.toNat < vgaNumRows

/-- Every call so far addressed a cell of the screen. -/
def Confined (v : Vga) : Prop := ∀ p ∈ v.calls, OnScreen p.1 p.2

theorem confined_writec (v : Vga) (c attr : UInt8) (x y : UInt32) :
    (v.vgaWritecAttrXy c attr x y).Confined ↔ v.Confined ∧ OnScreen x y := by
  simp only [Confined, vgaWritecAttrXy, List.mem_append, List.mem_singleton]
  constructor
  · intro h
    exact ⟨fun p hp => h p (.inl hp), h (x, y) (.inr rfl)⟩
  · rintro ⟨h, hxy⟩ p (hp | rfl)
    · exact h p hp
    · exact hxy

@[simp] theorem confined_drawCursor (v : Vga) (x y : UInt32) :
    (v.vgaDrawCursorXy x y).Confined ↔ v.Confined := Iff.rfl

theorem confined_clearRowTo {y : UInt32} (hy : y.toNat < vgaNumRows) (v : Vga) {n : Nat}
    (hn : n ≤ vgaNumCols) : (v.clearRowTo y n).Confined ↔ v.Confined := by
  induction n with
  | zero => exact Iff.rfl
  | succ n ih =>
      have hcols : vgaNumCols < UInt32.size := by decide
      have hx : (UInt32.ofNat n).toNat = n := UInt32.toNat_ofNat_of_lt' (by omega)
      have hon : OnScreen (UInt32.ofNat n) y := ⟨by omega, hy⟩
      rw [clearRowTo, confined_writec, ih (by omega)]
      exact and_iff_left hon

theorem confined_clearRow {y : UInt32} (hy : y.toNat < vgaNumRows) (v : Vga) :
    (v.vgaClearRow y).Confined ↔ v.Confined :=
  confined_clearRowTo hy v (Nat.le_refl _)

theorem scrollTo_calls (v : Vga) (n : Nat) : (v.scrollTo n).calls = v.calls := by
  induction n with
  | zero => rfl
  | succ n ih => exact ih

@[simp] theorem confined_scrollDown (v : Vga) : v.vgaScrollDown.Confined ↔ v.Confined := by
  rw [vgaScrollDown, confined_clearRow (by decide), Confined, scrollTo_calls, Confined]

theorem confined_clearTo (v : Vga) {n : Nat} (hn : n ≤ vgaNumRows) :
    (v.clearTo n).Confined ↔ v.Confined := by
  induction n with
  | zero => exact Iff.rfl
  | succ n ih =>
      have hrows : vgaNumRows < UInt32.size := by decide
      have hy : (UInt32.ofNat n).toNat = n := UInt32.toNat_ofNat_of_lt' (by omega)
      rw [clearTo, confined_clearRow (by omega), ih (by omega)]

@[simp] theorem confined_clear (v : Vga) : v.vgaClear.Confined ↔ v.Confined :=
  confined_clearTo v (Nat.le_refl _)

end Vga

end Kboot86
