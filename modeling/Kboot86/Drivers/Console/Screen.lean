import Kboot86.Drivers.Console.Cursor
import Kboot86.Foundation.Page

/-!
# The screen as the end of a page

The screen shows the last rows of a page without end: what the console writes
goes to the position of the cursor there, and scrolling begins a new row.
-/

namespace Kboot86

namespace Vga

def blankCell : UInt16 := encodeCharAttr 0x20 attrGreenOnBlack

/-- The character is the low byte of its cell, whatever its sign. -/
theorem encodeCharAttr_toUInt8 (c attr : UInt8) : (encodeCharAttr c attr).toUInt8 = c := by
  rw [encodeCharAttr, ← UInt8.toBitVec_inj]
  ext i hi
  have hlt : i < 16 := by omega
  simp [BitVec.getElem_signExtend, hi, hlt]

theorem xy2idx_toNat {x y : UInt32} (h : OnScreen x y) :
    (xy2idx x y).toNat = y.toNat * vgaNumCols + x.toNat := by
  obtain ⟨hx, hy⟩ := h
  have hcols : (UInt32.ofNat vgaNumCols).toNat = 80 := rfl
  rw [vgaNumCols] at hx ⊢
  rw [vgaNumRows] at hy
  rw [xy2idx, UInt32.toNat_toUInt16, UInt32.toNat_add, UInt32.toNat_mul, hcols]
  omega

theorem mem_writec {x y : UInt32} (h : OnScreen x y) (v : Vga) (c attr : UInt8) (i : UInt16) :
    (v.vgaWritecAttrXy c attr x y).mem i =
      if i.toNat = y.toNat * vgaNumCols + x.toNat then encodeCharAttr c attr else v.mem i := by
  rw [vgaWritecAttrXy]
  dsimp only
  by_cases hi : i = xy2idx x y
  · rw [hi, Function.update_self, if_pos (xy2idx_toNat h)]
  · have hne : i.toNat ≠ y.toNat * vgaNumCols + x.toNat := fun heq =>
      hi (UInt16.toNat_inj.mp (heq.trans (xy2idx_toNat h).symm))
    rw [Function.update_of_ne hi, if_neg hne]

theorem mem_clearRowTo {y : UInt32} (hy : y.toNat < vgaNumRows) (v : Vga) {n : Nat}
    (hn : n ≤ vgaNumCols) (i : UInt16) :
    (v.clearRowTo y n).mem i =
      if y.toNat * vgaNumCols ≤ i.toNat ∧ i.toNat < y.toNat * vgaNumCols + n then blankCell
      else v.mem i := by
  induction n with
  | zero => rw [if_neg (by omega), clearRowTo]
  | succ n ih =>
      have hcols : vgaNumCols < UInt32.size := by decide
      have hx : (UInt32.ofNat n).toNat = n := UInt32.toNat_ofNat_of_lt' (by omega)
      have hon : OnScreen (UInt32.ofNat n) y := ⟨by omega, hy⟩
      rw [clearRowTo, mem_writec hon, ih (by omega), hx]
      by_cases hi : i.toNat = y.toNat * vgaNumCols + n
      · rw [if_pos hi, if_pos (by omega), blankCell]
      · rw [if_neg hi]
        by_cases hin : y.toNat * vgaNumCols ≤ i.toNat ∧ i.toNat < y.toNat * vgaNumCols + n
        · rw [if_pos hin, if_pos (by omega)]
        · rw [if_neg hin, if_neg (by omega)]

theorem mem_scrollTo (v : Vga) {n : Nat} (hn : n ≤ 1920) (i : UInt16) :
    (v.scrollTo n).mem i =
      if i.toNat < n then v.mem (UInt16.ofNat (i.toNat + vgaNumCols)) else v.mem i := by
  induction n generalizing i with
  | zero => rw [if_neg (Nat.not_lt_zero _), scrollTo]
  | succ n ih =>
      have hsize : UInt16.size = 65536 := rfl
      have hval : (UInt16.ofNat n).toNat = n := UInt16.toNat_ofNat_of_lt' (by omega)
      have hsrc : (UInt16.ofNat (n + vgaNumCols)).toNat = n + vgaNumCols := by
        rw [vgaNumCols]
        exact UInt16.toNat_ofNat_of_lt' (by omega)
      rw [scrollTo]
      dsimp only
      by_cases hi : i = UInt16.ofNat n
      · rw [hi, Function.update_self, ih (by omega), hsrc, if_neg (by omega), hval,
          if_pos (Nat.lt_succ_self n)]
      · have hne : i.toNat ≠ n := fun heq => hi (UInt16.toNat_inj.mp (heq.trans hval.symm))
        rw [Function.update_of_ne hi, ih (by omega)]
        by_cases hin : i.toNat < n
        · rw [if_pos hin, if_pos (by omega)]
        · rw [if_neg hin, if_neg (by omega)]

/-- Scrolling moves every row up by one and blanks the last. -/
theorem mem_scrollDown (v : Vga) (i : UInt16) :
    v.vgaScrollDown.mem i =
      if i.toNat < 1920 then v.mem (UInt16.ofNat (i.toNat + 80))
      else if i.toNat < 2000 then blankCell else v.mem i := by
  have hcols : vgaNumCols = 80 := rfl
  have hlast : (UInt32.ofNat (vgaNumRows - 1)).toNat * vgaNumCols = 1920 := rfl
  have hcount : vgaNumCols * vgaNumRows - vgaNumCols = 1920 := rfl
  rw [vgaScrollDown, vgaClearRow, mem_clearRowTo (by decide) _ (Nat.le_refl _), hlast, hcount,
    mem_scrollTo v (Nat.le_refl _), hcols]
  by_cases hup : i.toNat < 1920
  · have hnot : ¬ (1920 ≤ i.toNat ∧ i.toNat < 1920 + 80) := by omega
    rw [if_neg hnot, if_pos hup, if_pos hup]
  · rw [if_neg hup, if_neg hup]
    exact if_congr (by omega) rfl rfl

end Vga

namespace Console

open Vga

def charAt (s : Console) (j : Nat) : UInt8 := (s.vga.mem (UInt16.ofNat j)).toUInt8

/-- The screen is the window on the last 25 rows of the page, and the cursor is
at the position of the page. -/
structure Shows (s : Console) (p : Page UInt8) : Prop where
  inRange : s.InRange
  rows : vgaNumRows ≤ p.rows
  pos : p.pos = vgaNumCols * (p.rows - vgaNumRows) + s.pos
  cells : ∀ j < vgaNumRows * vgaNumCols, s.charAt j = p.window vgaNumCols vgaNumRows j
  blank : p.BlankBelow vgaNumCols 0x20

def screenPage (s : Console) : Page UInt8 where
  cells j := if j < vgaNumRows * vgaNumCols then s.charAt j else 0x20
  rows := vgaNumRows
  pos := s.pos

/-- The cursor moves to cell `t` of the screen, or behind the last cell, which
scrolls. -/
def Advances (s s' : Console) (t : Nat) : Prop :=
  (t < vgaNumRows * vgaNumCols ∧ s'.pos = t ∧ s'.vga = s.vga) ∨
    (t = vgaNumRows * vgaNumCols ∧ s'.pos = t - vgaNumCols ∧ s'.vga = s.vga.vgaScrollDown)

section

variable {s s' : Console} {p : Page UInt8}

theorem charAt_of_vga (h : s'.vga = s.vga) (j : Nat) : s'.charAt j = s.charAt j := by
  rw [charAt, charAt, h]

theorem charAt_scrollDown (h : s'.vga = s.vga.vgaScrollDown) {j : Nat}
    (hj : j < vgaNumRows * vgaNumCols) :
    s'.charAt j = if j < 1920 then s.charAt (j + 80) else 0x20 := by
  have hlt : j < 2000 := hj
  have hval : (UInt16.ofNat j).toNat = j := UInt16.toNat_ofNat_of_lt' (show j < 65536 by omega)
  rw [charAt, h, mem_scrollDown, hval]
  by_cases hup : j < 1920
  · rw [if_pos hup, if_pos hup, charAt]
  · rw [if_neg hup, if_neg hup, if_pos hlt, blankCell, encodeCharAttr_toUInt8]

theorem shows_screenPage (hs : s.InRange) : Shows s s.screenPage where
  inRange := hs
  rows := Nat.le_refl _
  pos := by
    rw [screenPage, Nat.sub_self, Nat.mul_zero, Nat.zero_add]
  cells j hj := by
    rw [Page.window, screenPage, Nat.sub_self, Nat.mul_zero, Nat.zero_add]
    exact (if_pos hj).symm
  blank j hj := by
    rw [screenPage] at hj ⊢
    dsimp only at hj ⊢
    rw [if_neg (by rw [Nat.mul_comm]; exact Nat.not_lt.mpr hj)]

theorem Shows.pos_lt (h : Shows s p) : p.pos < vgaNumCols * p.rows := by
  have hrows : 25 ≤ p.rows := h.rows
  have hlt : s.pos < 2000 := Console.pos_lt h.inRange
  have hpos : p.pos = 80 * (p.rows - 25) + s.pos := h.pos
  change p.pos < 80 * p.rows
  omega

theorem Shows.drawCursor (h : Shows s p) : Shows s.drawCursor p :=
  ⟨h.inRange, h.rows, h.pos, h.cells, h.blank⟩

theorem Shows.congr (h : Shows s p) (hx : s'.cursX = s.cursX) (hy : s'.cursY = s.cursY)
    (hv : s'.vga.mem = s.vga.mem) : Shows s' p where
  inRange := by
    rw [InRange, hx, hy]
    exact h.inRange
  rows := h.rows
  pos := by
    rw [h.pos, Console.pos, Console.pos, hx, hy]
  cells j hj := by
    rw [← h.cells j hj, charAt, charAt, hv]
  blank := h.blank

/-- A move of the cursor is one on the page, which begins a row when the screen
scrolls. -/
theorem Shows.advance (h : Shows s p) (hs' : s'.InRange) {t : Nat} (hmove : Advances s s' t) :
    Shows s' (p.moveTo vgaNumCols (vgaNumCols * (p.rows - vgaNumRows) + t)) := by
  have hrows : 25 ≤ p.rows := h.rows
  rcases hmove with ⟨ht, hpos, hvga⟩ | ⟨ht, hpos, hvga⟩
  · have hlt : t < 2000 := ht
    have hsame : (p.moveTo vgaNumCols (vgaNumCols * (p.rows - vgaNumRows) + t)).rows = p.rows := by
      refine Page.moveTo_rows_of_lt ?_
      change 80 * (p.rows - 25) + t < 80 * p.rows
      omega
    refine ⟨hs', hrows.trans (Page.le_moveTo_rows _), ?_, fun j hj => ?_, h.blank.moveTo _⟩
    · rw [hsame, hpos]
      rfl
    · rw [charAt_of_vga hvga, h.cells j hj, Page.window, Page.window, hsame]
      rfl
  · have heq : t = 2000 := ht
    have hnext : (p.moveTo vgaNumCols (vgaNumCols * (p.rows - vgaNumRows) + t)).rows =
        p.rows + 1 := by
      refine Page.moveTo_rows_of_eq (by decide) ?_
      change 80 * (p.rows - 25) + t = 80 * p.rows
      omega
    refine ⟨hs', hrows.trans (Page.le_moveTo_rows _), ?_, fun j hj => ?_, h.blank.moveTo _⟩
    · rw [hnext, hpos]
      change 80 * (p.rows - 25) + t = 80 * (p.rows + 1 - 25) + (t - 80)
      omega
    · rw [charAt_scrollDown hvga hj, Page.window, hnext]
      change _ = p.cells (80 * (p.rows + 1 - 25) + j)
      split
      · rename_i hup
        have hindex : 80 * (p.rows + 1 - 25) + j = 80 * (p.rows - 25) + (j + 80) := by omega
        rw [h.cells (j + 80) (show j + 80 < 2000 by omega), hindex]
        rfl
      · exact (h.blank _ (show 80 * p.rows ≤ 80 * (p.rows + 1 - 25) + j by omega)).symm

/-! ### The moves of the cursor -/

theorem pos_div (hs : s.InRange) : s.pos / vgaNumCols = s.cursY.toNat := by
  have hx : s.cursX.toNat < 80 := hs.1
  change (s.cursY.toNat * 80 + s.cursX.toNat) / 80 = s.cursY.toNat
  omega

theorem lineFeed_advances (hs : s.InRange) :
    Advances s s.lineFeed ((s.pos / vgaNumCols + 1) * vgaNumCols) := by
  have hy : s.cursY.toNat < 25 := hs.2
  have hnext := toNat_add_one hs.2 (by decide)
  rw [pos_div hs]
  unfold lineFeed
  dsimp only
  by_cases hlast : s.cursY + 1 = UInt8.ofNat vgaNumRows
  · have hrow : s.cursY.toNat + 1 = 25 := by
      rw [← hnext, hlast]
      rfl
    rw [if_pos hlast, hrow]
    exact .inr ⟨rfl, rfl, rfl⟩
  · have hrow : s.cursY.toNat + 1 ≠ 25 := fun h => hlast (UInt8.toNat_inj.mp (hnext.trans h))
    rw [if_neg hlast]
    refine .inl ⟨?_, ?_, rfl⟩
    · change (s.cursY.toNat + 1) * 80 < 2000
      omega
    · change (s.cursY + 1).toNat * vgaNumCols + 0 = _
      rw [hnext, Nat.add_zero]

theorem cursForward_advances (hs : s.InRange) : Advances s s.cursForward (s.pos + 1) := by
  have hx : s.cursX.toNat < 80 := hs.1
  have hy : s.cursY.toNat < 25 := hs.2
  have hnext := toNat_add_one hs.1 (by decide)
  unfold cursForward
  dsimp only
  by_cases hlast : s.cursX + 1 = UInt8.ofNat vgaNumCols
  · have hcol : s.cursX.toNat + 1 = 80 := by
      rw [← hnext, hlast]
      rfl
    have hfeed : ({ s with cursX := s.cursX + 1 } : Console).lineFeed = s.lineFeed := rfl
    have hrow : s.pos + 1 = (s.pos / vgaNumCols + 1) * vgaNumCols := by
      rw [pos_div hs]
      change s.cursY.toNat * 80 + s.cursX.toNat + 1 = (s.cursY.toNat + 1) * 80
      omega
    rw [if_pos hlast, hfeed, hrow]
    exact lineFeed_advances hs
  · have hcol : s.cursX.toNat + 1 ≠ 80 := fun h => hlast (UInt8.toNat_inj.mp (hnext.trans h))
    rw [if_neg hlast]
    refine .inl ⟨?_, ?_, rfl⟩
    · change s.cursY.toNat * 80 + s.cursX.toNat + 1 < 2000
      omega
    · change s.cursY.toNat * vgaNumCols + (s.cursX + 1).toNat = _
      rw [hnext]
      rfl

/-! ### Writing -/

def writec (s : Console) (c attr : UInt8) : Console :=
  { s with vga := s.vga.vgaWritecAttrXy c attr s.cursX.toUInt32 s.cursY.toUInt32 }

theorem mem_writec_cursor (hs : s.InRange) (c attr : UInt8) (i : UInt16) :
    (s.writec c attr).vga.mem i =
      if i.toNat = s.pos then encodeCharAttr c attr else s.vga.mem i := by
  rw [writec, mem_writec (onScreen_cursor.mpr hs), UInt8.toNat_toUInt32, UInt8.toNat_toUInt32]
  rfl

theorem Shows.writec (h : Shows s p) (c attr : UInt8) : Shows (s.writec c attr) (p.write c) where
  inRange := h.inRange
  rows := h.rows
  pos := h.pos
  cells j hj := by
    have hlt : j < 2000 := hj
    have hval : (UInt16.ofNat j).toNat = j := UInt16.toNat_ofNat_of_lt' (show j < 65536 by omega)
    have hcell := h.cells j hj
    have hpos : p.pos = 80 * (p.rows - 25) + s.pos := h.pos
    rw [charAt, mem_writec_cursor h.inRange, hval]
    change _ = Function.update p.cells p.pos c (80 * (p.rows - 25) + j)
    by_cases hj : j = s.pos
    · rw [if_pos hj, encodeCharAttr_toUInt8, hj, ← hpos, Function.update_self]
    · rw [if_neg hj, Function.update_of_ne (by omega)]
      exact hcell
  blank := h.blank.write h.pos_lt c

theorem Shows.putcAttr (h : Shows s p) (c attr : UInt8) :
    Shows (s.putcAttr c attr) (p.put vgaNumCols c) := by
  have hwrite := h.writec c attr
  have hnext : p.pos + 1 = vgaNumCols * ((p.write c).rows - vgaNumRows) +
      ((s.writec c attr).pos + 1) := by
    rw [← Nat.add_assoc, ← hwrite.pos]
    rfl
  rw [Page.put, hnext]
  exact hwrite.advance (inRange_cursForward hwrite.inRange) (cursForward_advances hwrite.inRange)

theorem Shows.lineFeed (h : Shows s p) : Shows s.lineFeed (p.newRow vgaNumCols) := by
  have hpos : p.pos = 80 * (p.rows - 25) + s.pos := h.pos
  have hnext : (p.pos / vgaNumCols + 1) * vgaNumCols =
      vgaNumCols * (p.rows - vgaNumRows) + (s.pos / vgaNumCols + 1) * vgaNumCols := by
    change (p.pos / 80 + 1) * 80 = 80 * (p.rows - 25) + (s.pos / 80 + 1) * 80
    omega
  rw [Page.newRow, hnext]
  exact h.advance (inRange_lineFeed h.inRange) (lineFeed_advances h.inRange)

theorem Shows.cursBackward (h : Shows s p) (hpos : 0 < s.pos) :
    Shows s.cursBackward { p with pos := p.pos - 1 } := by
  obtain ⟨hin, hback⟩ := cursBackward_of_pos h.inRange hpos
  have hpage := h.pos
  refine ⟨hin, h.rows, ?_, fun j hj => ?_, h.blank⟩
  · change p.pos - 1 = vgaNumCols * (p.rows - vgaNumRows) + s.cursBackward.pos
    omega
  · rw [charAt_of_vga (cursBackward_vga s)]
    exact h.cells j hj

/-- A deletion on the screen is one on the page. -/
theorem Shows.rubout (h : Shows s p) (hpos : 0 < s.pos) (attr : UInt8) :
    Shows (s.cursBackward.putcAttr 0x20 attr).cursBackward (p.rubout vgaNumCols 0x20) := by
  obtain ⟨hin, hback⟩ := cursBackward_of_pos h.inRange hpos
  have hlt := Console.pos_lt h.inRange
  have hput : (s.cursBackward.putcAttr 0x20 attr).pos = s.cursBackward.pos + 1 :=
    pos_putcAttr hin 0x20 attr (by omega)
  exact ((h.cursBackward hpos).putcAttr 0x20 attr).cursBackward (by omega)

/-! ### The memory behind the screen -/

def SameBehind (s s' : Console) : Prop :=
  ∀ i : UInt16, vgaNumRows * vgaNumCols ≤ i.toNat → s'.vga.mem i = s.vga.mem i

theorem SameBehind.trans {s'' : Console} (h : SameBehind s s') (h' : SameBehind s' s'') :
    SameBehind s s'' := fun i hi => (h' i hi).trans (h i hi)

theorem Advances.sameBehind {t : Nat} (h : Advances s s' t) : SameBehind s s' := by
  intro i hi
  have hle : 2000 ≤ i.toNat := hi
  rcases h with ⟨-, -, hvga⟩ | ⟨-, -, hvga⟩
  · rw [hvga]
  · rw [hvga, mem_scrollDown, if_neg (by omega), if_neg (by omega)]

theorem sameBehind_putcAttr (hs : s.InRange) (c attr : UInt8) :
    SameBehind s (s.putcAttr c attr) := by
  have hwrite : SameBehind s (s.writec c attr) := fun i hi => by
    have hlt := Console.pos_lt hs
    rw [mem_writec_cursor hs, if_neg (by omega)]
  have hin : (s.writec c attr).InRange := hs
  exact hwrite.trans (cursForward_advances hin).sameBehind

end

end Console

end Kboot86
