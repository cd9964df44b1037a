import Mathlib.Data.List.Basic
import Mathlib.Logic.Function.Basic

/-!
# Pages

A page is a grid of cells of a fixed width whose rows go on without end. The
first `rows` of them have been begun, the others are blank. What is written goes
to a position, which then moves on to the next cell, so a row is followed by the
next one. A window shows the last rows that have been begun.

A line is edited on a page by writing at its end and rubbing out its last
character. `withLine` is the page that any such edits come to: it holds the line
and blanks as far as the line ever reached.
-/

namespace Kboot86

@[ext] structure Page (α : Type*) where
  cells : Nat → α
  rows : Nat
  pos : Nat

namespace Page

section

variable {α : Type*} (w : Nat) (blank : α) (p : Page α)

/-- A position in a row that has not been begun begins it. -/
def moveTo (n : Nat) : Page α := { p with rows := max p.rows (n / w + 1), pos := n }

def write (a : α) : Page α := { p with cells := Function.update p.cells p.pos a }

def put (a : α) : Page α := (p.write a).moveTo w (p.pos + 1)

def newRow : Page α := p.moveTo w ((p.pos / w + 1) * w)

def rubout : Page α :=
  { ({ p with pos := p.pos - 1 } : Page α).put w blank with pos := p.pos - 1 }

def window (h j : Nat) : α := p.cells (w * (p.rows - h) + j)

def BlankBelow : Prop := ∀ j, w * p.rows ≤ j → p.cells j = blank

/-- The page with a line written from the position on that once had `peak`
characters. -/
def withLine (chars : List α) (peak : Nat) : Page α where
  cells j :=
    if j < p.pos then p.cells j
    else chars[j - p.pos]?.getD (if j < p.pos + peak then blank else p.cells j)
  rows := max p.rows ((p.pos + peak) / w + 1)
  pos := p.pos + chars.length

end

section

variable {α : Type*} {w : Nat} {blank : α} {p : Page α}

theorem le_moveTo_rows (n : Nat) : p.rows ≤ (p.moveTo w n).rows := Nat.le_max_left _ _

theorem moveTo_rows_of_lt {n : Nat} (h : n < w * p.rows) : (p.moveTo w n).rows = p.rows :=
  Nat.max_eq_left (Nat.div_lt_of_lt_mul h)

theorem moveTo_rows_of_eq (hw : 0 < w) {n : Nat} (h : n = w * p.rows) :
    (p.moveTo w n).rows = p.rows + 1 := by
  have hdiv : n / w = p.rows := by rw [h, Nat.mul_div_cancel_left _ hw]
  rw [moveTo, hdiv]
  exact Nat.max_eq_right (Nat.le_succ _)

theorem BlankBelow.moveTo (h : p.BlankBelow w blank) (n : Nat) :
    (p.moveTo w n).BlankBelow w blank := fun j hj =>
  h j (Nat.le_trans (Nat.mul_le_mul_left w (le_moveTo_rows n)) hj)

theorem BlankBelow.write (h : p.BlankBelow w blank) (hpos : p.pos < w * p.rows) (a : α) :
    (p.write a).BlankBelow w blank := fun j hj => by
  have hle : w * p.rows ≤ j := hj
  have hne : j ≠ p.pos := by omega
  rw [← h j hle]
  exact Function.update_of_ne hne _ _

/-! ### The edited line -/

theorem withLine_nil (h : p.pos < w * p.rows) : p.withLine w blank [] 0 = p := by
  refine Page.ext ?_ (Nat.max_eq_left (Nat.div_lt_of_lt_mul h)) rfl
  funext j
  rw [withLine, Nat.add_zero]
  dsimp only
  split
  · rfl
  · rw [List.getElem?_nil, Option.getD_none]

theorem max_div_succ (a b : Nat) : max (a / w + 1) (b / w + 1) = max a b / w + 1 := by
  rcases Nat.le_total a b with h | h
  · rw [Nat.max_eq_right h, Nat.max_eq_right (Nat.succ_le_succ (Nat.div_le_div_right h))]
  · rw [Nat.max_eq_left h, Nat.max_eq_left (Nat.succ_le_succ (Nat.div_le_div_right h))]

theorem put_withLine {chars : List α} {peak : Nat} (h : chars.length ≤ peak) (a : α) :
    (p.withLine w blank chars peak).put w a =
      p.withLine w blank (chars ++ [a]) (max peak (chars.length + 1)) := by
  refine Page.ext ?_ ?_ ?_
  · funext j
    change Function.update (p.withLine w blank chars peak).cells (p.pos + chars.length) a j = _
    by_cases hend : j = p.pos + chars.length
    · have hindex : (chars ++ [a])[j - p.pos]? = some a := by
        rw [hend, Nat.add_sub_cancel_left, List.getElem?_concat_length]
      rw [hend, Function.update_self, ← hend, withLine]
      dsimp only
      rw [if_neg (by omega), hindex, Option.getD_some]
    rw [Function.update_of_ne hend, withLine, withLine]
    dsimp only
    by_cases hbefore : j < p.pos
    · rw [if_pos hbefore, if_pos hbefore]
    rw [if_neg hbefore, if_neg hbefore]
    by_cases hin : j - p.pos < chars.length
    · rw [List.getElem?_append_left hin, List.getElem?_eq_getElem hin, Option.getD_some,
        Option.getD_some]
    · have hlong : (chars ++ [a]).length ≤ j - p.pos := by
        rw [List.length_append, List.length_singleton]
        omega
      rw [List.getElem?_eq_none (by omega), List.getElem?_eq_none hlong, Option.getD_none,
        Option.getD_none]
      by_cases hpeak : j < p.pos + peak
      · rw [if_pos hpeak, if_pos (by omega)]
      · rw [if_neg hpeak, if_neg (by omega)]
  · change max (max p.rows ((p.pos + peak) / w + 1)) ((p.pos + chars.length + 1) / w + 1) =
      max p.rows ((p.pos + max peak (chars.length + 1)) / w + 1)
    rw [Nat.max_assoc, max_div_succ, Nat.add_assoc, Nat.add_max_add_left]
  · change p.pos + chars.length + 1 = p.pos + (chars ++ [a]).length
    rw [List.length_append, List.length_singleton]
    omega

theorem rubout_withLine {chars : List α} {peak : Nat} (hne : chars ≠ [])
    (h : chars.length ≤ peak) :
    (p.withLine w blank chars peak).rubout w blank = p.withLine w blank chars.dropLast peak := by
  have hlen := List.length_pos_iff.mpr hne
  have hlast : p.pos + chars.length - 1 = p.pos + (chars.length - 1) := by omega
  refine Page.ext ?_ ?_ ?_
  · funext j
    change Function.update (p.withLine w blank chars peak).cells (p.pos + chars.length - 1) blank
      j = _
    by_cases hend : j = p.pos + chars.length - 1
    · have hindex : chars.dropLast[j - p.pos]? = none := by
        refine List.getElem?_eq_none ?_
        rw [List.length_dropLast]
        omega
      rw [hend, Function.update_self, ← hend, withLine]
      dsimp only
      rw [if_neg (by omega), hindex, Option.getD_none, if_pos (by omega)]
    rw [Function.update_of_ne hend, withLine, withLine]
    dsimp only
    by_cases hbefore : j < p.pos
    · rw [if_pos hbefore, if_pos hbefore]
    rw [if_neg hbefore, if_neg hbefore]
    have hindex : chars.dropLast[j - p.pos]? = chars[j - p.pos]? := by
      rw [List.getElem?_dropLast]
      split
      · rfl
      · exact (List.getElem?_eq_none (by omega)).symm
    rw [hindex]
  · change max (max p.rows ((p.pos + peak) / w + 1)) ((p.pos + chars.length - 1 + 1) / w + 1) =
      max p.rows ((p.pos + peak) / w + 1)
    rw [Nat.max_assoc, max_div_succ, Nat.sub_add_cancel (by omega),
      Nat.max_eq_left (show p.pos + chars.length ≤ p.pos + peak by omega)]
  · change p.pos + chars.length - 1 = p.pos + chars.dropLast.length
    rw [List.length_dropLast]
    exact hlast

end

end Page

end Kboot86
