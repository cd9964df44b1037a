import Kboot86.Drivers.Console.Input
import Kboot86.Drivers.Console.Screen
import Mathlib.Data.List.TakeWhile

/-!
# Printing a string

`console_puts` leaves on the screen the last rows of the page on which the
string is typed: a row goes on in the next one after its last column, a newline
begins a new row, and a tab is four blanks.
-/

namespace Kboot86.Console

open Vga

/-- A character of a string that is only printed: no control character but a
newline or a tab. -/
def Typeable (c : UInt8) : Prop := c ≠ 0 ∧ (c = 0x0a ∨ c = 0x09 ∨ printable c = true)

def typeChar (p : Page UInt8) (c : UInt8) : Page UInt8 :=
  if c = 0x0a then p.newRow 80
  else if c = 0x09 then (((p.put 80 0x20).put 80 0x20).put 80 0x20).put 80 0x20
  else p.put 80 c

def typed (p : Page UInt8) (str : List UInt8) : Page UInt8 := str.foldl typeChar p

/-- The screen of `s'` shows the end of the page `q`, with both cursors at its
position, and nothing behind the screen of `s` has been written. -/
structure DisplaysEnd (s s' : Console) (q : Page UInt8) : Prop where
  cells : ∀ j < 2000, s'.charAt j = q.window 80 25 j
  inRange : s'.InRange
  pos : q.pos = 80 * (q.rows - 25) + s'.pos
  cursor : s'.vga.cursor.toNat = s'.pos
  behind : SameBehind s s'
  confined : s.vga.Confined → s'.vga.Confined

section

variable {s : Console} {p : Page UInt8}

structure Prints (s s' : Console) (q : Page UInt8) : Prop where
  shows : Shows s' q
  behind : SameBehind s s'
  confined : s'.vga.Confined ↔ s.vga.Confined

theorem Prints.trans {s' s'' : Console} {q r : Page UInt8} (h : Prints s s' q)
    (h' : Prints s' s'' r) : Prints s s'' r :=
  ⟨h'.shows, h.behind.trans h'.behind, h'.confined.trans h.confined⟩

theorem Shows.prints_putcOther (h : Shows s p) (c : UInt8) :
    Prints s (s.putcOther c true) (p.put 80 c) where
  shows := h.putcAttr c s.attr
  behind := sameBehind_putcAttr h.inRange c s.attr
  confined := confined_putcOther h.inRange c true

theorem Shows.prints_lineFeed (h : Shows s p) : Prints s s.lineFeed (p.newRow 80) where
  shows := h.lineFeed
  behind := (lineFeed_advances h.inRange).sameBehind
  confined := confined_lineFeed

theorem Shows.prints_tab (h : Shows s p) :
    Prints s s.tab ((((p.put 80 0x20).put 80 0x20).put 80 0x20).put 80 0x20) := by
  have h1 := h.prints_putcOther 0x20
  have h2 := h1.trans (h1.shows.prints_putcOther 0x20)
  have h3 := h2.trans (h2.shows.prints_putcOther 0x20)
  exact h3.trans (h3.shows.prints_putcOther 0x20)

theorem Shows.prints_putc (h : Shows s p) {c : UInt8} (hc : Typeable c) :
    Prints s (s.putc c true).1 (typeChar p c) := by
  rw [typeChar]
  by_cases hnl : c = 0x0a
  · rw [if_pos hnl, putc, if_pos hnl]
    dsimp only
    exact h.prints_lineFeed
  by_cases htab : c = 0x09
  · rw [if_neg hnl, if_pos htab, putc, if_neg hnl, if_pos htab]
    dsimp only
    exact h.prints_tab
  · have hprint := (hc.2.resolve_left hnl).resolve_left htab
    rw [if_neg hnl, if_neg htab, putc_of_printable s hprint]
    exact h.prints_putcOther c

theorem Shows.prints_foldl (h : Shows s p) {str : List UInt8} (hstr : ∀ c ∈ str, Typeable c) :
    Prints s (str.foldl (fun s c => (s.putc c true).1) s) (typed p str) := by
  induction str generalizing s p with
  | nil => exact ⟨h, fun _ _ => rfl, Iff.rfl⟩
  | cons c str ih =>
      have hchar := h.prints_putc (hstr c List.mem_cons_self)
      exact hchar.trans (ih hchar.shows fun c' hc' => hstr c' (List.mem_cons_of_mem c hc'))

end

/-- The screen after `console_puts` is the end of the page on which the string
is typed, wherever the cursor was and whatever the screen showed. -/
theorem consolePuts_displays {s : Console} (hs : s.InRange) {str : List UInt8}
    (hstr : ∀ c ∈ str, Typeable c) :
    DisplaysEnd s (s.consolePuts (some str)).1 (typed s.screenPage str) := by
  have hall : str.takeWhile (· ≠ 0) = str :=
    List.takeWhile_eq_self_iff.mpr fun c hc => decide_eq_true (hstr c hc).1
  have hprints := (shows_screenPage hs).prints_foldl hstr
  have hend : (s.consolePuts (some str)).1 =
      (str.foldl (fun s c => (s.putc c true).1) s).drawCursor := by
    rw [consolePuts, putsChars, hall]
  rw [hend]
  have hshows := hprints.shows
  refine ⟨hshows.cells, hshows.inRange, hshows.pos, ?_, hprints.behind, hprints.confined.mpr⟩
  have hidx := xy2idx_toNat (onScreen_cursor.mpr hshows.inRange)
  rw [UInt8.toNat_toUInt32, UInt8.toNat_toUInt32] at hidx
  exact hidx

def lastCells : Console where
  attr := attrGreenOnBlack
  cursX := 78
  cursY := 24
  lineCompleted := false
  ibuf _ := 0
  widx := 0
  cleared := false
  vga := { mem := fun _ => blankCell, cursor := 1998, calls := [] }

theorem lastCells_inRange : lastCells.InRange := by
  constructor <;> decide

/-- `ab`, a newline, `c` and a tab: the page gets two rows more, the first of
them because of the wrap. -/
theorem consolePuts_displays_corner :
    (typed lastCells.screenPage [0x61, 0x62, 0x0a, 0x63, 0x09]).rows = 27 ∧
      (typed lastCells.screenPage [0x61, 0x62, 0x0a, 0x63, 0x09]).pos = 2085 ∧
      DisplaysEnd lastCells (lastCells.consolePuts (some [0x61, 0x62, 0x0a, 0x63, 0x09])).1
        (typed lastCells.screenPage [0x61, 0x62, 0x0a, 0x63, 0x09]) :=
  ⟨rfl, rfl, consolePuts_displays lastCells_inRange (by simp [Typeable, printable])⟩

end Kboot86.Console
