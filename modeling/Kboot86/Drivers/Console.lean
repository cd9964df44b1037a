import Kboot86.Drivers.Vga

/-!
# The console

`console.c` over the screen of `Vga`. The functions call each other through
`_putc`, but what they pass to it is a blank, which takes its last branch; that
branch is `putcOther` here, so nothing is recursive but the loop of `_kill`.
-/

namespace Kboot86

def attrRedOnBlue : UInt8 := 0x14
def ibufSize : Nat := 128
def tabWidth : Nat := 4

structure Console where
  attr : UInt8
  cursX : UInt8
  cursY : UInt8
  lineCompleted : Bool
  ibuf : Nat → UInt8
  widx : Nat
  cleared : Bool
  vga : Vga

namespace Console

def lineFeed (s : Console) : Console :=
  let s := { s with cursX := 0, cursY := s.cursY + 1 }
  if s.cursY = UInt8.ofNat vgaNumRows then
    { s with vga := s.vga.vgaScrollDown, cursY := UInt8.ofNat (vgaNumRows - 1) }
  else s

def cursForward (s : Console) : Console :=
  let s := { s with cursX := s.cursX + 1 }
  if s.cursX = UInt8.ofNat vgaNumCols then s.lineFeed else s

def cursBackward (s : Console) : Console :=
  if s.cursX = 0 then
    { s with cursX := UInt8.ofNat (vgaNumCols - 1), cursY := s.cursY - 1 }
  else { s with cursX := s.cursX - 1 }

def ibufIsFull (s : Console) : Bool := s.widx == ibufSize

def ibufIsEmpty (s : Console) : Bool := s.widx == 0

def drawCursor (s : Console) : Console :=
  { s with vga := s.vga.vgaDrawCursorXy s.cursX.toUInt32 s.cursY.toUInt32 }

def putcAttr (s : Console) (c attr : UInt8) : Console :=
  { s with vga := s.vga.vgaWritecAttrXy c attr s.cursX.toUInt32 s.cursY.toUInt32 }.cursForward

/-- `_putc` for what is not a control character. -/
def putcOther (s : Console) (c : UInt8) (display : Bool) : Console :=
  if display then s.putcAttr c s.attr else s

def tabTo (s : Console) : Nat → Console
  | 0 => s
  | n + 1 => (s.tabTo n).putcOther 0x20 true

def tab (s : Console) : Console := s.tabTo tabWidth

def delIbuf (s : Console) : Console × Int :=
  if s.lineCompleted then (s, -1)
  else if s.ibufIsEmpty then (s, -1)
  else
    let s := { s with widx := s.widx - 1 }
    let s := s.cursBackward
    let s := s.putcOther 0x20 true
    let s := s.cursBackward
    (s.drawCursor, 0)

def killFrom : Nat → Console → Console
  | 0, s => s
  | n + 1, s => if s.delIbuf.2 = 0 then killFrom n s.delIbuf.1 else s.delIbuf.1

/-- Each call of `_del_ibuf` that does not end the loop takes one character. -/
def kill (s : Console) : Console := killFrom (s.widx + 1) s

def consoleClear (s : Console) : Console :=
  { s with vga := s.vga.vgaClear, cursX := 0, cursY := 0, cleared := true }

def putc (s : Console) (c : UInt8) (display : Bool) : Console × Int :=
  if c = 0x0a then (s.lineFeed, 0)
  else if c = 0x09 then (s.tab, 0)
  else if c = 0x0d then (s.kill, 0)
  else if c = 0x7f then (s.consoleClear, 0)
  else if c = 0x08 then (s.delIbuf.1, 0)
  else (s.putcOther c display, 1)

/-- `console_init` up to `keyboard_init`, whose result it returns. -/
def consoleInit (s : Console) : Console :=
  { s with
    attr := attrGreenOnBlack
    cursX := 0
    cursY := 0
    lineCompleted := false
    widx := 0 }.consoleClear

def putsChars (s : Console) (str : List UInt8) : Console :=
  (str.takeWhile (· ≠ 0)).foldl (fun s c => (s.putc c true).1) s

def consolePuts (s : Console) : Option (List UInt8) → Console × Nat
  | none => (s, 0)
  | some str => ((s.putsChars str).drawCursor, (str.takeWhile (· ≠ 0)).length)

def consolePutsErr (s : Console) (str : Option (List UInt8)) : Console × Nat :=
  let r := { s with attr := attrRedOnBlue }.consolePuts str
  ({ r.1 with attr := s.attr }, r.2)

def consolePutIbuf (s : Console) (c : UInt8) : Console :=
  let s := if c = 0x0a then { s with lineCompleted := true } else s
  let (s, printable) := s.putc c (!s.ibufIsFull)
  if printable ≠ 0 ∧ !s.ibufIsFull then
    { s with ibuf := Function.update s.ibuf s.widx c, widx := s.widx + 1 }.drawCursor
  else s

/-! ### What moving the cursor leaves alone -/

@[simp] theorem lineFeed_widx (s : Console) : s.lineFeed.widx = s.widx := by
  unfold lineFeed
  dsimp only
  split <;> rfl

@[simp] theorem lineFeed_lineCompleted (s : Console) :
    s.lineFeed.lineCompleted = s.lineCompleted := by
  unfold lineFeed
  dsimp only
  split <;> rfl

@[simp] theorem cursForward_widx (s : Console) : s.cursForward.widx = s.widx := by
  unfold cursForward
  dsimp only
  split
  · rw [lineFeed_widx]
  · rfl

@[simp] theorem cursForward_lineCompleted (s : Console) :
    s.cursForward.lineCompleted = s.lineCompleted := by
  unfold cursForward
  dsimp only
  split
  · rw [lineFeed_lineCompleted]
  · rfl

@[simp] theorem cursBackward_widx (s : Console) : s.cursBackward.widx = s.widx := by
  unfold cursBackward
  split <;> rfl

@[simp] theorem cursBackward_lineCompleted (s : Console) :
    s.cursBackward.lineCompleted = s.lineCompleted := by
  unfold cursBackward
  split <;> rfl

@[simp] theorem cursBackward_vga (s : Console) : s.cursBackward.vga = s.vga := by
  unfold cursBackward
  split <;> rfl

theorem delIbuf_of_nothing {s : Console} (h : s.lineCompleted = true ∨ s.widx = 0) :
    s.delIbuf = (s, -1) := by
  unfold delIbuf
  cases hline : s.lineCompleted with
  | true => rfl
  | false =>
      have hw : s.widx = 0 := h.resolve_left (by simp [hline])
      rw [ibufIsEmpty, hw]
      rfl

theorem delIbuf_eq {s : Console} (hline : s.lineCompleted = false) (hw : s.widx ≠ 0) :
    s.delIbuf = (((({ s with widx := s.widx - 1 } : Console).cursBackward.putcOther 0x20
      true).cursBackward).drawCursor, 0) := by
  have hempty : s.ibufIsEmpty = false := by simpa [ibufIsEmpty] using hw
  rw [delIbuf, hline, hempty]
  rfl

theorem delIbuf_code (s : Console) :
    s.delIbuf.2 = 0 ↔ s.lineCompleted = false ∧ s.widx ≠ 0 := by
  by_cases h : s.lineCompleted = true ∨ s.widx = 0
  · rw [delIbuf_of_nothing h]
    have hcode : ¬ (-1 : Int) = 0 := by decide
    refine iff_of_false hcode ?_
    rintro ⟨hline, hw⟩
    exact h.elim (by simp [hline]) hw
  · obtain ⟨hline, hw⟩ := not_or.mp h
    have hbegun := Bool.eq_false_iff.mpr hline
    rw [delIbuf_eq hbegun hw]
    exact iff_of_true rfl ⟨hbegun, hw⟩

/-- A deletion that goes through takes one character. -/
theorem delIbuf_of_zero {s : Console} (hs : s.delIbuf.2 = 0) :
    s.lineCompleted = false ∧ s.widx ≠ 0 ∧ s.delIbuf.1.widx = s.widx - 1 ∧
      s.delIbuf.1.lineCompleted = false := by
  obtain ⟨hline, hw⟩ := (delIbuf_code s).mp hs
  rw [delIbuf_eq hline hw]
  refine ⟨hline, hw, ?_⟩
  simp [hline, drawCursor, putcOther, putcAttr]

theorem nothing_of_ne_zero {s : Console} (hs : s.delIbuf.2 ≠ 0) :
    s.lineCompleted = true ∨ s.widx = 0 := by
  by_contra hno
  obtain ⟨hline, hw⟩ := not_or.mp hno
  exact hs ((delIbuf_code s).mpr ⟨Bool.eq_false_iff.mpr hline, hw⟩)

theorem delIbuf_of_ne_zero {s : Console} (hs : s.delIbuf.2 ≠ 0) : s.delIbuf = (s, -1) :=
  delIbuf_of_nothing (nothing_of_ne_zero hs)

end Console

end Kboot86
