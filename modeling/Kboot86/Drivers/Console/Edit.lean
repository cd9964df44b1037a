import Kboot86.Drivers.Console.Delivery
import Kboot86.Drivers.Console.Screen

/-!
# Echoing the line that is edited

`console_put_ibuf` keeps the line in the buffer and on the screen, and the two
are changed by different calls. `Echoes` says that they agree: the screen is the
end of a page with the line written on it from where the cursor was when the
buffer was empty. Where the line reaches behind the last row, its start moves up
with the rest of the screen.
-/

namespace Kboot86.Console

open Vga
open GetLine (edit)

/-- The most characters that the line has while the keys are typed. -/
def peak : List UInt8 → List UInt8 → Nat
  | chars, [] => chars.length
  | chars, c :: cs => max chars.length (peak (edit chars c) cs)

def scrolled (s : Console) (n : Nat) : Nat := (s.pos + n) / vgaNumCols + 1 - vgaNumRows

def EditKey (c : UInt8) : Prop := printable c = true ∨ c = 0x08 ∨ c = 0x0d

instance : DecidablePred EditKey := fun c =>
  inferInstanceAs (Decidable (printable c = true ∨ c = 0x08 ∨ c = 0x0d))

/-- The line that is in the buffer of `s'` begins on the screen where the cursor
of `s` was, as far as the screen has not scrolled, and ends at the cursor. The
cells that it was longer by, up to `n` of them, are blank. -/
structure LineOnScreen (s s' : Console) (chars : List UInt8) (n : Nat) : Prop where
  buffer : s'.input.line = chars
  inRange : s'.InRange
  start : vgaNumCols * scrolled s n ≤ s.pos
  cursor : s'.pos = s.pos - vgaNumCols * scrolled s n + chars.length
  text : ∀ i (h : i < chars.length), s'.charAt (s.pos - vgaNumCols * scrolled s n + i) = chars[i]
  erased : ∀ i < n, chars.length ≤ i →
    s'.charAt (s.pos - vgaNumCols * scrolled s n + i) = 0x20
  before : ∀ j < s.pos - vgaNumCols * scrolled s n,
    s'.charAt j = s.charAt (j + vgaNumCols * scrolled s n)

theorem length_le_peak (chars cs : List UInt8) : chars.length ≤ peak chars cs := by
  cases cs with
  | nil => exact Nat.le_refl _
  | cons c cs => exact Nat.le_max_left _ _

/-! ### The keys -/

section

variable {s : Console} {c : UInt8}

theorem consolePutIbuf_of_printable (hc : printable c = true) :
    s.consolePutIbuf c =
      if s.widx = ibufSize then s
      else { s.putcAttr c s.attr with
        ibuf := Function.update (s.putcAttr c s.attr).ibuf (s.putcAttr c s.attr).widx c
        widx := (s.putcAttr c s.attr).widx + 1 }.drawCursor := by
  have hnl := ((printable_iff c).mp hc).1
  have hkept : (s.putcAttr c s.attr).widx = s.widx :=
    congrArg Input.widx (input_putcAttr s c s.attr)
  rw [consolePutIbuf, if_neg hnl, putc_of_printable s hc]
  by_cases hfull : s.widx = ibufSize
  · have hsame : s.ibufIsFull = true := beq_iff_eq.mpr hfull
    rw [if_pos hfull, hsame, Bool.not_true, putcOther, if_neg Bool.false_ne_true]
    dsimp only
    rw [hsame, Bool.not_true, if_neg (fun h => Bool.false_ne_true h.2)]
  · have hroom : s.ibufIsFull = false := beq_eq_false_iff_ne.mpr hfull
    have hroom' : (s.putcAttr c s.attr).ibufIsFull = false := by
      rw [ibufIsFull, hkept]
      exact hroom
    rw [if_neg hfull, hroom, Bool.not_false, putcOther, if_pos rfl]
    dsimp only
    rw [hroom', Bool.not_false, if_pos ⟨Int.one_ne_zero, rfl⟩]

theorem consolePutIbuf_del : s.consolePutIbuf 0x08 = s.delIbuf.1 := rfl

theorem consolePutIbuf_kill : s.consolePutIbuf 0x0d = s.kill := rfl

theorem edit_del (chars : List UInt8) : edit chars 0x08 = chars.dropLast := rfl

theorem edit_kill (chars : List UInt8) : edit chars 0x0d = [] := rfl

theorem Shows.delIbuf {p : Page UInt8} (h : Shows s p) (hline : s.lineCompleted = false)
    (hw : s.widx ≠ 0) (hpos : 0 < s.pos) : Shows s.delIbuf.1 (p.rubout vgaNumCols 0x20) := by
  have hshorter : Shows { s with widx := s.widx - 1 } p := h.congr rfl rfl rfl
  rw [delIbuf_eq hline hw, putcOther, if_pos rfl]
  exact (hshorter.rubout hpos _).drawCursor

end

/-! ### The line and the screen -/

structure Echoes (s s' : Console) (chars : List UInt8) (n : Nat) : Prop where
  shows : Shows s' (s.screenPage.withLine vgaNumCols 0x20 chars n)
  ok : s'.input.Ok
  buffer : s'.input.line = chars
  begun : s'.lineCompleted = false
  le : chars.length ≤ n
  fits : n ≤ ibufSize

section

variable {s s' : Console} {chars : List UInt8} {n : Nat}

theorem Echoes.widx (h : Echoes s s' chars n) : s'.widx = chars.length := by
  rw [← h.buffer, Input.length_line]
  rfl

/-- The rows that the line has begun below the screen are those it scrolls by. -/
theorem rows_withLine (s : Console) (chars : List UInt8) (n : Nat) :
    (s.screenPage.withLine vgaNumCols 0x20 chars n).rows - vgaNumRows = scrolled s n := by
  change max 25 ((s.pos + n) / 80 + 1) - 25 = (s.pos + n) / 80 + 1 - 25
  omega

/-- The buffer is too small for a line that scrolls its own start away. -/
theorem scrolled_le (hs : s.InRange) (hn : n ≤ ibufSize) : vgaNumCols * scrolled s n ≤ s.pos := by
  have hlt : s.pos < 2000 := pos_lt hs
  have hle : n ≤ 128 := hn
  change 80 * ((s.pos + n) / 80 + 1 - 25) ≤ s.pos
  omega

theorem Echoes.pos (h : Echoes s s' chars n) :
    s.pos + chars.length = vgaNumCols * scrolled s n + s'.pos := by
  rw [← rows_withLine s chars n]
  exact h.shows.pos

theorem Echoes.key (h : Echoes s s' chars n) {c : UInt8} (hc : EditKey c) {m : Nat}
    (hle : (edit chars c).length ≤ m) (hm : m ≤ ibufSize)
    (hshows : Shows (s'.consolePutIbuf c)
      (s.screenPage.withLine vgaNumCols 0x20 (edit chars c) m)) :
    Echoes s (s'.consolePutIbuf c) (edit chars c) m := by
  have hnl : c ≠ 0x0a := by
    rintro rfl
    revert hc
    decide
  obtain ⟨hbegun, hline⟩ := GetLine.key_of_editing h.begun h.ok hnl
  rw [h.buffer, ← input_consolePutIbuf] at hline
  rw [← input_consolePutIbuf] at hbegun
  have hok := h.ok.key c
  rw [← input_consolePutIbuf] at hok
  exact ⟨hshows, hok, hline, hbegun, hle, hm⟩

theorem Echoes.append (h : Echoes s s' chars n) {c : UInt8} (hc : printable c = true) :
    Echoes s (s'.consolePutIbuf c) (edit chars c) (max n (edit chars c).length) := by
  obtain ⟨-, -, hkill, -, hdel⟩ := (printable_iff c).mp hc
  have hkey := consolePutIbuf_of_printable (s := s') hc
  rw [h.widx] at hkey
  by_cases hfull : chars.length = ibufSize
  · have hsame : edit chars c = chars := by
      rw [edit, if_neg hdel, if_neg hkill, if_neg]
      rintro ⟨-, hlt⟩
      exact absurd hfull hlt.ne
    refine h.key (.inl hc) (Nat.le_max_right _ _) ?_ ?_
    · rw [hsame, Nat.max_eq_left h.le]
      exact h.fits
    · rw [hkey, if_pos hfull, hsame, Nat.max_eq_left h.le]
      exact h.shows
  · have hroom : chars.length < 128 := Nat.lt_of_le_of_ne (h.le.trans h.fits) hfull
    have hlonger : edit chars c = chars ++ [c] := by
      rw [edit, if_neg hdel, if_neg hkill, if_pos ⟨hc, hroom⟩]
    refine h.key (.inl hc) (Nat.le_max_right _ _) ?_ ?_
    · rw [hlonger, List.length_append, List.length_singleton]
      exact Nat.max_le.mpr ⟨h.fits, hroom⟩
    · rw [hkey, if_neg hfull, hlonger, List.length_append, List.length_singleton,
        ← Page.put_withLine h.le c]
      have hput := h.shows.putcAttr c s'.attr
      refine Shows.drawCursor ?_
      exact hput.congr rfl rfl rfl

theorem Echoes.delete (hs : s.InRange) (h : Echoes s s' chars n) :
    Echoes s s'.delIbuf.1 chars.dropLast n := by
  have hshort : chars.dropLast.length ≤ n := by
    rw [List.length_dropLast]
    exact (Nat.sub_le _ _).trans h.le
  have hkey := h.key (c := 0x08) (.inr (.inl rfl)) hshort h.fits
  rw [consolePutIbuf_del, edit_del] at hkey
  refine hkey ?_
  by_cases hempty : chars = []
  · have hw : s'.widx = 0 := by rw [h.widx, hempty, List.length_nil]
    have hshows := h.shows
    rw [hempty] at hshows
    rw [delIbuf_of_nothing (.inr hw), hempty]
    exact hshows
  · have hlen := List.length_pos_iff.mpr hempty
    have hw : s'.widx ≠ 0 := by
      rw [h.widx]
      omega
    have hpos : 0 < s'.pos := by
      have hstart := scrolled_le hs h.fits
      have hend := h.pos
      omega
    rw [← Page.rubout_withLine hempty h.le]
    exact h.shows.delIbuf h.begun hw hpos

theorem Echoes.killFrom (hs : s.InRange) {m : Nat} (hm : s'.widx < m)
    (h : Echoes s s' chars n) : Echoes s (killFrom m s') [] n := by
  induction m generalizing s' chars with
  | zero => exact absurd hm (Nat.not_lt_zero _)
  | succ m ih =>
      rw [Console.killFrom]
      by_cases hdel : s'.delIbuf.2 = 0
      · obtain ⟨-, hw, hwidx, -⟩ := delIbuf_of_zero hdel
        rw [if_pos hdel]
        exact ih (by omega) (h.delete hs)
      · have hempty : chars = [] := by
          by_contra hne
          have hlen := List.length_pos_iff.mpr hne
          have hw : s'.widx ≠ 0 := by
            rw [h.widx]
            omega
          exact hdel ((delIbuf_code s').mpr ⟨h.begun, hw⟩)
        rw [if_neg hdel, delIbuf_of_ne_zero hdel, ← hempty]
        exact h

theorem Echoes.kill (hs : s.InRange) (h : Echoes s s' chars n) : Echoes s s'.kill [] n :=
  h.killFrom hs (Nat.lt_succ_self _)

/-- Every key keeps the line on the screen and in the buffer. -/
theorem Echoes.step (hs : s.InRange) (h : Echoes s s' chars n) {c : UInt8} (hc : EditKey c) :
    Echoes s (s'.consolePutIbuf c) (edit chars c) (max n (edit chars c).length) := by
  rcases hc with hprint | rfl | rfl
  · exact h.append hprint
  · have hdelete := h.delete hs
    rw [consolePutIbuf_del, edit_del, Nat.max_eq_left hdelete.le]
    exact hdelete
  · have hkill := h.kill hs
    rw [consolePutIbuf_kill, edit_kill, Nat.max_eq_left hkill.le]
    exact hkill

theorem Echoes.run (hs : s.InRange) (h : Echoes s s' chars n) {cs : List UInt8}
    (hcs : ∀ c ∈ cs, EditKey c) :
    Echoes s (cs.foldl consolePutIbuf s') (cs.foldl edit chars) (max n (peak chars cs)) := by
  induction cs generalizing s' chars n with
  | nil =>
      rw [peak, Nat.max_eq_left h.le]
      exact h
  | cons c cs ih =>
      have hstep := h.step hs (hcs c List.mem_cons_self)
      have hrest := ih hstep fun d hd => hcs d (List.mem_cons_of_mem c hd)
      have hreach := length_le_peak (edit chars c) cs
      rw [Nat.max_assoc, Nat.max_eq_right hreach] at hrest
      rw [peak, ← Nat.max_assoc, Nat.max_eq_left h.le]
      exact hrest

theorem Echoes.charAt (hs : s.InRange) (h : Echoes s s' chars n) {i : Nat} (hi : i < n) :
    s'.charAt (s.pos - vgaNumCols * scrolled s n + i) = chars[i]?.getD 0x20 := by
  have hstart : 80 * scrolled s n ≤ s.pos := scrolled_le hs h.fits
  have hlt : s.pos - 80 * scrolled s n + i < 2000 := by
    change 80 * ((s.pos + n) / 80 + 1 - 25) ≤ s.pos at hstart
    change s.pos - 80 * ((s.pos + n) / 80 + 1 - 25) + i < 2000
    omega
  have hindex : 80 * scrolled s n + (s.pos - 80 * scrolled s n + i) = s.pos + i := by omega
  have hcell := h.shows.cells _ hlt
  rw [Page.window, rows_withLine] at hcell
  refine hcell.trans ?_
  change (s.screenPage.withLine 80 0x20 chars n).cells
    (80 * scrolled s n + (s.pos - 80 * scrolled s n + i)) = _
  rw [hindex, Page.withLine]
  change (if s.pos + i < s.pos then _ else
    chars[s.pos + i - s.pos]?.getD (if s.pos + i < s.pos + n then 0x20 else _)) = _
  rw [if_neg (by omega), if_pos (by omega), Nat.add_sub_cancel_left]

theorem Echoes.charAt_before (hs : s.InRange) (h : Echoes s s' chars n) {j : Nat}
    (hj : j < s.pos - vgaNumCols * scrolled s n) :
    s'.charAt j = s.charAt (j + vgaNumCols * scrolled s n) := by
  have hpos : s.pos < 2000 := pos_lt hs
  have hlt : j < s.pos - 80 * scrolled s n := hj
  rw [h.shows.cells j (show j < 2000 by omega), Page.window, rows_withLine, Nat.add_comm j]
  change (if 80 * scrolled s n + j < s.pos then
    (if 80 * scrolled s n + j < 2000 then s.charAt (80 * scrolled s n + j) else 0x20) else _) = _
  rw [if_pos (by omega), if_pos (by omega)]
  rfl

theorem Echoes.onScreen (hs : s.InRange) (h : Echoes s s' chars n) : LineOnScreen s s' chars n where
  buffer := h.buffer
  inRange := h.shows.inRange
  start := scrolled_le hs h.fits
  cursor := by
    have hstart := scrolled_le hs h.fits
    have hend := h.pos
    omega
  text i hi := by
    rw [h.charAt hs (hi.trans_le h.le), List.getElem?_eq_getElem hi, Option.getD_some]
  erased i hi hend := by
    rw [h.charAt hs hi, List.getElem?_eq_none hend, Option.getD_none]
  before _ hj := h.charAt_before hs hj

end

/-- Whatever is typed, erased and killed from an empty line on, and wherever the
cursor was, the buffer holds the edited line and the screen shows it up to the
cursor. -/
theorem consolePutIbuf_lineOnScreen {s : Console} (hs : s.InRange)
    (hline : s.lineCompleted = false) (hw : s.widx = 0) {cs : List UInt8}
    (hcs : ∀ c ∈ cs, EditKey c) :
    LineOnScreen s (cs.foldl consolePutIbuf s) (cs.foldl edit []) (peak [] cs) := by
  have hempty : s.input.line = [] := by
    rw [Input.line, show s.input.widx = 0 from hw]
    rfl
  have hok : s.input.Ok := by
    refine ⟨?_, fun k hk => ?_⟩
    · rw [show s.input.widx = 0 from hw]
      exact Nat.zero_le _
    · rw [show s.input.widx = 0 from hw] at hk
      exact absurd hk (Nat.not_lt_zero k)
  have hshows := shows_screenPage hs
  have hpage : s.screenPage.withLine vgaNumCols 0x20 [] 0 = s.screenPage :=
    Page.withLine_nil hshows.pos_lt
  rw [← hpage] at hshows
  have hstart : Echoes s s [] 0 :=
    ⟨hshows, hok, hempty, hline, Nat.le_refl _, Nat.zero_le _⟩
  have hrun := hstart.run hs hcs
  rw [Nat.zero_max] at hrun
  exact hrun.onScreen hs

/-- `abc`, an erasure, a line kill and `d` in the last cell but one: the screen
scrolls by a row, and two cells behind the `d` are blank. -/
theorem consolePutIbuf_lineOnScreen_corner :
    scrolled { GetLine.sampleConsole with cursX := 78, cursY := 24 } 3 = 1 ∧
      LineOnScreen { GetLine.sampleConsole with cursX := 78, cursY := 24 }
        ([0x61, 0x62, 0x63, 0x08, 0x0d, 0x64].foldl consolePutIbuf
          { GetLine.sampleConsole with cursX := 78, cursY := 24 }) [0x64] 3 := by
  have hs : InRange { GetLine.sampleConsole with cursX := 78, cursY := 24 } :=
    ⟨by decide, by decide⟩
  exact ⟨rfl, consolePutIbuf_lineOnScreen hs rfl rfl (by simp [EditKey, printable])⟩

end Kboot86.Console
