import Kboot86.Drivers.Console

/-!
# The cursor stays on the screen

The cursor leaves the screen only when a deletion moves it back from the first
cell. The input buffer does not know where the cursor is: `console_clear` moves
the cursor home and keeps the buffer, and so does output that scrolls. A step
of the console is therefore right exactly when it deletes no more characters
than there are cells before the cursor.
-/

namespace Kboot86.Console

open Vga

def InRange (s : Console) : Prop :=
  s.cursX.toNat < vgaNumCols ∧ s.cursY.toNat < vgaNumRows

def pos (s : Console) : Nat := s.cursY.toNat * vgaNumCols + s.cursX.toNat

@[simp] theorem inRange_drawCursor (s : Console) : s.drawCursor.InRange ↔ s.InRange := Iff.rfl

@[simp] theorem pos_drawCursor (s : Console) : s.drawCursor.pos = s.pos := rfl

theorem toNat_add_one {x : UInt8} {n : Nat} (hx : x.toNat < n) (hn : n < 256) :
    (x + 1).toNat = x.toNat + 1 := by
  rw [UInt8.toNat_add, UInt8.toNat_one]
  omega

theorem toNat_sub_one {x : UInt8} (hx : x ≠ 0) : (x - 1).toNat = x.toNat - 1 := by
  have hpos : x.toNat ≠ 0 := fun h => hx (UInt8.toNat_inj.mp h)
  have hlt := x.toNat_lt
  rw [UInt8.toNat_sub, UInt8.toNat_one]
  omega

/-! ### Moving the cursor -/

section Moves

variable {s : Console}

theorem inRange_lineFeed (hs : s.InRange) : s.lineFeed.InRange := by
  rcases hs with ⟨-, hy⟩
  have hnext := toNat_add_one hy (by decide)
  have hfirst : (0 : UInt8).toNat < vgaNumCols := by decide
  have hlast : (UInt8.ofNat (vgaNumRows - 1)).toNat < vgaNumRows := by decide
  unfold lineFeed
  dsimp only
  split
  · exact ⟨hfirst, hlast⟩
  next hne =>
      have hrow : s.cursY.toNat + 1 ≠ vgaNumRows := fun h =>
        hne (UInt8.toNat_inj.mp (hnext.trans h))
      refine ⟨hfirst, ?_⟩
      show (s.cursY + 1).toNat < vgaNumRows
      omega

theorem inRange_cursForward (hs : s.InRange) : s.cursForward.InRange := by
  have hnext := toNat_add_one hs.1 (by decide)
  unfold cursForward
  dsimp only
  split
  · have hfeed : ∀ x, ({ s with cursX := x } : Console).lineFeed = s.lineFeed := fun _ => rfl
    rw [hfeed]
    exact inRange_lineFeed hs
  next hne =>
      have hcol : s.cursX.toNat + 1 ≠ vgaNumCols := fun h =>
        hne (UInt8.toNat_inj.mp (hnext.trans h))
      refine ⟨?_, hs.2⟩
      show (s.cursX + 1).toNat < vgaNumCols
      have := hs.1
      omega

theorem pos_cursForward (hs : s.InRange) (hpos : s.pos + 1 < vgaNumRows * vgaNumCols) :
    s.cursForward.pos = s.pos + 1 := by
  have hx := toNat_add_one hs.1 (by decide)
  have hy := toNat_add_one hs.2 (by decide)
  unfold cursForward
  dsimp only
  split
  next heq =>
      have hcol : s.cursX.toNat + 1 = vgaNumCols := by
        rw [← hx, heq]
        rfl
      have hrow : s.cursY + 1 ≠ UInt8.ofNat vgaNumRows := by
        intro hrow
        have hlast : s.cursY.toNat + 1 = vgaNumRows := by
          rw [← hy, hrow]
          rfl
        simp only [pos, vgaNumCols, vgaNumRows] at hpos hcol hlast
        omega
      unfold lineFeed
      dsimp only
      rw [if_neg hrow]
      show (s.cursY + 1).toNat * vgaNumCols + (0 : UInt8).toNat = s.pos + 1
      rw [hy, pos, Nat.succ_mul, UInt8.toNat_zero]
      omega
  next =>
      show s.cursY.toNat * vgaNumCols + (s.cursX + 1).toNat = s.pos + 1
      rw [hx, pos]
      omega

theorem cursBackward_of_pos (hs : s.InRange) (hpos : 0 < s.pos) :
    s.cursBackward.InRange ∧ s.cursBackward.pos + 1 = s.pos := by
  rcases hs with ⟨hx, hy⟩
  unfold cursBackward
  split
  next hzero =>
      have hxz : s.cursX.toNat = 0 := by rw [hzero]; rfl
      have hyz : s.cursY ≠ 0 := by
        intro hyz
        rw [pos, hxz, hyz] at hpos
        simp at hpos
      have hprev := toNat_sub_one hyz
      have hyp : s.cursY.toNat ≠ 0 := fun h => hyz (UInt8.toNat_inj.mp h)
      have hlast : (UInt8.ofNat (vgaNumCols - 1)).toNat = vgaNumCols - 1 := rfl
      refine ⟨⟨?_, ?_⟩, ?_⟩
      · show (UInt8.ofNat (vgaNumCols - 1)).toNat < vgaNumCols
        omega
      · show (s.cursY - 1).toNat < vgaNumRows
        omega
      · show (s.cursY - 1).toNat * vgaNumCols + (UInt8.ofNat (vgaNumCols - 1)).toNat + 1 = s.pos
        rw [hprev, hlast, pos, hxz, vgaNumCols]
        omega
  next hne =>
      have hprev := toNat_sub_one hne
      have hxp : s.cursX.toNat ≠ 0 := fun h => hne (UInt8.toNat_inj.mp h)
      refine ⟨⟨?_, hy⟩, ?_⟩
      · show (s.cursX - 1).toNat < vgaNumCols
        omega
      · show s.cursY.toNat * vgaNumCols + (s.cursX - 1).toNat + 1 = s.pos
        rw [hprev, pos]
        omega

theorem cursBackward_of_zero (hpos : s.pos = 0) :
    s.cursBackward.cursX = 79 ∧ s.cursBackward.cursY = 255 := by
  simp only [pos, vgaNumCols, Nat.add_eq_zero_iff, Nat.mul_eq_zero] at hpos
  have hx : s.cursX = 0 := UInt8.toNat_inj.mp hpos.2
  have hy : s.cursY = 0 := UInt8.toNat_inj.mp (hpos.1.resolve_right (by decide))
  rw [cursBackward, if_pos hx, hy]
  exact ⟨rfl, rfl⟩

theorem pos_lt (hs : s.InRange) : s.pos < vgaNumRows * vgaNumCols := by
  have hx := hs.1
  have hy := hs.2
  simp only [pos, vgaNumRows, vgaNumCols] at hx hy ⊢
  omega

@[simp] theorem confined_lineFeed : s.lineFeed.vga.Confined ↔ s.vga.Confined := by
  unfold lineFeed
  dsimp only
  split
  · exact confined_scrollDown s.vga
  · exact Iff.rfl

@[simp] theorem confined_cursForward : s.cursForward.vga.Confined ↔ s.vga.Confined := by
  unfold cursForward
  dsimp only
  split
  · exact confined_lineFeed
  · exact Iff.rfl

theorem onScreen_cursor : OnScreen s.cursX.toUInt32 s.cursY.toUInt32 ↔ s.InRange := by
  rw [OnScreen, UInt8.toNat_toUInt32, UInt8.toNat_toUInt32, InRange]

theorem confined_putcAttr (c attr : UInt8) :
    (s.putcAttr c attr).vga.Confined ↔ s.vga.Confined ∧ s.InRange := by
  rw [putcAttr, confined_cursForward, confined_writec, onScreen_cursor]

theorem inRange_putcAttr (hs : s.InRange) (c attr : UInt8) : (s.putcAttr c attr).InRange :=
  inRange_cursForward (s := { s with vga := _ }) hs

theorem pos_putcAttr (hs : s.InRange) (c attr : UInt8)
    (hpos : s.pos + 1 < vgaNumRows * vgaNumCols) : (s.putcAttr c attr).pos = s.pos + 1 :=
  pos_cursForward (s := { s with vga := _ }) hs hpos

theorem confined_putcOther (hs : s.InRange) (c : UInt8) (display : Bool) :
    (s.putcOther c display).vga.Confined ↔ s.vga.Confined := by
  unfold putcOther
  split
  · rw [confined_putcAttr]
    exact and_iff_left hs
  · exact Iff.rfl

theorem inRange_putcOther (hs : s.InRange) (c : UInt8) (display : Bool) :
    (s.putcOther c display).InRange := by
  unfold putcOther
  split
  · exact inRange_putcAttr hs _ _
  · exact hs

theorem inRange_tabTo (hs : s.InRange) (n : Nat) : (s.tabTo n).InRange := by
  induction n with
  | zero => exact hs
  | succ n ih => exact inRange_putcOther ih _ _

theorem confined_tabTo (hs : s.InRange) (n : Nat) :
    (s.tabTo n).vga.Confined ↔ s.vga.Confined := by
  induction n with
  | zero => exact Iff.rfl
  | succ n ih => rw [tabTo, confined_putcOther (inRange_tabTo hs n), ih]

theorem inRange_tab (hs : s.InRange) : s.tab.InRange := inRange_tabTo hs tabWidth

theorem confined_tab (hs : s.InRange) : s.tab.vga.Confined ↔ s.vga.Confined :=
  confined_tabTo hs tabWidth

theorem home_inRange : (0 : UInt8).toNat < vgaNumCols ∧ (0 : UInt8).toNat < vgaNumRows := by
  decide

theorem inRange_consoleClear (s : Console) : s.consoleClear.InRange := home_inRange

end Moves

/-! ### Deletions -/

section Deletions

variable {s : Console}

theorem inRange_cursBackward_iff (hs : s.InRange) : s.cursBackward.InRange ↔ 0 < s.pos := by
  constructor
  · intro hback
    by_contra hpos
    obtain ⟨-, hy⟩ := cursBackward_of_zero (Nat.eq_zero_of_not_pos hpos)
    have hout := hback.2
    rw [hy] at hout
    exact absurd hout (by decide)
  · exact fun hpos => (cursBackward_of_pos hs hpos).1

theorem confined_delIbuf (hs : s.InRange) (hline : s.lineCompleted = false) (hw : s.widx ≠ 0) :
    s.delIbuf.1.vga.Confined ↔ s.vga.Confined ∧ 0 < s.pos := by
  have hback := inRange_cursBackward_iff (s := { s with widx := s.widx - 1 }) hs
  rw [delIbuf_eq hline hw, drawCursor, confined_drawCursor, cursBackward_vga, putcOther, if_pos rfl,
    confined_putcAttr, cursBackward_vga, hback]
  exact Iff.rfl

theorem inRange_blank {t : Console} (ht : t.InRange) (hpos : 0 < t.pos) :
    (t.cursBackward.putcOther 0x20 true).cursBackward.InRange ∧
      (t.cursBackward.putcOther 0x20 true).cursBackward.pos + 1 = t.pos := by
  obtain ⟨hback, hprev⟩ := cursBackward_of_pos ht hpos
  have hlt := pos_lt ht
  have hblank : (t.cursBackward.putcOther 0x20 true).pos = t.pos := by
    rw [putcOther, if_pos rfl, pos_putcAttr hback _ _ (by omega), hprev]
  obtain ⟨hrange, hdel⟩ := cursBackward_of_pos (inRange_putcOther hback 0x20 true) (by omega)
  exact ⟨hrange, hdel.trans hblank⟩

theorem inRange_delIbuf (hs : s.InRange) (hline : s.lineCompleted = false) (hw : s.widx ≠ 0)
    (hpos : 0 < s.pos) : s.delIbuf.1.InRange ∧ s.delIbuf.1.pos + 1 = s.pos := by
  have hsame : ({ s with widx := s.widx - 1 } : Console).pos = s.pos := rfl
  have hblank := inRange_blank (t := { s with widx := s.widx - 1 }) hs hpos
  rw [hsame] at hblank
  rw [delIbuf_eq hline hw, inRange_drawCursor, pos_drawCursor]
  exact hblank

theorem confined_of_delIbuf (h : s.delIbuf.1.vga.Confined) : s.vga.Confined := by
  by_cases hdel : s.delIbuf.2 = 0
  · obtain ⟨hline, hw, -⟩ := delIbuf_of_zero hdel
    rw [delIbuf_eq hline hw, drawCursor, confined_drawCursor, cursBackward_vga, putcOther,
      if_pos rfl, confined_putcAttr, cursBackward_vga] at h
    exact h.1
  · rwa [delIbuf_of_ne_zero hdel] at h

theorem confined_of_killFrom {n : Nat} (h : (killFrom n s).vga.Confined) : s.vga.Confined := by
  induction n generalizing s with
  | zero => exact h
  | succ n ih =>
      rw [killFrom] at h
      split at h
      · exact confined_of_delIbuf (ih h)
      · exact confined_of_delIbuf h

theorem confined_killFrom {n : Nat} (hn : s.widx ≤ n) (hs : s.InRange)
    (hline : s.lineCompleted = false) :
    (killFrom n s).vga.Confined ↔ s.vga.Confined ∧ s.widx ≤ s.pos := by
  induction n generalizing s with
  | zero => exact (and_iff_left (by omega)).symm
  | succ n ih =>
      rw [killFrom]
      by_cases hw : s.widx = 0
      · rw [delIbuf_of_nothing (.inr hw), if_neg (show (-1 : Int) ≠ 0 by decide)]
        exact (and_iff_left (by omega)).symm
      · have hdel : s.delIbuf.2 = 0 := (delIbuf_code s).mpr ⟨hline, hw⟩
        obtain ⟨-, -, hwidx, hline'⟩ := delIbuf_of_zero hdel
        have hconf := confined_delIbuf hs hline hw
        rw [if_pos hdel]
        by_cases hpos : 0 < s.pos
        · obtain ⟨hrange, hprev⟩ := inRange_delIbuf hs hline hw hpos
          rw [ih (by omega) hrange hline', hconf]
          constructor
          · rintro ⟨⟨hv, -⟩, hle⟩
            exact ⟨hv, by omega⟩
          · rintro ⟨hv, hle⟩
            exact ⟨⟨hv, hpos⟩, by omega⟩
        · constructor
          · intro hkill
            exact absurd (hconf.mp (confined_of_killFrom hkill)).2 hpos
          · rintro ⟨-, hle⟩
            omega

theorem inRange_killFrom {n : Nat} (hs : s.InRange)
    (hle : s.lineCompleted = true ∨ s.widx ≤ s.pos) : (killFrom n s).InRange := by
  induction n generalizing s with
  | zero => exact hs
  | succ n ih =>
      rw [killFrom]
      by_cases hdel : s.delIbuf.2 = 0
      · obtain ⟨hline, hw, hwidx, -⟩ := delIbuf_of_zero hdel
        have hfit : s.widx ≤ s.pos := hle.resolve_left (by simp [hline])
        obtain ⟨hrange, hprev⟩ := inRange_delIbuf hs hline hw (by omega)
        rw [if_pos hdel]
        exact ih hrange (.inr (by omega))
      · rw [if_neg hdel, delIbuf_of_ne_zero hdel]
        exact hs

theorem inRange_kill (hs : s.InRange) (hle : s.lineCompleted = true ∨ s.widx ≤ s.pos) :
    s.kill.InRange := inRange_killFrom hs hle

end Deletions

/-! ### Characters -/

/-- The condition on a character: a deletion finds enough cells before the cursor. -/
def Safe (s : Console) (c : UInt8) : Prop :=
  (c = 0x08 → s.lineCompleted = true ∨ s.widx = 0 ∨ 0 < s.pos) ∧
    (c = 0x0d → s.lineCompleted = true ∨ s.widx ≤ s.pos)

section Characters

variable {s : Console} {c : UInt8} {display : Bool}

theorem confined_kill (hs : s.InRange) :
    s.kill.vga.Confined ↔ s.vga.Confined ∧ (s.lineCompleted = true ∨ s.widx ≤ s.pos) := by
  cases hline : s.lineCompleted with
  | true =>
      have hstop : s.kill = s := by
        rw [kill, killFrom, delIbuf_of_nothing (.inl hline)]
        rfl
      rw [hstop]
      exact (and_iff_left (.inl rfl)).symm
  | false =>
      rw [kill, confined_killFrom (Nat.le_succ _) hs hline]
      simp

theorem confined_delIbuf_iff (hs : s.InRange) :
    s.delIbuf.1.vga.Confined ↔
      s.vga.Confined ∧ (s.lineCompleted = true ∨ s.widx = 0 ∨ 0 < s.pos) := by
  cases hline : s.lineCompleted with
  | true =>
      rw [delIbuf_of_nothing (.inl hline)]
      exact (and_iff_left (.inl rfl)).symm
  | false =>
      by_cases hw : s.widx = 0
      · rw [delIbuf_of_nothing (.inr hw)]
        exact (and_iff_left (.inr (.inl hw))).symm
      · rw [confined_delIbuf hs hline hw]
        simp [hw]

/-- A character is written on the screen exactly when the condition holds. -/
theorem confined_putc (hs : s.InRange) :
    (s.putc c display).1.vga.Confined ↔ s.vga.Confined ∧ s.Safe c := by
  unfold putc Safe
  split
  next hc => simp [hc]
  split
  next hc => simp [hc, confined_tab hs]
  split
  next hc => simp [hc, confined_kill hs]
  split
  next hc => simp [hc, consoleClear]
  split
  next hc => simp [hc, confined_delIbuf_iff hs]
  next => simp_all [confined_putcOther hs]

theorem inRange_putc (hs : s.InRange) (hsafe : s.Safe c) : (s.putc c display).1.InRange := by
  unfold putc
  split
  · exact inRange_lineFeed hs
  split
  · dsimp only
    exact inRange_tab hs
  split
  next hc =>
      dsimp only
      exact inRange_kill hs (hsafe.2 hc)
  split
  · exact inRange_consoleClear s
  split
  next hc =>
      by_cases hdel : s.delIbuf.2 = 0
      · obtain ⟨hline, hw, -⟩ := delIbuf_of_zero hdel
        have hpos := ((hsafe.1 hc).resolve_left (by simp [hline])).resolve_left hw
        exact (inRange_delIbuf hs hline hw hpos).1
      · rw [delIbuf_of_ne_zero hdel]
        exact hs
  · exact inRange_putcOther hs _ _

theorem confined_of_putcOther (h : (s.putcOther c display).vga.Confined) : s.vga.Confined := by
  unfold putcOther at h
  split at h
  · exact ((confined_putcAttr _ _).mp h).1
  · exact h

theorem confined_of_tabTo {n : Nat} (h : (s.tabTo n).vga.Confined) : s.vga.Confined := by
  induction n with
  | zero => exact h
  | succ n ih => exact ih (confined_of_putcOther h)

theorem confined_of_tab (h : s.tab.vga.Confined) : s.vga.Confined := confined_of_tabTo h

theorem confined_of_kill (h : s.kill.vga.Confined) : s.vga.Confined := confined_of_killFrom h

theorem confined_of_putc (h : (s.putc c display).1.vga.Confined) : s.vga.Confined := by
  unfold putc at h
  split at h
  · exact confined_lineFeed.mp h
  split at h
  · exact confined_of_tab h
  split at h
  · exact confined_of_kill h
  split at h
  · exact (confined_clear s.vga).mp h
  split at h
  · exact confined_of_delIbuf h
  · exact confined_of_putcOther h

/-- `console_put_ibuf` moves the cursor and writes as `_putc` does. -/
theorem consolePutIbuf_screen (s : Console) (c : UInt8) :
    ∃ s' : Console, s'.vga = s.vga ∧ s'.cursX = s.cursX ∧ s'.cursY = s.cursY ∧
      (s'.Safe c ↔ s.Safe c) ∧
      ((s.consolePutIbuf c).vga.Confined ↔ (s'.putc c (!s'.ibufIsFull)).1.vga.Confined) ∧
      ((s.consolePutIbuf c).InRange ↔ (s'.putc c (!s'.ibufIsFull)).1.InRange) := by
  by_cases hc : c = 0x0a
  · refine ⟨{ s with lineCompleted := true }, rfl, rfl, rfl, ?_, ?_⟩
    · simp [Safe, hc]
    · unfold consolePutIbuf
      rw [if_pos hc]
      dsimp only
      split <;> exact ⟨Iff.rfl, Iff.rfl⟩
  · refine ⟨s, rfl, rfl, rfl, Iff.rfl, ?_⟩
    unfold consolePutIbuf
    rw [if_neg hc]
    dsimp only
    split <;> exact ⟨Iff.rfl, Iff.rfl⟩

end Characters

/-! ### Runs -/

/-- What the callers of the console do, a character at a time: a string is its
characters and the drawing of the cursor. -/
inductive Event
  | putc (c : UInt8)
  | drawCursor
  | clear
  | putIbuf (c : UInt8)

def exec (s : Console) : Event → Console
  | .putc c => (s.putc c true).1
  | .drawCursor => s.drawCursor
  | .clear => s.consoleClear
  | .putIbuf c => s.consolePutIbuf c

def SafeStep (s : Console) : Event → Prop
  | .putc c | .putIbuf c => s.Safe c
  | .drawCursor | .clear => True

def SafeSteps : Console → List Event → Prop
  | _, [] => True
  | s, e :: es => s.SafeStep e ∧ (s.exec e).SafeSteps es

inductive Call
  | puts (str : Option (List UInt8))
  | clear
  | putIbuf (c : UInt8)

def call (s : Console) : Call → Console
  | .puts str => (s.consolePuts str).1
  | .clear => s.consoleClear
  | .putIbuf c => s.consolePutIbuf c

def Call.events : Call → List Event
  | .puts none => []
  | .puts (some str) => (str.takeWhile (· ≠ 0)).map .putc ++ [.drawCursor]
  | .clear => [.clear]
  | .putIbuf c => [.putIbuf c]

theorem call_eq (s : Console) (c : Call) : s.call c = c.events.foldl exec s := by
  cases c with
  | puts str =>
      cases str with
      | none => rfl
      | some str =>
          rw [Call.events, List.foldl_append, List.foldl_map]
          rfl
  | clear => rfl
  | putIbuf c => rfl

theorem calls_eq (s : Console) (cs : List Call) :
    cs.foldl call s = (cs.flatMap Call.events).foldl exec s := by
  induction cs generalizing s with
  | nil => rfl
  | cons c cs ih => rw [List.foldl_cons, ih, call_eq, List.flatMap_cons, List.foldl_append]

theorem confined_exec {s : Console} (hs : s.InRange) (e : Event) :
    (s.exec e).vga.Confined ↔ s.vga.Confined ∧ s.SafeStep e := by
  cases e with
  | putc c => exact confined_putc hs
  | drawCursor => exact (and_iff_left trivial).symm
  | clear => exact (confined_clear s.vga).trans (and_iff_left trivial).symm
  | putIbuf c =>
      obtain ⟨s', hv, hx, hy, hsafe, hconf, -⟩ := consolePutIbuf_screen s c
      have hs' : s'.InRange := by
        rw [InRange, hx, hy]
        exact hs
      rw [exec, hconf, confined_putc hs', hv, hsafe]
      exact Iff.rfl

theorem inRange_exec {s : Console} (hs : s.InRange) {e : Event} (hsafe : s.SafeStep e) :
    (s.exec e).InRange := by
  cases e with
  | putc c => exact inRange_putc hs hsafe
  | drawCursor => exact hs
  | clear => exact inRange_consoleClear s
  | putIbuf c =>
      obtain ⟨s', -, hx, hy, hsafe', -, hrange⟩ := consolePutIbuf_screen s c
      have hs' : s'.InRange := by
        rw [InRange, hx, hy]
        exact hs
      exact hrange.mpr (inRange_putc hs' (hsafe'.mpr hsafe))

theorem confined_of_exec {s : Console} {e : Event} (h : (s.exec e).vga.Confined) :
    s.vga.Confined := by
  cases e with
  | putc c => exact confined_of_putc h
  | drawCursor => exact h
  | clear => exact (confined_clear s.vga).mp h
  | putIbuf c =>
      obtain ⟨s', hv, -, -, -, hconf, -⟩ := consolePutIbuf_screen s c
      rw [← hv]
      exact confined_of_putc (hconf.mp h)

theorem confined_of_steps {s : Console} {es : List Event}
    (h : (es.foldl exec s).vga.Confined) : s.vga.Confined := by
  induction es generalizing s with
  | nil => exact h
  | cons e es ih => exact confined_of_exec (ih h)

theorem confined_steps {s : Console} (hs : s.InRange) (es : List Event) :
    (es.foldl exec s).vga.Confined ↔ s.vga.Confined ∧ s.SafeSteps es := by
  induction es generalizing s with
  | nil => exact (and_iff_left trivial).symm
  | cons e es ih =>
      have hstep := confined_exec hs e
      rw [List.foldl_cons, SafeSteps]
      by_cases hsafe : s.SafeStep e
      · rw [ih (inRange_exec hs hsafe), hstep, and_assoc]
      · constructor
        · intro h
          exact absurd (hstep.mp (confined_of_steps h)).2 hsafe
        · rintro ⟨-, h, -⟩
          exact absurd h hsafe

theorem inRange_steps {s : Console} (hs : s.InRange) {es : List Event} (hsafe : s.SafeSteps es) :
    (es.foldl exec s).InRange := by
  induction es generalizing s with
  | nil => exact hs
  | cons e es ih => exact ih (inRange_exec hs hsafe.1) hsafe.2

theorem safeSteps_append {s : Console} {es fs : List Event} :
    s.SafeSteps (es ++ fs) ↔ s.SafeSteps es ∧ (es.foldl exec s).SafeSteps fs := by
  induction es generalizing s with
  | nil => exact (and_iff_right trivial).symm
  | cons e es ih => rw [List.cons_append, SafeSteps, ih, SafeSteps, List.foldl_cons, and_assoc]

def initial (mem : UInt16 → UInt16) (cursor : UInt16) (ibuf : Nat → UInt8) : Console :=
  ({ attr := 0, cursX := 0, cursY := 0, lineCompleted := false, ibuf := ibuf, widx := 0,
     cleared := false, vga := { mem := mem, cursor := cursor, calls := [] } } : Console).consoleInit

theorem initial_inRange (mem : UInt16 → UInt16) (cursor : UInt16) (ibuf : Nat → UInt8) :
    (initial mem cursor ibuf).InRange := home_inRange

theorem initial_confined (mem : UInt16 → UInt16) (cursor : UInt16) (ibuf : Nat → UInt8) :
    (initial mem cursor ibuf).vga.Confined :=
  (confined_clear _).mpr fun _ hp => absurd hp List.not_mem_nil

/-- After `console_init` the cursor stays on the screen between the calls, and
every character is written to a cell of it, exactly when no deletion in these
calls finds fewer cells before the cursor than it takes. -/
theorem console_confined_iff (mem : UInt16 → UInt16) (cursor : UInt16) (ibuf : Nat → UInt8)
    (cs : List Call) :
    ((∀ ds, ds <+: cs → (ds.foldl call (initial mem cursor ibuf)).InRange) ∧
        ∀ p ∈ (cs.foldl call (initial mem cursor ibuf)).vga.calls, OnScreen p.1 p.2) ↔
      (initial mem cursor ibuf).SafeSteps (cs.flatMap Call.events) := by
  have hstart := initial_inRange mem cursor ibuf
  have hiff := confined_steps hstart (cs.flatMap Call.events)
  rw [← calls_eq] at hiff
  constructor
  · rintro ⟨-, hconf⟩
    exact (hiff.mp hconf).2
  · intro hsafe
    refine ⟨?_, hiff.mpr ⟨initial_confined mem cursor ibuf, hsafe⟩⟩
    rintro ds ⟨rest, rfl⟩
    rw [List.flatMap_append, safeSteps_append] at hsafe
    rw [calls_eq]
    exact inRange_steps hstart hsafe.1

section Sample

/-- A character typed, the screen cleared, and the character deleted. -/
theorem console_unconfined :
    ¬ ∀ (mem : UInt16 → UInt16) (cursor : UInt16) (ibuf : Nat → UInt8) (cs : List Call),
      (∀ ds, ds <+: cs → (ds.foldl call (initial mem cursor ibuf)).InRange) ∧
        ∀ p ∈ (cs.foldl call (initial mem cursor ibuf)).vga.calls, OnScreen p.1 p.2 := by
  intro hclaim
  obtain ⟨-, hconf⟩ := hclaim (fun _ => 0) 0 (fun _ => 0) [.putIbuf 0x61, .clear, .putIbuf 0x08]
  rw [calls_eq] at hconf
  have hsafe := ((confined_steps (initial_inRange _ _ _) _).mp hconf).2
  exact absurd (hsafe.2.2.1.1 rfl) (by decide)

theorem console_confined_iff_sample :
    ∀ p ∈ ([Call.putIbuf 0x61, .putIbuf 0x08].foldl call
      (initial (fun _ => 0) 0 fun _ => 0)).vga.calls, OnScreen p.1 p.2 := by
  refine ((console_confined_iff (fun _ => 0) 0 (fun _ => 0) [.putIbuf 0x61, .putIbuf 0x08]).mpr
    ⟨⟨by decide, by decide⟩, ⟨by decide, by decide⟩, trivial⟩).2

end Sample

end Kboot86.Console
