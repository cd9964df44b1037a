import Kboot86.Drivers.Console
import Mathlib.Logic.Function.Basic

/-!
# The input of the console

The part of the console that lines are made in: the buffer, its length and the
flag that a line is complete. Drawing and clearing the screen leave it alone, so
what a key does to it depends on nothing else: `Input.key`.
-/

namespace Kboot86.Console

/-- What the keyboard ISR and the reader share. -/
structure Input where
  lineCompleted : Bool
  ibuf : Nat → UInt8
  widx : Nat

def input (s : Console) : Input where
  lineCompleted := s.lineCompleted
  ibuf := s.ibuf
  widx := s.widx

def printable (c : UInt8) : Bool :=
  c != 0x0a && c != 0x09 && c != 0x0d && c != 0x7f && c != 0x08

theorem printable_iff (c : UInt8) :
    printable c = true ↔ c ≠ 0x0a ∧ c ≠ 0x09 ∧ c ≠ 0x0d ∧ c ≠ 0x7f ∧ c ≠ 0x08 := by
  simp [printable, and_assoc]

namespace Input

def line (i : Input) : List UInt8 := (List.range i.widx).map i.ibuf

def delete (i : Input) : Input := if i.lineCompleted then i else { i with widx := i.widx - 1 }

def kill (i : Input) : Input := if i.lineCompleted then i else { i with widx := 0 }

def append (i : Input) (c : UInt8) : Input :=
  if i.widx = ibufSize then i
  else { i with ibuf := Function.update i.ibuf i.widx c, widx := i.widx + 1 }

def key (i : Input) (c : UInt8) : Input :=
  if c = 0x0a then { i with lineCompleted := true }
  else if c = 0x09 then i
  else if c = 0x0d then i.kill
  else if c = 0x7f then i
  else if c = 0x08 then i.delete
  else i.append c

@[simp] theorem length_line (i : Input) : i.line.length = i.widx := by
  rw [line, List.length_map, List.length_range]

theorem line_delete {i : Input} (h : i.lineCompleted = false) :
    i.delete.line = i.line.dropLast := by
  rw [delete, h, if_neg Bool.false_ne_true, line, line]
  dsimp only
  cases i.widx with
  | zero => rfl
  | succ n => rw [Nat.add_sub_cancel, List.range_succ, List.map_append, List.map_singleton,
      List.dropLast_concat]

theorem line_kill {i : Input} (h : i.lineCompleted = false) : i.kill.line = [] := by
  rw [kill, h, if_neg Bool.false_ne_true]
  rfl

theorem line_append (i : Input) (c : UInt8) :
    (i.append c).line = if i.widx = ibufSize then i.line else i.line ++ [c] := by
  rw [append]
  split
  · rfl
  rw [line, line]
  dsimp only
  rw [List.range_succ, List.map_append, List.map_singleton, Function.update_self]
  congr 1
  refine List.map_congr_left fun n hn => ?_
  rw [Function.update_of_ne (List.mem_range.mp hn).ne]

end Input

/-! ### What a key keeps -/

/-- The characters in the buffer are printable, and as many as it can hold. -/
structure Input.Ok (i : Input) : Prop where
  widx : i.widx ≤ ibufSize
  printable : ∀ k < i.widx, printable (i.ibuf k) = true

namespace Input.Ok

variable {i : Input}

theorem of_le (h : i.Ok) {j : Input} (hw : j.widx ≤ i.widx) (hibuf : j.ibuf = i.ibuf) : j.Ok where
  widx := hw.trans h.widx
  printable k hk := by
    rw [hibuf]
    exact h.printable k (hk.trans_le hw)

theorem append (h : i.Ok) {c : UInt8} (hc : Console.printable c = true) : (i.append c).Ok := by
  rw [Input.append]
  split
  · exact h
  next hfull =>
      refine ⟨Nat.lt_of_le_of_ne h.widx hfull, fun k hk => ?_⟩
      dsimp only at hk ⊢
      by_cases hki : k = i.widx
      · rw [hki, Function.update_self]
        exact hc
      · rw [Function.update_of_ne hki]
        exact h.printable k (by omega)

theorem key (h : i.Ok) (c : UInt8) : (i.key c).Ok := by
  rw [Input.key]
  split
  · exact h.of_le (Nat.le_refl _) rfl
  split
  · exact h
  split
  · rw [Input.kill]
    split
    · exact h
    · exact h.of_le (Nat.zero_le _) rfl
  split
  · exact h
  split
  · rw [Input.delete]
    split
    · exact h
    · exact h.of_le (Nat.sub_le _ _) rfl
  next hnl htab hkill hclear hdel =>
      exact h.append ((printable_iff c).mpr ⟨hnl, htab, hkill, hclear, hdel⟩)

end Input.Ok

theorem Input.printable_key {i : Input} {j : Nat} (h : printable (i.ibuf j) = true) (c : UInt8) :
    printable ((i.key c).ibuf j) = true := by
  rw [Input.key]
  split
  · exact h
  split
  · exact h
  split
  · rw [Input.kill]
    split
    · exact h
    · exact h
  split
  · exact h
  split
  · rw [Input.delete]
    split
    · exact h
    · exact h
  next hnl htab hkill hclear hdel =>
      rw [Input.append]
      split
      · exact h
      · dsimp only
        by_cases hj : j = i.widx
        · rw [hj, Function.update_self]
          exact (printable_iff c).mpr ⟨hnl, htab, hkill, hclear, hdel⟩
        · rwa [Function.update_of_ne hj]

theorem Input.append_flag (i : Input) (c : UInt8) :
    (i.append c).lineCompleted = i.lineCompleted := by
  rw [Input.append]
  split
  · rfl
  · rfl

/-! ### Drawing leaves the input alone -/

@[simp] theorem input_drawCursor (s : Console) : s.drawCursor.input = s.input := rfl

@[simp] theorem input_lineFeed (s : Console) : s.lineFeed.input = s.input := by
  rw [lineFeed]
  dsimp only
  split
  · rfl
  · rfl

@[simp] theorem input_cursForward (s : Console) : s.cursForward.input = s.input := by
  rw [cursForward]
  dsimp only
  split
  · rw [input_lineFeed]
    rfl
  · rfl

@[simp] theorem input_cursBackward (s : Console) : s.cursBackward.input = s.input := by
  rw [cursBackward]
  split
  · rfl
  · rfl

@[simp] theorem input_putcAttr (s : Console) (c attr : UInt8) :
    (s.putcAttr c attr).input = s.input := by
  rw [putcAttr, input_cursForward]
  rfl

@[simp] theorem input_putcOther (s : Console) (c : UInt8) (display : Bool) :
    (s.putcOther c display).input = s.input := by
  rw [putcOther]
  split
  · rw [input_putcAttr]
  · rfl

theorem input_tabTo (s : Console) (n : Nat) : (s.tabTo n).input = s.input := by
  induction n with
  | zero => rfl
  | succ n ih => rw [tabTo, input_putcOther, ih]

@[simp] theorem input_tab (s : Console) : s.tab.input = s.input := input_tabTo s tabWidth

theorem putc_of_printable (s : Console) {c : UInt8} (hc : printable c = true) (display : Bool) :
    s.putc c display = (s.putcOther c display, 1) := by
  obtain ⟨hnl, htab, hkill, hclear, hdel⟩ := (printable_iff c).mp hc
  rw [putc, if_neg hnl, if_neg htab, if_neg hkill, if_neg hclear, if_neg hdel]

theorem input_putc_of_printable (s : Console) {c : UInt8} (hc : printable c = true)
    (display : Bool) : (s.putc c display).1.input = s.input := by
  rw [putc_of_printable s hc, input_putcOther]

/-! ### The keys -/

theorem input_delIbuf (s : Console) : s.delIbuf.1.input = s.input.delete := by
  have hflag : s.input.lineCompleted = s.lineCompleted := rfl
  rw [delIbuf, Input.delete, hflag]
  cases hline : s.lineCompleted with
  | true => rfl
  | false =>
      rw [if_neg Bool.false_ne_true, if_neg Bool.false_ne_true]
      by_cases hw : s.widx = 0
      · have hempty : s.ibufIsEmpty = true := beq_iff_eq.mpr hw
        rw [if_pos hempty]
        simp only [input, hw, hline]
      · have hempty : ¬ s.ibufIsEmpty = true := fun h => hw (beq_iff_eq.mp h)
        rw [if_neg hempty]
        dsimp only
        rw [input_drawCursor, input_cursBackward, input_putcOther, input_cursBackward]
        simp only [input, hline]

theorem Input.delete_kill (i : Input) : i.delete.kill = i.kill := by
  rw [Input.kill, Input.kill, Input.delete]
  cases hline : i.lineCompleted with
  | true => simp [hline]
  | false => simp

theorem input_killFrom {n : Nat} {s : Console} (hn : s.widx < n) :
    (killFrom n s).input = s.input.kill := by
  induction n generalizing s with
  | zero => exact absurd hn (Nat.not_lt_zero _)
  | succ n ih =>
      rw [killFrom]
      by_cases hdel : s.delIbuf.2 = 0
      · obtain ⟨-, hw, hwidx, -⟩ := delIbuf_of_zero hdel
        rw [if_pos hdel, ih (by omega), input_delIbuf, Input.delete_kill]
      · have hstop := delIbuf_of_ne_zero hdel
        rw [if_neg hdel, hstop]
        dsimp only
        rcases nothing_of_ne_zero hdel with hline | hw
        · simp [Input.kill, input, hline]
        · simp [Input.kill, input, hw]

theorem input_kill (s : Console) : s.kill.input = s.input.kill :=
  input_killFrom (Nat.lt_succ_self _)

/-- The end of `console_put_ibuf` for a character that is printable. -/
theorem input_append (s : Console) (c : UInt8) :
    (if (1 : Int) ≠ 0 ∧ (!s.ibufIsFull) = true then
        ({ s with
          ibuf := Function.update s.ibuf s.widx c
          widx := s.widx + 1 } : Console).drawCursor
      else s).input = s.input.append c := by
  have hwidx : s.input.widx = s.widx := rfl
  rw [Input.append, hwidx, ibufIsFull]
  by_cases hfull : s.widx = ibufSize
  · rw [if_neg (by simp [hfull]), if_pos hfull]
  · rw [if_pos (by simp [hfull]), if_neg hfull]
    rfl

theorem input_consolePutIbuf (s : Console) (c : UInt8) :
    (s.consolePutIbuf c).input = s.input.key c := by
  rw [consolePutIbuf, Input.key]
  by_cases hnl : c = 0x0a
  · rw [if_pos hnl, if_pos hnl, putc, if_pos hnl]
    dsimp only
    rw [if_neg (by simp), input_lineFeed]
    rfl
  rw [if_neg hnl, if_neg hnl, putc, if_neg hnl]
  by_cases htab : c = 0x09
  · rw [if_pos htab, if_pos htab]
    dsimp only
    rw [if_neg (by simp), input_tab]
  rw [if_neg htab, if_neg htab]
  by_cases hkill : c = 0x0d
  · rw [if_pos hkill, if_pos hkill]
    dsimp only
    rw [if_neg (by simp), input_kill]
  rw [if_neg hkill, if_neg hkill]
  by_cases hclear : c = 0x7f
  · rw [if_pos hclear, if_pos hclear]
    dsimp only
    rw [if_neg (by simp)]
    rfl
  rw [if_neg hclear, if_neg hclear]
  by_cases hdel : c = 0x08
  · rw [if_pos hdel, if_pos hdel]
    dsimp only
    rw [if_neg (by simp), input_delIbuf]
  rw [if_neg hdel, if_neg hdel]
  dsimp only
  rw [input_append, input_putcOther]

end Kboot86.Console
