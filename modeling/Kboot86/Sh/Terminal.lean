import Kboot86.Drivers.Console.Delivery
import Kboot86.Drivers.Keyboard
import Kboot86.Sh.Effect

/-!
# From the keys to the shell

The keyboard ISR, `console_get_line` and the loop of `shell_do` as one system.
The interrupt of a scancode comes between any two statements while its IRQ is
enabled, also while the shell prints. What the shell comes to is what the lines
say that the scancodes spell, edited, one after the other.
-/

namespace Kboot86.Sh

open Keyboard GetLine Console

def bufSize : Nat := 512

def welcome : List UInt8 := chars "welcome to the boot shell\n"

def prompt : List UInt8 := chars "shell-> "

/-- The reader, the keyboard and the variables. -/
structure Terminal where
  reader : GetLine.State
  keyboard : Keyboard
  table : VarTable

namespace Terminal

/-- What can happen: the interrupt of a scancode, a character or the cursor that
the shell has put on the screen, the call of `console_get_line` and its
statements, and its return with 1 or with a line, which the shell takes. -/
inductive Event
  | scancode (c : UInt8)
  | output (c : UInt8)
  | cursor
  | call
  | statement
  | again
  | line (text : List UInt8)

def pressed (s : Terminal) (c : UInt8) : GetLine.State :=
  match (s.keyboard.keyboardIsr c).2 with
  | some a => { s.reader with console := s.reader.console.consolePutIbuf a }
  | none => s.reader

def endLine (s : GetLine.State) : Nat → UInt8 := Function.update s.buf s.bufLen 0

def bufOf (buf : Nat → UInt8) : List UInt8 := (List.range bufSize).map buf

end Terminal

open Terminal in
/-- From the end of `console_init` on, with no variable set. The lexer stays
within each line that the shell takes. -/
def terminal : System Terminal Terminal.Event where
  init s := getLineSystem.init s.reader ∧ s.keyboard = keyboardInit ∧ ∀ i, (s.table i).used = false
  step s e s' :=
    match e with
    | .scancode c => s.reader.irq = true ∧
        s' = { s with keyboard := (s.keyboard.keyboardIsr c).1, reader := s.pressed c }
    | .output c => s.reader.pc = .idle ∧ (s.reader.irq = true → c ∈ welcome ++ prompt) ∧
        s' = { s with reader := { s.reader with console := (s.reader.console.putc c true).1 } }
    | .cursor => s.reader.pc = .idle ∧
        s' = { s with reader := { s.reader with console := s.reader.console.drawCursor } }
    | .call => s.reader.pc = .idle ∧
        s' = { s with reader := { s.reader with
          pc := .testCleared
          buf := Function.update s.reader.buf 0 0
          bufLen := bufSize - 1 } }
    | .statement => s' = { s with reader := s.reader.exec }
    | .again => s.reader.pc = .ret 1 ∧ s' = { s with reader := { s.reader with pc := .idle } }
    | .line text => s.reader.pc = .ret 0 ∧ text = lineOf (bufOf (endLine s.reader)) ∧
        shellSystem.step s.table (bufOf (endLine s.reader)) s'.table ∧
        s'.reader = { s.reader with pc := .idle, buf := endLine s.reader } ∧
        s'.keyboard = s.keyboard

namespace Terminal

def Event.scancode? : Event → Option UInt8
  | .scancode c => some c
  | _ => none

def Event.line? : Event → Option (List UInt8)
  | .line text => some text
  | _ => none

def scancodes (es : List Event) : List UInt8 := es.filterMap Event.scancode?

def takenLines (es : List Event) : List (List UInt8) := es.filterMap Event.line?

def typedLines (es : List Event) : List (List UInt8) := (GetLine.typed (decode (scancodes es))).1

/-- The key begins another line before the shell took the one that is complete. -/
def TypesAhead (s : Terminal) : Event → Prop
  | .scancode c => ∃ a, (s.keyboard.keyboardIsr c).2 = some a ∧ GetLine.TypesAhead s.reader (.key a)
  | _ => False

/-! ### The lines -/

/-- What a line that was typed consists of. -/
def Plain (line : List UInt8) : Prop :=
  line.length ≤ 128 ∧ ∀ c ∈ line, 0x20 ≤ c ∧ c < 0x7f

theorem plain_of_typeable {c : UInt8} (h : Keyboard.Typeable c) (hc : printable c = true) :
    0x20 ≤ c ∧ c < 0x7f := by
  obtain ⟨hnl, -, hkill, hclear, hdel⟩ := (printable_iff c).mp hc
  rcases h with h | h | h | h | h
  · exact h
  · exact absurd h hnl
  · exact absurd h hkill
  · exact absurd h hdel
  · exact absurd h hclear

theorem Plain.edit {line : List UInt8} (h : Plain line) {c : UInt8} (hc : Keyboard.Typeable c) :
    Plain (edit line c) := by
  rw [GetLine.edit]
  split
  · exact ⟨(List.dropLast_sublist _).length_le.trans h.1,
      fun a ha => h.2 a (List.mem_of_mem_dropLast ha)⟩
  split
  · exact ⟨Nat.zero_le _, by simp⟩
  split
  · rename_i hadd
    refine ⟨by rw [List.length_append]; exact hadd.2, fun a ha => ?_⟩
    rcases List.mem_append.mp ha with ha | ha
    · exact h.2 a ha
    · obtain rfl := List.mem_singleton.mp ha
      exact plain_of_typeable hc hadd.1
  · exact h

theorem plain_typed {cs : List UInt8} (hcs : ∀ c ∈ cs, Keyboard.Typeable c) :
    (∀ line ∈ (GetLine.typed cs).1, Plain line) ∧ Plain (GetLine.typed cs).2 := by
  induction cs using List.reverseRecOn with
  | nil => exact ⟨by simp [GetLine.typed], Nat.zero_le _, by simp [GetLine.typed]⟩
  | append_singleton cs c ih =>
      obtain ⟨hlines, hcur⟩ := ih fun a ha => hcs a (List.mem_append_left _ ha)
      rw [typed_snoc, typeKey]
      split
      · refine ⟨fun line hline => ?_, Nat.zero_le _, by simp⟩
        rcases List.mem_append.mp hline with hline | hline
        · exact hlines line hline
        · exact List.mem_singleton.mp hline ▸ hcur
      · exact ⟨hlines, hcur.edit (hcs c (by simp))⟩

theorem typed_lines_snoc (cs : List UInt8) (c : UInt8) :
    (GetLine.typed cs).1 <+: (GetLine.typed (cs ++ [c])).1 := by
  rw [typed_snoc, typeKey]
  split
  · exact List.prefix_append _ _
  · exact List.prefix_refl _

/-! ### The screen -/

/-- While no call is in progress, keys come or there is nothing in the buffer. -/
def Quiet (s : GetLine.State) : Prop :=
  s.pc = .idle ∨ s.pc = .ret 1 →
    s.irq = true ∨ s.console.input.widx = 0 ∧ s.console.input.lineCompleted = false

theorem quiet_exec {s : GetLine.State} (h : Quiet s) : Quiet s.exec := by
  cases hpc : s.pc with
  | idle | ret code =>
      have hsame : s.exec = s := by simp only [GetLine.State.exec, hpc]
      rwa [hsame]
  | enableReturn =>
      intro _
      left
      simp only [GetLine.State.exec, hpc]
  | testCleared | displayTest i | testLine | retestCleared =>
      intro hend
      simp only [GetLine.State.exec, hpc] at hend
      split at hend <;> simp at hend
  | displayPut i | displayCursor | setCleared | disableIrq | enableIrq | halt | setLen | setBufLen
  | memcpy | resetWidx | resetLine =>
      intro hend
      simp [GetLine.State.exec, hpc] at hend

/-- What the shell prints leaves the input alone: it is no control character
that edits, or there is nothing to edit. -/
theorem input_putc_output {c : Console} {a : UInt8}
    (h : a ∈ welcome ++ prompt ∨ c.input.widx = 0 ∧ c.input.lineCompleted = false) :
    (c.putc a true).1.input = c.input := by
  have hplain : a ∈ welcome ++ prompt → a ≠ 0x0d ∧ a ≠ 0x7f ∧ a ≠ 0x08 := by
    have hall : (welcome ++ prompt).all (fun a => a != 0x0d && a != 0x7f && a != 0x08) = true := rfl
    intro ha
    have hne := List.all_eq_true.mp hall a ha
    simp only [Bool.and_eq_true, bne_iff_ne] at hne
    exact ⟨hne.1.1, hne.1.2, hne.2⟩
  by_cases hnl : a = 0x0a
  · rw [putc, if_pos hnl, input_lineFeed]
  by_cases htab : a = 0x09
  · rw [putc, if_neg hnl, if_pos htab, input_tab]
  by_cases hprint : printable a = true
  · exact input_putc_of_printable c hprint true
  have hempty : c.input.widx = 0 ∧ c.input.lineCompleted = false := by
    refine h.resolve_left fun ha => hprint ?_
    obtain ⟨hkill, hclear, hdel⟩ := hplain ha
    exact (printable_iff a).mpr ⟨hnl, htab, hkill, hclear, hdel⟩
  obtain ⟨hwidx, hline⟩ := hempty
  have hkill : c.input.kill = c.input := by
    rw [Input.kill, if_neg (by simp [hline]), ← hwidx]
  have hdelete : c.input.delete = c.input := by
    rw [Input.delete, if_neg (by simp [hline]), hwidx, Nat.zero_sub, ← hwidx]
  by_cases hcr : a = 0x0d
  · rw [putc, if_neg hnl, if_neg htab, if_pos hcr, input_kill, hkill]
  by_cases hclear : a = 0x7f
  · rw [putc, if_neg hnl, if_neg htab, if_neg hcr, if_pos hclear]
    rfl
  by_cases hdel : a = 0x08
  · rw [putc, if_neg hnl, if_neg htab, if_neg hcr, if_neg hclear, if_pos hdel, input_delIbuf,
      hdelete]
  · exact absurd ((printable_iff a).mpr ⟨hnl, htab, hcr, hclear, hdel⟩) hprint

/-! ### The buffer of the shell -/

theorem ne_zero_of_mem {line : List UInt8} (h : 0 ∉ line) : ∀ a ∈ line, (a != 0) = true := by
  intro a ha
  rw [bne_iff_ne]
  rintro rfl
  exact h ha

theorem lineOf_of_nul_notMem {line : List UInt8} (h : 0 ∉ line) : lineOf line = line :=
  List.takeWhile_eq_self_iff.mpr (ne_zero_of_mem h)

theorem lineOf_bufOf {s : GetLine.State} (hlen : s.bufLen < bufSize) (hnul : 0 ∉ s.text) :
    lineOf (bufOf (endLine s)) = s.text := by
  obtain ⟨r, hr⟩ : ∃ r, bufSize = s.bufLen + (r + 1) := ⟨bufSize - s.bufLen - 1, by omega⟩
  have hfirst : (List.range s.bufLen).map (endLine s) = s.text :=
    List.map_congr_left fun i hi =>
      Function.update_of_ne (Nat.ne_of_lt (List.mem_range.mp hi)) _ _
  rw [lineOf, bufOf, hr, List.range_add, List.map_append, hfirst,
    List.takeWhile_append_of_pos (ne_zero_of_mem hnul), List.range_succ_eq_map, List.map_cons,
    List.map_cons, List.takeWhile_cons_of_neg, List.append_nil]
  simp [endLine]

theorem shellDo_congr (t : VarTable) {buf buf' : List UInt8} (h : lineOf buf = lineOf buf') :
    shellDo t buf = shellDo t buf' := by
  rw [shellDo, shellDo, h]

/-! ### Runs -/

/-- The reader has what was typed, the keyboard the keys that are down, and the
shell has done what the lines say that it took, which are the first of those
that were typed. -/
structure Follows (es : List Event) (s : Terminal) : Prop where
  reader : ∃ m, (∀ k, m = some k → k = bufSize - 1) ∧
    GetLine.Inv m (GetLine.typed (decode (scancodes es))) (takenLines es).length s.reader
  quiet : Quiet s.reader
  keyboard : s.keyboard = ofScancodes (scancodes es)
  lines : takenLines es <+: typedLines es
  table : shellSystem.Run (takenLines es) s.table

theorem plain_typedLines (es : List Event) : ∀ line ∈ typedLines es, Plain line :=
  (plain_typed (decode_typeable _)).1

theorem Plain.nul_notMem {line : List UInt8} (h : Plain line) : 0 ∉ line := fun hmem =>
  absurd (h.2 0 hmem).1 (by decide)

namespace Follows

variable {es : List Event} {s s' : Terminal}

theorem typedLines_length (H : Follows es s) :
    (typedLines es).length ≤ (takenLines es).length + 1 := by
  obtain ⟨m, -, hinv⟩ := H.reader
  rw [typedLines]
  cases htaken : s.reader.pc.taken with
  | true =>
      obtain ⟨hlen, -⟩ := hinv.taken htaken
      omega
  | false =>
      obtain ⟨hediting, hcompleted⟩ := hinv.pending htaken
      cases hline : s.reader.console.input.lineCompleted with
      | true =>
          obtain ⟨hlen, -⟩ := hcompleted hline
          omega
      | false =>
          obtain ⟨hlen, -⟩ := hediting hline
          omega

theorem frame (H : Follows es s) {e : Event} (hkey : e.scancode? = none) (hline : e.line? = none)
    (hkeyboard : s'.keyboard = s.keyboard) (htable : s'.table = s.table)
    (hreader : ∀ m p n, (∀ k, m = some k → k = bufSize - 1) → GetLine.Inv m p n s.reader →
      ∃ m', (∀ k, m' = some k → k = bufSize - 1) ∧ GetLine.Inv m' p n s'.reader)
    (hquiet : Quiet s'.reader) : Follows (es ++ [e]) s' := by
  have hscancodes : scancodes (es ++ [e]) = scancodes es := by
    rw [scancodes, List.filterMap_append, List.filterMap_cons_none hkey, List.filterMap_nil,
      List.append_nil, scancodes]
  have htaken : takenLines (es ++ [e]) = takenLines es := by
    rw [takenLines, List.filterMap_append, List.filterMap_cons_none hline, List.filterMap_nil,
      List.append_nil, takenLines]
  obtain ⟨m, hm, hinv⟩ := H.reader
  constructor
  · rw [hscancodes, htaken]
    exact hreader m _ _ hm hinv
  · exact hquiet
  · rw [hscancodes, hkeyboard]
    exact H.keyboard
  · rw [typedLines, hscancodes, htaken]
    exact H.lines
  · rw [htaken, htable]
    exact H.table

theorem scancode (H : Follows es s) {c : UInt8} (hirq : s.reader.irq = true)
    (hno : ¬ TypesAhead s (.scancode c)) :
    Follows (es ++ [.scancode c])
      { s with keyboard := (s.keyboard.keyboardIsr c).1, reader := s.pressed c } := by
  have hscancodes : scancodes (es ++ [.scancode c]) = scancodes es ++ [c] := by
    rw [scancodes, List.filterMap_append]
    rfl
  have htaken : takenLines (es ++ [.scancode c]) = takenLines es := by
    rw [takenLines, List.filterMap_append]
    exact List.append_nil _
  have hisr : s.keyboard.keyboardIsr c =
      (ofScancodes (scancodes es ++ [c]), charAfter (scancodes es) c) := by
    rw [H.keyboard]
    exact keyboardIsr_ofScancodes _ _
  have hmore : typedLines es <+: typedLines (es ++ [.scancode c]) := by
    rw [typedLines, typedLines, hscancodes, decode_snoc]
    cases charAfter (scancodes es) c with
    | none => rw [Option.toList_none, List.append_nil]
    | some a => exact typed_lines_snoc _ a
  obtain ⟨m, hm, hinv⟩ := H.reader
  constructor
  · refine ⟨m, hm, ?_⟩
    rw [hscancodes, htaken, decode_snoc]
    dsimp only
    rw [pressed, hisr]
    cases hchar : charAfter (scancodes es) c with
    | none =>
        rw [Option.toList_none, List.append_nil]
        exact hinv
    | some a =>
        have hnot : ¬ GetLine.TypesAhead s.reader (.key a) := fun h =>
          hno ⟨a, by rw [hisr]; exact hchar, h⟩
        rw [Option.toList_some, typed_snoc]
        exact hinv.key hirq hnot
  · intro _
    left
    dsimp only
    rw [pressed]
    split
    · exact hirq
    · exact hirq
  · rw [hscancodes]
    exact congrArg Prod.fst hisr
  · rw [htaken]
    exact H.lines.trans hmore
  · rw [htaken]
    exact H.table

theorem line (H : Follows es s) {text : List UInt8} (hpc : s.reader.pc = .ret 0)
    (htext : text = lineOf (bufOf (endLine s.reader)))
    (hshell : shellSystem.step s.table (bufOf (endLine s.reader)) s'.table)
    (hreader : s'.reader = { s.reader with pc := .idle, buf := endLine s.reader })
    (hkeyboard : s'.keyboard = s.keyboard) : Follows (es ++ [.line text]) s' := by
  obtain ⟨m, hm, hinv⟩ := H.reader
  have hret : s.reader.pc.taken = true := by rw [hpc]; rfl
  obtain ⟨-, -, k, line, rfl, hget, hline⟩ := hinv.taken hret
  obtain rfl := hm k rfl
  have hplain : Plain line := plain_typedLines es line (List.mem_of_getElem? hget)
  have hwhole : s.reader.text = line := by
    rw [hline]
    exact List.take_of_length_le (hplain.1.trans (by decide))
  have hlen : s.reader.bufLen = line.length := by
    rw [← hwhole, GetLine.State.text, List.length_map, List.length_range]
  have hsame := lineOf_of_nul_notMem hplain.nul_notMem
  have hbuf : lineOf (bufOf (endLine s.reader)) = line := by
    rw [lineOf_bufOf, hwhole]
    · rw [hlen]
      exact hplain.1.trans_lt (by decide)
    · rw [hwhole]
      exact hplain.nul_notMem
  obtain rfl : line = text := (htext.trans hbuf).symm
  have hscancodes : scancodes (es ++ [.line line]) = scancodes es := by
    rw [scancodes, List.filterMap_append]
    exact List.append_nil _
  have htaken : takenLines (es ++ [.line line]) = takenLines es ++ [line] := by
    rw [takenLines, List.filterMap_append]
    rfl
  constructor
  · refine ⟨some (bufSize - 1), hm, ?_⟩
    have hret := hinv.ret hpc
    rw [if_pos rfl] at hret
    rw [hscancodes, htaken, List.length_append, hreader]
    exact hret.goto rfl rfl rfl (fun h => by cases h) (fun h => by cases h) trivial
  · intro _
    right
    have hholds := hinv.holds
    rw [hpc] at hholds
    rw [hreader]
    exact hholds rfl
  · rw [hscancodes, hkeyboard]
    exact H.keyboard
  · rw [typedLines, hscancodes, htaken]
    have hfirst : takenLines es = (typedLines es).take (takenLines es).length :=
      List.prefix_iff_eq_take.mp H.lines
    have hnext : (typedLines es).take ((takenLines es).length + 1) = takenLines es ++ [line] := by
      rw [List.take_add_one, ← hfirst, typedLines, hget]
      rfl
    rw [← hnext]
    exact List.take_prefix _ _
  · rw [htaken]
    refine .snoc H.table ?_
    obtain ⟨hscan, o, ho, ht⟩ := hshell
    rw [shellDo_congr _ (hbuf.trans hsame.symm)] at ho
    rw [hbuf, ← hsame] at hscan
    exact ⟨hscan, o, ho, ht⟩

end Follows

theorem follows_init {s : Terminal} (h : terminal.init s) : Follows [] s := by
  obtain ⟨hreader, hkeyboard, htable⟩ := h
  have hinv := GetLine.inv_init hreader
  have hnone : ∀ k, (none : Option Nat) = some k → k = bufSize - 1 := by
    intro k hk
    cases hk
  exact ⟨⟨none, hnone, hinv⟩, fun _ => .inl hreader.2.1, hkeyboard, List.nil_prefix, .init htable⟩

theorem follows_step {es : List Event} {s s' : Terminal} {e : Event} (H : Follows es s)
    (hno : ¬ TypesAhead s e) (hstep : terminal.step s e s') : Follows (es ++ [e]) s' := by
  cases e with
  | scancode c =>
      obtain ⟨hirq, rfl⟩ := hstep
      exact H.scancode hirq hno
  | output c =>
      obtain ⟨hpc, hchar, rfl⟩ := hstep
      have hinput : (s.reader.console.putc c true).1.input = s.reader.console.input := by
        refine input_putc_output ?_
        exact (H.quiet (.inl hpc)).imp hchar id
      have hidle : s.reader.pc.taken = false := by rw [hpc]; rfl
      refine H.frame rfl rfl rfl rfl (fun m p n hm hinv => ⟨m, hm, ?_⟩) fun h => ?_
      · refine hinv.goto hidle hinput hidle (fun h => ?_) (fun h => ⟨h, rfl⟩) ?_
        · exact hinv.irq h
        · dsimp only
          rw [hpc]
          trivial
      · dsimp only
        rw [hinput]
        exact H.quiet h
  | cursor =>
      obtain ⟨hpc, rfl⟩ := hstep
      have hidle : s.reader.pc.taken = false := by rw [hpc]; rfl
      refine H.frame rfl rfl rfl rfl (fun m p n hm hinv => ⟨m, hm, ?_⟩) H.quiet
      refine hinv.goto hidle rfl hidle (fun h => hinv.irq h) (fun h => ⟨h, rfl⟩) ?_
      dsimp only
      rw [hpc]
      trivial
  | call =>
      obtain ⟨hpc, rfl⟩ := hstep
      refine H.frame rfl rfl rfl rfl (fun m p n hm hinv => ?_) fun h => ?_
      · exact ⟨some (bufSize - 1), fun k hk => (Option.some.inj hk).symm, hinv.call hpc _ _⟩
      · rcases h with h | h <;> cases h
  | statement =>
      obtain rfl := hstep
      exact H.frame rfl rfl rfl rfl (fun m p n hm hinv => ⟨m, hm, hinv.exec⟩) (quiet_exec H.quiet)
  | again =>
      obtain ⟨hpc, rfl⟩ := hstep
      refine H.frame rfl rfl rfl rfl (fun m p n hm hinv => ⟨m, hm, ?_⟩)
        fun _ => H.quiet (.inr hpc)
      exact hinv.ret hpc
  | line text =>
      obtain ⟨hpc, htext, hshell, hreader, hkeyboard⟩ := hstep
      exact H.line hpc htext hshell hreader hkeyboard

/-- In every run in which no key begins another line before the shell took the
one that is complete: the lines that the shell has taken are the first ones that
the scancodes spell, and at most one more is complete; the variables are those
that the lines lead to that were taken; and each line that is spelled has up to
128 printable characters. -/
theorem terminal_follows {es : List Event} {s : Terminal}
    (hrun : (terminal.restrict fun s e => ¬ TypesAhead s e).Run es s) :
    takenLines es <+: typedLines es ∧ (typedLines es).length ≤ (takenLines es).length + 1 ∧
      shellSystem.Run (takenLines es) s.table ∧ ∀ line ∈ typedLines es, Plain line := by
  have H : Follows es s := by
    refine hrun.history ?_ ?_
    · intro s hinit
      exact follows_init hinit
    · rintro es s e s' H ⟨hno, hstep⟩
      exact follows_step H hno hstep
  exact ⟨H.lines, H.typedLines_length, H.table, plain_typedLines es⟩

section Sample

def sampleTerminal : Terminal where
  reader := sampleInit
  keyboard := keyboardInit
  table := fun _ => ⟨[], false, 0, 0, [], 0⟩

def press (s : Terminal) (c : UInt8) : Terminal :=
  { s with keyboard := (s.keyboard.keyboardIsr c).1, reader := s.pressed c }

def enter (s : Terminal) : Terminal :=
  { s with reader := { s.reader with
    pc := .testCleared
    buf := Function.update s.reader.buf 0 0
    bufLen := bufSize - 1 } }

def exec (s : Terminal) : Terminal := { s with reader := s.reader.exec }

def take (s : Terminal) (t : VarTable) : Terminal :=
  { s with reader := { s.reader with pc := .idle, buf := endLine s.reader }, table := t }

theorem run_press {es : List Event} {s : Terminal}
    (hrun : (terminal.restrict fun s e => ¬ TypesAhead s e).Run es s) (c : UInt8)
    (hirq : s.reader.irq = true) (hline : s.reader.console.lineCompleted = false) :
    (terminal.restrict fun s e => ¬ TypesAhead s e).Run (es ++ [.scancode c]) (s.press c) := by
  refine hrun.snoc ⟨?_, hirq, rfl⟩
  rintro ⟨a, -, hahead, -⟩
  rw [hline] at hahead
  cases hahead

theorem run_enter {es : List Event} {s : Terminal}
    (hrun : (terminal.restrict fun s e => ¬ TypesAhead s e).Run es s) (hpc : s.reader.pc = .idle) :
    (terminal.restrict fun s e => ¬ TypesAhead s e).Run (es ++ [.call]) s.enter :=
  hrun.snoc ⟨id, hpc, rfl⟩

theorem run_exec {es : List Event} {s : Terminal}
    (hrun : (terminal.restrict fun s e => ¬ TypesAhead s e).Run es s) (n : Nat) :
    (terminal.restrict fun s e => ¬ TypesAhead s e).Run (es ++ List.replicate n .statement)
      (exec^[n] s) :=
  hrun.iterate n fun _ _ => ⟨id, rfl⟩

theorem run_take {es : List Event} {s : Terminal}
    (hrun : (terminal.restrict fun s e => ¬ TypesAhead s e).Run es s) (hpc : s.reader.pc = .ret 0)
    {text : List UInt8} (htext : lineOf (bufOf (endLine s.reader)) = text)
    (hbounds : ScansClosed syntaxVecLen text) {o : Outcome} (ho : shellDo s.table text = .ok o) :
    (terminal.restrict fun s e => ¬ TypesAhead s e).Run (es ++ [.line text]) (s.take o.table) := by
  have hline : lineOf (bufOf (endLine s.reader)) = lineOf text := by
    rw [← htext, lineOf_of_nul_notMem (nul_notMem_lineOf _)]
  refine hrun.snoc ⟨id, hpc, htext.symm, ⟨by rwa [htext], o, ?_, rfl⟩, rfl, rfl⟩
  exact (shellDo_congr _ hline).trans ho

def sampleKeys : List UInt8 :=
  [0x1f, 0x12, 0x14, 0x39, 0x2a, 0x06, 0xaa, 0x1e, 0x39, 0x02, 0x1c]

def sampleLine : List UInt8 := chars "set %a 1"

def sampleRead : Terminal := exec^[27] (sampleKeys.foldl press sampleTerminal).enter

def sampleEvents : List Event :=
  sampleKeys.map Event.scancode ++ [.call] ++ List.replicate 27 .statement ++ [.line sampleLine]

def sampleDone : Terminal :=
  sampleRead.take (cmdSet (.variable (chars "%a")) (.luinteger 1) sampleRead.table).1

theorem sample_keys :
    (terminal.restrict fun s e => ¬ TypesAhead s e).Run (sampleKeys.map Event.scancode)
      (sampleKeys.foldl press sampleTerminal) := by
  have hinit : (terminal.restrict fun s e => ¬ TypesAhead s e).Run [] sampleTerminal :=
    .init ⟨sampleInit_init, rfl, fun _ => rfl⟩
  have hset := run_press (run_press (run_press hinit 0x1f rfl rfl) 0x12 rfl rfl) 0x14 rfl rfl
  have hsigil := run_press (run_press (run_press hset 0x39 rfl rfl) 0x2a rfl rfl) 0x06 rfl rfl
  have hname := run_press (run_press hsigil 0xaa rfl rfl) 0x1e rfl rfl
  exact run_press (run_press (run_press hname 0x39 rfl rfl) 0x02 rfl rfl) 0x1c rfl rfl

theorem parserDo_sample : parserDo (some sampleLine) =
    .ok (.ok [.identifier (chars "set"), .variable (chars "%a"), .luinteger 1, .eoi]) := rfl

theorem shellDo_sample (t : VarTable) :
    shellDo t sampleLine = .ok ⟨(cmdSet (.variable (chars "%a")) (.luinteger 1) t).1,
      .done (cmdSet (.variable (chars "%a")) (.luinteger 1) t).2,
      some ⟨.set, [.variable (chars "%a"), .luinteger 1]⟩⟩ := by
  have hline : lineOf sampleLine = sampleLine := by decide
  unfold shellDo
  rw [hline, parserDo_sample]
  rfl

theorem sample_run :
    (terminal.restrict fun s e => ¬ TypesAhead s e).Run sampleEvents sampleDone := by
  have htext : sampleRead.reader.text = sampleLine := by decide +kernel
  have hline : lineOf (bufOf (endLine sampleRead.reader)) = sampleLine := by
    rw [lineOf_bufOf (by decide +kernel) (by rw [htext]; decide), htext]
  have hret : sampleRead.reader.pc = .ret 0 := by decide +kernel
  exact run_take (run_exec (run_enter sample_keys rfl) 27) hret hline (by decide)
    (shellDo_sample _)

theorem terminal_follows_sample :
    takenLines sampleEvents = [sampleLine] ∧ typedLines sampleEvents = [sampleLine] ∧
      shellSystem.Run (takenLines sampleEvents) sampleDone.table ∧
      ∃ i, (sampleDone.table i).name = chars "a" ∧ (sampleDone.table i).intVal = 1 :=
  ⟨rfl, rfl, (terminal_follows sample_run).2.2.1, ⟨0, by decide⟩, rfl, rfl⟩

end Sample

end Terminal

end Kboot86.Sh
