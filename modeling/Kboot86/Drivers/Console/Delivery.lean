import Kboot86.Drivers.Console.GetLine

/-!
# Each call delivers the line that was typed

As long as no line is complete the buffer is the line that is being edited;
once one is, it is that line, and nothing was typed after it. A key that begins
another line before the reader took the first breaks this: it goes to the
buffer all the same, or its newline is lost. Without such a key every call
delivers its line.
-/

namespace Kboot86.GetLine

open Console

/-- The buffer is the line that is being edited, or the one that is complete and
not yet delivered. -/
def Pending (i : Input) (p : List (List UInt8) × List UInt8) (n : Nat) : Prop :=
  (i.lineCompleted = false → p.1.length = n ∧ p.2 = i.line) ∧
    (i.lineCompleted = true → p.1.length = n + 1 ∧ p.1[n]? = some i.line ∧ p.2 = [])

def Taken (text : List UInt8) (m : Option Nat) (p : List (List UInt8) × List UInt8) (n : Nat) :
    Prop :=
  p.1.length = n + 1 ∧ p.2 = [] ∧
    ∃ k line, m = some k ∧ p.1[n]? = some line ∧ text = line.take k

/-! ### Keys -/

theorem typed_snoc (cs : List UInt8) (c : UInt8) : typed (cs ++ [c]) = typeKey (typed cs) c := by
  rw [typed, List.foldl_append]
  rfl

theorem edit_nil {c : UInt8} (hc : ¬ printable c = true) : edit [] c = [] := by
  rw [edit]
  split
  · rfl
  split
  · rfl
  · exact if_neg fun h => hc h.1

/-- Once a line is complete, only a character changes the buffer. -/
theorem key_of_completed {i : Input} (h : i.lineCompleted = true) {c : UInt8}
    (hc : ¬ (printable c = true ∨ c = 0x0a)) : i.key c = i := by
  obtain ⟨hprint, hnl⟩ := not_or.mp hc
  rw [Input.key, if_neg hnl]
  by_cases htab : c = 0x09
  · rw [if_pos htab]
  rw [if_neg htab]
  by_cases hkill : c = 0x0d
  · rw [if_pos hkill, Input.kill, if_pos h]
  rw [if_neg hkill]
  by_cases hclear : c = 0x7f
  · rw [if_pos hclear]
  rw [if_neg hclear]
  by_cases hdel : c = 0x08
  · rw [if_pos hdel, Input.delete, if_pos h]
  · exact absurd ((printable_iff c).mpr ⟨hnl, htab, hkill, hclear, hdel⟩) hprint

theorem key_of_editing {i : Input} (h : i.lineCompleted = false) (hok : i.Ok) {c : UInt8}
    (hnl : c ≠ 0x0a) :
    (i.key c).lineCompleted = false ∧ (i.key c).line = edit i.line c := by
  rw [Input.key, if_neg hnl]
  by_cases htab : c = 0x09
  · rw [if_pos htab, htab]
    exact ⟨h, rfl⟩
  rw [if_neg htab]
  by_cases hkill : c = 0x0d
  · rw [if_pos hkill, edit, if_neg (by rw [hkill]; decide), if_pos hkill, Input.line_kill h,
      Input.kill, h]
    exact ⟨rfl, rfl⟩
  rw [if_neg hkill]
  by_cases hclear : c = 0x7f
  · rw [if_pos hclear, hclear]
    exact ⟨h, rfl⟩
  rw [if_neg hclear]
  by_cases hdel : c = 0x08
  · rw [if_pos hdel, edit, if_pos hdel, Input.line_delete h, Input.delete, h]
    exact ⟨rfl, rfl⟩
  have hprint := (printable_iff c).mpr ⟨hnl, htab, hkill, hclear, hdel⟩
  rw [if_neg hdel, edit, if_neg hdel, if_neg hkill, Input.append_flag, Input.line_append,
    Input.length_line]
  refine ⟨h, ?_⟩
  by_cases hfull : i.widx = ibufSize
  · rw [if_pos hfull, if_neg (by rw [hfull, ibufSize]; omega)]
  · have hlt : i.widx < 128 := Nat.lt_of_le_of_ne hok.widx hfull
    rw [if_neg hfull, if_pos ⟨hprint, hlt⟩]

/-- The buffer stays the line through a key, unless the key begins another line
when one is complete. -/
theorem Pending.key {i : Input} {p : List (List UInt8) × List UInt8} {n : Nat}
    (h : Pending i p n) (hok : i.Ok) {c : UInt8}
    (hc : ¬ (i.lineCompleted = true ∧ (printable c = true ∨ c = 0x0a))) :
    Pending (i.key c) (typeKey p c) n := by
  cases hline : i.lineCompleted with
  | true =>
      have hbegins : ¬ (printable c = true ∨ c = 0x0a) := fun hb => hc ⟨hline, hb⟩
      obtain ⟨hlen, hget, hcur⟩ := h.2 hline
      obtain ⟨hprint, hnl⟩ := not_or.mp hbegins
      rw [key_of_completed hline hbegins, typeKey, if_neg hnl, hcur, edit_nil hprint]
      refine ⟨fun hno => ?_, fun _ => ⟨hlen, hget, rfl⟩⟩
      rw [hline] at hno
      cases hno
  | false =>
      obtain ⟨hlen, hcur⟩ := h.1 hline
      by_cases hnl : c = 0x0a
      · rw [Input.key, if_pos hnl, typeKey, if_pos hnl]
        refine ⟨fun hno => (Bool.noConfusion hno), fun _ => ⟨?_, ?_, rfl⟩⟩
        · rw [List.length_append, hlen]
          rfl
        · rw [← hlen, List.getElem?_concat_length, hcur]
          rfl
      · obtain ⟨hflag, hedit⟩ := key_of_editing hline hok hnl
        rw [typeKey, if_neg hnl]
        refine ⟨fun _ => ⟨hlen, ?_⟩, fun hno => ?_⟩
        · rw [hedit, hcur]
        · rw [hflag] at hno
          cases hno

/-! ### Statements -/

def Pc.taken : Pc → Bool
  | .resetWidx | .resetLine => true
  | .ret code => code == 0
  | _ => false

def Pc.masked : Pc → Bool
  | .testLine | .retestCleared | .enableReturn | .enableIrq | .setLen | .setBufLen | .memcpy
  | .resetWidx | .resetLine => true
  | .ret code => code == 0
  | _ => false

def Pc.early : Pc → Bool
  | .idle | .memcpy | .resetWidx | .resetLine | .ret _ => false
  | _ => true

/-- What holds of the variables when the statement is reached. -/
def Pc.Holds (s : State) (m : Option Nat) : Pc → Prop
  | .displayPut i => printable (s.console.ibuf i) = true
  | .setLen => s.console.lineCompleted = true
  | .setBufLen => s.console.lineCompleted = true ∧ s.len = min s.bufLen s.console.widx
  | .memcpy =>
      s.console.lineCompleted = true ∧ s.bufLen = s.len ∧
        ∃ k, m = some k ∧ s.len = min k s.console.widx
  | .resetLine => s.console.widx = 0
  | .ret code => code = 0 → s.console.widx = 0 ∧ s.console.lineCompleted = false
  | _ => True

/-- The invariant, with the length that the call was given, what was typed and
how many lines were delivered. -/
structure Inv (m : Option Nat) (p : List (List UInt8) × List UInt8) (n : Nat) (s : State) :
    Prop where
  ok : s.console.input.Ok
  pending : s.pc.taken = false → Pending s.console.input p n
  taken : s.pc.taken = true → Taken s.text m p n
  irq : s.pc.masked = true → s.irq = false
  bufLen : s.pc.early = true → m = some s.bufLen
  holds : s.pc.Holds s m

namespace Inv

variable {m : Option Nat} {p : List (List UInt8) × List UInt8} {n : Nat} {s : State}

theorem goto (H : Inv m p n s) (hs : s.pc.taken = false) {s' : State}
    (hinput : s'.console.input = s.console.input) (hs' : s'.pc.taken = false)
    (hirq : s'.pc.masked = true → s'.irq = false)
    (hearly : s'.pc.early = true → s.pc.early = true ∧ s'.bufLen = s.bufLen)
    (hholds : s'.pc.Holds s' m) : Inv m p n s' where
  ok := by
    rw [hinput]
    exact H.ok
  pending _ := by
    rw [hinput]
    exact H.pending hs
  taken h := by
    rw [hs'] at h
    cases h
  irq := hirq
  bufLen h := by
    rw [(hearly h).2]
    exact H.bufLen (hearly h).1
  holds := hholds

theorem memcpy (H : Inv m p n s) (hpc : s.pc = .memcpy) : Inv m p n s.exec := by
  have hholds := H.holds
  have hirq := H.irq
  have hpending := H.pending
  have hok := H.ok
  rcases s with ⟨console, irq, pc, buf, bufLen, len⟩
  obtain rfl : pc = .memcpy := hpc
  rcases hholds with ⟨hline, hbuf, k, hk, hlen⟩
  obtain rfl : bufLen = len := hbuf
  obtain ⟨htyped, hget, hcur⟩ := (hpending rfl).2 hline
  have htext : (List.range bufLen).map (fun j => if j < bufLen then console.ibuf j else buf j) =
      console.input.line.take k := by
    have hrange : List.range bufLen = (List.range console.widx).take k := by
      rw [List.take_range]
      exact congrArg List.range hlen
    rw [Input.line, ← List.map_take]
    have hsame : (List.range bufLen).map (fun j => if j < bufLen then console.ibuf j else buf j) =
        (List.range bufLen).map console.ibuf :=
      List.map_congr_left fun j hj => if_pos (List.mem_range.mp hj)
    rw [hsame, hrange]
    rfl
  exact
    { ok := hok
      pending := fun h => by cases h
      taken := fun _ => ⟨htyped, hcur, k, _, hk, hget, htext⟩
      irq := fun _ => hirq rfl
      bufLen := fun h => by cases h
      holds := trivial }

/-- One statement keeps the invariant. -/
theorem exec (H : Inv m p n s) : Inv m p n s.exec := by
  have hok := H.ok
  have hpending := H.pending
  have htaken := H.taken
  have hirq := H.irq
  have hholds := H.holds
  rcases s with ⟨console, irq, pc, buf, bufLen, len⟩
  cases pc with
  | idle => exact H
  | ret code => exact H
  | memcpy => exact H.memcpy rfl
  | testCleared =>
      simp only [State.exec]
      split
      · exact H.goto rfl rfl rfl (fun h => by cases h) (fun _ => ⟨rfl, rfl⟩) trivial
      · exact H.goto rfl rfl rfl (fun h => by cases h) (fun _ => ⟨rfl, rfl⟩) trivial
  | displayTest i =>
      simp only [State.exec]
      split
      next hi =>
          have hprint := hok.printable i hi
          exact H.goto rfl rfl rfl (fun h => by cases h) (fun _ => ⟨rfl, rfl⟩) hprint
      · exact H.goto rfl rfl rfl (fun h => by cases h) (fun _ => ⟨rfl, rfl⟩) trivial
  | displayPut i =>
      have hinput := input_putc_of_printable console hholds true
      exact H.goto rfl hinput rfl (fun h => by cases h) (fun _ => ⟨rfl, rfl⟩) trivial
  | displayCursor =>
      have hinput := input_drawCursor console
      exact H.goto rfl hinput rfl (fun h => by cases h) (fun _ => ⟨rfl, rfl⟩) trivial
  | setCleared => exact H.goto rfl rfl rfl (fun h => by cases h) (fun _ => ⟨rfl, rfl⟩) trivial
  | disableIrq => exact H.goto rfl rfl rfl (fun _ => rfl) (fun _ => ⟨rfl, rfl⟩) trivial
  | testLine =>
      simp only [State.exec]
      split
      · exact H.goto rfl rfl rfl (fun _ => hirq rfl) (fun _ => ⟨rfl, rfl⟩) trivial
      next hline =>
          have hcompleted : console.lineCompleted = true := by simpa using hline
          exact H.goto rfl rfl rfl (fun _ => hirq rfl) (fun _ => ⟨rfl, rfl⟩) hcompleted
  | retestCleared =>
      simp only [State.exec]
      split
      · exact H.goto rfl rfl rfl (fun _ => hirq rfl) (fun _ => ⟨rfl, rfl⟩) trivial
      · exact H.goto rfl rfl rfl (fun _ => hirq rfl) (fun _ => ⟨rfl, rfl⟩) trivial
  | enableReturn =>
      have hone : (1 : Int) ≠ 0 := by decide
      exact H.goto rfl rfl rfl (fun h => by cases h) (fun h => by cases h) fun h => absurd h hone
  | enableIrq => exact H.goto rfl rfl rfl (fun h => by cases h) (fun _ => ⟨rfl, rfl⟩) trivial
  | halt => exact H.goto rfl rfl rfl (fun h => by cases h) (fun _ => ⟨rfl, rfl⟩) trivial
  | setLen =>
      have hlen : (if bufLen < console.widx then bufLen else console.widx) =
          min bufLen console.widx := by
        split
        · omega
        · omega
      exact H.goto rfl rfl rfl (fun _ => hirq rfl) (fun _ => ⟨rfl, rfl⟩) ⟨hholds, hlen⟩
  | setBufLen =>
      rcases hholds with ⟨hline, hlen⟩
      exact H.goto rfl rfl rfl (fun _ => hirq rfl) (fun h => by cases h)
        ⟨hline, rfl, bufLen, H.bufLen rfl, hlen⟩
  | resetWidx =>
      exact
        { ok := hok.of_le (Nat.zero_le _) rfl
          pending := fun h => by cases h
          taken := fun _ => htaken rfl
          irq := fun _ => hirq rfl
          bufLen := fun h => by cases h
          holds := rfl }
  | resetLine =>
      exact
        { ok := hok.of_le (Nat.le_refl _) rfl
          pending := fun h => by cases h
          taken := fun _ => htaken rfl
          irq := fun _ => hirq rfl
          bufLen := fun h => by cases h
          holds := fun _ => ⟨hholds, rfl⟩ }

theorem call (H : Inv m p n s) (hpc : s.pc = .idle) (buf : Nat → UInt8) (k : Nat) :
    Inv (some k) p n { s with pc := .testCleared, buf := buf, bufLen := k } where
  ok := H.ok
  pending _ := H.pending (by rw [hpc]; rfl)
  taken := fun h => by cases h
  irq := fun h => by cases h
  bufLen _ := rfl
  holds := trivial

theorem key (H : Inv m p n s) (hirq : s.irq = true) {c : UInt8} (hc : ¬ TypesAhead s (.key c)) :
    Inv m (typeKey p c) n { s with console := s.console.consolePutIbuf c } := by
  have hinput := input_consolePutIbuf s.console c
  have hmasked : ¬ s.pc.masked = true := fun h => by
    rw [H.irq h] at hirq
    cases hirq
  have htaken : ¬ s.pc.taken = true := fun h => by
    apply hmasked
    cases hpc : s.pc with
    | resetWidx | resetLine => rfl
    | ret code =>
        rw [hpc] at h
        exact h
    | _ =>
        rw [hpc] at h
        cases h
  have hibuf : (s.console.consolePutIbuf c).ibuf = (s.console.input.key c).ibuf :=
    congrArg Input.ibuf hinput
  refine
    { ok := ?_
      pending := fun h => ?_
      taken := fun h => absurd h htaken
      irq := fun h => absurd h hmasked
      bufLen := H.bufLen
      holds := ?_ }
  · rw [hinput]
    exact H.ok.key c
  · rw [hinput]
    exact (H.pending h).key H.ok hc
  · have hholds := H.holds
    cases hpc : s.pc with
    | displayPut i =>
        rw [hpc] at hholds
        have hi : printable (s.console.input.ibuf i) = true := hholds
        show printable ((s.console.consolePutIbuf c).ibuf i) = true
        rw [hibuf]
        exact Input.printable_key hi c
    | ret code =>
        intro hcode
        refine absurd ?_ hmasked
        rw [hpc, hcode]
        rfl
    | setLen | setBufLen | memcpy | resetLine => exact absurd (by rw [hpc]; rfl) hmasked
    | _ => trivial

theorem ret (H : Inv m p n s) {code : Int} (hpc : s.pc = .ret code) :
    Inv m p (if code = 0 then n + 1 else n) { s with pc := .idle } := by
  refine
    { ok := H.ok
      pending := fun _ => ?_
      taken := fun h => by cases h
      irq := fun h => by cases h
      bufLen := fun h => by cases h
      holds := trivial }
  by_cases hcode : code = 0
  · have htaken : s.pc.taken = true := by
      rw [hpc, hcode]
      rfl
    obtain ⟨hlen, hcur, -⟩ := H.taken htaken
    have hholds := H.holds
    rw [hpc] at hholds
    obtain ⟨hwidx, hline⟩ := hholds hcode
    have hempty : s.console.input.line = [] := by
      rw [Input.line, show s.console.input.widx = 0 from hwidx]
      rfl
    rw [if_pos hcode]
    refine ⟨fun _ => ⟨hlen, hcur.trans hempty.symm⟩, fun hno => ?_⟩
    have hfalse := hline.symm.trans hno
    cases hfalse
  · have htaken : s.pc.taken = false := by
      rw [hpc]
      exact beq_eq_false_iff_ne.mpr hcode
    rw [if_neg hcode]
    exact H.pending htaken

end Inv

/-! ### Runs -/

theorem filterMap_snoc_of_none {β : Type} {f : Event → Option β} {e : Event} (h : f e = none)
    (es : List Event) : (es ++ [e]).filterMap f = es.filterMap f := by
  rw [List.filterMap_append, List.filterMap_cons_none h, List.filterMap_nil, List.append_nil]

theorem filterMap_snoc_of_some {β : Type} {f : Event → Option β} {e : Event} {b : β}
    (h : f e = some b) (es : List Event) : (es ++ [e]).filterMap f = es.filterMap f ++ [b] := by
  rw [List.filterMap_append, List.filterMap_cons_some h, List.filterMap_nil]

def InvAfter (es : List Event) (s : State) : Prop :=
  Inv (lastBufLen es) (typed (keys es)) (delivered es).length s

theorem inv_init {s : State} (h : getLineSystem.init s) : InvAfter [] s := by
  rcases h with ⟨hpc, hirq, c, hc⟩
  have hwidx : s.console.input.widx = 0 := by rw [hc]; rfl
  have hline : s.console.input.lineCompleted = false := by rw [hc]; rfl
  refine
    { ok := ⟨by rw [hwidx]; exact Nat.zero_le _, fun k hk => ?_⟩
      pending := fun _ => ⟨fun _ => ⟨rfl, ?_⟩, fun hno => ?_⟩
      taken := fun h => by rw [hpc] at h; cases h
      irq := fun h => by rw [hpc] at h; cases h
      bufLen := fun h => by rw [hpc] at h; cases h
      holds := by rw [hpc]; trivial }
  · rw [hwidx] at hk
    exact absurd hk (Nat.not_lt_zero k)
  · rw [Input.line, hwidx]
    rfl
  · rw [hline] at hno
    cases hno

theorem inv_step {es : List Event} {s s' : State} {e : Event} (H : InvAfter es s)
    (hstep : getLineSystem.step s e s') (hguard : ¬ TypesAhead s e) : InvAfter (es ++ [e]) s' := by
  rw [InvAfter, lastBufLen, keys, delivered]
  cases e with
  | call buf k =>
      rcases hstep with ⟨hpc, rfl⟩
      have hlast : Event.bufLen? (.call buf k) = some k := rfl
      rw [filterMap_snoc_of_some hlast, filterMap_snoc_of_none rfl, filterMap_snoc_of_none rfl,
        List.getLast?_concat]
      exact Inv.call H hpc buf k
  | statement =>
      obtain rfl := hstep
      rw [filterMap_snoc_of_none rfl, filterMap_snoc_of_none rfl, filterMap_snoc_of_none rfl]
      exact Inv.exec H
  | key c =>
      rcases hstep with ⟨hirq, rfl⟩
      have hkey : Event.key? (.key c) = some c := rfl
      rw [filterMap_snoc_of_none rfl, filterMap_snoc_of_some hkey, filterMap_snoc_of_none rfl,
        typed_snoc]
      exact Inv.key H hirq hguard
  | ret code text =>
      rcases hstep with ⟨hpc, -, rfl⟩
      have hnext := Inv.ret H hpc
      rw [filterMap_snoc_of_none rfl, filterMap_snoc_of_none rfl]
      by_cases hcode : code = 0
      · have hline : Event.delivered? (.ret code text) = some text := if_pos hcode
        rw [filterMap_snoc_of_some hline, List.length_append]
        rwa [if_pos hcode] at hnext
      · have hline : Event.delivered? (.ret code text) = none := if_neg hcode
        rw [filterMap_snoc_of_none hline]
        rwa [if_neg hcode] at hnext

theorem inv_run {es : List Event} {s : State}
    (hrun : (getLineSystem.restrict fun s e => ¬ TypesAhead s e).Run es s) : InvAfter es s := by
  refine hrun.history ?_ ?_
  · intro s h
    exact inv_init h
  · rintro es s e s' H ⟨hguard, hstep⟩
    exact inv_step H hstep hguard

/-- In every run in which no key begins another line before the reader took the
one that is complete, each call that returns 0 delivers the next line that was
typed. -/
theorem deliversLines_of_run {es : List Event} {s : State}
    (hrun : (getLineSystem.restrict fun s e => ¬ TypesAhead s e).Run es s) : DeliversLines es := by
  rintro pre text post rfl
  obtain ⟨s₁, s₂, hpre, -, hpc, rfl, -⟩ := hrun.exists_step
  have htaken : s₁.pc.taken = true := by
    rw [hpc]
    rfl
  obtain ⟨-, -, k, line, hk, hget, htext⟩ := (inv_run hpre).taken htaken
  exact ⟨k, line, hk, hget, htext⟩

section Sample

def sampleConsole : Console where
  attr := 0
  cursX := 0
  cursY := 0
  lineCompleted := false
  ibuf _ := 0
  widx := 0
  cleared := false
  vga := { mem := fun _ => 0, cursor := 0, calls := [] }

def sampleInit : State where
  console := sampleConsole.consoleInit
  irq := true
  pc := .idle
  buf _ := 0
  bufLen := 0
  len := 0

def State.press (s : State) (c : UInt8) : State :=
  { s with console := s.console.consolePutIbuf c }

def State.enter (s : State) (n : Nat) : State :=
  { s with pc := .testCleared, buf := fun _ => 0, bufLen := n }

theorem sampleInit_init : getLineSystem.init sampleInit := ⟨rfl, rfl, sampleConsole, rfl⟩

theorem run_getLine {G : State → Event → Prop} (hG : ∀ s e, e.key? = none → G s e)
    {es : List Event} {s : State} (hrun : (getLineSystem.restrict G).Run es s)
    (hidle : s.pc = .idle) {k n : Nat} {code : Int} {text : List UInt8}
    (hpc : (State.exec^[n] (s.enter k)).pc = .ret code)
    (htext : text = (State.exec^[n] (s.enter k)).text) :
    (getLineSystem.restrict G).Run
      (es ++ [.call (fun _ => 0) k] ++ List.replicate n .statement ++ [.ret code text])
      { State.exec^[n] (s.enter k) with pc := .idle } := by
  have hcall : (getLineSystem.restrict G).Run (es ++ [.call (fun _ => 0) k]) (s.enter k) :=
    hrun.snoc ⟨hG _ _ rfl, hidle, rfl⟩
  have hstatements : (getLineSystem.restrict G).Run
      (es ++ [.call (fun _ => 0) k] ++ List.replicate n .statement)
      (State.exec^[n] (s.enter k)) := hcall.iterate n fun _ _ => ⟨hG _ _ rfl, rfl⟩
  exact hstatements.snoc ⟨hG _ _ rfl, hpc, htext, rfl⟩

/-- `a`, a newline and `b` before the first call, which delivers `ab`. -/
theorem getLine_types_ahead :
    ¬ ∀ es s, getLineSystem.Run es s → (∀ c, .key c ∈ es → c ≠ 0x7f) → DeliversLines es := by
  intro hclaim
  have hinit : (getLineSystem.restrict fun _ _ => True).Run [] sampleInit := .init sampleInit_init
  have ha : (getLineSystem.restrict fun _ _ => True).Run [.key 97] (sampleInit.press 97) :=
    hinit.snoc ⟨trivial, rfl, rfl⟩
  have hnl : (getLineSystem.restrict fun _ _ => True).Run [.key 97, .key 10]
      ((sampleInit.press 97).press 10) := ha.snoc ⟨trivial, rfl, rfl⟩
  have hb : (getLineSystem.restrict fun _ _ => True).Run [.key 97, .key 10, .key 98]
      (((sampleInit.press 97).press 10).press 98) := hnl.snoc ⟨trivial, rfl, rfl⟩
  have hpc : (State.exec^[15] ((((sampleInit.press 97).press 10).press 98).enter 128)).pc =
      .ret 0 := rfl
  have htext : [97, 98] =
      (State.exec^[15] ((((sampleInit.press 97).press 10).press 98).enter 128)).text := by decide
  have hrun := (run_getLine (fun _ _ _ => trivial) hb rfl hpc htext).of_restrict
  obtain ⟨n, line, hn, hline, hdelivered⟩ := hclaim _ _ hrun (by simp) _ _ [] rfl
  have hbufLen : some 128 = some n := hn
  have hfirst : some [97] = some line := hline
  rw [← Option.some.inj hbufLen, ← Option.some.inj hfirst] at hdelivered
  revert hdelivered
  decide

/-- `a` and a newline before the first call. -/
theorem deliversLines_of_run_sample :
    ∃ es s, (getLineSystem.restrict fun s e => ¬ TypesAhead s e).Run es s ∧
      delivered es = [[97]] ∧ DeliversLines es := by
  have hinit : (getLineSystem.restrict fun s e => ¬ TypesAhead s e).Run [] sampleInit :=
    .init sampleInit_init
  have ha : (getLineSystem.restrict fun s e => ¬ TypesAhead s e).Run [.key 97]
      (sampleInit.press 97) := hinit.snoc ⟨fun h => Bool.false_ne_true h.1, rfl, rfl⟩
  have hnl : (getLineSystem.restrict fun s e => ¬ TypesAhead s e).Run [.key 97, .key 10]
      ((sampleInit.press 97).press 10) := ha.snoc ⟨fun h => Bool.false_ne_true h.1, rfl, rfl⟩
  have hguard : ∀ (s : State) (e : Event), e.key? = none → ¬ TypesAhead s e := by
    intro s e he h
    cases e with
    | key c => cases he
    | _ => exact h
  have hpc : (State.exec^[13] (((sampleInit.press 97).press 10).enter 128)).pc = .ret 0 := rfl
  have htext : [97] = (State.exec^[13] (((sampleInit.press 97).press 10).enter 128)).text := by
    decide
  have hrun := run_getLine hguard hnl rfl hpc htext
  exact ⟨_, _, hrun, rfl, deliversLines_of_run hrun⟩

end Sample

end Kboot86.GetLine
