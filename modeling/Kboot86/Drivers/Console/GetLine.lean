import Kboot86.Drivers.Console.Input
import Kboot86.Foundation.Transition

/-!
# `console_get_line`, statement by statement

The reader as a state machine whose steps are the statements of the source. The
keyboard ISR runs `console_put_ibuf` between any two of them while its IRQ is
enabled. A line is returned with the IRQ disabled, and the next call enables it.

`DeliversLines` says what the calls should deliver: the lines as they were
edited, one after the other.
-/

namespace Kboot86.GetLine

open Console

/-- The statement that is executed next; `display` are those of `_display_ibuf`,
and the last of `_reset_ibuf` are `resetWidx` and `resetLine`. -/
inductive Pc
  | idle
  | testCleared
  | displayTest (i : Nat)
  | displayPut (i : Nat)
  | displayCursor
  | setCleared
  | disableIrq
  | testLine
  | retestCleared
  | enableReturn
  | enableIrq
  | halt
  | setLen
  | setBufLen
  | memcpy
  | resetWidx
  | resetLine
  | ret (code : Int)
deriving DecidableEq

/-- The console, whether the keyboard IRQ is enabled, and the variables of the
call: `buf`, what `buf_len` points to, and `len`. -/
structure State where
  console : Console
  irq : Bool
  pc : Pc
  buf : Nat → UInt8
  bufLen : Nat
  len : Nat

namespace State

def exec (s : State) : State :=
  let c := s.console
  match s.pc with
  | .idle => s
  | .testCleared => { s with pc := if c.cleared then .displayTest 0 else .disableIrq }
  | .displayTest i => { s with pc := if i < c.widx then .displayPut i else .displayCursor }
  | .displayPut i => { s with console := (c.putc (c.ibuf i) true).1, pc := .displayTest (i + 1) }
  | .displayCursor => { s with console := c.drawCursor, pc := .setCleared }
  | .setCleared => { s with console := { c with cleared := false }, pc := .disableIrq }
  | .disableIrq => { s with irq := false, pc := .testLine }
  | .testLine => { s with pc := if !c.lineCompleted then .retestCleared else .setLen }
  | .retestCleared => { s with pc := if c.cleared then .enableReturn else .enableIrq }
  | .enableReturn => { s with irq := true, pc := .ret 1 }
  | .enableIrq => { s with irq := true, pc := .halt }
  | .halt => { s with pc := .disableIrq }
  | .setLen => { s with len := if s.bufLen < c.widx then s.bufLen else c.widx, pc := .setBufLen }
  | .setBufLen => { s with bufLen := s.len, pc := .memcpy }
  | .memcpy => { s with buf := fun k => if k < s.len then c.ibuf k else s.buf k, pc := .resetWidx }
  | .resetWidx => { s with console := { c with widx := 0 }, pc := .resetLine }
  | .resetLine => { s with console := { c with lineCompleted := false }, pc := .ret 0 }
  | .ret _ => s

def text (s : State) : List UInt8 := (List.range s.bufLen).map s.buf

end State

/-- What can happen: a call, the next statement, a key, and the return with a
code and what is in the buffer. -/
inductive Event
  | call (buf : Nat → UInt8) (bufLen : Nat)
  | statement
  | key (c : UInt8)
  | ret (code : Int) (text : List UInt8)

/-- From the end of `console_init` on. -/
def getLineSystem : System State Event where
  init s := s.pc = .idle ∧ s.irq = true ∧ ∃ c : Console, s.console = c.consoleInit
  step s e s' :=
    match e with
    | .call buf n => s.pc = .idle ∧ s' = { s with pc := .testCleared, buf := buf, bufLen := n }
    | .statement => s' = s.exec
    | .key c => s.irq = true ∧ s' = { s with console := s.console.consolePutIbuf c }
    | .ret code text => s.pc = .ret code ∧ text = s.text ∧ s' = { s with pc := .idle }

/-! ### What was typed and what was delivered -/

/-- What a key makes of the line: an erasure, a line kill, a character as long
as the line has less than 128 of them, or nothing. -/
def edit (line : List UInt8) (c : UInt8) : List UInt8 :=
  if c = 0x08 then line.dropLast
  else if c = 0x0d then []
  else if printable c ∧ line.length < 128 then line ++ [c]
  else line

def typeKey (p : List (List UInt8) × List UInt8) (c : UInt8) : List (List UInt8) × List UInt8 :=
  if c = 0x0a then (p.1 ++ [p.2], []) else (p.1, edit p.2 c)

def typed (cs : List UInt8) : List (List UInt8) × List UInt8 := cs.foldl typeKey ([], [])

def Event.key? : Event → Option UInt8
  | .key c => some c
  | _ => none

def Event.bufLen? : Event → Option Nat
  | .call _ n => some n
  | _ => none

def Event.delivered? : Event → Option (List UInt8)
  | .ret code text => if code = 0 then some text else none
  | _ => none

def keys (es : List Event) : List UInt8 := es.filterMap Event.key?

def delivered (es : List Event) : List (List UInt8) := es.filterMap Event.delivered?

def lastBufLen (es : List Event) : Option Nat := (es.filterMap Event.bufLen?).getLast?

/-- Each call that returns 0 delivers the next of the lines that were typed, as
far as the length allows. -/
def DeliversLines (es : List Event) : Prop :=
  ∀ pre text post, es = pre ++ .ret 0 text :: post →
    ∃ n line, lastBufLen pre = some n ∧
      (typed (keys pre)).1[(delivered pre).length]? = some line ∧ text = line.take n

/-- The key begins another line before the reader took the one that is
complete. -/
def TypesAhead (s : State) : Event → Prop
  | .key c => s.console.lineCompleted = true ∧ (printable c = true ∨ c = 0x0a)
  | _ => False

end Kboot86.GetLine
