import Kboot86.Foundation.Transition
import Kboot86.Lib.Timer.List

/-!
# The operations on timers, statement by statement

The operations of `timer.c` as a state machine whose steps are the single
statements of the source, so that a PIT tick can come between any two of them
while interrupts are enabled. What stands between `intr_disable` and
`eflags_set_intr_flag` is one step: no tick can come in between.

`timer_restart` calls itself, so the statements that it reaches carry the
interrupt flags that the outer calls have saved, the innermost first.
-/

namespace Kboot86.Timer

variable {α : Type} [DecidableEq α]

/-- The statement that the operation in progress executes next. -/
inductive Pc (α : Type)
  | idle
  | startNext (t : α) (timeout : UInt32)
  | startPrev (t : α) (timeout : UInt32)
  | startInList (t : α) (timeout : UInt32)
  | startInitial (t : α) (timeout : UInt32)
  | startCounter (t : α) (timeout : UInt32)
  | addTest (t : α) (flags : List Bool)
  | addSave (t : α) (flags : List Bool)
  | addDisable (t : α) (flag : Bool) (flags : List Bool)
  | addLink (t : α) (flag : Bool) (flags : List Bool)
  | addRestore (flag : Bool) (flags : List Bool)
  | removeTest (t : α)
  | removeSave (t : α)
  | removeDisable (t : α) (flag : Bool)
  | removeUnlink (t : α) (flag : Bool)
  | removeRestore (t : α) (flag : Bool)
  | removeNext (t : α)
  | removePrev (t : α)
  | resumeTest (t : α)
  | restartTest (t : α) (flags : List Bool)
  | restartLoad (t : α) (flags : List Bool)
  | restartStore (t : α) (n : UInt32) (flags : List Bool)
  | restartSave (t : α) (flags : List Bool)
  | restartDisable (t : α) (flag : Bool) (flags : List Bool)
  | restartRetest (t : α) (flag : Bool) (flags : List Bool)
  | restartSet (t : α) (flag : Bool) (flags : List Bool)
  | restartRestore (flag : Bool) (flags : List Bool)
  deriving DecidableEq

def Pc.ret : List Bool → Pc α
  | [] => .idle
  | flag :: flags => .restartRestore flag flags

inductive Op (α : Type)
  | timerStart (t : α) (timeout : UInt32)
  | timerEnd (t : α)
  | timerStop (t : α)
  | timerPause (t : α)
  | timerResume (t : α)
  | timerRestart (t : α)
  deriving DecidableEq

def Op.timer : Op α → α
  | .timerStart t _ | .timerEnd t | .timerStop t | .timerPause t | .timerResume t
  | .timerRestart t => t

def Op.enter : Op α → Pc α
  | .timerStart t timeout => .startNext t timeout
  | .timerEnd t | .timerStop t | .timerPause t => .removeTest t
  | .timerResume t => .resumeTest t
  | .timerRestart t => .restartTest t []

/-- The machine. Two fields are not of the program: `started` says which timers
`timer_start` has set up, `found` lists every counter that a tick decremented,
as it was before. -/
structure State (α : Type) where
  timers : Timers α
  intr : Bool
  pc : Pc α
  started : α → Bool
  found : List (α × UInt32)

namespace State

def exec (s : State α) : State α :=
  let h := s.timers
  match s.pc with
  | .idle => s
  | .startNext t n => { s with timers := h.setNext t none, pc := .startPrev t n }
  | .startPrev t n => { s with timers := h.setPrev t none, pc := .startInList t n }
  | .startInList t n => { s with timers := h.setInList t false, pc := .startInitial t n }
  | .startInitial t n => { s with timers := h.setInitialCounter t n, pc := .startCounter t n }
  | .startCounter t n =>
      { s with
        timers := h.setCounter t n
        pc := .addTest t []
        started := Function.update s.started t true }
  | .addTest t k => { s with pc := if h.counter t = 0 then .ret k else .addSave t k }
  | .addSave t k => { s with pc := .addDisable t s.intr k }
  | .addDisable t flag k => { s with intr := false, pc := .addLink t flag k }
  | .addLink t flag k => { s with timers := h.link t, pc := .addRestore flag k }
  | .addRestore flag k => { s with intr := flag, pc := .ret k }
  | .removeTest t => { s with pc := if h.inList t then .removeSave t else .idle }
  | .removeSave t => { s with pc := .removeDisable t s.intr }
  | .removeDisable t flag => { s with intr := false, pc := .removeUnlink t flag }
  | .removeUnlink t flag => { s with timers := h.unlinkTimer t, pc := .removeRestore t flag }
  | .removeRestore t flag => { s with intr := flag, pc := .removeNext t }
  | .removeNext t => { s with timers := h.setNext t none, pc := .removePrev t }
  | .removePrev t => { s with timers := h.setPrev t none, pc := .idle }
  | .resumeTest t => { s with pc := if h.counter t = 0 then .idle else .addTest t [] }
  | .restartTest t k => { s with pc := if h.inList t then .restartSave t k else .restartLoad t k }
  | .restartLoad t k => { s with pc := .restartStore t (h.initialCounter t) k }
  | .restartStore t n k => { s with timers := h.setCounter t n, pc := .addTest t k }
  | .restartSave t k => { s with pc := .restartDisable t s.intr k }
  | .restartDisable t flag k => { s with intr := false, pc := .restartRetest t flag k }
  | .restartRetest t flag k =>
      { s with pc := if h.inList t then .restartSet t flag k else .restartTest t (flag :: k) }
  | .restartSet t flag k =>
      { s with timers := h.setCounter t (h.initialCounter t), pc := .restartRestore flag k }
  | .restartRestore flag k => { s with intr := flag, pc := .ret k }

theorem exec_of_idle {s : State α} (hpc : s.pc = .idle) : s.exec = s := by rw [exec, hpc]

/-- What a caller may do: start timers that are not listed, resume started
ones that are not, and end, stop, pause or restart started ones. -/
def Allowed (s : State α) : Op α → Prop
  | .timerStart t _ => ∀ l, s.timers.IsList l → t ∉ l
  | .timerEnd t | .timerStop t | .timerPause t | .timerRestart t => s.started t = true
  | .timerResume t => s.started t = true ∧ ∀ l, s.timers.IsList l → t ∉ l

def call (s : State α) (op : Op α) : State α :=
  { s with
    pc := op.enter
    started := match op with
      | .timerStart t _ => Function.update s.started t false
      | _ => s.started }

end State

/-- What can happen: a call, the next statement, a tick, and between operations
the program turning interrupts on or off. -/
inductive Event (α : Type)
  | call (op : Op α)
  | statement
  | tick
  | setIntr (b : Bool)

def Step (s : State α) (e : Event α) (s' : State α) : Prop :=
  match e with
  | .call op => s.pc = .idle ∧ s.Allowed op ∧ s' = s.call op
  | .statement => s.pc ≠ .idle ∧ s' = s.exec
  | .tick => s.intr = true ∧ ∃ n h found, s.timers.timerListUpdate n = some (h, found) ∧
      s' = { s with timers := h, found := s.found ++ found }
  | .setIntr b => s.pc = .idle ∧ s' = { s with intr := b }

/-- The timers from `timer_list_init` on: no timer is started, and the memory
of the timers may hold anything. -/
def machine (α : Type) [DecidableEq α] : System (State α) (Event α) where
  init s := s.timers.head = none ∧ s.pc = .idle ∧ (∀ t, s.started t = false) ∧ s.found = []
  step := Step

end Kboot86.Timer
