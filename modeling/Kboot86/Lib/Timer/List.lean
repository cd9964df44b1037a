import Kboot86.Foundation.LinkedList
import Mathlib.Data.UInt

/-!
# The list of timers

`timer_list.c` over the timers of a type `α`, the addresses of the `timer_t`
structures. Every field of the structure is a function of the address; the two
link fields and `_head` are `Links`, whose `push` and `unlink` are the stores of
`timer_list_add_timer` and `timer_list_remove_timer` between `cli` and the
restoring of the interrupt flag.

`timer_list_update` is called with interrupts off, so it is one function here.
It returns the counters that it found before it decremented them, in order;
nothing reads them.
-/

namespace Kboot86.Timer

structure Timers (α : Type) extends Links α where
  initialCounter : α → UInt32
  counter : α → UInt32
  inList : α → Bool

namespace Timers

variable {α : Type} [DecidableEq α]

def setNext (h : Timers α) (t : α) (v : Option α) : Timers α :=
  { h with toLinks := h.toLinks.setNext t v }

def setPrev (h : Timers α) (t : α) (v : Option α) : Timers α :=
  { h with toLinks := h.toLinks.setPrev t v }

def setInList (h : Timers α) (t : α) (b : Bool) : Timers α :=
  { h with inList := Function.update h.inList t b }

def setInitialCounter (h : Timers α) (t : α) (n : UInt32) : Timers α :=
  { h with initialCounter := Function.update h.initialCounter t n }

def setCounter (h : Timers α) (t : α) (n : UInt32) : Timers α :=
  { h with counter := Function.update h.counter t n }

@[simp] theorem setCounter_counter (h : Timers α) (t : α) (n : UInt32) :
    (h.setCounter t n).counter = Function.update h.counter t n := rfl

@[simp] theorem setCounter_toLinks (h : Timers α) (t : α) (n : UInt32) :
    (h.setCounter t n).toLinks = h.toLinks := rfl

@[simp] theorem setCounter_inList (h : Timers α) (t : α) (n : UInt32) :
    (h.setCounter t n).inList = h.inList := rfl

@[simp] theorem setCounter_initialCounter (h : Timers α) (t : α) (n : UInt32) :
    (h.setCounter t n).initialCounter = h.initialCounter := rfl

/-- The part of `timer_list_add_timer` with interrupts off. -/
def link (h : Timers α) (t : α) : Timers α :=
  { h with toLinks := h.toLinks.push t }.setInList t true

/-- The part of `timer_list_remove_timer` with interrupts off. -/
def unlinkTimer (h : Timers α) (t : α) : Timers α :=
  { h with toLinks := h.toLinks.unlink t }.setInList t false

def timerIsTriggered (h : Timers α) (t : α) : Bool := h.counter t == 0

def timerListAddTimer (h : Timers α) (t : α) : Timers α :=
  if h.counter t = 0 then h else h.link t

def timerListRemoveTimer (h : Timers α) (t : α) : Timers α :=
  if !h.inList t then h else ((h.unlinkTimer t).setNext t none).setPrev t none

/-- The loop of `timer_list_update` from the pointer `tmr` on. The first
argument bounds the iterations; the loop goes on with `next` of the timer as it
is after the timer may have been removed. -/
def timerListUpdateFrom :
    Nat → Option α → Timers α → List (α × UInt32) → Option (Timers α × List (α × UInt32))
  | _, none, h, log => some (h, log)
  | 0, some _, _, _ => none
  | n + 1, some t, h, log =>
      let log := log ++ [(t, h.counter t)]
      let h := h.setCounter t (h.counter t - 1)
      let h := if h.counter t = 0 then h.timerListRemoveTimer t else h
      timerListUpdateFrom n (h.next t) h log

def timerListUpdate (n : Nat) (h : Timers α) : Option (Timers α × List (α × UInt32)) :=
  timerListUpdateFrom n h.head h []

end Timers

end Kboot86.Timer
