import Kboot86.Lib.Timer.Triggered

/-!
# Timers that are put into the list twice

`timer_list_add_timer` does not look at `in_list`, which `timer_restart` and
`timer_list_remove_timer` do. So `timer_resume` and `timer_start` put a timer
that is in the list in front of it once more: its pointer to the next timer then
leads to the former head, from there to the timer itself, and so on for ever.

Here the two operations are functions. They are what their statements do when
no tick comes in between.
-/

namespace Kboot86.Timer

variable {α : Type} [DecidableEq α]

namespace Timers

def timerStart (h : Timers α) (t : α) (timeout : UInt32) : Timers α :=
  let h := h.setNext t none
  let h := h.setPrev t none
  let h := h.setInList t false
  let h := h.setInitialCounter t timeout
  let h := h.setCounter t timeout
  h.timerListAddTimer t

def timerResume (h : Timers α) (t : α) : Timers α :=
  if h.counter t ≠ 0 then h.timerListAddTimer t else h

omit [DecidableEq α] in
/-- The walk through the list from `_head` is finite, and comes once to each of
the timers of `l` and to no other. -/
def Lists (h : Timers α) (l : List α) : Prop :=
  ∃ l', h.Leads h.head l' none ∧ l'.Nodup ∧ ∀ t, t ∈ l' ↔ t ∈ l

variable {h h' : Timers α} {l : List α} {t : α}

omit [DecidableEq α] in
theorem lists_of_isList (hl : h.IsList l) : h.Lists l := by
  obtain ⟨q, hq⟩ := id hl
  exact ⟨l, hq.leads, hl.nodup, fun _ => Iff.rfl⟩

/-- A listed timer that is put in front, with the stores of
`timer_list_add_timer`, closes the links to a cycle. -/
theorem not_lists_of_relinked (hl : h.IsList l) (ht : t ∈ l) (hhead : h'.head = some t)
    (hnext : h'.next = Function.update h.next t h.head) : ¬ h'.Lists l := by
  obtain ⟨x, y, rfl⟩ := List.append_of_mem ht
  rintro ⟨l', hl', -, -⟩
  rw [hhead] at hl'
  exact List.cons_ne_nil t x ((hl.leads_cycle hnext).acyclic hl')

@[simp] theorem link_next (h : Timers α) (t : α) :
    (h.link t).next = Function.update h.next t h.head :=
  Links.setPrevOf_next _ _ _

theorem timerResume_lists_iff (hl : h.IsList l) (ht : t ∈ l) :
    (h.timerResume t).Lists l ↔ h.counter t = 0 := by
  by_cases hc : h.counter t = 0
  · rw [timerResume, if_neg (not_not.mpr hc)]
    exact ⟨fun _ => hc, fun _ => lists_of_isList hl⟩
  · rw [timerResume, if_pos hc, timerListAddTimer, if_neg hc]
    exact ⟨fun h' => absurd h' (not_lists_of_relinked hl ht rfl (link_next h t)),
      fun h' => absurd h' hc⟩

theorem timerStart_not_lists (hl : h.IsList l) (ht : t ∈ l) {n : UInt32} (hn : n ≠ 0) :
    ¬ (h.timerStart t n).Lists l := by
  have hc : (((((h.setNext t none).setPrev t none).setInList t false).setInitialCounter t
      n).setCounter t n).counter t ≠ 0 := by
    rw [setCounter_counter, Function.update_self]
    exact hn
  rw [timerStart, timerListAddTimer, if_neg hc]
  refine not_lists_of_relinked hl ht rfl ?_
  -- the pointer that was cleared is set again
  rw [link_next]
  exact Function.update_idem _ _ _

end Timers

theorem iterate_timerResume {s : State α} (hidle : s.pc = .idle) (t : α) :
    ∃ n, State.exec^[n] (s.call (.timerResume t)) =
      { s with timers := s.timers.timerResume t } := by
  by_cases hc : s.timers.counter t = 0
  · refine ⟨1, ?_⟩
    simp [State.exec, State.call, Op.enter, Timers.timerResume, hc, hidle]
  · refine ⟨6, ?_⟩
    simp [State.exec, State.call, Op.enter, Timers.timerResume, Timers.timerListAddTimer, Pc.ret,
      hc, hidle]

theorem iterate_timerStart {s : State α} (hidle : s.pc = .idle) (t : α) (timeout : UInt32) :
    ∃ n, State.exec^[n] (s.call (.timerStart t timeout)) =
      { s with
        timers := s.timers.timerStart t timeout
        started := Function.update s.started t true } := by
  by_cases hc : timeout = 0
  · refine ⟨6, ?_⟩
    simp [State.exec, State.call, Op.enter, Timers.timerStart, Timers.timerListAddTimer, Pc.ret,
      hc, hidle]
  · refine ⟨10, ?_⟩
    simp [State.exec, State.call, Op.enter, Timers.timerStart, Timers.timerListAddTimer, Pc.ret,
      hc, hidle]

/-- On a timer that is in the list `timer_start` never keeps the list, and
`timer_resume` only when the counter is 0, which that of a listed timer never is. -/
theorem relinked_iff {h : Timers α} {l : List α} {t : α} (hl : h.IsList l) (ht : t ∈ l) :
    ((h.timerResume t).Lists l ↔ h.counter t = 0) ∧
      ∀ n, n ≠ 0 → ¬ (h.timerStart t n).Lists l :=
  ⟨Timers.timerResume_lists_iff hl ht, fun _ hn => Timers.timerStart_not_lists hl ht hn⟩

section Sample

theorem relinked_iff_sample :
    (((twoTimers 3 5).timerResume false).Lists [true, false] ↔ (5 : UInt32) = 0) ∧
      ∀ n, n ≠ 0 → ¬ ((twoTimers 3 5).timerStart false n).Lists [true, false] :=
  relinked_iff (twoTimers_isList 3 5) (by decide)

/-- Of two running timers the second one is resumed. -/
theorem timerResume_cycles :
    ¬ ∀ (h : Timers Bool) (l : List Bool) (t : Bool), h.IsList l →
      (∀ u ∈ l, h.inList u = true ∧ h.counter u ≠ 0) → t ∈ l →
      (h.timerResume t).Lists l ∧ ∀ n, n ≠ 0 → (h.timerStart t n).Lists l := by
  intro hclaim
  have hlist := twoTimers_isList 3 5
  obtain ⟨hresume, -⟩ := hclaim _ _ false hlist (by decide) (by decide)
  have hzero := (Timers.timerResume_lists_iff hlist (by decide)).mp hresume
  exact absurd hzero (by decide)

end Sample

end Kboot86.Timer
