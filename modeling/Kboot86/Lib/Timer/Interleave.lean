import Kboot86.Lib.Timer.Listing
import Kboot86.Lib.Timer.Ops

/-!
# Ticks between any two statements

The invariant of the operations under interleaved ticks. Beside the `Listing`
it says, for every statement, what the operation relies on when it gets there:
a tick between the test of `in_list` and `intr_disable` may have removed the
timer in question, but no tick lists one.
-/

namespace Kboot86.Timer

variable {α : Type} [DecidableEq α]

def Pc.clears : Pc α → Option α
  | .removeRestore t _ | .removeNext t | .removePrev t => some t
  | _ => none

/-- What holds when the statement is reached. -/
def Pc.Holds (h : Timers α) (started : α → Bool) (intr : Bool) (l : List α) : Pc α → Prop
  | .startNext t _ => t ∉ l ∧ started t = false
  | .startPrev t _ => t ∉ l ∧ started t = false ∧ h.next t = none
  | .startInList t _ => t ∉ l ∧ started t = false ∧ h.next t = none ∧ h.prev t = none
  | .startInitial t _ =>
      t ∉ l ∧ started t = false ∧ h.next t = none ∧ h.prev t = none ∧ h.inList t = false
  | .startCounter t n =>
      t ∉ l ∧ started t = false ∧ h.next t = none ∧ h.prev t = none ∧ h.inList t = false ∧
        h.initialCounter t = n
  | .addTest t _ | .resumeTest t | .restartLoad t _ => t ∉ l ∧ started t = true
  | .addSave t _ | .addDisable t _ _ | .addLink t _ _ =>
      t ∉ l ∧ started t = true ∧ h.counter t ≠ 0
  | .removeTest t | .removeSave t | .removeDisable t _ | .removeUnlink t _ => started t = true
  | .removeRestore t _ | .removeNext t => t ∉ l
  | .removePrev t => t ∉ l ∧ h.next t = none
  | .restartTest t _ | .restartSave t _ | .restartDisable t _ _ => started t = true
  | .restartStore t n _ => t ∉ l ∧ started t = true ∧ n = h.initialCounter t
  | .restartRetest t _ _ => started t = true ∧ intr = false
  | .restartSet t _ _ => started t = true ∧ intr = false
  | .idle | .addRestore _ _ | .restartRestore _ _ => True

structure Inv (s : State α) (l : List α) : Prop where
  listing : Listing s.timers s.started s.pc.clears l
  holds : s.pc.Holds s.timers s.started s.intr l
  found : ∀ p ∈ s.found, p.2 ≠ 0

omit [DecidableEq α] in
@[simp] theorem Pc.clears_ret (k : List Bool) : (Pc.ret k : Pc α).clears = none := by
  cases k <;> rfl

omit [DecidableEq α] in
@[simp] theorem Pc.holds_ret (h : Timers α) (started : α → Bool) (intr : Bool) (l : List α)
    (k : List Bool) : (Pc.ret k).Holds h started intr l := by
  cases k <;> trivial

omit [DecidableEq α] in
/-- Away from the list nothing changes, and no tick comes while interrupts are off. -/
theorem Pc.Holds.ticked {h h' : Timers α} {started : α → Bool} {l l' : List α} {pc : Pc α}
    (H : pc.Holds h started true l) (hsub : l' ⊆ l) (hsame : ∀ t ∉ l, SameTimer h h' t) :
    pc.Holds h' started true l' := by
  have hnot : ∀ {t}, t ∉ l → t ∉ l' := fun ht hmem => ht (hsub hmem)
  cases pc with
  | startNext t n => exact ⟨hnot H.1, H.2⟩
  | startPrev t n =>
      rcases H with ⟨ht, hs, hn⟩
      exact ⟨hnot ht, hs, (hsame t ht).next.trans hn⟩
  | startInList t n =>
      rcases H with ⟨ht, hs, hn, hp⟩
      exact ⟨hnot ht, hs, (hsame t ht).next.trans hn, (hsame t ht).prev.trans hp⟩
  | startInitial t n =>
      rcases H with ⟨ht, hs, hn, hp, hi⟩
      exact ⟨hnot ht, hs, (hsame t ht).next.trans hn, (hsame t ht).prev.trans hp,
        (hsame t ht).inList.trans hi⟩
  | startCounter t n =>
      rcases H with ⟨ht, hs, hn, hp, hi, hc⟩
      exact ⟨hnot ht, hs, (hsame t ht).next.trans hn, (hsame t ht).prev.trans hp,
        (hsame t ht).inList.trans hi, (hsame t ht).initialCounter.trans hc⟩
  | addTest t k | resumeTest t | restartLoad t k => exact ⟨hnot H.1, H.2⟩
  | addSave t k | addDisable t flag k | addLink t flag k =>
      rcases H with ⟨ht, hs, hc⟩
      exact ⟨hnot ht, hs, by rwa [(hsame t ht).counter]⟩
  | removeRestore t flag | removeNext t => exact hnot H
  | removePrev t => exact ⟨hnot H.1, (hsame t H.1).next.trans H.2⟩
  | restartStore t n k =>
      rcases H with ⟨ht, hs, hn⟩
      exact ⟨hnot ht, hs, hn.trans (hsame t ht).initialCounter.symm⟩
  | restartRetest t flag k | restartSet t flag k => cases H.2
  | removeTest t | removeSave t | removeDisable t flag | removeUnlink t flag | restartTest t k
  | restartSave t k | restartDisable t flag k => exact H
  | idle | addRestore flag k | restartRestore flag k => trivial

theorem Ticked.same {h h' : Timers α} {l : List α} (htick : Ticked h h' [] l) {t : α}
    (ht : t ∉ l) : SameTimer h h' t := by
  obtain ⟨hp, hn⟩ := htick.links t (by simpa using ht)
  refine ⟨by rw [htick.initialCounter], ?_, htick.inList t (.inl ht), hp, hn⟩
  rw [htick.counter, if_neg fun hv => ht (visited_subset _ _ hv)]

namespace Inv

variable {s s' : State α} {l : List α}

/-- A tick comes to an end, and finds no counter that is zero. -/
theorem tick (H : Inv s l) (hintr : s.intr = true) :
    ∃ n h, s.timers.timerListUpdate n = some (h, foundCounters s.timers l) ∧
      Ticked s.timers h [] l ∧
      Inv { s with timers := h, found := s.found ++ foundCounters s.timers l }
        (survivors s.timers.counter l) := by
  obtain ⟨n, h, hrun, htick⟩ := H.listing.update
  refine ⟨n, h, hrun, htick, H.listing.ticked htick, ?_, ?_⟩
  · have hholds := H.holds
    rw [hintr] at hholds
    have := hholds.ticked (survivors_sublist s.timers.counter l).subset fun t ht => htick.same ht
    rw [← hintr] at this
    exact this
  · intro p hp
    rcases List.mem_append.mp hp with hp | hp
    · exact H.found p hp
    · obtain ⟨t, ht, rfl⟩ := List.mem_map.mp hp
      exact H.listing.counter t (visited_subset _ _ ht)

theorem call (H : Inv s l) (hidle : s.pc = .idle) {op : Op α} (hop : s.Allowed op) :
    Inv (s.call op) l := by
  have hlisting := H.listing
  rw [hidle] at hlisting
  cases op with
  | timerStart t n =>
      have ht : t ∉ l := hop l hlisting.list
      exact ⟨hlisting.forget ht, ⟨ht, Function.update_self _ _ _⟩, H.found⟩
  | timerEnd t | timerStop t | timerPause t | timerRestart t => exact ⟨hlisting, hop, H.found⟩
  | timerResume t => exact ⟨hlisting, ⟨hop.2 l hlisting.list, hop.1⟩, H.found⟩

theorem exec (H : Inv s l) : ∃ l', Inv s.exec l' := by
  rcases H with ⟨hlisting, hholds, hfound⟩
  cases hpc : s.pc with
  | idle =>
      refine ⟨l, ?_⟩
      rw [State.exec_of_idle hpc]
      exact ⟨hlisting, hholds, hfound⟩
  | startNext t n =>
      rw [hpc] at hlisting hholds
      rcases hholds with ⟨ht, hs⟩
      refine ⟨l, ?_⟩
      simp only [State.exec, hpc]
      exact ⟨hlisting.store hs rfl fun u hu => sameTimer_setNext none hu,
        ⟨ht, hs, Function.update_self _ _ _⟩, hfound⟩
  | startPrev t n =>
      rw [hpc] at hlisting hholds
      rcases hholds with ⟨ht, hs, hn⟩
      refine ⟨l, ?_⟩
      simp only [State.exec, hpc]
      exact ⟨hlisting.store hs rfl fun u hu => sameTimer_setPrev none hu,
        ⟨ht, hs, hn, Function.update_self _ _ _⟩, hfound⟩
  | startInList t n =>
      rw [hpc] at hlisting hholds
      rcases hholds with ⟨ht, hs, hn, hp⟩
      refine ⟨l, ?_⟩
      simp only [State.exec, hpc]
      exact ⟨hlisting.store hs rfl fun u hu => sameTimer_setInList false hu,
        ⟨ht, hs, hn, hp, Function.update_self _ _ _⟩, hfound⟩
  | startInitial t n =>
      rw [hpc] at hlisting hholds
      rcases hholds with ⟨ht, hs, hn, hp, hi⟩
      refine ⟨l, ?_⟩
      simp only [State.exec, hpc]
      exact ⟨hlisting.store hs rfl fun u hu => sameTimer_setInitialCounter n hu,
        ⟨ht, hs, hn, hp, hi, Function.update_self _ _ _⟩, hfound⟩
  | startCounter t n =>
      rw [hpc] at hlisting hholds
      rcases hholds with ⟨ht, hs, hn, hp, hi, hc⟩
      refine ⟨l, ?_⟩
      simp only [State.exec, hpc]
      exact ⟨hlisting.start ht hs hi hp hn hc, ⟨ht, Function.update_self _ _ _⟩, hfound⟩
  | addTest t k =>
      rw [hpc] at hlisting hholds
      refine ⟨l, ?_⟩
      by_cases hc : s.timers.counter t = 0
      · simp only [State.exec, hpc, hc, if_true]
        exact ⟨by rw [Pc.clears_ret]; exact hlisting, Pc.holds_ret _ _ _ _ _, hfound⟩
      · simp only [State.exec, hpc, hc, if_false]
        exact ⟨hlisting, ⟨hholds.1, hholds.2, hc⟩, hfound⟩
  | addSave t k | addDisable t flag k =>
      rw [hpc] at hlisting hholds
      refine ⟨l, ?_⟩
      simp only [State.exec, hpc]
      exact ⟨hlisting, hholds, hfound⟩
  | addLink t flag k =>
      rw [hpc] at hlisting hholds
      rcases hholds with ⟨ht, hs, hc⟩
      refine ⟨t :: l, ?_⟩
      simp only [State.exec, hpc]
      exact ⟨hlisting.link hs ht hc (by simp [Pc.clears]), trivial, hfound⟩
  | addRestore flag k | restartRestore flag k =>
      rw [hpc] at hlisting
      refine ⟨l, ?_⟩
      simp only [State.exec, hpc]
      exact ⟨by rw [Pc.clears_ret]; exact hlisting, Pc.holds_ret _ _ _ _ _, hfound⟩
  | removeTest t =>
      rw [hpc] at hlisting hholds
      refine ⟨l, ?_⟩
      cases hi : s.timers.inList t with
      | true =>
          simp only [State.exec, hpc, hi, if_true]
          exact ⟨hlisting, hholds, hfound⟩
      | false =>
          simp only [State.exec, hpc, hi]
          exact ⟨hlisting, trivial, hfound⟩
  | removeSave t | removeDisable t flag =>
      rw [hpc] at hlisting hholds
      refine ⟨l, ?_⟩
      simp only [State.exec, hpc]
      exact ⟨hlisting, hholds, hfound⟩
  | removeUnlink t flag =>
      rw [hpc] at hlisting hholds
      refine ⟨l.erase t, ?_⟩
      simp only [State.exec, hpc]
      exact ⟨hlisting.unlinkTimer hholds,
        fun hmem => (hlisting.list.nodup.mem_erase_iff.mp hmem).1 rfl, hfound⟩
  | removeRestore t flag =>
      rw [hpc] at hlisting hholds
      refine ⟨l, ?_⟩
      simp only [State.exec, hpc]
      exact ⟨hlisting, hholds, hfound⟩
  | removeNext t =>
      rw [hpc] at hlisting hholds
      refine ⟨l, ?_⟩
      simp only [State.exec, hpc]
      exact ⟨hlisting.clear hholds rfl (fun u hu => sameTimer_setNext none hu) rfl rfl rfl,
        ⟨hholds, Function.update_self _ _ _⟩, hfound⟩
  | removePrev t =>
      rw [hpc] at hlisting hholds
      refine ⟨l, ?_⟩
      simp only [State.exec, hpc]
      have hcleared : Listing (s.timers.setPrev t none) s.started (some t) l :=
        hlisting.clear hholds.1 rfl (fun u hu => sameTimer_setPrev none hu) rfl rfl rfl
      exact ⟨hcleared.cleared (Function.update_self _ _ _) hholds.2, trivial, hfound⟩
  | resumeTest t =>
      rw [hpc] at hlisting hholds
      refine ⟨l, ?_⟩
      by_cases hc : s.timers.counter t = 0
      · simp only [State.exec, hpc, hc, if_true]
        exact ⟨hlisting, trivial, hfound⟩
      · simp only [State.exec, hpc, hc, if_false]
        exact ⟨hlisting, hholds, hfound⟩
  | restartTest t k =>
      rw [hpc] at hlisting hholds
      refine ⟨l, ?_⟩
      cases hi : s.timers.inList t with
      | true =>
          simp only [State.exec, hpc, hi, if_true]
          exact ⟨hlisting, hholds, hfound⟩
      | false =>
          simp only [State.exec, hpc, hi]
          have ht : t ∉ l := by
            intro hmem
            rw [(hlisting.inList t hholds).mpr hmem] at hi
            cases hi
          exact ⟨hlisting, ⟨ht, hholds⟩, hfound⟩
  | restartLoad t k =>
      rw [hpc] at hlisting hholds
      refine ⟨l, ?_⟩
      simp only [State.exec, hpc]
      exact ⟨hlisting, ⟨hholds.1, hholds.2, rfl⟩, hfound⟩
  | restartStore t n k =>
      rw [hpc] at hlisting hholds
      rcases hholds with ⟨ht, hs, rfl⟩
      refine ⟨l, ?_⟩
      simp only [State.exec, hpc]
      exact ⟨hlisting.reset hs, ⟨ht, hs⟩, hfound⟩
  | restartSave t k =>
      rw [hpc] at hlisting hholds
      refine ⟨l, ?_⟩
      simp only [State.exec, hpc]
      exact ⟨hlisting, hholds, hfound⟩
  | restartDisable t flag k =>
      rw [hpc] at hlisting hholds
      refine ⟨l, ?_⟩
      simp only [State.exec, hpc]
      exact ⟨hlisting, ⟨hholds, rfl⟩, hfound⟩
  | restartRetest t flag k =>
      rw [hpc] at hlisting hholds
      refine ⟨l, ?_⟩
      cases hi : s.timers.inList t with
      | true =>
          simp only [State.exec, hpc, hi, if_true]
          exact ⟨hlisting, hholds, hfound⟩
      | false =>
          simp only [State.exec, hpc, hi]
          exact ⟨hlisting, hholds.1, hfound⟩
  | restartSet t flag k =>
      rw [hpc] at hlisting hholds
      refine ⟨l, ?_⟩
      simp only [State.exec, hpc]
      exact ⟨hlisting.reset hholds.1, trivial, hfound⟩

end Inv

theorem Inv.step {s s' : State α} {e : Event α} {l : List α} (H : Inv s l)
    (hstep : (machine α).step s e s') : ∃ l', Inv s' l' := by
  cases e with
  | call op =>
      rcases hstep with ⟨hidle, hop, rfl⟩
      exact ⟨l, H.call hidle hop⟩
  | statement =>
      rcases hstep with ⟨-, rfl⟩
      exact H.exec
  | tick =>
      rcases hstep with ⟨hintr, n, h, found, hrun, rfl⟩
      obtain ⟨n', h', hrun', -, H'⟩ := H.tick hintr
      obtain ⟨rfl, rfl⟩ := Prod.mk.inj (Timers.timerListUpdateFrom_unique hrun hrun')
      exact ⟨_, H'⟩
  | setIntr b =>
      rcases hstep with ⟨hidle, rfl⟩
      have hholds : s.pc.Holds s.timers s.started b l := by
        rw [hidle]
        trivial
      exact ⟨l, H.listing, hholds, H.found⟩

theorem inv_init {s : State α} (hs : (machine α).init s) : Inv s [] := by
  rcases hs with ⟨hhead, hidle, hstart, hfound⟩
  have hnone : ∀ t, s.started t ≠ true := fun t => by simp [hstart t]
  refine ⟨⟨⟨none, hhead, rfl⟩, by simp, fun t ht => absurd ht (hnone t), by simp,
    fun t ht => absurd ht (hnone t), fun t ht => absurd ht (hnone t)⟩, ?_, by simp [hfound]⟩
  rw [hidle]
  trivial

theorem inv_of_run {es : List (Event α)} {s : State α} (hrun : (machine α).Run es s) :
    ∃ l, Inv s l :=
  System.Run.invariant (P := fun s => ∃ l, Inv s l) (fun _ hs => ⟨[], inv_init hs⟩)
    (fun _ _ _ ⟨_, H⟩ hstep => H.step hstep) hrun

/-- The list of timers is in order: the links from `_head` lead through the
timers of `l` and back, and the fields of the started timers say what is in it. -/
structure WellFormed (s : State α) (l : List α) : Prop where
  list : s.timers.IsList l
  nodup : l.Nodup
  prevHead : ∀ t, s.timers.head = some t → s.timers.prev t = none
  nextPrev : ∀ t ∈ l, ∀ u ∈ l, s.timers.next t = some u ↔ s.timers.prev u = some t
  isStarted : ∀ t ∈ l, s.started t = true
  inList : ∀ t, s.started t = true → (s.timers.inList t = true ↔ t ∈ l)
  counter : ∀ t ∈ l, s.timers.counter t ≠ 0

omit [DecidableEq α] in
theorem Inv.wellFormed {s : State α} {l : List α} (H : Inv s l) : WellFormed s l :=
  ⟨H.listing.list, H.listing.list.nodup, fun _ ht => H.listing.list.prev_head ht,
    fun _ ht _ hu => H.listing.list.next_iff_prev ht hu, H.listing.isStarted, H.listing.inList,
    H.listing.counter⟩

/-- In every run, with ticks wherever interrupts are enabled, the list is in
order whenever no operation is in progress, every tick comes to an end, and no
tick ever decremented a counter that was zero. -/
theorem timerList_wellFormed {es : List (Event α)} {s : State α} (hrun : (machine α).Run es s) :
    (s.pc = .idle → ∃ l, WellFormed s l) ∧
      (∃ n r, s.timers.timerListUpdate n = some r) ∧
      ∀ p ∈ s.found, p.2 ≠ 0 := by
  obtain ⟨l, H⟩ := inv_of_run hrun
  refine ⟨fun _ => ⟨l, H.wellFormed⟩, ?_, H.found⟩
  obtain ⟨n, h, hupd, -⟩ := H.listing.update
  exact ⟨n, _, hupd⟩

section Sample

theorem run_exec {A : System (State α) (Event α)}
    (hA : ∀ s : State α, s.pc ≠ .idle → A.step s .statement s.exec) {es : List (Event α)}
    {s : State α} (hrun : A.Run es s) (n : Nat) (hn : ∀ i < n, (State.exec^[i] s).pc ≠ .idle) :
    A.Run (es ++ List.replicate n .statement) (State.exec^[n] s) :=
  hrun.iterate n fun i hi => hA _ (hn i hi)

theorem step_exec (s : State α) (hpc : s.pc ≠ .idle) :
    (machine α).step s .statement s.exec := ⟨hpc, rfl⟩

theorem step_call (op : Op α) {s : State α} (hidle : s.pc = .idle) (hop : s.Allowed op) :
    (machine α).step s (.call op) (s.call op) := ⟨hidle, hop, rfl⟩

def State.tick (n : Nat) (s : State α) : State α :=
  match s.timers.timerListUpdate n with
  | some (h, found) => { s with timers := h, found := s.found ++ found }
  | none => s

theorem step_tick {s : State α} {n : Nat} (hintr : s.intr = true)
    (hsome : (s.timers.timerListUpdate n).isSome) : (machine α).step s .tick (s.tick n) := by
  obtain ⟨⟨h, found⟩, hrun⟩ := Option.isSome_iff_exists.mp hsome
  exact ⟨hintr, n, h, found, hrun, by rw [State.tick, hrun]⟩

def zeroState : State Bool where
  timers :=
    { head := none
      prev := fun _ => none
      next := fun _ => none
      initialCounter := fun _ => 0
      counter := fun _ => 0
      inList := fun _ => false }
  intr := true
  pc := .idle
  started := fun _ => false
  found := []

theorem zeroState_init : (machine Bool).init zeroState := ⟨rfl, rfl, fun _ => rfl, rfl⟩

theorem zeroState_allowed : zeroState.Allowed (.timerStart true 1) := by
  intro l hl
  have hnil : zeroState.timers.IsList [] := ⟨none, rfl, rfl⟩
  obtain rfl := hl.unique hnil
  exact List.not_mem_nil

def startedState : State Bool := State.exec^[10] (zeroState.call (.timerStart true 1))

/-- `timer_end` has seen that timer in the list when a tick removes it. -/
def raceState : State Bool := (State.exec^[1] (startedState.call (.timerEnd true))).tick 1

/-- From there `timer_end` goes on to its end. -/
theorem timerList_wellFormed_race :
    (State.exec^[6] raceState).pc = .idle ∧ (∃ l, WellFormed (State.exec^[6] raceState) l) ∧
      ∀ p ∈ (State.exec^[6] raceState).found, p.2 ≠ 0 := by
  have hstart := System.Run.snoc (.init zeroState_init)
    (step_call (.timerStart true 1) rfl zeroState_allowed)
  have hstarted := run_exec step_exec hstart 10 (by decide)
  have hend := System.Run.snoc hstarted
    (step_call (.timerEnd true) (s := startedState) (by decide)
      (show startedState.started true = true by decide))
  have htick := System.Run.snoc (run_exec step_exec hend 1 (by decide))
    (step_tick (n := 1) (by decide) (by decide))
  have hrun := run_exec step_exec htick 6 (by decide)
  have hidle : (State.exec^[6] raceState).pc = .idle := by decide
  exact ⟨hidle, (timerList_wellFormed hrun).1 hidle, (timerList_wellFormed hrun).2.2⟩

end Sample

end Kboot86.Timer
