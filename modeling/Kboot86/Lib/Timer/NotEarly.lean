import Kboot86.Lib.Timer.Triggered

/-!
# Timers are not triggered early

A tick takes at most one from the counter of a timer, since the list has no
duplicates. So the ticks since a timer was started or restarted, together with
its counter, never fall behind its timeout: a timer that is triggered has had
its time. A timer that has been taken out of the list keeps its counter.
-/

namespace Kboot86.Timer

variable {α : Type}

def Pc.setting : Pc α → Option α
  | .startNext t _ | .startPrev t _ | .startInList t _ | .startInitial t _ | .startCounter t _ => t
  | .restartTest t _ | .restartLoad t _ | .restartStore t _ _ | .restartSave t _ => t
  | .restartDisable t _ _ | .restartRetest t _ _ | .restartSet t _ _ => t
  | _ => none

def Pc.timeout : Pc α → Option (α × UInt32)
  | .startNext t n | .startPrev t n | .startInList t n | .startInitial t n | .startCounter t n =>
      (t, n)
  | _ => none

def Pc.fresh : Pc α → Option α
  | .startNext t _ | .startPrev t _ | .startInList t _ | .startInitial t _ => t
  | _ => none

/-- What is noted about a timer: the timeout with which it was started last, and
the ticks since it was started or restarted. -/
structure Watch where
  timeout : Option UInt32
  ticks : Nat

variable [DecidableEq α]

/-- A tick during a start or a restart of the timer does not count. -/
def Watch.step (t : α) (pc : Pc α) (w : Watch) : Event α → Watch
  | .call (.timerStart u n) => if u = t then ⟨some n, 0⟩ else w
  | .call (.timerRestart u) => if u = t then { w with ticks := 0 } else w
  | .tick => if pc.setting = some t then w else { w with ticks := w.ticks + 1 }
  | _ => w

/-- The machine with the notes about the timer `t`, which it does not look at. -/
def watched (t : α) : System (State α × Watch) (Event α) where
  init p := (machine α).init p.1 ∧ p.2 = ⟨none, 0⟩
  step p e p' := (machine α).step p.1 e p'.1 ∧ p'.2 = p.2.step t p.1.pc e

theorem exists_watched (t : α) {es : List (Event α)} {s : State α} (hrun : (machine α).Run es s) :
    ∃ w, (watched t).Run es (s, w) := by
  induction hrun with
  | init hs => exact ⟨⟨none, 0⟩, .init ⟨hs, rfl⟩⟩
  | @snoc es s s' e _ hstep ih =>
      obtain ⟨w, hw⟩ := ih
      exact ⟨w.step t s.pc e, hw.snoc ⟨hstep, rfl⟩⟩

omit [DecidableEq α] in
@[simp] theorem Pc.setting_ret (k : List Bool) : (Pc.ret k : Pc α).setting = none := by
  cases k <;> rfl

omit [DecidableEq α] in
@[simp] theorem Pc.timeout_ret (k : List Bool) : (Pc.ret k : Pc α).timeout = none := by
  cases k <;> rfl

omit [DecidableEq α] in
@[simp] theorem Pc.fresh_ret (k : List Bool) : (Pc.ret k : Pc α).fresh = none := by
  cases k <;> rfl

/-- The timer `t` was started with the timeout `n` and has seen `k` ticks. -/
structure NotEarly (s : State α) (t : α) (n : UInt32) (k : Nat) : Prop where
  timeout : ∀ m, s.pc.timeout = some (t, m) → m = n
  initial : s.pc.fresh ≠ some t → s.timers.initialCounter t = n
  enough : s.pc.setting ≠ some t → n.toNat ≤ (s.timers.counter t).toNat + k

theorem Inv.ticked {s s' : State α} {l : List α} (hinv : Inv s l)
    (hstep : (machine α).step s .tick s') :
    ∃ h found, Ticked s.timers h [] l ∧ s' = { s with timers := h, found := found } := by
  obtain ⟨hintr, m, h, found, hupd, rfl⟩ := hstep
  obtain ⟨m', h', hupd', htick, -⟩ := hinv.tick hintr
  obtain ⟨rfl, -⟩ := Prod.mk.inj (Timers.timerListUpdateFrom_unique hupd hupd')
  exact ⟨h, _, htick, rfl⟩

namespace NotEarly

variable {s s' : State α} {t : α} {n : UInt32} {k : Nat}

omit [DecidableEq α] in
/-- The statement is of the same kind and writes neither counter. -/
theorem congr (H : NotEarly s t n k) (htimeout : s'.pc.timeout = s.pc.timeout)
    (hfresh : s'.pc.fresh = s.pc.fresh) (hsetting : s'.pc.setting = s.pc.setting)
    (hinitial : s'.timers.initialCounter t = s.timers.initialCounter t)
    (hcounter : s'.timers.counter t = s.timers.counter t) : NotEarly s' t n k := by
  refine ⟨fun m hm => H.timeout m (htimeout ▸ hm), fun hf => ?_, fun hs => ?_⟩
  · rw [hinitial]
    exact H.initial (hfresh ▸ hf)
  · rw [hcounter]
    exact H.enough (hsetting ▸ hs)

omit [DecidableEq α] in
/-- The counters have been set and no start is in progress. -/
theorem of_set (htimeout : s'.pc.timeout = none)
    (hinitial : s'.timers.initialCounter t = n)
    (hcounter : n.toNat ≤ (s'.timers.counter t).toNat + k) : NotEarly s' t n k := by
  refine ⟨fun m hm => ?_, fun _ => hinitial, fun _ => hcounter⟩
  rw [htimeout] at hm
  cases hm

/-- A tick takes at most one from the counter, and counts unless the timer is
being set. -/
theorem tick {l : List α} {h : Timers α} {found : List (α × UInt32)} (H : NotEarly s t n k)
    (hinv : Inv s l) (htick : Ticked s.timers h [] l) :
    NotEarly { s with timers := h, found := found } t n
      (if s.pc.setting = some t then k else k + 1) := by
  refine ⟨H.timeout, fun hf => ?_, fun hs => ?_⟩
  · rw [htick.initialCounter]
    exact H.initial hf
  · have henough := H.enough hs
    rw [if_neg hs, htick.counter]
    split
    · rename_i hv
      have hne := hinv.listing.counter t (visited_subset _ _ hv)
      have hpos : (s.timers.counter t).toNat ≠ 0 := fun hz => hne (UInt32.toNat_inj.mp hz)
      have hone : (1 : UInt32).toNat = 1 := rfl
      have hlt := (s.timers.counter t).toNat_lt
      rw [UInt32.toNat_sub, hone]
      omega
    · omega

theorem store (H : NotEarly s t n k) {u : α} {m : UInt32} (hsetting : s.pc.setting = some u)
    (hfresh : s.pc.fresh = none) (hm : u = t → m = n)
    (htimers : s'.timers = s.timers.setCounter u m) (hpc : s'.pc.timeout = none) :
    NotEarly s' t n k := by
  have hinitial : s.timers.initialCounter t = n := H.initial (by simp [hfresh])
  refine of_set hpc (by rw [htimers]; exact hinitial) ?_
  rw [htimers, Timers.setCounter_counter]
  by_cases hut : u = t
  · rw [hut, Function.update_self, hm hut]
    exact Nat.le_add_right _ _
  · rw [Function.update_of_ne (Ne.symm hut)]
    exact H.enough fun h => hut (Option.some.inj (hsetting.symm.trans h))

theorem exec {l : List α} (H : NotEarly s t n k) (hinv : Inv s l) : NotEarly s.exec t n k := by
  have hholds := hinv.holds
  cases hpc : s.pc with
  | idle =>
      rw [State.exec_of_idle hpc]
      exact H
  | startNext u m | startPrev u m | startInList u m | restartSave u flags
  | restartDisable u flag flags | restartLoad u flags | addSave u flags | addDisable u flag flags
  | addLink u flag flags | removeSave u | removeDisable u flag | removeUnlink u flag
  | removeRestore u flag | removeNext u | removePrev u =>
      refine H.congr ?_ ?_ ?_ ?_ ?_ <;> simp only [State.exec, hpc] <;> rfl
  | resumeTest u | removeTest u | restartTest u flags | restartRetest u flag flags =>
      have htimers : s.exec.timers = s.timers := by simp only [State.exec, hpc]
      refine H.congr ?_ ?_ ?_ (by rw [htimers]) (by rw [htimers])
      all_goals
        simp only [State.exec, hpc]
        split <;> rfl
  | addTest u flags =>
      have htimers : s.exec.timers = s.timers := by simp only [State.exec, hpc]
      refine H.congr ?_ ?_ ?_ (by rw [htimers]) (by rw [htimers])
      all_goals simp only [State.exec, hpc]
      · split
        exacts [Pc.timeout_ret _, rfl]
      · split
        exacts [Pc.fresh_ret _, rfl]
      · split
        exacts [Pc.setting_ret _, rfl]
  | addRestore flag flags | restartRestore flag flags =>
      have htimers : s.exec.timers = s.timers := by simp only [State.exec, hpc]
      refine H.congr ?_ ?_ ?_ (by rw [htimers]) (by rw [htimers])
      all_goals simp only [State.exec, hpc]
      · exact Pc.timeout_ret _
      · exact Pc.fresh_ret _
      · exact Pc.setting_ret _
  | startInitial u m =>
      have htimeout := H.timeout
      have hinitial := H.initial
      have henough := H.enough
      rw [hpc] at htimeout hinitial henough
      simp only [State.exec, hpc]
      refine ⟨htimeout, fun _ => ?_, henough⟩
      by_cases hut : u = t
      · subst hut
        exact (Function.update_self _ _ _).trans (htimeout m rfl)
      · exact (Function.update_of_ne (Ne.symm hut) _ _).trans
          (hinitial fun h => hut (Option.some.inj h))
  | startCounter u m =>
      have htimeout := H.timeout
      rw [hpc] at htimeout
      refine H.store (by rw [hpc]; rfl) (by rw [hpc]; rfl) (fun hut => htimeout m (hut ▸ rfl)) ?_ ?_
      all_goals simp only [State.exec, hpc]
      rfl
  | restartStore u m flags =>
      have hinitial := H.initial
      rw [hpc] at hinitial hholds
      have hm : u = t → m = n := fun hut =>
        hholds.2.2.trans
          ((congrArg s.timers.initialCounter hut).trans (hinitial (by simp [Pc.fresh])))
      refine H.store (by rw [hpc]; rfl) (by rw [hpc]; rfl) hm ?_ ?_
      all_goals simp only [State.exec, hpc]
      rfl
  | restartSet u flag flags =>
      have hinitial := H.initial
      rw [hpc] at hinitial
      have hm : u = t → s.timers.initialCounter u = n := fun hut =>
        (congrArg s.timers.initialCounter hut).trans (hinitial (by simp [Pc.fresh]))
      refine H.store (by rw [hpc]; rfl) (by rw [hpc]; rfl) hm ?_ ?_
      all_goals simp only [State.exec, hpc]
      rfl

end NotEarly

section

variable {s : State α} {t : α} {w : Watch} {es : List (Event α)}

theorem notEarly_call (hidle : s.pc = .idle) (op : Op α) {n : UInt32}
    (H : ∀ n, w.timeout = some n → NotEarly s t n w.ticks)
    (hn : (w.step t s.pc (.call op)).timeout = some n) :
    NotEarly (s.call op) t n (w.step t s.pc (.call op)).ticks := by
  cases op with
  | timerStart u m =>
      rw [Watch.step] at hn ⊢
      by_cases hut : u = t
      · subst hut
        rw [if_pos rfl] at hn ⊢
        obtain rfl := Option.some.inj hn
        refine ⟨fun m' hm => ?_, fun hf => absurd rfl hf, fun hs => absurd rfl hs⟩
        exact (Prod.mk.inj (Option.some.inj hm)).2.symm
      · rw [if_neg hut] at hn ⊢
        have H' := H n hn
        refine ⟨fun m' hm => absurd (Prod.mk.inj (Option.some.inj hm)).1 hut, fun _ => ?_,
          fun _ => ?_⟩
        · exact H'.initial (by rw [hidle]; simp [Pc.fresh])
        · exact H'.enough (by rw [hidle]; simp [Pc.setting])
  | timerRestart u =>
      rw [Watch.step] at hn ⊢
      by_cases hut : u = t
      · subst hut
        rw [if_pos rfl] at hn ⊢
        refine ⟨fun m' hm => (Option.some_ne_none _ hm.symm).elim, fun _ => ?_,
          fun hs => absurd rfl hs⟩
        exact (H n hn).initial (by rw [hidle]; simp [Pc.fresh])
      · rw [if_neg hut] at hn ⊢
        have H' := H n hn
        exact .of_set rfl (H'.initial (by rw [hidle]; simp [Pc.fresh]))
          (H'.enough (by rw [hidle]; simp [Pc.setting]))
  | timerEnd u | timerStop u | timerPause u | timerResume u =>
      have H' := H n hn
      exact .of_set rfl (H'.initial (by rw [hidle]; simp [Pc.fresh]))
        (H'.enough (by rw [hidle]; simp [Pc.setting]))

theorem notEarly_run (hrun : (watched t).Run es (s, w)) :
    (∃ l, Inv s l) ∧ ∀ n, w.timeout = some n → NotEarly s t n w.ticks := by
  refine hrun.invariant (P := fun p => (∃ l, Inv p.1 l) ∧
    ∀ n, p.2.timeout = some n → NotEarly p.1 t n p.2.ticks) ?_ ?_
  · rintro ⟨s, w⟩ ⟨hinit, hw⟩
    obtain rfl : w = ⟨none, 0⟩ := hw
    exact ⟨⟨[], inv_init hinit⟩, fun n hn => by cases hn⟩
  · rintro ⟨s, w⟩ e ⟨s', w'⟩ ⟨⟨l, hinv⟩, H⟩ ⟨hstep, hw⟩
    obtain rfl : w' = w.step t s.pc e := hw
    refine ⟨hinv.step hstep, fun n hn => ?_⟩
    cases e with
    | call op =>
        obtain ⟨hidle, -, rfl⟩ := hstep
        exact notEarly_call hidle op H hn
    | statement =>
        obtain ⟨-, rfl⟩ := hstep
        exact (H n hn).exec hinv
    | tick =>
        obtain ⟨h, found, htick, rfl⟩ := hinv.ticked hstep
        dsimp only [Watch.step] at hn ⊢
        by_cases hset : s.pc.setting = some t
        · rw [if_pos hset] at hn ⊢
          simpa only [if_pos hset] using (H n hn).tick hinv htick
        · rw [if_neg hset] at hn ⊢
          simpa only [if_neg hset] using (H n hn).tick hinv htick
    | setIntr b =>
        obtain ⟨-, rfl⟩ := hstep
        exact (H n hn).congr rfl rfl rfl rfl rfl

theorem timeout_le_ticks (hrun : (watched t).Run es (s, w)) {n : UInt32} (hn : w.timeout = some n)
    (hset : s.pc.setting ≠ some t) (htrig : s.timers.timerIsTriggered t = true) :
    n.toNat ≤ w.ticks := by
  have henough := ((notEarly_run hrun).2 n hn).enough hset
  rw [Timers.timerIsTriggered, beq_iff_eq] at htrig
  rw [htrig, UInt32.toNat_zero, Nat.zero_add] at henough
  exact henough

end

/-! ### Timers that have been taken out -/

def Op.Stops : Op α → Prop
  | .timerEnd _ | .timerStop _ | .timerPause _ => True
  | _ => False

def NoRearm (t : α) (es : List (Event α)) : Prop :=
  ∀ op, .call op ∈ es → op.timer = t → op.Stops

/-- The operation is on its way to take the timer `t` out, or has done so. -/
def Pc.Removing (h : Timers α) (t : α) : Pc α → Prop
  | .removeTest u | .removeSave u | .removeDisable u _ | .removeUnlink u _ => u = t
  | .removeRestore u _ | .removeNext u | .removePrev u => u = t ∧ h.inList t = false
  | .idle => h.inList t = false
  | _ => False

/-- The timer is out of the list with a counter, and nothing in progress changes
that. -/
structure Resting (s : State α) (t : α) : Prop where
  started : s.started t = true
  inList : s.timers.inList t = false
  counter : s.timers.counter t ≠ 0
  pc : s.pc.timer = some t → s.pc = .removeTest t

section

variable {s s' : State α} {t : α} {es : List (Event α)}

theorem removing_exec (H : s.pc.Removing s.timers t) : s.exec.pc.Removing s.exec.timers t := by
  cases hpc : s.pc with
  | idle =>
      rw [State.exec_of_idle hpc]
      exact H
  | removeTest u =>
      rw [hpc] at H
      obtain rfl : u = t := H
      simp only [State.exec, hpc]
      cases hin : s.timers.inList u with
      | true => exact rfl
      | false => exact hin
  | removeUnlink u flag =>
      rw [hpc] at H
      obtain rfl : u = t := H
      simp only [State.exec, hpc]
      exact ⟨rfl, Function.update_self _ _ _⟩
  | removeSave u | removeDisable u flag | removeRestore u flag | removeNext u =>
      rw [hpc] at H
      simp only [State.exec, hpc]
      exact H
  | removePrev u =>
      rw [hpc] at H
      simp only [State.exec, hpc]
      exact H.2
  | startNext u m | startPrev u m | startInList u m | startInitial u m | startCounter u m
  | addTest u k | addSave u k | addDisable u flag k | addLink u flag k | addRestore flag k
  | resumeTest u | restartTest u k | restartLoad u k | restartStore u m k | restartSave u k
  | restartDisable u flag k | restartRetest u flag k | restartSet u flag k
  | restartRestore flag k =>
      rw [hpc] at H
      exact H.elim

/-- A tick does not touch a started timer that is not in the list. -/
theorem Inv.same_of_not_inList {l : List α} (hinv : Inv s l) {h : Timers α}
    (htick : Ticked s.timers h [] l) (hstarted : s.started t = true)
    (hin : s.timers.inList t = false) : SameTimer s.timers h t := by
  refine htick.same fun hmem => ?_
  rw [(hinv.listing.inList t hstarted).mpr hmem] at hin
  cases hin

theorem removing_tick {l : List α} (hinv : Inv s l) {h : Timers α}
    (htick : Ticked s.timers h [] l) (hstarted : s.started t = true)
    (H : s.pc.Removing s.timers t) : s.pc.Removing h t := by
  revert H
  cases s.pc with
  | idle => exact fun H => (hinv.same_of_not_inList htick hstarted H).inList.trans H
  | removeRestore u flag | removeNext u | removePrev u =>
      exact fun H => ⟨H.1, (hinv.same_of_not_inList htick hstarted H.2).inList.trans H.2⟩
  | _ => exact id

theorem started_exec (hs : s.started t = true) : s.exec.started t = true := by
  cases hpc : s.pc with
  | startCounter u n =>
      simp only [State.exec, hpc]
      by_cases hut : t = u
      · rw [hut, Function.update_self]
      · rw [Function.update_of_ne hut, hs]
  | _ =>
      simp only [State.exec, hpc]
      exact hs

theorem run_removing (hinv : ∃ l, Inv s l) (hstarted : s.started t = true)
    (hpc : s.pc.Removing s.timers t) (hrun : ((machine α).startAt s).Run es s')
    (hno : ∀ op, .call op ∉ es) :
    (∃ l, Inv s' l) ∧ s'.started t = true ∧ s'.pc.Removing s'.timers t := by
  refine hrun.history (P := fun es s' => (∀ op, .call op ∉ es) →
    (∃ l, Inv s' l) ∧ s'.started t = true ∧ s'.pc.Removing s'.timers t) ?_ ?_ hno
  · rintro s' rfl -
    exact ⟨hinv, hstarted, hpc⟩
  · intro es s e s' ih hstep hno
    obtain ⟨⟨l, hl⟩, hs, H⟩ := ih fun op hop => hno op (List.mem_append_left _ hop)
    refine ⟨hl.step hstep, ?_⟩
    cases e with
    | call op => exact absurd (by simp) (hno op)
    | statement =>
        obtain ⟨-, rfl⟩ := hstep
        exact ⟨started_exec hs, removing_exec H⟩
    | tick =>
        obtain ⟨h, found, htick, rfl⟩ := hl.ticked hstep
        exact ⟨hs, removing_tick hl htick hs H⟩
    | setIntr b =>
        obtain ⟨-, rfl⟩ := hstep
        exact ⟨hs, H⟩

theorem Resting.exec (H : Resting s t) : Resting s.exec t := by
  by_cases htimer : s.pc.timer = some t
  · have hpc := H.pc htimer
    have hexec : s.exec = { s with pc := .idle } := by
      simp only [State.exec, hpc, H.inList, Bool.false_eq_true, if_false]
    rw [hexec]
    exact ⟨H.started, H.inList, H.counter, fun h => by cases h⟩
  · have hleft := leftAlone_exec htimer
    exact ⟨hleft.started.trans H.started, hleft.inList.trans H.inList,
      hleft.counter ▸ H.counter, fun h => absurd h hleft.pc⟩

theorem Resting.call (H : Resting s t) {op : Op α} (hop : op.timer = t → op.Stops) :
    Resting (s.call op) t := by
  by_cases ht : op.timer = t
  · have hstops := hop ht
    cases op with
    | timerEnd u | timerStop u | timerPause u =>
        obtain rfl : u = t := ht
        exact ⟨H.started, H.inList, H.counter, fun _ => rfl⟩
    | timerStart u n | timerResume u | timerRestart u => exact hstops.elim
  · have hleft : LeftAlone s (s.call op) t := leftAlone_call ht
    exact ⟨hleft.started.trans H.started, hleft.inList.trans H.inList,
      hleft.counter ▸ H.counter, fun h => absurd h hleft.pc⟩

/-- No tick and no operation on another timer triggers it. -/
theorem Resting.run (hinv : ∃ l, Inv s l) (H : Resting s t)
    (hrun : ((machine α).startAt s).Run es s') (hno : NoRearm t es) : Resting s' t := by
  have hresting := hrun.history (P := fun es s' => NoRearm t es →
    (∃ l, Inv s' l) ∧ Resting s' t) ?_ ?_ hno
  · exact hresting.2
  · rintro s' rfl -
    exact ⟨hinv, H⟩
  · intro es s e s' ih hstep hno
    obtain ⟨⟨l, hl⟩, H⟩ := ih fun op hop => hno op (List.mem_append_left _ hop)
    refine ⟨hl.step hstep, ?_⟩
    cases e with
    | call op =>
        obtain ⟨-, -, rfl⟩ := hstep
        exact H.call (hno op (by simp))
    | statement =>
        obtain ⟨-, rfl⟩ := hstep
        exact H.exec
    | tick =>
        obtain ⟨h, found, htick, rfl⟩ := hl.ticked hstep
        have hsame := hl.same_of_not_inList htick H.started H.inList
        exact ⟨H.started, hsame.inList.trans H.inList, hsame.counter ▸ H.counter, H.pc⟩
    | setIntr b =>
        obtain ⟨-, rfl⟩ := hstep
        exact ⟨H.started, H.inList, H.counter, H.pc⟩

/-- A timer that was not triggered when the operation returned stays so. -/
theorem not_triggered_after {s₀ s₁ s₂ : State α} {es₁ es₂ : List (Event α)} {op : Op α}
    (hrun : (machine α).Run es s) (hstops : op.Stops) (hop : op.timer = t)
    (hcall : (machine α).step s (.call op) s₀) (hreturn : ((machine α).startAt s₀).Run es₁ s₁)
    (hno : ∀ op', .call op' ∉ es₁) (hidle : s₁.pc = .idle)
    (htrig : s₁.timers.timerIsTriggered t = false)
    (hrest : ((machine α).startAt s₁).Run es₂ s₂) (hrearm : NoRearm t es₂) :
    s₂.timers.timerIsTriggered t = false := by
  obtain ⟨l, hl⟩ := inv_of_run hrun
  have hinv₀ := hl.step hcall
  obtain ⟨-, hallowed, rfl⟩ := hcall
  have hentered : (s.call op).started t = true ∧
      (s.call op).pc.Removing (s.call op).timers t := by
    cases op with
    | timerEnd u | timerStop u | timerPause u =>
        obtain rfl : u = t := hop
        exact ⟨hallowed, rfl⟩
    | timerStart u n | timerResume u | timerRestart u => exact hstops.elim
  obtain ⟨hinv₁, hstarted, hremoving⟩ := run_removing hinv₀ hentered.1 hentered.2 hreturn hno
  rw [hidle] at hremoving
  have hresting : Resting s₁ t := by
    refine ⟨hstarted, hremoving, fun hz => ?_, fun h => by rw [hidle] at h; cases h⟩
    rw [Timers.timerIsTriggered, hz] at htrig
    cases htrig
  have hend := (hresting.run hinv₁ hrest hrearm).counter
  exact beq_eq_false_iff_ne.mpr hend

end

/-- In every run a timer is triggered only after as many ticks as its timeout
says since it was started or restarted; and once it has been taken out of the
list, with time left, it is not triggered before it is started, restarted or
resumed again. -/
theorem timer_notEarly (t : α) :
    (∀ es s, (machine α).Run es s → ∃ w, (watched t).Run es (s, w)) ∧
    (∀ es s w n, (watched t).Run es (s, w) → w.timeout = some n → s.pc.setting ≠ some t →
      s.timers.timerIsTriggered t = true → n.toNat ≤ w.ticks) ∧
    ∀ (es es₁ es₂ : List (Event α)) (s s₀ s₁ s₂ : State α) (op : Op α), (machine α).Run es s →
      op.Stops → op.timer = t → (machine α).step s (.call op) s₀ →
      ((machine α).startAt s₀).Run es₁ s₁ → (∀ op', .call op' ∉ es₁) → s₁.pc = .idle →
      s₁.timers.timerIsTriggered t = false → ((machine α).startAt s₁).Run es₂ s₂ →
      NoRearm t es₂ → s₂.timers.timerIsTriggered t = false := by
  refine ⟨fun es s hrun => exists_watched t hrun, ?_, ?_⟩
  · intro es s w n hrun hn hset htrig
    exact timeout_le_ticks hrun hn hset htrig
  · intro es es₁ es₂ s s₀ s₁ s₂ op hrun hstops hop hcall hreturn hno hidle htrig hrest hrearm
    exact not_triggered_after hrun hstops hop hcall hreturn hno hidle htrig hrest hrearm

section Sample

theorem watched_exec {t : α} {w : Watch} {es : List (Event α)} {s : State α}
    (hrun : (watched t).Run es (s, w)) (n : Nat) (hn : ∀ i < n, (State.exec^[i] s).pc ≠ .idle) :
    (watched t).Run (es ++ List.replicate n .statement) (State.exec^[n] s, w) := by
  have hpair : ∀ i, (Prod.map State.exec id)^[i] (s, w) = (State.exec^[i] s, w) := by
    intro i
    rw [Prod.map_iterate, Function.iterate_id]
    rfl
  have hmore := hrun.iterate (e := .statement) (f := Prod.map State.exec id) n fun i hi => by
    rw [hpair]
    exact ⟨step_exec _ (hn i hi), rfl⟩
  rwa [hpair] at hmore

def endedState : State Bool := State.exec^[7] (startedState.call (.timerEnd true))

/-- A timer with timeout 1 is triggered after one tick, or not if it was ended. -/
theorem timer_notEarly_sample :
    (∃ es w, (watched true).Run es (startedState.tick 1, w) ∧ w.timeout = some 1 ∧
      (startedState.tick 1).timers.timerIsTriggered true = true ∧ 1 ≤ w.ticks) ∧
      (endedState.tick 0).timers.timerIsTriggered true = false := by
  obtain ⟨-, hearly, hended⟩ := timer_notEarly true
  have hinit : (watched true).Run [] (zeroState, ⟨none, 0⟩) := .init ⟨zeroState_init, rfl⟩
  have hstart : (watched true).Run ([] ++ [.call (.timerStart true 1)])
      (zeroState.call (.timerStart true 1), ⟨some 1, 0⟩) :=
    hinit.snoc ⟨step_call (.timerStart true 1) rfl zeroState_allowed, rfl⟩
  have hstarted := watched_exec hstart 10 (by decide)
  have hstep : (watched true).step (startedState, ⟨some 1, 0⟩) .tick
      (startedState.tick 1, ⟨some 1, 1⟩) :=
    ⟨step_tick (s := startedState) (n := 1) (by decide) (by decide), rfl⟩
  have htick := hstarted.snoc hstep
  have htrig : (startedState.tick 1).timers.timerIsTriggered true = true := by decide
  refine ⟨⟨_, _, htick, rfl, htrig, hearly _ _ _ 1 htick rfl (by decide) htrig⟩, ?_⟩
  have hbefore := run_exec step_exec (.snoc (.init zeroState_init)
    (step_call (.timerStart true 1) rfl zeroState_allowed)) 10 (by decide)
  have hreturn := run_exec (A := (machine Bool).startAt (startedState.call (.timerEnd true)))
    step_exec (.init rfl) 7 (by decide)
  have hrest : ((machine Bool).startAt endedState).Run ([] ++ [.tick]) (endedState.tick 0) :=
    .snoc (.init rfl) (step_tick (by decide) (by decide))
  exact hended _ _ _ startedState _ endedState _ (.timerEnd true) hbefore trivial rfl
    (step_call (.timerEnd true) (by decide) (show startedState.started true = true by decide))
    hreturn (by simp) (by decide) (by decide) hrest (by simp [NoRearm])

end Sample

end Kboot86.Timer
