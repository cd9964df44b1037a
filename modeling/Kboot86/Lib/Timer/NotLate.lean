import Kboot86.Lib.Timer.NotEarly
import Mathlib.Algebra.BigOperators.Group.List.Basic

/-!
# Timers are not triggered late

A tick takes one from the counter of a listed timer, unless a timer in front of
it expires, which then leaves the list. So the counter and the number of the
timers in front, taken together, lose one in every tick, and only an operation
that puts another timer to the front adds to them.
-/

namespace Kboot86.Timer

variable {α : Type}

section Lists

variable {c : α → UInt32} {x y : List α} {t : α}

theorem visited_append_of_ne (hx : ∀ u ∈ x, c u ≠ 1) :
    visited c (x ++ y) = x ++ visited c y := by
  induction x with
  | nil => rfl
  | cons u x ih =>
      rw [List.cons_append, visited, if_neg (hx u (by simp)),
        ih fun v hv => hx v (List.mem_cons_of_mem _ hv), List.cons_append]

theorem survivors_append_of_ne (hx : ∀ u ∈ x, c u ≠ 1) :
    survivors c (x ++ y) = x ++ survivors c y := by
  induction x with
  | nil => rfl
  | cons u x ih =>
      rw [List.cons_append, survivors, if_neg (hx u (by simp)),
        ih fun v hv => hx v (List.mem_cons_of_mem _ hv), List.cons_append]

/-- The loop does not get past a timer that expires. -/
theorem visited_append_of_eq (hx : ∃ u ∈ x, c u = 1) : visited c (x ++ y) = visited c x := by
  induction x with
  | nil =>
      obtain ⟨u, hu, -⟩ := hx
      cases hu
  | cons u x ih =>
      rw [List.cons_append, visited, visited]
      split
      · rfl
      · rename_i hu
        obtain ⟨v, hv, hone⟩ := hx
        have hvx := (List.mem_cons.mp hv).resolve_left fun h => hu (h ▸ hone)
        rw [ih ⟨v, hvx, hone⟩]

theorem survivors_append_of_eq (hx : ∃ u ∈ x, c u = 1) :
    survivors c (x ++ y) = survivors c x ++ y ∧ (survivors c x).length + 1 = x.length := by
  induction x with
  | nil =>
      obtain ⟨u, hu, -⟩ := hx
      cases hu
  | cons u x ih =>
      rw [List.cons_append, survivors, survivors]
      split
      · exact ⟨rfl, rfl⟩
      · rename_i hu
        obtain ⟨v, hv, hone⟩ := hx
        have hvx := (List.mem_cons.mp hv).resolve_left fun h => hu (h ▸ hone)
        obtain ⟨happ, hlen⟩ := ih ⟨v, hvx, hone⟩
        rw [happ, List.length_cons, List.length_cons, hlen]
        exact ⟨rfl, rfl⟩

variable [DecidableEq α]

theorem idxOf_middle (hx : t ∉ x) : (x ++ t :: y).idxOf t = x.length := by
  rw [List.idxOf_append_of_notMem hx, List.idxOf_cons_self, Nat.add_zero]

theorem idxOf_erase_le {l : List α} {u : α} (ht : t ∈ l) (hut : u ≠ t) :
    (l.erase u).idxOf t ≤ l.idxOf t := by
  induction l with
  | nil => cases ht
  | cons v l ih =>
      by_cases hvt : v = t
      · subst hvt
        rw [List.erase_cons_tail (by simpa using Ne.symm hut), List.idxOf_cons_self]
        exact Nat.zero_le _
      · have htl := (List.mem_cons.mp ht).resolve_left (Ne.symm hvt)
        rw [List.idxOf_cons_ne _ hvt]
        by_cases hvu : v = u
        · subst hvu
          rw [List.erase_cons_head]
          exact Nat.le_succ _
        · rw [List.erase_cons_tail (by simpa using hvu), List.idxOf_cons_ne _ hvt]
          exact Nat.succ_le_succ (ih htl)

end Lists

/-! ### What puts timers to the front -/

def Pc.adds : Pc α → Nat
  | .startNext _ _ | .startPrev _ _ | .startInList _ _ | .startInitial _ _ | .startCounter _ _ => 1
  | .addTest _ _ | .addSave _ _ | .addDisable _ _ _ | .addLink _ _ _ | .resumeTest _ => 1
  | .restartTest _ _ | .restartLoad _ _ | .restartStore _ _ _ | .restartSave _ _ => 1
  | .restartDisable _ _ _ | .restartRetest _ _ _ => 1
  | _ => 0

def Op.adds : Op α → Nat
  | .timerStart _ _ | .timerResume _ | .timerRestart _ => 1
  | .timerEnd _ | .timerStop _ | .timerPause _ => 0

def Event.adds : Event α → Nat
  | .call op => op.adds
  | _ => 0

def additions (es : List (Event α)) : Nat := (es.map Event.adds).sum

@[simp] theorem Pc.adds_ret (k : List Bool) : (Pc.ret k : Pc α).adds = 0 := by
  cases k <;> rfl

theorem Pc.adds_le_one (pc : Pc α) : pc.adds ≤ 1 := by
  cases pc <;> simp [Pc.adds]

theorem Op.adds_enter (op : Op α) : op.enter.adds = op.adds := by
  cases op <;> rfl

variable [DecidableEq α]

/-- The ticks that the timer may have to wait. -/
def State.due (s : State α) (l : List α) (t : α) : Nat :=
  (s.timers.counter t).toNat + l.idxOf t + s.pc.adds

def Pc.listAfter (l : List α) : Pc α → List α
  | .addLink u _ _ => u :: l
  | .removeUnlink u _ => l.erase u
  | _ => l

section

variable {s s' : State α} {l : List α} {t : α}

theorem Inv.isList_exec (H : Inv s l) : s.exec.timers.IsList (s.pc.listAfter l) := by
  have hlist := H.listing.list
  have hholds := H.holds
  cases hpc : s.pc with
  | idle =>
      rw [State.exec_of_idle hpc]
      exact hlist
  | startNext u n | startPrev u n | removeNext u | removePrev u =>
      rw [hpc] at hholds
      have hul : u ∉ l := by
        first | exact hholds.1 | exact hholds
      simp only [State.exec, hpc]
      refine hlist.congr rfl fun v hv => ?_
      have hvu : v ≠ u := fun h => hul (h ▸ hv)
      first
        | exact ⟨rfl, Function.update_of_ne hvu _ _⟩
        | exact ⟨Function.update_of_ne hvu _ _, rfl⟩
  | addLink u flag k =>
      have hlisting := H.listing
      rw [hpc] at hholds hlisting
      rcases hholds with ⟨hu, hs, hc⟩
      simp only [State.exec, hpc]
      exact (hlisting.link hs hu hc (by simp [Pc.clears])).list
  | removeUnlink u flag =>
      have hlisting := H.listing
      rw [hpc] at hholds hlisting
      simp only [State.exec, hpc]
      exact (hlisting.unlinkTimer hholds).list
  | _ =>
      simp only [State.exec, hpc]
      exact hlist

theorem Inv.due_exec (H : Inv s l) (ht : t ∈ l) (hpc : s.pc.timer ≠ some t) :
    ∃ l', Inv s.exec l' ∧ t ∈ l' ∧ s.exec.due l' t ≤ s.due l t := by
  obtain ⟨l', H'⟩ := H.exec
  obtain rfl : l' = s.pc.listAfter l := H'.listing.list.unique H.isList_exec
  have hcounter := (leftAlone_exec hpc).counter
  refine ⟨_, H', ?_⟩
  rw [State.due, State.due, hcounter]
  cases hcase : s.pc with
  | addLink u flag k =>
      rw [hcase] at hpc
      have hut : u ≠ t := fun h => hpc (congrArg some h)
      refine ⟨List.mem_cons_of_mem _ ht, ?_⟩
      simp only [State.exec, hcase, Pc.listAfter, List.idxOf_cons_ne _ hut, Pc.adds]
      omega
  | removeUnlink u flag =>
      rw [hcase] at hpc
      have hut : u ≠ t := fun h => hpc (congrArg some h)
      refine ⟨(List.mem_erase_of_ne (Ne.symm hut)).mpr ht, ?_⟩
      have hle := idxOf_erase_le ht hut
      simp only [State.exec, hcase, Pc.listAfter, Pc.adds]
      omega
  | addTest u k | resumeTest u | restartTest u k | restartRetest u flag k =>
      refine ⟨ht, ?_⟩
      simp only [State.exec, hcase, Pc.listAfter]
      exact Nat.add_le_add_left (Pc.adds_le_one _) _
  | removeTest u =>
      refine ⟨ht, ?_⟩
      simp only [State.exec, hcase, Pc.listAfter]
      split <;> exact Nat.le_refl _
  | addRestore flag k | restartRestore flag k =>
      refine ⟨ht, ?_⟩
      simp only [State.exec, hcase, Pc.listAfter, Pc.adds_ret]
      exact Nat.le_refl _
  | _ =>
      refine ⟨ht, ?_⟩
      simp only [State.exec, hcase, Pc.listAfter]
      exact Nat.le_refl _

omit [DecidableEq α] in
theorem Inv.counter_pos (H : Inv s l) (ht : t ∈ l) : 0 < (s.timers.counter t).toNat :=
  Nat.pos_of_ne_zero fun hz => H.listing.counter t ht (UInt32.toNat_inj.mp hz)

theorem Inv.counter_tick (H : Inv s l) {h : Timers α} (htick : Ticked s.timers h [] l) :
    (s.timers.counter t).toNat ≤ (h.counter t).toNat + 1 := by
  rw [htick.counter]
  split
  · rename_i hv
    have hle : (1 : UInt32) ≤ s.timers.counter t := H.counter_pos (visited_subset _ _ hv)
    rw [UInt32.toNat_sub_of_le _ _ hle, UInt32.toNat_one]
    omega
  · exact Nat.le_succ _

/-- A tick: the timer is decremented, or one in front of it goes. -/
theorem Inv.due_tick (H : Inv s l) (ht : t ∈ l) {h : Timers α} {found : List (α × UInt32)}
    (htick : Ticked s.timers h [] l) :
    (t ∈ survivors s.timers.counter l ∧
      State.due { s with timers := h, found := found } (survivors s.timers.counter l) t + 1 =
        s.due l t) ∨
    t ∉ survivors s.timers.counter l ∧ h.counter t = 0 ∧ h.inList t = false := by
  obtain ⟨x, y, rfl, htx⟩ := List.eq_append_cons_of_mem ht
  have hcounter := htick.counter t
  have hidx : (x ++ t :: y).idxOf t = x.length := idxOf_middle htx
  by_cases hx : ∃ u ∈ x, s.timers.counter u = 1
  · -- the loop stops in front of the timer
    obtain ⟨hsur, hlen⟩ := survivors_append_of_eq (y := t :: y) hx
    have htsur : t ∉ survivors s.timers.counter x :=
      fun hmem => htx ((survivors_sublist _ _).subset hmem)
    have hnot : t ∉ visited s.timers.counter (x ++ t :: y) := by
      rw [visited_append_of_eq hx]
      exact fun hmem => htx (visited_subset _ _ hmem)
    rw [if_neg hnot] at hcounter
    refine .inl ⟨by rw [hsur]; simp, ?_⟩
    change (h.counter t).toNat + _ + s.pc.adds + 1 = (s.timers.counter t).toNat + _ + s.pc.adds
    rw [hcounter, hsur, idxOf_middle htsur, hidx]
    omega
  · have hne : ∀ u ∈ x, s.timers.counter u ≠ 1 := fun u hu hone => hx ⟨u, hu, hone⟩
    have hsur := survivors_append_of_ne (y := t :: y) hne
    have hvis := visited_append_of_ne (y := t :: y) hne
    have hmem : t ∈ visited s.timers.counter (x ++ t :: y) := by
      rw [hvis, visited]
      split <;> simp
    rw [if_pos hmem] at hcounter
    by_cases hone : s.timers.counter t = 1
    · have hty : t ∉ y := by
        have hnd := List.nodup_middle.mp H.listing.list.nodup
        exact fun hmem => (List.nodup_cons.mp hnd).1 (List.mem_append_right _ hmem)
      have hnot : t ∉ survivors s.timers.counter (x ++ t :: y) := by
        rw [hsur, survivors, if_pos hone]
        simp [htx, hty]
      obtain ⟨hin, hzero, -⟩ := htick.removed t ht hnot
      exact .inr ⟨hnot, hzero, hin⟩
    · have hsur' : survivors s.timers.counter (x ++ t :: y) =
          x ++ t :: survivors s.timers.counter y := by
        rw [hsur, survivors, if_neg hone]
      have hpos := H.counter_pos ht
      refine .inl ⟨by rw [hsur']; simp, ?_⟩
      change (h.counter t).toNat + _ + s.pc.adds + 1 = (s.timers.counter t).toNat + _ + s.pc.adds
      rw [hcounter, hsur', idxOf_middle htx, hidx, UInt32.toNat_sub_of_le _ _ hpos,
        UInt32.toNat_one]
      omega

structure Fired (s : State α) (t : α) : Prop where
  inv : ∃ l, Inv s l
  pc : s.pc.timer ≠ some t
  started : s.started t = true
  inList : s.timers.inList t = false
  counter : s.timers.counter t = 0

omit [DecidableEq α] in
theorem Fired.frame (H : Fired s t) (hinv : ∃ l, Inv s' l) (hframe : LeftAlone s s' t) :
    Fired s' t :=
  ⟨hinv, hframe.pc, hframe.started.trans H.started, hframe.inList.trans H.inList,
    hframe.counter.trans H.counter⟩

structure Waiting (s : State α) (t : α) (l : List α) : Prop where
  inv : Inv s l
  mem : t ∈ l
  pc : s.pc.timer ≠ some t

theorem Fired.step {e : Event α} (H : Fired s t) (hstep : (machine α).step s e s')
    (hno : ∀ op, e = .call op → op.timer ≠ t) : Fired s' t := by
  obtain ⟨l, hl⟩ := H.inv
  have hinv := hl.step hstep
  cases e with
  | call op =>
      obtain ⟨-, -, rfl⟩ := hstep
      exact H.frame hinv (leftAlone_call (hno op rfl))
  | statement =>
      obtain ⟨-, rfl⟩ := hstep
      exact H.frame hinv (leftAlone_exec H.pc)
  | tick =>
      obtain ⟨h, found, htick, rfl⟩ := hl.ticked hstep
      have hsame := hl.same_of_not_inList htick H.started H.inList
      exact H.frame hinv ⟨H.pc, hsame.counter, hsame.inList, rfl⟩
  | setIntr b =>
      obtain ⟨-, rfl⟩ := hstep
      exact H.frame hinv ⟨H.pc, rfl, rfl, rfl⟩

/-- One step: a tick takes one from what is due and at most one from the
counter, and only a call adds to what is due. -/
theorem Waiting.step {e : Event α} (H : Waiting s t l) (hstep : (machine α).step s e s')
    (hno : ∀ op, e = .call op → op.timer ≠ t) :
    (s.timers.counter t).toNat ≤ (s'.timers.counter t).toNat + ticks [e] ∧
      ((∃ l', Waiting s' t l' ∧ s'.due l' t + ticks [e] ≤ s.due l t + additions [e]) ∨
        Fired s' t) := by
  have hinv := H.inv.step hstep
  cases e with
  | call op =>
      obtain ⟨hidle, hop, rfl⟩ := hstep
      have hleft := leftAlone_call (s := s) (hno op rfl)
      refine ⟨Nat.le_refl _, .inl ⟨l, ⟨H.inv.call hidle hop, H.mem, hleft.pc⟩, ?_⟩⟩
      have hadds : s.pc.adds = 0 := by rw [hidle]; rfl
      change (s.timers.counter t).toNat + _ + op.enter.adds + 0 ≤
        (s.timers.counter t).toNat + _ + s.pc.adds + (op.adds + 0)
      rw [Op.adds_enter, hadds]
      omega
  | statement =>
      obtain ⟨-, rfl⟩ := hstep
      have hleft := leftAlone_exec H.pc
      obtain ⟨l', hl', hmem, hdue⟩ := H.inv.due_exec H.mem H.pc
      exact ⟨Nat.le_of_eq (congrArg UInt32.toNat hleft.counter.symm),
        .inl ⟨l', ⟨hl', hmem, hleft.pc⟩, hdue⟩⟩
  | tick =>
      obtain ⟨hintr, m, h, found, hupd, rfl⟩ := hstep
      obtain ⟨m', h', hupd', htick, hinv'⟩ := H.inv.tick hintr
      obtain ⟨rfl, rfl⟩ := Prod.mk.inj (Timers.timerListUpdateFrom_unique hupd hupd')
      refine ⟨H.inv.counter_tick htick, ?_⟩
      rcases H.inv.due_tick H.mem htick with ⟨hmem, hdue⟩ | ⟨-, hzero, hin⟩
      · exact .inl ⟨_, ⟨hinv', hmem, H.pc⟩, Nat.le_of_eq hdue⟩
      · exact .inr ⟨⟨_, hinv'⟩, H.pc, H.inv.listing.isStarted t H.mem, hin, hzero⟩
  | setIntr b =>
      obtain ⟨hidle, rfl⟩ := hstep
      obtain ⟨l', hl'⟩ := hinv
      obtain rfl : l' = l := hl'.listing.list.unique H.inv.listing.list
      exact ⟨Nat.le_refl _, .inl ⟨l', ⟨hl', H.mem, H.pc⟩, Nat.le_refl _⟩⟩

theorem Waiting.run {es : List (Event α)} (H : Waiting s t l)
    (hrun : ((machine α).startAt s).Run es s') (hno : NoCallOn t es) :
    (s.timers.counter t).toNat ≤ (s'.timers.counter t).toNat + ticks es ∧
      ((∃ l', Waiting s' t l' ∧ s'.due l' t + ticks es ≤ s.due l t + additions es) ∨
        Fired s' t) := by
  refine hrun.history (P := fun es s' => NoCallOn t es →
    (s.timers.counter t).toNat ≤ (s'.timers.counter t).toNat + ticks es ∧
      ((∃ l', Waiting s' t l' ∧ s'.due l' t + ticks es ≤ s.due l t + additions es) ∨
        Fired s' t)) ?_ ?_ hno
  · rintro s' rfl -
    exact ⟨Nat.le_refl _, .inl ⟨l, H, Nat.le_refl _⟩⟩
  · intro es s₁ e s₂ ih hstep hno
    have hnocall : ∀ op, e = .call op → op.timer ≠ t := by
      rintro op rfl
      exact hno op (by simp)
    have hticks : ticks (es ++ [e]) = ticks es + ticks [e] := List.countP_append
    have hadditions : additions (es ++ [e]) = additions es + additions [e] := by
      rw [additions, List.map_append, List.sum_append, additions, additions]
    rw [hticks, hadditions]
    obtain ⟨hcount, ⟨l₁, H₁, hdue₁⟩ | hfired⟩ :=
      ih fun op hop => hno op (List.mem_append_left _ hop)
    · obtain ⟨hcount', hcases⟩ := H₁.step hstep hnocall
      refine ⟨by omega, ?_⟩
      rcases hcases with ⟨l₂, H₂, hdue₂⟩ | hfired
      · exact .inl ⟨l₂, H₂, by omega⟩
      · exact .inr hfired
    · have hfired' := hfired.step hstep hnocall
      refine ⟨?_, .inr hfired'⟩
      rw [hfired.counter] at hcount
      rw [hfired'.counter]
      omega

end

/-- A timer that is listed with the counter `c` behind `p` others, and then
left alone, is triggered after no fewer than `c` ticks, and after no more than
`c + p` and one for each operation that may put another timer to the front. -/
theorem timer_triggered_within {es es' : List (Event α)} {s s' : State α} {l : List α} {t : α}
    (hrun : (machine α).Run es s) (hlist : s.timers.IsList l) (ht : t ∈ l)
    (hpc : s.pc.timer ≠ some t) (hafter : ((machine α).startAt s).Run es' s')
    (hno : NoCallOn t es') :
    (ticks es' < (s.timers.counter t).toNat → s'.timers.timerIsTriggered t = false) ∧
      ((s.timers.counter t).toNat + l.idxOf t + (s.pc.adds + additions es') ≤ ticks es' →
        s'.timers.timerIsTriggered t = true) := by
  obtain ⟨l', hinv⟩ := inv_of_run hrun
  obtain rfl : l' = l := hinv.listing.list.unique hlist
  obtain ⟨hcount, hcases⟩ := (Waiting.mk hinv ht hpc).run hafter hno
  constructor
  · intro hlt
    rw [Timers.timerIsTriggered, beq_eq_false_iff_ne]
    intro hzero
    rw [hzero, UInt32.toNat_zero] at hcount
    omega
  · intro hle
    rcases hcases with ⟨l'', H, hdue⟩ | hfired
    · have hpos := H.inv.counter_pos H.mem
      rw [State.due, State.due] at hdue
      omega
    · rw [Timers.timerIsTriggered, hfired.counter]
      rfl

section Sample

def crowdedState : State Bool := State.exec^[10] (startedState.call (.timerStart false 1))

theorem startedState_allowed : startedState.Allowed (.timerStart false 1) := by
  intro l hl
  have hone : startedState.timers.IsList [true] := ⟨some true, rfl, rfl, rfl, rfl⟩
  obtain rfl := hl.unique hone
  decide

/-- Of two timers that are to expire in the same tick, the one behind expires in
the next. -/
theorem timer_triggered_within_sample :
    crowdedState.timers.IsList [false, true] ∧
      (crowdedState.tick 2).timers.timerIsTriggered true = false ∧
      ((crowdedState.tick 2).tick 1).timers.timerIsTriggered true = true := by
  have hlist : crowdedState.timers.IsList [false, true] :=
    ⟨some true, rfl, rfl, rfl, rfl, rfl, rfl⟩
  have hfirst := run_exec step_exec (.snoc (.init zeroState_init)
    (step_call (.timerStart true 1) rfl zeroState_allowed)) 10 (by decide)
  have hsecond := System.Run.snoc hfirst
    (step_call (.timerStart false 1) (s := startedState) (by decide) startedState_allowed)
  have hrun := run_exec step_exec hsecond 10 (by decide)
  have htick : ((machine Bool).startAt crowdedState).Run ([] ++ [.tick]) (crowdedState.tick 2) :=
    .snoc (.init rfl) (step_tick (by decide) (by decide))
  have hticks : ((machine Bool).startAt crowdedState).Run ([] ++ [.tick] ++ [.tick])
      ((crowdedState.tick 2).tick 1) := .snoc htick (step_tick (by decide) (by decide))
  refine ⟨hlist, by decide, ?_⟩
  exact (timer_triggered_within hrun hlist (by decide) (by decide) hticks
    (by simp [NoCallOn])).2 (by decide)

end Sample

end Kboot86.Timer
