import Kboot86.Lib.Timer.Interleave

/-!
# When a tick counts

A tick is right when it takes one from the counter of every listed timer and
removes those that reach zero. The loop misses the timers behind the first one
that expires, so it is right exactly when no timer but the last one expires. In
runs whose ticks are all of this kind, a timer is triggered after as many ticks
as its timeout says.
-/

namespace Kboot86.Timer

variable {α : Type}

structure TickCorrect (h h' : Timers α) (l : List α) : Prop where
  counter : ∀ t ∈ l, h'.counter t = h.counter t - 1
  list : h'.IsList (l.filter fun t => h'.counter t ≠ 0)
  inList : ∀ t ∈ l, h'.inList t = true ↔ h'.counter t ≠ 0
  other : ∀ t ∉ l, SameTimer h h' t

/-- No timer but the last one expires in the next tick. -/
def OnlyLastExpires (h : Timers α) (l : List α) : Prop := ∀ t ∈ l.dropLast, h.counter t ≠ 1

section Visited

variable {c : α → UInt32} {l : List α}

theorem onlyLast_of_visited (hl : l.Nodup) (hv : ∀ t ∈ l, t ∈ visited c l) :
    ∀ t ∈ l.dropLast, c t ≠ 1 := by
  induction l with
  | nil => simp
  | cons u l ih =>
      obtain ⟨hul, hnodup⟩ := List.nodup_cons.mp hl
      cases l with
      | nil => simp
      | cons v l =>
          have hone : c u ≠ 1 := by
            intro hone
            have hmem := hv v (by simp)
            rw [visited, if_pos hone] at hmem
            exact hul (List.mem_singleton.mp hmem ▸ List.mem_cons_self)
          rw [visited, if_neg hone] at hv
          intro t ht
          rw [List.dropLast_cons_of_ne_nil (by simp)] at ht
          rcases List.mem_cons.mp ht with rfl | ht
          · exact hone
          · refine ih hnodup (fun w hw => ?_) t ht
            have hwu : w ≠ u := fun h => hul (h ▸ hw)
            exact (List.mem_cons.mp (hv w (List.mem_cons_of_mem _ hw))).resolve_left hwu

theorem visited_eq_self (hl : ∀ t ∈ l.dropLast, c t ≠ 1) : visited c l = l := by
  induction l with
  | nil => rfl
  | cons u l ih =>
      rw [visited]
      cases l with
      | nil => split <;> rfl
      | cons v l =>
          rw [List.dropLast_cons_of_ne_nil (by simp)] at hl
          rw [if_neg (hl u (by simp)), ih fun t ht => hl t (List.mem_cons_of_mem _ ht)]

theorem survivors_eq_filter (hl : ∀ t ∈ l.dropLast, c t ≠ 1) :
    survivors c l = l.filter fun t => c t ≠ 1 := by
  induction l with
  | nil => rfl
  | cons u l ih =>
      rw [survivors]
      cases l with
      | nil => by_cases hu : c u = 1 <;> simp [hu, survivors]
      | cons v l =>
          rw [List.dropLast_cons_of_ne_nil (by simp)] at hl
          have hu : c u ≠ 1 := hl u (by simp)
          rw [if_neg hu, ih fun t ht => hl t (List.mem_cons_of_mem _ ht)]
          exact (List.filter_cons_of_pos (by simpa using hu)).symm

end Visited

def Pc.timer : Pc α → Option α
  | .startNext t _ | .startPrev t _ | .startInList t _ | .startInitial t _ | .startCounter t _ => t
  | .addTest t _ | .addSave t _ | .addDisable t _ _ | .addLink t _ _ => t
  | .removeTest t | .removeSave t | .removeDisable t _ | .removeUnlink t _ | .removeRestore t _ => t
  | .removeNext t | .removePrev t | .resumeTest t => t
  | .restartTest t _ | .restartLoad t _ | .restartStore t _ _ | .restartSave t _ => t
  | .restartDisable t _ _ | .restartRetest t _ _ | .restartSet t _ _ => t
  | .idle | .addRestore _ _ | .restartRestore _ _ => none

@[simp] theorem Pc.timer_idle : (Pc.idle : Pc α).timer = none := rfl

@[simp] theorem Pc.timer_addRestore (flag : Bool) (k : List Bool) :
    (Pc.addRestore flag k : Pc α).timer = none := rfl

@[simp] theorem Pc.timer_restartRestore (flag : Bool) (k : List Bool) :
    (Pc.restartRestore flag k : Pc α).timer = none := rfl

@[simp] theorem Pc.timer_ret (k : List Bool) : (Pc.ret k : Pc α).timer = none := by
  cases k <;> rfl

variable [DecidableEq α]

theorem Ticked.correct {h h' : Timers α} {l : List α} (htick : Ticked h h' [] l)
    (hin : ∀ t ∈ l, h.inList t = true) (hlast : OnlyLastExpires h l) : TickCorrect h h' l := by
  have hcounter : ∀ t ∈ l, h'.counter t = h.counter t - 1 := fun t ht => by
    rw [htick.counter, visited_eq_self hlast, if_pos ht]
  have hzero : ∀ t ∈ l, h'.counter t ≠ 0 ↔ h.counter t ≠ 1 := fun t ht => by
    rw [hcounter t ht, Ne, sub_eq_zero]
  have hsur : survivors h.counter l = l.filter fun t => h'.counter t ≠ 0 := by
    rw [survivors_eq_filter hlast]
    exact List.filter_congr fun t ht => by simp only [hzero t ht]
  refine ⟨hcounter, ?_, fun t ht => ?_, fun t ht => htick.same ht⟩
  · rw [← hsur]
    exact htick.list
  · by_cases hmem : t ∈ survivors h.counter l
    · have hc : h'.counter t ≠ 0 := by
        rw [hsur] at hmem
        simpa using (List.mem_filter.mp hmem).2
      rw [htick.inList t (.inr hmem), hin t ht]
      simp [hc]
    · obtain ⟨hi, hc, -⟩ := htick.removed t ht hmem
      simp [hi, hc]

theorem TickCorrect.onlyLast {h h' : Timers α} {l : List α} (hcorrect : TickCorrect h h' l)
    (htick : Ticked h h' [] l) (hl : l.Nodup) : OnlyLastExpires h l := by
  refine onlyLast_of_visited hl fun t ht => ?_
  by_contra hv
  have hsame := htick.counter t
  rw [if_neg hv, hcorrect.counter t ht] at hsame
  exact absurd (sub_eq_self.mp hsame) (by decide)

/-- One tick is right exactly when no timer but the last one expires in it. -/
theorem tickCorrect_iff {h : Timers α} {l : List α} (hlist : h.IsList l)
    (hcount : ∀ t ∈ l, h.inList t = true ∧ h.counter t ≠ 0) :
    (∃ n h' found, h.timerListUpdate n = some (h', found) ∧ TickCorrect h h' l) ↔
      OnlyLastExpires h l := by
  obtain ⟨n, h', hrun, htick⟩ := Timers.timerListUpdate_spec hlist hcount
  constructor
  · rintro ⟨n', h'', found, hrun', hcorrect⟩
    obtain ⟨rfl, -⟩ := Prod.mk.inj (Timers.timerListUpdateFrom_unique hrun hrun')
    exact hcorrect.onlyLast htick hlist.nodup
  · intro hlast
    exact ⟨n, h', _, hrun, htick.correct (fun t ht => (hcount t ht).1) hlast⟩

/-! ### Runs -/

structure LeftAlone (s s' : State α) (t : α) : Prop where
  pc : s'.pc.timer ≠ some t
  counter : s'.timers.counter t = s.timers.counter t
  inList : s'.timers.inList t = s.timers.inList t
  started : s'.started t = s.started t

theorem leftAlone_exec {s : State α} {t : α} (ht : s.pc.timer ≠ some t) :
    LeftAlone s s.exec t := by
  have hne : ∀ {u}, s.pc.timer = some u → t ≠ u := by
    rintro u hu rfl
    exact ht hu
  cases hpc : s.pc with
  | idle =>
      rw [State.exec_of_idle hpc]
      exact ⟨ht, rfl, rfl, rfl⟩
  | startNext u n | startPrev u n | startInitial u n | removeNext u | addSave u k
  | addDisable u flag k | removeSave u | removeDisable u flag | removeRestore u flag
  | restartLoad u k | restartSave u k | restartDisable u flag k =>
      rw [hpc] at ht
      simp only [State.exec, hpc]
      exact ⟨ht, rfl, rfl, rfl⟩
  | removePrev u | addRestore flag k | restartRestore flag k =>
      simp only [State.exec, hpc]
      exact ⟨by simp, rfl, rfl, rfl⟩
  | startInList u n | removeUnlink u flag =>
      have htu : t ≠ u := hne (by rw [hpc]; rfl)
      rw [hpc] at ht
      simp only [State.exec, hpc]
      exact ⟨ht, rfl, Function.update_of_ne htu _ _, rfl⟩
  | addLink u flag k =>
      have htu : t ≠ u := hne (by rw [hpc]; rfl)
      simp only [State.exec, hpc]
      exact ⟨by simp, rfl, Function.update_of_ne htu _ _, rfl⟩
  | startCounter u n =>
      have htu : t ≠ u := hne (by rw [hpc]; rfl)
      rw [hpc] at ht
      simp only [State.exec, hpc]
      exact ⟨ht, Function.update_of_ne htu _ _, rfl, Function.update_of_ne htu _ _⟩
  | restartStore u n k =>
      have htu : t ≠ u := hne (by rw [hpc]; rfl)
      rw [hpc] at ht
      simp only [State.exec, hpc]
      exact ⟨ht, Function.update_of_ne htu _ _, rfl, rfl⟩
  | restartSet u flag k =>
      have htu : t ≠ u := hne (by rw [hpc]; rfl)
      simp only [State.exec, hpc]
      exact ⟨by simp, Function.update_of_ne htu _ _, rfl, rfl⟩
  | addTest u k | removeTest u | resumeTest u | restartTest u k | restartRetest u flag k =>
      rw [hpc] at ht
      simp only [State.exec, hpc]
      refine ⟨?_, rfl, rfl, rfl⟩
      split
      all_goals first | exact ht | simp

theorem leftAlone_call {s : State α} {op : Op α} {t : α} (ht : op.timer ≠ t) :
    LeftAlone s (s.call op) t := by
  have hpc : (s.call op).pc.timer = some op.timer := by cases op <;> rfl
  refine ⟨by simpa [hpc] using ht, rfl, rfl, ?_⟩
  cases op with
  | timerStart u n => exact Function.update_of_ne (Ne.symm ht) _ _
  | timerEnd u | timerStop u | timerPause u | timerResume u | timerRestart u => rfl

def Event.isTick : Event α → Bool
  | .tick => true
  | _ => false

def ticks (es : List (Event α)) : Nat := es.countP Event.isTick

def NoCallOn (t : α) (es : List (Event α)) : Prop := ∀ op, .call op ∈ es → op.timer ≠ t

def OnlyLastTicks (s : State α) : Event α → Prop
  | .tick => ∀ l, s.timers.IsList l → OnlyLastExpires s.timers l
  | _ => True

/-- The machine without the ticks that go wrong. -/
def steady (α : Type) [DecidableEq α] : System (State α) (Event α) :=
  (machine α).restrict OnlyLastTicks

structure Running (s : State α) (t : α) (n : UInt32) (k : Nat) : Prop where
  inv : ∃ l, Inv s l
  pc : s.pc.timer ≠ some t
  started : s.started t = true
  inList : s.timers.inList t = true ↔ k < n.toNat
  counter : (s.timers.counter t).toNat = n.toNat - k

namespace Running

variable {s s' : State α} {t : α} {n : UInt32} {k : Nat}

omit [DecidableEq α] in
theorem frame (H : Running s t n k) (hinv : ∃ l, Inv s' l) (hframe : LeftAlone s s' t) :
    Running s' t n k :=
  ⟨hinv, hframe.pc, hframe.started.trans H.started, by rw [hframe.inList, H.inList],
    by rw [hframe.counter, H.counter]⟩

/-- A tick takes one from the counter, or finds the timer removed. -/
theorem tick (H : Running s t n k) (hstep : (steady α).step s .tick s') :
    Running s' t n (k + 1) := by
  rcases hstep with ⟨hlast, hintr, m, h, found, hrun, rfl⟩
  obtain ⟨l, hinv⟩ := H.inv
  obtain ⟨m', h', hrun', htick, hinv'⟩ := hinv.tick hintr
  obtain ⟨rfl, rfl⟩ := Prod.mk.inj (Timers.timerListUpdateFrom_unique hrun hrun')
  have hin : ∀ u ∈ l, s.timers.inList u = true := fun u hu =>
    (hinv.listing.inList u (hinv.listing.isStarted u hu)).mpr hu
  have hcorrect := htick.correct hin (hlast l hinv.listing.list)
  have hmem := hinv.listing.inList t H.started
  have hcount := H.counter
  have hlist := H.inList
  by_cases htl : t ∈ l
  · have hk := hlist.mp (hin t htl)
    have hcounter : (h.counter t).toNat = n.toNat - (k + 1) := by
      have hpos := hinv.listing.counter t htl
      have hle : (1 : UInt32) ≤ s.timers.counter t := by
        rw [UInt32.le_iff_toNat_le]
        have := fun hz => hpos (UInt32.toNat_inj.mp hz)
        simp only [UInt32.toNat_zero] at this
        simp only [UInt32.toNat_one]
        omega
      rw [hcorrect.counter t htl, UInt32.toNat_sub_of_le _ _ hle, hcount, UInt32.toNat_one]
      omega
    refine ⟨⟨_, hinv'⟩, H.pc, H.started, ?_, hcounter⟩
    rw [hcorrect.inList t htl, Ne, ← UInt32.toNat_inj, hcounter, UInt32.toNat_zero]
    omega
  · have hk : ¬ k < n.toNat := fun hk => htl (hmem.mp (hlist.mpr hk))
    have hsame := hcorrect.other t htl
    refine ⟨⟨_, hinv'⟩, H.pc, H.started, ?_, ?_⟩
    · rw [hsame.inList, hlist]
      omega
    · rw [hsame.counter, hcount]
      omega

theorem run {es : List (Event α)} (H : Running s t n 0) (hrun : ((steady α).startAt s).Run es s')
    (hno : NoCallOn t es) : Running s' t n (ticks es) := by
  refine hrun.history (P := fun es s' => NoCallOn t es → Running s' t n (ticks es)) ?_ ?_ hno
  · rintro s' rfl -
    exact H
  · intro es s e s' ih hstep hno
    have H' := ih fun op hop => hno op (List.mem_append_left _ hop)
    have hinv : ∃ l, Inv s' l := by
      obtain ⟨l, hinv⟩ := H'.inv
      exact hinv.step hstep.2
    have hticks : ticks (es ++ [e]) = ticks es + if e.isTick then 1 else 0 := by
      rw [ticks, List.countP_append, List.countP_singleton, ticks]
    rw [hticks]
    cases e with
    | call op =>
        rcases hstep with ⟨-, -, -, rfl⟩
        exact H'.frame hinv (leftAlone_call (hno op (by simp)))
    | statement =>
        rcases hstep with ⟨-, -, rfl⟩
        exact H'.frame hinv (leftAlone_exec H'.pc)
    | tick => exact H'.tick hstep
    | setIntr b =>
        rcases hstep with ⟨-, hidle, rfl⟩
        exact H'.frame hinv ⟨H'.pc, rfl, rfl, rfl⟩

end Running

def Pc.Starting (h : Timers α) (t : α) (n : UInt32) : Pc α → Prop
  | .startNext u m | .startPrev u m | .startInList u m | .startInitial u m | .startCounter u m =>
      u = t ∧ m = n
  | .addTest u _ | .addSave u _ | .addDisable u _ _ | .addLink u _ _ => u = t ∧ h.counter t = n
  | .addRestore _ _ | .restartRestore _ _ | .idle => True
  | _ => False

omit [DecidableEq α] in
theorem Pc.starting_ret (h : Timers α) (t : α) (n : UInt32) (k : List Bool) :
    (Pc.ret k).Starting h t n := by
  cases k <;> trivial

theorem starting_exec {s : State α} {t : α} {n : UInt32} (H : s.pc.Starting s.timers t n) :
    s.exec.pc.Starting s.exec.timers t n := by
  cases hpc : s.pc with
  | idle =>
      rw [State.exec_of_idle hpc]
      exact H
  | startNext u m | startPrev u m | startInList u m | startInitial u m | addSave u k
  | addDisable u flag k =>
      rw [hpc] at H
      simp only [State.exec, hpc]
      exact H
  | startCounter u m =>
      rw [hpc] at H
      rcases H with ⟨rfl, rfl⟩
      simp only [State.exec, hpc]
      exact ⟨rfl, Function.update_self _ _ _⟩
  | addTest u k =>
      rw [hpc] at H
      simp only [State.exec, hpc]
      split
      · exact Pc.starting_ret _ _ _ _
      · exact H
  | addLink u flag k =>
      simp only [State.exec, hpc]
      trivial
  | addRestore flag k | restartRestore flag k =>
      simp only [State.exec, hpc]
      exact Pc.starting_ret _ _ _ _
  | removeTest u | removeSave u | removeDisable u flag | removeUnlink u flag
  | removeRestore u flag | removeNext u | removePrev u | resumeTest u | restartTest u k
  | restartLoad u k | restartStore u m k | restartSave u k | restartDisable u flag k
  | restartRetest u flag k | restartSet u flag k =>
      rw [hpc] at H
      exact H.elim

/-- A tick leaves the timer alone that is not in the list yet. -/
theorem starting_ticked {h h' : Timers α} {started : α → Bool} {intr : Bool} {l : List α}
    {pc : Pc α} {t : α} {n : UInt32} (htick : Ticked h h' [] l)
    (hholds : pc.Holds h started intr l) (H : pc.Starting h t n) : pc.Starting h' t n := by
  cases pc with
  | addTest u k | addSave u k | addDisable u flag k | addLink u flag k =>
      rcases H with ⟨rfl, hc⟩
      exact ⟨rfl, (htick.same hholds.1).counter.trans hc⟩
  | idle | startNext u m | startPrev u m | startInList u m | startInitial u m | startCounter u m
  | addRestore flag k | restartRestore flag k => exact H
  | removeTest u | removeSave u | removeDisable u flag | removeUnlink u flag
  | removeRestore u flag | removeNext u | removePrev u | resumeTest u | restartTest u k
  | restartLoad u k | restartStore u m k | restartSave u k | restartDisable u flag k
  | restartRetest u flag k | restartSet u flag k => exact H.elim

/-- `timer_start` gets to the list with the counter that it was called with. -/
theorem run_starting {s s' : State α} {t : α} {n : UInt32} {es : List (Event α)}
    (hinv : ∃ l, Inv s l) (hpc : s.pc.Starting s.timers t n)
    (hrun : ((steady α).startAt s).Run es s') (hno : ∀ op, .call op ∉ es) :
    (∃ l, Inv s' l) ∧ s'.pc.Starting s'.timers t n := by
  refine hrun.history (P := fun es s' => (∀ op, .call op ∉ es) →
    (∃ l, Inv s' l) ∧ s'.pc.Starting s'.timers t n) ?_ ?_ hno
  · rintro s' rfl -
    exact ⟨hinv, hpc⟩
  · intro es s e s' ih hstep hno
    obtain ⟨⟨l, hl⟩, H⟩ := ih fun op hop => hno op (List.mem_append_left _ hop)
    refine ⟨hl.step hstep.2, ?_⟩
    cases e with
    | call op => exact absurd (by simp) (hno op)
    | statement =>
        rcases hstep with ⟨-, -, rfl⟩
        exact starting_exec H
    | tick =>
        rcases hstep with ⟨-, hintr, m, h, found, hupd, rfl⟩
        obtain ⟨m', h', hupd', htick, -⟩ := hl.tick hintr
        obtain ⟨rfl, rfl⟩ := Prod.mk.inj (Timers.timerListUpdateFrom_unique hupd hupd')
        exact starting_ticked htick hl.holds H
    | setIntr b =>
        rcases hstep with ⟨-, -, rfl⟩
        exact H

/-- The store of `_head` in `timer_start`: from here on the timer is running. -/
theorem running_link {s s' : State α} {t : α} {n : UInt32} {flag : Bool} {flags : List Bool}
    (hinv : ∃ l, Inv s l) (H : s.pc.Starting s.timers t n) (hpc : s.pc = .addLink t flag flags)
    (hstep : (steady α).step s .statement s') : Running s' t n 0 := by
  rcases hinv with ⟨l, hl⟩
  have hinv' := hl.step hstep.2
  rcases hstep with ⟨-, -, rfl⟩
  have hholds := hl.holds
  rw [hpc] at H hholds
  rcases hholds with ⟨-, hstart, hcount⟩
  have hn : n.toNat ≠ 0 := by
    rw [← H.2]
    exact fun hz => hcount (UInt32.toNat_inj.mp hz)
  have hexec : s.exec = { s with timers := s.timers.link t, pc := .addRestore flag flags } := by
    simp only [State.exec, hpc]
  rw [hexec] at hinv' ⊢
  refine ⟨hinv', by simp, hstart, ?_, ?_⟩
  · have hin : (s.timers.link t).inList t = true := Function.update_self _ _ _
    exact ⟨fun _ => by omega, fun _ => hin⟩
  · rw [Nat.sub_zero]
    exact congrArg UInt32.toNat H.2

/-- A tick is right exactly when no timer but the last one of the list expires
in it. In a run whose ticks are all of this kind, a timer started with the
timeout `n` and left alone is listed for `n` ticks and triggered from then on. -/
theorem timerListUpdate_correct_iff (α : Type) [DecidableEq α] :
    (∀ (h : Timers α) (l : List α), h.IsList l →
      (∀ t ∈ l, h.inList t = true ∧ h.counter t ≠ 0) →
      ((∃ n h' found, h.timerListUpdate n = some (h', found) ∧ TickCorrect h h' l) ↔
        OnlyLastExpires h l)) ∧
    ∀ (es es₁ es₂ : List (Event α)) (s s₀ s₁ s₂ s' : State α) (t : α) (n : UInt32) (flag : Bool)
      (flags : List Bool), (steady α).Run es s → (steady α).step s (.call (.timerStart t n)) s₀ →
      ((steady α).startAt s₀).Run es₁ s₁ → (∀ op, .call op ∉ es₁) →
      s₁.pc = .addLink t flag flags → (steady α).step s₁ .statement s₂ →
      ((steady α).startAt s₂).Run es₂ s' → NoCallOn t es₂ →
      (s'.timers.inList t = true ↔ ticks es₂ < n.toNat) ∧
        (s'.timers.counter t).toNat = n.toNat - ticks es₂ ∧
        (s'.timers.timerIsTriggered t = true ↔ n.toNat ≤ ticks es₂) := by
  refine ⟨fun h l hlist hcount => tickCorrect_iff hlist hcount, ?_⟩
  intro es es₁ es₂ s s₀ s₁ s₂ s' t n flag flags hrun hcall hstart hno hpc hlink hrest hleft
  obtain ⟨l, hl⟩ := inv_of_run hrun.of_restrict
  have hinv₀ := hl.step hcall.2
  rcases hcall with ⟨-, -, -, rfl⟩
  obtain ⟨hinv₁, H⟩ := run_starting (t := t) (n := n) hinv₀ ⟨rfl, rfl⟩ hstart hno
  have hrunning := (running_link hinv₁ H hpc hlink).run hrest hleft
  refine ⟨hrunning.inList, hrunning.counter, ?_⟩
  rw [Timers.timerIsTriggered, beq_iff_eq, ← UInt32.toNat_inj, hrunning.counter, UInt32.toNat_zero]
  omega

section Sample

def twoTimers (m n : UInt32) : Timers Bool where
  head := some true
  prev := fun t => if t then none else some true
  next := fun t => if t then some false else none
  initialCounter := fun t => if t then m else n
  counter := fun t => if t then m else n
  inList := fun _ => true

theorem twoTimers_isList (m n : UInt32) : (twoTimers m n).IsList [true, false] :=
  ⟨some false, rfl, rfl, rfl, rfl, rfl, rfl⟩

/-- When the first of two timers expires, the second one loses a tick. -/
theorem timerListUpdate_skips :
    ¬ ∀ (h : Timers Bool) (l : List Bool), h.IsList l →
      (∀ t ∈ l, h.inList t = true ∧ h.counter t ≠ 0) →
      ∃ n h' found, h.timerListUpdate n = some (h', found) ∧ TickCorrect h h' l := by
  intro hclaim
  have hcount : ∀ t ∈ [true, false], (twoTimers 1 5).inList t = true ∧
      (twoTimers 1 5).counter t ≠ 0 := by decide
  have hlast := (tickCorrect_iff (twoTimers_isList 1 5) hcount).mp
    (hclaim _ _ (twoTimers_isList 1 5) hcount)
  exact hlast true (by decide) rfl

def linkedState : State Bool := State.exec (State.exec^[8] (zeroState.call (.timerStart true 1)))

theorem timerListUpdate_correct_iff_sample :
    (∃ n h' found, (twoTimers 5 1).timerListUpdate n = some (h', found) ∧
      TickCorrect (twoTimers 5 1) h' [true, false]) ∧
    (linkedState.exec.tick 1).timers.timerIsTriggered true = true := by
  have hexec : ∀ s : State Bool, s.pc ≠ .idle → (steady Bool).step s .statement s.exec :=
    fun s hs => ⟨trivial, step_exec s hs⟩
  have hlast : OnlyLastTicks linkedState.exec .tick := by
    intro l hl
    have hlist : linkedState.exec.timers.IsList [true] :=
      ⟨some true, by decide, by decide, by decide, rfl⟩
    obtain rfl := hl.unique hlist
    intro t ht
    cases ht
  have hcall : (steady Bool).step zeroState (.call (.timerStart true 1))
      (zeroState.call (.timerStart true 1)) :=
    ⟨trivial, step_call (.timerStart true 1) rfl zeroState_allowed⟩
  have hstart := run_exec (A := (steady Bool).startAt (zeroState.call (.timerStart true 1))) hexec
    (.init rfl) 8 (by decide)
  have hreturn : ((steady Bool).startAt linkedState).Run [.statement] linkedState.exec :=
    .snoc (.init rfl) (hexec linkedState (by decide))
  have hrest : ((steady Bool).startAt linkedState).Run [.statement, .tick]
      (linkedState.exec.tick 1) := hreturn.snoc ⟨hlast, step_tick (by decide) (by decide)⟩
  obtain ⟨htick, hruns⟩ := timerListUpdate_correct_iff Bool
  refine ⟨(htick (twoTimers 5 1) [true, false] (twoTimers_isList 5 1) (by decide)).mpr ?_, ?_⟩
  · intro t ht
    obtain rfl := List.mem_singleton.mp ht
    decide
  · have hafter := hruns [] _ _ zeroState _ _ linkedState _ true 1 true [] (.init zeroState_init)
      hcall hstart (by simp) (by decide) (hexec _ (by decide)) hrest (by simp [NoCallOn])
    exact hafter.2.2.mpr (by decide)

end Sample

end Kboot86.Timer
