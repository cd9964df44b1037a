import Kboot86.Lib.Timer.Interleave
import Mathlib.Data.List.Count

/-!
# Operations come to an end

An operation on a timer executes a bounded number of statements, whatever ticks
come in between: `timer_restart` calls itself, but then with interrupts off, so
that what it has seen of the timer still holds. The interrupt flags that are
saved on the way are `false` but for the outermost, which is the one of the
caller; so the caller gets it back.
-/

namespace Kboot86.Timer

variable {α : Type}

def Pc.saved : Pc α → List Bool
  | .addTest _ k | .addSave _ k | .addDisable _ _ k => k
  | .addLink _ flag k | .addRestore flag k => flag :: k
  | .removeUnlink _ flag | .removeRestore _ flag => [flag]
  | .restartTest _ k | .restartLoad _ k | .restartStore _ _ k | .restartSave _ k
  | .restartDisable _ _ k => k
  | .restartRetest _ flag k | .restartSet _ flag k | .restartRestore flag k => flag :: k
  | _ => []

/-- The statements that rely on the list as it is. -/
def Pc.Critical : Pc α → Prop
  | .addLink _ _ _ | .removeUnlink _ _ | .restartRetest _ _ _ | .restartSet _ _ _ => True
  | _ => False

def Pc.left : Pc α → Nat
  | .idle => 0
  | .startNext _ _ => 10
  | .startPrev _ _ => 9
  | .startInList _ _ => 8
  | .startInitial _ _ => 7
  | .startCounter _ _ => 6
  | .addTest _ k => 5 + k.length
  | .addSave _ k => 4 + k.length
  | .addDisable _ _ k => 3 + k.length
  | .addLink _ _ k => 2 + k.length
  | .addRestore _ k => 1 + k.length
  | .removeTest _ => 7
  | .removeSave _ => 6
  | .removeDisable _ _ => 5
  | .removeUnlink _ _ => 4
  | .removeRestore _ _ => 3
  | .removeNext _ => 2
  | .removePrev _ => 1
  | .resumeTest _ => 6
  | .restartTest _ [] => 13
  | .restartTest _ (_ :: k) => 9 + k.length
  | .restartLoad _ k => 7 + k.length
  | .restartStore _ _ k => 6 + k.length
  | .restartSave _ _ => 12
  | .restartDisable _ _ _ => 11
  | .restartRetest _ _ _ => 10
  | .restartSet _ _ k => 2 + k.length
  | .restartRestore _ k => 1 + k.length

@[simp] theorem Pc.saved_ret (k : List Bool) : (Pc.ret k : Pc α).saved = k := by
  cases k <;> rfl

@[simp] theorem Pc.left_ret (k : List Bool) : (Pc.ret k : Pc α).left = k.length := by
  cases k with
  | nil => rfl
  | cons flag k => exact Nat.add_comm _ _

theorem Op.left_enter (op : Op α) : op.enter.left ≤ 13 := by
  cases op <;> simp [Op.enter, Pc.left]

/-- What the statements of `timer_restart` and the saved flag rely on. -/
def Pc.Relies (inList : α → Bool) (intr : Bool) : Pc α → Prop
  | .addDisable _ flag _ | .removeDisable _ flag => flag = intr
  | .restartTest t k => k ≠ [] → inList t = false
  | .restartSave _ k => k = []
  | .restartDisable _ flag k => flag = intr ∧ k = []
  | .restartRetest _ _ k => k = []
  | _ => True

@[simp] theorem Pc.relies_ret (inList : α → Bool) (intr : Bool) (k : List Bool) :
    (Pc.ret k).Relies inList intr := by
  cases k <;> trivial

/-- An operation of a caller with the interrupt flag `b` is in progress. -/
structure Returning (s : State α) (b : Bool) : Prop where
  flags : ∃ n, s.intr :: s.pc.saved = List.replicate n false ++ [b]
  relies : s.pc.Relies s.timers.inList s.intr

namespace Returning

variable {s : State α} {b : Bool}

theorem intr_of_saved (H : Returning s b) {flag : Bool} {k : List Bool}
    (hsaved : s.pc.saved = flag :: k) :
    s.intr = false ∧ ∃ n, flag :: k = List.replicate n false ++ [b] := by
  obtain ⟨n, hn⟩ := H.flags
  rw [hsaved] at hn
  cases n with
  | zero => cases hn
  | succ n =>
      rw [List.replicate_succ, List.cons_append] at hn
      obtain ⟨hintr, hrest⟩ := List.cons.inj hn
      exact ⟨hintr, n, hrest⟩

theorem intr_of_idle (H : Returning s b) (hidle : s.pc = .idle) : s.intr = b := by
  obtain ⟨n, hn⟩ := H.flags
  rw [hidle] at hn
  cases n with
  | zero => exact (List.cons.inj hn).1
  | succ n =>
      have hlen := congrArg List.length hn
      simp [Pc.saved] at hlen

theorem intr_of_critical (H : Returning s b) (hcrit : s.pc.Critical) : s.intr = false := by
  cases hpc : s.pc with
  | addLink t flag k | removeUnlink t flag | restartRetest t flag k | restartSet t flag k =>
      exact (H.intr_of_saved (by rw [hpc]; rfl)).1
  | _ =>
      rw [hpc] at hcrit
      exact hcrit.elim

theorem of_ret {k : List Bool} (hpc : s.pc = .ret k)
    (hflags : ∃ n, s.intr :: k = List.replicate n false ++ [b]) : Returning s b := by
  constructor
  · rw [hpc, Pc.saved_ret]
    exact hflags
  · rw [hpc]
    exact Pc.relies_ret _ _ _

variable [DecidableEq α]

theorem exec (H : Returning s b) (hbusy : s.pc ≠ .idle) :
    Returning s.exec b ∧ s.exec.pc.left + 1 ≤ s.pc.left := by
  have hflags := H.flags
  have hrelies := H.relies
  cases hpc : s.pc with
  | idle => exact absurd hpc hbusy
  | startCounter t n =>
      rw [hpc] at hflags
      simp only [State.exec, hpc]
      exact ⟨⟨hflags, trivial⟩, Nat.le_refl _⟩
  | startNext t n | startPrev t n | startInList t n | startInitial t n | removeNext t
  | removePrev t | restartLoad t k | restartStore t n k =>
      rw [hpc] at hflags
      simp only [State.exec, hpc]
      exact ⟨⟨hflags, trivial⟩, by simp only [Pc.left]; omega⟩
  | addTest t k =>
      rw [hpc] at hflags
      simp only [State.exec, hpc]
      split
      · refine ⟨of_ret rfl hflags, ?_⟩
        rw [Pc.left_ret, Pc.left]
        omega
      · exact ⟨⟨hflags, trivial⟩, by simp only [Pc.left]; omega⟩
  | addSave t k | removeSave t =>
      rw [hpc] at hflags
      simp only [State.exec, hpc]
      exact ⟨⟨hflags, rfl⟩, by simp only [Pc.left]; omega⟩
  | addDisable t flag k | removeDisable t flag =>
      rw [hpc] at hflags hrelies
      obtain rfl : flag = s.intr := hrelies
      obtain ⟨n, hn⟩ := hflags
      simp only [State.exec, hpc]
      refine ⟨⟨⟨n + 1, ?_⟩, trivial⟩, by simp only [Pc.left]; omega⟩
      rw [List.replicate_succ, List.cons_append, ← hn]
      rfl
  | addLink t flag k | removeUnlink t flag | restartSet t flag k =>
      rw [hpc] at hflags
      simp only [State.exec, hpc]
      exact ⟨⟨hflags, trivial⟩, by simp only [Pc.left]; omega⟩
  | addRestore flag k | restartRestore flag k =>
      obtain ⟨-, hrest⟩ := H.intr_of_saved (by rw [hpc]; rfl)
      simp only [State.exec, hpc]
      refine ⟨of_ret rfl hrest, ?_⟩
      rw [Pc.left_ret, Pc.left]
      omega
  | removeRestore t flag =>
      obtain ⟨-, hrest⟩ := H.intr_of_saved (by rw [hpc]; rfl)
      simp only [State.exec, hpc]
      exact ⟨⟨hrest, trivial⟩, by simp only [Pc.left]; omega⟩
  | removeTest t | resumeTest t =>
      rw [hpc] at hflags
      simp only [State.exec, hpc]
      split
      · exact ⟨⟨hflags, trivial⟩, by simp [Pc.left]⟩
      · exact ⟨⟨hflags, trivial⟩, by simp [Pc.left]⟩
  | restartTest t k =>
      rw [hpc] at hflags hrelies
      simp only [State.exec, hpc]
      cases k with
      | nil =>
          split
          · exact ⟨⟨hflags, rfl⟩, by simp [Pc.left]⟩
          · exact ⟨⟨hflags, trivial⟩, by simp [Pc.left]⟩
      | cons flag k =>
          -- the inner call of `timer_restart`
          have hin : s.timers.inList t = false := hrelies (List.cons_ne_nil _ _)
          rw [hin, if_neg Bool.false_ne_true]
          exact ⟨⟨hflags, trivial⟩, by simp only [Pc.left, List.length_cons]; omega⟩
  | restartSave t k =>
      rw [hpc] at hflags hrelies
      simp only [State.exec, hpc]
      exact ⟨⟨hflags, rfl, hrelies⟩, by simp [Pc.left]⟩
  | restartDisable t flag k =>
      rw [hpc] at hflags hrelies
      obtain ⟨rfl, hk⟩ : flag = s.intr ∧ k = [] := hrelies
      obtain ⟨n, hn⟩ := hflags
      simp only [State.exec, hpc]
      refine ⟨⟨⟨n + 1, ?_⟩, hk⟩, by simp [Pc.left]⟩
      rw [List.replicate_succ, List.cons_append, ← hn]
      rfl
  | restartRetest t flag k =>
      rw [hpc] at hflags hrelies
      obtain rfl : k = [] := hrelies
      simp only [State.exec, hpc]
      cases hin : s.timers.inList t with
      | true => exact ⟨⟨hflags, trivial⟩, by simp [Pc.left]⟩
      | false => exact ⟨⟨hflags, fun _ => hin⟩, by simp [Pc.left]⟩

omit [DecidableEq α] in
theorem tick (H : Returning s b) (hintr : s.intr = true) (h : Timers α)
    (found : List (α × UInt32)) : Returning { s with timers := h, found := found } b := by
  refine ⟨H.flags, ?_⟩
  have hrelies := H.relies
  cases hpc : s.pc with
  | restartTest t k =>
      intro hk
      cases k with
      | nil => exact absurd rfl hk
      | cons flag k =>
          obtain ⟨hoff, -⟩ := H.intr_of_saved (by rw [hpc]; rfl)
          rw [hintr] at hoff
          cases hoff
  | _ =>
      rw [hpc] at hrelies
      exact hrelies

end Returning

def Event.isStatement : Event α → Bool
  | .statement => true
  | _ => false

def statements (es : List (Event α)) : Nat := es.countP Event.isStatement

variable [DecidableEq α]

theorem returning_call {s : State α} {op : Op α} : Returning (s.call op) s.intr := by
  cases op with
  | timerRestart t => exact ⟨⟨0, rfl⟩, fun h => absurd rfl h⟩
  | timerStart t n | timerEnd t | timerStop t | timerPause t | timerResume t =>
      exact ⟨⟨0, rfl⟩, trivial⟩

/-- An operation returns after at most 13 statements of its own, whatever ticks
come between them; then the interrupt flag is the one of its caller, and it was
off whenever the list was changed or relied on. -/
theorem timer_op_returns {s s₀ s' : State α} {op : Op α} {es : List (Event α)}
    (hcall : (machine α).step s (.call op) s₀) (hrun : ((machine α).startAt s₀).Run es s')
    (hno : ∀ op', .call op' ∉ es) (hset : ∀ b, .setIntr b ∉ es) :
    statements es + s'.pc.left ≤ 13 ∧ (s'.pc = .idle → s'.intr = s.intr) ∧
      (s'.pc.Critical → s'.intr = false) := by
  obtain ⟨-, -, rfl⟩ := hcall
  have hend := hrun.history (P := fun es s' =>
    (∀ op', .call op' ∉ es) → (∀ b, .setIntr b ∉ es) →
      Returning s' s.intr ∧ statements es + s'.pc.left ≤ 13) ?_ ?_ hno hset
  · exact ⟨hend.2, hend.1.intr_of_idle, hend.1.intr_of_critical⟩
  · rintro s' rfl - -
    exact ⟨returning_call, (Nat.zero_add _).trans_le op.left_enter⟩
  · intro es s₁ e s₂ ih hstep hno hset
    obtain ⟨H, hleft⟩ := ih (fun op' h => hno op' (List.mem_append_left _ h))
      fun b h => hset b (List.mem_append_left _ h)
    have hcount : statements (es ++ [e]) = statements es + statements [e] := List.countP_append
    rw [hcount]
    cases e with
    | call op' => exact absurd (by simp) (hno op')
    | setIntr b => exact absurd (by simp) (hset b)
    | statement =>
        obtain ⟨hbusy, rfl⟩ := hstep
        obtain ⟨H', hdec⟩ := H.exec hbusy
        have hone : statements [(.statement : Event α)] = 1 := rfl
        exact ⟨H', by omega⟩
    | tick =>
        obtain ⟨hintr, n, h, found, -, rfl⟩ := hstep
        exact ⟨H.tick hintr h _, hleft⟩

section Sample

def restartRace : State Bool := (State.exec^[2] (startedState.call (.timerRestart true))).tick 1

/-- It takes all 13 statements to put the timer back. -/
theorem timer_op_returns_race :
    (State.exec^[10] restartRace).pc ≠ .idle ∧ (State.exec^[11] restartRace).pc = .idle ∧
      (State.exec^[11] restartRace).intr = true := by
  have hcall : (machine Bool).step startedState (.call (.timerRestart true))
      (startedState.call (.timerRestart true)) :=
    step_call (.timerRestart true) (by decide) (show startedState.started true = true by decide)
  have hseen := run_exec (A := (machine Bool).startAt (startedState.call (.timerRestart true)))
    step_exec (.init rfl) 2 (by decide)
  have htick : ((machine Bool).startAt (startedState.call (.timerRestart true))).Run
      ([] ++ List.replicate 2 .statement ++ [.tick]) restartRace :=
    .snoc hseen (step_tick (by decide) (by decide))
  have hrun := run_exec (A := (machine Bool).startAt (startedState.call (.timerRestart true)))
    step_exec htick 11 (by decide)
  have hidle : (State.exec^[11] restartRace).pc = .idle := by decide
  have hflag : startedState.intr = true := by decide
  exact ⟨by decide, hidle,
    ((timer_op_returns hcall hrun (by simp) (by simp)).2.1 hidle).trans hflag⟩

end Sample

end Kboot86.Timer
