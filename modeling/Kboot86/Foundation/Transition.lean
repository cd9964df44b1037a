import Mathlib.Data.List.Basic
import Mathlib.Data.List.Induction
import Mathlib.Logic.Function.Iterate

/-!
# Transition systems, runs and simulations

A `System` has initial states and a labelled step relation; `Run es s` says
that the events `es`, in the order in which they happened, lead from an initial
state to `s`. An invariant is proved once for the initial states and once for a
step, and then holds at the end of every run. `restrict` keeps the steps that
meet a guard, so "in every run whose steps all meet the guard" is a run of the
restricted system. A simulation carries every run of a concrete system to a run
of an abstract one with the same events.
-/

namespace Kboot86

/-- A labelled transition system: which states a run may start in, and which
state an event may lead to. -/
structure System (σ ο : Type*) where
  init : σ → Prop
  step : σ → ο → σ → Prop

namespace System

variable {σ τ ο : Type*}

/-- The events `es` lead from an initial state to `s`; the list is in the order
of the events. -/
inductive Run (A : System σ ο) : List ο → σ → Prop
  | init {s : σ} : A.init s → Run A [] s
  | snoc {es : List ο} {s s' : σ} {e : ο} :
      Run A es s → A.step s e s' → Run A (es ++ [e]) s'

def ofFun (init : σ → Prop) (f : σ → ο → σ) : System σ ο where
  init := init
  step s e s' := s' = f s e

/-- The steps of `A` that meet the guard `G`, which sees the state before the
step and the event. -/
def restrict (A : System σ ο) (G : σ → ο → Prop) : System σ ο where
  init := A.init
  step s e s' := G s e ∧ A.step s e s'

/-- The runs of `A` that go on from the state `s`. -/
def startAt (A : System σ ο) (s : σ) : System σ ο where
  init := (· = s)
  step := A.step

theorem run_snoc_iff (A : System σ ο) (es : List ο) (e : ο) (s' : σ) :
    A.Run (es ++ [e]) s' ↔ ∃ s, A.Run es s ∧ A.step s e s' := by
  constructor
  · intro h
    generalize hl : es ++ [e] = l at h
    cases h with
    | init _ => simp at hl
    | snoc hrun hstep =>
        obtain ⟨hes, he⟩ := List.append_inj' hl rfl
        obtain rfl := hes
        obtain rfl : e = _ := by simpa using he
        exact ⟨_, hrun, hstep⟩
  · rintro ⟨s, hrun, hstep⟩
    exact .snoc hrun hstep

theorem Run.exists_step {A : System σ ο} {pre post : List ο} {e : ο} {s : σ}
    (h : A.Run (pre ++ e :: post) s) : ∃ s₁ s₂, A.Run pre s₁ ∧ A.step s₁ e s₂ := by
  induction post using List.reverseRecOn generalizing s with
  | nil =>
      obtain ⟨s₁, hrun, hstep⟩ := (A.run_snoc_iff pre e s).mp h
      exact ⟨s₁, s, hrun, hstep⟩
  | append_singleton post x ih =>
      rw [← List.cons_append, ← List.append_assoc] at h
      obtain ⟨s₁, hrun, -⟩ := (A.run_snoc_iff _ x s).mp h
      exact ih hrun

/-- A run goes on with `n` times the same event when each of them is a step. -/
theorem Run.iterate {A : System σ ο} {e : ο} {f : σ → σ} {es : List ο} {s : σ} (h : A.Run es s)
    (n : Nat) (hstep : ∀ i < n, A.step (f^[i] s) e (f (f^[i] s))) :
    A.Run (es ++ List.replicate n e) (f^[n] s) := by
  induction n with
  | zero =>
      rw [List.replicate_zero, List.append_nil]
      exact h
  | succ n ih =>
      rw [List.replicate_succ', ← List.append_assoc, Function.iterate_succ_apply']
      exact .snoc (ih fun i hi => hstep i (Nat.lt_succ_of_lt hi)) (hstep n (Nat.lt_succ_self n))

/-- What holds initially and is preserved by every step holds at the end of
every run. -/
theorem Run.invariant {A : System σ ο} {P : σ → Prop}
    (hinit : ∀ s, A.init s → P s)
    (hstep : ∀ s e s', P s → A.step s e s' → P s')
    {es : List ο} {s : σ} (h : A.Run es s) : P s := by
  induction h with
  | init hs => exact hinit _ hs
  | snoc _ hst ih => exact hstep _ _ _ ih hst

/-- The same for a property of the state and of the events that led to it. -/
theorem Run.history {A : System σ ο} {P : List ο → σ → Prop}
    (hinit : ∀ s, A.init s → P [] s)
    (hstep : ∀ es s e s', P es s → A.step s e s' → P (es ++ [e]) s')
    {es : List ο} {s : σ} (h : A.Run es s) : P es s := by
  induction h with
  | init hs => exact hinit _ hs
  | snoc _ hst ih => exact hstep _ _ _ _ ih hst

theorem Run.restrict {A : System σ ο} {G : ο → Prop} {es : List ο} {s : σ}
    (h : A.Run es s) (hG : ∀ e ∈ es, G e) : (A.restrict fun _ e => G e).Run es s := by
  induction h with
  | init hs => exact .init hs
  | @snoc es s s' e _ hst ih =>
      have hes : ∀ x ∈ es, G x := fun x hx => hG x (by simp [hx])
      exact .snoc (ih hes) ⟨hG e (by simp), hst⟩

/-- The steps of a restricted system are steps of the system itself. -/
theorem Run.of_restrict {A : System σ ο} {G : σ → ο → Prop} {es : List ο} {s : σ}
    (h : (A.restrict G).Run es s) : A.Run es s := by
  induction h with
  | init hs => exact .init hs
  | snoc _ hst ih => exact .snoc ih hst.2

/-- `R` is a forward simulation of `A` by `B`. -/
structure Simulation (A : System σ ο) (B : System τ ο) (R : σ → τ → Prop) : Prop where
  init : ∀ s, A.init s → ∃ t, B.init t ∧ R s t
  step : ∀ s e s' t, R s t → A.step s e s' → ∃ t', B.step t e t' ∧ R s' t'

/-- A simulation carries every run to a run with the same events. -/
theorem Simulation.run {A : System σ ο} {B : System τ ο} {R : σ → τ → Prop}
    (h : Simulation A B R) {es : List ο} {s : σ} (hrun : A.Run es s) :
    ∃ t, B.Run es t ∧ R s t := by
  induction hrun with
  | init hs =>
      obtain ⟨t, ht, hR⟩ := h.init _ hs
      exact ⟨t, .init ht, hR⟩
  | snoc _ hst ih =>
      rcases ih with ⟨t, ht, hR⟩
      obtain ⟨t', hst', hR'⟩ := h.step _ _ _ _ hR hst
      exact ⟨t', .snoc ht hst', hR'⟩

end System

end Kboot86
