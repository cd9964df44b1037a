import Mathlib.Logic.Basic

/-!
# Runs that may fault

`Exec ε σ α` is a computation over a state `σ` that returns a value or stops
with a fault of type `ε`, for which no state is left. `wp x s Q` says that `x`,
started in `s`, returns and that `Q` holds of what it returns and of the state
then; `wlp x s Q` says so for the runs that return and nothing about the
others. The rules are those of weakest preconditions: one for each way a
computation is put together, and one to weaken the postcondition.
-/

namespace Kboot86

abbrev Exec (ε σ α : Type) := StateT σ (Except ε) α

namespace Exec

variable {ε σ α β : Type}

/-- `x` returns from `s`, and `Q` holds then. -/
def wp (x : Exec ε σ α) (s : σ) (Q : α → σ → Prop) : Prop :=
  ∃ a s', x s = .ok (a, s') ∧ Q a s'

/-- If `x` returns from `s`, then `Q` holds. -/
def wlp (x : Exec ε σ α) (s : σ) (Q : α → σ → Prop) : Prop :=
  ∀ a s', x s = .ok (a, s') → Q a s'

theorem bind_apply (x : Exec ε σ α) (f : α → Exec ε σ β) (s : σ) :
    (x >>= f) s = match x s with
      | .ok (a, s') => f a s'
      | .error e => .error e := by
  change (x s >>= fun p => f p.1 p.2) = _
  cases x s <;> rfl

theorem bind_eq_ok {x : Exec ε σ α} {f : α → Exec ε σ β} {s s'' : σ} {b : β} :
    (x >>= f) s = .ok (b, s'') ↔ ∃ a s', x s = .ok (a, s') ∧ f a s' = .ok (b, s'') := by
  rw [bind_apply]
  cases h : x s with
  | error e => simp
  | ok p =>
      constructor
      · intro hf
        exact ⟨p.1, p.2, rfl, hf⟩
      · rintro ⟨a, s', hp, hf⟩
        cases hp
        exact hf

theorem wp_pure {a : α} {s : σ} {Q : α → σ → Prop} (h : Q a s) :
    wp (pure a : Exec ε σ α) s Q := ⟨a, s, rfl, h⟩

theorem wlp_pure {a : α} {s : σ} {Q : α → σ → Prop} (h : Q a s) :
    wlp (pure a : Exec ε σ α) s Q := by
  rintro b s' hb
  cases hb
  exact h

theorem wp_bind {x : Exec ε σ α} {f : α → Exec ε σ β} {s : σ} {Q : α → σ → Prop}
    {R : β → σ → Prop} (hx : wp x s Q) (hf : ∀ a s', Q a s' → wp (f a) s' R) :
    wp (x >>= f) s R := by
  rcases hx with ⟨a, s', hs', hQ⟩
  obtain ⟨b, s'', hs'', hR⟩ := hf a s' hQ
  exact ⟨b, s'', bind_eq_ok.mpr ⟨a, s', hs', hs''⟩, hR⟩

theorem wlp_bind {x : Exec ε σ α} {f : α → Exec ε σ β} {s : σ} {Q : α → σ → Prop}
    {R : β → σ → Prop} (hx : wlp x s Q) (hf : ∀ a s', Q a s' → wlp (f a) s' R) :
    wlp (x >>= f) s R := by
  intro b s'' h
  obtain ⟨a, s', hs', hs''⟩ := bind_eq_ok.mp h
  exact hf a s' (hx a s' hs') b s'' hs''

/-- Two ways to go on that agree wherever `x` leads from `s`. -/
theorem bind_congr_of_wp {x : Exec ε σ α} {f g : α → Exec ε σ β} {s : σ} {Q : α → σ → Prop}
    (hx : wp x s Q) (hfg : ∀ a s', Q a s' → f a s' = g a s') : (x >>= f) s = (x >>= g) s := by
  obtain ⟨a, s', hs', hQ⟩ := hx
  rw [bind_apply, bind_apply, hs']
  exact hfg a s' hQ

theorem wp_mono {x : Exec ε σ α} {s : σ} {Q R : α → σ → Prop} (h : wp x s Q)
    (hQR : ∀ a s', Q a s' → R a s') : wp x s R := by
  rcases h with ⟨a, s', hs', hQ⟩
  exact ⟨a, s', hs', hQR a s' hQ⟩

theorem wlp_mono {x : Exec ε σ α} {s : σ} {Q R : α → σ → Prop} (h : wlp x s Q)
    (hQR : ∀ a s', Q a s' → R a s') : wlp x s R :=
  fun a s' hs' => hQR a s' (h a s' hs')

/-- A run is deterministic, so what holds of some run that returns holds of
every one. -/
theorem wlp_of_wp {x : Exec ε σ α} {s : σ} {Q : α → σ → Prop} (h : wp x s Q) : wlp x s Q := by
  rcases h with ⟨a, s', hs', hQ⟩
  intro b t hb
  obtain ⟨rfl, rfl⟩ := Prod.mk.inj (Except.ok.inj (hs'.symm.trans hb))
  exact hQ

end Exec

end Kboot86
