import Kboot86.Foundation.Poll

/-!
# Runs with enough reads

A driver with polling loops is a computation for each number of reads that its
loops may take. `Ends x s r` says that from some number of reads on `x`, started
in `s`, has the result `r`: it returns, or it faults for another reason than the
reads. There is at most one such result.
-/

namespace Kboot86

namespace Exec

variable {ε σ α β : Type}

/-- With enough reads `x` ends in `r`. -/
def Ends (x : Nat → Exec ε σ α) (s : σ) (r : Except ε (α × σ)) : Prop :=
  ∃ n, ∀ fuel ≥ n, x fuel s = r

section

variable {x : Nat → Exec ε σ α} {f : Nat → α → Exec ε σ β} {s s' : σ} {a : α}
  {r r' : Except ε (α × σ)} {t : Except ε (β × σ)}

theorem ends_of_eq (h : ∀ fuel, x fuel s = r) : Ends x s r := ⟨0, fun fuel _ => h fuel⟩

theorem Ends.unique (h : Ends x s r) (h' : Ends x s r') : r = r' := by
  obtain ⟨m, hm⟩ := h
  obtain ⟨n, hn⟩ := h'
  rw [← hm _ (le_max_left m n), hn _ (le_max_right m n)]

theorem Ends.bind (hx : Ends x s (.ok (a, s'))) (hf : Ends (fun fuel => f fuel a) s' t) :
    Ends (fun fuel => x fuel >>= f fuel) s t := by
  obtain ⟨m, hm⟩ := hx
  obtain ⟨n, hn⟩ := hf
  refine ⟨max m n, fun fuel hfuel => ?_⟩
  change (x fuel >>= f fuel) s = t
  rw [bind_apply, hm fuel (le_trans (le_max_left _ _) hfuel)]
  exact hn fuel (le_trans (le_max_right _ _) hfuel)

theorem ends_bind_of_eq {y : Exec ε σ α} (hy : y s = .ok (a, s'))
    (hf : Ends (fun fuel => f fuel a) s' t) : Ends (fun fuel => y >>= f fuel) s t :=
  (ends_of_eq fun _ => hy).bind hf

theorem ends_congr {y : Nat → Exec ε σ α} (h : ∀ fuel, x fuel s = y fuel s') (hy : Ends y s' r) :
    Ends x s r := by
  obtain ⟨n, hn⟩ := hy
  exact ⟨n, fun fuel hfuel => (h fuel).trans (hn fuel hfuel)⟩

theorem ends_pollUntil {read : Exec ε σ α} {p : α → Bool} {fault : ε} {obs : Nat → α}
    {st : Nat → σ} {k : Nat} (h : Observes read obs st) (hp : p (obs k) = true)
    (hbefore : ∀ j < k, p (obs j) = false) :
    Ends (fun fuel => pollUntil read p fault fuel) (st 0) (.ok (obs k, st (k + 1))) :=
  ⟨k + 1, fun _ hfuel => pollUntil_first h hfuel hp hbefore⟩

end

end Exec

end Kboot86
