import Kboot86.Foundation.Exec

/-!
# Loops that can be given up

A loop whose body may give up is the sequence of its turns. `turns body n` is
the first `n` of them, so a loop that was stopped, by its body or by a fault,
is seen through the turns before that. The rules are an invariant for what is
known when the turns have succeeded, and one for showing that they do.
-/

namespace Kboot86

namespace Exec

variable {ε σ : Type} {body : Nat → Exec ε σ Bool} {n : Nat} {s s' : σ} {I : Nat → σ → Prop}

/-- The first `n` turns; `false` when one of them gave up. -/
def turns (body : Nat → Exec ε σ Bool) : Nat → Exec ε σ Bool
  | 0 => pure true
  | n + 1 => do
      let ok ← turns body n
      if ok then body n else pure false

theorem turns_zero_eq_ok {ok : Bool} :
    turns body 0 s = .ok (ok, s') ↔ ok = true ∧ s' = s := by
  constructor
  · intro h
    cases h
    exact ⟨rfl, rfl⟩
  · rintro ⟨rfl, rfl⟩
    rfl

theorem turns_succ_eq_ok :
    turns body (n + 1) s = .ok (true, s') ↔
      ∃ s1, turns body n s = .ok (true, s1) ∧ body n s1 = .ok (true, s') := by
  rw [turns, bind_eq_ok]
  constructor
  · rintro ⟨ok, s1, hturns, hbody⟩
    cases ok with
    | true => exact ⟨s1, hturns, hbody⟩
    | false => cases hbody
  · rintro ⟨s1, hturns, hbody⟩
    exact ⟨true, s1, hturns, hbody⟩

theorem turns_prefix (h : turns body n s = .ok (true, s')) {k : Nat} (hk : k < n) :
    ∃ s1 s2, turns body k s = .ok (true, s1) ∧ body k s1 = .ok (true, s2) := by
  induction n generalizing s' with
  | zero => exact absurd hk (Nat.not_lt_zero k)
  | succ n ih =>
      obtain ⟨s1, hturns, hbody⟩ := turns_succ_eq_ok.mp h
      by_cases hlast : k = n
      · subst hlast
        exact ⟨s1, s', hturns, hbody⟩
      · exact ih hturns (by omega)

/-- What every successful turn keeps holds when the turns have succeeded. -/
theorem turns_wlp (hzero : I 0 s)
    (hstep : ∀ k < n, ∀ s1, I k s1 → wlp (body k) s1 fun ok s2 => ok = true → I (k + 1) s2) :
    wlp (turns body n) s fun ok s' => ok = true → I n s' := by
  rintro ok s' h rfl
  induction n generalizing s' with
  | zero =>
      obtain ⟨-, rfl⟩ := turns_zero_eq_ok.mp h
      exact hzero
  | succ n ih =>
      obtain ⟨s1, hturns, hbody⟩ := turns_succ_eq_ok.mp h
      have hinv := ih (fun k hk => hstep k (Nat.lt_succ_of_lt hk)) s1 hturns
      exact hstep n (Nat.lt_succ_self n) s1 hinv true s' hbody rfl

/-- The turns succeed when each of them does. -/
theorem turns_wp (hzero : I 0 s)
    (hstep : ∀ k < n, ∀ s1, I k s1 → wp (body k) s1 fun ok s2 => ok = true ∧ I (k + 1) s2) :
    wp (turns body n) s fun ok s' => ok = true ∧ I n s' := by
  induction n with
  | zero => exact wp_pure ⟨rfl, hzero⟩
  | succ n ih =>
      refine wp_bind (ih fun k hk => hstep k (Nat.lt_succ_of_lt hk)) ?_
      rintro ok s1 ⟨rfl, hinv⟩
      exact hstep n (Nat.lt_succ_self n) s1 hinv

end Exec

end Kboot86
