import Kboot86.Foundation.Exec
import Mathlib.Data.Nat.Find

/-!
# Polling loops

A polling loop reads until what it has read meets a condition, and it has no
bound of its own. `pollUntil` gives it a number of reads and stops with a fault
when these do not suffice, so the loop returns when it does with some number.
`Observes` describes the reads: what each of them returns and the state after
it. The rules say at which read the loop returns, or that it never does.
-/

namespace Kboot86

namespace Exec

variable {ε σ α : Type}

/-- At most `n` reads, the last of which is the first to meet `p`. -/
def pollUntil (read : Exec ε σ α) (p : α → Bool) (fault : ε) : Nat → Exec ε σ α
  | 0 => throw fault
  | n + 1 => do
      let a ← read
      if p a then pure a else pollUntil read p fault n

/-- Read number `k` finds the state `st k` and returns `obs k`. -/
def Observes (read : Exec ε σ α) (obs : Nat → α) (st : Nat → σ) : Prop :=
  ∀ k, read (st k) = .ok (obs k, st (k + 1))

variable {read : Exec ε σ α} {p : α → Bool} {fault : ε} {obs : Nat → α} {st : Nat → σ} {n k : Nat}

theorem pollUntil_succ (h : Observes read obs st) (n i : Nat) :
    pollUntil read p fault (n + 1) (st i) =
      if p (obs i) then .ok (obs i, st (i + 1)) else pollUntil read p fault n (st (i + 1)) := by
  rw [pollUntil, bind_apply, h i]
  dsimp only
  split <;> rfl

/-- The loop returns with the first read that meets the condition. -/
theorem pollUntil_first (h : Observes read obs st) (hk : k < n) (hp : p (obs k) = true)
    (hbefore : ∀ j < k, p (obs j) = false) :
    pollUntil read p fault n (st 0) = .ok (obs k, st (k + 1)) := by
  have hfrom : ∀ m i, i ≤ k → k < i + m →
      pollUntil read p fault m (st i) = .ok (obs k, st (k + 1)) := by
    intro m
    induction m with
    | zero => intro i hi hlt; omega
    | succ m ih =>
        intro i hi hlt
        rw [pollUntil_succ h]
        by_cases hik : i = k
        · rw [hik, if_pos hp]
        · rw [hbefore i (by omega)]
          exact ih (i + 1) (by omega) (by omega)
  exact hfrom n 0 (Nat.zero_le k) (by omega)

theorem pollUntil_fault (h : Observes read obs st) (hno : ∀ j < n, p (obs j) = false) :
    pollUntil read p fault n (st 0) = .error fault := by
  have hfrom : ∀ m i, i + m ≤ n → pollUntil read p fault m (st i) = .error fault := by
    intro m
    induction m with
    | zero => intro i _; rfl
    | succ m ih =>
        intro i hi
        rw [pollUntil_succ h, hno i (by omega)]
        exact ih (i + 1) (by omega)
  exact hfrom n 0 (by omega)

theorem exists_first (h : ∃ k, p (obs k) = true) :
    ∃ k, p (obs k) = true ∧ ∀ j < k, p (obs j) = false :=
  ⟨Nat.find h, Nat.find_spec h, fun _ hj => Bool.eq_false_iff.mpr (Nat.find_min h hj)⟩

theorem pollUntil_eq_ok (h : Observes read obs st) {a : α} {s' : σ}
    (hrun : pollUntil read p fault n (st 0) = .ok (a, s')) :
    ∃ k < n, p (obs k) = true ∧ (∀ j < k, p (obs j) = false) ∧ a = obs k ∧ s' = st (k + 1) := by
  by_cases hex : ∃ k < n, p (obs k) = true
  · obtain ⟨k₁, hk₁, hp₁⟩ := hex
    obtain ⟨k, hp, hbefore⟩ : ∃ k, p (obs k) = true ∧ ∀ j < k, p (obs j) = false :=
      exists_first ⟨k₁, hp₁⟩
    have hk : k < n := by
      by_contra hle
      have hno := hbefore k₁ (by omega)
      rw [hp₁] at hno
      cases hno
    rw [pollUntil_first h hk hp hbefore] at hrun
    obtain ⟨rfl, rfl⟩ := Prod.mk.inj (Except.ok.inj hrun)
    exact ⟨k, hk, hp, hbefore, rfl, rfl⟩
  · have hno : ∀ j < n, p (obs j) = false := fun j hj =>
      Bool.eq_false_iff.mpr fun hp => hex ⟨j, hj, hp⟩
    rw [pollUntil_fault h hno] at hrun
    cases hrun

end Exec

end Kboot86
