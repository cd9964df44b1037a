import Mathlib.Logic.Function.Basic
import Mathlib.Data.List.Induction

/-!
# A table that is overwritten

After a list of writes a slot of a table holds the value of the last write to
it, and what was there before if there was none.
-/

namespace Kboot86

variable {ι α : Type*} [DecidableEq ι]

def overwrite (t : ι → α) (ws : List (ι × α)) : ι → α :=
  ws.foldl (fun t w => Function.update t w.1 w.2) t

def lastWrite (ws : List (ι × α)) (i : ι) : Option α :=
  ws.foldl (fun a w => if w.1 = i then some w.2 else a) none

theorem lastWrite_snoc (ws : List (ι × α)) (w : ι × α) (i : ι) :
    lastWrite (ws ++ [w]) i = if w.1 = i then some w.2 else lastWrite ws i :=
  List.foldl_append

theorem overwrite_apply (t : ι → α) (ws : List (ι × α)) (i : ι) :
    overwrite t ws i = (lastWrite ws i).getD (t i) := by
  induction ws using List.reverseRecOn with
  | nil => rfl
  | append_singleton ws w ih =>
      have hsnoc : overwrite t (ws ++ [w]) = Function.update (overwrite t ws) w.1 w.2 :=
        List.foldl_append
      rw [hsnoc, lastWrite_snoc]
      by_cases hi : w.1 = i
      · rw [if_pos hi, ← hi, Function.update_self, Option.getD_some]
      · rw [if_neg hi, Function.update_of_ne (Ne.symm hi), ih]

theorem lastWrite_eq_none_iff {ws : List (ι × α)} {i : ι} :
    lastWrite ws i = none ↔ ∀ w ∈ ws, w.1 ≠ i := by
  induction ws using List.reverseRecOn with
  | nil => exact iff_of_true rfl fun w hw => absurd hw List.not_mem_nil
  | append_singleton ws w ih =>
      rw [lastWrite_snoc]
      by_cases hi : w.1 = i
      · rw [if_pos hi]
        exact iff_of_false (Option.some_ne_none _) fun h => h w (by simp) hi
      · rw [if_neg hi, ih]
        simp [or_imp, forall_and, hi]

theorem lastWrite_map {β γ : Type*} (key : γ → ι) (val : γ → β) (f : β → α) (ws : List γ) (i : ι) :
    lastWrite (ws.map fun w => (key w, f (val w))) i =
      (lastWrite (ws.map fun w => (key w, val w)) i).map f := by
  induction ws using List.reverseRecOn with
  | nil => rfl
  | append_singleton ws w ih =>
      rw [List.map_append, List.map_append, List.map_singleton, List.map_singleton,
        lastWrite_snoc, lastWrite_snoc, ih]
      split <;> rfl

end Kboot86
