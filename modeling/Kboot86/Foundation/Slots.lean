import Mathlib.Data.List.FinRange
import Mathlib.Logic.Function.Basic

/-!
# A table of slots as a finite map

A table has `N` slots, each with a record that has a key or is free. When no
two slots have the same key, the table is a partial map from keys to records:
`find` searches the slots in their order and `get` is the map. Writing a record
to the slot of its key, or to a free slot when its key is not there, keeps the
keys distinct and updates the map at that key alone.
-/

namespace Kboot86.Slots

variable {N : Nat} {κ ρ : Type*} [DecidableEq κ] {key : ρ → Option κ} {t : Fin N → ρ}

def find (key : ρ → Option κ) (t : Fin N → ρ) (k : κ) : Option (Fin N) :=
  (List.finRange N).find? fun i => decide (key (t i) = some k)

def get (key : ρ → Option κ) (t : Fin N → ρ) (k : κ) : Option ρ := (find key t k).map t

def Distinct (key : ρ → Option κ) (t : Fin N → ρ) : Prop :=
  ∀ i j k, key (t i) = some k → key (t j) = some k → i = j

theorem key_of_find {k : κ} {i : Fin N} (h : find key t k = some i) : key (t i) = some k := by
  have hi := List.find?_some h
  rwa [decide_eq_true_eq] at hi

theorem find_eq_none_iff {k : κ} : find key t k = none ↔ ∀ i, key (t i) ≠ some k := by
  rw [find, List.find?_eq_none]
  constructor
  · intro h i hi
    exact h i (List.mem_finRange i) (decide_eq_true hi)
  · intro h i _ hi
    exact h i (of_decide_eq_true hi)

/-- With distinct keys the search finds the slot that has the key. -/
theorem Distinct.find_eq (h : Distinct key t) {k : κ} {i : Fin N} (hi : key (t i) = some k) :
    find key t k = some i := by
  cases hfind : find key t k with
  | none => exact absurd hi (find_eq_none_iff.mp hfind i)
  | some j => rw [h j i k (key_of_find hfind) hi]

theorem Distinct.get_eq (h : Distinct key t) {k : κ} {i : Fin N} (hi : key (t i) = some k) :
    get key t k = some (t i) := by
  rw [get, h.find_eq hi, Option.map_some]

theorem get_eq_none_iff {k : κ} : get key t k = none ↔ ∀ i, key (t i) ≠ some k := by
  rw [get, Option.map_eq_none_iff, find_eq_none_iff]

/-- The slot may take a record with the key `k`: it has the key, or it is free
and no slot has it. -/
def Fits (key : ρ → Option κ) (t : Fin N → ρ) (i : Fin N) (k : κ) : Prop :=
  key (t i) = some k ∨ key (t i) = none ∧ find key t k = none

variable {i : Fin N} {k : κ} {r : ρ}

theorem Fits.ne (h : Distinct key t) (hfits : Fits key t i k) {j : Fin N}
    (hj : key (t j) = some k) : j = i := by
  rcases hfits with hi | ⟨-, hno⟩
  · exact h j i k hj hi
  · exact absurd hj (find_eq_none_iff.mp hno j)

theorem Distinct.update (h : Distinct key t) (hfits : Fits key t i k) (hr : key r = some k) :
    Distinct key (Function.update t i r) := by
  intro a b l ha hb
  by_cases hai : a = i
  · by_cases hbi : b = i
    · rw [hai, hbi]
    · rw [hai, Function.update_self, hr] at ha
      rw [Function.update_of_ne hbi, ← ha] at hb
      exact absurd (hfits.ne h hb) hbi
  · rw [Function.update_of_ne hai] at ha
    by_cases hbi : b = i
    · rw [hbi, Function.update_self, hr] at hb
      rw [← hb] at ha
      exact absurd (hfits.ne h ha) hai
    · rw [Function.update_of_ne hbi] at hb
      exact h a b l ha hb

/-- The map after the write. -/
theorem Distinct.get_update (h : Distinct key t) (hfits : Fits key t i k) (hr : key r = some k) :
    get key (Function.update t i r) = Function.update (get key t) k (some r) := by
  have hnew := h.update hfits hr
  funext l
  by_cases hl : l = k
  · subst hl
    have hi : key (Function.update t i r i) = some l := by rw [Function.update_self, hr]
    rw [hnew.get_eq hi, Function.update_self, Function.update_self]
  rw [Function.update_of_ne hl]
  cases hget : find key t l with
  | none =>
      have hnone : get key t l = none := by rw [get, hget, Option.map_none]
      rw [hnone, get_eq_none_iff]
      intro j hj
      by_cases hji : j = i
      · rw [hji, Function.update_self, hr] at hj
        exact hl (Option.some.inj hj).symm
      · rw [Function.update_of_ne hji] at hj
        exact find_eq_none_iff.mp hget j hj
  | some j =>
      have hj := key_of_find hget
      have hji : j ≠ i := fun hji => by
        subst hji
        rcases hfits with hi | ⟨hi, -⟩
        · exact hl (Option.some.inj (hj.symm.trans hi))
        · rw [hi] at hj
          cases hj
      have hj' : key (Function.update t i r j) = some l := by
        rw [Function.update_of_ne hji, hj]
      rw [hnew.get_eq hj', h.get_eq hj, Function.update_of_ne hji]

end Kboot86.Slots
