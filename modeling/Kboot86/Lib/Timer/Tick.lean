import Kboot86.Lib.Timer.List

/-!
# One tick

What `timer_list_update` does to a well-formed list. The loop decrements the
counters in order and stops after the first timer that it removes, because that
timer has lost its link to the next one; `visited` is what it reaches,
`survivors` the list it leaves.
-/

namespace Kboot86.Timer

variable {α : Type} [DecidableEq α]

def visited (c : α → UInt32) : List α → List α
  | [] => []
  | t :: l => if c t = 1 then [t] else t :: visited c l

def survivors (c : α → UInt32) : List α → List α
  | [] => []
  | t :: l => if c t = 1 then l else t :: survivors c l

omit [DecidableEq α] in
theorem visited_subset (c : α → UInt32) (l : List α) : visited c l ⊆ l := by
  induction l with
  | nil => exact List.Subset.refl _
  | cons t l ih =>
      rw [visited]
      split
      · simp
      · exact List.cons_subset_cons t ih

omit [DecidableEq α] in
theorem survivors_sublist (c : α → UInt32) (l : List α) : (survivors c l).Sublist l := by
  induction l with
  | nil => exact List.Sublist.refl _
  | cons t l ih =>
      rw [survivors]
      split
      · exact List.sublist_cons_self t l
      · exact ih.cons_cons t

omit [DecidableEq α] in
theorem visited_congr {c c' : α → UInt32} {l : List α} (h : ∀ t ∈ l, c' t = c t) :
    visited c' l = visited c l := by
  induction l with
  | nil => rfl
  | cons t l ih =>
      rw [visited, visited, h t (by simp), ih fun u hu => h u (by simp [hu])]

omit [DecidableEq α] in
theorem survivors_congr {c c' : α → UInt32} {l : List α} (h : ∀ t ∈ l, c' t = c t) :
    survivors c' l = survivors c l := by
  induction l with
  | nil => rfl
  | cons t l ih =>
      rw [survivors, survivors, h t (by simp), ih fun u hu => h u (by simp [hu])]

/-- The timers after a tick whose loop starts at the list `y`, with the timers
of `x` before it. -/
structure Ticked (h h' : Timers α) (x y : List α) : Prop where
  list : h'.IsList (x ++ survivors h.counter y)
  initialCounter : h'.initialCounter = h.initialCounter
  counter : ∀ t, h'.counter t = if t ∈ visited h.counter y then h.counter t - 1 else h.counter t
  inList : ∀ t, t ∉ y ∨ t ∈ survivors h.counter y → h'.inList t = h.inList t
  removed : ∀ t ∈ y, t ∉ survivors h.counter y →
    h'.inList t = false ∧ h'.counter t = 0 ∧ h'.prev t = none ∧ h'.next t = none
  links : ∀ t, t ∉ x ++ y → h'.prev t = h.prev t ∧ h'.next t = h.next t

def foundCounters (h : Timers α) (y : List α) : List (α × UInt32) :=
  (visited h.counter y).map fun t => (t, h.counter t)

namespace Timers

theorem ticked_remove {h : Timers α} {x y : List α} {t : α} (hlist : h.IsList (x ++ t :: y))
    (hin : h.inList t = true) (hone : h.counter t = 1) :
    Ticked h ((h.setCounter t (h.counter t - 1)).timerListRemoveTimer t) x (t :: y) := by
  have hnodup := hlist.nodup
  have htx : t ∉ x ++ y := (List.nodup_cons.mp (List.nodup_middle.mp hnodup)).1
  have hty : t ∉ y := fun hmem => htx (List.mem_append_right _ hmem)
  have hunlink := hlist.unlink
  have hvis : visited h.counter (t :: y) = [t] := by rw [visited, if_pos hone]
  have hsur : survivors h.counter (t :: y) = y := by rw [survivors, if_pos hone]
  have hrun : (h.setCounter t (h.counter t - 1)).timerListRemoveTimer t =
      (((h.setCounter t (h.counter t - 1)).unlinkTimer t).setNext t none).setPrev t none := by
    rw [timerListRemoveTimer, if_neg (by simpa [setCounter] using hin)]
  rw [hrun]
  constructor
  · rw [hsur]
    refine hunlink.congr rfl fun u hu => ?_
    have hut : u ≠ t := fun h => htx (h ▸ hu)
    exact ⟨Function.update_of_ne hut _ _, Function.update_of_ne hut _ _⟩
  · rfl
  · intro u
    rw [hvis]
    by_cases hut : u = t
    · subst hut
      rw [if_pos (by simp)]
      exact Function.update_self _ _ _
    · rw [if_neg (by simpa using hut)]
      exact Function.update_of_ne hut _ _
  · intro u hu
    rw [hsur] at hu
    have hut : u ≠ t := by
      rintro rfl
      rcases hu with hu | hu
      · exact hu (by simp)
      · exact hty hu
    exact Function.update_of_ne hut _ _
  · intro u hu hnot
    rw [hsur] at hnot
    obtain rfl : u = t := (List.mem_cons.mp hu).resolve_right hnot
    refine ⟨Function.update_self _ _ _, ?_, Function.update_self _ _ _, Function.update_self _ _ _⟩
    exact (Function.update_self _ _ _).trans (by rw [hone]; rfl)
  · intro u hu
    have hut : u ≠ t := fun h => hu (by simp [h])
    obtain ⟨hp, hn⟩ := hlist.unlink_other (a := t) (by simp) hu
    exact ⟨(Function.update_of_ne hut _ _).trans hp, (Function.update_of_ne hut _ _).trans hn⟩

/-- The loop from the list `y` on, with the timers of `x` before it. -/
theorem timerListUpdateFrom_spec :
    ∀ (y x : List α) (h : Timers α) (log : List (α × UInt32)) (n : Nat), y.length ≤ n →
      h.IsList (x ++ y) → (∀ t ∈ y, h.inList t = true ∧ h.counter t ≠ 0) →
      ∃ h', timerListUpdateFrom n y.head? h log = some (h', log ++ foundCounters h y) ∧
        Ticked h h' x y
  | [], x, h, log, n, _, hlist, _ => by
      refine ⟨h, ?_,
        ⟨hlist, rfl, fun t => by simp [visited], fun t _ => rfl, ?_, fun t _ => ⟨rfl, rfl⟩⟩⟩
      · rw [List.head?_nil, timerListUpdateFrom, foundCounters, visited, List.map_nil,
          List.append_nil]
      · intro t ht
        cases ht
  | t :: y, x, h, log, 0, hn, _, _ => by
      rw [List.length_cons] at hn
      omega
  | t :: y, x, h, log, n + 1, hn, hlist, hcount => by
      rw [List.length_cons] at hn
      obtain ⟨hin, hzero⟩ := hcount t (by simp)
      rw [List.head?_cons, timerListUpdateFrom]
      by_cases hone : h.counter t = 1
      · have htick := ticked_remove hlist hin hone
        have hsur : survivors h.counter (t :: y) = y := by rw [survivors, if_pos hone]
        have hty : t ∉ y := by
          have hnd := List.nodup_middle.mp hlist.nodup
          exact fun hmem => (List.nodup_cons.mp hnd).1 (List.mem_append_right _ hmem)
        have hnext := (htick.removed t (by simp) (by rwa [hsur])).2.2.2
        have hexp : (h.setCounter t (h.counter t - 1)).counter t = 0 := by
          rw [setCounter_counter, Function.update_self, hone]
          rfl
        refine ⟨_, ?_, htick⟩
        simp only [hexp, if_true, hnext]
        rw [timerListUpdateFrom, foundCounters, visited, if_pos hone]
        rfl
      · have hexp : (h.setCounter t (h.counter t - 1)).counter t ≠ 0 := by
          rw [setCounter_counter, Function.update_self]
          exact fun hc => hone (sub_eq_zero.mp hc)
        have hty : t ∉ y := by
          have hnd := List.nodup_middle.mp hlist.nodup
          exact fun hmem => (List.nodup_cons.mp hnd).1 (List.mem_append_right _ hmem)
        have hsame : ∀ u ∈ y, (h.setCounter t (h.counter t - 1)).counter u = h.counter u :=
          fun u hu => Function.update_of_ne (fun h : u = t => hty (h ▸ hu)) _ _
        have hvis : visited h.counter (t :: y) = t :: visited h.counter y := by
          rw [visited, if_neg hone]
        have hsur : survivors h.counter (t :: y) = t :: survivors h.counter y := by
          rw [survivors, if_neg hone]
        have hlist' : (h.setCounter t (h.counter t - 1)).IsList (x ++ [t] ++ y) := by
          rw [List.append_assoc]
          exact hlist
        obtain ⟨h', hrun, htick⟩ := timerListUpdateFrom_spec y (x ++ [t])
          (h.setCounter t (h.counter t - 1)) (log ++ [(t, h.counter t)]) n (by omega) hlist'
          fun u hu => by
            rw [hsame u hu]
            exact hcount u (by simp [hu])
        refine ⟨h', ?_, ?_⟩
        · simp only [hexp, if_false]
          rw [setCounter_toLinks, hlist.next_eq, hrun, foundCounters, foundCounters,
            visited_congr hsame, hvis, List.map_cons, List.append_assoc, List.singleton_append]
          congr 4
          refine List.map_congr_left fun u hu => ?_
          rw [hsame u (visited_subset _ _ hu)]
        · constructor
          · have := htick.list
            rwa [survivors_congr hsame, List.append_assoc, List.singleton_append, ← hsur] at this
          · rw [htick.initialCounter, setCounter_initialCounter]
          · intro u
            rw [htick.counter, visited_congr hsame, hvis, setCounter_counter]
            by_cases hut : u = t
            · subst hut
              have hnot : u ∉ visited h.counter y := fun hu => hty (visited_subset _ _ hu)
              rw [if_neg hnot, if_pos (by simp), Function.update_self]
            · rw [Function.update_of_ne hut]
              simp [hut]
          · intro u hu
            rw [hsur] at hu
            rw [htick.inList, setCounter_inList]
            rw [survivors_congr hsame]
            simp only [List.mem_cons, not_or] at hu
            rcases hu with hu | rfl | hu
            · exact .inl hu.2
            · exact .inl hty
            · exact .inr hu
          · intro u hu hnot
            rw [hsur, List.mem_cons, not_or] at hnot
            exact htick.removed u ((List.mem_cons.mp hu).resolve_left hnot.1)
              (by rw [survivors_congr hsame]; exact hnot.2)
          · intro u hu
            exact htick.links u (by simpa using hu)

theorem timerListUpdate_spec {h : Timers α} {l : List α} (hlist : h.IsList l)
    (hcount : ∀ t ∈ l, h.inList t = true ∧ h.counter t ≠ 0) :
    ∃ n h', timerListUpdate n h = some (h', foundCounters h l) ∧ Ticked h h' [] l := by
  obtain ⟨h', hrun, htick⟩ :=
    timerListUpdateFrom_spec l [] h [] l.length (Nat.le_refl _) hlist hcount
  rw [← hlist.head_eq] at hrun
  exact ⟨l.length, h', hrun, htick⟩

/-- More iterations allowed make no difference. -/
theorem timerListUpdateFrom_unique {n m : Nat} {p : Option α} {h : Timers α}
    {log : List (α × UInt32)} {r r' : Timers α × List (α × UInt32)}
    (hr : timerListUpdateFrom n p h log = some r) (hr' : timerListUpdateFrom m p h log = some r') :
    r = r' := by
  induction n generalizing m p h log with
  | zero =>
      cases p with
      | none =>
          rw [timerListUpdateFrom] at hr hr'
          exact Option.some.inj (hr.symm.trans hr')
      | some t => cases hr
  | succ n ih =>
      cases p with
      | none =>
          rw [timerListUpdateFrom] at hr hr'
          exact Option.some.inj (hr.symm.trans hr')
      | some t =>
          cases m with
          | zero => cases hr'
          | succ m =>
              rw [timerListUpdateFrom] at hr hr'
              exact ih hr hr'

end Timers

end Kboot86.Timer
