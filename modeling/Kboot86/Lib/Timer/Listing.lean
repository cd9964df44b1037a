import Kboot86.Lib.Timer.Tick

/-!
# What the list and the fields of the timers agree on

`Listing h started e l`: the list is `l`, `in_list` says of every started timer
whether it is in it, the counters of listed timers are not zero, and a started
timer outside the list has no links; the timer `e` is excepted, whose links are
being cleared. Every store of the operations and every tick keep it.
-/

namespace Kboot86.Timer

variable {α : Type}

structure Listing (h : Timers α) (started : α → Bool) (e : Option α) (l : List α) : Prop where
  list : h.IsList l
  isStarted : ∀ t ∈ l, started t = true
  inList : ∀ t, started t = true → (h.inList t = true ↔ t ∈ l)
  counter : ∀ t ∈ l, h.counter t ≠ 0
  initialCounter : ∀ t, started t = true → h.counter t ≠ 0 → h.initialCounter t ≠ 0
  unlinked : ∀ t, started t = true → t ∉ l → e ≠ some t → h.prev t = none ∧ h.next t = none

structure SameTimer (h h' : Timers α) (t : α) : Prop where
  initialCounter : h'.initialCounter t = h.initialCounter t
  counter : h'.counter t = h.counter t
  inList : h'.inList t = h.inList t
  prev : h'.prev t = h.prev t
  next : h'.next t = h.next t

variable [DecidableEq α]

section Same

variable {h : Timers α} {t u : α}

theorem sameTimer_setNext (v : Option α) (hut : u ≠ t) : SameTimer h (h.setNext t v) u :=
  ⟨rfl, rfl, rfl, rfl, Function.update_of_ne hut _ _⟩

theorem sameTimer_setPrev (v : Option α) (hut : u ≠ t) : SameTimer h (h.setPrev t v) u :=
  ⟨rfl, rfl, rfl, Function.update_of_ne hut _ _, rfl⟩

theorem sameTimer_setInList (b : Bool) (hut : u ≠ t) : SameTimer h (h.setInList t b) u :=
  ⟨rfl, rfl, Function.update_of_ne hut _ _, rfl, rfl⟩

theorem sameTimer_setInitialCounter (n : UInt32) (hut : u ≠ t) :
    SameTimer h (h.setInitialCounter t n) u :=
  ⟨Function.update_of_ne hut _ _, rfl, rfl, rfl, rfl⟩

theorem sameTimer_setCounter (n : UInt32) (hut : u ≠ t) : SameTimer h (h.setCounter t n) u :=
  ⟨rfl, Function.update_of_ne hut _ _, rfl, rfl, rfl⟩

end Same

namespace Listing

variable {h h' : Timers α} {started : α → Bool} {e : Option α} {l : List α} {t : α}

theorem forget (H : Listing h started e l) (ht : t ∉ l) :
    Listing h (Function.update started t false) e l := by
  have hne : ∀ u, Function.update started t false u = true → u ≠ t ∧ started u = true := by
    intro u hu
    have hut : u ≠ t := by
      rintro rfl
      rw [Function.update_self] at hu
      cases hu
    rw [Function.update_of_ne hut] at hu
    exact ⟨hut, hu⟩
  refine ⟨H.list, fun u hu => ?_, fun u hu => H.inList u (hne u hu).2, H.counter,
    fun u hu => H.initialCounter u (hne u hu).2, fun u hu => H.unlinked u (hne u hu).2⟩
  rw [Function.update_of_ne fun hut : u = t => ht (hut ▸ hu)]
  exact H.isStarted u hu

omit [DecidableEq α] in
theorem store (H : Listing h started e l) (ht : started t = false) (hhead : h'.head = h.head)
    (hsame : ∀ u, u ≠ t → SameTimer h h' u) : Listing h' started e l := by
  have hne : ∀ u, started u = true → u ≠ t := by
    rintro u hu rfl
    rw [ht] at hu
    cases hu
  have hmem : ∀ u ∈ l, u ≠ t := fun u hu => hne u (H.isStarted u hu)
  constructor
  · exact H.list.congr hhead fun u hu => ⟨(hsame u (hmem u hu)).prev, (hsame u (hmem u hu)).next⟩
  · exact H.isStarted
  · intro u hu
    rw [(hsame u (hne u hu)).inList]
    exact H.inList u hu
  · intro u hu
    rw [(hsame u (hmem u hu)).counter]
    exact H.counter u hu
  · intro u hu
    rw [(hsame u (hne u hu)).counter, (hsame u (hne u hu)).initialCounter]
    exact H.initialCounter u hu
  · intro u hu
    rw [(hsame u (hne u hu)).prev, (hsame u (hne u hu)).next]
    exact H.unlinked u hu

theorem start {n : UInt32} (H : Listing h started e l) (ht : t ∉ l) (hstart : started t = false)
    (hin : h.inList t = false) (hprev : h.prev t = none) (hnext : h.next t = none)
    (hinit : h.initialCounter t = n) :
    Listing (h.setCounter t n) (Function.update started t true) e l := by
  have H' : Listing (h.setCounter t n) started e l :=
    H.store hstart rfl fun u hu => sameTimer_setCounter n hu
  constructor
  · exact H'.list
  · intro u hu
    rw [Function.update_of_ne fun hut : u = t => ht (hut ▸ hu)]
    exact H.isStarted u hu
  · intro u hu
    by_cases hut : u = t
    · subst hut
      simp [hin, ht]
    · rw [Function.update_of_ne hut] at hu
      exact H'.inList u hu
  · exact H'.counter
  · intro u hu hc
    by_cases hut : u = t
    · subst hut
      rw [Timers.setCounter_counter, Function.update_self] at hc
      rwa [Timers.setCounter_initialCounter, hinit]
    · rw [Function.update_of_ne hut] at hu
      exact H'.initialCounter u hu hc
  · intro u hu hul hue
    by_cases hut : u = t
    · subst hut
      exact ⟨hprev, hnext⟩
    · rw [Function.update_of_ne hut] at hu
      exact H'.unlinked u hu hul hue

theorem reset (H : Listing h started e l) (ht : started t = true) :
    Listing (h.setCounter t (h.initialCounter t)) started e l := by
  refine ⟨H.list, H.isStarted, H.inList, fun u hu => ?_, fun u hu hc => ?_, H.unlinked⟩
  · by_cases hut : u = t
    · subst hut
      rw [Timers.setCounter_counter, Function.update_self]
      exact H.initialCounter u ht (H.counter u hu)
    · rw [Timers.setCounter_counter, Function.update_of_ne hut]
      exact H.counter u hu
  · by_cases hut : u = t
    · subst hut
      rwa [Timers.setCounter_counter, Function.update_self] at hc
    · rw [Timers.setCounter_counter, Function.update_of_ne hut] at hc
      exact H.initialCounter u hu hc

theorem link (H : Listing h started e l) (hstart : started t = true) (ht : t ∉ l)
    (hcount : h.counter t ≠ 0) (he : e ≠ some t) : Listing (h.link t) started e (t :: l) := by
  have hprev := (H.unlinked t hstart ht he).1
  constructor
  · exact H.list.push ht hprev
  · intro u hu
    rcases List.mem_cons.mp hu with rfl | hu
    · exact hstart
    · exact H.isStarted u hu
  · intro u hu
    by_cases hut : u = t
    · subst hut
      simp [Timers.link, Timers.setInList]
    · have hin : (h.link t).inList u = h.inList u := Function.update_of_ne hut _ _
      rw [hin, H.inList u hu]
      simp [hut]
  · intro u hu
    rcases List.mem_cons.mp hu with rfl | hu
    · exact hcount
    · exact H.counter u hu
  · exact H.initialCounter
  · intro u hu hul hue
    obtain ⟨hp, hn⟩ := H.list.push_other hul
    have hprev' : (h.link t).prev u = h.prev u := hp
    have hnext' : (h.link t).next u = h.next u := hn
    rw [hprev', hnext']
    exact H.unlinked u hu (fun hmem => hul (List.mem_cons_of_mem _ hmem)) hue

/-- A started timer is taken out, whether or not a tick was faster. -/
theorem unlinkTimer (H : Listing h started none l) (ht : started t = true) :
    Listing (h.unlinkTimer t) started (some t) (l.erase t) := by
  have hin : ∀ u, u ≠ t → (h.unlinkTimer t).inList u = h.inList u := fun u hut =>
    Function.update_of_ne hut _ _
  have hself : (h.unlinkTimer t).inList t = false := Function.update_self _ _ _
  have hnot : t ∉ l.erase t := fun hmem => (H.list.nodup.mem_erase_iff.mp hmem).1 rfl
  constructor
  · by_cases hmem : t ∈ l
    · obtain ⟨x, y, rfl⟩ := List.append_of_mem hmem
      have htx : t ∉ x := fun hx =>
        List.disjoint_of_nodup_append H.list.nodup hx List.mem_cons_self
      rw [List.erase_append_right _ htx, List.erase_cons_head]
      exact H.list.unlink
    · have hhead : h.head ≠ some t := by
        rw [H.list.head_eq]
        exact fun hh => hmem (List.mem_of_head? hh)
      obtain ⟨hp, hn⟩ := H.unlinked t ht hmem (by simp)
      have hlinks : (h.unlinkTimer t).toLinks = h.toLinks := Links.unlink_of_unlinked hp hn hhead
      rw [List.erase_of_not_mem hmem, hlinks]
      exact H.list
  · exact fun u hu => H.isStarted u (List.mem_of_mem_erase hu)
  · intro u hu
    by_cases hut : u = t
    · subst hut
      simp [hself, hnot]
    · rw [hin u hut, H.inList u hu, List.mem_erase_of_ne hut]
  · exact fun u hu => H.counter u (List.mem_of_mem_erase hu)
  · exact H.initialCounter
  · intro u hu hul hue
    have hut : u ≠ t := fun h => hue (by rw [h])
    have hul' : u ∉ l := fun hmem => hul ((List.mem_erase_of_ne hut).mpr hmem)
    obtain ⟨hp, hn⟩ := H.unlinked u hu hul' (by simp)
    by_cases hmem : t ∈ l
    · obtain ⟨hp', hn'⟩ := H.list.unlink_other hmem hul'
      exact ⟨hp'.trans hp, hn'.trans hn⟩
    · have hhead : h.head ≠ some t := by
        rw [H.list.head_eq]
        exact fun hh => hmem (List.mem_of_head? hh)
      obtain ⟨htp, htn⟩ := H.unlinked t ht hmem (by simp)
      have hlinks : (h.unlinkTimer t).toLinks = h.toLinks := Links.unlink_of_unlinked htp htn hhead
      rw [hlinks]
      exact ⟨hp, hn⟩

omit [DecidableEq α] in
/-- Stores to the links of an unlisted timer do not reach the list. -/
theorem clear (H : Listing h started (some t) l) (ht : t ∉ l) (hhead : h'.head = h.head)
    (hsame : ∀ u, u ≠ t → SameTimer h h' u) (hin : h'.inList = h.inList)
    (hcount : h'.counter = h.counter) (hinit : h'.initialCounter = h.initialCounter) :
    Listing h' started (some t) l := by
  have hne : ∀ u ∈ l, u ≠ t := by
    rintro u hu rfl
    exact ht hu
  refine ⟨H.list.congr hhead fun u hu => ⟨(hsame u (hne u hu)).prev, (hsame u (hne u hu)).next⟩,
    H.isStarted, ?_, ?_, ?_, fun u hu hul hue => ?_⟩
  · rw [hin]
    exact H.inList
  · rw [hcount]
    exact H.counter
  · rw [hcount, hinit]
    exact H.initialCounter
  · have hut : u ≠ t := fun h => hue (by rw [h])
    rw [(hsame u hut).prev, (hsame u hut).next]
    exact H.unlinked u hu hul hue

theorem cleared (H : Listing h started (some t) l) (hprev : h.prev t = none)
    (hnext : h.next t = none) : Listing h started none l := by
  refine ⟨H.list, H.isStarted, H.inList, H.counter, H.initialCounter, fun u hu hul _ => ?_⟩
  by_cases hut : u = t
  · subst hut
    exact ⟨hprev, hnext⟩
  · exact H.unlinked u hu hul fun h => hut (Option.some.inj h).symm

end Listing

/-! ### Ticks -/

omit [DecidableEq α] in
theorem ne_one_of_visited_survivor {c : α → UInt32} {l : List α} (hl : l.Nodup) {t : α}
    (hv : t ∈ visited c l) (hs : t ∈ survivors c l) : c t ≠ 1 := by
  induction l with
  | nil => cases hv
  | cons u l ih =>
      obtain ⟨hul, hnodup⟩ := List.nodup_cons.mp hl
      rw [visited] at hv
      rw [survivors] at hs
      by_cases hone : c u = 1
      · rw [if_pos hone] at hv hs
        obtain rfl := List.mem_singleton.mp hv
        exact absurd hs hul
      · rw [if_neg hone] at hv hs
        rcases List.mem_cons.mp hv with rfl | hv
        · exact hone
        · rcases List.mem_cons.mp hs with rfl | hs
          · exact hone
          · exact ih hnodup hv hs

theorem Listing.update {h : Timers α} {started : α → Bool} {e : Option α} {l : List α}
    (H : Listing h started e l) :
    ∃ n h', h.timerListUpdate n = some (h', foundCounters h l) ∧ Ticked h h' [] l :=
  Timers.timerListUpdate_spec H.list fun t ht =>
    ⟨(H.inList t (H.isStarted t ht)).mpr ht, H.counter t ht⟩

theorem Listing.ticked {h h' : Timers α} {started : α → Bool} {e : Option α} {l : List α}
    (H : Listing h started e l) (htick : Ticked h h' [] l) :
    Listing h' started e (survivors h.counter l) := by
  have hsub : ∀ {u}, u ∈ survivors h.counter l → u ∈ l := fun hu =>
    (survivors_sublist _ _).subset hu
  constructor
  · exact htick.list
  · exact fun u hu => H.isStarted u (hsub hu)
  · intro u hu
    by_cases hsur : u ∈ survivors h.counter l
    · rw [htick.inList u (.inr hsur), H.inList u hu]
      exact ⟨fun _ => hsur, fun _ => hsub hsur⟩
    · by_cases hul : u ∈ l
      · rw [(htick.removed u hul hsur).1]
        simp [hsur]
      · rw [htick.inList u (.inl hul), H.inList u hu]
        exact ⟨fun h => absurd h hul, fun h => absurd h hsur⟩
  · intro u hu
    rw [htick.counter]
    split
    next hv => exact fun hc => ne_one_of_visited_survivor H.list.nodup hv hu (sub_eq_zero.mp hc)
    next => exact H.counter u (hsub hu)
  · intro u hu hc
    rw [htick.initialCounter]
    rw [htick.counter] at hc
    split at hc
    next hv => exact H.initialCounter u hu (H.counter u (visited_subset _ _ hv))
    next => exact H.initialCounter u hu hc
  · intro u hu hsur hue
    by_cases hul : u ∈ l
    · exact (htick.removed u hul hsur).2.2
    · obtain ⟨hp, hn⟩ := htick.links u (by simpa using hul)
      rw [hp, hn]
      exact H.unlinked u hu hul hue

end Kboot86.Timer
