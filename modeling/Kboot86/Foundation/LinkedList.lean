import Mathlib.Data.List.Nodup
import Mathlib.Logic.Function.Basic

/-!
# Doubly linked lists in a heap

`Links` is the head pointer and the two link fields of every node of a heap;
`IsList K l` says that the nodes of `l`, in this order, are what the links lead
through from the head, in both directions. A list is finite, without
duplicates and determined by the links. `push` puts a node in front, `unlink`
takes one out, each with the stores that such code makes, and both leave the
links of all other nodes alone but those of the neighbours.
-/

namespace Kboot86

/-- The head of a list and the link fields of every node. -/
structure Links (α : Type*) where
  head : Option α
  prev : α → Option α
  next : α → Option α

namespace Links

variable {α : Type*}

/-- From the pointer `h`, whose predecessor is `p`, the links lead through the
nodes of `l` to the pointer `e`, whose predecessor is `q`. -/
def Segment (K : Links α) (p h : Option α) : List α → Option α → Option α → Prop
  | [], q, e => h = e ∧ p = q
  | a :: l, q, e => h = some a ∧ K.prev a = p ∧ K.Segment (some a) (K.next a) l q e

def IsList (K : Links α) (l : List α) : Prop := ∃ q, K.Segment none K.head l q none

theorem segment_append {K : Links α} {p h q e : Option α} {x y : List α} :
    K.Segment p h (x ++ y) q e ↔
      ∃ q' e', K.Segment p h x q' e' ∧ K.Segment q' e' y q e := by
  induction x generalizing p h with
  | nil =>
      constructor
      · intro hy
        exact ⟨p, h, ⟨rfl, rfl⟩, hy⟩
      · rintro ⟨q', e', ⟨rfl, rfl⟩, hy⟩
        exact hy
  | cons a x ih =>
      constructor
      · rintro ⟨hh, hp, hrest⟩
        obtain ⟨q', e', hx, hy⟩ := ih.mp hrest
        exact ⟨q', e', ⟨hh, hp, hx⟩, hy⟩
      · rintro ⟨q', e', ⟨hh, hp, hx⟩, hy⟩
        exact ⟨hh, hp, ih.mpr ⟨q', e', hx, hy⟩⟩

/-- A segment depends on the links of its own nodes only. -/
theorem Segment.congr {K K' : Links α} {p h q e : Option α} {l : List α}
    (hl : K.Segment p h l q e)
    (hsame : ∀ a ∈ l, K'.prev a = K.prev a ∧ K'.next a = K.next a) :
    K'.Segment p h l q e := by
  induction l generalizing p h with
  | nil => exact hl
  | cons a l ih =>
      rcases hl with ⟨hh, hp, hrest⟩
      obtain ⟨hprev, hnext⟩ := hsame a (by simp)
      refine ⟨hh, hprev.trans hp, ?_⟩
      rw [hnext]
      exact ih hrest fun b hb => hsame b (by simp [hb])

/-- Links that lead to the end determine the nodes on the way. -/
theorem Segment.unique {K : Links α} {p p' h q q' : Option α} {l l' : List α}
    (hl : K.Segment p h l q none) (hl' : K.Segment p' h l' q' none) : l = l' := by
  induction l generalizing p p' h l' with
  | nil =>
      rcases hl with ⟨rfl, -⟩
      cases l' with
      | nil => rfl
      | cons a l' => cases hl'.1
  | cons a l ih =>
      rcases hl with ⟨rfl, -, hrest⟩
      cases l' with
      | nil => cases hl'.1
      | cons b l' =>
          rcases hl' with ⟨hb, -, hrest'⟩
          obtain rfl := Option.some.inj hb
          rw [ih hrest hrest']

theorem Segment.last_eq {K : Links α} {p h q e : Option α} {l : List α}
    (hl : K.Segment p h l q e) : q = l.getLast?.or p := by
  induction l generalizing p h with
  | nil => exact hl.2.symm
  | cons a l ih =>
      rw [ih hl.2.2, List.getLast?_cons]
      cases l.getLast? <;> rfl

/-- A node cannot come again: the rest would be as long as itself. -/
theorem Segment.nodup {K : Links α} {p h q : Option α} {l : List α}
    (hl : K.Segment p h l q none) : l.Nodup := by
  induction l generalizing p h with
  | nil => exact List.nodup_nil
  | cons a l ih =>
      rcases hl with ⟨-, -, hrest⟩
      refine List.nodup_cons.mpr ⟨fun hmem => ?_, ih hrest⟩
      obtain ⟨x, y, rfl⟩ := List.append_of_mem hmem
      obtain ⟨q', e', -, hay⟩ := segment_append.mp hrest
      rcases hay with ⟨rfl, -, hy⟩
      have hlen := congrArg List.length (hrest.unique hy)
      rw [List.length_append, List.length_cons] at hlen
      omega

namespace IsList

variable {K : Links α} {l l' : List α}

theorem nodup (h : K.IsList l) : l.Nodup := h.choose_spec.nodup

theorem unique (h : K.IsList l) (h' : K.IsList l') : l = l' := by
  rcases h with ⟨q, hq⟩
  rcases h' with ⟨q', hq'⟩
  exact hq.unique hq'

theorem congr {K' : Links α} (h : K.IsList l) (hhead : K'.head = K.head)
    (hsame : ∀ a ∈ l, K'.prev a = K.prev a ∧ K'.next a = K.next a) : K'.IsList l := by
  rcases h with ⟨q, hq⟩
  exact ⟨q, by rw [hhead]; exact hq.congr hsame⟩

theorem head_eq (h : K.IsList l) : K.head = l.head? := by
  rcases h with ⟨q, hq⟩
  cases l with
  | nil => exact hq.1
  | cons a l => exact hq.1

theorem next_eq {x y : List α} {a : α} (h : K.IsList (x ++ a :: y)) : K.next a = y.head? := by
  rcases h with ⟨q, hq⟩
  obtain ⟨q', e', -, ha⟩ := segment_append.mp hq
  cases y with
  | nil => exact ha.2.2.1
  | cons b y => exact ha.2.2.1

theorem next_mem (h : K.IsList l) {a b : α} (ha : a ∈ l) (hb : K.next a = some b) : b ∈ l := by
  obtain ⟨x, y, rfl⟩ := List.append_of_mem ha
  rw [h.next_eq] at hb
  exact List.mem_append_right _ (List.mem_cons_of_mem _ (List.mem_of_head? hb))

theorem prev_eq {x y : List α} {a : α} (h : K.IsList (x ++ a :: y)) :
    K.prev a = x.getLast? := by
  rcases h with ⟨q, hq⟩
  obtain ⟨p, e, hx, -, hp, -⟩ := segment_append.mp hq
  rw [hp, hx.last_eq, Option.or_none]

theorem prev_mem (h : K.IsList l) {a b : α} (ha : a ∈ l) (hb : K.prev a = some b) : b ∈ l := by
  obtain ⟨x, y, rfl⟩ := List.append_of_mem ha
  rw [h.prev_eq] at hb
  exact List.mem_append_left _ (List.mem_of_getLast? hb)

theorem next_iff_prev (h : K.IsList l) {a b : α} (ha : a ∈ l) (hb : b ∈ l) :
    K.next a = some b ↔ K.prev b = some a := by
  constructor
  · intro hnext
    obtain ⟨x, y, rfl⟩ := List.append_of_mem ha
    rw [h.next_eq] at hnext
    obtain ⟨y', rfl⟩ := List.head?_eq_some_iff.mp hnext
    rw [List.append_cons] at h
    rw [h.prev_eq, List.getLast?_concat]
  · intro hprev
    obtain ⟨x, y, rfl⟩ := List.append_of_mem hb
    rw [h.prev_eq] at hprev
    obtain ⟨x', rfl⟩ := List.getLast?_eq_some_iff.mp hprev
    rw [List.append_assoc, List.singleton_append] at h
    rw [h.next_eq, List.head?_cons]

theorem prev_head (h : K.IsList l) {a : α} (ha : K.head = some a) : K.prev a = none := by
  rcases h with ⟨q, hq⟩
  cases l with
  | nil =>
      rw [hq.1] at ha
      cases ha
  | cons b l =>
      rcases hq with ⟨hb, hp, -⟩
      obtain rfl : b = a := Option.some.inj (hb.symm.trans ha)
      exact hp

end IsList

/-! ### Stores -/

variable [DecidableEq α]

def setPrev (K : Links α) (a : α) (v : Option α) : Links α :=
  { K with prev := Function.update K.prev a v }

def setNext (K : Links α) (a : α) (v : Option α) : Links α :=
  { K with next := Function.update K.next a v }

def setHead (K : Links α) (v : Option α) : Links α := { K with head := v }

/-- A store through a pointer, unless it is null. -/
def setPrevOf (K : Links α) (p : Option α) (v : Option α) : Links α :=
  match p with
  | none => K
  | some a => K.setPrev a v

def setNextOf (K : Links α) (p : Option α) (v : Option α) : Links α :=
  match p with
  | none => K
  | some a => K.setNext a v

@[simp] theorem setPrevOf_next (K : Links α) (p v : Option α) :
    (K.setPrevOf p v).next = K.next := by cases p <;> rfl

@[simp] theorem setNextOf_prev (K : Links α) (p v : Option α) :
    (K.setNextOf p v).prev = K.prev := by cases p <;> rfl

theorem setPrevOf_prev_of_ne {K : Links α} {p v : Option α} {a : α} (h : p ≠ some a) :
    (K.setPrevOf p v).prev a = K.prev a := by
  cases p with
  | none => rfl
  | some b => exact Function.update_of_ne (fun hab => h (by rw [hab])) _ _

theorem setNextOf_next_of_ne {K : Links α} {p v : Option α} {a : α} (h : p ≠ some a) :
    (K.setNextOf p v).next a = K.next a := by
  cases p with
  | none => rfl
  | some b => exact Function.update_of_ne (fun hab => h (by rw [hab])) _ _

theorem setNextOf_next_self (K : Links α) (p : Option α) (a : α) :
    (K.setNextOf p (K.next a)).next a = K.next a := by
  by_cases h : p = some a
  · rw [h]
    exact Function.update_self _ _ _
  · exact setNextOf_next_of_ne h

namespace Segment

variable {K : Links α} {p h q e v : Option α} {a : α} {l : List α}

theorem setPrev_of_notMem (hl : K.Segment p h l q e) (ha : a ∉ l) :
    (K.setPrev a v).Segment p h l q e := by
  refine hl.congr fun b hb => ⟨?_, rfl⟩
  exact Function.update_of_ne (fun h : b = a => ha (h ▸ hb)) _ _

theorem setNext_of_notMem (hl : K.Segment p h l q e) (ha : a ∉ l) :
    (K.setNext a v).Segment p h l q e := by
  refine hl.congr fun b hb => ⟨rfl, ?_⟩
  exact Function.update_of_ne (fun h : b = a => ha (h ▸ hb)) _ _

omit [DecidableEq α] in
theorem setHead (hl : K.Segment p h l q e) : (K.setHead v).Segment p h l q e :=
  hl.congr fun _ _ => ⟨rfl, rfl⟩

theorem setPrev_first (hl : K.Segment p h (a :: l) q e) (ha : a ∉ l) :
    (K.setPrev a v).Segment v (some a) (a :: l) q e :=
  ⟨rfl, Function.update_self _ _ _, hl.2.2.setPrev_of_notMem ha⟩

theorem setNext_last {x : List α} (hl : K.Segment p h (x ++ [a]) q e) (ha : a ∉ x) :
    (K.setNext a v).Segment p h (x ++ [a]) q v := by
  obtain ⟨q', e', hx, he, hp, -, hq⟩ := segment_append.mp hl
  exact segment_append.mpr ⟨q', e', hx.setNext_of_notMem ha, he, hp,
    Function.update_self _ _ _, hq⟩

end Segment

/-! ### Putting a node in front -/

def push (K : Links α) (a : α) : Links α :=
  let K := K.setNext a K.head
  let K := K.setPrevOf K.head (some a)
  K.setHead (some a)

theorem IsList.push {K : Links α} {l : List α} {a : α} (h : K.IsList l) (ha : a ∉ l)
    (hprev : K.prev a = none) : (K.push a).IsList (a :: l) := by
  have hnodup := h.nodup
  rcases h with ⟨q, hq⟩
  cases l with
  | nil =>
      have hhead : K.head = none := hq.1
      exact ⟨some a, by simp [Links.push, Segment, setNext, Links.setHead, setPrevOf, hhead, hprev]⟩
  | cons b l =>
      have hhead : K.head = some b := hq.1
      have hba : b ≠ a := fun h => ha (by simp [h])
      have hpush : K.push a = ((K.setNext a (some b)).setPrev b (some a)).setHead (some a) := by
        simp [Links.push, setNext, setPrevOf, hhead]
      have hnext : (K.push a).next a = some b := by
        rw [hpush]
        exact Function.update_self _ _ _
      have hprev' : (K.push a).prev a = none := by
        rw [hpush]
        exact (Function.update_of_ne hba.symm _ _).trans hprev
      refine ⟨q, ?_, hprev', ?_⟩
      · rw [hpush]
        rfl
      · rw [hnext, hpush]
        exact ((hq.setNext_of_notMem ha).setPrev_first (List.nodup_cons.mp hnodup).1).setHead

/-! ### Reading forwards

A program that walks the list reads the pointers in one direction only. -/

/-- From the pointer `h` the pointers to the next nodes lead through the nodes
of `l` to the pointer `e`. -/
def Leads (K : Links α) (h : Option α) : List α → Option α → Prop
  | [], e => h = e
  | a :: l, e => h = some a ∧ K.Leads (K.next a) l e

omit [DecidableEq α] in
theorem Segment.leads {K : Links α} {p h q e : Option α} {l : List α}
    (hl : K.Segment p h l q e) : K.Leads h l e := by
  induction l generalizing p h with
  | nil => exact hl.1
  | cons a l ih => exact ⟨hl.1, ih hl.2.2⟩

namespace Leads

variable {K : Links α} {h e : Option α} {x y l : List α}

omit [DecidableEq α] in
theorem congr {K' : Links α} (hl : K.Leads h l e) (hsame : ∀ a ∈ l, K'.next a = K.next a) :
    K'.Leads h l e := by
  induction l generalizing h with
  | nil => exact hl
  | cons a l ih =>
      refine ⟨hl.1, ?_⟩
      rw [hsame a (by simp)]
      exact ih hl.2 fun b hb => hsame b (by simp [hb])

omit [DecidableEq α] in
/-- A walk to the end begins with every other walk. -/
theorem drop (hx : K.Leads h x e) (hl : K.Leads h l none) :
    ∃ y, l = x ++ y ∧ K.Leads e y none := by
  induction x generalizing h l with
  | nil =>
      obtain rfl : h = e := hx
      exact ⟨l, rfl, hl⟩
  | cons a x ih =>
      obtain ⟨rfl, hx⟩ := hx
      cases l with
      | nil => cases hl
      | cons b l =>
          obtain ⟨hb, hl⟩ := hl
          obtain rfl := Option.some.inj hb
          obtain ⟨y, rfl, hy⟩ := ih hx hl
          exact ⟨y, rfl, hy⟩

omit [DecidableEq α] in
theorem unique (hx : K.Leads h x none) (hl : K.Leads h l none) : l = x := by
  obtain ⟨y, rfl, hy⟩ := hx.drop hl
  cases y with
  | nil => exact List.append_nil x
  | cons a y => cases hy.1

omit [DecidableEq α] in
/-- Pointers that come back to where they started never come to the end. -/
theorem acyclic (hx : K.Leads h x h) (hl : K.Leads h l none) : x = [] := by
  obtain ⟨y, rfl, hy⟩ := hx.drop hl
  have hlen := congrArg List.length (hy.unique hl)
  rw [List.length_append] at hlen
  exact List.length_eq_zero_iff.mp (by omega)

end Leads

/-- Putting a node in front that is in the list makes the links go round. -/
theorem IsList.leads_cycle {K K' : Links α} {x y : List α} {a : α} (h : K.IsList (x ++ a :: y))
    (hnext : K'.next = Function.update K.next a K.head) : K'.Leads (some a) (a :: x) (some a) := by
  have hax : a ∉ x := fun hmem =>
    List.disjoint_of_nodup_append h.nodup hmem List.mem_cons_self
  obtain ⟨q, hq⟩ := h
  obtain ⟨q', e', hx, rfl, -, -⟩ := segment_append.mp hq
  refine ⟨rfl, ?_⟩
  rw [hnext, Function.update_self]
  refine hx.leads.congr fun b hb => ?_
  rw [hnext]
  exact Function.update_of_ne (fun h : b = a => hax (h ▸ hb)) _ _

/-! ### Taking a node out -/

def unlink (K : Links α) (a : α) : Links α :=
  let K := K.setNextOf (K.prev a) (K.next a)
  let K := K.setPrevOf (K.next a) (K.prev a)
  if K.head = some a then K.setHead (K.next a) else K

theorem IsList.unlink {K : Links α} {x y : List α} {a : α} (h : K.IsList (x ++ a :: y)) :
    (K.unlink a).IsList (x ++ y) := by
  have hnodup := h.nodup
  have hxy : ∀ b ∈ y, b ∉ x := fun b hb hbx =>
    List.disjoint_of_nodup_append hnodup hbx (List.mem_cons_of_mem _ hb)
  have hax : a ∉ x := fun hmem =>
    List.disjoint_of_nodup_append hnodup hmem List.mem_cons_self
  have hnodup' := (List.nodup_append.mp hnodup).2.1
  have hay := (List.nodup_cons.mp hnodup').1
  have hcy := (List.nodup_cons.mp hnodup').2
  have hheadEq := h.head_eq
  rcases h with ⟨q, hq⟩
  obtain ⟨p, e, hx, rfl, hp, hy⟩ := segment_append.mp hq
  rcases List.eq_nil_or_concat x with rfl | ⟨x', b, rfl⟩
  · rcases hx with ⟨hhead, rfl⟩
    cases y with
    | nil =>
        have hnext : K.next a = none := hy.1
        have hun : K.unlink a = K.setHead none := by
          simp [Links.unlink, setNextOf, setPrevOf, hp, hnext, hhead]
        exact ⟨none, by rw [hun]; exact ⟨rfl, rfl⟩⟩
    | cons c y =>
        have hnext : K.next a = some c := hy.1
        have hun : K.unlink a = (K.setPrev c none).setHead (some c) := by
          simp [Links.unlink, setNextOf, setPrevOf, hp, hnext, hhead, setPrev]
        refine ⟨q, ?_⟩
        rw [hun]
        exact (hy.setPrev_first (List.nodup_cons.mp hcy).1).setHead
  · rw [List.concat_eq_append] at *
    have hb : b ∉ x' := by
      have hnd := (List.nodup_append.mp hnodup).1
      exact fun hmem => List.disjoint_of_nodup_append hnd hmem (by simp)
    have hab : a ≠ b := fun h => hax (by simp [h])
    have hpb : p = some b := by
      obtain ⟨-, -, -, -, -, -, hlast⟩ := segment_append.mp hx
      exact hlast.symm
    have hhead : K.head ≠ some a := by
      rw [hheadEq]
      cases x' with
      | nil => simpa using hab.symm
      | cons d x' =>
          intro h
          exact hax (by simp [Option.some.inj h])
    rw [hpb] at hp
    have hlast := hx.setNext_last (v := K.next a) hb
    cases y with
    | nil =>
        have hnext : K.next a = none := hy.1
        have hun : K.unlink a = K.setNext b none := by
          simp [Links.unlink, setNextOf, setPrevOf, hp, hnext, hhead, setNext, hab]
        refine ⟨p, ?_⟩
        rw [hnext] at hlast
        rw [hun, List.append_nil]
        exact hlast
    | cons c y =>
        have hnext : K.next a = some c := hy.1
        have hun : K.unlink a = (K.setNext b (some c)).setPrev c (some b) := by
          simp [Links.unlink, setNextOf, setPrevOf, hp, hnext, hhead, setNext, setPrev, hab]
        have hby : b ∉ c :: y := fun hmem => hxy b hmem (by simp)
        have hcx := hxy c (by simp)
        rw [hnext] at hlast hy
        rw [hpb] at hlast
        refine ⟨q, ?_⟩
        rw [hun]
        exact segment_append.mpr ⟨some b, some c, hlast.setPrev_of_notMem hcx,
          (hy.setNext_of_notMem hby).setPrev_first (List.nodup_cons.mp hcy).1⟩

/-- A node without links that is not the head can be taken out of no list. -/
theorem unlink_of_unlinked {K : Links α} {a : α} (hprev : K.prev a = none)
    (hnext : K.next a = none) (hhead : K.head ≠ some a) : K.unlink a = K := by
  simp [unlink, setNextOf, setPrevOf, hprev, hnext, hhead]

theorem IsList.unlink_other {K : Links α} {l : List α} {a b : α} (h : K.IsList l) (ha : a ∈ l)
    (hb : b ∉ l) : (K.unlink a).prev b = K.prev b ∧ (K.unlink a).next b = K.next b := by
  have hp : K.prev a ≠ some b := fun hp => hb (h.prev_mem ha hp)
  have hn : K.next a ≠ some b := fun hn => hb (h.next_mem ha hn)
  have hhead : ∀ K' : Links α,
      (if K'.head = some a then K'.setHead (K'.next a) else K').prev = K'.prev ∧
        (if K'.head = some a then K'.setHead (K'.next a) else K').next = K'.next := by
    intro K'
    split <;> exact ⟨rfl, rfl⟩
  unfold Links.unlink
  dsimp only
  rw [(hhead _).1, (hhead _).2, setNextOf_next_self, setPrevOf_prev_of_ne hn, setPrevOf_next,
    setNextOf_prev, setNextOf_next_of_ne hp]
  exact ⟨rfl, rfl⟩

theorem IsList.push_other {K : Links α} {l : List α} {a b : α} (h : K.IsList l)
    (hb : b ∉ a :: l) : (K.push a).prev b = K.prev b ∧ (K.push a).next b = K.next b := by
  have hba : b ≠ a := fun h => hb (by simp [h])
  have hhead := h.head_eq
  cases l with
  | nil =>
      have hnone : K.head = none := hhead
      simp [Links.push, setNext, setHead, setPrevOf, hnone, hba]
  | cons c l =>
      have hsome : K.head = some c := hhead
      have hbc : b ≠ c := fun h => hb (by simp [h])
      simp [Links.push, setNext, setPrev, setHead, setPrevOf, hsome, hba, hbc]

end Links

end Kboot86
