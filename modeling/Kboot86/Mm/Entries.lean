import Kboot86.Mm.MapEffect

/-!
# What the present entries of the two levels hold

Every call writes at most one page table entry, with the fields that
`page_tables_set_entry` sets, and at most one directory entry, with those of
`page_dir_set_entry`. A property of the entries that a call may write is
therefore a property of all present entries after any sequence of calls;
`everyPte_of_run` says so once, for the frames and for the flags.

The frames are usable memory except for the three addresses that pass the
1024-byte alignment test and wrap in the bound test.
-/

namespace Kboot86

def EveryPte (P : PageEntry → Prop) (t : Tables) : Prop :=
  ∀ a i, (t.pageTables a i).present = true → P (t.pageTables a i)

section

variable {L : Layout} {t : Tables} {P : PageEntry → Prop}

theorem EveryPte.setPte (h : EveryPte P t) (a : Fin 5) (i : Fin 1024) {e : PageEntry}
    (he : e.present = true → P e) : EveryPte P (t.setPte a i e) := by
  intro b j hp
  rw [Tables.setPte_pageTables] at hp ⊢
  by_cases hslot : b = a ∧ j = i
  · rw [if_pos hslot] at hp ⊢
    exact he hp
  · rw [if_neg hslot] at hp ⊢
    exact h b j hp

theorem EveryPte.withPde (h : EveryPte P t) (v : UInt32) : EveryPte P (t.withPde L v) := by
  intro a i hp
  rw [Tables.withPde_pageTables] at hp ⊢
  exact h a i hp

theorem EveryPte.pagingMap (h : EveryPte P t) {v p : UInt32} {w : Bool}
    (hP : mapAccepts v p = true → ∀ old, P (pteOf old p w)) :
    EveryPte P (pagingMap L t v p w).1 := by
  cases hacc : mapAccepts v p with
  | false => rw [pagingMap_of_not_accepts L t w hacc]; exact h
  | true =>
      rw [pagingMap_of_accepts L t w hacc]
      exact (h.withPde v).setPte _ _ fun _ => hP hacc _

theorem EveryPte.pagingUnmap (hinv : TablesInv L t) (h : EveryPte P t) (v : UInt32) :
    EveryPte P (pagingUnmap t v).1 := by
  rcases pagingUnmap_cases L hinv v with ⟨he, -⟩ | ⟨he, -⟩ | ⟨-, he⟩
  · rw [he]; exact h
  · rw [he]; exact h
  · rw [he]; exact h.setPte _ _ fun hp => by cases hp

theorem EveryPte.setupIdentityFrom
    (hP : ∀ a : UInt32, a.toNat % 4096 = 0 → mapAccepts a a = true → ∀ old, P (pteOf old a true)) :
    ∀ (n : Nat) (a : UInt32) (t : Tables), a.toNat % 4096 = 0 → EveryPte P t →
      EveryPte P (setupIdentityFrom L n a t).1
  | 0, _, _, _, h => h
  | n + 1, a, t, ha, h => by
      have hnext : (a + pageSize).toNat % 4096 = 0 := by
        rw [UInt32.toNat_add, pageSize_toNat]
        omega
      have hmap : EveryPte P (Kboot86.pagingMap L t a a true).1 := h.pagingMap (hP a ha)
      unfold Kboot86.setupIdentityFrom
      split
      · dsimp only
        split
        · exact hmap
        · exact EveryPte.setupIdentityFrom hP n _ _ hnext hmap
      · exact h

theorem EveryPte.pagingInit
    (hP : ∀ a : UInt32, a.toNat % 4096 = 0 → mapAccepts a a = true → ∀ old, P (pteOf old a true))
    (t₀ : Tables) : EveryPte P (pagingInit L t₀).1 := by
  have hclear : EveryPte P (pageTablesInit (pageDirInit t₀)) := fun a i hp => by cases hp
  have hsetup : EveryPte P (setupIdentity L (pageTablesInit (pageDirInit t₀))).1 :=
    EveryPte.setupIdentityFrom hP (2 ^ 20) 0 _ rfl hclear
  unfold Kboot86.pagingInit
  dsimp only
  split
  · exact hsetup
  · rw [pageDirAutomap_eq]
    exact hsetup

/-- What holds of every entry that `_setup_identity` and the calls of a run may
write holds of every present entry after the run. -/
theorem everyPte_of_run {G : PagingOp → Prop}
    (hinit : ∀ a : UInt32, a.toNat % 4096 = 0 → mapAccepts a a = true →
      ∀ old, P (pteOf old a true))
    (hmap : ∀ v p w, G (.map v p w) → mapAccepts v p = true → ∀ old, P (pteOf old p w))
    {ops : List PagingOp} (hrun : (pagingSystem L).Run ops t) (hG : ∀ op ∈ ops, G op) :
    EveryPte P t := by
  have hboth : PagingInv L t ∧ EveryPte P t := by
    refine System.Run.invariant (P := fun t => PagingInv L t ∧ EveryPte P t) ?_ ?_
      (hrun.restrict hG)
    · rintro s hs
      have hinv : PagingInv L s := pagingInv_of_run (.init hs)
      rcases hs with ⟨t₀, h₀⟩
      have hpte := EveryPte.pagingInit (L := L) hinit t₀
      rw [h₀] at hpte
      exact ⟨hinv, hpte⟩
    · rintro s op s' ⟨hinv, hs⟩ ⟨hop, rfl⟩
      refine ⟨hinv.step op, ?_⟩
      cases op with
      | map v p w => exact hs.pagingMap (hmap v p w hop)
      | unmap v => exact hs.pagingUnmap hinv.toTablesInv v
  exact hboth.2

end

/-! ### The frames -/

def FramesUsable (t : Tables) : Prop :=
  EveryPte (fun e => e.frame + 4095 ≤ paddrMax.toNat) t

/-- A call of `paging_map` that is accepted because its last byte wraps to the
bottom of memory: the physical address is one of the three multiples of 1024
behind `0xfffff000`, and the virtual one has a page table. -/
def PagingOp.Wraps : PagingOp → Prop
  | .map v p _ => v.toNat % 1024 = 0 ∧
      (v.toNat < 0x1000000 ∨ 0xc0000000 ≤ v.toNat ∧ v.toNat < 0xc0400000) ∧
      (p = 0xfffff400 ∨ p = 0xfffff800 ∨ p = 0xfffffc00)
  | .unmap _ => False

theorem wraps_map_iff (v p : UInt32) (w : Bool) :
    (PagingOp.map v p w).Wraps ↔ mapAccepts v p = true ∧ paddrMax.toNat < p.toNat := by
  have hlt := p.toNat_lt
  rw [PagingOp.Wraps, mapAccepts_iff, paddrMax_toNat, ← UInt32.toNat_inj, ← UInt32.toNat_inj,
    ← UInt32.toNat_inj]
  simp only [UInt32.reduceToNat]
  omega

theorem pteOf_usable_iff {v p : UInt32} {w : Bool} (hacc : mapAccepts v p = true)
    (old : PageEntry) :
    (pteOf old p w).frame + 4095 ≤ paddrMax.toNat ↔ ¬ (PagingOp.map v p w).Wraps := by
  have hp := ((mapAccepts_iff v p).mp hacc).2.2.1
  rw [wraps_map_iff, pteOf_frame, paddrMax_toNat] at *
  simp only [hacc, true_and]
  omega

theorem framesUsable_of_run {L : Layout} {ops : List PagingOp} {t : Tables}
    (hrun : (pagingSystem L).Run ops t) (hops : ∀ op ∈ ops, ¬ op.Wraps) : FramesUsable t := by
  refine everyPte_of_run ?_ ?_ hrun hops
  · intro a ha hacc old
    rw [pteOf_usable_iff (v := a) (w := true) hacc, wraps_map_iff]
    have hrange := ((mapAccepts_iff a a).mp hacc).2.2
    rw [paddrMax_toNat] at *
    omega
  · intro v p w hop hacc old
    exact (pteOf_usable_iff hacc old).mpr hop

theorem not_framesUsable_of_wraps {L : Layout} {t : Tables} {op : PagingOp} (h : op.Wraps) :
    ¬ FramesUsable (pagingStep L t op).1 := by
  cases op with
  | unmap v => cases h
  | map v p w =>
      have hacc := ((wraps_map_iff v p w).mp h).1
      intro husable
      have hentry := husable (tableIdx2ArrayIdx (vaddr2pdIdx v)) (vaddr2ptIdx v)
      rw [pagingStep, pagingMap_of_accepts L t w hacc, Tables.setPte_pageTables,
        if_pos ⟨rfl, rfl⟩] at hentry
      exact (pteOf_usable_iff hacc _).mp (hentry rfl) h

theorem exists_run (L : Layout) (ops : List PagingOp) : ∃ t, (pagingSystem L).Run ops t := by
  induction ops using List.reverseRecOn with
  | nil =>
      obtain ⟨t, ht, -⟩ := pagingInit_spec L clearedTables
      exact ⟨t, .init ⟨_, ht⟩⟩
  | append_singleton ops op ih =>
      rcases ih with ⟨t, ht⟩
      exact ⟨_, ht.snoc rfl⟩

/-- In every state on the way through a sequence of calls all mapped frames are
usable memory, if and only if none of the calls wraps. -/
theorem framesUsable_iff (L : Layout) (ops : List PagingOp) :
    (∀ (es : List PagingOp) (t : Tables), es <+: ops → (pagingSystem L).Run es t →
      FramesUsable t) ↔ ∀ op ∈ ops, ¬ op.Wraps := by
  constructor
  · intro h op hop hwraps
    obtain ⟨pre, post, rfl⟩ := List.append_of_mem hop
    obtain ⟨t, ht⟩ := exists_run L pre
    have hpre : pre ++ [op] <+: pre ++ op :: post := ⟨post, by simp⟩
    exact not_framesUsable_of_wraps hwraps (h _ _ hpre (ht.snoc rfl))
  · intro h es t hpre hrun
    exact framesUsable_of_run hrun fun op hop => h op (hpre.subset hop)

theorem framesUsable_fails :
    ∃ t, (pagingSystem sampleLayout).Run [.map 0 0xfffff400 true] t ∧ ¬ FramesUsable t := by
  obtain ⟨t, ht⟩ := exists_run sampleLayout []
  have hwraps : (PagingOp.map 0 0xfffff400 true).Wraps := by
    rw [PagingOp.Wraps]
    decide
  exact ⟨_, ht.snoc rfl, not_framesUsable_of_wraps hwraps⟩

/-! ### The flags and the directory -/

def PageEntry.SupervisorUncached (e : PageEntry) : Prop :=
  e.user = false ∧ e.cacheDisabled = true

/-- What the page directory looks like: which entries may be present, where
each of them points, and the flags of both levels. -/
structure DirectoryShape (L : Layout) (t : Tables) : Prop where
  indices : ∀ i : Fin 1024, (t.pageDir i).present = true →
    i.val ∈ [0, 1, 2, 3, 768, 1023]
  self : (t.pageDir 1023).present = true ∧ (t.pageDir 1023).frame = L.pageDirAddr.toNat
  own : ∀ i : Fin 1024, (t.pageDir i).present = true → i ≠ 1023 →
    (t.pageDir i).frame = (L.tableAddr (tableIdx2ArrayIdx i.val)).toNat
  distinct : ∀ i j : Fin 1024, (t.pageDir i).present = true → (t.pageDir j).present = true →
    i ≠ j → (t.pageDir i).frame ≠ (t.pageDir j).frame
  directoryFlags : ∀ i : Fin 1024, (t.pageDir i).present = true →
    (t.pageDir i).SupervisorUncached
  tableFlags : ∀ (a : Fin 5) (i : Fin 1024), (t.pageTables a i).present = true →
    (t.pageTables a i).SupervisorUncached

section

variable {L : Layout} {t : Tables}

/-- A present directory entry is the one of the page directory or the one of
its own page table. -/
theorem PagingInv.pde_cases (h : PagingInv L t) {i : Fin 1024}
    (hp : (t.pageDir i).present = true) :
    (i = 1023 ∧ t.pageDir i = pdeOf L.pageDirAddr) ∨
      (isTableIdxImplemented i.val = true ∧
        t.pageDir i = pdeOf (L.tableAddr (tableIdx2ArrayIdx i.val))) := by
  have hidx := entryIdx_fin i
  by_cases hlast : i = 1023
  · subst hlast
    exact .inl ⟨rfl, h.self⟩
  · have hlt : i.val < 1023 := by
      have := i.isLt
      have : i.val ≠ 1023 := fun he => hlast (Fin.ext he)
      omega
    have hpde := h.pde i.val hlt
    rw [hidx] at hpde
    exact .inr (hpde hp)

theorem PagingInv.frame_distinct (h : PagingInv L t) {i j : Fin 1024}
    (hi : (t.pageDir i).present = true) (hj : (t.pageDir j).present = true) (hij : i ≠ j) :
    (t.pageDir i).frame ≠ (t.pageDir j).frame := by
  have hdisj := L.disjoint
  have hdir := pdeOf_frame L.pageDir_aligned
  have htable := fun a => pdeOf_frame (L.tableAddr_aligned a)
  have haddr := L.tableAddr_toNat
  have hbound : ∀ a : Fin 5, a.val < 5 := fun a => a.isLt
  rcases h.pde_cases hi with ⟨rfl, hei⟩ | ⟨himpl, hei⟩ <;>
    rcases h.pde_cases hj with ⟨rfl, hej⟩ | ⟨hjmpl, hej⟩
  · exact absurd rfl hij
  · rw [hei, hej, hdir, htable, haddr]
    have := hbound (tableIdx2ArrayIdx j.val)
    omega
  · rw [hei, hej, hdir, htable, haddr]
    have := hbound (tableIdx2ArrayIdx i.val)
    omega
  · rw [hei, hej, htable, htable, haddr, haddr]
    intro heq
    have harr : tableIdx2ArrayIdx i.val = tableIdx2ArrayIdx j.val := Fin.ext (by omega)
    exact hij (Fin.ext ((tableIdx2ArrayIdx_inj himpl hjmpl).mp harr))

theorem PagingInv.directoryShape (h : PagingInv L t)
    (hpte : EveryPte PageEntry.SupervisorUncached t) : DirectoryShape L t where
  indices i hp := by
    rcases h.pde_cases hp with ⟨rfl, -⟩ | ⟨himpl, -⟩
    · decide
    · rw [isTableIdxImplemented_iff] at himpl
      simp only [List.mem_cons, List.not_mem_nil, or_false]
      omega
  self := by
    have hself : t.pageDir 1023 = pdeOf L.pageDirAddr := h.self
    rw [hself, pdeOf_frame L.pageDir_aligned]
    exact ⟨rfl, rfl⟩
  own i hp hne := by
    rcases h.pde_cases hp with ⟨rfl, -⟩ | ⟨-, he⟩
    · exact absurd rfl hne
    · rw [he, pdeOf_frame (L.tableAddr_aligned _)]
  distinct i j := h.frame_distinct
  directoryFlags i hp := by
    rcases h.pde_cases hp with ⟨-, he⟩ | ⟨-, he⟩
    · rw [he]; exact ⟨rfl, rfl⟩
    · rw [he]; exact ⟨rfl, rfl⟩
  tableFlags := hpte

/-- After every sequence of calls the directory has its shape, and the next
call, whatever it is, leaves the last entry as it is. -/
theorem directoryShape_of_run {ops : List PagingOp} (hrun : (pagingSystem L).Run ops t) :
    DirectoryShape L t ∧ ∀ op, (pagingStep L t op).1.pageDir 1023 = t.pageDir 1023 := by
  have hinv := pagingInv_of_run hrun
  have hpte : EveryPte PageEntry.SupervisorUncached t :=
    everyPte_of_run (G := fun _ => True) (fun _ _ _ _ => ⟨rfl, rfl⟩)
      (fun _ _ _ _ _ _ => ⟨rfl, rfl⟩) hrun fun _ _ => trivial
  refine ⟨hinv.directoryShape hpte, fun op => ?_⟩
  have hbefore : t.pageDir 1023 = pdeOf L.pageDirAddr := hinv.self
  have hafter : (pagingStep L t op).1.pageDir 1023 = pdeOf L.pageDirAddr := (hinv.step op).self
  rw [hbefore, hafter]

end

theorem directoryShape_kernel_page :
    ∃ t, (pagingSystem sampleLayout).Run [.map 0xc0000000 0x100000 true, .unmap 0] t ∧
      DirectoryShape sampleLayout t := by
  obtain ⟨t, ht⟩ := exists_run sampleLayout [.map 0xc0000000 0x100000 true, .unmap 0]
  exact ⟨t, ht, (directoryShape_of_run ht).1⟩

end Kboot86
