import Kboot86.Mm.MapEffect

/-!
# The entries that lead to a page

An address with a page table is found through two entries, one of the page
directory and one of the page table of its index. `Tables.Leads` says that both
are present and which frame they lead to. No other entry matters, so a store
that falls on neither of the two keeps it, and so does a call of `paging_map`
for another page.
-/

namespace Kboot86

namespace Tables

def pdeAt (t : Tables) (va : UInt32) : PageEntry := t.pageDir (entryIdx (vaddr2pdIdx va))

def pteAt (t : Tables) (va : UInt32) : PageEntry :=
  t.pageTables (tableIdx2ArrayIdx (vaddr2pdIdx va)) (vaddr2ptIdx va)

end Tables

def Layout.tableOf (L : Layout) (va : UInt32) : UInt32 :=
  L.tableAddr (tableIdx2ArrayIdx (vaddr2pdIdx va))

/-- The directory entry of the address is absent or points at its own table. -/
def Tables.OwnTable (L : Layout) (t : Tables) (va : UInt32) : Prop :=
  (t.pdeAt va).present = true → (t.pdeAt va).frame = (L.tableOf va).toNat

/-- The page of `va` leads to the frame at `pa`, through its own page table. -/
structure Tables.Leads (L : Layout) (t : Tables) (va : UInt32) (pa : Nat) : Prop where
  implemented : isTableIdxImplemented (vaddr2pdIdx va) = true
  present : (t.pdeAt va).present = true
  own : (t.pdeAt va).frame = (L.tableOf va).toNat
  mapped : (t.pteAt va).present = true
  frame : (t.pteAt va).frame = pa

def Layout.OnPde (L : Layout) (q : Nat) (va : UInt32) : Prop :=
  L.place q = .pde (entryIdx (vaddr2pdIdx va))

def Layout.OnEntries (L : Layout) (q : Nat) (va : UInt32) : Prop :=
  L.OnPde q va ∨ L.place q = .pte (tableIdx2ArrayIdx (vaddr2pdIdx va)) (vaddr2ptIdx va)

section

variable {L : Layout} {t : Tables} {va v p : UInt32} {pa q : Nat} {w : Bool}

theorem implemented_of_accepts (hacc : mapAccepts v p = true) :
    isTableIdxImplemented (vaddr2pdIdx v) = true := by
  simp only [mapAccepts, Bool.and_eq_true] at hacc
  exact hacc.2

theorem Tables.Leads.translate {m : Memory} (h : m.tables.Leads L va pa) :
    ∃ w, translate L m va = some ⟨pa + va.toNat % 4096, w⟩ := by
  have hpde : m.tables.pageDir (entryIdx (va.toNat / 4194304)) = m.tables.pdeAt va := by
    rw [Tables.pdeAt, vaddr2pdIdx_eq]
  have hpte : m.tables.pageTables (tableIdx2ArrayIdx (vaddr2pdIdx va))
      (entryIdx (va.toNat / 4096 % 1024)) = m.tables.pteAt va := by
    rw [Tables.pteAt, vaddr2ptIdx_eq]
  rw [translate_of_table L m va hpde h.present h.own, hpte, if_pos h.mapped, h.frame]
  exact ⟨_, rfl⟩

theorem Tables.Leads.of_page (h : t.Leads L va pa) (hpage : v.toNat / 4096 = va.toNat / 4096) :
    t.Leads L v pa := by
  obtain ⟨hpd, hpt⟩ := (vaddr_idx_eq_iff v va).mpr hpage
  obtain ⟨himpl, hpres, hown, hmapped, hframe⟩ := h
  constructor <;> simpa only [Tables.pdeAt, Tables.pteAt, Layout.tableOf, hpd, hpt]

theorem Tables.Leads.lt (h : t.Leads L va pa) : va.toNat < 0xc0400000 := by
  have himpl := (isTableIdxImplemented_vaddr_iff va).mp h.implemented
  omega

/-! ### A byte stored -/

theorem store8_pdeAt {m : Memory} (hq : ¬ L.OnPde q va) (b : UInt8) :
    (m.store8 L q b).tables.pdeAt va = m.tables.pdeAt va := by
  unfold Layout.OnPde at hq
  unfold Memory.store8 Tables.pdeAt
  split
  next i hi =>
    have hne : entryIdx (vaddr2pdIdx va) ≠ i := fun heq => hq (heq ▸ hi)
    exact Function.update_of_ne hne _ _
  · rfl
  · rfl

theorem Tables.OwnTable.store8 {m : Memory} (h : m.tables.OwnTable L va) (hq : ¬ L.OnPde q va)
    (b : UInt8) : (m.store8 L q b).tables.OwnTable L va := by
  rwa [Tables.OwnTable, store8_pdeAt hq]

theorem Tables.Leads.store8 {m : Memory} (h : m.tables.Leads L va pa)
    (hq : ¬ L.OnEntries q va) (b : UInt8) : (m.store8 L q b).tables.Leads L va pa := by
  obtain ⟨hpde, hpte⟩ := not_or.mp hq
  have hsame : (m.store8 L q b).tables.pteAt va = m.tables.pteAt va := by
    unfold Memory.store8 Tables.pteAt
    split
    · rfl
    next a i hi =>
      rw [Tables.setPte_pageTables, if_neg]
      rintro ⟨rfl, rfl⟩
      exact hpte hi
    · rfl
  have hdir := store8_pdeAt (m := m) hpde b
  exact ⟨h.implemented, hdir ▸ h.present, hdir ▸ h.own, hsame ▸ h.mapped, hsame ▸ h.frame⟩

/-! ### A page mapped -/

theorem pagingMap_pdeAt_of_ne (hne : vaddr2pdIdx va ≠ vaddr2pdIdx v) :
    (pagingMap L t v p w).1.pdeAt va = t.pdeAt va := by
  cases hacc : mapAccepts v p with
  | false => rw [pagingMap_of_not_accepts L t w hacc]
  | true =>
      rw [pagingMap_of_accepts L t w hacc]
      exact withPde_pageDir_of_ne L t v (vaddr2pdIdx_lt va) hne

theorem pagingMap_pdeAt_self (hacc : mapAccepts v p = true) (hown : t.OwnTable L v) :
    ((pagingMap L t v p w).1.pdeAt v).present = true ∧
      ((pagingMap L t v p w).1.pdeAt v).frame = (L.tableOf v).toNat := by
  have hdir : (pagingMap L t v p w).1.pdeAt v = (t.withPde L v).pdeAt v := by
    rw [pagingMap_of_accepts L t w hacc]
    rfl
  rw [hdir, Tables.withPde, pageDirEntryIsPresent_eq t (vaddr2pdIdx_lt v)]
  by_cases hpres : (t.pageDir (entryIdx (vaddr2pdIdx v))).present = true
  · rw [if_pos hpres]
    exact ⟨hpres, hown hpres⟩
  · rw [if_neg hpres, Tables.pdeAt, Tables.setPde_pageDir, Function.update_self]
    exact ⟨rfl, pdeOf_frame (L.tableAddr_aligned _)⟩

theorem Tables.OwnTable.map (h : t.OwnTable L va) (hown : t.OwnTable L v) :
    (pagingMap L t v p w).1.OwnTable L va := by
  cases hacc : mapAccepts v p with
  | false => rwa [pagingMap_of_not_accepts L t w hacc]
  | true =>
      by_cases hidx : vaddr2pdIdx va = vaddr2pdIdx v
      · have hself := (pagingMap_pdeAt_self (w := w) hacc hown).2
        rw [Tables.OwnTable, Tables.pdeAt, Layout.tableOf, hidx]
        exact fun _ => hself
      · rwa [Tables.OwnTable, pagingMap_pdeAt_of_ne hidx]

theorem leads_map_page (hacc : mapAccepts v p = true) (hown : t.OwnTable L v) :
    (pagingMap L t v p w).1.Leads L v (p.toNat / 4096 * 4096) := by
  obtain ⟨hpres, hframe⟩ := pagingMap_pdeAt_self (w := w) hacc hown
  have hpte : (pagingMap L t v p w).1.pteAt v = pteOf (t.pteAt v) p w := by
    rw [pagingMap_of_accepts L t w hacc, Tables.pteAt, Tables.setPte_pageTables,
      if_pos ⟨rfl, rfl⟩]
    rfl
  exact ⟨implemented_of_accepts hacc, hpres, hframe, by rw [hpte]; rfl,
    by rw [hpte, pteOf_frame]⟩

/-- An entry that is installed was absent, and led nowhere. -/
theorem Tables.Leads.withPde (h : t.Leads L va pa) (v : UInt32) :
    (t.withPde L v).Leads L va pa := by
  have hdir : (t.withPde L v).pdeAt va = t.pdeAt va := by
    unfold Tables.withPde
    split
    · rfl
    next habsent =>
      rw [pageDirEntryIsPresent_eq t (vaddr2pdIdx_lt v)] at habsent
      refine Function.update_of_ne (fun hidx => habsent ?_) _ _
      rw [← hidx]
      exact h.present
  have htab : (t.withPde L v).pteAt va = t.pteAt va := by
    rw [Tables.pteAt, Tables.withPde_pageTables]
    rfl
  exact ⟨h.implemented, hdir ▸ h.present, hdir ▸ h.own, htab ▸ h.mapped, htab ▸ h.frame⟩

theorem Tables.Leads.map_other (h : t.Leads L va pa)
    (hne : va.toNat / 4096 ≠ v.toNat / 4096) : (pagingMap L t v p w).1.Leads L va pa := by
  cases hacc : mapAccepts v p with
  | false => rwa [pagingMap_of_not_accepts L t w hacc]
  | true =>
      obtain ⟨himpl, hpres, hown, hmapped, hframe⟩ := h.withPde v
      have hslot := mt (slot_eq_iff (implemented_of_accepts hacc) himpl).mp hne
      rw [pagingMap_of_accepts L t w hacc]
      refine ⟨himpl, hpres, hown, ?_, ?_⟩
      · rwa [Tables.pteAt, Tables.setPte_pageTables, if_neg hslot]
      · rwa [Tables.pteAt, Tables.setPte_pageTables, if_neg hslot]

theorem TablesInv.ownTable (h : TablesInv L t)
    (hv : isTableIdxImplemented (vaddr2pdIdx va) = true) : t.OwnTable L va := by
  intro hpres
  obtain ⟨-, hpde⟩ := h.pde _ (isTableIdxImplemented_lt hv) hpres
  rw [Tables.pdeAt, hpde, pdeOf_frame (L.tableAddr_aligned _)]
  rfl

/-- A page that is looked up is led to. -/
theorem TablesInv.leads (h : TablesInv L t) {e : PageEntry} (hlookup : lookup t va = some e) :
    t.Leads L va e.frame := by
  unfold lookup at hlookup
  dsimp only at hlookup
  split at hlookup
  next hboth =>
    rw [Bool.and_eq_true] at hboth
    obtain rfl := Option.some.inj hlookup
    have hpres : (t.pdeAt va).present = true := by
      by_contra habsent
      rw [Bool.not_eq_true] at habsent
      have hentry := h.absent _ hboth.1 habsent (vaddr2ptIdx va)
      rw [hentry] at hboth
      exact absurd hboth.2 (by decide)
    exact ⟨hboth.1, hpres, h.ownTable hboth.1 hpres, hboth.2, rfl⟩
  · cases hlookup

theorem TablesInv.leads_of_translate {m : Memory} (h : TablesInv L m.tables)
    (hva : va.toNat < 0xffc00000) (hpage : va.toNat % 4096 = 0)
    (htr : Kboot86.translate L m va = some ⟨pa, w⟩) : m.tables.Leads L va pa := by
  rw [translate_eq_lookup h hva] at htr
  obtain ⟨e, he, htr⟩ := Option.map_eq_some_iff.mp htr
  have hframe : e.frame + va.toNat % 4096 = pa := congrArg Translation.paddr htr
  rw [hpage, Nat.add_zero] at hframe
  exact hframe ▸ h.leads he

/-- A page below the limit, as `paging_init` leaves it. -/
theorem IdentityUpTo.leads (hid : IdentityUpTo t 3840) (h : TablesInv L t)
    (hpage : va.toNat % 4096 = 0) (hlt : va.toNat < 15728640) : t.Leads L va va.toNat := by
  have hmap := hid.mapped va
  rw [if_pos (by omega)] at hmap
  obtain ⟨e, he, hpair⟩ := Option.map_eq_some_iff.mp hmap
  have hframe : e.frame = va.toNat := by
    have hfirst : e.frame = va.toNat / 4096 * 4096 := congrArg Prod.fst hpair
    omega
  exact hframe ▸ h.leads he

end

end Kboot86
