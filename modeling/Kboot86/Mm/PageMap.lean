import Kboot86.Mm.Init

/-!
# The page map that the two levels stand for

What a client of `paging.h` sees is a map from pages to frames with a writable
flag: `paging_map` sets one page, `paging_unmap` removes one. `PageMap` is that
map and `pageMapSystem` how the calls change it, with no directory, no tables
and no error paths. Every sequence of calls with page-aligned arguments on the
real tables is a sequence of calls on the page map, and the hardware walk below
the last 4 MiB reads exactly the page map.
-/

namespace Kboot86

abbrev PageMap := Nat → Option (Nat × Bool)

namespace PageMap

def identity : PageMap := fun page => if page < 15 * 2 ^ 20 / 4096 then some (page, true) else none

/-- The frame lies in the usable physical memory and the page in the virtual
memory that can be mapped. -/
def Accepts (v p : UInt32) : Prop :=
  p.toNat + 4095 ≤ paddrMax.toNat ∧
    (v.toNat < 16 * 2 ^ 20 ∨ 0xc0000000 ≤ v.toNat ∧ v.toNat < 0xc0400000)

instance (v p : UInt32) : Decidable (Accepts v p) := by
  unfold Accepts
  infer_instance

def step (m : PageMap) : PagingOp → PageMap
  | .map v p w =>
      if Accepts v p then Function.update m (v.toNat / 4096) (some (p.toNat / 4096, w)) else m
  | .unmap v =>
      if v.toNat < 0xffc00000 then Function.update m (v.toNat / 4096) none else m

def translate (m : PageMap) (va : UInt32) : Option Translation :=
  (m (va.toNat / 4096)).map fun f => ⟨4096 * f.1 + va.toNat % 4096, f.2⟩

end PageMap

def pageMapSystem : System PageMap PagingOp :=
  System.ofFun (fun m => m = PageMap.identity) PageMap.step

def PagingOp.Aligned : PagingOp → Prop
  | .map v p _ => v.toNat % 4096 = 0 ∧ p.toNat % 4096 = 0
  | .unmap v => v.toNat % 4096 = 0

/-- The hardware walk of every address below the last 4 MiB reads `m`, whatever
the rest of memory holds. -/
def Agrees (L : Layout) (t : Tables) (m : PageMap) : Prop :=
  ∀ (bytes : Nat → UInt8) (va : UInt32), va.toNat < 0xffc00000 →
    translate L ⟨t, bytes⟩ va = m.translate va

/-- The relation of the simulation: the invariant, and page by page the same
frame and flag. -/
def Represents (L : Layout) (t : Tables) (m : PageMap) : Prop :=
  PagingInv L t ∧
    ∀ va : UInt32, (lookup t va).map (fun e => (e.frame / 4096, e.write)) = m (va.toNat / 4096)

theorem PageEntry.frame_div (e : PageEntry) : 4096 * (e.frame / 4096) = e.frame := by
  unfold PageEntry.frame
  omega

theorem Represents.agrees {L : Layout} {t : Tables} {m : PageMap} (h : Represents L t m) :
    Agrees L t m := by
  intro bytes va hva
  have hinv : TablesInv L (Memory.mk t bytes).tables := h.1.toTablesInv
  rw [translate_eq_lookup hinv hva, PageMap.translate, ← h.2 va]
  cases lookup t va with
  | none => rfl
  | some e => simp [PageEntry.translation, e.frame_div]

/-- For page-aligned arguments the tests of the source are the two ranges. -/
theorem mapAccepts_iff_accepts {v p : UInt32} (hv : v.toNat % 4096 = 0)
    (hp : p.toNat % 4096 = 0) : mapAccepts v p = true ↔ PageMap.Accepts v p := by
  have hlt := p.toNat_lt
  have hsum : (p + (pageSize - 1)).toNat = p.toNat + 4095 := by
    rw [UInt32.toNat_add, show (pageSize - 1).toNat = 4095 from rfl]
    omega
  simp only [mapAccepts, isAddrPageAligned_of_dvd hv, isAddrPageAligned_of_dvd hp,
    Bool.true_and, Bool.and_eq_true, decide_eq_true_eq, UInt32.le_iff_toNat_le, hsum,
    isTableIdxImplemented_vaddr_iff, PageMap.Accepts]
  norm_num

theorem represents_init {L : Layout} {t₀ t : Tables} (h : pagingInit L t₀ = (t, 0)) :
    Represents L t PageMap.identity := by
  obtain ⟨t', ht', hinv, hid⟩ := pagingInit_spec L t₀
  obtain rfl : t' = t := congrArg Prod.fst (ht'.symm.trans h)
  refine ⟨hinv, fun va => ?_⟩
  have hva := hid.mapped va
  by_cases hlt : va.toNat / 4096 < 3840
  · rw [if_pos hlt] at hva
    obtain ⟨e, he, hew⟩ := Option.map_eq_some_iff.mp hva
    obtain ⟨hf, hw⟩ := Prod.mk.inj hew
    simp [he, hf, hw, PageMap.identity, hlt]
  · rw [if_neg hlt, Option.map_eq_none_iff] at hva
    simp [hva, PageMap.identity, hlt]

theorem Represents.map {L : Layout} {t : Tables} {m : PageMap} (h : Represents L t m)
    {v p : UInt32} (w : Bool) (hv : v.toNat % 4096 = 0) (hp : p.toNat % 4096 = 0) :
    Represents L (pagingMap L t v p w).1 (m.step (.map v p w)) := by
  refine ⟨h.1.step (.map v p w), fun va => ?_⟩
  rw [PageMap.step]
  by_cases hacc : PageMap.Accepts v p
  · rw [if_pos hacc, lookup_pagingMap L t w ((mapAccepts_iff_accepts hv hp).mpr hacc),
      Function.update_apply]
    by_cases hpage : va.toNat / 4096 = v.toNat / 4096
    · rw [if_pos hpage, if_pos hpage, Option.map_some, pteOf_frame]
      simp [pteOf]
    · rw [if_neg hpage, if_neg hpage, h.2 va]
  · have hnot : mapAccepts v p = false := by
      rw [← Bool.not_eq_true, mapAccepts_iff_accepts hv hp]
      exact hacc
    rw [if_neg hacc, pagingMap_of_not_accepts L t w hnot]
    exact h.2 va

theorem Represents.unmap {L : Layout} {t : Tables} {m : PageMap} (h : Represents L t m)
    {v : UInt32} (hv : v.toNat % 4096 = 0) :
    Represents L (pagingUnmap t v).1 (m.step (.unmap v)) ∧
      (v.toNat < 0xffc00000 → (pagingUnmap t v).2 = 0) := by
  have hpd := vaddr2pdIdx_eq v
  have halign := isAddrPageAligned_of_dvd hv
  refine ⟨⟨h.1.step (.unmap v), fun va => ?_⟩, ?_⟩
  · rw [PageMap.step]
    rcases pagingUnmap_cases L h.1.toTablesInv v with ⟨he, hno⟩ | ⟨he, hnone⟩ | ⟨himpl, he⟩
    · have hlast : vaddr2pdIdx v = 1023 := hno.resolve_left (by simp [halign])
      rw [he, if_neg (by omega)]
      exact h.2 va
    · have hm : m (v.toNat / 4096) = none := by rw [← h.2 v, hnone, Option.map_none]
      have hupd : Function.update m (v.toNat / 4096) none = m := by
        rw [← hm, Function.update_eq_self]
      rw [he, hupd, ite_self]
      exact h.2 va
    · have hbelow : v.toNat < 0xffc00000 := by
        rw [isTableIdxImplemented_vaddr_iff] at himpl
        omega
      rw [he, if_pos hbelow, lookup_setPte _ himpl, Function.update_apply]
      by_cases hpage : va.toNat / 4096 = v.toNat / 4096
      · simp [hpage]
      · rw [if_neg hpage, if_neg hpage, h.2 va]
  · intro hbelow
    rcases pagingUnmap_cases L h.1.toTablesInv v with ⟨he, hno⟩ | ⟨he, -⟩ | ⟨-, he⟩
    · have hlast : vaddr2pdIdx v = 1023 := hno.resolve_left (by simp [halign])
      omega
    · rw [he]
    · rw [he]

/-- Every call with page-aligned arguments is the same call on the page map. -/
theorem paging_simulation (L : Layout) :
    System.Simulation ((pagingSystem L).restrict fun _ op => op.Aligned) pageMapSystem
      (Represents L) where
  init := by
    rintro t ⟨t₀, h₀⟩
    exact ⟨PageMap.identity, rfl, represents_init h₀⟩
  step := by
    rintro t op t' m hR ⟨hal, rfl⟩
    refine ⟨m.step op, rfl, ?_⟩
    cases op with
    | map v p w => exact hR.map w hal.1 hal.2
    | unmap v => exact (hR.unmap hal).1

/-- After any sequence of page-aligned calls the hardware walk reads the page
map of the same calls; the next `paging_map` succeeds exactly for the accepted
ranges, and the next `paging_unmap` below the last 4 MiB always succeeds. -/
theorem paging_refines_pageMap (L : Layout) :
    (∀ t₀ : Tables, (pagingInit L t₀).2 = 0) ∧
      ∀ (ops : List PagingOp) (t : Tables), (pagingSystem L).Run ops t →
        (∀ op ∈ ops, op.Aligned) →
        ∃ m, pageMapSystem.Run ops m ∧ Agrees L t m ∧
          (∀ (v p : UInt32) (w : Bool), v.toNat % 4096 = 0 → p.toNat % 4096 = 0 →
            ((pagingMap L t v p w).2 = 0 ↔ PageMap.Accepts v p)) ∧
          (∀ v : UInt32, v.toNat % 4096 = 0 → v.toNat < 0xffc00000 →
            (pagingUnmap t v).2 = 0) := by
  constructor
  · intro t₀
    obtain ⟨t, ht, -⟩ := pagingInit_spec L t₀
    rw [ht]
  · intro ops t hrun hal
    have hrestr := hrun.restrict (G := PagingOp.Aligned) hal
    obtain ⟨m, hm, hR⟩ := (paging_simulation L).run hrestr
    refine ⟨m, hm, hR.agrees, ?_, ?_⟩
    · intro v p w hv hp
      rw [pagingMap_code, mapAccepts_iff_accepts hv hp]
    · intro v hv hbelow
      exact (hR.unmap hv).2 hbelow

def sampleLayout : Layout where
  pageDirAddr := 0x20000
  pageTablesAddr := 0x21000
  pageDir_aligned := by decide
  pageTables_aligned := by decide
  pageTables_ne_null := by decide
  pageTables_fit := by decide
  disjoint := by decide

def clearedTables : Tables := ⟨fun _ => PageEntry.cleared, fun _ _ => PageEntry.cleared⟩

theorem paging_refines_pageMap_kernel_page :
    ∃ t m, (pagingSystem sampleLayout).Run [.map 0xc0000000 0x100000 true] t ∧
      Agrees sampleLayout t m ∧ m 0xc0000 = some (0x100, true) := by
  obtain ⟨t, ht, -⟩ := pagingInit_spec sampleLayout clearedTables
  have hrun : (pagingSystem sampleLayout).Run ([] ++ [.map 0xc0000000 0x100000 true])
      (pagingMap sampleLayout t 0xc0000000 0x100000 true).1 :=
    .snoc (.init ⟨clearedTables, ht⟩) rfl
  obtain ⟨m, hm, hagrees, -⟩ := (paging_refines_pageMap sampleLayout).2 _ _ hrun
    (by simp [PagingOp.Aligned])
  obtain ⟨m₀, -, rfl⟩ := (System.run_snoc_iff _ _ _ _).mp hm
  have hacc : PageMap.Accepts 0xc0000000 0x100000 := by decide
  exact ⟨_, _, hrun, hagrees, by simp [PageMap.step, hacc]⟩

end Kboot86
