import Kboot86.Lib.Elf32.Writes

/-!
# How far a segment reaches

The copying loop of `_map_progseg` counts `p_filesz` bytes and never looks at
`p_memsz`, which is all that `_valid_progseg` has checked. With more bytes in
the file than in memory the loops run on behind the pages of the segment, as
far as there are pages to map and bytes to copy. They never come to their end:
the counter of the clearing loop has wrapped, and some page on the way round the
address space cannot be mapped.
-/

namespace Kboot86.Elf32

open Exec

/-- The first turn that is not on a page of the segment. -/
def Phdr.firstOutside (h : Phdr) : Nat :=
  if h.memsz.toNat = 0 then 0
  else roundUp (h.vaddr.toNat % 4096 + h.memsz.toNat) - h.vaddr.toNat % 4096

/-- Mapping the page of `v` makes `va` mapped: it is on this page or, in the
last 4 MiB, on the page that shows the page table. -/
def Shows (v va : UInt32) : Prop :=
  va.toNat / 4096 = v.toNat / 4096 ∨
    0xffc00000 ≤ va.toNat ∧ va.toNat / 4096 % 1024 = v.toNat / 4194304

section

variable (L : Layout) (img : UInt32) (h : Phdr) (m : Memory)

/-- The address is mapped in `m`, or a page among the first `n` turns makes it
so. -/
def MappedBy (n : Nat) (va : UInt32) : Prop :=
  (translate L m va).isSome = true ∨
    ∃ j < n, (h.vaddr + UInt32.ofNat j).toNat % 4096 = 0 ∧ Shows (h.vaddr + UInt32.ofNat j) va

/-- Nothing stops turn `k` in a run from `m`: its page is accepted, and its
source and its destination are mapped. -/
structure Passes (k : Nat) : Prop where
  accepts : Accepts h k
  source : k < h.filesz.toNat → MappedBy L h m (k + 1) (img + h.offset + UInt32.ofNat k)
  destination : MappedBy L h m (k + 1) (h.vaddr + UInt32.ofNat k)

/-- Nothing stops the loops before the first turn outside, and there they map a
page or, when it is not the start of one, store a byte. -/
structure Leaves : Prop where
  inside : ∀ k < h.firstOutside, Passes L img h m k
  accepts : Accepts h h.firstOutside
  outside : (h.vaddr + UInt32.ofNat h.firstOutside).toNat % 4096 ≠ 0 →
    Passes L img h m h.firstOutside

/-- Up to the first turn outside, the tables that `paging_map` looks at are
mapped where they lie, none of their pages is mapped anew, and no byte falls on
them: neither through a page of the segment nor, in front of the first of these,
through a page that was there before. -/
structure Phdr.KeepsOff : Prop where
  inPlace : ∀ j a, j ≤ h.firstOutside → (h.vaddr + UInt32.ofNat j).toNat % 4096 = 0 →
    Reaches L (h.vaddr + UInt32.ofNat j) a → m.tables.Leads L a a.toNat
  pages : ∀ k j a, k < j → j ≤ h.firstOutside →
    (h.vaddr + UInt32.ofNat k).toNat % 4096 = 0 → (h.vaddr + UInt32.ofNat j).toNat % 4096 = 0 →
    Reaches L (h.vaddr + UInt32.ofNat j) a →
    a.toNat / 4096 ≠ (h.vaddr + UInt32.ofNat k).toNat / 4096
  through : ∀ j k, j ≤ k → k < h.firstOutside → (h.vaddr + UInt32.ofNat j).toNat % 4096 = 0 →
    k < j + 4096 →
    L.place ((h.paddr + UInt32.ofNat j).toNat / 4096 * 4096 + (k - j)) = .other
  before : ∀ k < h.firstOutside,
    (∀ j ≤ k, (h.vaddr + UInt32.ofNat j).toNat % 4096 ≠ 0) →
    ∀ tr, translate L m (h.vaddr + UInt32.ofNat k) = some tr → L.place tr.paddr = .other

end

section

variable {L : Layout} {img phdr : UInt32} {h : Phdr} {m : Memory} {s s' s₀ : State} {k n : Nat}

/-! ### What the turns make mapped -/

theorem isSome_translate_map (hinv : PagingInv L m.tables) {v p va : UInt32} {w : Bool}
    (hacc : mapAccepts v p = true) :
    (translate L (m.map L v p w) va).isSome = true ↔
      (translate L m va).isSome = true ∨ Shows v va := by
  have hrange := ((mapAccepts_iff v p).mp hacc).2.2.2
  by_cases hlow : va.toNat < 0xffc00000
  · by_cases hpage : va.toNat / 4096 = v.toNat / 4096
    · rw [translate_map_page hinv hacc hpage]
      exact ⟨fun _ => .inr (.inl hpage), fun _ => rfl⟩
    · rw [translate_map_other hinv hacc hlow hpage]
      refine ⟨.inl, fun hor => hor.resolve_right ?_⟩
      rintro (hsame | ⟨hhigh, -⟩)
      · exact hpage hsame
      · omega
  · have hwin : 0xffc00000 ≤ va.toNat := by omega
    have hshows : Shows v va ↔ va.toNat / 4096 % 1024 = v.toNat / 4194304 := by
      refine ⟨fun hor => ?_, fun hidx => .inr ⟨hwin, hidx⟩⟩
      rcases hor with hpage | ⟨-, hidx⟩
      · omega
      · exact hidx
    have hidx : vaddr2ptIdx va = entryIdx (va.toNat / 4096 % 1024) := vaddr2ptIdx_eq va
    rw [hshows, translate_window (hinv.map v p w) hwin, translate_window hinv hwin, hidx,
      ← vaddr2pdIdx_eq, Memory.map, pagingMap_of_accepts L m.tables w hacc, Tables.setPte_pageDir]
    by_cases hv : va.toNat / 4096 % 1024 = vaddr2pdIdx v
    · have hself := withPde_pageDir_self hinv.toTablesInv (implemented_of_accepts hacc)
      rw [hv, hself]
      exact ⟨fun _ => .inr rfl, fun _ => rfl⟩
    · rw [withPde_pageDir_of_ne L m.tables v (Nat.mod_lt _ (by omega)) hv]
      simp [hv]

theorem isSome_opened (hinv : PagingInv L m.tables) (hacc : ∀ k < n, Accepts h k) (va : UInt32) :
    (translate L (opened L h m n) va).isSome = true ↔ MappedBy L h m n va := by
  induction n with
  | zero =>
      refine ⟨.inl, fun hor => hor.resolve_right ?_⟩
      rintro ⟨j, hj, -⟩
      exact absurd hj (Nat.not_lt_zero j)
  | succ n ih =>
      have ih := ih fun k hk => hacc k (by omega)
      have hsplit : MappedBy L h m (n + 1) va ↔ MappedBy L h m n va ∨
          (h.vaddr + UInt32.ofNat n).toNat % 4096 = 0 ∧ Shows (h.vaddr + UInt32.ofNat n) va := by
        unfold MappedBy
        constructor
        · rintro (hbefore | ⟨j, hj, hpage, hshows⟩)
          · exact .inl (.inl hbefore)
          · by_cases heq : j = n
            · exact .inr (heq ▸ ⟨hpage, hshows⟩)
            · exact .inl (.inr ⟨j, by omega, hpage, hshows⟩)
        · rintro ((hbefore | ⟨j, hj, hrest⟩) | hlast)
          · exact .inl hbefore
          · exact .inr ⟨j, by omega, hrest⟩
          · exact .inr ⟨n, by omega, hlast⟩
      rw [hsplit, ← ih, opened, openMem]
      split
      next hpage =>
        rw [isSome_translate_map (opened_inv hinv n) (hacc n (by omega) hpage)]
        simp only [hpage, true_and]
      next hmid => simp only [hmid, false_and, or_false]

theorem canTurn_iff (hinv : PagingInv L m.tables) (hacc : ∀ j < k, Accepts h j) :
    CanTurn L img h m k ↔ Passes L img h m k := by
  have hmapped : Accepts h k → ∀ va, (translate L (opened L h m (k + 1)) va).isSome = true ↔
      MappedBy L h m (k + 1) va := by
    intro hthis
    refine isSome_opened hinv fun j hj => ?_
    by_cases heq : j = k
    · exact heq ▸ hthis
    · exact hacc j (by omega)
  constructor
  · rintro ⟨hthis, hfinds, hleads⟩
    exact ⟨hthis, fun hk => (hmapped hthis _).mp (hfinds hk), (hmapped hthis _).mp hleads⟩
  · rintro ⟨hthis, hsource, hdest⟩
    exact ⟨hthis, fun hk => (hmapped hthis _).mpr (hsource hk), (hmapped hthis _).mpr hdest⟩

/-! ### Turns that keep off the tables -/

theorem opened_of_mid {i : Nat} (hle : i ≤ n)
    (hmid : ∀ j, i ≤ j → j < n → (h.vaddr + UInt32.ofNat j).toNat % 4096 ≠ 0) :
    opened L h m n = opened L h m i := by
  induction n, hle using Nat.le_induction with
  | base => rfl
  | succ n hle ih =>
      rw [opened, openMem, if_neg (hmid n hle (by omega))]
      exact ih fun j hij hj => hmid j hij (by omega)

theorem exists_start {i : Nat} (hik : i ≤ k)
    (hpage : (h.vaddr + UInt32.ofNat i).toNat % 4096 = 0) :
    ∃ j ≤ k, k < j + 4096 ∧ (h.vaddr + UInt32.ofNat j).toNat % 4096 = 0 := by
  refine ⟨i + (k - i) / 4096 * 4096, by omega, by omega, ?_⟩
  rw [toNat_add_ofNat_mod] at hpage ⊢
  omega

theorem Phdr.KeepsOff.harmless (hinv : PagingInv L m.tables) (hoff : h.KeepsOff L m)
    (hk : k < h.firstOutside) (hacc : ∀ j < k + 1, Accepts h j) : Harmless L h m k := by
  intro tr htr
  by_cases hstart : ∃ i ≤ k, (h.vaddr + UInt32.ofNat i).toNat % 4096 = 0
  · obtain ⟨i, hik, hi⟩ := hstart
    obtain ⟨j, hjk, hlt, hj⟩ := exists_start hik hi
    have hmid : ∀ i, j + 1 ≤ i → i < k + 1 → (h.vaddr + UInt32.ofNat i).toNat % 4096 ≠ 0 := by
      intro i hji hik hzero
      rw [toNat_add_ofNat_mod] at hj hzero
      omega
    have hva : (h.vaddr + UInt32.ofNat k).toNat = (h.vaddr + UInt32.ofNat j).toNat + (k - j) := by
      rw [toNat_add_ofNat_mod] at hj ⊢
      rw [toNat_add_ofNat_mod]
      omega
    rw [opened_of_mid (by omega) hmid, opened, openMem, if_pos hj,
      translate_map_page (opened_inv hinv j) (hacc j (by omega) hj) (by omega)] at htr
    obtain rfl := Option.some.inj htr
    have hplace := hoff.through j k hjk hk hj hlt
    have hrest : (h.vaddr + UInt32.ofNat k).toNat % 4096 = k - j := by omega
    dsimp only
    rw [hrest]
    exact hplace
  · have hnone : ∀ j ≤ k, (h.vaddr + UInt32.ofNat j).toNat % 4096 ≠ 0 := fun j hj hzero =>
      hstart ⟨j, hj, hzero⟩
    rw [opened_of_mid (Nat.zero_le _) fun j _ hj => hnone j (by omega)] at htr
    exact hoff.before k hk hnone tr htr

/-- The tables are in place for every page up to the first one outside. -/
theorem Phdr.KeepsOff.inPlaceAt (hinv : PagingInv L m.tables) (hoff : h.KeepsOff L m)
    (hk : k ≤ h.firstOutside) {m1 : Memory} (htables : m1.tables = (opened L h m k).tables) :
    InPlaceAt L h k m1 := by
  intro hpage
  rw [htables]
  refine ⟨fun a ha => ?_, (opened_inv hinv k).toTablesInv.ownTable⟩
  have hall : ∀ i ≤ k, (opened L h m i).tables.Leads L a a.toNat := by
    intro i hi
    induction i with
    | zero => exact hoff.inPlace k a hk hpage ha
    | succ i ih =>
        rw [opened, openMem]
        split
        next hi' => exact (ih (by omega)).map_other (hoff.pages i k a hi hk hi' hpage ha)
        · exact ih (by omega)
  exact hall k (Nat.le_refl k)

/-- Up to the first turn outside, the run is one that changes its tables
directly. -/
theorem Phdr.KeepsOff.turnsPaged_eq (hinv : PagingInv L s₀.mem.tables)
    (hoff : h.KeepsOff L s₀.mem) (hn : n ≤ h.firstOutside) :
    turns (turnPaged L img h) n s₀ = turns (turn L img h) n s₀ := by
  refine Elf32.turnsPaged_eq fun k hk s1 hturns => ?_
  have hharm : ∀ j < k, (∀ i < j + 1, Accepts h i) → Harmless L h s₀.mem j := fun j hj hacc =>
    hoff.harmless hinv (by omega) hacc
  exact hoff.inPlaceAt hinv (by omega) (turns_opened hinv hharm true s1 hturns rfl).1

theorem Leaves.canTurn (hinv : PagingInv L m.tables) (hleaves : Leaves L img h m) :
    (∀ k < h.firstOutside, CanTurn L img h m k) ∧
      ((h.vaddr + UInt32.ofNat h.firstOutside).toNat % 4096 ≠ 0 →
        CanTurn L img h m h.firstOutside) := by
  have hbefore : ∀ k ≤ h.firstOutside, ∀ j < k, Accepts h j := fun k hk j hj =>
    (hleaves.inside j (by omega)).accepts
  exact ⟨fun k hk => (canTurn_iff hinv (hbefore k (by omega))).mpr (hleaves.inside k hk),
    fun hmid => (canTurn_iff hinv (hbefore _ (Nat.le_refl _))).mpr (hleaves.outside hmid)⟩

end

end Kboot86.Elf32
