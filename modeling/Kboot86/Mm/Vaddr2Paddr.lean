import Kboot86.Mm.MapEffect

/-!
# The translation that the loader computes

`paging_vaddr2paddr` reads the tables through the MMU itself: the last entry of
the page directory makes the directory and the page tables appear in the last
4 MiB. Whatever the address, its loads find a page there, and what they read are
the entries that the walk of the address reads.
-/

namespace Kboot86

/-- A 32-bit load of the loader from a multiple of 4; `none` is a page fault. -/
def Memory.loadVaddr32 (L : Layout) (m : Memory) (va : UInt32) : Option UInt32 :=
  (translate L m va).map fun tr => UInt32.ofNat (m.load32 L tr.paddr)

def pdeVaddr (pdIdx : UInt32) : UInt32 :=
  ((0xffc00000 : UInt32) ||| (0x3ff : UInt32) <<< 12) + 4 * pdIdx

def pteVaddr (pdIdx ptIdx : UInt32) : UInt32 :=
  ((0xffc00000 : UInt32) ||| pdIdx <<< 12) + 4 * ptIdx

def pagingVaddr2paddr (L : Layout) (m : Memory) (vaddr : UInt32) : Option UInt32 := do
  let pdIdx := vaddr >>> 22
  let ptIdx := vaddr >>> 12 &&& 0x3ff
  let pde ← m.loadVaddr32 L (pdeVaddr pdIdx)
  if pde &&& 1 = 0 then pure 0
  else
    let pte ← m.loadVaddr32 L (pteVaddr pdIdx ptIdx)
    if pte &&& 1 = 0 then pure 0
    else
      let pte ← m.loadVaddr32 L (pteVaddr pdIdx ptIdx)
      pure ((pte &&& ~~~(0xfff : UInt32)) ||| (vaddr &&& 0xfff))

theorem pdIdx_toNat (vaddr : UInt32) : (vaddr >>> 22).toNat = vaddr.toNat / 4194304 := by
  rw [UInt32.toNat_shiftRight, show (22 : UInt32).toNat % 32 = 22 from rfl,
    Nat.shiftRight_eq_div_pow]

theorem ptIdx_toNat (vaddr : UInt32) :
    (vaddr >>> 12 &&& 0x3ff).toNat = vaddr.toNat / 4096 % 1024 := by
  rw [UInt32.toNat_and, UInt32.toNat_shiftRight, show (12 : UInt32).toNat % 32 = 12 from rfl,
    Nat.shiftRight_eq_div_pow]
  exact Nat.and_two_pow_sub_one_eq_mod _ 10

theorem pteVaddr_toNat (pdIdx ptIdx : UInt32) (hpd : pdIdx.toNat < 1024)
    (hpt : ptIdx.toNat < 1024) :
    (pteVaddr pdIdx ptIdx).toNat = 0xffc00000 + 4096 * pdIdx.toNat + 4 * ptIdx.toNat := by
  have hshift : pdIdx.toNat <<< 12 = 4096 * pdIdx.toNat := by
    rw [Nat.shiftLeft_eq, Nat.mul_comm]
  have hor := Nat.shiftLeft_add_eq_or_of_lt (b := 4096 * pdIdx.toNat) (i := 22) (by omega) 1023
  have htable : ((0xffc00000 : UInt32) ||| pdIdx <<< 12).toNat =
      0xffc00000 + 4096 * pdIdx.toNat := by
    rw [UInt32.toNat_or, UInt32.toNat_shiftLeft, show (12 : UInt32).toNat % 32 = 12 from rfl,
      hshift, Nat.mod_eq_of_lt (by omega)]
    exact hor.symm
  rw [pteVaddr, UInt32.toNat_add, UInt32.toNat_mul, htable, show (4 : UInt32).toNat = 4 from rfl]
  omega

theorem word_and_one (w : Nat) : UInt32.ofNat w &&& 1 = 0 ↔ w % 2 = 0 := by
  have hone : (UInt32.ofNat w).toNat &&& 1 = (UInt32.ofNat w).toNat % 2 := Nat.and_one_is_mod _
  rw [← UInt32.toNat_inj, UInt32.toNat_and, UInt32.toNat_one, hone, UInt32.toNat_ofNat',
    UInt32.toNat_zero]
  omega

theorem and_frame {w : Nat} (hw : w < 2 ^ 32) : w &&& (2 ^ 20 - 1) <<< 12 = (w >>> 12) <<< 12 := by
  refine Nat.eq_of_testBit_eq fun i => ?_
  rw [Nat.testBit_and, Nat.testBit_shiftLeft, Nat.testBit_shiftLeft, Nat.testBit_shiftRight,
    Nat.testBit_two_pow_sub_one]
  by_cases hlow : i < 12
  · have hge : ¬ i ≥ 12 := by omega
    simp [hge]
  · have hidx : 12 + (i - 12) = i := by omega
    have hge : i ≥ 12 := by omega
    rw [hidx]
    by_cases hhigh : i - 12 < 20
    · simp [hge, hhigh]
    · have hbit : w.testBit i = false :=
        Nat.testBit_lt_two_pow (lt_of_lt_of_le hw (Nat.pow_le_pow_right (by omega) (by omega)))
      simp [hbit]

theorem word_and_frame {w : Nat} (hw : w < 2 ^ 32) (v : UInt32) :
    (UInt32.ofNat w &&& ~~~(0xfff : UInt32)) ||| (v &&& 0xfff) =
      UInt32.ofNat (w / 4096 * 4096 + v.toNat % 4096) := by
  have hlow : (v &&& 0xfff).toNat = v.toNat % 4096 := by
    rw [UInt32.toNat_and]
    exact Nat.and_two_pow_sub_one_eq_mod v.toNat 12
  have hhigh : (UInt32.ofNat w &&& ~~~(0xfff : UInt32)).toNat = (w >>> 12) <<< 12 := by
    rw [UInt32.toNat_and, UInt32.toNat_ofNat', Nat.mod_eq_of_lt hw,
      show (~~~(0xfff : UInt32)).toNat = (2 ^ 20 - 1) <<< 12 from rfl, and_frame hw]
  have hmod : v.toNat % 4096 < 2 ^ 12 := Nat.mod_lt _ (by omega)
  rw [← UInt32.toNat_inj, UInt32.toNat_or, hlow, hhigh, ← Nat.shiftLeft_add_eq_or_of_lt hmod,
    Nat.shiftLeft_eq, Nat.shiftRight_eq_div_pow, UInt32.toNat_ofNat']
  omega

section

variable {L : Layout} {m : Memory}

theorem loadVaddr32_pd (h : PagingInv L m.tables) (vaddr : UInt32) :
    m.loadVaddr32 L (pdeVaddr (vaddr >>> 22)) =
      some (UInt32.ofNat (m.tables.pageDir (entryIdx (vaddr.toNat / 4194304))).toWord) := by
  have hlt := vaddr.toNat_lt
  have haddr : (pdeVaddr (vaddr >>> 22)).toNat = 0xfffff000 + 4 * (vaddr.toNat / 4194304) := by
    rw [pdeVaddr, UInt32.toNat_add, UInt32.toNat_mul, pdIdx_toNat,
      show (4 : UInt32).toNat = 4 from rfl]
    change (0xfffff000 + _) % _ = _
    omega
  have hslot : (pdeVaddr (vaddr >>> 22)).toNat / 4096 % 1024 = 1023 := by omega
  have hoff : (pdeVaddr (vaddr >>> 22)).toNat % 4096 = 4 * (vaddr.toNat / 4194304) := by omega
  have hpres : (pdeOf L.pageDirAddr).present = true := rfl
  rw [Memory.loadVaddr32, translate_window h (by omega), vaddr2ptIdx_eq, hslot, h.self,
    if_pos hpres, Option.map_some, PageEntry.translation, pdeOf_frame L.pageDir_aligned, hoff]
  dsimp only
  rw [Memory.load32_pde L m (i := vaddr.toNat / 4194304) (by omega)]

/-- The page table entry of an address, through the page that shows its page
table; at the last directory entry that page is the directory itself. -/
theorem loadVaddr32_pt (h : PagingInv L m.tables) {vaddr : UInt32}
    (hpres : (m.tables.pageDir (entryIdx (vaddr.toNat / 4194304))).present = true) :
    m.loadVaddr32 L (pteVaddr (vaddr >>> 22) (vaddr >>> 12 &&& 0x3ff)) =
      some (UInt32.ofNat (m.load32 L
        ((m.tables.pageDir (entryIdx (vaddr.toNat / 4194304))).frame +
          4 * (vaddr.toNat / 4096 % 1024)))) := by
  have hlt := vaddr.toNat_lt
  have hpd := pdIdx_toNat vaddr
  have hpt := ptIdx_toNat vaddr
  have haddr := pteVaddr_toNat (vaddr >>> 22) (vaddr >>> 12 &&& 0x3ff)
    (by omega) (by omega)
  have hslot : (pteVaddr (vaddr >>> 22) (vaddr >>> 12 &&& 0x3ff)).toNat / 4096 % 1024 =
      vaddr.toNat / 4194304 := by omega
  have hoff : (pteVaddr (vaddr >>> 22) (vaddr >>> 12 &&& 0x3ff)).toNat % 4096 =
      4 * (vaddr.toNat / 4096 % 1024) := by omega
  rw [Memory.loadVaddr32, translate_window h (by omega), vaddr2ptIdx_eq, hslot, if_pos hpres,
    Option.map_some, PageEntry.translation, hoff]

theorem translate_paddr (va : UInt32) :
    (translate L m va).map (·.paddr) =
      if (m.tables.pageDir (entryIdx (va.toNat / 4194304))).present then
        let pte := m.load32 L ((m.tables.pageDir (entryIdx (va.toNat / 4194304))).frame +
          4 * (va.toNat / 4096 % 1024))
        if pte % 2 = 0 then none else some (pte / 4096 * 4096 + va.toNat % 4096)
      else none := by
  have hlt := va.toNat_lt
  have hpde := m.load32_pde L (i := va.toNat / 4194304) (by omega)
  simp only [translate, walk, hpde, PageEntry.toWord_div, PageEntry.toWord_mod_two]
  cases (m.tables.pageDir (entryIdx (va.toNat / 4194304))).present with
  | false => rfl
  | true =>
      simp only [Bool.toNat_true, one_ne_zero, ↓reduceIte]
      split <;> rfl

/-- `paging_vaddr2paddr` computes the walk that it reads through. -/
theorem pagingVaddr2paddr_eq (h : PagingInv L m.tables) (vaddr : UInt32) :
    pagingVaddr2paddr L m vaddr =
      some (match translate L m vaddr with
        | none => 0
        | some tr => UInt32.ofNat tr.paddr) := by
  have hwalk : (match translate L m vaddr with
      | none => 0
      | some tr => UInt32.ofNat tr.paddr) =
        (((translate L m vaddr).map (·.paddr)).map UInt32.ofNat).getD 0 := by
    cases translate L m vaddr <;> rfl
  have hbit := word_and_one (m.tables.pageDir (entryIdx (vaddr.toNat / 4194304))).toWord
  rw [PageEntry.toWord_mod_two] at hbit
  rw [hwalk, translate_paddr, pagingVaddr2paddr]
  dsimp only
  rw [loadVaddr32_pd h, Option.bind_eq_bind, Option.bind_some]
  cases hpres : (m.tables.pageDir (entryIdx (vaddr.toNat / 4194304))).present with
  | false =>
      rw [hpres] at hbit
      rw [if_pos (hbit.mpr rfl)]
      rfl
  | true =>
      rw [hpres] at hbit
      have hpte : m.load32 L ((m.tables.pageDir (entryIdx (vaddr.toNat / 4194304))).frame +
          4 * (vaddr.toNat / 4096 % 1024)) < 2 ^ 32 := le32_lt _ _
      rw [if_neg (mt hbit.mp (by decide)), loadVaddr32_pt h hpres, if_pos rfl]
      generalize m.load32 L ((m.tables.pageDir (entryIdx (vaddr.toNat / 4194304))).frame +
        4 * (vaddr.toNat / 4096 % 1024)) = pte at hpte ⊢
      simp only [Option.bind_some, word_and_one, word_and_frame hpte]
      by_cases hz : pte % 2 = 0
      · simp [hz]
      · simp [hz]

/-- `paging_vaddr2paddr` never meets a page fault. -/
theorem pagingVaddr2paddr_isSome (h : PagingInv L m.tables) (vaddr : UInt32) :
    (pagingVaddr2paddr L m vaddr).isSome = true := by
  rw [pagingVaddr2paddr_eq h]
  rfl

end

/-- In every state reachable after `paging_init` and for every address, in the
last 4 MiB as well, the result is the physical address that the hardware walk
gives, and 0 where it finds no page. -/
theorem pagingVaddr2paddr_correct (L : Layout) (ops : List PagingOp) (m : Memory)
    (hrun : (pagingSystem L).Run ops m.tables) (vaddr : UInt32) :
    pagingVaddr2paddr L m vaddr =
      some (match translate L m vaddr with
        | none => 0
        | some tr => UInt32.ofNat tr.paddr) :=
  pagingVaddr2paddr_eq (pagingInv_of_run hrun) vaddr

theorem pagingVaddr2paddr_correct_kernel_page :
    ∃ m : Memory, pagingVaddr2paddr sampleLayout m 0xc0000123 = some 0x100123 := by
  obtain ⟨t, ht, hinv, -⟩ := pagingInit_spec sampleLayout clearedTables
  have hacc : mapAccepts 0xc0000000 0x100000 = true := by decide
  have hrun : (pagingSystem sampleLayout).Run ([] ++ [.map 0xc0000000 0x100000 true])
      (Memory.map sampleLayout ⟨t, fun _ => 0⟩ 0xc0000000 0x100000 true).tables :=
    .snoc (.init ⟨clearedTables, ht⟩) rfl
  refine ⟨_, (pagingVaddr2paddr_correct sampleLayout _ _ hrun 0xc0000123).trans ?_⟩
  have hwalk : translate sampleLayout
      (Memory.map sampleLayout ⟨t, fun _ => 0⟩ 0xc0000000 0x100000 true) 0xc0000123 =
        some ⟨0x100123, true⟩ :=
    translate_map_page (m := ⟨t, fun _ => 0⟩) hinv hacc (by decide)
  rw [hwalk]
  rfl

end Kboot86
