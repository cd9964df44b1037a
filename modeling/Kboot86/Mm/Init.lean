import Kboot86.Mm.Invariant

/-!
# The state that `paging_init` sets up

`paging_init` clears the tables, maps the first 15 MiB to themselves page by
page and points the last directory entry at the directory. It succeeds whatever
the tables held before. The loop is followed with the number of pages already
mapped; the invariant is that exactly these pages are mapped, each to itself.
-/

namespace Kboot86

/-- The first `k` pages are mapped to themselves and writable, nothing else is
mapped, and no directory entry beyond the first four is in use. -/
structure IdentityUpTo (t : Tables) (k : Nat) : Prop where
  mapped : ∀ va : UInt32, (lookup t va).map (fun e => (e.frame, e.write)) =
    if va.toNat / 4096 < k then some (va.toNat / 4096 * 4096, true) else none
  high : ∀ n, 4 ≤ n → n < 1023 → (t.pageDir (entryIdx n)).present = false

theorem tablesInv_cleared (L : Layout) (t : Tables) :
    TablesInv L (pageTablesInit (pageDirInit t)) where
  pde n _ hp := by cases hp
  absent _ _ _ _ := rfl

theorem identityUpTo_cleared (t : Tables) :
    IdentityUpTo (pageTablesInit (pageDirInit t)) 0 where
  mapped va := by simp [lookup, pageTablesInit]
  high _ _ _ := rfl

theorem mapAccepts_identity {a : UInt32} {k : Nat} (ha : a.toNat = 4096 * k) (hk : k < 3840) :
    mapAccepts a a = true := by
  have halign : isAddrPageAligned a = true := isAddrPageAligned_of_dvd (by omega)
  have hle : a + (pageSize - 1) ≤ paddrMax := by
    rw [UInt32.le_iff_toNat_le, UInt32.toNat_add, paddrMax_toNat,
      show (pageSize - 1).toNat = 4095 from rfl]
    omega
  have himpl : isTableIdxImplemented (vaddr2pdIdx a) = true := by
    rw [isTableIdxImplemented_vaddr_iff]
    omega
  simp [mapAccepts, halign, hle, himpl]

theorem identityUpTo_step (L : Layout) {t : Tables} {a : UInt32} {k : Nat}
    (ha : a.toNat = 4096 * k) (hk : k < 3840) (h : IdentityUpTo t k) :
    IdentityUpTo (pagingMap L t a a true).1 (k + 1) := by
  have hdiv : a.toNat / 4096 = k := by omega
  have hacc := mapAccepts_identity ha hk
  constructor
  · intro va
    rw [lookup_pagingMap L t true hacc va, hdiv]
    by_cases hva : va.toNat / 4096 = k
    · rw [if_pos hva, if_pos (by omega), Option.map_some, pteOf_frame, hdiv, hva]
      rfl
    · rw [if_neg hva, h.mapped va]
      by_cases hlt : va.toNat / 4096 < k
      · rw [if_pos hlt, if_pos (by omega)]
      · rw [if_neg hlt, if_neg (by omega)]
  · intro n hlo hhi
    have hne : n ≠ vaddr2pdIdx a := by
      rw [vaddr2pdIdx_eq]
      omega
    rw [pagingMap_of_accepts L t true hacc, Tables.setPte_pageDir,
      withPde_pageDir_of_ne L t a (by omega) hne]
    exact h.high n hlo hhi

/-- The loop succeeds from any page on and leaves the first 15 MiB mapped to
themselves. The induction is on the bound, of which `3840 - k` iterations and
the one that leaves the loop are used. -/
theorem setupIdentityFrom_spec (L : Layout) :
    ∀ (n k : Nat) (a : UInt32) (t : Tables), a.toNat = 4096 * k → k ≤ 3840 → 3840 - k < n →
      TablesInv L t → IdentityUpTo t k →
      ∃ t', setupIdentityFrom L n a t = (t', 0) ∧ TablesInv L t' ∧ IdentityUpTo t' 3840
  | 0, k, a, t, _, _, hn, _, _ => by omega
  | n + 1, k, a, t, ha, hk, hn, hinv, hid => by
      have hsum : (a + (pageSize - 1)).toNat = a.toNat + 4095 := by
        rw [UInt32.toNat_add, show (pageSize - 1).toNat = 4095 from rfl]
        omega
      unfold setupIdentityFrom
      by_cases hlt : k < 3840
      · have hle : a + (pageSize - 1) ≤ paddrMax := by
          rw [UInt32.le_iff_toNat_le, hsum, paddrMax_toNat]
          omega
        have hcode := (pagingMap_code L t a a true).mpr (mapAccepts_identity ha hlt)
        have hnext : (a + pageSize).toNat = 4096 * (k + 1) := by
          rw [UInt32.toNat_add, pageSize_toNat]
          omega
        rw [if_pos hle]
        simp only [hcode, ne_eq, not_true_eq_false, ↓reduceIte]
        exact setupIdentityFrom_spec L n (k + 1) _ _ hnext (by omega) (by omega)
          (hinv.pagingMap a a true) (identityUpTo_step L ha hlt hid)
      · have hgt : ¬ a + (pageSize - 1) ≤ paddrMax := by
          rw [UInt32.le_iff_toNat_le, hsum, paddrMax_toNat]
          omega
        obtain rfl : k = 3840 := by omega
        exact ⟨t, by rw [if_neg hgt], hinv, hid⟩

/-- A directory entry is present when one of its pages is mapped. -/
theorem TablesInv.present_of_lookup {L : Layout} {t : Tables} (h : TablesInv L t) {va : UInt32}
    (hva : (lookup t va).isSome = true) :
    (t.pageDir (entryIdx (vaddr2pdIdx va))).present = true := by
  by_contra hp
  rw [Bool.not_eq_true] at hp
  cases himpl : isTableIdxImplemented (vaddr2pdIdx va) with
  | false => simp [lookup, himpl] at hva
  | true => simp [lookup, h.absent _ himpl hp] at hva

theorem IdentityUpTo.low {L : Layout} {t : Tables} (hinv : TablesInv L t)
    (hid : IdentityUpTo t 3840) {n : Nat} (hn : n < 4) :
    (t.pageDir (entryIdx n)).present = true := by
  have hval : (UInt32.ofNat (4194304 * n)).toNat = 4194304 * n := by
    rw [UInt32.toNat_ofNat']
    omega
  have hpd : vaddr2pdIdx (UInt32.ofNat (4194304 * n)) = n := by
    rw [vaddr2pdIdx_eq, hval]
    omega
  have hsome : (lookup t (UInt32.ofNat (4194304 * n))).isSome = true := by
    have h := hid.mapped (UInt32.ofNat (4194304 * n))
    rw [hval, if_pos (by omega)] at h
    obtain ⟨e, he, -⟩ := Option.map_eq_some_iff.mp h
    rw [he]
    rfl
  have hpres := hinv.present_of_lookup hsome
  rwa [hpd] at hpres

/-- `paging_init` succeeds from any tables, establishes the invariant and
leaves exactly the first 15 MiB mapped, to themselves. -/
theorem pagingInit_spec (L : Layout) (t₀ : Tables) :
    ∃ t, pagingInit L t₀ = (t, 0) ∧ PagingInv L t ∧ IdentityUpTo t 3840 := by
  obtain ⟨t, hrun, hinv, hid⟩ := setupIdentityFrom_spec L (2 ^ 20) 0 0 _ rfl (by omega)
    (by omega) (tablesInv_cleared L t₀) (identityUpTo_cleared t₀)
  have hidx : ∀ n < 1023, entryIdx n ≠ entryIdx 1023 :=
    fun n hn => mt (entryIdx_inj (by omega) (by omega)).mp (by omega)
  refine ⟨t.setPde (entryIdx 1023) (pdeOf L.pageDirAddr), ?_, ?_, hid.mapped, ?_⟩
  · unfold pagingInit setupIdentity
    rw [hrun]
    simp [pageDirAutomap_eq]
  · refine ⟨⟨?_, ?_⟩, ?_, ?_⟩
    · intro n hn hp
      rw [Tables.setPde_pageDir, Function.update_of_ne (hidx n hn)] at hp ⊢
      exact hinv.pde n hn hp
    · intro n hn hp i
      rw [Tables.setPde_pageDir,
        Function.update_of_ne (hidx n (isTableIdxImplemented_lt hn))] at hp
      exact hinv.absent n hn hp i
    · rw [Tables.setPde_pageDir, Function.update_self]
    · intro n hn
      rw [Tables.setPde_pageDir, Function.update_of_ne (hidx n (by omega))]
      exact hid.low hinv hn
  · intro n hlo hhi
    rw [Tables.setPde_pageDir, Function.update_of_ne (hidx n hhi)]
    exact hid.high n hlo hhi

/-- Every state reachable after `paging_init` satisfies the invariant. -/
theorem pagingInv_of_run {L : Layout} {ops : List PagingOp} {t : Tables}
    (h : (pagingSystem L).Run ops t) : PagingInv L t := by
  refine System.Run.invariant (A := pagingSystem L) ?_ ?_ h
  · rintro s ⟨t₀, h₀⟩
    obtain ⟨t', ht', hinv, -⟩ := pagingInit_spec L t₀
    obtain rfl : t' = s := congrArg Prod.fst (ht'.symm.trans h₀)
    exact hinv
  · rintro s op s' hs rfl
    exact hs.step op

end Kboot86
