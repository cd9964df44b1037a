import Kboot86.Lib.Elf32.Writes

/-!
# `elf32_map` with paging on

`main` calls `elf32_map` when paging is on, so `paging_map` finds its tables
through the pages on which they are mapped. `elf32Map` changes them directly.
For an image whose segments keep off the tables this makes no difference: they
stay mapped where they lie, and what has been proved of `elf32Map` holds of
`elf32MapPaged`.
-/

namespace Kboot86.Elf32

open Exec

/-- No page of the segment is one of the tables. -/
def Phdr.SparesTables (L : Layout) (h : Phdr) : Prop :=
  ∀ v a, Reaches L v a → ¬ h.Covers a.toNat

section

variable {L : Layout} {img : UInt32} {len : Nat} {file : Nat → UInt8} {phoff : Nat} {s : State}

theorem Reaches.place {v a : UInt32} (ha : Reaches L v a) : L.place a.toNat ≠ .other := by
  rcases ha with rfl | ⟨-, rfl⟩
  · have hpde := L.place_pde (i := 0) (by decide) (k := 0) (by decide)
    rw [show L.pageDirAddr.toNat = L.pageDirAddr.toNat + 4 * 0 + 0 from rfl, hpde]
    exact Place.noConfusion
  · have hpte := L.place_pte (tableIdx2ArrayIdx (vaddr2pdIdx v)) (i := 0) (by decide) (k := 0)
      (by decide)
    rw [show (L.tableOf v).toNat = (L.tableOf v).toNat + 4 * 0 + 0 from rfl, Layout.tableOf, hpte]
    exact Place.noConfusion

/-- A segment on its way leaves the tables in place that it spares. -/
theorem Progress.inPlace {g : Target} {c : Nat → UInt8} {m₀ m : Memory} {q n : Nat} {v : UInt32}
    (hp : Progress L g c m₀ m q n) (hin : InPlace L m₀.tables v)
    (hfar : ∀ a, Reaches L v a → ¬ (g.vaddr ≤ a.toNat ∧ a.toNat < g.vaddr + q)) :
    InPlace L m.tables v where
  tables a ha := by
    have hleads := hin.tables a ha
    have hlt := hleads.lt
    obtain ⟨w, htr⟩ := hleads.translate
    rw [ha.aligned, Nat.add_zero] at htr
    refine hp.inv.toTablesInv.leads_of_translate (w := w) (by omega) ha.aligned ?_
    rw [hp.pages a (by omega), if_neg (hfar a ha), htr]
  own himpl := hp.inv.toTablesInv.ownTable himpl

theorem mapProgsegPaged_eq (himg : ImageAt L s.mem img len file) (hinv : PagingInv L s.mem.tables)
    {phdr : UInt32} {o : Nat} (hphdr : phdr.toNat = img.toNat + o) (ho : o + 32 ≤ len)
    (hok : SegmentOk L img len (phdrAt file o)) (hin : ∀ v, InPlace L s.mem.tables v)
    (hfar : (phdrAt file o).SparesTables L) :
    mapProgsegPaged L img phdr s = mapProgseg L img phdr s := by
  rw [mapProgsegPaged, mapProgsegBy_eq, mapProgseg_eq]
  refine bind_congr_of_wp (readPhdr_wp himg hphdr ho) ?_
  rintro h s1 ⟨rfl, hs1⟩
  refine bind_congr_of_wp (validProgseg_wp hok.target (s := s1) rfl rfl rfl) ?_
  rintro valid s2 ⟨rfl, rfl⟩
  set h := phdrAt file o
  let h' : Phdr := { h with type := ptLoad }
  have hok' : SegmentOk L img len h' := ⟨hok.target, hok.filesz_le, hok.inFile, hok.avoids⟩
  have hturns : turns (turnPaged L img h') h.memsz.toNat s2 =
      turns (turn L img h') h.memsz.toNat s2 := by
    refine turnsPaged_eq fun k hk s3 hrun _ => ?_
    have hprogress := wlp_of_wp (turns_progress himg hinv hok' hs1 (Nat.le_of_lt hk))
    have hround := roundUp_mono (Nat.le_of_lt hk)
    refine (hprogress true s3 hrun).2.inPlace (hin _) fun a ha hpages => hfar _ a ha ?_
    exact ⟨hpages.1, Nat.lt_of_lt_of_le hpages.2 (Nat.add_le_add_left hround _)⟩
  rw [if_neg (by simp), if_neg (by simp), turnCount_of_le hok'.filesz_le]
  change (turns (turnPaged L img h') _ >>= _) s2 = (turns (turn L img h') _ >>= _) s2
  rw [bind_apply, bind_apply, hturns]

theorem mapLoopPaged_eq (hlen : 52 ≤ len) :
    ∀ (k i n : Nat) (phdr : UInt32) (s : State), ImageAt L s.mem img len file →
      PagingInv L s.mem.tables → (∀ v, InPlace L s.mem.tables v) →
      i + k = (halfAt file 44).toNat → k < n →
      (0 < k → phdr.toNat = img.toNat + (phoff + 32 * i)) → phoff + 32 * (i + k) ≤ len →
      (∀ h ∈ segmentsFrom file phoff i k, SegmentOk L img len h ∧ h.SparesTables L) →
      mapLoopBy L (callPagingMapPaged L) img n i phdr s = mapLoop L img n i phdr s
  | _, _, 0, _, _, _, _, _, _, hn, _, _, _ => by omega
  | 0, i, n + 1, phdr, s, himg, _, _, hi, _, _, _, _ => by
      unfold mapLoop mapLoopBy
      refine bind_congr_of_wp (loadPhnum_wp himg hlen) ?_
      rintro phnum s1 ⟨rfl, -⟩
      rw [if_neg (by omega), if_neg (by omega)]
  | k + 1, i, n + 1, phdr, s, himg, hinv, hin, hi, hn, hphdr, htab, hsegs => by
      have hphdr' := hphdr (by omega)
      have hnext := next_phdr himg.fits hphdr' htab
      have hsplit := segmentsFrom_succ file phoff i k
      unfold mapLoop mapLoopBy
      refine bind_congr_of_wp (loadPhnum_wp himg hlen) ?_
      rintro phnum s1 ⟨rfl, hs1⟩
      have himg1 : ImageAt L s1.mem img len file := hs1 ▸ himg
      rw [if_pos (by omega), if_pos (by omega)]
      refine bind_congr_of_wp (progsegIsLoadable_wp himg1 hphdr' (by omega)) ?_
      rintro loadable s2 ⟨rfl, hs2⟩
      have himg2 : ImageAt L s2.mem img len file := hs2 ▸ himg1
      rw [← hs1, ← hs2] at hinv hin
      cases hload : (phdrAt file (phoff + 32 * i)).loadable with
      | false =>
          rw [hload, if_neg (by simp)] at hsplit
          rw [hsplit] at hsegs
          rw [if_pos (by simp), if_pos (by simp)]
          exact mapLoopPaged_eq hlen k (i + 1) n _ s2 himg2 hinv hin (by omega) (by omega) hnext
            (by omega) hsegs
      | true =>
          rw [hload, if_pos rfl] at hsplit
          rw [hsplit] at hsegs
          obtain ⟨hok, hfar⟩ := hsegs _ List.mem_cons_self
          rw [if_neg (by simp), if_neg (by simp), bind_apply,
            show mapProgsegBy L (callPagingMapPaged L) img phdr s2 = mapProgseg L img phdr s2 from
              mapProgsegPaged_eq himg2 hinv hphdr' (by omega) hok hin hfar, ← bind_apply]
          refine bind_congr_of_wp (mapProgseg_wp himg2 hinv hphdr' (by omega) hok) ?_
          rintro rc s3 ⟨rfl, hp3⟩
          have himg3 := himg2.progress hinv hok.avoids hp3 (Nat.le_refl _) (Nat.le_refl _)
          rw [if_neg (by simp), if_neg (by simp)]
          exact mapLoopPaged_eq hlen k (i + 1) n _ s3 himg3 hp3.inv
            (fun v => hp3.inPlace (hin v) fun a ha => hfar v a ha) (by omega) (by omega) hnext
            (by omega) fun h hh => hsegs h (List.mem_cons_of_mem _ hh)

/-- An image that can be mapped, of segments that spare the tables, is mapped
through the pages of the tables as it is without paging. -/
theorem Mappable.elf32MapPaged_eq (hm : Mappable L s.mem img len file)
    (hinv : PagingInv L s.mem.tables)
    (hsup : wp (elf32IsSupported L img) s fun ok _ => ok = true)
    (hin : ∀ v, InPlace L s.mem.tables v) (hfar : ∀ h ∈ segments file, h.SparesTables L) :
    elf32MapPaged L img s = elf32Map L img s := by
  rcases hsup with ⟨ok, s1, hs1, rfl⟩
  have hmem1 : s1.mem = s.mem := readOnly_elf32IsSupported L img s _ _ hs1
  obtain ⟨hphdr, hstart⟩ := hm.first_phdr hinv (ne_zero_of_supported hs1)
  have hlen := hm.header
  have htab := hm.table
  unfold elf32MapPaged elf32Map elf32MapBy
  refine bind_congr_of_wp (Q := fun ok s' => ok = true ∧ s'.mem = s.mem)
    ⟨_, _, hs1, rfl, hmem1⟩ ?_
  rintro ok s2 ⟨rfl, hs2⟩
  rw [← hs2] at hm hinv hin
  rw [if_neg (by simp), if_neg (by simp)]
  refine bind_congr_of_wp (getProgtab_wp hm.image hlen) ?_
  rintro phdr s3 ⟨rfl, hs3⟩
  rw [← hs3] at hm hinv hin
  rw [if_neg hphdr, if_neg hphdr]
  refine bind_congr_of_wp (progsegsGetMemsz_wp hm.image hlen htab hphdr fun _ => hstart) ?_
  rintro total s4 ⟨-, hs4⟩
  rw [← hs4] at hm hinv hin
  split
  · rfl
  · have hloop : mapLoopBy L (callPagingMapPaged L) img (2 ^ 16) 0 (img + wordAt file 28) s4 =
        mapLoop L img (2 ^ 16) 0 (img + wordAt file 28) s4 :=
      mapLoopPaged_eq hlen _ 0 _ _ s4 hm.image hinv hin (Nat.zero_add _) (phnum_lt file)
        (fun _ => hstart) (by omega) fun h hh => ⟨hm.mappable h hh, hfar h hh⟩
    rw [bind_apply, hloop, ← bind_apply]
    rfl

theorem BootableSegment.sparesTables {own : Set Nat} {h : Phdr}
    (hb : BootableSegment own img len h) (hown : ∀ pa, L.place pa ≠ .other → pa ∈ own) :
    h.SparesTables L :=
  fun _ a ha hcov => (hb.pages a.toNat hcov).1 (hown a.toNat ha.place)

/-- With paging on, `elf32_map` returns the entry point of a bootable image and
leaves its segments loaded, if the tables are mapped where they lie. -/
theorem elf32MapPaged_loads {own : Set Nat} {ops : List PagingOp}
    (hb : Bootable L own ops s img len file) (hin : ∀ v, InPlace L s.mem.tables v) :
    ∃ s', elf32MapPaged L img s = .ok (wordAt file 24, s') ∧
      Loaded L file (segments file) s.mem s'.mem := by
  obtain ⟨s1, hs1⟩ := hb.accepted
  obtain ⟨entry, s', hs', rfl, -, hloaded⟩ := hb.wp_elf32Map
  refine ⟨s', ?_, hloaded⟩
  rw [hb.mappable.elf32MapPaged_eq (pagingInv_of_run hb.run) ⟨true, s1, hs1, rfl⟩ hin
    fun h hh => (hb.segment h hh).sparesTables hb.tables_own, hs']

end

end Kboot86.Elf32
