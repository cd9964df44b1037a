import Kboot86.Lib.Elf32.Extent
import Kboot86.Lib.Elf32.OwnPages
import Kboot86.Lib.Elf32.TotalSize

/-!
# What the check of a segment lets through

`_valid_progseg` is to keep a segment on page boundaries and within the limits.
Its mask tests multiples of 1024, its sums wrap, its lower limits are missing,
and what it compares with the last usable byte is the first byte behind the
segment. `Regular` names the segments that it judges right all the same, and an
image whose segments are all regular changes no memory outside the limits.
-/

namespace Kboot86.Elf32

open Exec

/-- What a valid segment is to be. -/
structure InValidRange (paddr vaddr memsz : UInt32) : Prop where
  paddr_aligned : paddr.toNat % 4096 = 0
  vaddr_aligned : vaddr.toNat % 4096 = 0
  paddr_range : ∀ k < memsz.toNat, kernelPaddrMin.toNat ≤ paddr.toNat + k ∧
    paddr.toNat + k ≤ kernelPaddrMax.toNat
  vaddr_range : ∀ k < memsz.toNat, kernelVaddrMin.toNat ≤ vaddr.toNat + k ∧
    vaddr.toNat + k ≤ kernelVaddrMax.toNat

def RightlyJudged (paddr vaddr memsz : UInt32) : Prop :=
  ∀ s, (∃ s', validProgseg paddr vaddr memsz s = .ok (true, s')) ↔ InValidRange paddr vaddr memsz

/-- The segment is none of those that the tests get wrong. What passes them is
page-aligned, not below the limits and does not wrap; a segment that is not
empty does not end with the last usable byte; an empty one does not start above
it. -/
structure Regular (paddr vaddr memsz : UInt32) : Prop where
  passes : paddr.toNat % 1024 = 0 → vaddr.toNat % 1024 = 0 →
    (paddr.toNat + memsz.toNat) % 2 ^ 32 ≤ kernelPaddrMax.toNat →
    (vaddr.toNat + memsz.toNat) % 2 ^ 32 ≤ kernelVaddrMax.toNat →
    paddr.toNat % 4096 = 0 ∧ vaddr.toNat % 4096 = 0 ∧
      (0 < memsz.toNat →
        kernelPaddrMin.toNat ≤ paddr.toNat ∧ paddr.toNat + memsz.toNat < 2 ^ 32 ∧
        kernelVaddrMin.toNat ≤ vaddr.toNat ∧ vaddr.toNat + memsz.toNat < 2 ^ 32)
  last : paddr.toNat % 4096 = 0 → vaddr.toNat % 4096 = 0 → 0 < memsz.toNat →
    kernelPaddrMin.toNat ≤ paddr.toNat → kernelVaddrMin.toNat ≤ vaddr.toNat →
    paddr.toNat + memsz.toNat ≤ kernelPaddrMax.toNat + 1 →
    vaddr.toNat + memsz.toNat ≤ kernelVaddrMax.toNat + 1 →
    paddr.toNat + memsz.toNat ≤ kernelPaddrMax.toNat ∧
      vaddr.toNat + memsz.toNat ≤ kernelVaddrMax.toNat
  empty : paddr.toNat % 4096 = 0 → vaddr.toNat % 4096 = 0 → memsz.toNat = 0 →
    paddr.toNat ≤ kernelPaddrMax.toNat ∧ vaddr.toNat ≤ kernelVaddrMax.toNat

theorem kernelPaddrMin_toNat : kernelPaddrMin.toNat = 0x100000 := rfl

theorem kernelVaddrMin_toNat : kernelVaddrMin.toNat = 0x100000 := rfl

theorem validProgseg_accepts_iff (paddr vaddr memsz : UInt32) (s : State) :
    (∃ s', validProgseg paddr vaddr memsz s = .ok (true, s')) ↔
      paddr.toNat % 1024 = 0 ∧ vaddr.toNat % 1024 = 0 ∧
        (paddr.toNat + memsz.toNat) % 2 ^ 32 ≤ kernelPaddrMax.toNat ∧
        (vaddr.toNat + memsz.toNat) % 2 ^ 32 ≤ kernelVaddrMax.toNat := by
  constructor
  · rintro ⟨s', hs'⟩
    exact ((validProgseg_iff _ _ _ _ _).mp hs').2
  · intro h
    exact ⟨s, (validProgseg_iff _ _ _ _ _).mpr ⟨rfl, h⟩⟩

theorem forall_lt_range_iff {a n lo hi : Nat} :
    (∀ k < n, lo ≤ a + k ∧ a + k ≤ hi) ↔ n = 0 ∨ lo ≤ a ∧ a + n ≤ hi + 1 := by
  constructor
  · intro h
    rcases Nat.eq_zero_or_pos n with hn | hn
    · exact .inl hn
    · have hfirst := h 0 hn
      have hlast := h (n - 1) (by omega)
      exact .inr ⟨by omega, by omega⟩
  · rintro (rfl | ⟨hlo, hhi⟩) k hk
    · exact absurd hk (Nat.not_lt_zero k)
    · exact ⟨by omega, by omega⟩

theorem inValidRange_iff (paddr vaddr memsz : UInt32) :
    InValidRange paddr vaddr memsz ↔
      paddr.toNat % 4096 = 0 ∧ vaddr.toNat % 4096 = 0 ∧
        (memsz.toNat = 0 ∨
          kernelPaddrMin.toNat ≤ paddr.toNat ∧
            paddr.toNat + memsz.toNat ≤ kernelPaddrMax.toNat + 1) ∧
        (memsz.toNat = 0 ∨
          kernelVaddrMin.toNat ≤ vaddr.toNat ∧
            vaddr.toNat + memsz.toNat ≤ kernelVaddrMax.toNat + 1) := by
  rw [← forall_lt_range_iff, ← forall_lt_range_iff]
  exact ⟨fun h => ⟨h.paddr_aligned, h.vaddr_aligned, h.paddr_range, h.vaddr_range⟩,
    fun h => ⟨h.1, h.2.1, h.2.2.1, h.2.2.2⟩⟩

/-- The check is right for the regular segments and for no others. -/
theorem rightlyJudged_iff_regular (paddr vaddr memsz : UInt32) :
    RightlyJudged paddr vaddr memsz ↔ Regular paddr vaddr memsz := by
  have hvalid := inValidRange_iff paddr vaddr memsz
  have hpmin := kernelPaddrMin_toNat
  have hvmin := kernelVaddrMin_toNat
  have hpmax := kernelPaddrMax_toNat
  have hvmax := kernelVaddrMax_toNat
  have hplt := paddr.toNat_lt
  have hvlt := vaddr.toNat_lt
  constructor
  · intro h
    have hright := (validProgseg_accepts_iff paddr vaddr memsz
      ⟨⟨clearedTables, fun _ => 0⟩, .text "", []⟩).symm.trans (h _)
    rw [hvalid] at hright
    refine ⟨fun hp hv hpr hvr => ?_, fun hp hv hpos hpmin' hvmin' hpend hvend => ?_,
      fun hp hv hzero => ?_⟩
    · have hall := hright.mp ⟨hp, hv, hpr, hvr⟩
      omega
    · have hall := hright.mpr ⟨hp, hv, .inr ⟨hpmin', hpend⟩, .inr ⟨hvmin', hvend⟩⟩
      omega
    · have hall := hright.mpr ⟨hp, hv, .inl hzero, .inl hzero⟩
      omega
  · rintro ⟨hpasses, hlast, hempty⟩ s
    rw [validProgseg_accepts_iff]
    constructor
    · rintro ⟨hp, hv, hpr, hvr⟩
      have hall := hpasses hp hv hpr hvr
      rw [hvalid]
      omega
    · intro hin
      obtain ⟨hp, hv, hpr, hvr⟩ := hvalid.mp hin
      have hend := hlast hp hv
      have hstart := hempty hp hv
      omega

/-! ### An image of regular segments -/

def Outside (L : Layout) (pa : Nat) : Prop :=
  L.place pa = .other ∧ (pa < kernelPaddrMin.toNat ∨ kernelPaddrMax.toNat < pa)

/-- The tables are in order, and the memory outside the limits is as it was. -/
def KeepsOutside (L : Layout) (m m' : Memory) : Prop :=
  PagingInv L m'.tables ∧ ∀ pa, Outside L pa → m'.load8 L pa = m.load8 L pa

/-- Each header that the loop of `elf32_map` maps, from header number `i` at
`phdr` on, satisfies `Q`. -/
def HeadersMeet (L : Layout) (ehdr : UInt32) (Q : Phdr → Prop) :
    Nat → Nat → UInt32 → State → Prop
  | 0, _, _, _ => True
  | n + 1, i, phdr, s =>
      wlp (loadHalf L (ehdr + ePhnum)) s fun phnum s1 => i < phnum.toNat →
        wlp (progsegIsLoadable L phdr) s1 fun loadable s2 =>
          if loadable then
            wlp (readPhdr L phdr) s2 (fun h _ => Q h) ∧
              wlp (mapProgseg L ehdr phdr) s2 fun rc s3 =>
                rc = 0 → HeadersMeet L ehdr Q n (i + 1) (phdr + sizeofPhdr) s3
          else HeadersMeet L ehdr Q n (i + 1) (phdr + sizeofPhdr) s2

def ImageMeets (L : Layout) (img : UInt32) (Q : Phdr → Prop) (s : State) : Prop :=
  ∀ phdr total s', ComparesTotal L img s phdr total s' → HeadersMeet L img Q (2 ^ 16) 0 phdr s'

def Phdr.Regular (h : Phdr) : Prop := Elf32.Regular h.paddr h.vaddr h.memsz

section

variable {L : Layout} {img phdr : UInt32} {h : Phdr} {s s' : State} {m m' m'' : Memory}

theorem KeepsOutside.trans (h₁ : KeepsOutside L m m') (h₂ : KeepsOutside L m' m'') :
    KeepsOutside L m m'' :=
  ⟨h₂.1, fun pa hpa => (h₂.2 pa hpa).trans (h₁.2 pa hpa)⟩

theorem turns_keepsOutside (hlow : ∀ pa, kernelPaddrMin.toNat ≤ pa → L.place pa = .other)
    (hinv : PagingInv L s.mem.tables) (hal : h.PageAligned)
    (hrange : 0 < h.memsz.toNat → kernelPaddrMin.toNat ≤ h.paddr.toNat ∧
      h.paddr.toNat + h.memsz.toNat ≤ kernelPaddrMax.toNat) :
    wlp (turns (turn L img h) h.memsz.toNat) s fun ok s' =>
      ok = true → KeepsOutside L s.mem s'.mem := by
  refine wlp_mono (turns_wlp (I := fun n (s' : State) =>
    s'.mem.tables = (opened L h s.mem n).tables ∧ (∀ k < n, Accepts h k) ∧
      ∀ pa, Outside L pa → s'.mem.load8 L pa = s.mem.load8 L pa)
    ⟨rfl, fun k hk => absurd hk (Nat.not_lt_zero k), fun _ _ => rfl⟩ ?_) ?_
  · rintro k hk s1 ⟨htables, hacc, hbytes⟩
    obtain ⟨hlo, hhi⟩ := hrange (by omega)
    refine wlp_mono (turn_wlp k s1) fun ok s2 hturn hok => ?_
    have hturned := (hturn hok).1
    have hacc' : ∀ j < k + 1, Accepts h j := by
      intro j hj
      by_cases heq : j = k
      · exact heq ▸ hturned.accepts
      · exact hacc j (by omega)
    have hleads := opened_leads hinv hal hacc'
    have hplace := hlow (h.paddr.toNat + k) (by omega)
    refine ⟨hturned.tables hinv htables fun tr htr => ?_, hacc', fun pa hpa => ?_⟩
    · rw [hleads] at htr
      obtain rfl := Option.some.inj htr
      exact hplace
    · obtain ⟨tr, b, htr, hm2⟩ := hturned.stored
      rw [translate_openMem hinv htables, hleads] at htr
      obtain rfl := Option.some.inj htr
      have hne : pa ≠ h.paddr.toNat + k := by
        rintro rfl
        have hout := hpa.2
        omega
      rw [hm2, Memory.load8_store8_of_ne L _ b hplace hne, ← hbytes pa hpa]
      exact load8_congr _ _ (openMem_bytes s1.mem k) hpa.1
  · rintro ok s' hinvar hok
    obtain ⟨htables, -, hbytes⟩ := hinvar hok
    exact ⟨htables ▸ opened_inv hinv _, hbytes⟩

theorem mapProgseg_keepsOutside (hlow : ∀ pa, kernelPaddrMin.toNat ≤ pa → L.place pa = .other)
    (hinv : PagingInv L s.mem.tables)
    (hmeets : wlp (readPhdr L phdr) s fun h _ => h.Regular) :
    wlp (mapProgseg L img phdr) s fun rc s' => rc = 0 → KeepsOutside L s.mem s'.mem := by
  rintro rc s' hrun rfl
  have hread := hrun
  rw [mapProgseg_eq] at hread
  obtain ⟨h, s1, hphdr, hread⟩ := bind_eq_ok.mp hread
  obtain ⟨valid, s2, hvalid, hread⟩ := bind_eq_ok.mp hread
  cases valid with
  | false => cases hread
  | true =>
      have hent : Enters L phdr s h s2 := ⟨s1, hphdr, hvalid⟩
      obtain ⟨ok, s3, hturns, hpure⟩ := bind_eq_ok.mp hread
      cases ok with
      | false => cases hpure
      | true =>
          cases hpure
          obtain ⟨-, hp, hv, hpr, hvr⟩ := (validProgseg_iff _ _ _ _ _).mp hvalid
          obtain ⟨hpal, hval, hrange⟩ := (hmeets h s1 hphdr).passes hp hv hpr hvr
          have hle := filesz_le_of_accepts fun k hk => turns_accepts hturns (k := k) hk
          rw [turnCount_of_le hle] at hturns
          rw [← hent.mem] at hinv ⊢
          refine turns_keepsOutside hlow hinv ⟨hval, hpal⟩ (fun hpos => ?_) true s' hturns rfl
          have hsum := hrange hpos
          rw [Nat.mod_eq_of_lt hsum.2.1] at hpr
          exact ⟨hsum.1, hpr⟩

theorem mapLoop_keepsOutside (hlow : ∀ pa, kernelPaddrMin.toNat ≤ pa → L.place pa = .other) :
    ∀ (n i : Nat) (phdr : UInt32) (s : State), PagingInv L s.mem.tables →
      HeadersMeet L img Phdr.Regular n i phdr s →
      wlp (mapLoop L img n i phdr) s fun ok s' => ok = true → KeepsOutside L s.mem s'.mem
  | 0, _, _, _, _, _ => fun _ _ h => by cases h
  | n + 1, i, phdr, s, hinv, hmeets => by
      rintro ok s' hrun rfl
      unfold mapLoop mapLoopBy at hrun
      obtain ⟨phnum, s1, hphnum, hrun⟩ := bind_eq_ok.mp hrun
      have hs1 := readOnly_loadHalf L _ s phnum s1 hphnum
      split at hrun
      next hlt =>
        obtain ⟨loadable, s2, hload, hrun⟩ := bind_eq_ok.mp hrun
        have hs2 : s2.mem = s.mem := (readOnly_progsegIsLoadable L phdr s1 _ s2 hload).trans hs1
        have hnext := hmeets phnum s1 hphnum hlt loadable s2 hload
        rw [← hs2] at hinv ⊢
        cases loadable with
        | false => exact mapLoop_keepsOutside hlow n (i + 1) _ s2 hinv hnext true s' hrun rfl
        | true =>
            obtain ⟨hregular, hrest⟩ := hnext
            obtain ⟨rc, s3, hmap, hrun⟩ := bind_eq_ok.mp hrun
            split at hrun
            · cases hrun
            next hrc =>
              have hzero := not_not.mp hrc
              have hkeep := mapProgseg_keepsOutside hlow hinv hregular rc s3 hmap hzero
              exact hkeep.trans (mapLoop_keepsOutside hlow n (i + 1) _ s3 hkeep.1
                (hrest rc s3 hmap hzero) true s' hrun rfl)
      · cases hrun
        exact ⟨hs1 ▸ hinv, fun pa _ => by rw [hs1]⟩

/-- An image of regular segments that is mapped changes no memory outside the
limits. -/
theorem elf32Map_keepsOutside (hlow : ∀ pa, kernelPaddrMin.toNat ≤ pa → L.place pa = .other)
    (hinv : PagingInv L s.mem.tables) (hmeets : ImageMeets L img Phdr.Regular s) {entry : UInt32}
    (hmap : elf32Map L img s = .ok (entry, s')) (hne : entry ≠ 0) :
    KeepsOutside L s.mem s'.mem := by
  obtain ⟨phdr, total, s1, hcompares, hle⟩ := passesSizeCheck_of_mapped hmap hne
  have hs1 := hcompares.mem_total.1
  rw [elf32Map_of_comparesTotal hcompares, if_neg hle] at hmap
  obtain ⟨mapped, s2, hloop, hrun⟩ := bind_eq_ok.mp hmap
  cases mapped with
  | false =>
      cases hrun
      exact absurd rfl hne
  | true =>
      have hs2 : s'.mem = s2.mem := readOnly_loadWord L _ s2 entry s' hrun
      rw [hs2, ← hs1]
      exact mapLoop_keepsOutside hlow _ 0 phdr s1 (hs1 ▸ hinv) (hmeets phdr total s1 hcompares) true
        s2 hloop rfl

end

section

variable {L : Layout} {img : UInt32} {len : Nat} {file : Nat → UInt8} {Q : Phdr → Prop}

theorem headersMeet_of_segments (hlen : 52 ≤ len) {phoff : Nat} :
    ∀ (n k i : Nat) (phdr : UInt32) (s : State), ImageAt L s.mem img len file →
      PagingInv L s.mem.tables → i + k = (halfAt file 44).toNat →
      (0 < k → phdr.toNat = img.toNat + (phoff + 32 * i)) → phoff + 32 * (i + k) ≤ len →
      (∀ h ∈ segmentsFrom file phoff i k, SegmentOk L img len h ∧ Q h) →
      HeadersMeet L img Q n i phdr s
  | 0, _, _, _, _, _, _, _, _, _, _ => trivial
  | n + 1, 0, i, phdr, s, himg, _, hi, _, _, _ => by
      intro phnum s1 hphnum hlt
      obtain ⟨rfl, -⟩ := wlp_of_wp (loadPhnum_wp himg hlen) phnum s1 hphnum
      omega
  | n + 1, k + 1, i, phdr, s, himg, hinv, hi, hphdr, htab, hsegs => by
      have hphdr' := hphdr (by omega)
      have hnext := next_phdr himg.fits hphdr' htab
      rw [segmentsFrom_succ] at hsegs
      intro phnum s1 hphnum _ loadable s2 hload
      obtain ⟨-, hs1⟩ := wlp_of_wp (loadPhnum_wp himg hlen) phnum s1 hphnum
      rw [← hs1] at himg hinv
      obtain ⟨rfl, hs2⟩ := wlp_of_wp (progsegIsLoadable_wp himg hphdr' (by omega)) loadable s2 hload
      rw [← hs2] at himg hinv
      split
      next hyes =>
        rw [if_pos hyes] at hsegs
        obtain ⟨hok, hQ⟩ := hsegs _ List.mem_cons_self
        constructor
        · intro h s3 hread
          obtain ⟨rfl, -⟩ := wlp_of_wp (readPhdr_wp himg hphdr' (by omega)) h s3 hread
          have htype : (phdrAt file (phoff + 32 * i)).type = ptLoad := beq_iff_eq.mp hyes
          rw [← htype]
          exact hQ
        · intro rc s3 hmap _
          obtain ⟨-, hp⟩ := wlp_of_wp (mapProgseg_wp himg hinv hphdr' (by omega) hok) rc s3 hmap
          have himg3 := himg.progress hinv hok.avoids hp (Nat.le_refl _) (Nat.le_refl _)
          exact headersMeet_of_segments hlen n k (i + 1) _ s3 himg3 hp.inv (by omega) hnext
            (by omega) fun h hh => hsegs h (List.mem_cons_of_mem _ hh)
      next hno =>
        rw [if_neg hno] at hsegs
        exact headersMeet_of_segments hlen n k (i + 1) _ s2 himg hinv (by omega) hnext (by omega)
          hsegs

theorem Mappable.imageMeets {s : State} (hm : Mappable L s.mem img len file)
    (hinv : PagingInv L s.mem.tables) (hQ : ∀ h ∈ segments file, Q h) :
    ImageMeets L img Q s := by
  intro phdr total s' hcompares
  have hs' := hcompares.mem_total.1
  obtain ⟨-, s1, s2, hsup, hprog, -⟩ := hcompares
  have hs1 : s1.mem = s.mem := readOnly_elf32IsSupported L img s _ s1 hsup
  obtain ⟨rfl, -⟩ := wlp_of_wp (getProgtab_wp (hs1 ▸ hm.image) hm.header) phdr s2 hprog
  have hfits := hm.image.fits
  have htab := hm.table
  refine headersMeet_of_segments hm.header _ (halfAt file 44).toNat 0 _ s' (hs' ▸ hm.image)
    (hs' ▸ hinv) (Nat.zero_add _) (fun hpos => ?_) (by omega)
    fun h hh => ⟨hm.mappable h hh, hQ h hh⟩
  rw [UInt32.toNat_add]
  omega

end

/-- `_valid_progseg` judges exactly the regular segments right; and, with the
tables of the loader below the limits, an image is mapped without a change
outside the limits when each header that is mapped is that of a regular
segment. -/
theorem rightlyJudged_iff (paddr vaddr memsz : UInt32) :
    (RightlyJudged paddr vaddr memsz ↔ Regular paddr vaddr memsz) ∧
      ∀ (L : Layout) (ops : List PagingOp) (img : UInt32) (s s' : State) (entry : UInt32),
        (∀ pa, kernelPaddrMin.toNat ≤ pa → L.place pa = .other) →
        (pagingSystem L).Run ops s.mem.tables → ImageMeets L img Phdr.Regular s →
        elf32Map L img s = .ok (entry, s') → entry ≠ 0 →
        ∀ pa, Outside L pa → s'.mem.load8 L pa = s.mem.load8 L pa :=
  ⟨rightlyJudged_iff_regular paddr vaddr memsz, fun _ _ _ _ _ _ hlow hrun hmeets hmap hne =>
    (elf32Map_keepsOutside hlow (pagingInv_of_run hrun) hmeets hmap hne).2⟩

theorem regular_sampleSegment : sampleSegment.Regular where
  passes _ _ _ _ := by decide
  last _ _ _ _ _ _ _ := by decide
  empty _ _ h := absurd h (by decide)

/-- Mapping the small image leaves the first megabyte alone. -/
theorem rightlyJudged_iff_sample :
    RightlyJudged 0x400000 0xc0000000 2 ∧
      ∃ s s', elf32Map sampleLayout 0x200000 s = .ok (0xc0000000, s') ∧
        ∀ pa, Outside sampleLayout pa →
          s'.mem.load8 sampleLayout pa = s.mem.load8 sampleLayout pa := by
  obtain ⟨hjudged, hkeeps⟩ := rightlyJudged_iff 0x400000 0xc0000000 2
  refine ⟨hjudged.mpr regular_sampleSegment, ?_⟩
  obtain ⟨t, ht, hinv, hid⟩ := pagingInit_spec sampleLayout clearedTables
  have hb := sample_bootable ht hinv hid
  obtain ⟨entry, s', hs', rfl, -⟩ := hb.wp_elf32Map
  have hmeets : ImageMeets sampleLayout 0x200000 Phdr.Regular (sampleState t) := by
    refine hb.mappable.imageMeets hinv fun h hh => ?_
    rw [segments_sampleFile] at hh
    obtain rfl := List.mem_singleton.mp hh
    exact regular_sampleSegment
  exact ⟨sampleState t, s', hs', hkeeps sampleLayout [] 0x200000 _ s' _
    (fun pa => sampleLayout_place) (.init ⟨clearedTables, ht⟩) hmeets hs' (by decide)⟩

/-- A segment at the start of memory is accepted. -/
theorem not_rightlyJudged_low : ¬ RightlyJudged 0 0x100000 0x1000 := by
  intro h
  obtain ⟨-, -, hlow, -⟩ := (h ⟨⟨clearedTables, fun _ => 0⟩, .text "", []⟩).mp
    ((validProgseg_accepts_iff _ _ _ _).mpr (by decide))
  exact absurd (hlow 0 (by decide)).1 (by decide)

end Kboot86.Elf32
