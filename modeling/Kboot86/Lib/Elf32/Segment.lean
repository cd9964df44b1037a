import Kboot86.Lib.Elf32.Turn

/-!
# One segment

`mapProgseg_wp` is the specification of `_map_progseg` for a segment that can
be mapped and stays away from the image: it succeeds, and the memory afterwards
is the memory before with the segment's pages mapped and its bytes in place.
`turn_progress` follows one turn of the loops, and the run is one turn for each
byte in memory.
-/

namespace Kboot86.Elf32

open Exec

/-- What is known of a segment before it is mapped: it can be mapped, the part
of the file it needs is in the image, and it avoids the image. -/
structure SegmentOk (L : Layout) (img : UInt32) (len : Nat) (h : Phdr) : Prop where
  target : h.target.Ok L
  filesz_le : h.filesz.toNat ≤ h.memsz.toNat
  inFile : 0 < h.filesz.toNat → h.offset.toNat + h.filesz.toNat ≤ len
  avoids : ImageAt.Avoids h.target img len

section

variable {L : Layout} {m₀ m : Memory} {img : UInt32} {len : Nat} {file : Nat → UInt8} {h : Phdr}
  {c : Nat → UInt8} {k : Nat}

theorem Target.Ok.toNat_add (hok : h.target.Ok L) (hk : k < h.memsz.toNat) :
    (h.vaddr + UInt32.ofNat k).toNat = h.vaddr.toNat + k ∧
      (h.paddr + UInt32.ofNat k).toNat = h.paddr.toNat + k := by
  have hbelow : h.vaddr.toNat + roundUp (k + 1) ≤ 0xffc00000 := hok.below hk
  have hup := le_roundUp (k + 1)
  have hple : h.paddr.toNat + h.memsz.toNat ≤ kernelPaddrMax.toNat := hok.paddr_le
  rw [kernelPaddrMax_toNat] at hple
  exact ⟨toNat_add_ofNat (by omega), toNat_add_ofNat (by omega)⟩

theorem Target.Ok.accepts (hok : h.target.Ok L) (hk : k < h.memsz.toNat) : Accepts h k := by
  intro hpage
  obtain ⟨hva, hpa⟩ := hok.toNat_add hk
  have hval : h.vaddr.toNat % 4096 = 0 := hok.vaddr_aligned
  exact hok.mapAccepts hk (by omega) hva hpa

theorem Progress.openMem (hok : h.target.Ok L) (hk : k < h.memsz.toNat)
    (hp : Progress L h.target c m₀ m (roundUp k) k) :
    Progress L h.target c m₀ (openMem L h k m) (roundUp (k + 1)) k := by
  obtain ⟨hva, hpa⟩ := hok.toNat_add hk
  have hval : h.vaddr.toNat % 4096 = 0 := hok.vaddr_aligned
  rw [Elf32.openMem]
  by_cases hpage : k % 4096 = 0
  · obtain ⟨hthis, hnext⟩ := roundUp_succ_of_dvd hpage
    rw [hthis] at hp
    rw [if_pos (by omega), hnext]
    exact hp.map hpage hva hpa hok.vaddr_aligned hok.paddr_aligned (hok.accepts hk (by omega))
  · rw [if_neg (by omega), roundUp_succ_of_not_dvd hpage]
    exact hp

theorem fetch_content {s : State} (himg : ImageAt L s.mem img len file)
    (hin : 0 < h.filesz.toNat → h.offset.toNat + h.filesz.toNat ≤ len) (k : Nat) :
    wp (fetch L img h k) s fun b s' => b = h.content file k ∧ s'.mem = s.mem := by
  have hfits := himg.fits
  unfold fetch Phdr.content
  by_cases hk : k < h.filesz.toNat
  · have hlen := hin (by omega)
    rw [if_pos hk, if_pos hk]
    refine himg.loadByte_wp ?_ (by omega)
    rw [toNat_add_ofNat_mod, UInt32.toNat_add]
    omega
  · rw [if_neg hk, if_neg hk]
    exact wp_pure ⟨rfl, rfl⟩

/-- One turn maps the page that byte `k` needs and puts the byte in place. -/
theorem turn_progress (himg : ImageAt L m₀ img len file) (hinv : PagingInv L m₀.tables)
    (hok : SegmentOk L img len h) (hk : k < h.memsz.toNat) {s : State}
    (hp : Progress L h.target (h.content file) m₀ s.mem (roundUp k) k) :
    wp (turn L img h k) s fun ok s' =>
      ok = true ∧ Progress L h.target (h.content file) m₀ s'.mem (roundUp (k + 1)) (k + 1) := by
  have hround := roundUp_mono (m := k + 1) (n := h.memsz.toNat) (by omega)
  refine wp_bind (openPage_wp (hok.target.accepts hk) s) ?_
  rintro mapped s1 ⟨rfl, hs1⟩
  have hp1 := hp.openMem hok.target hk
  rw [← hs1] at hp1
  have himg1 := himg.progress hinv hok.avoids hp1 hround (Nat.le_of_lt hk)
  refine wp_bind (fetch_content himg1 hok.inFile k) ?_
  rintro b s2 ⟨rfl, hs2⟩
  rw [← hs2] at hp1
  refine wp_bind (storeByte_wp hok.target hp1 hk (hok.target.toNat_add hk).1 rfl) ?_
  exact fun _ _ hp2 => wp_pure ⟨rfl, hp2⟩

theorem turns_progress {s : State} (himg : ImageAt L m₀ img len file)
    (hinv : PagingInv L m₀.tables) (hok : SegmentOk L img len h) (hs : s.mem = m₀)
    (hk : k ≤ h.memsz.toNat) :
    wp (turns (turn L img h) k) s fun ok s' =>
      ok = true ∧ Progress L h.target (h.content file) m₀ s'.mem (roundUp k) k := by
  refine turns_wp (I := fun k (s' : State) =>
    Progress L h.target (h.content file) m₀ s'.mem (roundUp k) k) ?_ fun j hj s1 hp => ?_
  · rw [hs]
    exact Progress.zero hinv _ _
  · exact turn_progress himg hinv hok (Nat.lt_of_lt_of_le hj hk) hp

end

theorem validProgseg_wp {L : Layout} {g : Target} (hok : g.Ok L) {s : State}
    {paddr vaddr memsz : UInt32} (hp : paddr.toNat = g.paddr) (hv : vaddr.toNat = g.vaddr)
    (hm : memsz.toNat = g.memsz) :
    wp (validProgseg paddr vaddr memsz) s fun ok s' => ok = true ∧ s' = s := by
  have hpal := hok.paddr_aligned
  have hval := hok.vaddr_aligned
  have hple := hok.paddr_le
  have hvr := hok.vaddr_range
  have hup := le_roundUp g.memsz
  refine ⟨true, s, (validProgseg_iff _ _ _ _ _).mpr ⟨rfl, by omega, by omega, ?_, ?_⟩, rfl, rfl⟩
  · rw [kernelPaddrMax_toNat] at hple ⊢
    omega
  · rw [kernelVaddrMax_toNat] at hvr ⊢
    omega

/-- `_map_progseg` puts the segment in place. -/
theorem mapProgseg_wp {L : Layout} {img : UInt32} {len : Nat} {file : Nat → UInt8} {s : State}
    (himg : ImageAt L s.mem img len file) (hinv : PagingInv L s.mem.tables) {phdr : UInt32}
    {o : Nat} (hphdr : phdr.toNat = img.toNat + o) (ho : o + 32 ≤ len)
    (hok : SegmentOk L img len (phdrAt file o)) :
    wp (mapProgseg L img phdr) s fun rc s' =>
      rc = 0 ∧ Progress L (phdrAt file o).target ((phdrAt file o).content file) s.mem s'.mem
        (roundUp (phdrAt file o).memsz.toNat) (phdrAt file o).memsz.toNat := by
  rw [mapProgseg_eq]
  refine wp_bind (readPhdr_wp himg hphdr ho) ?_
  rintro h s1 ⟨rfl, hs1⟩
  refine wp_bind (validProgseg_wp hok.target (s := s1) rfl rfl rfl) ?_
  rintro valid s2 ⟨rfl, rfl⟩
  set h := phdrAt file o
  have hok' : SegmentOk L img len { h with type := ptLoad } :=
    ⟨hok.target, hok.filesz_le, hok.inFile, hok.avoids⟩
  rw [if_neg (by simp), turnCount_of_le hok'.filesz_le]
  refine wp_bind (turns_progress himg hinv hok' hs1 (Nat.le_refl _)) ?_
  rintro ok s' ⟨rfl, hp⟩
  exact wp_pure ⟨rfl, hp⟩

end Kboot86.Elf32
