import Kboot86.Lib.Elf32.Loaded
import Kboot86.Lib.Elf32.Supported

/-!
# `elf32_map` loads the image

The loops over the program headers and the whole of `elf32_map`, for an image
whose segments can be mapped, avoid the image and the loader's own memory and
keep apart from each other: the call returns the entry point and the segments
are `Loaded`.
-/

namespace Kboot86.Elf32

open Exec

def totalMemsz (segs : List Phdr) : Nat := (segs.map fun h => h.memsz.toNat).sum

section Headers

variable {L : Layout} {img : UInt32} {len : Nat} {file : Nat → UInt8} {phoff : Nat}

theorem getProgtab_wp {s : State} (himg : ImageAt L s.mem img len file) (hlen : 52 ≤ len) :
    wp (getProgtab L img) s fun phdr s' => phdr = img + wordAt file 28 ∧ s'.mem = s.mem := by
  have hfits := himg.fits
  have hoff : (img + ePhoff).toNat = img.toNat + 28 := by
    rw [UInt32.toNat_add, show ePhoff.toNat = 28 from rfl]
    omega
  apply wp_bind (himg.loadWord_wp hoff (by omega))
  rintro phoff s' ⟨rfl, hs'⟩
  exact wp_pure ⟨rfl, hs'⟩

theorem loadPhnum_wp {s : State} (himg : ImageAt L s.mem img len file) (hlen : 52 ≤ len) :
    wp (loadHalf L (img + ePhnum)) s fun n s' => n = halfAt file 44 ∧ s'.mem = s.mem := by
  have hfits := himg.fits
  have hoff : (img + ePhnum).toNat = img.toNat + 44 := by
    rw [UInt32.toNat_add, show ePhnum.toNat = 44 from rfl]
    omega
  exact himg.loadHalf_wp hoff (by omega)

theorem progsegIsLoadable_wp {s : State} (himg : ImageAt L s.mem img len file) {phdr : UInt32}
    {o : Nat} (hphdr : phdr.toNat = img.toNat + o) (ho : o + 32 ≤ len) :
    wp (progsegIsLoadable L phdr) s fun b s' =>
      b = (phdrAt file o).loadable ∧ s'.mem = s.mem := by
  have hfits := himg.fits
  have hoff : (phdr + pType).toNat = img.toNat + o := by
    rw [UInt32.toNat_add, show pType.toNat = 0 from rfl]
    omega
  apply wp_bind (himg.loadWord_wp hoff (by omega))
  rintro type s' ⟨rfl, hs'⟩
  exact wp_pure ⟨rfl, hs'⟩

theorem next_phdr (himg : img.toNat + len ≤ 2 ^ 32) {phdr : UInt32} {i k : Nat}
    (hphdr : phdr.toNat = img.toNat + (phoff + 32 * i))
    (htab : phoff + 32 * (i + (k + 1)) ≤ len) :
    0 < k → (phdr + sizeofPhdr).toNat = img.toNat + (phoff + 32 * (i + 1)) := by
  intro hk
  rw [UInt32.toNat_add, show sizeofPhdr.toNat = 32 from rfl]
  omega

theorem sumMemsz_wp (hlen : 52 ≤ len) :
    ∀ (k i n : Nat) (phdr sum : UInt32) (s : State), ImageAt L s.mem img len file →
      i + k = (halfAt file 44).toNat → k < n →
      (0 < k → phdr.toNat = img.toNat + (phoff + 32 * i)) → phoff + 32 * (i + k) ≤ len →
      wp (sumMemsz L img n i phdr sum) s fun r s' =>
        r.toNat = (sum.toNat + totalMemsz (segmentsFrom file phoff i k)) % 2 ^ 32 ∧
          s'.mem = s.mem
  | _, _, 0, _, _, _, _, _, hn, _, _ => by omega
  | 0, i, n + 1, phdr, sum, s, himg, hi, _, _, _ => by
      unfold sumMemsz
      apply wp_bind (loadPhnum_wp himg hlen)
      rintro phnum s1 ⟨rfl, hs1⟩
      rw [if_neg (by omega)]
      refine wp_pure ⟨?_, hs1⟩
      rw [show totalMemsz (segmentsFrom file phoff i 0) = 0 from rfl, Nat.add_zero,
        Nat.mod_eq_of_lt sum.toNat_lt]
  | k + 1, i, n + 1, phdr, sum, s, himg, hi, hn, hphdr, htab => by
      have hphdr' := hphdr (by omega)
      have hnext := next_phdr himg.fits hphdr' htab
      have hsplit := segmentsFrom_succ file phoff i k
      have hfits := himg.fits
      unfold sumMemsz
      apply wp_bind (loadPhnum_wp himg hlen)
      rintro phnum s1 ⟨rfl, hs1⟩
      have himg1 : ImageAt L s1.mem img len file := hs1 ▸ himg
      rw [if_pos (by omega)]
      apply wp_bind (progsegIsLoadable_wp himg1 hphdr' (by omega))
      rintro loadable s2 ⟨rfl, hs2⟩
      have himg2 : ImageAt L s2.mem img len file := hs2 ▸ himg1
      cases hload : (phdrAt file (phoff + 32 * i)).loadable with
      | false =>
          rw [hload, if_neg (by simp)] at hsplit
          rw [hsplit]
          refine wp_mono (sumMemsz_wp hlen k (i + 1) n _ sum s2 himg2 (by omega) (by omega) hnext
            (by omega)) ?_
          rintro r s' ⟨hr, hs'⟩
          exact ⟨hr, by rw [hs', hs2, hs1]⟩
      | true =>
          rw [hload, if_pos rfl] at hsplit
          have hcons : totalMemsz (segmentsFrom file phoff i (k + 1)) =
              (phdrAt file (phoff + 32 * i)).memsz.toNat +
                totalMemsz (segmentsFrom file phoff (i + 1) k) := by
            rw [hsplit]
            simp [totalMemsz]
          have hoff : (phdr + pMemsz).toNat = img.toNat + (phoff + 32 * i + 20) := by
            rw [UInt32.toNat_add, show pMemsz.toNat = 20 from rfl]
            omega
          rw [if_pos rfl]
          apply wp_bind (himg2.loadWord_wp hoff (by omega))
          rintro memsz s3 ⟨rfl, hs3⟩
          have himg3 : ImageAt L s3.mem img len file := hs3 ▸ himg2
          have hadd : (sum + wordAt file (phoff + 32 * i + 20)).toNat =
              (sum.toNat + (phdrAt file (phoff + 32 * i)).memsz.toNat) % 2 ^ 32 :=
            UInt32.toNat_add sum _
          refine wp_mono (sumMemsz_wp hlen k (i + 1) n _ _ s3 himg3 (by omega) (by omega) hnext
            (by omega)) ?_
          rintro r s' ⟨hr, hs'⟩
          exact ⟨by omega, by rw [hs', hs3, hs2, hs1]⟩

theorem mapLoop_wp (hlen : 52 ≤ len) :
    ∀ (k i n : Nat) (phdr : UInt32) (s : State), ImageAt L s.mem img len file →
      PagingInv L s.mem.tables → i + k = (halfAt file 44).toNat → k < n →
      (0 < k → phdr.toNat = img.toNat + (phoff + 32 * i)) → phoff + 32 * (i + k) ≤ len →
      (∀ h ∈ segmentsFrom file phoff i k, SegmentOk L img len h) →
      (segmentsFrom file phoff i k).Pairwise Phdr.Apart →
      wp (mapLoop L img n i phdr) s fun ok s' =>
        ok = true ∧ ImageAt L s'.mem img len file ∧ PagingInv L s'.mem.tables ∧
          Loaded L file (segmentsFrom file phoff i k) s.mem s'.mem
  | _, _, 0, _, _, _, _, _, hn, _, _, _, _ => by omega
  | 0, i, n + 1, phdr, s, himg, hinv, hi, _, _, _, _, _ => by
      unfold mapLoop mapLoopBy
      apply wp_bind (loadPhnum_wp himg hlen)
      rintro phnum s1 ⟨rfl, hs1⟩
      rw [if_neg (by omega)]
      exact wp_pure ⟨rfl, hs1 ▸ himg, hs1 ▸ hinv, by rw [hs1]; exact Loaded.nil⟩
  | k + 1, i, n + 1, phdr, s, himg, hinv, hi, hn, hphdr, htab, hsegs, hapart => by
      have hphdr' := hphdr (by omega)
      have hnext := next_phdr himg.fits hphdr' htab
      have hsplit := segmentsFrom_succ file phoff i k
      unfold mapLoop mapLoopBy
      apply wp_bind (loadPhnum_wp himg hlen)
      rintro phnum s1 ⟨rfl, hs1⟩
      have himg1 : ImageAt L s1.mem img len file := hs1 ▸ himg
      rw [if_pos (by omega)]
      apply wp_bind (progsegIsLoadable_wp himg1 hphdr' (by omega))
      rintro loadable s2 ⟨rfl, hs2⟩
      have hmem2 : s2.mem = s.mem := hs2.trans hs1
      have himg2 : ImageAt L s2.mem img len file := hs2 ▸ himg1
      have hinv2 : PagingInv L s2.mem.tables := hmem2 ▸ hinv
      cases hload : (phdrAt file (phoff + 32 * i)).loadable with
      | false =>
          rw [hload, if_neg (by simp)] at hsplit
          rw [hsplit] at hsegs hapart ⊢
          rw [if_pos (by simp), ← hmem2]
          exact mapLoop_wp hlen k (i + 1) n _ s2 himg2 hinv2 (by omega) (by omega) hnext
            (by omega) hsegs hapart
      | true =>
          rw [hload, if_pos rfl] at hsplit
          rw [hsplit] at hsegs hapart ⊢
          have hseg := hsegs _ (List.mem_cons_self)
          rw [if_neg (by simp)]
          apply wp_bind (mapProgseg_wp himg2 hinv2 hphdr' (by omega) hseg)
          rintro rc s3 ⟨rfl, hp3⟩
          have himg3 := himg2.progress hinv2 hseg.avoids hp3 (Nat.le_refl _) (Nat.le_refl _)
          rw [hmem2] at hp3
          rw [if_neg (by simp)]
          refine wp_mono (mapLoop_wp hlen k (i + 1) n _ s3 himg3 hp3.inv (by omega) (by omega)
            hnext (by omega) (fun h hh => hsegs h (List.mem_cons_of_mem _ hh))
            (List.pairwise_cons.mp hapart).2) ?_
          rintro ok s' ⟨hok, himg', hinv', hrest⟩
          have hfirst := Loaded.of_progress hseg.target hp3
          exact ⟨hok, himg', hinv',
            Loaded.cons hseg.target hfirst hrest (List.pairwise_cons.mp hapart).1⟩

/-- What is known of the image before it is mapped: it lies in memory, with the
tables of its header in it, and its segments can be mapped. -/
structure Mappable (L : Layout) (m : Memory) (img : UInt32) (len : Nat) (file : Nat → UInt8) :
    Prop where
  image : ImageAt L m img len file
  header : 52 ≤ len
  table : (wordAt file 28).toNat + 32 * (halfAt file 44).toNat ≤ len
  mappable : ∀ h ∈ segments file, SegmentOk L img len h
  apart : (segments file).Pairwise Phdr.Apart
  total : totalMemsz (segments file) ≤ kernelMemszMax.toNat

theorem ne_zero_of_supported {s s' : State} (h : elf32IsSupported L img s = .ok (true, s')) :
    img ≠ 0 := by
  rintro rfl
  cases h

theorem phnum_lt (file : Nat → UInt8) : (halfAt file 44).toNat < 2 ^ 16 := by
  rw [halfAt_toNat]
  exact le16_lt file 44

/-- The image ends below the last 4 MiB, so the address of its table does not
wrap. -/
theorem Mappable.first_phdr {m : Memory} (hm : Mappable L m img len file)
    (hinv : PagingInv L m.tables) (hne : img ≠ 0) :
    img + wordAt file 28 ≠ 0 ∧
      (img + wordAt file 28).toNat = img.toNat + ((wordAt file 28).toNat + 32 * 0) := by
  have hpos : 0 < img.toNat := Nat.pos_of_ne_zero fun h => hne (UInt32.toNat_inj.mp h)
  have hfits := hm.image.fits
  have hlen := hm.header
  have htab := hm.table
  have hlast : (img + UInt32.ofNat (len - 1)).toNat = img.toNat + (len - 1) := by
    rw [UInt32.toNat_add, UInt32.toNat_ofNat']
    omega
  have hbelow : (img + UInt32.ofNat (len - 1)).toNat < 0xffc00000 :=
    hm.image.below hinv (by omega) (by omega)
  have hstart : (img + wordAt file 28).toNat =
      img.toNat + ((wordAt file 28).toNat + 32 * 0) := by
    rw [UInt32.toNat_add]
    omega
  refine ⟨fun h => ?_, hstart⟩
  rw [h, UInt32.toNat_zero] at hstart
  omega

theorem progsegsGetMemsz_wp {s : State} (himg : ImageAt L s.mem img len file) (hlen : 52 ≤ len)
    (htab : (wordAt file 28).toNat + 32 * (halfAt file 44).toNat ≤ len)
    (hphdr : img + wordAt file 28 ≠ 0)
    (hstart : 0 < (halfAt file 44).toNat →
      (img + wordAt file 28).toNat = img.toNat + ((wordAt file 28).toNat + 32 * 0)) :
    wp (progsegsGetMemsz L img) s fun r s' =>
      r.toNat = totalMemsz (segments file) % 2 ^ 32 ∧ s'.mem = s.mem := by
  apply wp_bind (getProgtab_wp himg hlen)
  rintro phdr s1 ⟨rfl, hs1⟩
  rw [if_neg hphdr]
  refine wp_mono (sumMemsz_wp hlen (halfAt file 44).toNat 0 (2 ^ 16) _ 0 s1 (hs1 ▸ himg)
    (Nat.zero_add _) (phnum_lt file) hstart (by omega)) ?_
  rintro r s' ⟨hr, hs'⟩
  rw [UInt32.toNat_zero, Nat.zero_add] at hr
  exact ⟨hr, hs'.trans hs1⟩

/-- `elf32_map` returns the entry point and loads the segments. -/
theorem elf32Map_wp {s : State} (hinv : PagingInv L s.mem.tables)
    (hm : Mappable L s.mem img len file)
    (hsup : wp (elf32IsSupported L img) s fun ok _ => ok = true) :
    wp (elf32Map L img) s fun entry s' =>
      entry = wordAt file 24 ∧ PagingInv L s'.mem.tables ∧
        Loaded L file (segments file) s.mem s'.mem := by
  rcases hsup with ⟨ok, s1, hs1, rfl⟩
  have hmem1 : s1.mem = s.mem := readOnly_elf32IsSupported L img s _ _ hs1
  obtain ⟨hphdr, hstart⟩ := hm.first_phdr hinv (ne_zero_of_supported hs1)
  have hfits := hm.image.fits
  have hlen := hm.header
  have htab := hm.table
  unfold elf32Map elf32MapBy
  refine wp_bind (Q := fun ok s' => ok = true ∧ s'.mem = s.mem) ⟨_, _, hs1, rfl, hmem1⟩ ?_
  rintro ok s2 ⟨rfl, hs2⟩
  rw [← hs2] at hm hinv
  rw [if_neg (by simp)]
  apply wp_bind (getProgtab_wp hm.image hlen)
  rintro phdr s3 ⟨rfl, hs3⟩
  rw [← hs3] at hm hinv
  rw [if_neg hphdr]
  refine wp_bind (progsegsGetMemsz_wp hm.image hlen htab hphdr fun _ => hstart) ?_
  rintro total s4 ⟨htotal, hs4⟩
  have hsize := hm.total
  rw [kernelMemszMax_toNat] at hsize
  rw [Nat.mod_eq_of_lt (by omega)] at htotal
  rw [← hs4] at hm hinv
  rw [if_neg (by
    rw [gt_iff_lt, UInt32.lt_iff_toNat_lt, htotal, Nat.not_lt]
    exact hm.total)]
  refine wp_bind (mapLoop_wp hlen (halfAt file 44).toNat 0 (2 ^ 16) _ s4 hm.image hinv
    (Nat.zero_add _) (phnum_lt file) (fun _ => hstart) (by omega) hm.mappable hm.apart) ?_
  rintro mapped s5 ⟨rfl, himg, hinv', hloaded⟩
  rw [if_neg (by simp)]
  have hentry : (img + eEntry).toNat = img.toNat + 24 := by
    rw [UInt32.toNat_add, show eEntry.toNat = 24 from rfl]
    omega
  apply wp_mono (himg.loadWord_wp hentry (by omega))
  rintro entry s' ⟨rfl, hs'⟩
  rw [hs4, hs3, hs2] at hloaded
  rw [hs']
  exact ⟨rfl, hinv', hloaded⟩

end Headers

end Kboot86.Elf32
