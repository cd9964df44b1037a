import Kboot86.Lib.Elf32.Bootable

/-!
# The total size

`elf32_map` adds up the sizes of the segments in a 32-bit counter before it
compares them with the limit. `seen L m va` are the bytes that the loader finds
from `va` on, whatever is mapped there, so `segments (seen L m img)` are the
loadable headers of any image. What is compared is their sum modulo `2 ^ 32`.
-/

namespace Kboot86.Elf32

open Exec

def seen (L : Layout) (m : Memory) (va : UInt32) (k : Nat) : UInt8 :=
  match translate L m (va + UInt32.ofNat k) with
  | none => 0
  | some tr => m.load8 L tr.paddr

section

variable (L : Layout) (va : UInt32)

theorem loadByte_seen (k : Nat) (s : State) :
    wlp (loadByte L (va + UInt32.ofNat k)) s fun b s' =>
      b = seen L s.mem va k ∧ s'.mem = s.mem := by
  intro b s' h
  cases htr : translate L s.mem (va + UInt32.ofNat k) with
  | none =>
      rw [loadByte, htr] at h
      cases h
  | some tr =>
      rw [loadByte_eq htr] at h
      cases h
      rw [seen, htr]
      exact ⟨rfl, rfl⟩

theorem loadHalf_seen (k : Nat) (s : State) :
    wlp (loadHalf L (va + UInt32.ofNat k)) s fun a s' =>
      a = halfAt (seen L s.mem va) k ∧ s'.mem = s.mem := by
  refine wlp_bind (loadByte_seen L va k s) ?_
  rintro b0 s1 ⟨rfl, hs1⟩
  have hnext : va + UInt32.ofNat k + 1 = va + UInt32.ofNat (k + 1) := add_ofNat_add va k 1
  rw [hnext, ← hs1]
  refine wlp_bind (loadByte_seen L va (k + 1) s1) ?_
  rintro b1 s2 ⟨rfl, hs2⟩
  exact wlp_pure ⟨rfl, hs2⟩

theorem loadWord_seen (k : Nat) (s : State) :
    wlp (loadWord L (va + UInt32.ofNat k)) s fun a s' =>
      a = wordAt (seen L s.mem va) k ∧ s'.mem = s.mem := by
  refine wlp_bind (loadHalf_seen L va k s) ?_
  rintro h0 s1 ⟨rfl, hs1⟩
  have hnext : va + UInt32.ofNat k + 2 = va + UInt32.ofNat (k + 2) := add_ofNat_add va k 2
  rw [hnext, ← hs1]
  refine wlp_bind (loadHalf_seen L va (k + 2) s1) ?_
  rintro h1 s2 ⟨rfl, hs2⟩
  refine wlp_pure ⟨?_, hs2⟩
  rw [halfAt_toNat, halfAt_toNat]
  rfl

theorem progsegIsLoadable_seen (o : Nat) (s : State) :
    wlp (progsegIsLoadable L (va + UInt32.ofNat o)) s fun b s' =>
      b = (phdrAt (seen L s.mem va) o).loadable ∧ s'.mem = s.mem := by
  have htype : va + UInt32.ofNat o + pType = va + UInt32.ofNat o := UInt32.add_zero _
  unfold progsegIsLoadable
  rw [htype]
  refine wlp_bind (loadWord_seen L va o s) ?_
  rintro type s1 ⟨rfl, hs1⟩
  exact wlp_pure ⟨rfl, hs1⟩

end

section

variable (L : Layout) (img : UInt32)

theorem sumMemsz_seen (phoff : Nat) :
    ∀ (n i : Nat) (sum : UInt32) (s : State), i ≤ (halfAt (seen L s.mem img) 44).toNat →
      wlp (sumMemsz L img n i (img + UInt32.ofNat (phoff + 32 * i)) sum) s fun r s' =>
        r.toNat = (sum.toNat + totalMemsz (segmentsFrom (seen L s.mem img) phoff i
          ((halfAt (seen L s.mem img) 44).toNat - i))) % 2 ^ 32 ∧ s'.mem = s.mem
  | 0, _, _, _, _ => fun _ _ h => by cases h
  | n + 1, i, sum, s, hi => by
      have hnext : img + UInt32.ofNat (phoff + 32 * i) + sizeofPhdr =
          img + UInt32.ofNat (phoff + 32 * (i + 1)) := add_ofNat_add img _ 32
      unfold sumMemsz
      refine wlp_bind (loadHalf_seen L img 44 s) ?_
      rintro phnum s1 ⟨rfl, hs1⟩
      rw [← hs1] at hi ⊢
      by_cases hlt : i < (halfAt (seen L s1.mem img) 44).toNat
      · obtain ⟨k, hk⟩ := Nat.exists_eq_add_of_lt hlt
        have hleft : (halfAt (seen L s1.mem img) 44).toNat - i = k + 1 := by omega
        have hrest : (halfAt (seen L s1.mem img) 44).toNat - (i + 1) = k := by omega
        rw [if_pos hlt, hleft, segmentsFrom_succ, hnext]
        refine wlp_bind (progsegIsLoadable_seen L img _ s1) ?_
        rintro loadable s2 ⟨rfl, hs2⟩
        rw [← hs2] at hlt hrest ⊢
        cases hload : (phdrAt (seen L s2.mem img) (phoff + 32 * i)).loadable with
        | false =>
            have hsum := sumMemsz_seen phoff n (i + 1) sum s2 hlt
            rw [hrest] at hsum
            exact hsum
        | true =>
            have hfield : img + UInt32.ofNat (phoff + 32 * i) + pMemsz =
                img + UInt32.ofNat (phoff + 32 * i + 20) := add_ofNat_add img _ 20
            rw [if_pos rfl, if_pos rfl, hfield]
            refine wlp_bind (loadWord_seen L img _ s2) ?_
            rintro memsz s3 ⟨rfl, hs3⟩
            rw [← hs3] at hlt hrest ⊢
            refine wlp_mono (sumMemsz_seen phoff n (i + 1) _ s3 hlt) ?_
            rintro r s' ⟨hr, hs'⟩
            refine ⟨?_, hs'⟩
            rw [hr, hrest, UInt32.toNat_add, Nat.mod_add_mod, Nat.add_assoc]
            rfl
      · have hzero : (halfAt (seen L s1.mem img) 44).toNat - i = 0 := by omega
        rw [if_neg hlt, hzero]
        refine wlp_pure ⟨?_, rfl⟩
        rw [show totalMemsz (segmentsFrom (seen L s1.mem img) phoff i 0) = 0 from rfl,
          Nat.add_zero, Nat.mod_eq_of_lt sum.toNat_lt]

theorem getProgtab_seen (s : State) :
    wlp (getProgtab L img) s fun phdr s' =>
      phdr = img + wordAt (seen L s.mem img) 28 ∧ s'.mem = s.mem := by
  refine wlp_bind (loadWord_seen L img 28 s) ?_
  rintro phoff s' ⟨rfl, hs'⟩
  exact wlp_pure ⟨rfl, hs'⟩

theorem progsegsGetMemsz_seen (s : State) (hphdr : img + wordAt (seen L s.mem img) 28 ≠ 0) :
    wlp (progsegsGetMemsz L img) s fun r s' =>
      r.toNat = totalMemsz (segments (seen L s.mem img)) % 2 ^ 32 ∧ s'.mem = s.mem := by
  refine wlp_bind (getProgtab_seen L img s) ?_
  rintro phdr s1 ⟨rfl, hs1⟩
  have hsum := sumMemsz_seen L img (wordAt (seen L s1.mem img) 28).toNat (2 ^ 16) 0 0 s1
    (Nat.zero_le _)
  rw [Nat.mul_zero, Nat.add_zero, UInt32.ofNat_toNat, UInt32.toNat_zero, Nat.zero_add,
    Nat.sub_zero, ← segments, hs1] at hsum
  rw [if_neg hphdr]
  exact hsum

end

/-! ### The comparison -/

/-- `elf32_map` comes in state `s'` to the comparison of `total`, with the
first program header at `phdr`. -/
def ComparesTotal (L : Layout) (img : UInt32) (s : State) (phdr total : UInt32) (s' : State) :
    Prop :=
  phdr ≠ 0 ∧ ∃ s1 s2, elf32IsSupported L img s = .ok (true, s1) ∧
    getProgtab L img s1 = .ok (phdr, s2) ∧ progsegsGetMemsz L img s2 = .ok (total, s')

def PassesSizeCheck (L : Layout) (img : UInt32) (s : State) : Prop :=
  ∃ phdr total s', ComparesTotal L img s phdr total s' ∧ ¬ total > kernelMemszMax

section

variable {L : Layout} {img : UInt32} {s s' : State} {phdr total entry : UInt32}

theorem elf32Map_of_comparesTotal (h : ComparesTotal L img s phdr total s') :
    elf32Map L img s =
      (if total > kernelMemszMax then do
        setStrError (.format "required %d bytes, only %d supported" [total, kernelMemszMax])
        pure 0
      else do
        let mapped ← mapLoop L img (2 ^ 16) 0 phdr
        if !mapped then pure 0 else loadWord L (img + eEntry) : Loader UInt32) s' := by
  rcases h with ⟨hne, s1, s2, hsup, hphdr, htotal⟩
  unfold elf32Map elf32MapBy
  simp only [bind_apply, hsup, hphdr, htotal, mapLoop, Bool.not_true, Bool.false_eq_true, hne,
    ↓reduceIte]

theorem passesSizeCheck_of_mapped (h : elf32Map L img s = .ok (entry, s')) (hne : entry ≠ 0) :
    PassesSizeCheck L img s := by
  obtain ⟨supported, s1, hsup, h⟩ := bind_eq_ok.mp h
  split at h
  · cases h
    exact absurd rfl hne
  next hyes =>
  obtain ⟨phdr, s2, hphdr, h⟩ := bind_eq_ok.mp h
  split at h
  · cases h
    exact absurd rfl hne
  next hzero =>
  obtain ⟨total, s3, htotal, h⟩ := bind_eq_ok.mp h
  have hsup' : elf32IsSupported L img s = .ok (true, s1) := by
    rw [hsup, show supported = true by simpa using hyes]
  refine ⟨phdr, total, s3, ⟨hzero, s1, s2, hsup', hphdr, htotal⟩, fun hgt => hne ?_⟩
  rw [if_pos hgt] at h
  cases h
  rfl

/-- Nothing has been written then, and the total is the sum modulo `2 ^ 32`. -/
theorem ComparesTotal.mem_total (h : ComparesTotal L img s phdr total s') :
    s'.mem = s.mem ∧ total.toNat = totalMemsz (segments (seen L s.mem img)) % 2 ^ 32 := by
  rcases h with ⟨hne, s1, s2, hsup, hphdr, htotal⟩
  have hs1 : s1.mem = s.mem := readOnly_elf32IsSupported L img s _ _ hsup
  obtain ⟨rfl, hs2⟩ := getProgtab_seen L img s1 phdr s2 hphdr
  rw [hs1] at hne hs2
  rw [← hs2] at hne ⊢
  obtain ⟨heq, hs'⟩ := progsegsGetMemsz_seen L img s2 hne total s' htotal
  exact ⟨hs', heq⟩

end

/-- The check keeps out the images whose segments have more than
`KERNEL_MEMSZ_MAX` bytes, except those for which it comes to a sum of `2 ^ 32`
or more that is within the limit modulo `2 ^ 32`. -/
theorem sizeCheck_iff (L : Layout) (img : UInt32) (s : State) :
    (PassesSizeCheck L img s →
      totalMemsz (segments (seen L s.mem img)) ≤ kernelMemszMax.toNat) ↔
    ((∃ phdr total s', ComparesTotal L img s phdr total s') →
      totalMemsz (segments (seen L s.mem img)) < 2 ^ 32 ∨
        kernelMemszMax.toNat < totalMemsz (segments (seen L s.mem img)) % 2 ^ 32) := by
  have hover : ∀ {phdr total : UInt32} {s' : State}, ComparesTotal L img s phdr total s' →
      (total > kernelMemszMax ↔
        kernelMemszMax.toNat < totalMemsz (segments (seen L s.mem img)) % 2 ^ 32) := by
    intro phdr total s' h
    rw [gt_iff_lt, UInt32.lt_iff_toNat_lt, h.mem_total.2]
  have hmax := kernelMemszMax_toNat
  constructor
  · rintro hcheck ⟨phdr, total, s', h⟩
    by_cases hgt : total > kernelMemszMax
    · exact .inr ((hover h).mp hgt)
    · have hle := hcheck ⟨phdr, total, s', h, hgt⟩
      omega
  · rintro hsum ⟨phdr, total, s', h, hle⟩
    have hlow := mt (hover h).mpr hle
    rcases hsum ⟨phdr, total, s', h⟩ with hlt | hgt
    · rw [Nat.mod_eq_of_lt hlt] at hlow
      omega
    · exact absurd hgt hlow

/-! ### Two segments of 2 GiB -/

section

variable {f g : Nat → UInt8} {len : Nat}

theorem halfAt_congr (h : ∀ k < len, f k = g k) {k : Nat} (hk : k + 1 < len) :
    halfAt f k = halfAt g k := by
  rw [halfAt, halfAt, le16_congr fun j _ => h (k + j) (by omega)]

theorem wordAt_congr (h : ∀ k < len, f k = g k) {k : Nat} (hk : k + 3 < len) :
    wordAt f k = wordAt g k := by
  rw [wordAt, wordAt, le32, le32, le16_congr fun j _ => h (k + j) (by omega),
    le16_congr fun j _ => h (k + 2 + j) (by omega)]

theorem phdrAt_congr (h : ∀ k < len, f k = g k) {o : Nat} (ho : o + 32 ≤ len) :
    phdrAt f o = phdrAt g o := by
  rw [phdrAt, phdrAt, wordAt_congr h (by omega), wordAt_congr h (by omega),
    wordAt_congr h (by omega), wordAt_congr h (by omega), wordAt_congr h (by omega),
    wordAt_congr h (by omega), wordAt_congr h (by omega)]

/-- The headers of a file depend on no byte behind its program header table. -/
theorem segments_congr (h : ∀ k < len, f k = g k) (hlen : 52 ≤ len)
    (htab : (wordAt f 28).toNat + 32 * (halfAt f 44).toNat ≤ len) : segments f = segments g := by
  rw [segments, segments, ← wordAt_congr h (by omega), ← halfAt_congr h (by omega)]
  unfold segmentsFrom
  congr 1
  apply List.map_congr_left
  intro j hj
  have hlt := (List.mem_range'_1.mp hj).2
  exact phdrAt_congr h (by omega)

end

theorem ImageAt.segments_seen {L : Layout} {m : Memory} {img : UInt32} {len : Nat}
    {file : Nat → UInt8} (h : ImageAt L m img len file) (hlen : 52 ≤ len)
    (htab : (wordAt file 28).toNat + 32 * (halfAt file 44).toNat ≤ len) :
    segments (seen L m img) = segments file := by
  refine (segments_congr (fun k hk => ?_) hlen htab).symm
  have hfits := h.fits
  have hva : (img + UInt32.ofNat k).toNat = img.toNat + k := by
    rw [UInt32.toNat_add, UInt32.toNat_ofNat']
    omega
  obtain ⟨tr, htr, hpa⟩ := Option.map_eq_some_iff.mp
    (h.ident (img + UInt32.ofNat k) (by omega) (by omega))
  rw [seen, htr, ← h.bytes k hk, ← hva, ← hpa]

def wideFile : Nat → UInt8 :=
  fileOf (elfHeader 2 ++ progHeader 0x100000 0x100000 0 0x80000000 ++
    progHeader 0x200000 0x200000 0 0x80000000)

theorem totalMemsz_wideFile : totalMemsz (segments wideFile) = 2 ^ 32 := by decide

/-- The sum of the two sizes is 0 in 32 bits, and the image passes. -/
theorem sizeCheck_wide :
    ∃ s : State, PassesSizeCheck sampleLayout 0x200000 s ∧
      kernelMemszMax.toNat < totalMemsz (segments (seen sampleLayout s.mem 0x200000)) := by
  obtain ⟨t, -, hinv, hid⟩ := pagingInit_spec sampleLayout clearedTables
  have himg := stateWith_imageAt wideFile hinv hid 116 (by decide)
  have hsup : supported wideFile = true := by decide
  obtain ⟨ok, s1, hs1, rfl, hmem1⟩ := elf32IsSupported_wp himg (by decide) (by decide)
  rw [hsup] at hs1
  rw [← hmem1] at himg
  obtain ⟨phdr, s2, hs2, rfl, hmem2⟩ := getProgtab_wp himg (by decide)
  rw [← hmem2] at himg
  obtain ⟨total, s3, hs3, htotal, -⟩ := progsegsGetMemsz_wp himg (by decide) (by decide)
    (by decide) (fun _ => by decide)
  have hzero : total = 0 := by
    rw [totalMemsz_wideFile, Nat.mod_self] at htotal
    exact UInt32.toNat_inj.mp htotal
  refine ⟨stateWith wideFile t, ⟨_, total, s3, ⟨by decide, s1, s2, hs1, hs2, hs3⟩, ?_⟩, ?_⟩
  · rw [hzero]
    decide
  · rw [← hmem1, ← hmem2, himg.segments_seen (by decide) (by decide), totalMemsz_wideFile]
    decide

end Kboot86.Elf32
