import Kboot86.Lib.Elf32.Guarded

/-!
# A self-contained image is all that is read

`elf32Map_reads`: in a guarded memory, `elf32_map` reads nothing but the image
when the tables and the segments that the image refers to lie in it and its
segments are clear. A segment that has more bytes in the file than in memory
makes the counter of the clearing loop wrap; that loop then meets a page that
cannot be mapped before it comes to its end, and the image is given up.
-/

namespace Kboot86.Elf32

open Exec

section

variable {L : Layout} {own : Set Nat} {img : UInt32} {len : Nat} {file : Nat → UInt8}

theorem mem_segments {i : Nat} (hi : i < (halfAt file 44).toNat)
    (hload : (phdrAt file ((wordAt file 28).toNat + 32 * i)).loadable = true) :
    phdrAt file ((wordAt file 28).toNat + 32 * i) ∈ segments file := by
  refine List.mem_filter.mpr ⟨List.mem_map.mpr ⟨i, ?_, rfl⟩, hload⟩
  exact List.mem_range'_1.mpr ⟨Nat.zero_le i, by omega⟩

section

variable (hfits : img.toNat + len ≤ 2 ^ 32) (hown : ∀ pa, L.place pa ≠ .other → pa ∈ own)

include hfits hown

omit hown in
theorem readPhdr_yields {i : Nat} (htab : (wordAt file 28).toNat + 32 * (i + 1) ≤ len) :
    Yields L img len file (readPhdr L (phdrAddr img file i))
      { phdrAt file ((wordAt file 28).toNat + 32 * i) with type := ptLoad } := by
  have hfield : ∀ k : UInt32, k.toNat + 3 < 32 →
      Yields L img len file (loadWord L (phdrAddr img file i + k))
        (wordAt file ((wordAt file 28).toNat + 32 * i + k.toNat)) := fun k hk =>
    phdr_field hfits htab hk
  exact (hfield pPaddr (by decide)).bind <| (hfield pVaddr (by decide)).bind <|
    (hfield pOffset (by decide)).bind <| (hfield pFilesz (by decide)).bind <|
    (hfield pMemsz (by decide)).bind <| (hfield pFlags (by decide)).bind (.pure _)

/-- The loops of `_map_progseg`. When they come to their end, all of their
turns were on the segment. -/
theorem progsegTurns_guards {h : Phdr} (hclear : Clear own img len h)
    (hin : 0 < h.filesz.toNat → h.offset.toNat + h.filesz.toNat ≤ len) :
    Guards L own img len file (· = true) (turns (turn L img h) h.turnCount) := by
  have hturn : ∀ k < max h.filesz.toNat h.memsz.toNat,
      Guards L own img len file (· = true) (turn L img h k) := fun k hk =>
    turn_guards hfits hin hown (hclear k hk).1 (hclear k hk).2
  have hquiet : ∀ k, max h.filesz.toNat h.memsz.toNat ≤ k → Quiet img len (turn L img h k) :=
    fun k hk => turn_quiet (Nat.le_trans (Nat.le_max_left _ _) hk)
  intro s hg ok s' hrun
  obtain ⟨hg', hr'⟩ := turns_guards hturn hquiet h.turnCount s hg ok s' hrun
  refine ⟨?_, hr'⟩
  rintro rfl
  have hle := filesz_le_of_accepts fun k hk => turns_accepts hrun (k := k) hk
  rw [turnCount_of_le hle] at hg'
  exact hg' ⟨rfl, Nat.le_max_right _ _⟩

theorem mapProgseg_guards {i : Nat} {h : Phdr}
    (hh : h = phdrAt file ((wordAt file 28).toNat + 32 * i))
    (htab : (wordAt file 28).toNat + 32 * (i + 1) ≤ len) (hclear : Clear own img len h)
    (hin : 0 < h.filesz.toNat → h.offset.toNat + h.filesz.toNat ≤ len) :
    Guards L own img len file (· = 0) (mapProgseg L img (phdrAddr img file i)) := by
  obtain rfl := hh
  rw [mapProgseg_eq]
  refine (readPhdr_yields hfits htab).seq ?_
  refine (validProgseg_keeps _ _ _).seq fun valid => ?_
  refine .ite (fun _ => (Keeps.pure _).guards) fun _ => ?_
  refine (progsegTurns_guards hfits hown hclear hin).bind (fun ok _ => (Keeps.pure _).guards)
    fun ok hok => ⟨1, ?_, by decide⟩
  rw [if_neg hok]

theorem mapLoop_guards (hself : SelfContained file len)
    (hclear : ∀ h ∈ segments file, Clear own img len h) :
    ∀ n i : Nat, Guards L own img len file (· = true) (mapLoop L img n i (phdrAddr img file i))
  | 0, _ => fun _ _ _ _ h => by cases h
  | n + 1, i => by
      unfold mapLoop mapLoopBy
      refine (loadPhnum_yields hfits hself.header).seq ?_
      refine .ite (fun hi => ?_) fun _ => (Keeps.pure true).guards
      have htab := hself.table i hi
      have hnext := mapLoop_guards hself hclear n (i + 1)
      rw [phdrAddr_succ]
      refine (progsegIsLoadable_yields hfits htab).seq ?_
      refine .ite (fun _ => hnext) fun hload => ?_
      have hmem := mem_segments hi (by simpa using hload)
      refine Guards.bind (mapProgseg_guards hfits hown rfl htab (hclear _ hmem)
        (hself.segment _ hmem)) (fun rc hrc => ?_) fun rc hrc => ⟨false, if_pos hrc, by decide⟩
      rw [if_neg (not_not.mpr hrc)]
      exact hnext

theorem mapTail_guards (hself : SelfContained file len)
    (hclear : ∀ h ∈ segments file, Clear own img len h) (total : UInt32) :
    Guards L own img len file (· ≠ 0)
      (if total > kernelMemszMax then do
        setStrError (.format "required %d bytes, only %d supported" [total, kernelMemszMax])
        pure 0
      else do
        let mapped ← mapLoop L img (2 ^ 16) 0 (img + wordAt file 28)
        if !mapped then pure 0 else loadWord L (img + eEntry)) := by
  have hlen := hself.header
  have hfirst : phdrAddr img file 0 = img + wordAt file 28 := UInt32.add_zero _
  have hentry : Yields L img len file (loadWord L (img + eEntry)) (wordAt file 24) :=
    loadWord_yields hfits (header_addr hfits hlen (by decide)) (by omega)
  refine .ite (fun _ => (Keeps.bind (setStrError_keeps _) fun _ => .pure _).guards) fun _ => ?_
  rw [← hfirst]
  refine Guards.bind (mapLoop_guards hfits hown hself hclear _ 0) (fun mapped hok => ?_)
    fun mapped hfail => ⟨0, if_pos (by simpa using hfail), by simp⟩
  rw [if_neg (by simp [hok])]
  exact hentry.keeps.guards

/-- `elf32_map` reads only the image. -/
theorem elf32Map_reads (hself : SelfContained file len)
    (hclear : ∀ h ∈ segments file, Clear own img len h) {s : State}
    (hg : Guarded L own img len file s.mem) :
    wlp (elf32Map L img) s fun _ s' => Reads img len s s' := by
  have hlen := hself.header
  have hmap : Guards L own img len file (· ≠ 0) (elf32Map L img) := by
    unfold elf32Map elf32MapBy
    refine (elf32IsSupported_keeps hfits hlen).seq fun _ => ?_
    refine .ite (fun _ => (Keeps.pure _).guards) fun _ => ?_
    refine (getProgtab_yields hfits hlen).seq ?_
    refine .ite (fun _ => (Keeps.pure _).guards) fun _ => ?_
    refine (progsegsGetMemsz_keeps hfits hlen hself.table).seq fun total => ?_
    exact mapTail_guards hfits hown hself hclear total
  exact wlp_mono (hmap s hg) fun _ _ h => h.2

end

/-! ### The table is read -/

def Fetches (L : Layout) (img : UInt32) (len : Nat) (file : Nat → UInt8) (va : UInt32)
    {α : Type} (x : Loader α) : Prop :=
  ∀ s, ImageAt L s.mem img len file → wlp x s fun _ s' => .load va ∈ s'.trace

theorem loadByte_fetches (va : UInt32) : Fetches L img len file va (loadByte L va) := by
  intro s _ b s' hrun
  unfold loadByte at hrun
  split at hrun
  · cases hrun
  · obtain ⟨-, rfl⟩ := Prod.mk.inj (Except.ok.inj hrun)
    exact List.mem_append_right _ (List.mem_singleton.mpr rfl)

variable {α β : Type} {va : UInt32}

theorem Fetches.head {x : Loader α} {f : α → Loader β} (hx : Fetches L img len file va x)
    (hkeep : Keeps L img len file x) (hf : ∀ a, Keeps L img len file (f a)) :
    Fetches L img len file va (x >>= f) := by
  intro s himg
  refine wlp_bind (Q := fun _ s1 => .load va ∈ s1.trace ∧ s1.mem = s.mem) ?_ ?_
  · intro a s1 hrun
    exact ⟨hx s himg a s1 hrun, (hkeep s himg a s1 hrun).1⟩
  · rintro a s1 ⟨hva, hs1⟩
    exact wlp_mono (hf a s1 (hs1 ▸ himg)) fun _ _ h => h.2.mem hva

theorem Yields.fetches {x : Loader α} {f : α → Loader β} {v : α}
    (hx : Yields L img len file x v) (hf : Fetches L img len file va (f v)) :
    Fetches L img len file va (x >>= f) := by
  intro s himg
  refine wlp_bind (hx s himg) ?_
  rintro a s1 ⟨rfl, hs1, -⟩
  exact hf s1 (hs1 ▸ himg)

section

variable (hfits : img.toNat + len ≤ 2 ^ 32)

include hfits

theorem progsegIsLoadable_fetches {i : Nat} (hi : (wordAt file 28).toNat + 32 * (i + 1) ≤ len) :
    Fetches L img len file (phdrAddr img file i) (progsegIsLoadable L (phdrAddr img file i)) := by
  have hzero : phdrAddr img file i + pType = phdrAddr img file i := UInt32.add_zero _
  have haddr := phdrAddr_toNat hfits hi
  have hnext : ∀ k : UInt32, k.toNat < 32 → (phdrAddr img file i + k).toNat =
      img.toNat + ((wordAt file 28).toNat + 32 * i + k.toNat) := by
    intro k hk
    rw [UInt32.toNat_add, haddr]
    omega
  unfold progsegIsLoadable loadWord
  rw [hzero]
  have hone : (1 : UInt32).toNat = 1 := rfl
  have htwo : (2 : UInt32).toNat = 2 := rfl
  have hbyte : Keeps L img len file (loadByte L (phdrAddr img file i)) :=
    (loadByte_yields haddr (by omega)).keeps
  have hbyte1 : Keeps L img len file (loadByte L (phdrAddr img file i + 1)) :=
    (loadByte_yields (hnext 1 (by decide)) (by omega)).keeps
  have hhalf : Keeps L img len file (loadHalf L (phdrAddr img file i)) :=
    (loadHalf_yields hfits haddr (by omega)).keeps
  have hhalf2 : Keeps L img len file (loadHalf L (phdrAddr img file i + 2)) :=
    (loadHalf_yields hfits (hnext 2 (by decide)) (by omega)).keeps
  have hfirst : Fetches L img len file (phdrAddr img file i)
      (loadHalf L (phdrAddr img file i)) :=
    (loadByte_fetches _).head hbyte fun _ => .bind hbyte1 fun _ => .pure _
  have hword : Fetches L img len file (phdrAddr img file i) (loadWord L (phdrAddr img file i)) :=
    hfirst.head hhalf fun _ => .bind hhalf2 fun _ => .pure _
  exact hword.head (.bind hhalf fun _ => .bind hhalf2 fun _ => .pure _) fun _ => .pure _

theorem progsegsGetMemsz_fetches (hself : SelfContained file len)
    (hphnum : 0 < (halfAt file 44).toNat) (hne : img + wordAt file 28 ≠ 0) :
    Fetches L img len file (img + wordAt file 28) (progsegsGetMemsz L img) := by
  have hlen := hself.header
  have htab := hself.table 0 hphnum
  have hfirst : phdrAddr img file 0 = img + wordAt file 28 := UInt32.add_zero _
  refine (getProgtab_yields hfits hlen).fetches ?_
  rw [if_neg hne, ← hfirst]
  refine (loadPhnum_yields hfits hlen).fetches ?_
  rw [if_pos hphnum]
  refine (progsegIsLoadable_fetches hfits htab).head (progsegIsLoadable_yields hfits htab).keeps
    fun _ => ?_
  rw [phdrAddr_succ]
  refine .ite (.bind (phdr_field hfits htab (by decide)).keeps fun _ => ?_) ?_
  · exact sumMemsz_keeps hfits hlen hself.table _ _ _
  · exact sumMemsz_keeps hfits hlen hself.table _ _ _

/-- An image with program headers is mapped only after the first of them was
read. -/
theorem elf32Map_fetches (hown : ∀ pa, L.place pa ≠ .other → pa ∈ own)
    (hself : SelfContained file len) (hclear : ∀ h ∈ segments file, Clear own img len h)
    (hphnum : 0 < (halfAt file 44).toNat) {s : State} (hg : Guarded L own img len file s.mem) :
    wlp (elf32Map L img) s fun entry s' =>
      entry ≠ 0 → .load (img + wordAt file 28) ∈ s'.trace := by
  have hlen := hself.header
  refine wlp_bind (elf32IsSupported_keeps hfits hlen s hg.image) ?_
  rintro ok s1 ⟨hs1, -⟩
  rw [← hs1] at hg
  split
  · exact wlp_pure fun h => absurd rfl h
  refine wlp_bind (getProgtab_yields hfits hlen s1 hg.image) ?_
  rintro phdr s2 ⟨rfl, hs2, -⟩
  rw [← hs2] at hg
  split
  · exact wlp_pure fun h => absurd rfl h
  next hne =>
    refine wlp_bind (Q := fun _ s3 => .load (img + wordAt file 28) ∈ s3.trace ∧
      s3.mem = s2.mem) ?_ ?_
    · intro total s3 hrun
      exact ⟨progsegsGetMemsz_fetches hfits hself hphnum hne s2 hg.image total s3 hrun,
        (progsegsGetMemsz_keeps hfits hlen hself.table s2 hg.image total s3 hrun).1⟩
    · rintro total s3 ⟨hva, hs3⟩
      rw [← hs3] at hg
      exact wlp_mono (mapTail_guards hfits hown hself hclear total s3 hg)
        fun _ _ h _ => h.2.mem hva

end

end

end Kboot86.Elf32
