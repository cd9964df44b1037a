import Kboot86.Lib.Elf32.Bootable

/-!
# What `elf32_map` reads

`elf32_map` is not told how long the image is: it follows the offsets that it
finds. `Reads img len s s'` says that between two states only addresses of the
image were loaded from. A computation that only reads the image `Keeps` it and
`Yields` what the file says; one that also maps and stores has to keep the
image where it is, which is what `Guarded` says of the memory.
-/

namespace Kboot86.Elf32

open Exec

def InImage (img : UInt32) (len a : Nat) : Prop := img.toNat ≤ a ∧ a < img.toNat + len

/-- Between the two states only the image was read. -/
def Reads (img : UInt32) (len : Nat) (s s' : State) : Prop :=
  ∃ added, s'.trace = s.trace ++ added ∧ ∀ va, .load va ∈ added → InImage img len va.toNat

section

variable {img : UInt32} {len : Nat} {s s' s'' : State}

theorem Reads.of_trace_eq (h : s'.trace = s.trace) : Reads img len s s' :=
  ⟨[], by rw [h, List.append_nil], fun _ hva => absurd hva List.not_mem_nil⟩

theorem Reads.trans (h : Reads img len s s') (h' : Reads img len s' s'') :
    Reads img len s s'' := by
  rcases h with ⟨added, htrace, hin⟩
  rcases h' with ⟨added', htrace', hin'⟩
  refine ⟨added ++ added', by rw [htrace', htrace, List.append_assoc], fun va hva => ?_⟩
  rcases List.mem_append.mp hva with hva | hva
  · exact hin va hva
  · exact hin' va hva

theorem Reads.mem (h : Reads img len s s') {a : Access} (ha : a ∈ s.trace) : a ∈ s'.trace := by
  rcases h with ⟨added, htrace, -⟩
  rw [htrace]
  exact List.mem_append_left _ ha

end

section

variable (L : Layout) (img : UInt32) (len : Nat) (file : Nat → UInt8)

def Keeps {α : Type} (x : Loader α) : Prop :=
  ∀ s, ImageAt L s.mem img len file → wlp x s fun _ s' => s'.mem = s.mem ∧ Reads img len s s'

/-- With the image in place, `x` only reads it and returns `v`. -/
def Yields {α : Type} (x : Loader α) (v : α) : Prop :=
  ∀ s, ImageAt L s.mem img len file →
    wlp x s fun a s' => a = v ∧ s'.mem = s.mem ∧ Reads img len s s'

end

section

variable {L : Layout} {img : UInt32} {len : Nat} {file : Nat → UInt8} {α β : Type}

theorem Keeps.pure (a : α) : Keeps L img len file (Pure.pure a) := fun _ _ =>
  wlp_pure ⟨rfl, .of_trace_eq rfl⟩

theorem Keeps.bind {x : Loader α} {f : α → Loader β} (hx : Keeps L img len file x)
    (hf : ∀ a, Keeps L img len file (f a)) : Keeps L img len file (x >>= f) := by
  intro s himg
  refine wlp_bind (hx s himg) ?_
  rintro a s1 ⟨hs1, hr1⟩
  refine wlp_mono (hf a s1 (hs1 ▸ himg)) ?_
  rintro b s' ⟨hs', hr'⟩
  exact ⟨hs'.trans hs1, hr1.trans hr'⟩

theorem Keeps.ite {p : Prop} [Decidable p] {x y : Loader α} (hx : Keeps L img len file x)
    (hy : Keeps L img len file y) : Keeps L img len file (if p then x else y) := by
  split
  · exact hx
  · exact hy

theorem Yields.keeps {x : Loader α} {v : α} (hx : Yields L img len file x v) :
    Keeps L img len file x := fun s himg => wlp_mono (hx s himg) fun _ _ h => h.2

theorem Yields.pure (a : α) : Yields L img len file (Pure.pure a) a := fun _ _ =>
  wlp_pure ⟨rfl, rfl, .of_trace_eq rfl⟩

theorem Yields.bind {x : Loader α} {f : α → Loader β} {v : α} {w : β}
    (hx : Yields L img len file x v) (hf : Yields L img len file (f v) w) :
    Yields L img len file (x >>= f) w := by
  intro s himg
  refine wlp_bind (hx s himg) ?_
  rintro a s1 ⟨rfl, hs1, hr1⟩
  refine wlp_mono (hf s1 (hs1 ▸ himg)) ?_
  rintro b s' ⟨hb, hs', hr'⟩
  exact ⟨hb, hs'.trans hs1, hr1.trans hr'⟩

theorem Yields.bindKeeps {x : Loader α} {f : α → Loader β} {v : α}
    (hx : Yields L img len file x v) (hf : Keeps L img len file (f v)) :
    Keeps L img len file (x >>= f) := by
  intro s himg
  refine wlp_bind (hx s himg) ?_
  rintro a s1 ⟨rfl, hs1, hr1⟩
  refine wlp_mono (hf s1 (hs1 ▸ himg)) ?_
  rintro b s' ⟨hs', hr'⟩
  exact ⟨hs'.trans hs1, hr1.trans hr'⟩

/-! ### Loads -/

theorem loadByte_yields {va : UInt32} {k : Nat} (hva : va.toNat = img.toNat + k) (hk : k < len) :
    Yields L img len file (loadByte L va) (file k) := by
  intro s himg b s' hrun
  obtain ⟨rfl, hs'⟩ := wlp_of_wp (himg.loadByte_wp hva hk) b s' hrun
  refine ⟨rfl, hs', [.load va], ?_, ?_⟩
  · unfold loadByte at hrun
    split at hrun
    · cases hrun
    · obtain ⟨-, rfl⟩ := Prod.mk.inj (Except.ok.inj hrun)
      rfl
  · intro va' hva'
    obtain rfl : va' = va := by simpa using hva'
    exact ⟨by omega, by omega⟩

theorem loadHalf_yields (hfits : img.toNat + len ≤ 2 ^ 32) {va : UInt32} {k : Nat}
    (hva : va.toNat = img.toNat + k) (hk : k + 1 < len) :
    Yields L img len file (loadHalf L va) (halfAt file k) := by
  have hnext : (va + 1).toNat = img.toNat + (k + 1) := by
    rw [UInt32.toNat_add, UInt32.toNat_one]
    omega
  exact (loadByte_yields hva (by omega)).bind ((loadByte_yields hnext hk).bind (.pure _))

theorem loadWord_yields (hfits : img.toNat + len ≤ 2 ^ 32) {va : UInt32} {k : Nat}
    (hva : va.toNat = img.toNat + k) (hk : k + 3 < len) :
    Yields L img len file (loadWord L va) (wordAt file k) := by
  have hnext : (va + 2).toNat = img.toNat + (k + 2) := by
    rw [UInt32.toNat_add, show (2 : UInt32).toNat = 2 from rfl]
    omega
  have hsum : UInt32.ofNat ((halfAt file k).toNat + 65536 * (halfAt file (k + 2)).toNat) =
      wordAt file k := by
    rw [halfAt_toNat, halfAt_toNat]
    rfl
  rw [← hsum]
  exact (loadHalf_yields hfits hva (by omega)).bind
    ((loadHalf_yields hfits hnext hk).bind (.pure _))

end

/-! ### Header functions -/

/-- What an image of `len` bytes refers to lies inside it. -/
structure SelfContained (file : Nat → UInt8) (len : Nat) : Prop where
  header : 52 ≤ len
  table : ∀ i < (halfAt file 44).toNat, (wordAt file 28).toNat + 32 * (i + 1) ≤ len
  segment : ∀ h ∈ segments file, 0 < h.filesz.toNat → h.offset.toNat + h.filesz.toNat ≤ len

section

variable {L : Layout} {img : UInt32} {len : Nat} {file : Nat → UInt8}

theorem header_addr (hfits : img.toNat + len ≤ 2 ^ 32) (hlen : 52 ≤ len) {k : UInt32}
    (hk : k.toNat < 52) : (img + k).toNat = img.toNat + k.toNat := by
  rw [UInt32.toNat_add]
  omega

theorem setStrError_keeps (e : StrError) : Keeps L img len file (setStrError e) := by
  rintro s - a s' h
  cases h
  exact ⟨rfl, .of_trace_eq rfl⟩

theorem unsupported_keeps (text : String) : Keeps L img len file (unsupported text) :=
  .bind (setStrError_keeps _) fun _ => .pure _

theorem invalidProgseg_keeps (format : String) (addr : UInt32) :
    Keeps L img len file (invalidProgseg format addr) :=
  .bind (setStrError_keeps _) fun _ => .pure _

theorem validProgseg_keeps (paddr vaddr memsz : UInt32) :
    Keeps L img len file (validProgseg paddr vaddr memsz) :=
  .ite (invalidProgseg_keeps _ _) <| .ite (invalidProgseg_keeps _ _) <|
  .ite (invalidProgseg_keeps _ _) <| .ite (invalidProgseg_keeps _ _) (.pure _)

def phdrAddr (img : UInt32) (file : Nat → UInt8) (i : Nat) : UInt32 :=
  img + wordAt file 28 + UInt32.ofNat (32 * i)

theorem phdrAddr_succ (i : Nat) :
    phdrAddr img file i + sizeofPhdr = phdrAddr img file (i + 1) := by
  rw [phdrAddr, phdrAddr, UInt32.add_assoc, Nat.mul_succ, UInt32.ofNat_add]
  rfl

theorem phdrAddr_toNat (hfits : img.toNat + len ≤ 2 ^ 32) {i : Nat}
    (hi : (wordAt file 28).toNat + 32 * (i + 1) ≤ len) :
    (phdrAddr img file i).toNat = img.toNat + ((wordAt file 28).toNat + 32 * i) := by
  rw [phdrAddr, UInt32.toNat_add, UInt32.toNat_add, UInt32.toNat_ofNat']
  omega

theorem phdr_field (hfits : img.toNat + len ≤ 2 ^ 32) {i : Nat}
    (hi : (wordAt file 28).toNat + 32 * (i + 1) ≤ len) {k : UInt32} (hk : k.toNat + 3 < 32) :
    Yields L img len file (loadWord L (phdrAddr img file i + k))
      (wordAt file ((wordAt file 28).toNat + 32 * i + k.toNat)) := by
  refine loadWord_yields hfits ?_ (by omega)
  rw [UInt32.toNat_add, phdrAddr_toNat hfits hi]
  omega

section

variable (hfits : img.toNat + len ≤ 2 ^ 32) (hlen : 52 ≤ len)

include hfits hlen

theorem loadByte_header {k : UInt32} (hk : k.toNat < 52) :
    Keeps L img len file (loadByte L (img + k)) :=
  (loadByte_yields (header_addr hfits hlen hk) (by omega)).keeps

theorem loadHalf_header {k : UInt32} (hk : k.toNat + 1 < 52) :
    Keeps L img len file (loadHalf L (img + k)) :=
  (loadHalf_yields hfits (header_addr hfits hlen (by omega)) (by omega)).keeps

theorem isValid_keeps : Keeps L img len file (isValid L img) := by
  have hfirst : Keeps L img len file (loadByte L img) :=
    (loadByte_yields (Nat.add_zero _).symm (by omega)).keeps
  exact .bind hfirst fun _ => .ite (.pure _) <|
    .bind (loadByte_header hfits hlen (by decide)) fun _ => .ite (.pure _) <|
    .bind (loadByte_header hfits hlen (by decide)) fun _ => .ite (.pure _) <|
    .bind (loadByte_header hfits hlen (by decide)) fun _ => .ite (.pure _) <|
    .bind (loadHalf_header hfits hlen (by decide)) fun _ => .ite (.pure _) <|
    .bind (loadHalf_header hfits hlen (by decide)) fun _ => .ite (.pure _) (.pure _)

theorem elf32IsSupported_keeps : Keeps L img len file (elf32IsSupported L img) :=
  .ite (.pure _) <|
  .bind (isValid_keeps hfits hlen) fun _ => .ite (unsupported_keeps _) <|
  .bind (loadByte_header hfits hlen (by decide)) fun _ => .ite (unsupported_keeps _) <|
  .bind (loadByte_header hfits hlen (by decide)) fun _ => .ite (unsupported_keeps _) <|
  .bind (loadHalf_header hfits hlen (by decide)) fun _ => .ite (unsupported_keeps _) <|
  .bind (loadHalf_header hfits hlen (by decide)) fun _ => .ite (unsupported_keeps _) (.pure _)

theorem getProgtab_yields : Yields L img len file (getProgtab L img) (img + wordAt file 28) :=
  (loadWord_yields (k := 28) hfits (header_addr hfits hlen (by decide)) (by omega)).bind (.pure _)

theorem loadPhnum_yields : Yields L img len file (loadHalf L (img + ePhnum)) (halfAt file 44) :=
  loadHalf_yields hfits (header_addr hfits hlen (by decide)) (by omega)

omit hlen in
theorem progsegIsLoadable_yields {i : Nat} (hi : (wordAt file 28).toNat + 32 * (i + 1) ≤ len) :
    Yields L img len file (progsegIsLoadable L (phdrAddr img file i))
      (phdrAt file ((wordAt file 28).toNat + 32 * i)).loadable :=
  (phdr_field hfits hi (by decide)).bind (.pure _)

theorem sumMemsz_keeps
    (htab : ∀ i < (halfAt file 44).toNat, (wordAt file 28).toNat + 32 * (i + 1) ≤ len) :
    ∀ (n i : Nat) (sum : UInt32),
      Keeps L img len file (sumMemsz L img n i (phdrAddr img file i) sum)
  | 0, _, _ => fun _ _ _ _ h => by cases h
  | n + 1, i, sum => by
      unfold sumMemsz
      refine (loadPhnum_yields hfits hlen).bindKeeps ?_
      by_cases hi : i < (halfAt file 44).toNat
      · have hin := htab i hi
        rw [if_pos hi]
        refine .bind (progsegIsLoadable_yields hfits hin).keeps fun _ => ?_
        rw [phdrAddr_succ]
        refine .ite (.bind (phdr_field hfits hin (by decide)).keeps fun _ => ?_) ?_
        · exact sumMemsz_keeps htab n (i + 1) _
        · exact sumMemsz_keeps htab n (i + 1) _
      · rw [if_neg hi]
        exact .pure _

theorem progsegsGetMemsz_keeps
    (htab : ∀ i < (halfAt file 44).toNat, (wordAt file 28).toNat + 32 * (i + 1) ≤ len) :
    Keeps L img len file (progsegsGetMemsz L img) := by
  refine (getProgtab_yields hfits hlen).bindKeeps (.ite (.pure _) ?_)
  have hfirst : phdrAddr img file 0 = img + wordAt file 28 := UInt32.add_zero _
  rw [← hfirst]
  exact sumMemsz_keeps hfits hlen htab _ _ _

end

end

end Kboot86.Elf32
