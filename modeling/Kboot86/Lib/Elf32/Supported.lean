import Kboot86.Lib.Elf32.Image

/-!
# Supported images

`elf32_is_supported` only reads, and on an image that is in memory its answer
is `supported`, a test of the bytes of the file.
-/

namespace Kboot86.Elf32

open Exec

def ReadOnly {α : Type} (x : Loader α) : Prop := ∀ s, wlp x s fun _ s' => s'.mem = s.mem

theorem ReadOnly.pure {α : Type} (a : α) : ReadOnly (Pure.pure a : Loader α) :=
  fun _ => wlp_pure rfl

theorem ReadOnly.bind {α β : Type} {x : Loader α} {f : α → Loader β} (hx : ReadOnly x)
    (hf : ∀ a, ReadOnly (f a)) : ReadOnly (x >>= f) := fun s =>
  wlp_bind (hx s) fun a s' hs' => wlp_mono (hf a s') fun _ _ hs'' => hs''.trans hs'

theorem ReadOnly.ite {α : Type} {p : Prop} [Decidable p] {x y : Loader α} (hx : ReadOnly x)
    (hy : ReadOnly y) : ReadOnly (if p then x else y) := by
  split
  · exact hx
  · exact hy

theorem readOnly_loadByte (L : Layout) (va : UInt32) : ReadOnly (loadByte L va) := by
  intro s b s' h
  unfold loadByte at h
  split at h
  · cases h
  · cases h
    rfl

theorem readOnly_loadHalf (L : Layout) (va : UInt32) : ReadOnly (loadHalf L va) :=
  .bind (readOnly_loadByte L va) fun _ => .bind (readOnly_loadByte L _) fun _ => .pure _

theorem readOnly_loadWord (L : Layout) (va : UInt32) : ReadOnly (loadWord L va) :=
  .bind (readOnly_loadHalf L va) fun _ => .bind (readOnly_loadHalf L _) fun _ => .pure _

theorem readOnly_progsegIsLoadable (L : Layout) (phdr : UInt32) :
    ReadOnly (progsegIsLoadable L phdr) := .bind (readOnly_loadWord L _) fun _ => .pure _

theorem readOnly_setStrError (e : StrError) : ReadOnly (setStrError e) := by
  rintro s _ s' h
  cases h
  rfl

theorem readOnly_isValid (L : Layout) (hdr : UInt32) : ReadOnly (isValid L hdr) :=
  .bind (readOnly_loadByte L _) fun _ => .ite (.pure _) <|
  .bind (readOnly_loadByte L _) fun _ => .ite (.pure _) <|
  .bind (readOnly_loadByte L _) fun _ => .ite (.pure _) <|
  .bind (readOnly_loadByte L _) fun _ => .ite (.pure _) <|
  .bind (readOnly_loadHalf L _) fun _ => .ite (.pure _) <|
  .bind (readOnly_loadHalf L _) fun _ => .ite (.pure _) (.pure _)

theorem readOnly_unsupported (text : String) : ReadOnly (unsupported text) :=
  .bind (readOnly_setStrError _) fun _ => .pure _

theorem readOnly_elf32IsSupported (L : Layout) (ehdr : UInt32) :
    ReadOnly (elf32IsSupported L ehdr) :=
  .ite (.pure _) <|
  .bind (readOnly_isValid L _) fun _ => .ite (readOnly_unsupported _) <|
  .bind (readOnly_loadByte L _) fun _ => .ite (readOnly_unsupported _) <|
  .bind (readOnly_loadByte L _) fun _ => .ite (readOnly_unsupported _) <|
  .bind (readOnly_loadHalf L _) fun _ => .ite (readOnly_unsupported _) <|
  .bind (readOnly_loadHalf L _) fun _ => .ite (readOnly_unsupported _) (.pure _)

def supported (file : Nat → UInt8) : Bool :=
  (file 0 == 0x7f && (file 1 == 'E'.toUInt8 && (file 2 == 'L'.toUInt8 &&
    (file 3 == 'F'.toUInt8 && (halfAt file 42 == sizeofPhdr && (halfAt file 46 == sizeofShdr &&
      true)))))) &&
    (file 4 == elfClass32 && (file 5 == elfDataLittle &&
      (halfAt file 18 == elfMachine386 && (halfAt file 16 == elfTypeExec && true))))

theorem wp_test {α : Type} [BEq α] [LawfulBEq α] {x : Loader α} {s : State} {a c : α}
    {fail rest : Loader Bool} {b : Bool}
    (hx : wp x s fun r s' => r = a ∧ s'.mem = s.mem)
    (hfail : ∀ s', wp fail s' fun r s'' => r = false ∧ s''.mem = s'.mem)
    (hrest : ∀ s', s'.mem = s.mem → wp rest s' fun r s'' => r = b ∧ s''.mem = s'.mem) :
    wp (x >>= fun r => if r != c then fail else rest) s fun r s' =>
      r = (a == c && b) ∧ s'.mem = s.mem := by
  apply wp_bind hx
  rintro r s1 ⟨rfl, hs1⟩
  by_cases hr : r = c
  · rw [if_neg (by simp [hr])]
    apply wp_mono (hrest s1 hs1)
    rintro ok s' ⟨rfl, hs'⟩
    exact ⟨by simp [hr], hs'.trans hs1⟩
  · rw [if_pos (by simp [hr])]
    apply wp_mono (hfail s1)
    rintro ok s' ⟨rfl, hs'⟩
    exact ⟨by simp [hr], hs'.trans hs1⟩

section Supported

variable {L : Layout} {img : UInt32} {len : Nat} {file : Nat → UInt8}

theorem ImageAt.header_toNat {m : Memory} (h : ImageAt L m img len file) (hlen : 52 ≤ len)
    (k : UInt32) (hk : k.toNat < 52) : (img + k).toNat = img.toNat + k.toNat := by
  have hfits := h.fits
  rw [UInt32.toNat_add]
  omega

theorem isValid_wp {s : State} (h : ImageAt L s.mem img len file) (hlen : 52 ≤ len) :
    wp (isValid L img) s fun ok s' =>
      ok = (file 0 == 0x7f && (file 1 == 'E'.toUInt8 && (file 2 == 'L'.toUInt8 &&
        (file 3 == 'F'.toUInt8 && (halfAt file 42 == sizeofPhdr &&
          (halfAt file 46 == sizeofShdr && true)))))) ∧ s'.mem = s.mem := by
  have hno : ∀ s' : State, wp (pure false : Loader Bool) s' fun r s'' =>
      r = false ∧ s''.mem = s'.mem := fun _ => wp_pure ⟨rfl, rfl⟩
  have hoff := h.header_toNat hlen
  refine wp_test (h.loadByte_wp (k := 0) rfl (by omega)) hno fun s1 h1 => ?_
  have h : ImageAt L s1.mem img len file := h1 ▸ h
  refine wp_test (h.loadByte_wp (k := 1) (hoff 1 (by decide)) (by omega)) hno fun s2 h2 => ?_
  have h : ImageAt L s2.mem img len file := h2 ▸ h
  refine wp_test (h.loadByte_wp (k := 2) (hoff 2 (by decide)) (by omega)) hno fun s3 h3 => ?_
  have h : ImageAt L s3.mem img len file := h3 ▸ h
  refine wp_test (h.loadByte_wp (k := 3) (hoff 3 (by decide)) (by omega)) hno fun s4 h4 => ?_
  have h : ImageAt L s4.mem img len file := h4 ▸ h
  refine wp_test (h.loadHalf_wp (k := 42) (hoff ePhentsize (by decide)) (by omega)) hno
    fun s5 h5 => ?_
  have h : ImageAt L s5.mem img len file := h5 ▸ h
  exact wp_test (h.loadHalf_wp (k := 46) (hoff eShentsize (by decide)) (by omega)) hno
    fun _ _ => wp_pure ⟨rfl, rfl⟩

theorem unsupported_wp (text : String) (s : State) :
    wp (unsupported text) s fun ok s' => ok = false ∧ s'.mem = s.mem :=
  ⟨false, { s with strError := .text text }, rfl, rfl, rfl⟩

theorem elf32IsSupported_wp {s : State} (h : ImageAt L s.mem img len file) (hlen : 52 ≤ len)
    (hne : img ≠ 0) :
    wp (elf32IsSupported L img) s fun ok s' => ok = supported file ∧ s'.mem = s.mem := by
  have hoff := h.header_toNat hlen
  unfold elf32IsSupported
  rw [if_neg hne]
  apply wp_bind (isValid_wp h hlen)
  rintro valid s1 ⟨hvalid, hs1⟩
  cases valid with
  | false =>
      rw [if_pos (by simp)]
      apply wp_mono (unsupported_wp _ s1)
      rintro ok s' ⟨rfl, hs'⟩
      exact ⟨by rw [supported, ← hvalid, Bool.false_and], hs'.trans hs1⟩
  | true =>
      rw [if_neg (by simp), supported, ← hvalid, Bool.true_and, ← hs1]
      have h : ImageAt L s1.mem img len file := hs1 ▸ h
      refine wp_test (h.loadByte_wp (k := 4) (hoff 4 (by decide)) (by omega))
        (unsupported_wp _) fun s2 h2 => ?_
      have h : ImageAt L s2.mem img len file := h2 ▸ h
      refine wp_test (h.loadByte_wp (k := 5) (hoff 5 (by decide)) (by omega))
        (unsupported_wp _) fun s3 h3 => ?_
      have h : ImageAt L s3.mem img len file := h3 ▸ h
      refine wp_test (h.loadHalf_wp (k := 18) (hoff eMachine (by decide)) (by omega))
        (unsupported_wp _) fun s4 h4 => ?_
      have h : ImageAt L s4.mem img len file := h4 ▸ h
      exact wp_test (h.loadHalf_wp (k := 16) (hoff eType (by decide)) (by omega))
        (unsupported_wp _) fun _ _ => wp_pure ⟨rfl, rfl⟩

end Supported

end Kboot86.Elf32
