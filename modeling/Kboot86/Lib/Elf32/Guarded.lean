import Kboot86.Lib.Elf32.Reads

/-!
# Mapping without touching the image

`Guarded` says of the memory that the image is in place and that no address
outside the image and outside the loader's own memory leads to a byte of
either. Mapping a clear page to a clear frame and storing at a clear address
keep it, so an `elf32_map` whose segments are `Clear` finds the image as it was
at every step, and reads no more than the image refers to.
-/

namespace Kboot86.Elf32

open Exec

section

variable (own : Set Nat) (img : UInt32) (len : Nat)

def ClearPage (va : UInt32) : Prop :=
  ∀ a, a / 4096 = va.toNat / 4096 → a < 0xffc00000 ∧ a ∉ own ∧ ¬ InImage img len a

def ClearFrame (pa : UInt32) : Prop :=
  ∀ a, a / 4096 = pa.toNat / 4096 → a ∉ own ∧ ¬ InImage img len a

def ClearRange (va pa : UInt32) (n : Nat) : Prop :=
  ∀ k < n, ClearPage own img len (va + UInt32.ofNat k) ∧
    ClearFrame own img len (pa + UInt32.ofNat k)

def Clear (h : Phdr) : Prop :=
  ClearRange own img len h.vaddr h.paddr (max h.filesz.toNat h.memsz.toNat)

end

/-- The image is in place, and stores elsewhere cannot reach it. -/
structure Guarded (L : Layout) (own : Set Nat) (img : UInt32) (len : Nat) (file : Nat → UInt8)
    (m : Memory) : Prop where
  inv : PagingInv L m.tables
  image : ImageAt L m img len file
  away : ∀ va : UInt32, va.toNat < 0xffc00000 → va.toNat ∉ own → ¬ InImage img len va.toNat →
    ∀ tr, translate L m va = some tr → L.place tr.paddr = .other ∧ ¬ InImage img len tr.paddr

section

variable {L : Layout} {own : Set Nat} {img : UInt32} {len : Nat} {file : Nat → UInt8}

namespace Guarded

variable {m : Memory}

theorem map (hown : ∀ pa, L.place pa ≠ .other → pa ∈ own) (h : Guarded L own img len file m)
    {v p : UInt32} (hv : ClearPage own img len v) (hp : ClearFrame own img len p) (w : Bool) :
    Guarded L own img len file (m.map L v p w) := by
  cases hacc : mapAccepts v p with
  | false =>
      have hsame : m.map L v p w = m := by
        rw [Memory.map, pagingMap_of_not_accepts L m.tables w hacc]
      rw [hsame]
      exact h
  | true =>
      refine ⟨h.inv.map v p w, ⟨h.image.fits, h.image.place, fun va hlo hhi => ?_, ?_⟩, ?_⟩
      · have hne : va.toNat / 4096 ≠ v.toNat / 4096 := fun hpage =>
          (hv va.toNat hpage).2.2 ⟨hlo, hhi⟩
        rw [translate_map_other h.inv hacc (h.image.below h.inv hlo hhi) hne]
        exact h.image.ident va hlo hhi
      · intro k hk
        rw [← h.image.bytes k hk]
        have hplace := h.image.place (img.toNat + k) (by omega) (by omega)
        exact load8_congr (m.map L v p w) m rfl hplace
      · intro va hlow hnot hout tr htr
        by_cases hpage : va.toNat / 4096 = v.toNat / 4096
        · rw [translate_map_page h.inv hacc hpage] at htr
          obtain rfl := Option.some.inj htr
          obtain ⟨hfree, himg⟩ := hp (p.toNat / 4096 * 4096 + va.toNat % 4096) (by omega)
          refine ⟨?_, himg⟩
          by_contra hplace
          exact hfree (hown _ hplace)
        · rw [translate_map_other h.inv hacc hlow hpage] at htr
          exact h.away va hlow hnot hout tr htr

theorem store (h : Guarded L own img len file m) {va : UInt32} (hva : ClearPage own img len va)
    {tr : Translation} (htr : translate L m va = some tr) (b : UInt8) :
    Guarded L own img len file (m.store8 L tr.paddr b) := by
  obtain ⟨hlow, hnot, hout⟩ := hva va.toNat rfl
  obtain ⟨hplace, himg⟩ := h.away va hlow hnot hout tr htr
  have htables := m.store8_tables L b hplace
  have hcongr := translate_congr htables h.inv
  refine ⟨by rw [htables]; exact h.inv,
    ⟨h.image.fits, h.image.place, fun va hlo hhi => ?_, fun k hk => ?_⟩, ?_⟩
  · rw [hcongr]
    exact h.image.ident va hlo hhi
  · rw [Memory.load8_store8_of_ne L m b hplace, h.image.bytes k hk]
    intro heq
    exact himg ⟨by omega, by omega⟩
  · intro va hlow hnot hout tr' htr'
    rw [hcongr] at htr'
    exact h.away va hlow hnot hout tr' htr'

end Guarded

end

/-! ### Computations that keep the memory guarded -/

/-- In a guarded memory, `x` reads only the image, and it leaves the memory
guarded when its result is `ok`. -/
def Guards (L : Layout) (own : Set Nat) (img : UInt32) (len : Nat) (file : Nat → UInt8) {α : Type}
    (ok : α → Prop) (x : Loader α) : Prop :=
  ∀ s, Guarded L own img len file s.mem →
    wlp x s fun a s' => (ok a → Guarded L own img len file s'.mem) ∧ Reads img len s s'

section

variable {L : Layout} {own : Set Nat} {img : UInt32} {len : Nat} {file : Nat → UInt8}
  {α β : Type} {ok : β → Prop}

theorem Keeps.guards {x : Loader β} (hx : Keeps L img len file x) :
    Guards L own img len file ok x := fun s hg =>
  wlp_mono (hx s hg.image) fun _ _ h => ⟨fun _ => by rw [h.1]; exact hg, h.2⟩

theorem Guards.bind {p : α → Prop} {x : Loader α} {f : α → Loader β}
    (hx : Guards L own img len file p x)
    (hf : ∀ a, p a → Guards L own img len file ok (f a))
    (hfail : ∀ a, ¬ p a → ∃ b, f a = pure b ∧ ¬ ok b) :
    Guards L own img len file ok (x >>= f) := by
  intro s hg
  refine wlp_bind (hx s hg) ?_
  rintro a s1 ⟨hg1, hr1⟩
  by_cases ha : p a
  · refine wlp_mono (hf a ha s1 (hg1 ha)) ?_
    rintro b s' ⟨hg', hr'⟩
    exact ⟨hg', hr1.trans hr'⟩
  · obtain ⟨b, hb, hnot⟩ := hfail a ha
    rw [hb]
    exact wlp_pure ⟨fun h => absurd h hnot, hr1⟩

theorem Guards.seq {x : Loader α} {f : α → Loader β}
    (hx : Guards L own img len file (fun _ => True) x)
    (hf : ∀ a, Guards L own img len file ok (f a)) : Guards L own img len file ok (x >>= f) :=
  hx.bind (fun a _ => hf a) fun _ h => absurd trivial h

theorem Keeps.seq {x : Loader α} {f : α → Loader β} (hx : Keeps L img len file x)
    (hf : ∀ a, Guards L own img len file ok (f a)) : Guards L own img len file ok (x >>= f) :=
  hx.guards.seq hf

theorem Yields.seq {x : Loader α} {f : α → Loader β} {v : α} (hx : Yields L img len file x v)
    (hf : Guards L own img len file ok (f v)) : Guards L own img len file ok (x >>= f) := by
  intro s hg
  refine wlp_bind (hx s hg.image) ?_
  rintro a s1 ⟨rfl, hs1, hr1⟩
  refine wlp_mono (hf s1 (hs1 ▸ hg)) ?_
  rintro b s' ⟨hg', hr'⟩
  exact ⟨hg', hr1.trans hr'⟩

theorem Guards.ite {p : Prop} [Decidable p] {x y : Loader β}
    (hx : p → Guards L own img len file ok x) (hy : ¬ p → Guards L own img len file ok y) :
    Guards L own img len file ok (if p then x else y) := by
  split
  next h => exact hx h
  next h => exact hy h

theorem callPagingMap_guards (hown : ∀ pa, L.place pa ≠ .other → pa ∈ own) {v p : UInt32}
    (hv : ClearPage own img len v) (hp : ClearFrame own img len p) (w : Bool) {ok : Int → Prop} :
    Guards L own img len file ok (callPagingMap L v p w) := by
  rintro s hg rc s' h
  cases h
  exact ⟨fun _ => hg.map hown hv hp w, [.map v p], rfl, by simp⟩

theorem mapAtPageStart_guards (hown : ∀ pa, L.place pa ≠ .other → pa ∈ own) {dst paddr : UInt32}
    (hv : ClearPage own img len dst) (hp : ClearFrame own img len paddr) (failed : String)
    (w : Bool) :
    Guards L own img len file (fun _ => True)
      (mapAtPageStart (callPagingMap L) failed dst paddr w) := by
  refine .ite (fun _ => ?_) fun _ => (Keeps.pure true).guards
  refine (callPagingMap_guards hown hv hp w).seq fun rc => ?_
  exact (Keeps.ite (.bind (setStrError_keeps _) fun _ => .pure _) (.pure _)).guards

theorem storeByte_guards {va : UInt32} (hva : ClearPage own img len va) (b : UInt8) :
    Guards L own img len file (fun _ => True) (storeByte L va b) := by
  intro s hg u s' h
  unfold storeByte at h
  split at h
  · cases h
  next tr htr =>
      obtain ⟨-, rfl⟩ := Prod.mk.inj (Except.ok.inj h)
      exact ⟨fun _ => hg.store hva htr b, [.store va], rfl, by simp⟩

/-! ### Turns -/

/-- A computation that loads nothing but the image, whatever the memory. -/
def Quiet (img : UInt32) (len : Nat) {α : Type} (x : Loader α) : Prop :=
  ∀ s, wlp x s fun _ s' => Reads img len s s'

theorem Quiet.pure (a : α) : Quiet img len (Pure.pure a : Loader α) := fun _ =>
  wlp_pure (.of_trace_eq rfl)

theorem Quiet.bind {x : Loader α} {f : α → Loader β} (hx : Quiet img len x)
    (hf : ∀ a, Quiet img len (f a)) : Quiet img len (x >>= f) := fun s =>
  wlp_bind (hx s) fun a s1 hr1 => wlp_mono (hf a s1) fun _ _ hr' => hr1.trans hr'

theorem Quiet.ite {p : Prop} [Decidable p] {x y : Loader α} (hx : Quiet img len x)
    (hy : Quiet img len y) : Quiet img len (if p then x else y) := by
  split
  · exact hx
  · exact hy

theorem setStrError_quiet (e : StrError) : Quiet img len (setStrError e) := by
  rintro s a s' h
  cases h
  exact .of_trace_eq rfl

theorem callPagingMap_quiet (v p : UInt32) (w : Bool) :
    Quiet img len (callPagingMap L v p w) := by
  rintro s rc s' h
  cases h
  exact ⟨[.map v p], rfl, by simp⟩

theorem mapAtPageStart_quiet (failed : String) (dst paddr : UInt32) (w : Bool) :
    Quiet img len (mapAtPageStart (callPagingMap L) failed dst paddr w) :=
  .ite (.bind (callPagingMap_quiet _ _ _) fun _ =>
    .ite (.bind (setStrError_quiet _) fun _ => .pure _) (.pure _)) (.pure _)

theorem storeByte_quiet (va : UInt32) (b : UInt8) : Quiet img len (storeByte L va b) := by
  intro s u s' h
  unfold storeByte at h
  split at h
  · cases h
  · obtain ⟨-, rfl⟩ := Prod.mk.inj (Except.ok.inj h)
    exact ⟨[.store va], rfl, by simp⟩

/-- Turns that are guarded up to turn `c` and load nothing from there on. -/
theorem turns_guards {body : Nat → Loader Bool} {c : Nat}
    (hguards : ∀ k < c, Guards L own img len file (· = true) (body k))
    (hquiet : ∀ k, c ≤ k → Quiet img len (body k)) :
    ∀ n, Guards L own img len file (fun ok => ok = true ∧ n ≤ c) (turns body n)
  | 0 => (Keeps.pure true).guards
  | n + 1 => by
      intro s hg
      unfold turns
      refine wlp_bind (turns_guards hguards hquiet n s hg) ?_
      rintro ok s1 ⟨hg1, hr1⟩
      cases ok with
      | false => exact wlp_pure ⟨fun h => absurd h.1 (by decide), hr1⟩
      | true =>
          by_cases hn : n < c
          · refine wlp_mono (hguards n hn s1 (hg1 ⟨rfl, Nat.le_of_lt hn⟩)) ?_
            rintro ok s' ⟨hg', hr'⟩
            exact ⟨fun h => hg' h.1, hr1.trans hr'⟩
          · refine wlp_mono (hquiet n (Nat.le_of_not_lt hn) s1) fun ok s' hr' => ?_
            exact ⟨fun h => absurd h.2 hn, hr1.trans hr'⟩

/-! ### A segment -/

section

variable {h : Phdr} (hfits : img.toNat + len ≤ 2 ^ 32)
  (hin : 0 < h.filesz.toNat → h.offset.toNat + h.filesz.toNat ≤ len)

include hfits hin

theorem fetch_yields (k : Nat) : Yields L img len file (fetch L img h k) (h.content file k) := by
  unfold fetch Phdr.content
  by_cases hk : k < h.filesz.toNat
  · have hlen := hin (by omega)
    rw [if_pos hk, if_pos hk]
    refine loadByte_yields ?_ (by omega)
    rw [toNat_add_ofNat_mod, UInt32.toNat_add]
    omega
  · rw [if_neg hk, if_neg hk]
    exact .pure 0

theorem turn_guards (hown : ∀ pa, L.place pa ≠ .other → pa ∈ own) {k : Nat}
    (hpage : ClearPage own img len (h.vaddr + UInt32.ofNat k))
    (hframe : ClearFrame own img len (h.paddr + UInt32.ofNat k)) :
    Guards L own img len file (· = true) (turn L img h k) := by
  refine (mapAtPageStart_guards hown hpage hframe _ _).seq fun mapped => ?_
  refine .ite (fun _ => (Keeps.pure _).guards) fun _ => ?_
  refine (fetch_yields hfits hin k).seq ?_
  exact (storeByte_guards hpage _).seq fun _ => (Keeps.pure _).guards

end

theorem turn_quiet {h : Phdr} {k : Nat} (hk : h.filesz.toNat ≤ k) :
    Quiet img len (turn L img h k) := by
  unfold turn turnBy fetch
  rw [if_neg (Nat.not_lt.mpr hk)]
  refine .bind (mapAtPageStart_quiet _ _ _ _) fun _ => .ite (.pure _) ?_
  exact .bind (.pure _) fun _ => .bind (storeByte_quiet _ _) fun _ => .pure _

end

end Kboot86.Elf32
