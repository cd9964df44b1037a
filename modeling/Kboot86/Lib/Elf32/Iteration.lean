import Kboot86.Lib.Elf32.Bootable

/-!
# How far a run of turns comes

As long as no byte stored hits the loader's tables, the memory in which turn
`k` translates its addresses is `opened L h m k`, the memory at the start with
the pages of the turns before mapped. A run then comes as far as its turns
`CanTurn`. When the segment starts with a page, byte `k` goes to its place.
-/

namespace Kboot86.Elf32

open Exec

/-- The memory with the pages of the first turns mapped and nothing stored. -/
def opened (L : Layout) (h : Phdr) (m : Memory) : Nat → Memory
  | 0 => m
  | k + 1 => openMem L h k (opened L h m k)

theorem opened_inv {L : Layout} {h : Phdr} {m : Memory} (hinv : PagingInv L m.tables) :
    ∀ k, PagingInv L (opened L h m k).tables
  | 0 => hinv
  | k + 1 => openMem_inv (opened_inv hinv k) k

/-! ### Turns whose stores leave the tables alone -/

section

variable (L : Layout) (img : UInt32) (h : Phdr) (m : Memory) (k : Nat)

/-- Turn `k` can succeed, in a run from `m` in which nothing stored changes a
translation. -/
structure CanTurn : Prop where
  accepts : Accepts h k
  finds : FindsByte L img h k (opened L h m (k + 1))
  leads : (translate L (opened L h m (k + 1)) (h.vaddr + UInt32.ofNat k)).isSome = true

def Harmless : Prop :=
  ∀ tr, translate L (opened L h m (k + 1)) (h.vaddr + UInt32.ofNat k) = some tr →
    L.place tr.paddr = .other

end

section

variable {L : Layout} {img : UInt32} {h : Phdr} {m : Memory} {n : Nat}

theorem translate_openMem (hinv : PagingInv L m.tables) {m1 : Memory} {k : Nat}
    (htables : m1.tables = (opened L h m k).tables) (va : UInt32) :
    translate L (openMem L h k m1) va = translate L (opened L h m (k + 1)) va :=
  translate_congr (openMem_tables htables k) (opened_inv hinv (k + 1)) va

theorem findsByte_congr {k : Nat} {m1 m2 : Memory}
    (hsame : ∀ va, translate L m1 va = translate L m2 va) :
    FindsByte L img h k m1 ↔ FindsByte L img h k m2 := by
  rw [FindsByte, FindsByte, hsame]

theorem Turned.canTurn (hinv : PagingInv L m.tables) {m1 m2 : Memory} {k : Nat}
    (hturn : Turned L img h k m1 m2) (htables : m1.tables = (opened L h m k).tables) :
    CanTurn L img h m k := by
  have hsame := translate_openMem hinv htables
  obtain ⟨tr, b, htr, -⟩ := hturn.stored
  rw [hsame] at htr
  exact ⟨hturn.accepts, (findsByte_congr hsame).mp hturn.finds, by rw [htr]; rfl⟩

theorem Turned.tables (hinv : PagingInv L m.tables) {m1 m2 : Memory} {k : Nat}
    (hturn : Turned L img h k m1 m2) (htables : m1.tables = (opened L h m k).tables)
    (hharm : Harmless L h m k) : m2.tables = (opened L h m (k + 1)).tables := by
  obtain ⟨tr, b, htr, hm2⟩ := hturn.stored
  rw [translate_openMem hinv htables] at htr
  rw [hm2, Memory.store8_tables L _ b (hharm tr htr)]
  exact openMem_tables htables k

theorem turns_opened {s : State} (hinv : PagingInv L s.mem.tables)
    (hharm : ∀ k < n, (∀ j < k + 1, Accepts h j) → Harmless L h s.mem k) :
    wlp (turns (turn L img h) n) s fun ok s' => ok = true →
      s'.mem.tables = (opened L h s.mem n).tables ∧ ∀ k < n, CanTurn L img h s.mem k := by
  refine turns_wlp (I := fun n (s' : State) => s'.mem.tables = (opened L h s.mem n).tables ∧
    ∀ k < n, CanTurn L img h s.mem k) ⟨rfl, fun k hk => absurd hk (Nat.not_lt_zero k)⟩ ?_
  rintro k hk s1 ⟨htables, hcan⟩
  refine wlp_mono (turn_wlp k s1) fun ok s2 hturn hok => ?_
  have hturned := (hturn hok).1
  have hcan' : ∀ j < k + 1, CanTurn L img h s.mem j := by
    intro j hj
    by_cases heq : j = k
    · exact heq ▸ hturned.canTurn hinv htables
    · exact hcan j (by omega)
  exact ⟨hturned.tables hinv htables (hharm k hk fun j hj => (hcan' j hj).accepts), hcan'⟩

end

/-! ### A segment that starts with a page -/

def Phdr.PageAligned (h : Phdr) : Prop := h.vaddr.toNat % 4096 = 0 ∧ h.paddr.toNat % 4096 = 0

section

variable {L : Layout} {h : Phdr} {m : Memory} {n : Nat}

/-- Pages that were all accepted are those of a range below the last 4 MiB. -/
theorem accepts_bound (hal : h.PageAligned) (hn : 0 < n) (hacc : ∀ k < n, Accepts h k) :
    h.vaddr.toNat + roundUp n ≤ 0xc0400000 ∧ h.paddr.toNat + roundUp n ≤ 0xf00000 := by
  rcases hal with ⟨hv, hp⟩
  have hvlt := h.vaddr.toNat_lt
  have hplt := h.paddr.toNat_lt
  -- What acceptance says of the page `k` bytes behind the first.
  have hpage : ∀ k < n, k % 4096 = 0 →
      ((h.paddr.toNat + k) % 2 ^ 32 + 4095 < 0xf00000) ∧
      ((h.vaddr.toNat + k) % 2 ^ 32 < 0x1000000 ∨
        0xc0000000 ≤ (h.vaddr.toNat + k) % 2 ^ 32 ∧
        (h.vaddr.toNat + k) % 2 ^ 32 < 0xc0400000) := by
    intro k hk hmod
    have hva := toNat_add_ofNat_mod h.vaddr k
    have hpa := toNat_add_ofNat_mod h.paddr k
    have hmap := (mapAccepts_iff _ _).mp (hacc k hk (by omega))
    rw [hva, hpa, paddrMax_toNat] at hmap
    omega
  have hfirst := hpage 0 hn rfl
  have hround : roundUp n < n + 4096 ∧ roundUp n % 4096 = 0 := by
    unfold roundUp
    omega
  constructor
  · by_contra hover
    by_cases hlow : h.vaddr.toNat < 0x1000000
    · have hout := hpage (0x1000000 - h.vaddr.toNat) (by omega) (by omega)
      omega
    · have hout := hpage (0xc0400000 - h.vaddr.toNat) (by omega) (by omega)
      omega
  · by_contra hover
    have hout := hpage (0xf00000 - h.paddr.toNat) (by omega) (by omega)
    omega

theorem opened_page (hinv : PagingInv L m.tables) (hal : h.PageAligned)
    (hacc : ∀ k < n, Accepts h k) {va : UInt32} (hlo : h.vaddr.toNat ≤ va.toNat)
    (hhi : va.toNat < h.vaddr.toNat + roundUp n) :
    translate L (opened L h m n) va =
      some ⟨h.paddr.toNat + (va.toNat - h.vaddr.toNat), h.target.writable⟩ := by
  induction n with
  | zero => exact absurd hhi (by rw [show roundUp 0 = 0 from rfl]; omega)
  | succ n ih =>
      obtain ⟨hbv, hbp⟩ := accepts_bound (n := n + 1) hal (by omega) hacc
      have hup := le_roundUp (n + 1)
      have hva : (h.vaddr + UInt32.ofNat n).toNat = h.vaddr.toNat + n :=
        toNat_add_ofNat (by omega)
      have hpa : (h.paddr + UInt32.ofNat n).toNat = h.paddr.toNat + n :=
        toNat_add_ofNat (by omega)
      obtain ⟨hv, hp⟩ := hal
      have ih := ih fun k hk => hacc k (Nat.lt_succ_of_lt hk)
      rw [opened, openMem, hva]
      by_cases hmod : n % 4096 = 0
      · obtain ⟨hthis, hnext⟩ := roundUp_succ_of_dvd hmod
        have hmap := hacc n (Nat.lt_succ_self n) (by omega)
        rw [if_pos (by omega)]
        by_cases hsame : va.toNat / 4096 = (h.vaddr.toNat + n) / 4096
        · have haddr : (h.paddr.toNat + n) / 4096 * 4096 + va.toNat % 4096 =
              h.paddr.toNat + (va.toNat - h.vaddr.toNat) := by omega
          rw [← hva] at hsame
          rw [translate_map_page (opened_inv hinv n) hmap hsame, hpa, haddr]
        · rw [← hva] at hsame
          rw [translate_map_other (opened_inv hinv n) hmap (by omega) hsame]
          exact ih (by omega)
      · rw [if_neg (by omega)]
        rw [roundUp_succ_of_not_dvd hmod] at hhi
        exact ih hhi

/-- The address of turn `k` leads to its place once its page is open. -/
theorem opened_leads (hinv : PagingInv L m.tables) (hal : h.PageAligned) {k : Nat}
    (hacc : ∀ j < k + 1, Accepts h j) :
    translate L (opened L h m (k + 1)) (h.vaddr + UInt32.ofNat k) =
      some ⟨h.paddr.toNat + k, h.target.writable⟩ := by
  obtain ⟨hbv, -⟩ := accepts_bound (n := k + 1) hal (by omega) hacc
  have hup := le_roundUp (k + 1)
  have hva : (h.vaddr + UInt32.ofNat k).toNat = h.vaddr.toNat + k := toNat_add_ofNat (by omega)
  rw [opened_page hinv hal hacc (by omega) (by omega), hva, Nat.add_sub_cancel_left]

end

/-! ### From the call to its loops -/

/-- A call of `_map_progseg` for the header at `phdr` reads `h`, finds it valid
and comes to its loops in state `s₀`. -/
def Enters (L : Layout) (phdr : UInt32) (s : State) (h : Phdr) (s₀ : State) : Prop :=
  ∃ s1, readPhdr L phdr s = .ok (h, s1) ∧
    validProgseg h.paddr h.vaddr h.memsz s1 = .ok (true, s₀)

section

variable {L : Layout} {paging : PagingCall} {img phdr : UInt32} {h : Phdr} {s s₀ : State}

theorem readOnly_readPhdr (L : Layout) (phdr : UInt32) : ReadOnly (readPhdr L phdr) :=
  .bind (readOnly_loadWord L _) fun _ => .bind (readOnly_loadWord L _) fun _ =>
  .bind (readOnly_loadWord L _) fun _ => .bind (readOnly_loadWord L _) fun _ =>
  .bind (readOnly_loadWord L _) fun _ => .bind (readOnly_loadWord L _) fun _ => .pure _

theorem Enters.mem (hent : Enters L phdr s h s₀) : s₀.mem = s.mem := by
  rcases hent with ⟨s1, hread, hvalid⟩
  obtain ⟨rfl, -⟩ := (validProgseg_iff _ _ _ _ _).mp hvalid
  exact readOnly_readPhdr L phdr s h s₀ hread

/-- From its loops on, the call is the turns. -/
theorem Enters.mapProgsegBy_eq (hent : Enters L phdr s h s₀) :
    mapProgsegBy L paging img phdr s =
      (do
        let ok ← turns (turnBy L paging img h) h.turnCount
        pure (if ok then (0 : Int) else 1) : Loader Int) s₀ := by
  rcases hent with ⟨s1, hread, hvalid⟩
  rw [Elf32.mapProgsegBy_eq]
  simp only [bind_apply, hread, hvalid, Bool.not_true, Bool.false_eq_true, ↓reduceIte]

end

end Kboot86.Elf32
