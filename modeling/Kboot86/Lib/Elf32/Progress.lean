import Kboot86.Lib.Elf32.Map
import Kboot86.Mm.MapEffect

/-!
# A segment on its way into memory

`Progress` compares the memory before a segment was begun with the memory when
its first `n` bytes are in place and its pages are mapped up to offset `q`. One
turn of either loop of `_map_progseg` maps a page when `n` is the start of one
and then stores byte `n`.
-/

namespace Kboot86.Elf32

open Exec

def roundUp (n : Nat) : Nat := (n + 4095) / 4096 * 4096

structure Target where
  vaddr : Nat
  paddr : Nat
  memsz : Nat
  writable : Bool

/-- What makes a target mappable page by page. An empty one has no pages and
only has to pass the range test of the source. -/
structure Target.Ok (L : Layout) (g : Target) : Prop where
  vaddr_aligned : g.vaddr % 4096 = 0
  paddr_aligned : g.paddr % 4096 = 0
  paddr_le : g.paddr + g.memsz ≤ kernelPaddrMax.toNat
  vaddr_range : g.memsz = 0 ∧ g.vaddr ≤ kernelVaddrMax.toNat ∨
    g.vaddr + roundUp g.memsz ≤ 0x1000000 ∨
    0xc0000000 ≤ g.vaddr ∧ g.vaddr + roundUp g.memsz ≤ 0xc0400000
  place : ∀ pa, g.paddr ≤ pa → pa < g.paddr + roundUp g.memsz → L.place pa = .other

/-- A page of the last 4 MiB is as before, or it was not mapped and shows the
page table of an address between `lo` and `hi`. -/
def WindowKept (L : Layout) (m₀ m : Memory) (lo hi : Nat) : Prop :=
  ∀ va : UInt32, 0xffc00000 ≤ va.toNat →
    translate L m va = translate L m₀ va ∨
      translate L m₀ va = none ∧
        ∃ a, lo ≤ a ∧ a < hi ∧ va.toNat / 4096 % 1024 = a / 4194304

/-- The memory `m` is `m₀` with the pages of `g` mapped up to offset `q` and
the first `n` bytes of `c` in place. -/
structure Progress (L : Layout) (g : Target) (c : Nat → UInt8) (m₀ m : Memory) (q n : Nat) :
    Prop where
  inv : PagingInv L m.tables
  pages : ∀ va : UInt32, va.toNat < 0xffc00000 →
    translate L m va =
      if g.vaddr ≤ va.toNat ∧ va.toNat < g.vaddr + q then
        some ⟨g.paddr + (va.toNat - g.vaddr), g.writable⟩
      else translate L m₀ va
  bytes : ∀ pa, L.place pa = .other →
    m.load8 L pa = if g.paddr ≤ pa ∧ pa < g.paddr + n then c (pa - g.paddr) else m₀.load8 L pa
  window : WindowKept L m₀ m g.vaddr (g.vaddr + q)

theorem le_roundUp (n : Nat) : n ≤ roundUp n := by
  unfold roundUp
  omega

theorem roundUp_mono {m n : Nat} (h : m ≤ n) : roundUp m ≤ roundUp n := by
  unfold roundUp
  omega

theorem roundUp_succ_of_dvd {n : Nat} (h : n % 4096 = 0) :
    roundUp n = n ∧ roundUp (n + 1) = n + 4096 := by
  unfold roundUp
  omega

theorem roundUp_succ_of_not_dvd {n : Nat} (h : n % 4096 ≠ 0) : roundUp (n + 1) = roundUp n := by
  unfold roundUp
  omega

theorem translate_congr {L : Layout} {m m' : Memory} (h : m'.tables = m.tables)
    (hinv : PagingInv L m.tables) (va : UInt32) : translate L m' va = translate L m va := by
  have hinv' : PagingInv L m'.tables := h ▸ hinv
  by_cases hva : va.toNat < 0xffc00000
  · rw [translate_eq_lookup hinv'.toTablesInv hva, translate_eq_lookup hinv.toTablesInv hva, h]
  · rw [translate_window hinv' (by omega), translate_window hinv (by omega), h]

theorem load8_congr {L : Layout} (m' m : Memory) (h : m'.bytes = m.bytes) {pa : Nat}
    (hpa : L.place pa = .other) : m'.load8 L pa = m.load8 L pa := by
  rw [Memory.load8_of_other L m' hpa, Memory.load8_of_other L m hpa, h]

namespace Progress

variable {L : Layout} {g : Target} {c : Nat → UInt8} {m₀ m : Memory} {q n : Nat}

theorem zero (h : PagingInv L m₀.tables) (g : Target) (c : Nat → UInt8) :
    Progress L g c m₀ m₀ 0 0 where
  inv := h
  pages va _ := by rw [if_neg (by omega)]
  bytes pa _ := by rw [if_neg (by omega)]
  window _ _ := .inl rfl

theorem translate_mapped (h : Progress L g c m₀ m q n) (hok : g.vaddr + q ≤ 0xffc00000)
    {va : UInt32} {k : Nat} (hva : va.toNat = g.vaddr + k) (hk : k < q) :
    translate L m va = some ⟨g.paddr + k, g.writable⟩ := by
  have hoff : va.toNat - g.vaddr = k := by omega
  rw [h.pages va (by omega), if_pos (by omega), hoff]

theorem map (h : Progress L g c m₀ m n n) {v p : UInt32} (hn : n % 4096 = 0)
    (hv : v.toNat = g.vaddr + n) (hp : p.toNat = g.paddr + n)
    (hgv : g.vaddr % 4096 = 0) (hgp : g.paddr % 4096 = 0)
    (hacc : mapAccepts v p = true) :
    Progress L g c m₀ (m.map L v p g.writable) (n + 4096) n where
  inv := h.inv.map v p g.writable
  pages va hva := by
    by_cases hpage : va.toNat / 4096 = v.toNat / 4096
    · have haddr : p.toNat / 4096 * 4096 + va.toNat % 4096 =
          g.paddr + (va.toNat - g.vaddr) := by omega
      rw [translate_map_page h.inv hacc hpage, if_pos (by omega), haddr]
    · rw [translate_map_other h.inv hacc hva hpage, h.pages va hva]
      by_cases hin : g.vaddr ≤ va.toNat ∧ va.toNat < g.vaddr + n
      · rw [if_pos hin, if_pos (by omega)]
      · rw [if_neg hin, if_neg (by omega)]
  bytes pa hpa := by
    rw [← h.bytes pa hpa]
    exact load8_congr (m.map L v p g.writable) m rfl hpa
  window va hva := by
    rcases translate_map_window h.inv hva (v := v) (p := p) (w := g.writable) with hs | ⟨hi, hs⟩
    · rw [hs]
      rcases h.window va hva with hk | ⟨hnone, a, hlo, hhi, ha⟩
      · exact .inl hk
      · exact .inr ⟨hnone, a, hlo, by omega, ha⟩
    · rcases h.window va hva with hk | ⟨hnone, a, hlo, hhi, ha⟩
      · exact .inr ⟨hk ▸ hs, v.toNat, by omega, by omega, hi⟩
      · exact .inr ⟨hnone, a, hlo, by omega, ha⟩

theorem store (h : Progress L g c m₀ m q n) (hplace : L.place (g.paddr + n) = .other) :
    Progress L g c m₀ (m.store8 L (g.paddr + n) (c n)) q (n + 1) where
  inv := by
    rw [Memory.store8_tables L m (c n) hplace]
    exact h.inv
  pages va hva := by
    rw [translate_congr (Memory.store8_tables L m (c n) hplace) h.inv, h.pages va hva]
  bytes pa hpa := by
    by_cases heq : pa = g.paddr + n
    · subst heq
      rw [Memory.load8_store8_self L m (c n) hplace, if_pos (by omega), Nat.add_sub_cancel_left]
    · rw [Memory.load8_store8_of_ne L m (c n) hplace heq, h.bytes pa hpa]
      by_cases hin : g.paddr ≤ pa ∧ pa < g.paddr + n
      · rw [if_pos hin, if_pos (by omega)]
      · rw [if_neg hin, if_neg (by omega)]
  window va hva := by
    rw [translate_congr (Memory.store8_tables L m (c n) hplace) h.inv]
    exact h.window va hva

end Progress

/-! ### One byte of a target -/

/-- The pages of a target with a byte at offset `n` lie below the last
4 MiB. -/
theorem Target.Ok.below {L : Layout} {g : Target} (h : g.Ok L) {n : Nat} (hn : n < g.memsz) :
    g.vaddr + roundUp (n + 1) ≤ 0xffc00000 := by
  have hround := roundUp_mono (m := n + 1) (n := g.memsz) (by omega)
  have hrange := h.vaddr_range
  omega

theorem Target.Ok.mapAccepts {L : Layout} {g : Target} (h : g.Ok L) {n : Nat} (hn : n < g.memsz)
    (hpage : n % 4096 = 0) {v p : UInt32} (hv : v.toNat = g.vaddr + n)
    (hp : p.toNat = g.paddr + n) : mapAccepts v p = true := by
  have hval := h.vaddr_aligned
  have hpal := h.paddr_aligned
  have hround := roundUp_mono (m := n + 1) (n := g.memsz) (by omega)
  have hsucc := (roundUp_succ_of_dvd hpage).2
  have hrange := h.vaddr_range
  have hle := h.paddr_le
  rw [kernelPaddrMax_toNat] at hle
  rw [mapAccepts_iff, paddrMax_toNat]
  omega

theorem storeByte_wp {L : Layout} {g : Target} {c : Nat → UInt8} {m₀ : Memory} {s : State}
    {n : Nat} (hok : g.Ok L) (h : Progress L g c m₀ s.mem (roundUp (n + 1)) n)
    (hn : n < g.memsz) {dst : UInt32} (hdst : dst.toNat = g.vaddr + n) {b : UInt8}
    (hb : b = c n) :
    wp (storeByte L dst b) s fun _ s' =>
      Progress L g c m₀ s'.mem (roundUp (n + 1)) (n + 1) := by
  have hlt : n < roundUp (n + 1) := le_roundUp (n + 1)
  have htr := h.translate_mapped (hok.below hn) hdst hlt
  have hround := roundUp_mono (m := n + 1) (n := g.memsz) (by omega)
  have hplace := hok.place (g.paddr + n) (by omega) (by omega)
  refine ⟨(), _, storeByte_eq htr, ?_⟩
  rw [hb]
  exact h.store hplace

end Kboot86.Elf32
