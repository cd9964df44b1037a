import Kboot86.Lib.Elf32.Writes

/-!
# Writing through pages just mapped

`_map_progseg` opens a page only when its destination is the start of one, so
what it writes goes through pages of its own when the segment starts with a
page. The alignment test of `_valid_progseg` lets multiples of 1024 through.
Then the first bytes go through whatever was mapped there before, or the frame
of the page is not the one that the header asks for.

A segment may also be mapped over the loader's tables, or be stored in them, as
the lower limits are not tested. `KeepsTables` says of the turns that this does
not happen in a way that matters, `Spares` of the header and of the tables that
are there before the call.
-/

namespace Kboot86.Elf32

open Exec

/-- No byte falls on the entries that lead to the next byte of its page. -/
def Phdr.KeepsEntries (L : Layout) (h : Phdr) : Prop :=
  ∀ k, k + 1 < h.memsz.toNat → (k + 1) % 4096 ≠ 0 →
    ¬ L.OnEntries (h.paddr.toNat + k) (h.vaddr + UInt32.ofNat k)

/-- The tables are in place at the start, and with a page still to be mapped, no
page of the segment is one of the tables it needs, unless it is mapped to
itself, and no byte falls on an entry that leads to them or on the directory
entry of that page. -/
structure Phdr.Spares (L : Layout) (h : Phdr) (t : Tables) : Prop where
  inPlace : ∀ j a, j < h.memsz.toNat → j % 4096 = 0 →
    Reaches L (h.vaddr + UInt32.ofNat j) a → t.Leads L a a.toNat
  pages : ∀ k j a, k < j → j < h.memsz.toNat → k % 4096 = 0 → j % 4096 = 0 →
    Reaches L (h.vaddr + UInt32.ofNat j) a →
    (h.vaddr + UInt32.ofNat k).toNat / 4096 = a.toNat / 4096 → h.paddr.toNat + k = a.toNat
  tables : ∀ k j a, k < j → j < h.memsz.toNat → j % 4096 = 0 →
    Reaches L (h.vaddr + UInt32.ofNat j) a → ¬ L.OnEntries (h.paddr.toNat + k) a
  directory : ∀ k j, k < j → j < h.memsz.toNat → j % 4096 = 0 →
    ¬ L.OnPde (h.paddr.toNat + k) (h.vaddr + UInt32.ofNat j)
  entries : h.KeepsEntries L

/-! ### The page of a turn -/

/-- What is known before turn `k`: the pages so far were accepted, and in the
middle of a page, the page leads to its frame. -/
structure Leading (L : Layout) (h : Phdr) (k : Nat) (m : Memory) : Prop where
  accepts : ∀ j < k, Accepts h j
  leads : k % 4096 ≠ 0 →
    m.tables.Leads L (h.vaddr + UInt32.ofNat k) ((h.paddr.toNat + k) / 4096 * 4096)

section

variable {L : Layout} {img phdr : UInt32} {h : Phdr} {s s' s₀ : State} {k : Nat}

theorem Leading.zero (m : Memory) : Leading L h 0 m :=
  ⟨fun j hj => absurd hj (Nat.not_lt_zero j), fun h => absurd rfl h⟩

theorem Phdr.PageAligned.toNat_add (hal : h.PageAligned) (hacc : ∀ j < k + 1, Accepts h j) :
    (h.vaddr + UInt32.ofNat k).toNat = h.vaddr.toNat + k ∧
      (h.paddr + UInt32.ofNat k).toNat = h.paddr.toNat + k := by
  obtain ⟨hbv, hbp⟩ := accepts_bound (n := k + 1) hal (by omega) hacc
  have hup := le_roundUp (k + 1)
  exact ⟨toNat_add_ofNat (by omega), toNat_add_ofNat (by omega)⟩

theorem Leading.openPage (hal : h.PageAligned) (hlead : Leading L h k s.mem)
    (hin : InPlaceAt L h k s.mem) (hopen : openPagePaged L h k s = .ok (true, s')) :
    (∀ j < k + 1, Accepts h j) ∧ s'.mem = openMem L h k s.mem ∧
      s'.mem.tables.Leads L (h.vaddr + UInt32.ofNat k) ((h.paddr.toNat + k) / 4096 * 4096) := by
  rw [openPagePaged_eq hin] at hopen
  obtain ⟨hthis, hs', -⟩ := openPage_wlp k s true s' hopen rfl
  have hacc : ∀ j < k + 1, Accepts h j := by
    intro j hj
    by_cases heq : j = k
    · exact heq ▸ hthis
    · exact hlead.accepts j (by omega)
  obtain ⟨hva, hpa⟩ := hal.toNat_add hacc
  have hv := hal.1
  refine ⟨hacc, hs', ?_⟩
  rw [hs', openMem]
  by_cases hpage : k % 4096 = 0
  · have hmap := hthis (by omega)
    rw [if_pos (by omega), ← hpa]
    exact leads_map_page hmap ((hin (by omega)).own (implemented_of_accepts hmap))
  · rw [if_neg (by omega)]
    exact hlead.leads hpage

theorem Leading.turn (hal : h.PageAligned) (hlead : Leading L h k s.mem)
    (hin : InPlaceAt L h k s.mem) (hentries : (k + 1) % 4096 ≠ 0 →
      ¬ L.OnEntries (h.paddr.toNat + k) (h.vaddr + UInt32.ofNat k))
    (hturn : turnPaged L img h k s = .ok (true, s')) :
    Leading L h (k + 1) s'.mem ∧
      ∃ b, s'.mem = (openMem L h k s.mem).store8 L (h.paddr.toNat + k) b := by
  obtain ⟨s1, hopen, -, ⟨tr, b, htr, hs'⟩, -⟩ := turnBy_stored hturn
  obtain ⟨hacc, hs1, hleads⟩ := hlead.openPage hal hin hopen
  obtain ⟨hbound, -⟩ := accepts_bound (n := k + 1) hal (by omega) hacc
  have hup := le_roundUp (k + 1)
  obtain ⟨hva, hpa⟩ := hal.toNat_add hacc
  obtain ⟨hv, hp⟩ := hal
  obtain ⟨w, htr'⟩ := hleads.translate
  have hplace : tr.paddr = h.paddr.toNat + k := by
    rw [htr] at htr'
    obtain rfl := Option.some.inj htr'
    change (h.paddr.toNat + k) / 4096 * 4096 + (h.vaddr + UInt32.ofNat k).toNat % 4096 = _
    omega
  rw [hplace] at hs'
  refine ⟨⟨hacc, fun hmid => ?_⟩, b, by rw [hs', hs1]⟩
  have hnext : (h.vaddr + UInt32.ofNat (k + 1)).toNat / 4096 =
      (h.vaddr + UInt32.ofNat k).toNat / 4096 := by
    rw [toNat_add_ofNat_mod, hva]
    omega
  have hframe : (h.paddr.toNat + (k + 1)) / 4096 = (h.paddr.toNat + k) / 4096 := by omega
  rw [hs', hframe]
  exact (hleads.store8 (hentries hmid) b).of_page hnext

/-- A page mapped in front of another one leaves the tables of that one in
place. -/
theorem Phdr.Spares.openMem {t : Tables} {m : Memory} (hal : h.PageAligned)
    (hspares : h.Spares L t) (hacc : ∀ j < k + 1, Accepts h j) {j : Nat} (hkj : k < j)
    (hj : j < h.memsz.toNat) (hstart : j % 4096 = 0) (hthis : InPlaceAt L h k m)
    (hin : InPlace L m.tables (h.vaddr + UInt32.ofNat j)) :
    InPlace L (openMem L h k m).tables (h.vaddr + UInt32.ofNat j) := by
  unfold Elf32.openMem
  split
  next hpage =>
    obtain ⟨hva, hpa⟩ := hal.toNat_add hacc
    have hmap := hacc k (by omega) hpage
    have hown := (hthis hpage).own (implemented_of_accepts hmap)
    refine ⟨fun a ha => ?_, fun himpl => (hin.own himpl).map hown⟩
    by_cases hsame : a.toNat / 4096 = (h.vaddr + UInt32.ofNat k).toNat / 4096
    · have hv := hal.1
      have hself := hspares.pages k j a hkj hj (by omega) hstart ha hsame.symm
      have haligned := ha.aligned
      have hframe : (h.paddr + UInt32.ofNat k).toNat / 4096 * 4096 = a.toNat := by omega
      have hleads := leads_map_page (w := h.target.writable) hmap hown
      rw [hframe] at hleads
      exact hleads.of_page hsame
    · exact (hin.tables a ha).map_other hsame
  · exact hin

end

end Kboot86.Elf32
