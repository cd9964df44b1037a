import Kboot86.Lib.Elf32.Segment

/-!
# Segments in place

`Loaded L file segs m m'` says what a loader is for: every segment of `segs` is
mapped where its header says and holds what its header says, and nothing else
differs between `m` and `m'`. A segment that has been mapped byte by byte is
loaded, and segments that are loaded one after the other, each away from the
later ones, are loaded together.
-/

namespace Kboot86.Elf32

namespace Phdr

def Covers (h : Phdr) (a : Nat) : Prop :=
  h.vaddr.toNat ≤ a ∧ a < h.vaddr.toNat + roundUp h.memsz.toNat

def Holds (h : Phdr) (pa : Nat) : Prop :=
  h.paddr.toNat ≤ pa ∧ pa < h.paddr.toNat + h.memsz.toNat

/-- The page-rounded ranges of two segments are disjoint, the virtual ones and
the physical ones. -/
def Apart (h h' : Phdr) : Prop :=
  (∀ a, h.Covers a → ¬ h'.Covers a) ∧
    ∀ pa, h.paddr.toNat ≤ pa ∧ pa < h.paddr.toNat + roundUp h.memsz.toNat →
      ¬ (h'.paddr.toNat ≤ pa ∧ pa < h'.paddr.toNat + roundUp h'.memsz.toNat)

end Phdr

structure Loaded (L : Layout) (file : Nat → UInt8) (segs : List Phdr) (m m' : Memory) :
    Prop where
  maps : ∀ h ∈ segs, ∀ (k : Nat) (va : UInt32), k < h.memsz.toNat →
    va.toNat = h.vaddr.toNat + k →
    translate L m' va = some ⟨h.paddr.toNat + k, h.target.writable⟩
  bytes : ∀ h ∈ segs, ∀ k < h.memsz.toNat,
    m'.load8 L (h.paddr.toNat + k) =
      if k < h.filesz.toNat then file (h.offset.toNat + k) else 0
  otherPages : ∀ va : UInt32, va.toNat < 0xffc00000 → (∀ h ∈ segs, ¬ h.Covers va.toNat) →
    translate L m' va = translate L m va
  otherBytes : ∀ pa, L.place pa = .other → (∀ h ∈ segs, ¬ h.Holds pa) →
    m'.load8 L pa = m.load8 L pa
  window : ∀ va : UInt32, 0xffc00000 ≤ va.toNat →
    translate L m' va = translate L m va ∨
      translate L m va = none ∧
        ∃ h ∈ segs, ∃ a, h.Covers a ∧ va.toNat / 4096 % 1024 = a / 4194304

namespace Loaded

variable {L : Layout} {file : Nat → UInt8} {segs : List Phdr} {h : Phdr} {m m₁ m' : Memory}

theorem nil : Loaded L file [] m m where
  maps _ hh := by cases hh
  bytes _ hh := by cases hh
  otherPages _ _ _ := rfl
  otherBytes _ _ _ := rfl
  window _ _ := .inl rfl

theorem of_progress (hok : h.target.Ok L)
    (hp : Progress L h.target (h.content file) m m' (roundUp h.memsz.toNat) h.memsz.toNat) :
    Loaded L file [h] m m' := by
  have hup := le_roundUp h.memsz.toNat
  have hsingle : ∀ {p : Phdr}, p ∈ [h] → p = h := fun hp => List.mem_singleton.mp hp
  constructor
  · intro p hmem k va hk hva
    obtain rfl := hsingle hmem
    have hlow : p.vaddr.toNat + roundUp p.memsz.toNat ≤ 0xffc00000 := by
      have hbelow := hok.below (n := p.memsz.toNat - 1) (by
        change p.memsz.toNat - 1 < p.memsz.toNat
        omega)
      have hsucc : p.memsz.toNat - 1 + 1 = p.memsz.toNat := by omega
      rw [hsucc] at hbelow
      exact hbelow
    exact hp.translate_mapped hlow hva (by omega)
  · intro p hmem k hk
    obtain rfl := hsingle hmem
    have hplace : L.place (p.paddr.toNat + k) = .other :=
      hok.place _ (Nat.le_add_right _ _) (Nat.add_lt_add_left (Nat.lt_of_lt_of_le hk hup) _)
    have hb := hp.bytes _ hplace
    rw [if_pos ⟨Nat.le_add_right _ _, Nat.add_lt_add_left hk _⟩] at hb
    rw [hb, show p.paddr.toNat + k - p.target.paddr = k from Nat.add_sub_cancel_left _ _]
    rfl
  · intro va hva hnot
    have hcov : ¬ (h.target.vaddr ≤ va.toNat ∧
        va.toNat < h.target.vaddr + roundUp h.memsz.toNat) := hnot h (by simp)
    rw [hp.pages va hva, if_neg hcov]
  · intro pa hpa hnot
    have hhold : ¬ (h.target.paddr ≤ pa ∧ pa < h.target.paddr + h.memsz.toNat) :=
      hnot h (by simp)
    rw [hp.bytes pa hpa, if_neg hhold]
  · intro va hva
    rcases hp.window va hva with hs | ⟨hnone, a, hlo, hhi, ha⟩
    · exact .inl hs
    · exact .inr ⟨hnone, h, by simp, a, ⟨hlo, hhi⟩, ha⟩

theorem cons (hok : h.target.Ok L) (h₁ : Loaded L file [h] m m₁) (h₂ : Loaded L file segs m₁ m')
    (hapart : ∀ p ∈ segs, h.Apart p) : Loaded L file (h :: segs) m m' := by
  have hup := le_roundUp h.memsz.toNat
  constructor
  · intro p hmem k va hk hva
    rcases List.mem_cons.mp hmem with rfl | hmem
    · have hcov : p.Covers va.toNat := ⟨by omega, by omega⟩
      have hlow : va.toNat < 0xffc00000 := by
        have hbelow := hok.below (n := k) hk
        have hk1 := le_roundUp (k + 1)
        have hbelow' : p.vaddr.toNat + roundUp (k + 1) ≤ 0xffc00000 := hbelow
        omega
      rw [h₂.otherPages va hlow fun q hq => (hapart q hq).1 _ hcov]
      exact h₁.maps p (by simp) k va hk hva
    · exact h₂.maps p hmem k va hk hva
  · intro p hmem k hk
    rcases List.mem_cons.mp hmem with rfl | hmem
    · have hplace : L.place (p.paddr.toNat + k) = .other :=
        hok.place _ (Nat.le_add_right _ _) (Nat.add_lt_add_left (Nat.lt_of_lt_of_le hk hup) _)
      have hnot : ∀ q ∈ segs, ¬ q.Holds (p.paddr.toNat + k) := by
        rintro q hq ⟨hlo, hhi⟩
        have hq' := le_roundUp q.memsz.toNat
        exact (hapart q hq).2 (p.paddr.toNat + k) ⟨by omega, by omega⟩ ⟨hlo, by omega⟩
      rw [h₂.otherBytes _ hplace hnot]
      exact h₁.bytes p (by simp) k hk
    · exact h₂.bytes p hmem k hk
  · intro va hva hnot
    rw [h₂.otherPages va hva fun p hp => hnot p (by simp [hp])]
    exact h₁.otherPages va hva fun p hp => hnot p (by simp [List.mem_singleton.mp hp])
  · intro pa hpa hnot
    rw [h₂.otherBytes pa hpa fun p hp => hnot p (by simp [hp])]
    exact h₁.otherBytes pa hpa fun p hp => hnot p (by simp [List.mem_singleton.mp hp])
  · intro va hva
    rcases h₂.window va hva with hs | ⟨hnone, p, hp, a, hcov, ha⟩
    · rw [hs]
      rcases h₁.window va hva with hs' | ⟨hnone, p, hp, a, hcov, ha⟩
      · exact .inl hs'
      · exact .inr ⟨hnone, p, by simp [List.mem_singleton.mp hp], a, hcov, ha⟩
    · rcases h₁.window va hva with hs' | ⟨hnone', p', hp', a', hcov', ha'⟩
      · exact .inr ⟨hs' ▸ hnone, p, by simp [hp], a, hcov, ha⟩
      · exact .inr ⟨hnone', p', by simp [List.mem_singleton.mp hp'], a', hcov', ha'⟩

end Loaded

end Kboot86.Elf32
