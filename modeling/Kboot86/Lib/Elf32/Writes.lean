import Kboot86.Lib.Elf32.InPlace
import Kboot86.Lib.Elf32.Iteration

/-!
# The writes of one call

With paging on, `_map_progseg` may map a page over the very tables that
`paging_map` looks at next. `MapsAt` and `StoresAt` are the writes of such a
call, one after the other. As long as each page is mapped while the tables are
in place, the turns are those of a call that changes its tables directly.
-/

namespace Kboot86.Elf32

open Exec

section

variable (L : Layout) (img : UInt32) (h : Phdr)

def openPagePaged (k : Nat) : Loader Bool := openPageBy (callPagingMapPaged L) h k

def turnPaged (k : Nat) : Loader Bool := turnBy L (callPagingMapPaged L) img h k

def mapProgsegPaged (phdr : UInt32) : Loader Int :=
  mapProgsegBy L (callPagingMapPaged L) img phdr

variable (s₀ : State) (k : Nat)

def InPlaceAt (m : Memory) : Prop :=
  (h.vaddr + UInt32.ofNat k).toNat % 4096 = 0 → InPlace L m.tables (h.vaddr + UInt32.ofNat k)

end

section

variable {L : Layout} {img phdr : UInt32} {h : Phdr} {s s' s₀ : State} {k n : Nat}

theorem openPagePaged_eq (hin : InPlaceAt L h k s.mem) :
    openPagePaged L h k s = openPage L h k s := by
  unfold openPagePaged openPage
  by_cases hpage : (h.vaddr + UInt32.ofNat k).toNat % 4096 = 0
  · unfold openPageBy mapAtPageStart
    rw [if_pos ((mod_pageSize_iff _).mpr hpage), if_pos ((mod_pageSize_iff _).mpr hpage),
      bind_apply, bind_apply, callPagingMapPaged_eq (hin hpage)]
  · rw [openPageBy_mid hpage, openPageBy_mid hpage]

theorem turnPaged_eq (hin : InPlaceAt L h k s.mem) : turnPaged L img h k s = turn L img h k s := by
  have hopen : openPageBy (callPagingMapPaged L) h k s = openPageBy (callPagingMap L) h k s :=
    openPagePaged_eq hin
  unfold turnPaged turn turnBy
  rw [bind_apply, bind_apply, hopen]

theorem turnsPaged_eq (hin : ∀ k < n, ∀ s1, turns (turn L img h) k s₀ = .ok (true, s1) →
    InPlaceAt L h k s1.mem) :
    turns (turnPaged L img h) n s₀ = turns (turn L img h) n s₀ := by
  induction n with
  | zero => rfl
  | succ n ih =>
      have ih := ih fun k hk => hin k (by omega)
      rw [turns, turns, bind_apply, bind_apply, ih]
      split
      next ok s1 hturns =>
        cases ok with
        | false => rfl
        | true => exact turnPaged_eq (hin n (by omega) s1 hturns)
      · rfl

end

end Kboot86.Elf32
