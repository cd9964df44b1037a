import Kboot86.Drivers.Mbr
import Kboot86.Foundation.Transition

/-!
# The partition table after any number of calls

`mbr_init` changes the entries in place and leaves fields of them as they are
on some paths. The entries that are left invalid may keep what an earlier table
said; a valid entry never does.
-/

namespace Kboot86.Mbr

structure InitCall where
  dev : Ata.Device
  id : Ata.IdData
  code : Int

def mbrSystem : System State InitCall where
  init := (· = State.zero)
  step s e s' := mbrInit e.dev e.id s = .ok (s', e.code)

def BootableBefore (mbr : Sector) (i : Nat) : Prop :=
  ∃ j < i, isBootable (partition mbr j) = true

def Accepted (mbr : Sector) (i : Nat) : Prop :=
  isAllZero (partition mbr i) = false ∧
    ¬ (isBootable (partition mbr i) = true ∧ BootableBefore mbr i)

/-- The entries in memory are those of the table. -/
structure State.Holds (s : State) (mbr : Sector) : Prop where
  oneBootable : ∀ i j, (s.partitionEntry i).valid = true → (s.partitionEntry i).bootable = true →
    (s.partitionEntry j).valid = true → (s.partitionEntry j).bootable = true → i = j
  valid_iff : ∀ i : Fin 4, (s.partitionEntry i).valid = true ↔ Accepted mbr i.val
  copies : s.Copies mbr

/-- The second loop of `mbr_init` after `n` entries. -/
structure State.Upto (s : State) (mbr : Sector) (n : Nat) : Prop where
  found : s.bootablePartitionFound = true ↔ BootableBefore mbr n
  valid_iff : ∀ i : Fin 4, (s.partitionEntry i).valid = true ↔ i.val < n ∧ Accepted mbr i.val
  bootable : ∀ i : Fin 4, (s.partitionEntry i).valid = true →
    (s.partitionEntry i).bootable = isBootable (partition mbr i.val)

theorem not_isBootable_of_isAllZero {pe : PartitionEntry} (h : isAllZero pe = true) :
    isBootable pe = false := by
  have hzero : pe 0 = 0 := eq_of_beq (List.all_eq_true.mp h 0 (by decide))
  rw [isBootable, PartitionEntry.status, hzero]
  rfl

theorem bootableBefore_succ (mbr : Sector) (n : Nat) :
    BootableBefore mbr (n + 1) ↔
      BootableBefore mbr n ∨ isBootable (partition mbr n) = true := by
  constructor
  · rintro ⟨j, hj, hboot⟩
    rcases Nat.lt_succ_iff_lt_or_eq.mp hj with hlt | rfl
    · exact .inl ⟨j, hlt, hboot⟩
    · exact .inr hboot
  · rintro (⟨j, hj, hboot⟩ | hboot)
    · exact ⟨j, Nat.lt_succ_of_lt hj, hboot⟩
    · exact ⟨n, Nat.lt_succ_self n, hboot⟩

section

variable {s : State} {mbr : Sector} {pnum : Fin 4} {pe : PartitionEntry}

theorem setPartitionInfo_of_ne {i : Fin 4} (hi : i ≠ pnum) :
    (setPartitionInfo s pnum pe).1.partitionEntry i = s.partitionEntry i := by
  unfold setPartitionInfo
  split
  · exact Function.update_of_ne hi _ _
  · dsimp only
    split
    · split
      · exact Function.update_of_ne hi _ _
      · exact Function.update_of_ne hi _ _
    · exact Function.update_of_ne hi _ _

theorem setPartitionInfo_found :
    (setPartitionInfo s pnum pe).1.bootablePartitionFound = true ↔
      s.bootablePartitionFound = true ∨ isBootable pe = true := by
  unfold setPartitionInfo
  split
  · rename_i hzero
    rw [not_isBootable_of_isAllZero hzero]
    exact ⟨.inl, fun h => h.resolve_right (by decide)⟩
  · dsimp only
    split
    · rename_i hboot
      split
      · rename_i hfound
        exact iff_of_true hfound (.inl hfound)
      · exact iff_of_true rfl (.inr hboot)
    · rename_i hboot
      exact ⟨.inl, fun h => h.resolve_right hboot⟩

/-- What becomes of the entry itself, which was invalid before. -/
theorem setPartitionInfo_self (hs : (s.partitionEntry pnum).valid = false)
    (pe : PartitionEntry) :
    (((setPartitionInfo s pnum pe).1.partitionEntry pnum).valid = true ↔
      isAllZero pe = false ∧ ¬ (isBootable pe = true ∧ s.bootablePartitionFound = true)) ∧
    (((setPartitionInfo s pnum pe).1.partitionEntry pnum).valid = true →
      ((setPartitionInfo s pnum pe).1.partitionEntry pnum).bootable = isBootable pe) := by
  unfold setPartitionInfo
  cases hzero : isAllZero pe with
  | true => simp [State.setEntry]
  | false =>
      cases hboot : isBootable pe with
      | false => simp [State.setEntry]
      | true =>
          cases hfound : s.bootablePartitionFound with
          | true => simp [State.setEntry, hs]
          | false => simp [State.setEntry]

theorem State.Upto.step (pnum : Fin 4) (h : s.Upto mbr pnum.val) :
    (setPartitionInfo s pnum (partition mbr pnum.val)).1.Upto mbr (pnum.val + 1) := by
  have hs : (s.partitionEntry pnum).valid = false :=
    Bool.eq_false_iff.mpr fun hv => Nat.lt_irrefl _ ((h.valid_iff pnum).mp hv).1
  obtain ⟨hvalid, hboot⟩ := setPartitionInfo_self hs (partition mbr pnum.val)
  rw [h.found] at hvalid
  constructor
  · rw [setPartitionInfo_found, h.found, bootableBefore_succ]
  · intro i
    by_cases hi : i = pnum
    · subst hi
      rw [hvalid]
      exact ⟨fun hacc => ⟨Nat.lt_succ_self _, hacc⟩, fun hacc => hacc.2⟩
    · rw [setPartitionInfo_of_ne hi, h.valid_iff i]
      have hne : i.val ≠ pnum.val := fun heq => hi (Fin.ext heq)
      exact and_congr_left fun _ => by omega
  · intro i hv
    by_cases hi : i = pnum
    · subst hi
      exact hboot hv
    · rw [setPartitionInfo_of_ne hi] at hv ⊢
      exact h.bootable i hv

theorem State.Upto.init (s : State) (mbr : Sector) :
    State.Upto { s.invalidate with bootablePartitionFound := false } mbr 0 where
  found := iff_of_false Bool.false_ne_true fun ⟨j, hj, _⟩ => Nat.not_lt_zero j hj
  valid_iff i := iff_of_false Bool.false_ne_true fun h => Nat.not_lt_zero _ h.1
  bootable i hv := by
    rw [State.invalidate] at hv
    cases hv

theorem State.load_upto (s : State) (mbr : Sector) : (s.invalidate.load mbr).Upto mbr 4 := by
  have hloop : List.finRange 4 = [0, 1, 2, 3] := by decide
  rw [State.load, hloop]
  have h1 := State.Upto.step 0 (State.Upto.init s mbr)
  have h2 := State.Upto.step 1 h1
  have h3 := State.Upto.step 2 h2
  exact State.Upto.step 3 h3

/-- Two valid bootable entries are the same: neither is before the other. -/
theorem State.load_holds (s : State) (mbr : Sector) : (s.invalidate.load mbr).Holds mbr := by
  have h := s.load_upto mbr
  have hbefore : ∀ i j : Fin 4, ((s.invalidate.load mbr).partitionEntry i).valid = true →
      ((s.invalidate.load mbr).partitionEntry i).bootable = true →
      ((s.invalidate.load mbr).partitionEntry j).valid = true →
      ((s.invalidate.load mbr).partitionEntry j).bootable = true → ¬ i < j := by
    intro i j hi hbi hj hbj hlt
    rw [h.bootable i hi] at hbi
    rw [h.bootable j hj] at hbj
    exact ((h.valid_iff j).mp hj).2.2 ⟨hbj, i.val, hlt, hbi⟩
  refine ⟨fun i j hi hbi hj hbj => ?_, fun i => ?_, s.load_copies mbr⟩
  · exact Fin.le_antisymm (Fin.not_lt.mp (hbefore j i hj hbj hi hbi))
      (Fin.not_lt.mp (hbefore i j hi hbi hj hbj))
  · rw [h.valid_iff i]
    exact and_iff_right i.isLt

end

theorem mbrInit_cases {dev : Ata.Device} {id : Ata.IdData} {s s' : State} {code : Int}
    (h : mbrInit dev id s = .ok (s', code)) :
    (code = 0 ∧ ∃ mbr, Ata.ataReadSectorLba dev id 0 = .ok (some mbr) ∧ s'.Holds mbr) ∨
      (code = 1 ∧ ∀ i, (s'.partitionEntry i).valid = false) := by
  rw [mbrInit] at h
  cases hread : Ata.ataReadSectorLba dev id 0 with
  | error e =>
      rw [hread] at h
      cases h
  | ok r =>
      rw [hread] at h
      cases r with
      | none =>
          obtain ⟨rfl, rfl⟩ := Prod.mk.inj (Except.ok.inj h)
          exact .inr ⟨rfl, s.invalidate_valid⟩
      | some mbr =>
          obtain ⟨rfl, rfl⟩ := Prod.mk.inj (Except.ok.inj h)
          exact .inl ⟨rfl, mbr, rfl, s.load_holds mbr⟩

/-- After each call of a sequence, the entries are those of the table that it
has read, or none is valid. -/
theorem mbrInit_holds {es : List InitCall} {e : InitCall} {s : State}
    (h : mbrSystem.Run (es ++ [e]) s) :
    (e.code = 0 → ∃ mbr, Ata.ataReadSectorLba e.dev e.id 0 = .ok (some mbr) ∧ s.Holds mbr) ∧
      (e.code = 1 → ∀ i, (s.partitionEntry i).valid = false) := by
  obtain ⟨s₀, -, hstep⟩ := (mbrSystem.run_snoc_iff es e s).mp h
  rcases mbrInit_cases hstep with ⟨hcode, hholds⟩ | ⟨hcode, hnone⟩
  · exact ⟨fun _ => hholds, fun h1 => by omega⟩
  · exact ⟨fun h0 => by omega, fun _ => hnone⟩

def twoBootable : Sector := fun k => if k = 446 ∨ k = 462 then 0x80 else 0

theorem mbrInit_holds_twoBootable :
    ∃ s, mbrSystem.Run ([] ++ [⟨⟨none, fun _ => some twoBootable⟩, ⟨true, 20, 1, 1, 20⟩, 0⟩]) s ∧
      ((0 : Int) = 0 → ∃ mbr, Ata.ataReadSectorLba ⟨none, fun _ => some twoBootable⟩
        ⟨true, 20, 1, 1, 20⟩ 0 = .ok (some mbr) ∧ s.Holds mbr) ∧
      ((0 : Int) = 1 → ∀ i, (s.partitionEntry i).valid = false) := by
  have hrun : mbrSystem.Run
      ([] ++ [⟨⟨none, fun _ => some twoBootable⟩, ⟨true, 20, 1, 1, 20⟩, 0⟩])
      (State.zero.invalidate.load twoBootable) :=
    .snoc (.init rfl) (show mbrInit _ _ _ = _ from rfl)
  exact ⟨_, hrun, mbrInit_holds hrun⟩

end Kboot86.Mbr
