import Kboot86.Drivers.Ata.Command

/-!
# Sector numbers in the registers

The translation of a sector number to cylinder, head and sector is undone by
the positional value of the three in the geometry, and the registers hold them
except for the sector 256, for which the sector register is zero.
-/

namespace Kboot86.Ata

section

variable {id : IdData} {lba : UInt32}

theorem heads_mul_spt_toNat (id : IdData) :
    (id.heads.toUInt32 * id.spt.toUInt32).toNat = id.heads.toNat * id.spt.toNat := by
  have hmul := Nat.mul_le_mul (Nat.le_of_lt_succ id.heads.toNat_lt)
    (Nat.le_of_lt_succ id.spt.toNat_lt)
  rw [UInt32.toNat_mul, UInt16.toNat_toUInt32, UInt16.toNat_toUInt32]
  exact Nat.mod_eq_of_lt (by omega)

theorem IdData.Divisible.pos (h : id.Divisible) : 0 < id.heads.toNat ∧ 0 < id.spt.toNat := by
  have hheads : id.heads.toNat ≠ 0 := fun h0 => h.1 (UInt16.toNat_inj.mp h0)
  have hspt : id.spt.toNat ≠ 0 := fun h0 => h.2 (UInt16.toNat_inj.mp h0)
  omega

theorem mul_toNat_of_le {a b : UInt32} {m n : Nat} (ha : a.toNat = m) (h : m * b.toNat ≤ n)
    (hn : n < UInt32.size) : (a * b).toNat = m * b.toNat := by
  rw [UInt32.toNat_mul, ha]
  exact Nat.mod_eq_of_lt (lt_of_le_of_lt h hn)

theorem sub_toNat_of_eq {a b : UInt32} {m r : Nat} (hb : b.toNat = m) (ha : a.toNat = m + r) :
    (a - b).toNat = r := by
  have hle : b ≤ a := by
    rw [UInt32.le_iff_toNat_le, hb, ha]
    exact Nat.le_add_right m r
  rw [UInt32.toNat_sub_of_le _ _ hle, hb, ha, Nat.add_sub_cancel_left]

theorem lba2chs_eq (h : id.Divisible) (hlt : lba < id.numSectors) :
    ∃ c hd s : UInt32, lba2chs id lba = .ok (some (c, hd, s)) ∧
      c.toNat = lba.toNat / (id.heads.toNat * id.spt.toNat) ∧
      hd.toNat = lba.toNat / id.spt.toNat % id.heads.toNat ∧
      s.toNat = lba.toNat % id.spt.toNat + 1 := by
  obtain ⟨hheads, hspt⟩ := h.pos
  have hspt0 : id.spt.toUInt32 ≠ 0 := mt (toUInt32_eq_zero_iff _).mp h.2
  have hlba := lba.toNat_lt
  have hspt16 := id.spt.toNat_lt
  obtain ⟨c, hc⟩ : ∃ c, lba / (id.heads.toUInt32 * id.spt.toUInt32) = c := ⟨_, rfl⟩
  obtain ⟨rest, hrest⟩ : ∃ rest, lba - c * id.heads.toUInt32 * id.spt.toUInt32 = rest := ⟨_, rfl⟩
  obtain ⟨hd, hhd⟩ : ∃ hd, rest / id.spt.toUInt32 = hd := ⟨_, rfl⟩
  have hcval : c.toNat = lba.toNat / (id.heads.toNat * id.spt.toNat) := by
    rw [← hc, UInt32.toNat_div, heads_mul_spt_toNat]
  have hle : lba.toNat / (id.heads.toNat * id.spt.toNat) * id.heads.toNat * id.spt.toNat ≤
      lba.toNat := by
    rw [Nat.mul_assoc]
    exact Nat.div_mul_le_self _ _
  have htracks : (c * id.heads.toUInt32).toNat =
      lba.toNat / (id.heads.toNat * id.spt.toNat) * id.heads.toUInt32.toNat :=
    mul_toNat_of_le hcval (le_trans (Nat.le_mul_of_pos_right _ hspt) hle) hlba
  have hbefore : (c * id.heads.toUInt32 * id.spt.toUInt32).toNat =
      lba.toNat / (id.heads.toNat * id.spt.toNat) * id.heads.toNat * id.spt.toNat :=
    mul_toNat_of_le htracks hle hlba
  have hrestval : rest.toNat = lba.toNat % (id.heads.toNat * id.spt.toNat) := by
    rw [← hrest]
    refine sub_toNat_of_eq hbefore ?_
    rw [Nat.mul_assoc, Nat.div_add_mod']
  have hhdval : hd.toNat = lba.toNat % (id.heads.toNat * id.spt.toNat) / id.spt.toNat := by
    rw [← hhd, UInt32.toNat_div, hrestval, UInt16.toNat_toUInt32]
  have hheadval : (hd * id.spt.toUInt32).toNat =
      lba.toNat % (id.heads.toNat * id.spt.toNat) / id.spt.toNat * id.spt.toNat :=
    mul_toNat_of_le hhdval (le_trans (Nat.div_mul_le_self _ _) (Nat.mod_le _ _)) hlba
  have hsec : (rest - hd * id.spt.toUInt32).toNat = lba.toNat % id.spt.toNat := by
    refine sub_toNat_of_eq hheadval ?_
    have hlast : lba.toNat % (id.heads.toNat * id.spt.toNat) % id.spt.toNat =
        lba.toNat % id.spt.toNat := Nat.mod_mul_left_mod _ _ _
    rw [hrestval, ← hlast, Nat.div_add_mod']
  have hmod := Nat.mod_lt lba.toNat hspt
  refine ⟨c, hd, rest - hd * id.spt.toUInt32 + 1, ?_, hcval, ?_, ?_⟩
  · subst hc hrest hhd
    rw [lba2chs, if_neg (UInt32.not_le.mpr hlt)]
    simp only [udiv, if_neg (id.divisible_iff.mp h), if_neg hspt0]
    rfl
  · rw [hhdval]
    exact Nat.mod_mul_left_div_self _ _ _
  · rw [UInt32.toNat_add, hsec, UInt32.toNat_one]
    exact Nat.mod_eq_of_lt (by omega)

/-- A number is the positional value of its cylinder, head and sector. -/
theorem chs_value (n heads spt : Nat) :
    (n / (heads * spt) * heads + n / spt % heads) * spt + n % spt = n := by
  have hdiv : n / (heads * spt) = n / spt / heads := by
    rw [Nat.mul_comm, Nat.div_div_eq_div_mul]
  rw [hdiv, Nat.div_add_mod', Nat.div_add_mod']

/-! ### The registers -/

variable {cylNum headNum secNum : UInt32}

/-- The ten bits of a cylinder number that is not refused are all in its two
registers. -/
theorem chsRegs_cyl (h : cylNum.toNat ≤ 1023) :
    (chsRegs cylNum headNum secNum).cylHi.toNat * 256 +
      (chsRegs cylNum headNum secNum).cylLo.toNat = cylNum.toNat := by
  have hlo : (cylNum &&& 0xff).toNat = cylNum.toNat % 256 := by
    rw [UInt32.toNat_and]
    exact Nat.and_two_pow_sub_one_eq_mod _ 8
  have hhi : ((cylNum &&& 0x300) >>> 8).toNat = cylNum.toNat / 256 % 4 := by
    rw [UInt32.toNat_shiftRight, UInt32.toNat_and]
    change (cylNum.toNat &&& 0x300) >>> 8 = _
    rw [Nat.shiftRight_and_distrib, Nat.shiftRight_eq_div_pow]
    exact Nat.and_two_pow_sub_one_eq_mod _ 2
  rw [chsRegs, UInt32.toNat_toUInt8, UInt32.toNat_toUInt8, hlo, hhi]
  omega

theorem chsRegs_sec : (chsRegs cylNum headNum secNum).secNum.toNat = secNum.toNat % 256 :=
  UInt32.toNat_toUInt8 _

theorem masked_or_and (a b : UInt8) {m n : UInt8} (hmn : n &&& m = 0) :
    (a &&& m ||| b &&& n) &&& m = a &&& m := by
  have hzero : n.toNat &&& m.toNat = 0 := by
    rw [← UInt8.toNat_and, hmn, UInt8.toNat_zero]
  rw [← UInt8.toNat_inj, UInt8.toNat_and, UInt8.toNat_or, UInt8.toNat_and, UInt8.toNat_and,
    Nat.and_or_distrib_right, Nat.and_assoc, Nat.and_assoc, Nat.and_self, hzero, Nat.and_zero,
    Nat.or_zero]

end

namespace Port

theorem withHead_upper (s : State) (headNum : UInt32) :
    s.withHead headNum &&& 0xf0 = s.drvHd &&& 0xf0 := masked_or_and _ _ (by decide)

theorem withHead_head (s : State) {headNum : UInt32} (h : headNum.toNat ≤ 15) :
    (s.withHead headNum &&& 0x0f).toNat = headNum.toNat := by
  have hmask : headNum.toUInt8.toNat &&& 0x0f = headNum.toUInt8.toNat % 16 :=
    Nat.and_two_pow_sub_one_eq_mod _ 4
  rw [State.withHead, UInt8.or_comm, masked_or_and _ _ (by decide), UInt8.toNat_and]
  change headNum.toUInt8.toNat &&& 0x0f = _
  rw [hmask, UInt32.toNat_toUInt8]
  omega

theorem inRange_iff {cylNum headNum secNum : UInt32} :
    InRange cylNum headNum secNum ↔
      cylNum.toNat ≤ 1023 ∧ headNum.toNat ≤ 15 ∧ 1 ≤ secNum.toNat ∧ secNum.toNat ≤ 256 := by
  have hcyl : cylNum > 1023 ↔ 1023 < cylNum.toNat := UInt32.lt_iff_toNat_lt
  have hhead : headNum > 15 ↔ 15 < headNum.toNat := UInt32.lt_iff_toNat_lt
  have hlow : secNum < 1 ↔ secNum.toNat < 1 := UInt32.lt_iff_toNat_lt
  have hhigh : secNum > 256 ↔ 256 < secNum.toNat := UInt32.lt_iff_toNat_lt
  constructor
  · rintro ⟨hc, hh, hs⟩
    rw [hcyl] at hc
    rw [hhead] at hh
    rw [hlow, hhigh] at hs
    omega
  · intro h
    refine ⟨?_, ?_, ?_⟩
    · rw [hcyl]
      omega
    · rw [hhead]
      omega
    · rw [hlow, hhigh]
      omega

/-! ### The read of a sector number -/

section

variable (bus : Bus) (fuel : Nat) (id : IdData) (lba : UInt32)

/-- The bytes written for a sector number: their positional value in the
geometry is the number, and the drive/head register keeps its upper bits, the
drive select bit among them. -/
structure Addresses (old hd sec lo hi : UInt8) : Prop where
  value : (((hi.toNat * 256 + lo.toNat : Int) * id.heads.toNat + (hd &&& 0x0f).toNat) *
    id.spt.toNat + (sec.toNat - 1) : Int) = lba.toNat
  upper : hd &&& 0xf0 = old &&& 0xf0

/-- A read either issues its command with the right registers or returns 1. -/
structure LbaRight (s : State) : Prop where
  issued : ∀ fuel s', bus.hardware.issueLba fuel id lba s = .ok (0, s') →
    ∃ hd sec lo hi, s'.writes = s.writes ++ [(drvHdPort, hd), (secCntPort, 1), (secNumPort, sec),
      (cylLoPort, lo), (cylHiPort, hi), (cmdPort, cmdRswor)] ∧ Addresses id lba s.drvHd hd sec lo hi
  refused : (¬ ∃ fuel s', bus.hardware.issueLba fuel id lba s = .ok (0, s')) →
    ∃ fuel s', bus.hardware.ataReadSectorLba fuel id lba s = .ok (1, s')

def Refused : Prop :=
  id.numSectors ≤ lba ∨ 1023 < lba.toNat / (id.heads.toNat * id.spt.toNat) ∨
    15 < lba.toNat / id.spt.toNat % id.heads.toNat ∨ 256 < lba.toNat % id.spt.toNat + 1

end

section

variable {bus : Bus} {fuel : Nat} {id : IdData} {lba : UInt32} {s s' : State}

theorem refused_or_inRange (h : id.Divisible) (lba : UInt32) :
    (Refused id lba ∧ ∀ (bus : Bus) fuel s, bus.hardware.issueLba fuel id lba s = .ok (1, s)) ∨
      (¬ Refused id lba ∧ ∃ c hd sec : UInt32, InRange c hd sec ∧
        (∀ (bus : Bus) fuel s,
          bus.hardware.issueLba fuel id lba s = bus.hardware.issueRead fuel c hd sec s) ∧
        c.toNat = lba.toNat / (id.heads.toNat * id.spt.toNat) ∧
        hd.toNat = lba.toNat / id.spt.toNat % id.heads.toNat ∧
        sec.toNat = lba.toNat % id.spt.toNat + 1) := by
  by_cases hlt : lba < id.numSectors
  · obtain ⟨c, hd, sec, hchs, hc, hhd, hsec⟩ := lba2chs_eq h hlt
    have hissue : ∀ (bus : Bus) fuel s,
        bus.hardware.issueLba fuel id lba s = bus.hardware.issueRead fuel c hd sec s :=
      fun bus fuel s => by rw [Hardware.issueLba, hchs]
    have hnot := UInt32.not_le.mpr hlt
    by_cases hrange : InRange c hd sec
    · refine .inr ⟨?_, c, hd, sec, hrange, hissue, hc, hhd, hsec⟩
      rw [inRange_iff, hc, hhd, hsec] at hrange
      rintro (hle | hcyl | hhead | hhigh)
      · exact hnot hle
      · omega
      · omega
      · omega
    · refine .inl ⟨?_, fun bus fuel s => by rw [hissue, issueRead_of_not_inRange _ hrange]⟩
      rw [inRange_iff, hc, hhd, hsec] at hrange
      rw [Refused]
      omega
  · have hle := UInt32.not_lt.mp hlt
    refine .inl ⟨.inl hle, fun bus fuel s => ?_⟩
    rw [Hardware.issueLba, lba2chs_of_le hle]
    rfl

/-- The registers that a command finds give the number, unless its sector is
256. -/
theorem addresses_iff {c hd sec : UInt32} (hrange : InRange c hd sec)
    (hc : c.toNat = lba.toNat / (id.heads.toNat * id.spt.toNat))
    (hhd : hd.toNat = lba.toNat / id.spt.toNat % id.heads.toNat)
    (hsec : sec.toNat = lba.toNat % id.spt.toNat + 1) (s : State) :
    Addresses id lba s.drvHd (s.withHead hd) (chsRegs c hd sec).secNum (chsRegs c hd sec).cylLo
        (chsRegs c hd sec).cylHi ↔ lba.toNat % id.spt.toNat ≠ 255 := by
  obtain ⟨hc1023, hh15, hs1, hs256⟩ := inRange_iff.mp hrange
  have hvalue := chs_value lba.toNat id.heads.toNat id.spt.toNat
  have hcyl : (chsRegs c hd sec).cylHi.toNat * 256 + (chsRegs c hd sec).cylLo.toNat = c.toNat :=
    chsRegs_cyl hc1023
  have hsecReg : (chsRegs c hd sec).secNum.toNat = sec.toNat % 256 := chsRegs_sec
  have hheadReg := withHead_head s hh15
  have hpos : (((chsRegs c hd sec).cylHi.toNat * 256 + (chsRegs c hd sec).cylLo.toNat : Int) *
      id.heads.toNat + (s.withHead hd &&& 0x0f).toNat) * id.spt.toNat =
        ((c.toNat * id.heads.toNat + hd.toNat) * id.spt.toNat : Nat) := by
    rw [hheadReg, ← hcyl, Int.natCast_mul, Int.natCast_add, Int.natCast_mul, Int.natCast_add,
      Int.natCast_mul]
    rfl
  rw [← hc, ← hhd] at hvalue
  generalize (c.toNat * id.heads.toNat + hd.toNat) * id.spt.toNat = before at hvalue hpos
  constructor
  · rintro ⟨hval, -⟩ h255
    rw [hpos, hsecReg, hsec, h255] at hval
    omega
  · intro h255
    refine ⟨?_, withHead_upper s hd⟩
    rw [hpos, hsecReg, hsec]
    omega

theorem addresses_of_writes {c hd sec : UInt32} {k : Nat}
    (h : ∃ hd' sec' lo hi, (s.issued c hd sec k).writes = s.writes ++ [(drvHdPort, hd'),
      (secCntPort, 1), (secNumPort, sec'), (cylLoPort, lo), (cylHiPort, hi), (cmdPort, cmdRswor)] ∧
        Addresses id lba s.drvHd hd' sec' lo hi) :
    Addresses id lba s.drvHd (s.withHead hd) (chsRegs c hd sec).secNum (chsRegs c hd sec).cylLo
      (chsRegs c hd sec).cylHi := by
  obtain ⟨hd', sec', lo, hi, hwrites, hright⟩ := h
  rw [State.issued_writes] at hwrites
  have hregs := List.append_cancel_left hwrites
  simp only [List.cons.injEq, Prod.mk.injEq, true_and, and_true] at hregs
  obtain ⟨rfl, rfl, rfl, rfl⟩ := hregs
  exact hright

/-- A read that finds no data to transfer issues its command when the drive
stops being busy. -/
theorem issues_iff {c hd sec : UInt32} (hrange : InRange c hd sec)
    (hdrq : drq (bus.status s.statusReads) = false) :
    (∃ fuel s', bus.hardware.issueRead fuel c hd sec s = .ok (0, s')) ↔
      ∃ k, bsy (bus.status (s.statusReads + 1 + k)) = false := by
  constructor
  · rintro ⟨fuel, s', hrun⟩
    obtain ⟨-, -, k, hk, -⟩ := issued_of_issueRead hrun
    exact ⟨k, hk.1⟩
  · intro hfree
    obtain ⟨k, hbusy⟩ := exists_busyFor hfree
    exact ⟨k + 1, _, issueRead_issued hrange hdrq hbusy (Nat.lt_succ_self k)⟩

/-- A read is right exactly when it is refused before the command, or the drive
stops being busy and the sector is not 256. -/
theorem lbaRight_iff (h : 1 ≤ id.heads ∧ 1 ≤ id.spt) (bus : Bus) (lba : UInt32) (s : State) :
    LbaRight bus id lba s ↔
      Refused id lba ∨ drq (bus.status s.statusReads) = true ∨
        lba.toNat % id.spt.toNat ≠ 255 ∧
          ∃ k, bsy (bus.status (s.statusReads + 1 + k)) = false := by
  have hdiv : id.Divisible :=
    ⟨fun h0 => absurd h.1 (by rw [h0]; decide), fun h0 => absurd h.2 (by rw [h0]; decide)⟩
  rcases refused_or_inRange hdiv lba with ⟨hrefused, hissue⟩ |
    ⟨hnot, c, hd, sec, hrange, hissue, hc, hhd, hsec⟩
  · refine iff_of_true ⟨fun fuel s' hrun => ?_, fun _ => ⟨0, s, ?_⟩⟩ (.inl hrefused)
    · rw [hissue] at hrun
      cases hrun
    · rw [Hardware.ataReadSectorLba_eq, Exec.bind_apply, hissue]
      rfl
  have haddr := addresses_iff hrange hc hhd hsec s
  cases hdrq : drq (bus.status s.statusReads) with
  | true =>
      refine iff_of_true ⟨fun fuel s' hrun => ?_, fun _ => ⟨0, (s.setUp c hd sec).afterReads 1, ?_⟩⟩
        (.inr (.inl rfl))
      · rw [hissue, issueRead_of_drq hrange hdrq] at hrun
        cases hrun
      · rw [Hardware.ataReadSectorLba_eq, Exec.bind_apply, hissue, issueRead_of_drq hrange hdrq]
        rfl
  | false =>
      have hissues : (∃ fuel s', bus.hardware.issueLba fuel id lba s = .ok (0, s')) ↔
          ∃ k, bsy (bus.status (s.statusReads + 1 + k)) = false := by
        simp only [hissue]
        exact issues_iff hrange hdrq
      constructor
      · intro hright
        have hfree : ∃ k, bsy (bus.status (s.statusReads + 1 + k)) = false := by
          by_contra hbusy
          obtain ⟨fuel, s', hrun⟩ := hright.refused (mt hissues.mp hbusy)
          rw [Hardware.ataReadSectorLba_eq] at hrun
          obtain ⟨code, s₁, hcode, -⟩ := Exec.bind_eq_ok.mp hrun
          have hread := hcode
          rw [hissue] at hread
          obtain rfl := issueRead_code hrange hdrq hread
          exact hbusy (hissues.mp ⟨fuel, s₁, hcode⟩)
        obtain ⟨fuel, s', hrun⟩ := hissues.mpr hfree
        have hregs := hright.issued fuel s' hrun
        rw [hissue] at hrun
        obtain ⟨-, -, k, -, rfl⟩ := issued_of_issueRead hrun
        exact .inr (.inr ⟨haddr.mp (addresses_of_writes hregs), hfree⟩)
      · rintro (hrefused | hdrq' | ⟨h255, hfree⟩)
        · exact absurd hrefused hnot
        · cases hdrq'
        · refine ⟨fun fuel s' hrun => ?_, fun hno => absurd (hissues.mpr hfree) hno⟩
          rw [hissue] at hrun
          obtain ⟨-, -, k, -, rfl⟩ := issued_of_issueRead hrun
          exact ⟨_, _, _, _, State.issued_writes s c hd sec k, haddr.mpr h255⟩

end

def idleBus : Bus := ⟨fun _ => 0x40, fun _ => 0⟩

def longTracks : IdData := ⟨true, 1000, 4, 1, 256⟩

def startState : State := ⟨0, 0, 0xa0, [], fun _ => 0⟩

theorem lbaRight_longTracks : LbaRight idleBus longTracks 0 startState :=
  (lbaRight_iff (by decide) idleBus 0 startState).mpr (.inr (.inr ⟨by decide, 0, rfl⟩))

/-- The last sector of the first track is asked for as sector 0. -/
theorem lba_last_of_track :
    (∃ s', idleBus.hardware.issueLba 1 longTracks 255 startState = .ok (0, s') ∧
      (secNumPort, 0) ∈ s'.writes) ∧ ¬ LbaRight idleBus longTracks 255 startState := by
  have hrun : idleBus.hardware.issueLba 1 longTracks 255 startState =
      .ok (0, startState.issued 0 0 256 0) := rfl
  refine ⟨⟨_, hrun, by decide⟩, fun h => ?_⟩
  have hvalue := (addresses_of_writes (h.issued 1 _ hrun)).value
  exact absurd hvalue (by decide)

end Port

end Kboot86.Ata
