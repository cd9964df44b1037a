import Kboot86.Drivers.Ata.Port

/-!
# Issuing the read command

What a read has written to the ports when it issues its command, and when it
does not come to that. The registers hold the cylinder, the head and the sector
in 8, 2, 4 and 8 bits; all of them but the sector 256 fit.
-/

namespace Kboot86.Ata.Port

namespace State

def afterReads (s : State) (k : Nat) : State := { s with statusReads := s.statusReads + k }

def withHead (s : State) (headNum : UInt32) : UInt8 :=
  s.drvHd &&& 0xf0 ||| headNum.toUInt8 &&& 0x0f

def setUp (s : State) (cylNum headNum secNum : UInt32) : State :=
  { s with
    drvHd := s.withHead headNum
    writes := s.writes ++ [(drvHdPort, s.withHead headNum), (secCntPort, 1),
      (secNumPort, (chsRegs cylNum headNum secNum).secNum),
      (cylLoPort, (chsRegs cylNum headNum secNum).cylLo),
      (cylHiPort, (chsRegs cylNum headNum secNum).cylHi)] }

def command (s : State) (cmd : UInt8) : State := { s with writes := s.writes ++ [(cmdPort, cmd)] }

end State

structure InRange (cylNum headNum secNum : UInt32) : Prop where
  cyl : ¬ cylNum > 1023
  head : ¬ headNum > 15
  sec : ¬ (secNum < 1 ∨ secNum > 256)

section

variable {bus : Bus} {fuel : Nat} {s s' : State} {cylNum headNum secNum : UInt32}

theorem observes_readStatus (s : State) :
    Exec.Observes bus.hardware.readStatus (fun k => bus.status (s.statusReads + k))
      s.afterReads :=
  fun _ => rfl

theorem pollStatus_eq_ok {p : UInt8 → Bool} {status : UInt8}
    (h : bus.hardware.pollStatus fuel p s = .ok (status, s')) :
    ∃ k, p (bus.status (s.statusReads + k)) = true ∧
      (∀ j < k, p (bus.status (s.statusReads + j)) = false) ∧
      status = bus.status (s.statusReads + k) ∧ s' = s.afterReads (k + 1) := by
  obtain ⟨k, -, hk⟩ := Exec.pollUntil_eq_ok (observes_readStatus s) h
  exact ⟨k, hk⟩

theorem pollStatus_first {p : UInt8 → Bool} {k : Nat} (hk : k < fuel)
    (hp : p (bus.status (s.statusReads + k)) = true)
    (hbefore : ∀ j < k, p (bus.status (s.statusReads + j)) = false) :
    bus.hardware.pollStatus fuel p s = .ok (bus.status (s.statusReads + k), s.afterReads (k + 1)) :=
  Exec.pollUntil_first (observes_readStatus s) hk hp hbefore

theorem State.afterReads_afterReads (s : State) (j k : Nat) :
    (s.afterReads j).afterReads k = s.afterReads (j + k) := by
  rw [State.afterReads, State.afterReads, State.afterReads, Nat.add_assoc]

/-! ### `_send_cmd` -/

theorem sendCmd_of_drq (cmd : UInt8) (h : drq (bus.status s.statusReads) = true) :
    bus.hardware.sendCmd fuel cmd s = .ok (1, s.afterReads 1) := by
  have hread : bus.hardware.readStatus s = .ok (bus.status s.statusReads, s.afterReads 1) := rfl
  rw [Hardware.sendCmd, Exec.bind_apply, hread]
  dsimp only
  rw [if_pos h]
  rfl

theorem sendCmd_of_not_drq (cmd : UInt8) (h : drq (bus.status s.statusReads) = false) :
    bus.hardware.sendCmd fuel cmd s =
      match bus.hardware.pollStatus fuel (fun status => !bsy status) (s.afterReads 1) with
      | .ok (_, s') => .ok (0, s'.command cmd)
      | .error e => .error e := by
  have hread : bus.hardware.readStatus s = .ok (bus.status s.statusReads, s.afterReads 1) := rfl
  rw [Hardware.sendCmd, Exec.bind_apply, hread]
  dsimp only
  rw [if_neg (by rw [h]; decide), Exec.bind_apply]
  cases bus.hardware.pollStatus fuel (fun status => !bsy status) (s.afterReads 1) with
  | error e => rfl
  | ok r => rfl

/-! ### The command -/

theorem issueRead_of_not_inRange {σ : Type} (hw : Hardware σ) {t : σ}
    (h : ¬ InRange cylNum headNum secNum) :
    hw.issueRead fuel cylNum headNum secNum t = .ok (1, t) := by
  unfold Hardware.issueRead
  split
  · rfl
  · rename_i hcyl
    split
    · rfl
    · rename_i hhead
      split
      · rfl
      · rename_i hsec
        exact absurd ⟨hcyl, hhead, hsec⟩ h

/-- The registers are written before the status is looked at. -/
theorem issueRead_of_inRange (h : InRange cylNum headNum secNum) :
    bus.hardware.issueRead fuel cylNum headNum secNum s =
      (bus.hardware.sendCmd fuel cmdRswor >>= fun code => if code ≠ 0 then pure 1 else pure 0)
        (s.setUp cylNum headNum secNum) := by
  have hwrites : (s.setUp cylNum headNum secNum).writes =
      ((((s.writes ++ [(drvHdPort, s.withHead headNum)]) ++ [(secCntPort, 1)]) ++
        [(secNumPort, (chsRegs cylNum headNum secNum).secNum)]) ++
        [(cylLoPort, (chsRegs cylNum headNum secNum).cylLo)]) ++
        [(cylHiPort, (chsRegs cylNum headNum secNum).cylHi)] := by
    simp only [State.setUp, List.append_assoc, List.cons_append, List.nil_append]
  have hsetUp : s.setUp cylNum headNum secNum =
      { s with
        drvHd := s.withHead headNum
        writes := (s.setUp cylNum headNum secNum).writes } := rfl
  unfold Hardware.issueRead Hardware.selectHead
  rw [if_neg h.cyl, if_neg h.head, if_neg h.sec, if_neg h.head, hsetUp, hwrites]
  rfl

theorem issueRead_of_drq (h : InRange cylNum headNum secNum)
    (hdrq : drq (bus.status s.statusReads) = true) :
    bus.hardware.issueRead fuel cylNum headNum secNum s =
      .ok (1, (s.setUp cylNum headNum secNum).afterReads 1) := by
  have hsend : bus.hardware.sendCmd fuel cmdRswor (s.setUp cylNum headNum secNum) =
      .ok (1, (s.setUp cylNum headNum secNum).afterReads 1) := sendCmd_of_drq cmdRswor hdrq
  rw [issueRead_of_inRange h, Exec.bind_apply, hsend]
  rfl

theorem issueRead_of_not_drq (h : InRange cylNum headNum secNum)
    (hdrq : drq (bus.status s.statusReads) = false) :
    bus.hardware.issueRead fuel cylNum headNum secNum s =
      match bus.hardware.pollStatus fuel (fun status => !bsy status)
          ((s.setUp cylNum headNum secNum).afterReads 1) with
      | .ok (_, s') => .ok (0, s'.command cmdRswor)
      | .error e => .error e := by
  have hsame : drq (bus.status (s.setUp cylNum headNum secNum).statusReads) = false := hdrq
  rw [issueRead_of_inRange h, Exec.bind_apply, sendCmd_of_not_drq cmdRswor hsame]
  cases bus.hardware.pollStatus fuel (fun status => !bsy status)
      ((s.setUp cylNum headNum secNum).afterReads 1) with
  | error e => rfl
  | ok r => rfl

/-- The state in which the command is issued when the status is busy `k`
times. -/
def State.issued (s : State) (cylNum headNum secNum : UInt32) (k : Nat) : State :=
  ((s.setUp cylNum headNum secNum).afterReads (k + 2)).command cmdRswor

def BusyFor (bus : Bus) (s : State) (k : Nat) : Prop :=
  bsy (bus.status (s.statusReads + 1 + k)) = false ∧
    ∀ j < k, bsy (bus.status (s.statusReads + 1 + j)) = true

theorem issueRead_issued {k : Nat} (h : InRange cylNum headNum secNum)
    (hdrq : drq (bus.status s.statusReads) = false) (hbusy : BusyFor bus s k) (hk : k < fuel) :
    bus.hardware.issueRead fuel cylNum headNum secNum s =
      .ok (0, s.issued cylNum headNum secNum k) := by
  have hpoll : bus.hardware.pollStatus fuel (fun status => !bsy status)
      ((s.setUp cylNum headNum secNum).afterReads 1) =
      .ok (bus.status (s.statusReads + 1 + k),
        ((s.setUp cylNum headNum secNum).afterReads 1).afterReads (k + 1)) :=
    pollStatus_first hk (by rw [Bool.not_eq_true']; exact hbusy.1) fun j hj => by
      rw [Bool.not_eq_false']
      exact hbusy.2 j hj
  rw [issueRead_of_not_drq h hdrq, hpoll, State.afterReads_afterReads, Nat.add_comm 1]
  rfl

theorem exists_busyFor (h : ∃ k, bsy (bus.status (s.statusReads + 1 + k)) = false) :
    ∃ k, BusyFor bus s k := by
  obtain ⟨k₁, hk₁⟩ := h
  obtain ⟨k, hfree, hbefore⟩ : ∃ k, (!bsy (bus.status (s.statusReads + 1 + k))) = true ∧
      ∀ j < k, (!bsy (bus.status (s.statusReads + 1 + j))) = false :=
    Exec.exists_first ⟨k₁, Bool.not_eq_eq_eq_not.mpr hk₁⟩
  exact ⟨k, Bool.not_eq_eq_eq_not.mp hfree, fun j hj => Bool.not_eq_eq_eq_not.mp (hbefore j hj)⟩

theorem State.issued_writes (s : State) (cylNum headNum secNum : UInt32) (k : Nat) :
    (s.issued cylNum headNum secNum k).writes = s.writes ++
      [(drvHdPort, s.withHead headNum), (secCntPort, 1),
        (secNumPort, (chsRegs cylNum headNum secNum).secNum),
        (cylLoPort, (chsRegs cylNum headNum secNum).cylLo),
        (cylHiPort, (chsRegs cylNum headNum secNum).cylHi), (cmdPort, cmdRswor)] :=
  List.append_assoc _ _ _

/-- A read whose numbers are in range, and that finds no data to transfer, does
not give up before the command. -/
theorem issueRead_code (h : InRange cylNum headNum secNum)
    (hdrq : drq (bus.status s.statusReads) = false) {code : Int}
    (hrun : bus.hardware.issueRead fuel cylNum headNum secNum s = .ok (code, s')) : code = 0 := by
  rw [issueRead_of_not_drq h hdrq] at hrun
  cases hpoll : bus.hardware.pollStatus fuel (fun status => !bsy status)
      ((s.setUp cylNum headNum secNum).afterReads 1) with
  | error e =>
      rw [hpoll] at hrun
      cases hrun
  | ok r =>
      rw [hpoll] at hrun
      exact (congrArg Prod.fst (Except.ok.inj hrun)).symm

theorem issued_of_issueRead
    (h : bus.hardware.issueRead fuel cylNum headNum secNum s = .ok (0, s')) :
    InRange cylNum headNum secNum ∧ drq (bus.status s.statusReads) = false ∧
      ∃ k, BusyFor bus s k ∧ s' = s.issued cylNum headNum secNum k := by
  by_cases hrange : InRange cylNum headNum secNum
  · cases hdrq : drq (bus.status s.statusReads) with
    | true =>
        rw [issueRead_of_drq hrange hdrq] at h
        cases h
    | false =>
        refine ⟨hrange, rfl, ?_⟩
        rw [issueRead_of_not_drq hrange hdrq] at h
        cases hpoll : bus.hardware.pollStatus fuel (fun status => !bsy status)
            ((s.setUp cylNum headNum secNum).afterReads 1) with
        | error e =>
            rw [hpoll] at h
            cases h
        | ok r =>
            obtain ⟨k, hfree, hbefore, -, hstate⟩ := pollStatus_eq_ok hpoll
            have hbusy : BusyFor bus s k :=
              ⟨Bool.not_eq_eq_eq_not.mp hfree, fun j hj => Bool.not_eq_eq_eq_not.mp (hbefore j hj)⟩
            rw [hpoll] at h
            obtain ⟨-, rfl⟩ := Prod.mk.inj (Except.ok.inj h)
            refine ⟨k, hbusy, ?_⟩
            rw [hstate, State.afterReads_afterReads, Nat.add_comm 1]
            rfl
  · rw [issueRead_of_not_inRange _ hrange] at h
    cases h

end

end Kboot86.Ata.Port
