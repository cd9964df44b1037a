import Kboot86.Drivers.Ata.Drive

/-!
# Reads of a drive

What a read does to a drive that answers. On a drive that is ready the polling
loops come to an end, except when the sector cannot be read, and the driver
agrees with the model that has no ports: the sector of the registers is in the
buffer and the drive is ready again.
-/

namespace Kboot86.Ata

open Port (InRange inRange_iff)

namespace Drive

/-! ### The words -/

def Bench.filled (b : Bench) (words : Nat → UInt16) (i : Nat) : Bench where
  drive := { b.drive with wait := 0, phase := .idle }
  buf j := if i ≤ j ∧ j < 256 then words j else b.buf j

section

variable {disk : Disk} {b : Bench} {words : Nat → UInt16}

theorem ends_readData {i : Nat} (hphase : b.drive.phase = .data words i) :
    Exec.Ends (fun fuel => (hardware disk).readData fuel) b
      (.ok (words i, { b with drive := (b.settled.drive.inw disk).2 })) := by
  have hdrq : drq b.drive.phase.status = true := by
    rw [hphase]
    change drq 0x48 = true
    decide
  refine (ends_pollStatus (by decide) hdrq).bind (Exec.ends_of_eq fun _ => ?_)
  have hword : (b.settled.drive.inw disk).1 = words i := by
    rw [inw_data (d := b.settled.drive) rfl hphase]
  rw [← hword]
  rfl

theorem filled_buf (b : Bench) (words : Nat → UInt16) {i : Nat} (hi : i < 256) :
    (fun j => if i + 1 ≤ j ∧ j < 256 then words j else Function.update b.buf i (words i) j) =
      (b.filled words i).buf := by
  funext j
  change _ = if i ≤ j ∧ j < 256 then words j else b.buf j
  by_cases hj : j = i
  · rw [hj, if_neg (by omega), if_pos ⟨le_rfl, hi⟩, Function.update_self]
  · rw [Function.update_of_ne hj]
    exact if_congr (by omega) rfl rfl

theorem ends_readBufferData (n i : Nat) (hn : n + 1 + i = 256)
    (hphase : b.drive.phase = .data words i) :
    Exec.Ends (fun fuel => (hardware disk).readBufferData fuel (n + 1) i) b
      (.ok ((), b.filled words i)) := by
  induction n generalizing b i with
  | zero =>
      obtain rfl : i = 255 := by omega
      have hword : b.settled.drive.inw disk = _ := inw_data rfl hphase
      have hlast : Function.update b.buf 255 (words 255) = (b.filled words 255).buf := by
        rw [← filled_buf b words (by decide)]
        funext j
        exact (if_neg (by omega)).symm
      refine (ends_readData hphase).bind (Exec.ends_of_eq fun _ => ?_)
      rw [hword, if_pos rfl]
      change Except.ok ((), Bench.mk (b.filled words 255).drive _) = _
      rw [hlast]
  | succ n ih =>
      have hword : b.settled.drive.inw disk = _ := inw_data rfl hphase
      refine (ends_readData hphase).bind ?_
      rw [hword, if_neg (by omega)]
      refine Exec.ends_bind_of_eq rfl ?_
      have hrest := ih (i + 1) (b := ⟨{ b.settled.drive with
        wait := disk.wordWait b.drive.commands (i + 1)
        phase := .data words (i + 1) }, Function.update b.buf i (words i)⟩) (by omega) rfl
      rw [Bench.filled, filled_buf b words (by omega)] at hrest
      exact hrest

end

/-! ### Commands -/

def Bench.withDrive (b : Bench) (d : Drive) : Bench := { b with drive := d }

section

variable {disk : Disk} {b : Bench} {cylNum headNum secNum : UInt32}

theorem out_eq (disk : Disk) (b : Bench) (port : UInt16) (value : UInt8) :
    (hardware disk).out port value b = .ok ((), b.withDrive (b.drive.outb disk port value)) := rfl

theorem readStatus_eq (disk : Disk) (b : Bench) :
    (hardware disk).readStatus b = .ok (b.drive.status, b.afterReads 1) := rfl

/-- A drive that is ready settles at once. -/
theorem Ready.afterReads (h : b.drive.Ready) (k : Nat) : b.afterReads k = b := by
  have hwait : b.drive.wait - k = b.drive.wait := by rw [h.wait, Nat.zero_sub]
  rw [Bench.afterReads, hwait]

theorem Ready.status (h : b.drive.Ready) : b.drive.status = 0x40 := by
  rw [status_of_wait h.wait, h.phase]
  rfl

theorem Ready.settled (h : b.drive.Ready) : b.settled = b := by
  rw [Bench.settled, ← h.wait]

theorem ends_sendCmd (h : b.drive.Ready) (cmd : UInt8) :
    Exec.Ends (fun fuel => (hardware disk).sendCmd fuel cmd) b
      (.ok (0, b.withDrive (b.drive.start disk (b.drive.answer disk cmd)))) := by
  have hread : (hardware disk).readStatus b = .ok (0x40, b) := by
    rw [readStatus_eq, h.status, h.afterReads]
  have hphase : (!bsy b.drive.phase.status) = true := by
    rw [h.phase]
    change (!bsy 0x40) = true
    decide
  have hpoll : Exec.Ends (fun fuel => (hardware disk).pollStatus fuel fun status => !bsy status) b
      (.ok (b.drive.phase.status, b)) := by
    have hends : Exec.Ends (fun fuel => (hardware disk).pollStatus fuel fun status => !bsy status)
        b (.ok (b.drive.phase.status, b.settled)) := ends_pollStatus (by decide) hphase
    rwa [h.settled] at hends
  refine Exec.ends_bind_of_eq hread ?_
  refine hpoll.bind (Exec.ends_of_eq fun _ => ?_)
  rw [Exec.bind_apply, out_eq, outb_cmd h.accepts]
  rfl

def setUp (d : Drive) (cylNum headNum secNum : UInt32) : Drive :=
  { d with
    drvHd := d.drvHd &&& 0xf0 ||| headNum.toUInt8 &&& 0x0f
    secCnt := 1
    secNum := (chsRegs cylNum headNum secNum).secNum
    cylLo := (chsRegs cylNum headNum secNum).cylLo
    cylHi := (chsRegs cylNum headNum secNum).cylHi }

theorem Ready.setUp {d : Drive} (h : d.Ready) (cylNum headNum secNum : UInt32) :
    (d.setUp cylNum headNum secNum).Ready where
  wait := h.wait
  phase := h.phase
  selected := (masked_or_and d.drvHd headNum.toUInt8 (by decide)).trans h.selected
  used := h.used

theorem selected_of_upper {d : Drive} (h : d.drvHd &&& 0xf0 = 0) : d.selected = true := by
  have hmask : d.drvHd &&& 0x50 = d.drvHd &&& 0xf0 &&& 0x50 := by
    rw [UInt8.and_assoc]
    rfl
  rw [selected, hmask, h]
  rfl

theorem regs_setUp (d : Drive) (hrange : InRange cylNum headNum secNum) :
    (d.setUp cylNum headNum secNum).regs = chsRegs cylNum headNum secNum := by
  have hhead := (inRange_iff.mp hrange).2.1
  have hlow : (d.setUp cylNum headNum secNum).drvHd.toNat % 16 = headNum.toNat := by
    have hval := Port.withHead_head ⟨0, 0, d.drvHd, [], fun _ => 0⟩ hhead
    rw [UInt8.toNat_and] at hval
    exact (Nat.and_two_pow_sub_one_eq_mod _ 4).symm.trans hval
  have hsel : BitVec.ofNat 4 (d.setUp cylNum headNum secNum).drvHd.toNat =
      BitVec.ofNat 4 headNum.toNat := by
    apply BitVec.eq_of_toNat_eq
    rw [BitVec.toNat_ofNat, BitVec.toNat_ofNat, hlow]
    exact (Nat.mod_eq_of_lt (by omega)).symm
  rw [regs, hsel]
  rfl

theorem answer_setUp {d : Drive} (h : d.Ready) (hrange : InRange cylNum headNum secNum) :
    (d.setUp cylNum headNum secNum).answer disk cmdRswor =
      match disk.readSector (chsRegs cylNum headNum secNum) with
      | some sec => .data (wordsOf sec) 0
      | none => .failed := by
  have hsel := selected_of_upper (h.setUp cylNum headNum secNum).selected
  rw [answer, hsel, regs_setUp d hrange]
  rfl

section

variable {α : Type} {port : UInt16} {v : UInt8} {d : Drive}

theorem bind_out (f : Unit → Exec Hardware.Fault Bench α)
    (h : b.drive.outb disk port v = d) :
    ((hardware disk).out port v >>= f) b = f () (b.withDrive d) := by
  rw [Exec.bind_apply, out_eq, h]

theorem bind_readDrvHd (f : UInt8 → Exec Hardware.Fault Bench α) (h : b.drive.accepts = true) :
    ((hardware disk).readDrvHd >>= f) b = f b.drive.drvHd b := by
  have hread : (hardware disk).readDrvHd b = .ok (b.drive.drvHd, b) := by
    change Except.ok ((b.drive.inb drvHdPort).1, b.withDrive (b.drive.inb drvHdPort).2) = _
    rw [inb_drvHd h]
    rfl
  rw [Exec.bind_apply, hread]

end

theorem ataReadSectorChs_setUp (h : b.drive.Ready) (hrange : InRange cylNum headNum secNum)
    (fuel : Nat) :
    (hardware disk).ataReadSectorChs fuel cylNum headNum secNum b =
      ((hardware disk).sendCmd fuel cmdRswor >>= fun code =>
        if code ≠ 0 then pure 1 else (hardware disk).serviceRead fuel)
        (b.withDrive (b.drive.setUp cylNum headNum secNum)) := by
  have hselect : (hardware disk).selectHead headNum b = .ok (0, b.withDrive
      { b.drive with drvHd := b.drive.drvHd &&& 0xf0 ||| headNum.toUInt8 &&& 0x0f }) := by
    rw [Hardware.selectHead, if_neg hrange.head, bind_readDrvHd _ h.accepts,
      bind_out _ (outb_drvHd h.accepts _)]
    rfl
  unfold Hardware.ataReadSectorChs
  rw [if_neg hrange.cyl, if_neg hrange.head, if_neg hrange.sec, Exec.bind_apply, hselect]
  dsimp only
  rw [if_neg (by decide)]
  refine Eq.trans (bind_out _ (outb_secCnt (by exact h.accepts) _)) ?_
  refine Eq.trans (bind_out _ (outb_secNum (by exact h.accepts) _)) ?_
  refine Eq.trans (bind_out _ (outb_cylLo (by exact h.accepts) _)) ?_
  exact bind_out _ (outb_cylHi (by exact h.accepts) _)

theorem ends_serviceRead {words : Nat → UInt16} (hphase : b.drive.phase = .data words 0) :
    Exec.Ends (fun fuel => (hardware disk).serviceRead fuel) b
      (.ok (0, b.settled.filled words 0)) := by
  have hstatus : b.drive.phase.status = 0x48 := by
    rw [hphase]
    rfl
  have hpoll : Exec.Ends
      (fun fuel => (hardware disk).pollStatus fuel fun status => drq status && !bsy status) b
      (.ok (0x48, b.settled)) := by
    rw [← hstatus]
    exact ends_pollStatus (by decide) (by rw [hstatus]; decide)
  have hwords : Exec.Ends (fun fuel => (hardware disk).readBufferData fuel 256 0) b.settled
      (.ok ((), b.settled.filled words 0)) := ends_readBufferData 255 0 rfl hphase
  have hrest : Exec.Ends (fun fuel => (hardware disk).readBufferData fuel 256 0 >>= fun _ => pure 0)
      b.settled (.ok ((0 : Int), b.settled.filled words 0)) :=
    hwords.bind (Exec.ends_of_eq fun _ => rfl)
  refine hpoll.bind (Exec.ends_congr (fun fuel => ?_) hrest)
  rw [if_neg (by decide)]

def issued (disk : Disk) (d : Drive) (cylNum headNum secNum : UInt32) : Drive :=
  let d := d.setUp cylNum headNum secNum
  d.start disk (d.answer disk cmdRswor)

theorem ends_issued {r : Except Hardware.Fault (Int × Bench)} (h : b.drive.Ready)
    (hrange : InRange cylNum headNum secNum)
    (hrest : Exec.Ends (fun fuel => (hardware disk).serviceRead fuel)
      (b.withDrive (b.drive.issued disk cylNum headNum secNum)) r) :
    Exec.Ends (fun fuel => (hardware disk).ataReadSectorChs fuel cylNum headNum secNum) b r := by
  have hsend : Exec.Ends (fun fuel => (hardware disk).sendCmd fuel cmdRswor)
      (b.withDrive (b.drive.setUp cylNum headNum secNum))
      (.ok (0, b.withDrive (b.drive.issued disk cylNum headNum secNum))) :=
    ends_sendCmd (h.setUp cylNum headNum secNum) cmdRswor
  refine Exec.ends_congr (ataReadSectorChs_setUp h hrange) (hsend.bind ?_)
  refine Exec.ends_congr (fun fuel => ?_) hrest
  rw [if_neg (by decide)]

/-- A sector that can be read is in the buffer, and the drive is ready again. -/
theorem ends_read (h : b.drive.Ready) (hrange : InRange cylNum headNum secNum) {sec : Sector}
    (hsec : disk.readSector (chsRegs cylNum headNum secNum) = some sec) :
    ∃ b', Exec.Ends (fun fuel => (hardware disk).ataReadSectorChs fuel cylNum headNum secNum) b
        (.ok (0, b')) ∧ b'.drive.Ready ∧
      ∀ i, b'.buf i = if i < 256 then wordsOf sec i else b.buf i := by
  have hready := h.setUp cylNum headNum secNum
  have hphase : (b.drive.issued disk cylNum headNum secNum).phase = .data (wordsOf sec) 0 := by
    refine (answer_setUp h hrange).trans ?_
    rw [hsec]
  refine ⟨_, ends_issued h hrange (ends_serviceRead hphase), ?_, fun i => ?_⟩
  · exact ⟨rfl, rfl, hready.selected, hready.used⟩
  · exact if_congr (by omega) rfl rfl

/-- The status of a sector that cannot be read is waited for without end. -/
theorem ends_read_none (h : b.drive.Ready) (hrange : InRange cylNum headNum secNum)
    (hsec : disk.readSector (chsRegs cylNum headNum secNum) = none) :
    Exec.Ends (fun fuel => (hardware disk).ataReadSectorChs fuel cylNum headNum secNum) b
      (.error .stuck) := by
  have hphase : (b.drive.issued disk cylNum headNum secNum).phase.status = 0x41 := by
    change ((b.drive.setUp cylNum headNum secNum).answer disk cmdRswor).status = 0x41
    rw [answer_setUp h hrange, hsec]
    rfl
  refine ends_issued h hrange (Exec.ends_of_eq fun fuel => ?_)
  have hpoll : (hardware disk).pollStatus fuel (fun status => drq status && !bsy status)
      (b.withDrive (b.drive.issued disk cylNum headNum secNum)) = .error .stuck :=
    pollStatus_stuck (by decide) (by rw [Bench.withDrive, hphase]; decide) fuel
  rw [Hardware.serviceRead, Exec.bind_apply, hpoll]

theorem read_refused (hrange : ¬ InRange cylNum headNum secNum) (fuel : Nat) :
    (hardware disk).ataReadSectorChs fuel cylNum headNum secNum b = .ok (1, b) := by
  rw [Hardware.ataReadSectorChs_eq, Exec.bind_apply, Port.issueRead_of_not_inRange _ hrange]
  rfl

def Unreadable (disk : Disk) (id : IdData) (lba : UInt32) : Prop :=
  ∃ c h s, lba2chs id lba = .ok (some (c, h, s)) ∧ InRange c h s ∧
    disk.readSector (chsRegs c h s) = none

/-- What a read by number does when the model without ports returns `r`. -/
def ReadsAs (disk : Disk) (id : IdData) (b : Bench) (lba : UInt32) :
    Except DivideError (Option Sector) → Prop
  | .error e =>
      Exec.Ends (fun fuel => (hardware disk).ataReadSectorLba fuel id lba) b
        (.error (.division e))
  | .ok (some sec) =>
      ∃ b', Exec.Ends (fun fuel => (hardware disk).ataReadSectorLba fuel id lba) b (.ok (0, b')) ∧
        b'.drive.Ready ∧ ∀ i, b'.buf i = if i < 256 then wordsOf sec i else b.buf i
  | .ok none =>
      Exec.Ends (fun fuel => (hardware disk).ataReadSectorLba fuel id lba) b (.ok (1, b)) ∨
        Unreadable disk id lba ∧
          Exec.Ends (fun fuel => (hardware disk).ataReadSectorLba fuel id lba) b (.error .stuck)

theorem ataReadSectorChs_device (hrange : InRange cylNum headNum secNum) :
    Ata.ataReadSectorChs (device disk) cylNum headNum secNum =
      disk.readSector (chsRegs cylNum headNum secNum) := by
  rw [Ata.ataReadSectorChs, if_neg hrange.cyl, if_neg hrange.head, if_neg hrange.sec]
  rfl

theorem ataReadSectorChs_device_refused (hrange : ¬ InRange cylNum headNum secNum) :
    Ata.ataReadSectorChs (device disk) cylNum headNum secNum = none := by
  rw [Ata.ataReadSectorChs]
  split
  · rfl
  · rename_i hcyl
    split
    · rfl
    · rename_i hhead
      split
      · rfl
      · rename_i hsec
        exact absurd ⟨hcyl, hhead, hsec⟩ hrange

theorem readsAs (h : b.drive.Ready) (id : IdData) (lba : UInt32) :
    ReadsAs disk id b lba (Ata.ataReadSectorLba (device disk) id lba) := by
  rw [Ata.ataReadSectorLba]
  cases hchs : lba2chs id lba with
  | error e =>
      refine Exec.ends_of_eq fun fuel => ?_
      rw [Hardware.ataReadSectorLba, hchs]
      rfl
  | ok chs =>
      rcases chs with _ | ⟨c, hd, sec⟩
      · refine .inl (Exec.ends_of_eq fun fuel => ?_)
        rw [Hardware.ataReadSectorLba, hchs]
        rfl
      · have hread : ∀ fuel, (hardware disk).ataReadSectorLba fuel id lba =
            (hardware disk).ataReadSectorChs fuel c hd sec := fun fuel => by
          rw [Hardware.ataReadSectorLba, hchs]
        change ReadsAs disk id b lba (.ok (Ata.ataReadSectorChs (device disk) c hd sec))
        by_cases hrange : InRange c hd sec
        · rw [ataReadSectorChs_device hrange]
          cases hsec : disk.readSector (chsRegs c hd sec) with
          | none =>
              refine .inr ⟨⟨c, hd, sec, hchs, hrange, hsec⟩, ?_⟩
              simp only [hread]
              exact ends_read_none h hrange hsec
          | some contents =>
              obtain ⟨b', hends, hready, hbuf⟩ := ends_read h hrange hsec
              refine ⟨b', ?_, hready, hbuf⟩
              simp only [hread]
              exact hends
        · rw [ataReadSectorChs_device_refused hrange]
          refine .inl (Exec.ends_of_eq fun fuel => ?_)
          rw [hread, read_refused hrange]

end

end Drive

end Kboot86.Ata
