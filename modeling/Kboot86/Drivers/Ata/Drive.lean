import Kboot86.Drivers.Ata.Hardware
import Kboot86.Drivers.Ata.Address
import Kboot86.Foundation.Ends

/-!
# A drive behind the ports

The ports of a drive that answers to what is written to them. It is busy for some
reads of the status after a reset and before each word that it delivers, however
many these are. It keeps a record of what the protocol forbids: registers and
commands while it is busy or has data to transfer, and words when it has none.
-/

namespace Kboot86.Ata

/-- What a drive is, and how often its status shows that it is busy: after a
reset, and before a word of the sector or block that command number `n` asks
for. -/
structure Disk where
  identify : Nat → UInt16
  readSector : ChsRegs → Option Sector
  resetWait : Nat
  wordWait : Nat → Nat → Nat

/-- What the drive comes to when it is no longer busy: it waits for a command,
has failed at one, or has word `i` of some to transfer; or a reset holds it. -/
inductive Drive.Phase
  | idle
  | failed
  | data (words : Nat → UInt16) (i : Nat)
  | held

structure Drive where
  secCnt : UInt8
  secNum : UInt8
  cylLo : UInt8
  cylHi : UInt8
  drvHd : UInt8
  wait : Nat
  phase : Drive.Phase
  commands : Nat
  misused : Bool

namespace Drive

def Phase.status : Phase → UInt8
  | .idle => 0x40
  | .failed => 0x41
  | .data _ _ => 0x48
  | .held => 0x80

def status (d : Drive) : UInt8 := if d.wait = 0 then d.phase.status else 0x80

def accepts (d : Drive) : Bool := !bsy d.status && !drq d.status

def regs (d : Drive) : ChsRegs := ⟨d.secNum, d.cylLo, d.cylHi, BitVec.ofNat 4 d.drvHd.toNat⟩

def selected (d : Drive) : Bool := d.drvHd &&& 0x50 == 0

def start (disk : Disk) (d : Drive) (phase : Phase) : Drive :=
  { d with
    commands := d.commands + 1
    wait := disk.wordWait (d.commands + 1) 0
    phase := phase }

/-- What the drive does at a command: IDENTIFY, or the read of one sector. -/
def answer (disk : Disk) (d : Drive) (cmd : UInt8) : Phase :=
  if !d.selected then .failed
  else if cmd = cmdIdentify then .data disk.identify 0
  else if cmd = cmdRswor ∧ d.secCnt = 1 then
    match disk.readSector d.regs with
    | some sec => .data (wordsOf sec) 0
    | none => .failed
  else .failed

def outb (disk : Disk) (port : UInt16) (value : UInt8) (d : Drive) : Drive :=
  if port = controlPort then
    if value &&& srst != 0 then { d with wait := 0, phase := .held }
    else
      match d.phase with
      | .held => { d with drvHd := 0, wait := disk.resetWait, phase := .idle }
      | _ => d
  else if !d.accepts then { d with misused := true }
  else if port = cmdPort then d.start disk (d.answer disk value)
  else if port = secCntPort then { d with secCnt := value }
  else if port = secNumPort then { d with secNum := value }
  else if port = cylLoPort then { d with cylLo := value }
  else if port = cylHiPort then { d with cylHi := value }
  else if port = drvHdPort then { d with drvHd := value }
  else d

def inb (port : UInt16) (d : Drive) : UInt8 × Drive :=
  if port = statusPort then (d.status, { d with wait := d.wait - 1 })
  else if !d.accepts then (0, { d with misused := true })
  else (d.drvHd, d)

/-- After the last word the drive waits for the next command. -/
def inw (disk : Disk) (d : Drive) : UInt16 × Drive :=
  if d.wait = 0 then
    match d.phase with
    | .data words i =>
        if i = 255 then (words i, { d with phase := .idle })
        else (words i,
          { d with wait := disk.wordWait d.commands (i + 1), phase := .data words (i + 1) })
    | _ => (0, { d with misused := true })
  else (0, { d with misused := true })

structure Bench where
  drive : Drive
  buf : Nat → UInt16

def hardware (disk : Disk) : Hardware Bench where
  outb port value b := { b with drive := b.drive.outb disk port value }
  inb port b := ((b.drive.inb port).1, { b with drive := (b.drive.inb port).2 })
  inw _ b := ((b.drive.inw disk).1, { b with drive := (b.drive.inw disk).2 })
  store i word b := { b with buf := Function.update b.buf i word }
  load b := b.buf

def device (disk : Disk) : Device := ⟨some disk.identify, disk.readSector⟩

/-- The drive waits for a command to its first device, and has been used
rightly. -/
structure Ready (d : Drive) : Prop where
  wait : d.wait = 0
  phase : d.phase = .idle
  selected : d.drvHd &&& 0xf0 = 0
  used : d.misused = false

/-! ### The ports -/

section

variable {disk : Disk} {d : Drive}

theorem status_of_wait (h : d.wait = 0) : d.status = d.phase.status := if_pos h

theorem Ready.accepts (h : d.Ready) : d.accepts = true := by
  rw [Drive.accepts, status_of_wait h.wait, h.phase]
  rfl

theorem outb_secCnt (h : d.accepts = true) (v : UInt8) :
    d.outb disk secCntPort v = { d with secCnt := v } := by
  rw [outb, h]
  rfl

theorem outb_secNum (h : d.accepts = true) (v : UInt8) :
    d.outb disk secNumPort v = { d with secNum := v } := by
  rw [outb, h]
  rfl

theorem outb_cylLo (h : d.accepts = true) (v : UInt8) :
    d.outb disk cylLoPort v = { d with cylLo := v } := by
  rw [outb, h]
  rfl

theorem outb_cylHi (h : d.accepts = true) (v : UInt8) :
    d.outb disk cylHiPort v = { d with cylHi := v } := by
  rw [outb, h]
  rfl

theorem outb_drvHd (h : d.accepts = true) (v : UInt8) :
    d.outb disk drvHdPort v = { d with drvHd := v } := by
  rw [outb, h]
  rfl

theorem outb_cmd (h : d.accepts = true) (v : UInt8) :
    d.outb disk cmdPort v = d.start disk (d.answer disk v) := by
  rw [outb, h]
  rfl

theorem inb_drvHd (h : d.accepts = true) : d.inb drvHdPort = (d.drvHd, d) := by
  rw [inb, h]
  rfl

theorem inw_data {words : Nat → UInt16} {i : Nat} (hwait : d.wait = 0)
    (hphase : d.phase = .data words i) :
    d.inw disk = (words i, if i = 255 then { d with phase := .idle }
      else { d with wait := disk.wordWait d.commands (i + 1), phase := .data words (i + 1) }) := by
  rw [inw, if_pos hwait, hphase]
  dsimp only
  split <;> rfl

end

/-! ### Polls -/

namespace Bench

def settled (b : Bench) : Bench := { b with drive := { b.drive with wait := 0 } }

def afterReads (b : Bench) (k : Nat) : Bench :=
  { b with drive := { b.drive with wait := b.drive.wait - k } }

end Bench

section

variable {disk : Disk} {b : Bench} {p : UInt8 → Bool}

theorem observes_readStatus (disk : Disk) (b : Bench) :
    Exec.Observes (hardware disk).readStatus (fun k => (b.afterReads k).drive.status)
      b.afterReads :=
  fun _ => rfl

theorem ends_pollStatus (hbusy : p 0x80 = false) (hp : p b.drive.phase.status = true) :
    Exec.Ends (fun fuel => (hardware disk).pollStatus fuel p) b
      (.ok (b.drive.phase.status, b.settled)) := by
  have hlast : (b.afterReads b.drive.wait).drive.status = b.drive.phase.status :=
    status_of_wait (Nat.sub_self _)
  have hbefore : ∀ j < b.drive.wait, p (b.afterReads j).drive.status = false := fun j hj => by
    have hwait : b.drive.wait - j ≠ 0 := by omega
    rw [Bench.afterReads, Drive.status, if_neg hwait, hbusy]
  have hpoll : Exec.Ends (fun fuel => (hardware disk).pollStatus fuel p) b
      (.ok ((b.afterReads b.drive.wait).drive.status, b.afterReads (b.drive.wait + 1))) :=
    Exec.ends_pollUntil (observes_readStatus disk b) (by rw [hlast]; exact hp) hbefore
  have hsettled : b.afterReads (b.drive.wait + 1) = b.settled := by
    rw [Bench.afterReads, Nat.sub_eq_zero_of_le (Nat.le_succ _)]
    rfl
  rw [hlast, hsettled] at hpoll
  exact hpoll

theorem pollStatus_stuck (hbusy : p 0x80 = false) (hp : p b.drive.phase.status = false)
    (fuel : Nat) : (hardware disk).pollStatus fuel p b = .error .stuck := by
  refine Exec.pollUntil_fault (observes_readStatus disk b) fun k _ => ?_
  rw [Bench.afterReads, Drive.status]
  split
  · exact hp
  · exact hbusy

end

end Drive

end Kboot86.Ata
