import Kboot86.Drivers.Ata
import Kboot86.Foundation.ByteWord
import Kboot86.Foundation.Poll
import Kboot86.Lib.String

/-!
# The driver over any hardware

`ata.c` over what it asks of the machine: a byte written to or read from a port,
a word read from one, and the words of a buffer. The machine may present a fixed
sequence of bytes and words, or be a drive that answers to what is written.

The polling loops of the source have no bound. Here each has `fuel` reads and
stops with `stuck` when these do not suffice, so a call returns when it does
with some `fuel`.
-/

namespace Kboot86.Ata

/-- What the driver does to the machine. -/
structure Hardware (σ : Type) where
  outb : UInt16 → UInt8 → σ → σ
  inb : UInt16 → σ → UInt8 × σ
  inw : UInt16 → σ → UInt16 × σ
  store : Nat → UInt16 → σ → σ
  load : σ → Nat → UInt16

inductive Hardware.Fault where
  | division (e : DivideError)
  | stuck
deriving DecidableEq

def dataPort : UInt16 := 0x1f0

def secCntPort : UInt16 := 0x1f2

def secNumPort : UInt16 := 0x1f3

def cylLoPort : UInt16 := 0x1f4

def cylHiPort : UInt16 := 0x1f5

def drvHdPort : UInt16 := 0x1f6

def cmdPort : UInt16 := 0x1f7

def statusPort : UInt16 := cmdPort

def controlPort : UInt16 := 0x3f6

def cmdRswor : UInt8 := 0x21

def cmdIdentify : UInt8 := 0xec

/-! ### The status byte, `ata_status_t` -/

def err (status : UInt8) : Bool := status &&& 0x01 != 0

def drq (status : UInt8) : Bool := status &&& 0x08 != 0

def rdy (status : UInt8) : Bool := status &&& 0x40 != 0

def bsy (status : UInt8) : Bool := status &&& 0x80 != 0

/-- The bits of `ata_control_t` with `srst` set. -/
def srst : UInt8 := 0x04

namespace Hardware

section

variable {σ : Type} (hw : Hardware σ) (fuel : Nat)

def out (port : UInt16) (value : UInt8) : Exec Fault σ Unit := modify (hw.outb port value)

def readStatus : Exec Fault σ UInt8 := modifyGet (hw.inb statusPort)

def pollStatus (p : UInt8 → Bool) : Exec Fault σ UInt8 :=
  Exec.pollUntil hw.readStatus p .stuck fuel

def reset : Exec Fault σ Unit := do
  hw.out controlPort srst
  hw.out controlPort 0
  let _ ← hw.pollStatus fuel fun status => !bsy status
  pure ()

def readDrvHd : Exec Fault σ UInt8 := modifyGet (hw.inb drvHdPort)

def readData : Exec Fault σ UInt16 := do
  let _ ← hw.pollStatus fuel drq
  modifyGet (hw.inw dataPort)

def sendCmd (cmd : UInt8) : Exec Fault σ Int := do
  let status ← hw.readStatus
  if drq status then pure 1
  else do
    let _ ← hw.pollStatus fuel fun status => !bsy status
    hw.out cmdPort cmd
    pure 0

def selectHead (headNum : UInt32) : Exec Fault σ Int :=
  if headNum > 15 then pure 1
  else do
    let drvHd ← hw.readDrvHd
    hw.out drvHdPort (drvHd &&& 0xf0 ||| headNum.toUInt8 &&& 0x0f)
    pure 0

def ataSelectDrive (driveNum : UInt32) : Exec Fault σ Int :=
  if driveNum > 1 then pure 1
  else do
    let drvHd ← hw.readDrvHd
    hw.out drvHdPort (drvHd &&& 0xef ||| (driveNum.toUInt8 &&& 1) <<< (4 : UInt8))
    let _ ← hw.readStatus
    let _ ← hw.readStatus
    let _ ← hw.readStatus
    let _ ← hw.readStatus
    let status ← hw.pollStatus fuel rdy
    if err status then pure 1 else pure 0

/-- The loop of `_read_buffer_data`, from word `i` on with `n` words to go. -/
def readBufferData : Nat → Nat → Exec Fault σ Unit
  | 0, _ => pure ()
  | n + 1, i => do
      let word ← hw.readData fuel
      modify (hw.store i word)
      readBufferData n (i + 1)

def ataReadSectorChs (cylNum headNum secNum : UInt32) : Exec Fault σ Int :=
  if cylNum > 1023 then pure 1
  else if headNum > 15 then pure 1
  else if secNum < 1 ∨ secNum > 256 then pure 1
  else do
    let code ← hw.selectHead headNum
    if code ≠ 0 then pure 1
    else do
      hw.out secCntPort 1
      hw.out secNumPort secNum.toUInt8
      hw.out cylLoPort (cylNum &&& 0xff).toUInt8
      hw.out cylHiPort ((cylNum &&& 0x300) >>> 8).toUInt8
      let code ← hw.sendCmd fuel cmdRswor
      if code ≠ 0 then pure 1
      else do
        let status ← hw.pollStatus fuel fun status => drq status && !bsy status
        if err status then pure 1
        else do
          hw.readBufferData fuel 256 0
          pure 0

def ataReadSectorLba (id : IdData) (lba : UInt32) : Exec Fault σ Int :=
  match lba2chs id lba with
  | .error e => throw (.division e)
  | .ok none => pure 1
  | .ok (some (c, h, s)) => hw.ataReadSectorChs fuel c h s

/-! ### The two halves of a read -/

def issueRead (cylNum headNum secNum : UInt32) : Exec Fault σ Int :=
  if cylNum > 1023 then pure 1
  else if headNum > 15 then pure 1
  else if secNum < 1 ∨ secNum > 256 then pure 1
  else do
    let code ← hw.selectHead headNum
    if code ≠ 0 then pure 1
    else do
      hw.out secCntPort 1
      hw.out secNumPort secNum.toUInt8
      hw.out cylLoPort (cylNum &&& 0xff).toUInt8
      hw.out cylHiPort ((cylNum &&& 0x300) >>> 8).toUInt8
      let code ← hw.sendCmd fuel cmdRswor
      if code ≠ 0 then pure 1 else pure 0

def serviceRead : Exec Fault σ Int := do
  let status ← hw.pollStatus fuel fun status => drq status && !bsy status
  if err status then pure 1
  else do
    hw.readBufferData fuel 256 0
    pure 0

theorem ataReadSectorChs_eq (cylNum headNum secNum : UInt32) :
    hw.ataReadSectorChs fuel cylNum headNum secNum =
      hw.issueRead fuel cylNum headNum secNum >>= fun code =>
        if code ≠ 0 then pure 1 else hw.serviceRead fuel := by
  unfold ataReadSectorChs issueRead
  by_cases hcyl : cylNum > 1023
  · rw [if_pos hcyl, if_pos hcyl]
    rfl
  rw [if_neg hcyl, if_neg hcyl]
  by_cases hhead : headNum > 15
  · rw [if_pos hhead, if_pos hhead]
    rfl
  rw [if_neg hhead, if_neg hhead]
  by_cases hsec : secNum < 1 ∨ secNum > 256
  · rw [if_pos hsec, if_pos hsec]
    rfl
  rw [if_neg hsec, if_neg hsec]
  simp only [bind_assoc]
  refine bind_congr fun code => ?_
  split
  · rfl
  simp only [bind_assoc]
  refine bind_congr fun _ => bind_congr fun _ => bind_congr fun _ => bind_congr fun _ =>
    bind_congr fun code => ?_
  split
  · rfl
  · rfl

def issueLba (id : IdData) (lba : UInt32) : Exec Fault σ Int :=
  match lba2chs id lba with
  | .error e => throw (.division e)
  | .ok none => pure 1
  | .ok (some (c, h, s)) => hw.issueRead fuel c h s

theorem ataReadSectorLba_eq (id : IdData) (lba : UInt32) :
    hw.ataReadSectorLba fuel id lba =
      hw.issueLba fuel id lba >>= fun code =>
        if code ≠ 0 then pure 1 else hw.serviceRead fuel := by
  rw [ataReadSectorLba, issueLba]
  cases lba2chs id lba with
  | error e => rfl
  | ok r =>
      rcases r with _ | ⟨c, h, s⟩
      · rfl
      · exact hw.ataReadSectorChs_eq fuel c h s

end

end Hardware

/-! ### The identification -/

def bytesOf (p : Nat → UInt16) (a : Nat) : UInt8 :=
  if a % 2 = 0 then (p (a / 2)).toUInt8 else (p (a / 2) >>> 8).toUInt8

def wordsOf (b : Nat → UInt8) (i : Nat) : UInt16 := UInt16.ofNat (le16 b (2 * i))

/-- The loop of `_swap_str_bytes`, from character `i` on with `n` pairs to go. -/
def swapStrBytesFrom (str : Nat) : Nat → Nat → (Nat → UInt8) → Nat → UInt8
  | 0, _, b => b
  | n + 1, i, b =>
      let tmp := b (str + i)
      let b := Function.update b (str + i) (b (str + i + 1))
      swapStrBytesFrom str n (i + 2) (Function.update b (str + i + 1) tmp)

def swapStrBytes (str len : Nat) (b : Nat → UInt8) : Nat → UInt8 :=
  swapStrBytesFrom str ((len + 1) / 2) 0 b

def modelNumberStrLen : Nat := 40

def modelNumberStrOff : Nat := 27

def serialNumberStrLen : Nat := 20

def serialNumberStrOff : Nat := 10

structure Identity where
  data : IdData
  modelNumber : Nat → UInt8

def identityOf (p : Nat → UInt16) (old : Identity) : Identity where
  data := setIdentifyData p
  modelNumber :=
    Function.update
      (strncpy old.modelNumber (fun k => bytesOf p (2 * 27 + k)) modelNumberStrLen)
      modelNumberStrLen 0

namespace Hardware

variable {σ : Type} (hw : Hardware σ) (fuel : Nat)

def identify (driveNum : UInt32) (old : Identity) : Exec Fault σ (Identity × Int) :=
  if driveNum ≠ 0 then pure (old, 1)
  else do
    let code ← hw.ataSelectDrive fuel driveNum
    if code ≠ 0 then pure (old, 1)
    else do
      hw.out secNumPort 0
      hw.out cylLoPort 0
      hw.out cylHiPort 0
      let _ ← hw.sendCmd fuel cmdIdentify
      let status ← hw.readStatus
      if status = 0 then pure (old, 1)
      else do
        let _ ← hw.pollStatus fuel fun status => !bsy status
        let _ ← hw.pollStatus fuel drq
        hw.readBufferData fuel 256 0
        let s ← get
        let bytes := swapStrBytes (2 * modelNumberStrOff) modelNumberStrLen (bytesOf (hw.load s))
        let bytes := swapStrBytes (2 * serialNumberStrOff) serialNumberStrLen bytes
        pure (identityOf (wordsOf bytes) old, 0)

def ataInit (old : Identity) : Exec Fault σ (Identity × Int) := do
  hw.reset fuel
  let (id, code) ← hw.identify fuel 0 old
  if code ≠ 0 then pure (id, 1) else pure (id, 0)

end Hardware

end Kboot86.Ata
