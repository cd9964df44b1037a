import Mathlib.Algebra.Order.Ring.Nat
import Mathlib.Tactic.NormNum

/-!
# The programmable interval timer

`_set_freq_hz` of `pit.c` with the bytes that it writes to the ports. The
divisor of a frequency is written as 16 bits, and the least frequency that is
accepted is rounded down: its divisor needs 17 bits.
-/

namespace Kboot86.Pit

def cmdPort : UInt16 := 0x43

def dataPort : UInt16 := 0x40

structure CmdReg where
  bcd : UInt8
  mode : UInt8
  rw : UInt8
  cntr : UInt8

/-- The bit-fields, from the lowest bit on: 1, 3, 2 and 2 bits. -/
def CmdReg.toByte (reg : CmdReg) : UInt8 :=
  (reg.bcd &&& 1) ||| (reg.mode &&& 7) <<< (1 : UInt8) ||| (reg.rw &&& 3) <<< (4 : UInt8) |||
    (reg.cntr &&& 3) <<< (6 : UInt8)

def bcd0 : UInt8 := 0

def mode3 : UInt8 := 3

def rw3 : UInt8 := 3

def cntr0 : UInt8 := 0

def freqHzMax : UInt32 := 1193180

def divMax : UInt32 := 0xffff

def freqHzMin : UInt32 := freqHzMax / divMax

abbrev Writes := List (UInt16 × UInt8)

def outb (port : UInt16) (value : UInt8) (w : Writes) : Writes := w ++ [(port, value)]

def setCmdReg (reg : CmdReg) (w : Writes) : Writes := outb cmdPort reg.toByte w

def setFreqHz (freq_hz : UInt32) (w : Writes) : Writes × Int :=
  if freq_hz = 0 ∨ freq_hz > freqHzMax ∨ freq_hz < freqHzMin then (w, 1)
  else
    let div : UInt16 := (freqHzMax / freq_hz).toUInt16
    let w := setCmdReg ⟨bcd0, mode3, rw3, cntr0⟩ w
    let w := outb dataPort (0xff &&& div).toUInt8 w
    let w := outb dataPort ((div >>> 8) &&& 0xff).toUInt8 w
    (w, 0)

/-- The bytes that a call has written to the data port are the low and the high
byte of the quotient, which lies in the range of a divisor. -/
def DivisorWritten (freq_hz : UInt32) (w w' : Writes) : Prop :=
  ∃ cmds lo hi, w' = w ++ cmds ++ [(dataPort, lo), (dataPort, hi)] ∧
    (∀ c ∈ cmds, c.1 ≠ dataPort) ∧
    lo.toNat + 256 * hi.toNat = freqHzMax.toNat / freq_hz.toNat ∧
    1 ≤ freqHzMax.toNat / freq_hz.toNat ∧ freqHzMax.toNat / freq_hz.toNat ≤ divMax.toNat

theorem refused_iff (freq_hz : UInt32) :
    (freq_hz = 0 ∨ freq_hz > freqHzMax ∨ freq_hz < freqHzMin) ↔
      freq_hz.toNat < 18 ∨ 1193180 < freq_hz.toNat := by
  have hmin : freqHzMin.toNat = 18 := rfl
  have hmax : freqHzMax.toNat = 1193180 := rfl
  have hzero : freq_hz = 0 ↔ freq_hz.toNat = 0 := UInt32.toNat_inj.symm
  rw [hzero, gt_iff_lt, UInt32.lt_iff_toNat_lt, UInt32.lt_iff_toNat_lt, hmin, hmax]
  omega

theorem bytes_toNat (div : UInt16) :
    (0xff &&& div).toUInt8.toNat + 256 * ((div >>> 8) &&& 0xff).toUInt8.toNat = div.toNat := by
  have hlt := div.toNat_lt
  have hlo : (0xff &&& div).toUInt8.toNat = div.toNat % 256 := by
    rw [UInt16.toNat_toUInt8, UInt16.toNat_and, Nat.and_comm]
    exact (Nat.and_two_pow_sub_one_eq_mod _ 8).symm ▸ Nat.mod_mod _ _
  have hhi : ((div >>> 8) &&& 0xff).toUInt8.toNat = div.toNat / 256 := by
    rw [UInt16.toNat_toUInt8, UInt16.toNat_and, UInt16.toNat_shiftRight]
    change (div.toNat >>> 8 &&& 255) % 256 = _
    rw [Nat.shiftRight_eq_div_pow, Nat.and_two_pow_sub_one_eq_mod _ 8]
    omega
  omega

theorem div_toNat {freq_hz : UInt32} :
    (freqHzMax / freq_hz).toUInt16.toNat = 1193180 / freq_hz.toNat % 65536 := by
  rw [UInt32.toNat_toUInt16, UInt32.toNat_div]
  rfl

/-- It fits in them from 19 Hz on. -/
theorem quotient_lt_iff {f : Nat} (h : 18 ≤ f) : 1193180 / f < 65536 ↔ f ≠ 18 := by
  constructor
  · rintro hlt rfl
    exact absurd hlt (by decide)
  · intro hne
    have h19 : 1193180 / f ≤ 1193180 / 19 := Nat.div_le_div_left (by omega) (by decide)
    exact Nat.lt_of_le_of_lt h19 (by decide)

/-- What an accepted frequency writes: counter 0 as a square wave, both bytes. -/
theorem setFreqHz_accepted {freq_hz : UInt32} {w : Writes}
    (h : ¬ (freq_hz = 0 ∨ freq_hz > freqHzMax ∨ freq_hz < freqHzMin)) :
    setFreqHz freq_hz w =
      (w ++ [(cmdPort, (0x36 : UInt8))] ++
        [(dataPort, (0xff &&& (freqHzMax / freq_hz).toUInt16).toUInt8),
          (dataPort, (((freqHzMax / freq_hz).toUInt16 >>> 8) &&& 0xff).toUInt8)], 0) := by
  have hcmd : (CmdReg.toByte ⟨bcd0, mode3, rw3, cntr0⟩) = 0x36 := rfl
  rw [setFreqHz, if_neg h]
  dsimp only
  rw [setCmdReg, hcmd, outb, outb, outb, List.append_assoc (w ++ _), List.singleton_append]

/-- Every accepted frequency but the least one gets its divisor. -/
theorem setFreqHz_divisor_iff (freq_hz : UInt32) (w : Writes) :
    ((setFreqHz freq_hz w).2 = 0 → DivisorWritten freq_hz w (setFreqHz freq_hz w).1) ↔
      freq_hz ≠ 18 := by
  have h18 : freq_hz ≠ 18 ↔ freq_hz.toNat ≠ 18 := UInt32.toNat_inj.not.symm
  by_cases href : freq_hz = 0 ∨ freq_hz > freqHzMax ∨ freq_hz < freqHzMin
  · have hout := (refused_iff freq_hz).mp href
    have hcode : (setFreqHz freq_hz w).2 = 1 := by rw [setFreqHz, if_pos href]
    rw [hcode, h18]
    exact iff_of_true (fun h => absurd h (by decide)) (by omega)
  have hin := mt (refused_iff freq_hz).mpr href
  have hbytes := bytes_toNat (freqHzMax / freq_hz).toUInt16
  have hmax : freqHzMax.toNat = 1193180 := rfl
  rw [div_toNat] at hbytes
  rw [setFreqHz_accepted href, h18, ← quotient_lt_iff (by omega), DivisorWritten, hmax]
  constructor
  · intro h
    obtain ⟨-, -, -, -, -, -, -, hle⟩ := h rfl
    exact Nat.lt_succ_of_le hle
  · intro hlt _
    rw [Nat.mod_eq_of_lt hlt] at hbytes
    refine ⟨_, _, _, rfl, ?_, hbytes, Nat.div_pos (by omega) (by omega), Nat.le_of_lt_succ hlt⟩
    intro c hc
    rw [List.mem_singleton.mp hc]
    decide

/-- The frequency of 18 Hz is accepted, and 751 is written for 66287. -/
theorem setFreqHz_truncates :
    ¬ ((setFreqHz 18 []).2 = 0 → DivisorWritten 18 [] (setFreqHz 18 []).1) := by
  intro h
  obtain ⟨-, -, -, -, -, -, -, hle⟩ := h rfl
  exact absurd hle (by decide)

end Kboot86.Pit
