import Mathlib.Data.BitVec
import Mathlib.Data.UInt

/-!
# The interrupt controllers

`pic.c` over the two 8259A chips that it programs. Of a chip there is what its
data sheet says of the commands that are used: a sequence of initialization
words, each written to the data port after the first, the mask register, and the
registers of the interrupts that are requested and in service, which are in the
fully nested mode. The interrupt line of the slave is line 2 of the master.
-/

namespace Kboot86

/-- What the chip takes the next byte at its data port for. -/
inductive Pic.Expects
  | mask
  | icw2
  | icw3
  | icw4
deriving DecidableEq

structure Pic.Chip where
  imr : BitVec 8
  irr : BitVec 8
  isr : BitVec 8
  offset : BitVec 8
  cascade : BitVec 8
  expects : Pic.Expects
deriving DecidableEq

structure Pic where
  master : Pic.Chip
  slave : Pic.Chip
deriving DecidableEq

namespace Pic

def cmd8086 : BitVec 8 := 0x01
def cmdInit : BitVec 8 := 0x11
def cmdEoi : BitVec 8 := 0x20

/-- The interrupt of highest priority, that of the lowest bit, is taken from
those in service. -/
def endFirst (isr : BitVec 8) : BitVec 8 := isr &&& (isr - 1)

namespace Chip

/-- A byte at the command port: the first initialization word, or the end of an
interrupt. -/
def writeCmd (c : Chip) (cmd : BitVec 8) : Chip :=
  if cmd.getLsbD 4 then { c with imr := 0, irr := 0, expects := .icw2 }
  else if cmd = cmdEoi then { c with isr := endFirst c.isr }
  else c

/-- A byte at the data port. The chip takes the upper five bits of the vector. -/
def writeData (c : Chip) (data : BitVec 8) : Chip :=
  match c.expects with
  | .mask => { c with imr := data }
  | .icw2 => { c with offset := data &&& 0xf8, expects := .icw3 }
  | .icw3 => { c with cascade := data, expects := .icw4 }
  | .icw4 => { c with expects := .mask }

/-- The line that the chip would have served next, with the requests `irr`: the
first that is requested and not masked, if none up to it is in service. -/
def request (c : Chip) (irr : BitVec 8) : Option Nat :=
  ((List.range 8).find? fun i => irr.getLsbD i && !c.imr.getLsbD i).filter fun i =>
    (List.range (i + 1)).all fun j => !c.isr.getLsbD j

def serve (c : Chip) (i : Nat) : Chip :=
  { c with irr := c.irr &&& ~~~(1#8 <<< i), isr := c.isr ||| 1#8 <<< i }

end Chip

/-! ### The driver -/

def masterSendCmd (p : Pic) (cmd : BitVec 8) : Pic := { p with master := p.master.writeCmd cmd }

def slaveSendCmd (p : Pic) (cmd : BitVec 8) : Pic := { p with slave := p.slave.writeCmd cmd }

def masterGetImr (p : Pic) : BitVec 8 := p.master.imr

def slaveGetImr (p : Pic) : BitVec 8 := p.slave.imr

/-- `_master_set_data`, and `_master_set_imr`. -/
def masterSetData (p : Pic) (data : BitVec 8) : Pic :=
  { p with master := p.master.writeData data }

def slaveSetData (p : Pic) (data : BitVec 8) : Pic := { p with slave := p.slave.writeData data }

def picRemap (p : Pic) (masterOff slaveOff : BitVec 8) : Pic :=
  let masterImr := p.masterGetImr
  let slaveImr := p.slaveGetImr
  let p := (p.masterSendCmd cmdInit).slaveSendCmd cmdInit
  let p := (p.masterSetData masterOff).slaveSetData slaveOff
  -- the slave is at line 2 of the master
  let p := (p.masterSetData 4).slaveSetData 2
  let p := (p.masterSetData cmd8086).slaveSetData cmd8086
  (p.masterSetData masterImr).slaveSetData slaveImr

def picDisable (p : Pic) : Pic := (p.masterSetData 0xff).slaveSetData 0xff

def picSendEoi (p : Pic) (irq : UInt8) : Pic :=
  (if irq ≥ 8 then p.slaveSendCmd cmdEoi else p).masterSendCmd cmdEoi

def masterOffset : BitVec 8 := 32

def slaveOffset : BitVec 8 := 40

/-- `pic_init`, with the `for` loop over the IRQs. -/
def picInit (p : Pic) : Pic :=
  (List.range 16).foldl (fun p irq => p.picSendEoi (UInt8.ofNat irq))
    (p.picDisable.picRemap masterOffset slaveOffset)

/-- The mask is shifted by fewer than 32 bits for the numbers of IRQs. -/
def picEnableIrq (p : Pic) (irq : UInt8) : Pic :=
  if irq < 8 then p.masterSetData (p.masterGetImr &&& ~~~(1#8 <<< irq.toNat))
  else p.slaveSetData (p.slaveGetImr &&& ~~~(1#8 <<< (irq - 8).toNat))

def picDisableIrq (p : Pic) (irq : UInt8) : Pic :=
  if irq < 8 then p.masterSetData (p.masterGetImr ||| 1#8 <<< irq.toNat)
  else p.slaveSetData (p.slaveGetImr ||| 1#8 <<< (irq - 8).toNat)

/-! ### Interrupts -/

def raise (p : Pic) (irq : Nat) : Pic :=
  if irq < 8 then { p with master := { p.master with irr := p.master.irr ||| 1#8 <<< irq } }
  else { p with slave := { p.slave with irr := p.slave.irr ||| 1#8 <<< (irq - 8) } }

def masterRequests (p : Pic) : BitVec 8 :=
  if (p.slave.request p.slave.irr).isSome then p.master.irr ||| 4 else p.master.irr &&& ~~~4

/-- The vector that the processor gets when it takes an interrupt, with the IRQ
and the chips after it. -/
def acknowledge (p : Pic) : Option (BitVec 8 × Nat × Pic) := do
  let i ← p.master.request p.masterRequests
  if i = 2 then do
    let j ← p.slave.request p.slave.irr
    pure (p.slave.offset + BitVec.ofNat 8 j, 8 + j,
      { master := p.master.serve 2, slave := p.slave.serve j })
  else pure (p.master.offset + BitVec.ofNat 8 i, i, { p with master := p.master.serve i })

structure Ready (p : Pic) : Prop where
  master : p.master.expects = .mask
  slave : p.slave.expects = .mask

def masked (p : Pic) (irq : Nat) : Bool :=
  if irq < 8 then p.master.imr.getLsbD irq else p.slave.imr.getLsbD (irq - 8)

def requested (p : Pic) (irq : Nat) : Bool :=
  if irq < 8 then p.master.irr.getLsbD irq else p.slave.irr.getLsbD (irq - 8)

/-! ### Bits -/

theorem getLsbD_bit (i : Nat) {j : Nat} (hj : j < 8) :
    (1#8 <<< i).getLsbD j = decide (j = i) := by
  rw [BitVec.getLsbD_shiftLeft, BitVec.getLsbD_one, Bool.eq_iff_iff]
  simp only [Bool.and_eq_true, decide_eq_true_eq, Bool.not_eq_true', decide_eq_false_iff_not]
  omega

theorem getLsbD_clear (x : BitVec 8) (i : Nat) {j : Nat} (hj : j < 8) :
    (x &&& ~~~(1#8 <<< i)).getLsbD j = if j = i then false else x.getLsbD j := by
  rw [BitVec.getLsbD_and, BitVec.getLsbD_not, getLsbD_bit i hj]
  by_cases hji : j = i <;> simp [hji, hj]

theorem getLsbD_set (x : BitVec 8) (i : Nat) {j : Nat} (hj : j < 8) :
    (x ||| 1#8 <<< i).getLsbD j = if j = i then true else x.getLsbD j := by
  rw [BitVec.getLsbD_or, getLsbD_bit i hj]
  by_cases hji : j = i <;> simp [hji]

def line (master slave : BitVec 8) (irq : Nat) : Bool :=
  if irq < 8 then master.getLsbD irq else slave.getLsbD (irq - 8)

theorem line_of_master {m m' s : BitVec 8} {irq : Nat} {b : Bool} (hirq : irq < 8)
    (hm : ∀ j < 8, m'.getLsbD j = if j = irq then b else m.getLsbD j) (i : Nat) :
    line m' s i = if i = irq then b else line m s i := by
  rw [line, line]
  by_cases hi8 : i < 8
  · rw [if_pos hi8, if_pos hi8]
    exact hm i hi8
  · rw [if_neg hi8, if_neg hi8, if_neg (by omega)]

theorem line_of_slave {m s s' : BitVec 8} {irq : Nat} {b : Bool} (hirq : ¬ irq < 8)
    (hs : ∀ j < 8, s'.getLsbD j = if j = irq - 8 then b else s.getLsbD j) {i : Nat} (hi : i < 16) :
    line m s' i = if i = irq then b else line m s i := by
  rw [line, line]
  by_cases hi8 : i < 8
  · rw [if_pos hi8, if_pos hi8, if_neg (by omega)]
  · rw [if_neg hi8, if_neg hi8]
    exact (hs _ (by omega)).trans (if_congr (by omega) rfl rfl)

theorem endFirst_eight : ∀ isr : BitVec 8, endFirst^[8] isr = 0 := by
  decide +kernel

theorem endFirst_bit : ∀ i < 8, endFirst (1#8 <<< i) = 0 := by
  decide

/-! ### What the driver does -/

section

variable {p : Pic}

theorem writeCmd_eoi (c : Chip) : c.writeCmd cmdEoi = { c with isr := endFirst c.isr } := by
  rw [Chip.writeCmd, if_neg (by decide), if_pos rfl]

theorem picSendEoi_eq (p : Pic) (irq : UInt8) :
    p.picSendEoi irq =
      { master := { p.master with isr := endFirst p.master.isr }
        slave := if irq ≥ 8 then { p.slave with isr := endFirst p.slave.isr } else p.slave } := by
  rw [picSendEoi, masterSendCmd, writeCmd_eoi]
  split
  · rw [slaveSendCmd, writeCmd_eoi]
  · rfl

/-- The masks come through the initialization of the chips. -/
theorem picRemap_eq (h : p.Ready) (masterOff slaveOff : BitVec 8) :
    p.picRemap masterOff slaveOff =
      { master := { p.master with irr := 0, offset := masterOff &&& 0xf8, cascade := 4 }
        slave := { p.slave with irr := 0, offset := slaveOff &&& 0xf8, cascade := 2 } } := by
  rcases p with ⟨⟨imr, irr, isr, offset, cascade, expects⟩,
    ⟨imr', irr', isr', offset', cascade', expects'⟩⟩
  obtain ⟨rfl, rfl⟩ : expects = .mask ∧ expects' = .mask := ⟨h.master, h.slave⟩
  rfl

theorem Chip.writeData_mask {c : Chip} (h : c.expects = .mask) (data : BitVec 8) :
    c.writeData data = { c with imr := data } := by
  cases c
  cases h
  rfl

theorem Ready.masterSetData_eq (h : p.Ready) (m : BitVec 8) :
    p.masterSetData m = { p with master := { p.master with imr := m } } := by
  rw [masterSetData, Chip.writeData_mask h.master]

theorem Ready.slaveSetData_eq (h : p.Ready) (m : BitVec 8) :
    p.slaveSetData m = { p with slave := { p.slave with imr := m } } := by
  rw [slaveSetData, Chip.writeData_mask h.slave]

theorem Ready.picDisable_eq (h : p.Ready) :
    p.picDisable =
      { master := { p.master with imr := 0xff }, slave := { p.slave with imr := 0xff } } := by
  rw [picDisable, h.masterSetData_eq, slaveSetData, Chip.writeData_mask h.slave]

theorem Ready.picDisable (h : p.Ready) : p.picDisable.Ready := by
  rw [h.picDisable_eq]
  exact ⟨h.master, h.slave⟩

theorem Ready.picInit_eq (h : p.Ready) :
    p.picInit =
      { master := ⟨0xff, 0, 0, 32, 4, .mask⟩
        slave := ⟨0xff, 0, 0, 40, 2, .mask⟩ } := by
  have hmaster : endFirst^[16] p.master.isr = 0 := by
    rw [show 16 = 8 + 8 from rfl, Function.iterate_add_apply, endFirst_eight]
  have hslave := endFirst_eight p.slave.isr
  have hmasks := h.picDisable
  rw [picInit, picRemap_eq hmasks, h.picDisable_eq]
  rcases p with ⟨⟨imr, irr, isr, offset, cascade, expects⟩,
    ⟨imr', irr', isr', offset', cascade', expects'⟩⟩
  obtain ⟨rfl, rfl⟩ : expects = .mask ∧ expects' = .mask := ⟨h.master, h.slave⟩
  change Pic.mk ⟨0xff, 0, endFirst^[16] isr, 32, 4, .mask⟩
    ⟨0xff, 0, endFirst^[8] isr', 40, 2, .mask⟩ = _
  rw [hmaster, hslave]

/-- What the calls of the driver do to the masks and leave alone. -/
structure SetsMasks (p p' : Pic) (masked : Nat → Bool) : Prop where
  ready : p'.Ready
  masks : ∀ irq < 16, p'.masked irq = masked irq
  master : p'.master.irr = p.master.irr ∧ p'.master.isr = p.master.isr ∧
    p'.master.offset = p.master.offset
  slave : p'.slave.irr = p.slave.irr ∧ p'.slave.isr = p.slave.isr ∧
    p'.slave.offset = p.slave.offset

theorem toNat_sub_eight {irq : UInt8} (h : ¬ irq < 8) : (irq - 8).toNat = irq.toNat - 8 := by
  rw [UInt8.toNat_sub_of_le]
  · rfl
  · exact UInt8.not_lt.mp h

theorem sets_line (h : p.Ready) (irq : UInt8) {b : Bool} {f : BitVec 8 → Nat → BitVec 8}
    (hf : ∀ x i, ∀ j < 8, (f x i).getLsbD j = if j = i then b else x.getLsbD j) :
    SetsMasks p
      (if irq < 8 then p.masterSetData (f p.masterGetImr irq.toNat)
        else p.slaveSetData (f p.slaveGetImr (irq - 8).toNat))
      fun i => if i = irq.toNat then b else p.masked i := by
  split
  · rename_i hirq
    rw [h.masterSetData_eq]
    exact ⟨⟨h.master, h.slave⟩, fun i _ => line_of_master hirq (hf _ _) i,
      ⟨rfl, rfl, rfl⟩, rfl, rfl, rfl⟩
  · rename_i hirq
    rw [h.slaveSetData_eq, toNat_sub_eight hirq]
    exact ⟨⟨h.master, h.slave⟩, fun i hi => line_of_slave hirq (hf _ _) hi,
      ⟨rfl, rfl, rfl⟩, rfl, rfl, rfl⟩

theorem picEnableIrq_sets (h : p.Ready) (irq : UInt8) :
    SetsMasks p (p.picEnableIrq irq) fun i => if i = irq.toNat then false else p.masked i :=
  sets_line h irq (f := fun x i => x &&& ~~~(1#8 <<< i)) fun x i _ hj => getLsbD_clear x i hj

theorem picDisableIrq_sets (h : p.Ready) (irq : UInt8) :
    SetsMasks p (p.picDisableIrq irq) fun i => if i = irq.toNat then true else p.masked i :=
  sets_line h irq (f := fun x i => x ||| 1#8 <<< i) fun x i _ hj => getLsbD_set x i hj

theorem picDisable_sets (h : p.Ready) : SetsMasks p p.picDisable fun _ => true := by
  have hones : ∀ i < 8, (0xff : BitVec 8).getLsbD i = true := by decide
  rw [h.picDisable_eq]
  refine ⟨⟨h.master, h.slave⟩, fun i hi => ?_, ⟨rfl, rfl, rfl⟩, rfl, rfl, rfl⟩
  rw [masked]
  split
  · rename_i hi8
    exact hones i hi8
  · exact hones _ (by omega)

end

/-! ### The interrupt that is served -/

namespace Chip

variable {c : Chip} {irr : BitVec 8} {i : Nat}

theorem request_iff : c.request irr = some i ↔
    (i < 8 ∧ irr.getLsbD i = true ∧ c.imr.getLsbD i = false ∧
      ∀ j < i, irr.getLsbD j = true → c.imr.getLsbD j = true) ∧
    ∀ j ≤ i, c.isr.getLsbD j = false := by
  rw [request, Option.filter_eq_some_iff, List.find?_range_eq_some, List.all_eq_true]
  simp only [Bool.and_eq_true, Bool.not_eq_true', List.mem_range, Nat.lt_succ_iff,
    Bool.and_eq_false_imp, Bool.not_eq_false']
  tauto

/-- With nothing in service what is requested and not masked is served, or
something before it. -/
theorem request_of_isr_zero (hisr : c.isr = 0) (hi : i < 8) (hirr : irr.getLsbD i = true)
    (himr : c.imr.getLsbD i = false) : ∃ k ≤ i, c.request irr = some k := by
  have hex : ∃ k, irr.getLsbD k = true ∧ c.imr.getLsbD k = false := ⟨i, hirr, himr⟩
  have hle : Nat.find hex ≤ i := Nat.find_min' hex ⟨hirr, himr⟩
  have hfound := Nat.find_spec hex
  refine ⟨Nat.find hex, hle, request_iff.mpr ⟨⟨by omega, hfound.1, hfound.2, ?_⟩, ?_⟩⟩
  · intro j hj hreq
    by_contra hmask
    exact Nat.find_min hex hj ⟨hreq, by simpa using hmask⟩
  · intro j _
    rw [hisr]
    exact BitVec.getLsbD_zero

end Chip

structure Deliverable (p : Pic) (irq : Nat) : Prop where
  lt : irq < 16
  ne_cascade : irq ≠ 2
  requested : p.requested irq = true
  unmasked : p.masked irq = false
  cascade : 8 ≤ irq → p.masked 2 = false

/-- The order in which the IRQs are served: those of the slave are in the place
of line 2. -/
def rank (irq : Nat) : Nat := if irq < 2 then irq else if irq < 8 then irq + 8 else irq - 6

section

variable {p p' : Pic} {irq i j : Nat} {v : BitVec 8}

theorem rank_inj (hi : i < 16) (hi2 : i ≠ 2) (hj : j < 16) (hj2 : j ≠ 2)
    (h : rank i = rank j) : i = j := by
  grind [rank]

theorem masterRequests_bit (hi : i < 8) : p.masterRequests.getLsbD i =
    if i = 2 then (p.slave.request p.slave.irr).isSome else p.master.irr.getLsbD i := by
  rw [masterRequests]
  split
  · rename_i hsome
    exact (getLsbD_set _ 2 hi).trans (by rw [hsome])
  · rename_i hnone
    exact (getLsbD_clear _ 2 hi).trans (by rw [Bool.not_eq_true] at hnone; rw [hnone])

theorem masked_of_lt (hi : i < 8) : p.masked i = p.master.imr.getLsbD i := if_pos hi

theorem masked_slave (j : Nat) : p.masked (8 + j) = p.slave.imr.getLsbD j := by
  rw [masked, if_neg (by omega), Nat.add_sub_cancel_left]

theorem requested_of_lt (hi : i < 8) : p.requested i = p.master.irr.getLsbD i := if_pos hi

theorem requested_slave (j : Nat) : p.requested (8 + j) = p.slave.irr.getLsbD j := by
  rw [requested, if_neg (by omega), Nat.add_sub_cancel_left]

theorem acknowledge_cases (h : p.acknowledge = some (v, irq, p')) :
    (irq < 8 ∧ irq ≠ 2 ∧ p.master.request p.masterRequests = some irq ∧
      v = p.master.offset + BitVec.ofNat 8 irq ∧ p' = { p with master := p.master.serve irq }) ∨
    ∃ j < 8, irq = 8 + j ∧ p.master.request p.masterRequests = some 2 ∧
      p.slave.request p.slave.irr = some j ∧ v = p.slave.offset + BitVec.ofNat 8 j ∧
      p' = { master := p.master.serve 2, slave := p.slave.serve j } := by
  rw [acknowledge, Option.bind_eq_bind, Option.bind_eq_some_iff] at h
  obtain ⟨i, hi, h⟩ := h
  by_cases hi2 : i = 2
  · rw [if_pos hi2, Option.bind_eq_some_iff] at h
    obtain ⟨j, hj, heq⟩ := h
    cases heq
    subst hi2
    exact .inr ⟨j, (Chip.request_iff.mp hj).1.1, rfl, hi, hj, rfl, rfl⟩
  · rw [if_neg hi2] at h
    cases h
    exact .inl ⟨(Chip.request_iff.mp hi).1.1, hi2, hi, rfl, rfl⟩

theorem acknowledge_deliverable (h : p.acknowledge = some (v, irq, p')) : p.Deliverable irq := by
  obtain ⟨hlt, hne, hreq, -, -⟩ | ⟨j, hj, rfl, hmaster, hslave, -, -⟩ := acknowledge_cases h
  · obtain ⟨⟨-, hirr, himr, -⟩, -⟩ := Chip.request_iff.mp hreq
    rw [masterRequests_bit hlt, if_neg hne] at hirr
    exact ⟨by omega, hne, (requested_of_lt hlt).trans hirr, (masked_of_lt hlt).trans himr,
      fun h8 => by omega⟩
  · obtain ⟨⟨-, -, himr2, -⟩, -⟩ := Chip.request_iff.mp hmaster
    obtain ⟨⟨-, hirr, himr, -⟩, -⟩ := Chip.request_iff.mp hslave
    exact ⟨by omega, by omega, (requested_slave j).trans hirr, (masked_slave j).trans himr,
      fun _ => (masked_of_lt (by decide)).trans himr2⟩

theorem acknowledge_master (hreq : p.master.request p.masterRequests = some i) (hi : i ≠ 2) :
    p.acknowledge = some (p.master.offset + BitVec.ofNat 8 i, i,
      { p with master := p.master.serve i }) := by
  rw [acknowledge, hreq, Option.bind_eq_bind, Option.bind_some, if_neg hi]
  rfl

theorem acknowledge_slave (hreq : p.master.request p.masterRequests = some 2)
    (hslave : p.slave.request p.slave.irr = some j) :
    p.acknowledge = some (p.slave.offset + BitVec.ofNat 8 j, 8 + j,
      { master := p.master.serve 2, slave := p.slave.serve j }) := by
  rw [acknowledge, hreq, Option.bind_eq_bind, Option.bind_some, if_pos rfl, hslave]
  rfl

/-- With nothing in service an interrupt that can be delivered is, or one that
is before it. -/
theorem Deliverable.acknowledge (h : p.Deliverable irq) (hmaster : p.master.isr = 0)
    (hslave : p.slave.isr = 0) :
    ∃ v irq' p', p.acknowledge = some (v, irq', p') ∧ rank irq' ≤ rank irq := by
  have hreq := h.requested
  have hmask := h.unmasked
  by_cases hlt : irq < 8
  · rw [masked_of_lt hlt] at hmask
    rw [requested_of_lt hlt] at hreq
    have hbit : p.masterRequests.getLsbD irq = true := by
      rw [masterRequests_bit hlt, if_neg h.ne_cascade, hreq]
    obtain ⟨k, hk, hfirst⟩ := Chip.request_of_isr_zero hmaster hlt hbit hmask
    by_cases hk2 : k = 2
    · subst hk2
      -- line 2 is requested only for a line of the slave
      have hsome := (Chip.request_iff.mp hfirst).1.2.1
      rw [masterRequests_bit (by decide), if_pos rfl] at hsome
      obtain ⟨j, hj⟩ := Option.isSome_iff_exists.mp hsome
      have hj8 := (Chip.request_iff.mp hj).1.1
      have hne := h.ne_cascade
      refine ⟨_, _, _, acknowledge_slave hfirst hj, ?_⟩
      grind [rank]
    · refine ⟨_, _, _, acknowledge_master hfirst hk2, ?_⟩
      have hne := h.ne_cascade
      grind [rank]
  · obtain ⟨j, rfl⟩ : ∃ j, irq = 8 + j := ⟨irq - 8, by omega⟩
    have hj : j < 8 := by have := h.lt; omega
    rw [masked_slave] at hmask
    rw [requested_slave] at hreq
    obtain ⟨l, hl, hline⟩ := Chip.request_of_isr_zero hslave hj hreq hmask
    have hbit : p.masterRequests.getLsbD 2 = true := by
      rw [masterRequests_bit (by decide), if_pos rfl, hline]
      rfl
    have hcascade := h.cascade (by omega)
    rw [masked_of_lt (by decide)] at hcascade
    obtain ⟨k, hk, hfirst⟩ := Chip.request_of_isr_zero hmaster (by decide) hbit hcascade
    by_cases hk2 : k = 2
    · subst hk2
      refine ⟨_, _, _, acknowledge_slave hfirst hline, ?_⟩
      grind [rank]
    · refine ⟨_, _, _, acknowledge_master hfirst hk2, ?_⟩
      grind [rank]

end

end Pic

end Kboot86
