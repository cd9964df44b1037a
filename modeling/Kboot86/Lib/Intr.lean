import Kboot86.Drivers.Pic
import Kboot86.Lib.Idt

/-!
# From a device to its handler

The interrupt controllers and the interrupt table as one system. From the
initialization in `main` on, the drivers register handlers and set masks while
devices ask for interrupts, and the processor takes one whenever its interrupt
flag allows. The gates are interrupt gates: the flag is clear from the interrupt
to the `iret` of the handler.
-/

namespace Kboot86.Intr

open Idt (Handlers Registration Table idtSystem registered initialHandler)
open Pic (rank)

structure Machine where
  pic : Pic
  table : Table
  serving : Option Nat

/-- What can happen: the calls of the driver of the chips and of the functions
that register a handler, the request of a device, an interrupt with its vector
and the handler that its gate names, and the end of a handler, with the end of
interrupt of its IRQ or, in the stubs, without. -/
inductive Event
  | picEnableIrq (irq : UInt8)
  | picDisableIrq (irq : UInt8)
  | picDisable
  | picSendEoi (irq : UInt8)
  | register (r : Registration)
  | raise (irq : Nat)
  | interrupt (v : Nat) (handler : UInt32)
  | ended
  | iret

/-- No device is at line 2, where the slave is. A handler does not send an end of
interrupt for another one. -/
inductive Step (m : Machine) : Event → Machine → Prop
  | picEnableIrq {irq : UInt8} : irq < 16 →
      Step m (.picEnableIrq irq) { m with pic := m.pic.picEnableIrq irq }
  | picDisableIrq {irq : UInt8} : irq < 16 →
      Step m (.picDisableIrq irq) { m with pic := m.pic.picDisableIrq irq }
  | picDisable : Step m .picDisable { m with pic := m.pic.picDisable }
  | picSendEoi {irq : UInt8} : m.serving = none →
      Step m (.picSendEoi irq) { m with pic := m.pic.picSendEoi irq }
  | register {r : Registration} {t : Table} : r.call.exec m.table = (t, r.code) →
      Step m (.register r) { m with table := t }
  | raise {irq : Nat} : irq < 16 → irq ≠ 2 →
      Step m (.raise irq) { m with pic := m.pic.raise irq }
  | interrupt {v : BitVec 8} {irq : Nat} {pic : Pic} : m.serving = none →
      m.pic.acknowledge = some (v, irq, pic) →
      Step m (.interrupt v.toNat (m.table v.toNat).handler)
        { m with pic := pic, serving := some irq }
  | ended {irq : Nat} : m.serving = some irq →
      Step m .ended { m with pic := m.pic.picSendEoi (UInt8.ofNat irq), serving := none }
  | iret {irq : Nat} : m.serving = some irq → Step m .iret { m with serving := none }

/-- The runs that begin after `pic_init` and `idt_init`, whatever was in the
chips and in the memory. -/
def intrSystem (h : Handlers) : System Machine Event where
  init m := ∃ (p : Pic) (mem : Table), p.Ready ∧ m = ⟨p.picInit, Idt.idtInit h mem, none⟩
  step m e m' := Step m e m'

/-! ### What is expected -/

def enabled (es : List Event) (irq : Nat) : Bool :=
  es.foldl (fun on e =>
    match e with
    | .picEnableIrq i => if irq = i.toNat then true else on
    | .picDisableIrq i => if irq = i.toNat then false else on
    | .picDisable => false
    | _ => on) false

def pending (es : List Event) (irq : Nat) : Bool :=
  es.foldl (fun on e =>
    match e with
    | .raise i => if irq = i then true else on
    | .interrupt v _ => if v = 32 + irq then false else on
    | _ => on) false

def registrations (es : List Event) : List Registration :=
  es.filterMap fun
    | .register r => some r
    | _ => none

def handlerOf (h : Handlers) (es : List Event) (v : Nat) : UInt32 :=
  (lastWrite (registered (registrations es)) v).getD (initialHandler h v)

/-- A device waits for the interrupt, which is enabled, and so is line 2 for
those of the slave. -/
structure Waiting (es : List Event) (irq : Nat) : Prop where
  lt : irq < 16
  ne_cascade : irq ≠ 2
  pending : pending es irq = true
  enabled : enabled es irq = true
  cascade : 8 ≤ irq → Intr.enabled es 2 = true

/-! ### The invariant -/

section

variable {h : Handlers} {es : List Event} {m m' : Machine} {e : Event}

structure Agrees (h : Handlers) (es : List Event) (m : Machine) : Prop where
  ready : m.pic.Ready
  masterOffset : m.pic.master.offset = 32
  slaveOffset : m.pic.slave.offset = 40
  masked : ∀ irq < 16, m.pic.masked irq = !enabled es irq
  requested : ∀ irq < 16, irq ≠ 2 → m.pic.requested irq = pending es irq
  table : (idtSystem h).Run (registrations es) m.table

theorem enabled_snoc (es : List Event) (e : Event) (irq : Nat) : enabled (es ++ [e]) irq =
    match e with
    | .picEnableIrq i => if irq = i.toNat then true else enabled es irq
    | .picDisableIrq i => if irq = i.toNat then false else enabled es irq
    | .picDisable => false
    | _ => enabled es irq :=
  List.foldl_append

theorem pending_snoc (es : List Event) (e : Event) (irq : Nat) : pending (es ++ [e]) irq =
    match e with
    | .raise i => if irq = i then true else pending es irq
    | .interrupt v _ => if v = 32 + irq then false else pending es irq
    | _ => pending es irq :=
  List.foldl_append

theorem registrations_snoc (es : List Event) (e : Event) : registrations (es ++ [e]) =
    match e with
    | .register r => registrations es ++ [r]
    | _ => registrations es := by
  rw [registrations, List.filterMap_append]
  cases e <;> simp [registrations]

theorem Agrees.deliverable_iff (hag : Agrees h es m) {irq : Nat} :
    m.pic.Deliverable irq ↔ Waiting es irq := by
  constructor
  · intro hd
    have hmask := hag.masked irq hd.lt
    rw [hd.unmasked] at hmask
    refine ⟨hd.lt, hd.ne_cascade, ?_, by simpa using hmask.symm, fun h8 => ?_⟩
    · rw [← hag.requested irq hd.lt hd.ne_cascade, hd.requested]
    · have hmask2 := hag.masked 2 (by decide)
      rw [hd.cascade h8] at hmask2
      simpa using hmask2.symm
  · intro hw
    refine ⟨hw.lt, hw.ne_cascade, ?_, ?_, fun h8 => ?_⟩
    · rw [hag.requested irq hw.lt hw.ne_cascade, hw.pending]
    · rw [hag.masked irq hw.lt, hw.enabled]
      rfl
    · rw [hag.masked 2 (by decide), hw.cascade h8]
      rfl

theorem Agrees.handler (hag : Agrees h es m) {v : Nat} (hv : v < 256) :
    (m.table v).handler = handlerOf h es v := by
  rw [Idt.run_apply hag.table v hv, Idt.intrGate_handler, handlerOf]

theorem Agrees.vector (hag : Agrees h es m) {v : BitVec 8} {irq : Nat} {p' : Pic}
    (hack : m.pic.acknowledge = some (v, irq, p')) : v.toNat = 32 + irq := by
  have hlt := (Pic.acknowledge_deliverable hack).lt
  obtain ⟨hlt, -, -, rfl, -⟩ | ⟨j, hj, rfl, -, -, rfl, -⟩ := Pic.acknowledge_cases hack
  · rw [hag.masterOffset, BitVec.toNat_add, BitVec.toNat_ofNat]
    change (32 + irq % 256) % 256 = _
    omega
  · rw [hag.slaveOffset, BitVec.toNat_add, BitVec.toNat_ofNat]
    change (40 + j % 256) % 256 = _
    omega

theorem agrees_init (hm : (intrSystem h).init m) : Agrees h [] m := by
  have hones : ∀ i < 8, (0xff : BitVec 8).getLsbD i = true := by decide
  obtain ⟨p, mem, hp, rfl⟩ := hm
  rw [hp.picInit_eq]
  refine ⟨⟨rfl, rfl⟩, rfl, rfl, fun irq hirq => ?_, fun irq hirq _ => ?_, .init ⟨mem, rfl⟩⟩
  · rw [Pic.masked]
    split
    · rename_i h8
      exact hones irq h8
    · exact hones _ (by omega)
  · rw [Pic.requested]
    split <;> exact BitVec.getLsbD_zero

theorem requested_of_irr {p p' : Pic} (hmaster : p'.master.irr = p.master.irr)
    (hslave : p'.slave.irr = p.slave.irr) (irq : Nat) : p'.requested irq = p.requested irq := by
  rw [Pic.requested, Pic.requested, hmaster, hslave]

theorem Agrees.setsMasks (hag : Agrees h es m) {p' : Pic} {f : Nat → Bool}
    (hset : Pic.SetsMasks m.pic p' f) (hmasks : ∀ irq < 16, f irq = !enabled (es ++ [e]) irq)
    (hpending : ∀ irq, pending (es ++ [e]) irq = pending es irq)
    (hregs : registrations (es ++ [e]) = registrations es) :
    Agrees h (es ++ [e]) { m with pic := p' } where
  ready := hset.ready
  masterOffset := hset.master.2.2.trans hag.masterOffset
  slaveOffset := hset.slave.2.2.trans hag.slaveOffset
  masked irq hirq := (hset.masks irq hirq).trans (hmasks irq hirq)
  requested irq hirq hne := by
    rw [hpending, ← hag.requested irq hirq hne]
    exact requested_of_irr hset.master.1 hset.slave.1 irq
  table := hregs ▸ hag.table

theorem Agrees.next (hag : Agrees h es m) {p' : Pic} {t : Table} {serving : Option Nat}
    (hsame : p'.Ready ∧ p'.master.offset = m.pic.master.offset ∧
      p'.slave.offset = m.pic.slave.offset ∧ ∀ i, p'.masked i = m.pic.masked i)
    (henabled : ∀ i, enabled (es ++ [e]) i = enabled es i)
    (hrequested : ∀ i < 16, i ≠ 2 → p'.requested i = pending (es ++ [e]) i)
    (htable : (idtSystem h).Run (registrations (es ++ [e])) t) :
    Agrees h (es ++ [e]) ⟨p', t, serving⟩ where
  ready := hsame.1
  masterOffset := hsame.2.1.trans hag.masterOffset
  slaveOffset := hsame.2.2.1.trans hag.slaveOffset
  masked i hi := by
    rw [henabled]
    exact (hsame.2.2.2 i).trans (hag.masked i hi)
  requested := hrequested
  table := htable

theorem Agrees.picSendEoi (hag : Agrees h es m) (irq : UInt8) (serving : Option Nat)
    (henabled : ∀ i, enabled (es ++ [e]) i = enabled es i)
    (hpending : ∀ i, pending (es ++ [e]) i = pending es i)
    (hregs : registrations (es ++ [e]) = registrations es) :
    Agrees h (es ++ [e]) { m with pic := m.pic.picSendEoi irq, serving := serving } := by
  have hslave : ∀ q : Pic, (if irq ≥ 8 then { q.slave with isr := Pic.endFirst q.slave.isr }
      else q.slave) = { q.slave with isr := if irq ≥ 8 then Pic.endFirst q.slave.isr
        else q.slave.isr } := by
    intro q
    split <;> rfl
  rw [Pic.picSendEoi_eq, hslave]
  refine hag.next ⟨⟨hag.ready.master, hag.ready.slave⟩, rfl, rfl, fun _ => rfl⟩ henabled
    (fun i hi hne => ?_) (hregs ▸ hag.table)
  rw [hpending, ← hag.requested i hi hne]
  rfl

theorem requested_raise (p : Pic) {irq i : Nat} (hi : i < 16) :
    (p.raise irq).requested i = if i = irq then true else p.requested i := by
  rw [Pic.raise]
  split
  · rename_i hirq8
    exact Pic.line_of_master hirq8 (fun _ hj => Pic.getLsbD_set _ _ hj) i
  · rename_i hirq8
    exact Pic.line_of_slave hirq8 (fun _ hj => Pic.getLsbD_set _ _ hj) hi

theorem Agrees.raise (hag : Agrees h es m) (irq : Nat) :
    Agrees h (es ++ [.raise irq]) { m with pic := m.pic.raise irq } := by
  have hsame : (m.pic.raise irq).Ready ∧ (m.pic.raise irq).master.offset = m.pic.master.offset ∧
      (m.pic.raise irq).slave.offset = m.pic.slave.offset ∧
      ∀ i, (m.pic.raise irq).masked i = m.pic.masked i := by
    rw [Pic.raise]
    split <;> exact ⟨⟨hag.ready.master, hag.ready.slave⟩, rfl, rfl, fun _ => rfl⟩
  refine hag.next hsame (enabled_snoc es _) (fun i hi hne => ?_)
    ((registrations_snoc es _).symm ▸ hag.table)
  rw [pending_snoc, requested_raise _ hi, hag.requested i hi hne]

theorem requested_acknowledge {p p' : Pic} {v : BitVec 8} {irq i : Nat}
    (hack : p.acknowledge = some (v, irq, p')) (hi : i < 16) (hi2 : i ≠ 2) :
    p'.requested i = if i = irq then false else p.requested i := by
  obtain ⟨hlt, -, -, -, rfl⟩ | ⟨j, -, rfl, -, -, -, rfl⟩ := Pic.acknowledge_cases hack
  · exact Pic.line_of_master hlt (fun _ hk => Pic.getLsbD_clear _ _ hk) i
  · -- the master clears line 2, which no device is at
    have hmaster := Pic.line_of_master (m := p.master.irr) (s := (p.slave.serve j).irr)
      (by decide : 2 < 8) (fun _ hk => Pic.getLsbD_clear _ 2 hk) i
    rw [if_neg hi2] at hmaster
    refine hmaster.trans (Pic.line_of_slave (by omega) (fun k hk => ?_) hi)
    rw [Nat.add_sub_cancel_left]
    exact Pic.getLsbD_clear _ _ hk

theorem Agrees.interrupt (hag : Agrees h es m) {v : BitVec 8} {irq : Nat} {p' : Pic}
    (hack : m.pic.acknowledge = some (v, irq, p')) (handler : UInt32) :
    Agrees h (es ++ [.interrupt v.toNat handler]) { m with pic := p', serving := some irq } := by
  have hsame : p'.Ready ∧ p'.master.offset = m.pic.master.offset ∧
      p'.slave.offset = m.pic.slave.offset ∧ ∀ i, p'.masked i = m.pic.masked i := by
    obtain ⟨-, -, -, -, rfl⟩ | ⟨j, -, -, -, -, -, rfl⟩ := Pic.acknowledge_cases hack <;>
      exact ⟨⟨hag.ready.master, hag.ready.slave⟩, rfl, rfl, fun _ => rfl⟩
  refine hag.next hsame (enabled_snoc es _) (fun i hi hne => ?_)
    ((registrations_snoc es _).symm ▸ hag.table)
  rw [pending_snoc]
  dsimp only
  rw [hag.vector hack, requested_acknowledge hack hi hne, hag.requested i hi hne]
  exact if_congr (by omega) rfl rfl

theorem Agrees.step (hag : Agrees h es m) (hstep : Step m e m') : Agrees h (es ++ [e]) m' := by
  cases hstep with
  | picEnableIrq _ =>
      refine hag.setsMasks (Pic.picEnableIrq_sets hag.ready _) (fun i hi => ?_)
        (pending_snoc es _) (registrations_snoc es _)
      rw [enabled_snoc, hag.masked i hi]
      dsimp only
      split <;> rfl
  | picDisableIrq _ =>
      refine hag.setsMasks (Pic.picDisableIrq_sets hag.ready _) (fun i hi => ?_)
        (pending_snoc es _) (registrations_snoc es _)
      rw [enabled_snoc, hag.masked i hi]
      dsimp only
      split <;> rfl
  | picDisable =>
      refine hag.setsMasks (Pic.picDisable_sets hag.ready) (fun i hi => ?_)
        (pending_snoc es _) (registrations_snoc es _)
      rw [enabled_snoc]
      rfl
  | picSendEoi _ =>
      exact hag.picSendEoi _ _ (enabled_snoc es _) (pending_snoc es _) (registrations_snoc es _)
  | @register r t hexec =>
      refine hag.next ⟨hag.ready, rfl, rfl, fun _ => rfl⟩ (enabled_snoc es _)
        (fun i hi hne => ?_) ?_
      · rw [pending_snoc]
        exact hag.requested i hi hne
      · rw [registrations_snoc]
        exact .snoc hag.table hexec
  | raise _ _ => exact hag.raise _
  | interrupt _ hack => exact hag.interrupt hack _
  | ended _ =>
      exact hag.picSendEoi _ _ (enabled_snoc es _) (pending_snoc es _) (registrations_snoc es _)
  | iret _ =>
      refine hag.next ⟨hag.ready, rfl, rfl, fun _ => rfl⟩ (enabled_snoc es _)
        (fun i hi hne => ?_) ((registrations_snoc es _).symm ▸ hag.table)
      rw [pending_snoc]
      exact hag.requested i hi hne

theorem agrees_of_run (hrun : (intrSystem h).Run es m) : Agrees h es m :=
  hrun.history (P := Agrees h) (fun _ hm => agrees_init hm) fun _ _ _ _ hag hstep => hag.step hstep

/-! ### What is in service -/

/-- In service is the IRQ whose handler runs, with line 2 for those of the slave. -/
def InService (m : Machine) : Prop :=
  match m.serving with
  | none => m.pic.master.isr = 0 ∧ m.pic.slave.isr = 0
  | some irq => if irq < 8 then m.pic.master.isr = 1#8 <<< irq ∧ m.pic.slave.isr = 0
      else irq < 16 ∧ m.pic.master.isr = 1#8 <<< 2 ∧ m.pic.slave.isr = 1#8 <<< (irq - 8)

theorem InService.picSendEoi (hin : InService m) (hserving : m.serving = none) (irq : UInt8) :
    InService { m with pic := m.pic.picSendEoi irq } := by
  have hzero : Pic.endFirst 0 = 0 := by decide
  rw [InService, hserving] at hin
  rw [InService, hserving, Pic.picSendEoi_eq]
  refine ⟨by rw [hin.1, hzero], ?_⟩
  split
  · rw [hin.2, hzero]
  · exact hin.2

theorem InService.raise (hin : InService m) (irq : Nat) :
    InService { m with pic := m.pic.raise irq } := by
  have hsame : (m.pic.raise irq).master.isr = m.pic.master.isr ∧
      (m.pic.raise irq).slave.isr = m.pic.slave.isr := by
    rw [Pic.raise]
    split <;> exact ⟨rfl, rfl⟩
  rw [InService] at hin ⊢
  rw [hsame.1, hsame.2]
  exact hin

theorem InService.setsMasks (hin : InService m) {p' : Pic} {f : Nat → Bool}
    (hset : Pic.SetsMasks m.pic p' f) : InService { m with pic := p' } := by
  rw [InService] at hin ⊢
  rw [hset.master.2.1, hset.slave.2.1]
  exact hin

theorem InService.interrupt (hin : InService m) (hserving : m.serving = none) {v : BitVec 8}
    {irq : Nat} {p' : Pic} (hack : m.pic.acknowledge = some (v, irq, p')) :
    InService { m with pic := p', serving := some irq } := by
  rw [InService, hserving] at hin
  obtain ⟨hlt, -, -, -, rfl⟩ | ⟨j, hj, rfl, -, -, -, rfl⟩ := Pic.acknowledge_cases hack
  · rw [InService]
    dsimp only
    rw [if_pos hlt, Pic.Chip.serve, hin.1]
    exact ⟨BitVec.zero_or, hin.2⟩
  · rw [InService]
    dsimp only
    rw [if_neg (by omega), Pic.Chip.serve, Pic.Chip.serve, hin.1, hin.2, Nat.add_sub_cancel_left]
    exact ⟨by omega, BitVec.zero_or, BitVec.zero_or⟩

theorem InService.ended (hin : InService m) {irq : Nat} (hserving : m.serving = some irq) :
    InService { m with pic := m.pic.picSendEoi (UInt8.ofNat irq), serving := none } := by
  rw [InService, hserving] at hin
  dsimp only at hin
  rw [InService, Pic.picSendEoi_eq]
  dsimp only
  by_cases hlt : irq < 8
  · rw [if_pos hlt] at hin
    have hge : ¬ UInt8.ofNat irq ≥ 8 := by
      rw [ge_iff_le, UInt8.le_iff_toNat_le, UInt8.toNat_ofNat_of_lt' (by change irq < 256; omega)]
      exact Nat.not_le.mpr hlt
    rw [if_neg hge, hin.1]
    exact ⟨Pic.endFirst_bit irq hlt, hin.2⟩
  · rw [if_neg hlt] at hin
    obtain ⟨hirq, hmaster, hslave⟩ := hin
    have hge : UInt8.ofNat irq ≥ 8 := by
      rw [ge_iff_le, UInt8.le_iff_toNat_le, UInt8.toNat_ofNat_of_lt' (by change irq < 256; omega)]
      exact Nat.not_lt.mp hlt
    rw [if_pos hge, hmaster, hslave]
    exact ⟨Pic.endFirst_bit 2 (by decide), Pic.endFirst_bit _ (by omega)⟩

theorem InService.step (hin : InService m) (hready : m.pic.Ready) (he : e ≠ .iret)
    (hstep : Step m e m') : InService m' := by
  cases hstep with
  | picEnableIrq _ => exact hin.setsMasks (Pic.picEnableIrq_sets hready _)
  | picDisableIrq _ => exact hin.setsMasks (Pic.picDisableIrq_sets hready _)
  | picDisable => exact hin.setsMasks (Pic.picDisable_sets hready)
  | picSendEoi hserving => exact hin.picSendEoi hserving _
  | register _ => exact hin
  | raise _ _ => exact hin.raise _
  | interrupt hserving hack => exact hin.interrupt hserving hack
  | ended hserving => exact hin.ended hserving
  | iret _ => exact absurd rfl he

theorem inService_of_run (hrun : (intrSystem h).Run es m) (hes : ∀ e ∈ es, e ≠ .iret) :
    InService m := by
  have hrun' := hrun.restrict hes
  have hboth : Agrees h es m ∧ InService m := by
    refine hrun'.history (P := fun es m => Agrees h es m ∧ InService m) ?_ ?_
    · intro m hm
      refine ⟨agrees_init hm, ?_⟩
      obtain ⟨p, mem, hp, rfl⟩ := hm
      rw [InService, hp.picInit_eq]
      exact ⟨rfl, rfl⟩
    · rintro es m e m' ⟨hag, hin⟩ ⟨he, hstep⟩
      exact ⟨hag.step hstep, hin.step hag.ready he hstep⟩
  exact hboth.2

/-- With nothing in service the interrupt that is taken is the first that waits. -/
theorem interrupt_iff (hag : Agrees h es m) (hin : InService m) (hserving : m.serving = none)
    (irq : Nat) : (∃ handler m', Step m (.interrupt (32 + irq) handler) m') ↔
      Waiting es irq ∧ ∀ i, Waiting es i → rank irq ≤ rank i := by
  rw [InService, hserving] at hin
  have hbest : ∀ i, Waiting es i →
      ∃ v irq' p', m.pic.acknowledge = some (v, irq', p') ∧ rank irq' ≤ rank i := fun i hi =>
    (hag.deliverable_iff.mpr hi).acknowledge hin.1 hin.2
  constructor
  · rintro ⟨handler, m', hstep⟩
    generalize hvec : 32 + irq = w at hstep
    cases hstep with
    | @interrupt v irq' p' _ hack =>
        obtain rfl : irq = irq' := by have := hag.vector hack; omega
        refine ⟨hag.deliverable_iff.mp (Pic.acknowledge_deliverable hack), fun i hi => ?_⟩
        obtain ⟨v', irq', q, hack', hrank⟩ := hbest i hi
        rw [hack] at hack'
        cases hack'
        exact hrank
  · rintro ⟨hwait, hfirst⟩
    obtain ⟨v, irq', p', hack, hrank⟩ := hbest irq hwait
    have hwait' := hag.deliverable_iff.mp (Pic.acknowledge_deliverable hack)
    have heq : irq = irq' := Pic.rank_inj hwait.lt hwait.ne_cascade hwait'.lt hwait'.ne_cascade
      (Nat.le_antisymm (hfirst irq' hwait') hrank)
    subst heq
    refine ⟨(m.table v.toNat).handler, { m with pic := p', serving := some irq }, ?_⟩
    rw [← hag.vector hack]
    exact .interrupt hserving hack

end

/-- In every run an interrupt is one that a device waits for and that is
enabled, and it comes to the handler that was last registered for its vector.
While every handler sends the end of its interrupt none is lost: between the
handlers, the first of those that wait, and no other, is taken. -/
theorem interrupts_dispatched {h : Handlers} {es : List Event} {m : Machine}
    (hrun : (intrSystem h).Run es m) :
    (∀ pre v handler post, es = pre ++ .interrupt v handler :: post →
      ∃ irq, v = 32 + irq ∧ Waiting pre irq ∧ handler = handlerOf h pre v) ∧
    ((∀ e ∈ es, e ≠ .iret) → m.serving = none → ∀ irq,
      (∃ handler m', Step m (.interrupt (32 + irq) handler) m') ↔
        Waiting es irq ∧ ∀ i, Waiting es i → rank irq ≤ rank i) := by
  refine ⟨?_, fun hes hserving irq =>
    interrupt_iff (agrees_of_run hrun) (inService_of_run hrun hes) hserving irq⟩
  rintro pre v handler post rfl
  obtain ⟨m₁, m₂, hpre, hstep⟩ := hrun.exists_step
  have hag := agrees_of_run hpre
  cases hstep with
  | @interrupt v irq p' _ hack =>
      exact ⟨irq, hag.vector hack, hag.deliverable_iff.mp (Pic.acknowledge_deliverable hack),
        hag.handler v.isLt⟩

def samplePic : Pic where
  master := ⟨0xb8, 0x01, 0xff, 8, 4, .mask⟩
  slave := ⟨0x8e, 0x40, 0xff, 0x70, 2, .mask⟩

def sampleRegistration : Registration := ⟨.intrRegisterIrq 1 0xa000, 0⟩

def sampleEvents : List Event := [.register sampleRegistration, .picEnableIrq 1, .raise 4, .raise 1]

def sampleMachine : Machine where
  pic := ((samplePic.picInit.picEnableIrq 1).raise 4).raise 1
  table := (sampleRegistration.call.exec (Idt.idtInit Idt.sampleHandlers Idt.nullTable)).1
  serving := none

theorem sampleMachine_run : (intrSystem Idt.sampleHandlers).Run sampleEvents sampleMachine := by
  have hcode : (sampleRegistration.call.exec (Idt.idtInit Idt.sampleHandlers Idt.nullTable)).2 =
      sampleRegistration.code := by
    rw [Idt.Call.exec_eq]
    rfl
  have hinit : (intrSystem Idt.sampleHandlers).init
      ⟨samplePic.picInit, Idt.idtInit Idt.sampleHandlers Idt.nullTable, none⟩ :=
    ⟨samplePic, Idt.nullTable, ⟨rfl, rfl⟩, rfl⟩
  have hregister := System.Run.snoc (.init hinit) (Step.register (Prod.ext rfl hcode))
  have henable := hregister.snoc (Step.picEnableIrq (by decide : (1 : UInt8) < 16))
  have hraise := henable.snoc (Step.raise (by decide : 4 < 16) (by decide))
  exact hraise.snoc (Step.raise (by decide : 1 < 16) (by decide))

/-- The keyboard gets its interrupt, the device with the masked line does not. -/
theorem interrupts_dispatched_sample :
    ∃ handler m', Step sampleMachine (.interrupt (32 + 1) handler) m' := by
  refine ((interrupts_dispatched sampleMachine_run).2 (by simp [sampleEvents]) rfl 1).mpr
    ⟨⟨by decide, by decide, rfl, rfl, by decide⟩, fun i hi => ?_⟩
  have hone : i = 1 := by
    by_contra hne
    have hoff : enabled sampleEvents i = false := if_neg hne
    exact absurd (hi.enabled.symm.trans hoff) (by decide)
  rw [hone]

/-! ### Handlers without an end of interrupt -/

def Event.IsEoi : Event → Prop
  | .picSendEoi _ => True
  | .ended => True
  | _ => False

def masterLine (irq : Nat) : Nat := if irq < 8 then irq else 2

section

variable {h : Handlers} {m m' : Machine} {e : Event} {irq : Nat}

theorem setsMasks_isr {p p' : Pic} {f : Nat → Bool} (hset : Pic.SetsMasks p p' f) {i : Nat}
    (hi : p.master.isr.getLsbD i = true) : p'.master.isr.getLsbD i = true := by
  rw [hset.master.2.1]
  exact hi

/-- What is in service stays so until the end of an interrupt is sent. -/
theorem Step.isr (hstep : Step m e m') (hready : m.pic.Ready) (he : ¬ e.IsEoi) {i : Nat}
    (hi : m.pic.master.isr.getLsbD i = true) : m'.pic.master.isr.getLsbD i = true := by
  cases hstep with
  | picEnableIrq _ => exact setsMasks_isr (Pic.picEnableIrq_sets hready _) hi
  | picDisableIrq _ => exact setsMasks_isr (Pic.picDisableIrq_sets hready _) hi
  | picDisable => exact setsMasks_isr (Pic.picDisable_sets hready) hi
  | picSendEoi _ => exact absurd trivial he
  | register _ => exact hi
  | raise _ _ =>
      dsimp only [Pic.raise]
      split <;> exact hi
  | interrupt _ hack =>
      obtain ⟨-, -, -, -, rfl⟩ | ⟨j, -, -, -, -, -, rfl⟩ := Pic.acknowledge_cases hack <;>
        exact (BitVec.getLsbD_or ..).trans (by rw [hi, Bool.true_or])
  | ended _ => exact absurd trivial he
  | iret _ => exact hi

theorem acknowledge_line {p p' : Pic} {v : BitVec 8} (hack : p.acknowledge = some (v, irq, p')) :
    p.master.request p.masterRequests = some (masterLine irq) ∧
      p'.master.isr.getLsbD (masterLine irq) = true := by
  obtain ⟨hlt, -, hreq, -, rfl⟩ | ⟨j, -, rfl, hreq, -, -, rfl⟩ := Pic.acknowledge_cases hack
  · rw [masterLine, if_pos hlt]
    exact ⟨hreq, (Pic.getLsbD_set _ _ hlt).trans (if_pos rfl)⟩
  · rw [masterLine, if_neg (by omega)]
    exact ⟨hreq, (Pic.getLsbD_set _ 2 (by decide)).trans (if_pos rfl)⟩

theorem rank_lt_of_line {i j : Nat} (hj : j < 16) (hline : masterLine j < masterLine i) :
    rank j < rank i := by
  grind [rank, masterLine]

theorem isr_of_run {pre mid : List Event} {v : Nat} {handler : UInt32}
    (hrun : (intrSystem h).Run (pre ++ .interrupt v handler :: mid) m)
    (hmid : ∀ e ∈ mid, ¬ e.IsEoi) :
    ∃ irq, v = 32 + irq ∧ m.pic.master.isr.getLsbD (masterLine irq) = true := by
  induction mid using List.reverseRecOn generalizing m with
  | nil =>
      obtain ⟨m₁, hpre, hstep⟩ := (System.run_snoc_iff _ _ _ _).mp hrun
      cases hstep with
      | @interrupt v irq p' _ hack =>
          exact ⟨irq, (agrees_of_run hpre).vector hack, (acknowledge_line hack).2⟩
  | append_singleton mid e ih =>
      rw [← List.cons_append, ← List.append_assoc] at hrun
      obtain ⟨m₁, hpre, hstep⟩ := (System.run_snoc_iff _ _ _ _).mp hrun
      obtain ⟨irq, hv, hline⟩ := ih hpre fun e he => hmid e (List.mem_append_left _ he)
      have he : ¬ e.IsEoi := hmid e (by simp)
      exact ⟨irq, hv, hstep.isr (agrees_of_run hpre).ready he hline⟩

end

/-- After an interrupt for which no end is sent, as in the stubs of `idt_init`,
only interrupts that are served before it come through. -/
theorem blocked_until_eoi {h : Handlers} {es : List Event} {m : Machine}
    (hrun : (intrSystem h).Run es m) {pre mid post : List Event} {v w : Nat}
    {handler handler' : UInt32}
    (hes : es = pre ++ .interrupt v handler :: mid ++ .interrupt w handler' :: post)
    (hmid : ∀ e ∈ mid, ¬ e.IsEoi) :
    ∃ i j, v = 32 + i ∧ w = 32 + j ∧ rank j < rank i := by
  subst hes
  obtain ⟨m₁, m₂, hpre, hstep⟩ := hrun.exists_step
  obtain ⟨i, hv, hline⟩ := isr_of_run hpre hmid
  generalize hw : Event.interrupt w handler' = e at hstep
  cases hstep with
  | @interrupt v' j p' _ hack =>
      cases hw
      have hservice := (Pic.Chip.request_iff.mp (acknowledge_line hack).1).2
      have hlt : masterLine j < masterLine i := by
        by_contra hge
        rw [hservice _ (Nat.not_lt.mp hge)] at hline
        cases hline
      exact ⟨i, j, hv, (agrees_of_run hpre).vector hack,
        rank_lt_of_line (Pic.acknowledge_deliverable hack).lt hlt⟩
  | _ => cases hw

/-- The stub of the serial line leaves its interrupt in service, and that of the
timer still comes through. -/
def blockedEvents : List Event :=
  [.picEnableIrq 4, .picEnableIrq 0, .raise 4] ++ .interrupt 36 0x9024 :: [.iret, .raise 0] ++
    .interrupt 32 0x9020 :: []

def blockedMachine (imr irr isr : BitVec 8) (serving : Option Nat) : Machine where
  pic := ⟨⟨imr, irr, isr, 32, 4, .mask⟩, ⟨0xff, 0, 0, 40, 2, .mask⟩⟩
  table := Idt.idtInit Idt.sampleHandlers Idt.nullTable
  serving := serving

theorem blockedMachine_interrupt {irr isr : BitVec 8} {v : BitVec 8} {irq : Nat} {p : Pic}
    {a : UInt32} (hack : (blockedMachine 0xee irr isr none).pic.acknowledge = some (v, irq, p))
    (ha : initialHandler Idt.sampleHandlers v.toNat = a) :
    Step (blockedMachine 0xee irr isr none) (.interrupt v.toNat a)
      ⟨p, Idt.idtInit Idt.sampleHandlers Idt.nullTable, some irq⟩ := by
  have hgate : (Idt.idtInit Idt.sampleHandlers Idt.nullTable v.toNat).handler = a := by
    rw [Idt.idtInit_apply _ _ v.isLt, Idt.intrGate_handler, ha]
  subst hgate
  exact .interrupt rfl hack

theorem blockedEvents_run :
    (intrSystem Idt.sampleHandlers).Run blockedEvents (blockedMachine 0xee 0 0x11 (some 0)) := by
  have hinit : (intrSystem Idt.sampleHandlers).init (blockedMachine 0xff 0 0 none) :=
    ⟨samplePic, Idt.nullTable, ⟨rfl, rfl⟩, rfl⟩
  have hline : Step (blockedMachine 0xff 0 0 none) (.picEnableIrq 4)
      (blockedMachine 0xef 0 0 none) := .picEnableIrq (by decide)
  have htimer : Step (blockedMachine 0xef 0 0 none) (.picEnableIrq 0)
      (blockedMachine 0xee 0 0 none) := .picEnableIrq (by decide)
  have hraise : Step (blockedMachine 0xee 0 0 none) (.raise 4)
      (blockedMachine 0xee 0x10 0 none) := .raise (by decide) (by decide)
  have hint : Step (blockedMachine 0xee 0x10 0 none) (.interrupt 36 0x9024)
      (blockedMachine 0xee 0 0x10 (some 4)) :=
    blockedMachine_interrupt (v := 36) (by decide) rfl
  have hiret : Step (blockedMachine 0xee 0 0x10 (some 4)) .iret
      (blockedMachine 0xee 0 0x10 none) := .iret rfl
  have hraise' : Step (blockedMachine 0xee 0 0x10 none) (.raise 0)
      (blockedMachine 0xee 1 0x10 none) := .raise (by decide) (by decide)
  have hint' : Step (blockedMachine 0xee 1 0x10 none) (.interrupt 32 0x9020)
      (blockedMachine 0xee 0 0x11 (some 0)) :=
    blockedMachine_interrupt (v := 32) (by decide) rfl
  have hstub := ((((System.Run.init hinit).snoc hline).snoc htimer).snoc hraise).snoc hint
  exact ((hstub.snoc hiret).snoc hraise').snoc hint'

theorem blocked_until_eoi_sample :
    ∃ i j, 36 = 32 + i ∧ 32 = 32 + j ∧ rank j < rank i :=
  blocked_until_eoi blockedEvents_run rfl (by simp [Event.IsEoi])

end Kboot86.Intr
