import Kboot86.Foundation.Overwrite
import Kboot86.Foundation.Transition
import Mathlib.Algebra.Order.Ring.Nat
import Mathlib.Tactic.IntervalCases

/-!
# The interrupt descriptor table

`idt.c` and `intr_register_irq` of `intr.c`. The initialization fills the table
with null handlers, then the vectors of the exceptions, then those of the IRQs
one by one; drivers register their handlers later.
-/

namespace Kboot86.Idt

def idtCs : UInt16 := 0x0008

def idtNumGatesMax : UInt32 := 0x100

structure GateAttr where
  gateType : BitVec 4
  s : BitVec 1
  dpl : BitVec 2
  p : BitVec 1

structure Gate where
  offsetLo : UInt16
  selector : UInt16
  zero : UInt8
  attr : GateAttr
  offsetHi : UInt16

abbrev Table := Nat → Gate

def gateTrap : Int := 0

def gateIntr : Int := 1

def gateTask : Int := 2

/-- The `switch` of `_set_gate`. -/
def gateTypeOf (type : Int) : Option (BitVec 4) :=
  if type = gateTrap then some 0xf
  else if type = gateIntr then some 0xe
  else if type = gateTask then some 0x5
  else none

/-- `_set_gate`; a handler is its address. -/
def setGate (t : Table) (index isr : UInt32) (selector : UInt16) (priviLevel : UInt32)
    (type : Int) : Table × Int :=
  if index ≥ idtNumGatesMax then (t, 1)
  else if priviLevel ≥ 4 then (t, 1)
  else
    match gateTypeOf type with
    | none => (t, 1)
    | some gateType =>
        let gate : Gate :=
          { offsetLo := (0xffff &&& isr).toUInt16
            offsetHi := ((0xffff0000 &&& isr) >>> 16).toUInt16
            selector := selector
            zero := 0
            attr :=
              { gateType := gateType, s := 0, dpl := BitVec.ofNat 2 priviLevel.toNat, p := 1 } }
        (Function.update t index.toNat gate, 0)

def idtSetIntrGate (t : Table) (index isr : UInt32) : Table × Int :=
  setGate t index isr idtCs 0 gateIntr

/-- The addresses of `exception_handler` and of the stubs `isr32` to `isr47`,
each of which has code of its own. -/
structure Handlers where
  exceptionHandler : UInt32
  isr : Nat → UInt32
  isr_ne_null : ∀ v, 32 ≤ v → v ≤ 47 → isr v ≠ 0
  isr_inj : ∀ v w, 32 ≤ v → v ≤ 47 → 32 ≤ w → w ≤ 47 → isr v = isr w → v = w

def setAllTo (isr : UInt32) : Nat → Table → Table
  | 0, t => t
  | n + 1, t => (idtSetIntrGate (setAllTo isr n t) (UInt32.ofNat n) isr).1

/-- The calls for the IRQs, with the index and the number of the stub. -/
def irqCalls : List (UInt32 × Nat) :=
  [(32, 32), (33, 33), (34, 34), (35, 35), (36, 36), (37, 37), (38, 38), (39, 39), (40, 40),
    (41, 41), (41, 42), (43, 43), (44, 44), (45, 45), (46, 46), (47, 47)]

/-- `idt_init`, on the table. -/
def idtInit (h : Handlers) (t : Table) : Table :=
  let t := setAllTo 0 idtNumGatesMax.toNat t
  let t := setAllTo h.exceptionHandler 32 t
  irqCalls.foldl (fun t c => (idtSetIntrGate t c.1 (h.isr c.2)).1) t

def irqOffset : UInt32 := 0x20

def intrRegisterIrq (t : Table) (irqNum : UInt8) (isr : UInt32) : Table × Int :=
  idtSetIntrGate t (irqOffset + irqNum.toUInt32) isr

/-! ### Registrations -/

inductive Call where
  | intrRegisterIrq (irqNum : UInt8) (isr : UInt32)
  | idtSetIntrGate (index isr : UInt32)

structure Registration where
  call : Call
  code : Int

def Call.exec (t : Table) : Call → Table × Int
  | .intrRegisterIrq irqNum isr => Idt.intrRegisterIrq t irqNum isr
  | .idtSetIntrGate index isr => Idt.idtSetIntrGate t index isr

def Call.vector : Call → Nat
  | .intrRegisterIrq irqNum _ => 0x20 + irqNum.toNat
  | .idtSetIntrGate index _ => index.toNat

def Call.isr : Call → UInt32
  | .intrRegisterIrq _ isr => isr
  | .idtSetIntrGate _ isr => isr

/-- The runs that begin after `idt_init`, whatever the memory held before. -/
def idtSystem (h : Handlers) : System Table Registration where
  init t := ∃ mem, t = idtInit h mem
  step t r t' := r.call.exec t = (t', r.code)

def registered (rs : List Registration) : List (Nat × UInt32) :=
  (rs.filter fun r => r.code = 0).map fun r => (r.call.vector, r.call.isr)

def defaultHandler (h : Handlers) (v : Nat) : UInt32 :=
  if v < 32 then h.exceptionHandler else if v ≤ 47 then h.isr v else 0

def expected (h : Handlers) (rs : List Registration) (v : Nat) : UInt32 :=
  (lastWrite (registered rs) v).getD (defaultHandler h v)

def Gate.handler (g : Gate) : UInt32 := g.offsetHi.toUInt32 <<< 16 ||| g.offsetLo.toUInt32

/-- A present interrupt gate for the handler. -/
def Gate.Decodes (g : Gate) (isr : UInt32) : Prop :=
  g.handler = isr ∧ g.attr.p = 1 ∧ g.attr.gateType = 0xe

/-- Every vector has the handler that it should have, and a further call
changes no vector but its own. -/
structure TableRight (h : Handlers) (rs : List Registration) (t : Table) : Prop where
  decodes : ∀ v < 256, (t v).Decodes (expected h rs v)
  others : ∀ r t', (idtSystem h).step t r t' → ∀ v, v ≠ r.call.vector → t' v = t v

/-! ### Gates -/

section

variable {h : Handlers} {t : Table} {v : Nat}

/-- The gate that `idt_set_intr_gate` writes. -/
def intrGate (isr : UInt32) : Gate where
  offsetLo := (0xffff &&& isr).toUInt16
  offsetHi := ((0xffff0000 &&& isr) >>> 16).toUInt16
  selector := idtCs
  zero := 0
  attr := { gateType := 0xe, s := 0, dpl := 0, p := 1 }

theorem intrGate_handler (isr : UInt32) : (intrGate isr).handler = isr := by
  have hlt := isr.toNat_lt
  have hlo : (0xffff &&& isr).toUInt16.toUInt32.toNat = isr.toNat % 65536 := by
    rw [UInt16.toNat_toUInt32, UInt32.toNat_toUInt16, UInt32.toNat_and, Nat.and_comm]
    change (isr.toNat &&& 65535) % 65536 = _
    rw [Nat.and_two_pow_sub_one_eq_mod _ 16]
    exact Nat.mod_mod _ _
  have hhi : ((0xffff0000 &&& isr) >>> 16).toUInt16.toUInt32.toNat = isr.toNat / 65536 := by
    rw [UInt16.toNat_toUInt32, UInt32.toNat_toUInt16, UInt32.toNat_shiftRight, UInt32.toNat_and,
      Nat.and_comm]
    change ((isr.toNat &&& 4294901760) >>> 16) % 65536 = _
    rw [Nat.shiftRight_and_distrib, Nat.shiftRight_eq_div_pow]
    change (isr.toNat / 65536 &&& 65535) % 65536 = _
    rw [Nat.and_two_pow_sub_one_eq_mod _ 16]
    omega
  have hshift : (((0xffff0000 &&& isr) >>> 16).toUInt16.toUInt32 <<< 16).toNat =
      2 ^ 16 * (isr.toNat / 65536) := by
    rw [UInt32.toNat_shiftLeft, hhi]
    change ((isr.toNat / 65536) <<< 16) % 4294967296 = _
    rw [Nat.shiftLeft_eq]
    omega
  have hmod : isr.toNat % 65536 < 2 ^ 16 := Nat.mod_lt _ (by decide)
  rw [Gate.handler, intrGate, ← UInt32.toNat_inj, UInt32.toNat_or, hshift, hlo,
    ← Nat.two_pow_add_eq_or_of_lt hmod]
  omega

theorem intrGate_decodes_iff (isr handler : UInt32) :
    (intrGate isr).Decodes handler ↔ handler = isr := by
  rw [Gate.Decodes, intrGate_handler]
  exact ⟨fun h => h.1.symm, fun h => ⟨h.symm, rfl, rfl⟩⟩

theorem idtSetIntrGate_eq (t : Table) (index isr : UInt32) :
    idtSetIntrGate t index isr =
      if index.toNat < 256 then (Function.update t index.toNat (intrGate isr), 0) else (t, 1) := by
  have hmax : idtNumGatesMax.toNat = 256 := rfl
  rw [idtSetIntrGate, setGate]
  by_cases hindex : index.toNat < 256
  · have hnot : ¬ index ≥ idtNumGatesMax := by
      rw [ge_iff_le, UInt32.le_iff_toNat_le, hmax]
      omega
    rw [if_neg hnot, if_pos hindex, if_neg (by decide)]
    rfl
  · have hge : index ≥ idtNumGatesMax := by
      rw [ge_iff_le, UInt32.le_iff_toNat_le, hmax]
      omega
    rw [if_pos hge, if_neg hindex]

theorem setAllTo_apply (isr : UInt32) (t : Table) {n : Nat} (hn : n ≤ 256) (v : Nat) :
    setAllTo isr n t v = if v < n then intrGate isr else t v := by
  induction n with
  | zero => rw [if_neg (Nat.not_lt_zero v), setAllTo]
  | succ n ih =>
      have hsize : UInt32.size = 4294967296 := rfl
      have hval : (UInt32.ofNat n).toNat = n := UInt32.toNat_ofNat_of_lt' (by omega)
      rw [setAllTo, idtSetIntrGate_eq, hval, if_pos (by omega)]
      dsimp only
      by_cases hv : v = n
      · rw [hv, Function.update_self, if_pos (Nat.lt_succ_self n)]
      · rw [Function.update_of_ne hv, ih (by omega)]
        exact if_congr (by omega) rfl rfl

/-! ### The initialization -/

def stubAt (v : Nat) : Option Nat := lastWrite (irqCalls.map fun c => (c.1.toNat, c.2)) v

/-- Vector 41 is set twice and vector 42 never. -/
theorem stubAt_eq (v : Nat) : stubAt v =
    if v = 41 then some 42 else if v = 42 then none
    else if 32 ≤ v ∧ v ≤ 47 then some v else none := by
  by_cases hv : 32 ≤ v ∧ v ≤ 47
  · obtain ⟨hlo, hhi⟩ := hv
    interval_cases v <;> rfl
  · rw [if_neg (by omega), if_neg (by omega), if_neg hv]
    refine lastWrite_eq_none_iff.mpr fun w hw hkey => hv ?_
    subst hkey
    revert w
    decide

theorem irqCalls_eq (h : Handlers) (t : Table) :
    irqCalls.foldl (fun t c => (idtSetIntrGate t c.1 (h.isr c.2)).1) t =
      overwrite t (irqCalls.map fun c => (c.1.toNat, intrGate (h.isr c.2))) := by
  have hcalls : ∀ c ∈ irqCalls, c.1.toNat < 256 := by decide
  rw [overwrite, List.foldl_map]
  refine List.foldl_ext _ _ t fun t c hc => ?_
  rw [idtSetIntrGate_eq, if_pos (hcalls c hc)]

/-- The handler of a vector after the initialization. -/
def initialHandler (h : Handlers) (v : Nat) : UInt32 :=
  if v = 41 then h.isr 42 else if v = 42 then 0 else defaultHandler h v

theorem idtInit_apply (h : Handlers) (mem : Table) (hv : v < 256) :
    idtInit h mem v = intrGate (initialHandler h v) := by
  have hmax : idtNumGatesMax.toNat = 256 := rfl
  have hstubs := lastWrite_map (fun c : UInt32 × Nat => c.1.toNat) (·.2)
    (fun n => intrGate (h.isr n)) irqCalls v
  rw [idtInit, irqCalls_eq, overwrite_apply, hstubs, setAllTo_apply _ _ (by decide), hmax,
    setAllTo_apply _ _ (Nat.le_refl _), if_pos hv]
  change (Option.map _ (stubAt v)).getD _ = _
  rw [stubAt_eq, initialHandler, defaultHandler]
  by_cases h41 : v = 41
  · rw [if_pos h41, if_pos h41]
    rfl
  by_cases h42 : v = 42
  · rw [if_neg h41, if_pos h42, if_neg h41, if_pos h42, if_neg (by omega)]
    rfl
  rw [if_neg h41, if_neg h42, if_neg h41, if_neg h42]
  by_cases hirq : 32 ≤ v ∧ v ≤ 47
  · have hexc : ¬ v < 32 := by omega
    rw [if_pos hirq, if_neg hexc, if_neg hexc, if_pos hirq.2]
    rfl
  · rw [if_neg hirq, Option.map_none, Option.getD_none]
    by_cases hexc : v < 32
    · rw [if_pos hexc, if_pos hexc]
    · rw [if_neg hexc, if_neg hexc, if_neg (by omega)]

/-! ### Later registrations -/

theorem Call.exec_eq (c : Call) (t : Table) :
    c.exec t =
      if c.vector < 256 then (Function.update t c.vector (intrGate c.isr), 0) else (t, 1) := by
  cases c with
  | intrRegisterIrq irqNum isr =>
      have hindex : (irqOffset + irqNum.toUInt32).toNat = 0x20 + irqNum.toNat := by
        have hlt := irqNum.toNat_lt
        have hoff : irqOffset.toNat = 0x20 := rfl
        rw [UInt32.toNat_add, hoff, UInt8.toNat_toUInt32]
        omega
      rw [Call.exec, Idt.intrRegisterIrq, idtSetIntrGate_eq, hindex]
      rfl
  | idtSetIntrGate index isr => exact idtSetIntrGate_eq t index isr

theorem step_cases {r : Registration} {t' : Table} (hstep : (idtSystem h).step t r t') :
    (r.call.vector < 256 ∧ t' = Function.update t r.call.vector (intrGate r.call.isr) ∧
      r.code = 0) ∨ (¬ r.call.vector < 256 ∧ t' = t ∧ r.code ≠ 0) := by
  have hexec : r.call.exec t = (t', r.code) := hstep
  rw [Call.exec_eq] at hexec
  split at hexec
  · rename_i hlt
    obtain ⟨rfl, hcode⟩ := Prod.mk.inj hexec
    exact .inl ⟨hlt, rfl, hcode.symm⟩
  · rename_i hlarge
    obtain ⟨rfl, hcode⟩ := Prod.mk.inj hexec
    exact .inr ⟨hlarge, rfl, by omega⟩

theorem registered_snoc (rs : List Registration) (r : Registration) :
    registered (rs ++ [r]) =
      if r.code = 0 then registered rs ++ [(r.call.vector, r.call.isr)] else registered rs := by
  rw [registered, List.filter_append, List.map_append]
  by_cases hcode : r.code = 0
  · simp [hcode, registered]
  · simp [hcode, registered]

theorem run_apply {rs : List Registration} (hrun : (idtSystem h).Run rs t) :
    ∀ v < 256, t v = intrGate ((lastWrite (registered rs) v).getD (initialHandler h v)) := by
  refine hrun.history (P := fun rs t => ∀ v < 256,
    t v = intrGate ((lastWrite (registered rs) v).getD (initialHandler h v))) ?_ ?_
  · rintro t ⟨mem, rfl⟩ v hv
    exact idtInit_apply h mem hv
  · intro rs t r t' ih hstep v hv
    rw [registered_snoc]
    obtain ⟨-, rfl, hcode⟩ | ⟨-, rfl, hcode⟩ := step_cases hstep
    · rw [if_pos hcode, lastWrite_snoc]
      dsimp only
      by_cases hvec : r.call.vector = v
      · rw [if_pos hvec, ← hvec, Function.update_self, Option.getD_some]
      · rw [if_neg hvec, Function.update_of_ne (Ne.symm hvec), ih v hv]
    · rw [if_neg hcode]
      exact ih v hv

/-- The default of a vector is not its own handler at 41 and at 42. -/
theorem defaultHandler_eq_iff (h : Handlers) (v : Nat) :
    defaultHandler h v = initialHandler h v ↔ v ≠ 41 ∧ v ≠ 42 := by
  rw [initialHandler]
  by_cases h41 : v = 41
  · subst h41
    have hne : h.isr 41 ≠ h.isr 42 := fun heq =>
      absurd (h.isr_inj 41 42 (by decide) (by decide) (by decide) (by decide) heq) (by decide)
    exact iff_of_false hne (by decide)
  by_cases h42 : v = 42
  · subst h42
    exact iff_of_false (h.isr_ne_null 42 (by decide) (by decide)) (by decide)
  · rw [if_neg h41, if_neg h42]
    exact iff_of_true rfl ⟨h41, h42⟩

theorem registered_isSome_iff {rs : List Registration} (hrun : (idtSystem h).Run rs t)
    (hv : v < 256) :
    (lastWrite (registered rs) v).isSome ↔ ∃ r ∈ rs, r.call.vector = v := by
  refine hrun.history (P := fun rs _ =>
    (lastWrite (registered rs) v).isSome ↔ ∃ r ∈ rs, r.call.vector = v) ?_ ?_
  · exact fun _ _ => ⟨fun h => (Bool.false_ne_true h).elim, fun ⟨r, hr, _⟩ => by cases hr⟩
  · intro rs t r t' ih hstep
    have hsplit : (∃ r' ∈ rs ++ [r], r'.call.vector = v) ↔
        (∃ r' ∈ rs, r'.call.vector = v) ∨ r.call.vector = v := by
      simp [or_and_right, exists_or]
    rw [registered_snoc, hsplit, ← ih]
    obtain ⟨-, -, hcode⟩ | ⟨hlarge, -, hcode⟩ := step_cases hstep
    · rw [if_pos hcode, lastWrite_snoc]
      by_cases hvec : r.call.vector = v
      · exact iff_of_true (by rw [if_pos hvec]; rfl) (.inr hvec)
      · rw [if_neg hvec]
        exact (or_iff_left hvec).symm
    · rw [if_neg hcode]
      exact (or_iff_left (by omega)).symm

theorem decodes_iff {rs : List Registration} (hrun : (idtSystem h).Run rs t) (hv : v < 256) :
    (t v).Decodes (expected h rs v) ↔
      (v ≠ 41 ∧ v ≠ 42) ∨ ∃ r ∈ rs, r.call.vector = v := by
  rw [← registered_isSome_iff hrun hv, run_apply hrun v hv, intrGate_decodes_iff, expected]
  cases hlast : lastWrite (registered rs) v with
  | none =>
      rw [Option.getD_none, Option.getD_none, defaultHandler_eq_iff]
      exact (or_iff_left (by decide)).symm
  | some isr => exact iff_of_true rfl (.inr rfl)

theorem step_other {r : Registration} {t' : Table} (hstep : (idtSystem h).step t r t')
    (hv : v ≠ r.call.vector) : t' v = t v := by
  obtain ⟨-, rfl, -⟩ | ⟨-, rfl, -⟩ := step_cases hstep
  · exact Function.update_of_ne hv _ _
  · rfl

end

/-- Vectors 41 and 42 have the right handlers once they have been registered,
all other vectors always. -/
theorem tableRight_iff {h : Handlers} {rs : List Registration} {t : Table}
    (hrun : (idtSystem h).Run rs t) :
    (TableRight h rs t ↔
      (∃ r ∈ rs, r.call.vector = 41) ∧ ∃ r ∈ rs, r.call.vector = 42) ∧
    ∀ v < 256, (t v).Decodes (expected h rs v) ↔
      (v ≠ 41 ∧ v ≠ 42) ∨ ∃ r ∈ rs, r.call.vector = v := by
  refine ⟨⟨fun hright => ?_, ?_⟩, fun v hv => decodes_iff hrun hv⟩
  · have h41 := (decodes_iff hrun (by decide)).mp (hright.decodes 41 (by decide))
    have h42 := (decodes_iff hrun (by decide)).mp (hright.decodes 42 (by decide))
    exact ⟨h41.resolve_left (by decide), h42.resolve_left (by decide)⟩
  · rintro ⟨h41, h42⟩
    refine ⟨fun v hv => (decodes_iff hrun hv).mpr ?_, fun r t' hstep v hv => step_other hstep hv⟩
    by_cases hv41 : v = 41
    · exact .inr (hv41 ▸ h41)
    by_cases hv42 : v = 42
    · exact .inr (hv42 ▸ h42)
    · exact .inl ⟨hv41, hv42⟩

def sampleHandlers : Handlers where
  exceptionHandler := 0x8000
  isr v := UInt32.ofNat (0x9000 + v)
  isr_ne_null v hlo hhi := by interval_cases v <;> decide
  isr_inj v w _ hv _ hw heq := by
    have hsize : UInt32.size = 4294967296 := rfl
    have hval : ∀ u ≤ 47, (UInt32.ofNat (0x9000 + u)).toNat = 0x9000 + u := fun u hu =>
      UInt32.toNat_ofNat_of_lt' (by omega)
    have hnat := congrArg UInt32.toNat heq
    rw [hval v hv, hval w hw] at hnat
    omega

def nullTable : Table := fun _ => ⟨0, 0, 0, ⟨0, 0, 0, 0⟩, 0⟩

theorem tableRight_iff_init :
    (idtSystem sampleHandlers).Run [] (idtInit sampleHandlers nullTable) ∧
      ((TableRight sampleHandlers [] (idtInit sampleHandlers nullTable) ↔
        (∃ r ∈ ([] : List Registration), r.call.vector = 41) ∧
          ∃ r ∈ ([] : List Registration), r.call.vector = 42) ∧
      ∀ v < 256, (idtInit sampleHandlers nullTable v).Decodes (expected sampleHandlers [] v) ↔
        (v ≠ 41 ∧ v ≠ 42) ∨ ∃ r ∈ ([] : List Registration), r.call.vector = v) :=
  ⟨.init ⟨nullTable, rfl⟩, tableRight_iff (.init ⟨nullTable, rfl⟩)⟩

/-- Vector 42 is null after the initialization. -/
theorem vector42_null :
    (idtSystem sampleHandlers).Run [] (idtInit sampleHandlers nullTable) ∧
      ¬ TableRight sampleHandlers [] (idtInit sampleHandlers nullTable) := by
  refine ⟨.init ⟨nullTable, rfl⟩, fun h => ?_⟩
  have h42 := h.decodes 42 (by decide)
  rw [idtInit_apply _ _ (by decide), intrGate_decodes_iff] at h42
  exact absurd h42 (by decide)

end Kboot86.Idt
