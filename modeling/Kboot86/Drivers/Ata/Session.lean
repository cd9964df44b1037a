import Kboot86.Drivers.Ata.Serve
import Kboot86.Foundation.Transition

/-!
# Sessions with a drive

`ata_init` brings a drive from any state to where it waits for a command, and
takes its geometry and the name of its model from what it identifies itself
with. The reads of the session that follows are those of the model without
ports, and the drive is never used against its protocol.
-/

namespace Kboot86.Ata

/-! ### The strings of the identification -/

section

variable {b : Nat → UInt8} {p : Nat → UInt16}

theorem bytesOf_even (p : Nat → UInt16) (i : Nat) : bytesOf p (2 * i) = (p i).toUInt8 := by
  rw [bytesOf, if_pos (by omega), Nat.mul_div_cancel_left _ (by decide)]

theorem bytesOf_odd (p : Nat → UInt16) (i : Nat) :
    bytesOf p (2 * i + 1) = (p i >>> 8).toUInt8 := by
  have hdiv : (2 * i + 1) / 2 = i := by omega
  rw [bytesOf, if_neg (by omega), hdiv]

theorem wordsOf_toNat (b : Nat → UInt8) (i : Nat) : (wordsOf b i).toNat = le16 b (2 * i) :=
  UInt16.toNat_ofNat_of_lt' (le16_lt b _)

theorem wordsOf_bytesOf (p : Nat → UInt16) : wordsOf (bytesOf p) = p := by
  funext i
  have hlt := (p i).toNat_lt
  rw [← UInt16.toNat_inj, wordsOf_toNat, le16, bytesOf_even, bytesOf_odd, UInt16.toNat_toUInt8,
    UInt16.toNat_toUInt8, UInt16.toNat_shiftRight]
  change (p i).toNat % 256 + 256 * ((p i).toNat >>> 8 % 256) = _
  rw [Nat.shiftRight_eq_div_pow]
  omega

theorem bytesOf_wordsOf (b : Nat → UInt8) : bytesOf (wordsOf b) = b := by
  funext a
  have hlow := (b (2 * (a / 2))).toNat_lt
  have hhigh := (b (2 * (a / 2) + 1)).toNat_lt
  rcases Nat.mod_two_eq_zero_or_one a with ha | ha
  · obtain ⟨i, rfl⟩ : ∃ i, a = 2 * i := ⟨a / 2, by omega⟩
    rw [Nat.mul_div_cancel_left _ (by decide)] at hlow hhigh
    rw [bytesOf_even, ← UInt8.toNat_inj, UInt16.toNat_toUInt8, wordsOf_toNat, le16]
    omega
  · obtain ⟨i, rfl⟩ : ∃ i, a = 2 * i + 1 := ⟨a / 2, by omega⟩
    have hdiv : (2 * i + 1) / 2 = i := by omega
    rw [hdiv] at hlow hhigh
    rw [bytesOf_odd, ← UInt8.toNat_inj, UInt16.toNat_toUInt8, UInt16.toNat_shiftRight,
      wordsOf_toNat, le16]
    change ((b (2 * i)).toNat + 256 * (b (2 * i + 1)).toNat) >>> 8 % 256 = _
    rw [Nat.shiftRight_eq_div_pow]
    omega

theorem swapStrBytesFrom_apply (str n i : Nat) (b : Nat → UInt8) (a : Nat) :
    swapStrBytesFrom str n i b a =
      if str + i ≤ a ∧ a < str + i + 2 * n then
        if (a - (str + i)) % 2 = 0 then b (a + 1) else b (a - 1)
      else b a := by
  induction n generalizing i b with
  | zero => rw [swapStrBytesFrom, if_neg (by omega)]
  | succ n ih =>
      rw [swapStrBytesFrom, ih]
      by_cases hfirst : a = str + i
      · subst hfirst
        rw [if_neg (by omega), Function.update_of_ne (by omega), Function.update_self,
          if_pos (by omega), if_pos (by omega)]
      by_cases hsecond : a = str + i + 1
      · subst hsecond
        rw [if_neg (by omega), Function.update_self, if_pos (by omega), if_neg (by omega)]
        rfl
      by_cases hin : str + (i + 2) ≤ a ∧ a < str + (i + 2) + 2 * n
      · have hout : str + i ≤ a ∧ a < str + i + 2 * (n + 1) := by omega
        have hparity : (a - (str + (i + 2))) % 2 = (a - (str + i)) % 2 := by omega
        rw [if_pos hin, if_pos hout, hparity]
        by_cases heven : (a - (str + i)) % 2 = 0
        · rw [if_pos heven, if_pos heven, Function.update_of_ne (by omega),
            Function.update_of_ne (by omega)]
        · rw [if_neg heven, if_neg heven, Function.update_of_ne (by omega),
            Function.update_of_ne (by omega)]
      · rw [if_neg hin, if_neg (by omega), Function.update_of_ne hsecond,
          Function.update_of_ne hfirst]

theorem strncpyFrom_apply (src : Nat → UInt8) (n i : Nat) (dest : Nat → UInt8) {k : Nat}
    (hk : i ≤ k ∧ k < i + n) (hsrc : ∀ j, i ≤ j → j < k → src j ≠ 0) :
    strncpyFrom src n i dest k = src k := by
  have hpast : ∀ (n i : Nat) (dest : Nat → UInt8), k < i →
      strncpyFrom src n i dest k = dest k := by
    intro n
    induction n with
    | zero => intro i dest _; rfl
    | succ n ih =>
        intro i dest hlt
        rw [strncpyFrom]
        split
        · exact Function.update_of_ne (by omega) _ _
        · rw [ih _ _ (by omega), Function.update_of_ne (by omega)]
  induction n generalizing i dest with
  | zero => omega
  | succ n ih =>
      rw [strncpyFrom]
      by_cases hki : k = i
      · subst hki
        split
        · exact Function.update_self _ _ _
        · rw [hpast _ _ _ (Nat.lt_succ_self k), Function.update_self]
      · rw [if_neg (hsrc i le_rfl (by omega))]
        exact ih (i + 1) _ (by omega) fun j hj => hsrc j (by omega)

/-- Character `k` of a string of the identification, which begins with the high
byte of a word. -/
def idChar (p : Nat → UInt16) (off k : Nat) : UInt8 :=
  if k % 2 = 0 then (p (off + k / 2) >>> 8).toUInt8 else (p (off + k / 2)).toUInt8

def swapped (p : Nat → UInt16) : Nat → UInt8 :=
  swapStrBytes (2 * serialNumberStrOff) serialNumberStrLen
    (swapStrBytes (2 * modelNumberStrOff) modelNumberStrLen (bytesOf p))

theorem swapped_other (p : Nat → UInt16) {a : Nat} (h : a < 20 ∨ 94 ≤ a) :
    swapped p a = bytesOf p a := by
  have hserial : (serialNumberStrLen + 1) / 2 = 10 ∧ 2 * serialNumberStrOff = 20 := by decide
  have hmodel : (modelNumberStrLen + 1) / 2 = 20 ∧ 2 * modelNumberStrOff = 54 := by decide
  rw [swapped, swapStrBytes, swapStrBytes, hserial.1, hserial.2, hmodel.1, hmodel.2,
    swapStrBytesFrom_apply, if_neg (by omega), swapStrBytesFrom_apply, if_neg (by omega)]

theorem swapped_model (p : Nat → UInt16) {k : Nat} (hk : k < 40) :
    swapped p (54 + k) = idChar p 27 k := by
  have hserial : (serialNumberStrLen + 1) / 2 = 10 ∧ 2 * serialNumberStrOff = 20 := by decide
  have hmodel : (modelNumberStrLen + 1) / 2 = 20 ∧ 2 * modelNumberStrOff = 54 := by decide
  rw [swapped, swapStrBytes, swapStrBytes, hserial.1, hserial.2, hmodel.1, hmodel.2,
    swapStrBytesFrom_apply, if_neg (by omega), swapStrBytesFrom_apply, if_pos (by omega), idChar]
  rcases Nat.mod_two_eq_zero_or_one k with hk2 | hk2
  · have ha : 54 + k + 1 = 2 * (27 + k / 2) + 1 := by omega
    rw [if_pos (by omega), if_pos hk2, ha, bytesOf_odd]
  · have ha : 54 + k - 1 = 2 * (27 + k / 2) := by omega
    rw [if_neg (by omega), if_neg (by omega), ha, bytesOf_even]

/-- What is taken from the sector after the strings have been swapped. -/
structure Identity.Of (p : Nat → UInt16) (id : Identity) : Prop where
  data : id.data = setIdentifyData p
  model : ∀ k < modelNumberStrLen, (∀ j < k, idChar p modelNumberStrOff j ≠ 0) →
    id.modelNumber k = idChar p modelNumberStrOff k
  terminated : id.modelNumber modelNumberStrLen = 0

theorem Identity.Of.congr {p q : Nat → UInt16} {id : Identity} (h : id.Of p)
    (hpq : ∀ i < 256, q i = p i) : id.Of q := by
  have hchar : ∀ k < 40, idChar q 27 k = idChar p 27 k := fun k hk => by
    rw [idChar, idChar, hpq _ (by omega)]
  refine ⟨?_, fun k hk hchars => ?_, h.terminated⟩
  · rw [h.data, setIdentifyData, setIdentifyData, hpq 58 (by decide), hpq 57 (by decide),
      hpq 1 (by decide), hpq 3 (by decide), hpq 6 (by decide)]
  · have hk40 : k < 40 := hk
    refine (h.model k hk fun j hj => ?_).trans (hchar k hk40).symm
    exact (hchar j (by omega)).symm.trans_ne (hchars j hj)

theorem identityOf_swapped (p : Nat → UInt16) (old : Identity) :
    Identity.Of p (identityOf (wordsOf (swapped p)) old) := by
  have hword : ∀ i, i < 10 ∨ 47 ≤ i → wordsOf (swapped p) i = p i := fun i hi => by
    have hsame := congrFun (wordsOf_bytesOf p) i
    rw [wordsOf, le16] at hsame
    rw [wordsOf, le16, swapped_other p (by omega), swapped_other p (by omega)]
    exact hsame
  refine ⟨?_, fun k hk hchars => ?_, ?_⟩
  · change setIdentifyData (wordsOf (swapped p)) = _
    rw [setIdentifyData, setIdentifyData, hword 58 (by decide), hword 57 (by decide),
      hword 1 (by decide), hword 3 (by decide), hword 6 (by decide)]
  · have hsrc : ∀ j < 40, bytesOf (wordsOf (swapped p)) (2 * 27 + j) = idChar p 27 j :=
      fun j hj => by rw [bytesOf_wordsOf, ← swapped_model p hj]
    have hk40 : k < 40 := hk
    rw [identityOf]
    dsimp only
    rw [Function.update_of_ne (Nat.ne_of_lt hk), strncpy,
      strncpyFrom_apply _ _ _ _ ⟨Nat.zero_le k, by omega⟩ fun j _ hj => ?_]
    · exact hsrc k hk40
    · rw [hsrc j (by omega)]
      exact hchars j hj
  · simp only [identityOf, Function.update_self]

end

namespace Drive

variable {disk : Disk} {b : Bench}

def afterReset (disk : Disk) (d : Drive) : Drive :=
  { d with drvHd := 0, wait := disk.resetWait, phase := .idle }

theorem ends_reset (disk : Disk) (b : Bench) :
    Exec.Ends (fun fuel => (hardware disk).reset fuel) b
      (.ok ((), (b.withDrive (b.drive.afterReset disk)).settled)) := by
  have hheld : b.drive.outb disk controlPort srst = { b.drive with wait := 0, phase := .held } := by
    rw [outb]
    rfl
  have hfree : ({ b.drive with wait := 0, phase := .held } : Drive).outb disk controlPort 0 =
      b.drive.afterReset disk := rfl
  have hpoll : Exec.Ends (fun fuel => (hardware disk).pollStatus fuel fun status => !bsy status)
      (b.withDrive (b.drive.afterReset disk))
      (.ok (0x40, (b.withDrive (b.drive.afterReset disk)).settled)) :=
    ends_pollStatus (by decide) (by change (!bsy 0x40) = true; decide)
  have hwait : Exec.Ends
      (fun fuel => (hardware disk).pollStatus fuel (fun status => !bsy status) >>= fun _ => pure ())
      (b.withDrive (b.drive.afterReset disk))
      (.ok ((), (b.withDrive (b.drive.afterReset disk)).settled)) :=
    hpoll.bind (Exec.ends_of_eq fun _ => rfl)
  refine Exec.ends_congr (fun fuel => ?_) hwait
  rw [Hardware.reset]
  refine Eq.trans (bind_out _ hheld) ?_
  exact bind_out _ hfree

theorem afterReset_ready (h : b.drive.misused = false) :
    (b.withDrive (b.drive.afterReset disk)).settled.drive.Ready :=
  ⟨rfl, rfl, UInt8.zero_and, h⟩

theorem ends_ataSelectDrive (h : b.drive.Ready) (hhd : b.drive.drvHd = 0) :
    Exec.Ends (fun fuel => (hardware disk).ataSelectDrive fuel 0) b (.ok (0, b)) := by
  have hself : b.withDrive { b.drive with drvHd := 0 } = b := by
    rw [Bench.withDrive, ← hhd]
  have hread : (hardware disk).readStatus b = .ok (0x40, b) := by
    rw [readStatus_eq, h.status, h.afterReads]
  have hstatus : b.drive.phase.status = 0x40 := by
    rw [h.phase]
    rfl
  have hpoll : Exec.Ends (fun fuel => (hardware disk).pollStatus fuel rdy) b (.ok (0x40, b)) := by
    have hends : Exec.Ends (fun fuel => (hardware disk).pollStatus fuel rdy) b
        (.ok (b.drive.phase.status, b.settled)) :=
      ends_pollStatus (by decide) (by rw [hstatus]; decide)
    rwa [hstatus, h.settled] at hends
  have hselect : b.drive.drvHd &&& 0xef ||| ((0 : UInt32).toUInt8 &&& 1) <<< (4 : UInt8) = 0 := by
    rw [hhd]
    decide
  unfold Hardware.ataSelectDrive
  simp only [if_neg (show ¬ (0 : UInt32) > 1 by decide)]
  refine Exec.ends_congr (fun fuel => bind_readDrvHd _ h.accepts) ?_
  refine Exec.ends_congr (fun fuel => bind_out _ (outb_drvHd h.accepts _)) ?_
  rw [hselect, hself]
  refine Exec.ends_bind_of_eq hread (Exec.ends_bind_of_eq hread ?_)
  refine Exec.ends_bind_of_eq hread (Exec.ends_bind_of_eq hread ?_)
  exact hpoll.bind (Exec.ends_of_eq fun _ => rfl)

def identifying (disk : Disk) (d : Drive) : Drive :=
  let d := { d with secNum := 0, cylLo := 0, cylHi := 0 }
  d.start disk (d.answer disk cmdIdentify)

theorem identifying_phase (h : b.drive.Ready) :
    (b.drive.identifying disk).phase = .data disk.identify 0 := by
  have hsel : ({ b.drive with secNum := 0, cylLo := 0, cylHi := 0 } : Drive).selected = true :=
    selected_of_upper h.selected
  rw [identifying, start]
  dsimp only
  rw [answer, hsel]
  rfl

/-- The words of the identification, and what comes after them. -/
theorem ends_identifyData {α : Type} {f : Unit → Exec Hardware.Fault Bench α}
    {r : Except Hardware.Fault (α × Bench)} (hphase : b.drive.phase = .data disk.identify 0)
    (hf : f () (b.settled.filled disk.identify 0) = r) :
    Exec.Ends (fun fuel => do
      let _ ← (hardware disk).pollStatus fuel fun status => !bsy status
      let _ ← (hardware disk).pollStatus fuel drq
      let u ← (hardware disk).readBufferData fuel 256 0
      f u) b r := by
  have hstatus : b.drive.phase.status = 0x48 := by
    rw [hphase]
    rfl
  have hnotBusy : Exec.Ends
      (fun fuel => (hardware disk).pollStatus fuel fun status => !bsy status) b
      (.ok (0x48, b.settled)) := by
    rw [← hstatus]
    exact ends_pollStatus (by decide) (by rw [hstatus]; decide)
  have hdata : Exec.Ends (fun fuel => (hardware disk).pollStatus fuel drq) b.settled
      (.ok (0x48, b.settled)) := by
    rw [← hstatus]
    refine ends_pollStatus (by decide) ?_
    rw [Bench.settled, hstatus]
    decide
  exact hnotBusy.bind (hdata.bind ((ends_readBufferData (b := b.settled) 255 0 rfl hphase).bind
    (Exec.ends_of_eq fun _ => hf)))

/-- The identification leaves the drive ready, and is what it presents. -/
theorem ends_identify (disk : Disk) (h : b.drive.Ready) (hhd : b.drive.drvHd = 0) (old : Identity) :
    ∃ id b', Exec.Ends (fun fuel => (hardware disk).identify fuel 0 old) b (.ok ((id, 0), b')) ∧
      b'.drive.Ready ∧ id.Of disk.identify := by
  obtain ⟨b₁, hb₁⟩ : ∃ b₁, b₁ = b.withDrive (b.drive.identifying disk) := ⟨_, rfl⟩
  obtain ⟨b₂, hb₂⟩ : ∃ b₂, b₂ = (b₁.afterReads 1).settled.filled disk.identify 0 := ⟨_, rfl⟩
  have hready : (b.withDrive { b.drive with secNum := 0, cylLo := 0, cylHi := 0 }).drive.Ready :=
    ⟨h.wait, h.phase, h.selected, h.used⟩
  have hsend : Exec.Ends (fun fuel => (hardware disk).sendCmd fuel cmdIdentify)
      (b.withDrive { b.drive with secNum := 0, cylLo := 0, cylHi := 0 }) (.ok (0, b₁)) := by
    rw [hb₁]
    exact ends_sendCmd hready cmdIdentify
  have hphase : b₁.drive.phase = .data disk.identify 0 := by
    rw [hb₁]
    exact identifying_phase h
  have hthere : b₁.drive.status ≠ 0 := by
    rw [Drive.status, hphase]
    split
    · change (0x48 : UInt8) ≠ 0
      decide
    · decide
  refine ⟨identityOf (wordsOf (swapped b₂.buf)) old, b₂, ?_, ?_, ?_⟩
  · unfold Hardware.identify
    simp only [if_neg (show ¬ (0 : UInt32) ≠ 0 by decide)]
    refine (ends_ataSelectDrive h hhd).bind ?_
    simp only [if_neg (show ¬ (0 : Int) ≠ 0 by decide)]
    refine Exec.ends_congr (fun fuel => bind_out _ (outb_secNum h.accepts _)) ?_
    refine Exec.ends_congr (fun fuel => bind_out _ (outb_cylLo (by exact h.accepts) _)) ?_
    refine Exec.ends_congr (fun fuel => bind_out _ (outb_cylHi (by exact h.accepts) _)) ?_
    refine hsend.bind (Exec.ends_bind_of_eq (readStatus_eq disk b₁) ?_)
    simp only [if_neg hthere]
    exact ends_identifyData hphase (by rw [hb₂]; rfl)
  · rw [hb₂, hb₁]
    exact ⟨rfl, rfl, hready.selected, hready.used⟩
  · refine (identityOf_swapped b₂.buf old).congr fun i hi => ?_
    rw [hb₂]
    exact (if_pos ⟨Nat.zero_le i, hi⟩).symm

/-- `ata_init` brings the drive from any state to where it is ready. -/
theorem ends_ataInit (disk : Disk) (h : b.drive.misused = false) (old : Identity) :
    ∃ id b', Exec.Ends (fun fuel => (hardware disk).ataInit fuel old) b (.ok ((id, 0), b')) ∧
      b'.drive.Ready ∧ id.Of disk.identify := by
  obtain ⟨id, b', hends, hready, hid⟩ := ends_identify disk (afterReset_ready h) rfl old
  refine ⟨id, b', (ends_reset disk b).bind (hends.bind (Exec.ends_of_eq fun _ => rfl)), hready, hid⟩

/-- The drive with the buffer of the caller, and what the driver knows of it. -/
structure Session where
  bench : Bench
  id : Identity

/-- The reads after an `ata_init` of a drive in any state, with the code that
each returns. -/
def session (disk : Disk) : System Session (UInt32 × Int) where
  init s := ∃ (b : Bench) (old : Identity), b.drive.misused = false ∧
    Exec.Ends (fun fuel => (hardware disk).ataInit fuel old) b (.ok ((s.id, 0), s.bench))
  step s e s' := s'.id = s.id ∧
    Exec.Ends (fun fuel => (hardware disk).ataReadSectorLba fuel s.id.data e.1) s.bench
      (.ok (e.2, s'.bench))

theorem ReadsAs.ready {id : IdData} {lba : UInt32} {r : Except DivideError (Option Sector)}
    (hr : ReadsAs disk id b lba r) (h : b.drive.Ready) {code : Int} {b' : Bench}
    (hends : Exec.Ends (fun fuel => (hardware disk).ataReadSectorLba fuel id lba) b
      (.ok (code, b'))) : b'.drive.Ready := by
  rcases r with e | sec
  · cases e
    cases hends.unique hr
  · rcases sec with _ | sec
    · rcases hr with hr | ⟨-, hr⟩
      · cases hends.unique hr
        exact h
      · cases hends.unique hr
    · obtain ⟨b₁, hr, hready, -⟩ := hr
      cases hends.unique hr
      exact hready

/-- In every session the drive is used as its protocol asks, what is known of it
is its identification, and a read does what it does in the model without ports:
it faults there only where it faults here, it stores exactly the sector, it
returns 1 with nothing stored, or it waits without end for a sector that the
drive cannot read. -/
theorem session_refines {disk : Disk} {es : List (UInt32 × Int)} {s : Session}
    (hrun : (session disk).Run es s) :
    s.bench.drive.Ready ∧ s.id.Of disk.identify ∧
      (s.id.data, 0) = Ata.ataInit (device disk) IdData.zero ∧
      ∀ lba, ReadsAs disk s.id.data s.bench lba
        (Ata.ataReadSectorLba (device disk) s.id.data lba) := by
  have hboth : s.bench.drive.Ready ∧ s.id.Of disk.identify := by
    refine hrun.invariant (P := fun s => s.bench.drive.Ready ∧ s.id.Of disk.identify) ?_ ?_
    · rintro s ⟨b, old, hused, hends⟩
      obtain ⟨id, b', hends', hready, hid⟩ := ends_ataInit disk hused old
      obtain ⟨hid', rfl⟩ := Prod.mk.inj (Except.ok.inj (hends.unique hends'))
      obtain rfl : s.id = id := (Prod.mk.inj hid').1
      exact ⟨hready, hid⟩
    · rintro s e s' ⟨hready, hid⟩ ⟨hsame, hends⟩
      exact ⟨(readsAs hready s.id.data e.1).ready hready hends, hsame ▸ hid⟩
  obtain ⟨hready, hid⟩ := hboth
  refine ⟨hready, hid, ?_, fun lba => readsAs hready s.id.data lba⟩
  rw [hid.data]
  rfl

def sampleDisk : Disk where
  identify i := if i = 57 then 16 else if i = 27 then 0x4142 else if i < 8 then 2 else 0
  readSector regs := some fun a => if a = 0 then regs.secNum else 0x55
  resetWait := 3
  wordWait n i := n + i % 2

/-- A drive that another program has left in the middle of a transfer. -/
def sampleBench : Bench where
  drive := ⟨1, 2, 3, 4, 0xf0, 0, .data (fun _ => 0) 100, 7, false⟩
  buf _ := 0

/-- Sector 5 of that drive. -/
theorem session_refines_sample :
    ∃ s b', (session sampleDisk).Run [] s ∧
      Exec.Ends (fun fuel => (hardware sampleDisk).ataReadSectorLba fuel s.id.data 5) s.bench
        (.ok (0, b')) ∧ b'.buf 0 = 0x5502 := by
  obtain ⟨id, b, hends, -, -⟩ :=
    ends_ataInit sampleDisk (b := sampleBench) rfl ⟨IdData.zero, fun _ => 0⟩
  have hrun : (session sampleDisk).Run [] ⟨b, id⟩ := .init ⟨sampleBench, _, rfl, hends⟩
  obtain ⟨-, -, hdata, hreads⟩ := session_refines hrun
  have hread := hreads 5
  rw [(Prod.mk.inj hdata).1] at hread
  obtain ⟨b', hends', -, hbuf⟩ := hread
  refine ⟨⟨b, id⟩, b', hrun, ?_, (hbuf 0).trans rfl⟩
  rw [(Prod.mk.inj hdata).1]
  exact hends'

end Drive

end Kboot86.Ata
