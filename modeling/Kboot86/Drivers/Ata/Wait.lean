import Kboot86.Drivers.Ata.Address

/-!
# Waiting for the sector

After its command a read waits for a status with DRQ set and BSY clear, and
only in that one does it look at ERR. A drive that reports an error and has no
data to transfer is waited for without end.
-/

namespace Kboot86.Ata.Port

def ready (status : UInt8) : Bool := drq status && !bsy status

def ReadyAt (bus : Bus) (s : State) (k : Nat) : Prop :=
  ready (bus.status (s.statusReads + k)) = true ∧
    ∀ j < k, ready (bus.status (s.statusReads + j)) = false

section

variable {bus : Bus} {fuel fuel' : Nat} {s s' s₁ : State} {cylNum headNum secNum : UInt32}

theorem BusyFor.unique {j k : Nat} (hj : BusyFor bus s j) (hk : BusyFor bus s k) : j = k := by
  rcases Nat.lt_trichotomy j k with hlt | heq | hlt
  · have htrue := hk.2 j hlt
    rw [hj.1] at htrue
    cases htrue
  · exact heq
  · have htrue := hj.2 k hlt
    rw [hk.1] at htrue
    cases htrue

/-- However many reads a poll may take, the command is issued in the same
state. -/
theorem issueRead_unique
    (h : bus.hardware.issueRead fuel cylNum headNum secNum s = .ok (0, s₁)) {code : Int}
    (h' : bus.hardware.issueRead fuel' cylNum headNum secNum s = .ok (code, s')) :
    code = 0 ∧ s' = s₁ := by
  obtain ⟨hrange, hdrq, k, hk, rfl⟩ := issued_of_issueRead h
  obtain rfl := issueRead_code hrange hdrq h'
  obtain ⟨-, -, k', hk', rfl⟩ := issued_of_issueRead h'
  obtain rfl := hk.unique hk'
  exact ⟨rfl, rfl⟩

theorem issued_buf (h : bus.hardware.issueRead fuel cylNum headNum secNum s = .ok (0, s₁)) :
    s₁.buf = s.buf := by
  obtain ⟨-, -, k, -, rfl⟩ := issued_of_issueRead h
  rfl

/-! ### From the command on -/

theorem serviceRead_eq (bus : Bus) (fuel : Nat) (s : State) :
    bus.hardware.serviceRead fuel s =
      match bus.hardware.pollStatus fuel ready s with
      | .ok (status, s') =>
          if err status then .ok (1, s')
          else (bus.hardware.readBufferData fuel 256 0 >>= fun _ => pure 0) s'
      | .error e => .error e := by
  have hpoll : bus.hardware.serviceRead fuel = bus.hardware.pollStatus fuel ready >>= fun status =>
      if err status then pure 1
      else bus.hardware.readBufferData fuel 256 0 >>= fun _ => pure 0 := rfl
  rw [hpoll, Exec.bind_apply]
  cases bus.hardware.pollStatus fuel ready s with
  | error e => rfl
  | ok r =>
      dsimp only
      split <;> rfl

theorem error_of_serviceRead (h : bus.hardware.serviceRead fuel s = .ok (1, s')) :
    ∃ k, ReadyAt bus s k ∧ err (bus.status (s.statusReads + k)) = true := by
  rw [serviceRead_eq] at h
  cases hpoll : bus.hardware.pollStatus fuel ready s with
  | error e =>
      rw [hpoll] at h
      cases h
  | ok r =>
      obtain ⟨k, hready, hbefore, hstatus, -⟩ := pollStatus_eq_ok hpoll
      refine ⟨k, ⟨hready, hbefore⟩, ?_⟩
      rw [hpoll] at h
      by_contra hno
      dsimp only at h
      rw [hstatus, if_neg hno] at h
      -- The loop over the words ends with 0.
      obtain ⟨u, s₂, -, hpure⟩ := Exec.bind_eq_ok.mp h
      cases hpure

theorem serviceRead_error {k : Nat} (hready : ReadyAt bus s k)
    (herr : err (bus.status (s.statusReads + k)) = true) (hk : k < fuel) :
    bus.hardware.serviceRead fuel s = .ok (1, s.afterReads (k + 1)) := by
  rw [serviceRead_eq, pollStatus_first hk hready.1 hready.2]
  exact if_pos herr

theorem serviceRead_stuck (h : ∀ k, ready (bus.status (s.statusReads + k)) = false) :
    bus.hardware.serviceRead fuel s = .error .stuck := by
  have hpoll : bus.hardware.pollStatus fuel ready s = .error .stuck :=
    Exec.pollUntil_fault (observes_readStatus s) fun k _ => h k
  rw [serviceRead_eq, hpoll]

theorem ataReadSectorChs_of_issued
    (h : bus.hardware.issueRead fuel cylNum headNum secNum s = .ok (0, s₁)) :
    ∃ n, ∀ m ≥ n, bus.hardware.ataReadSectorChs m cylNum headNum secNum s =
      bus.hardware.serviceRead m s₁ := by
  obtain ⟨hrange, hdrq, k, hbusy, rfl⟩ := issued_of_issueRead h
  refine ⟨k + 1, fun m hm => ?_⟩
  rw [Hardware.ataReadSectorChs_eq, Exec.bind_apply, issueRead_issued hrange hdrq hbusy hm]
  rfl

/-- A read that has issued its command returns 1, with nothing stored, exactly
when the first status with DRQ set and BSY clear has ERR set. -/
theorem ataReadSectorChs_error_iff
    (h : bus.hardware.issueRead fuel cylNum headNum secNum s = .ok (0, s₁)) :
    (∃ fuel s', bus.hardware.ataReadSectorChs fuel cylNum headNum secNum s = .ok (1, s') ∧
      s'.buf = s.buf) ↔
      ∃ k, ReadyAt bus s₁ k ∧ err (bus.status (s₁.statusReads + k)) = true := by
  constructor
  · rintro ⟨fuel', s', hrun, -⟩
    rw [Hardware.ataReadSectorChs_eq] at hrun
    obtain ⟨code, s₂, hissue, hrest⟩ := Exec.bind_eq_ok.mp hrun
    obtain ⟨rfl, rfl⟩ := issueRead_unique h hissue
    exact error_of_serviceRead hrest
  · rintro ⟨k, hready, herr⟩
    obtain ⟨n, hn⟩ := ataReadSectorChs_of_issued h
    have hbuf : s₁.buf = s.buf := issued_buf h
    refine ⟨max n (k + 1), s₁.afterReads (k + 1), ?_, hbuf⟩
    rw [hn _ (le_max_left _ _)]
    exact serviceRead_error hready herr (le_max_right n (k + 1))

end

def errorBus (status : UInt8) : Bus := ⟨fun k => if k < 2 then 0x40 else status, fun _ => 0⟩

theorem issueRead_errorBus (status : UInt8) (n : Nat) :
    (errorBus status).hardware.issueRead (n + 1) 0 0 1 startState =
      .ok (0, startState.issued 0 0 1 0) := by
  have hrange : InRange 0 0 1 := inRange_iff.mpr (by decide)
  have hidle : ∀ k < 2, (errorBus status).status k = 0x40 := fun k hk => if_pos hk
  have hdrq : drq ((errorBus status).status startState.statusReads) = false := by
    rw [hidle _ (by decide)]
    decide
  have hbusy : BusyFor (errorBus status) startState 0 := by
    refine ⟨?_, fun j hj => absurd hj (Nat.not_lt_zero j)⟩
    rw [hidle _ (by decide)]
    decide
  exact issueRead_issued hrange hdrq hbusy (Nat.zero_lt_succ n)

theorem status_errorBus (status : UInt8) (k : Nat) :
    (errorBus status).status ((startState.issued 0 0 1 0).statusReads + k) = status := by
  have hcount : (startState.issued 0 0 1 0).statusReads = 2 := rfl
  rw [hcount]
  exact if_neg (by omega)

theorem ataReadSectorChs_error_drq :
    ∃ fuel s', (errorBus 0x49).hardware.ataReadSectorChs fuel 0 0 1 startState = .ok (1, s') ∧
      s'.buf = startState.buf := by
  refine (ataReadSectorChs_error_iff (issueRead_errorBus 0x49 0)).mpr
    ⟨0, ⟨?_, fun j hj => absurd hj (Nat.not_lt_zero j)⟩, ?_⟩
  · rw [status_errorBus]
    decide
  · rw [status_errorBus]
    decide

/-- A drive that answers the command with BSY and DRQ clear and ERR set, and
stays so: no number of reads is enough. -/
theorem ataReadSectorChs_error_hangs :
    (∃ s₁, (errorBus 0x41).hardware.issueRead 1 0 0 1 startState = .ok (0, s₁) ∧
      ∀ k, bsy ((errorBus 0x41).status (s₁.statusReads + k)) = false ∧
        err ((errorBus 0x41).status (s₁.statusReads + k)) = true) ∧
      ∀ fuel, (errorBus 0x41).hardware.ataReadSectorChs fuel 0 0 1 startState = .error .stuck := by
  refine ⟨⟨_, issueRead_errorBus 0x41 0, fun k => ?_⟩, fun fuel => ?_⟩
  · rw [status_errorBus]
    decide
  · cases fuel with
    | zero => rfl
    | succ n =>
        have hwait : (errorBus 0x41).hardware.serviceRead (n + 1) (startState.issued 0 0 1 0) =
            .error .stuck := serviceRead_stuck fun k => by
          rw [status_errorBus]
          decide
        rw [Hardware.ataReadSectorChs_eq, Exec.bind_apply, issueRead_errorBus]
        exact hwait

end Kboot86.Ata.Port
