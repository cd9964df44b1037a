import Kboot86.Drivers.Ata
import Kboot86.Foundation.ByteWord

/-!
# The master boot record

The partition table of sector 0 and the in-memory copy of it, from `mbr.c`.
`mbr_init` makes every entry invalid, reads sector 0 and then takes the entries
one after the other; the code of `_set_partition_info` is not looked at, so a
second bootable partition is left invalid and the loop goes on.
-/

namespace Kboot86.Mbr

abbrev PartitionEntry := Nat → UInt8

namespace PartitionEntry

def status (pe : PartitionEntry) : UInt8 := pe 0

def firstLba (pe : PartitionEntry) : UInt32 := UInt32.ofNat (le32 pe 8)

def numSectors (pe : PartitionEntry) : UInt32 := UInt32.ofNat (le32 pe 12)

end PartitionEntry

/-- Entry `i` of the table, which follows 436 bytes of code and 10 bytes of
identification. -/
def partition (mbr : Sector) (i : Nat) : PartitionEntry := fun k => mbr (446 + 16 * i + k)

structure State where
  partitionEntry : Fin 4 → Mpe
  bootablePartitionFound : Bool

def State.zero : State := ⟨fun _ => ⟨false, false, 0, 0⟩, false⟩

def State.setEntry (s : State) (pnum : Fin 4) (e : Mpe) : State :=
  { s with partitionEntry := Function.update s.partitionEntry pnum e }

def isAllZero (pe : PartitionEntry) : Bool := (List.range 16).all fun i => pe i == 0

def isBootable (pe : PartitionEntry) : Bool := 0x80 == pe.status

def setPartitionInfo (s : State) (pnum : Fin 4) (pe : PartitionEntry) : State × Int :=
  if isAllZero pe then
    (s.setEntry pnum { s.partitionEntry pnum with valid := false }, 0)
  else
    let e : Mpe := { s.partitionEntry pnum with
      startingSecLba := pe.firstLba
      numSecs := pe.numSectors }
    if isBootable pe then
      if s.bootablePartitionFound then (s.setEntry pnum e, 1)
      else
        ({ s.setEntry pnum { e with bootable := true, valid := true } with
            bootablePartitionFound := true }, 0)
    else (s.setEntry pnum { e with bootable := false, valid := true }, 0)

/-- The first loop of `mbr_init`. -/
def State.invalidate (s : State) : State :=
  { s with partitionEntry := fun i => { s.partitionEntry i with valid := false } }

/-- The second loop of `mbr_init`. -/
def State.load (s : State) (mbr : Sector) : State :=
  (List.finRange 4).foldl (fun s i => (setPartitionInfo s i (partition mbr i.val)).1)
    { s with bootablePartitionFound := false }

def mbrInit (dev : Ata.Device) (id : Ata.IdData) (s : State) :
    Except DivideError (State × Int) := do
  match ← Ata.ataReadSectorLba dev id 0 with
  | none => pure (s.invalidate, 1)
  | some mbr => pure (s.invalidate.load mbr, 0)

/-- The valid entries hold the fields of the table. -/
def State.Copies (s : State) (mbr : Sector) : Prop :=
  ∀ i : Fin 4, (s.partitionEntry i).valid = true →
    (s.partitionEntry i).startingSecLba = (partition mbr i.val).firstLba ∧
      (s.partitionEntry i).numSecs = (partition mbr i.val).numSectors

theorem State.Copies.setEntry {s : State} {mbr : Sector} (h : s.Copies mbr) (pnum : Fin 4)
    {e : Mpe} (he : e.valid = true → e.startingSecLba = (partition mbr pnum.val).firstLba ∧
      e.numSecs = (partition mbr pnum.val).numSectors) : (s.setEntry pnum e).Copies mbr := by
  intro i hi
  by_cases hip : i = pnum
  · subst hip
    simp only [State.setEntry, Function.update_self] at hi ⊢
    exact he hi
  · simp only [State.setEntry, Function.update_of_ne hip] at hi ⊢
    exact h i hi

theorem State.Copies.setPartitionInfo {s : State} {mbr : Sector} (h : s.Copies mbr)
    (pnum : Fin 4) : (setPartitionInfo s pnum (partition mbr pnum.val)).1.Copies mbr := by
  unfold Mbr.setPartitionInfo
  split
  · exact h.setEntry pnum fun hv => by cases hv
  · dsimp only
    split
    · split
      · exact h.setEntry pnum fun _ => ⟨rfl, rfl⟩
      · exact h.setEntry pnum fun _ => ⟨rfl, rfl⟩
    · exact h.setEntry pnum fun _ => ⟨rfl, rfl⟩

theorem State.Copies.foldl {s : State} {mbr : Sector} (h : s.Copies mbr) (l : List (Fin 4)) :
    (l.foldl (fun s i => (Mbr.setPartitionInfo s i (partition mbr i.val)).1) s).Copies mbr := by
  induction l generalizing s with
  | nil => exact h
  | cons i l ih => exact ih (h.setPartitionInfo i)

theorem State.invalidate_valid (s : State) (i : Fin 4) :
    (s.invalidate.partitionEntry i).valid = false := rfl

theorem State.load_copies (s : State) (mbr : Sector) : (s.invalidate.load mbr).Copies mbr := by
  refine State.Copies.foldl (fun i hi => ?_) _
  have hv := s.invalidate_valid i
  rw [State.invalidate] at hv
  rw [State.invalidate, hv] at hi
  cases hi

end Kboot86.Mbr
