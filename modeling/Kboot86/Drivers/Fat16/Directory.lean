import Kboot86.Drivers.Fat16.Volume

/-!
# The root directory

Directory entries, the comparison of an entry with a file name, and the search
of the root directory, from `fat16.c`. A file name is the list of its
characters without the terminating NUL.
-/

namespace Kboot86.Fat16

abbrev DirEntry := Nat → UInt8

def fileBasenameLen : Nat := 8

def fileExtensionLen : Nat := 3

def dirEntriesPerSector : Nat := sectorSize / dirEntrySize

namespace DirEntry

def basename (de : DirEntry) : Nat → UInt8 := de

def extension (de : DirEntry) : Nat → UInt8 := fun k => de (8 + k)

def attr (de : DirEntry) : UInt8 := de 11

def readOnly (de : DirEntry) : Bool := attr de &&& 0x01 != 0

def hidden (de : DirEntry) : Bool := attr de &&& 0x02 != 0

def sysFile (de : DirEntry) : Bool := attr de &&& 0x04 != 0

def volLabel (de : DirEntry) : Bool := attr de &&& 0x08 != 0

def startingCluster (de : DirEntry) : UInt16 := UInt16.ofNat (le16 de 26)

def size (de : DirEntry) : UInt32 := UInt32.ofNat (le32 de 28)

def isUnused (de : DirEntry) : Bool := de 0 == 0xe5

def hasLongName (de : DirEntry) : Bool :=
  de.readOnly && de.hidden && de.sysFile && de.volLabel

def isEnd (de : DirEntry) : Bool := de 0 == 0

end DirEntry

def char2upcase (c : UInt8) : UInt8 :=
  if 'a'.toUInt8 ≤ c ∧ c ≤ 'z'.toUInt8 then 'A'.toUInt8 + (c - 'a'.toUInt8) else c

def charIsValid (c : UInt8) : Bool :=
  decide ('a'.toUInt8 ≤ c ∧ c ≤ 'z'.toUInt8) || decide ('A'.toUInt8 ≤ c ∧ c ≤ 'Z'.toUInt8) ||
    decide ('0'.toUInt8 ≤ c ∧ c ≤ '9'.toUInt8) || ('_'.toUInt8 == c || '-'.toUInt8 == c)

/-- The first loop of `_dir_entry_is_filename`: the base name, up to a dot or
the end, and the characters after it. `none` when the name is refused. -/
def copyBasename : List UInt8 → Nat → (Nat → UInt8) → Option (List UInt8 × (Nat → UInt8))
  | [], _, basename => some ([], basename)
  | c :: rest, i, basename =>
      if c = '.'.toUInt8 then (if i = 0 then none else some (rest, basename))
      else if i ≥ fileBasenameLen then none
      else if !charIsValid c then none
      else copyBasename rest (i + 1) (Function.update basename i (char2upcase c))

def copyExtension : List UInt8 → Nat → (Nat → UInt8) → Option (Nat → UInt8)
  | [], _, extension => some extension
  | c :: rest, j, extension =>
      if j ≥ fileExtensionLen then none
      else if !charIsValid c then none
      else copyExtension rest (j + 1) (Function.update extension j (char2upcase c))

def dirEntryIsFilename (de : DirEntry) (filename : List UInt8) : Bool :=
  match copyBasename filename 0 (fun _ => ' '.toUInt8) with
  | none => false
  | some (rest, basename) =>
      match copyExtension rest 0 (fun _ => ' '.toUInt8) with
      | none => false
      | some extension =>
          strncmp basename de.basename fileBasenameLen == 0 &&
            strncmp extension de.extension fileExtensionLen == 0

section

variable (d : Drive) (f : Volume)

/-- The entry with number `num`; the offset of the entry is a 32-bit value. -/
def rootdirGetEntryNum (num : Nat) : Except DivideError (Option DirEntry) := do
  let off := num * dirEntrySize % 2 ^ 32
  let clusterSteps ← udiv off f.vid.clusterSize
  let rootClusters ← f.vid.rootClusters
  if clusterSteps ≥ rootClusters then pure none
  else
    let cluAddr := UInt16.ofNat startingRootCluNum + UInt16.ofNat clusterSteps
    let rsec ← umod (off / sectorSize) f.vid.sectorsPerCluster.toNat
    let rentry := num % dirEntriesPerSector
    match readClusterSec d f cluAddr rsec with
    | none => pure none
    | some sec => pure (some fun k => sec (dirEntrySize * rentry + k))

def findEntryFrom (filename : List UInt8) : Nat → Nat → Except DivideError (Option DirEntry)
  | 0, _ => pure none
  | n + 1, i => do
      match ← rootdirGetEntryNum d f i with
      | none => pure none
      | some de =>
          if de.isEnd then pure none
          else if de.isUnused then findEntryFrom filename n (i + 1)
          else if de.hasLongName then findEntryFrom filename n (i + 1)
          else if dirEntryIsFilename de filename then pure (some de)
          else findEntryFrom filename n (i + 1)

def rootdirFindEntry (filename : List UInt8) : Except DivideError (Option DirEntry) :=
  findEntryFrom d f filename f.vid.maxRootEntries.toNat 0

end

end Kboot86.Fat16
