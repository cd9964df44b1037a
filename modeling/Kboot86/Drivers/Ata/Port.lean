import Kboot86.Drivers.Ata.Hardware

/-!
# The ports of the ATA drive

The driver on a drive that presents a status byte at each read of the status
register and a word at each read of the data register, whatever they are; the
drive/head register returns what was last written. Which registers a read
writes, and in which order, is kept in the state.
-/

namespace Kboot86.Ata.Port

/-- What the drive presents at each read of the two registers. -/
structure Bus where
  status : Nat → UInt8
  data : Nat → UInt16

/-- How often the status and the data register have been read, the drive/head
register, the bytes written to the ports in their order, and the words of the
buffer of the caller. -/
structure State where
  statusReads : Nat
  dataReads : Nat
  drvHd : UInt8
  writes : List (UInt16 × UInt8)
  buf : Nat → UInt16

def Bus.hardware (bus : Bus) : Hardware State where
  outb port value s :=
    { s with
      writes := s.writes ++ [(port, value)]
      drvHd := if port = drvHdPort then value else s.drvHd }
  inb port s :=
    if port = statusPort then
      (bus.status s.statusReads, { s with statusReads := s.statusReads + 1 })
    else (s.drvHd, s)
  inw _ s := (bus.data s.dataReads, { s with dataReads := s.dataReads + 1 })
  store i word s := { s with buf := Function.update s.buf i word }
  load s := s.buf

end Kboot86.Ata.Port
