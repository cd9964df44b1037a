import Kboot86.Mm.PageMap
import Kboot86.Mm.Entries
import Kboot86.Mm.Refusal
import Kboot86.Kernel.FramePool
import Kboot86.Lib.Elf32.ValidRange
import Kboot86.Main
import Kboot86.Drivers.Hdd.Partition
import Kboot86.Drivers.Divisions
import Kboot86.Drivers.Ata.Wait
import Kboot86.Drivers.Fat16.Filename
import Kboot86.Drivers.Fat16.Geometry
import Kboot86.Drivers.Fat16.Regular
import Kboot86.Drivers.Fat16.Prefix
import Kboot86.Drivers.Mbr.Table
import Kboot86.Lib.Timer.Triggered
import Kboot86.Lib.Timer.Ops
import Kboot86.Sh.Effect
import Kboot86.Sh.VarValue
import Kboot86.Drivers.Console.Cursor
import Kboot86.Drivers.Console.Delivery
import Kboot86.Drivers.Console.Output
import Kboot86.Drivers.Console.Edit
import Kboot86.Lib.String.Strncmp
import Kboot86.Kernel.String
import Kboot86.Drivers.Pit
import Kboot86.Drivers.Console.Attribute
import Kboot86.Lib.Idt
import Kboot86.Sh.Number
import Kboot86.Boot1
import Kboot86.Lib.Timer.NotEarly
import Kboot86.Lib.Timer.Relink
import Kboot86.Sh.Listing
import Kboot86.Lib.Elf32.Message
import Kboot86.Lib.Timer.NotLate
import Kboot86.Lib.Timer.Returns
import Kboot86.Sh.Typing
import Kboot86.Lib.Intr
import Kboot86.Drivers.Ata.Session
import Kboot86.Floppy
import Kboot86.Main.Kernel
