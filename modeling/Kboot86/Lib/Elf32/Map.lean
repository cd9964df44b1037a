import Kboot86.Lib.Elf32.Access

/-!
# Mapping an ELF image

`elf32_is_supported`, `elf32_map` and what they call, from `elf32.c`. Header
fields are read from the image when the source reads them, so an image that is
overwritten while it is being mapped is seen as it is then.
-/

namespace Kboot86.Elf32

open Exec

/-! ### Offsets of the header fields and constants -/

def eType : UInt32 := 16
def eMachine : UInt32 := 18
def eEntry : UInt32 := 24
def ePhoff : UInt32 := 28
def ePhentsize : UInt32 := 42
def ePhnum : UInt32 := 44
def eShentsize : UInt32 := 46

def pType : UInt32 := 0
def pOffset : UInt32 := 4
def pVaddr : UInt32 := 8
def pPaddr : UInt32 := 12
def pFilesz : UInt32 := 16
def pMemsz : UInt32 := 20
def pFlags : UInt32 := 24

def sizeofPhdr : UInt32 := 32
def sizeofShdr : UInt32 := 40

def elfClass32 : UInt8 := 1
def elfDataLittle : UInt8 := 1
def elfTypeExec : UInt32 := 2
def elfMachine386 : UInt32 := 3
def ptLoad : UInt32 := 1
def pfW : UInt32 := 2

/-! ### Is the image supported? -/

def isValid (L : Layout) (hdr : UInt32) : Loader Bool := do
  let m0 ← loadByte L hdr
  if m0 != 0x7f then pure false else do
  let m1 ← loadByte L (hdr + 1)
  if m1 != 'E'.toUInt8 then pure false else do
  let m2 ← loadByte L (hdr + 2)
  if m2 != 'L'.toUInt8 then pure false else do
  let m3 ← loadByte L (hdr + 3)
  if m3 != 'F'.toUInt8 then pure false else do
  let phentsize ← loadHalf L (hdr + ePhentsize)
  if phentsize != sizeofPhdr then pure false else do
  let shentsize ← loadHalf L (hdr + eShentsize)
  if shentsize != sizeofShdr then pure false else pure true

def unsupported (text : String) : Loader Bool := do
  setStrError (.text text)
  pure false

def elf32IsSupported (L : Layout) (ehdr : UInt32) : Loader Bool :=
  if ehdr = 0 then pure false else do
  let valid ← isValid L ehdr
  if !valid then unsupported "invalid ELF magin number" else do
  let cls ← loadByte L (ehdr + 4)
  if cls != elfClass32 then unsupported "not 32-bit" else do
  let data ← loadByte L (ehdr + 5)
  if data != elfDataLittle then unsupported "not little-endian" else do
  let machine ← loadHalf L (ehdr + eMachine)
  if machine != elfMachine386 then unsupported "not 386" else do
  let type ← loadHalf L (ehdr + eType)
  if type != elfTypeExec then unsupported "not executable" else pure true

/-! ### Program headers -/

def getProgtab (L : Layout) (ehdr : UInt32) : Loader UInt32 := do
  let phoff ← loadWord L (ehdr + ePhoff)
  pure (ehdr + phoff)

def progsegIsLoadable (L : Layout) (phdr : UInt32) : Loader Bool := do
  let type ← loadWord L (phdr + pType)
  pure (type == ptLoad)

def progsegIsWritable (L : Layout) (phdr : UInt32) : Loader Bool := do
  let flags ← loadWord L (phdr + pFlags)
  pure (pfW &&& flags != 0)

/-- The loop of `_progsegs_get_memsz`, from header number `i` at `phdr`. The
first argument bounds the iterations: `e_phnum` is a 16-bit value. -/
def sumMemsz (L : Layout) (ehdr : UInt32) : Nat → Nat → UInt32 → UInt32 → Loader UInt32
  | 0, _, _, _ => throw .diverged
  | n + 1, i, phdr, sum => do
      let phnum ← loadHalf L (ehdr + ePhnum)
      if i < phnum.toNat then do
        let loadable ← progsegIsLoadable L phdr
        if loadable then do
          let memsz ← loadWord L (phdr + pMemsz)
          sumMemsz L ehdr n (i + 1) (phdr + sizeofPhdr) (sum + memsz)
        else sumMemsz L ehdr n (i + 1) (phdr + sizeofPhdr) sum
      else pure sum

def progsegsGetMemsz (L : Layout) (ehdr : UInt32) : Loader UInt32 := do
  let phdr ← getProgtab L ehdr
  if phdr = 0 then pure 0 else sumMemsz L ehdr (2 ^ 16) 0 phdr 0

/-! ### Checking a segment -/

/-- The sum wraps: a range that passes the end of the address space is in
range. -/
def isPaddrInValidRange (paddr memsz : UInt32) : Bool :=
  if paddr + memsz > kernelPaddrMax then false else true

def isVaddrInValidRange (vaddr memsz : UInt32) : Bool :=
  if vaddr + memsz > kernelVaddrMax then false else true

def invalidProgseg (format : String) (addr : UInt32) : Loader Bool := do
  setStrError (.format format [addr])
  pure false

def validProgseg (paddr vaddr memsz : UInt32) : Loader Bool :=
  if !isAddrPageAligned paddr then
    invalidProgseg "starting physical address not page-aligned: %x" paddr
  else if !isAddrPageAligned vaddr then
    invalidProgseg "starting virtual address not page-aligned: %x" vaddr
  else if !isPaddrInValidRange paddr memsz then
    invalidProgseg "physical address out of range: %x" paddr
  else if !isVaddrInValidRange vaddr memsz then
    invalidProgseg "virtual address out of range: %x" vaddr
  else pure true

/-! ### Mapping a segment -/

section

variable (L : Layout) (paging : PagingCall)

/-- The test that opens the body of both loops of `_map_progseg`: at the start
of a page, map the page, and give up when that fails. -/
def mapAtPageStart (failed : String) (dst paddr : UInt32) (w : Bool) : Loader Bool :=
  if dst % pageSize = 0 then do
    let rc ← paging dst paddr w
    if rc ≠ 0 then do
      setStrError (.text failed)
      pure false
    else pure true
  else pure true

/-- The loop that copies the bytes present in the file. It ends with `dst`,
`paddr` and `memsz` as the next loop finds them, or with `none` when a page
could not be mapped. -/
def copyLoop (w : Bool) :
    Nat → UInt32 → UInt32 → UInt32 → UInt32 → Loader (Option (UInt32 × UInt32 × UInt32))
  | 0, dst, _, paddr, memsz => pure (some (dst, paddr, memsz))
  | filesz + 1, dst, src, paddr, memsz => do
      let mapped ← mapAtPageStart paging "mapping a in-image-present failed" dst paddr w
      if !mapped then pure none else do
      let b ← loadByte L src
      storeByte L dst b
      copyLoop w filesz (dst + 1) (src + 1) (paddr + 1) (memsz - 1)

def zeroLoop (w : Bool) : Nat → UInt32 → UInt32 → Loader Int
  | 0, _, _ => pure 0
  | memsz + 1, dst, paddr => do
      let mapped ← mapAtPageStart paging "mapping of a to-be-zeroed page failed" dst paddr w
      if !mapped then pure 1 else do
      storeByte L dst 0
      zeroLoop w memsz (dst + 1) (paddr + 1)

/-- `_map_progseg`, for each way in which `paging_map` finds its tables. -/
def mapProgsegBy (ehdrAddr phdr : UInt32) : Loader Int := do
  let paddr ← loadWord L (phdr + pPaddr)
  let vaddr ← loadWord L (phdr + pVaddr)
  let offset ← loadWord L (phdr + pOffset)
  let filesz ← loadWord L (phdr + pFilesz)
  let memsz ← loadWord L (phdr + pMemsz)
  let w ← progsegIsWritable L phdr
  let valid ← validProgseg paddr vaddr memsz
  if !valid then pure 1 else do
  let copied ← copyLoop L paging w filesz.toNat vaddr (ehdrAddr + offset) paddr memsz
  match copied with
  | none => pure 1
  | some (dst, paddr, memsz) => zeroLoop L paging w memsz.toNat dst paddr

end

def mapProgseg (L : Layout) (ehdrAddr phdr : UInt32) : Loader Int :=
  mapProgsegBy L (callPagingMap L) ehdrAddr phdr

/-! ### The whole image -/

section

variable (L : Layout) (paging : PagingCall) (ehdr : UInt32)

/-- The loop of `elf32_map`, from header number `i` at `phdr`; `false` when a
segment could not be mapped. -/
def mapLoopBy : Nat → Nat → UInt32 → Loader Bool
  | 0, _, _ => throw .diverged
  | n + 1, i, phdr => do
      let phnum ← loadHalf L (ehdr + ePhnum)
      if i < phnum.toNat then do
        let loadable ← progsegIsLoadable L phdr
        if !loadable then mapLoopBy n (i + 1) (phdr + sizeofPhdr) else do
        let rc ← mapProgsegBy L paging ehdr phdr
        if rc ≠ 0 then pure false
        else mapLoopBy n (i + 1) (phdr + sizeofPhdr)
      else pure true

def elf32MapBy (elfImage : UInt32) : Loader UInt32 := do
  let supported ← elf32IsSupported L elfImage
  if !supported then pure 0 else do
  let phdr ← getProgtab L elfImage
  if phdr = 0 then pure 0 else do
  let totalMemsz ← progsegsGetMemsz L elfImage
  if totalMemsz > kernelMemszMax then do
    setStrError (.format "required %d bytes, only %d supported" [totalMemsz, kernelMemszMax])
    pure 0
  else do
  let mapped ← mapLoopBy L paging elfImage (2 ^ 16) 0 phdr
  if !mapped then pure 0 else loadWord L (elfImage + eEntry)

end

def mapLoop (L : Layout) (ehdr : UInt32) : Nat → Nat → UInt32 → Loader Bool :=
  mapLoopBy L (callPagingMap L) ehdr

def elf32Map (L : Layout) (elfImage : UInt32) : Loader UInt32 :=
  elf32MapBy L (callPagingMap L) elfImage

/-- `elf32_map` with paging on, as `main` calls it. -/
def elf32MapPaged (L : Layout) (elfImage : UInt32) : Loader UInt32 :=
  elf32MapBy L (callPagingMapPaged L) elfImage

end Kboot86.Elf32
