import DuvuvurKernel.Paging.PageFault

/-!
# Loading an ELF file

`LoadELF` and what it calls: the program headers, and the pages and bytes of the segments.

## The model

The file is in a buffer of the kernel. What lies in memory outside of the buffer is part of the model
(`FileBuf.outside`): the code reads there when a header leads it there. The kernel stores to the pages of an
application through the page maps, with CR0.WP cleared; a store to a page that is not there, or to an
address that is not canonical, faults in the kernel and has no result.
-/

namespace DuvuvurKernel

/-! ### Stores of the kernel -/

/-- The address is canonical: the bits after `pml4` repeat the highest bit of `pml4`. -/
def LinearAddress4Level.IsCanonical (addr : LinearAddress4Level) : Prop :=
  addr.high.val = if addr.pml4.val < 256 then 0 else 65535

instance (addr : LinearAddress4Level) : Decidable addr.IsCanonical := inferInstanceAs (Decidable (_ = _))

namespace Machine

/-- The store of a byte to a virtual address. -/
def storeByte (s : Machine) (addr : ℕ) (b : UInt8) : Option Machine :=
  if (LinearAddress4Level.ofValue addr).IsCanonical then
    (s.translate (.ofValue addr)).map fun page =>
    s.setFrame page.frame (Function.update (s.mem page.frame) (addr % 4096 / 8)
      ((s.mem page.frame (addr % 4096 / 8)).setByte (addr % 8) b))
  else none

/-- `memcpy`, of bytes that have been read. -/
def memcpy (s : Machine) (dst : ℕ) : List UInt8 → Option Machine
  | [] => some s
  | b :: bytes => do
    let s ← s.storeByte dst b
    s.memcpy (dst + 1) bytes

/-- `memset`, of `n` bytes. -/
def memset (s : Machine) (dst : ℕ) (c : UInt8) : ℕ → Option Machine
  | 0 => some s
  | n + 1 => do
    let s ← s.storeByte dst c
    s.memset (dst + 1) c n

end Machine

/-! ### The file -/

/-- `file_buf`. -/
structure FileBuf where
  /-- The bytes of the file. -/
  bytes : List UInt8
  /-- The bytes of memory at the other offsets from the start of the buffer, where there is memory. -/
  outside : ℕ → Option UInt8

namespace FileBuf

variable (buf : FileBuf)

/-- The byte at an offset, of 64 bits. -/
def byte (off : ℕ) : Option UInt8 :=
  if h : off % 2 ^ 64 < buf.bytes.length then some (buf.bytes.get ⟨off % 2 ^ 64, h⟩) else buf.outside (off % 2 ^ 64)

/-- The `n` bytes from an offset on. -/
def read (off : ℕ) : ℕ → Option (List UInt8)
  | 0 => some []
  | n + 1 => do
    let b ← buf.byte off
    let bytes ← read (off + 1) n
    return b :: bytes

/-- The number in the `n` bytes from an offset on. -/
def number (off n : ℕ) : Option ℕ :=
  (buf.read off n).map (List.foldr (fun b x => b.toNat + 256 * x) 0)

/-- `e_type`. -/
def eType : Option ℕ := buf.number 16 2

/-- `e_entry`. -/
def eEntry : Option ℕ := buf.number 24 8

/-- `e_phoff`. -/
def ePhoff : Option ℕ := buf.number 32 8

/-- `e_phnum`. -/
def ePhnum : Option ℕ := buf.number 56 2

end FileBuf

/-- `Elf64_Phdr`, as far as it is read. -/
structure Elf64Phdr where
  pOffset : ℕ
  pVaddr : ℕ
  pFilesz : ℕ
  pMemsz : ℕ
  deriving DecidableEq

namespace FileBuf

variable (buf : FileBuf)

/-- `p_type` of `phdr[i]`. -/
def pType (phoff i : ℕ) : Option ℕ := buf.number (phoff + 56 * i) 4

/-- The other fields of `phdr[i]`. -/
def phdr (phoff i : ℕ) : Option Elf64Phdr := do
  return ⟨← buf.number (phoff + 56 * i + 8) 8, ← buf.number (phoff + 56 * i + 16) 8,
    ← buf.number (phoff + 56 * i + 32) 8, ← buf.number (phoff + 56 * i + 40) 8⟩

/-- The loop of `GetFirstLoadAddress` over the last `k` program headers, from index `i` on. `PT_LOAD` is 1. -/
def firstLoadAddress (phoff : ℕ) : ℕ → ℕ → Option ℕ
  | 0, _ => some 0
  | k + 1, i => do
    if (← buf.pType phoff i) ≠ 1 then firstLoadAddress phoff k (i + 1)
    else buf.number (phoff + 56 * i + 16) 8

/-- `GetFirstLoadAddress`. -/
def getFirstLoadAddress : Option ℕ := do
  buf.firstLoadAddress (← buf.ePhoff) (← buf.ePhnum) 0

end FileBuf

namespace Machine

/-- The segment of one program header: its pages, which are read-only, its bytes, and zeros. -/
def copyLoadSegment (s : Machine) (buf : FileBuf) (phdr : Elf64Phdr) : Option (Except Error Unit × Machine) :=
  let num4kpages := (phdr.pVaddr % 4096 + phdr.pMemsz + 4095) % 2 ^ 64 / 4096
  match s.setupPageMaps (.ofValue phdr.pVaddr) num4kpages false with
  | (.error err, s) => some (.error err, s)
  | (.ok _, s) => do
    let src ← buf.read phdr.pOffset phdr.pFilesz
    let s ← s.memcpy phdr.pVaddr src
    let s ← s.memset (phdr.pVaddr + phdr.pFilesz) 0 ((phdr.pMemsz + 2 ^ 64 - phdr.pFilesz) % 2 ^ 64)
    return (.ok (), s)

/-- The loop of `CopyLoadSegments` over the last `k` program headers, from index `i` on. -/
def copyLoadSegmentsFrom (buf : FileBuf) (phoff : ℕ) : ℕ → ℕ → ℕ → Machine → Option (Except Error ℕ × Machine)
  | 0, _, lastAddr, s => some (.ok lastAddr, s)
  | k + 1, i, lastAddr, s => do
    if (← buf.pType phoff i) ≠ 1 then copyLoadSegmentsFrom buf phoff k (i + 1) lastAddr s
    else
      let phdr ← buf.phdr phoff i
      match ← s.copyLoadSegment buf phdr with
      | (.error err, s) => some (.error err, s)
      | (.ok (), s) => copyLoadSegmentsFrom buf phoff k (i + 1) (max lastAddr ((phdr.pVaddr + phdr.pMemsz) % 2 ^ 64)) s

/-- `CopyLoadSegments`. -/
def copyLoadSegments (s : Machine) (buf : FileBuf) : Option (Except Error ℕ × Machine) := do
  copyLoadSegmentsFrom buf (← buf.ePhoff) (← buf.ePhnum) 0 0 s

/-- `LoadELF`. `ET_EXEC` is 2. -/
def loadELF (s : Machine) (buf : FileBuf) : Option (Except Error ℕ × Machine) := do
  if (← buf.eType) ≠ 2 then some (.error .invalidFormat, s)
  else if (← buf.getFirstLoadAddress) < 0xffff800000000000 then some (.error .invalidFormat, s)
  else s.copyLoadSegments buf

end Machine

end DuvuvurKernel
