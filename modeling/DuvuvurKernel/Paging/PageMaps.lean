import DuvuvurKernel.Memory.BitmapMemoryManager
import Mathlib.Data.Fin.Basic
import Mathlib.Data.Nat.Notation

/-!
# Page maps

The functions of `paging.cpp` that build, copy and clean the four levels of page maps.

## The model

Memory is its frames of 512 words. Every word is seen as a `PageMapEntry`, the union of
the source over 64 bits, since the code takes any frame it finds a pointer to for a page
map. A `PageMapEntry*` to a page map is the number of its frame: page maps are reached
through the identity mapping, at their physical addresses.

The recursions over the levels go down to a level 0 that stands for the pages
themselves. Operations return their result together with the machine, which has
changed also when they fail.
-/

namespace DuvuvurKernel

/-- `PageMapEntry`. -/
structure PageMapEntry where
  present : Bool
  writable : Bool
  user : Bool
  /-- `write_through`, `cache_disable`, `accessed` and `dirty`. -/
  caching : Fin 16
  /-- `huge_page`. -/
  hugePage : Bool
  /-- `global` and the three bits after it. -/
  global : Fin 16
  addr : Fin (2 ^ 40)
  /-- The bits after `addr`. -/
  high : Fin 4096
  deriving DecidableEq

namespace PageMapEntry

/-- The word 0. -/
def zero : PageMapEntry where
  present := false
  writable := false
  user := false
  caching := 0
  hugePage := false
  global := 0
  addr := 0
  high := 0

/-- `Pointer`: the frame an entry points to. -/
def pointer (e : PageMapEntry) : ℕ := e.addr

/-- `SetPointer`, of the number of a frame. -/
def setPointer (e : PageMapEntry) (frame : ℕ) : PageMapEntry := { e with addr := Fin.ofNat _ frame }

/-- The assignment to `present`. -/
def setPresent (e : PageMapEntry) (bit : Bool) : PageMapEntry := { e with present := bit }

/-- The assignment to `writable`. -/
def setWritable (e : PageMapEntry) (bit : Bool) : PageMapEntry := { e with writable := bit }

/-- The assignment to `user`. -/
def setUser (e : PageMapEntry) (bit : Bool) : PageMapEntry := { e with user := bit }

variable (e : PageMapEntry) (bit : Bool) (frame : ℕ)

@[simp] theorem setPresent_present : (e.setPresent bit).present = bit := rfl
@[simp] theorem setPresent_writable : (e.setPresent bit).writable = e.writable := rfl
@[simp] theorem setPresent_user : (e.setPresent bit).user = e.user := rfl
@[simp] theorem setPresent_hugePage : (e.setPresent bit).hugePage = e.hugePage := rfl
@[simp] theorem setPresent_pointer : (e.setPresent bit).pointer = e.pointer := rfl
@[simp] theorem setWritable_present : (e.setWritable bit).present = e.present := rfl
@[simp] theorem setWritable_writable : (e.setWritable bit).writable = bit := rfl
@[simp] theorem setWritable_user : (e.setWritable bit).user = e.user := rfl
@[simp] theorem setWritable_hugePage : (e.setWritable bit).hugePage = e.hugePage := rfl
@[simp] theorem setWritable_pointer : (e.setWritable bit).pointer = e.pointer := rfl
@[simp] theorem setUser_present : (e.setUser bit).present = e.present := rfl
@[simp] theorem setUser_writable : (e.setUser bit).writable = e.writable := rfl
@[simp] theorem setUser_user : (e.setUser bit).user = bit := rfl
@[simp] theorem setUser_hugePage : (e.setUser bit).hugePage = e.hugePage := rfl
@[simp] theorem setUser_pointer : (e.setUser bit).pointer = e.pointer := rfl
@[simp] theorem setPointer_present : (e.setPointer frame).present = e.present := rfl
@[simp] theorem setPointer_writable : (e.setPointer frame).writable = e.writable := rfl
@[simp] theorem setPointer_user : (e.setPointer frame).user = e.user := rfl
@[simp] theorem setPointer_hugePage : (e.setPointer frame).hugePage = e.hugePage := rfl

/-- `data`. -/
def data (e : PageMapEntry) : ℕ :=
  e.present.toNat + 2 * e.writable.toNat + 4 * e.user.toNat + 8 * e.caching + 128 * e.hugePage.toNat +
    256 * e.global + 4096 * e.addr + 2 ^ 52 * e.high

/-- The assignment to `data`. -/
def ofData (x : ℕ) : PageMapEntry where
  present := x % 2 = 1
  writable := x / 2 % 2 = 1
  user := x / 4 % 2 = 1
  caching := Fin.ofNat _ (x / 8)
  hugePage := x / 128 % 2 = 1
  global := Fin.ofNat _ (x / 256)
  addr := Fin.ofNat _ (x / 4096)
  high := Fin.ofNat _ (x / 2 ^ 52)

/-- Byte `k` of the word. -/
def byte (e : PageMapEntry) (k : ℕ) : UInt8 := UInt8.ofNat (e.data / 256 ^ k)

/-- The word with another byte `k`. -/
def setByte (e : PageMapEntry) (k : ℕ) (b : UInt8) : PageMapEntry :=
  ofData (e.data % 256 ^ k + 256 ^ k * b.toNat + 256 ^ (k + 1) * (e.data / 256 ^ (k + 1)))

end PageMapEntry

/-! ### Addresses -/

/-- `LinearAddress4Level`. -/
structure LinearAddress4Level where
  offset : Fin 4096
  page : Fin 512
  dir : Fin 512
  pdp : Fin 512
  pml4 : Fin 512
  /-- The bits after `pml4`. -/
  high : Fin 65536
  deriving DecidableEq

namespace LinearAddress4Level

/-- The address with a `value`. -/
def ofValue (value : ℕ) : LinearAddress4Level where
  offset := Fin.ofNat _ value
  page := Fin.ofNat _ (value / 2 ^ 12)
  dir := Fin.ofNat _ (value / 2 ^ 21)
  pdp := Fin.ofNat _ (value / 2 ^ 30)
  pml4 := Fin.ofNat _ (value / 2 ^ 39)
  high := Fin.ofNat _ (value / 2 ^ 48)

/-- `value`. -/
def value (addr : LinearAddress4Level) : ℕ :=
  addr.offset + 2 ^ 12 * addr.page + 2 ^ 21 * addr.dir + 2 ^ 30 * addr.pdp + 2 ^ 39 * addr.pml4 + 2 ^ 48 * addr.high

/-- `Part`. -/
def part (addr : LinearAddress4Level) : ℕ → ℕ
  | 0 => addr.offset
  | 1 => addr.page
  | 2 => addr.dir
  | 3 => addr.pdp
  | 4 => addr.pml4
  | _ => 0

/-- `SetPart`. -/
def setPart (addr : LinearAddress4Level) (pageMapLevel value : ℕ) : LinearAddress4Level :=
  match pageMapLevel with
  | 0 => { addr with offset := Fin.ofNat _ value }
  | 1 => { addr with page := Fin.ofNat _ value }
  | 2 => { addr with dir := Fin.ofNat _ value }
  | 3 => { addr with pdp := Fin.ofNat _ value }
  | 4 => { addr with pml4 := Fin.ofNat _ value }
  | _ => addr

/-- The loop of `SetupPageMap` that sets the parts of the levels up to `level`, but for the offset,
to 0. -/
def clearParts (addr : LinearAddress4Level) : ℕ → LinearAddress4Level
  | 0 => addr
  | level + 1 => (addr.setPart (level + 1) 0).clearParts level

end LinearAddress4Level

/-! ### The machine -/

/-- The memory, the frame allocator and the page map in use. -/
structure Machine where
  /-- The words of each frame. -/
  mem : ℕ → ℕ → PageMapEntry
  /-- `memory_manager`. -/
  memoryManager : BitmapMemoryManager
  /-- CR3: the frame of the page map in use. -/
  cr3 : ℕ

namespace Machine

/-- An assignment to `page_map[i]`. -/
def setEntry (s : Machine) (pageMap i : ℕ) (e : PageMapEntry) : Machine :=
  { s with mem := Function.update s.mem pageMap (Function.update (s.mem pageMap) i e) }

theorem setEntry_mem (s : Machine) (pageMap i : ℕ) (e : PageMapEntry) : (s.setEntry pageMap i e).mem pageMap i = e := by
  simp [setEntry]

theorem setEntry_setEntry (s : Machine) (pageMap i : ℕ) (e e' : PageMapEntry) :
    (s.setEntry pageMap i e).setEntry pageMap i e' = s.setEntry pageMap i e' := by
  simp [setEntry]

/-- An assignment to all words of a frame. -/
def setFrame (s : Machine) (frame : ℕ) (words : ℕ → PageMapEntry) : Machine :=
  { s with mem := Function.update s.mem frame words }

/-- `NewPageMap`. -/
def newPageMap (s : Machine) : Except Error ℕ × Machine :=
  match s.memoryManager.allocate 1 with
  | (.error err, m) => (.error err, { s with memoryManager := m })
  | (.ok frame, m) => (.ok frame, { s with memoryManager := m }.setFrame frame fun _ => .zero)

/-- `FreePageMap`. -/
def freePageMap (s : Machine) (table : ℕ) : Machine :=
  { s with memoryManager := s.memoryManager.free table 1 }

/-- `SetNewPageMapIfNotPresent`, for `page_map[i]`. -/
def setNewPageMapIfNotPresent (s : Machine) (pageMap i : ℕ) : Except Error ℕ × Machine :=
  let entry := s.mem pageMap i
  if entry.present then (.ok entry.pointer, s)
  else
    match s.newPageMap with
    | (.error err, s) => (.error err, s)
    | (.ok childMap, s) =>
      (.ok childMap, s.setEntry pageMap i (((s.mem pageMap i).setPointer childMap).setPresent true))

/-- The loop of `SetupPageMap` over the entries of a page map: `setupChild` is the call for the next
level. It leaves the loop at the last entry, after at most 512 rounds. -/
def setupEntries (setupChild : ℕ → LinearAddress4Level → ℕ → Machine → Except Error ℕ × Machine)
    (pageMap pageMapLevel : ℕ) (writable : Bool) :
    ℕ → LinearAddress4Level → ℕ → Machine → Except Error ℕ × Machine
  | 0, _, num4kpages, s => (.ok num4kpages, s)
  | fuel + 1, addr, num4kpages, s =>
    if num4kpages = 0 then (.ok num4kpages, s)
    else
      let entryIndex := addr.part pageMapLevel
      match s.setNewPageMapIfNotPresent pageMap entryIndex with
      | (.error err, s) => (.error err, s)
      | (.ok childMap, s) =>
        let s := s.setEntry pageMap entryIndex
          (((s.mem pageMap entryIndex).setUser true).setWritable (if pageMapLevel = 1 then writable else true))
        match setupChild childMap addr num4kpages s with
        | (.error err, s) => (.error err, s)
        | (.ok num4kpages, s) =>
          if entryIndex = 511 then (.ok num4kpages, s)
          else setupEntries setupChild pageMap pageMapLevel writable fuel
            ((addr.setPart pageMapLevel (entryIndex + 1)).clearParts (pageMapLevel - 1)) num4kpages s

/-- `SetupPageMap`: the number of pages that remain. A page (level 0) is one page fewer. -/
def setupPageMap (writable : Bool) : ℕ → ℕ → LinearAddress4Level → ℕ → Machine → Except Error ℕ × Machine
  | 0, _, _, num4kpages, s => (.ok (num4kpages - 1), s)
  | pageMapLevel + 1, pageMap, addr, num4kpages, s =>
    setupEntries (setupPageMap writable pageMapLevel) pageMap (pageMapLevel + 1) writable 512 addr num4kpages s

/-- `SetupPageMaps`. -/
def setupPageMaps (s : Machine) (addr : LinearAddress4Level) (num4kpages : ℕ) (writable : Bool) :
    Except Error ℕ × Machine :=
  setupPageMap writable 4 s.cr3 addr num4kpages s

/-- The loop of `CleanPageMap` over the last `k` entries of a page map, from index `i` on. -/
def cleanEntries (cleanChild : ℕ → Machine → Machine) (pageMap : ℕ) : ℕ → ℕ → Machine → Machine
  | 0, _, s => s
  | k + 1, i, s =>
    let entry := s.mem pageMap i
    if ¬ entry.present then cleanEntries cleanChild pageMap k (i + 1) s
    else
      let s := cleanChild entry.pointer s
      let s := if entry.writable then { s with memoryManager := s.memoryManager.free entry.pointer 1 } else s
      cleanEntries cleanChild pageMap k (i + 1) (s.setEntry pageMap i .zero)

/-- `CleanPageMap`, which never fails, since `Free` does not. There is nothing to clean in a page
(level 0). -/
def cleanPageMap (addr : LinearAddress4Level) : ℕ → ℕ → Machine → Machine
  | 0, _, s => s
  | pageMapLevel + 1, pageMap, s =>
    cleanEntries (cleanPageMap addr pageMapLevel) pageMap (512 - addr.part (pageMapLevel + 1))
      (addr.part (pageMapLevel + 1)) s

/-- `CleanPageMaps`. -/
def cleanPageMaps (s : Machine) (addr : LinearAddress4Level) : Machine := cleanPageMap addr 4 s.cr3 s

/-- The loop of `CopyPageMaps` over the last `k` entries of the lowest level, from index `i` on. -/
def copyPages (dest src : ℕ) : ℕ → ℕ → Machine → Machine
  | 0, _, s => s
  | k + 1, i, s =>
    if ¬ (s.mem src i).present then copyPages dest src k (i + 1) s
    else copyPages dest src k (i + 1) (s.setEntry dest i ((s.mem src i).setWritable false))

/-- The loop of `CopyPageMaps` over the last `k` entries of another level, from index `i` on. -/
def copyEntries (copyChild : ℕ → ℕ → Machine → Except Error Unit × Machine) (dest src : ℕ) :
    ℕ → ℕ → Machine → Except Error Unit × Machine
  | 0, _, s => (.ok (), s)
  | k + 1, i, s =>
    if ¬ (s.mem src i).present then copyEntries copyChild dest src k (i + 1) s
    else
      match s.newPageMap with
      | (.error err, s) => (.error err, s)
      | (.ok table, s) =>
        let s := s.setEntry dest i ((s.mem src i).setPointer table)
        match copyChild table (s.mem src i).pointer s with
        | (.error err, s) => (.error err, s)
        | (.ok (), s) => copyEntries copyChild dest src k (i + 1) s

/-- `CopyPageMaps`, for `part + 1`. -/
def copyPageMaps : ℕ → ℕ → ℕ → ℕ → Machine → Except Error Unit × Machine
  | 0, dest, src, start, s => (.ok (), copyPages dest src (512 - start) start s)
  | part + 1, dest, src, start, s =>
    copyEntries (fun dest src s => copyPageMaps part dest src 0 s) dest src (512 - start) start s

/-- `SetPageContent`, for `part + 1`. -/
def setPageContent (addr : LinearAddress4Level) (content : ℕ) : ℕ → ℕ → Machine → Machine
  | 0, table, s =>
    let i := addr.part 1
    s.setEntry table i (((s.mem table i).setPointer content).setWritable true)
  | part + 1, table, s => setPageContent addr content part (s.mem table (addr.part (part + 2))).pointer s

end Machine

end DuvuvurKernel
