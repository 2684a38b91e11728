import DuvuvurKernel.Paging.Filling
import DuvuvurKernel.Paging.LoadApp

/-!
# The image of an executable

Loading an ELF file into empty page maps gives pages that depend on the bytes of the file only: its image.

## The model

`Pages` is what an application sees: the words of each page that is there. On it loading is a function of the file
(`elfImage`); it is defined as long as the program headers and the segments lie in the file and the segments in the
half of the applications. The machine stores to frames instead, through the page maps in use. The two agree as
long as every page is a frame of its own, apart from the page maps (`Loading`).

**Result** (`loadELF_shows`): `LoadELF` of a file that has an image fails for want of frames, or gives the pages of the
image.
-/

namespace DuvuvurKernel

open Lib.TableTrees

/-! ### Pages -/

/-- The words of the pages that are there, by the numbers of the pages. -/
abbrev Pages := ℕ → Option (ℕ → PageMapEntry)

/-- The pages that a page map shows. -/
def Machine.content (s : Machine) (pml4 : ℕ) : Pages := fun k => (pageIn s.mem 3 pml4 k).map s.mem

instance (v : ℕ) : Decidable (AppAddress v) := inferInstanceAs (Decidable (_ ∧ _))

namespace Pages

/-- Pages set up: those that are not there are zero. -/
def setup (A : Pages) (addr : LinearAddress4Level) (num : ℕ) : Pages := fun k =>
  if addr.pageNumber 4 ≤ k ∧ k < addr.pageNumber 4 + num then some ((A k).getD fun _ => .zero) else A k

/-- The store of a byte. -/
def storeByte (A : Pages) (addr : ℕ) (b : UInt8) : Option Pages :=
  if AppAddress addr then
    let k := (LinearAddress4Level.ofValue addr).pageNumber 4
    (A k).map fun words =>
      Function.update A k (some (Function.update words (addr % 4096 / 8)
        ((words (addr % 4096 / 8)).setByte (addr % 8) b)))
  else none

/-- The store of bytes. -/
def memcpy (A : Pages) (dst : ℕ) : List UInt8 → Option Pages
  | [] => some A
  | b :: bytes => do
    let A ← A.storeByte dst b
    A.memcpy (dst + 1) bytes

/-- The store of a byte `n` times. -/
def memset (A : Pages) (dst : ℕ) (c : UInt8) : ℕ → Option Pages
  | 0 => some A
  | n + 1 => do
    let A ← A.storeByte dst c
    A.memset (dst + 1) c n

end Pages

/-- A segment lies in the half of the applications, and has room for its bytes. -/
def Elf64Phdr.Fits (phdr : Elf64Phdr) : Prop :=
  AppAddress phdr.pVaddr ∧ phdr.pVaddr + phdr.pMemsz ≤ 2 ^ 64 ∧ phdr.pFilesz ≤ phdr.pMemsz

instance (phdr : Elf64Phdr) : Decidable phdr.Fits := inferInstanceAs (Decidable (_ ∧ _ ∧ _))

/-- The number of pages of a segment. -/
def Elf64Phdr.numPages (phdr : Elf64Phdr) : ℕ := (phdr.pVaddr % 4096 + phdr.pMemsz + 4095) / 4096

namespace Pages

variable (buf : FileBuf)

/-- The pages with a segment. -/
def copyLoadSegment (A : Pages) (phdr : Elf64Phdr) : Option Pages :=
  if phdr.Fits then do
    let src ← buf.read phdr.pOffset phdr.pFilesz
    let A ← (A.setup (.ofValue phdr.pVaddr) phdr.numPages).memcpy phdr.pVaddr src
    A.memset (phdr.pVaddr + phdr.pFilesz) 0 (phdr.pMemsz - phdr.pFilesz)
  else none

/-- The pages with all segments, and the end of the last. -/
def copyLoadSegmentsFrom (phoff : ℕ) : ℕ → ℕ → ℕ → Pages → Option (ℕ × Pages)
  | 0, _, lastAddr, A => some (lastAddr, A)
  | k + 1, i, lastAddr, A => do
    if (← buf.pType phoff i) ≠ 1 then copyLoadSegmentsFrom phoff k (i + 1) lastAddr A
    else
      let phdr ← buf.phdr phoff i
      let A ← A.copyLoadSegment buf phdr
      copyLoadSegmentsFrom phoff k (i + 1) (max lastAddr ((phdr.pVaddr + phdr.pMemsz) % 2 ^ 64)) A

end Pages

/-- `LoadELF` into empty pages: the end of the last segment, and the pages. -/
def Pages.loadELF (buf : FileBuf) : Option (Except Error (ℕ × Pages)) := do
  if (← buf.eType) ≠ 2 then some (.error .invalidFormat)
  else if (← buf.getFirstLoadAddress) < 0xffff800000000000 then some (.error .invalidFormat)
  else
    let loaded ← copyLoadSegmentsFrom buf (← buf.ePhoff) (← buf.ePhnum) 0 0 fun _ => none
    return .ok loaded

/-- What loading an executable is to give. -/
structure Image where
  vaddrEnd : ℕ
  entry : ℕ
  pages : Pages

/-- The image of the bytes of a file, or why there is none. -/
def elfImage (bytes : List UInt8) : Option (Except Error Image) := do
  let buf : FileBuf := { bytes := bytes, outside := fun _ => none }
  if (← buf.read 0 4) ≠ [0x7f, 0x45, 0x4c, 0x46] then some (.error .invalidFile)
  else
    match ← Pages.loadELF buf with
    | .error err => some (.error err)
    | .ok (vaddrEnd, pages) => return .ok { vaddrEnd := vaddrEnd, entry := ← buf.eEntry, pages := pages }

/-! ### Page maps that are being filled -/

variable {s₀ s s' : Machine} {r f k num : ℕ} {A A' : Pages} {addr : LinearAddress4Level}

/-- The page map `r` has been made from the state `s₀` on, with frames that were free, and its pages are frames of their
own. -/
structure Loading (s₀ s : Machine) (r : ℕ) : Prop where
  bits : ∀ f, s₀.memoryManager.getBit f = true → s.memoryManager.getBit f = true
  unchanged : ∀ f, s₀.memoryManager.getBit f = true → s.mem f = s₀.mem f
  cr3 : s.cr3 = r
  sound : Sound false s app 3 r
  usable : s.AppUsable r
  used : PagesUsed s app 3 r
  tables : ∀ f ∈ {r} + s.below false app 3 r, s₀.memoryManager.getBit f = false
  pages : ∀ k f, k / 512 ^ 3 ∈ app → pageIn s.mem 3 r k = some f → s₀.memoryManager.getBit f = false ∧
    f ∉ {r} + s.below false app 3 r
  once : ∀ k k' f, k / 512 ^ 3 ∈ app → k' / 512 ^ 3 ∈ app → pageIn s.mem 3 r k = some f → pageIn s.mem 3 r k' = some f →
    k = k'

/-- The page map shows these pages in the half of the applications. -/
def Shows (s : Machine) (r : ℕ) (A : Pages) : Prop := ∀ k, k / 512 ^ 3 ∈ app → s.content r k = A k

theorem every_format {own own' : Bool} {mem : ℕ → ℕ → PageMapEntry} {Q : ℕ → PageMapEntry → Prop} {n : ℕ}
    {e : PageMapEntry} :
    Every (format own) slots mem Q n e → Every (format own') slots mem Q n e := by
  induction n generalizing e with
  | zero => exact id
  | succ n ih => exact fun h => ⟨h.1, fun c hc i hi => ih (h.2 c hc i hi)⟩

namespace Loading

theorem free (h : Loading s₀ s r) (hf : s.memoryManager.getBit f = false) : s₀.memoryManager.getBit f = false := by
  cases hb : s₀.memoryManager.getBit f with
  | false => rfl
  | true =>
    rw [h.bits f hb] at hf
    cases hf

/-- **Pages are set up** in the page map, as far as there are frames. -/
theorem setup {w : Bool} {res : Except Error ℕ} (h : Loading s₀ s r) (ha : 256 ≤ addr.part 4)
    (hcall : s.setupPageMaps addr num w = (res, s')) :
    Loading s₀ s' r ∧ ∀ num', res = .ok num' → Shows s r A → Shows s' r (A.setup addr num) := by
  unfold Machine.setupPageMaps at hcall
  rw [h.cr3] at hcall
  have hT : ∀ i, addr.part 4 ≤ i → i < 512 → i ∈ app := fun i hi hlt => mem_app.mpr ⟨le_trans ha hi, hlt⟩
  have hset := setupPageMap_spec (n := 3) (by decide) (fun h0 => by cases h0) h.sound hT (fun h0 => by cases h0) hcall
  obtain ⟨Y, Z, hfills⟩ := setupPageMap_fills (n := 3) (by decide) h.sound h.used hT hcall
  have hg := hfills.grows
  have hold : ∀ f, s.memoryManager.getBit f = true → f ∉ {r} + s.below false app 3 r → s'.mem f = s.mem f := by
    intro f hf hout
    rw [Multiset.mem_add, Multiset.mem_singleton, not_or] at hout
    exact hg.frame f hout.1 hout.2 (hg.takes.notMem hf)
  have hfresh : ∀ f ∈ Y + Z, s₀.memoryManager.getBit f = false := fun f hf => h.free (hg.takes.isFree f hf).2
  refine ⟨⟨fun f hf => hg.takes.mono (h.bits f hf), fun f hf => ?_, hg.takes.cr3.trans h.cr3, hg.sound h.sound, ?_,
    hfills.used h.used, fun f hf => ?_, fun k f hk hf => ?_, fun k k' f hk hk' hf hf' => ?_⟩,
      fun num' hres hshows k hk => ?_⟩
  · rw [hold f (h.bits f hf), h.unchanged f hf]
    intro hin
    have := h.tables f hin
    rw [hf] at this
    cases this
  · exact fun i hi => every_format (hg.usable (fun i hi => every_format (h.usable i hi)) i hi)
  · rw [hg.tables, ← add_assoc, Multiset.mem_add] at hf
    rcases hf with hf | hf
    · exact h.tables f hf
    · exact hfresh f (Multiset.mem_add.mpr (.inl hf))
  · rcases hfills.page k f hk hf with hpage | hnew
    · refine ⟨(h.pages k f hk hpage).1, ?_⟩
      rw [hg.tables, ← add_assoc, Multiset.mem_add, not_or]
      refine ⟨(h.pages k f hk hpage).2, fun hY => ?_⟩
      exact hg.takes.notMem (h.used k f hk hpage) (Multiset.mem_add.mpr (.inl hY))
    · obtain ⟨hne, hout⟩ := hg.page_notMem h.sound hnew
      refine ⟨hfresh f (Multiset.mem_add.mpr (.inr hnew)), ?_⟩
      rw [Multiset.mem_add, Multiset.mem_singleton, not_or]
      exact ⟨hne, hout⟩
  · by_cases hnew : f ∈ Z
    · exact hfills.once k k' f hk hk' hnew hf hf'
    · exact h.once k k' f hk hk' ((hfills.page k f hk hf).resolve_right hnew)
        ((hfills.page k' f hk' hf').resolve_right hnew)
  · -- A page that was there still is, with the same words.
    have hkept : ∀ f, pageIn s.mem 3 r k = some f → s'.content r k = s.content r k := by
      intro f hf
      rw [Machine.content, Machine.content, hf, hfills.keep k f hk hf, Option.map_some, Option.map_some,
        hold f (h.used k f hk hf) (h.pages k f hk hf).2]
    rw [Pages.setup]
    split
    next hrange =>
      obtain ⟨Y', Z', -, hpages⟩ := hset.grows
      have hlt : k < 512 ^ 4 := by
        have := (mem_app.mp hk).2
        rw [Nat.div_lt_iff_lt_mul (Nat.pow_pos (by decide))] at this
        omega
      obtain ⟨f, hf, -⟩ := hpages num' hres k ⟨hrange.1, hrange.2, hlt⟩
      cases hpage : pageIn s.mem 3 r k with
      | some f' =>
        rw [hkept f' hpage, ← hshows k hk, Machine.content, hpage]
        rfl
      | none =>
        have hnew := (hfills.page k f hk hf).resolve_left fun hc => by
          rw [hpage] at hc
          cases hc
        rw [← hshows k hk, Machine.content, Machine.content, hpage, hf, Option.map_some, hfills.zero k f hk hnew hf]
        rfl
    next hrange =>
      obtain ⟨Y', Z', hg', -⟩ := hset.grows
      have hsame := hg'.pages k hk fun hc => hrange ⟨hc.1, hc.2.1⟩
      rw [← hshows k hk]
      cases hpage : pageIn s.mem 3 r k with
      | some f' => exact hkept f' hpage
      | none => rw [Machine.content, Machine.content, hsame, hpage, Option.map_none, Option.map_none]

/-- **A store** to one of the pages. -/
theorem store (h : Loading s₀ s r) (hk : k / 512 ^ 3 ∈ app) (hf : pageIn s.mem 3 r k = some f)
    (words : ℕ → PageMapEntry) :
    Loading s₀ (s.setFrame f words) r ∧
        (Shows s r A → Shows (s.setFrame f words) r (Function.update A k (some words))) := by
  obtain ⟨hfree, hout⟩ := h.pages k f hk hf
  have hmem : ∀ x, x ≠ f → (s.setFrame f words).mem x = s.mem x := fun x hx => Function.update_of_ne hx _ _
  have htables : ∀ x ∈ {r} + s.below false app 3 r, (s.setFrame f words).mem x = s.mem x := by
    intro x hx
    refine hmem x ?_
    rintro rfl
    exact hout hx
  have hbelow : (s.setFrame f words).below false app 3 r = s.below false app 3 r := Machine.below_congr htables
  have hpages : ∀ k, k / 512 ^ 3 ∈ app → pageIn (s.setFrame f words).mem 3 r k = pageIn s.mem 3 r k :=
    fun k hk => pageIn_congr htables hk
  refine ⟨⟨h.bits, fun x hx => ?_, h.cr3, ⟨?_, ?_⟩, (owned_congr htables).2 h.usable, fun k f hk hf => ?_, ?_,
    fun k f hk hf => ?_, fun k k' f hk hk' hf hf' => ?_⟩, fun hshows j hj => ?_⟩
  · rw [hmem x, h.unchanged x hx]
    rintro rfl
    rw [hx] at hfree
    cases hfree
  · rw [hbelow]
    exact h.sound.nodup
  · rw [hbelow]
    exact h.sound.allocated
  · rw [hpages k hk] at hf
    exact h.used k f hk hf
  · rw [hbelow]
    exact h.tables
  · rw [hpages k hk] at hf
    rw [hbelow]
    exact h.pages k f hk hf
  · rw [hpages k hk] at hf
    rw [hpages k' hk'] at hf'
    exact h.once k k' f hk hk' hf hf'
  · rw [Machine.content, hpages j hj]
    by_cases hjk : j = k
    · subst hjk
      rw [hf, Option.map_some, Function.update_self]
      exact congrArg some (Function.update_self ..)
    · rw [Function.update_of_ne hjk, ← hshows j hj, Machine.content]
      cases hpage : pageIn s.mem 3 r j with
      | none => rfl
      | some f' =>
        rw [Option.map_some, Option.map_some, hmem f']
        rintro rfl
        exact hjk (h.once j k f' hj hk hpage hf)

/-- The processor finds the pages. -/
theorem translate (h : Loading s₀ s r) (ha : 256 ≤ addr.part 4) :
    (s.translate addr).map Page.frame = pageIn s.mem 3 r (addr.pageNumber 4) := by
  rw [pageIn_pageNumber]
  unfold Machine.translate
  rw [h.cr3]
  exact (walk_frame (h.usable _ (part_mem_app ha)) addr.pageNumber_lt).1

/-- The store of a byte of the kernel. -/
theorem storeByte {dst : ℕ} {b : UInt8} (h : Loading s₀ s r) (hshows : Shows s r A) (hA : A.storeByte dst b = some A') :
    ∃ s', s.storeByte dst b = some s' ∧ Loading s₀ s' r ∧ Shows s' r A' := by
  unfold Pages.storeByte at hA
  split at hA
  next hdst =>
    obtain ⟨words, hwords, rfl⟩ := Option.map_eq_some_iff.mp hA
    have hpart : 256 ≤ (LinearAddress4Level.ofValue dst).part 4 := AppAddress.part hdst
    have hcanonical : (LinearAddress4Level.ofValue dst).IsCanonical := by
      obtain ⟨hge, hlt⟩ := hdst
      show dst / 2 ^ 48 % 65536 = if dst / 2 ^ 39 % 512 < 256 then 0 else 65535
      split
      all_goals omega
    generalize haddr : LinearAddress4Level.ofValue dst = addr at hpart hcanonical hwords
    have hk : addr.pageNumber 4 / 512 ^ 3 ∈ app := by
      rw [(pageNumber_div_mod addr 3).1]
      exact part_mem_app hpart
    rw [← hshows _ hk] at hwords
    obtain ⟨f, hf, rfl⟩ := Option.map_eq_some_iff.mp hwords
    have hpage := h.translate hpart
    rw [hf] at hpage
    obtain ⟨p, hp, rfl⟩ := Option.map_eq_some_iff.mp hpage
    obtain ⟨hload, hcontent⟩ := h.store (A := A) hk hf
      (Function.update (s.mem p.frame) (dst % 4096 / 8) ((s.mem p.frame (dst % 4096 / 8)).setByte (dst % 8) b))
    refine ⟨_, ?_, hload, hcontent hshows⟩
    rw [Machine.storeByte, haddr, if_pos hcanonical, hp]
    rfl
  next => cases hA

theorem memcpy {dst : ℕ} {bytes : List UInt8} (h : Loading s₀ s r) (hshows : Shows s r A)
    (hA : A.memcpy dst bytes = some A') :
    ∃ s', s.memcpy dst bytes = some s' ∧ Loading s₀ s' r ∧ Shows s' r A' := by
  induction bytes generalizing dst s A with
  | nil =>
    cases hA
    exact ⟨s, rfl, h, hshows⟩
  | cons b bytes ih =>
    obtain ⟨A₁, hb, hA⟩ := Option.bind_eq_some_iff.mp (show A.storeByte dst b >>= _ = some A' from hA)
    obtain ⟨s₁, hs₁, h₁, hshows₁⟩ := h.storeByte hshows hb
    obtain ⟨s', hs', h', hshows'⟩ := ih h₁ hshows₁ hA
    refine ⟨s', ?_, h', hshows'⟩
    rw [Machine.memcpy, hs₁]
    exact hs'

theorem memset {dst n : ℕ} {c : UInt8} (h : Loading s₀ s r) (hshows : Shows s r A) (hA : A.memset dst c n = some A') :
    ∃ s', s.memset dst c n = some s' ∧ Loading s₀ s' r ∧ Shows s' r A' := by
  induction n generalizing dst s A with
  | zero =>
    cases hA
    exact ⟨s, rfl, h, hshows⟩
  | succ n ih =>
    obtain ⟨A₁, hb, hA⟩ := Option.bind_eq_some_iff.mp (show A.storeByte dst c >>= _ = some A' from hA)
    obtain ⟨s₁, hs₁, h₁, hshows₁⟩ := h.storeByte hshows hb
    obtain ⟨s', hs', h', hshows'⟩ := ih h₁ hshows₁ hA
    refine ⟨s', ?_, h', hshows'⟩
    rw [Machine.memset, hs₁]
    exact hs'

end Loading

/-! ### Loading a file -/

variable {bytes : List UInt8} {outside : ℕ → Option UInt8}

/-- What is read in a file does not depend on what is outside of it. -/
theorem FileBuf.read_inside {off n : ℕ} {bs : List UInt8}
    (h : FileBuf.read { bytes := bytes, outside := fun _ => none } off n = some bs) :
    FileBuf.read { bytes := bytes, outside := outside } off n = some bs := by
  induction n generalizing off bs with
  | zero => exact h
  | succ n ih =>
    obtain ⟨b, hb, h⟩ := Option.bind_eq_some_iff.mp h
    obtain ⟨rest, hrest, h⟩ := Option.bind_eq_some_iff.mp h
    have hb' : FileBuf.byte { bytes := bytes, outside := outside } off = some b := by
      unfold FileBuf.byte at hb ⊢
      split at hb
      next hlt =>
        rw [dif_pos hlt]
        exact hb
      next => cases hb
    rw [FileBuf.read, hb', ih hrest]
    exact h

theorem FileBuf.number_inside {off n x : ℕ}
    (h : FileBuf.number { bytes := bytes, outside := fun _ => none } off n = some x) :
    FileBuf.number { bytes := bytes, outside := outside } off n = some x := by
  obtain ⟨bs, hbs, rfl⟩ := Option.map_eq_some_iff.mp h
  rw [FileBuf.number, FileBuf.read_inside hbs]
  rfl

theorem FileBuf.phdr_inside {phoff i : ℕ} {phdr : Elf64Phdr}
    (h : FileBuf.phdr { bytes := bytes, outside := fun _ => none } phoff i = some phdr) :
    FileBuf.phdr { bytes := bytes, outside := outside } phoff i = some phdr := by
  obtain ⟨pOffset, hoff, h⟩ := Option.bind_eq_some_iff.mp h
  obtain ⟨pVaddr, hvaddr, h⟩ := Option.bind_eq_some_iff.mp h
  obtain ⟨pFilesz, hfilesz, h⟩ := Option.bind_eq_some_iff.mp h
  obtain ⟨pMemsz, hmemsz, h⟩ := Option.bind_eq_some_iff.mp h
  rw [FileBuf.phdr, FileBuf.number_inside hoff, FileBuf.number_inside hvaddr, FileBuf.number_inside hfilesz,
    FileBuf.number_inside hmemsz]
  exact h

theorem FileBuf.firstLoadAddress_inside {phoff k i x : ℕ}
    (h : FileBuf.firstLoadAddress { bytes := bytes, outside := fun _ => none } phoff k i = some x) :
    FileBuf.firstLoadAddress { bytes := bytes, outside := outside } phoff k i = some x := by
  induction k generalizing i with
  | zero => exact h
  | succ k ih =>
    obtain ⟨type, htype, h⟩ := Option.bind_eq_some_iff.mp h
    rw [FileBuf.firstLoadAddress, FileBuf.pType, FileBuf.number_inside htype]
    simp only [Option.bind_eq_bind, Option.bind_some]
    split at h
    next htype => rw [if_pos htype, ih h]
    next htype => rw [if_neg htype, FileBuf.number_inside h]

theorem FileBuf.getFirstLoadAddress_inside {x : ℕ}
    (h : FileBuf.getFirstLoadAddress { bytes := bytes, outside := fun _ => none } = some x) :
    FileBuf.getFirstLoadAddress { bytes := bytes, outside := outside } = some x := by
  obtain ⟨phoff, hphoff, h⟩ := Option.bind_eq_some_iff.mp h
  obtain ⟨phnum, hphnum, h⟩ := Option.bind_eq_some_iff.mp h
  rw [FileBuf.getFirstLoadAddress, FileBuf.ePhoff, FileBuf.number_inside hphoff, FileBuf.ePhnum,
    FileBuf.number_inside hphnum]
  exact FileBuf.firstLoadAddress_inside h

namespace Loading

/-- One segment. -/
theorem copyLoadSegment {phdr : Elf64Phdr} (outside : ℕ → Option UInt8) (h : Loading s₀ s r) (hshows : Shows s r A)
    (hA : A.copyLoadSegment { bytes := bytes, outside := fun _ => none } phdr = some A') :
    ∃ res s', s.copyLoadSegment { bytes := bytes, outside := outside } phdr = some (res, s') ∧ Loading s₀ s' r ∧
      (res = .error .noEnoughMemory ∨ res = .ok () ∧ Shows s' r A') := by
  unfold Pages.copyLoadSegment at hA
  split at hA
  next hfits =>
    obtain ⟨hvaddr, hle, hroom⟩ := hfits
    obtain ⟨hge, hlt⟩ := id hvaddr
    obtain ⟨src, hsrc, hA⟩ := Option.bind_eq_some_iff.mp hA
    obtain ⟨A₁, hcpy, hset⟩ := Option.bind_eq_some_iff.mp hA
    have hnum : (phdr.pVaddr % 4096 + phdr.pMemsz + 4095) % 2 ^ 64 / 4096 = phdr.numPages := by
      rw [Nat.mod_eq_of_lt (by omega)]
      rfl
    have hzeros : (phdr.pMemsz + 2 ^ 64 - phdr.pFilesz) % 2 ^ 64 = phdr.pMemsz - phdr.pFilesz := by omega
    have hpart : 256 ≤ (LinearAddress4Level.ofValue phdr.pVaddr).part 4 := hvaddr.part
    unfold Machine.copyLoadSegment
    dsimp only
    rw [hnum, hzeros]
    rcases hsetup : s.setupPageMaps (.ofValue phdr.pVaddr) phdr.numPages false with ⟨err | num', s₁⟩
    · refine ⟨.error err, s₁, rfl, (h.setup (A := A) hpart hsetup).1, .inl ?_⟩
      rw [setupPageMaps_error hsetup]
    · obtain ⟨h₁, hshows₁⟩ := h.setup (A := A) hpart hsetup
      obtain ⟨s₂, hs₂, h₂, hshows₂⟩ := h₁.memcpy (hshows₁ num' rfl hshows) hcpy
      obtain ⟨s₃, hs₃, h₃, hshows₃⟩ := h₂.memset hshows₂ hset
      refine ⟨.ok (), s₃, ?_, h₃, .inr ⟨rfl, hshows₃⟩⟩
      simp only [FileBuf.read_inside hsrc, hs₂, hs₃, Option.bind_eq_bind, Option.bind_some]
      rfl
  next => cases hA

/-- All segments. -/
theorem copyLoadSegmentsFrom {phoff k i lastAddr lastAddr' : ℕ} (outside : ℕ → Option UInt8) (h : Loading s₀ s r)
    (hshows : Shows s r A)
    (hA : Pages.copyLoadSegmentsFrom { bytes := bytes, outside := fun _ => none } phoff k i lastAddr A =
    some (lastAddr', A')) :
    ∃ res s', Machine.copyLoadSegmentsFrom { bytes := bytes, outside := outside } phoff k i lastAddr s =
      some (res, s') ∧
      Loading s₀ s' r ∧ (res = .error .noEnoughMemory ∨ res = .ok lastAddr' ∧ Shows s' r A') := by
  induction k generalizing i lastAddr s A with
  | zero =>
    cases hA
    exact ⟨_, s, rfl, h, .inr ⟨rfl, hshows⟩⟩
  | succ k ih =>
    obtain ⟨type, htype, hA⟩ := Option.bind_eq_some_iff.mp hA
    rw [Machine.copyLoadSegmentsFrom, FileBuf.pType, FileBuf.number_inside htype]
    simp only [Option.bind_eq_bind, Option.bind_some]
    split at hA
    next hload =>
      rw [if_pos hload]
      exact ih h hshows hA
    next hload =>
      obtain ⟨phdr, hphdr, hA⟩ := Option.bind_eq_some_iff.mp hA
      obtain ⟨A₁, hA₁, hA⟩ := Option.bind_eq_some_iff.mp hA
      obtain ⟨res₁, s₁, hseg, h₁, hres₁⟩ := h.copyLoadSegment outside hshows hA₁
      rw [if_neg hload, FileBuf.phdr_inside hphdr, Option.bind_some, hseg, Option.bind_some]
      rcases hres₁ with rfl | ⟨rfl, hshows₁⟩
      · exact ⟨_, s₁, rfl, h₁, .inl rfl⟩
      · exact ih h₁ hshows₁ hA

/-- **`LoadELF`** into an empty page map gives the image of the file, if there are enough frames. -/
theorem loadELF_shows {loaded : Except Error (ℕ × Pages)} (outside : ℕ → Option UInt8) (h : Loading s₀ s r)
    (hshows : Shows s r fun _ => none)
    (hA : Pages.loadELF { bytes := bytes, outside := fun _ => none } = some loaded) :
    ∃ res s', s.loadELF { bytes := bytes, outside := outside } = some (res, s') ∧ Loading s₀ s' r ∧
      (res = .error .noEnoughMemory ∨ (∃ err, loaded = .error err ∧ res = .error err) ∨
        ∃ vaddrEnd pages, loaded = .ok (vaddrEnd, pages) ∧ res = .ok vaddrEnd ∧ Shows s' r pages) := by
  obtain ⟨type, htype, hA⟩ := Option.bind_eq_some_iff.mp hA
  rw [Machine.loadELF, FileBuf.eType, FileBuf.number_inside htype]
  simp only [Option.bind_eq_bind, Option.bind_some]
  split at hA
  next hexec =>
    cases hA
    rw [if_pos hexec]
    exact ⟨_, s, rfl, h, .inr (.inl ⟨_, rfl, rfl⟩)⟩
  next hexec =>
    obtain ⟨first, hfirst, hA⟩ := Option.bind_eq_some_iff.mp hA
    rw [if_neg hexec, FileBuf.getFirstLoadAddress_inside hfirst, Option.bind_some]
    split at hA
    next hlow =>
      cases hA
      rw [if_pos hlow]
      exact ⟨_, s, rfl, h, .inr (.inl ⟨_, rfl, rfl⟩)⟩
    next hlow =>
      obtain ⟨phoff, hphoff, hA⟩ := Option.bind_eq_some_iff.mp hA
      obtain ⟨phnum, hphnum, hA⟩ := Option.bind_eq_some_iff.mp hA
      obtain ⟨⟨vaddrEnd, pages⟩, hpages, hA⟩ := Option.bind_eq_some_iff.mp hA
      cases hA
      obtain ⟨res, s', hcall, h', hres⟩ := h.copyLoadSegmentsFrom outside hshows hpages
      refine ⟨res, s', ?_, h', hres.imp_right fun hok => .inr ⟨vaddrEnd, pages, rfl, hok⟩⟩
      rw [if_neg hlow, Machine.copyLoadSegments, FileBuf.ePhoff, FileBuf.number_inside hphoff, FileBuf.ePhnum,
        FileBuf.number_inside hphnum]
      exact hcall

end Loading

end DuvuvurKernel
