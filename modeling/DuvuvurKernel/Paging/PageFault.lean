import DuvuvurKernel.Paging.Growth
import DuvuvurKernel.Paging.LinearAddress

/-!
# Page faults

The processor's walk through the page maps, and `HandlePageFault`, with which the kernel
answers when the walk fails.

## The model

`walk` is the processor's: it needs every entry on the way to be present, stops at an
entry with `huge_page`, and allows what all entries allow. `Raises` says with which error
code an access faults. The kernel runs with CR0.WP cleared, so it may write to any page
that is present.

Kernel code that touches a page of the application goes through the same walk. Were the
page not there, the kernel would fault itself; such an operation returns `none`.
-/

namespace DuvuvurKernel

open Lib.TableTrees

/-- A page found by the processor. -/
structure Page where
  /-- The frame. -/
  frame : ℕ
  /-- All entries on the way are writable. -/
  writable : Bool
  /-- All entries on the way are open to user mode. -/
  user : Bool
  deriving DecidableEq

/-- The walk through the page maps below an entry of height `n`, to the page with number
`k`. -/
def walk (mem : ℕ → ℕ → PageMapEntry) : ℕ → PageMapEntry → ℕ → Option Page
  | 0, e, _ => if e.present then some ⟨e.pointer, e.writable, e.user⟩ else none
  | n + 1, e, k =>
    if ¬ e.present then none
    else if e.hugePage then some ⟨e.pointer + k, e.writable, e.user⟩
    else (walk mem n (mem e.pointer (k / 512 ^ n)) (k % 512 ^ n)).map fun p =>
      ⟨p.frame, e.writable && p.writable, e.user && p.user⟩

/-- `FileMapping`. -/
structure FileMapping where
  fd : ℕ
  vaddrBegin : ℕ
  vaddrEnd : ℕ
  deriving DecidableEq

/-- What `HandlePageFault` reads of the current task. -/
structure TaskMemory where
  /-- `DPagingBegin`. -/
  dpagingBegin : ℕ
  /-- `DPagingEnd`. -/
  dpagingEnd : ℕ
  /-- `FileMaps`. -/
  fileMaps : List FileMapping
  /-- The bytes that `Load` of 4096 bytes reads, by descriptor and offset. -/
  load : ℕ → ℕ → List UInt8
  load_le : ∀ fd offset, (load fd offset).length ≤ 4096

/-- The bytes stored from the start of a frame on. -/
def storeBytes (words : ℕ → PageMapEntry) (bytes : List UInt8) : ℕ → PageMapEntry :=
  (bytes.zipIdx).foldl (fun words b =>
    Function.update words (b.2 / 8) ((words (b.2 / 8)).setByte (b.2 % 8) b.1)) words

namespace Machine

/-- The page of an address. -/
def translate (s : Machine) (addr : LinearAddress4Level) : Option Page :=
  walk s.mem 3 (s.mem s.cr3 (addr.part 4)) (addr.pageNumber 3)

/-- An access faults with an error code: the page is not there, or does not allow it. -/
def Raises (s : Machine) (addr : LinearAddress4Level) (errorCode : ℕ) : Prop :=
  match s.translate addr with
  | none => errorCode % 2 = 0
  | some p => errorCode % 2 = 1 ∧ errorCode / 4 % 2 = 1 ∧
      (p.user = false ∨ errorCode / 2 % 2 = 1 ∧ p.writable = false)

/-- `FindFileMapping`. -/
def findFileMapping (fmaps : List FileMapping) (causalVaddr : ℕ) : Option FileMapping :=
  fmaps.find? fun m => m.vaddrBegin ≤ causalVaddr ∧ causalVaddr < m.vaddrEnd

/-- The page address of an address. -/
def pageVaddr (addr : LinearAddress4Level) : LinearAddress4Level := { addr with offset := ⟨0, by decide⟩ }

/-- `PreparePageCache`. The offset in the file is an unsigned subtraction. -/
def preparePageCache (s : Machine) (t : TaskMemory) (m : FileMapping) (causalVaddr : ℕ) :
    Option (Except Error Unit × Machine) :=
  let addr := pageVaddr (.ofValue causalVaddr)
  match s.setupPageMaps addr 1 true with
  | (.error err, s) => some (.error err, s)
  | (.ok _, s) => do
    let fileOffset := (addr.value + 2 ^ 64 - m.vaddrBegin) % 2 ^ 64
    let page ← s.translate addr
    return (.ok (), s.setFrame page.frame (storeBytes (s.mem page.frame) (t.load m.fd fileOffset)))

/-- `CopyOnePage`. -/
def copyOnePage (s : Machine) (causalAddr : ℕ) : Option (Except Error Unit × Machine) :=
  match s.newPageMap with
  | (.error err, s) => some (.error err, s)
  | (.ok frame, s) => do
    let page ← s.translate (pageVaddr (.ofValue causalAddr))
    let s := s.setFrame frame (s.mem page.frame)
    return (.ok (), setPageContent (.ofValue causalAddr) frame 3 s.cr3 s)

/-- `HandlePageFault`. -/
def handlePageFault (s : Machine) (t : TaskMemory) (errorCode causalAddr : ℕ) :
    Option (Except Error Unit × Machine) :=
  let present := errorCode % 2 = 1
  let rw := errorCode / 2 % 2 = 1
  let user := errorCode / 4 % 2 = 1
  if present ∧ rw ∧ user then
    s.copyOnePage causalAddr
  else if present then
    some (.error .alreadyAllocated, s)
  else if t.dpagingBegin ≤ causalAddr ∧ causalAddr < t.dpagingEnd then
    match s.setupPageMaps (.ofValue causalAddr) 1 true with
    | (.error err, s) => some (.error err, s)
    | (.ok _, s) => some (.ok (), s)
  else
    match findFileMapping t.fileMaps causalAddr with
    | some m => s.preparePageCache t m causalAddr
    | none => some (.error .indexOutOfRange, s)

end Machine

@[simp] theorem Machine.translate_pageVaddr (s : Machine) (addr : LinearAddress4Level) :
    s.translate (pageVaddr addr) = s.translate addr := rfl

/-! ### The walk through usable page maps -/

variable {mem : ℕ → ℕ → PageMapEntry} {s s' s₁ : Machine} {T : Finset ℕ} {n pageMap i k frame : ℕ}
  {e : PageMapEntry} {p : Page} {addr : LinearAddress4Level} {own : Bool}

theorem slot_mem (hk : k < 512 ^ (n + 1)) : k / 512 ^ n ∈ slots :=
  mem_slots.mpr (Nat.div_lt_of_lt_mul (by rwa [Nat.pow_succ] at hk))

/-- One step of the walk. -/
theorem walk_succ (hp : e.present = true) (hh : e.hugePage = false) : walk mem (n + 1) e k =
    (walk mem n (mem e.pointer (k / 512 ^ n)) (k % 512 ^ n)).map fun p =>
      ⟨p.frame, e.writable && p.writable, e.user && p.user⟩ := by
  simp [walk, hp, hh]

theorem walk_absent (hp : e.present = false) : walk mem n e k = none := by
  cases n <;> simp [walk, hp]

/-- Only through entries that are present a page is found. -/
theorem present_of_walk {p : Page} (hw : walk mem n e k = some p) : e.present = true := by
  by_contra habs
  rw [walk_absent (Bool.eq_false_iff.mpr habs)] at hw
  cases hw

/-- The processor finds the pages of usable page maps, open to user mode. -/
theorem walk_frame (hu : Every (format own) slots mem Usable n e) (hk : k < 512 ^ n) :
    (walk mem n e k).map Page.frame = pageBelow mem n e k ∧
      ∀ p, walk mem n e k = some p → p.user = true := by
  induction n generalizing e k with
  | zero =>
    cases hp : e.present with
    | false => simp [walk, pageBelow, hp]
    | true =>
      have huser := (hu.1 hp).1
      simp [walk, pageBelow, hp, huser]
  | succ n ih =>
    cases hp : e.present with
    | false => simp [walk_absent hp, pageBelow, hp]
    | true =>
      have hroot := hu.root
      have hchild := hu.2 _ (child_present hp) _ (slot_mem hk)
      obtain ⟨hframe, huser⟩ := ih hchild (Nat.mod_lt k (Nat.pow_pos (by decide)))
      rw [walk_succ hp (hroot.2 (Nat.succ_pos n)), pageBelow, if_pos hp, ← hframe, Option.map_map]
      refine ⟨rfl, fun p hw => ?_⟩
      obtain ⟨q, hq, rfl⟩ := Option.map_eq_some_iff.mp hw
      simp [(hroot.1 hp).1, huser q hq]

/-- The walk depends on the page maps below the entry only. -/
theorem walk_congr {mem' : ℕ → ℕ → PageMapEntry} (hk : k < 512 ^ n)
    (h : ∀ x ∈ held (format false) slots mem n e, mem' x = mem x) : walk mem' n e k = walk mem n e k := by
  induction n generalizing e k with
  | zero => rfl
  | succ n ih =>
    cases hp : e.present with
    | false => rw [walk_absent hp, walk_absent hp]
    | true =>
      cases hh : e.hugePage with
      | true => simp [walk, hp, hh]
      | false =>
        have hchild : (format false).child e = some e.pointer := child_present hp
        rw [walk_succ hp hh, walk_succ hp hh, h e.pointer (mem_tables_child hchild),
          ih (Nat.mod_lt k (Nat.pow_pos (by decide))) fun x hx =>
            h x (mem_tables_of_child hchild (slot_mem hk) hx)]

/-- A page that may be written belongs to the page map, and is not one of the page maps. -/
theorem walk_owned (hs : Sound true s T n pageMap) (hi : i ∈ T)
    (hu : Every (format true) slots s.mem Usable n (s.mem pageMap i)) (hk : k < 512 ^ n)
    (hw : walk s.mem n (s.mem pageMap i) k = some p) (hp : p.writable = true) :
    p.frame ∈ held (format true) slots s.mem n (s.mem pageMap i) ∧
      p.frame ∉ {pageMap} + s.below false T n pageMap := by
  induction n generalizing T pageMap i k p with
  | zero =>
    have hpres : (s.mem pageMap i).present = true := present_of_walk hw
    have hpage : p = ⟨(s.mem pageMap i).pointer, (s.mem pageMap i).writable, (s.mem pageMap i).user⟩ := by
      simpa [walk, hpres] using hw.symm
    subst hpage
    have hmem : (s.mem pageMap i).pointer ∈ held (format true) slots s.mem 0 (s.mem pageMap i) := by
      rw [held_leaf_of_writable hpres hp]
      exact Multiset.mem_singleton_self _
    refine ⟨hmem, fun hin => ?_⟩
    rw [Multiset.mem_add, Multiset.mem_singleton] at hin
    rcases hin with hin | hin
    · exact hs.ne_of_mem hi hmem hin
    · obtain ⟨j, -, hj⟩ := mem_below.mp hin
      rw [held_leaf_false] at hj
      exact Multiset.notMem_zero _ hj
  | succ n ih =>
    have hpres : (s.mem pageMap i).present = true := present_of_walk hw
    rw [walk_succ hpres (hu.root.2 (Nat.succ_pos n))] at hw
    obtain ⟨q, hq, rfl⟩ := Option.map_eq_some_iff.mp hw
    have hqw : q.writable = true := (Bool.and_eq_true_iff.mp hp).2
    have hslot := slot_mem hk
    obtain ⟨hmem, hout⟩ := ih (hs.child hi hpres) hslot (hu.2 _ (child_present hpres) _ hslot)
      (Nat.mod_lt k (Nat.pow_pos (by decide))) hq hqw
    have hheld : q.frame ∈ held (format true) slots s.mem (n + 1) (s.mem pageMap i) := by
      rw [held_succ_format hpres, Multiset.mem_add]
      exact .inr (mem_below.mpr ⟨_, hslot, hmem⟩)
    refine ⟨hheld, fun hin => ?_⟩
    rw [Multiset.mem_add, Multiset.mem_singleton] at hin
    rcases hin with hin | hin
    · exact hs.ne_of_mem hi hheld hin
    · obtain ⟨j, hj, hjm⟩ := mem_below.mp hin
      by_cases hji : j = i
      · rw [hji, held_succ_format hpres] at hjm
        exact hout hjm
      · have hle : tables (format true) slots s.mem (n + 1) (s.mem pageMap j) ≤ _ := tables_le_held
        rw [tables_format] at hle
        exact hs.notMem_of_mem hi hj (Ne.symm hji) hheld (Multiset.mem_of_le hle hjm)

/-! ### Copying a page -/

theorem pageNumber_div_mod (addr : LinearAddress4Level) (n : ℕ) :
    addr.pageNumber (n + 1) / 512 ^ n = addr.part (n + 1) ∧
      addr.pageNumber (n + 1) % 512 ^ n = addr.pageNumber n := by
  have hlt := addr.pageNumber_lt (n := n)
  rw [LinearAddress4Level.pageNumber, Nat.mul_comm]
  constructor
  · rw [Nat.mul_add_div (Nat.pow_pos (by decide)), Nat.div_eq_of_lt hlt, Nat.add_zero]
  · rw [Nat.mul_add_mod, Nat.mod_eq_of_lt hlt]

/-- At the last level `SetPageContent` leads one entry to the new page. -/
theorem newEntry_setPageContent (addr : LinearAddress4Level) (hself : s₁.mem pageMap = s.mem pageMap)
    (htakes : Takes s s₁ {frame}) (hmem : ∀ x, x ≠ frame → s₁.mem x = s.mem x) :
    NewEntry s (Machine.setPageContent addr frame 0 pageMap s₁) 0 pageMap (addr.part 1)
      (((s.mem pageMap (addr.part 1)).setPointer frame).setWritable true) frame := by
  have hset : Machine.setPageContent addr frame 0 pageMap s₁ = s₁.setEntry pageMap (addr.part 1)
      (((s.mem pageMap (addr.part 1)).setPointer frame).setWritable true) := by
    rw [Machine.setPageContent, hself]
  rw [hset]
  refine ⟨?_, fun j => ?_, fun h0 => absurd h0 (Nat.lt_irrefl 0), fun x hx hxf => ?_⟩
  · have hsame : Takes s₁ (s₁.setEntry pageMap (addr.part 1)
        (((s.mem pageMap (addr.part 1)).setPointer frame).setWritable true)) 0 := .of_eq rfl rfl
    have ht := htakes.trans hsame
    rwa [add_zero] at ht
  · simp only [Machine.setEntry, Function.update_self, hself]
  · exact (Function.update_of_ne hx _ _).trans (hmem x hxf)

/-- **`SetPageContent`** gives the page map a new page, in the place of one that it shares. -/
theorem setPageContent_spec (hs : Sound true s T n pageMap) (hi : addr.part (n + 1) ∈ T)
    (hu : Every (format true) slots s.mem Usable n (s.mem pageMap (addr.part (n + 1))))
    (hw : walk s.mem n (s.mem pageMap (addr.part (n + 1))) (addr.pageNumber n) = some p)
    (hp : p.writable = false) (htakes : Takes s s₁ {frame}) (hmem : ∀ x, x ≠ frame → s₁.mem x = s.mem x) :
    Grows true s (Machine.setPageContent addr frame n pageMap s₁) T n pageMap
      {k | k = addr.pageNumber (n + 1)} 0 {frame} ∧
    pageIn (Machine.setPageContent addr frame n pageMap s₁).mem n pageMap (addr.pageNumber (n + 1)) = some frame := by
  have hpres : (s.mem pageMap (addr.part (n + 1))).present = true := present_of_walk hw
  have hself : s₁.mem pageMap = s.mem pageMap := hmem pageMap (htakes.ne hs.pageMap_allocated)
  induction n generalizing T pageMap p with
  | zero =>
    have hpage : p = ⟨(s.mem pageMap (addr.part 1)).pointer, (s.mem pageMap (addr.part 1)).writable,
        (s.mem pageMap (addr.part 1)).user⟩ := by
      simpa [walk, hpres] using hw.symm
    subst hpage
    have hptr : ((s.mem pageMap (addr.part 1)).setPointer frame).pointer = frame :=
      pointer_setPointer (htakes.isFree frame (Multiset.mem_singleton_self _)).lt
    have hnew := newEntry_setPageContent addr hself htakes hmem
    obtain ⟨Y, Z, hYZ, hZ, -, hg⟩ := Grows.new hs hi (.inr ⟨rfl, fun _ => hp⟩) hnew hpres hptr
      (fun _ h0 => absurd h0 (Nat.lt_irrefl 0)) (fun hold => (hold.1 hpres).1)
      (fun h0 => absurd h0 (Nat.lt_irrefl 0)) fun _ => rfl
    obtain rfl := hZ rfl
    have hY : Y = 0 := by
      have hcard := congrArg Multiset.card hYZ
      rw [Multiset.card_add, Multiset.card_singleton] at hcard
      exact Multiset.card_eq_zero.mp (by omega)
    rw [hY] at hg
    have hk : addr.pageNumber 1 = addr.part 1 := by simp [LinearAddress4Level.pageNumber]
    refine ⟨hg.mono ?_, ?_⟩
    · rintro k ⟨-, rfl⟩
      exact hk.symm
    · rw [pageIn, hk, Nat.pow_zero, Nat.div_one, hnew.pageMap_mem, Function.update_self, pageBelow]
      simp [hpres, hptr]
  | succ n ih =>
    rw [walk_succ hpres (hu.root.2 (Nat.succ_pos n))] at hw
    obtain ⟨q, hq, rfl⟩ := Option.map_eq_some_iff.mp hw
    obtain ⟨hdiv, hmod⟩ := pageNumber_div_mod addr n
    rw [hdiv, hmod] at hq
    have hqw : q.writable = false := by
      have hroot := ((hu.root).1 hpres).2 (Nat.succ_pos n)
      simpa [hroot] using hp
    have hslot : addr.part (n + 1) ∈ slots := mem_slots.mpr (addr.part_lt (Nat.succ_ne_zero n))
    have hsound := hs.child hi hpres
    have hchildPres : (s.mem (s.mem pageMap (addr.part (n + 2))).pointer (addr.part (n + 1))).present = true := present_of_walk hq
    obtain ⟨hg, hpage⟩ := ih hsound hslot (hu.2 _ (child_present hpres) _ hslot) hq hqw hchildPres
      (hmem _ (htakes.ne hsound.pageMap_allocated))
    have hset : Machine.setPageContent addr frame (n + 1) pageMap s₁ =
        Machine.setPageContent addr frame n (s.mem pageMap (addr.part (n + 2))).pointer s₁ := by
      rw [Machine.setPageContent, hself]
    rw [hset]
    refine ⟨(hg.lift hs hi hpres).mono ?_, ?_⟩
    · rintro k ⟨hki, hk⟩
      have hk' : k % 512 ^ (n + 1) = addr.pageNumber (n + 1) := hk
      have hdm := Nat.div_add_mod k (512 ^ (n + 1))
      rw [hki, hk', Nat.mul_comm] at hdm
      exact hdm.symm
    · obtain ⟨hdiv', hmod'⟩ := pageNumber_div_mod addr (n + 1)
      rw [pageIn, hdiv', hmod', hg.pageMap_eq hs hi hpres, pageBelow_succ hpres]
      exact hpage

/-- The new page itself is not written to. -/
theorem setPageContent_frame (hs : Sound true s T n pageMap) (hi : addr.part (n + 1) ∈ T)
    (hu : Every (format true) slots s.mem Usable n (s.mem pageMap (addr.part (n + 1))))
    (hw : walk s.mem n (s.mem pageMap (addr.part (n + 1))) (addr.pageNumber n) = some p)
    (htakes : Takes s s₁ {frame}) (hmem : ∀ x, x ≠ frame → s₁.mem x = s.mem x) :
    (Machine.setPageContent addr frame n pageMap s₁).mem frame = s₁.mem frame := by
  have hne := htakes.ne hs.pageMap_allocated
  induction n generalizing T pageMap p with
  | zero => exact Function.update_of_ne (Ne.symm hne) _ _
  | succ n ih =>
    have hpres : (s.mem pageMap (addr.part (n + 2))).present = true := present_of_walk hw
    rw [walk_succ hpres (hu.root.2 (Nat.succ_pos n))] at hw
    obtain ⟨q, hq, -⟩ := Option.map_eq_some_iff.mp hw
    obtain ⟨hdiv, hmod⟩ := pageNumber_div_mod addr n
    rw [hdiv, hmod] at hq
    have hslot : addr.part (n + 1) ∈ slots := mem_slots.mpr (addr.part_lt (Nat.succ_ne_zero n))
    have hsound := hs.child hi hpres
    have hbelow := ih hsound hslot (hu.2 _ (child_present hpres) _ hslot) hq (htakes.ne hsound.pageMap_allocated)
    rwa [← hmem pageMap hne] at hbelow

end DuvuvurKernel
