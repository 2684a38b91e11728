import DuvuvurKernel.Paging.Mapping
import DuvuvurKernel.Paging.ReadOnlyCopy

/-!
# Copies of pages in a copy of page maps

`CopyOnePage` gives the page map in use a page of its own for one that it shares. In a page map made
by `CopyPageMaps` this changes one page only, and nothing of the page maps copied from,
however many pages have been copied and written to before (`copyOnePage_only`).
-/

namespace DuvuvurKernel

open Lib.TableTrees

/-- One page of a page map has a new entry. -/
structure SetsPage (s s' : Machine) (T : Finset ℕ) (n pageMap k : ℕ) (e' : PageMapEntry) : Prop where
  adds : Adds s s' T n pageMap 0
  top : ∀ i ∉ T, s'.mem pageMap i = s.mem pageMap i
  page : leafIn s'.mem n pageMap k = some e'
  others : ∀ k' ≠ k, k' / 512 ^ n ∈ T → leafIn s'.mem n pageMap k' = leafIn s.mem n pageMap k' ∧
    walk s'.mem n (s'.mem pageMap (k' / 512 ^ n)) (k' % 512 ^ n) = walk s.mem n (s.mem pageMap (k' / 512 ^ n))
      (k' % 512 ^ n)
  plain : Plain s T n pageMap → Plain s' T n pageMap

variable {s s' s₁ s₂ s₃ : Machine} {T : Finset ℕ} {n pageMap dest src i k frame : ℕ} {e e' : PageMapEntry}
    {addr : LinearAddress4Level}

/-- What is done below one entry. -/
theorem SetsPage.of_entry (hs : Sound false s T n pageMap) (hi : i ∈ T) (hsame : Takes s s' 0)
    (hmem : ∀ x, x ≠ pageMap → x ∉ held (format false) slots s.mem n (s.mem pageMap i) → s'.mem x = s.mem x)
    (hentries : ∀ j, j ≠ i → s'.mem pageMap j = s.mem pageMap j)
    (htables : held (format false) slots s'.mem n (s'.mem pageMap i) =
      held (format false) slots s.mem n (s.mem pageMap i))
    (hpage : leafIn s'.mem n pageMap k = some e')
    (hothers : ∀ k' ≠ k, k' / 512 ^ n = i → leafIn s'.mem n pageMap k' = leafIn s.mem n pageMap k' ∧
      walk s'.mem n (s'.mem pageMap i) (k' % 512 ^ n) = walk s.mem n (s.mem pageMap i) (k' % 512 ^ n))
    (hplain : Every (format false) slots s.mem NoHuge n (s.mem pageMap i) →
      Every (format false) slots s'.mem NoHuge n (s'.mem pageMap i)) : SetsPage s s' T n pageMap k e' := by
  obtain ⟨hadds, hother⟩ := Adds.of_entry hs hi hsame (fun x hx hout _ => hmem x hx hout) hentries
    (by rw [htables, add_zero])
  refine ⟨hadds, fun j hj => hentries j (fun hji => hj (hji ▸ hi)), hpage, fun k' hk' hT => ?_, fun hp j hj => ?_⟩
  · by_cases hki : k' / 512 ^ n = i
    · rw [hki]
      exact hothers k' hk' hki
    · have hmod := Nat.mod_lt k' (Nat.pow_pos (n := n) (by decide : 0 < 512))
      have hheld := hother _ hT hki
      rw [leafIn, leafIn, hentries _ hki]
      exact ⟨leafBelow_congr hmod hheld, walk_congr hmod hheld⟩
  · by_cases hji : j = i
    · rw [hji]
      exact hplain (hp i hi)
    · rw [hentries j hji]
      exact every_congr (hother j hj hji) (hp j hj)

/-- **`SetPageContent`** changes the entry of one page. -/
theorem setPageContent_sets (hs : Sound false s T n pageMap) (hi : addr.part (n + 1) ∈ T)
    (he : leafIn s.mem n pageMap (addr.pageNumber (n + 1)) = some e) :
    SetsPage s (Machine.setPageContent addr frame n pageMap s) T n pageMap (addr.pageNumber (n + 1))
      ((e.setPointer frame).setWritable true) := by
  induction n generalizing T pageMap with
  | zero =>
    obtain ⟨hdiv, hmod⟩ := pageNumber_div_mod addr 0
    have hp := present_of_leafIn hdiv he
    rw [leafIn, hdiv, hmod] at he
    have hself : e = s.mem pageMap (addr.part 1) := by
      rw [leafBelow_zero, if_pos hp, Option.some.injEq] at he
      exact he.symm
    subst hself
    have hentry := s.setEntry_mem pageMap (addr.part 1)
      (((s.mem pageMap (addr.part 1)).setPointer frame).setWritable true)
    apply SetsPage.of_entry hs hi
    · exact .of_eq rfl rfl
    · exact fun x hx _ => Function.update_of_ne hx _ _
    · exact fun j hj => by simp [Machine.setPageContent, Machine.setEntry, hj]
    · rw [held_leaf_false, held_leaf_false]
    · rw [leafIn, hdiv, Machine.setPageContent, hentry, leafBelow_zero, if_pos (by exact hp)]
    · intro k' hk' hki
      rw [Nat.pow_zero, Nat.div_one] at hki hdiv
      exact absurd (hki.trans hdiv.symm) hk'
    · exact fun _ h0 => absurd h0 (Nat.lt_irrefl 0)
  | succ n ih =>
    have hslot : addr.part (n + 1) ∈ slots := mem_slots.mpr (addr.part_lt (Nat.succ_ne_zero n))
    obtain ⟨hdiv, hmod⟩ := pageNumber_div_mod addr (n + 1)
    have hp := present_of_leafIn hdiv he
    rw [leafIn, hdiv, hmod, leafBelow_succ hp] at he
    obtain ⟨hadds, -, hpage, hothers, hplain⟩ := ih (hs.child hi hp) hslot he
    rw [Machine.setPageContent]
    generalize Machine.setPageContent addr frame n (s.mem pageMap (addr.part (n + 2))).pointer s =
      s' at hadds hpage hothers hplain
    -- The page map itself has not changed, only what is below the entry.
    have hout : pageMap ∉ held (format false) slots s.mem (n + 1) (s.mem pageMap (addr.part (n + 2))) :=
      fun hm => hs.ne_of_mem hi hm rfl
    rw [held_succ_format hp, Multiset.mem_add, Multiset.mem_singleton, not_or] at hout
    have hself : s'.mem pageMap = s.mem pageMap := hadds.frame _ hout.1 hout.2 (Multiset.notMem_zero _)
    apply SetsPage.of_entry hs hi hadds.takes
    · intro x _ hx
      rw [held_succ_format hp, Multiset.mem_add, Multiset.mem_singleton, not_or] at hx
      exact hadds.frame x hx.1 hx.2 (Multiset.notMem_zero _)
    · exact fun j _ => by rw [hself]
    · rw [hself, held_succ_format hp, held_succ_format hp, hadds.tables, add_zero]
    · rw [leafIn, hdiv, hmod, hself, leafBelow_succ hp]
      exact hpage
    · intro k' hk' hki
      have hlt : k' % 512 ^ (n + 1) < 512 ^ (n + 1) := Nat.mod_lt _ (Nat.pow_pos (by decide))
      have hne : k' % 512 ^ (n + 1) ≠ addr.pageNumber (n + 1) := by
        intro heq
        have hk := Nat.div_add_mod k' (512 ^ (n + 1))
        rw [hki, heq, ← hdiv, ← hmod, Nat.div_add_mod] at hk
        exact hk' hk.symm
      obtain ⟨hleaf, hwalk⟩ := hothers _ hne (slot_mem hlt)
      rw [leafIn, leafIn, hki, hself, leafBelow_succ hp, leafBelow_succ hp]
      refine ⟨hleaf, ?_⟩
      cases hh : (s.mem pageMap (addr.part (n + 2))).hugePage with
      | true => simp [walk, hp, hh]
      | false => rw [walk_succ hp hh, walk_succ hp hh, hwalk]
    · intro hev
      rw [hself]
      refine ⟨hev.1, fun c hc => ?_⟩
      rw [child_present hp, Option.some.injEq] at hc
      subst hc
      exact hplain (hev.2 _ (child_present hp))

/-! ### One page is copied -/

/-- What a change of other frames than page maps leaves as it is. -/
theorem Sound.of_tables_eq (hs : Sound false s T n pageMap)
    (hused : ∀ f, s.memoryManager.getBit f = true → s'.memoryManager.getBit f = true)
    (hmem : ∀ x ∈ {pageMap} + s.below false T n pageMap, s'.mem x = s.mem x) :
    Sound false s' T n pageMap ∧ s'.below false T n pageMap = s.below false T n pageMap ∧
      s'.mem pageMap = s.mem pageMap ∧ (∀ k, k / 512 ^ n ∈ T → leafIn s'.mem n pageMap k = leafIn s.mem n pageMap k ∧
      walk s'.mem n (s'.mem pageMap (k / 512 ^ n)) (k % 512 ^ n) = walk s.mem n (s.mem pageMap (k / 512 ^ n))
        (k % 512 ^ n)) ∧
    (Plain s T n pageMap → Plain s' T n pageMap) := by
  have hself : s'.mem pageMap = s.mem pageMap := pageMap_congr hmem
  have hbelow : s'.below false T n pageMap = s.below false T n pageMap := Machine.below_congr hmem
  refine ⟨⟨?_, fun f hf => ?_⟩, hbelow, hself, fun k hk => ?_, every_entry_congr hmem⟩
  · rw [hbelow]
    exact hs.nodup
  · rw [hbelow] at hf
    exact hused f (hs.allocated f hf)
  · have hmod := Nat.mod_lt k (Nat.pow_pos (n := n) (by decide : 0 < 512))
    have hheld := fun x hx => hmem x (mem_pageMaps hk hx)
    rw [leafIn, leafIn, hself]
    exact ⟨leafBelow_congr hmod hheld, walk_congr hmod hheld⟩

/-- The page with number `k` has been copied to a new frame. -/
structure CopiesPage (s s' : Machine) (pml4 k : ℕ) (e : PageMapEntry) (frame : ℕ) : Prop where
  takes : Takes s s' {frame}
  tables : s'.below false app 3 pml4 = s.below false app 3 pml4
  top : ∀ i ∉ app, s'.mem pml4 i = s.mem pml4 i
  page : leafIn s'.mem 3 pml4 k = some ((e.setPointer frame).setWritable true)
  content : s'.mem frame = s.mem e.pointer
  others : ∀ k' ≠ k, k' / 512 ^ 3 ∈ app → leafIn s'.mem 3 pml4 k' = leafIn s.mem 3 pml4 k' ∧
    walk s'.mem 3 (s'.mem pml4 (k' / 512 ^ 3)) (k' % 512 ^ 3) = walk s.mem 3 (s.mem pml4 (k' / 512 ^ 3)) (k' % 512 ^ 3)
  frames : ∀ f, f ∉ {pml4} + s.below false app 3 pml4 → f ≠ frame → s'.mem f = s.mem f
  plain : Plain s' app 3 pml4

theorem AppAddress.slot_mem {v : ℕ} (hv : AppAddress v) :
    (LinearAddress4Level.ofValue v).pageNumber 4 / 512 ^ 3 ∈ app := by
  rw [(pageNumber_div_mod (.ofValue v) 3).1]
  exact mem_app.mpr ⟨hv.part, LinearAddress4Level.part_lt (by decide)⟩

/-- An allocation does not change where the processor finds the pages. -/
theorem AddressSpace.translate_takes (h : AddressSpace s s.cr3) (htakes : Takes s s₁ {frame})
    (hmem : s₁.mem = Function.update s.mem frame fun _ => .zero) {v : ℕ} (hv : AppAddress v) :
    s₁.translate (.ofValue v) = s.translate (.ofValue v) := by
  obtain ⟨hdiv, hmod⟩ := pageNumber_div_mod (.ofValue v) 3
  have hsame : ∀ x ∈ {s.cr3} + s.below false app 3 s.cr3, s₁.mem x = s.mem x := fun x hx => by
    rw [hmem, Function.update_of_ne (htakes.ne (h.tables.allocated x hx))]
  obtain ⟨-, -, -, hpages, -⟩ := h.tables.of_tables_eq (fun f => htakes.mono) hsame
  have hk := (hpages _ hv.slot_mem).2
  rw [hdiv, hmod] at hk
  rw [Machine.translate, Machine.translate, htakes.cr3, hk]

/-- A page that is not there cannot be copied. -/
theorem copyOnePage_absent {v : ℕ} {res : Except Error Unit} (hspace : AddressSpace s s.cr3) (hv : AppAddress v)
    (he : leafIn s.mem 3 s.cr3 ((LinearAddress4Level.ofValue v).pageNumber 4) = none)
    (h : s.copyOnePage v = some (res, s')) : s' = s := by
  obtain ⟨hdiv, hmod⟩ := pageNumber_div_mod (.ofValue v) 3
  have hnone : s.translate (.ofValue v) = none := by
    rw [leafIn, hdiv, hmod] at he
    exact walk_eq_none_of_leaf (hspace.plain _ (hdiv ▸ hv.slot_mem)) LinearAddress4Level.pageNumber_lt he
  unfold Machine.copyOnePage at h
  rcases newPageMap_cases s with ⟨frame, s₁, hnew, htakes, hmem⟩ | ⟨hnew, -⟩
  · simp [hnew, hspace.translate_takes htakes hmem hv, hnone] at h
  · rw [hnew] at h
    cases h
    rfl

/-- A new frame has got the contents of the page, and then its place. -/
theorem CopiesPage.of_sets {pml4 : ℕ} (hs : Sound false s app 3 pml4) (hp : Plain s app 3 pml4)
    (htakes : Takes s s₁ {frame}) (hmem : s₁.mem = Function.update s.mem frame (s.mem e.pointer))
    (h : SetsPage s₁ s' app 3 pml4 k ((e.setPointer frame).setWritable true)) : CopiesPage s s' pml4 k e frame := by
  have hsame : ∀ x ∈ {pml4} + s.below false app 3 pml4, s₁.mem x = s.mem x := fun x hx => by
    rw [hmem, Function.update_of_ne (htakes.ne (hs.allocated x hx))]
  obtain ⟨-, hbelow, hself, hpages, hplain₁⟩ := hs.of_tables_eq (fun f => htakes.mono) hsame
  obtain ⟨hadds, htop, hpage, hothers, hplain⟩ := h
  have hrest : ∀ f, f ∉ {pml4} + s.below false app 3 pml4 → s'.mem f = s₁.mem f := by
    intro f hf
    rw [Multiset.mem_add, Multiset.mem_singleton, not_or] at hf
    exact hadds.frame f hf.1 (hbelow ▸ hf.2) (Multiset.notMem_zero f)
  constructor
  case takes =>
    have ht := htakes.trans hadds.takes
    rwa [add_zero] at ht
  case tables => rw [hadds.tables, add_zero, hbelow]
  case top => exact fun i hi => by rw [htop i hi, hself]
  case page => exact hpage
  case content => rw [hrest frame fun hm => htakes.ne (hs.allocated frame hm) rfl, hmem, Function.update_self]
  case others =>
    intro k' hk' hk
    obtain ⟨hleaf, hwalk⟩ := hothers k' hk' hk
    exact ⟨hleaf.trans (hpages k' hk).1, hwalk.trans (hpages k' hk).2⟩
  case frames =>
    intro f hf hne
    rw [hrest f hf, hmem, Function.update_of_ne hne]
  case plain => exact hplain (hplain₁ hp)

theorem copyOnePage_cases {v : ℕ} (hspace : AddressSpace s s.cr3) (hv : AppAddress v)
    (he : leafIn s.mem 3 s.cr3 ((LinearAddress4Level.ofValue v).pageNumber 4) = some e) :
    s.copyOnePage v = some (.error .noEnoughMemory, s) ∨ ∃ frame s', s.copyOnePage v = some (.ok (), s') ∧
      CopiesPage s s' s.cr3 ((LinearAddress4Level.ofValue v).pageNumber 4) e frame := by
  have hs := hspace.tables
  have htranslate := fun frame s₁ (htakes : Takes s s₁ {frame}) hmem => hspace.translate_takes htakes hmem hv
  have happ := hv.slot_mem
  unfold Machine.copyOnePage
  generalize LinearAddress4Level.ofValue v = addr at he htranslate happ ⊢
  obtain ⟨hdiv, hmod⟩ := pageNumber_div_mod addr 3
  have hslot : addr.part 4 ∈ app := hdiv ▸ happ
  rcases newPageMap_cases s with ⟨frame, s₁, hnew, htakes, hmem⟩ | ⟨hnew, -⟩
  · right
    have hsame : ∀ x, s.memoryManager.getBit x = true → s₁.mem x = s.mem x := fun x hx => by
      rw [hmem, Function.update_of_ne (htakes.ne hx)]
    -- The processor still finds the page, in its old frame.
    obtain ⟨p, hw, hpf⟩ : ∃ p, s₁.translate (Machine.pageVaddr addr) = some p ∧ p.frame = e.pointer := by
      have hwalk := walk_plain (hspace.plain _ hslot) (addr.pageNumber_lt (n := 3))
      have hleaf : leafBelow s.mem 3 (s.mem s.cr3 (addr.part 4)) (addr.pageNumber 3) = some e := by
        rwa [leafIn, hdiv, hmod] at he
      rw [hleaf, Option.map_some, Option.map_eq_some_iff] at hwalk
      obtain ⟨p, hp, hpf⟩ := hwalk
      exact ⟨p, (htranslate frame s₁ htakes hmem).trans hp, hpf⟩
    have hused : s.memoryManager.getBit e.pointer = true := by
      refine hspace.pages (addr.pageNumber 4) e.pointer (hdiv ▸ hslot) ?_
      rw [pageIn_eq_leafIn, he]
      rfl
    have hcopied : Machine.mem (s₁.setFrame frame (s₁.mem p.frame)) =
        Function.update s.mem frame (s.mem e.pointer) := by
      rw [Machine.setFrame, hpf, hsame _ hused, hmem, Function.update_idem]
    have htakes₂ : Takes s (s₁.setFrame frame (s₁.mem p.frame)) {frame} := by
      have hfill : Takes s₁ (s₁.setFrame frame (s₁.mem p.frame)) 0 := .of_eq rfl rfl
      have ht := htakes.trans hfill
      rwa [add_zero] at ht
    refine ⟨frame, Machine.setPageContent addr frame 3 s.cr3 (s₁.setFrame frame (s₁.mem p.frame)), ?_, ?_⟩
    · simp only [hnew, hw, ← htakes.cr3]
      rfl
    generalize s₁.setFrame frame (s₁.mem p.frame) = s₂ at hcopied htakes₂
    have hsame₂ : ∀ x ∈ {s.cr3} + s.below false app 3 s.cr3, s₂.mem x = s.mem x := fun x hx => by
      rw [hcopied, Function.update_of_ne (htakes.ne (hs.allocated x hx))]
    obtain ⟨hs₂, -, -, hpages₂, -⟩ := hs.of_tables_eq (fun f => htakes₂.mono) hsame₂
    have hleaf₂ : leafIn s₂.mem 3 s.cr3 (addr.pageNumber 4) = some e := by rw [(hpages₂ _ (hdiv ▸ hslot)).1, he]
    exact .of_sets hs hspace.plain htakes₂ hcopied (setPageContent_sets hs₂ hslot hleaf₂)
  · left
    rw [hnew]

/-! ### After `CopyPageMaps` -/

/-- The frames that a copy of page maps shares or is made from: the page maps, and their pages. -/
def SharedFrame (s : Machine) (src f : ℕ) : Prop :=
  f ∈ {src} + s.below false app 3 src ∨ ∃ k, k / 512 ^ 3 ∈ app ∧ pageIn s.mem 3 src k = some f

/-- Page maps to copy, without huge pages, and an empty page map to copy them to. -/
structure CopyStart (s : Machine) (dest src : ℕ) : Prop where
  space : AddressSpace s dest
  empty : ∀ i ∈ app, (s.mem dest i).present = false
  plain : Plain s app 3 src
  inUse : ∀ f, SharedFrame s src f → s.memoryManager.getBit f = true ∧ f ≠ dest

/-- What `CopyPageMaps` has done. -/
structure CopiedMaps (s s' : Machine) (dest src : ℕ) : Prop where
  /-- The pages are those copied from, with the same flags, but not to be written to. -/
  pages : ∀ k, k / 512 ^ 3 ∈ app → ReadOnlyPage s.mem s'.mem 3 dest src k
  /-- The page maps are distinct frames that were free. -/
  tables : (s'.below false app 3 dest).Nodup ∧ (∀ f ∈ s'.below false app 3 dest, s.memoryManager.IsFree f) ∧
    ∀ f, s'.memoryManager.getBit f = true ↔ s.memoryManager.getBit f = true ∨ f ∈ s'.below false app 3 dest
  /-- All frames in use, those of the page maps copied from among them, are as before. -/
  frames : ∀ f, s.memoryManager.getBit f = true → f ≠ dest → s'.mem f = s.mem f
  source : ∀ k, k / 512 ^ 3 ∈ app → leafIn s'.mem 3 src k = leafIn s.mem 3 src k
  kernel : ∀ i < 256, s'.mem dest i = s.mem dest i

/-- What may be done to the copy later. -/
inductive LaterStep (dest : ℕ) : Machine → Machine → Prop where
  /-- A page is copied. -/
  | copyOnePage {s s' : Machine} {v : ℕ} {res : Except Error Unit} : s.cr3 = dest → AppAddress v →
      s.copyOnePage v = some (res, s') → LaterStep dest s s'
  /-- A page that may be written to is written to. -/
  | store {s : Machine} {v : ℕ} {page : Page} (words : ℕ → PageMapEntry) : s.cr3 = dest → AppAddress v →
      s.translate (.ofValue v) = some page → page.writable = true → LaterStep dest s (s.setFrame page.frame words)
  /-- Another page map is in use. -/
  | switch {s : Machine} (cr3 : ℕ) : LaterStep dest s { s with cr3 := cr3 }

/-- The page map is still a copy of the page maps that `src` was in the machine `s₀`. -/
structure CopyOf (s₀ s : Machine) (dest src : ℕ) : Prop where
  space : AddressSpace s dest
  apart : ∀ f, SharedFrame s₀ src f → s.memoryManager.getBit f = true ∧ f ∉ {dest} + s.below false app 3 dest
  unchanged : ∀ f, SharedFrame s₀ src f → s.mem f = s₀.mem f
  mapped : ∀ k, k / 512 ^ 3 ∈ app → (leafIn s.mem 3 dest k).isSome = (leafIn s₀.mem 3 src k).isSome
  pages : ∀ k e, k / 512 ^ 3 ∈ app → leafIn s.mem 3 dest k = some e → e.pointer ∉ {dest} + s.below false app 3 dest ∧
    (e.writable = true → ¬ SharedFrame s₀ src e.pointer ∧ ∀ page : LinearAddress4Level, page.part 4 < 256 →
      e.pointer ∉ tablesOnWay s.mem 3 (s.mem dest (page.part 4)) (page.pageNumber 3))

/-- One page has been copied, and nothing else has changed. -/
structure OnlyPage (s₀ s s' : Machine) (dest src k : ℕ) : Prop where
  /-- The page is in a new frame, with the same content. -/
  page : ∃ p p', walk s.mem 3 (s.mem dest (k / 512 ^ 3)) (k % 512 ^ 3) = some p ∧
    walk s'.mem 3 (s'.mem dest (k / 512 ^ 3)) (k % 512 ^ 3) = some p' ∧ s.memoryManager.IsFree p'.frame ∧
    s'.mem p'.frame = s.mem p.frame ∧ s'.mem p.frame = s.mem p.frame
  /-- All other pages of the application are where they were, with the same content. -/
  others : ∀ k' ≠ k, k' / 512 ^ 3 ∈ app →
    walk s'.mem 3 (s'.mem dest (k' / 512 ^ 3)) (k' % 512 ^ 3) = walk s.mem 3 (s.mem dest (k' / 512 ^ 3))
      (k' % 512 ^ 3) ∧
    ∀ p, walk s.mem 3 (s.mem dest (k' / 512 ^ 3)) (k' % 512 ^ 3) = some p → s'.mem p.frame = s.mem p.frame
  kernel : ∀ page : LinearAddress4Level, page.part 4 < 256 →
    walk s'.mem 3 (s'.mem dest (page.part 4)) (page.pageNumber 3) = walk s.mem 3 (s.mem dest (page.part 4))
      (page.pageNumber 3)
  /-- The page maps copied from and their pages are as they were. -/
  frames : ∀ f, SharedFrame s₀ src f → s'.mem f = s₀.mem f
  source : ∀ k, k / 512 ^ 3 ∈ app → leafIn s'.mem 3 src k = leafIn s₀.mem 3 src k

/-- Page maps that have not changed have the same entries of pages. -/
theorem leafIn_of_shared (h : ∀ f, SharedFrame s src f → s'.mem f = s.mem f) (hk : k / 512 ^ 3 ∈ app) :
    leafIn s'.mem 3 src k = leafIn s.mem 3 src k := by
  rw [leafIn, leafIn, h src (.inl (Multiset.mem_add.mpr (.inl (Multiset.mem_singleton_self _))))]
  refine leafBelow_congr (Nat.mod_lt k (by decide)) fun x hx => h x (.inl (Multiset.mem_add.mpr (.inr ?_)))
  exact mem_below.mpr ⟨_, hk, hx⟩

theorem CopyStart.below_eq (h : CopyStart s dest src) : s.below false app 3 dest = 0 :=
  below_of_absent fun i hi => child_absent (h.empty i hi)

/-- **`CopyPageMaps`** shares the pages, not to be written to, by page maps of its own. -/
theorem CopyStart.copied (h : CopyStart s dest src) (hcopy : Machine.copyPageMaps 3 dest src 256 s = (.ok (), s')) :
    CopiedMaps s s' dest src ∧ CopyOf s s' dest src := by
  have hsource : Source s app 3 dest src := by
    refine ⟨h.space.tables, fun f hf => (h.inUse f (.inl hf)).1, fun f hf => ⟨(h.inUse f (.inl hf)).2, ?_⟩, h.plain⟩
    rw [h.below_eq]
    exact Multiset.notMem_zero f
  have hT : ∀ j, 256 ≤ j → j < 512 → j ∈ app := fun j h1 h2 => mem_app.mpr ⟨h1, h2⟩
  obtain ⟨⟨Y, hadds⟩, hentries, -, hplain, hpages⟩ := copyPageMaps_readOnly hsource (by decide) hT
    (fun j h1 h2 => h.empty j (hT j h1 h2)) hcopy
  have htables : s'.below false app 3 dest = Y := by rw [hadds.tables, h.below_eq, zero_add]
  have hframes : ∀ f, s.memoryManager.getBit f = true → f ≠ dest → s'.mem f = s.mem f := by
    intro f hf hne
    refine hadds.frame f hne ?_ (hadds.takes.notMem hf)
    rw [h.below_eq]
    exact Multiset.notMem_zero f
  have hout : ∀ f, s.memoryManager.getBit f = true → f ≠ dest → f ∉ {dest} + s'.below false app 3 dest := by
    intro f hf hne
    rw [htables, Multiset.mem_add, Multiset.mem_singleton, not_or]
    exact ⟨hne, hadds.takes.notMem hf⟩
  have hcopied : ∀ k, k / 512 ^ 3 ∈ app → ReadOnlyPage s.mem s'.mem 3 dest src k := by
    intro k hk
    obtain ⟨hge, hlt⟩ := mem_app.mp hk
    exact hpages rfl k hge ((Nat.div_lt_iff_lt_mul (by decide)).mp hlt |>.trans_eq (by decide))
  -- A page of the copy is one of the page maps copied from.
  have hpage : ∀ k e, k / 512 ^ 3 ∈ app → leafIn s'.mem 3 dest k = some e → e.writable = false ∧
      SharedFrame s src e.pointer := by
    intro k e hk he
    rw [(hcopied k hk).leaf, Option.map_eq_some_iff] at he
    obtain ⟨e₀, he₀, rfl⟩ := he
    refine ⟨rfl, .inr ⟨k, hk, ?_⟩⟩
    rw [pageIn_eq_leafIn, he₀]
    rfl
  have hspace : AddressSpace s' dest := by
    refine ⟨hadds.sound h.space.tables, fun k f hk hf => ?_, hplain h.space.plain, fun page hpage f hf => ?_⟩
    · rw [pageIn_eq_leafIn, Option.map_eq_some_iff] at hf
      obtain ⟨e, he, rfl⟩ := hf
      exact hadds.takes.mono (h.inUse _ (hpage k e hk he).2).1
    · have hway := h.space.kernel page hpage
      have hne : ∀ f ∈ tablesOnWay s.mem 3 (s.mem dest (page.part 4)) (page.pageNumber 3), f ≠ dest := by
        rintro f hf rfl
        exact (hway f hf).2 (Multiset.mem_add.mpr (.inl (Multiset.mem_singleton_self _)))
      rw [hentries _ hpage, tablesOnWay_congr fun f hf => hframes f (hway f hf).1 (hne f hf)] at hf
      exact ⟨hadds.takes.mono (hway f hf).1, hout f (hway f hf).1 (hne f hf)⟩
  have hshared : ∀ f, SharedFrame s src f → s'.mem f = s.mem f :=
    fun f hf => hframes f (h.inUse f hf).1 (h.inUse f hf).2
  constructor
  · refine ⟨hcopied, ?_, hframes, fun k hk => leafIn_of_shared hshared hk, hentries⟩
    rw [htables]
    exact ⟨hadds.takes.nodup, hadds.takes.isFree, hadds.takes.getBit⟩
  · refine ⟨hspace, fun f hf => ⟨hadds.takes.mono (h.inUse f hf).1, hout f (h.inUse f hf).1 (h.inUse f hf).2⟩, hshared,
      fun k hk => ?_, fun k e hk he => ?_⟩
    · rw [(hcopied k hk).leaf, Option.isSome_map]
    · obtain ⟨hw, hf⟩ := hpage k e hk he
      refine ⟨hout _ (h.inUse _ hf).1 (h.inUse _ hf).2, fun hw' => ?_⟩
      rw [hw] at hw'
      cases hw'

/-! ### Later steps -/

/-- The page maps of the kernel are those of before. -/
theorem CopiesPage.kernel (h : CopiesPage s s' dest k e frame) (hspace : AddressSpace s dest)
    {page : LinearAddress4Level} (hpage : page.part 4 < 256) : s'.mem dest (page.part 4) = s.mem dest (page.part 4) ∧
      ∀ f ∈ tablesOnWay s.mem 3 (s.mem dest (page.part 4)) (page.pageNumber 3), s'.mem f = s.mem f := by
  refine ⟨h.top _ fun hin => absurd hpage (Nat.not_lt.mpr (mem_app.mp hin).1), fun f hf => ?_⟩
  obtain ⟨hused, hout⟩ := hspace.kernel page hpage f hf
  exact h.frames f hout (h.takes.ne hused)

/-- The address space of a page map of which a page has been copied. -/
theorem CopiesPage.space (h : CopiesPage s s' dest k e frame) (hspace : AddressSpace s dest) :
    AddressSpace s' dest := by
  have hfree := h.takes.isFree frame (Multiset.mem_singleton_self _)
  refine ⟨⟨?_, fun f hf => ?_⟩, fun k' f hk' hf => ?_, h.plain, fun page hpage f hf => ?_⟩
  · rw [h.tables]
    exact hspace.tables.nodup
  · rw [h.tables] at hf
    exact h.takes.mono (hspace.tables.allocated f hf)
  · by_cases hkk : k' = k
    · rw [hkk, pageIn_eq_leafIn, h.page, Option.map_some, Option.some.injEq] at hf
      have hptr : (e.setPointer frame).pointer = frame := pointer_setPointer hfree.lt
      rw [PageMapEntry.setWritable_pointer, hptr] at hf
      rw [h.takes.getBit, ← hf]
      exact .inr (Multiset.mem_singleton_self _)
    · rw [pageIn_eq_leafIn, (h.others k' hkk hk').1, ← pageIn_eq_leafIn] at hf
      exact h.takes.mono (hspace.pages k' f hk' hf)
  · obtain ⟨htop, hway⟩ := h.kernel hspace hpage
    rw [htop, tablesOnWay_congr hway] at hf
    obtain ⟨hused, hnot⟩ := hspace.kernel page hpage f hf
    rw [h.tables]
    exact ⟨h.takes.mono hused, hnot⟩

variable {s₀ : Machine}

/-- A page of the copy is copied. -/
theorem CopyOf.copiesPage (h : CopyOf s₀ s dest src) (he : leafIn s.mem 3 dest k = some e)
    (hc : CopiesPage s s' dest k e frame) : CopyOf s₀ s' dest src := by
  have hfree := hc.takes.isFree frame (Multiset.mem_singleton_self _)
  have hne : ∀ f, SharedFrame s₀ src f → f ≠ frame := fun f hf => hc.takes.ne (h.apart f hf).1
  refine ⟨hc.space h.space, fun f hf => ?_, fun f hf => ?_, fun k' hk' => ?_, fun k' e' hk' he' => ?_⟩
  · rw [hc.tables]
    exact ⟨hc.takes.mono (h.apart f hf).1, (h.apart f hf).2⟩
  · rw [hc.frames f (h.apart f hf).2 (hne f hf), h.unchanged f hf]
  · rw [← h.mapped k' hk']
    by_cases hkk : k' = k
    · rw [hkk, hc.page, he]
      rfl
    · rw [(hc.others k' hkk hk').1]
  · rw [hc.tables]
    by_cases hkk : k' = k
    · rw [hkk, hc.page, Option.some.injEq] at he'
      have hptr : (e.setPointer frame).pointer = frame := pointer_setPointer hfree.lt
      rw [← he', PageMapEntry.setWritable_pointer, hptr]
      have hunused : ∀ x, s.memoryManager.getBit x = true → frame ≠ x := fun x hx => (hc.takes.ne hx).symm
      refine ⟨fun hm => hunused _ (h.space.tables.allocated frame hm) rfl,
        fun _ => ⟨fun hf => hne frame hf rfl, fun page hpage hm => ?_⟩⟩
      obtain ⟨htop, hway⟩ := hc.kernel h.space hpage
      rw [htop, tablesOnWay_congr hway] at hm
      exact hunused _ (h.space.kernel page hpage frame hm).1 rfl
    · rw [(hc.others k' hkk hk').1] at he'
      obtain ⟨hout, hw⟩ := h.pages k' e' hk' he'
      refine ⟨hout, fun hw' => ⟨(hw hw').1, fun page hpage => ?_⟩⟩
      obtain ⟨htop, hway⟩ := hc.kernel h.space hpage
      rw [htop, tablesOnWay_congr hway]
      exact (hw hw').2 page hpage

/-- A walk through page maps without huge pages ends at the entry of the page. -/
theorem AddressSpace.walk_leaf (h : AddressSpace s dest) {p : Page} (hk : k / 512 ^ 3 ∈ app)
    (hw : walk s.mem 3 (s.mem dest (k / 512 ^ 3)) (k % 512 ^ 3) = some p) :
    ∃ e, leafIn s.mem 3 dest k = some e ∧ e.pointer = p.frame := by
  have hwalk := walk_plain (h.plain _ hk) (Nat.mod_lt k (by decide))
  rw [hw, Option.map_some] at hwalk
  exact Option.map_eq_some_iff.mp hwalk.symm

/-- A page that the walk allows to write to has an entry that does. -/
theorem writable_of_walk {mem : ℕ → ℕ → PageMapEntry} {p : Page} (hplain : Every (format false) slots mem NoHuge n e)
    (hk : k < 512 ^ n) (hw : walk mem n e k = some p) (hp : p.writable = true) :
    ∃ e', leafBelow mem n e k = some e' ∧ e'.pointer = p.frame ∧ e'.writable = true := by
  induction n generalizing e k p with
  | zero =>
    rw [walk] at hw
    split at hw
    next hpres =>
      cases hw
      exact ⟨e, by rw [leafBelow_zero, if_pos hpres], rfl, hp⟩
    next => cases hw
  | succ n ih =>
    have hpres : e.present = true := present_of_walk hw
    rw [walk_succ hpres (hplain.1 (Nat.succ_pos n))] at hw
    obtain ⟨q, hq, rfl⟩ := Option.map_eq_some_iff.mp hw
    obtain ⟨e', hleaf, hptr, hw⟩ := ih (hplain.2 _ (child_present hpres) _ (slot_mem hk))
      (Nat.mod_lt k (Nat.pow_pos (by decide))) hq (Bool.and_eq_true_iff.mp hp).2
    exact ⟨e', (leafBelow_succ hpres).trans hleaf, hptr, hw⟩

/-- A frame that is no page map is written to. -/
theorem CopyOf.setFrame (h : CopyOf s₀ s dest src) {f : ℕ} (words : ℕ → PageMapEntry)
    (hout : f ∉ {dest} + s.below false app 3 dest) (hshared : ¬ SharedFrame s₀ src f)
    (hkernel : ∀ page : LinearAddress4Level, page.part 4 < 256 →
      f ∉ tablesOnWay s.mem 3 (s.mem dest (page.part 4)) (page.pageNumber 3)) :
          CopyOf s₀ (s.setFrame f words) dest src := by
  have hmem : ∀ x, x ≠ f → (s.setFrame f words).mem x = s.mem x := fun x hx => Function.update_of_ne hx _ _
  have hused : ∀ x, s.memoryManager.getBit x = true → (s.setFrame f words).memoryManager.getBit x = true := fun _ => id
  obtain ⟨hs, hbelow, hself, hpages, hplain⟩ := h.space.tables.of_tables_eq hused
    fun x hx => hmem x (fun he => hout (he ▸ hx))
  refine ⟨⟨hs, fun k g hk hg => ?_, hplain h.space.plain, fun page hpage g hg => ?_⟩, fun g hg => ?_, fun g hg => ?_,
    fun k hk => ?_, fun k e hk he => ?_⟩
  · rw [pageIn_eq_leafIn, (hpages k hk).1, ← pageIn_eq_leafIn] at hg
    exact h.space.pages k g hk hg
  · rw [hself, tablesOnWay_congr fun x hx => hmem x (fun he => hkernel page hpage (he ▸ hx))] at hg
    rw [hbelow]
    exact h.space.kernel page hpage g hg
  · rw [hbelow]
    exact h.apart g hg
  · rw [hmem g (fun he => hshared (he ▸ hg)), h.unchanged g hg]
  · rw [(hpages k hk).1, h.mapped k hk]
  · rw [(hpages k hk).1] at he
    obtain ⟨hfree, hw⟩ := h.pages k e hk he
    rw [hbelow]
    refine ⟨hfree, fun hw' => ⟨(hw hw').1, fun page hpage => ?_⟩⟩
    rw [hself, tablesOnWay_congr fun x hx => hmem x (fun he => hkernel page hpage (he ▸ hx))]
    exact (hw hw').2 page hpage

/-- **One step**: what is done later keeps the copy one. -/
theorem LaterStep.copyOf (hstep : LaterStep dest s s') (h : CopyOf s₀ s dest src) : CopyOf s₀ s' dest src := by
  cases hstep with
  | @copyOnePage _ v _ hcr3 hv hcall =>
    subst hcr3
    cases he : leafIn s.mem 3 s.cr3 ((LinearAddress4Level.ofValue v).pageNumber 4) with
    | none =>
      rw [copyOnePage_absent h.space hv he hcall]
      exact h
    | some e =>
      rcases copyOnePage_cases h.space hv he with herr | ⟨frame, s₁, hok, hc⟩
      · rw [herr] at hcall
        cases hcall
        exact h
      · rw [hok] at hcall
        cases hcall
        exact h.copiesPage he hc
  | store words hcr3 hv hpage hw =>
    subst hcr3
    have hslot := hv.slot_mem
    rw [Machine.translate, ← (pageNumber_div_mod _ 3).1, ← (pageNumber_div_mod _ 3).2] at hpage
    obtain ⟨e, he, hptr, hwe⟩ := writable_of_walk (h.space.plain _ hslot) (Nat.mod_lt _ (by decide)) hpage hw
    obtain ⟨hout, hprivate⟩ := h.pages _ e hslot he
    rw [← hptr]
    exact h.setFrame words hout (hprivate hwe).1 (hprivate hwe).2
  | switch cr3 =>
    exact ⟨⟨⟨h.space.tables.nodup, h.space.tables.allocated⟩, h.space.pages, h.space.plain, h.space.kernel⟩, h.apart,
      h.unchanged, h.mapped, h.pages⟩

theorem copyOf_of_later (hsteps : Relation.ReflTransGen (LaterStep dest) s s') (h : CopyOf s₀ s dest src) :
    CopyOf s₀ s' dest src := by
  induction hsteps with
  | refl => exact h
  | tail _ hstep ih => exact hstep.copyOf ih

/-- **`CopyOnePage`** in a copy that `CopyPageMaps` has made changes the one page only, and nothing that
was copied from. -/
theorem copyOnePage_only (hstart : CopyStart s₀ dest src)
    (hcopy : Machine.copyPageMaps 3 dest src 256 s₀ = (.ok (), s₁)) :
    CopiedMaps s₀ s₁ dest src ∧ ∀ s v, Relation.ReflTransGen (LaterStep dest) s₁ s → s.cr3 = dest → AppAddress v →
      (leafIn s₀.mem 3 src ((LinearAddress4Level.ofValue v).pageNumber 4)).isSome = true →
      s.copyOnePage v = some (.error .noEnoughMemory, s) ∨ ∃ s', s.copyOnePage v = some (.ok (), s') ∧
        OnlyPage s₀ s s' dest src ((LinearAddress4Level.ofValue v).pageNumber 4) := by
  obtain ⟨hcopied, hcopyOf⟩ := hstart.copied hcopy
  refine ⟨hcopied, fun s v hsteps hcr3 hv hsome => ?_⟩
  have h := copyOf_of_later hsteps hcopyOf
  subst hcr3
  have hk := hv.slot_mem
  rw [← h.mapped _ hk] at hsome
  obtain ⟨e, he⟩ := Option.isSome_iff_exists.mp hsome
  refine (copyOnePage_cases h.space hv he).imp_right ?_
  rintro ⟨frame, s', hok, hc⟩
  refine ⟨s', hok, ?_⟩
  have hafter := h.copiesPage he hc
  have hfree := hc.takes.isFree frame (Multiset.mem_singleton_self _)
  -- The frame of a page is no page map, and so has not changed.
  have hkeep : ∀ k' p, k' / 512 ^ 3 ∈ app → walk s.mem 3 (s.mem s.cr3 (k' / 512 ^ 3)) (k' % 512 ^ 3) = some p →
      s'.mem p.frame = s.mem p.frame := by
    intro k' p hk' hw
    obtain ⟨e', he', hptr⟩ := h.space.walk_leaf hk' hw
    have hused : s.memoryManager.getBit p.frame = true := by
      refine h.space.pages k' p.frame hk' ?_
      rw [pageIn_eq_leafIn, he', Option.map_some, hptr]
    exact hc.frames _ (hptr ▸ (h.pages k' e' hk' he').1) (hc.takes.ne hused)
  constructor
  case page =>
    have hlt := Nat.mod_lt ((LinearAddress4Level.ofValue v).pageNumber 4) (by decide : 0 < 512 ^ 3)
    have hold := walk_plain (h.space.plain _ hk) hlt
    have hnew := walk_plain (hafter.space.plain _ hk) hlt
    rw [← leafIn, he, Option.map_some, Option.map_eq_some_iff] at hold
    rw [← leafIn, hc.page, Option.map_some, Option.map_eq_some_iff] at hnew
    obtain ⟨p, hp, hpe⟩ := hold
    obtain ⟨p', hp', hpe'⟩ := hnew
    have hptr : (e.setPointer frame).pointer = frame := pointer_setPointer hfree.lt
    rw [PageMapEntry.setWritable_pointer, hptr] at hpe'
    refine ⟨p, p', hp, hp', hpe' ▸ hfree, ?_, hkeep _ p hk hp⟩
    rw [hpe', hc.content, hpe]
  case others => exact fun k' hk' happ => ⟨(hc.others k' hk' happ).2, fun p hp => hkeep k' p happ hp⟩
  case kernel =>
    intro page hpage
    obtain ⟨htop, hway⟩ := hc.kernel h.space hpage
    rw [htop]
    exact walk_congr_way hway
  case frames => exact hafter.unchanged
  case source => exact fun k' happ => leafIn_of_shared hafter.unchanged happ

/-- The cached file of one page, to be copied to the empty page map 1. -/
theorem oneCached_copyStart : CopyStart oneCached 1 2 := by
  have hzero : ∀ i, oneCached.mem 1 i = .zero := fun i => by simp [oneCached]
  have hbelow : oneCached.below false app 3 1 = 0 := below_zero (funext hzero)
  refine ⟨⟨⟨?_, ?_⟩, ?_, ?_, ?_⟩, ?_, ?_, ?_⟩
  · rw [hbelow]
    exact Multiset.nodup_singleton 1
  · intro f hf
    rw [hbelow, add_zero, Multiset.mem_singleton] at hf
    rw [hf]
    rfl
  · intro k f _ hf
    rw [pageIn, hzero] at hf
    cases hf
  · intro i _
    rw [hzero]
    exact every_of_absent rfl fun _ => rfl
  · intro page _ f hf
    rw [hzero] at hf
    cases hf
  · intro i _
    rw [hzero]
    rfl
  · exact fun i hi => (oneCached_cached.usable i hi).mono fun _ _ h => h.2
  · rintro f (hf | ⟨k, -, hf⟩)
    · rw [Multiset.mem_add, Multiset.mem_singleton] at hf
      rcases hf with rfl | hf
      · exact ⟨rfl, by decide⟩
      · obtain ⟨i, -, hi⟩ := mem_below.mp hf
        rcases child_of_mem_held hi with hx | ⟨_, _, hx⟩
        all_goals
          obtain ⟨hge, hlt⟩ := oneCached_pointer hx
          exact ⟨decide_eq_true hlt, by omega⟩
    · rcases child_of_pageBelow hf with hx | ⟨_, _, hx⟩
      all_goals
        obtain ⟨hge, hlt⟩ := oneCached_pointer hx
        exact ⟨decide_eq_true hlt, by omega⟩

/-- Its page is copied. -/
theorem copyOnePage_only_one : ∃ s₁ s', Machine.copyPageMaps 3 1 2 256 oneCached = (.ok (), s₁) ∧
    s₁.copyOnePage 0xffff800000000000 = some (.ok (), s') ∧ CopiedMaps oneCached s₁ 1 2 ∧
    OnlyPage oneCached s₁ s' 1 2 ((LinearAddress4Level.ofValue 0xffff800000000000).pageNumber 4) := by
  have hok : (Machine.copyPageMaps 3 1 2 256 oneCached).1 = .ok () := by decide +kernel
  have hcr3 : (Machine.copyPageMaps 3 1 2 256 oneCached).2.cr3 = 1 := by decide +kernel
  have hcopy : ((Machine.copyPageMaps 3 1 2 256 oneCached).2.copyOnePage 0xffff800000000000).map (fun x => x.1.isOk) =
      some true := by
    decide +kernel
  have hmapped : (leafIn oneCached.mem 3 2 ((LinearAddress4Level.ofValue 0xffff800000000000).pageNumber 4)).isSome =
      true := by
    decide +kernel
  generalize hcopied : Machine.copyPageMaps 3 1 2 256 oneCached = x at hok hcr3 hcopy ⊢
  obtain ⟨res, s₁⟩ := x
  obtain rfl : res = .ok () := hok
  obtain ⟨hmaps, hlater⟩ := copyOnePage_only oneCached_copyStart hcopied
  rcases hlater s₁ 0xffff800000000000 .refl hcr3 appAddress_first hmapped with herr | ⟨s', hcall, honly⟩
  · rw [herr] at hcopy
    cases hcopy
  · exact ⟨s₁, s', rfl, hcall, hmaps, honly⟩

end DuvuvurKernel
