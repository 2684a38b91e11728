import DuvuvurKernel.Memory.FirstFit
import DuvuvurKernel.Memory.MemoryMap
import Mathlib.Order.Bounds.Defs

/-!
# What `Allocate` can return

For a memory map below 128 GiB, whatever the order of its descriptors: the frames that
`InitializeMemoryManager` leaves clear (`Usable`), and where the heap comes to be. From then
on frames are taken by `Allocate` and given back by `Free`.

**Results**: what `Allocate` returns is usable and not of the heap (`InUse.clear`), and every
such frame is returned by some `Allocate` (`exists_returned`): the first frames go first.
-/

namespace DuvuvurKernel.AllocMap

variable {m m' m₁ : AllocMap} {map pre rest : List MemoryDescriptor} {g n start : ℕ}

/-! ### After the marking loop -/

/-- A frame of a gap, or of a descriptor that is not available. -/
def Marks (availableEnd : ℕ) (d : MemoryDescriptor) (frame : ℕ) : Prop :=
  (availableEnd ≤ frame * kBytesPerFrame ∧ frame * kBytesPerFrame < d.physicalStart) ∨
    (isAvailable d.type = false ∧ d.Contains frame)

/-- The frame is in the range, and no descriptor marks it. -/
def Usable (map : List MemoryDescriptor) (frame : ℕ) : Prop :=
  (1 ≤ frame ∧ frame < lastAvailableEnd map / kBytesPerFrame) ∧
    ∀ pre d post, map = pre ++ d :: post → ¬ Marks (lastAvailableEnd pre) d frame

/-- The frame is in the range, and its bit is clear. -/
def Clear (m : AllocMap) (frame : ℕ) : Prop := (m.rangeBegin ≤ frame ∧ frame < m.rangeEnd) ∧ m.bit frame = false

/-- An available descriptor ends with a frame within the bitmap. -/
theorem lastAvailableEnd_low (hmap : LowMap map) (hsplit : map = pre ++ rest) :
    kUEFIPageSize ∣ lastAvailableEnd pre ∧ lastAvailableEnd pre ≤ kFrameCount * kBytesPerFrame := by
  unfold lastAvailableEnd
  cases hlast : (pre.filter fun d => isAvailable d.type).getLast? with
  | none => exact ⟨Nat.dvd_zero _, Nat.zero_le _⟩
  | some d =>
    have hd : d ∈ map := by
      rw [hsplit]
      exact List.mem_append_left _ (List.mem_filter.mp (List.mem_of_getLast? hlast)).1
    refine ⟨dvd_physicalEnd hmap hd, ?_⟩
    rw [Option.map_some, Option.getD_some, (physicalEnd_of_low (hmap.low d hd)).2]
    exact hmap.low d hd

/-- The bits that the loop sets. -/
theorem markDescriptors_low (hmap : LowMap map) (hsplit : map = pre ++ rest) :
    ∃ m', m.markDescriptors (lastAvailableEnd pre) rest = some (m', lastAvailableEnd map) ∧
      ∀ g, m'.bit g = true ↔ m.bit g = true ∨
        ∃ mid d post, rest = mid ++ d :: post ∧ Marks (lastAvailableEnd (pre ++ mid)) d g := by
  induction rest generalizing pre m with
  | nil =>
    rw [List.append_nil] at hsplit
    subst hsplit
    refine ⟨m, rfl, fun g => ⟨.inl, fun h => h.resolve_right ?_⟩⟩
    rintro ⟨mid, d, post, h, -⟩
    simp at h
  | cons d rest ih =>
    have hd : d ∈ map := by
      rw [hsplit]
      exact List.mem_append_right _ List.mem_cons_self
    obtain ⟨m₁, h1, hbit₁⟩ := markDescriptor_low (m := m) (lastAvailableEnd_low hmap hsplit).1 (hmap.aligned d hd)
      (hmap.low d hd)
    have hsplit' : map = pre ++ [d] ++ rest := by rw [hsplit, List.append_assoc]; rfl
    obtain ⟨m', h2, hbit⟩ := ih (m := m₁) hsplit'
    rw [lastAvailableEnd_append] at h2
    refine ⟨m', by rw [markDescriptors, h1]; exact h2, fun g => ?_⟩
    rw [hbit, hbit₁, or_assoc]
    refine or_congr_right ⟨?_, ?_⟩
    · rintro (hmarks | ⟨mid, d', post, rfl, hmarks⟩)
      · exact ⟨[], d, rest, rfl, by rwa [List.append_nil]⟩
      · exact ⟨d :: mid, d', post, rfl, by rwa [List.append_assoc] at hmarks⟩
    · rintro ⟨mid, d', post, hrest, hmarks⟩
      cases mid with
      | nil =>
        cases hrest
        exact .inl (by rwa [List.append_nil] at hmarks)
      | cons d₀ mid =>
        cases hrest
        exact .inr ⟨mid, d', post, rfl, by rwa [List.append_assoc]⟩

/-- **The frames left clear** are the usable ones. -/
theorem boot_clear (hmap : LowMap map) :
    ∃ m, boot map = some m ∧ m.rangeBegin = 1 ∧ m.rangeEnd ≤ kFrameCount ∧ ∀ g, m.Clear g ↔ Usable map g := by
  obtain ⟨m, h1, hbit⟩ := markDescriptors_low (m := initial) hmap (List.nil_append map).symm
  have hend : lastAvailableEnd map / kBytesPerFrame ≤ kFrameCount :=
    Nat.div_le_of_le_mul (Nat.mul_comm _ _ ▸ (lastAvailableEnd_low hmap (List.append_nil map).symm).2)
  have h1' : initial.markDescriptors 0 map = some (m, lastAvailableEnd map) := h1
  refine ⟨m.setMemoryRange 1 (lastAvailableEnd map / kBytesPerFrame), by rw [boot, h1']; rfl, rfl, hend, fun g => ?_⟩
  refine and_congr_right fun hrange => ?_
  have hcap : g < kFrameCount := Nat.lt_of_lt_of_le hrange.2 hend
  have hbit : m.bit g = false ↔ ¬ ∃ mid d post, map = mid ++ d :: post ∧ Marks (lastAvailableEnd mid) d g := by
    rw [← Bool.not_eq_true, hbit g, initial_bit, or_iff_right (Nat.not_le.mpr hcap)]
    rfl
  have hsame : (m.setMemoryRange 1 (lastAvailableEnd map / kBytesPerFrame)).bit g = m.bit g := rfl
  rw [hsame, hbit]
  constructor
  · rintro hnone pre d post hsplit hmarks
    exact hnone ⟨pre, d, post, hsplit, hmarks⟩
  · rintro hall ⟨pre, d, post, hsplit, hmarks⟩
    exact hall pre d post hsplit hmarks

/-! ### The heap -/

/-- A block of usable frames for the heap. -/
def HeapFits (map : List MemoryDescriptor) (start : ℕ) : Prop :=
  1 ≤ start ∧ ∀ g, start ≤ g → g < start + kHeapFrames → Usable map g

/-- Where the heap comes to be. -/
def HeapStart (map : List MemoryDescriptor) (start : ℕ) : Prop := IsLeast {start | HeapFits map start} start

/-- A block is free if its frames are clear. -/
theorem freeBlock_iff_clear (hrange : m.rangeEnd ≤ kFrameCount) (hn : 0 < n) (hbegin : m.rangeBegin ≤ start) :
    m.FreeBlock start n ↔ ∀ g, start ≤ g → g < start + n → m.Clear g := by
  rw [freeBlock_iff hrange]
  constructor
  · rintro ⟨hend, hbits⟩ g hg hlt
    exact ⟨⟨Nat.le_trans hbegin hg, by omega⟩, hbits g hg hlt⟩
  · intro hclear
    refine ⟨?_, fun g hg hlt => (hclear g hg hlt).2⟩
    have hlast := (hclear (start + n - 1) (by omega) (by omega)).1.2
    omega

/-- **`InitializeMemoryManager`** succeeds where there is a block for the heap; then the frames left clear are the other
usable ones. -/
theorem initialize_spec (hmap : LowMap map) (start : ℕ) :
    (HeapStart map start ↔ ∃ m, initializeMemoryManager map = some (.ok start, m)) ∧
      ∀ m, initializeMemoryManager map = some (.ok start, m) → m.rangeEnd ≤ kFrameCount ∧
        ∀ g, m.Clear g ↔ Usable map g ∧ ¬ (start ≤ g ∧ g < start + kHeapFrames) := by
  obtain ⟨m₀, hboot, hbegin, hrange, hclear⟩ := boot_clear hmap
  have hfits : ∀ s, m₀.rangeBegin ≤ s ∧ m₀.FreeBlock s kHeapFrames ↔ HeapFits map s := by
    intro s
    rw [HeapFits, hbegin]
    refine and_congr_right fun hs => ?_
    rw [freeBlock_iff_clear hrange (by decide) (hbegin ▸ hs)]
    simp only [hclear]
  have hcall : initializeMemoryManager map = m₀.allocate kHeapFrames := by
    rw [initializeMemoryManager, hboot, Option.bind_some]
  rw [hcall]
  rcases allocate_first hrange (by decide : 0 < kHeapFrames) with ⟨h1, -, hnone⟩ | ⟨s, m', h1, -, -,
    ⟨hle, hblock, hfirst⟩, hbit, h2, h3⟩
  · rw [h1]
    refine ⟨iff_of_false (fun hleast => ?_) (by rintro ⟨m, h⟩; cases h), fun m h => by cases h⟩
    obtain ⟨hs, hblock⟩ := (hfits start).mpr hleast.1
    exact hnone start hs hblock
  · have hleast : HeapStart map s := by
      refine ⟨(hfits s).mp ⟨hle, hblock⟩, fun t ht => ?_⟩
      obtain ⟨htle, htblock⟩ := (hfits t).mpr ht
      exact hfirst t htle htblock
    rw [h1]
    refine ⟨⟨fun hstart => ?_, ?_⟩, fun m h => ?_⟩
    · obtain rfl : s = start := Nat.le_antisymm (hleast.2 hstart.1) (hstart.2 hleast.1)
      exact ⟨m', rfl⟩
    · rintro ⟨m, h⟩
      cases h
      exact hleast
    · cases h
      refine ⟨by rw [h3]; exact hrange, fun g => ?_⟩
      rw [← hclear, Clear, Clear, hbit, h2, h3]
      split
      next hin => simp [hin]
      next hout => simp [hout]

/-! ### The allocator in use -/

/-- An allocator after calls of `Allocate`, and of `Free` for frames that it has returned: `returned` are all
the frames that it has. -/
inductive InUse (m : AllocMap) : (ℕ → Prop) → AllocMap → Prop where
  /-- No call. -/
  | start : InUse m (fun _ => False) m
  /-- `Allocate`. -/
  | allocate {returned : ℕ → Prop} {m₁ m₂ : AllocMap} {n start : ℕ} (h : InUse m returned m₁)
    (hcall : m₁.allocate n = some (.ok start, m₂)) : InUse m (fun g => returned g ∨ start ≤ g ∧ g < start + n) m₂
  /-- An `Allocate` that fails. -/
  | allocateFails {returned : ℕ → Prop} {m₁ m₂ : AllocMap} {n : ℕ} {err : Error} (h : InUse m returned m₁)
    (hcall : m₁.allocate n = some (.error err, m₂)) : InUse m returned m₂
  /-- `Free`. -/
  | free {returned : ℕ → Prop} {m₁ m₂ : AllocMap} {n start : ℕ} (h : InUse m returned m₁)
    (hreturned : ∀ g, start ≤ g → g < start + n → returned g) (hcall : m₁.free start n = some m₂) : InUse m returned m₂

/-- What is clear later was clear at the start, and so was what has been returned. -/
theorem InUse.clear {returned : ℕ → Prop} (h : InUse m returned m₁) (hrange : m.rangeEnd ≤ kFrameCount) :
    (m₁.rangeBegin = m.rangeBegin ∧ m₁.rangeEnd = m.rangeEnd) ∧ (∀ g, returned g → m.Clear g) ∧
      ∀ g, m₁.Clear g → m.Clear g := by
  induction h with
  | start => exact ⟨⟨rfl, rfl⟩, fun g hg => hg.elim, fun g hg => hg⟩
  | allocate _ hcall ih =>
    obtain ⟨⟨hbegin, hend⟩, hreturned, hclear⟩ := ih
    obtain ⟨hle, hfree, hbit, hbegin', hend'⟩ := allocate_ok (by rw [hend]; exact hrange) hcall
    refine ⟨⟨hbegin'.trans hbegin, hend'.trans hend⟩, fun g hg => ?_, fun g hg => hclear g ?_⟩
    · rcases hg with hold | ⟨hge, hlt⟩
      · exact hreturned g hold
      · exact hclear g ⟨⟨Nat.le_trans hle hge, (hfree g hge hlt).1⟩, (hfree g hge hlt).2⟩
    · rw [Clear, hbit, hbegin', hend'] at hg
      split at hg
      next => cases hg.2
      next => exact hg
  | allocateFails _ hcall ih =>
    obtain rfl := allocate_error (by rw [ih.1.2]; exact hrange) hcall
    exact ih
  | free _ hin hcall ih =>
    obtain ⟨⟨hbegin, hend⟩, hreturned, hclear⟩ := ih
    obtain ⟨hbit, hbegin', hend'⟩ := setBits_some hcall
    refine ⟨⟨hbegin'.trans hbegin, hend'.trans hend⟩, hreturned, fun g hg => ?_⟩
    rw [Clear, hbit, hbegin', hend'] at hg
    split at hg
    next hblock => exact hreturned g (hin g hblock.1 hblock.2)
    next => exact hclear g hg

/-- `Allocate` of a single frame takes the first that is clear. -/
theorem allocate_lowest (hrange : m.rangeEnd ≤ kFrameCount) (hg : m.Clear g)
    (hbelow : ∀ f, m.rangeBegin ≤ f → f < g → m.bit f = true) :
    ∃ m', m.allocate 1 = some (.ok g, m') ∧ m'.rangeBegin = m.rangeBegin ∧ m'.rangeEnd = m.rangeEnd ∧
      m'.bit = Function.update m.bit g true := by
  have hone : ∀ s, m.rangeBegin ≤ s → (m.FreeBlock s 1 ↔ m.Clear s) := by
    intro s hs
    rw [freeBlock_iff_clear hrange Nat.one_pos hs]
    constructor
    · exact fun h => h s (Nat.le_refl s) (Nat.lt_succ_self s)
    · intro h f hf hlt
      obtain rfl : f = s := by omega
      exact h
  have hblock := (hone g hg.1.1).mpr hg
  rcases allocate_first hrange Nat.one_pos with ⟨-, -, hnone⟩ | ⟨s, m', h1, -, -, ⟨hle, hfree, hfirst⟩, hbit, h2, h3⟩
  · exact absurd hblock (hnone g hg.1.1)
  · obtain rfl : s = g := by
      refine Nat.le_antisymm (hfirst g hg.1.1 hblock) (Nat.le_of_not_lt fun hlt => ?_)
      have hclear := ((hone s hle).mp hfree).2
      rw [hbelow s hle hlt] at hclear
      cases hclear
    refine ⟨m', h1, h2, h3, funext fun f => ?_⟩
    rw [hbit]
    by_cases hf : f = s
    · rw [hf, Function.update_self, if_pos (by omega)]
    · rw [Function.update_of_ne hf, if_neg (by omega)]

/-- **Every clear frame can be returned**, after those below it. -/
theorem exists_returned (hrange : m.rangeEnd ≤ kFrameCount) (hg : m.Clear g) :
    ∃ returned m₁ m₂, InUse m returned m₁ ∧ m₁.allocate 1 = some (.ok g, m₂) := by
  -- the frames below `k` have been taken, and no others
  have htaken : ∀ k, k ≤ g → ∃ returned m₁, InUse m returned m₁ ∧ m₁.rangeBegin = m.rangeBegin ∧
    m₁.rangeEnd = m.rangeEnd ∧ (∀ f, m.rangeBegin ≤ f → f < k → m₁.bit f = true) ∧ ∀ f, k ≤ f → m₁.bit f = m.bit f := by
    intro k hk
    induction k with
    | zero => exact ⟨_, m, .start, rfl, rfl, fun f _ hf => absurd hf (Nat.not_lt_zero f), fun _ _ => rfl⟩
    | succ k ih =>
      obtain ⟨returned, m₁, h, hbegin, hend, hbelow, hrest⟩ := ih (Nat.le_of_succ_le hk)
      by_cases hclear : m₁.Clear k
      · obtain ⟨m₂, h1, h2, h3, hbit⟩ :=
          allocate_lowest (by rw [hend]; exact hrange) hclear (by rw [hbegin]; exact hbelow)
        refine ⟨_, m₂, h.allocate h1, h2.trans hbegin, h3.trans hend, fun f hf hlt => ?_, fun f hf => ?_⟩
        · rw [hbit]
          by_cases hfk : f = k
          · rw [hfk, Function.update_self]
          · rw [Function.update_of_ne hfk]
            exact hbelow f hf (by omega)
        · rw [hbit, Function.update_of_ne (by omega)]
          exact hrest f (by omega)
      · refine ⟨returned, m₁, h, hbegin, hend, fun f hf hlt => ?_, fun f hf => hrest f (by omega)⟩
        rcases Nat.lt_or_eq_of_le (Nat.le_of_lt_succ hlt) with hlt | rfl
        · exact hbelow f hf hlt
        · by_contra hbit
          refine hclear ⟨⟨hbegin ▸ hf, ?_⟩, Bool.eq_false_iff.mpr hbit⟩
          rw [hend]
          exact Nat.lt_of_lt_of_le hk (Nat.le_of_lt hg.1.2)
  obtain ⟨returned, m₁, h, hbegin, hend, hbelow, hrest⟩ := htaken g (Nat.le_refl g)
  have hclear : m₁.Clear g := by
    rw [Clear, hbegin, hend, hrest g (Nat.le_refl g)]
    exact hg
  obtain ⟨m₂, h1, -⟩ := allocate_lowest (by rw [hend]; exact hrange) hclear (by rw [hbegin]; exact hbelow)
  exact ⟨returned, m₁, m₂, h, h1⟩

end DuvuvurKernel.AllocMap
