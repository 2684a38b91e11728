import DuvuvurKernel.Paging.ExecuteFile

/-!
# The memory an app asks for

`DemandPages` and `MapFile` of `syscall.cpp`. The pages an app demands come after its image and grow
upwards, the files it maps come below its stack and grow downwards.

## The model

`AppMemory` is what the task keeps of this; addresses are numbers, and sums and differences of
them are taken modulo `2 ^ 64` where the code takes them. A `Request` is one of the two calls, with
the size of the file of the descriptor, if there is such a file.

**Result** (`layout_iff`): the demanded pages, the mapped files and the stack stay apart in a run
just when every request fits between the demanded pages and the mapped files. Neither call checks
that it does (`file_mapped_over_pages`).
-/

namespace DuvuvurKernel

/-- What a task keeps of its app's memory. -/
structure AppMemory where
  /-- `DPagingBegin`. -/
  dpagingBegin : ℕ
  /-- `DPagingEnd`. -/
  dpagingEnd : ℕ
  /-- `FileMapEnd`. -/
  fileMapEnd : ℕ
  /-- `FileMaps`. -/
  fileMaps : List FileMapping

/-- `& 0xffff'ffff'ffff'f000`. -/
def pageFloor (addr : ℕ) : ℕ := addr - addr % 4096

/-- An address is in the range of a file mapping. -/
def FileMapping.Covers (m : FileMapping) (addr : ℕ) : Prop := m.vaddrBegin ≤ addr ∧ addr < m.vaddrEnd

/-- The start of the half of the applications. -/
def appBegin : ℕ := 0xffff800000000000

/-- The start of the stack. -/
def stackBegin : ℕ := Machine.stackFrameAddr.value

/-- The end of the stack. -/
def stackEnd : ℕ := stackBegin + 16 * 4096

/-- A call of `DemandPages` or of `MapFile`; the size is that of the file, if the descriptor is one. -/
inductive Request where
  | demandPages (numPages : UInt64)
  | mapFile (fd : ℕ) (size : Option UInt64)

namespace AppMemory

/-- The app's memory when `ExecuteFile` calls it: `vaddr_end` is where its image ends. -/
def enter (vaddrEnd : UInt64) : AppMemory :=
  let elfNextPage := pageFloor (vaddrEnd + 4095).toNat
  ⟨elfNextPage, elfNextPage, Machine.stackFrameAddr.value, []⟩

/-- `DemandPages`. -/
def demandPages (a : AppMemory) (numPages : UInt64) : Except Errno ℕ × AppMemory :=
  (.ok a.dpagingEnd, { a with dpagingEnd := (a.dpagingEnd + 4096 * numPages.toNat) % 2 ^ 64 })

/-- `MapFile`. -/
def mapFile (a : AppMemory) (fd : ℕ) : Option UInt64 → Except Errno ℕ × AppMemory
  | none => (.error .badFile, a)
  | some fileSize =>
    let vaddrEnd := a.fileMapEnd
    let vaddrBegin := pageFloor ((vaddrEnd + 2 ^ 64 - fileSize.toNat) % 2 ^ 64)
    (.ok vaddrBegin, { a with fileMapEnd := vaddrBegin, fileMaps := a.fileMaps ++ [⟨fd, vaddrBegin, vaddrEnd⟩] })

/-- A request. -/
def call (a : AppMemory) : Request → Except Errno ℕ × AppMemory
  | .demandPages numPages => a.demandPages numPages
  | .mapFile fd size => a.mapFile fd size

/-! ### What is asked of the layout -/

/-- An address is in the demanded pages. -/
def Demanded (a : AppMemory) (addr : ℕ) : Prop := a.dpagingBegin ≤ addr ∧ addr < a.dpagingEnd

/-- The ranges are apart, and in the half of the applications. -/
structure Layout (a : AppMemory) : Prop where
  demanded_apart : ∀ m ∈ a.fileMaps, ∀ v, ¬ (a.Demanded v ∧ m.Covers v)
  maps_apart : a.fileMaps.Pairwise fun m m' => ∀ v, ¬ (m.Covers v ∧ m'.Covers v)
  stack_apart : ∀ v, stackBegin ≤ v → v < stackEnd → ¬ a.Demanded v ∧ ∀ m ∈ a.fileMaps, ¬ m.Covers v
  demanded_app : ∀ v, a.Demanded v → AppAddress v
  maps_app : ∀ m ∈ a.fileMaps, ∀ v, m.Covers v → AppAddress v

/-- A request is refused, or the bounds have moved without wrapping around. -/
def NoWrap (a : AppMemory) (req : Request) : Prop :=
  (∃ err, (a.call req).1 = .error err) ∨ match req with
    | .demandPages numPages => (a.call req).2.dpagingEnd = a.dpagingEnd + 4096 * numPages.toNat
    | .mapFile _ size => ∀ n ∈ size, (a.call req).2.fileMapEnd + n.toNat ≤ a.fileMapEnd

/-- In a run, the ranges stay apart and no bound wraps around. -/
def Keeps (a : AppMemory) : List Request → Prop
  | [] => a.Layout
  | req :: reqs => a.Layout ∧ a.NoWrap req ∧ (a.call req).2.Keeps reqs

/-- There is room for what is asked for: between the demanded pages and the mapped files or, as long as no page
is demanded, in the half of the applications. -/
def Fits (a : AppMemory) : Request → Prop
  | .demandPages numPages => numPages = 0 ∨ a.dpagingEnd + 4096 * numPages.toNat ≤ a.fileMapEnd
  | .mapFile _ size =>
    ∀ n ∈ size, (if a.dpagingBegin < a.dpagingEnd then a.dpagingEnd else appBegin) + n.toNat ≤ a.fileMapEnd

instance (a : AppMemory) : (req : Request) → Decidable (a.Fits req)
  | .demandPages _ => inferInstanceAs (Decidable (_ ∨ _))
  | .mapFile _ none => .isTrue nofun
  | .mapFile _ (some n) => decidable_of_iff
    ((if a.dpagingBegin < a.dpagingEnd then a.dpagingEnd else appBegin) + n.toNat ≤ a.fileMapEnd) (by simp [Fits])

/-- There is room for every request of a run. -/
def AllFit (a : AppMemory) : List Request → Prop
  | [] => True
  | req :: reqs => a.Fits req ∧ (a.call req).2.AllFit reqs

instance decidableAllFit (a : AppMemory) : (reqs : List Request) → Decidable (a.AllFit reqs)
  | [] => .isTrue trivial
  | req :: reqs => @instDecidableAnd _ _ _ (decidableAllFit (a.call req).2 reqs)

/-! ### The invariant -/

/-- The mapped files fill the room from `FileMapEnd` to the stack, and the demanded pages lie below. -/
structure Ordered (a : AppMemory) : Prop where
  dpagingBegin_aligned : 4096 ∣ a.dpagingBegin
  dpagingEnd_aligned : 4096 ∣ a.dpagingEnd
  fileMapEnd_aligned : 4096 ∣ a.fileMapEnd
  app_le : appBegin ≤ a.dpagingBegin
  begin_le_end : a.dpagingBegin ≤ a.dpagingEnd
  begin_le_stack : a.dpagingBegin ≤ stackBegin
  end_le : a.dpagingBegin < a.dpagingEnd → a.dpagingEnd ≤ a.fileMapEnd
  app_le_fileMapEnd : appBegin ≤ a.fileMapEnd
  fileMapEnd_le : a.fileMapEnd ≤ stackBegin
  within : ∀ m ∈ a.fileMaps, a.fileMapEnd ≤ m.vaddrBegin ∧ m.vaddrEnd ≤ stackBegin
  filled : ∀ v, a.fileMapEnd ≤ v → v < stackBegin → ∃ m ∈ a.fileMaps, m.Covers v
  apart : a.fileMaps.Pairwise fun m m' => m'.vaddrEnd ≤ m.vaddrBegin

variable {a : AppMemory} {req : Request} {n : UInt64} {fd : ℕ}

theorem stackBegin_eq : stackBegin = 0xfffffffffffef000 := by decide

theorem appBegin_eq : appBegin = 0xffff800000000000 := rfl

theorem pageFloor_spec (addr : ℕ) : 4096 ∣ pageFloor addr ∧ pageFloor addr ≤ addr ∧ addr < pageFloor addr + 4096 := by
  unfold pageFloor
  omega

/-- The bounds agree with the layout. -/
theorem Ordered.layout (h : a.Ordered) : a.Layout := by
  have hstack := stackBegin_eq
  have happ := appBegin_eq
  have hdemanded : ∀ v, a.Demanded v → v < a.fileMapEnd := by
    rintro v ⟨hge, hlt⟩
    exact lt_of_lt_of_le hlt (h.end_le (lt_of_le_of_lt hge hlt))
  refine ⟨?_, ?_, ?_, ?_, ?_⟩
  · rintro m hm v ⟨hv, hcov⟩
    have := hdemanded v hv
    have := (h.within m hm).1
    have := hcov.1
    omega
  · refine h.apart.imp fun {m m'} hle v => ?_
    rintro ⟨hv, hv'⟩
    exact absurd (lt_of_lt_of_le hv'.2 (hle.trans hv.1)) (lt_irrefl v)
  · intro v hge hlt
    refine ⟨fun hv => ?_, fun m hm hcov => ?_⟩
    · have := hdemanded v hv
      have := h.fileMapEnd_le
      omega
    · have := (h.within m hm).2
      have := hcov.2
      omega
  · intro v hv
    have := hdemanded v hv
    have := h.fileMapEnd_le
    have := h.app_le
    exact ⟨by have := hv.1; omega, by omega⟩
  · intro m hm v hcov
    obtain ⟨hge, hle⟩ := h.within m hm
    have := h.app_le_fileMapEnd
    exact ⟨by have := hcov.1; omega, by have := hcov.2; omega⟩

/-- The bounds at the start. -/
theorem ordered_enter {vaddrEnd : UInt64} (hge : appBegin ≤ (enter vaddrEnd).dpagingBegin)
    (hle : (enter vaddrEnd).dpagingBegin ≤ stackBegin) : (enter vaddrEnd).Ordered := by
  have hstack := stackBegin_eq
  have happ := appBegin_eq
  have hend : (enter vaddrEnd).fileMapEnd = stackBegin := rfl
  have hfloor := (pageFloor_spec (vaddrEnd + 4095).toNat).1
  refine ⟨hfloor, hfloor, ?_, hge, le_rfl, hle, fun hlt => absurd hlt (lt_irrefl _), ?_, hend.le, ?_, ?_,
    List.Pairwise.nil⟩
  · rw [hend, hstack]
    decide
  · rw [hend]
    omega
  · intro m hm
    cases hm
  · intro v hv hlt
    omega

/-! ### One request -/

theorem Ordered.demandPages (h : a.Ordered) : (a.Fits (.demandPages n) →
      (a.demandPages n).2.Ordered ∧ a.NoWrap (.demandPages n)) ∧
    (a.NoWrap (.demandPages n) → (a.demandPages n).2.Layout → a.Fits (.demandPages n)) := by
  have hstack := stackBegin_eq
  obtain ⟨k, hk⟩ := h.dpagingEnd_aligned
  obtain ⟨j, hj⟩ := h.dpagingBegin_aligned
  constructor
  · intro hfits
    have hsum : (a.dpagingEnd + 4096 * n.toNat) % 2 ^ 64 = a.dpagingEnd + 4096 * n.toNat ∧
        (a.dpagingBegin < a.dpagingEnd + 4096 * n.toNat → a.dpagingEnd + 4096 * n.toNat ≤ a.fileMapEnd) := by
      have hfile := h.fileMapEnd_le
      have hbegin := h.begin_le_stack
      have hle := h.begin_le_end
      rcases hfits with rfl | hfits
      · have hzero : (0 : UInt64).toNat = 0 := rfl
        have hend := h.end_le
        rw [hzero]
        omega
      · omega
    refine ⟨?_, .inr hsum.1⟩
    unfold AppMemory.demandPages
    rw [hsum.1]
    have hle := h.begin_le_end
    exact ⟨h.dpagingBegin_aligned, ⟨k + n.toNat, by dsimp only; omega⟩, h.fileMapEnd_aligned, h.app_le,
      by dsimp only; omega, h.begin_le_stack, hsum.2, h.app_le_fileMapEnd, h.fileMapEnd_le, h.within, h.filled, h.apart⟩
  · intro hwrap hlayout
    have hend : (a.demandPages n).2.dpagingEnd = a.dpagingEnd + 4096 * n.toNat :=
      hwrap.resolve_left fun ⟨err, herr⟩ => by cases herr
    refine or_iff_not_imp_left.mpr fun hn => ?_
    have hpos : 0 < n.toNat := Nat.pos_of_ne_zero fun h0 => hn (UInt64.toNat_inj.mp h0)
    by_contra hover
    -- The first address of the mapped files, or the first page demanded, if that is further up.
    have hmem : (a.demandPages n).2.Demanded (max a.fileMapEnd a.dpagingBegin) := by
      refine ⟨le_max_right _ _, ?_⟩
      have hle := h.begin_le_end
      rw [hend]
      omega
    have hfile := h.fileMapEnd_le
    have hbegin := h.begin_le_stack
    by_cases hlt : max a.fileMapEnd a.dpagingBegin < stackBegin
    · obtain ⟨m, hm, hcov⟩ := h.filled _ (le_max_left _ _) hlt
      exact hlayout.demanded_apart m hm _ ⟨hmem, hcov⟩
    · have hstackEnd : stackEnd = stackBegin + 65536 := rfl
      exact (hlayout.stack_apart _ (by omega) (by omega)).1 hmem

/-- A mapping right below the mapped files, above the pages handed out, keeps the order. -/
theorem Ordered.addMapping (h : a.Ordered) (fd : ℕ) {vaddrBegin : ℕ} (hdvd : 4096 ∣ vaddrBegin)
    (hle : vaddrBegin ≤ a.fileMapEnd)
    (hge : (if a.dpagingBegin < a.dpagingEnd then a.dpagingEnd else appBegin) ≤ vaddrBegin) :
    Ordered { a with
      fileMapEnd := vaddrBegin, fileMaps := a.fileMaps ++ [⟨fd, vaddrBegin, a.fileMapEnd⟩] } where
  dpagingBegin_aligned := h.dpagingBegin_aligned
  dpagingEnd_aligned := h.dpagingEnd_aligned
  fileMapEnd_aligned := hdvd
  app_le := h.app_le
  begin_le_end := h.begin_le_end
  begin_le_stack := h.begin_le_stack
  end_le hlt := by rwa [if_pos hlt] at hge
  app_le_fileMapEnd := by
    dsimp only
    split at hge
    next hlt => exact Nat.le_trans h.app_le (Nat.le_trans h.begin_le_end hge)
    next => exact hge
  fileMapEnd_le := Nat.le_trans hle h.fileMapEnd_le
  within := by
    intro m hm
    rcases List.mem_append.mp hm with hm | hm
    · exact ⟨Nat.le_trans hle (h.within m hm).1, (h.within m hm).2⟩
    · rw [List.mem_singleton.mp hm]
      exact ⟨le_rfl, h.fileMapEnd_le⟩
  filled := by
    intro v hge' hlt
    rcases Nat.lt_or_ge v a.fileMapEnd with hv | hv
    · exact ⟨_, List.mem_append_right _ (List.mem_singleton_self _), hge', hv⟩
    · obtain ⟨m, hm, hcov⟩ := h.filled v hv hlt
      exact ⟨m, List.mem_append_left _ hm, hcov⟩
  apart := by
    refine List.pairwise_append.mpr ⟨h.apart, List.pairwise_singleton _ _, fun m hm m' hm' => ?_⟩
    rw [List.mem_singleton.mp hm']
    exact (h.within m hm).1

theorem Ordered.mapFile (h : a.Ordered) : (a.Fits (.mapFile fd (some n)) →
      (a.mapFile fd (some n)).2.Ordered ∧ a.NoWrap (.mapFile fd (some n))) ∧
    (a.NoWrap (.mapFile fd (some n)) → (a.mapFile fd (some n)).2.Layout → a.Fits (.mapFile fd (some n))) := by
  have hstack := stackBegin_eq
  have happ := appBegin_eq
  have hfile := h.fileMapEnd_le
  have happle := h.app_le_fileMapEnd
  have hsize := n.toNat_lt
  obtain ⟨vaddrBegin, hv⟩ : ∃ v, v = pageFloor ((a.fileMapEnd + 2 ^ 64 - n.toNat) % 2 ^ 64) := ⟨_, rfl⟩
  have hcall : a.mapFile fd (some n) =
      (.ok vaddrBegin,
        { a with fileMapEnd := vaddrBegin, fileMaps := a.fileMaps ++ [⟨fd, vaddrBegin, a.fileMapEnd⟩] }) := by
    rw [hv]
    rfl
  obtain ⟨hdvd, hfloor, hnext⟩ := pageFloor_spec ((a.fileMapEnd + 2 ^ 64 - n.toNat) % 2 ^ 64)
  rw [← hv] at hdvd hfloor hnext
  obtain ⟨k, hk⟩ := hdvd
  obtain ⟨j, hj⟩ := h.dpagingEnd_aligned
  constructor
  · intro hfits
    have hroom := hfits n rfl
    have hge : (if a.dpagingBegin < a.dpagingEnd then a.dpagingEnd else appBegin) ≤ vaddrBegin := by
      split at hroom
      next => rw [if_pos ‹_›]; omega
      next => rw [if_neg ‹_›]; omega
    have hle : vaddrBegin + n.toNat ≤ a.fileMapEnd := by
      split at hroom
      next => omega
      next => omega
    refine ⟨?_, .inr ?_⟩
    · rw [hcall]
      exact h.addMapping fd ⟨k, hk⟩ (Nat.le_of_add_right_le hle) hge
    · rintro n' hn'
      cases hn'
      show (a.mapFile fd (some n)).2.fileMapEnd + n.toNat ≤ a.fileMapEnd
      rw [hcall]
      exact hle
  · intro hwrap hlayout n' hn'
    cases hn'
    have hle : vaddrBegin + n.toNat ≤ a.fileMapEnd := by
      have hmoved := hwrap.resolve_left fun ⟨err, herr⟩ => by cases herr
      have hle : (a.mapFile fd (some n)).2.fileMapEnd + n.toNat ≤ a.fileMapEnd := hmoved n rfl
      rwa [hcall] at hle
    rw [hcall] at hlayout
    by_cases hzero : n.toNat = 0
    · rw [hzero]
      split
      next hlt => exact h.end_le hlt
      next => exact happle
    -- The new mapping is not empty: its first address is in the half of the applications.
    have hnew : FileMapping.mk fd vaddrBegin a.fileMapEnd ∈ a.fileMaps ++ [⟨fd, vaddrBegin, a.fileMapEnd⟩] :=
      List.mem_append_right _ (List.mem_singleton_self _)
    have hfirst := (hlayout.maps_app _ hnew vaddrBegin ⟨le_rfl, by dsimp only; omega⟩).1
    split
    next hlt =>
      by_contra hover
      have hend := h.end_le hlt
      exact hlayout.demanded_apart _ hnew (max a.dpagingBegin vaddrBegin)
        ⟨⟨le_max_left _ _, by dsimp only; omega⟩, le_max_right _ _, by dsimp only; omega⟩
    next => omega

/-- **One request** keeps the layout just when it fits. -/
theorem Ordered.call (h : a.Ordered) : (a.Fits req → (a.call req).2.Ordered ∧ a.NoWrap req) ∧
    (a.NoWrap req → (a.call req).2.Layout → a.Fits req) := by
  match req with
  | .demandPages n => exact h.demandPages
  | .mapFile fd (some n) => exact h.mapFile
  | .mapFile fd none => exact ⟨fun _ => ⟨h, .inl ⟨_, rfl⟩⟩, fun _ _ n hn => by cases hn⟩

theorem Keeps.layout {reqs : List Request} (h : a.Keeps reqs) : a.Layout := by
  cases reqs with
  | nil => exact h
  | cons req reqs => exact h.1

/-- A run of requests. -/
theorem Ordered.keeps_iff {reqs : List Request} (h : a.Ordered) : a.Keeps reqs ↔ a.AllFit reqs := by
  induction reqs generalizing a with
  | nil => exact iff_of_true h.layout trivial
  | cons req reqs ih =>
    constructor
    · rintro ⟨-, hwrap, hkeeps⟩
      have hfits := h.call.2 hwrap hkeeps.layout
      exact ⟨hfits, (ih (h.call.1 hfits).1).mp hkeeps⟩
    · rintro ⟨hfits, hall⟩
      obtain ⟨hordered, hwrap⟩ := h.call.1 hfits
      exact ⟨h.layout, hwrap, (ih hordered).mpr hall⟩

/-- **The layout is kept just when every request fits**, in every run of an app whose image lies between the
start of its half and the stack. -/
theorem layout_iff (vaddrEnd : UInt64) (reqs : List Request) (hge : appBegin ≤ (enter vaddrEnd).dpagingBegin)
    (hle : (enter vaddrEnd).dpagingBegin ≤ stackBegin) : (enter vaddrEnd).Keeps reqs ↔ (enter vaddrEnd).AllFit reqs :=
  (ordered_enter hge hle).keeps_iff

/-- Two pages, and two files. -/
theorem layout_iff_files : (enter 0xffff800000001234).Keeps [.demandPages 2, .mapFile 3 (some 5000),
    .mapFile 4 (some 0)] :=
  (layout_iff _ _ (by decide) (by decide)).mpr (by decide)

/-- All pages up to the stack are demanded, then a file is mapped. -/
theorem file_mapped_over_pages :
    ¬ (enter 0xffff800000001234).Keeps [.demandPages 0x7ffffffed, .mapFile 3 (some 5000)] := by
  rintro ⟨-, -, -, -, hlayout⟩
  refine hlayout.demanded_apart ⟨3, 0xfffffffffffed000, 0xfffffffffffef000⟩ ?_ 0xfffffffffffed000 ⟨⟨?_, ?_⟩, ?_, ?_⟩
  all_goals decide

end AppMemory

end DuvuvurKernel
