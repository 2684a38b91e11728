import DuvuvurKernel.Paging.ExecuteFile

/-!
# Page faults outside the application

What `HandlePageFault` does about a page fault that the application raises at any address,
also one of the kernel. It looks at the error code and at what the task maps, but never at
whether the address is one of the application's.

## The model

`Confined` says what a page fault may lead to: a new page of the application, or an error,
and in either case no change to the kernel half of the page map, nor to any frame in use
that is not the application's. The page maps of the kernel half are such frames
(`KernelTables`).

**Result** (`confined_iff`): an address of the kernel is safe from the application only
as far as `HandlePageFault` has nothing to do about it (`Answered`), or cannot begin to,
for lack of frames.
-/

namespace DuvuvurKernel

open Lib.TableTrees

/-- The page maps that the processor reads on the way to the page with number `k` below an entry. -/
def tablesOnWay (mem : ℕ → ℕ → PageMapEntry) : ℕ → PageMapEntry → ℕ → List ℕ
  | 0, _, _ => []
  | n + 1, e, k =>
    if e.present = false ∨ e.hugePage then []
    else e.pointer :: tablesOnWay mem n (mem e.pointer (k / 512 ^ n)) (k % 512 ^ n)

/-- The entries on the way are open to the application, also for writing, as far as they are there. -/
def WayOpen (mem : ℕ → ℕ → PageMapEntry) : ℕ → PageMapEntry → ℕ → Prop
  | 0, e, _ => e.present = true → e.user = true ∧ e.writable = true
  | n + 1, e, k => e.present = true → e.user = true ∧ e.writable = true ∧
      WayOpen mem n (mem e.pointer (k / 512 ^ n)) (k % 512 ^ n)

/-- `HandlePageFault` has something to do about a page fault that the application raises. -/
def Answered (t : TaskMemory) (errorCode causalAddr : ℕ) : Prop :=
  errorCode % 2 = 1 ∧ errorCode / 2 % 2 = 1 ∨ errorCode % 2 = 0 ∧
    (t.dpagingBegin ≤ causalAddr ∧ causalAddr < t.dpagingEnd ∨
      (Machine.findFileMapping t.fileMaps causalAddr).isSome = true)

/-- The page maps of the kernel half belong to no application. -/
def KernelTables (base : ℕ → Prop) (s : Machine) : Prop :=
  ∀ addr : LinearAddress4Level, addr.part 4 < 256 →
    ∀ f ∈ tablesOnWay s.mem 3 (s.mem s.cr3 (addr.part 4)) (addr.pageNumber 3), base f

/-- What a page fault may lead to. -/
def Confined (base : ℕ → Prop) (rest : Multiset ℕ) (s : Machine) (causalAddr : ℕ)
    (outcome : Option (Except Error Unit × Machine)) : Prop :=
  ∃ res s', outcome = some (res, s') ∧ (res = .ok () → AppAddress causalAddr ∧ NewPage s s' (.ofValue causalAddr)) ∧
    (∀ i < 256, s'.mem s.cr3 i = s.mem s.cr3 i) ∧ Spares base rest s s'

variable {base : ℕ → Prop} {s s' s'' s₁ : Machine} {rest : Multiset ℕ} {r n pageMap childMap num i : ℕ}
  {addr : LinearAddress4Level} {res : Except Error ℕ}

/-! ### Entries are only opened -/

/-- Frames in use stay in use, and what their entries allow stays allowed. -/
def Opens (s s' : Machine) : Prop :=
  ∀ f, s.memoryManager.getBit f = true → s'.memoryManager.getBit f = true ∧ ∀ i,
    ((s.mem f i).present = true → (s'.mem f i).present = true) ∧
    ((s.mem f i).user = true → (s'.mem f i).user = true) ∧ ((s.mem f i).writable = true → (s'.mem f i).writable = true)

theorem Opens.refl (s : Machine) : Opens s s := fun _ hf => ⟨hf, fun _ => ⟨id, id, id⟩⟩

theorem Opens.trans (h : Opens s s') (h' : Opens s' s'') : Opens s s'' := by
  intro f hf
  obtain ⟨hused, hbits⟩ := h f hf
  obtain ⟨hused', hbits'⟩ := h' f hused
  refine ⟨hused', fun i => ⟨fun hp => (hbits' i).1 ((hbits i).1 hp), fun hu => (hbits' i).2.1 ((hbits i).2.1 hu),
    fun hw => (hbits' i).2.2 ((hbits i).2.2 hw)⟩⟩

/-- An assignment to an entry that sets bits. -/
theorem opens_setEntry {e : PageMapEntry} (hp : (s.mem pageMap i).present = true → e.present = true)
    (hu : (s.mem pageMap i).user = true → e.user = true) (hw : (s.mem pageMap i).writable = true → e.writable = true) :
    Opens s (s.setEntry pageMap i e) := by
  intro f hf
  refine ⟨hf, fun j => ?_⟩
  by_cases hfp : f = pageMap
  · subst hfp
    by_cases hji : j = i
    · subst hji
      rw [Machine.setEntry_mem]
      exact ⟨hp, hu, hw⟩
    · simp [Machine.setEntry, hji]
  · simp [Machine.setEntry, hfp]

theorem opens_takes (htakes : Takes s s' {childMap}) (hmem : s'.mem = Function.update s.mem childMap fun _ => .zero) :
    Opens s s' := by
  intro f hf
  rw [hmem, Function.update_of_ne (htakes.ne hf)]
  exact ⟨htakes.mono hf, fun _ => ⟨id, id, id⟩⟩

theorem opens_setNewPageMap {res : Except Error ℕ} (h : s.setNewPageMapIfNotPresent pageMap i = (res, s')) :
    Opens s s' := by
  rcases setNewPageMapIfNotPresent_cases s pageMap i with ⟨-, h1⟩ | ⟨-, frame, s₁, htakes, hmem, h1⟩ | ⟨-, -, h1⟩
  · rw [h1] at h
    cases h
    exact .refl _
  · rw [h1] at h
    cases h
    exact (opens_takes htakes hmem).trans (opens_setEntry (fun _ => rfl) id id)
  · rw [h1] at h
    cases h
    exact .refl _

theorem opens_setupEntries {setupChild : ℕ → LinearAddress4Level → ℕ → Machine → Except Error ℕ × Machine}
    {fuel level : ℕ} (hchild : ∀ childMap addr num s res s', setupChild childMap addr num s = (res, s') → Opens s s')
    (h : Machine.setupEntries setupChild pageMap level true fuel addr num s = (res, s')) : Opens s s' := by
  induction fuel generalizing addr num s with
  | zero =>
    cases h
    exact .refl _
  | succ fuel ih =>
    by_cases hnum : num = 0
    · unfold Machine.setupEntries at h
      rw [if_pos hnum] at h
      cases h
      exact .refl _
    · rcases setupEntries_round hnum h with ⟨hset, -⟩ | ⟨childMap, s₁, hset, s₂, hs₂, hround⟩
      · exact opens_setNewPageMap hset
      · have hentry : Opens s₁ s₂ := by
          rw [hs₂]
          exact opens_setEntry id (fun _ => rfl) fun _ => by simp
        refine ((opens_setNewPageMap hset).trans hentry).trans ?_
        rcases hround with ⟨hcall, -⟩ | ⟨-, num₁, s₃, hcall, hrest⟩
        · exact hchild _ _ _ _ _ _ hcall
        · exact (hchild _ _ _ _ _ _ hcall).trans (ih hrest)

theorem opens_setupPageMap (h : Machine.setupPageMap true n pageMap addr num s = (res, s')) : Opens s s' := by
  induction n generalizing pageMap addr num s res s' with
  | zero =>
    cases h
    exact .refl _
  | succ n ih =>
    unfold Machine.setupPageMap at h
    exact opens_setupEntries (fun _ _ _ _ _ _ hcall => ih hcall) h

/-! ### Setting up one page -/

/-- Nothing remains of one page. -/
theorem setupPageMap_one (h : Machine.setupPageMap true n pageMap addr 1 s = (.ok num, s')) : num = 0 := by
  induction n generalizing pageMap s s' num with
  | zero =>
    cases h
    rfl
  | succ n ih =>
    unfold Machine.setupPageMap at h
    rcases setupEntries_round Nat.one_ne_zero h with ⟨-, err, herr⟩ | ⟨childMap, s₁, -, s₂, -, hround⟩
    · cases herr
    · rcases hround with ⟨hcall, -⟩ | ⟨-, num₁, s₃, hcall, hrest⟩
      · exact ih hcall
      · rw [ih hcall] at hrest
        unfold Machine.setupEntries at hrest
        rw [if_pos rfl] at hrest
        cases hrest
        rfl

/-- A walk that finds no page stops at an absent entry, here or below. -/
theorem walk_none_cases {mem : ℕ → ℕ → PageMapEntry} {e : PageMapEntry}
    (h : walk mem (n + 1) e (addr.pageNumber (n + 1)) = none) :
    e.present = false ∨ e.present = true ∧ e.hugePage = false ∧
      walk mem n (mem e.pointer (addr.part (n + 1))) (addr.pageNumber n) = none := by
  obtain ⟨hdiv, hmod⟩ := pageNumber_div_mod addr n
  cases hp : e.present with
  | false => exact .inl rfl
  | true =>
    cases hh : e.hugePage with
    | true => simp [walk, hp, hh] at h
    | false =>
      rw [walk_succ hp hh, hdiv, hmod, Option.map_eq_none_iff] at h
      exact .inr ⟨rfl, rfl, h⟩

/-- An entry that is open already is as it was. -/
theorem setEntry_open (hu : (s.mem pageMap i).user = true) (hw : (s.mem pageMap i).writable = true) :
    s.setEntry pageMap i (((s.mem pageMap i).setUser true).setWritable true) = s := by
  have hsame : ∀ e : PageMapEntry, e.user = true → e.writable = true → (e.setUser true).setWritable true = e := by
    intro e hu hw
    cases e
    cases hu
    cases hw
    rfl
  rw [hsame _ hu hw, Machine.setEntry, Function.update_eq_self, Function.update_eq_self]

theorem setNewPageMap_present (hp : (s.mem pageMap i).present = true) :
    s.setNewPageMapIfNotPresent pageMap i = (.ok (s.mem pageMap i).pointer, s) := by
  unfold Machine.setNewPageMapIfNotPresent
  rw [if_pos hp]

theorem setNewPageMap_blocked (hfree : ∀ f, ¬ s.memoryManager.IsFree f) (hp : (s.mem pageMap i).present = false) :
    s.setNewPageMapIfNotPresent pageMap i = (.error .noEnoughMemory, s) := by
  rcases setNewPageMapIfNotPresent_cases s pageMap i with ⟨hp', -⟩ | ⟨-, frame, s₁, htakes, -⟩ | ⟨-, -, h1⟩
  · rw [hp] at hp'
    cases hp'
  · exact absurd (htakes.isFree frame (Multiset.mem_singleton_self _)) (hfree frame)
  · exact h1

/-- With no frame left and nothing to open on the way, nothing is done. -/
theorem setupPageMap_blocked (hfree : ∀ f, ¬ s.memoryManager.IsFree f)
    (hwalk : walk s.mem n (s.mem pageMap (addr.part (n + 1))) (addr.pageNumber n) = none)
    (hopen : WayOpen s.mem n (s.mem pageMap (addr.part (n + 1))) (addr.pageNumber n)) :
    Machine.setupPageMap true (n + 1) pageMap addr 1 s = (.error .noEnoughMemory, s) := by
  induction n generalizing pageMap with
  | zero =>
    have hp : (s.mem pageMap (addr.part 1)).present = false := by
      by_contra hp
      rw [Bool.not_eq_false] at hp
      simp [walk, hp] at hwalk
    unfold Machine.setupPageMap Machine.setupEntries
    simp [setNewPageMap_blocked hfree hp]
  | succ n ih =>
    unfold Machine.setupPageMap Machine.setupEntries
    rcases walk_none_cases hwalk with hp | ⟨hp, -, hwalk'⟩
    · simp [setNewPageMap_blocked hfree hp]
    · obtain ⟨hu, hw, hopen'⟩ := hopen hp
      obtain ⟨hdiv, hmod⟩ := pageNumber_div_mod addr n
      rw [hdiv, hmod] at hopen'
      have hlevel : (if n + 1 + 1 = 1 then true else true) = true := ite_self true
      rw [if_neg Nat.one_ne_zero]
      simp only [setNewPageMap_present hp, hlevel, setEntry_open hu hw, ih hwalk' hopen']

/-- A call that fails at an absent entry has no frame for it, or the entry is there now. -/
theorem blocked_of_absent {err : Error} (hused : s.memoryManager.getBit pageMap = true)
    (hp : (s.mem pageMap (addr.part (n + 1))).present = false)
    (hcall : Machine.setupPageMap true (n + 1) pageMap addr 1 s = (.error err, s'))
    (hsame : s'.mem pageMap (addr.part (n + 1)) = s.mem pageMap (addr.part (n + 1))) :
    ∀ f, ¬ s.memoryManager.IsFree f := by
  unfold Machine.setupPageMap at hcall
  rcases setNewPageMapIfNotPresent_cases s pageMap (addr.part (n + 1)) with
    ⟨hp', -⟩ | ⟨-, frame, s₀, htakes, hmem, h1⟩ | ⟨-, hfree, -⟩
  · rw [hp] at hp'
    cases hp'
  · exfalso
    rcases setupEntries_round Nat.one_ne_zero hcall with ⟨hset, -⟩ | ⟨childMap, s₁, hset, s₂, hs₂, hround⟩
    · rw [h1] at hset
      cases hset
    · have hopens := opens_setNewPageMap hset
      have hset' := hset
      rw [h1] at hset'
      have hpresent : (s₁.mem pageMap (addr.part (n + 1))).present = true := by
        cases hset'
        rw [Machine.setEntry_mem]
        rfl
      have hentry : Opens s₁ s₂ := by
        rw [hs₂]
        exact opens_setEntry id (fun _ => rfl) fun _ => by simp
      have hafter : Opens s₂ s' := by
        rcases hround with ⟨hcall', -⟩ | ⟨-, num₁, s₃, hcall', hrest⟩
        · exact opens_setupPageMap hcall'
        · exact (opens_setupPageMap hcall').trans (opens_setupEntries (fun _ _ _ _ _ _ h => opens_setupPageMap h) hrest)
      have hnow := (((hentry.trans hafter) pageMap (hopens pageMap hused).1).2 (addr.part (n + 1))).1 hpresent
      rw [hsame, hp] at hnow
      cases hnow
  · exact hfree

/-- A call that fails below a present entry has opened it. -/
theorem opened_of_unchanged {err : Error} (hused : s.memoryManager.getBit pageMap = true)
    (hp : (s.mem pageMap (addr.part (n + 1))).present = true)
    (hcall : Machine.setupPageMap true (n + 1) pageMap addr 1 s = (.error err, s'))
    (hsame : s'.mem pageMap (addr.part (n + 1)) = s.mem pageMap (addr.part (n + 1))) :
    ((s.mem pageMap (addr.part (n + 1))).user = true ∧ (s.mem pageMap (addr.part (n + 1))).writable = true) ∧
      Machine.setupPageMap true n (s.mem pageMap (addr.part (n + 1))).pointer addr 1 s = (.error err, s') := by
  unfold Machine.setupPageMap at hcall
  rcases setupEntries_round Nat.one_ne_zero hcall with ⟨hset, -⟩ | ⟨childMap, s₁, hset, s₂, hs₂, hround⟩
  · rw [setNewPageMap_present hp] at hset
    cases hset
  rw [setNewPageMap_present hp] at hset
  cases hset
  have hlevel : (if n + 1 = 1 then true else true) = true := ite_self true
  rw [hlevel] at hs₂
  have hafter : Opens s₂ s' := by
    rcases hround with ⟨hcall', -⟩ | ⟨-, num₁, s₃, hcall', hrest⟩
    · exact opens_setupPageMap hcall'
    · exact (opens_setupPageMap hcall').trans (opens_setupEntries (fun _ _ _ _ _ _ h => opens_setupPageMap h) hrest)
  have hused₂ : s₂.memoryManager.getBit pageMap = true := by rwa [hs₂]
  obtain ⟨-, hu, hw⟩ := (hafter pageMap hused₂).2 (addr.part (n + 1))
  rw [hsame, hs₂, Machine.setEntry_mem] at hu hw
  have hopen := And.intro (hu rfl) (hw rfl)
  rw [setEntry_open hopen.1 hopen.2] at hs₂
  subst hs₂
  refine ⟨hopen, ?_⟩
  rcases hround with ⟨hcall', -⟩ | ⟨-, num₁, s₃, hcall', hrest⟩
  · exact hcall'
  · rw [setupPageMap_one hcall'] at hrest
    unfold Machine.setupEntries at hrest
    rw [if_pos rfl] at hrest
    cases hrest

/-- A page map and those on the way below it have not changed. -/
def WayUnchanged (s s' : Machine) (n pageMap : ℕ) (addr : LinearAddress4Level) : Prop :=
  s'.mem pageMap (addr.part (n + 1)) = s.mem pageMap (addr.part (n + 1)) ∧
    ∀ f ∈ tablesOnWay s.mem n (s.mem pageMap (addr.part (n + 1))) (addr.pageNumber n), s'.mem f = s.mem f

/-- Otherwise something is: if it fails, an entry on the way has changed. -/
theorem blocked_of_unchanged {err : Error} (hused : s.memoryManager.getBit pageMap = true)
    (hbelow : ∀ f ∈ tablesOnWay s.mem n (s.mem pageMap (addr.part (n + 1))) (addr.pageNumber n),
      s.memoryManager.getBit f = true)
    (hwalk : walk s.mem n (s.mem pageMap (addr.part (n + 1))) (addr.pageNumber n) = none)
    (hcall : Machine.setupPageMap true (n + 1) pageMap addr 1 s = (.error err, s'))
    (hsame : WayUnchanged s s' n pageMap addr) : (∀ f, ¬ s.memoryManager.IsFree f) ∧
      WayOpen s.mem n (s.mem pageMap (addr.part (n + 1))) (addr.pageNumber n) := by
  induction n generalizing pageMap with
  | zero =>
    have hp : (s.mem pageMap (addr.part 1)).present = false := by
      by_contra hp
      rw [Bool.not_eq_false] at hp
      simp [walk, hp] at hwalk
    refine ⟨?_, fun hp' => ?_⟩
    · exact blocked_of_absent hused hp hcall hsame.1
    · rw [hp] at hp'
      cases hp'
  | succ n ih =>
    rcases walk_none_cases hwalk with hp | ⟨hp, hh, hwalk'⟩
    · refine ⟨blocked_of_absent hused hp hcall hsame.1, fun hp' => ?_⟩
      rw [hp] at hp'
      cases hp'
    · obtain ⟨hdiv, hmod⟩ := pageNumber_div_mod addr n
      have hway : tablesOnWay s.mem (n + 1) (s.mem pageMap (addr.part (n + 2))) (addr.pageNumber (n + 1)) =
          (s.mem pageMap (addr.part (n + 2))).pointer :: tablesOnWay s.mem n
            (s.mem (s.mem pageMap (addr.part (n + 2))).pointer (addr.part (n + 1))) (addr.pageNumber n) := by
        rw [tablesOnWay, if_neg (by simp [hp, hh]), hdiv, hmod]
      obtain ⟨⟨hu, hw⟩, hcall'⟩ := opened_of_unchanged hused hp hcall hsame.1
      rw [hway] at hbelow
      have hchild : WayUnchanged s s' n (s.mem pageMap (addr.part (n + 2))).pointer addr := by
        have hall := hsame.2
        rw [hway] at hall
        exact ⟨congrFun (hall _ List.mem_cons_self) _, fun f hf => hall f (List.mem_cons_of_mem _ hf)⟩
      obtain ⟨hfree, hopen⟩ := ih (hbelow _ List.mem_cons_self) (fun f hf => hbelow f (List.mem_cons_of_mem _ hf))
        hwalk' hcall' hchild
      refine ⟨hfree, fun _ => ⟨hu, hw, ?_⟩⟩
      rw [hdiv, hmod]
      exact hopen

/-! ### An address of the kernel -/

variable {t : TaskMemory} {errorCode v : ℕ}

/-- Page faults are for canonical addresses. -/
def Canonical (v : ℕ) : Prop := v < 2 ^ 47 ∨ AppAddress v

theorem part_of_kernel (hv : v < 2 ^ 47) : (LinearAddress4Level.ofValue v).part 4 < 256 := by
  show v / 2 ^ 39 % 512 < 256
  omega

theorem not_appAddress (hv : v < 2 ^ 47) : ¬ AppAddress v := fun ha => by
  have hge := ha.1
  omega

theorem pageVaddr_part (addr : LinearAddress4Level) : (Machine.pageVaddr addr).part 4 = addr.part 4 := rfl

theorem pageVaddr_pageNumber (addr : LinearAddress4Level) : (Machine.pageVaddr addr).pageNumber 3 = addr.pageNumber 3 :=
  rfl

/-- Nothing has been done. -/
theorem confined_refl (err : Error) : Confined base rest s v (some (.error err, s)) :=
  ⟨.error err, s, rfl, fun hok => (nomatch hok), fun _ _ => rfl, fun _ _ => rfl⟩

/-- `SetupPageMaps` for a page of the kernel half that is not there. -/
theorem setup_kernel (h : Accounts base s (r ::ₘ rest)) (hr : s.cr3 = r) (hk : KernelTables base s)
    (ha : addr.part 4 < 256) (hnone : s.translate addr = none) {res : Except Error ℕ}
    (hcall : s.setupPageMaps addr 1 true = (res, s')) :
    ((∀ f, ¬ s.memoryManager.IsFree f) ∧ WayOpen s.mem 3 (s.mem s.cr3 (addr.part 4)) (addr.pageNumber 3) →
      s' = s ∧ res = .error .noEnoughMemory) ∧
    ∀ err, res = .error err → (∀ i < 256, s'.mem s.cr3 i = s.mem s.cr3 i) → Spares base rest s s' →
      (∀ f, ¬ s.memoryManager.IsFree f) ∧ WayOpen s.mem 3 (s.mem s.cr3 (addr.part 4)) (addr.pageNumber 3) := by
  have hused : s.memoryManager.getBit s.cr3 = true := by
    rw [hr]
    exact h.sound.pageMap_allocated
  refine ⟨?_, ?_⟩
  · rintro ⟨hfree, hopen⟩
    unfold Machine.setupPageMaps at hcall
    rw [setupPageMap_blocked hfree hnone hopen] at hcall
    cases hcall
    exact ⟨rfl, rfl⟩
  · rintro err rfl hentries hspares
    have htables := hk addr ha
    exact blocked_of_unchanged hused (fun f hf => (h.base_used (htables f hf)).1) hnone hcall
      ⟨hentries _ ha, fun f hf => hspares f (.inl (htables f hf))⟩

/-- What follows from `SetupPageMaps` for an address of the kernel is confined only if it could do nothing. -/
theorem confined_setup (h : Accounts base s (r ::ₘ rest)) (hr : s.cr3 = r) (hk : KernelTables base s)
    (hv : v < 2 ^ 47) (ha : addr.part 4 < 256) (hnone : s.translate addr = none) {res : Except Error ℕ}
    (hcall : s.setupPageMaps addr 1 true = (res, s')) {outcome : Option (Except Error Unit × Machine)}
    (herror : ∀ err, res = .error err → outcome = some (.error err, s'))
    (hok : ∀ num, res = .ok num → ∀ res' x, outcome = some (res', x) → res' = .ok ()) :
    Confined base rest s v outcome ↔
      (∀ f, ¬ s.memoryManager.IsFree f) ∧ WayOpen s.mem 3 (s.mem s.cr3 (addr.part 4)) (addr.pageNumber 3) := by
  obtain ⟨hblocked, hchanged⟩ := setup_kernel h hr hk ha hnone hcall
  constructor
  · rintro ⟨res', x, rfl, hnew, hentries, hspares⟩
    cases hres : res with
    | error err =>
      have hout := herror err hres
      rw [Option.some.injEq, Prod.mk.injEq] at hout
      rw [hout.2] at hentries hspares
      exact hchanged err hres hentries hspares
    | ok num => exact absurd (hnew (hok num hres res' x rfl)).1 (not_appAddress hv)
  · intro hopen
    obtain ⟨rfl, hres⟩ := hblocked hopen
    rw [herror _ hres]
    exact confined_refl _

/-- `CopyOnePage`, for an address of the kernel. -/
theorem confined_copyOnePage (hv : v < 2 ^ 47) :
    Confined base rest s v (s.copyOnePage v) ↔ ∀ f, ¬ s.memoryManager.IsFree f := by
  unfold Machine.copyOnePage
  rcases newPageMap_cases s with ⟨frame, s₁, hnew, htakes, -⟩ | ⟨hnew, hfree⟩
  · rw [hnew]
    refine iff_of_false ?_ fun hall => hall frame (htakes.isFree frame (Multiset.mem_singleton_self _))
    rintro ⟨res, s', hcall, hpage, -⟩
    simp only [Option.bind_eq_bind, Option.bind_eq_some_iff] at hcall
    obtain ⟨page, -, hcall⟩ := hcall
    cases hcall
    exact not_appAddress hv (hpage rfl).1
  · rw [hnew]
    exact iff_of_true (confined_refl _) hfree

/-- **Page faults that the application raises are confined** exactly if they are for its own addresses,
have no answer, or nothing can be done about them for lack of frames. -/
theorem confined_iff (h : Accounts base s (r ::ₘ rest)) (hr : s.cr3 = r) (hk : KernelTables base s)
    (hv : Canonical v) (hraise : s.Raises (.ofValue v) errorCode) (huser : errorCode / 4 % 2 = 1) :
    Confined base rest s v (s.handlePageFault t errorCode v) ↔ AppAddress v ∨ ¬ Answered t errorCode v ∨
      (∀ f, ¬ s.memoryManager.IsFree f) ∧ (errorCode % 2 = 1 ∨
        WayOpen s.mem 3 (s.mem s.cr3 ((LinearAddress4Level.ofValue v).part 4))
            ((LinearAddress4Level.ofValue v).pageNumber 3)) := by
  rcases hv with hv | hv
  · rw [or_iff_right (not_appAddress hv)]
    unfold Answered Machine.handlePageFault
    by_cases hpresent : errorCode % 2 = 1
    · have hmissing : ¬ errorCode % 2 = 0 := by omega
      by_cases hrw : errorCode / 2 % 2 = 1
      · rw [if_pos ⟨hpresent, hrw, huser⟩, confined_copyOnePage hv]
        simp [hpresent, hrw]
      · rw [if_neg fun hc => hrw hc.2.1, if_pos hpresent]
        exact iff_of_true (confined_refl _) (.inl (by simp [hrw, hmissing]))
    · have hmissing : errorCode % 2 = 0 := by omega
      have hnone : s.translate (.ofValue v) = none := by
        unfold Machine.Raises at hraise
        split at hraise
        next hnone => exact hnone
        next => exact absurd hraise.1 hpresent
      have ha := part_of_kernel hv
      rw [if_neg fun hc => hpresent hc.1, if_neg hpresent]
      by_cases hdemand : t.dpagingBegin ≤ v ∧ v < t.dpagingEnd
      · rw [if_pos hdemand]
        rcases hcall : s.setupPageMaps (.ofValue v) 1 true with ⟨res, s'⟩
        refine (confined_setup h hr hk hv ha hnone hcall (fun err herr => ?_) fun num hok res' x hout => ?_).trans ?_
        · rw [herr]
        · rw [hok] at hout
          cases hout
          rfl
        · simp [hmissing, hdemand]
      · rw [if_neg hdemand]
        cases hmap : Machine.findFileMapping t.fileMaps v with
        | none => exact iff_of_true (confined_refl _) (.inl (by simp [hpresent, hdemand]))
        | some m =>
          have hpage := (Machine.translate_pageVaddr s (.ofValue v)).trans hnone
          have ha' := (pageVaddr_part (.ofValue v)).trans_lt ha
          rcases hcall : s.setupPageMaps (Machine.pageVaddr (.ofValue v)) 1 true with ⟨res, s'⟩
          refine (confined_setup h hr hk hv ha' hpage hcall (fun err herr => ?_) fun num hok res' x hout => ?_).trans ?_
          · unfold Machine.preparePageCache
            simp only [hcall, herr]
          · unfold Machine.preparePageCache at hout
            simp only [hcall, hok, Option.bind_eq_bind, Option.bind_eq_some_iff] at hout
            obtain ⟨page, -, hout⟩ := hout
            cases hout
            rfl
          · rw [pageVaddr_part, pageVaddr_pageNumber]
            simp [hmissing]
  · refine iff_of_true ?_ (.inl hv)
    obtain ⟨res, s', hcall, hserves, hnew⟩ := h.fault (t := t) hr hv.part hraise
    refine ⟨res, s', hcall, fun hok => ⟨hv, hnew hok⟩, fun i hi => ?_, hserves.spares⟩
    rw [hr]
    exact hserves.entries i fun hmem => absurd hi (Nat.not_lt.mpr (mem_app.mp hmem).1)

/-! ### The identity map -/

/-- An application without pages, page map 1, with the first gigabyte of `SetupIdentityPageTable`: page maps
2 and 3, of pages of 2 MiB. -/
def identityMapped : Machine where
  mem f i :=
    if f = 1 ∧ i = 0 then (entryTo 2 true).setUser false
    else if f = 2 ∧ i = 0 then (entryTo 3 true).setUser false
    else if f = 3 ∧ i < 512 then { (entryTo (512 * i) true).setUser false with hugePage := true }
    else .zero
  memoryManager := { getBit := fun f => f < 8, rangeBegin := 1, rangeEnd := 64, rangeEnd_le := smallRange }
  cr3 := 1

/-- The frames of the kernel. -/
def kernelFrames (f : ℕ) : Prop := f < 8 ∧ f ≠ 1

theorem identityMapped_empty {i : ℕ} (hi : i ≠ 0) : identityMapped.mem 1 i = .zero := by
  simp [identityMapped, hi]

theorem identityMapped_accounts : Accounts kernelFrames identityMapped (1 ::ₘ 0) := by
  have hzero : ∀ i ∈ app, identityMapped.mem 1 i = .zero := fun i hi =>
    identityMapped_empty (by have hge := (mem_app.mp hi).1; omega)
  have howned : (1 ::ₘ 0 : Multiset ℕ).bind identityMapped.owned = {1} := by
    rw [Multiset.cons_bind, Multiset.zero_bind, add_zero, Machine.owned, Machine.below, below_of_absent, add_zero]
    intro i hi
    rw [hzero i hi]
    rfl
  refine ⟨fun r hr => ?_, ?_, fun f => ?_, fun f hf hb => ?_⟩
  · rw [Multiset.mem_cons, or_iff_left (Multiset.notMem_zero r)] at hr
    subst hr
    intro i hi
    rw [hzero i hi]
    exact every_zero
  · rw [howned]
    exact Multiset.nodup_singleton 1
  · rw [howned, Multiset.mem_singleton]
    simp only [identityMapped, kernelFrames, decide_eq_true_eq]
    omega
  · rw [howned, Multiset.mem_singleton] at hf
    exact hb.2 hf

theorem identityMapped_tables : KernelTables kernelFrames identityMapped := by
  intro addr _ f hf
  have hone : ∀ i, i ≠ 0 → identityMapped.mem 2 i = .zero := fun i hi => by simp [identityMapped, hi]
  have hhuge : ∀ i, (identityMapped.mem 3 i).present = false ∨ (identityMapped.mem 3 i).hugePage = true := by
    intro i
    by_cases hi : i < 512 <;> simp [identityMapped, hi, entryTo, PageMapEntry.zero]
  have hcr3 : identityMapped.cr3 = 1 := rfl
  rw [hcr3] at hf
  by_cases h4 : addr.part 4 = 0
  · rw [h4, tablesOnWay, if_neg (by decide)] at hf
    have h2 : (identityMapped.mem 1 0).pointer = 2 := rfl
    rw [h2] at hf
    rcases List.mem_cons.mp hf with rfl | hf
    · exact ⟨by decide, by decide⟩
    generalize addr.pageNumber 3 / 512 ^ 2 = i, addr.pageNumber 3 % 512 ^ 2 = k at hf
    by_cases hi : i = 0
    · subst hi
      rw [tablesOnWay, if_neg (by decide)] at hf
      have h3 : (identityMapped.mem 2 0).pointer = 3 := rfl
      rw [h3] at hf
      rcases List.mem_cons.mp hf with rfl | hf
      · exact ⟨by decide, by decide⟩
      · rw [tablesOnWay, if_pos (hhuge _)] at hf
        cases hf
    · rw [hone i hi] at hf
      cases hf
  · rw [identityMapped_empty h4] at hf
    cases hf

/-- Reading from an address of the kernel is an error. -/
theorem confined_iff_read : Confined kernelFrames 0 identityMapped 0x100
    (identityMapped.handlePageFault noFileMaps 5 0x100) := by
  have hraise : identityMapped.Raises (.ofValue 0x100) 5 := ⟨rfl, rfl, .inl rfl⟩
  exact (confined_iff identityMapped_accounts rfl identityMapped_tables (.inl (by decide)) hraise rfl).mpr
    (.inr (.inl (by simp [Answered])))

/-- **The application stores to an address of the kernel**: `CopyOnePage` takes the first frame of the 2 MiB
page for a page map, and makes an entry in it. -/
theorem kernel_frame_overwritten : Accounts kernelFrames identityMapped (1 ::ₘ 0) ∧
    identityMapped.Raises (.ofValue 0x100) 7 ∧
    ¬ Confined kernelFrames 0 identityMapped 0x100 (identityMapped.handlePageFault noFileMaps 7 0x100) ∧
    ∃ s', identityMapped.handlePageFault noFileMaps 7 0x100 = some (.ok (), s') ∧
      kernelFrames 0 ∧ s'.mem 0 ≠ identityMapped.mem 0 := by
  have hcall : ((identityMapped.handlePageFault noFileMaps 7 0x100).map fun x =>
      (match x.1 with | .ok _ => true | .error _ => false, (x.2.mem 0 0).pointer)) = some (true, 8) := by decide +kernel
  obtain ⟨⟨res, s'⟩, hfault, heq⟩ := Option.map_eq_some_iff.mp hcall
  rw [Prod.mk.injEq] at heq
  obtain ⟨hres, hptr⟩ := heq
  have hok : res = .ok () := by
    cases res with
    | error err => cases hres
    | ok => rfl
  subst hok
  have hchanged : s'.mem 0 ≠ identityMapped.mem 0 := by
    intro he
    rw [he] at hptr
    cases hptr
  refine ⟨identityMapped_accounts, ⟨rfl, rfl, .inl rfl⟩, ?_, s', hfault, ⟨by decide, by decide⟩, hchanged⟩
  rintro ⟨res', x, hx, -, -, hspares⟩
  rw [hfault] at hx
  cases hx
  exact hchanged (hspares 0 (.inl ⟨by decide, by decide⟩))

end DuvuvurKernel
