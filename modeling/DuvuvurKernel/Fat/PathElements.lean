import DuvuvurKernel.Fat.PathCalls

/-!
# The buffer for a path element

Where `NextPathElement` writes. It copies an element into the thirteen bytes of `path_elem` without a look at its
length, in the branch for the last element as in that for the others.

**Result** (`elements_fit_iff`): whatever looks up a path, the writes stay in the buffer if and only if no element with
more than twelve characters is reached; one is reached unless an element before it selects no directory.
-/

namespace DuvuvurKernel.Fat

/-- The indexes of `path_elem` that `NextPathElement` writes: `strcpy` up to the terminator, or `strncpy` and the
terminator behind it. -/
def nextPathElementWrites (path : List UInt8) : List ℕ :=
  match path.dropWhile (· ≠ slash) with
  | [] => List.range (path.length + 1)
  | _ :: _ =>
    let elemLen := (path.takeWhile (· ≠ slash)).length
    List.range elemLen ++ [elemLen]

variable (g : BPB) (v : Volume)

/-- Those that `FindFile` makes at all levels of its recursion. Behind a write past the buffer anything goes. -/
def findFileWrites : ℕ → List UInt8 → ℕ → List ℕ
  | 0, _, _ => []
  | fuel + 1, path, directoryCluster =>
    let (path, directoryCluster) := startDirectory g path directoryCluster
    nextPathElementWrites path ++
      match nextPathElement path with
      | none => []
      | some (elem, nextPath, _) =>
        match findInDirectory g v elem (g.fatEntries + 1) directoryCluster with
        | some (some e) =>
          if v.attr e = kDirectory ∧ nextPath.getD [] ≠ [] then findFileWrites fuel (nextPath.getD [])
            (v.firstCluster e) else []
        | _ => []

/-- The directory `cersvass`. -/
def cersvass : List UInt8 := [99, 101, 114, 115, 118, 97, 115, 115]

/-- `@stdin`. -/
def atStdin : List UInt8 := [64, 115, 116, 100, 105, 110]

/-- What looks up a path: a command of the terminal with its argument, the creation of a file, `FindCommand`, the target
of a redirection, and `SyscallOpenFile`, with `O_CREAT` or without. -/
inductive PathUse where
  | argument (path : List UInt8)
  | createFile (path : List UInt8)
  | findCommand (command : List UInt8)
  | redirect (path : List UInt8)
  | openFile (path : List UInt8) (create : Bool)

/-- The calls of `FindFile` in `CreateFile`. -/
def createSearches (path : List UInt8) : List (List UInt8 × ℕ) :=
  match strrchr slash path with
  | none => []
  | some (parentDirName, filename) => if filename = [] ∨ parentDirName = [] then [] else [(parentDirName, 0)]

/-- Those in `FindCommand`, which calls itself at most `fuel` times. -/
def findCommandSearches : ℕ → List UInt8 → ℕ → List (List UInt8 × ℕ)
  | 0, _, _ => []
  | fuel + 1, command, dirCluster =>
    (command, dirCluster) ::
      match findFile g v command dirCluster with
      | some (none, _) =>
        if dirCluster ≠ 0 ∨ slash ∈ command then []
        else
          (cersvass, 0) ::
            match findFile g v cersvass 0 with
            | some (some apps, _) =>
              if v.attr apps ≠ kDirectory then [] else findCommandSearches fuel command (v.firstCluster apps)
            | _ => []
      | _ => []

/-- Those where a file is opened, and made if it is not there and is to be made. -/
def openSearches (path : List UInt8) (create : Bool) : List (List UInt8 × ℕ) :=
  (path, 0) ::
    match findFile g v path 0 with
    | some (none, _) => if create then createSearches path else []
    | _ => []

def PathUse.searches (fuel : ℕ) : PathUse → List (List UInt8 × ℕ)
  | .argument path => [(path, 0)]
  | .createFile path => createSearches path
  | .findCommand command => findCommandSearches g v fuel command 0
  | .redirect path => openSearches g v path true
  | .openFile path create => if path = atStdin then [] else openSearches g v path create

/-- All writes at an index of the buffer. -/
def PathUse.StaysInside (fuel : ℕ) (use : PathUse) : Prop :=
  ∀ search ∈ use.searches g v fuel, ∀ i ∈ findFileWrites g v (search.1.length + 1) search.1 search.2, i < pathElemSize

/-- The calls of `FindFile` select directories one after the other, and the last is followed by a call for the directory
at `d`. -/
inductive Selects : ℕ → List (Bool × List UInt8) → ℕ → Prop where
  | nil {c : ℕ} : Selects c [] c
  | cons {c d : ℕ} {root : Bool} {elem : List UInt8} {e : EntryPtr} {cs : List (Bool × List UInt8)} :
      findInDirectory g v elem (g.fatEntries + 1) (g.startOf root c) = some (some e) → v.attr e = kDirectory →
      Selects (v.firstCluster e) cs d → Selects c ((root, elem) :: cs) d

/-- No element with more than twelve characters is behind elements that all select directories. -/
def ElementsFit (path : List UInt8) (directoryCluster : ℕ) : Prop :=
  ∀ before call behind d, calls path = before ++ call :: behind → Selects g v directoryCluster before d →
    call.2.length ≤ 12

variable {g v} {path : List UInt8} {c fuel : ℕ}

/-! ### One element -/

theorem nextPathElementWrites_eq (path : List UInt8) :
    nextPathElementWrites path = List.range ((path.takeWhile (· ≠ slash)).length + 1) := by
  rw [nextPathElementWrites]
  split
  next h =>
    have hall := List.dropWhile_eq_nil_iff.mp h
    rw [List.takeWhile_eq_self_iff.mpr hall]
  next => exact List.range_succ.symm

/-- The writes of an element stay in the buffer if it has at most twelve characters. -/
theorem writes_lt_iff (path : List UInt8) :
    (∀ i ∈ nextPathElementWrites path, i < pathElemSize) ↔ (path.takeWhile (· ≠ slash)).length < pathElemSize := by
  rw [nextPathElementWrites_eq]
  constructor
  · exact fun h => h _ (List.mem_range.mpr (Nat.lt_succ_self _))
  · exact fun h i hi => Nat.lt_of_lt_of_le (List.mem_range.mp hi) h

/-! ### All levels -/

/-- The elements of a path are the first and those of what is behind it. -/
theorem elementsFit_iff : ElementsFit g v path c ↔ (element path).length ≤ 12 ∧
    ∀ e, findInDirectory g v (element path) (g.fatEntries + 1) (g.startOf (fromRoot path) c) = some (some e) →
      v.attr e = kDirectory → behindElement path ≠ [] → ElementsFit g v (behindElement path) (v.firstCluster e) := by
  constructor
  · intro h
    refine ⟨h [] (fromRoot path, element path) _ c (calls_eq path) .nil,
      fun e hfind hdir hne before call behind d hcalls hsel => ?_⟩
    refine h ((fromRoot path, element path) :: before) call behind d ?_ (.cons hfind hdir hsel)
    rw [calls_eq, if_neg hne, hcalls, List.cons_append]
  · rintro ⟨hlen, hrest⟩ before call behind d hcalls hsel
    rw [calls_eq] at hcalls
    cases hsel with
    | nil =>
      obtain ⟨rfl, -⟩ := List.cons.inj hcalls
      exact hlen
    | @cons _ _ root elem e cs hfind hdir hsel =>
      obtain ⟨hhead, htail⟩ := List.cons.inj hcalls
      obtain ⟨rfl, rfl⟩ := Prod.mk.inj hhead
      have hne : behindElement path ≠ [] := fun hnil => by simp [hnil] at htail
      rw [if_neg hne] at htail
      exact hrest e hfind hdir hne cs call behind d htail hsel

/-- The writes of one call of `FindFile`, and those of the calls behind it. -/
theorem findFileWrites_lt_iff (hlen : (element path).length < pathElemSize) :
    (∀ i ∈ findFileWrites g v (fuel + 1) path c, i < pathElemSize) ↔
      ∀ e, findInDirectory g v (element path) (g.fatEntries + 1) (g.startOf (fromRoot path) c) = some (some e) →
        v.attr e = kDirectory → behindElement path ≠ [] →
          ∀ i ∈ findFileWrites g v fuel (behindElement path) (v.firstCluster e), i < pathElemSize := by
  obtain ⟨next, hnext, hnext_getD⟩ := nextPathElement_eq hlen
  have hbehind : next.getD [] = behindElement path := hnext_getD
  have hfirst := (writes_lt_iff (afterRoot path)).mpr hlen
  rw [findFileWrites, startDirectory_eq]
  simp only [hnext, hbehind, List.forall_mem_append]
  refine (and_iff_right hfirst).trans ?_
  rw [show (afterRoot path).takeWhile (· ≠ slash) = element path from rfl]
  cases findInDirectory g v (element path) (g.fatEntries + 1) (g.startOf (fromRoot path) c) with
  | none => simp
  | some found =>
    cases found with
    | none => simp
    | some e =>
      by_cases hdir : v.attr e = kDirectory ∧ behindElement path ≠ []
      · simp [hdir]
      · simp only [if_neg hdir, List.not_mem_nil, false_implies, implies_true, Option.some.injEq, true_iff]
        rintro e' rfl h1 h2
        exact absurd ⟨h1, h2⟩ hdir

theorem findFileWrites_iff (hfuel : path.length < fuel) :
    (∀ i ∈ findFileWrites g v fuel path c, i < pathElemSize) ↔ ElementsFit g v path c := by
  induction fuel generalizing path c with
  | zero => exact absurd hfuel (Nat.not_lt_zero _)
  | succ fuel ih =>
    rw [elementsFit_iff]
    by_cases hlen : (element path).length < pathElemSize
    · rw [findFileWrites_lt_iff hlen, and_iff_right (Nat.le_of_lt_succ hlen)]
      refine forall_congr' fun e => imp_congr_right fun _ => imp_congr_right fun _ => forall_congr' fun hne => ?_
      exact ih (length_behindElement_lt hne hfuel)
    · refine iff_of_false (fun h => hlen ((writes_lt_iff (afterRoot path)).mp fun i hi => h i ?_))
        fun h => hlen (Nat.lt_succ_of_le h.1)
      rw [findFileWrites, startDirectory_eq]
      exact List.mem_append_left _ hi

/-- **The buffer for a path element** is kept to by a use of a path if and only if no element with more than twelve
characters is reached in a call of `FindFile`. -/
theorem elements_fit_iff (fuel : ℕ) (use : PathUse) :
    use.StaysInside g v fuel ↔ ∀ search ∈ use.searches g v fuel, ElementsFit g v search.1 search.2 :=
  forall_congr' fun _ => imp_congr_right fun _ => findFileWrites_iff (Nat.lt_succ_self _)

/-- A name of thirteen letters, the first of the alphabet. -/
def thirteenLetters : List UInt8 := (List.range 13).map fun i => UInt8.ofNat (97 + i)

/-- The terminator of `thirteenLetters`, as the argument of a command, is written behind the buffer. -/
theorem not_elements_fit_thirteen : 13 ∈ findFileWrites smallBPB emptyVolume 14 thirteenLetters 0 ∧
    ¬ (PathUse.argument thirteenLetters).StaysInside smallBPB emptyVolume 1 := by
  have hwritten : 13 ∈ findFileWrites smallBPB emptyVolume 14 thirteenLetters 0 := List.mem_append_left _ (by decide)
  refine ⟨hwritten, fun h => ?_⟩
  have hinside := h (thirteenLetters, 0) List.mem_cons_self 13 hwritten
  exact absurd hinside (by decide)

end DuvuvurKernel.Fat
