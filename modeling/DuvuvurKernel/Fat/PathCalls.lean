import DuvuvurKernel.Fat.PathSearch

/-!
# The calls of `FindFile` for a path

`FindFile` calls itself for what is behind the slash after an element, and drops a slash at the start of
what it is called for; so the text of a path decides the elements that it can be called for and which of the
calls begin at the root (`pathCalls`). An empty element in the middle of a path makes the call after it
begin at the root.

`findFileWithin_eq` is one call, `Descends` says which directories the calls go down to, and
`Descends.findFile` is the last call behind them.
-/

namespace DuvuvurKernel.Fat

open Lib.Chains

/-- Whether `FindFile` begins at the root for a text, what it reads the element from, the element, and what is
behind the slash after it. -/
def fromRoot (path : List UInt8) : Bool := path.head? = some slash

def afterRoot (path : List UInt8) : List UInt8 := if fromRoot path then path.tail else path

def element (path : List UInt8) : List UInt8 := (afterRoot path).takeWhile (· ≠ slash)

def behindElement (path : List UInt8) : List UInt8 := ((afterRoot path).dropWhile (· ≠ slash)).tail

/-- The calls for a text: whether they begin at the root, and their elements. -/
def pathCalls : ℕ → List UInt8 → List (Bool × List UInt8)
  | 0, _ => []
  | fuel + 1, path =>
    (fromRoot path, element path) :: if behindElement path = [] then [] else pathCalls fuel (behindElement path)

/-- Those of `FindFile` for a path. -/
def calls (path : List UInt8) : List (Bool × List UInt8) := pathCalls (path.length + 1) path

variable (g : BPB) (v : Volume)

/-- The directory that a call searches. -/
def BPB.startOf (root : Bool) (c : ℕ) : ℕ := if root then g.rootCluster else g.directory c

/-- The calls select directories one after the other, all of them in `ds`, and the last is followed by a
call for the directory at `d`. -/
inductive Descends (dirs : ℕ → List ℕ) (ds : Set ℕ) : ℕ → List (Bool × List UInt8) → ℕ → Prop where
  | nil {c : ℕ} : Descends dirs ds c [] c
  | cons {c d : ℕ} {root : Bool} {elem : List UInt8} {e : EntryPtr} {cs : List (Bool × List UInt8)} :
      g.startOf root c ∈ ds → v.lookup g (dirs (g.startOf root c)) elem = some e → v.attr e = kDirectory →
      Descends dirs ds (v.firstCluster e) cs d → Descends dirs ds c ((root, elem) :: cs) d

variable {g v} {c d fuel : ℕ} {path rest elem name : List UInt8} {dirs : ℕ → List ℕ} {ds : Set ℕ}

/-! ### One call -/

theorem startDirectory_eq : startDirectory g path c = (afterRoot path, g.startOf (fromRoot path) c) := by
  cases path with
  | nil => rfl
  | cons x path =>
    rw [startDirectory, afterRoot, fromRoot, BPB.startOf]
    by_cases hx : x = slash
    · simp [hx]
    · simp [hx, BPB.directory]

theorem nextPathElement_eq (hlen : ((rest.takeWhile (· ≠ slash))).length < pathElemSize) :
    ∃ next, nextPathElement rest = some (rest.takeWhile (· ≠ slash), next, next.isSome) ∧
      next.getD [] = (rest.dropWhile (· ≠ slash)).tail := by
  rw [nextPathElement, if_pos hlen]
  cases rest.dropWhile (· ≠ slash) with
  | nil => exact ⟨none, rfl, rfl⟩
  | cons x next => exact ⟨some next, rfl, rfl⟩

theorem nextPathElement_none (hlen : ¬ ((rest.takeWhile (· ≠ slash))).length < pathElemSize) :
    nextPathElement rest = none :=
  if_neg hlen

/-- **One call of `FindFile`.** -/
theorem findFileWithin_eq (fuel c : ℕ) (hlen : (element path).length < pathElemSize) :
    ∃ postSlash, findFileWithin g v (fuel + 1) path c =
      (findInDirectory g v (element path) (g.fatEntries + 1) (g.startOf (fromRoot path) c)).bind fun found =>
        found.elim (some (none, postSlash)) fun e =>
          if v.attr e = kDirectory ∧ behindElement path ≠ []
          then findFileWithin g v fuel (behindElement path) (v.firstCluster e)
          else some (some e, postSlash) := by
  obtain ⟨next, hnext, hbehind⟩ := nextPathElement_eq hlen
  refine ⟨next.isSome, ?_⟩
  rw [findFileWithin, startDirectory_eq]
  simp only [hnext, Option.bind_eq_bind, Option.bind_some, hbehind]
  refine congrArg _ (funext fun found => ?_)
  cases found <;> rfl

theorem findFileWithin_none (hlen : ¬ (element path).length < pathElemSize) :
    findFileWithin g v (fuel + 1) path c = none := by
  rw [findFileWithin, startDirectory_eq]
  simp only [nextPathElement_none hlen, Option.bind_eq_bind, Option.bind_none]

/-! ### The calls for a path -/

theorem length_behindElement (h : behindElement path ≠ []) : (behindElement path).length < path.length := by
  have hroot : (afterRoot path).length ≤ path.length := by
    rw [afterRoot]
    split
    next => exact List.length_tail ▸ Nat.sub_le _ _
    next => exact Nat.le_refl _
  have hdrop := (List.dropWhile_suffix (l := afterRoot path) (· ≠ slash)).length_le
  have hpos := List.length_pos_of_ne_nil h
  rw [behindElement, List.length_tail] at *
  omega

/-- The fuel that is left is enough for what is left of the path. -/
theorem length_behindElement_lt (h : behindElement path ≠ []) (hfuel : path.length < fuel + 1) :
    (behindElement path).length < fuel :=
  Nat.lt_of_lt_of_le (length_behindElement h) (Nat.le_of_lt_succ hfuel)

/-- More fuel than the text is long makes no difference. -/
theorem pathCalls_eq (hfuel : path.length < fuel) : pathCalls fuel path = calls path := by
  have hsame : ∀ fuel fuel' path, path.length < fuel → path.length < fuel' →
      pathCalls fuel path = pathCalls fuel' path := by
    intro fuel
    induction fuel with
    | zero => exact fun fuel' path h => absurd h (Nat.not_lt_zero _)
    | succ fuel ih =>
      intro fuel' path h h'
      obtain ⟨fuel', rfl⟩ := Nat.exists_eq_add_of_le' (Nat.lt_of_le_of_lt (Nat.zero_le _) h')
      rw [pathCalls, pathCalls]
      by_cases hnext : behindElement path = []
      · rw [if_pos hnext, if_pos hnext]
      · have hlt := length_behindElement hnext
        rw [if_neg hnext, if_neg hnext, ih fuel' (behindElement path) (by omega) (by omega)]
  exact hsame _ _ _ hfuel (Nat.lt_succ_self _)

theorem calls_eq (path : List UInt8) :
    calls path = (fromRoot path, element path) :: if behindElement path = [] then []
        else calls (behindElement path) := by
  rw [calls, pathCalls]
  split
  next => rfl
  next h => rw [pathCalls_eq (length_behindElement h)]

theorem calls_of_noSlash (h : slash ∉ name) : calls name = [(false, name)] := by
  have hroot : fromRoot name = false := by
    rw [fromRoot, decide_eq_false_iff_not]
    exact fun hh => h (List.mem_of_mem_head? hh)
  obtain ⟨htake, hdrop⟩ := takeWhile_eq_self h
  have hafter : afterRoot name = name := by rw [afterRoot, hroot, if_neg Bool.false_ne_true]
  rw [calls_eq, behindElement, element, hafter, hdrop, htake, hroot]
  rfl

theorem calls_slash (h : slash ∉ name) : calls (slash :: name) = [(true, name)] := by
  obtain ⟨htake, hdrop⟩ := takeWhile_eq_self h
  have hroot : fromRoot (slash :: name) = true := by simp [fromRoot]
  have hafter : afterRoot (slash :: name) = name := by rw [afterRoot, hroot, if_pos rfl, List.tail_cons]
  rw [calls_eq, behindElement, element, hafter, hdrop, htake, hroot]
  rfl

theorem fromRoot_append {parent : List UInt8} (hparent : parent ≠ []) (rest : List UInt8) :
    fromRoot (parent ++ rest) = fromRoot parent ∧ afterRoot (parent ++ rest) = afterRoot parent ++ rest := by
  obtain ⟨x, xs, rfl⟩ := List.exists_cons_of_ne_nil hparent
  refine ⟨rfl, ?_⟩
  rw [afterRoot, afterRoot, List.cons_append, show fromRoot (x :: (xs ++ rest)) = fromRoot (x :: xs) from rfl]
  split <;> rfl

/-- The calls for a path are those for what is before its last slash and one more. -/
theorem calls_parent {parent : List UInt8} (h : slash ∉ name) (hname : name ≠ []) (hparent : parent ≠ []) :
    ∃ root, calls (parent ++ slash :: name) = calls parent ++ [(root, name)] := by
  induction hlen : parent.length using Nat.strong_induction_on generalizing parent with
  | _ n ih =>
    subst hlen
    obtain ⟨hroot, hafter⟩ := fromRoot_append hparent (slash :: name)
    rw [calls_eq, calls_eq parent, element, behindElement, hroot, hafter, element]
    by_cases hslash : slash ∈ afterRoot parent
    · obtain ⟨elem, rest, hsplit, hnot⟩ := List.eq_append_cons_of_mem hslash
      obtain ⟨htake, hdrop⟩ := takeWhile_noSlash hnot rest
      obtain ⟨htake', hdrop'⟩ := takeWhile_noSlash hnot (rest ++ slash :: name)
      have hbehind : behindElement parent = rest := by rw [behindElement, hsplit, hdrop, List.tail_cons]
      rw [hsplit, List.append_assoc, List.cons_append, htake', hdrop', htake, List.tail_cons, hbehind, if_neg (by simp)]
      by_cases hrest : rest = []
      · rw [hrest, List.nil_append, calls_slash h, if_pos rfl]
        exact ⟨true, rfl⟩
      · have hlt := length_behindElement (hbehind ▸ hrest)
        obtain ⟨root, hcalls⟩ := ih _ (hbehind ▸ hlt) hrest rfl
        rw [hcalls, if_neg hrest]
        exact ⟨root, rfl⟩
    · obtain ⟨htake, hdrop⟩ := takeWhile_noSlash hslash name
      obtain ⟨hself, hnil⟩ := takeWhile_eq_self hslash
      rw [htake, hdrop, List.tail_cons, if_neg hname, calls_of_noSlash h, behindElement, hnil, hself, List.tail_nil,
        if_pos rfl]
      exact ⟨false, rfl⟩

/-! ### The directories on the way -/

/-- The directories in `ds`, whose chains end and lie in the data area. -/
structure Chains (g : BPB) (v : Volume) (dirs : ℕ → List ℕ) (ds : Set ℕ) : Prop where
  chain : ∀ c ∈ ds, IsChain g v.fat c (dirs c)
  inData : ∀ c ∈ ds, ∀ x ∈ dirs c, g.InData x

theorem Chains.findInDirectory_eq (h : Chains g v dirs ds) (hg : g.WellFormed) (hc : c ∈ ds) :
    findInDirectory g v elem (g.fatEntries + 1) c = some (v.lookup g (dirs c) elem) :=
  Fat.findInDirectory_eq hg (h.chain c hc) (h.inData c hc)

/-- **The last call** looks its element up in the directory that those before it go down to. -/
theorem Descends.findFileWithin (hg : g.WellFormed) (h : Chains g v dirs ds) {before : List (Bool × List UInt8)}
    {root : Bool} (hdown : Descends g v dirs ds c before d) (hlast : g.startOf root d ∈ ds)
    (hcalls : calls path = before ++ [(root, elem)])
    (hlen : ∀ call ∈ before ++ [(root, elem)], call.2.length < pathElemSize) (hfuel : path.length < fuel) :
    ∃ postSlash, findFileWithin g v fuel path c = some (v.lookup g (dirs (g.startOf root d)) elem, postSlash) := by
  induction hdown generalizing fuel path with
  | @nil c =>
    obtain ⟨fuel, rfl⟩ := Nat.exists_eq_add_of_le' (Nat.lt_of_le_of_lt (Nat.zero_le _) hfuel)
    rw [calls_eq, List.nil_append, List.cons.injEq, Prod.mk.injEq] at hcalls
    obtain ⟨⟨rfl, rfl⟩, hnext⟩ := hcalls
    have hbehind : behindElement path = [] := by
      by_contra hne
      rw [if_neg hne, calls_eq] at hnext
      cases hnext
    obtain ⟨postSlash, heq⟩ := findFileWithin_eq (g := g) (v := v) fuel c (hlen _ List.mem_cons_self)
    rw [heq, h.findInDirectory_eq hg hlast, Option.bind_some]
    refine ⟨postSlash, ?_⟩
    cases v.lookup g (dirs (g.startOf (fromRoot path) c)) (element path) with
    | none => rfl
    | some e => rw [Option.elim_some, if_neg fun hdir => hdir.2 hbehind]
  | @cons c d root' elem' e cs hc hlook hdir _ ih =>
    obtain ⟨fuel, rfl⟩ := Nat.exists_eq_add_of_le' (Nat.lt_of_le_of_lt (Nat.zero_le _) hfuel)
    rw [calls_eq, List.cons_append, List.cons.injEq, Prod.mk.injEq] at hcalls
    obtain ⟨⟨rfl, rfl⟩, hnext⟩ := hcalls
    have hbehind : behindElement path ≠ [] := by
      intro hnil
      rw [if_pos hnil] at hnext
      simp at hnext
    rw [if_neg hbehind] at hnext
    obtain ⟨postSlash, heq⟩ := findFileWithin_eq (g := g) (v := v) fuel c (hlen _ List.mem_cons_self)
    rw [heq, h.findInDirectory_eq hg hc, hlook, Option.bind_some, Option.elim_some, if_pos ⟨hdir, hbehind⟩]
    exact ih hlast hnext (fun call hmem => hlen call (List.mem_cons_of_mem _ hmem))
      (length_behindElement_lt hbehind hfuel)

/-- What a defined call says. -/
theorem of_findFileWithin {r : Option EntryPtr × Bool} (hg : g.WellFormed) (h : Chains g v dirs ds)
    (hc : g.startOf (fromRoot path) c ∈ ds) (hfind : findFileWithin g v (fuel + 1) path c = some r) :
    (element path).length < pathElemSize ∧ match v.lookup g (dirs (g.startOf (fromRoot path) c)) (element path) with
      | none => r.1 = none
      | some e => if v.attr e = kDirectory ∧ behindElement path ≠ [] then
          findFileWithin g v fuel (behindElement path) (v.firstCluster e) = some r else r.1 = some e := by
  by_cases hlen : (element path).length < pathElemSize
  · refine ⟨hlen, ?_⟩
    obtain ⟨postSlash, heq⟩ := findFileWithin_eq (g := g) (v := v) fuel c hlen
    rw [heq, h.findInDirectory_eq hg hc, Option.bind_some] at hfind
    cases hlook : v.lookup g (dirs (g.startOf (fromRoot path) c)) (element path) with
    | none =>
      rw [hlook] at hfind
      cases hfind
      rfl
    | some e =>
      rw [hlook, Option.elim_some] at hfind
      by_cases hdir : v.attr e = kDirectory ∧ behindElement path ≠ []
      · rw [if_pos hdir] at hfind
        exact (if_pos hdir).mpr hfind
      · rw [if_neg hdir] at hfind
        cases hfind
        exact (if_neg hdir).mpr rfl
  · rw [findFileWithin_none hlen] at hfind
    cases hfind

end DuvuvurKernel.Fat
