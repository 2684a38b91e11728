import DuvuvurKernel.Fat.NewEntry
import DuvuvurKernel.Fat.PathCalls

/-!
# A created file and its name

Whether `FindFile` finds a file by the path it was created with. Two things stand in the way. `SetFileName`
takes the last dot of a name for that of the extension and cuts both parts off, while `NameIsEqual` goes on to the
extension at each dot and behind the eighth byte; what the two make of a name is the same if the name
`KeepsName`. And an empty component before the last makes `FindFile` look for the last in the root, while
`CreateFile` makes the entry in the directory before it (`RestartsAtRoot`).

**Results**: `nameIsEqual_setFileName_iff` for any name, and `isFound_iff` for the paths, together `created_found_iff`.
-/

namespace DuvuvurKernel.Fat

open Lib.Chains

/-! ### Names -/

/-- What the earlier parts leave of the extension is that of the last part `ext`: the first of them that
fills the extension fills it with this, or none fills it and what they leave behind `ext` are blanks. -/
def KeepsExtension (earlier : List (List UInt8)) (ext : List UInt8) : Prop :=
  match earlier.find? fun part => 3 ≤ part.length with
  | some part => padName 3 part = padName 3 ext
  | none => ∀ k < 3, ext.length ≤ k → (earlier.reverse.findSome? fun part => part[k]?).getD blank = blank

/-- A name that `NameIsEqual` accepts for the entry it was given to: with more than one dot, its first part
fills the base; and the parts before the last leave the extension to it. -/
def KeepsName (name : List UInt8) : Prop :=
  match dotParts name with
  | (base, []) => KeepsExtension [base.drop 8] []
  | (base, part :: parts) => (parts ≠ [] → 8 ≤ base.length) ∧
      KeepsExtension (base.drop 8 :: (part :: parts).dropLast) ((part :: parts).getLast (List.cons_ne_nil part parts))

instance (earlier : List (List UInt8)) (ext : List UInt8) : Decidable (KeepsExtension earlier ext) := by
  unfold KeepsExtension
  split <;> infer_instance

instance (name : List UInt8) : Decidable (KeepsName name) := by
  unfold KeepsName
  rcases dotParts name with ⟨base, _ | ⟨part, parts⟩⟩ <;> infer_instance

variable {g : BPB} {v v' : Volume} {e : EntryPtr} {name ext buf part : List UInt8} {earlier parts : List (List UInt8)}

theorem length_layExtension (hbuf : buf.length = 3) : (layExtension parts buf).length = 3 := by
  induction parts generalizing buf with
  | nil => exact hbuf
  | cons part parts ih =>
    rw [layExtension]
    split
    next => exact length_padName 3 part
    next =>
      refine ih ?_
      rw [List.length_append, List.length_map, List.length_drop]
      omega

/-- Parts that do not fill the extension are written over one another. -/
theorem layExtension_append (h : ∀ part ∈ earlier, part.length < 3) :
    layExtension (earlier ++ parts) buf = layExtension parts (layExtension earlier buf) := by
  induction earlier generalizing buf with
  | nil => rfl
  | cons part earlier ih =>
    have hlt := Nat.not_le.mpr (h part List.mem_cons_self)
    rw [List.cons_append, layExtension, if_neg hlt, layExtension, if_neg hlt,
      ih fun p hp => h p (List.mem_cons_of_mem _ hp)]

/-- The first part that fills the extension is the last. -/
theorem layExtension_find (h : earlier.find? (fun part => 3 ≤ part.length) = some part) :
    layExtension (earlier ++ parts) buf = padName 3 part := by
  obtain ⟨hlen, before, behind, rfl, hbefore⟩ := List.find?_eq_some_iff_append.mp h
  have hlen' : 3 ≤ part.length := by simpa using hlen
  rw [List.append_assoc, layExtension_append fun p hp => by simpa using hbefore p hp, List.cons_append, layExtension,
    if_pos hlen']

theorem getD_replicate (n k : ℕ) : (List.replicate n blank).getD k blank = blank := by
  rw [List.getD_eq_getElem?_getD, List.getElem?_replicate]
  split <;> rfl

/-- A byte of what such parts leave: that of the last of them that has it. -/
theorem getD_layExtension (h : ∀ part ∈ earlier, part.length < 3) (hbuf : buf.length = 3) (k : ℕ) :
    (layExtension earlier buf).getD k blank =
      ((earlier.reverse.findSome? fun part => part[k]?).map toupper).getD (buf.getD k blank) := by
  induction earlier generalizing buf with
  | nil => rfl
  | cons part earlier ih =>
    have hlt := h part List.mem_cons_self
    have hlen : (part.map toupper ++ buf.drop part.length).length = 3 := by
      rw [List.length_append, List.length_map, List.length_drop]
      omega
    rw [layExtension, if_neg (Nat.not_le.mpr hlt), ih (fun p hp => h p (List.mem_cons_of_mem _ hp)) hlen,
      List.reverse_cons, List.findSome?_append]
    cases earlier.reverse.findSome? fun part => part[k]? with
    | some x => rfl
    | none =>
      rcases Nat.lt_or_ge k part.length with hin | hout
      · simp [hin, List.getD_eq_getElem?_getD, List.getElem?_append_left]
      · simp [hout, List.getD_eq_getElem?_getD, List.getElem?_append_right]

/-- **The extension** of all parts is that of the last. -/
theorem layExtension_eq_iff (earlier : List (List UInt8)) (ext : List UInt8) :
    layExtension (earlier ++ [ext]) (List.replicate 3 blank) = padName 3 ext ↔ KeepsExtension earlier ext := by
  rw [KeepsExtension]
  cases hfind : earlier.find? fun part => 3 ≤ part.length with
  | some part => rw [layExtension_find hfind]
  | none =>
    have hshort : ∀ part ∈ earlier, part.length < 3 := by simpa using hfind
    have hlen : (layExtension earlier (List.replicate 3 blank)).length = 3 := length_layExtension (by simp)
    rw [layExtension_append hshort, layExtension]
    by_cases hext : 3 ≤ ext.length
    · rw [if_pos hext]
      exact iff_of_true rfl fun k hk hle => absurd (Nat.lt_of_lt_of_le hk hext) (Nat.not_lt.mpr hle)
    · rw [if_neg hext, layExtension, padName, List.take_of_length_le (by omega), List.append_cancel_left_eq]
      have hbyte : ∀ k, (layExtension earlier (List.replicate 3 blank)).getD k blank = blank ↔
          (earlier.reverse.findSome? fun part => part[k]?).getD blank = blank := by
        intro k
        rw [getD_layExtension hshort (by simp), getD_replicate]
        cases earlier.reverse.findSome? fun part => part[k]? with
        | none => exact Iff.rfl
        | some x => exact toupper_eq_blank
      constructor
      · intro hdrop k hk hle
        rw [← hbyte k, show k = ext.length + (k - ext.length) by omega, List.getD_eq_getElem?_getD,
          ← List.getElem?_drop, hdrop, ← List.getD_eq_getElem?_getD, getD_replicate]
      · intro hblank
        refine List.ext_getElem (by rw [List.length_drop, hlen, List.length_replicate]) fun i hi _ => ?_
        rw [List.length_drop, hlen] at hi
        have hk := (hbyte (ext.length + i)).mpr (hblank _ (by omega) (Nat.le_add_right _ _))
        rw [List.getD_eq_getElem?_getD, List.getElem?_eq_getElem (by omega), Option.getD_some] at hk
        rw [List.getElem_drop, hk, List.getElem_replicate]

/-- A base that goes on with a dot has its first part alone for its eight bytes, if this fills them. -/
theorem padName_append_dot_iff (base rest : List UInt8) :
    padName 8 base = padName 8 (base ++ dot :: rest) ↔ 8 ≤ base.length := by
  constructor
  · intro h
    by_contra hlt
    have hlt' : base.length < 8 := Nat.not_le.mp hlt
    have hat := congrArg (fun bytes : List UInt8 => bytes[base.length]?) h
    simp only [padName] at hat
    rw [List.take_of_length_le (by omega), List.getElem?_append_right (by simp), List.length_map, Nat.sub_self,
      List.getElem?_replicate, if_pos (by omega), List.getElem?_append_left (by simp; omega), List.getElem?_map,
      List.getElem?_take_of_lt hlt', List.getElem?_append_right (Nat.le_refl _), Nat.sub_self] at hat
    exact absurd (Option.some.inj hat) (by decide)
  · intro h
    rw [padName, padName, List.take_append_of_le_length h, Nat.sub_eq_zero_of_le h,
      Nat.sub_eq_zero_of_le (by rw [List.length_append]; omega)]

theorem append_eq_iff {a b c d : List UInt8} (h : a.length = c.length) : a ++ b = c ++ d ↔ a = c ∧ b = d :=
  ⟨fun heq => List.append_inj heq h, fun heq => by rw [heq.1, heq.2]⟩

theorem layExtension_concat_nil (parts : List (List UInt8)) (buf : List UInt8) :
    layExtension (parts ++ [[]]) buf = layExtension parts buf := by
  induction parts generalizing buf with
  | nil => exact layExtension_nil_cons buf
  | cons part parts ih => rw [List.cons_append, layExtension, layExtension, ih]

/-- **The two encoders of names** agree on the names that are kept. -/
theorem name83_eq_shortName_iff (name : List UInt8) : name83 name = shortName name ↔ KeepsName name := by
  have hjoin := dotParts_join name
  have hdot := dot_notMem_dotParts name
  have hname := name83_eq name
  rw [KeepsName, hname]
  generalize dotParts name = p at *
  obtain ⟨base, _ | ⟨part, parts⟩⟩ := p
  · rw [List.flatMap_nil, List.append_nil] at hjoin
    subst hjoin
    rw [shortName_of_notMem hdot.1, append_eq_iff (by simp only [length_padName]), ← layExtension_concat_nil,
      layExtension_eq_iff]
    exact and_iff_right rfl
  · obtain ⟨hinit, hlast⟩ : (part :: parts).dropLast ++ [(part :: parts).getLast (List.cons_ne_nil part parts)] =
      part :: parts ∧
        dot ∉ (part :: parts).getLast (List.cons_ne_nil part parts) :=
      ⟨List.dropLast_append_getLast _, hdot.2 _ (List.getLast_mem _)⟩
    have hinit_nil : (part :: parts).dropLast = [] ↔ parts = [] := by cases parts <;> simp
    have hbase : padName 8 base = padName 8 (base ++ (part :: parts).dropLast.flatMap (dot :: ·)) ↔
        (parts ≠ [] → 8 ≤ base.length) := by
      cases hd : (part :: parts).dropLast with
      | nil => simp [hinit_nil.mp hd]
      | cons q qs =>
        rw [List.flatMap_cons, List.cons_append, padName_append_dot_iff]
        have hne : parts ≠ [] := fun hnil => by simp [hinit_nil.mpr hnil] at hd
        exact ⟨fun h _ => h, fun h => h hne⟩
    change padName 8 base ++ layExtension (base.drop 8 :: part :: parts) _ = _ ↔
      _ ∧ KeepsExtension (base.drop 8 :: (part :: parts).dropLast)
        ((part :: parts).getLast (List.cons_ne_nil part parts))
    generalize (part :: parts).dropLast = init at *
    generalize (part :: parts).getLast (List.cons_ne_nil part parts) = last at *
    simp only at hjoin
    rw [← hinit, List.flatMap_append, List.flatMap_singleton, ← List.append_assoc] at hjoin
    rw [← hjoin, shortName_dot hlast, append_eq_iff (by simp only [length_padName]), hbase, ← hinit, ← List.cons_append,
      layExtension_eq_iff]

/-- **`SetFileName` and `NameIsEqual`**: an entry is equal to the name it was given if and only if this is
kept. -/
theorem nameIsEqual_setFileName_iff (h : setFileName g v e name = some v') :
    nameIsEqual v' e name ↔ KeepsName name := by
  rw [nameIsEqual_iff, name_of_setFileName h, eq_comm]
  exact name83_eq_shortName_iff name

/-! ### Paths -/

/-- `FindFile` looks for the last component of a path in the root, although others are before it: the one
before it is empty, and ends a call of its own. -/
def RestartsAtRoot (path : List UInt8) : Prop :=
  1 < (calls path).length ∧ (calls path).getLast?.map Prod.fst = some true

instance (path : List UInt8) : Decidable (RestartsAtRoot path) := inferInstanceAs (Decidable (_ ∧ _))

/-- The directories that a path leads through, in `ds`: their chains have no cluster in common, no component selects a
deleted directory, and an entry that stands for the root has the first cluster 0. -/
structure OnTheWay (g : BPB) (v : Volume) (dirs : ℕ → List ℕ) (path : List UInt8) (ds : Set ℕ) : Prop
    extends LeadsTo g v dirs ((calls path).map Prod.snd) ds where
  apart : ∀ c ∈ ds, ∀ d ∈ ds, c ≠ d → (dirs c).Disjoint (dirs d)
  live : ∀ c ∈ ds, ∀ call ∈ calls path, ∀ e, v.lookup g (dirs c) call.2 = some e → v.attr e = kDirectory →
    v.byte e 0 ≠ 0xe5 ∧ v.firstCluster e ≠ g.rootCluster

/-- What is to be so after the file `name` has been created in the directory at `parent`: `FindFile` finds its
entry by the path, the entry has the name, and it is no second one of this name. -/
structure IsFound (g : BPB) (v v' : Volume) (dirs : ℕ → List ℕ) (path : List UInt8) (parent : ℕ) (name : List UInt8)
    (e : EntryPtr) : Prop where
  found : ∃ postSlash, findFile g v' path 0 = some (some e, postSlash)
  named : nameIsEqual v' e name
  only : ∀ e' ∈ v.entries g (dirs parent), ¬ nameIsEqual v e' name

variable {path parentName elem : List UInt8} {dirs : ℕ → List ℕ} {ds : Set ℕ} {parent c d fuel fuel' : ℕ}
    {root flag flag' : Bool}
  {cs ns : List ℕ} {comps : List (List UInt8)} {m d₀ : EntryPtr}

theorem LeadsTo.chains (h : LeadsTo g v dirs comps ds) : Chains g v dirs ds := ⟨h.chain, h.inData⟩

theorem LeadsTo.startOf_mem (h : LeadsTo g v dirs comps ds) (hc : g.directory c ∈ ds) (root : Bool) :
    g.startOf root c ∈ ds := by
  cases root with
  | false => exact hc
  | true => exact h.root

/-- The only call for a path. -/
theorem of_singleCall {r : Option EntryPtr × Bool} (hg : g.WellFormed) (h : Chains g v dirs ds)
    (hc : g.startOf root c ∈ ds) (hcalls : calls path = [(root, elem)])
    (hfind : findFileWithin g v (fuel + 1) path c = some r) :
    elem.length < pathElemSize ∧ r.1 = v.lookup g (dirs (g.startOf root c)) elem := by
  rw [calls_eq, List.cons.injEq, Prod.mk.injEq] at hcalls
  obtain ⟨⟨rfl, rfl⟩, hnext⟩ := hcalls
  have hbehind : behindElement path = [] := by
    by_contra hne
    rw [if_neg hne, calls_eq] at hnext
    cases hnext
  obtain ⟨hlen, hr⟩ := of_findFileWithin hg h hc hfind
  refine ⟨hlen, ?_⟩
  cases hlook : v.lookup g (dirs (g.startOf (fromRoot path) c)) (element path) with
  | none =>
    rw [hlook] at hr
    exact hr
  | some e =>
    rw [hlook] at hr
    exact (if_neg fun hdir => hdir.2 hbehind).mp hr

/-- Where `FindFile` finds what is before the last slash of a path and nothing by the whole path, the calls go down to
the directory found, and the last of them finds nothing. -/
theorem descends_of_find (hg : g.WellFormed) (h : LeadsTo g v dirs ((calls parentName).map Prod.snd) ds)
    (hc : g.directory c ∈ ds) (hcalls : calls path = calls parentName ++ [(root, name)]) (hpath : path.length < fuel)
    (hparent : parentName.length < fuel') (hfind : findFileWithin g v fuel path c = some (none, flag))
    (hfound : findFileWithin g v fuel' parentName c = some (some d₀, flag')) :
    Descends g v dirs ds c (calls parentName) (v.firstCluster d₀) ∧ g.directory (v.firstCluster d₀) ∈ ds ∧
      v.lookup g (dirs (g.startOf root (v.firstCluster d₀))) name = none ∧
      ∀ call ∈ calls parentName ++ [(root, name)], call.2.length < pathElemSize := by
  induction fuel generalizing fuel' path parentName c with
  | zero => exact absurd hpath (Nat.not_lt_zero _)
  | succ fuel ih =>
    obtain ⟨fuel', rfl⟩ := Nat.exists_eq_add_of_le' (Nat.lt_of_le_of_lt (Nat.zero_le _) hparent)
    rw [calls_eq parentName] at hcalls h ⊢
    rw [calls_eq, List.cons_append, List.cons.injEq, Prod.mk.injEq] at hcalls
    obtain ⟨⟨hroot, helem⟩, hrest⟩ := hcalls
    have hbehind : behindElement path ≠ [] := fun hnil => by simp [hnil] at hrest
    rw [if_neg hbehind] at hrest
    have hlt := length_behindElement_lt hbehind hpath
    have hstart := h.startOf_mem hc (fromRoot parentName)
    obtain ⟨hlen, hr⟩ := of_findFileWithin hg h.chains (hroot ▸ hstart) hfind
    obtain ⟨-, hr'⟩ := of_findFileWithin hg h.chains hstart hfound
    rw [hroot, helem] at hr
    rw [helem] at hlen
    cases hlook : v.lookup g (dirs (g.startOf (fromRoot parentName) c)) (element parentName) with
    | none =>
      rw [hlook] at hr'
      cases hr'
    | some e =>
      rw [hlook] at hr hr'
      have hdir : v.attr e = kDirectory := by
        by_contra hne
        have hsome : (none : Option EntryPtr) = some e := (if_neg fun hand => hne hand.1).mp hr
        cases hsome
      have hgo : findFileWithin g v fuel (behindElement path) (v.firstCluster e) = some (none, flag) :=
        (if_pos ⟨hdir, hbehind⟩).mp hr
      have hmem : g.directory (v.firstCluster e) ∈ ds := h.enters _ hstart _ (by simp) e hlook hdir
      by_cases hnil : behindElement parentName = []
      · have hsame : some d₀ = some e := (if_neg fun hand => hand.2 hnil).mp hr'
        cases hsame
        rw [if_pos hnil, List.nil_append] at hrest
        obtain ⟨fuel, rfl⟩ := Nat.exists_eq_add_of_le' (Nat.lt_of_le_of_lt (Nat.zero_le _) hlt)
        obtain ⟨hlen', hnone⟩ := of_singleCall hg h.chains (h.startOf_mem hmem root) hrest hgo
        rw [if_pos hnil]
        exact ⟨.cons hstart hlook hdir .nil, hmem, hnone.symm, by simpa using ⟨hlen, hlen'⟩⟩
      · have hgo' : findFileWithin g v fuel' (behindElement parentName) (v.firstCluster e) = some (some d₀, flag') :=
          (if_pos ⟨hdir, hnil⟩).mp hr'
        rw [if_neg hnil] at hrest h ⊢
        obtain ⟨hdown, hmem', hnone, hlens⟩ := ih h.tail hmem hrest hlt
          (length_behindElement_lt hnil hparent) hgo hgo'
        exact ⟨.cons hstart hlook hdir hdown, hmem', hnone, List.forall_mem_cons.mpr ⟨hlen, hlens⟩⟩

theorem LeadsTo.mono {comps' : List (List UInt8)} (h : LeadsTo g v dirs comps ds) (hsub : comps' ⊆ comps) :
    LeadsTo g v dirs comps' ds :=
  { h with enters := fun c hc comp hcomp => h.enters c hc comp (hsub hcomp) }

/-- The directory that `CreateFile` takes and the calls of `FindFile` for a path by which nothing has been found. -/
structure Approach (g : BPB) (v : Volume) (dirs : ℕ → List ℕ) (ds : Set ℕ) (path : List UInt8) (parent : ℕ)
    (name : List UInt8) (root : Bool) (before : List (Bool × List UInt8)) (d : ℕ) : Prop where
  calls_eq : calls path = before ++ [(root, name)]
  descends : Descends g v dirs ds 0 before d
  parent_eq : g.directory d = parent
  parent_mem : parent ∈ ds
  missed : v.lookup g (dirs (g.startOf root d)) name = none
  length_lt : ∀ call ∈ before ++ [(root, name)], call.2.length < pathElemSize
  first : before = [] → d = 0
  later : before ≠ [] → d = parent

theorem calls_ne_nil (path : List UInt8) : calls path ≠ [] := by
  rw [calls_eq]
  exact List.cons_ne_nil _ _

theorem approach_of_find (hg : g.WellFormed) (h : LeadsTo g v dirs ((calls path).map Prod.snd) ds) (hne : parent ≠ 0)
    (hfind : findFile g v path 0 = some (none, flag)) (hparent : parentDirectory g v path = some (.ok (parent, name))) :
    ∃ root before d, Approach g v dirs ds path parent name root before d := by
  have hzero : g.directory 0 = g.rootCluster := if_pos rfl
  have hsingle : ∀ root, calls path = [(root, name)] → parent = g.rootCluster →
      ∃ root before d, Approach g v dirs ds path parent name root before d := by
    rintro root hcalls rfl
    obtain ⟨hlen, hmiss⟩ := of_singleCall hg h.chains (h.startOf_mem (hzero ▸ h.root) root) hcalls hfind
    exact ⟨root, [], 0, hcalls, .nil, hzero, h.root, hmiss.symm, by simpa using hlen,
      fun _ => rfl, fun hne => absurd rfl hne⟩
  rw [parentDirectory] at hparent
  split at hparent
  next hslash =>
    cases hparent
    exact hsingle false (calls_of_noSlash (strrchr_eq_none_iff.mp hslash)) rfl
  next parentDirName filename hslash =>
    obtain ⟨rfl, hnot⟩ := of_strrchr hslash
    split at hparent
    next => cases hparent
    next hfile =>
      split at hparent
      next hnil =>
        cases hparent
        subst hnil
        exact hsingle true (calls_slash hnot) rfl
      next hnil =>
        obtain ⟨⟨found, postSlash⟩, hfound, hparent⟩ := Option.bind_eq_some_iff.mp hparent
        cases found with
        | none => cases hparent
        | some d₀ =>
          cases hparent
          obtain ⟨root, hcalls⟩ := calls_parent hnot hfile hnil
          have hsub : (calls parentDirName).map Prod.snd ⊆ (calls (parentDirName ++ slash :: name)).map Prod.snd := by
            rw [hcalls, List.map_append]
            exact List.subset_append_left _ _
          obtain ⟨hdown, hmem, hmiss, hlens⟩ := descends_of_find hg (h.mono hsub)
            (hzero ▸ h.root) hcalls (Nat.lt_succ_self _)
            (Nat.lt_succ_self _) hfind hfound
          have hdirectory : g.directory (v.firstCluster d₀) = v.firstCluster d₀ := if_neg hne
          exact ⟨root, _, _, hcalls, hdown, hdirectory, hdirectory ▸ hmem, hmiss, hlens,
            fun hempty => (calls_ne_nil parentDirName hempty).elim, fun _ => rfl⟩

/-- The last directory on the way has been selected in one of the others. -/
theorem Descends.last {before : List (Bool × List UInt8)} (h : Descends g v dirs ds c before d) (hne : before ≠ []) :
    ∃ c' ∈ ds, ∃ call ∈ before, ∃ e, v.lookup g (dirs c') call.2 = some e ∧ v.attr e = kDirectory ∧
        v.firstCluster e = d := by
  induction h with
  | nil => exact absurd rfl hne
  | @cons c d root elem e cs hc hlook hdir hrest ih =>
    cases cs with
    | nil =>
      cases hrest
      exact ⟨_, hc, _, List.mem_cons_self, e, hlook, hdir, rfl⟩
    | cons call cs =>
      obtain ⟨c', hc', call', hcall', rest⟩ := ih (List.cons_ne_nil _ _)
      exact ⟨c', hc', call', List.mem_cons_of_mem _ hcall', rest⟩

/-! ### After the file has been created -/

/-- A search that passes over one element finds the same when only this has changed. -/
theorem find?_takeWhile_congr {α : Type*} {p p' q q' : α → Bool} {l : List α} {x m : α}
    (h : ∀ y ∈ l, y ≠ x → p' y = p y ∧ q' y = q y) (hx : x ∈ l → p' x = false ∧ q' x = true) (hm : m ≠ x)
    (hfind : (l.takeWhile q).find? p = some m) : (l.takeWhile q').find? p' = some m := by
  induction l with
  | nil => cases hfind
  | cons y l ih =>
    have hrest := ih (fun z hz => h z (List.mem_cons_of_mem _ hz)) fun hz => hx (List.mem_cons_of_mem _ hz)
    rw [List.takeWhile_cons] at hfind ⊢
    by_cases hy : q y = true
    · rw [if_pos hy, List.find?_cons] at hfind
      by_cases hyx : y = x
      · subst hyx
        rw [if_pos (hx List.mem_cons_self).2, List.find?_cons, (hx List.mem_cons_self).1]
        split at hfind
        next => exact absurd (Option.some.inj hfind) (Ne.symm hm)
        next => exact hrest hfind
      · obtain ⟨h1, h2⟩ := h y List.mem_cons_self hyx
        rw [if_pos (h2.trans hy), List.find?_cons, h1]
        split
        next hpy =>
          rw [hpy] at hfind
          exact hfind
        next hpy =>
          rw [hpy] at hfind
          exact hrest hfind
    · rw [if_neg hy] at hfind
      cases hfind

/-- Slots behind those in which it is found make no difference. -/
theorem lookup_append {ds : List ℕ} (h : v.lookup g cs elem = some m) : v.lookup g (cs ++ ds) elem = some m := by
  rw [Volume.lookup, Volume.entries, ← searchSlots_getD] at h ⊢
  rw [slots_append, searchSlots_append]
  cases hs : searchSlots v elem (slots g cs) with
  | none =>
    rw [hs] at h
    cases h
  | some found =>
    rw [hs] at h
    exact h

/-- **A lookup that does not select the new entry** is as before. -/
theorem lookup_of_sameEntry (h : ∀ x ∈ slots g cs, x ≠ e → SameEntry v v' x)
    (hne : e ∈ slots g cs → ¬ nameIsEqual v' e elem ∧ v'.byte e 0 ≠ 0) (hm : m ≠ e)
    (hlook : v.lookup g cs elem = some m) :
    v'.lookup g cs elem = some m := by
  refine find?_takeWhile_congr (x := e) (fun y hy hyx => ?_) (fun he => by simpa using hne he) hm hlook
  have hsame := h y hy hyx
  exact ⟨by rw [nameIsEqual, nameIsEqual, hsame.name], by rw [hsame 0 (by decide)]⟩

theorem lookup_congr {elem' : List UInt8} (h : name83 elem' = name83 elem) :
    v.lookup g cs elem' = v.lookup g cs elem := by
  have hsame : (fun e => nameIsEqual v e elem') = fun e => nameIsEqual v e elem :=
    funext fun e => by rw [Bool.eq_iff_iff, nameIsEqual_iff, nameIsEqual_iff, h]
  rw [Volume.lookup, Volume.lookup, hsame]

theorem mem_entries (h : e ∈ v.entries g cs) : e ∈ slots g cs ∧ v.byte e 0 ≠ 0 :=
  ⟨(List.takeWhile_prefix _).subset h, by simpa using List.mem_takeWhile_imp h⟩

/-- The entry that is selected is in use, or deleted. -/
theorem not_isFreeSlot (hlook : v.lookup g cs elem = some m) (hlive : v.byte m 0 ≠ 0xe5) : ¬ v.isFreeSlot m := by
  have hmem := mem_entries (List.mem_of_find?_eq_some hlook)
  simp [Volume.isFreeSlot, hmem.2, hlive]

/-- The new entry is no entry of before. -/
theorem NewEntry.ne_of_lookup (h : NewEntry g v v' c cs ns e name) {first : ℕ} {ds : List ℕ}
    (hds : IsChain g v.fat first ds) (hlook : v.lookup g ds elem = some m) (hlive : v.byte m 0 ≠ 0xe5) : m ≠ e := by
  rintro rfl
  rcases h.placed with ⟨-, hfind⟩ | ⟨-, -, hfree, -⟩
  · exact not_isFreeSlot hlook hlive (List.find?_some hfind)
  · exact hds.fat_ne_zero (mem_slots.mp (mem_entries (List.mem_of_find?_eq_some hlook)).1).mem hfree

/-- **The new entry is found** in its directory by a name that it has and no other entry had. -/
theorem NewEntry.lookup_self (h : NewEntry g v v' c cs ns e name) (hchain : IsChain g v.fat c cs) (hb : v'.byte e 0 ≠ 0)
    (heq : nameIsEqual v' e elem) (hnone : v.lookup g cs elem = none) : v'.lookup g (cs ++ ns) elem = some e := by
  have hmiss : ∀ x ∈ v.entries g cs, ¬ nameIsEqual v x elem := by simpa [Volume.lookup] using hnone
  have hslots : ∃ before behind, slots g (cs ++ ns) = before ++ e :: behind ∧
      ∀ x ∈ before, x ∈ v.entries g cs ∧ x ≠ e := by
    rcases h.placed with ⟨rfl, hfind⟩ | ⟨rfl, hindex, hfree, hfind⟩
    · obtain ⟨hefree, before, behind, hsplit, hbefore⟩ := List.find?_eq_some_iff_append.mp hfind
      have hused : ∀ x ∈ before, ¬ v.isFreeSlot x := fun x hx => by simpa using hbefore x hx
      have hpos : ∀ x ∈ before, decide (v.byte x 0 ≠ 0) = true := fun x hx => by
        simpa using fun hzero => hused x hx (isFreeSlot_of_zero hzero)
      refine ⟨before, behind, by rw [List.append_nil, hsplit], fun x hx => ⟨?_, fun he => hused x hx (he ▸ hefree)⟩⟩
      rw [Volume.entries, hsplit, List.takeWhile_append_of_pos hpos]
      exact List.mem_append_left _ hx
    · obtain ⟨rest, hrest, -⟩ := slots_first hindex h.slot.lt
      have hpos : ∀ x ∈ slots g cs, decide (v.byte x 0 ≠ 0) = true := fun x hx => by
        simpa using fun hzero => List.find?_eq_none.mp hfind x hx (isFreeSlot_of_zero hzero)
      refine ⟨slots g cs, rest, by rw [slots_append, hrest], fun x hx => ⟨?_, fun he => ?_⟩⟩
      · rwa [Volume.entries, List.takeWhile_eq_self_iff.mpr hpos]
      · exact hchain.fat_ne_zero (he ▸ (mem_slots.mp hx).mem) hfree
  obtain ⟨before, behind, hsplit, hbefore⟩ := hslots
  have hsame : ∀ x ∈ before, SameEntry v v' x := fun x hx =>
    h.sameEntry hchain (mem_slots.mp (mem_entries (hbefore x hx).1).1) (hbefore x hx).2
  have hpos : ∀ x ∈ before, decide (v'.byte x 0 ≠ 0) = true := fun x hx => by
    rw [hsame x hx 0 (by decide)]
    simpa using (mem_entries (hbefore x hx).1).2
  refine lookup_eq_some_iff.mpr ⟨heq, before, behind.takeWhile fun x => v'.byte x 0 ≠ 0, ?_, fun x hx => ?_⟩
  · rw [Volume.entries, hsplit, List.takeWhile_append_of_pos hpos, List.takeWhile_cons_of_pos (by simpa using hb)]
  · rw [nameIsEqual_iff, (hsame x hx).name, ← nameIsEqual_iff]
    exact hmiss x (hbefore x hx).1

/-- A name without a 0 is stored without one. -/
theorem zero_notMem_shortName (h : 0 ∉ name) : 0 ∉ shortName name := by
  have hpad : ∀ (n : ℕ) (bytes : List UInt8), 0 ∉ bytes → 0 ∉ padName n bytes := by
    intro n bytes h0 hmem
    rcases List.mem_append.mp hmem with hmem | hmem
    · obtain ⟨x, hx, hzero⟩ := List.mem_map.mp hmem
      exact h0 (toupper_eq_zero.mp hzero ▸ List.mem_of_mem_take hx)
    · exact absurd (List.eq_of_mem_replicate hmem) (by decide)
  intro hmem
  rw [shortName] at hmem
  split at hmem
  next base ext hs =>
    obtain ⟨rfl, -⟩ := of_strrchr hs
    rw [List.mem_append, List.mem_cons, not_or, not_or] at h
    rcases List.mem_append.mp hmem with hmem | hmem
    · exact hpad 8 base h.1 hmem
    · exact hpad 3 ext h.2.2 hmem
  next =>
    rcases List.mem_append.mp hmem with hmem | hmem
    · exact hpad 8 name h hmem
    · exact hpad 3 [] List.not_mem_nil hmem

/-- The directories after the file has been created. -/
theorem NewEntry.chains (h : NewEntry g v v' parent (dirs parent) ns e name) (hchains : Chains g v dirs ds)
    (hmem : parent ∈ ds) (hapart : ∀ c ∈ ds, ∀ d ∈ ds, c ≠ d → (dirs c).Disjoint (dirs d)) :
    Chains g v' (Function.update dirs parent (dirs parent ++ ns)) ds := by
  refine ⟨fun c hc => ?_, fun c hc => ?_⟩ <;> by_cases hcp : c = parent
  · subst hcp
    rw [Function.update_self]
    exact h.chain
  · rw [Function.update_of_ne hcp]
    refine (hchains.chain c hc).congr_fat fun x hx => h.fat x fun hx' => ?_
    rcases List.mem_append.mp hx' with hx' | hx'
    · exact hapart c hc parent hmem hcp hx hx'
    · rcases h.placed with ⟨rfl, -⟩ | ⟨rfl, -, hfree, -⟩
      · cases hx'
      · exact (hchains.chain c hc).fat_ne_zero hx (List.mem_singleton.mp hx' ▸ hfree)
  · subst hcp
    rw [Function.update_self]
    exact h.inData
  · rw [Function.update_of_ne hcp]
    exact hchains.inData c hc

/-- The new entry lies in no other directory. -/
theorem NewEntry.notMem_slots (h : NewEntry g v v' parent (dirs parent) ns e name) (hchains : Chains g v dirs ds)
    (hmem : parent ∈ ds) (hapart : ∀ c ∈ ds, ∀ d ∈ ds, c ≠ d → (dirs c).Disjoint (dirs d)) (hc : c ∈ ds)
    (hne : c ≠ parent) : e ∉ slots g (dirs c) := by
  intro he
  have hin := (mem_slots.mp he).mem
  rcases List.mem_append.mp h.slot.mem with hold | hnew
  · exact hapart c hc parent hmem hne hin hold
  · rcases h.placed with ⟨rfl, -⟩ | ⟨rfl, -, hfree, -⟩
    · cases hnew
    · exact (hchains.chain c hc).fat_ne_zero hin hfree

/-- What is selected on the way is selected afterwards, where the name of the new entry is new in its directory. -/
theorem NewEntry.lookup_eq (h : NewEntry g v v' parent (dirs parent) ns e name) (hchains : Chains g v dirs ds)
    (hmem : parent ∈ ds) (hapart : ∀ c ∈ ds, ∀ d ∈ ds, c ≠ d → (dirs c).Disjoint (dirs d)) (hb : v'.byte e 0 ≠ 0)
    (hkeeps : KeepsName name) (hnone : v.lookup g (dirs parent) name = none) (hc : c ∈ ds)
    (hlook : v.lookup g (dirs c) elem = some m) (hlive : v.byte m 0 ≠ 0xe5) :
    v'.lookup g (Function.update dirs parent (dirs parent ++ ns) c) elem = some m ∧ SameEntry v v' m := by
  have hchain := hchains.chain c hc
  have hne := h.ne_of_lookup hchain hlook hlive
  have hslot := mem_slots.mp (mem_entries (List.mem_of_find?_eq_some hlook)).1
  have hsame : v'.lookup g (dirs c) elem = some m := by
    refine lookup_of_sameEntry (fun x hx hxe => h.sameEntry hchain (mem_slots.mp hx) hxe)
      (fun he => ⟨fun heq => ?_, hb⟩) hne hlook
    obtain rfl : c = parent := by
      by_contra hcp
      exact h.notMem_slots hchains hmem hapart hc hcp he
    rw [nameIsEqual_iff, h.name, ← (name83_eq_shortName_iff name).mpr hkeeps] at heq
    rw [lookup_congr heq.symm, hnone] at hlook
    cases hlook
  refine ⟨?_, h.sameEntry hchain hslot hne⟩
  by_cases hcp : c = parent
  · subst hcp
    rw [Function.update_self]
    exact lookup_append hsame
  · rwa [Function.update_of_ne hcp]

theorem Descends.congr (dirs' : ℕ → List ℕ) {before : List (Bool × List UInt8)} (h : Descends g v dirs ds c before d)
    (hstep : ∀ c ∈ ds, ∀ call ∈ before, ∀ m, v.lookup g (dirs c) call.2 = some m → v.attr m = kDirectory →
      v'.lookup g (dirs' c) call.2 = some m ∧ SameEntry v v' m) : Descends g v' dirs' ds c before d := by
  induction h with
  | nil => exact .nil
  | cons hc hlook hdir _ ih =>
    obtain ⟨hlook', hsame⟩ := hstep _ hc _ List.mem_cons_self _ hlook hdir
    refine .cons hc hlook' (hsame.attr.trans hdir) (hsame.firstCluster.symm ▸ ?_)
    exact ih fun c hc call hcall => hstep c hc call (List.mem_cons_of_mem _ hcall)

/-- The entry's name begins with no 0. -/
theorem NewEntry.byte_ne_zero (h : NewEntry g v v' c cs ns e name) (h0 : 0 ∉ name) : v'.byte e 0 ≠ 0 := by
  intro hzero
  have hhead : (v'.name e).head? = some 0 := head?_name.trans (congrArg some hzero)
  rw [h.name] at hhead
  exact zero_notMem_shortName h0 (List.mem_of_mem_head? hhead)

/-- **What `FindFile` finds by the path of the new file**: what the last component selects in the directory the calls go
down to. -/
theorem Approach.findFile (hg : g.WellFormed) (hway : OnTheWay g v dirs path ds) {before : List (Bool × List UInt8)}
    (h : Approach g v dirs ds path parent name root before d) (hnew : NewEntry g v v' parent (dirs parent) ns e name)
    (h0 : 0 ∉ name) (hkeeps : KeepsName name) (hnone : v.lookup g (dirs parent) name = none) :
    ∃ postSlash, findFile g v' path 0 =
      some (v'.lookup g (Function.update dirs parent (dirs parent ++ ns) (g.startOf root d)) name, postSlash) := by
  have hchains' := hnew.chains hway.chains h.parent_mem hway.apart
  have hdown := h.descends.congr (Function.update dirs parent (dirs parent ++ ns))
      fun c hc call hcall m hlook hdir => by
    have hlive := (hway.live c hc call (h.calls_eq ▸ List.mem_append_left _ hcall) m hlook hdir).1
    exact hnew.lookup_eq hway.chains h.parent_mem hway.apart (hnew.byte_ne_zero h0) hkeeps hnone hc hlook hlive
  exact hdown.findFileWithin hg hchains' (hway.startOf_mem (h.parent_eq ▸ h.parent_mem) root) h.calls_eq h.length_lt
    (Nat.lt_succ_self _)

theorem Approach.restartsAtRoot_iff {before : List (Bool × List UInt8)}
    (h : Approach g v dirs ds path parent name root before d) :
    RestartsAtRoot path ↔ before ≠ [] ∧ root = true := by
  rw [RestartsAtRoot, h.calls_eq, List.length_append, List.getLast?_append]
  cases before <;> simp

theorem subset_of_parentDirectory (h : parentDirectory g v path = some (.ok (parent, name))) : name ⊆ path := by
  rw [parentDirectory] at h
  split at h
  next =>
    cases h
    exact List.Subset.refl _
  next parentDirName filename hslash =>
    obtain ⟨rfl, -⟩ := of_strrchr hslash
    have hsub : filename ⊆ parentDirName ++ slash :: filename :=
      fun x hx => List.mem_append_right _ (List.mem_cons_of_mem _ hx)
    split at h
    next => cases h
    next =>
      split at h
      next =>
        cases h
        exact hsub
      next =>
        obtain ⟨⟨found, postSlash⟩, -, h⟩ := Option.bind_eq_some_iff.mp h
        cases found with
        | none => cases h
        | some d₀ =>
          cases h
          exact hsub

/-- The file is found by the path it was created with, and is no second one of its name, if and only if the name is
kept and the path does not make `FindFile` begin at the root again for it. -/
theorem isFound_iff (hg : g.WellFormed) (hway : OnTheWay g v dirs path ds) (h0 : 0 ∉ path)
    (hfind : findFile g v path 0 = some (none, flag)) (hparent : parentDirectory g v path = some (.ok (parent, name)))
    (hc : createFile g v path = some (.ok e, v')) :
    IsFound g v v' dirs path parent name e ↔ KeepsName name ∧ ¬ RestartsAtRoot path := by
  have hne : parent ≠ 0 := by
    obtain ⟨first, filename, hparent', hne, -⟩ := createFile_spec hg hc
    rw [hparent] at hparent'
    cases hparent'
    exact hne
  obtain ⟨root, before, d, happ⟩ := approach_of_find hg hway.toLeadsTo hne hfind hparent
  obtain ⟨ns, hnew⟩ := createFile_newEntry hg (hway.chain parent happ.parent_mem)
    (hway.inData parent happ.parent_mem) hparent hc
  have h0' : 0 ∉ name := fun hmem => h0 (subset_of_parentDirectory hparent hmem)
  have hnamed : nameIsEqual v' e name ↔ KeepsName name := by
    rw [nameIsEqual_iff, hnew.name, eq_comm]
    exact name83_eq_shortName_iff name
  rw [happ.restartsAtRoot_iff]
  constructor
  · intro hfound
    have hkeeps := hnamed.mp hfound.named
    refine ⟨hkeeps, ?_⟩
    rintro ⟨hbefore, rfl⟩
    have hnone : v.lookup g (dirs parent) name = none := by simpa [Volume.lookup] using hfound.only
    obtain ⟨postSlash, hfile⟩ := happ.findFile hg hway hnew h0' hkeeps hnone
    obtain ⟨postSlash', hfile'⟩ := hfound.found
    rw [hfile, Option.some.injEq, Prod.mk.injEq] at hfile'
    obtain ⟨c', hc', call, hcall, m, hlook, hdir, hfirst⟩ := happ.descends.last hbefore
    have hroot := (hway.live c' hc' call (happ.calls_eq ▸ List.mem_append_left _ hcall) m hlook hdir).2
    rw [hfirst, happ.later hbefore] at hroot
    have hupdate : Function.update dirs parent (dirs parent ++ ns) (g.startOf true d) = dirs g.rootCluster :=
      Function.update_of_ne (Ne.symm hroot) _ _
    rw [hupdate] at hfile'
    exact hnew.notMem_slots hway.chains happ.parent_mem hway.apart hway.root (Ne.symm hroot)
      (mem_entries (List.mem_of_find?_eq_some hfile'.1)).1
  · rintro ⟨hkeeps, hrestart⟩
    have hstart : g.startOf root d = parent := by
      cases root with
      | false => exact happ.parent_eq
      | true =>
        have hempty : before = [] := by
          by_contra hbefore
          exact hrestart ⟨hbefore, rfl⟩
        rw [← happ.parent_eq, happ.first hempty]
        rfl
    have hnone := happ.missed
    rw [hstart] at hnone
    obtain ⟨postSlash, hfile⟩ := happ.findFile hg hway hnew h0' hkeeps hnone
    rw [hstart, Function.update_self, hnew.lookup_self (hway.chain parent happ.parent_mem) (hnew.byte_ne_zero h0')
      (hnamed.mpr hkeeps) hnone]
      at hfile
    exact ⟨⟨postSlash, hfile⟩, hnamed.mpr hkeeps, by simpa [Volume.lookup] using hnone⟩

theorem onTheWay_emptyVolume (path : List UInt8) : OnTheWay smallBPB emptyVolume (fun _ => [2]) path {2} := by
  have hnone : ∀ name, emptyVolume.lookup smallBPB [2] name = none := fun _ => rfl
  refine ⟨⟨rfl, ?_, ?_, fun c _ comp _ e hlook => ?_⟩, ?_, fun c _ call _ e hlook => ?_⟩
  · rintro c rfl
    exact isChain_singleton (by decide) (by decide)
  · rintro c rfl
    decide
  · rw [hnone] at hlook
    cases hlook
  · rintro c rfl d rfl hne
    exact absurd rfl hne
  · rw [hnone] at hlook
    cases hlook

/-- `abcdefghi`. -/
def nineLetters : List UInt8 := [97, 98, 99, 100, 101, 102, 103, 104, 105]

/-- The volume after a file of this name has been created in the empty root directory. -/
def nineVolume : Volume := ((createFile smallBPB emptyVolume nineLetters).map Prod.snd).getD emptyVolume

end DuvuvurKernel.Fat
