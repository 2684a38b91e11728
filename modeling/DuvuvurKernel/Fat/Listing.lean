import DuvuvurKernel.Fat.PathSearch

/-!
# Listing a directory

`ListAllEntries`, and how what it prints agrees with what `FindFile` finds. The listing leaves out
deleted entries and those of long names; `FindFile` leaves out none.

**Result** (`lookup_agrees_iff`): for a name and a directory the two agree if and only if the first entry
that `NameIsEqual` accepts is listed, the name is spelt as it is listed, and no entry that is listed by
this name has a stored name that `NameIsEqual` accepts for no text (such as `.` and `..`).
-/

namespace DuvuvurKernel.Fat

open Lib.Chains

variable (g : BPB) (v : Volume)

/-- An entry that `ListAllEntries` prints. -/
def Volume.isListed (e : EntryPtr) : Bool := v.byte e 0 ≠ 0xe5 ∧ v.attr e ≠ kLongName

/-- The loop of `ListAllEntries` over the last `k` entries of a cluster, from index `i` on: the names it
prints, and whether it returns. -/
def listInCluster (cluster : ℕ) : ℕ → ℕ → List (List UInt8) × Bool
  | 0, _ => ([], false)
  | k + 1, i =>
    if v.byte ⟨cluster, i⟩ 0 = 0 then ([], true)
    else if v.byte ⟨cluster, i⟩ 0 = 0xe5 then listInCluster cluster k (i + 1)
    else if v.attr ⟨cluster, i⟩ = kLongName then listInCluster cluster k (i + 1)
    else
      let (names, returns) := listInCluster cluster k (i + 1)
      (formatName v ⟨cluster, i⟩ :: names, returns)

/-- The loop of `ListAllEntries` over the clusters of a directory. -/
def listInDirectory : ℕ → ℕ → Option (List (List UInt8))
  | 0, _ => none
  | fuel + 1, cluster =>
    if cluster = kEndOfClusterchain then some []
    else if g.InData cluster then
      match listInCluster v cluster g.entriesPerCluster 0 with
      | (names, true) => some names
      | (names, false) => do
        let cluster ← nextCluster g v cluster
        let rest ← listInDirectory fuel cluster
        some (names ++ rest)
    else none

/-- `ListAllEntries`. -/
def listAllEntries (dirCluster : ℕ) : Option (List (List UInt8)) := listInDirectory g v (g.fatEntries + 1) dirCluster

/-- The entries of a directory that are listed. -/
def Volume.listed (cs : List ℕ) : List EntryPtr := (v.entries g cs).filter v.isListed

/-- Two texts are equal up to the case of their letters. -/
def SameText (a b : List UInt8) : Prop := a.map toupper = b.map toupper

instance (a b : List UInt8) : Decidable (SameText a b) := inferInstanceAs (Decidable (_ = _))

/-- `FindFile` finds a name in a directory if and only if `ListAllEntries` prints it, and then it is that
of the entry found. -/
def LookupAgrees (c : ℕ) (cs : List ℕ) (name : List UInt8) : Prop :=
  ∃ found names, findFile g v name c = some (found, false) ∧ listAllEntries g v c = some names ∧
    (found ≠ none ↔ ∃ text ∈ names, SameText text name) ∧
    ∀ e, found = some e → e ∈ v.listed g cs ∧ SameText (formatName v e) name

/-- A field of a name as `FormatName` gives it back. -/
def IsTrimmed (n : ℕ) (field : List UInt8) : Prop := field.length ≤ n ∧ field.getLast? ≠ some blank

instance (n : ℕ) (field : List UInt8) : Decidable (IsTrimmed n field) := inferInstanceAs (Decidable (_ ∧ _))

/-- A name as `FormatName` spells it: a base, or a base, a dot and an extension. -/
def IsCanonical (name : List UInt8) : Prop :=
  match dotParts name with
  | (base, []) => IsTrimmed 8 base
  | (base, [ext]) => IsTrimmed 8 base ∧ IsTrimmed 3 ext ∧ ext ≠ []
  | _ => False

instance (name : List UInt8) : Decidable (IsCanonical name) := by
  unfold IsCanonical
  split <;> infer_instance

/-- When they agree. -/
structure Agrees (cs : List ℕ) (name : List UInt8) : Prop where
  canonical : (∃ e ∈ v.entries g cs, nameIsEqual v e name) → IsCanonical name
  listed : ∀ before e behind, v.entries g cs = before ++ e :: behind → nameIsEqual v e name →
    (∀ e' ∈ before, ¬ nameIsEqual v e' name) → v.isListed e
  plain : (∀ e ∈ v.entries g cs, ¬ nameIsEqual v e name) → ∀ e ∈ v.listed g cs, SameText (formatName v e) name →
    IsPlain (v.name e)

variable {g v} {cs : List ℕ} {c first : ℕ} {name elem base ext field : List UInt8} {e : EntryPtr}

/-! ### What is printed -/

/-- The listing of a list of slots. -/
def listSlots (v : Volume) (es : List EntryPtr) : List (List UInt8) :=
  ((es.takeWhile fun e => v.byte e 0 ≠ 0).filter v.isListed).map (formatName v)

theorem listSlots_append (es fs : List EntryPtr) (h : ∀ e ∈ es, v.byte e 0 ≠ 0) :
    listSlots v (es ++ fs) = listSlots v es ++ listSlots v fs := by
  have hall : ∀ e ∈ es, decide (v.byte e 0 ≠ 0) = true := fun e he => by simpa using h e he
  simp only [listSlots]
  rw [List.takeWhile_append_of_pos hall, List.takeWhile_eq_self_iff.mpr hall, List.filter_append, List.map_append]

theorem listSlots_append_of_mem (es fs : List EntryPtr) (h : ∃ e ∈ es, v.byte e 0 = 0) :
    listSlots v (es ++ fs) = listSlots v es := by
  have htake : (es ++ fs).takeWhile (fun e => v.byte e 0 ≠ 0) = es.takeWhile fun e => v.byte e 0 ≠ 0 := by
    obtain ⟨e, he, hzero⟩ := h
    induction es with
    | nil => cases he
    | cons x es ih =>
      by_cases hx : v.byte x 0 = 0
      · simp [hx]
      · have hmem : e ∈ es := (List.mem_cons.mp he).resolve_left fun heq => hx (heq ▸ hzero)
        simpa [hx] using ih hmem
  simp only [listSlots, htake]

theorem listSlots_cons (e : EntryPtr) (es : List EntryPtr) : listSlots v (e :: es) =
    if v.byte e 0 = 0 then []
    else if v.byte e 0 = 0xe5 ∨ v.attr e = kLongName then listSlots v es
    else formatName v e :: listSlots v es := by
  rw [listSlots, List.takeWhile_cons]
  by_cases hzero : v.byte e 0 = 0
  · simp [hzero]
  · by_cases hlist : v.byte e 0 = 0xe5 ∨ v.attr e = kLongName
    · have hnot : v.isListed e = false := by simpa [Volume.isListed] using fun h : ¬ _ => hlist.resolve_left h
      simp [hzero, hlist, hnot, listSlots]
    · have hyes : v.isListed e = true := by simpa [Volume.isListed] using hlist
      simp [hzero, hlist, hyes, listSlots]

theorem listInCluster_eq (i k : ℕ) :
    listInCluster v c k i = (listSlots v ((List.range' i k).map fun i => ⟨c, i⟩),
        ((List.range' i k).map fun i => (⟨c, i⟩ : EntryPtr)).any fun e => v.byte e 0 = 0) := by
  induction k generalizing i with
  | zero => rfl
  | succ k ih =>
    rw [listInCluster, ih, List.range'_succ, List.map_cons, listSlots_cons, List.any_cons]
    by_cases hzero : v.byte ⟨c, i⟩ 0 = 0
    · simp [hzero]
    · by_cases hdel : v.byte ⟨c, i⟩ 0 = 0xe5
      · simp [hdel]
      · by_cases hattr : v.attr ⟨c, i⟩ = kLongName <;> simp [hzero, hdel, hattr]

/-- A round of the loop over the clusters. -/
theorem listInDirectory_succ (h : Clustered g (c :: cs)) (fuel : ℕ) :
    listInDirectory g v (fuel + 1) c =
      if (slots g [c]).any fun e => v.byte e 0 = 0 then some (listSlots v (slots g [c]))
      else (listInDirectory g v fuel ((next v.fat c).getD kEndOfClusterchain)).map
          (listSlots v (slots g [c]) ++ ·) := by
  rw [listInDirectory, if_neg (h.ne_end c List.mem_cons_self), if_pos (h.inData c List.mem_cons_self), listInCluster_eq,
    ← List.range_eq_range', slots, List.flatMap_singleton, nextCluster_eq (h.lt c List.mem_cons_self)]
  cases ((List.range g.entriesPerCluster).map fun i => (⟨c, i⟩ : EntryPtr)).any fun e => v.byte e 0 = 0 with
  | true => rfl
  | false =>
    simp only [Option.bind_eq_bind, Option.bind_some, Bool.false_eq_true, if_false]
    cases listInDirectory g v fuel ((next v.fat c).getD kEndOfClusterchain) <;> rfl

theorem listInDirectory_slots (h : Linked (next v.fat) c cs) (hcs : Clustered g cs) {fuel : ℕ}
    (hfuel : cs.length < fuel) :
    listInDirectory g v fuel c = some (listSlots v (slots g cs)) := by
  induction h generalizing fuel with
  | @last c hn =>
    obtain ⟨fuel, rfl⟩ := Nat.exists_eq_add_of_le' (show 2 ≤ fuel from hfuel)
    rw [listInDirectory_succ hcs, hn, Option.getD_none, listInDirectory, if_pos rfl, Option.map_some, List.append_nil,
      ite_self]
  | @cons c d cs hs _ ih =>
    obtain ⟨fuel, rfl⟩ := Nat.exists_eq_add_of_le' (Nat.lt_of_le_of_lt (Nat.zero_le _) hfuel)
    rw [listInDirectory_succ hcs, hs, Option.getD_some, ih hcs.tail (by simpa using hfuel),
      show slots g (c :: cs) = slots g [c] ++ slots g cs from slots_append [c] cs]
    split
    next hany => rw [listSlots_append_of_mem _ _ (by simpa using hany)]
    next hany => rw [listSlots_append _ _ (by simpa using hany), Option.map_some]

/-- **The loops of `ListAllEntries`** print the names of the entries that are listed. -/
theorem listAllEntries_eq (hg : g.WellFormed) (h : IsChain g v.fat c cs) (hdata : ∀ x ∈ cs, g.InData x) :
    listAllEntries g v c = some ((v.listed g cs).map (formatName v)) :=
  listInDirectory_slots h.linked (h.clustered hg hdata) (Nat.lt_succ_of_le h.length_le)

/-! ### Canonical names -/

theorem mem_fillName83 {i : ℕ} {buf : List UInt8} {x : UInt8} (h : x ∈ fillName83 name i buf) :
    x ∈ buf ∨ ∃ y ∈ name, y ≠ dot ∧ x = toupper y := by
  induction name generalizing i buf with
  | nil => exact Or.inl h
  | cons y name ih =>
    rw [fillName83] at h
    split at h
    next =>
      split at h
      next =>
        rcases ih h with h | ⟨z, hz, hne, rfl⟩
        · exact Or.inl h
        · exact Or.inr ⟨z, List.mem_cons_of_mem _ hz, hne, rfl⟩
      next hy =>
        rcases ih h with h | ⟨z, hz, hne, rfl⟩
        · rcases List.mem_or_eq_of_mem_set h with h | rfl
          · exact Or.inl h
          · exact Or.inr ⟨y, List.mem_cons_self, hy, rfl⟩
        · exact Or.inr ⟨z, List.mem_cons_of_mem _ hz, hne, rfl⟩
    next => exact Or.inl h

@[simp] theorem toupper_eq_zero {x : UInt8} : toupper x = 0 ↔ x = 0 := by
  simp only [toupper]
  grind

/-- What `NameIsEqual` compares with is plain. -/
theorem isPlain_name83 (h0 : 0 ∉ name) : IsPlain (name83 name) := by
  intro x hx
  rcases mem_fillName83 hx with hx | ⟨y, hy, hne, rfl⟩
  · rw [List.eq_of_mem_replicate hx]
    decide
  · exact ⟨fun hzero => h0 (toupper_eq_zero.mp hzero ▸ hy), fun hdot => hne (toupper_eq_dot.mp hdot), toupper_toupper y⟩

theorem IsTrimmed.rdropWhile {n : ℕ} (h : IsTrimmed n field) :
    (padName n field).rdropWhile (fun x => x = blank) = field.map toupper := by
  have hlast : (field.map toupper).rdropWhile (fun x => x = blank) = field.map toupper := by
    rw [List.rdropWhile_eq_self_iff]
    intro hne
    simp only [List.getLast_map, toupper_eq_blank, decide_eq_true_eq]
    exact fun he => h.2 (he ▸ List.getLast?_eq_some_getLast _)
  rw [padName, List.take_of_length_le h.1, List.rdropWhile, List.reverse_append, List.reverse_replicate,
    List.dropWhile_append_of_pos fun x hx => by simpa using List.eq_of_mem_replicate hx]
  exact hlast

/-- A trimmed field comes back in upper case. -/
theorem IsTrimmed.readField {n : ℕ} (h : IsTrimmed n field) (h0 : 0 ∉ field) :
    readField (padName n field) = field.map toupper := by
  rw [Fat.readField, h.rdropWhile, List.takeWhile_eq_self_iff]
  intro x hx
  obtain ⟨y, hy, rfl⟩ := List.mem_map.mp hx
  simpa using fun hzero : y = 0 => h0 (hzero ▸ hy)

/-- A field that comes back is trimmed. -/
theorem isTrimmed_readField (h : IsPlain field) : IsTrimmed field.length (readField field) := by
  refine ⟨length_readField_le field, fun hlast => ?_⟩
  rw [h.readField] at hlast
  obtain ⟨hne, heq⟩ := List.mem_getLast?_eq_getLast hlast
  have hnot := List.rdropWhile_last_not (fun x => decide (x = blank)) field hne
  simp [← heq] at hnot

theorem isTrimmed_map_toupper {n : ℕ} : IsTrimmed n (field.map toupper) ↔ IsTrimmed n field := by
  rw [IsTrimmed, IsTrimmed, List.length_map, List.getLast?_map]
  cases field.getLast? <;> simp

/-- Case makes no difference. -/
theorem isCanonical_map_toupper : IsCanonical (name.map toupper) ↔ IsCanonical name := by
  rw [IsCanonical, IsCanonical, dotParts_map_toupper]
  generalize dotParts name = parts
  obtain ⟨base, _ | ⟨ext, _ | ⟨part, parts⟩⟩⟩ := parts
  · exact isTrimmed_map_toupper
  · simp only [List.map_cons, List.map_nil, isTrimmed_map_toupper, ne_eq, List.map_eq_nil_iff]
  · exact Iff.rfl

theorem SameText.isCanonical {name' : List UInt8} (h : SameText name name') (hname : IsCanonical name) :
    IsCanonical name' := by
  rw [← isCanonical_map_toupper] at hname ⊢
  rwa [← h]

theorem isCanonical_base (hdot : dot ∉ base) (h : IsTrimmed 8 base) : IsCanonical base := by
  rw [IsCanonical, dotParts_of_notMem hdot]
  exact h

theorem isCanonical_dot (hdot : dot ∉ base) (hdot' : dot ∉ ext) (h : IsTrimmed 8 base) (h' : IsTrimmed 3 ext)
    (hne : ext ≠ []) :
    IsCanonical (base ++ dot :: ext) := by
  rw [IsCanonical, dotParts_append hdot, dotParts_of_notMem hdot']
  exact ⟨h, h', hne⟩

/-- The canonical names. -/
theorem IsCanonical.cases (h : IsCanonical name) :
    (dot ∉ name ∧ IsTrimmed 8 name) ∨
    ∃ base ext, name = base ++ dot :: ext ∧ dot ∉ base ∧ dot ∉ ext ∧ IsTrimmed 8 base ∧ IsTrimmed 3 ext ∧ ext ≠ [] := by
  have hjoin := dotParts_join name
  have hdot := dot_notMem_dotParts name
  rw [IsCanonical] at h
  generalize dotParts name = parts at h hjoin hdot
  obtain ⟨base, _ | ⟨ext, _ | ⟨part, parts⟩⟩⟩ := parts
  · rw [List.flatMap_nil, List.append_nil] at hjoin
    subst hjoin
    exact Or.inl ⟨hdot.1, h⟩
  · rw [List.flatMap_singleton] at hjoin
    exact Or.inr ⟨base, ext, hjoin.symm, hdot.1, hdot.2 ext List.mem_cons_self, h⟩
  · exact h.elim

/-- The text of a plain name is canonical. -/
theorem isCanonical_formatName (h : IsPlain (v.name e)) : IsCanonical (formatName v e) := by
  have hlen := length_name (v := v) (e := e)
  have hbase : IsPlain ((v.name e).take 8) := fun c hc => h c (List.mem_of_mem_take hc)
  have hext : IsPlain ((v.name e).drop 8) := fun c hc => h c (List.mem_of_mem_drop hc)
  have htrim := isTrimmed_readField hbase
  have htrim' := isTrimmed_readField hext
  rw [List.length_take, hlen] at htrim
  rw [List.length_drop, hlen] at htrim'
  rw [formatName_eq]
  split
  next => exact isCanonical_base hbase.readField_dot htrim
  next hne => exact isCanonical_dot hbase.readField_dot hext.readField_dot htrim htrim' hne

/-- The text of a name that is canonical is this name in upper case. -/
theorem IsCanonical.formatName (h : IsCanonical name) (h0 : 0 ∉ name) (he : v.name e = name83 name) :
    formatName v e = name.map toupper := by
  have hsplit : ∀ base ext : List UInt8, v.name e = padName 8 base ++ padName 3 ext →
      readName v e = (readField (padName 8 base), readField (padName 3 ext)) := by
    intro base ext hname
    rw [readName, hname, List.take_left' (length_padName 8 base), List.drop_left' (length_padName 8 base)]
  rw [formatName_eq]
  rcases h.cases with ⟨hdot, htrim⟩ | ⟨base, ext, rfl, hdot, hdot', htrim, htrim', hne⟩
  · have hnil : readField (padName 3 []) = [] := by decide
    rw [hsplit name [] (he.trans (name83_base hdot htrim.1)), hnil, if_pos rfl, htrim.readField h0]
  · rw [List.mem_append, List.mem_cons, not_or, not_or] at h0
    rw [hsplit base ext (he.trans (name83_dot hdot hdot' htrim.1)), htrim.readField h0.1, htrim'.readField h0.2.2,
      if_neg (by simpa using hne), List.map_append, List.map_cons, toupper_eq_dot.mpr rfl]

/-! ### The two walkers -/

/-- `FindFile` for a single name in a directory. -/
theorem findFile_name (hg : g.WellFormed) (h : IsChain g v.fat c cs) (hdata : ∀ x ∈ cs, g.InData x)
    (hslash : slash ∉ name) (hlen : name.length ≤ 12) : findFile g v name c = some (v.lookup g cs name, false) := by
  have hhead : name.head? ≠ some slash := fun hh => hslash (List.mem_of_mem_head? hh)
  have hstart := startDirectory_of_noSlash (g := g) (c := c) hhead
  rw [BPB.directory, if_neg h.first_ne_zero] at hstart
  exact findFileWithin_last hstart hslash (Nat.lt_succ_of_le hlen) (findInDirectory_eq hg h hdata)

/-- The first entry that `NameIsEqual` accepts. -/
theorem lookup_eq_some_iff : v.lookup g cs name = some e ↔
    nameIsEqual v e name ∧ ∃ before behind, v.entries g cs = before ++ e :: behind ∧
        ∀ e' ∈ before, ¬ nameIsEqual v e' name := by
  rw [Volume.lookup, List.find?_eq_some_iff_append]
  simp

theorem mem_listed : e ∈ v.listed g cs ↔ e ∈ v.entries g cs ∧ v.isListed e := List.mem_filter

/-- An entry with a plain name that is listed by a text is one that `NameIsEqual` accepts for it. -/
theorem nameIsEqual_of_sameText (h : IsPlain (v.name e)) (hs : SameText (formatName v e) name) :
    nameIsEqual v e name := by
  rw [nameIsEqual_iff, ← name83_formatName h]
  exact name83_congr hs

theorem lookup_agrees_found (h0 : 0 ∉ name) (hlook : v.lookup g cs name = some e) :
    (e ∈ v.listed g cs ∧ SameText (formatName v e) name) ↔ Agrees g v cs name := by
  obtain ⟨heq, before, behind, hentries, hbefore⟩ := lookup_eq_some_iff.mp hlook
  have hmem : e ∈ v.entries g cs := hentries ▸ List.mem_append_right _ List.mem_cons_self
  have hname := nameIsEqual_iff.mp heq
  constructor
  · rintro ⟨hlisted, hsame⟩
    have hplain : IsPlain (v.name e) := hname ▸ isPlain_name83 h0
    refine ⟨fun _ => hsame.isCanonical (isCanonical_formatName hplain),
      fun before' e' behind' hentries' heq' hbefore' => ?_, fun hnone => absurd heq (hnone e hmem)⟩
    have hlook' := lookup_eq_some_iff.mpr ⟨heq', before', behind', hentries', hbefore'⟩
    rw [hlook, Option.some.injEq] at hlook'
    exact hlook' ▸ (mem_listed.mp hlisted).2
  · intro hagrees
    refine ⟨mem_listed.mpr ⟨hmem, hagrees.listed before e behind hentries heq hbefore⟩, ?_⟩
    rw [SameText, (hagrees.canonical ⟨e, hmem, heq⟩).formatName h0 hname]
    simp [Function.comp_def]

theorem lookup_agrees_missed (hlook : v.lookup g cs name = none) :
    (∀ e ∈ v.listed g cs, ¬ SameText (formatName v e) name) ↔ Agrees g v cs name := by
  have hnone : ∀ e ∈ v.entries g cs, ¬ nameIsEqual v e name := by simpa [Volume.lookup] using hlook
  constructor
  · intro hdiff
    refine ⟨?_, fun before e behind hentries heq _ => ?_, fun _ e he hsame => absurd hsame (hdiff e he)⟩
    · rintro ⟨e, he, heq⟩
      exact absurd heq (hnone e he)
    · exact absurd heq (hnone e (hentries ▸ List.mem_append_right _ List.mem_cons_self))
  · intro hagrees e he hsame
    exact hnone e (mem_listed.mp he).1 (nameIsEqual_of_sameText (hagrees.plain hnone e he hsame) hsame)

/-- **Looking a name up agrees with listing the directory** if and only if the first entry that
`NameIsEqual` accepts, if there is one, is listed and the name canonical, and otherwise no entry with a
name that is not plain is listed by it. -/
theorem lookup_agrees_iff (hg : g.WellFormed) (h : IsChain g v.fat c cs) (hdata : ∀ x ∈ cs, g.InData x)
    (hslash : slash ∉ name) (h0 : 0 ∉ name) (hlen : name.length ≤ 12) :
    LookupAgrees g v c cs name ↔ Agrees g v cs name := by
  have hfind := findFile_name hg h hdata hslash hlen
  have hlist := listAllEntries_eq hg h hdata
  have htexts : (∃ text ∈ (v.listed g cs).map (formatName v), SameText text name) ↔
      ∃ e ∈ v.listed g cs, SameText (formatName v e) name := by simp
  cases hlook : v.lookup g cs name with
  | none =>
    rw [← lookup_agrees_missed hlook]
    rw [hlook] at hfind
    constructor
    · rintro ⟨found, names, hfound, hnames, hiff, -⟩ e he hsame
      rw [hfind, Option.some.injEq, Prod.mk.injEq] at hfound
      rw [hlist, Option.some.injEq] at hnames
      rw [← hfound.1, ← hnames, htexts] at hiff
      exact hiff.mpr ⟨e, he, hsame⟩ rfl
    · intro hdiff
      refine ⟨none, _, hfind, hlist, ?_, fun e he => by cases he⟩
      rw [htexts]
      refine ⟨fun hne => absurd rfl hne, ?_⟩
      rintro ⟨e, he, hsame⟩
      exact absurd hsame (hdiff e he)
  | some e =>
    rw [← lookup_agrees_found h0 hlook]
    rw [hlook] at hfind
    constructor
    · rintro ⟨found, names, hfound, -, -, hsome⟩
      rw [hfind, Option.some.injEq, Prod.mk.injEq] at hfound
      exact hsome e hfound.1.symm
    · intro hagrees
      refine ⟨some e, _, hfind, hlist, ?_, fun e' he' => by cases he'; exact hagrees⟩
      rw [htexts]
      exact ⟨fun _ => ⟨e, hagrees⟩, fun _ hnone => by cases hnone⟩

theorem lookup_agrees_treeVolume : LookupAgrees smallBPB treeVolume 2 [2, 4] [97] :=
  (lookup_agrees_iff wellFormed_smallBPB
    (leadsTo_treeVolume.chain 2 (Or.inl rfl)) (by decide) (by decide) (by decide) (by decide)).mpr
    ((lookup_agrees_found (e := ⟨4, 0⟩) (by decide) (by decide)).mp ⟨by decide, by decide⟩)

/-- A volume with a directory in cluster 3, which has the entries `.` and `..`. -/
def dotVolume : Volume where
  fat := fun cluster => if cluster = 2 ∨ cluster = 3 then kEndOfClusterchain else 0
  data := fun cluster o =>
    if cluster = 2 then (letterEntry 65 kDirectory 3).getD o 0
    else if cluster = 3 then (letterEntry dot kDirectory 3 ++ (letterEntry dot kDirectory 0).set 1 dot).getD o 0
    else 0

/-- `.` is listed and not found. -/
theorem not_lookup_agrees_dot : smallBPB.WellFormed ∧ IsChain smallBPB dotVolume.fat 3 [3] ∧
    listAllEntries smallBPB dotVolume 3 = some [[dot], [dot, dot]] ∧
    findFile smallBPB dotVolume [dot] 3 = some (none, false) ∧ ¬ LookupAgrees smallBPB dotVolume 3 [3] [dot] := by
  have hlist : listAllEntries smallBPB dotVolume 3 = some [[dot], [dot, dot]] := by decide
  have hfind : findFile smallBPB dotVolume [dot] 3 = some (none, false) := by decide
  refine ⟨wellFormed_smallBPB, ⟨.last (by decide), by decide⟩, hlist, hfind, ?_⟩
  rintro ⟨found, names, hfound, hnames, hiff, -⟩
  rw [hfind, Option.some.injEq, Prod.mk.injEq] at hfound
  rw [hlist, Option.some.injEq] at hnames
  rw [← hfound.1, ← hnames] at hiff
  exact hiff.mpr ⟨[dot], by simp, rfl⟩ rfl

end DuvuvurKernel.Fat
