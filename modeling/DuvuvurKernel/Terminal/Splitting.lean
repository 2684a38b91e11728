import DuvuvurKernel.Terminal.ArgumentWords
import DuvuvurKernel.Terminal.PipelineLine
import Mathlib.Data.List.DropRight

/-!
# Where a command line is split

`ExecuteLine` looks for the first space, the first `|` and the first `>` of the whole line, wherever they stand. Lines
of several commands with any spaces around `|` and `>`, and what the terminals of their commands find.

## The model

The terminal behind a `|` types the line that it is given, and splits it in turn (`executedLines`), where the file
behind the `>` can be opened.

**Result** (`gives_each_iff`): each command gets its word and its arguments, and the file is the one behind the `>`, if
and only if the first command without a space behind it, up to its `|` or `>`, has nothing with a space behind it, but
for spaces at the end, and no space comes behind the `>` only.
-/

namespace DuvuvurKernel

open CommandLine LineTerminal

/-- A command line: its commands, with their spaces, and the spaces and the file behind its `>`. -/
structure SplitLine where
  text : List UInt8
  dest : Option (List UInt8 × List UInt8)
  plain : ∀ c ∈ text, c ≠ 0 ∧ c ≠ 0x08 ∧ c ≠ 0x3e ∧ (isspace c = true → c = 0x20)
  commands : ∀ a ∈ text.splitOn 0x7c, words a ≠ []
  starts : ∀ c ∈ text.head?, isspace c = false
  target : ∀ d ∈ dest, (∀ c ∈ d.1, c = 0x20) ∧ IsWord d.2 ∧ ∀ c ∈ d.2, c ≠ 0 ∧ c ≠ 0x7c
  fits : (text ++ part 0x3e (dest.map fun d => d.1 ++ d.2)).length < 48

/-- The lines that the terminals of a command line find, from the first on. -/
def executedLines : ℕ → List UInt8 → List CommandLine
  | 0, _ => []
  | fuel + 1, linebuf =>
    let l := ofLine linebuf
    l :: l.subcommand.elim [] fun subcommand => if subcommand = [] then []
      else executedLines fuel (typedLine subcommand)

/-- The word of a command and its arguments, as `MakeArgVector` takes them. -/
def CommandLine.entry (l : CommandLine) : List (List UInt8) := l.command :: words (l.firstArg.getD [])

/-- The first command without a space behind it has nothing with a space behind it, but for spaces at the end. -/
def SpacesApart : List (List UInt8) → Prop
  | [] => True
  | [_] => True
  | a :: b :: rest =>
    if 0x20 ∈ a.dropWhile isspace then SpacesApart (b :: rest)
    else ∀ c ∈ ([0x7c].intercalate (b :: rest)).dropWhile (· ≠ 0x20), c = 0x20

namespace SplitLine

variable (L : SplitLine)

def line : List UInt8 := L.text ++ part 0x3e (L.dest.map fun d => d.1 ++ d.2)

/-- The words of each command. -/
def stages : List (List (List UInt8)) := (L.text.splitOn 0x7c).map words

def file : Option (List UInt8) := L.dest.map Prod.snd

/-- Each terminal finds its own command, and the first finds the file. -/
structure GivesEach (ls : List CommandLine) : Prop where
  stages : ls.map entry = L.stages
  file : ls.head?.bind CommandLine.redirDest = L.file
  others : ∀ l ∈ ls.tail, l.redirDest = none

/-- The spaces of the line are where `ExecuteLine` needs them. -/
def SpacesFit : Prop := SpacesApart (L.text.splitOn 0x7c) ∧ ∀ d ∈ L.dest, d.1 ≠ [] → 0x20 ∈ L.text

end SplitLine

variable {a r t d u : List UInt8} {c : UInt8} {fuel : ℕ}

/-! ### A line with a redirection -/

theorem strchr_eq (h0 : 0 ∉ t) (c : UInt8) : strchr t c = t.findIdx? fun b => b = c := by
  rw [strchr, stringAt_zero h0]

theorem strchr_lt {i : ℕ} (h0 : 0 ∉ t) (h : strchr t c = some i) : i < t.length := by
  rw [strchr_eq h0] at h
  exact (List.findIdx?_eq_some_iff_getElem.mp h).1

theorem strchr_append (h0 : 0 ∉ t) {z : List UInt8} (hc : c ≠ 0) (h : c ∈ t ∨ c ∉ z) :
    strchr (t ++ z) c = strchr t c := by
  by_cases hmem : c ∈ t
  · obtain ⟨x, y, rfl, hx⟩ := List.eq_append_cons_of_mem hmem
    have hx0 : 0 ∉ x := fun h => h0 (List.mem_append_left _ h)
    rw [List.append_assoc, List.cons_append, strchr_some hc hx0 hx, strchr_some hc hx0 hx]
  · rw [strchr_none hmem, strchr_none fun hz => (List.mem_append.mp hz).elim hmem (h.resolve_left hmem)]

theorem terminate_append {p : Option ℕ} (hp : ∀ i ∈ p, i < t.length) (z : List UInt8) :
    terminate (t ++ z) p = terminate t p ++ z := by
  cases p with
  | none => rfl
  | some i => exact List.set_append_left _ _ (hp i rfl)

theorem length_terminate (t : List UInt8) (p : Option ℕ) : (terminate t p).length = t.length := by
  cases p with
  | none => rfl
  | some i => exact List.length_set

theorem takeWhile_stop {p : UInt8 → Bool} (hc : p c = false) (t z : List UInt8) :
    (t ++ c :: z).takeWhile p = t.takeWhile p := by
  rw [List.takeWhile_append, List.takeWhile_cons_of_neg (by rw [hc]; exact Bool.false_ne_true)]
  split
  next hall => rw [List.append_nil, (List.takeWhile_prefix p).eq_of_length hall]
  next => rfl

theorem skipSpace_append_left {i : ℕ} (hi : i ≤ t.length) (hc : isspace c = false) (z : List UInt8) :
    skipSpace (t ++ c :: z) i = skipSpace t i := by
  rw [skipSpace, List.drop_append_of_le_length hi, takeWhile_stop hc]
  rfl

theorem stringAt_append_left {i : ℕ} (hi : i ≤ t.length) (z : List UInt8) :
    stringAt (t ++ 0 :: z) i = stringAt t i := by
  rw [stringAt, List.drop_append_of_le_length hi, takeWhile_stop (by rfl)]
  rfl

theorem skipSpace_le {i : ℕ} (hi : i ≤ t.length) : skipSpace t i ≤ t.length := by
  have hle := (List.takeWhile_prefix isspace (l := t.drop i)).length_le
  rw [List.length_drop] at hle
  rw [skipSpace]
  omega

/-- A `>` makes no difference to the commands, if there is a space before it or none behind it. -/
theorem ofLine_redir (ht : 0 ∉ t) (hredir : 0x3e ∉ t) (hd : 0 ∉ d) (hpipe : 0x7c ∉ d) (hspace : 0x20 ∈ t ∨ 0x20 ∉ d) :
    ofLine (t ++ 0x3e :: d) = { ofLine t with redirDest := some (d.dropWhile isspace) } := by
  have hnot : ∀ c, c ≠ 0x3e → c ∉ d → c ∉ 0x3e :: d := fun c hne hmem h => (List.mem_cons.mp h).elim hne hmem
  have hfirst : strchr (t ++ 0x3e :: d) 0x20 = strchr t 0x20 :=
    strchr_append ht (by decide) (hspace.imp_right (hnot _ (by decide)))
  have hsub : strchr (t ++ 0x3e :: d) 0x7c = strchr t 0x7c :=
    strchr_append ht (by decide) (.inr (hnot _ (by decide) hpipe))
  have hdest : strchr (t ++ 0x3e :: d) 0x3e = some t.length := strchr_some (by decide) ht hredir
  have hnone : strchr t 0x3e = none := strchr_none hredir
  have hcut : ∀ z, terminate (t ++ z) (strchr t 0x20) = terminate t (strchr t 0x20) ++ z :=
    terminate_append fun i hi => strchr_lt ht hi
  have hplt : ∀ i ∈ strchr t 0x20, i < t.length := fun i hi => strchr_lt ht hi
  have hqlt : ∀ i ∈ strchr t 0x7c, i < t.length := fun i hi => strchr_lt ht hi
  have hlength := length_terminate t (strchr t 0x20)
  unfold ofLine
  simp only [hfirst, hsub, hdest, hnone, hcut]
  generalize strchr t 0x20 = p at hplt hlength
  generalize strchr t 0x7c = q at hqlt
  generalize terminate t p = b at hlength
  have hbuf : terminate (b ++ 0x3e :: d) (some t.length) = b ++ 0 :: d := by
    rw [← hlength]
    exact terminate_some ..
  have hdone : terminate (b ++ 0 :: d) q = terminate b q ++ 0 :: d :=
    terminate_append (fun i hi => hlength ▸ hqlt i hi) _
  have hargs : (p.map fun i => skipSpace (b ++ 0x3e :: d) (i + 1)) = p.map fun i => skipSpace b (i + 1) :=
    Option.map_congr fun i hi => skipSpace_append_left (hlength ▸ hplt i hi) (by decide) d
  have hfile : stringAt (b ++ 0 :: d) (skipSpace (b ++ 0 :: d) (t.length + 1)) = d.dropWhile isspace := by
    have hpart := stringAt_part (a := b) (r := some d) (z := []) (fun v hv => Option.some.inj hv ▸ hd) fun c hc =>
      absurd hc (Option.not_mem_none c)
    rw [hlength] at hpart
    simpa [part] using hpart
  have hlength' : (terminate b q).length = t.length := (length_terminate b q).trans hlength
  simp only [hbuf, hargs, hdone, Option.map_some, hfile]
  rw [CommandLine.mk.injEq]
  refine ⟨stringAt_append_left (Nat.zero_le _) d, ?_, rfl, ?_⟩
  · rw [Option.map_map, Option.map_map]
    refine Option.map_congr fun i hi => stringAt_append_left ?_ d
    have hi' : i + 1 ≤ b.length := by
      rw [hlength]
      exact Nat.succ_le_of_lt (hplt i hi)
    rw [hlength', ← hlength]
    exact skipSpace_le hi'
  · refine Option.map_congr fun i hi => ?_
    have hi' : i + 1 ≤ (terminate b q).length := hlength'.symm ▸ Nat.succ_le_of_lt (hqlt i hi)
    rw [skipSpace_append_left hi' (by decide), stringAt_append_left (skipSpace_le hi')]
    rfl

/-! ### A command without a space behind it -/

/-- The first space of a text. -/
theorem word_arguments (hu : 0x20 ∉ u) (v : List UInt8) :
    word (u ++ 0x20 :: v) = u ∧ arguments (u ++ 0x20 :: v) = some (v.dropWhile isspace) := by
  have hin : ∀ c ∈ u, decide (c ≠ 0x20) = true := fun c hc => decide_eq_true fun h => hu (h ▸ hc)
  have hout : ∀ c ∈ (0x20 :: v).head?, decide (c ≠ 0x20) = false :=
    fun c hc => decide_eq_false fun h => h (Option.some.inj hc).symm
  refine ⟨takeWhile_part hin hout, ?_⟩
  rw [arguments, if_pos (List.mem_append_right _ List.mem_cons_self), dropWhile_part hin hout]
  rfl

theorem word_arguments_none (hu : 0x20 ∉ u) : word u = u ∧ arguments u = none :=
  ⟨List.takeWhile_eq_self_iff.mpr fun _ hc => decide_eq_true fun h => hu (h ▸ hc), if_neg hu⟩

/-- It is given the text behind the first space of the rest of the line, and the rest ends at this space. -/
theorem ofLine_noSpace (ha : ∀ c ∈ a, c ≠ 0 ∧ c ≠ 0x20 ∧ c ≠ 0x7c ∧ c ≠ 0x3e) (hr : ∀ c ∈ r, c ≠ 0 ∧ c ≠ 0x3e) :
    ofLine (a ++ 0x7c :: r) = ⟨a, arguments r, none, some ((word r).dropWhile isspace)⟩ := by
  have ha0 : 0 ∉ a := fun h => (ha 0 h).1 rfl
  have hredir : strchr (a ++ 0x7c :: r) 0x3e = none := by
    refine strchr_none fun h => ?_
    rcases List.mem_append.mp h with h | h
    · exact (ha _ h).2.2.2 rfl
    · exact (List.mem_cons.mp h).elim (by decide) fun h => (hr _ h).2 rfl
  have hpipe : strchr (a ++ 0x7c :: r) 0x7c = some a.length := strchr_some (by decide) ha0 fun h => (ha _ h).2.2.1 rfl
  by_cases hspace : 0x20 ∈ r
  · obtain ⟨u, v, rfl, hu⟩ := List.eq_append_cons_of_mem hspace
    obtain ⟨hword, harguments⟩ := word_arguments hu v
    have hu0 : 0 ∉ u := fun h => (hr 0 (List.mem_append_left _ h)).1 rfl
    have hv0 : 0 ∉ v := fun h => (hr 0 (List.mem_append_right _ (List.mem_cons_of_mem _ h))).1 rfl
    have hsplit : a ++ 0x7c :: (u ++ 0x20 :: v) = (a ++ 0x7c :: u) ++ 0x20 :: v := by simp
    have hfirst : strchr (a ++ 0x7c :: (u ++ 0x20 :: v)) 0x20 = some (a ++ 0x7c :: u).length := by
      rw [hsplit]
      refine strchr_some (by decide) (fun h => ?_) fun h => ?_
      · exact (List.mem_append.mp h).elim ha0 fun h => (List.mem_cons.mp h).elim (by decide) hu0
      · exact (List.mem_append.mp h).elim (fun h => (ha _ h).2.1 rfl) fun h => (List.mem_cons.mp h).elim (by decide) hu
    have hcut : terminate ((a ++ 0x7c :: u) ++ 0x20 :: v) (some (a ++ 0x7c :: u).length) =
        a ++ 0x7c :: (u ++ 0 :: v) := by
      rw [terminate_some, List.append_assoc, List.cons_append]
    have hskip : skipSpace (a ++ 0x7c :: (u ++ 0 :: v)) ((a ++ 0x7c :: u).length + 1) =
        (a ++ 0x7c :: u ++ [0]).length + (v.takeWhile isspace).length := by
      have hend : a ++ 0x7c :: (u ++ 0 :: v) = (a ++ 0x7c :: u ++ [0]) ++ (v ++ []) := by simp
      have hlength : (a ++ 0x7c :: u).length + 1 = (a ++ 0x7c :: u ++ [0]).length := by simp [Nat.add_assoc]
      rw [hend, hlength]
      exact skipSpace_append _ fun c hc => absurd hc (Option.not_mem_none c)
    have hargs : stringAt (a ++ 0 :: (u ++ 0 :: v)) ((a ++ 0x7c :: u ++ [0]).length + (v.takeWhile isspace).length) =
        v.dropWhile isspace := by
      have hend : a ++ 0 :: (u ++ 0 :: v) = (a ++ 0 :: u ++ [0]) ++ (v ++ []) := by simp
      have hlength : (a ++ 0x7c :: u ++ [0]).length = (a ++ 0 :: u ++ [0]).length := by simp
      rw [hend, hlength]
      exact stringAt_skipped _ hv0 fun c hc => absurd hc (Option.not_mem_none c)
    have hsub : stringAt (a ++ 0 :: (u ++ 0 :: v)) (skipSpace (a ++ 0 :: (u ++ 0 :: v)) (a.length + 1)) =
        u.dropWhile isspace :=
      Option.some.inj (stringAt_part (r := some u)
        (fun v hv => Option.some.inj hv ▸ hu0) fun c hc => (Option.some.inj hc).symm)
    have hdone : terminate (terminate (a ++ 0x7c :: (u ++ 0 :: v)) none) (some a.length) = a ++ 0 :: (u ++ 0 :: v) :=
      terminate_some ..
    rw [hsplit] at hfirst hredir hpipe ⊢
    unfold ofLine
    simp only [hfirst, hredir, hpipe, hcut, Option.map_none, Option.map_some, hskip, hdone, hargs, hsub,
      stringAt_terminated ha0, harguments, hword]
  · obtain ⟨hword, harguments⟩ := word_arguments_none hspace
    have hfirst : strchr (a ++ 0x7c :: r) 0x20 = none := by
      refine strchr_none fun h => ?_
      exact (List.mem_append.mp h).elim (fun h => (ha _ h).2.1 rfl) fun h =>
        (List.mem_cons.mp h).elim (by decide) hspace
    have hcut : (a ++ 0x7c :: r).set a.length 0 = a ++ 0 :: r := terminate_some a r 0x7c
    have hr0 : 0 ∉ r := fun h => (hr 0 h).1 rfl
    have hsub : stringAt (a ++ 0 :: r) (skipSpace (a ++ 0 :: r) (a.length + 1)) = r.dropWhile isspace := by
      have hpart := stringAt_part (a := a) (r := some r) (z := []) (fun v hv => Option.some.inj hv ▸ hr0) fun c hc =>
        absurd hc (Option.not_mem_none c)
      simpa [part] using hpart
    unfold ofLine
    simp only [hfirst, hredir, hpipe, terminate, Option.map_none, Option.map_some, hcut, hsub, stringAt_terminated ha0,
      harguments, hword]

/-! ### The stages of a text -/

theorem words_dropWhile (t : List UInt8) : words (t.dropWhile isspace) = words t := by
  have hblank : ∀ c ∈ t.takeWhile isspace, isspace c = true := fun c hc => List.mem_takeWhile_imp hc
  conv_rhs => rw [← List.takeWhile_append_dropWhile (p := isspace) (l := t)]
  exact (words_blank hblank _).symm

/-- What a terminal finds in a text with spaces only are its words. -/
theorem words_eq_entry (hplain : ∀ c ∈ a, isspace c = true → c = 0x20) (hne : a ≠ [])
    (hstarts : ∀ c ∈ a.head?, isspace c = false) :
    word a :: words ((arguments a).getD []) = words a := by
  by_cases hspace : 0x20 ∈ a
  · obtain ⟨u, v, rfl, hu⟩ := List.eq_append_cons_of_mem hspace
    obtain ⟨hword, harguments⟩ := word_arguments hu v
    have hw : IsWord u := by
      constructor
      · rintro rfl
        exact absurd (hstarts 0x20 rfl) (by decide)
      · intro c hc
        by_contra hne
        have hsp := hplain c (List.mem_append_left _ hc) (by simpa using hne)
        exact hu (hsp ▸ hc)
    rw [hword, harguments, words_cons hw (by decide), Option.getD_some, words_dropWhile]
  · obtain ⟨hword, harguments⟩ := word_arguments_none hspace
    have hw : IsWord a := by
      refine ⟨hne, fun c hc => ?_⟩
      by_contra hne
      exact hspace (hplain c hc (by simpa using hne) ▸ hc)
    rw [hword, harguments, words_word hw, Option.getD_none, words_nil]

theorem dropWhile_stop {p : UInt8 → Bool} (hc : p c = false) (t z : List UInt8) :
    (t ++ c :: z).dropWhile p = t.dropWhile p ++ c :: z := by
  rw [List.dropWhile_append]
  split
  next hnil =>
    rw [List.isEmpty_iff.mp hnil, List.nil_append]
    exact List.dropWhile_cons_of_neg (by rw [hc]; exact Bool.false_ne_true)
  next => rfl

/-- The spaces before a text are those of its first stage. -/
theorem splitOn_dropWhile (r : List UInt8) : ∃ b parts, r.splitOn 0x7c = b :: parts ∧
    (r.dropWhile isspace).splitOn 0x7c = b.dropWhile isspace :: parts := by
  by_cases hpipe : 0x7c ∈ r
  · obtain ⟨b, z, rfl, hb⟩ := List.eq_append_cons_of_mem hpipe
    refine ⟨b, z.splitOn 0x7c, List.splitOn_append_cons_self_of_not_mem hb z, ?_⟩
    rw [dropWhile_stop (by decide)]
    exact List.splitOn_append_cons_self_of_not_mem (fun h => hb ((List.dropWhile_suffix _).subset h)) z
  · exact ⟨r, [], List.splitOn_eq_singleton hpipe,
      List.splitOn_eq_singleton fun h => hpipe ((List.dropWhile_suffix _).subset h)⟩

/-- The spaces at the end are those of the last stage. -/
theorem stages_append {z : List UInt8} (hz : ∀ c ∈ z, c = 0x20) (u : List UInt8) :
    ((u ++ z).splitOn 0x7c).map words = (u.splitOn 0x7c).map words := by
  have hblank : ∀ c ∈ z, isspace c = true := fun c hc => hz c hc ▸ rfl
  have hpipe : 0x7c ∉ z := fun h => absurd (hz _ h) (by decide)
  induction hn : u.length using Nat.strong_induction_on generalizing u with
  | _ n ih =>
    by_cases hmem : 0x7c ∈ u
    · obtain ⟨b, y, rfl, hb⟩ := List.eq_append_cons_of_mem hmem
      have hlt : y.length < n := by
        rw [← hn]
        simp only [List.length_append, List.length_cons]
        omega
      rw [List.append_assoc, List.cons_append, List.splitOn_append_cons_self_of_not_mem hb,
        List.splitOn_append_cons_self_of_not_mem hb, List.map_cons, List.map_cons, ih y.length hlt y rfl]
    · rw [List.splitOn_eq_singleton hmem, List.splitOn_eq_singleton fun h => (List.mem_append.mp h).elim hmem hpipe]
      cases z with
      | nil => rw [List.append_nil]
      | cons c z =>
        obtain ⟨hc, hz⟩ := List.forall_mem_cons.mp hblank
        have hnil : words z = [] := (Spaced.blank hz).words_eq
        rw [List.map_singleton, List.map_singleton, words_append hc, hnil, List.append_nil]

theorem spacesApart_dropWhile (b : List UInt8) (parts : List (List UInt8)) :
    SpacesApart (b.dropWhile isspace :: parts) ↔ SpacesApart (b :: parts) := by
  cases parts with
  | nil => exact Iff.rfl
  | cons b' parts => rw [SpacesApart, SpacesApart, List.dropWhile_idempotent]

theorem spacesApart_cons {parts : List (List UInt8)} (hne : parts ≠ []) : SpacesApart (a :: parts) ↔
    if 0x20 ∈ a.dropWhile isspace then SpacesApart parts
    else ∀ c ∈ ([0x7c].intercalate parts).dropWhile (· ≠ 0x20), c = 0x20 := by
  obtain ⟨b, parts, rfl⟩ := List.exists_cons_of_ne_nil hne
  exact Iff.rfl

/-- Without spaces, nothing is asked of a text. -/
theorem spacesApart_of_noSpace (hu : 0x20 ∉ u) : SpacesApart (u.splitOn 0x7c) := by
  by_cases hpipe : 0x7c ∈ u
  · obtain ⟨b, z, rfl, hb⟩ := List.eq_append_cons_of_mem hpipe
    rw [List.splitOn_append_cons_self_of_not_mem hb, spacesApart_cons (List.splitOn_ne_nil _ _),
      List.intercalate_splitOn]
    have hmem : 0x20 ∉ b.dropWhile isspace := fun h => hu (List.mem_append_left _ ((List.dropWhile_suffix _).subset h))
    rw [if_neg hmem]
    have hz : z.dropWhile (· ≠ 0x20) = [] := by
      refine List.dropWhile_eq_nil_iff.mpr fun c hc => decide_eq_true fun h => ?_
      exact hu (List.mem_append_right _ (List.mem_cons_of_mem _ (h ▸ hc)))
    rw [hz]
    exact fun _ h => absurd h List.not_mem_nil
  · rw [List.splitOn_eq_singleton hpipe]
    exact True.intro

/-- A text of several commands, as the terminal of the first of them is given it. -/
structure IsStages (t : List UInt8) : Prop where
  plain : ∀ c ∈ t, c ≠ 0 ∧ c ≠ 0x08 ∧ c ≠ 0x3e ∧ (isspace c = true → c = 0x20)
  commands : ∀ a ∈ t.splitOn 0x7c, words a ≠ []
  starts : ∀ c ∈ t.head?, isspace c = false
  short : t.length < 48

theorem IsStages.ne_nil (h : IsStages t) : t ≠ [] := by
  rintro rfl
  exact h.commands [] List.mem_cons_self words_nil

/-- The terminal types it as it is. -/
theorem IsStages.typedLine_eq (h : IsStages t) : typedLine t = t := by
  refine typedLine_plain (fun c hc => ?_) h.short
  obtain ⟨hzero, hback, -, hspace⟩ := h.plain c hc
  refine ⟨hzero, hback, ?_⟩
  rintro rfl
  exact absurd (hspace (by decide)) (by decide)

theorem IsStages.of_sublist {s : List UInt8} (h : IsStages t) (hsub : s.Sublist t)
    (hcommands : ∀ a ∈ s.splitOn 0x7c, words a ≠ []) (hstarts : ∀ c ∈ s.head?, isspace c = false) : IsStages s :=
  ⟨fun c hc => h.plain c (hsub.subset hc), hcommands, hstarts, Nat.lt_of_le_of_lt hsub.length_le h.short⟩

/-- The text behind the first `|`. -/
theorem IsStages.rest (h : IsStages (a ++ 0x7c :: r)) (ha : 0x7c ∉ a) : IsStages (r.dropWhile isspace) := by
  obtain ⟨b, parts, hr, hdrop⟩ := splitOn_dropWhile r
  have hsub : (r.dropWhile isspace).Sublist (a ++ 0x7c :: r) :=
    (List.dropWhile_sublist _).trans ((List.sublist_cons_self _ _).trans (List.sublist_append_right _ _))
  refine h.of_sublist hsub (fun s hs => ?_) fun c hc => ?_
  · have hcommands := h.commands
    rw [List.splitOn_append_cons_self_of_not_mem ha, hr] at hcommands
    rw [hdrop] at hs
    rcases List.mem_cons.mp hs with rfl | hs
    · rw [words_dropWhile]
      exact hcommands b (List.mem_cons_of_mem _ List.mem_cons_self)
    · exact hcommands s (List.mem_cons_of_mem _ (List.mem_cons_of_mem _ hs))
  · have hhead := List.head?_dropWhile_not isspace r
    rw [hc] at hhead
    exact hhead

/-- The text behind the first `|`, up to its first space, if there are only spaces then. -/
theorem IsStages.rest_word (h : IsStages (a ++ 0x7c :: r)) (ha : 0x7c ∉ a)
    (hr : ∀ c ∈ r.dropWhile (· ≠ 0x20), c = 0x20) :
    IsStages (word r) ∧ ((word r).splitOn 0x7c).map words = (r.splitOn 0x7c).map words := by
  have hsame : (r.splitOn 0x7c).map words = ((word r).splitOn 0x7c).map words := by
    conv_lhs => rw [← List.takeWhile_append_dropWhile (p := fun c : UInt8 => decide (c ≠ 0x20)) (l := r)]
    exact stages_append hr _
  have hsub : (word r).Sublist (a ++ 0x7c :: r) :=
    (List.takeWhile_sublist _).trans ((List.sublist_cons_self _ _).trans (List.sublist_append_right _ _))
  refine ⟨h.of_sublist hsub (fun s hs => ?_) fun c hc => ?_, hsame.symm⟩
  · have hmem : words s ∈ (r.splitOn 0x7c).map words := hsame ▸ List.mem_map_of_mem hs
    obtain ⟨b, hb, hwords⟩ := List.mem_map.mp hmem
    rw [← hwords]
    refine h.commands b ?_
    rw [List.splitOn_append_cons_self_of_not_mem ha]
    exact List.mem_cons_of_mem _ hb
  · have hmem := List.mem_of_mem_head? hc
    have hne : c ≠ 0x20 := by
      have hmem' := List.mem_takeWhile_imp hmem
      exact of_decide_eq_true hmem'
    by_contra hspace
    exact hne ((h.plain c (hsub.subset hmem)).2.2.2 (by simpa using hspace))

/-- A text is given no arguments where there are only spaces behind its first space. -/
theorem words_arguments_iff (hplain : ∀ c ∈ r, isspace c = true → c = 0x20) :
    words ((arguments r).getD []) = [] ↔ ∀ c ∈ r.dropWhile (· ≠ 0x20), c = 0x20 := by
  by_cases hspace : 0x20 ∈ r
  · obtain ⟨u, v, rfl, hu⟩ := List.eq_append_cons_of_mem hspace
    have hin : ∀ c ∈ u, decide (c ≠ 0x20) = true := fun c hc => decide_eq_true fun h => hu (h ▸ hc)
    have hout : ∀ c ∈ (0x20 :: v).head?, decide (c ≠ 0x20) = false :=
      fun c hc => decide_eq_false fun h => h (Option.some.inj hc).symm
    rw [(word_arguments hu v).2, Option.getD_some, words_dropWhile, dropWhile_part hin hout, List.forall_mem_cons,
      and_iff_right rfl]
    constructor
    · intro hnil c hc
      by_contra hne
      refine words_ne_nil hc ?_ hnil
      by_contra hsp
      exact hne (hplain c (List.mem_append_right _ (List.mem_cons_of_mem _ hc)) (by simpa using hsp))
    · intro hv
      have hblank : ∀ c ∈ v, isspace c = true := fun c hc => hv c hc ▸ rfl
      exact (Spaced.blank hblank).words_eq
  · have hnil : r.dropWhile (· ≠ 0x20) = [] :=
      List.dropWhile_eq_nil_iff.mpr fun c hc => decide_eq_true fun h => hspace (h ▸ hc)
    rw [(word_arguments_none hspace).2, hnil]
    exact iff_of_true rfl fun _ h => absurd h List.not_mem_nil

theorem ofLine_last (h : IsStages t) (hpipe : 0x7c ∉ t) : ofLine t = ⟨word t, arguments t, none, none⟩ := by
  have hplain : ∀ c ∈ t, c ≠ 0 ∧ c ≠ 0x7c ∧ c ≠ 0x3e :=
    fun c hc => ⟨(h.plain c hc).1, fun he => hpipe (he ▸ hc), (h.plain c hc).2.2.1⟩
  have htext := of_text (r := none) (d := none) hplain (fun _ h => absurd h (Option.not_mem_none _))
    (fun _ h => absurd h (Option.not_mem_none _)) fun h => absurd h (by simp)
  simpa [part] using htext

/-- Where there is a space, it is found before the `|`. -/
theorem ofLine_space (h : IsStages (a ++ 0x7c :: r)) (ha : 0x7c ∉ a) (hspace : 0x20 ∈ a) :
    ofLine (a ++ 0x7c :: r) = ⟨word a, arguments a, none, some (r.dropWhile isspace)⟩ := by
  have hplain : ∀ c ∈ a, c ≠ 0 ∧ c ≠ 0x7c ∧ c ≠ 0x3e := fun c hc =>
    have hc' := h.plain c (List.mem_append_left _ hc)
    ⟨hc'.1, fun he => ha (he ▸ hc), hc'.2.2.1⟩
  have hr : ∀ r' ∈ some r, ∀ c ∈ r', c ≠ 0 ∧ c ≠ 0x3e := by
    intro r' hr' c hc
    cases hr'
    have hc' := h.plain c (List.mem_append_right _ (List.mem_cons_of_mem _ hc))
    exact ⟨hc'.1, hc'.2.2.1⟩
  have htext := of_text (d := none) hplain hr (fun _ h => absurd h (Option.not_mem_none _)) fun _ => hspace
  simpa [part] using htext

theorem executedLines_sub {s : List UInt8} (hl : (ofLine t).subcommand = some s) (h : IsStages s) :
    executedLines (fuel + 1) t = ofLine t :: executedLines fuel s := by
  rw [executedLines, hl, Option.elim_some, if_neg h.ne_nil, h.typedLine_eq]

/-- **The commands of a text.** -/
theorem executedLines_iff (h : IsStages t) (hfuel : t.length < fuel) :
    (executedLines fuel t).map entry = (t.splitOn 0x7c).map words ↔ SpacesApart (t.splitOn 0x7c) := by
  induction fuel generalizing t with
  | zero => exact absurd hfuel (Nat.not_lt_zero _)
  | succ fuel ih =>
    by_cases hpipe : 0x7c ∈ t
    · obtain ⟨a, r, rfl, ha⟩ := List.eq_append_cons_of_mem hpipe
      have hcommands := h.commands
      rw [List.splitOn_append_cons_self_of_not_mem ha] at hcommands
      have hne : a ≠ [] := by
        rintro rfl
        exact hcommands [] List.mem_cons_self words_nil
      have hplain : ∀ c ∈ a, isspace c = true → c = 0x20 := fun c hc => (h.plain c (List.mem_append_left _ hc)).2.2.2
      have hstarts : ∀ c ∈ a.head?, isspace c = false :=
        fun c hc => h.starts c (by rw [List.head?_append_of_ne_nil _ hne]; exact hc)
      have hentry := words_eq_entry hplain hne hstarts
      rw [List.splitOn_append_cons_self_of_not_mem ha, spacesApart_cons (List.splitOn_ne_nil _ _),
        List.intercalate_splitOn, List.map_cons]
      by_cases hspace : 0x20 ∈ a
      · have hown : 0x20 ∈ a.dropWhile isspace := by
          have hsame : a.dropWhile isspace = a :=
            dropWhile_part (a := []) (fun _ h => absurd h List.not_mem_nil) hstarts
          rwa [hsame]
        have hline := ofLine_space h ha hspace
        obtain ⟨b, parts, hr, hdrop⟩ := splitOn_dropWhile r
        have hsame : ((r.dropWhile isspace).splitOn 0x7c).map words = (r.splitOn 0x7c).map words := by
          rw [hr, hdrop, List.map_cons, List.map_cons, words_dropWhile]
        have hlt : (r.dropWhile isspace).length < fuel := by
          have hle := (List.dropWhile_sublist isspace (l := r)).length_le
          simp only [List.length_append, List.length_cons] at hfuel
          omega
        rw [if_pos hown, executedLines_sub (congrArg CommandLine.subcommand hline)
          (h.rest ha), List.map_cons, List.cons.injEq, ← hsame, ih (h.rest ha) hlt, hdrop, hr, spacesApart_dropWhile,
            hline]
        exact and_iff_right hentry
      · have hown : 0x20 ∉ a.dropWhile isspace := fun h => hspace ((List.dropWhile_suffix _).subset h)
        have hrplain := fun c (hc : c ∈ r) => h.plain c (List.mem_append_right _ (List.mem_cons_of_mem _ hc))
        have haplain := fun c (hc : c ∈ a) => h.plain c (List.mem_append_left _ hc)
        have hline : ofLine (a ++ 0x7c :: r) = ⟨a, arguments r, none, some ((word r).dropWhile isspace)⟩ :=
          ofLine_noSpace (fun c hc => ⟨(haplain c hc).1, fun he => hspace (he ▸ hc), fun he => ha (he ▸ hc),
            (haplain c hc).2.2.1⟩)
            fun c hc => ⟨(hrplain c hc).1, (hrplain c hc).2.2.1⟩
        obtain ⟨hword, harguments⟩ := word_arguments_none hspace
        rw [hword, harguments, Option.getD_none, words_nil] at hentry
        rw [if_neg hown, ← words_arguments_iff fun c hc => (hrplain c hc).2.2.2]
        constructor
        · intro heq
          rw [executedLines, List.map_cons, List.cons.injEq, hline, ← hentry] at heq
          exact (List.cons.inj heq.1).2
        · intro hnil
          obtain ⟨hrest, hsame⟩ := h.rest_word ha ((words_arguments_iff fun c hc => (hrplain c hc).2.2.2).mp hnil)
          have hdrop : (word r).dropWhile isspace = word r :=
            dropWhile_part (a := []) (fun _ h => absurd h List.not_mem_nil) hrest.starts
          have hsub : (ofLine (a ++ 0x7c :: r)).subcommand = some (word r) := by rw [hline, hdrop]
          have hlt : (word r).length < fuel := by
            have hle := (List.takeWhile_sublist (fun c : UInt8 => decide (c ≠ 0x20)) (l := r)).length_le
            simp only [List.length_append, List.length_cons] at hfuel
            have hword : (word r).length ≤ r.length := hle
            omega
          have hno : 0x20 ∉ word r := fun hmem => by
            have hmem' := List.mem_takeWhile_imp hmem
            exact of_decide_eq_true hmem' rfl
          rw [executedLines_sub hsub hrest, List.map_cons, ← hsame, (ih hrest hlt).mpr (spacesApart_of_noSpace hno),
            hline, entry, hnil, hentry]
    · have hentry := words_eq_entry (fun c hc => (h.plain c hc).2.2.2) h.ne_nil h.starts
      have hlines : executedLines (fuel + 1) t = [⟨word t, arguments t, none, none⟩] := by
        rw [executedLines, ofLine_last h hpipe]; rfl
      rw [List.splitOn_eq_singleton hpipe, hlines, List.map_singleton, List.map_singleton]
      exact iff_of_true (congrArg (fun ws => [ws]) hentry) True.intro

/-! ### The file of the redirection -/

theorem mem_stringAt {b : List UInt8} {p : ℕ} (hc : c ∈ stringAt b p) : c ∈ b ∧ c ≠ 0 := by
  have hmem := List.mem_takeWhile_imp hc
  exact ⟨List.mem_of_mem_drop ((List.takeWhile_sublist _).subset hc), of_decide_eq_true hmem⟩

theorem mem_terminate {p : Option ℕ} (hc : c ∈ terminate t p) (hne : c ≠ 0) : c ∈ t := by
  cases p with
  | none => exact hc
  | some i => exact (List.mem_or_eq_of_mem_set hc).resolve_right hne

/-- What is behind the `|` is of the line. -/
theorem mem_subcommand {s : List UInt8} (hs : (ofLine t).subcommand = some s) (hc : c ∈ s) : c ∈ t := by
  unfold ofLine at hs
  obtain ⟨p, -, rfl⟩ := Option.map_eq_some_iff.mp hs
  obtain ⟨hmem, hne⟩ := mem_stringAt hc
  exact mem_terminate (mem_terminate (mem_terminate hmem hne) hne) hne

theorem mem_typedLine {s : List UInt8} (hc : c ∈ typedLine s) : c ∈ s := by
  have hfold : ∀ cs l : List UInt8, c ∈ cs.foldl typeChar l → c ∈ cs ∨ c ∈ l := by
    intro cs
    induction cs with
    | nil => exact fun l h => .inr h
    | cons b cs ih =>
      intro l h
      rcases ih _ h with h | h
      · exact .inl (List.mem_cons_of_mem _ h)
      · unfold typeChar at h
        split at h
        next => exact .inr (List.mem_of_mem_dropLast h)
        next =>
          split at h
          next =>
            rcases List.mem_append.mp h with h | h
            · exact .inr h
            · exact .inl (List.mem_singleton.mp h ▸ List.mem_cons_self)
          next => exact .inr h
  rcases hfold _ _ hc with h | h
  · exact (List.takeWhile_sublist _).subset h
  · cases h

theorem redirDest_none (ht : 0x3e ∉ t) : (ofLine t).redirDest = none := by
  unfold ofLine
  simp only [strchr_none ht, Option.map_none]

/-- Without a `>`, no terminal finds a file. -/
theorem executedLines_none (fuel : ℕ) (ht : 0x3e ∉ t) : ∀ l ∈ executedLines fuel t, l.redirDest = none := by
  induction fuel generalizing t with
  | zero => exact fun _ h => absurd h List.not_mem_nil
  | succ fuel ih =>
    rw [executedLines]
    refine List.forall_mem_cons.mpr ⟨redirDest_none ht, ?_⟩
    cases hs : (ofLine t).subcommand with
    | none => exact fun _ h => absurd h List.not_mem_nil
    | some s =>
      rw [Option.elim_some]
      split
      next => exact fun _ h => absurd h List.not_mem_nil
      next => exact ih fun h => ht (mem_subcommand hs (mem_typedLine h))

/-- A space behind the `>` that is the first of the line ends the line there. -/
theorem redirDest_lost (h0 : 0 ∉ t) (hspace : 0x20 ∉ t) (hredir : 0x3e ∉ t) (v : List UInt8) :
    (ofLine (t ++ 0x3e :: 0x20 :: v)).redirDest = some [] := by
  have hsplit : t ++ 0x3e :: 0x20 :: v = (t ++ [0x3e]) ++ 0x20 :: v := by simp
  have hfirst : strchr (t ++ 0x3e :: 0x20 :: v) 0x20 = some (t ++ [0x3e]).length := by
    rw [hsplit]
    refine strchr_some (by decide) (fun h => ?_) fun h => ?_
    · exact (List.mem_append.mp h).elim h0 (by decide)
    · exact (List.mem_append.mp h).elim hspace (by decide)
  have hdest : strchr (t ++ 0x3e :: 0x20 :: v) 0x3e = some t.length := strchr_some (by decide) h0 hredir
  have hcut : terminate (t ++ 0x3e :: 0x20 :: v) (some (t ++ [0x3e]).length) = t ++ 0x3e :: 0 :: v := by
    rw [hsplit, terminate_some, List.append_assoc]
    rfl
  have hempty : stringAt (t ++ 0 :: 0 :: v) (skipSpace (t ++ 0 :: 0 :: v) (t.length + 1)) = [] := by
    have hdrop : (t ++ 0 :: 0 :: v).drop (t.length + 1) = 0 :: v := by rw [List.drop_append]; simp
    have hskip : skipSpace (t ++ 0 :: 0 :: v) (t.length + 1) = t.length + 1 := by
      rw [skipSpace, hdrop]
      rfl
    rw [hskip, stringAt, hdrop]
    rfl
  unfold ofLine
  simp only [hfirst, hdest, hcut, terminate_some, Option.map_some, hempty]

/-- The terminals of a line with a `>` find the commands of the text before it, if there is a space in it or none behind
the `>`. -/
theorem executedLines_redir (ht : 0 ∉ t) (hredir : 0x3e ∉ t) (hd : 0 ∉ d) (hpipe : 0x7c ∉ d)
    (hspace : 0x20 ∈ t ∨ 0x20 ∉ d) :
    executedLines (fuel + 1) (t ++ 0x3e :: d) =
      { ofLine t with redirDest := some (d.dropWhile isspace) } :: (executedLines (fuel + 1) t).tail := by
  rw [executedLines, executedLines, ofLine_redir ht hredir hd hpipe hspace, List.tail_cons]

namespace SplitLine

variable {L : SplitLine}

theorem isStages (L : SplitLine) : IsStages L.text := by
  have hfits := L.fits
  rw [List.length_append] at hfits
  exact ⟨L.plain, L.commands, L.starts, by omega⟩

/-- **Each command gets its own** if and only if the spaces of the line are where `ExecuteLine` needs them. -/
theorem gives_each_iff (L : SplitLine) : L.GivesEach (executedLines (L.line.length + 1) L.line) ↔ L.SpacesFit := by
  have h0 : 0 ∉ L.text := fun h => (L.plain 0 h).1 rfl
  have hredir : 0x3e ∉ L.text := fun h => (L.plain _ h).2.2.1 rfl
  have hlt : L.text.length < L.line.length + 1 := by
    rw [line, List.length_append]
    omega
  have hstages := executedLines_iff L.isStages hlt
  have hnone := executedLines_none (L.line.length + 1) hredir
  have hhead : executedLines (L.line.length + 1) L.text =
    ofLine L.text :: (executedLines (L.line.length + 1) L.text).tail := rfl
  cases hdest : L.dest with
  | none =>
    have hline : L.line = L.text := by
      rw [line, hdest]
      exact List.append_nil _
    have hls : executedLines (L.line.length + 1) L.line = executedLines (L.line.length + 1) L.text := congrArg _ hline
    rw [hls]
    refine ⟨fun h => ⟨hstages.mp h.stages, fun d hd => ?_⟩,
      fun h => ⟨hstages.mpr h.1, ?_, fun l hl => hnone l (List.mem_of_mem_tail hl)⟩⟩
    · rw [hdest] at hd
      cases hd
    · rw [hhead, SplitLine.file, hdest]
      exact redirDest_none hredir
  | some d =>
    obtain ⟨hgap, hword, hplain⟩ := L.target d hdest
    have hfile : (d.1 ++ d.2).dropWhile isspace = d.2 := by
      refine dropWhile_part (fun c hc => hgap c hc ▸ rfl) fun c hc => ?_
      exact hword.2 c (List.mem_of_mem_head? hc)
    have hline : L.line = L.text ++ 0x3e :: (d.1 ++ d.2) := by
      rw [line, hdest]
      rfl
    have hnot : ∀ c, c ≠ 0x20 → c ∉ d.2 → c ∉ d.1 ++ d.2 := fun c hne hmem h =>
      (List.mem_append.mp h).elim (fun h => hne (hgap c h)) hmem
    have hd0 : 0 ∉ d.1 ++ d.2 := hnot 0 (by decide) fun h => (hplain 0 h).1 rfl
    have hdpipe : 0x7c ∉ d.1 ++ d.2 := hnot 0x7c (by decide) fun h => (hplain _ h).2 rfl
    have hspaces : 0x20 ∈ d.1 ++ d.2 ↔ d.1 ≠ [] := by
      constructor
      · rintro h hnil
        rw [hnil, List.nil_append] at h
        exact absurd (hword.2 _ h) (by decide)
      · intro hne
        obtain ⟨c, g, hg⟩ := List.exists_cons_of_ne_nil hne
        have hc : c = 0x20 := hgap c (hg ▸ List.mem_cons_self)
        rw [hg, hc]
        exact List.mem_append_left _ List.mem_cons_self
    by_cases hspace : 0x20 ∈ L.text ∨ 0x20 ∉ d.1 ++ d.2
    · have hls : executedLines (L.line.length + 1) L.line =
          { ofLine L.text with redirDest := some d.2 } :: (executedLines (L.line.length + 1) L.text).tail := by
        rw [← hfile, ← executedLines_redir h0 hredir hd0 hdpipe hspace]
        exact congrArg _ hline
      have hfit : ∀ d' ∈ L.dest, d'.1 ≠ [] → 0x20 ∈ L.text := by
        rintro d' hd' hne
        obtain rfl := Option.some.inj (hdest.symm.trans hd')
        exact hspace.resolve_right (not_not.mpr (hspaces.mpr hne))
      rw [hls]
      refine ⟨fun h => ⟨hstages.mp h.stages, hfit⟩,
        fun h => ⟨hstages.mpr h.1, ?_, fun l hl => hnone l (List.mem_of_mem_tail hl)⟩⟩
      rw [SplitLine.file, hdest]
      rfl
    · -- the space behind the `>` is the first of the line, and the file is lost
      obtain ⟨hno, hmem⟩ := not_or.mp hspace
      have hne : d.1 ≠ [] := hspaces.mp (not_not.mp hmem)
      obtain ⟨c, g, hg⟩ := List.exists_cons_of_ne_nil hne
      have hc : c = 0x20 := hgap c (hg ▸ List.mem_cons_self)
      refine iff_of_false (fun h => ?_) fun h => hno (h.2 d hdest hne)
      have hlost : (ofLine L.line).redirDest = some [] := by
        rw [hline, hg, hc]
        exact redirDest_lost h0 hno hredir _
      have hfile' : (ofLine L.line).redirDest = some d.2 := by
        have hfound := h.file
        rw [SplitLine.file, hdest] at hfound
        exact hfound
      exact hword.1 (Option.some.inj (hfile'.symm.trans hlost))

/-- The line `a|b c`. -/
def twoCommands : SplitLine where
  text := [0x61, 0x7c, 0x62, 0x20, 0x63]
  dest := none
  plain := by simp [isspace]
  commands := by decide
  starts := by simp [isspace]
  target := fun _ hd => absurd hd (Option.not_mem_none _)
  fits := by decide

/-- The argument `c` of `b` is given to `a`. -/
theorem not_gives_each_twoCommands :
    executedLines (twoCommands.line.length + 1) twoCommands.line =
      [⟨[0x61], some [0x63], none, some [0x62]⟩, ⟨[0x62], none, none, none⟩] ∧
      ¬ twoCommands.GivesEach (executedLines (twoCommands.line.length + 1) twoCommands.line) := by
  have hlines : executedLines (twoCommands.line.length + 1) twoCommands.line =
      [⟨[0x61], some [0x63], none, some [0x62]⟩, ⟨[0x62], none, none, none⟩] := by decide
  refine ⟨hlines, fun h => ?_⟩
  have hstages := h.stages
  rw [hlines] at hstages
  exact absurd hstages (by decide)

end SplitLine

end DuvuvurKernel
