import DuvuvurKernel.Terminal.Windowless

/-!
# Lines of several commands

A line `c1 | c2 | ... | cn`, and `> f` behind it or not, with a space before each `|` and before
the `>`. What a terminal finds in it (`ofLine_stageLine`) is the first command and the rest of the line;
the terminal behind the `|` types the rest (`typedLine_plain`), and finds the next command in it.
-/

namespace DuvuvurKernel

namespace CommandLine

/-- The command of a text. -/
def word (a : List UInt8) : List UInt8 := a.takeWhile fun c => c ≠ 0x20

/-- The arguments of a text, if there is a space. -/
def arguments (a : List UInt8) : Option (List UInt8) :=
  if 0x20 ∈ a then some (((a.dropWhile fun c => c ≠ 0x20).drop 1).dropWhile isspace) else none

/-- What is behind the word begins with its space. -/
theorem dropWhile_of_mem {a : List UInt8} (h : 0x20 ∈ a) : ∃ v, a.dropWhile (fun c => c ≠ 0x20) = 0x20 :: v := by
  induction a with
  | nil => cases h
  | cons c a ih =>
    by_cases hc : c = 0x20
    · subst hc
      exact ⟨a, rfl⟩
    · have hpos : (fun c : UInt8 => decide (c ≠ 0x20)) c = true := decide_eq_true hc
      rw [List.dropWhile_cons_of_pos (p := fun c : UInt8 => decide (c ≠ 0x20)) hpos]
      exact ih ((List.mem_cons.mp h).resolve_left fun he => hc he.symm)

/-- **A text before a `|` or `>`**, or at the end of the line. -/
theorem of_text {a : List UInt8} {r d : Option (List UInt8)} (hplain : ∀ c ∈ a, c ≠ 0 ∧ c ≠ 0x7c ∧ c ≠ 0x3e)
    (hr : ∀ r' ∈ r, ∀ c ∈ r', c ≠ 0 ∧ c ≠ 0x3e) (hd : ∀ d' ∈ d, ∀ c ∈ d', c ≠ 0 ∧ c ≠ 0x7c)
    (hspace : r ≠ none ∨ d ≠ none → 0x20 ∈ a) :
    ofLine (a ++ (part 0x7c r ++ part 0x3e d)) =
      ⟨word a, arguments a, d.map (List.dropWhile isspace), r.map (List.dropWhile isspace)⟩ := by
  have hword : 0x20 ∉ word a := by
    intro h
    have hne := List.mem_takeWhile_imp h
    exact absurd rfl (of_decide_eq_true hne)
  by_cases ha : 0x20 ∈ a
  · obtain ⟨v, hv⟩ := dropWhile_of_mem ha
    have hsplit : a = word a ++ 0x20 :: v := by
      rw [← hv]
      exact (List.takeWhile_append_dropWhile ..).symm
    have hargs : arguments a = some (v.dropWhile isspace) := by
      rw [arguments, if_pos ha, hv, List.drop_one, List.tail_cons]
    rw [hargs]
    conv_lhs => rw [hsplit]
    refine of_parts hword (fun c hc => hplain c ?_) hr hd
    rw [hsplit]
    rcases List.mem_append.mp hc with hc | hc
    · exact List.mem_append_left _ hc
    · exact List.mem_append_right _ (List.mem_cons_of_mem _ hc)
  · have hr : r = none := by
      by_contra hne
      exact ha (hspace (.inl hne))
    have hd : d = none := by
      by_contra hne
      exact ha (hspace (.inr hne))
    have hall : word a = a := List.takeWhile_eq_self_iff.mpr fun c hc => decide_eq_true fun he => ha (he ▸ hc)
    have hargs : arguments a = none := if_neg ha
    subst hr hd
    rw [hall, hargs]
    have hnone : a ++ (part 0x7c none ++ part 0x3e none) = a := List.append_nil a
    rw [hnone]
    exact of_word fun c hc => ⟨(hplain c hc).1, fun he => ha (he ▸ hc), (hplain c hc).2⟩

end CommandLine

open CommandLine LineTerminal

/-- The texts of a line, with the white space behind each `|`. -/
def lineText : List UInt8 → List (List UInt8 × List UInt8) → List UInt8
  | a, [] => a
  | a, (gap, b) :: rest => a ++ 0x7c :: (gap ++ lineText b rest)

/-- A text that begins with a word, without characters that have a meaning of their own. -/
structure IsText (a : List UInt8) : Prop where
  plain : ∀ c ∈ a, c ≠ 0 ∧ c ≠ 0x08 ∧ c ≠ 0x0a ∧ c ≠ 0x7c ∧ c ≠ 0x3e
  starts : ∃ c ∈ a.head?, isspace c = false

/-- White space. -/
def IsGap (a : List UInt8) : Prop := ∀ c ∈ a, isspace c = true ∧ c ≠ 0x0a

/-- A line of several commands, and where its output is redirected to. -/
structure PipelineLine where
  /-- The text before the first `|`. -/
  first : List UInt8
  /-- The white space behind each `|`, and the text there. -/
  rest : List (List UInt8 × List UInt8)
  /-- The white space behind the `>`, and the file there. -/
  dest : Option (List UInt8 × List UInt8)
  texts : ∀ a ∈ first :: rest.map Prod.snd, IsText a
  gaps : ∀ r ∈ rest, IsGap r.1
  target : ∀ d ∈ dest, IsGap d.1 ∧ IsText d.2
  /-- Before each `|` and `>` is a space. -/
  spaced : ∀ i, i < rest.length ∨ (i = rest.length ∧ dest ≠ none) →
    ((first :: rest.map Prod.snd).getD i []).getLast? = some 0x20
  /-- The line fits into a row of a terminal. -/
  fits : (lineText first rest ++ part 0x3e (dest.map fun d => d.1 ++ d.2)).length < 48

namespace PipelineLine

variable (L : PipelineLine)

/-- The text of a stage. -/
def text (i : ℕ) : List UInt8 := (L.first :: L.rest.map Prod.snd).getD i []

/-- The line from a stage on, without a redirection. -/
def stageLine (i : ℕ) : List UInt8 := lineText (L.text i) (L.rest.drop i)

/-- The file behind the `>`. -/
def file : Option (List UInt8) := L.dest.map Prod.snd

/-- The whole line. -/
def line : List UInt8 := L.stageLine 0 ++ part 0x3e (L.dest.map fun d => d.1 ++ d.2)

variable {L}

theorem text_succ {i : ℕ} (hi : i < L.rest.length) : L.text (i + 1) = L.rest[i].2 := by
  simp [text, hi]

theorem isText (i : ℕ) (hi : i ≤ L.rest.length) : IsText (L.text i) := by
  apply L.texts
  rw [text, List.getD_eq_getElem?_getD, List.getElem?_eq_getElem (by simp; omega), Option.getD_some]
  exact List.getElem_mem _

/-- A line that goes on is its text, and the line of the next stage. -/
theorem stageLine_succ {i : ℕ} (hi : i < L.rest.length) :
    L.stageLine i = L.text i ++ 0x7c :: (L.rest[i].1 ++ L.stageLine (i + 1)) := by
  rw [stageLine, List.drop_eq_getElem_cons hi, stageLine, text_succ hi]
  rfl

theorem stageLine_last : L.stageLine L.rest.length = L.text L.rest.length := by
  rw [stageLine, List.drop_length]
  rfl

theorem mem_lineText {x : UInt8} {a : List UInt8} {rest : List (List UInt8 × List UInt8)} (h : x ∈ lineText a rest) :
    x ∈ a ∨ x = 0x7c ∨ ∃ r ∈ rest, x ∈ r.1 ∨ x ∈ r.2 := by
  induction rest generalizing a with
  | nil => exact .inl h
  | cons r rest ih =>
    rcases List.mem_append.mp h with h | h
    · exact .inl h
    · rcases List.mem_cons.mp h with rfl | h
      · exact .inr (.inl rfl)
      · rcases List.mem_append.mp h with h | h
        · exact .inr (.inr ⟨r, List.mem_cons_self, .inl h⟩)
        · rcases ih h with h | rfl | ⟨r', hr', h⟩
          · exact .inr (.inr ⟨r, List.mem_cons_self, .inr h⟩)
          · exact .inr (.inl rfl)
          · exact .inr (.inr ⟨r', List.mem_cons_of_mem _ hr', h⟩)

theorem plain_of_gap {a : List UInt8} (h : IsGap a) {c : UInt8} (hc : c ∈ a) :
    c ≠ 0 ∧ c ≠ 0x08 ∧ c ≠ 0x0a ∧ c ≠ 0x7c ∧ c ≠ 0x3e := by
  obtain ⟨hspace, hnewline⟩ := h c hc
  refine ⟨?_, ?_, hnewline, ?_, ?_⟩ <;> rintro rfl <;> exact absurd hspace (by decide)

/-- What a line from a stage on is made of. -/
theorem stageLine_plain {i : ℕ} (hi : i ≤ L.rest.length) {c : UInt8} (hc : c ∈ L.stageLine i) :
    c ≠ 0 ∧ c ≠ 0x08 ∧ c ≠ 0x0a ∧ c ≠ 0x3e := by
  rcases mem_lineText hc with h | rfl | ⟨r, hr, h⟩
  · obtain ⟨h0, h8, h10, -, hredir⟩ := (isText i hi).plain c h
    exact ⟨h0, h8, h10, hredir⟩
  · decide
  · have hmem := List.mem_of_mem_drop hr
    rcases h with h | h
    · obtain ⟨h0, h8, h10, -, hredir⟩ := plain_of_gap (L.gaps r hmem) h
      exact ⟨h0, h8, h10, hredir⟩
    · obtain ⟨h0, h8, h10, -, hredir⟩ := (L.texts r.2 (List.mem_cons_of_mem _ (List.mem_map_of_mem hmem))).plain c h
      exact ⟨h0, h8, h10, hredir⟩

theorem stageLine_length {i : ℕ} (hi : i ≤ L.rest.length) : (L.stageLine i).length < 48 := by
  induction i with
  | zero =>
    have hfits := L.fits
    rw [List.length_append] at hfits
    exact Nat.lt_of_le_of_lt (Nat.le_add_right ..) hfits
  | succ i ih =>
    have hlength := ih (Nat.le_of_succ_le hi)
    rw [stageLine_succ hi, List.length_append, List.length_cons, List.length_append] at hlength
    omega

/-- White space is skipped up to a text. -/
theorem dropWhile_gap {a z : List UInt8} (ha : IsGap a) (hz : ∃ c ∈ z.head?, isspace c = false) :
    (a ++ z).dropWhile isspace = z := by
  rw [List.dropWhile_append_of_pos fun c hc => (ha c hc).1]
  obtain ⟨c, hc, hspace⟩ := hz
  obtain ⟨z', rfl⟩ := List.head?_eq_some_iff.mp hc
  exact List.dropWhile_cons_of_neg (by rw [hspace]; exact Bool.false_ne_true)

theorem stageLine_starts {i : ℕ} (hi : i ≤ L.rest.length) : ∃ c ∈ (L.stageLine i).head?, isspace c = false := by
  obtain ⟨c, hc, hspace⟩ := (isText i hi).starts
  obtain ⟨a, ha⟩ := List.head?_eq_some_iff.mp hc
  refine ⟨c, ?_, hspace⟩
  unfold stageLine
  rw [ha]
  cases L.rest.drop i with
  | nil => rfl
  | cons r rest => rfl

/-- Each stage has a command. -/
theorem word_ne_nil {i : ℕ} (hi : i ≤ L.rest.length) : word (L.text i) ≠ [] := by
  obtain ⟨c, hc, hspace⟩ := (isText i hi).starts
  obtain ⟨a, ha⟩ := List.head?_eq_some_iff.mp hc
  have hne : c ≠ 0x20 := by
    rintro rfl
    exact absurd hspace (by decide)
  rw [ha, word, List.takeWhile_cons_of_pos (p := fun c : UInt8 => decide (c ≠ 0x20)) (decide_eq_true hne)]
  exact List.cons_ne_nil _ _

/-- What a terminal finds in the line from a stage on, with a redirection behind it or not. -/
theorem ofLine_part {i : ℕ} (hi : i ≤ L.rest.length) {d : Option (List UInt8)}
    (hd : ∀ d' ∈ d, ∀ c ∈ d', c ≠ 0 ∧ c ≠ 0x7c) (hspaced : d ≠ none → i = L.rest.length → L.dest ≠ none) :
    ofLine (L.stageLine i ++ part 0x3e d) = ⟨word (L.text i), arguments (L.text i), d.map (List.dropWhile isspace),
      if i < L.rest.length then some (L.stageLine (i + 1)) else none⟩ := by
  have hplain : ∀ c ∈ L.text i, c ≠ 0 ∧ c ≠ 0x7c ∧ c ≠ 0x3e := by
    intro c hc
    obtain ⟨h0, -, -, hpipe, hredir⟩ := (isText i hi).plain c hc
    exact ⟨h0, hpipe, hredir⟩
  split
  next hlt =>
    have hr : ∀ r' ∈ some (L.rest[i].1 ++ L.stageLine (i + 1)), ∀ c ∈ r', c ≠ 0 ∧ c ≠ 0x3e := by
      intro r' hr' c hc
      cases hr'
      rcases List.mem_append.mp hc with hc | hc
      · obtain ⟨h0, -, -, -, hredir⟩ := plain_of_gap (L.gaps _ (List.getElem_mem hlt)) hc
        exact ⟨h0, hredir⟩
      · obtain ⟨h0, -, -, hredir⟩ := stageLine_plain hlt hc
        exact ⟨h0, hredir⟩
    have hline : L.stageLine i ++ part 0x3e d =
        L.text i ++ (part 0x7c (some (L.rest[i].1 ++ L.stageLine (i + 1))) ++ part 0x3e d) := by
      rw [stageLine_succ hlt, List.append_assoc]
      rfl
    rw [hline, of_text hplain hr hd fun _ => List.mem_of_getLast? (L.spaced i (.inl hlt)), Option.map_some,
      dropWhile_gap (L.gaps _ (List.getElem_mem hlt)) (stageLine_starts hlt)]
  next hge =>
    have hlast : i = L.rest.length := Nat.le_antisymm hi (Nat.le_of_not_lt hge)
    have hline : L.stageLine i ++ part 0x3e d = L.text i ++ (part 0x7c none ++ part 0x3e d) := by
      rw [hlast, stageLine_last]
      rfl
    have hspace : (none : Option (List UInt8)) ≠ none ∨ d ≠ none → 0x20 ∈ L.text i := by
      rintro (h | h)
      · exact absurd rfl h
      · exact List.mem_of_getLast? (L.spaced i (.inr ⟨hlast, hspaced h hlast⟩))
    rw [hline, of_text hplain (fun _ hr => absurd hr (Option.not_mem_none _)) hd hspace]
    rfl

/-- **The terminal of a stage** finds the command of its text, and the line of the next stage. -/
theorem ofLine_stageLine {i : ℕ} (hi : i ≤ L.rest.length) :
    ofLine (L.stageLine i) = ⟨word (L.text i), arguments (L.text i), none,
      if i < L.rest.length then some (L.stageLine (i + 1)) else none⟩ := by
  have hparts := ofLine_part hi (d := none) (fun _ hd => absurd hd (Option.not_mem_none _)) fun h => absurd rfl h
  have hnone : L.stageLine i ++ part 0x3e none = L.stageLine i := List.append_nil _
  rwa [hnone] at hparts

/-- **The first terminal** finds the file, too. -/
theorem ofLine_line : ofLine L.line = ⟨word (L.text 0), arguments (L.text 0), L.file,
    if 0 < L.rest.length then some (L.stageLine 1) else none⟩ := by
  have hd : ∀ d' ∈ L.dest.map (fun d => d.1 ++ d.2), ∀ c ∈ d', c ≠ 0 ∧ c ≠ 0x7c := by
    intro d' hd' c hc
    obtain ⟨d, hd, rfl⟩ := Option.mem_map.mp hd'
    obtain ⟨hgap, htext⟩ := L.target d hd
    rcases List.mem_append.mp hc with hc | hc
    · obtain ⟨h0, -, -, hpipe, -⟩ := plain_of_gap hgap hc
      exact ⟨h0, hpipe⟩
    · obtain ⟨h0, -, -, hpipe, -⟩ := htext.plain c hc
      exact ⟨h0, hpipe⟩
  have hfile : (L.dest.map fun d => d.1 ++ d.2).map (List.dropWhile isspace) = L.file := by
    unfold file
    rw [Option.map_map]
    cases hdest : L.dest with
    | none => rfl
    | some d => exact congrArg some (dropWhile_gap (L.target d hdest).1 (L.target d hdest).2.starts)
  rw [line, ofLine_part (Nat.zero_le _) hd (fun hne _ hnone => hne (by rw [hnone]; rfl)), hfile]

end PipelineLine

namespace LineTerminal

/-- **A terminal types a line that fits as it is given.** -/
theorem typedLine_plain {s : List UInt8} (hs : ∀ c ∈ s, c ≠ 0 ∧ c ≠ 0x08 ∧ c ≠ 0x0a) (hlength : s.length < 48) :
    typedLine s = s := by
  have hline : s.takeWhile (fun c => c ≠ 0x0a) = s :=
    List.takeWhile_eq_self_iff.mpr fun c hc => decide_eq_true (hs c hc).2.2
  have hfold : ∀ l : List UInt8, l.length + s.length < 48 → s.foldl typeChar l = l ++ s := by
    clear hline hlength
    induction s with
    | nil => exact fun l _ => (List.append_nil l).symm
    | cons c s ih =>
      intro l hl
      obtain ⟨hzero, hback, -⟩ := hs c List.mem_cons_self
      rw [List.length_cons] at hl
      have hchar : typeChar l c = l ++ [c] := by
        unfold typeChar
        rw [if_neg hback, if_pos ⟨hzero, by omega⟩]
      rw [List.foldl_cons, hchar, ih (fun c hc => hs c (List.mem_cons_of_mem _ hc)) _ (by simp; omega),
        List.append_assoc]
      rfl
  rw [typedLine, hline, hfold [] (by simpa using hlength), List.nil_append]

end LineTerminal

end DuvuvurKernel
