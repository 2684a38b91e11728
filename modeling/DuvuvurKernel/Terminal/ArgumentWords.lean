import DuvuvurKernel.Terminal.CommandLine
import DuvuvurKernel.Terminal.InputKey

/-!
# The words of the arguments

What `MakeArgVector` makes of a text, and what it writes: besides `argv` and `argbuf` the text
itself, in which it ends each word with a terminator.

## The model

`makeArgVectorInPlace` follows a pointer through the text as it is then. What it returns is that of
`makeArgVector`, which is about the rest of the text only (`inPlace_eq`). The filled parts of `argv` and
`argbuf` are what is written there.

A text is taken apart into its words by `Spaced`, and the loop is followed along it.

**Result** (`makeArgVector_splits`): the arguments are the command and the words of the text, and
the blank behind each word is a terminator afterwards; `kFull` is for more than 31 words.
-/

namespace DuvuvurKernel

open CommandLine LineTerminal

namespace ArgVector

/-- `argv_len` of `ExecuteFile`. -/
def argvLen : ℕ := 32

/-- `argbuf_len` of `ExecuteFile`. -/
def argbufLen : ℕ := 4096 - 8 * argvLen

/-- The end of the word at an offset of the text. -/
def wordEnd (text : List UInt8) (p : ℕ) : ℕ := p + ((text.drop p).takeWhile fun c => c ≠ 0 ∧ isspace c = false).length

/-- The loop of `MakeArgVector`, for at most `fuel` words, and the text after it. -/
def cutWords (argvLen argbufLen : ℕ) : ℕ → ArgVector → List UInt8 → ℕ → Except Error Unit × ArgVector × List UInt8
  | 0, args, text, _ => (.ok (), args, text)
  | fuel + 1, args, text, p =>
    let arg := skipSpace text p
    if text.getD arg 0 = 0 then (.ok (), args, text)
    else
      let p := wordEnd text arg
      let isEnd : Bool := text.getD p 0 = 0
      let text := text.set p 0
      match args.pushToArgv argvLen argbufLen (stringAt text arg) with
      | (.error err, args) => (.error err, args, text)
      | (.ok (), args) => if isEnd then (.ok (), args, text) else cutWords argvLen argbufLen fuel args text (p + 1)

end ArgVector

/-- `MakeArgVector`, and the text of `first_arg` after it. -/
def makeArgVectorInPlace (command : CString) (firstArg : Option CString) (argvLen argbufLen : ℕ) :
    Except Error Unit × ArgVector × List UInt8 :=
  let text := firstArg.elim [] CString.bytes
  match ArgVector.pushToArgv argvLen argbufLen ⟨[], []⟩ command.bytes with
  | (.error err, args) => (.error err, args, text)
  | (.ok (), args) =>
    match firstArg with
    | none => (.ok (), args, text)
    | some p => args.cutWords argvLen argbufLen (p.bytes.length + 1) p.bytes 0

/-! ### The words of a text -/

/-- What is between the white space of a text. -/
def words (text : List UInt8) : List (List UInt8) := (text.splitOnP isspace).filter fun w => w ≠ []

/-- A word. -/
def IsWord (w : List UInt8) : Prop := w ≠ [] ∧ ∀ c ∈ w, isspace c = false

/-- A text of the given words. -/
inductive Spaced : List UInt8 → List (List UInt8) → Prop where
  | blank {gap : List UInt8} : (∀ c ∈ gap, isspace c = true) → Spaced gap []
  | last {gap w : List UInt8} : (∀ c ∈ gap, isspace c = true) → IsWord w → Spaced (gap ++ w) [w]
  | cons {gap w rest : List UInt8} {c : UInt8} {ws : List (List UInt8)} :
      (∀ c ∈ gap, isspace c = true) → IsWord w → isspace c = true → Spaced rest ws →
        Spaced (gap ++ (w ++ c :: rest)) (w :: ws)

variable {w gap rest text z : List UInt8} {c : UInt8} {ws : List (List UInt8)}

theorem words_nil : words [] = [] := rfl

/-- White space is between words. -/
theorem words_append (hc : isspace c = true) (text rest : List UInt8) :
    words (text ++ c :: rest) = words text ++ words rest := by
  rw [words, List.splitOnP_append_cons text rest hc, List.filter_append]
  rfl

theorem words_blank (h : ∀ c ∈ gap, isspace c = true) (text : List UInt8) : words (gap ++ text) = words text := by
  induction gap with
  | nil => rfl
  | cons c gap ih =>
    obtain ⟨hc, hgap⟩ := List.forall_mem_cons.mp h
    exact (words_append hc [] (gap ++ text)).trans (ih hgap)

theorem words_word (h : IsWord w) : words w = [w] := by
  have hne : (fun w : List UInt8 => decide (w ≠ [])) w = true := decide_eq_true h.1
  rw [words, List.splitOnP_eq_singleton h.2, List.filter_cons_of_pos (p := fun w : List UInt8 => decide (w ≠ [])) hne,
    List.filter_nil]

theorem words_cons (h : IsWord w) (hc : isspace c = true) (rest : List UInt8) :
    words (w ++ c :: rest) = w :: words rest := by
  rw [words_append hc, words_word h]
  rfl

/-- The words are those between the white space. -/
theorem Spaced.words_eq (h : Spaced text ws) : words text = ws := by
  induction h with
  | @blank gap hgap => rw [← List.append_nil gap, words_blank hgap, words_nil]
  | last hgap hw => rw [words_blank hgap, words_word hw]
  | cons hgap hw hc _ ih => rw [words_blank hgap, words_cons hw hc, ih]

/-- A text, up to the first character that is not of a kind, and from there. -/
theorem exists_span (p : UInt8 → Bool) (text : List UInt8) :
    ∃ a b, text = a ++ b ∧ (∀ c ∈ a, p c = true) ∧ ∀ c ∈ b.head?, p c = false := by
  refine ⟨text.takeWhile p, text.dropWhile p, (List.takeWhile_append_dropWhile ..).symm,
    fun c hc => List.mem_takeWhile_imp hc, ?_⟩
  intro c hc
  have hhead := List.head?_dropWhile_not p text
  rw [hc] at hhead
  exact hhead

theorem takeWhile_part {p : UInt8 → Bool} {a z : List UInt8} (ha : ∀ c ∈ a, p c = true)
    (hz : ∀ c ∈ z.head?, p c = false) :
    (a ++ z).takeWhile p = a := by
  rw [List.takeWhile_append, List.takeWhile_eq_self_iff.mpr ha, if_pos rfl]
  cases z with
  | nil => exact List.append_nil a
  | cons c z => rw [List.takeWhile_cons_of_neg (by rw [hz c rfl]; exact Bool.false_ne_true), List.append_nil]

theorem dropWhile_part {p : UInt8 → Bool} {a z : List UInt8} (ha : ∀ c ∈ a, p c = true)
    (hz : ∀ c ∈ z.head?, p c = false) :
    (a ++ z).dropWhile p = z := by
  have happend := List.takeWhile_append_dropWhile (p := p) (l := a ++ z)
  rw [takeWhile_part ha hz] at happend
  exact List.append_cancel_left happend

theorem Spaced.subset (h : Spaced text ws) : ∀ w ∈ ws, w ⊆ text := by
  induction h with
  | blank => exact fun _ hw => absurd hw List.not_mem_nil
  | last => exact fun w hw => List.mem_singleton.mp hw ▸ List.subset_append_right _ _
  | cons _ _ _ _ ih =>
    intro w hw
    rcases List.mem_cons.mp hw with rfl | hw
    · exact fun c hc => List.mem_append_right _ (List.mem_append_left _ hc)
    · exact fun c hc => List.mem_append_right _ (List.mem_append_right _ (List.mem_cons_of_mem _ (ih w hw hc)))

/-- Every text has its words. -/
theorem exists_spaced (text : List UInt8) : ∃ ws, Spaced text ws := by
  induction hn : text.length using Nat.strong_induction_on generalizing text with
  | _ n ih =>
    obtain ⟨gap, q, rfl, hgap, hq⟩ := exists_span isspace text
    obtain ⟨w, z, rfl, hw, hz⟩ := exists_span (fun c => !isspace c) q
    have hplain : ∀ c ∈ w, isspace c = false := fun c hc => by simpa using hw c hc
    by_cases hne : w = []
    · -- nothing but white space
      subst hne
      cases z with
      | nil => exact ⟨[], (List.append_nil gap).symm ▸ .blank hgap⟩
      | cons c rest => exact absurd (hz c rfl) (by rw [hq c rfl]; decide)
    · cases z with
      | nil => exact ⟨[w], (List.append_nil w).symm ▸ .last hgap ⟨hne, hplain⟩⟩
      | cons c rest =>
        have hlength : rest.length < n := by
          rw [← hn]
          simp only [List.length_append, List.length_cons]
          omega
        obtain ⟨ws, hws⟩ := ih rest.length hlength rest rfl
        exact ⟨w :: ws, .cons hgap ⟨hne, hplain⟩ (by simpa using hz c rfl) hws⟩

theorem spaced_words (text : List UInt8) : Spaced text (words text) := by
  obtain ⟨ws, hws⟩ := exists_spaced text
  rwa [hws.words_eq]

/-- A text with anything but white space has a word. -/
theorem words_ne_nil (hc : c ∈ text) (h : isspace c = false) : words text ≠ [] := by
  intro hnil
  have hspaced := spaced_words text
  rw [hnil] at hspaced
  cases hspaced with
  | blank hgap => exact absurd (hgap c hc) (by rw [h]; exact Bool.false_ne_true)

/-! ### The arguments -/

namespace ArgVector

/-- The strings of the arguments, one behind the other. -/
def strings (ws : List (List UInt8)) : List UInt8 := ws.flatMap fun w => w ++ [0]

/-- The arguments are the given strings: each is a string in `argbuf`, and they do not share a byte. -/
structure IsArgVector (args : ArgVector) (ws : List (List UInt8)) : Prop where
  argc : args.argv.length = ws.length
  string : ∀ (i : ℕ) (w : List UInt8), ws[i]? = some w → ∃ a, args.argv[i]? = some a ∧ stringAt args.argbuf a = w ∧
    args.argbuf[a + w.length]? = some 0
  disjoint : ∀ (i j a b : ℕ) (w : List UInt8), i < j → args.argv[i]? = some a → args.argv[j]? = some b →
    ws[i]? = some w → a + w.length < b

/-- They are, one behind the other from the start. -/
structure Pushed (args : ArgVector) (ws : List (List UInt8)) : Prop where
  argc : args.argv.length = ws.length
  argbuf : args.argbuf = strings ws
  argv : ∀ i < ws.length, args.argv[i]? = some (strings (ws.take i)).length

variable {args args' : ArgVector} {ws' : List (List UInt8)} {m n fuel : ℕ}

theorem Pushed.push (h : Pushed args ws) (s : List UInt8) :
    Pushed { argv := args.argv ++ [args.argbuf.length], argbuf := args.argbuf ++ s ++ [0] } (ws ++ [s]) where
  argc := by simp [h.argc]
  argbuf := by simp [h.argbuf, strings]
  argv i hi := by
    rw [List.length_append, List.length_singleton] at hi
    rcases Nat.lt_succ_iff_lt_or_eq.mp hi with hlt | rfl
    · rw [List.getElem?_append_left (h.argc ▸ hlt), h.argv i hlt, List.take_append_of_le_length (Nat.le_of_lt hlt)]
    · rw [List.getElem?_append_right (Nat.le_of_eq h.argc), h.argc, Nat.sub_self, List.take_left, h.argbuf]
      rfl

theorem strings_cons (w : List UInt8) (ws : List (List UInt8)) : strings (w :: ws) = w ++ 0 :: strings ws := by
  simp [strings]

theorem strings_append (ws ws' : List (List UInt8)) :
    strings (ws ++ ws') = strings ws ++ strings ws' := List.flatMap_append

/-- The argument at an index, between those before it and those behind it. -/
theorem strings_split {i : ℕ} (h : ws[i]? = some w) :
    strings ws = strings (ws.take i) ++ (w ++ 0 :: strings (ws.drop (i + 1))) := by
  obtain ⟨hi, rfl⟩ := List.getElem?_eq_some_iff.mp h
  conv_lhs => rw [← List.take_append_drop i ws, List.drop_eq_getElem_cons hi, strings_append, strings_cons]

theorem stringAt_append (pre : List UInt8) (hw : 0 ∉ w) (hz : ∀ c ∈ z.head?, c = 0) :
    stringAt (pre ++ (w ++ z)) pre.length = w := by
  rw [stringAt, List.drop_left]
  refine takeWhile_part (fun c hc => decide_eq_true fun h => hw (h ▸ hc)) fun c hc => ?_
  rw [hz c hc]
  rfl

theorem Pushed.isArgVector (h : Pushed args ws) (hws : ∀ w ∈ ws, 0 ∉ w) : IsArgVector args ws where
  argc := h.argc
  string i w hw := by
    obtain ⟨hi, -⟩ := List.getElem?_eq_some_iff.mp hw
    refine ⟨_, h.argv i hi, ?_, ?_⟩
    · rw [h.argbuf, strings_split hw]
      exact stringAt_append _ (hws w (List.mem_of_getElem? hw)) fun c hc => (Option.some.inj hc).symm
    · rw [h.argbuf, strings_split hw, List.getElem?_append_right (Nat.le_add_right ..), Nat.add_sub_cancel_left,
        List.getElem?_append_right (Nat.le_refl _), Nat.sub_self]
      rfl
  disjoint i j a b w hij ha hb hw := by
    obtain ⟨hi, hget⟩ := List.getElem?_eq_some_iff.mp hw
    obtain ⟨hj, -⟩ := List.getElem?_eq_some_iff.mp hb
    rw [h.argv i hi] at ha
    rw [h.argv j (h.argc ▸ hj)] at hb
    obtain rfl := Option.some.inj ha
    obtain rfl := Option.some.inj hb
    have hbefore : (ws.take j)[i]? = some w := by rw [List.getElem?_take_of_lt hij, hw]
    rw [strings_split hbefore, List.take_take, Nat.min_eq_left (Nat.le_of_lt hij)]
    simp only [List.length_append, List.length_cons]
    omega

end ArgVector

/-! ### The text afterwards -/

/-- The white space directly behind a word is at `k`. -/
def EndsWord (text : List UInt8) (k : ℕ) : Prop :=
  ∃ j c d, k = j + 1 ∧ text[j]? = some c ∧ isspace c = false ∧ text[k]? = some d ∧ isspace d = true

/-- The white space behind each of the first `n` words has become a terminator, and nothing else is changed. -/
structure IsCut (n : ℕ) (text text' : List UInt8) : Prop where
  ended : ∀ k, EndsWord text k → (words (text.take k)).length ≤ n → text'[k]? = some 0
  others : ∀ k, ¬ (EndsWord text k ∧ (words (text.take k)).length ≤ n) → text'[k]? = text[k]?

variable {text' : List UInt8} {k n : ℕ}

theorem not_endsWord (hgap : ∀ c ∈ gap, isspace c = true) (hw : ∀ c ∈ w, isspace c = false) :
    ¬ EndsWord (gap ++ w) k := by
  rintro ⟨j, c, d, rfl, hj, hc, hk, hd⟩
  rcases Nat.lt_or_ge j gap.length with hlt | hge
  · rw [List.getElem?_append_left hlt] at hj
    exact Bool.false_ne_true (hc.symm.trans (hgap c (List.mem_of_getElem? hj)))
  · rw [List.getElem?_append_right (Nat.le_succ_of_le hge)] at hk
    exact Bool.false_ne_true ((hw d (List.mem_of_getElem? hk)).symm.trans hd)

theorem words_take_ne_nil (h : EndsWord text k) : words (text.take k) ≠ [] := by
  obtain ⟨j, c, d, rfl, hj, hc, -, -⟩ := h
  have hmem : c ∈ text.take (j + 1) := List.mem_of_getElem? ((List.getElem?_take_of_lt (Nat.lt_succ_self j)).trans hj)
  exact words_ne_nil hmem hc

theorem isCut_of_not (h : ∀ k, ¬ (EndsWord text k ∧ (words (text.take k)).length ≤ n)) : IsCut n text text where
  ended k hk hle := absurd ⟨hk, hle⟩ (h k)
  others _ _ := rfl

theorem isCut_zero (text : List UInt8) : IsCut 0 text text :=
  isCut_of_not fun _ h => words_take_ne_nil h.1 (List.length_eq_zero_iff.mp (Nat.le_zero.mp h.2))

/-- Behind the first word, with its white space, is the rest of the text. -/
theorem endsWord_cons (hc : isspace c = true) (k : ℕ) :
    EndsWord ((gap ++ w) ++ c :: rest) ((gap ++ w).length + 1 + k) ↔ EndsWord rest k := by
  have hget : ∀ k, ((gap ++ w) ++ c :: rest)[(gap ++ w).length + 1 + k]? = rest[k]? := by
    intro k
    rw [List.getElem?_append_right (by omega), show (gap ++ w).length + 1 + k - (gap ++ w).length = k + 1 by omega]
    rfl
  cases k with
  | zero =>
    refine iff_of_false ?_ ?_
    · rintro ⟨j, c', d, hj, hget', hc', -, -⟩
      obtain rfl : (gap ++ w).length = j := by omega
      rw [List.getElem?_append_right (Nat.le_refl _), Nat.sub_self] at hget'
      obtain rfl := Option.some.inj hget'
      exact Bool.false_ne_true (hc'.symm.trans hc)
    · rintro ⟨j, _, _, hj, -⟩
      exact absurd hj (Nat.succ_ne_zero j).symm
  | succ k =>
    constructor
    · rintro ⟨j, c', d, hj, hget', hc', hd, hd'⟩
      obtain rfl : (gap ++ w).length + 1 + k = j := by omega
      rw [hget] at hget' hd
      exact ⟨k, c', d, rfl, hget', hc', hd, hd'⟩
    · rintro ⟨j, c', d, hj, hget', hc', hd, hd'⟩
      obtain rfl := Nat.succ.inj hj
      exact ⟨_, c', d, rfl, (hget k).trans hget', hc', (hget (k + 1)).trans hd, hd'⟩

/-- The white space behind the first word is behind a word. -/
theorem endsWord_first (hw : IsWord w) (hc : isspace c = true) :
    EndsWord ((gap ++ w) ++ c :: rest) (gap ++ w).length := by
  obtain ⟨w, d, rfl⟩ := (List.eq_nil_or_concat w).resolve_left hw.1
  rw [List.concat_eq_append] at hw ⊢
  have hsplit : (gap ++ (w ++ [d])) ++ c :: rest = (gap ++ w) ++ d :: c :: rest := by simp
  refine ⟨(gap ++ w).length, d, c, by simp; omega, ?_, hw.2 d (List.mem_append_right _ List.mem_cons_self), ?_, hc⟩
  · rw [hsplit, List.getElem?_append_right (Nat.le_refl _), Nat.sub_self]
    rfl
  · rw [List.getElem?_append_right (Nat.le_refl _), Nat.sub_self]
    rfl

theorem IsCut.cons (hgap : ∀ c ∈ gap, isspace c = true) (hw : IsWord w) (hc : isspace c = true)
    (h : IsCut n rest text') :
    IsCut (n + 1) ((gap ++ w) ++ c :: rest) ((gap ++ w) ++ 0 :: text') := by
  have hbefore : ∀ k < (gap ++ w).length, ¬ EndsWord ((gap ++ w) ++ c :: rest) k := by
    rintro k hlt ⟨j, c', d, rfl, hj, hc', hk, hd⟩
    rw [List.getElem?_append_left (by omega)] at hj hk
    exact not_endsWord hgap hw.2 ⟨j, c', d, rfl, hj, hc', hk, hd⟩
  have htake : ∀ k, words (((gap ++ w) ++ c :: rest).take ((gap ++ w).length + 1 + k)) = w :: words (rest.take k) := by
    intro k
    rw [Nat.add_assoc, List.take_length_add_append, Nat.add_comm, List.take_succ_cons, List.append_assoc,
      words_blank hgap, words_cons hw hc]
  have hget : ∀ k b (z : List UInt8), ((gap ++ w) ++ b :: z)[(gap ++ w).length + 1 + k]? = z[k]? := by
    intro k b z
    rw [List.getElem?_append_right (by omega), show (gap ++ w).length + 1 + k - (gap ++ w).length = k + 1 by omega]
    rfl
  have hend : ((gap ++ w) ++ 0 :: text')[(gap ++ w).length]? = some 0 := by
    rw [List.getElem?_append_right (Nat.le_refl _), Nat.sub_self]
    rfl
  constructor
  · intro k hk hle
    rcases Nat.lt_trichotomy k (gap ++ w).length with hlt | rfl | hgt
    · exact absurd hk (hbefore k hlt)
    · exact hend
    · obtain ⟨k, rfl⟩ := Nat.exists_eq_add_of_le (Nat.succ_le_of_lt hgt)
      rw [htake] at hle
      rw [hget]
      exact h.ended k ((endsWord_cons hc k).mp hk) (Nat.le_of_succ_le_succ hle)
  · intro k hk
    rcases Nat.lt_trichotomy k (gap ++ w).length with hlt | rfl | hgt
    · rw [List.getElem?_append_left hlt, List.getElem?_append_left hlt]
    · refine absurd ⟨endsWord_first hw hc, ?_⟩ hk
      rw [List.take_left, words_blank hgap, words_word hw]
      exact Nat.succ_le_succ (Nat.zero_le n)
    · obtain ⟨k, rfl⟩ := Nat.exists_eq_add_of_le (Nat.succ_le_of_lt hgt)
      rw [htake, endsWord_cons hc] at hk
      rw [hget, hget]
      exact h.others k fun hk' => hk ⟨hk'.1, Nat.succ_le_succ hk'.2⟩

/-! ### The loop -/

namespace ArgVector

variable {argvLen argbufLen fuel : ℕ} {args args' : ArgVector} {pre text text' : List UInt8} {err : Error}
    {ws' : List (List UInt8)}

theorem pushWords_blank (hgap : ∀ c ∈ gap, isspace c = true) :
    args.pushWords argvLen argbufLen fuel gap = (.ok (), args) := by
  cases fuel with
  | zero => rfl
  | succ fuel => rw [pushWords, if_pos (List.dropWhile_eq_nil_iff.mpr hgap)]

/-- The first word of a text begins where the white space before it ends. -/
theorem head_word (hw : IsWord w) : ∀ c ∈ (w ++ z).head?, isspace c = false := by
  intro c hc
  rw [List.head?_append_of_ne_nil _ hw.1] at hc
  exact hw.2 c (List.mem_of_mem_head? hc)

/-- A round of the loop of `makeArgVector`. -/
theorem pushWords_word (hgap : ∀ c ∈ gap, isspace c = true) (hw : IsWord w) (hz : ∀ c ∈ z.head?, isspace c = true) :
    (∀ err, args.pushToArgv argvLen argbufLen w = (.error err, args') →
      args.pushWords argvLen argbufLen (fuel + 1) (gap ++ (w ++ z)) = (.error err, args')) ∧
    (args.pushToArgv argvLen argbufLen w = (.ok (), args') →
      args.pushWords argvLen argbufLen (fuel + 1) (gap ++ (w ++ z)) =
          args'.pushWords argvLen argbufLen fuel (z.drop 1)) := by
  have hne : w ++ z ≠ [] := fun h => hw.1 (List.append_eq_nil_iff.mp h).1
  have hblank : (gap ++ (w ++ z)).dropWhile isspace = w ++ z := dropWhile_part hgap (head_word hw)
  have hin : ∀ c ∈ w, decide (¬ isspace c) = true := fun c hc => by simp [hw.2 c hc]
  have hout : ∀ c ∈ z.head?, decide (¬ isspace c) = false := fun c hc => by simp [hz c hc]
  constructor
  · intro err hpush
    rw [pushWords]
    simp only [hblank, if_neg hne, takeWhile_part hin hout, hpush]
  · intro hpush
    rw [pushWords]
    simp only [hblank, if_neg hne, takeWhile_part hin hout, dropWhile_part hin hout, hpush]

theorem cutWords_blank (hgap : ∀ c ∈ gap, isspace c = true) :
    args.cutWords argvLen argbufLen fuel (pre ++ gap) pre.length = (.ok (), args, pre ++ gap) := by
  cases fuel with
  | zero => rfl
  | succ fuel =>
    have hskip : skipSpace (pre ++ gap) pre.length = (pre ++ gap).length := by
      rw [skipSpace, List.drop_left, List.takeWhile_eq_self_iff.mpr hgap, List.length_append]
    have hend : (pre ++ gap).getD (pre ++ gap).length 0 = 0 := by
      rw [List.getD_eq_getElem?_getD, List.getElem?_eq_none (Nat.le_refl _), Option.getD_none]
    rw [cutWords, hskip, if_pos hend]

/-- What stands at an offset is what is behind the part before it. -/
theorem getD_append_length (a z : List UInt8) : (a ++ z).getD a.length 0 = z.head?.getD 0 := by
  rw [List.getD_eq_getElem?_getD, List.getElem?_append_right (Nat.le_refl _), Nat.sub_self, List.head?_eq_getElem?]

/-- A round of the loop in the text. -/
theorem cutWords_word (hgap : ∀ c ∈ gap, isspace c = true) (hw : IsWord w) (h0 : 0 ∉ w)
    (hz : ∀ c ∈ z.head?, isspace c = true) :
    (∀ err, args.pushToArgv argvLen argbufLen w = (.error err, args') →
      args.cutWords argvLen argbufLen (fuel + 1) (pre ++ (gap ++ (w ++ z))) pre.length =
        (.error err, args', pre ++ (gap ++ (w ++ z.set 0 0)))) ∧
    (args.pushToArgv argvLen argbufLen w = (.ok (), args') →
      args.cutWords argvLen argbufLen (fuel + 1) (pre ++ (gap ++ (w ++ z))) pre.length =
        if z = [] then (.ok (), args', pre ++ (gap ++ (w ++ z.set 0 0)))
        else args'.cutWords argvLen argbufLen fuel (pre ++ (gap ++ (w ++ z.set 0 0)))
            ((pre ++ (gap ++ w)).length + 1)) := by
  have hsplit : ∀ z, pre ++ (gap ++ (w ++ z)) = (pre ++ gap) ++ (w ++ z) := fun z => (List.append_assoc ..).symm
  have hlength : (pre ++ (gap ++ w)).length = ((pre ++ gap) ++ w).length := by rw [List.append_assoc]
  have hskip : skipSpace (pre ++ (gap ++ (w ++ z))) pre.length = (pre ++ gap).length := by
    rw [skipSpace_append _ (head_word hw), List.takeWhile_eq_self_iff.mpr hgap, List.length_append]
  have hstart : (pre ++ (gap ++ (w ++ z))).getD (pre ++ gap).length 0 ≠ 0 := by
    rw [hsplit, getD_append_length]
    obtain ⟨c, w, rfl⟩ := List.exists_cons_of_ne_nil hw.1
    exact fun h => h0 (h ▸ List.mem_cons_self)
  have hend : wordEnd (pre ++ (gap ++ (w ++ z))) (pre ++ gap).length = ((pre ++ gap) ++ w).length := by
    have hin : ∀ c ∈ w, decide (c ≠ 0 ∧ isspace c = false) = true :=
      fun c hc => decide_eq_true ⟨fun h => h0 (h ▸ hc), hw.2 c hc⟩
    have hout : ∀ c ∈ z.head?, decide (c ≠ 0 ∧ isspace c = false) = false := fun c hc => by simp [hz c hc]
    rw [hsplit, wordEnd, List.drop_left, takeWhile_part hin hout, ← List.length_append]
  have hisEnd : (pre ++ (gap ++ (w ++ z))).getD ((pre ++ gap) ++ w).length 0 = 0 ↔ z = [] := by
    rw [hsplit, ← List.append_assoc, getD_append_length]
    cases z with
    | nil => exact iff_of_true rfl rfl
    | cons c z =>
      refine iff_of_false (fun h => ?_) (List.cons_ne_nil c z)
      have hzero : c = 0 := h
      exact absurd (hz c rfl) (by rw [hzero]; decide)
  have hset : (pre ++ (gap ++ (w ++ z))).set ((pre ++ gap) ++ w).length 0 = pre ++ (gap ++ (w ++ z.set 0 0)) := by
    rw [hsplit, hsplit, ← List.append_assoc, List.set_append_right _ _ (Nat.le_refl _), Nat.sub_self, List.append_assoc]
  have hword : stringAt (pre ++ (gap ++ (w ++ z.set 0 0))) (pre ++ gap).length = w := by
    rw [hsplit]
    refine stringAt_append _ h0 fun c hc => ?_
    cases z with
    | nil => cases hc
    | cons d z => exact (Option.some.inj hc).symm
  constructor
  · intro err hpush
    rw [cutWords]
    simp only [hskip, if_neg hstart, hend, hset, hword, hpush]
  · intro hpush
    rw [cutWords]
    simp only [hskip, if_neg hstart, hend, hset, hword, hpush, hisEnd, decide_eq_true_eq, hlength]

/-- What the loop makes of a text, where there are the arguments `ws'` already. -/
structure CutsWords (argvLen : ℕ) (ws' : List (List UInt8)) (text : List UInt8) (res : Except Error Unit)
    (args' : ArgVector) (text' : List UInt8) : Prop where
  returns : res = if argvLen < ws'.length + (words text).length then .error .full else .ok ()
  arguments : Pushed args' (ws' ++ (words text).take (argvLen - ws'.length))
  argbuf : args'.argbuf.length ≤ (strings ws').length + text.length + 1
  cut : IsCut (argvLen - ws'.length + 1) text text'

theorem push_ok (h : Pushed args ws') (hlt : ws'.length < argvLen) (hroom : (strings ws').length < argbufLen)
    (w : List UInt8) :
    ∃ args', args.pushToArgv argvLen argbufLen w = (.ok (), args') ∧ Pushed args' (ws' ++ [w]) := by
  refine ⟨_, if_neg ?_, h.push w⟩
  rw [h.argc, h.argbuf]
  omega

theorem push_full (h : Pushed args ws') (hfull : ws'.length = argvLen) (w : List UInt8) :
    args.pushToArgv argvLen argbufLen w = (.error .full, args) :=
  if_pos (.inl (Nat.le_of_eq (hfull.symm.trans h.argc.symm)))

theorem CutsWords.blank (hgap : ∀ c ∈ gap, isspace c = true) (h : Pushed args ws') (hle : ws'.length ≤ argvLen) :
    CutsWords argvLen ws' gap (.ok ()) args gap := by
  have hwords : words gap = [] := (Spaced.blank hgap).words_eq
  have hno : ∀ k, ¬ EndsWord gap k := fun k => by
    simpa using not_endsWord (w := []) (k := k) hgap fun _ hc => absurd hc List.not_mem_nil
  constructor
  · rw [hwords, if_neg (by simpa using hle)]
  · rwa [hwords, List.take_nil, List.append_nil]
  · rw [h.argbuf]
    omega
  · exact isCut_of_not fun k hk => hno k hk.1

/-- A word for which there is no room. -/
theorem CutsWords.full (hgap : ∀ c ∈ gap, isspace c = true) (hw : IsWord w) (hz : ∀ c ∈ z.head?, isspace c = true)
    (h : Pushed args ws') (hfull : ws'.length = argvLen) :
    CutsWords argvLen ws' (gap ++ (w ++ z)) (.error .full) args (gap ++ (w ++ z.set 0 0)) := by
  have hcount : 0 < (words (gap ++ (w ++ z))).length := by
    cases z with
    | nil => rw [List.append_nil, (Spaced.last hgap hw).words_eq]; exact Nat.one_pos
    | cons c z => rw [words_blank hgap, words_cons hw (hz c rfl)]; exact Nat.succ_pos _
  constructor
  · rw [if_pos (by omega)]
  · rwa [hfull, Nat.sub_self, List.take_zero, List.append_nil]
  · rw [h.argbuf]
    omega
  · rw [hfull, Nat.sub_self, ← List.append_assoc, ← List.append_assoc]
    cases z with
    | nil =>
      rw [List.set_nil, List.append_nil]
      exact isCut_of_not fun k hk => not_endsWord hgap hw.2 hk.1
    | cons c z => exact (isCut_zero z).cons hgap hw (hz c rfl)

theorem CutsWords.last (hgap : ∀ c ∈ gap, isspace c = true) (hw : IsWord w) (h : Pushed args' (ws' ++ [w]))
    (hlt : ws'.length < argvLen) : CutsWords argvLen ws' (gap ++ w) (.ok ()) args' (gap ++ w) := by
  have hwords : words (gap ++ w) = [w] := (Spaced.last hgap hw).words_eq
  have htake : [w].take (argvLen - ws'.length) = [w] := List.take_of_length_le (by simp; omega)
  constructor
  · rw [hwords, if_neg (by simp; omega)]
  · rwa [hwords, htake]
  · rw [h.argbuf, strings_append, strings_cons]
    simp [strings]
    omega
  · exact isCut_of_not fun k hk => not_endsWord hgap hw.2 hk.1

/-- A word, and what is done behind it. -/
theorem CutsWords.cons {res : Except Error Unit} (hgap : ∀ c ∈ gap, isspace c = true) (hw : IsWord w)
    (hc : isspace c = true) (hlt : ws'.length < argvLen) (h : CutsWords argvLen (ws' ++ [w]) rest res args' text') :
    CutsWords argvLen ws' (gap ++ (w ++ c :: rest)) res args' (gap ++ (w ++ 0 :: text')) := by
  have hwords : words (gap ++ (w ++ c :: rest)) = w :: words rest := by rw [words_blank hgap, words_cons hw hc]
  have hlength : (ws' ++ [w]).length = ws'.length + 1 := by simp
  have hfree : argvLen - ws'.length = argvLen - (ws'.length + 1) + 1 := by omega
  obtain ⟨hreturns, harguments, hargbuf, hcut⟩ := h
  rw [hlength] at hreturns harguments hcut
  constructor
  · rw [hreturns, hwords, List.length_cons, Nat.add_assoc, Nat.add_comm 1]
  · rw [hwords, hfree, List.take_succ_cons]
    rwa [List.append_assoc] at harguments
  · rw [strings_append, strings_cons] at hargbuf
    simp only [List.length_append, List.length_cons] at hargbuf ⊢
    simp [strings] at hargbuf ⊢
    omega
  · rw [← hfree] at hcut
    rw [← List.append_assoc, ← List.append_assoc]
    exact hcut.cons hgap hw hc

/-- **The loop**, in the text and for the rest of it. -/
theorem cutWords_spaced (h : Spaced text ws) (h0 : 0 ∉ text) (hargs : Pushed args ws') (hle : ws'.length ≤ argvLen)
    (hroom : (strings ws').length + text.length < argbufLen) (hfuel : text.length < fuel) (pre : List UInt8) :
    ∃ res args' text', args.cutWords argvLen argbufLen fuel (pre ++ text) pre.length = (res, args', pre ++ text') ∧
      args.pushWords argvLen argbufLen fuel text = (res, args') ∧ CutsWords argvLen ws' text res args' text' := by
  induction h generalizing args ws' fuel pre with
  | blank hgap => exact ⟨_, _, _, cutWords_blank hgap, pushWords_blank hgap, .blank hgap hargs hle⟩
  | @last gap w hgap hw =>
    obtain ⟨fuel, rfl⟩ := Nat.exists_eq_add_of_le' (Nat.zero_lt_of_lt hfuel)
    have h0' : 0 ∉ w := fun h => h0 (List.mem_append_right _ h)
    have hz : ∀ c ∈ ([] : List UInt8).head?, isspace c = true := fun _ hc => absurd hc (Option.not_mem_none _)
    rw [← List.append_nil w]
    rcases Nat.lt_or_eq_of_le hle with hlt | hfull
    · obtain ⟨args', hpush, hargs'⟩ := push_ok hargs hlt (Nat.lt_of_le_of_lt (Nat.le_add_right ..) hroom) w
      refine ⟨.ok (), args', gap ++ (w ++ []), ?_, ?_, ?_⟩
      · rw [(cutWords_word hgap hw h0' hz).2 hpush, if_pos rfl, List.set_nil]
      · rw [(pushWords_word hgap hw hz).2 hpush]
        exact pushWords_blank fun _ hc => absurd hc List.not_mem_nil
      · rw [List.append_nil]
        exact .last hgap hw hargs' hlt
    · have hpush : args.pushToArgv argvLen argbufLen w = (.error .full, args) := push_full hargs hfull w
      exact ⟨_, _, _, (cutWords_word hgap hw h0' hz).1 _ hpush, (pushWords_word hgap hw hz).1 _ hpush,
        .full hgap hw hz hargs hfull⟩
  | @cons gap w rest c ws hgap hw hc hrest ih =>
    obtain ⟨fuel, rfl⟩ := Nat.exists_eq_add_of_le' (Nat.zero_lt_of_lt hfuel)
    have h0' : 0 ∉ w := fun h => h0 (List.mem_append_right _ (List.mem_append_left _ h))
    have h0rest : 0 ∉ rest := fun h => h0 (List.mem_append_right _ (List.mem_append_right _ (List.mem_cons_of_mem _ h)))
    have hz : ∀ d ∈ (c :: rest).head?, isspace d = true := fun d hd => Option.some.inj hd ▸ hc
    rcases Nat.lt_or_eq_of_le hle with hlt | hfull
    · obtain ⟨args', hpush, hargs'⟩ := push_ok hargs hlt (Nat.lt_of_le_of_lt (Nat.le_add_right ..) hroom) w
      have hroom' : (strings (ws' ++ [w])).length + rest.length < argbufLen := by
        rw [strings_append, strings_cons]
        simp only [List.length_append, List.length_cons] at hroom ⊢
        simp [strings] at hroom ⊢
        omega
      have hfuel' : rest.length < fuel := by
        simp only [List.length_append, List.length_cons] at hfuel
        omega
      obtain ⟨res, args'', text', hcut, hwords, hdone⟩ :=
        ih h0rest hargs' (by simpa using hlt) hroom' hfuel' (pre ++ (gap ++ (w ++ [0])))
      refine ⟨res, args'', gap ++ (w ++ 0 :: text'), ?_, ?_, hdone.cons hgap hw hc hlt⟩
      · rw [(cutWords_word hgap hw h0' hz).2 hpush, if_neg (List.cons_ne_nil c rest)]
        simpa [Nat.add_assoc] using hcut
      · rw [(pushWords_word hgap hw hz).2 hpush]
        exact hwords
    · have hpush : args.pushToArgv argvLen argbufLen w = (.error .full, args) := push_full hargs hfull w
      exact ⟨_, _, _, (cutWords_word hgap hw h0' hz).1 _ hpush, (pushWords_word hgap hw hz).1 _ hpush,
        .full hgap hw hz hargs hfull⟩

end ArgVector

open ArgVector

/-- What `MakeArgVector` makes of a command and a text. -/
structure Splits (command text : List UInt8) (res : Except Error Unit) (args : ArgVector) (text' : List UInt8) :
    Prop where
  fits : (words text).length ≤ 31 → res = .ok () ∧ IsArgVector args (command :: words text)
  full : 31 < (words text).length → res = .error .full ∧ IsArgVector args (command :: (words text).take 31)
  argv : args.argv.length ≤ argvLen
  argbuf : args.argbuf.length ≤ argbufLen
  cut : IsCut argvLen text text'

variable {command : CString} {firstArg : Option CString}

/-- A call is that of `makeArgVector`, and the loop over the text. -/
theorem inPlace_cutsWords (h : command.bytes.length + (firstArg.elim [] CString.bytes).length ≤ kLineMax - 1) :
    ∃ res args text', makeArgVectorInPlace command firstArg argvLen argbufLen = (res, args, text') ∧
      makeArgVector command firstArg argvLen argbufLen = (res, args) ∧
      CutsWords argvLen [command.bytes] (firstArg.elim [] CString.bytes) res args text' := by
  have hempty : Pushed ⟨[], []⟩ [] := ⟨rfl, rfl, fun _ hi => absurd hi (Nat.not_lt_zero _)⟩
  have hstrings : (strings [command.bytes]).length = command.bytes.length + 1 := by simp [strings]
  have hroom : kLineMax - 1 + 1 < argbufLen := by decide
  have hle : [command.bytes].length ≤ argvLen := (by decide : 1 ≤ argvLen)
  obtain ⟨args, hpush, hargs⟩ : ∃ args, pushToArgv argvLen argbufLen ⟨[], []⟩ command.bytes = (.ok (), args) ∧
      Pushed args [command.bytes] :=
    push_ok hempty (by decide) (by decide) command.bytes
  cases firstArg with
  | none =>
    refine ⟨.ok (), args, [], ?_, ?_, .blank (fun _ hc => absurd hc List.not_mem_nil) hargs hle⟩
    · rw [makeArgVectorInPlace, hpush]
      rfl
    · rw [makeArgVector, hpush]
  | some p =>
    have hsum : command.bytes.length + p.bytes.length ≤ kLineMax - 1 := h
    have hroom' : (strings [command.bytes]).length + p.bytes.length < argbufLen := by
      rw [hstrings]
      omega
    obtain ⟨res, args', text', hcut, hwords, hdone⟩ :=
      cutWords_spaced (spaced_words p.bytes) p.nonzero hargs hle hroom' (Nat.lt_succ_self _) []
    refine ⟨res, args', text', ?_, ?_, hdone⟩
    · rw [makeArgVectorInPlace, hpush]
      exact hcut
    · rw [makeArgVector, hpush]
      exact hwords

/-- The text does not make a difference to what is returned. -/
theorem inPlace_eq (h : command.bytes.length + (firstArg.elim [] CString.bytes).length ≤ kLineMax - 1) :
    ((makeArgVectorInPlace command firstArg argvLen argbufLen).1,
    (makeArgVectorInPlace command firstArg argvLen argbufLen).2.1) =
      makeArgVector command firstArg argvLen argbufLen := by
  obtain ⟨res, args, text', hplace, hvector, -⟩ := inPlace_cutsWords h
  rw [hplace, hvector]

/-- **The arguments** are the command and the words of the text, and the blank behind each word is overwritten. -/
theorem makeArgVector_splits (h : command.bytes.length + (firstArg.elim [] CString.bytes).length ≤ kLineMax - 1) :
    ∃ res args text', makeArgVectorInPlace command firstArg argvLen argbufLen = (res, args, text') ∧
      Splits command.bytes (firstArg.elim [] CString.bytes) res args text' := by
  obtain ⟨res, args, text', hplace, -, hcuts⟩ := inPlace_cutsWords h
  obtain ⟨hreturns, harguments, hargbuf, hcut⟩ := hcuts
  have hnonzero : 0 ∉ firstArg.elim [] CString.bytes := by
    cases firstArg with
    | none => exact List.not_mem_nil
    | some p => exact p.nonzero
  have hwords : ∀ w ∈ command.bytes :: words (firstArg.elim [] CString.bytes), 0 ∉ w := by
    intro w hw
    rcases List.mem_cons.mp hw with rfl | hw
    · exact command.nonzero
    · exact fun h0 => hnonzero ((spaced_words _).subset w hw h0)
  have hsize : argvLen = 32 := rfl
  have hlength : [command.bytes].length = 1 := rfl
  rw [hlength] at hreturns
  refine ⟨res, args, text', hplace, ?_, ?_, ?_, ?_, hcut⟩
  · intro hle
    rw [if_neg (by omega)] at hreturns
    rw [List.take_of_length_le (by rw [hlength]; omega)] at harguments
    exact ⟨hreturns, harguments.isArgVector hwords⟩
  · intro hlt
    rw [if_pos (by omega)] at hreturns
    exact ⟨hreturns, harguments.isArgVector fun w hw => hwords w (((List.take_sublist _ _).cons_cons _).subset hw)⟩
  · rw [harguments.argc, List.length_append, List.length_take]
    omega
  · have hbound : (strings [command.bytes]).length = command.bytes.length + 1 := by simp [strings]
    have hline : kLineMax - 1 + 2 ≤ argbufLen := by decide
    omega

/-- The command `x`. -/
def oneLetter : CString := ⟨[120], by decide, by decide⟩

/-- The text `b c`. -/
def twoLetters : CString := ⟨[98, 32, 99], by decide, by decide⟩

theorem makeArgVector_splits_twoLetters : ∃ res args text',
    makeArgVectorInPlace oneLetter (some twoLetters) argvLen argbufLen = (res, args, text') ∧
      Splits [120] [98, 32, 99] res args text' :=
  makeArgVector_splits (by decide)

/-- The blank of `b c` is overwritten. -/
theorem not_text_kept : oneLetter.bytes.length + twoLetters.bytes.length ≤ kLineMax - 1 ∧
    makeArgVectorInPlace oneLetter (some twoLetters) argvLen argbufLen =
      (.ok (), ⟨[0, 2, 4], [120, 0, 98, 0, 99, 0]⟩, [98, 0, 99]) ∧ [98, 0, 99] ≠ twoLetters.bytes := by
  decide

end DuvuvurKernel
