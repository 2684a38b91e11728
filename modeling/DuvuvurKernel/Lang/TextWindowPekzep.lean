import DuvuvurKernel.Graphics.TextBox
import DuvuvurKernel.Lib.Runs

/-!
# The input method

`lang/textwindowpekzep.cpp`: letters are collected (`non_solidified`), the entries of a
dictionary whose transcription begins with them are offered as candidates, the arrow keys
choose among these, and a space puts the chosen one behind the text (`solidified`).

## The model

A string is the list of its characters before the terminator. The dictionary is any list
of entries. The state is that of the function's `static` variable and of the text box it
draws in; a key that makes it index `candidates` outside of its size has no result. An
`int` is an integer here: no dictionary in memory has as many entries as an `int` counts.
That the layer of the text box is drawn at the end is left out, since it changes neither.

**Results.** A key has a result unless it is a space typed after letters that no entry of
the dictionary begins with (`confirms_iff`). While it has one, the candidates are those of
the letters, the index is one of theirs, the line of candidates has the chosen one, and no
other, in brackets, and the text changes only at its end (`candidates_law`).
-/

namespace DuvuvurKernel

open Lib.Runs

/-- `PekzepChar`, an entry of the dictionary. -/
structure PekzepChar where
  hanzi : List UInt32
  praige : List UInt32
  deriving DecidableEq

/-- `IMEState`. -/
structure IMEState where
  /-- `solidified`. -/
  solidified : List UInt32
  /-- `non_solidified`. -/
  nonSolidified : List UInt32
  /-- `candidate_index`. -/
  candidateIndex : ℤ
  /-- `candidates`. -/
  candidates : List (List UInt32)
  deriving DecidableEq

/-- `startsWith`. -/
def startsWith : List UInt32 → List UInt32 → Bool
  | _, [] => true
  | [], _ :: _ => false
  | c :: haystack, d :: needle => if c ≠ d then false else startsWith haystack needle

/-- `AllGlyphsImplemented`. -/
def allGlyphsImplemented (f : Font) (p : List UInt32) : Bool := p.all f.isGlyphImplemented

namespace IMEState

/-- The variable before the first key. -/
def initial : IMEState := ⟨[], [], 0, []⟩

/-- `ComputeCandidatesAndStore`. -/
def computeCandidatesAndStore (f : Font) (dict : List PekzepChar) (s : IMEState) : IMEState :=
  let s := { s with candidates := [] }
  if s.nonSolidified.isEmpty then s
  else
    let candidates := (dict.filter fun c =>
      startsWith c.praige s.nonSolidified && allGlyphsImplemented f c.hanzi).map PekzepChar.hanzi
    { s with candidates := candidates, candidateIndex := 0 }

/-- `candidates[candidate_index]`, if there is such a candidate. -/
def chosen (s : IMEState) : Option (List UInt32) :=
  if 0 ≤ s.candidateIndex then s.candidates[s.candidateIndex.toNat]? else none

/-- What `Render` puts before the candidate `i`: `<`, `>` or a space. -/
def separator (candidateIndex : ℤ) (i : ℕ) : UInt32 :=
  if i = candidateIndex then 0x3c else if i = candidateIndex + 1 then 0x3e else 0x20

/-- `candidate_display` of `Render`. -/
def candidateDisplay (s : IMEState) : List UInt32 :=
  (s.candidates.zipIdx.flatMap fun c => separator s.candidateIndex c.2 :: c.1) ++
    if s.candidates.length = s.candidateIndex + 1 then [0x3e] else []

end IMEState

/-- `state` and the text box. -/
structure IME where
  state : IMEState
  box : PrivilegedCursoredTextBox

/-- A key, as `InputTextWindowPekzep` is given it. -/
structure Key where
  unicode : UInt32
  modifier : UInt8
  keycode : UInt8

namespace IME

variable (f : Font) (dict : List PekzepChar)

/-- `max_width` of `Render`. -/
def maxWidth (box : PrivilegedCursoredTextBox) : ℤ := (box.innerSize.x - 8).tdiv 8 - 1

/-- What `Render` draws before the candidates: the text, the letters and the cursor. -/
def renderText (s : IMEState) (box : PrivilegedCursoredTextBox) : PrivilegedCursoredTextBox :=
  let box := box.clearTextWindow f
  let maxWidth := maxWidth box
  let box := box.drawTextCursor false
  let inner := PrivilegedCursoredTextBox.inner
  let (solidifiedWidth, s₁) := f.writeUTF32CharVecWithUpperLimit inner box.pixels ⟨4, 6⟩ s.solidified
    (toColor 0) maxWidth
  let (unsolidifiedWidth, s₂) := f.writeUTF32CharVecWithUpperLimit inner s₁ ⟨4 + 8 * solidifiedWidth, 6⟩
    s.nonSolidified (toColor 0xe916c3) (maxWidth - solidifiedWidth)
  { box with pixels := s₂, cursorIndex := solidifiedWidth + unsolidifiedWidth }.drawTextCursor true

/-- `Render`. -/
def render (m : IME) (nonSolidifiedIsUpdated : Bool) : IME :=
  let box := renderText f m.state m.box
  let s := if nonSolidifiedIsUpdated then m.state.computeCandidatesAndStore f dict else m.state
  let pixels := (f.writeUTF32StringWithUpperLimit PrivilegedCursoredTextBox.inner box.pixels ⟨4, 6 + 17 + 2⟩
    s.candidateDisplay (toColor 0) (maxWidth box)).2
  ⟨s, { box with pixels := pixels }⟩

/-- `InputTextWindowPekzep`, for a backspace. -/
def backspace (m : IME) : IME :=
  let m := { m with box := m.box.drawTextCursor false }
  let m :=
    if !m.state.nonSolidified.isEmpty then
      { m with state.nonSolidified := m.state.nonSolidified.dropLast }.render f dict true
    else if !m.state.solidified.isEmpty then
      { m with state.solidified := m.state.solidified.dropLast }.render f dict false
    else m
  { m with box := m.box.drawTextCursor true }

/-- `InputTextWindowPekzep`, for a space. -/
def space (m : IME) : Option IME :=
  if m.state.nonSolidified.isEmpty then
    some { m with state.solidified := m.state.solidified ++ [0x20] }
  else do
    let newStr ← m.state.chosen
    return { m with state.solidified := m.state.solidified ++ newStr, state.nonSolidified := [] }.render f dict true

/-- `InputTextWindowPekzep`. -/
def input (f : Font) (dict : List PekzepChar) (m : IME) (k : Key) : Option IME :=
  if k.keycode = 79 ∧ !m.state.candidates.isEmpty then
    if m.state.candidateIndex ≠ m.state.candidates.length - 1 then
      some ({ m with state.candidateIndex := m.state.candidateIndex + 1 }.render f dict false)
    else some m
  else if k.keycode = 80 ∧ !m.state.candidates.isEmpty then
    if m.state.candidateIndex ≠ 0 then
      some ({ m with state.candidateIndex := m.state.candidateIndex - 1 }.render f dict false)
    else some m
  else if k.unicode = 0x08 then some (m.backspace f dict)
  else if 0x61 ≤ k.unicode ∧ k.unicode ≤ 0x7a then
    some ({ m with state.nonSolidified := m.state.nonSolidified ++ [k.unicode] }.render f dict true)
  else if k.unicode = 0x20 then m.space f dict
  else some m

end IME

/-! ### Candidates -/

theorem startsWith_iff {haystack needle : List UInt32} : startsWith haystack needle = true ↔ needle <+: haystack := by
  induction needle generalizing haystack with
  | nil => simp [startsWith]
  | cons d needle ih =>
    cases haystack with
    | nil => simp [startsWith]
    | cons c haystack =>
      by_cases hc : c = d
      · subst hc
        simp [startsWith, ih]
      · have hd : d ≠ c := fun h => hc h.symm
        simp [startsWith, hc, List.cons_prefix_cons, hd]

/-- An entry is offered for some letters: its transcription begins with them, and all of its
characters have glyphs. -/
def PekzepChar.Offered (f : Font) (letters : List UInt32) (c : PekzepChar) : Prop :=
  letters <+: c.praige ∧ ∀ u ∈ c.hanzi, f.isGlyphImplemented u

instance (f : Font) (letters : List UInt32) (c : PekzepChar) : Decidable (c.Offered f letters) :=
  inferInstanceAs (Decidable (_ ∧ _))

/-- The candidates for some letters: none for no letters. -/
def matching (f : Font) (dict : List PekzepChar) (letters : List UInt32) : List (List UInt32) :=
  if letters = [] then [] else (dict.filter fun c => c.Offered f letters).map PekzepChar.hanzi

theorem matching_eq_nil_iff {f : Font} {dict : List PekzepChar} {letters : List UInt32} (h : letters ≠ []) :
    matching f dict letters = [] ↔ ¬ ∃ c ∈ dict, c.Offered f letters := by
  simp [matching, h]

/-- The line of candidates with one of them in brackets. -/
def bracketed (before : List (List UInt32)) (chosen : List UInt32) (after : List (List UInt32)) : List UInt32 :=
  before.flatMap (fun c => 0x20 :: c) ++ 0x3c :: chosen ++ 0x3e :: [0x20].intercalate after

namespace IMEState

variable {f : Font} {dict : List PekzepChar} {s : IMEState}

/-- The candidates are those of the letters, and the index is that of a candidate. -/
structure Offers (f : Font) (dict : List PekzepChar) (s : IMEState) : Prop where
  candidates : s.candidates = matching f dict s.nonSolidified
  nonneg : 0 ≤ s.candidateIndex
  lt : s.candidates ≠ [] → s.candidateIndex < s.candidates.length

theorem Offers.initial : Offers f dict initial := ⟨rfl, Int.le_refl 0, fun h => absurd rfl h⟩

theorem compute_candidates (f : Font) (dict : List PekzepChar) (s : IMEState) :
    (s.computeCandidatesAndStore f dict).candidates = matching f dict s.nonSolidified := by
  unfold computeCandidatesAndStore matching
  simp only [List.isEmpty_iff]
  split
  · rfl
  · refine congrArg (List.map PekzepChar.hanzi) (List.filter_congr fun c _ => ?_)
    rw [Bool.eq_iff_iff, decide_eq_true_iff]
    simp [startsWith_iff, allGlyphsImplemented, PekzepChar.Offered]

@[simp] theorem compute_nonSolidified :
    (s.computeCandidatesAndStore f dict).nonSolidified = s.nonSolidified := by
  unfold computeCandidatesAndStore
  dsimp only
  split <;> rfl

@[simp] theorem compute_solidified : (s.computeCandidatesAndStore f dict).solidified = s.solidified := by
  unfold computeCandidatesAndStore
  dsimp only
  split <;> rfl

/-- Recomputing the candidates makes them those of the letters, whatever they were. -/
theorem Offers.compute (h : 0 ≤ s.candidateIndex) : Offers f dict (s.computeCandidatesAndStore f dict) := by
  refine ⟨?_, ?_, ?_⟩
  · rw [compute_candidates, compute_nonSolidified]
  · unfold computeCandidatesAndStore
    dsimp only
    split
    · exact h
    · exact Int.le_refl 0
  · unfold computeCandidatesAndStore
    dsimp only
    split
    · exact fun hne => absurd rfl hne
    · intro hne
      exact Int.ofNat_lt.mpr (List.length_pos_of_ne_nil hne)

theorem Offers.candidates_eq_nil (h : Offers f dict s) (hs : s.nonSolidified = []) : s.candidates = [] := by
  rw [h.candidates, hs]
  rfl

/-- The candidate the index is of. -/
theorem Offers.exists_chosen (h : Offers f dict s) (hne : s.candidates ≠ []) :
    ∃ c, s.chosen = some c := by
  have hlt : s.candidateIndex.toNat < s.candidates.length := by
    have := h.lt hne
    have := h.nonneg
    omega
  exact ⟨_, (if_pos h.nonneg).trans (List.getElem?_eq_getElem hlt)⟩

/-- A stretch of the candidates, all of them before or behind the chosen one and the next. -/
theorem flatMap_separator {i : ℤ} {n : ℕ} {l : List (List UInt32)} (h : n + l.length ≤ i ∨ i + 1 < n) :
    ((l.zipIdx n).flatMap fun c => separator i c.2 :: c.1) = l.flatMap fun c => 0x20 :: c := by
  induction l generalizing n with
  | nil => rfl
  | cons c l ih =>
    have hsep : separator i n = 0x20 := by
      unfold separator
      rw [List.length_cons] at h
      rw [if_neg (by omega), if_neg (by omega)]
    rw [List.zipIdx_cons, List.flatMap_cons, List.flatMap_cons, hsep, ih]
    rw [List.length_cons] at h
    omega

/-- **The line of candidates has the chosen one in brackets.** -/
theorem candidateDisplay_eq {before after : List (List UInt32)} {c : List UInt32}
    (hs : s.candidates = before ++ c :: after) (hi : s.candidateIndex = before.length) :
    s.candidateDisplay = bracketed before c after := by
  have hchosen : separator before.length before.length = 0x3c := if_pos rfl
  have hfront : ((before.zipIdx 0).flatMap fun c => separator before.length c.2 :: c.1) =
      before.flatMap fun c => 0x20 :: c := flatMap_separator (Or.inl (by simp))
  unfold candidateDisplay bracketed
  rw [hs, hi, List.zipIdx_append, List.flatMap_append, hfront, Nat.zero_add, List.zipIdx_cons, List.flatMap_cons,
    hchosen]
  cases after with
  | nil => simp [List.intercalate]
  | cons d after =>
    have hnext : separator before.length (before.length + 1) = 0x3e := by
      unfold separator
      rw [if_neg (by omega), if_pos (by omega)]
    have hrest : ((after.zipIdx (before.length + 1 + 1)).flatMap fun c => separator before.length c.2 :: c.1) =
        after.flatMap fun c => 0x20 :: c := flatMap_separator (Or.inr (by omega))
    have hjoin : [0x20].intercalate (d :: after) = d ++ after.flatMap fun c => (0x20 : UInt32) :: c := by
      clear hrest hs
      induction after generalizing d with
      | nil => simp [List.intercalate]
      | cons e after ih => rw [List.intercalate_cons_cons, ih, List.flatMap_cons]; simp
    rw [List.zipIdx_cons, List.flatMap_cons, hnext, hrest, hjoin, if_neg]
    · simp
    · simp only [List.length_append, List.length_cons]
      omega

end IMEState

/-! ### Keys -/

namespace IME

variable {f : Font} {dict : List PekzepChar} {m m' : IME} {k : Key} {keys : List Key}

@[simp] theorem render_state (m : IME) (updated : Bool) : (m.render f dict updated).state =
    if updated then m.state.computeCandidatesAndStore f dict else m.state := rfl

/-- What a key does. -/
inductive Reacts (f : Font) (dict : List PekzepChar) (m : IME) (k : Key) : IME → Prop where
  /-- Nothing. -/
  | ignored : Reacts f dict m k m
  /-- It chooses another candidate. -/
  | choose (i : ℤ) : 0 ≤ i → i < m.state.candidates.length →
      Reacts f dict m k ({ m with state.candidateIndex := i }.render f dict false)
  /-- It erases a letter. -/
  | eraseLetter : m.state.nonSolidified ≠ [] → Reacts f dict m k (m.backspace f dict)
  /-- It erases a character of the text. -/
  | eraseText : m.state.nonSolidified = [] → m.state.solidified ≠ [] → Reacts f dict m k (m.backspace f dict)
  /-- There is nothing to erase. -/
  | nothingToErase : m.state.nonSolidified = [] → m.state.solidified = [] → Reacts f dict m k (m.backspace f dict)
  /-- It is a letter. -/
  | letter : Reacts f dict m k
      ({ m with state.nonSolidified := m.state.nonSolidified ++ [k.unicode] }.render f dict true)
  /-- It is a space in the text. -/
  | space : k.unicode = 0x20 → m.state.nonSolidified = [] →
      Reacts f dict m k { m with state.solidified := m.state.solidified ++ [0x20] }
  /-- It puts the chosen candidate behind the text. -/
  | confirm (c : List UInt32) : m.state.nonSolidified ≠ [] →
      m.state.chosen = some c →
      Reacts f dict m k ({ m with state.solidified := m.state.solidified ++ c, state.nonSolidified := [] }.render
        f dict true)

theorem reacts_backspace (m : IME) (k : Key) : Reacts f dict m k (m.backspace f dict) := by
  by_cases hn : m.state.nonSolidified = []
  · by_cases hs : m.state.solidified = []
    · exact .nothingToErase hn hs
    · exact .eraseText hn hs
  · exact .eraseLetter hn

theorem reacts_space (hk : k.unicode = 0x20) (h : m.space f dict = some m') : Reacts f dict m k m' := by
  unfold space at h
  simp only [List.isEmpty_iff] at h
  split at h
  next hn =>
    cases h
    exact .space hk hn
  next hn =>
    obtain ⟨c, hc, h⟩ := Option.bind_eq_some_iff.mp h
    cases h
    exact .confirm c hn hc

/-- **What a key with a result does.** -/
theorem reacts (h : m.state.Offers f dict) (hm : m.input f dict k = some m') : Reacts f dict m k m' := by
  unfold input at hm
  split at hm
  next hright =>
    have hlt := h.lt (by simpa using hright.2)
    have hnonneg := h.nonneg
    split at hm
    · cases hm
      exact .choose (m.state.candidateIndex + 1) (by omega) (by omega)
    · cases hm
      exact .ignored
  next =>
    split at hm
    next hleft =>
      have hlt := h.lt (by simpa using hleft.2)
      have hnonneg := h.nonneg
      split at hm
      · cases hm
        exact .choose (m.state.candidateIndex - 1) (by omega) (by omega)
      · cases hm
        exact .ignored
    next =>
      split at hm
      · cases hm
        exact reacts_backspace m k
      · split at hm
        · cases hm
          exact .letter
        · split at hm
          next hk => exact reacts_space hk hm
          next =>
            cases hm
            exact .ignored

theorem backspace_state (m : IME) : (m.backspace f dict).state =
    if m.state.nonSolidified ≠ [] then
      { m.state with nonSolidified := m.state.nonSolidified.dropLast }.computeCandidatesAndStore f dict
    else { m.state with solidified := m.state.solidified.dropLast } := by
  unfold backspace
  simp only [Bool.not_eq_true', List.isEmpty_eq_false_iff]
  by_cases hn : m.state.nonSolidified = []
  · rw [if_neg (not_not_intro hn), if_neg (not_not_intro hn)]
    by_cases hs : m.state.solidified = []
    · rw [if_neg (not_not_intro hs), hs, List.dropLast_nil, ← hs]
    · rw [if_pos hs]
      rfl
  · rw [if_pos hn, if_pos hn]
    rfl

/-- A key keeps the candidates those of the letters, and the index one of theirs. -/
theorem offers_input (h : m.state.Offers f dict) (hm : m.input f dict k = some m') : m'.state.Offers f dict := by
  cases reacts h hm with
  | ignored => exact h
  | choose i h0 hi => exact ⟨h.candidates, h0, fun _ => hi⟩
  | eraseLetter hn =>
    rw [backspace_state, if_pos hn]
    exact .compute h.nonneg
  | eraseText hn hs =>
    rw [backspace_state, if_neg (by simpa using hn)]
    exact ⟨h.candidates, h.nonneg, h.lt⟩
  | nothingToErase hn hs =>
    rw [backspace_state, if_neg (by simpa using hn)]
    exact ⟨h.candidates, h.nonneg, h.lt⟩
  | letter => exact .compute h.nonneg
  | space hk hn => exact ⟨h.candidates, h.nonneg, h.lt⟩
  | confirm c hn hc =>
    exact .compute (s := { m.state with solidified := m.state.solidified ++ c, nonSolidified := [] }) h.nonneg

/-- A key changes the text at its end only: by the chosen candidate, a space, or one character less. -/
def TextChange (s s' : IMEState) : Prop :=
  s'.solidified = s.solidified ∨ s'.solidified = s.solidified ++ [0x20] ∨ s'.solidified = s.solidified.dropLast ∨
    ∃ c, s.chosen = some c ∧ s'.solidified = s.solidified ++ c

theorem textChange_input (h : m.state.Offers f dict) (hm : m.input f dict k = some m') :
    TextChange m.state m'.state := by
  cases reacts h hm with
  | ignored => exact .inl rfl
  | choose i h0 hi => exact .inl rfl
  | eraseLetter hn =>
    rw [backspace_state, if_pos hn]
    exact .inl (by simp)
  | eraseText hn hs =>
    rw [backspace_state, if_neg (by simpa using hn)]
    exact .inr (.inr (.inl rfl))
  | nothingToErase hn hs =>
    rw [backspace_state, if_neg (by simpa using hn)]
    exact .inr (.inr (.inl rfl))
  | letter => exact .inl (by simp)
  | space hk hn => exact .inr (.inl rfl)
  | confirm c hn hc => exact .inr (.inr (.inr ⟨c, hc, by simp⟩))

/-- A space that confirms finds a candidate. -/
def ConfirmsNonempty (m : IME) (k : Key) : Prop :=
  k.unicode = 0x20 → m.state.nonSolidified ≠ [] → m.state.candidates ≠ []

/-- A space that confirms is typed after letters some entry of the dictionary is offered for. -/
def Matched (f : Font) (dict : List PekzepChar) (m : IME) (k : Key) : Prop :=
  k.unicode = 0x20 → m.state.nonSolidified ≠ [] → ∃ c ∈ dict, c.Offered f m.state.nonSolidified

theorem confirmsNonempty_iff (h : m.state.Offers f dict) : m.ConfirmsNonempty k ↔ m.Matched f dict k := by
  unfold ConfirmsNonempty Matched
  refine imp_congr_right fun _ => imp_congr_right fun hn => ?_
  rw [h.candidates, ne_eq, matching_eq_nil_iff hn, not_not]

/-- **When a key has a result.** -/
theorem input_isSome (h : m.state.Offers f dict) : (∃ m', m.input f dict k = some m') ↔ m.ConfirmsNonempty k := by
  constructor
  · rintro ⟨m', hm⟩ hk hn hc
    have hchosen : m.state.chosen = none := by simp [IMEState.chosen, hc]
    simp [input, space, hk, hn, hc, hchosen] at hm
  · intro hconfirm
    unfold input
    split
    next =>
      split
      all_goals exact ⟨_, rfl⟩
    next =>
      split
      next =>
        split
        all_goals exact ⟨_, rfl⟩
      next =>
        split
        · exact ⟨_, rfl⟩
        · split
          · exact ⟨_, rfl⟩
          · split
            next hk =>
              unfold space
              simp only [List.isEmpty_iff]
              split
              · exact ⟨_, rfl⟩
              next hn =>
                obtain ⟨c, hc⟩ := h.exists_chosen (hconfirm hk hn)
                rw [hc]
                exact ⟨_, rfl⟩
            next => exact ⟨_, rfl⟩

/-- Keys have a result when each of them has. -/
theorem run_defined (h : m.state.Offers f dict) (keys : List Key) :
    (∃ m', run (input f dict) m keys = some m') ↔ Along (input f dict) ConfirmsNonempty m keys :=
  run_isSome.trans (Along.congr (fun _ _ ho => input_isSome ho) (fun _ _ _ ho _ hm => offers_input ho hm) h)

/-- **The candidate a space confirms exists** exactly when the letters before it are those some entry of
the dictionary begins with. -/
theorem confirms_iff (f : Font) (dict : List PekzepChar) (box : PrivilegedCursoredTextBox) (keys : List Key) :
    (∃ m, run (input f dict) ⟨IMEState.initial, box⟩ keys = some m) ↔
      Along (input f dict) (Matched f dict) ⟨IMEState.initial, box⟩ keys := by
  have hinit : (⟨IMEState.initial, box⟩ : IME).state.Offers f dict := IMEState.Offers.initial
  rw [run_defined hinit]
  exact Along.congr (fun _ _ h => confirmsNonempty_iff h) (fun _ _ _ h _ hm => offers_input h hm) hinit

/-- A dictionary of one entry. -/
def oneEntry : List PekzepChar := [⟨[0x6211], [0x70, 0x72, 0x61, 0x69]⟩]

/-- A key that types a character. -/
def typed (u : UInt32) : Key := ⟨u, 0, 0⟩

/-- A font with one glyph. -/
def oneGlyph : Font := ⟨⟨[], ⟨0, fun _ => 0⟩⟩, ⟨[⟨0x6211, fun _ => 0⟩], ⟨0, fun _ => 0⟩⟩, none⟩

/-- A box with nothing drawn in it. -/
def blankBox : PrivilegedCursoredTextBox := ⟨⟨368, 70⟩, [], fun _ => ⟨0, 0, 0⟩, 0, 18⟩

/-- A space after letters that no entry begins with indexes an empty list. -/
theorem space_without_candidates :
    ∃ (f : Font) (dict : List PekzepChar) (box : PrivilegedCursoredTextBox) (keys : List Key) (m : IME) (k : Key),
      run (input f dict) ⟨IMEState.initial, box⟩ keys = some m ∧ k.unicode = 0x20 ∧ m.state.nonSolidified ≠ [] ∧
      m.state.candidates = [] ∧ m.input f dict k = none :=
  ⟨oneGlyph, oneEntry, blankBox, [typed 0x71], _, typed 0x20, rfl, rfl, by decide, rfl, rfl⟩

/-- **The candidates at every moment**: those of the letters, the chosen one in brackets, the text
changed at its end. -/
theorem candidates_law (f : Font) (dict : List PekzepChar) (box : PrivilegedCursoredTextBox) (keys : List Key)
    (h : Along (input f dict) ConfirmsNonempty ⟨IMEState.initial, box⟩ keys) :
    ∃ m, run (input f dict) ⟨IMEState.initial, box⟩ keys = some m ∧
      m.state.candidates = matching f dict m.state.nonSolidified ∧
      (m.state.candidates ≠ [] → 0 ≤ m.state.candidateIndex ∧ m.state.candidateIndex < m.state.candidates.length) ∧
      (∀ before c after, m.state.candidates = before ++ c :: after → m.state.candidateIndex = before.length →
        m.state.candidateDisplay = bracketed before c after) ∧
      ∀ k m', m.input f dict k = some m' → TextChange m.state m'.state := by
  have hinit : (⟨IMEState.initial, box⟩ : IME).state.Offers f dict := IMEState.Offers.initial
  obtain ⟨m, hm⟩ := (run_defined hinit keys).mpr h
  have hoffers := run_invariant _ (fun _ _ _ ho hk => offers_input ho hk) hinit hm
  refine ⟨m, hm, hoffers.candidates, fun hne => ⟨hoffers.nonneg, hoffers.lt hne⟩, ?_, ?_⟩
  · exact fun _ _ _ hs hi => IMEState.candidateDisplay_eq hs hi
  · exact fun _ _ hk => textChange_input hoffers hk

/-- A letter, a space that confirms, and what is offered on the way. -/
theorem candidates_law_prai : ∃ m, run (input oneGlyph oneEntry) ⟨IMEState.initial, blankBox⟩ [typed 0x70, typed 0x20] =
    some m ∧
    m.state.candidates = matching oneGlyph oneEntry m.state.nonSolidified := by
  have hletter : ∀ m', input oneGlyph oneEntry ⟨IMEState.initial, blankBox⟩ (typed 0x70) = some m' →
      m'.state = ⟨[], [0x70], 0, [[0x6211]]⟩ := by
    rintro m' ⟨⟩
    rfl
  have hconfirms : Along (input oneGlyph oneEntry) ConfirmsNonempty ⟨IMEState.initial, blankBox⟩
      [typed 0x70, typed 0x20] := by
    refine ⟨fun h => absurd h (by decide), fun m' hm => ⟨fun _ _ => ?_, fun _ _ => trivial⟩⟩
    rw [hletter m' hm]
    exact List.cons_ne_nil _ _
  obtain ⟨m, hm, hcandidates, -⟩ := candidates_law oneGlyph oneEntry blankBox _ hconfirms
  exact ⟨m, hm, hcandidates⟩

end IME

end DuvuvurKernel
