import DuvuvurKernel.Terminal.Print

/-!
# Where a string ends

`Print` and `WriteUTF8String` go through a string character by character, by the
number of bytes the first byte of each announces, and look for the zero byte only
between characters. So they meet it exactly when the bytes before it fall into
characters (`Chars`): a continuation byte, or a byte from `0xf8`, is announced as
no bytes at all and stops the loop on the spot for ever, and a character the zero
byte cuts off leads past it.

`Print` with a length reads the byte at the offset it has reached before it compares
the offset with the length. So it reads the byte at the length, unless the zero byte
comes first; and where it may read that byte, it stops there exactly when the bytes
before fall into characters.
-/

namespace DuvuvurKernel

open Lib.Loops

/-- A string without its terminator: no byte of it is zero, and an offset in it is a `size_t`. -/
structure CString where
  /-- The bytes before the terminator. -/
  bytes : List UInt8
  nonzero : 0 ∉ bytes
  fits : bytes.length < 2 ^ 64 - 1

/-- The bytes of a string and its terminator: all of them, or the first `len`. -/
def CString.readable (s : CString) (len : Option ℕ) : List UInt8 :=
  match len with
  | none => s.bytes ++ [0]
  | some len => (s.bytes ++ [0]).take len

/-- Bytes that fall into characters: first bytes, each followed by as many bytes as it announces. -/
inductive Chars : List UInt8 → Prop where
  /-- No character. -/
  | nil : Chars []
  /-- A character, and more. -/
  | cons {c : UInt8} {tail rest : List UInt8} :
      countUTF8Size c = tail.length + 1 → Chars rest → Chars (c :: tail ++ rest)

theorem chars_cons_iff {c : UInt8} {l : List UInt8} :
    Chars (c :: l) ↔ countUTF8Size c ≠ 0 ∧ countUTF8Size c ≤ l.length + 1 ∧
      Chars (l.drop (countUTF8Size c - 1)) := by
  constructor
  · intro h
    generalize hb : c :: l = b at h
    cases h with
    | nil => cases hb
    | @cons c' tail rest hk hrest =>
      rw [List.cons_append, List.cons.injEq] at hb
      obtain ⟨rfl, rfl⟩ := hb
      rw [hk, Nat.add_sub_cancel, List.drop_left, List.length_append]
      exact ⟨by omega, by omega, hrest⟩
  · rintro ⟨h0, hle, h⟩
    have hk : countUTF8Size c = (l.take (countUTF8Size c - 1)).length + 1 := by
      rw [List.length_take]
      omega
    simpa using Chars.cons hk h

/-! ### The loop over a string -/

variable {τ : Type} {limit : ℕ → Bool} {draw : τ → UInt32 → τ} {str : Bytes} {b : List UInt8}
  {i : ℕ} {t : τ} {r : ℕ × τ}

/-- A round at a zero byte or at the limit. -/
theorem stringLoop_done {c : UInt8} (hc : str i = some c) (h : c = 0 ∨ limit i = false) :
    stringLoop limit draw str (i, t) = some (.done (i, t)) := by
  simp [stringLoop, hc, h]

/-- A round at a character whose bytes can all be read. -/
theorem stringLoop_goOn {c : UInt8} (hc : str i = some c) (h0 : c ≠ 0) (hl : limit i = true)
    (hr : ∀ k < countUTF8Size c, (str (i + k)).isSome) :
    ∃ u, stringLoop limit draw str (i, t) = some (.goOn (i + countUTF8Size c, draw t u)) := by
  obtain ⟨u, hu⟩ := convertUTF8To32_eq_some (s := str.from i) hc hr
  exact ⟨u, by simp [stringLoop, hc, h0, hl, hu]⟩

/-- What a last round has read. -/
theorem eq_of_stringLoop_done (h : stringLoop limit draw str (i, t) = some (.done r)) :
    r = (i, t) ∧ ∃ c, str i = some c ∧ (c = 0 ∨ limit i = false) := by
  obtain ⟨c, hc, h⟩ := Option.bind_eq_some_iff.mp h
  split at h
  next hs =>
    cases h
    exact ⟨rfl, c, hc, hs⟩
  next =>
    obtain ⟨x, -, hx⟩ := Option.bind_eq_some_iff.mp h
    cases hx

/-- What a round that is not the last has read. -/
theorem eq_of_stringLoop_goOn {s' : ℕ × τ} (h : stringLoop limit draw str (i, t) = some (.goOn s')) :
    ∃ c, str i = some c ∧ c ≠ 0 ∧ limit i = true ∧ s'.1 = i + countUTF8Size c := by
  obtain ⟨c, hc, h⟩ := Option.bind_eq_some_iff.mp h
  split at h
  next => cases h
  next hs =>
    obtain ⟨x, hx, hg⟩ := Option.bind_eq_some_iff.mp h
    cases hg
    simp only [not_or, Bool.not_eq_false] at hs
    exact ⟨c, hc, hs.1, hs.2, by rw [convertUTF8To32_size (s := str.from i) hc hx]⟩

/-- The loop stops where it can read a zero byte or is at the limit, and not before it starts. -/
theorem stop_of_returns {s : ℕ × τ} (h : Returns (stringLoop limit draw str) s r) :
    s.1 ≤ r.1 ∧ ∃ c, str r.1 = some c ∧ (c = 0 ∨ limit r.1 = false) := by
  induction h with
  | done hd =>
    obtain ⟨rfl, hs⟩ := eq_of_stringLoop_done hd
    exact ⟨Nat.le_refl _, hs⟩
  | goOn hg _ ih =>
    obtain ⟨c, -, -, -, hi⟩ := eq_of_stringLoop_goOn hg
    exact ⟨Nat.le_trans (hi ▸ Nat.le_add_right _ _) ih.1, ih.2⟩

/-- The rest of a list from one of its elements on, past a first part of it. -/
theorem drop_eq_cons_append {k : ℕ} {c : UInt8} (hc : b[i]? = some c) (hk : i + k ≤ b.length) (h : 0 < k) :
    ∃ tail, tail.length + 1 = k ∧ b.drop i = c :: tail ++ b.drop (i + k) := by
  obtain ⟨k, rfl⟩ := Nat.exists_eq_add_of_le' h
  obtain ⟨hi, rfl⟩ := List.getElem?_eq_some_iff.mp hc
  refine ⟨(b.drop (i + 1)).take k, ?_, ?_⟩
  · simp only [List.length_take, List.length_drop]
    omega
  · have hdrop : b.drop (i + (k + 1)) = (b.drop (i + 1)).drop k := by
      rw [List.drop_drop, Nat.add_assoc, Nat.add_comm 1 k]
    rw [hdrop, List.cons_append, List.take_append_drop]
    exact List.drop_eq_getElem_cons hi

section

variable (hb : ∀ k < b.length, str k = b[k]?) (h0 : 0 ∉ b) (hl : ∀ k < b.length, limit k = true)

include hb h0 hl

/-- Where the loop stops before the end of `b`, what it has gone through falls into characters. -/
theorem chars_of_returns {s : ℕ × τ} (h : Returns (stringLoop limit draw str) s r) (hr : r.1 ≤ b.length)
    (hs : s.1 ≤ b.length) : Chars (b.drop s.1) := by
  induction h with
  | @done s r hd =>
    obtain ⟨rfl, c, hc, hs'⟩ := eq_of_stringLoop_done hd
    rcases Nat.lt_or_ge s.1 b.length with hlt | hge
    · rw [hb _ hlt] at hc
      rcases hs' with rfl | hs'
      · exact absurd (List.mem_of_getElem? hc) h0
      · rw [hl _ hlt] at hs'
        cases hs'
    · rw [List.drop_eq_nil_of_le hge]
      exact .nil
  | @goOn s s' r hg h' ih =>
    obtain ⟨c, hc, hne, -, hi⟩ := eq_of_stringLoop_goOn hg
    have hle : s.1 + countUTF8Size c ≤ b.length := hi ▸ Nat.le_trans (stop_of_returns h').1 hr
    have hrest := ih hr (hi ▸ hle)
    rw [hi] at hrest
    rcases Nat.eq_zero_or_pos (countUTF8Size c) with hz | hpos
    · simpa [hz] using hrest
    · have hlt : s.1 < b.length := by omega
      rw [hb _ hlt] at hc
      obtain ⟨tail, htail, heq⟩ := drop_eq_cons_append hc hle hpos
      rw [heq]
      exact .cons htail.symm hrest

/-- Where the rest of `b` falls into characters, the loop stops at its end. -/
theorem returns_of_chars {c : UInt8} (hc : str b.length = some c) (hs : c = 0 ∨ limit b.length = false)
    {rest : List UInt8} (h : Chars rest) (hd : b.drop i = rest) (hi : i ≤ b.length) :
    ∃ t', Returns (stringLoop limit draw str) (i, t) (b.length, t') := by
  induction h generalizing i t with
  | nil =>
    obtain rfl : i = b.length := Nat.le_antisymm hi (List.drop_eq_nil_iff.mp hd)
    exact ⟨t, .done (stringLoop_done hc hs)⟩
  | @cons c' tail rest hk _ ih =>
    have hlen : b.length - i = tail.length + 1 + rest.length := by
      rw [← List.length_drop, hd, List.length_append, List.length_cons]
    have hget : b[i]? = some c' := by
      rw [← List.head?_drop, hd]
      rfl
    have hstr : str i = some c' := by rw [hb i (by omega), hget]
    have hne : c' ≠ 0 := by
      rintro rfl
      exact h0 (List.mem_of_getElem? hget)
    have hread : ∀ k < countUTF8Size c', (str (i + k)).isSome := by
      intro k hk'
      rw [hb (i + k) (by omega), List.getElem?_eq_getElem (by omega)]
      rfl
    have hrest : b.drop (i + countUTF8Size c') = rest := by
      rw [← List.drop_drop, hd, hk]
      exact List.drop_left' (by simp)
    obtain ⟨u, hu⟩ := stringLoop_goOn (t := t) hstr hne (hl i (by omega)) hread
    obtain ⟨t', ht'⟩ := ih (t := draw t u) hrest (by omega)
    exact ⟨t', .goOn hu ht'⟩

/-- **The loop over a string**: where the bytes before offset `b.length` are those of `b`, and the
loop can stop there, it stops there if and only if they fall into characters. -/
theorem returns_iff_chars {c : UInt8} (hc : str b.length = some c) (hs : c = 0 ∨ limit b.length = false) :
    (∃ r, Returns (stringLoop limit draw str) (0, t) r ∧ r.1 ≤ b.length) ↔ Chars b := by
  constructor
  · rintro ⟨r, h, hr⟩
    exact chars_of_returns hb h0 hl h hr (Nat.zero_le _)
  · intro h
    obtain ⟨t', ht'⟩ := returns_of_chars hb h0 hl hc hs h List.drop_zero (Nat.zero_le _)
    exact ⟨_, ht', Nat.le_refl _⟩

end

/-! ### `Print` and `WriteUTF8String` -/

namespace CString

/-- `Print` returns, having read `readable` only and gone through no more than the bytes before the
terminator and the length it is given. -/
def PrintStays {σ : Type} (s : CString) (readable : List UInt8) (len : Option ℕ) (w : TerminalWindow σ)
    (f : Font) (t : Terminal σ) : Prop :=
  ∃ i t', t.Print w f (bytesOf readable) len (i, t') ∧ i ≤ s.bytes.length ∧ ∀ l, len = some l → i ≤ l

/-- `WriteUTF8String` returns, having read the string and its terminator only. -/
def WriteStays {σ : Type} (s : CString) (w : PixelWriter σ) (f : Font) (t : σ) (pos : Vector2D)
    (color : PixelColor) : Prop :=
  ∃ i r, f.WriteUTF8String w t pos (bytesOf (s.readable none)) color (i, r) ∧ i ≤ s.bytes.length

variable {σ : Type} (s : CString) (w : TerminalWindow σ) (f : Font) (t : Terminal σ)

theorem readable_none_getElem? {k : ℕ} (hk : k < s.bytes.length) : (s.readable none)[k]? = s.bytes[k]? :=
  List.getElem?_append_left hk

theorem readable_none_terminator : (s.readable none)[s.bytes.length]? = some 0 := by
  simp [readable]

theorem readable_some_getElem? {k len : ℕ} (hk : k < len) :
    (s.readable (some len))[k]? = (s.readable none)[k]? :=
  List.getElem?_take_of_lt hk

theorem lenOrMax_none {k : ℕ} (hk : k ≤ s.bytes.length) : k < Terminal.lenOrMax none :=
  Nat.lt_of_le_of_lt hk s.fits

/-- What `Print` returns is what its loop returns. -/
theorem printStays_iff {readable : List UInt8} {len : Option ℕ} {n : ℕ}
    (hn : ∀ i, i ≤ s.bytes.length ∧ (∀ l, len = some l → i ≤ l) ↔ i ≤ n) :
    s.PrintStays readable len w f t ↔ ∃ r, Returns (stringLoop (fun i => i < Terminal.lenOrMax len)
      (Terminal.printChar w f) (bytesOf readable)) (0, t.drawCursor w false) r ∧ r.1 ≤ n := by
  constructor
  · rintro ⟨i, t', ⟨t₁, h, -⟩, hi⟩
    exact ⟨(i, t₁), h, (hn i).mp hi⟩
  · rintro ⟨⟨i, t₁⟩, h, hi⟩
    exact ⟨i, _, ⟨t₁, h, rfl⟩, (hn i).mpr hi⟩

/-- `Print` without a length. -/
theorem printStays_none : s.PrintStays (s.readable none) none w f t ↔ Chars s.bytes := by
  rw [s.printStays_iff w f t (n := s.bytes.length) (by simp)]
  exact returns_iff_chars (fun k hk => s.readable_none_getElem? hk) s.nonzero
    (fun k hk => by simpa using lenOrMax_none s (Nat.le_of_lt hk)) s.readable_none_terminator (Or.inl rfl)

/-- `Print` with a length, where it may read the bytes below that length. -/
theorem printStays_some (len : ℕ) :
    s.PrintStays (s.readable (some len)) (some len) w f t ↔ Chars s.bytes ∧ s.bytes.length < len := by
  have hstops : s.PrintStays (s.readable (some len)) (some len) w f t → s.bytes.length < len := by
    rintro ⟨i, t', ⟨t₁, h, -⟩, hi, -⟩
    obtain ⟨-, c, hc, hs⟩ := stop_of_returns h
    have hlt : i < len := by
      have := (List.getElem?_eq_some_iff.mp hc).1
      simp only [readable, List.length_take] at this
      omega
    rcases hs with rfl | hs
    · rcases Nat.lt_or_ge i s.bytes.length with hi' | hi'
      · rw [bytesOf, s.readable_some_getElem? hlt, s.readable_none_getElem? hi'] at hc
        exact absurd (List.mem_of_getElem? hc) s.nonzero
      · omega
    · simp [Terminal.lenOrMax, hlt] at hs
  have hiff : s.bytes.length < len → (s.PrintStays (s.readable (some len)) (some len) w f t ↔ Chars s.bytes) := by
    intro hlt
    rw [s.printStays_iff w f t (n := s.bytes.length) (by grind)]
    exact returns_iff_chars
      (fun k hk => (s.readable_some_getElem? (Nat.lt_trans hk hlt)).trans (s.readable_none_getElem? hk)) s.nonzero
      (fun k hk => decide_eq_true (Nat.lt_trans hk hlt : k < Terminal.lenOrMax (some len)))
      ((s.readable_some_getElem? hlt).trans s.readable_none_terminator) (Or.inl rfl)
  constructor
  · intro h
    exact ⟨(hiff (hstops h)).mp h, hstops h⟩
  · rintro ⟨h, hlt⟩
    exact (hiff hlt).mpr h

/-- `Print` with a length, where it may also read the byte at that length. -/
theorem printStays_some_succ (len : ℕ) :
    s.PrintStays (s.readable (some (len + 1))) (some len) w f t ↔ Chars (s.bytes.take len) := by
  have hlen : (s.bytes.take len).length = min len s.bytes.length := List.length_take
  rw [s.printStays_iff w f t (n := (s.bytes.take len).length) (by rw [hlen]; grind)]
  have hread : ∀ k < (s.bytes.take len).length,
      bytesOf (s.readable (some (len + 1))) k = (s.bytes.take len)[k]? := by
    intro k hk
    rw [bytesOf, s.readable_some_getElem? (by omega), s.readable_none_getElem? (by omega),
      List.getElem?_take_of_lt (by omega)]
  have hnonzero : 0 ∉ s.bytes.take len := fun h => s.nonzero (List.mem_of_mem_take h)
  have hlimit : ∀ k < (s.bytes.take len).length, decide (k < Terminal.lenOrMax (some len)) = true := by
    intro k hk
    have hlt : k < Terminal.lenOrMax (some len) := by
      rw [hlen] at hk
      exact (Nat.lt_min.mp hk).1
    exact decide_eq_true hlt
  rcases Nat.lt_or_ge s.bytes.length len with hlt | hge
  · -- the terminator comes first
    refine returns_iff_chars hread hnonzero hlimit (c := 0) ?_ (Or.inl rfl)
    rw [hlen, Nat.min_eq_right (Nat.le_of_lt hlt)]
    exact (s.readable_some_getElem? (by omega)).trans s.readable_none_terminator
  · -- the length comes first, and the byte there is read
    have hmin : (s.bytes.take len).length = len := by rw [hlen, Nat.min_eq_left hge]
    obtain ⟨c, hc⟩ : ∃ c, bytesOf (s.readable (some (len + 1))) (s.bytes.take len).length = some c := by
      rw [hmin, bytesOf, s.readable_some_getElem? (Nat.lt_succ_self len)]
      exact ⟨_, List.getElem?_eq_getElem (by simp [readable]; omega)⟩
    exact returns_iff_chars hread hnonzero hlimit hc (Or.inr (by simp [hmin, Terminal.lenOrMax]))

theorem writeStays (w : PixelWriter σ) (t : σ) (pos : Vector2D) (color : PixelColor) :
    s.WriteStays w f t pos color ↔ Chars s.bytes := by
  have hiff : (∃ r, Returns (stringLoop (fun _ => true) (f.drawUTF8 w pos color) (bytesOf (s.readable none)))
      (0, 0, t) r ∧ r.1 ≤ s.bytes.length) ↔ Chars s.bytes :=
    returns_iff_chars (fun k hk => s.readable_none_getElem? hk) s.nonzero (fun _ _ => rfl)
      s.readable_none_terminator (Or.inl rfl)
  rw [← hiff]
  constructor
  · rintro ⟨i, r, h, hi⟩
    exact ⟨(i, r), h, hi⟩
  · rintro ⟨⟨i, r⟩, h, hi⟩
    exact ⟨i, r, h, hi⟩

/-- **Strings are read to their end**, by every `Print` and every `WriteUTF8String`, exactly when
their bytes fall into characters, and `Print` is given no length or a larger one. With the
byte at its length readable too, `Print` needs only that the bytes before that length do. -/
theorem strings_stay_inside :
    (s.PrintStays (s.readable none) none w f t ↔ Chars s.bytes) ∧
    (∀ len, s.PrintStays (s.readable (some len)) (some len) w f t ↔ Chars s.bytes ∧ s.bytes.length < len) ∧
    (∀ len, s.PrintStays (s.readable (some (len + 1))) (some len) w f t ↔ Chars (s.bytes.take len)) ∧
    ∀ (w : PixelWriter σ) (t : σ) (pos : Vector2D) (color : PixelColor),
      s.WriteStays w f t pos color ↔ Chars s.bytes :=
  ⟨s.printStays_none w f t, s.printStays_some w f t, s.printStays_some_succ w f t, s.writeStays f⟩

/-- A continuation byte alone is never gone past, the first byte of a longer character leads past
the terminator, and a length of one has the byte behind it read. -/
theorem strings_read_outside :
    ∃ stray cut letter : CString, stray.bytes = [0x80] ∧ cut.bytes = [0xe3] ∧ letter.bytes = [0x61] ∧
      ∀ (σ : Type) (w : TerminalWindow σ) (f : Font) (t : Terminal σ),
        ¬ stray.PrintStays (stray.readable none) none w f t ∧
        ¬ cut.PrintStays (cut.readable none) none w f t ∧
        ¬ letter.PrintStays (letter.readable (some 1)) (some 1) w f t ∧
        ¬ stray.WriteStays w.toPixelWriter f t.window ⟨0, 0⟩ ⟨0, 0, 0⟩ := by
  have hstray : ¬ Chars [0x80] := fun h => (chars_cons_iff.mp h).1 (by decide)
  have hcut : ¬ Chars [0xe3] := fun h => absurd (chars_cons_iff.mp h).2.1 (by decide)
  refine ⟨⟨[0x80], by decide, by decide⟩, ⟨[0xe3], by decide, by decide⟩, ⟨[0x61], by decide, by decide⟩,
    rfl, rfl, rfl, fun σ w f t => ⟨?_, ?_, ?_, ?_⟩⟩
  · rw [printStays_none]
    exact hstray
  · rw [printStays_none]
    exact hcut
  · rw [printStays_some]
    exact fun h => Nat.lt_irrefl _ h.2
  · rw [writeStays]
    exact hstray

end CString

end DuvuvurKernel
