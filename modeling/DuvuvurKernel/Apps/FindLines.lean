import Mathlib.Data.List.Range
import Mathlib.Data.List.TakeWhile
import Mathlib.Tactic.Common

/-!
# The lines of a text, in pektakio

`FindLines` of `pektakio.cpp`. A line break or a soft return (`%`) ends a line, a `#` in front of a
line makes it a header, and a soft return does not end the header.

## The model

The text is given by the bytes from `p` on, at all offsets: those from `len` on are not of the file.
`nextLf` is the closure `next_lf`, with the two flags that it captures (`Flags`), and it looks at the
byte at the end of the file, or at the one after that, when the last line ends there. A pointer is
the offset to which it points.

What the lines should be is said of the pieces of the text between the separators (`segments`).

**Result** (`findLines_eq`): the lines are these pieces, without the `#` and with the right marks,
whatever the bytes behind the text are.
-/

namespace DuvuvurKernel.Pektakio

/-- `Line`. -/
structure Line where
  line : ℕ
  lineLen : ℕ
  isUnderlined : Bool
  deriving DecidableEq, Repr

/-- The variables of `FindLines` that `next_lf` captures by reference. -/
structure Flags where
  isUnderlined : Bool
  continueUnderlined : Bool

/-- `#`. -/
def hash : UInt8 := 0x23

/-- `%`, the soft return. -/
def percent : UInt8 := 0x25

/-- The end of a line: `\n` or `%`. -/
def isSeparator (c : UInt8) : Bool := c == 0x0a || c == percent

/-- The `while` of `next_lf`, for at most `fuel` bytes. -/
def toSeparator (p : ℕ → UInt8) : ℕ → ℕ → ℕ
  | 0, s => s
  | fuel + 1, s => if isSeparator (p s) then s else toSeparator p fuel (s + 1)

/-- `next_lf`. -/
def nextLf (p : ℕ → UInt8) (stop : ℕ) (flags : Flags) (s : ℕ) : (ℕ × Bool) × Flags :=
  let isUnderlined := flags.continueUnderlined || p s == hash
  let s := if p s = hash then s + 1 else s
  let s := toSeparator p (stop - s) s
  ((s, isUnderlined), ⟨isUnderlined, p s == percent && isUnderlined⟩)

/-- The `while` of `FindLines`, for at most `fuel` lines, and what comes after it. -/
def collect (p : ℕ → UInt8) (stop : ℕ) : ℕ → ℕ → (ℕ × Bool) × Flags → List Line
  | 0, _, _ => []
  | fuel + 1, s, ((lf, underline), flags) =>
    let q := if p s = hash then s + 1 else s
    if lf < stop then ⟨q, lf - q, underline⟩ :: collect p stop fuel (lf + 1) (nextLf p stop flags (lf + 1))
    else if s < stop then [⟨q, stop - q, underline⟩]
    else []

/-- `FindLines`. -/
def findLines (p : ℕ → UInt8) (len : ℕ) : List Line :=
  collect p len (len + 1) 0 (nextLf p len ⟨false, false⟩ 0)

/-! ### The lines of a text -/

/-- A piece of a text between separators. -/
structure Segment where
  /-- Where it starts. -/
  start : ℕ
  /-- The separator in front of it. -/
  before : Option UInt8
  /-- Its text. -/
  text : List UInt8

/-- The text begins with `#`. -/
def Segment.isHeader (seg : Segment) : Bool := seg.text.head? == some hash

/-- The pieces, the first of them at `start`, with the separators between them. -/
def place (start : ℕ) (before : Option UInt8) : List (List UInt8) → List UInt8 → List Segment
  | [], _ => []
  | w :: ws, seps => ⟨start, before, w⟩ :: place (start + w.length + 1) seps.head? ws seps.tail

/-- The pieces of a text at `start`. -/
def segmentsAt (start : ℕ) (before : Option UInt8) (text : List UInt8) : List Segment :=
  place start before (text.splitOnP isSeparator) (text.filter isSeparator)

/-- The text, cut at every separator. -/
def segments (text : List UInt8) : List Segment := segmentsAt 0 none text

/-- Which pieces are underlined, if the one in front of them is or is not: those that begin with `#`, and those
that follow an underlined one across a soft return. -/
def marks : Bool → List Segment → List Bool
  | _, [] => []
  | previous, seg :: segs =>
    let mark := seg.isHeader || (seg.before == some percent && previous)
    mark :: marks mark segs

/-- The last piece is left out when it is empty. -/
def withoutEmptyLast : List Segment → List Segment
  | [] => []
  | [seg] => if seg.text = [] then [] else [seg]
  | seg :: segs => seg :: withoutEmptyLast segs

/-- A piece as a line, without the `#` at its beginning. -/
def Segment.toLine (seg : Segment) (mark : Bool) : Line :=
  let skipped := if seg.isHeader then 1 else 0
  ⟨seg.start + skipped, seg.text.length - skipped, mark⟩

/-- The lines of the pieces. -/
def toLines (previous : Bool) (segs : List Segment) : List Line :=
  List.zipWith Segment.toLine (withoutEmptyLast segs) (marks previous segs)

/-- Its text without the `#`. -/
def Segment.stripped (seg : Segment) : List UInt8 := if seg.isHeader then seg.text.tail else seg.text

/-- The bytes from an offset on. -/
def bytesAt (p : ℕ → UInt8) (i n : ℕ) : List UInt8 := (List.range n).map fun j => p (i + j)

/-- The text of a line. -/
def Line.text (p : ℕ → UInt8) (l : Line) : List UInt8 := bytesAt p l.line l.lineLen

variable {p : ℕ → UInt8} {stop i n k : ℕ} {flags : Flags} {w rest : List UInt8} {c : UInt8} {start : ℕ}
  {before : Option UInt8} {previous : Bool} {seg : Segment} {segs : List Segment}

/-! ### The pieces -/

theorem segmentsAt_single (hw : ∀ c ∈ w, isSeparator c = false) : segmentsAt start before w = [⟨start, before, w⟩] := by
  rw [segmentsAt, List.splitOnP_eq_singleton hw]
  rfl

theorem segmentsAt_append (hw : ∀ c ∈ w, isSeparator c = false) (hc : isSeparator c = true) (rest : List UInt8) :
    segmentsAt start before (w ++ c :: rest) =
      ⟨start, before, w⟩ :: segmentsAt (start + w.length + 1) (some c) rest := by
  have hfilter : (w ++ c :: rest).filter isSeparator = c :: rest.filter isSeparator := by
    rw [List.filter_append, List.filter_eq_nil_iff.mpr fun c hc => by simp [hw c hc], List.nil_append,
      List.filter_cons_of_pos hc]
  rw [segmentsAt, hfilter, List.splitOnP_append_cons w rest hc, List.splitOnP_eq_singleton hw]
  rfl

theorem segmentsAt_ne_nil (text : List UInt8) : segmentsAt start before text ≠ [] := by
  obtain ⟨w, ws, hws⟩ := List.exists_cons_of_ne_nil (List.splitOnP_ne_nil isSeparator text)
  rw [segmentsAt, hws]
  exact List.cons_ne_nil _ _

theorem withoutEmptyLast_cons (hsegs : segs ≠ []) :
    withoutEmptyLast (seg :: segs) = seg :: withoutEmptyLast segs := by
  obtain ⟨seg', segs, rfl⟩ := List.exists_cons_of_ne_nil hsegs
  rfl

theorem toLines_cons (hsegs : segs ≠ []) : toLines previous (seg :: segs) =
    seg.toLine (seg.isHeader || (seg.before == some percent && previous)) ::
      toLines (seg.isHeader || (seg.before == some percent && previous)) segs := by
  rw [toLines, withoutEmptyLast_cons hsegs]
  rfl

/-! ### The text in memory -/

theorem bytesAt_succ : bytesAt p i (n + 1) = p i :: bytesAt p (i + 1) n := by
  rw [bytesAt, List.range_succ_eq_map, List.map_cons, List.map_map]
  refine congrArg₂ List.cons rfl (List.map_congr_left fun j _ => ?_)
  show p (i + (j + 1)) = p (i + 1 + j)
  rw [Nat.add_assoc, Nat.add_comm 1 j]

theorem bytesAt_append (p : ℕ → UInt8) (i k n : ℕ) : bytesAt p i (k + n) = bytesAt p i k ++ bytesAt p (i + k) n := by
  induction k generalizing i with
  | zero => rw [Nat.zero_add]; rfl
  | succ k ih => rw [Nat.succ_add, bytesAt_succ, bytesAt_succ, ih, List.cons_append, Nat.succ_add_eq_add_succ]

theorem length_bytesAt (p : ℕ → UInt8) (i n : ℕ) : (bytesAt p i n).length = n := by
  rw [bytesAt, List.length_map, List.length_range]

theorem forall_mem_bytesAt (h : ∀ j < k, isSeparator (p (i + j)) = false) :
    ∀ c ∈ bytesAt p i k, isSeparator c = false := by
  intro c hc
  obtain ⟨j, hj, rfl⟩ := List.mem_map.mp hc
  exact h j (List.mem_range.mp hj)

/-- The text has no separator, or a first one. -/
theorem exists_first (p : ℕ → UInt8) (i n : ℕ) : (∀ j < n, isSeparator (p (i + j)) = false) ∨
    ∃ k < n, (∀ j < k, isSeparator (p (i + j)) = false) ∧ isSeparator (p (i + k)) = true := by
  induction n generalizing i with
  | zero => exact .inl fun j hj => absurd hj (Nat.not_lt_zero j)
  | succ n ih =>
    cases hi : isSeparator (p i) with
    | true => exact .inr ⟨0, Nat.succ_pos n, fun j hj => absurd hj (Nat.not_lt_zero j), hi⟩
    | false =>
      have hstep : ∀ k, (∀ j < k, isSeparator (p (i + 1 + j)) = false) →
          ∀ j < k + 1, isSeparator (p (i + j)) = false := by
        intro k hk j hj
        cases j with
        | zero => exact hi
        | succ j => rw [← Nat.succ_add_eq_add_succ]; exact hk j (by omega)
      rcases ih (i + 1) with hnone | ⟨k, hk, hbefore, hsep⟩
      · exact .inl (hstep n hnone)
      · exact .inr ⟨k + 1, by omega, hstep k hbefore, by rw [← Nat.succ_add_eq_add_succ]; exact hsep⟩

/-! ### The closure -/

theorem toSeparator_of_forall (h : ∀ j < n, isSeparator (p (i + j)) = false) : toSeparator p n i = i + n := by
  induction n generalizing i with
  | zero => rfl
  | succ n ih =>
    have hi : isSeparator (p i) = false := h 0 (Nat.succ_pos n)
    have hrest : ∀ j < n, isSeparator (p (i + 1 + j)) = false := by
      intro j hj
      rw [Nat.succ_add_eq_add_succ]
      exact h (j + 1) (by omega)
    rw [toSeparator, if_neg (by simp [hi]), ih hrest, Nat.succ_add_eq_add_succ]

theorem toSeparator_of_first (hk : k < n) (h : ∀ j < k, isSeparator (p (i + j)) = false)
    (hsep : isSeparator (p (i + k)) = true) : toSeparator p n i = i + k := by
  induction k generalizing i n with
  | zero =>
    obtain ⟨n, rfl⟩ := Nat.exists_eq_succ_of_ne_zero (Nat.ne_zero_of_lt hk)
    exact if_pos hsep
  | succ k ih =>
    obtain ⟨n, rfl⟩ := Nat.exists_eq_succ_of_ne_zero (Nat.ne_zero_of_lt hk)
    have hi : isSeparator (p i) = false := h 0 (Nat.succ_pos k)
    have hrest : ∀ j < k, isSeparator (p (i + 1 + j)) = false := by
      intro j hj
      rw [Nat.succ_add_eq_add_succ]
      exact h (j + 1) (by omega)
    have hend : isSeparator (p (i + 1 + k)) = true := by
      rw [Nat.succ_add_eq_add_succ]
      exact hsep
    rw [toSeparator, if_neg (by simp [hi]), ih (by omega) hrest hend, Nat.succ_add_eq_add_succ]

theorem le_toSeparator (p : ℕ → UInt8) (n i : ℕ) : i ≤ toSeparator p n i := by
  induction n generalizing i with
  | zero => exact le_rfl
  | succ n ih =>
    rw [toSeparator]
    split
    · exact le_rfl
    · exact (Nat.le_succ i).trans (ih (i + 1))

theorem not_isSeparator_of_hash (h : p i = hash) : isSeparator (p i) = false := by
  rw [h]
  decide

/-- A `#` is no separator: `next_lf` looks for the first separator from the start of the piece on. -/
theorem nextLf_eq (hi : i < stop) : nextLf p stop flags i =
    ((toSeparator p (stop - i) i, flags.continueUnderlined || p i == hash),
      ⟨flags.continueUnderlined || p i == hash,
        p (toSeparator p (stop - i) i) == percent && (flags.continueUnderlined || p i == hash)⟩) := by
  have hscan : toSeparator p (stop - if p i = hash then i + 1 else i) (if p i = hash then i + 1 else i) =
      toSeparator p (stop - i) i := by
    split
    next hhash =>
      rw [show stop - i = stop - (i + 1) + 1 by omega, toSeparator, if_neg (by simp [not_isSeparator_of_hash hhash])]
    next => rfl
  simp only [nextLf, hscan]

/-- Behind the text, `next_lf` finds no end of a line in it. -/
theorem le_nextLf (p : ℕ → UInt8) (stop : ℕ) (flags : Flags) : stop ≤ (nextLf p stop flags stop).1.1 := by
  have hle := le_toSeparator p (stop - if p stop = hash then stop + 1 else stop)
    (if p stop = hash then stop + 1 else stop)
  have hstop : stop ≤ if p stop = hash then stop + 1 else stop := by split <;> omega
  exact hstop.trans hle

/-- A piece begins with `#` when the byte at its start is one. -/
theorem isHeader_bytesAt (hk : k = 0 → p i ≠ hash) :
    Segment.isHeader ⟨start, before, bytesAt p i k⟩ = (p i == hash) := by
  cases k with
  | zero =>
    rw [beq_eq_false_iff_ne.mpr (hk rfl)]
    rfl
  | succ k =>
    rw [Segment.isHeader, bytesAt_succ]
    rfl

theorem toLine_bytesAt (hk : k = 0 → p i ≠ hash) (mark : Bool) :
    Segment.toLine ⟨i, before, bytesAt p i k⟩ mark =
      ⟨if p i = hash then i + 1 else i, i + k - (if p i = hash then i + 1 else i), mark⟩ := by
  rw [Segment.toLine, isHeader_bytesAt hk, length_bytesAt]
  by_cases hhash : p i = hash
  · rw [if_pos (beq_iff_eq.mpr hhash), if_pos hhash, Nat.add_sub_add_left]
  · rw [if_neg (by simpa using hhash), if_neg hhash, Nat.sub_zero, Nat.add_sub_cancel_left]
    rfl

/-! ### The loop -/

/-- The lines from a piece on, when the flag is that of the separator in front of it. -/
theorem collect_eq {fuel : ℕ} (hstop : i + n = stop) (hfuel : n < fuel)
    (hflags : flags.continueUnderlined = (before == some percent && previous)) :
    collect p stop fuel i (nextLf p stop flags i) = toLines previous (segmentsAt i before (bytesAt p i n)) := by
  induction fuel generalizing n i flags before previous with
  | zero => omega
  | succ fuel ih =>
    rcases Nat.eq_zero_or_pos n with rfl | hpos
    · -- The file ends with a separator, or is empty.
      obtain rfl : i = stop := hstop
      rw [collect, if_neg (not_lt.mpr (le_nextLf p i flags)), if_neg (lt_irrefl i),
        segmentsAt_single fun c hc => by cases hc]
      rfl
    have hlt : i < stop := by omega
    have hsub : stop - i = n := by omega
    rw [nextLf_eq hlt, hsub, hflags]
    rcases exists_first p i n with hnone | ⟨k, hk, hbefore, hsep⟩
    · -- The last line.
      have hseg : toLines previous (segmentsAt i before (bytesAt p i n)) =
          [Segment.toLine ⟨i, before, bytesAt p i n⟩
            (Segment.isHeader ⟨i, before, bytesAt p i n⟩ || (before == some percent && previous))] := by
        rw [segmentsAt_single (forall_mem_bytesAt hnone), toLines, withoutEmptyLast, if_neg]
        · rfl
        · exact fun (hnil : bytesAt p i n = []) => hpos.ne' (by rw [← length_bytesAt p i n, hnil]; rfl)
      rw [toSeparator_of_forall hnone, collect, if_neg (by omega), if_pos hlt, hseg,
        isHeader_bytesAt fun h0 => absurd h0 hpos.ne', toLine_bytesAt fun h0 => absurd h0 hpos.ne', ← hstop,
        Bool.or_comm]
    · -- A line that a separator ends.
      have hhead : k = 0 → p i ≠ hash := by
        rintro rfl hhash
        rw [Nat.add_zero, not_isSeparator_of_hash hhash] at hsep
        cases hsep
      have hsplit : bytesAt p i n = bytesAt p i k ++ p (i + k) :: bytesAt p (i + k + 1) (n - k - 1) := by
        rw [← bytesAt_succ, ← bytesAt_append]
        congr 1
        omega
      rw [toSeparator_of_first hk hbefore hsep, collect, if_pos (by omega), hsplit,
        segmentsAt_append (forall_mem_bytesAt hbefore) hsep, toLines_cons (segmentsAt_ne_nil _), isHeader_bytesAt hhead,
        toLine_bytesAt hhead, length_bytesAt, Bool.or_comm]
      congr 1
      exact ih (by omega) (by omega) rfl

theorem findLines_eq_toLines (p : ℕ → UInt8) (len : ℕ) :
    findLines p len = toLines false (segments (bytesAt p 0 len)) :=
  collect_eq (Nat.zero_add len) (Nat.lt_succ_self len) rfl

/-- A piece of the text in memory is there from its start on. -/
theorem bytesAt_start (hseg : seg ∈ segmentsAt i before (bytesAt p i n)) :
    bytesAt p seg.start seg.text.length = seg.text := by
  induction n using Nat.strong_induction_on generalizing i before with
  | h n ih =>
    rcases exists_first p i n with hnone | ⟨k, hk, hbefore, hsep⟩
    · rw [segmentsAt_single (forall_mem_bytesAt hnone), List.mem_singleton] at hseg
      rw [hseg, length_bytesAt]
    · have hsplit : bytesAt p i n = bytesAt p i k ++ p (i + k) :: bytesAt p (i + k + 1) (n - k - 1) := by
        rw [← bytesAt_succ, ← bytesAt_append]
        congr 1
        omega
      rw [hsplit, segmentsAt_append (forall_mem_bytesAt hbefore) hsep, length_bytesAt] at hseg
      rcases List.mem_cons.mp hseg with rfl | hseg
      · rw [length_bytesAt]
      · exact ih (n - k - 1) (by omega) hseg

theorem text_toLine (hseg : bytesAt p seg.start seg.text.length = seg.text) (mark : Bool) :
    (seg.toLine mark).text p = seg.stripped := by
  unfold Segment.toLine Line.text Segment.stripped
  by_cases hheader : seg.isHeader = true
  · obtain ⟨c, text, htext⟩ : ∃ c text, seg.text = c :: text := by
      refine List.exists_cons_of_ne_nil fun hnil => ?_
      rw [Segment.isHeader, hnil] at hheader
      cases hheader
    rw [htext, List.length_cons, bytesAt_succ, List.cons.injEq] at hseg
    simp only [if_pos hheader, htext, List.length_cons, Nat.add_sub_cancel, List.tail_cons, hseg.2]
  · simp only [if_neg hheader, Nat.add_zero, Nat.sub_zero, hseg]

theorem length_marks (previous : Bool) (segs : List Segment) : (marks previous segs).length = segs.length := by
  induction segs generalizing previous with
  | nil => rfl
  | cons seg segs ih => rw [marks, List.length_cons, ih, List.length_cons]

theorem withoutEmptyLast_isPrefix (segs : List Segment) : withoutEmptyLast segs <+: segs := by
  induction segs with
  | nil => exact List.prefix_rfl
  | cons seg segs ih =>
    rcases eq_or_ne segs [] with rfl | hne
    · rw [withoutEmptyLast]
      split
      · exact List.nil_prefix
      · exact List.prefix_rfl
    · rw [withoutEmptyLast_cons hne]
      exact (List.prefix_cons_inj seg).mpr ih

/-- The texts of lines are those of the pieces. -/
theorem map_text_zipWith {ms : List Bool} (hlen : segs.length ≤ ms.length)
    (hsegs : ∀ seg ∈ segs, bytesAt p seg.start seg.text.length = seg.text) :
    (List.zipWith Segment.toLine segs ms).map (Line.text p) = segs.map Segment.stripped := by
  induction segs generalizing ms with
  | nil => rfl
  | cons seg segs ih =>
    obtain ⟨m, ms, rfl⟩ := List.exists_cons_of_length_pos (Nat.zero_lt_of_lt hlen)
    rw [List.zipWith_cons_cons, List.map_cons, text_toLine (hsegs seg List.mem_cons_self),
      ih (Nat.le_of_succ_le_succ hlen) fun seg hseg => hsegs seg (List.mem_cons_of_mem _ hseg), List.map_cons]

/-- **The lines** are the pieces between the separators, each without a `#` at its beginning, and underlined where
the marks say so. What is behind the text does not matter. -/
theorem findLines_eq (p : ℕ → UInt8) (len : ℕ) :
    findLines p len = toLines false (segments (bytesAt p 0 len)) ∧
      (findLines p len).map (Line.text p) = (withoutEmptyLast (segments (bytesAt p 0 len))).map Segment.stripped ∧
      ∀ p', (∀ i < len, p' i = p i) → findLines p' len = findLines p len := by
  refine ⟨findLines_eq_toLines p len, ?_, fun p' hp => ?_⟩
  · have hpre := withoutEmptyLast_isPrefix (segments (bytesAt p 0 len))
    rw [findLines_eq_toLines, toLines]
    refine map_text_zipWith ?_ fun seg hseg => bytesAt_start (hpre.subset hseg)
    rw [length_marks]
    exact hpre.length_le
  · have hbytes : bytesAt p' 0 len = bytesAt p 0 len := by
      refine List.map_congr_left fun j hj => ?_
      rw [Nat.zero_add]
      exact hp j (List.mem_range.mp hj)
    rw [findLines_eq_toLines, hbytes, ← findLines_eq_toLines]

/-- A header over two lines, and a line; the file ends with a soft return, behind which there is a `#`. -/
example : (findLines (fun i => ([0x23, 0x61, 0x25, 0x62, 0x0a, 0x63, 0x25, 0x23] : List UInt8).getD i 0) 7) =
    [⟨1, 1, true⟩, ⟨3, 1, true⟩, ⟨5, 1, false⟩] := by
  decide

/-- A `#` alone is an empty line, also where the byte behind the file is another one. -/
theorem findLines_eq_hash : findLines (fun _ => hash) 1 = findLines (fun i => if i = 0 then hash else 0) 1 :=
  (findLines_eq (fun i => if i = 0 then hash else 0) 1).2.2 (fun _ => hash) fun i hi => by
    rw [Nat.lt_one_iff.mp hi]
    rfl

end DuvuvurKernel.Pektakio
