import DuvuvurKernel.Terminal.Xel

/-!
# Reading up to a delimiter

`file.hpp` and `file.cpp`: the interface `FileDescriptor`, and `ReadDelim`, which reads from any descriptor byte by byte
into a buffer, and puts a NUL behind what it has read.

## The model

A descriptor is in a state `σ`, and `Read` is whatever takes it to the next one; it stores bytes at the beginning of the
buffer that it is given. It need not return. A buffer is what may be accessed from its start; storing
bytes behind that is undefined. `len - 1` is a `size_t`.

That a descriptor is a byte stream (`IsStream`) is a relation between its state and the bytes that are
still to come: `Read` stores some of those that come next, one at least if there are any.

**Result** (`readDelim_pieces`): calls of `ReadDelim`, up to the first that returns 0, cut any stream into pieces.
-/

namespace DuvuvurKernel.File

open Lib.Lines Lib.Loops

/-- `FileDescriptor`, for its `Read`: the bytes stored, as many as it returns. -/
structure FileDescriptor (σ : Type) where
  read : σ → ℕ → Option (List UInt8 × σ)

/-- A buffer with bytes stored at an offset. -/
def stored (buf : List UInt8) (i : ℕ) (bytes : List UInt8) : List UInt8 :=
  buf.take i ++ bytes ++ buf.drop (i + bytes.length)

/-- Bytes are stored in a buffer. -/
def store (buf : List UInt8) (i : ℕ) (bytes : List UInt8) : Option (List UInt8) :=
  if i + bytes.length ≤ buf.length then some (stored buf i bytes) else none

section

variable {σ : Type} (fd : FileDescriptor σ) (delim : UInt8)

/-- The loop of `ReadDelim`, with the rounds until `i` is `len - 1`. -/
def readDelimLoop : ℕ → ℕ → List UInt8 → σ → Option (ℕ × List UInt8 × σ)
  | 0, i, buf, s => some (i, buf, s)
  | n + 1, i, buf, s => do
    let (bytes, s) ← fd.read s 1
    let buf ← store buf i bytes
    if bytes.length = 0 then some (i, buf, s)
    else if buf[i]? = some delim then some (i + 1, buf, s)
    else readDelimLoop n (i + 1) buf s

/-- `ReadDelim`: what it returns, the buffer, and the descriptor. -/
def readDelim (len : UInt64) (buf : List UInt8) (s : σ) : Option (ℕ × List UInt8 × σ) := do
  let (i, buf, s) ← readDelimLoop fd delim (len - 1).toNat 0 buf s
  let buf ← store buf i [0]
  some (i, buf, s)

/-- What a call returns, and what is in the buffer then. -/
structure Result where
  returned : ℕ
  buf : List UInt8

/-- The bytes a call has read. -/
def Result.piece (r : Result) : List UInt8 := r.buf.take r.returned

/-- A call, and another one unless it returns 0. -/
def callRound (len : UInt64) : σ × List UInt8 × List Result → Option (Next (σ × List UInt8 × List Result) (List Result))
  | (s, buf, results) => do
    let (i, buf, s) ← readDelim fd delim len buf s
    if i = 0 then some (.done (results ++ [⟨i, buf⟩])) else some (.goOn (s, buf, results ++ [⟨i, buf⟩]))

/-- The results of repeated calls, up to the first that returns 0. -/
def Calls (len : UInt64) (buf : List UInt8) (s : σ) : List Result → Prop :=
  Returns (callRound fd delim len) (s, buf, [])

/-- The descriptor is a byte stream: `holds` relates its state to the bytes that are still to come. -/
structure FileDescriptor.IsStream (holds : σ → List UInt8 → Prop) : Prop where
  read : ∀ {s bytes}, holds s bytes → ∀ len, 0 < len → ∃ n s', fd.read s len = some (bytes.take n, s') ∧ n ≤ len ∧
    (bytes ≠ [] → 0 < n) ∧ holds s' (bytes.drop n)

end

/-- Bytes cut into pieces by a delimiter and the length of a buffer. -/
structure Pieces (delim : UInt8) (len : ℕ) (bytes : List UInt8) (results : List Result) : Prop where
  /-- Nothing is lost, or read twice. -/
  whole : (results.map Result.piece).flatten = bytes
  length_le : ∀ r ∈ results, r.piece.length ≤ len - 1
  /-- The delimiter ends a piece. -/
  delim_last : ∀ r ∈ results, r.piece.count delim ≤ 1 ∧ (delim ∈ r.piece → r.piece.getLast? = some delim)
  /-- No piece ends for another reason, but for the last that is not empty. -/
  cut : ∀ p ∈ ((results.map Result.piece).filter (· ≠ [])).dropLast, p.getLast? = some delim ∨ p.length = len - 1
  /-- The NUL stands behind the piece, in the buffer. -/
  terminated : ∀ r ∈ results, r.returned < len ∧ r.piece.length = r.returned ∧ r.buf[r.returned]? = some 0

variable {σ : Type} {fd : FileDescriptor σ} {holds : σ → List UInt8 → Prop} {delim : UInt8} {len : UInt64}
  {s : σ} {buf bytes piece : List UInt8} {i n : ℕ}

/-! ### One call -/

theorem FileDescriptor.IsStream.read_nil (h : fd.IsStream holds) (hs : holds s []) :
    ∃ s', fd.read s 1 = some ([], s') ∧ holds s' [] := by
  obtain ⟨n, s', hread, -, -, hs'⟩ := h.read hs 1 Nat.one_pos
  rw [List.take_nil] at hread
  rw [List.drop_nil] at hs'
  exact ⟨s', hread, hs'⟩

theorem FileDescriptor.IsStream.read_cons {b : UInt8} (h : fd.IsStream holds) (hs : holds s (b :: bytes)) :
    ∃ s', fd.read s 1 = some ([b], s') ∧ holds s' bytes := by
  obtain ⟨n, s', hread, hle, hpos, hs'⟩ := h.read hs 1 Nat.one_pos
  obtain rfl : n = 1 := Nat.le_antisymm hle (hpos (List.cons_ne_nil b bytes))
  exact ⟨s', hread, hs'⟩

/-- What a call reads of a stream. -/
def nextPiece (delim : UInt8) (n : ℕ) (bytes : List UInt8) : List UInt8 :=
  (firstLine (fun b => b = delim) bytes).take n

theorem store_eq {new : List UInt8} (h : i + new.length ≤ buf.length) : store buf i new = some (stored buf i new) :=
  if_pos h

@[simp] theorem stored_nil (buf : List UInt8) (i : ℕ) : stored buf i [] = buf := by
  rw [stored, List.append_nil, List.length_nil, Nat.add_zero, List.take_append_drop]

theorem length_stored {new : List UInt8} (h : i + new.length ≤ buf.length) :
    (stored buf i new).length = buf.length := by
  rw [stored, List.length_append, List.length_append, List.length_take, List.length_drop]
  omega

/-- The byte stored is read. -/
theorem getElem?_stored {b : UInt8} (h : i < buf.length) : (stored buf i [b])[i]? = some b := by
  have hlen : (buf.take i).length = i := List.length_take_of_le h.le
  rw [stored, List.append_assoc, List.getElem?_append_right hlen.le, hlen, Nat.sub_self]
  rfl

/-- One byte, and others behind it. -/
theorem stored_stored {b : UInt8} (h : i < buf.length) (new : List UInt8) :
    stored (stored buf i [b]) (i + 1) new = stored buf i (b :: new) := by
  have hlen : (buf.take i ++ [b]).length = i + 1 := by
    rw [List.length_append, List.length_take_of_le h.le, List.length_singleton]
  have hdrop : (stored buf i [b]).drop (i + 1 + new.length) = buf.drop (i + (b :: new).length) := by
    rw [stored, ← List.drop_drop, List.drop_left' hlen, List.drop_drop, List.length_singleton, List.length_cons]
    exact congrArg (buf.drop ·) (by omega)
  rw [stored, hdrop, stored, List.take_left' hlen, stored, List.append_assoc (buf.take i), List.singleton_append]

/-- **The loop** reads the next piece. -/
theorem readDelimLoop_spec (h : fd.IsStream holds) (hs : holds s bytes) (hbuf : i + n ≤ buf.length)
    (hp : nextPiece delim n bytes = piece) :
    ∃ s', readDelimLoop fd delim n i buf s = some (i + piece.length, stored buf i piece, s') ∧
      holds s' (bytes.drop piece.length) := by
  induction n generalizing i buf s bytes piece with
  | zero =>
    obtain rfl : piece = [] := by rw [← hp, nextPiece, List.take_zero]
    exact ⟨s, by rw [stored_nil]; rfl, hs⟩
  | succ n ih =>
    cases bytes with
    | nil =>
      obtain rfl : piece = [] := by rw [← hp, nextPiece, firstLine, List.take_nil]
      obtain ⟨s', hread, hs'⟩ := h.read_nil hs
      have hstore : store buf i [] = some buf := by rw [store_eq (show i ≤ buf.length by omega), stored_nil]
      refine ⟨s', ?_, hs'⟩
      simp only [readDelimLoop, hread, Option.bind_eq_bind, Option.bind_some, hstore, List.length_nil, if_true,
        stored_nil]
      rfl
    | cons b bytes =>
      obtain ⟨s₁, hread, hs₁⟩ := h.read_cons hs
      have hi : i < buf.length := by omega
      have hstore : store buf i [b] = some (stored buf i [b]) := store_eq hi
      simp only [readDelimLoop, hread, Option.bind_eq_bind, Option.bind_some, hstore, getElem?_stored hi,
        List.length_singleton, Nat.one_ne_zero, if_false, Option.some.injEq]
      by_cases hb : b = delim
      · obtain rfl : piece = [b] := by simp [← hp, nextPiece, firstLine, hb]
        rw [if_pos hb]
        exact ⟨s₁, rfl, hs₁⟩
      · obtain rfl : piece = b :: nextPiece delim n bytes := by simp [← hp, nextPiece, firstLine, hb]
        have hbuf' : i + 1 + n ≤ (stored buf i [b]).length := by
          rw [length_stored hi]
          omega
        obtain ⟨s', hloop, hs'⟩ := ih hs₁ hbuf' rfl
        rw [if_neg hb, hloop, stored_stored hi, List.length_cons, Nat.add_assoc, Nat.add_comm 1]
        exact ⟨s', rfl, hs'⟩

/-- Behind the bytes that it has read a call stores the NUL. -/
theorem store_nul (h : piece.length < buf.length) :
    store (stored buf 0 piece) piece.length [0] = some (piece ++ 0 :: buf.drop (piece.length + 1)) := by
  have hstored : stored buf 0 piece = piece ++ buf.drop piece.length := by
    rw [stored, List.take_zero, List.nil_append, Nat.zero_add]
  rw [store_eq (by rw [length_stored (by omega)]; exact h), stored, hstored, List.take_left' rfl, List.length_singleton,
    ← List.drop_drop, List.drop_left' rfl, List.drop_drop, List.append_assoc, List.singleton_append]

/-- **A call** reads the next piece, and puts a NUL behind it. -/
theorem readDelim_spec (h : fd.IsStream holds) (hs : holds s bytes) (hlen : 1 ≤ len.toNat)
    (hbuf : len.toNat ≤ buf.length) (hp : nextPiece delim (len.toNat - 1) bytes = piece) :
    ∃ s', readDelim fd delim len buf s = some (piece.length, piece ++ 0 :: buf.drop (piece.length + 1), s') ∧
      holds s' (bytes.drop piece.length) := by
  have hsub : (len - 1).toNat = len.toNat - 1 := UInt64.toNat_sub_of_le len 1 hlen
  have hle : piece.length ≤ len.toNat - 1 := hp ▸ List.length_take_le _ _
  obtain ⟨s', hloop, hs'⟩ := readDelimLoop_spec (i := 0) h hs (show 0 + (len.toNat - 1) ≤ buf.length by omega) hp
  refine ⟨s', ?_, hs'⟩
  simp only [readDelim, hsub, hloop, Option.bind_eq_bind, Option.bind_some, Nat.zero_add,
    store_nul (show piece.length < buf.length by omega)]

/-! ### Pieces -/

theorem nextPiece_isPrefix (delim : UInt8) (n : ℕ) (bytes : List UInt8) : nextPiece delim n bytes <+: bytes :=
  (List.take_prefix _ _).trans (firstLine_isPrefix _ _)

theorem nextPiece_ne_nil (hn : 0 < n) (h : bytes ≠ []) : nextPiece delim n bytes ≠ [] := by
  intro hnil
  exact (List.take_eq_nil_iff.mp hnil).elim hn.ne' (firstLine_ne_nil _ h)

/-- The delimiter ends a piece. -/
theorem nextPiece_delim (hp : nextPiece delim n bytes = piece) :
    piece.count delim ≤ 1 ∧ (delim ∈ piece → piece.getLast? = some delim) := by
  have hfront : delim ∉ piece.dropLast := by
    intro hmem
    rw [← hp] at hmem
    have hstop := not_stop_of_mem_dropLast_take hmem
    simp at hstop
  rcases List.eq_nil_or_concat' piece with rfl | ⟨front, last, rfl⟩
  · exact ⟨Nat.zero_le 1, fun hmem => absurd hmem List.not_mem_nil⟩
  · rw [List.dropLast_concat] at hfront
    refine ⟨?_, fun hmem => ?_⟩
    · rw [List.count_append, List.count_eq_zero.mpr hfront, Nat.zero_add]
      exact List.count_le_length
    · rcases List.mem_append.mp hmem with hmem | hmem
      · exact absurd hmem hfront
      · rw [List.mem_singleton.mp hmem, List.getLast?_concat]

/-- A piece ends at the delimiter or is full, unless the stream ends with it. -/
theorem nextPiece_cut (hp : nextPiece delim n bytes = piece) (hrest : bytes.drop piece.length ≠ []) :
    piece.getLast? = some delim ∨ piece.length = n := by
  subst hp
  rcases stop_or_length_take hrest with ⟨a, ha, hstop⟩ | hlength
  · obtain rfl : a = delim := of_decide_eq_true hstop
    exact .inl ha
  · exact .inr hlength

theorem piece_mk (piece rest : List UInt8) : Result.piece ⟨piece.length, piece ++ rest⟩ = piece := List.take_left' rfl

/-- At the end of the stream. -/
theorem Pieces.nil {n : ℕ} (hn : 0 < n) (rest : List UInt8) : Pieces delim n [] [⟨0, 0 :: rest⟩] where
  whole := rfl
  length_le := by
    intro r hr
    rw [List.mem_singleton.mp hr]
    exact Nat.zero_le _
  delim_last := by
    intro r hr
    rw [List.mem_singleton.mp hr]
    exact ⟨Nat.zero_le 1, fun hmem => absurd hmem List.not_mem_nil⟩
  cut := by
    intro p hp
    simp [Result.piece] at hp
  terminated := by
    intro r hr
    rw [List.mem_singleton.mp hr]
    exact ⟨hn, rfl, rfl⟩

/-- One piece, and the rest of the stream. -/
theorem Pieces.cons {n : ℕ} {results : List Result} {rest : List UInt8} (hn : 0 < n)
    (hp : nextPiece delim (n - 1) bytes = piece) (h : Pieces delim n (bytes.drop piece.length) results) :
    Pieces delim n bytes (⟨piece.length, piece ++ 0 :: rest⟩ :: results) := by
  have hle : piece.length ≤ n - 1 := hp ▸ List.length_take_le _ _
  have hpiece := piece_mk piece (0 :: rest)
  refine ⟨?_, List.forall_mem_cons.mpr ⟨?_, h.length_le⟩, List.forall_mem_cons.mpr ⟨?_, h.delim_last⟩, fun p hmem => ?_,
    List.forall_mem_cons.mpr ⟨?_, h.terminated⟩⟩
  · rw [List.map_cons, List.flatten_cons, h.whole, hpiece]
    obtain ⟨tail, htail⟩ := hp ▸ nextPiece_isPrefix delim (n - 1) bytes
    rw [← htail, List.drop_left' rfl]
  · rwa [hpiece]
  · rw [hpiece]
    exact nextPiece_delim hp
  · rw [List.map_cons, hpiece] at hmem
    by_cases hnil : ((results.map Result.piece).filter (· ≠ [])) = []
    · have hshort : ((piece :: results.map Result.piece).filter (· ≠ [])).dropLast = [] := by
        rw [List.filter_cons, hnil]
        split <;> rfl
      rw [hshort] at hmem
      cases hmem
    · by_cases hempty : piece = []
      · rw [List.filter_cons_of_neg (by simpa using hempty)] at hmem
        exact h.cut p hmem
      · rw [List.filter_cons_of_pos (by simpa using hempty), List.dropLast_cons_of_ne_nil hnil] at hmem
        rcases List.mem_cons.mp hmem with rfl | hmem
        · refine nextPiece_cut hp fun hrest => hnil (List.filter_eq_nil_iff.mpr fun q hq => ?_)
          rw [← h.whole] at hrest
          simpa using List.flatten_eq_nil_iff.mp hrest q hq
        · exact h.cut p hmem
  · refine ⟨by dsimp only; omega, by rw [hpiece], ?_⟩
    dsimp only
    rw [List.getElem?_append_right (Nat.le_refl _), Nat.sub_self]
    rfl

/-! ### Repeated calls -/

/-- The calls that are still to come, behind some results. -/
theorem calls_spec (h : fd.IsStream holds) (delim : UInt8) (hlen : 2 ≤ len.toNat) (hbuf : len.toNat ≤ buf.length)
    (hs : holds s bytes) (acc : List Result) :
    ∃ results, Returns (callRound fd delim len) (s, buf, acc) (acc ++ results) ∧
      Pieces delim len.toNat bytes results := by
  induction hk : bytes.length using Nat.strong_induction_on generalizing s buf bytes acc with
  | _ k ih =>
    obtain ⟨piece, hp⟩ : ∃ piece, nextPiece delim (len.toNat - 1) bytes = piece := ⟨_, rfl⟩
    obtain ⟨s', hcall, hs'⟩ := readDelim_spec h hs (by omega) hbuf hp
    by_cases hbytes : bytes = []
    · subst hbytes
      obtain rfl : piece = [] := by rw [← hp, nextPiece, firstLine, List.take_nil]
      refine ⟨[⟨0, 0 :: buf.drop 1⟩], .done ?_, .nil (by omega) _⟩
      simp only [callRound, hcall]
      rfl
    · have hne : piece ≠ [] := hp ▸ nextPiece_ne_nil (by omega) hbytes
      have hle : piece.length ≤ len.toNat - 1 := hp ▸ List.length_take_le _ _
      have hpos := List.length_pos_iff.mpr hne
      have hshorter : (bytes.drop piece.length).length < k := by
        rw [List.length_drop]
        have := List.length_pos_iff.mpr hbytes
        omega
      have hbuf' : len.toNat ≤ (piece ++ 0 :: buf.drop (piece.length + 1)).length := by
        rw [List.length_append, List.length_cons, List.length_drop]
        omega
      obtain ⟨results, hreturns, hpieces⟩ :=
        ih _ hshorter hbuf' hs' (acc ++ [⟨piece.length, piece ++ 0 :: buf.drop (piece.length + 1)⟩]) rfl
      refine ⟨_ :: results, .goOn ?_ (by rwa [List.append_assoc] at hreturns), .cons (by omega) hp hpieces⟩
      simp only [callRound, hcall, Option.bind_eq_bind, Option.bind_some, if_neg hpos.ne']

/-- **`ReadDelim` cuts a stream into pieces**, up to the delimiter or the length of the buffer. -/
theorem readDelim_pieces (h : fd.IsStream holds) (delim : UInt8) (hlen : 2 ≤ len.toNat) (hbuf : len.toNat ≤ buf.length)
    (hs : holds s bytes) : ∃ results, Calls fd delim len buf s results ∧
      (∀ results', Calls fd delim len buf s results' → results' = results) ∧ Pieces delim len.toNat bytes results := by
  obtain ⟨results, hcalls, hpieces⟩ := calls_spec h delim hlen hbuf hs []
  exact ⟨results, hcalls, fun results' hcalls' => hcalls'.unique hcalls, hpieces⟩

/-! ### Files -/

open Fat

variable {g : BPB} {v : Volume} {e : EntryPtr} {cs : List ℕ}

/-- `fat::FileDescriptor`. -/
def fat (g : BPB) (v : Volume) : FileDescriptor Fat.FileDescriptor := ⟨fun fd len => fd.read g v len⟩

/-- **A file is a byte stream.** -/
theorem isStream_fat (hg : g.WellFormed) (h : WellFormedFile g v e cs) :
    (fat g v).IsStream fun fd bytes => ∃ q, fd.HasRead g v e cs q ∧ bytes = restOf g v e cs q := by
  refine ⟨fun {fd bytes} hs len hlen => ?_⟩
  obtain ⟨q, hfd, rfl⟩ := hs
  obtain ⟨fd', hread, hfd'⟩ := h.read hg hfd len
  have hle := hfd.le
  refine ⟨min len (v.fileSize e - q), fd', ?_, Nat.min_le_left _ _, fun hne => ?_, _, hfd', drop_restOf _ (by omega)⟩
  · rw [restOf, take_fileBytes, Nat.min_assoc, Nat.min_self]
    exact hread
  · have hpos : 0 < (restOf g v e cs q).length := List.length_pos_iff.mpr hne
    rw [restOf, length_fileBytes] at hpos
    exact Nat.lt_min.mpr ⟨hlen, hpos⟩

theorem length_fat_read {fd fd' : Fat.FileDescriptor} {len : ℕ} (h : (fat g v).read fd len = some (bytes, fd')) :
    bytes.length ≤ len := by
  simp only [fat, Fat.FileDescriptor.read] at h
  obtain ⟨r, hloop, h⟩ := Option.bind_eq_some_iff.mp h
  cases h
  rw [length_readLoop hloop]
  exact Nat.min_le_left _ _

/-- Read from a file, the bytes stored are those that are read one by one. -/
theorem readDelimLoop_fat (delim : UInt8) (fd : Fat.FileDescriptor) (hbuf : i + n ≤ buf.length) :
    readDelimLoop (fat g v) delim n i buf fd = (readBytes g v (fun byte => byte = delim) n fd).map fun r =>
      (i + r.1.length, stored buf i r.1, r.2) := by
  induction n generalizing i buf fd with
  | zero => simp [readDelimLoop, readBytes]
  | succ n ih =>
    rw [readDelimLoop, readBytes]
    change ((fat g v).read fd 1).bind _ = (((fat g v).read fd 1).bind _).map _
    cases hread : (fat g v).read fd 1 with
    | none => rfl
    | some r =>
      obtain ⟨bytes, fd₁⟩ := r
      have hone := length_fat_read hread
      rcases bytes with _ | ⟨b, _ | ⟨c, bytes⟩⟩
      · have hstore : store buf i [] = some buf := by rw [store_eq (show i ≤ buf.length by omega), stored_nil]
        simp [hstore]
      · have hi : i < buf.length := by omega
        have hstore : store buf i [b] = some (stored buf i [b]) := store_eq hi
        have hbuf' : i + 1 + n ≤ (stored buf i [b]).length := by
          rw [length_stored hi]
          omega
        simp only [Option.bind_some, hstore, getElem?_stored hi, List.length_singleton, Nat.one_ne_zero, if_false,
          Option.some.injEq, Option.bind_eq_bind, decide_eq_true_eq, ih fd₁ hbuf']
        by_cases hb : b = delim
        · rw [if_pos hb, if_pos hb]
          rfl
        · rw [if_neg hb, if_neg hb, Option.map_bind]
          cases readBytes g v (fun byte => byte = delim) n fd₁ with
          | none => rfl
          | some r =>
            simp only [Option.map_some, Option.bind_some, Function.comp, stored_stored hi, List.length_cons]
            rw [Nat.add_assoc, Nat.add_comm 1]
      · simp at hone

theorem length_readBytes {stop : UInt8 → Bool} {fd : Fat.FileDescriptor} {r : List UInt8 × Fat.FileDescriptor}
    (h : readBytes g v stop n fd = some r) : r.1.length ≤ n := by
  induction n generalizing fd r with
  | zero =>
    cases h
    exact Nat.le_refl 0
  | succ n ih =>
    obtain ⟨⟨bytes, fd₁⟩, -, h⟩ := Option.bind_eq_some_iff.mp h
    cases bytes with
    | nil =>
      cases h
      exact Nat.zero_le _
    | cons b bytes =>
      dsimp only at h
      split at h
      · cases h
        exact Nat.succ_le_succ (Nat.zero_le n)
      · obtain ⟨⟨rest, fd₂⟩, hrest, h⟩ := Option.bind_eq_some_iff.mp h
        cases h
        exact Nat.succ_le_succ (ih hrest)

/-- **Read from a file**, `ReadDelim` stores what `DuvuvurKernel.readDelim` reads, and a NUL. -/
theorem readDelim_fat (fd : Fat.FileDescriptor) (hlen : 1 ≤ len.toNat) (hbuf : len.toNat ≤ buf.length) :
    readDelim (fat g v) delim len buf fd = (DuvuvurKernel.readDelim g v delim len.toNat fd).map fun r =>
      (r.1.length, r.1 ++ 0 :: buf.drop (r.1.length + 1), r.2) := by
  have hsub : (len - 1).toNat = len.toNat - 1 := UInt64.toNat_sub_of_le len 1 hlen
  have hloop := readDelimLoop_fat (g := g) (v := v) delim fd (show 0 + (len.toNat - 1) ≤ buf.length by omega)
  rw [readDelim, hsub, hloop, DuvuvurKernel.readDelim]
  cases hread : readBytes g v (fun byte => byte = delim) (len.toNat - 1) fd with
  | none => rfl
  | some r =>
    have hle : r.1.length ≤ len.toNat - 1 := length_readBytes hread
    simp only [Option.map_some, Option.bind_eq_bind, Option.bind_some, Nat.zero_add,
      store_nul (show r.1.length < buf.length by omega)]

/-- A file of three letters, read into a buffer of three bytes. -/
theorem readDelim_pieces_letters : ∃ results,
    Calls (fat smallBPB (letterFile 3)) lineFeed 3 [0, 0, 0] { entry := ⟨2, 0⟩ } results ∧
      (∀ results', Calls (fat smallBPB (letterFile 3)) lineFeed 3 [0, 0, 0] { entry := ⟨2, 0⟩ } results' →
        results' = results) ∧
      Pieces lineFeed 3 [97, 97, 97] results := by
  have hfile := wellFormedFile_letterFile 3 (by decide)
  have hbytes : restOf smallBPB (letterFile 3) ⟨2, 0⟩ [3, 4, 5] 0 = [97, 97, 97] := fileBytes_letterFile 3 3
  exact readDelim_pieces (isStream_fat wellFormed_smallBPB hfile) lineFeed (by decide) (by decide)
    ⟨0, .new _, hbytes.symm⟩

end DuvuvurKernel.File
