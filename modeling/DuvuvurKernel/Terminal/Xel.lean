import DuvuvurKernel.Fat.Chunking
import DuvuvurKernel.Lib.Lines
import DuvuvurKernel.Lib.Loops
import Mathlib.Data.List.TakeWhile

/-!
# Printing a file

`terminal.cpp`: the command `xel` prints a file that looks like a text. It reads a line at a time into a buffer of 1024
bytes, and has `PrintToFD` (`file.cpp`) format it into one of 128.

## The model

`ReadBinary` and `ReadDelim` read byte by byte, as far as a byte at which they stop. `vsprintf` copies its string up to
the first NUL; it is undefined where this does not fit in the buffer. What a short file leaves of the buffer of
`sniff_file_entry` is not initialized, and compared with the headers all the same. What `xel` writes does not go into
the file that it reads.

**Result** (`xel_copies_iff`): which texts `xel` writes as they are.
-/

namespace DuvuvurKernel

open Fat Lib.Lines Lib.Loops

/-- `'\n'`. -/
def lineFeed : UInt8 := 10

/-- What `sniff_file_entry` tells from a file. -/
inductive FileType where
  /-- A directory. -/
  | chesta
  /-- An image. -/
  | aklurptia
  /-- A text. -/
  | krantie
  deriving DecidableEq

/-- `png_header`. -/
def pngHeader : List UInt8 := [0x89, 0x50, 0x4e, 0x47, 0x0d, 0x0a, 0x1a, 0x0a]

/-- `jpg_header`. -/
def jpgHeader : List UInt8 := [0xff, 0xd8, 0xff]

/-- The length of `u8buf`. -/
def kLineBuffer : ℕ := 1024

/-- The length of `s` in `PrintToFD`. -/
def kPrintBuffer : ℕ := 128

section

variable (g : BPB) (v : Volume)

/-- Bytes are read one by one, up to one at which to stop, and `n` at most. -/
def readBytes (stop : UInt8 → Bool) : ℕ → FileDescriptor → Option (List UInt8 × FileDescriptor)
  | 0, fd => some ([], fd)
  | n + 1, fd => do
    let (bytes, fd) ← fd.read g v 1
    match bytes with
    | [] => some ([], fd)
    | byte :: _ =>
      if stop byte then some ([byte], fd)
      else
        let (rest, fd) ← readBytes stop n fd
        some (byte :: rest, fd)

/-- `ReadBinary`. -/
def readBinary (len : ℕ) (fd : FileDescriptor) : Option (List UInt8 × FileDescriptor) :=
  readBytes g v (fun _ => false) len fd

/-- `ReadDelim`; behind the bytes it stores a NUL. -/
def readDelim (delim : UInt8) (len : ℕ) (fd : FileDescriptor) : Option (List UInt8 × FileDescriptor) :=
  readBytes g v (fun byte => byte = delim) (len - 1) fd

/-- `sniff_file_entry`, with what is in the buffer before the file is read. -/
def sniffFileEntry (stack : ℕ → UInt8) (e : EntryPtr) : Option FileType :=
  if v.attr e = kDirectory then some .chesta
  else do
    let (bytes, _) ← readBinary g v kLineBuffer { entry := e }
    let u8buf := fun k => bytes[k]?.getD (stack k)
    if (List.range pngHeader.length).map u8buf = pngHeader ∨ (List.range jpgHeader.length).map u8buf = jpgHeader then
      some .aklurptia
    else some .krantie

/-- The descriptor from which `xel` copies the file it has found, if it does. -/
def xelSource (stack : ℕ → UInt8) (e : EntryPtr) (postSlash : Bool) : Option (Option FileDescriptor) := do
  match ← sniffFileEntry g v stack e with
  | .krantie => if v.attr e ≠ kDirectory ∧ postSlash then some none else some (some { entry := e })
  | _ => some none

/-- `PrintToFD` with the format `"%s"`: what it writes. -/
def printToFD (s : List UInt8) : Option (List UInt8) :=
  let text := s.takeWhile (· ≠ 0)
  if text.length < kPrintBuffer then some text else none

/-- A round of the loop of `xel`, with the descriptor and what has been written. -/
def xelRound (s : FileDescriptor × List UInt8) : Option (Next (FileDescriptor × List UInt8) (List UInt8)) := do
  let (line, fd) ← readDelim g v lineFeed kLineBuffer s.1
  if line = [] then some (.done s.2)
  else
    let text ← printToFD line
    some (.goOn (fd, s.2 ++ text))

/-- `xel` writes the bytes to its standard output, for the file that its argument leads to. -/
def XelWrites (stack : ℕ → UInt8) (e : EntryPtr) (out : List UInt8) : Prop :=
  ∃ fd, xelSource g v stack e false = some (some fd) ∧ Returns (xelRound g v) (fd, []) out

end

/-- A line ends with a line feed. -/
def isLineFeed (byte : UInt8) : Bool := byte = lineFeed

/-- What gets through: no NUL, and no line that is too long. -/
structure Printable (bytes : List UInt8) : Prop where
  nonzero : 0 ∉ bytes
  short : ∀ line ∈ lines isLineFeed bytes, line.length < kPrintBuffer

variable {g : BPB} {v : Volume} {e : EntryPtr} {cs : List ℕ} {fd : FileDescriptor} {q n : ℕ} {stop : UInt8 → Bool}
  {out r bytes : List UInt8} {stack : ℕ → UInt8}

/-! ### Reading byte by byte -/

/-- The bytes of a file behind the first `q`. -/
def restOf (g : BPB) (v : Volume) (e : EntryPtr) (cs : List ℕ) (q : ℕ) : List UInt8 :=
  v.fileBytes g cs q (v.fileSize e - q)

theorem drop_restOf (n : ℕ) (h : q + n ≤ v.fileSize e) : (restOf g v e cs q).drop n = restOf g v e cs (q + n) := by
  rw [restOf, restOf, drop_fileBytes, Nat.min_eq_left (Nat.le_sub_of_add_le' h), Nat.sub_sub]

/-- They deliver the first line, as far as there is room for it. -/
theorem readBytes_spec (hg : g.WellFormed) (h : WellFormedFile g v e cs) (hfd : fd.HasRead g v e cs q)
    (stop : UInt8 → Bool) (n : ℕ) :
    ∃ fd', readBytes g v stop n fd = some ((firstLine stop (restOf g v e cs q)).take n, fd') ∧
      fd'.HasRead g v e cs (q + ((firstLine stop (restOf g v e cs q)).take n).length) := by
  induction n generalizing fd q with
  | zero => exact ⟨fd, rfl, hfd⟩
  | succ n ih =>
    obtain ⟨fd₁, hread, hfd₁⟩ := h.read hg hfd 1
    rw [readBytes, hread]
    simp only [Option.bind_eq_bind, Option.bind_some]
    rcases Nat.eq_or_lt_of_le hfd.le with rfl | hlt
    · rw [Nat.sub_self, Nat.min_zero] at hfd₁
      rw [restOf, Nat.sub_self, Nat.min_zero]
      exact ⟨fd₁, rfl, hfd₁⟩
    · have hone : min 1 (v.fileSize e - q) = 1 := Nat.min_eq_left (Nat.sub_pos_of_lt hlt)
      have hrest : restOf g v e cs q = v.fileByte g cs q :: restOf g v e cs (q + 1) := by
        rw [restOf, show v.fileSize e - q = 1 + (v.fileSize e - (q + 1)) by omega, fileBytes_add]
        rfl
      rw [hone] at hfd₁ ⊢
      rw [hrest, firstLine]
      have hbyte : v.fileBytes g cs q 1 = [v.fileByte g cs q] := rfl
      rw [hbyte]
      by_cases hstop : stop (v.fileByte g cs q) = true
      · simp only [hstop, if_true]
        rw [List.take_succ_cons, List.take_nil]
        exact ⟨fd₁, rfl, hfd₁⟩
      · obtain ⟨fd', hloop, hfd'⟩ := ih hfd₁
        simp only [hstop, hloop, Bool.false_eq_true, if_false, Option.bind_some]
        refine ⟨fd', rfl, ?_⟩
        rw [List.take_succ_cons, List.length_cons, Nat.add_comm _ 1, ← Nat.add_assoc]
        exact hfd'

/-! ### The loop -/

theorem printable_nil : Printable [] := ⟨List.not_mem_nil, fun _ hline => absurd hline List.not_mem_nil⟩

/-- The first line, and the others. -/
theorem printable_iff (h : bytes ≠ []) : Printable bytes ↔
    (0 ∉ firstLine isLineFeed bytes ∧ (firstLine isLineFeed bytes).length < kPrintBuffer) ∧
      Printable (bytes.drop (firstLine isLineFeed bytes).length) := by
  have hmem : 0 ∉ bytes ↔ 0 ∉ firstLine isLineFeed bytes ∧
      0 ∉ bytes.drop (firstLine isLineFeed bytes).length := by
    conv_lhs => rw [← firstLine_append_drop isLineFeed bytes]
    rw [List.mem_append, not_or]
  constructor
  · rintro ⟨hzero, hlines⟩
    rw [lines_eq _ h, List.forall_mem_cons] at hlines
    exact ⟨⟨(hmem.mp hzero).1, hlines.1⟩, (hmem.mp hzero).2, hlines.2⟩
  · rintro ⟨⟨hzero, hline⟩, hzero', hlines⟩
    refine ⟨hmem.mpr ⟨hzero, hzero'⟩, ?_⟩
    rw [lines_eq _ h, List.forall_mem_cons]
    exact ⟨hline, hlines⟩

theorem printToFD_of_printable (hzero : 0 ∉ bytes) (hlen : bytes.length < kPrintBuffer) :
    printToFD bytes = some bytes := by
  have htext : bytes.takeWhile (· ≠ 0) = bytes :=
    List.takeWhile_eq_self_iff.mpr fun b hb => decide_eq_true fun h0 => hzero (h0 ▸ hb)
  rw [printToFD, htext]
  exact if_pos hlen

/-- What is written is no longer than what is read, and as long if there is no NUL and it fits. -/
theorem of_printToFD (h : printToFD bytes = some r) : r.length ≤ bytes.length ∧
    (r.length = bytes.length → 0 ∉ bytes ∧ bytes.length < kPrintBuffer) := by
  rw [printToFD] at h
  split at h
  next hlen =>
    cases h
    have hpre := List.takeWhile_prefix (p := fun b : UInt8 => decide (b ≠ 0)) (l := bytes)
    refine ⟨hpre.length_le, fun heq => ?_⟩
    have hself := hpre.eq_of_length heq
    refine ⟨fun h0 => ?_, heq ▸ hlen⟩
    exact absurd (List.takeWhile_eq_self_iff.mp hself 0 h0) (by decide)
  next => cases h

/-- What the loop reads of the line at byte `q`. -/
def lineAt (g : BPB) (v : Volume) (e : EntryPtr) (cs : List ℕ) (q : ℕ) : List UInt8 :=
  (firstLine isLineFeed (restOf g v e cs q)).take (kLineBuffer - 1)

/-- A round of the loop. -/
theorem xelRound_eq (hg : g.WellFormed) (h : WellFormedFile g v e cs) (hfd : fd.HasRead g v e cs q) (out : List UInt8) :
    ∃ fd', fd'.HasRead g v e cs (q + (lineAt g v e cs q).length) ∧
      xelRound g v (fd, out) =
        if lineAt g v e cs q = [] then some (.done out)
        else (printToFD (lineAt g v e cs q)).map fun text => .goOn (fd', out ++ text) := by
  obtain ⟨fd', hread, hfd'⟩ := readBytes_spec hg h hfd isLineFeed (kLineBuffer - 1)
  refine ⟨fd', hfd', ?_⟩
  have hdelim : readDelim g v lineFeed kLineBuffer fd = some (lineAt g v e cs q, fd') := hread
  rw [xelRound, hdelim]
  simp only [Option.bind_eq_bind, Option.bind_some, Option.map_eq_bind]
  rfl

/-- What is left to be read gets shorter by it. -/
theorem length_restOf (hle : q + (lineAt g v e cs q).length ≤ v.fileSize e) : (restOf g v e cs q).length =
    (lineAt g v e cs q).length + (restOf g v e cs (q + (lineAt g v e cs q).length)).length := by
  rw [← drop_restOf _ hle, List.length_drop, Nat.add_sub_cancel']
  exact (List.length_take_le' _ _).trans (firstLine_isPrefix _ _).length_le

theorem lineAt_eq_nil_iff : lineAt g v e cs q = [] ↔ restOf g v e cs q = [] := by
  constructor
  · intro hnil
    by_contra hne
    exact (List.take_eq_nil_iff.mp hnil).elim (by decide) (firstLine_ne_nil _ hne)
  · intro hnil
    rw [lineAt, hnil]
    rfl

/-- A line that is short enough is read as a whole. -/
theorem lineAt_eq
    (h : (lineAt g v e cs q).length < kPrintBuffer ∨ (firstLine isLineFeed (restOf g v e cs q)).length < kPrintBuffer) :
    lineAt g v e cs q = firstLine isLineFeed (restOf g v e cs q) := by
  refine List.take_of_length_le ?_
  rw [lineAt, List.length_take, kLineBuffer, kPrintBuffer] at h
  rw [kLineBuffer]
  omega

/-- The loop writes what gets through. -/
theorem returns_of_printable (hg : g.WellFormed) (h : WellFormedFile g v e cs) (hfd : fd.HasRead g v e cs q)
    (hp : Printable (restOf g v e cs q)) (out : List UInt8) :
    Returns (xelRound g v) (fd, out) (out ++ restOf g v e cs q) := by
  generalize hn : v.fileSize e - q = n
  induction n using Nat.strong_induction_on generalizing fd q out with
  | _ n ih =>
    obtain ⟨fd', hfd', hround⟩ := xelRound_eq hg h hfd out
    by_cases hnil : restOf g v e cs q = []
    · rw [if_pos (lineAt_eq_nil_iff.mpr hnil)] at hround
      rw [hnil, List.append_nil]
      exact .done hround
    · obtain ⟨⟨hzero, hlen⟩, hrest⟩ := (printable_iff hnil).mp hp
      have hline := lineAt_eq (.inr hlen)
      rw [if_neg (lineAt_eq_nil_iff.not.mpr hnil), hline, printToFD_of_printable hzero hlen, Option.map_some] at hround
      rw [hline] at hfd'
      rw [drop_restOf _ hfd'.le] at hrest
      have hpos := List.length_pos_iff.mpr (firstLine_ne_nil isLineFeed hnil)
      have hle := hfd'.le
      have hreturns := ih _ (by omega) hfd' hrest (out ++ firstLine isLineFeed (restOf g v e cs q)) rfl
      rw [List.append_assoc, ← drop_restOf _ hfd'.le, firstLine_append_drop] at hreturns
      exact .goOn hround hreturns

/-- And no more than that: what it writes is shorter if not everything gets through. -/
theorem of_returns_xel (hg : g.WellFormed) (h : WellFormedFile g v e cs) {s : FileDescriptor × List UInt8}
    (hr : Returns (xelRound g v) s r) (hfd : s.1.HasRead g v e cs q) :
    r.length ≤ s.2.length + (restOf g v e cs q).length ∧
      (r.length = s.2.length + (restOf g v e cs q).length → Printable (restOf g v e cs q)) := by
  induction hr generalizing q with
  | @done s r hround =>
    obtain ⟨fd, out⟩ := s
    obtain ⟨fd', -, hround'⟩ := xelRound_eq hg h hfd out
    rw [hround'] at hround
    split at hround
    next hnil =>
      cases hround
      rw [lineAt_eq_nil_iff.mp hnil]
      exact ⟨Nat.le_refl _, fun _ => printable_nil⟩
    next =>
      obtain ⟨text, -, hgo⟩ := Option.map_eq_some_iff.mp hround
      cases hgo
  | @goOn s s' r hround _ ih =>
    obtain ⟨fd, out⟩ := s
    obtain ⟨fd', hfd', hround'⟩ := xelRound_eq hg h hfd out
    rw [hround'] at hround
    split at hround
    next => cases hround
    next hne =>
      obtain ⟨text, htext, hgo⟩ := Option.map_eq_some_iff.mp hround
      cases hgo
      obtain ⟨hle, hall⟩ := ih hfd'
      obtain ⟨htext_le, htext_all⟩ := of_printToFD htext
      have hrest := length_restOf hfd'.le
      simp only [List.length_append] at hle hall ⊢
      refine ⟨by omega, fun heq => ?_⟩
      -- Everything has been written of the line, and of the rest.
      obtain ⟨hzero, hlen⟩ := htext_all (by omega)
      have hprintable := hall (by omega)
      have hline := lineAt_eq (.inl hlen)
      rw [hline] at hzero hlen hprintable hfd'
      rw [← drop_restOf _ hfd'.le] at hprintable
      exact (printable_iff (lineAt_eq_nil_iff.not.mp hne)).mpr ⟨⟨hzero, hlen⟩, hprintable⟩

/-- A text is copied from a new descriptor. -/
theorem xelWrites_iff (hsniff : sniffFileEntry g v stack e = some .krantie) :
    XelWrites g v stack e out ↔ Returns (xelRound g v) ({ entry := e }, []) out := by
  have hsource : xelSource g v stack e false = some (some { entry := e }) := by
    rw [xelSource, hsniff]
    simp
  rw [XelWrites, hsource]
  simp

/-- **What `xel` writes** of a text is the text, if and only if it has no NUL and each of its lines, with the line feed,
has at most 127 bytes. -/
theorem xel_copies_iff (hg : g.WellFormed) (h : WellFormedFile g v e cs)
    (hsniff : sniffFileEntry g v stack e = some .krantie) :
    XelWrites g v stack e (v.fileBytes g cs 0 (v.fileSize e)) ↔ Printable (v.fileBytes g cs 0 (v.fileSize e)) := by
  rw [xelWrites_iff hsniff]
  constructor
  · intro hr
    exact (of_returns_xel hg h hr (.new cs)).2 (Nat.zero_add _).symm
  · intro hp
    exact returns_of_printable hg h (.new cs) hp []

/-- A file that begins like no image is a text. -/
theorem sniffFileEntry_eq (hg : g.WellFormed) (h : WellFormedFile g v e cs) (hattr : v.attr e ≠ kDirectory)
    {byte : UInt8} (hbyte : byte ∈ (restOf g v e cs 0).head?) (hpng : byte ≠ 0x89) (hjpg : byte ≠ 0xff)
    (stack : ℕ → UInt8) :
    sniffFileEntry g v stack e = some .krantie := by
  obtain ⟨fd', hread, -⟩ := readBytes_spec hg h (FileDescriptor.HasRead.new cs) (fun _ => false) kLineBuffer
  have hbinary : readBinary g v kLineBuffer { entry := e } = some (_, fd') := hread
  rw [sniffFileEntry, if_neg hattr, hbinary]
  simp only [Option.bind_eq_bind, Option.bind_some]
  obtain ⟨rest, hrest⟩ := List.head?_eq_some_iff.mp hbyte
  rw [hrest, firstLine, kLineBuffer, List.take_succ_cons]
  refine if_neg ?_
  rintro (hheader | hheader)
  · exact hpng (List.cons.inj hheader).1
  · exact hjpg (List.cons.inj hheader).1

/-! ### Files of letters -/

/-- A volume with a file that consists of the letter `a`. -/
def letterFile (size : UInt8) : Volume where
  fat := fun cluster =>
    if cluster = 3 then 4 else if cluster = 4 then 5 else if cluster = 2 ∨ cluster = 5 then kEndOfClusterchain else 0
  data := fun cluster o => if cluster = 2 then (if o = 26 then 3 else if o = 28 then size else 0) else 97

theorem fileSize_letterFile (size : UInt8) : (letterFile size).fileSize ⟨2, 0⟩ = size.toNat := rfl

theorem wellFormedFile_letterFile (size : UInt8) (h : size.toNat ≤ 192) :
    WellFormedFile smallBPB (letterFile size) ⟨2, 0⟩ [3, 4, 5] where
  clusters := .inr ⟨.cons rfl (.cons rfl (.last rfl)), by decide⟩
  size_le := h
  data := by decide

theorem fileBytes_letterFile (size : UInt8) (n : ℕ) :
    (letterFile size).fileBytes smallBPB [3, 4, 5] 0 n = List.replicate n 97 := by
  rw [Volume.fileBytes, List.eq_replicate_iff]
  refine ⟨by simp, fun b hb => ?_⟩
  obtain ⟨k, -, rfl⟩ := List.mem_map.mp hb
  rw [Volume.fileByte]
  have hcluster : ∀ j : ℕ, ([3, 4, 5] : List ℕ)[j]?.getD 0 ≠ 2 := by
    intro j
    rcases j with _ | _ | _ | j <;> simp
  exact if_neg (hcluster _)

theorem firstLine_letters (n : ℕ) : firstLine isLineFeed (List.replicate n 97) = List.replicate n 97 := by
  induction n with
  | zero => rfl
  | succ n ih =>
    rw [List.replicate_succ, firstLine, ih]
    exact congrArg _ (if_neg (by decide))

theorem sniffFileEntry_letterFile (size : UInt8) (h : size.toNat ≤ 192) (hpos : 0 < size.toNat) (stack : ℕ → UInt8) :
    sniffFileEntry smallBPB (letterFile size) stack ⟨2, 0⟩ = some .krantie := by
  have hfirst : (97 : UInt8) ∈ (restOf smallBPB (letterFile size) ⟨2, 0⟩ [3, 4, 5] 0).head? := by
    rw [restOf, fileBytes_letterFile, fileSize_letterFile, Nat.sub_zero]
    obtain ⟨n, hn⟩ := Nat.exists_eq_succ_of_ne_zero hpos.ne'
    rw [hn]
    rfl
  have hattr : (letterFile size).attr ⟨2, 0⟩ ≠ kDirectory := show (0 : UInt8) ≠ kDirectory by decide
  exact sniffFileEntry_eq wellFormed_smallBPB (wellFormedFile_letterFile size h) hattr hfirst
    (by decide) (by decide) stack

/-- Three letters are printed. -/
theorem xel_copies_letters : XelWrites smallBPB (letterFile 3) (fun _ => 0) ⟨2, 0⟩ [97, 97, 97] := by
  have hfile := wellFormedFile_letterFile 3 (by decide)
  refine (xel_copies_iff wellFormed_smallBPB hfile (sniffFileEntry_letterFile 3 (by decide) (by decide) _)).mpr ?_
  rw [fileBytes_letterFile]
  exact ⟨by decide, by decide⟩

/-- A line of 128 letters overflows the buffer of `PrintToFD`. -/
theorem not_xelWrites_longLine : sniffFileEntry smallBPB (letterFile 128) (fun _ => 0) ⟨2, 0⟩ = some .krantie ∧
    ¬ XelWrites smallBPB (letterFile 128) (fun _ => 0) ⟨2, 0⟩ (List.replicate 128 97) := by
  have hfile := wellFormedFile_letterFile 128 (by decide)
  have hsniff := sniffFileEntry_letterFile 128 (by decide) (by decide) fun _ => 0
  refine ⟨hsniff, fun hx => ?_⟩
  have hrest : restOf smallBPB (letterFile 128) ⟨2, 0⟩ [3, 4, 5] 0 = List.replicate 128 97 :=
    fileBytes_letterFile 128 128
  have hr := (of_returns_xel wellFormed_smallBPB hfile ((xelWrites_iff hsniff).mp hx) (.new _)).2
  have hne : List.replicate 128 (97 : UInt8) ≠ [] := by decide
  rw [hrest, printable_iff hne, firstLine_letters, List.length_replicate] at hr
  exact absurd (hr (Nat.zero_add _).symm).1.2 (Nat.lt_irrefl 128)

end DuvuvurKernel
