import DuvuvurKernel.Task.Message
import Mathlib.Data.List.Basic
import Mathlib.Tactic

/-!
# Pipes

`terminal.cpp`: `PipeDescriptor`. The writer cuts its bytes into messages of at most 16
bytes and sends them to the task that reads; the reader cuts them again, into whatever
lengths it asks for, and keeps what is left of a message in `data_`. A message without
bytes marks the end.

## The model

`Write` and `Read` are not atomic: between two messages of a `Write`, and between two
rounds of the loop of a `Read`, anything else may happen. So a `Stream` holds what the
current `Write` has still to send (`rest`) and the length of the `Read` that is in its
loop (`reading`). A round that finds no message puts the reader to sleep and changes
nothing. Messages of other types arrive at any time.

**Result** (`stream_law`): the bytes returned are a prefix of the bytes written, no
`Read` returns more than it was asked for, and a `Read` returns 0 only at the end.
-/

namespace DuvuvurKernel

/-- `PipeDescriptor`: `data_` as far as `len_`, and `closed_`. -/
structure PipeDescriptor where
  /-- `data_`, of which `len_` bytes are left to be read. -/
  data : List UInt8
  /-- `closed_`. -/
  closed : Bool
  deriving DecidableEq

/-- `sizeof(msg.arg.pipe.data)`. -/
def kPipeData : ℕ := 16

/-- The message `Write` and `FinishWrite` send. -/
def pipeMessage (data : List UInt8) : Message := { srcTask := 0, arg := .pipe data }

namespace PipeDescriptor

/-- A new descriptor. -/
def new : PipeDescriptor := { data := [], closed := false }

/-- `Read` before its loop: the bytes returned, if it does not come to the loop. -/
def readLeft (fd : PipeDescriptor) (len : ℕ) : Option (List UInt8 × PipeDescriptor) :=
  if 0 < fd.data.length then some (fd.data.take len, { fd with data := fd.data.drop len })
  else if fd.closed then some ([], fd)
  else none

/-- A round of the loop of `Read` that has received a message: the bytes returned, if it does not
go on. -/
def readMessage (fd : PipeDescriptor) (len : ℕ) : MessageArg → Option (List UInt8 × PipeDescriptor)
  | .pipe data =>
    if data.length = 0 then some ([], { fd with closed := true })
    else some (data.take len, { fd with data := data.drop len })
  | _ => none

end PipeDescriptor

/-- A pipe between its writer and the task that reads it. -/
structure Stream where
  /-- The descriptor. -/
  fd : PipeDescriptor
  /-- The message queue of the task that reads. -/
  msgs : List Message
  /-- The length asked for by the `Read` that is in its loop. -/
  reading : Option ℕ
  /-- What the current `Write` has still to send. -/
  rest : List UInt8
  /-- Whether `FinishWrite` has been called. -/
  finished : Bool
  /-- The bytes of all calls of `Write`. -/
  written : List UInt8
  /-- What each `Read` was asked for and has returned. -/
  reads : List (ℕ × List UInt8)

/-- What happens next. -/
inductive Stream.Action where
  /-- `Write` is called. -/
  | write (bytes : List UInt8)
  /-- `Write` sends its next message. -/
  | send
  /-- `FinishWrite` is called. -/
  | finishWrite
  /-- A message of another type arrives. -/
  | arrive (msg : Message)
  /-- `Read` is called. -/
  | read (len : ℕ)
  /-- A round of the loop of `Read`. -/
  | receive

namespace Stream

/-- A new pipe, whose reader may have messages waiting. -/
def init (msgs : List Message) : Stream where
  fd := PipeDescriptor.new
  msgs := msgs
  reading := none
  rest := []
  finished := false
  written := []
  reads := []

/-- The bytes in the pipe messages of a queue, message by message. -/
def pipes (msgs : List Message) : List (List UInt8) :=
  msgs.filterMap fun msg => match msg.arg with
    | .pipe data => some data
    | _ => none

/-- The `Read` that is asked for `len` bytes returns. -/
def finishRead (s : Stream) (len : ℕ) (bytes : List UInt8) (fd : PipeDescriptor) : Stream :=
  { s with fd := fd, reading := none, reads := s.reads ++ [(len, bytes)] }

/-- What an action does. The writer and the reader do one thing at a time, and nothing is
written after `FinishWrite`; a length asked for is positive. -/
def perform (s : Stream) : Action → Option Stream
  | .write bytes =>
    if s.rest = [] ∧ s.finished = false then
      some { s with rest := bytes, written := s.written ++ bytes }
    else none
  | .send =>
    if s.rest ≠ [] then
      some { s with msgs := s.msgs ++ [pipeMessage (s.rest.take kPipeData)], rest := s.rest.drop kPipeData }
    else none
  | .finishWrite =>
    if s.rest = [] ∧ s.finished = false then
      some { s with msgs := s.msgs ++ [pipeMessage []], finished := true }
    else none
  | .arrive msg =>
    if pipes [msg] = [] then some { s with msgs := s.msgs ++ [msg] } else none
  | .read len =>
    if s.reading = none ∧ 0 < len then
      match s.fd.readLeft len with
      | some (bytes, fd) => some (s.finishRead len bytes fd)
      | none => some { s with reading := some len }
    else none
  | .receive =>
    match s.reading, s.msgs with
    | some len, msg :: msgs =>
      match s.fd.readMessage len msg.arg with
      | some (bytes, fd) => some ({ s with msgs := msgs }.finishRead len bytes fd)
      | none => some { s with msgs := msgs }
    | _, _ => none

/-- The states a pipe can be in. -/
inductive Reachable : Stream → Prop where
  /-- A new pipe; no pipe message has been sent to its reader. -/
  | init (msgs : List Message) : pipes msgs = [] → Reachable (init msgs)
  /-- Any action. -/
  | step {s s' : Stream} (a : Action) : Reachable s → s.perform a = some s' → Reachable s'

/-! ### The invariant -/

@[simp] theorem pipes_append (msgs msgs' : List Message) : pipes (msgs ++ msgs') = pipes msgs ++ pipes msgs' :=
  List.filterMap_append

@[simp] theorem pipes_pipeMessage (data : List UInt8) : pipes [pipeMessage data] = [data] := rfl

/-- The bytes returned so far. -/
def returned (s : Stream) : List UInt8 := s.reads.flatMap Prod.snd

/-- What holds of a pipe in every state. -/
structure Inv (s : Stream) : Prop where
  /-- A byte that has been written is returned, left over, on its way or still to be sent. -/
  bytes : s.written = s.returned ++ (s.fd.data ++ ((pipes s.msgs).flatten ++ s.rest))
  /-- Before `FinishWrite` no end mark is on its way. -/
  unfinished : s.finished = false → [] ∉ pipes s.msgs
  /-- `FinishWrite` comes after the writes. -/
  finished : s.finished = true → s.rest = []
  /-- The end mark comes last. -/
  marked : s.finished = true → s.fd.closed = false → ∃ chunks, pipes s.msgs = chunks ++ [[]] ∧ [] ∉ chunks
  /-- After the end mark nothing comes. -/
  closed : s.fd.closed = true → s.finished = true ∧ s.fd.data = [] ∧ pipes s.msgs = []
  /-- A `Read` comes to its loop when nothing is left over. -/
  reading : ∀ len, s.reading = some len → 0 < len ∧ s.fd.data = [] ∧ s.fd.closed = false
  /-- No `Read` returns more than it was asked for. -/
  length_le : ∀ r ∈ s.reads, r.2.length ≤ r.1
  /-- A `Read` returns nothing only after the end mark. -/
  empty : ∀ r ∈ s.reads, r.2 = [] → s.fd.closed = true
  /-- What is left over fits in `data_`. -/
  fits : s.fd.data.length ≤ kPipeData ∧ ∀ data ∈ pipes s.msgs, data.length ≤ kPipeData

variable {s s' : Stream} {len : ℕ} {bytes : List UInt8} {fd : PipeDescriptor}

theorem returned_finishRead (s : Stream) (len : ℕ) (bytes : List UInt8) (fd : PipeDescriptor) :
    (s.finishRead len bytes fd).returned = s.returned ++ bytes := by
  simp [returned, finishRead]

namespace Inv

theorem init {msgs : List Message} (h : pipes msgs = []) : (init msgs).Inv where
  bytes := by simp [Stream.init, returned, PipeDescriptor.new, h]
  unfinished _ := by simp [Stream.init, h]
  finished := by simp [Stream.init]
  marked := by simp [Stream.init]
  closed := by simp [Stream.init, PipeDescriptor.new]
  reading := by simp [Stream.init]
  length_le := by simp [Stream.init]
  empty := by simp [Stream.init]
  fits := by simp [Stream.init, PipeDescriptor.new, h]

theorem write (h : s.Inv) (hf : s.finished = false) (hr : s.rest = []) (bytes : List UInt8) :
    Inv { s with rest := bytes, written := s.written ++ bytes } where
  bytes := by
    change s.written ++ bytes = s.returned ++ _
    rw [h.bytes, hr]
    simp
  unfinished := h.unfinished
  finished hf' := by
    rw [hf] at hf'
    cases hf'
  marked := h.marked
  closed := h.closed
  reading := h.reading
  length_le := h.length_le
  empty := h.empty
  fits := h.fits

theorem send (h : s.Inv) (hr : s.rest ≠ []) :
    Inv { s with msgs := s.msgs ++ [pipeMessage (s.rest.take kPipeData)], rest := s.rest.drop kPipeData } := by
  have hf : s.finished = false := by
    by_contra hf
    exact hr (h.finished (by simpa using hf))
  have hc : s.fd.closed = false := by
    by_contra hc
    rw [(h.closed (by simpa using hc)).1] at hf
    cases hf
  refine { h with bytes := ?_, unfinished := ?_, finished := ?_, marked := ?_, closed := ?_, fits := ?_ }
  · change s.written = s.returned ++ _
    rw [h.bytes]
    simp
  · intro _
    have hne : s.rest.take kPipeData ≠ [] := by simpa [kPipeData] using hr
    simp only [pipes_append, pipes_pipeMessage, List.mem_append, List.mem_singleton, not_or]
    exact ⟨h.unfinished hf, hne.symm⟩
  · intro hf'
    rw [hf] at hf'
    cases hf'
  · intro hf'
    rw [hf] at hf'
    cases hf'
  · intro hc'
    rw [hc] at hc'
    cases hc'
  · refine ⟨h.fits.1, ?_⟩
    simp only [pipes_append, pipes_pipeMessage, List.mem_append, List.mem_singleton]
    rintro data (hd | rfl)
    · exact h.fits.2 data hd
    · simp

theorem finishWrite (h : s.Inv) (hf : s.finished = false) (hr : s.rest = []) :
    Inv { s with msgs := s.msgs ++ [pipeMessage []], finished := true } := by
  have hc : s.fd.closed = false := by
    by_contra hc
    rw [(h.closed (by simpa using hc)).1] at hf
    cases hf
  refine { h with bytes := ?_, unfinished := ?_, finished := fun _ => hr, marked := ?_, closed := ?_,
                  fits := ?_ }
  · change s.written = s.returned ++ _
    rw [h.bytes]
    simp
  · intro hf'
    cases hf'
  · intro _ _
    exact ⟨pipes s.msgs, by simp, h.unfinished hf⟩
  · intro hc'
    rw [hc] at hc'
    cases hc'
  · refine ⟨h.fits.1, ?_⟩
    simp only [pipes_append, pipes_pipeMessage, List.mem_append, List.mem_singleton]
    rintro data (hd | rfl)
    · exact h.fits.2 data hd
    · simp

/-- Messages of other types do not matter. -/
theorem of_pipes_eq (h : s.Inv) {msgs : List Message} (hm : pipes msgs = pipes s.msgs) :
    Inv { s with msgs := msgs } where
  bytes := by
    change s.written = s.returned ++ _
    rw [h.bytes, ← hm]
  unfinished := hm ▸ h.unfinished
  finished := h.finished
  marked := hm ▸ h.marked
  closed := hm ▸ h.closed
  reading := h.reading
  length_le := h.length_le
  empty := h.empty
  fits := hm ▸ h.fits

/-- A `Read` returns the beginning of some data and keeps the rest. -/
theorem finishRead (h : s.Inv) (hpos : 0 < len) {data : List UInt8} {msgs : List Message} (hd : data ≠ [])
    (hfit : data.length ≤ kPipeData) (hc : s.fd.closed = false)
    (hbytes : s.fd.data ++ (pipes s.msgs).flatten = data ++ (pipes msgs).flatten)
    (hsub : ∀ d ∈ pipes msgs, d ∈ pipes s.msgs)
    (hmarked : ∀ chunks, pipes s.msgs = chunks ++ [[]] → [] ∉ chunks →
      ∃ chunks', pipes msgs = chunks' ++ [[]] ∧ [] ∉ chunks') :
    Inv ({ s with msgs := msgs }.finishRead len (data.take len) { s.fd with data := data.drop len }) where
  bytes := by
    rw [returned_finishRead]
    change s.written = s.returned ++ data.take len ++ (data.drop len ++ ((pipes msgs).flatten ++ s.rest))
    rw [h.bytes, ← List.append_assoc s.fd.data, hbytes, List.append_assoc s.returned,
      ← List.append_assoc (data.take len), List.take_append_drop, List.append_assoc data]
  unfinished hf hmem := h.unfinished hf (hsub [] hmem)
  finished := h.finished
  marked hf _ := by
    obtain ⟨chunks, h1, h2⟩ := h.marked hf hc
    exact hmarked chunks h1 h2
  closed hc' := absurd (hc.symm.trans hc') (by decide)
  reading _ hlen := by cases hlen
  length_le r hr := by
    rcases List.mem_append.mp hr with hr | hr
    · exact h.length_le r hr
    · rw [List.mem_singleton.mp hr]
      exact List.length_take_le _ _
  empty r hr hnil := by
    rcases List.mem_append.mp hr with hr | hr
    · exact absurd (h.empty r hr hnil) (by simp [hc])
    · rw [List.mem_singleton.mp hr, List.take_eq_nil_iff] at hnil
      exact absurd (hnil.resolve_right hd) hpos.ne'
  fits := by
    constructor
    · exact (List.length_drop ▸ Nat.sub_le _ _).trans hfit
    · intro d hmem
      exact h.fits.2 d (hsub d hmem)

/-- A `Read` returns nothing, after the end mark. -/
theorem finishRead_nil (h : s.Inv) (hf : s.finished = true) (hd : s.fd.data = []) {msgs : List Message}
    (hm : pipes msgs = []) (hbytes : (pipes s.msgs).flatten = []) (len : ℕ) :
    Inv ({ s with msgs := msgs }.finishRead len [] { s.fd with closed := true }) where
  bytes := by
    rw [returned_finishRead]
    change s.written = s.returned ++ [] ++ (s.fd.data ++ ((pipes msgs).flatten ++ s.rest))
    rw [h.bytes, hbytes, hm, List.append_nil]
    rfl
  unfinished hf' := absurd (hf.symm.trans hf') (by decide)
  finished := h.finished
  marked _ hc := by cases hc
  closed _ := ⟨hf, hd, hm⟩
  reading _ hlen := by cases hlen
  length_le r hr := by
    rcases List.mem_append.mp hr with hr | hr
    · exact h.length_le r hr
    · rw [List.mem_singleton.mp hr]
      exact Nat.zero_le _
  empty _ _ _ := rfl
  fits := by
    refine ⟨h.fits.1, ?_⟩
    intro d hmem
    change d ∈ pipes msgs at hmem
    rw [hm] at hmem
    cases hmem

theorem read (h : s.Inv) (hpos : 0 < len) (hs : s.perform (.read len) = some s') : s'.Inv := by
  simp only [perform] at hs
  split at hs
  next hr =>
    unfold PipeDescriptor.readLeft at hs
    by_cases hd : 0 < s.fd.data.length
    · have hc : s.fd.closed = false := by
        by_contra hc
        rw [(h.closed (by simpa using hc)).2.1] at hd
        exact absurd hd (by decide)
      simp only [if_pos hd, Option.some.injEq] at hs
      rw [← hs]
      exact h.finishRead hpos (List.length_pos_iff.mp hd) h.fits.1 hc rfl (fun _ hd => hd)
        fun chunks h1 h2 => ⟨chunks, h1, h2⟩
    · have hnil : s.fd.data = [] := List.length_eq_zero_iff.mp (Nat.eq_zero_of_not_pos hd)
      by_cases hc : s.fd.closed = true
      · simp only [if_neg hd, if_pos hc, Option.some.injEq] at hs
        obtain ⟨hf, -, hm⟩ := h.closed hc
        have hr := h.finishRead_nil hf hnil hm (by rw [hm]; rfl) len
        rw [← hc] at hr
        rw [← hs]
        exact hr
      · simp only [if_neg hd, if_neg hc, Option.some.injEq] at hs
        rw [← hs]
        refine { h with reading := ?_ }
        intro len' hlen
        cases hlen
        exact ⟨hpos, hnil, by simpa using hc⟩
  next => cases hs

theorem receive (h : s.Inv) (hs : s.perform .receive = some s') : s'.Inv := by
  simp only [perform] at hs
  split at hs
  next len msg msgs hlen hmsgs =>
    obtain ⟨hpos, hd, hc⟩ := h.reading len hlen
    cases harg : msg.arg with
    | pipe data =>
      have hp : pipes s.msgs = data :: pipes msgs := by
        rw [hmsgs, pipes, List.filterMap_cons]
        simp [harg, pipes]
      simp only [harg, PipeDescriptor.readMessage] at hs
      by_cases hnil : data.length = 0
      · simp only [if_pos hnil, Option.some.injEq] at hs
        have hdata := List.length_eq_zero_iff.mp hnil
        rw [hdata] at hp
        have hf : s.finished = true := by
          by_contra hf
          exact h.unfinished (by simpa using hf) (hp ▸ List.mem_cons_self)
        obtain ⟨chunks, h1, h2⟩ := h.marked hf hc
        have hm : pipes msgs = [] := by
          cases chunks with
          | nil => exact (List.cons.inj (hp.symm.trans h1)).2
          | cons c chunks =>
            have hcons := (List.cons.inj (hp.symm.trans h1)).1
            exact absurd List.mem_cons_self (hcons ▸ h2)
        rw [← hs]
        exact h.finishRead_nil hf hd hm (by rw [hp, hm]; rfl) len
      · simp only [if_neg hnil, Option.some.injEq] at hs
        have hne : data ≠ [] := fun he => hnil (he ▸ rfl)
        rw [← hs]
        refine h.finishRead hpos hne (h.fits.2 data (hp ▸ List.mem_cons_self)) hc ?_ ?_ ?_
        · rw [hd, hp]
          rfl
        · intro d hmem
          rw [hp]
          exact List.mem_cons_of_mem _ hmem
        · intro chunks h1 h2
          cases chunks with
          | nil => exact absurd (List.cons.inj (hp.symm.trans h1)).1 hne
          | cons c chunks =>
            exact ⟨chunks, (List.cons.inj (hp.symm.trans h1)).2, fun hmem => h2 (List.mem_cons_of_mem _ hmem)⟩
    | _ =>
      have hp : pipes msgs = pipes s.msgs := by
        rw [hmsgs, pipes, pipes, List.filterMap_cons]
        simp [harg]
      simp only [harg, PipeDescriptor.readMessage, Option.some.injEq] at hs
      rw [← hs]
      exact h.of_pipes_eq hp
  next => cases hs

/-- Every action keeps the invariant. -/
theorem perform (h : s.Inv) {a : Action} (hs : s.perform a = some s') : s'.Inv := by
  cases a with
  | write bytes =>
    simp only [Stream.perform] at hs
    split at hs
    next hw => cases hs; exact h.write hw.2 hw.1 bytes
    next => cases hs
  | send =>
    simp only [Stream.perform] at hs
    split at hs
    next hr => cases hs; exact h.send hr
    next => cases hs
  | finishWrite =>
    simp only [Stream.perform] at hs
    split at hs
    next hw => cases hs; exact h.finishWrite hw.2 hw.1
    next => cases hs
  | arrive msg =>
    simp only [Stream.perform] at hs
    split at hs
    next hm => cases hs; exact h.of_pipes_eq (by rw [pipes_append, hm, List.append_nil])
    next => cases hs
  | read len =>
    have hpos : 0 < len := by
      by_contra hpos
      simp [Stream.perform, hpos] at hs
    exact h.read hpos hs
  | receive => exact h.receive hs

end Inv

theorem Reachable.inv (h : Reachable s) : s.Inv := by
  induction h with
  | init msgs hm => exact Inv.init hm
  | step a _ hs ih => exact ih.perform hs

/-- **The pipe stream law**: in every state the bytes returned are a prefix of the bytes written, no
`Read` has returned more bytes than it was asked for, and if one has returned none, `FinishWrite` has
been called and all bytes written have been returned. -/
theorem stream_law (h : Reachable s) :
    s.returned <+: s.written ∧ (∀ r ∈ s.reads, r.2.length ≤ r.1) ∧
      ((∃ r ∈ s.reads, r.2 = []) → s.finished = true ∧ s.returned = s.written) := by
  refine ⟨h.inv.bytes ▸ List.prefix_append _ _, h.inv.length_le, ?_⟩
  rintro ⟨r, hr, hnil⟩
  obtain ⟨hf, hd, hm⟩ := h.inv.closed (h.inv.empty r hr hnil)
  have hb := h.inv.bytes
  rw [hd, hm, h.inv.finished hf] at hb
  exact ⟨hf, by simpa using hb.symm⟩

/-- The state after a sequence of actions. -/
def run (s : Stream) (as : List Action) : Option Stream := as.foldlM perform s

theorem Reachable.run (h : Reachable s) (as : List Action) (hr : s.run as = some s') : Reachable s' := by
  induction as generalizing s with
  | nil =>
    cases hr
    exact h
  | cons a as ih =>
    obtain ⟨s₁, h1, h2⟩ := Option.bind_eq_some_iff.mp hr
    exact ih (.step a h h1) h2

/-- Two bytes are written, and read one by one; then the end is read. -/
theorem stream_law_example :
    ∃ s, Reachable s ∧ s.reads = [(1, [97]), (5, [98]), (3, [])] ∧
      s.finished = true ∧ s.returned = s.written := by
  have h : Reachable _ := (Reachable.init [] rfl).run
    [.write [97, 98], .read 1, .send, .receive, .read 5, .finishWrite, .read 3, .receive] rfl
  exact ⟨_, h, rfl, (stream_law h).2.2 ⟨(3, []), by decide, rfl⟩⟩

end Stream

end DuvuvurKernel
