import DuvuvurKernel.Terminal.Encoding

/-!
# The keyboard as standard input

`terminal.cpp`: `TerminalFileDescriptor::Read` waits for a key that is pressed, stores the encoding of its character in
the buffer, and returns 1. The length it has been asked for is not looked at, and the descriptor keeps nothing for the
next call.

## The model

Messages arrive at any time, also between two rounds of the loop of a `Read`. `ReadDelim` and `ReadBinary` ask for one
byte at a time; whoever calls goes on behind the bytes that have been returned, so that what is stored there is
overwritten.

**Result** (`faithful_iff`): which characters are read as they have been typed.
-/

namespace DuvuvurKernel

/-- The character of a key that is pressed, unless a control key is held. A key without a character has 0. -/
def keyCharacter : MessageArg → Option UInt32
  | .keyPush modifier _ unicode press =>
    if ¬ press then none
    else if modifier &&& kControlBitMask ≠ 0 then none
    else some unicode
  | _ => none

/-- A call of `Read` that has returned. -/
structure KeyboardRead where
  len : ℕ
  /-- The bytes it has stored. -/
  stored : List UInt8
  ret : ℕ

/-- The bytes that the caller has been told of. -/
def KeyboardRead.returned (r : KeyboardRead) : List UInt8 := r.stored.take r.ret

/-- A terminal from which an app reads. -/
structure KeyboardInput where
  /-- The message queue of `UnderlyingTask`. -/
  msgs : List Message
  /-- The length asked for by the `Read` that is in its loop. -/
  reading : Option ℕ
  /-- The messages that have arrived. -/
  arrived : List Message
  /-- The messages that have been taken off the queue. -/
  popped : List Message
  /-- The calls that have returned. -/
  reads : List KeyboardRead

/-- What happens next. -/
inductive KeyboardInput.Action where
  /-- A message arrives. -/
  | arrive (msg : Message)
  /-- `Read` is called. -/
  | read (len : ℕ)
  /-- A round of its loop. -/
  | round

namespace KeyboardInput

/-- Nothing has been read, and messages may be waiting. -/
def init (msgs : List Message) : KeyboardInput := ⟨msgs, none, msgs, [], []⟩

/-- What an action does. On an empty queue the task sleeps. -/
def perform (s : KeyboardInput) : Action → Option KeyboardInput
  | .arrive msg => some { s with msgs := s.msgs ++ [msg], arrived := s.arrived ++ [msg] }
  | .read len => if s.reading = none ∧ 0 < len then some { s with reading := some len } else none
  | .round =>
    match s.reading, s.msgs with
    | some len, msg :: msgs =>
      let s := { s with msgs := msgs, popped := s.popped ++ [msg] }
      match toTerminalInput msg.arg with
      | some bytes => some { s with reading := none, reads := s.reads ++ [⟨len, bytes, 1⟩] }
      | none => some s
    | _, _ => none

/-- The states in which a terminal can be. -/
inductive Reachable : KeyboardInput → Prop where
  /-- Nothing has been read. -/
  | init (msgs : List Message) : Reachable (init msgs)
  /-- Any action. -/
  | step {s s' : KeyboardInput} (a : Action) : Reachable s → s.perform a = some s' → Reachable s'

/-- The characters of the keys in a list of messages. -/
def typed (msgs : List Message) : List UInt32 := msgs.filterMap fun msg => keyCharacter msg.arg

/-- The bytes of the characters; keys without one contribute nothing. -/
def typedBytes (msgs : List Message) : List UInt8 := encode ((typed msgs).filter (· ≠ 0))

/-- The bytes that all calls have returned. -/
def returned (s : KeyboardInput) : List UInt8 := s.reads.flatMap KeyboardRead.returned

/-- What has been read is what has been typed. -/
structure Faithful (s : KeyboardInput) : Prop where
  /-- No call stores more than there is room for. -/
  fits : ∀ r ∈ s.reads, r.stored.length ≤ r.len
  /-- The bytes come in the order in which they have been typed. -/
  order : s.returned <+: typedBytes s.arrived
  /-- None is lost. -/
  complete : s.returned ++ typedBytes s.msgs = typedBytes s.arrived
  /-- None is overwritten: the next call begins behind those that are stored. -/
  kept : ∀ r ∈ s.reads, r.stored.length ≤ r.ret

variable {s s' : KeyboardInput} {c : UInt32}

/-! ### The encoding -/

theorem toTerminalInput_eq (arg : MessageArg) : toTerminalInput arg = (keyCharacter arg).map convertUTF32toUTF8 := by
  rcases arg <;> grind [toTerminalInput, keyCharacter]

theorem convertUTF32toUTF8_ascii (h : c ≤ 0x7f) : convertUTF32toUTF8 c = [c.toUInt8] := if_pos h

/-- Other characters have more than one byte. -/
theorem length_convertUTF32toUTF8_le_one_iff : (convertUTF32toUTF8 c).length ≤ 1 ↔ c ≤ 0x7f := by
  unfold convertUTF32toUTF8
  constructor
  · intro h
    by_contra hc
    rw [if_neg hc] at h
    split_ifs at h <;> simp at h
  · intro h
    rw [if_pos h]
    exact Nat.le_refl 1

theorem length_encode_ascii {cs : List UInt32} (h : ∀ c ∈ cs, c ≤ 0x7f) : (encode cs).length = cs.length := by
  induction cs with
  | nil => rfl
  | cons c cs ih =>
    obtain ⟨hc, hcs⟩ := List.forall_mem_cons.mp h
    have hcons : encode (c :: cs) = convertUTF32toUTF8 c ++ encode cs := List.flatMap_cons
    rw [hcons, convertUTF32toUTF8_ascii hc, List.singleton_append, List.length_cons, List.length_cons, ih hcs]

/-! ### What the calls do with the messages -/

/-- A call stores the encoding of one character, and returns 1. -/
structure Accounted (s : KeyboardInput) : Prop where
  arrived : s.arrived = s.popped ++ s.msgs
  stored : s.reads.map KeyboardRead.stored = (typed s.popped).map convertUTF32toUTF8
  ret : ∀ r ∈ s.reads, r.ret = 1 ∧ 0 < r.len
  reading : ∀ len, s.reading = some len → 0 < len

theorem Accounted.perform {a : Action} (h : s.Accounted) (hs : s.perform a = some s') : s'.Accounted := by
  cases a with
  | arrive msg =>
    cases hs
    exact ⟨by rw [h.arrived, List.append_assoc], h.stored, h.ret, h.reading⟩
  | read len =>
    simp only [KeyboardInput.perform] at hs
    split at hs
    next hlen =>
      cases hs
      exact ⟨h.arrived, h.stored, h.ret, fun _ hl => Option.some.inj hl ▸ hlen.2⟩
    next => cases hs
  | round =>
    simp only [KeyboardInput.perform] at hs
    split at hs
    next len msg msgs hreading hmsgs =>
      have harrived : s.arrived = (s.popped ++ [msg]) ++ msgs := by rw [h.arrived, hmsgs, List.append_assoc]; rfl
      have htyped : typed (s.popped ++ [msg]) = typed s.popped ++ (keyCharacter msg.arg).toList := by
        rw [typed, List.filterMap_append, List.filterMap_cons]
        cases keyCharacter msg.arg <;> rfl
      rw [toTerminalInput_eq] at hs
      cases hchar : keyCharacter msg.arg with
      | none =>
        rw [hchar] at hs htyped
        cases hs
        exact ⟨harrived, by rw [htyped, Option.toList_none, List.append_nil, h.stored], h.ret, h.reading⟩
      | some c =>
        rw [hchar] at hs htyped
        cases hs
        refine ⟨harrived, ?_, fun r hr => ?_, fun _ hl => by cases hl⟩
        · rw [htyped, List.map_append, List.map_append, h.stored]
          rfl
        · rcases List.mem_append.mp hr with hr | hr
          · exact h.ret r hr
          · rw [List.mem_singleton.mp hr]
            exact ⟨rfl, h.reading len hreading⟩
    next => cases hs

theorem Reachable.accounted (h : Reachable s) : s.Accounted := by
  induction h with
  | init msgs => exact ⟨rfl, rfl, fun r hr => absurd hr List.not_mem_nil, fun _ hl => by cases hl⟩
  | step a _ hs ih => exact ih.perform hs

theorem typedBytes_append (msgs msgs' : List Message) :
    typedBytes (msgs ++ msgs') = typedBytes msgs ++ typedBytes msgs' := by
  rw [typedBytes, typed, List.filterMap_append, List.filter_append, encode, List.flatMap_append]
  rfl

/-- Nothing is lost if the first bytes of the characters are all there is of them. -/
theorem Accounted.complete_iff (h : s.Accounted) :
    s.returned ++ typedBytes s.msgs = typedBytes s.arrived ↔ s.returned = typedBytes s.popped := by
  rw [h.arrived, typedBytes_append, List.append_left_inj]

theorem Accounted.returned_eq (h : s.Accounted) :
    s.returned = (typed s.popped).flatMap fun c => (convertUTF32toUTF8 c).take 1 := by
  have hret : s.returned = (s.reads.map KeyboardRead.stored).flatMap (List.take 1) := by
    rw [returned, List.flatMap_map]
    exact List.flatMap_congr fun r hr => by rw [KeyboardRead.returned, (h.ret r hr).1]
  rw [hret, h.stored, List.flatMap_map]

/-- **What is read is what has been typed**, in any state of any run, if and only if every character that has been read
has one byte, and is there at all. -/
theorem faithful_iff (h : Reachable s) : s.Faithful ↔ ∀ c ∈ typed s.popped, c ≠ 0 ∧ c ≤ 0x7f := by
  have ha := h.accounted
  constructor
  · intro hf
    have hascii : ∀ c ∈ typed s.popped, c ≤ 0x7f := by
      intro c hc
      have hmem : convertUTF32toUTF8 c ∈ s.reads.map KeyboardRead.stored := ha.stored ▸ List.mem_map_of_mem hc
      obtain ⟨r, hr, hstored⟩ := List.mem_map.mp hmem
      have hlen := hf.kept r hr
      rw [hstored, (ha.ret r hr).1] at hlen
      exact length_convertUTF32toUTF8_le_one_iff.mp hlen
    -- As many bytes are returned as keys have been pressed.
    have hlength : s.returned.length = (typed s.popped).length := by
      rw [ha.returned_eq, List.length_flatMap]
      have hone : ∀ c ∈ typed s.popped, ((convertUTF32toUTF8 c).take 1).length = 1 := fun c hc => by
        rw [convertUTF32toUTF8_ascii (hascii c hc)]
        rfl
      rw [List.map_congr_left hone, List.map_const', List.sum_replicate, smul_eq_mul, Nat.mul_one]
    rw [ha.complete_iff.mp hf.complete, typedBytes,
      length_encode_ascii fun c hc => hascii c (List.mem_of_mem_filter hc)] at hlength
    have hchar := List.length_filter_eq_length_iff.mp hlength
    exact fun c hc => ⟨of_decide_eq_true (hchar c hc), hascii c hc⟩
  · intro hall
    have hstored : ∀ r ∈ s.reads, r.stored.length = 1 := by
      intro r hr
      have hmem : r.stored ∈ (typed s.popped).map convertUTF32toUTF8 := ha.stored ▸ List.mem_map_of_mem hr
      obtain ⟨c, hc, hstored⟩ := List.mem_map.mp hmem
      rw [← hstored, convertUTF32toUTF8_ascii (hall c hc).2]
      rfl
    have hreturned : s.returned = typedBytes s.popped := by
      rw [ha.returned_eq, typedBytes, List.filter_eq_self.mpr fun c hc => decide_eq_true (hall c hc).1, encode]
      exact List.flatMap_congr fun c hc => by
        rw [convertUTF32toUTF8_ascii (hall c hc).2]
        rfl
    have hcomplete := ha.complete_iff.mpr hreturned
    exact
      { fits := fun r hr => by rw [hstored r hr]; exact (ha.ret r hr).2
        order := ⟨_, hcomplete⟩
        complete := hcomplete
        kept := fun r hr => by rw [hstored r hr, (ha.ret r hr).1] }

/-- A letter, for a caller that wants one byte. -/
theorem faithful_letter : ∃ s, Reachable s ∧ s.returned = [97] ∧ s.Faithful := by
  have h : Reachable _ := .step .round (.step (.read 1) (.init [⟨0, .keyPush 0 4 97 true⟩]) rfl) rfl
  have hletter : ∀ c ∈ [(97 : UInt32)], c ≠ 0 ∧ c ≤ 0x7f := by simp
  exact ⟨_, h, rfl, (faithful_iff h).mpr hletter⟩

/-- A kana, for a caller that wants one byte: three are stored. -/
theorem not_faithful_kana : ∃ s, Reachable s ∧ s.popped = [⟨0, .keyPush 0 4 0x3042 true⟩] ∧ ¬ s.Faithful := by
  have h : Reachable _ := .step .round (.step (.read 1) (.init [⟨0, .keyPush 0 4 0x3042 true⟩]) rfl) rfl
  refine ⟨_, h, rfl, fun hf => ?_⟩
  have hlen : (convertUTF32toUTF8 0x3042).length ≤ 1 := hf.fits ⟨1, convertUTF32toUTF8 0x3042, 1⟩ (.head _)
  rw [length_convertUTF32toUTF8_le_one_iff] at hlen
  exact absurd hlen (by simp)

end KeyboardInput

end DuvuvurKernel
