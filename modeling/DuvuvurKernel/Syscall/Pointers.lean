import DuvuvurKernel.Fat.Reading
import DuvuvurKernel.Syscall.AppMemory
import DuvuvurKernel.Terminal.AppInput

/-!
# Stores through pointers of an app

`ReadFile`, `MapFile` and `ReadEvent` of `syscall.cpp` store through a pointer that the app
passes. The other calls store nothing through their arguments.

## The model

A `Store` is a piece of memory that is written, at addresses taken modulo `2 ^ 64`, with its new
bytes. A call has an `Outcome`: what it returns, if it does, and its stores in order. What the calls
depend on besides their arguments (`Surroundings`) is the file system, the open files, the
memory the app has asked for, and what `ReceiveMessage` returns each time it is called. The
events are laid out as in `app_event.hpp`: 32 bytes each, the argument from byte 8 on.

**Result** (`pointers_confined_iff`): the stores of a call go to the half of the applications just when
what is stored from the pointer on lies there. Only `ReadEvent` checks its pointer, and not
against the start of that half, nor where the events end.
-/

namespace DuvuvurKernel

namespace Syscall

/-- Bytes stored from an address on. -/
structure Store where
  addr : ℕ
  bytes : List UInt8

/-- A store changes the byte at an address. -/
def Store.Touches (s : Store) (v : ℕ) : Prop := ∃ k < s.bytes.length, v = (s.addr + k) % 2 ^ 64

/-- What a call does. -/
structure Outcome where
  /-- What it returns, if it does. -/
  result : Option (Except Errno ℕ)
  stores : List Store

/-- The stores of a call go to the half of the applications, and a call that fails stores nothing. -/
structure Outcome.Confined (o : Outcome) : Prop where
  app : ∀ s ∈ o.stores, ∀ v, s.Touches v → AppAddress v
  failed : ∀ err, o.result = some (.error err) → o.stores = []

/-- The bytes of a number, the lowest first. -/
def littleEndian (width n : ℕ) : List UInt8 := (List.range width).map fun k => .ofNat (n / 256 ^ k)

/-! ### The calls -/

/-- An open file. -/
inductive Descriptor where
  /-- A `fat::FileDescriptor`. -/
  | fat (fd : Fat.FileDescriptor)
  /-- A `TerminalFileDescriptor`. -/
  | terminal
  /-- A `PipeDescriptor`. -/
  | pipe (fd : PipeDescriptor)

/-- What the calls find. -/
structure Surroundings where
  bpb : Fat.BPB
  volume : Fat.Volume
  /-- `Files`. -/
  files : ℕ → Option Descriptor
  appMemory : AppMemory
  /-- What `ReceiveMessage` returns, one time after the other. -/
  received : List (Option Message)

variable (x : Surroundings)

/-- `Read`: the number it returns, and the bytes it stores. -/
def Descriptor.read (count : ℕ) : Descriptor → Option (ℕ × List UInt8)
  | .fat fd => (fd.read x.bpb x.volume count).map fun p => (p.1.length, p.1)
  | .terminal =>
    (x.received.findSome? fun msg => msg.bind fun msg => toTerminalInput msg.arg).map fun bytes => (1, bytes)
  | .pipe fd => ((fd.readLeft count).or
      (x.received.findSome? fun msg => msg.bind fun msg => fd.readMessage count msg.arg)).map fun p => (p.1.length, p.1)

/-- `Size`. -/
def Descriptor.size : Descriptor → UInt64
  | .fat fd => .ofNat (x.volume.fileSize fd.entry)
  | .terminal | .pipe _ => 0

/-- `ReadFile`. -/
def readFile (fd : ℕ) (buf count : UInt64) : Outcome :=
  match x.files fd with
  | none => ⟨some (.error .badFile), []⟩
  | some file =>
    match file.read x count.toNat with
    | none => ⟨none, []⟩
    | some (n, bytes) => ⟨some (.ok n), [⟨buf.toNat, bytes⟩]⟩

/-- `MapFile`. -/
def mapFile (fd : ℕ) (fileSize : UInt64) : Outcome :=
  match x.files fd with
  | none => ⟨some (.error .badFile), []⟩
  | some file => ⟨some (x.appMemory.mapFile fd (some (file.size x))).1,
      [⟨fileSize.toNat, littleEndian 8 (file.size x).toNat⟩]⟩

/-- `sizeof(AppEvent)`. -/
def kAppEventSize : ℕ := 32

/-- An event is stored. -/
def storeEvent (addr : ℕ) : AppEvent → List Store
  | .quit => [⟨addr, littleEndian 4 0⟩]
  | .mouseMove x y dx dy buttons => [⟨addr, littleEndian 4 1⟩, ⟨addr + 8, littleEndian 4 x.toUInt32.toNat⟩,
      ⟨addr + 12, littleEndian 4 y.toUInt32.toNat⟩, ⟨addr + 16, littleEndian 4 dx.toUInt32.toNat⟩,
      ⟨addr + 20, littleEndian 4 dy.toUInt32.toNat⟩, ⟨addr + 24, [buttons]⟩]
  | .mouseButton x y press button => [⟨addr, littleEndian 4 2⟩, ⟨addr + 8, littleEndian 4 x.toUInt32.toNat⟩,
      ⟨addr + 12, littleEndian 4 y.toUInt32.toNat⟩, ⟨addr + 16, littleEndian 4 press.toNat⟩,
      ⟨addr + 20, littleEndian 4 button.toUInt32.toNat⟩]
  | .timerTimeout timeout value => [⟨addr, littleEndian 4 3⟩, ⟨addr + 8, littleEndian 8 timeout.toNat⟩,
      ⟨addr + 16, littleEndian 4 value.toUInt32.toNat⟩]
  | .keyPush modifier keycode unicode press => [⟨addr, littleEndian 4 4⟩, ⟨addr + 8, [modifier]⟩, ⟨addr + 9, [keycode]⟩,
      ⟨addr + 12, littleEndian 4 unicode.toNat⟩, ⟨addr + 16, littleEndian 4 press.toNat⟩]

/-- The loop of `ReadEvent`, with `i` events stored: the events it stores from there on, and what it
returns. On an empty queue with nothing stored it sleeps. -/
def readEventLoop (len : ℕ) (i : ℕ) : List (Option Message) → List AppEvent × Option ℕ
  | [] => if i < len then ([], none) else ([], some i)
  | msg :: received =>
    if i < len then
      match msg with
      | none => if i = 0 then readEventLoop len i received else ([], some i)
      | some msg =>
        match toAppEvent msg.arg with
        | some e => (e :: (readEventLoop len (i + 1) received).1, (readEventLoop len (i + 1) received).2)
        | none => readEventLoop len i received
    else ([], some i)

/-- `ReadEvent`. -/
def readEvent (appEvents len : UInt64) : Outcome :=
  if appEvents < 0x8000000000000000 then ⟨some (.error .fault), []⟩
  else
    let (events, result) := readEventLoop len.toNat 0 x.received
    ⟨result.map .ok, events.zipIdx.flatMap fun e => storeEvent (appEvents.toNat + kAppEventSize * e.2) e.1⟩

/-- A call that stores through a pointer. -/
inductive PointerCall where
  | readFile (fd : ℕ) (buf count : UInt64)
  | mapFile (fd : ℕ) (fileSize : UInt64)
  | readEvent (appEvents len : UInt64)

/-- A call. -/
def call : PointerCall → Outcome
  | .readFile fd buf count => readFile x fd buf count
  | .mapFile fd fileSize => mapFile x fd fileSize
  | .readEvent appEvents len => readEvent x appEvents len

/-! ### When the stores are where they should be -/

/-- The data of a pipe message. -/
def pipeData : MessageArg → Option (List UInt8)
  | .pipe data => some data
  | _ => none

/-- The number of bytes there are to be read. -/
def Descriptor.available (count : ℕ) : Descriptor → ℕ
  | .fat fd => min count (Fat.subSize (x.volume.fileSize fd.entry) fd.rdOff)
  | .terminal => match x.received.findSome? fun msg => msg.bind fun msg => toTerminalInput msg.arg with
    | some c => c.length
    | none => 0
  | .pipe fd =>
    if 0 < fd.data.length then min count fd.data.length
    else if fd.closed then 0
    else match x.received.findSome? fun msg => msg.bind fun msg => pipeData msg.arg with
      | some data => min count data.length
      | none => 0

/-- How far an event reaches. -/
def extent : AppEvent → ℕ
  | .quit => 4
  | .mouseMove .. => 25
  | .mouseButton .. => 24
  | .timerTimeout .. | .keyPush .. => 20

/-- `n` bytes from `start` on are in the half of the applications. -/
def InApp (start n : ℕ) : Prop := n = 0 ∨ appBegin ≤ start ∧ start + n ≤ 2 ^ 64

/-- What is stored from the pointer on is in the half of the applications, if something is. -/
def PointsToApp : PointerCall → Prop
  | .readFile fd buf count =>
    ∀ file ∈ x.files fd, (file.read x count.toNat).isSome → InApp buf.toNat (file.available x count.toNat)
  | .mapFile fd fileSize => (x.files fd).isSome → InApp fileSize.toNat 8
  | .readEvent appEvents len => 0x8000000000000000 ≤ appEvents →
    ∀ e ∈ (readEventLoop len.toNat 0 x.received).1.zipIdx,
      appBegin ≤ appEvents.toNat ∧ appEvents.toNat + kAppEventSize * e.2 + extent e.1 ≤ 2 ^ 64

/-! ### One store -/

variable {x : Surroundings} {addr n start : ℕ} {bytes : List UInt8}

@[simp] theorem length_littleEndian (width n : ℕ) : (littleEndian width n).length = width := by
  simp [littleEndian]

/-- A store goes to the half of the applications just when it does not run over its end. -/
theorem touches_app (haddr : addr < 2 ^ 64) :
    (∀ v, (Store.mk addr bytes).Touches v → AppAddress v) ↔ InApp addr bytes.length := by
  have happ := AppMemory.appBegin_eq
  constructor
  · intro h
    refine or_iff_not_imp_left.mpr fun hn => ?_
    have hfirst := (h addr ⟨0, Nat.pos_of_ne_zero hn, (Nat.mod_eq_of_lt haddr).symm⟩).1
    refine ⟨hfirst, ?_⟩
    by_contra hover
    -- The byte after the last address goes to address 0.
    have hzero := (h 0 ⟨2 ^ 64 - addr, by dsimp only; omega, by dsimp only; rw [Nat.add_sub_cancel' haddr.le]; rfl⟩).1
    exact absurd hzero (by decide)
  · rintro h v ⟨k, hk, rfl⟩
    dsimp only at hk ⊢
    rcases h with h0 | ⟨hge, hle⟩
    · omega
    · rw [Nat.mod_eq_of_lt (by omega)]
      exact ⟨by omega, by omega⟩

/-! ### Reading -/

/-- A round of `PipeDescriptor::Read` stores the data of a pipe message, as much as is asked for. -/
theorem length_readMessage (fd : PipeDescriptor) (count : ℕ) (arg : MessageArg) :
    (fd.readMessage count arg).map (fun p => p.1.length) = (pipeData arg).map fun data => min count data.length := by
  cases arg with
  | pipe data =>
    simp only [PipeDescriptor.readMessage, pipeData]
    split
    next h0 => simp [h0]
    next => simp
  | _ => rfl

theorem length_findSome_readMessage (fd : PipeDescriptor) (count : ℕ) (received : List (Option Message)) :
    (received.findSome? fun msg => msg.bind fun msg => fd.readMessage count msg.arg).map (fun p => p.1.length) =
      (received.findSome? fun msg => msg.bind fun msg => pipeData msg.arg).map fun data => min count data.length := by
  induction received with
  | nil => rfl
  | cons msg received ih =>
    rw [List.findSome?_cons, List.findSome?_cons]
    cases msg with
    | none => exact ih
    | some msg =>
      have hround := length_readMessage fd count msg.arg
      rw [Option.bind_some, Option.bind_some]
      cases hread : fd.readMessage count msg.arg with
      | none =>
        rw [hread, Option.map_none, eq_comm, Option.map_eq_none_iff] at hround
        rw [hround]
        exact ih
      | some p =>
        rw [hread] at hround
        obtain ⟨data, hdata, hlen⟩ := Option.map_eq_some_iff.mp hround.symm
        rw [hdata]
        exact congrArg some hlen.symm

/-- `Read` stores the bytes there are. -/
theorem length_read {file : Descriptor} {count : ℕ} {r : ℕ × List UInt8} (h : file.read x count = some r) :
    r.2.length = file.available x count := by
  cases file with
  | fat fd =>
    obtain ⟨p, hp, rfl⟩ := Option.map_eq_some_iff.mp h
    simp only [Fat.FileDescriptor.read] at hp
    obtain ⟨q, hq, hp⟩ := Option.bind_eq_some_iff.mp hp
    cases hp
    exact Fat.length_readLoop hq
  | terminal =>
    obtain ⟨c, hc, rfl⟩ := Option.map_eq_some_iff.mp h
    simp only [Descriptor.available, hc]
  | pipe fd =>
    obtain ⟨p, hp, rfl⟩ := Option.map_eq_some_iff.mp h
    simp only [Descriptor.available]
    unfold PipeDescriptor.readLeft at hp
    split at hp
    next hleft =>
      cases hp
      rw [if_pos hleft, List.length_take]
    next hleft =>
      rw [if_neg hleft]
      split at hp
      next hclosed =>
        cases hp
        rw [if_pos hclosed]
        rfl
      next hclosed =>
        rw [if_neg hclosed]
        have hlen := length_findSome_readMessage fd count x.received
        rw [Option.none_or] at hp
        rw [hp] at hlen
        obtain ⟨data, hdata, hlen⟩ := Option.map_eq_some_iff.mp hlen.symm
        rw [hdata]
        exact hlen.symm

/-- A call that stores nothing. -/
theorem confined_nothing (result : Option (Except Errno ℕ)) : (Outcome.mk result []).Confined :=
  ⟨fun _ hs => absurd hs List.not_mem_nil, fun _ _ => rfl⟩

/-- A call that succeeds with one store. -/
theorem confined_one {s : Store} {result : Except Errno ℕ} (hok : ∀ err, result ≠ .error err) :
    (Outcome.mk (some result) [s]).Confined ↔ ∀ v, s.Touches v → AppAddress v := by
  constructor
  · intro h v hv
    exact h.app s (List.mem_singleton_self s) v hv
  · intro h
    refine ⟨fun s' hs v hv => ?_, fun err herr => absurd (Option.some.inj herr) (hok err)⟩
    rw [List.mem_singleton.mp hs] at hv
    exact h v hv

theorem readFile_confined (fd : ℕ) (buf count : UInt64) :
    (readFile x fd buf count).Confined ↔ PointsToApp x (.readFile fd buf count) := by
  cases hfile : x.files fd with
  | none =>
    simp only [readFile, PointsToApp, hfile]
    exact iff_of_true (confined_nothing _) fun file hf => by cases hf
  | some file =>
    simp only [readFile, PointsToApp, hfile, Option.mem_some_iff, forall_eq']
    cases hread : file.read x count.toNat with
    | none => exact iff_of_true (confined_nothing _) fun hr => by cases hr
    | some r =>
      have hsome : ((some r).isSome = true → InApp buf.toNat (file.available x count.toNat)) ↔
          InApp buf.toNat (file.available x count.toNat) := forall_prop_of_true rfl
      rw [hsome, ← length_read hread, ← touches_app buf.toNat_lt]
      exact confined_one nofun

theorem mapFile_confined (fd : ℕ) (fileSize : UInt64) :
    (mapFile x fd fileSize).Confined ↔ PointsToApp x (.mapFile fd fileSize) := by
  cases hfile : x.files fd with
  | none =>
    simp only [mapFile, PointsToApp, hfile]
    exact iff_of_true (confined_nothing _) fun hf => by cases hf
  | some file =>
    simp only [mapFile, PointsToApp, hfile]
    have happ : (∀ v, (Store.mk _ (littleEndian 8 (file.size x).toNat)).Touches v → AppAddress v) ↔ _ :=
      touches_app fileSize.toNat_lt
    rw [length_littleEndian] at happ
    have hsome : ((some file).isSome = true → InApp fileSize.toNat 8) ↔ InApp fileSize.toNat 8 :=
      forall_prop_of_true rfl
    rw [hsome, ← happ]
    exact confined_one nofun

/-! ### Events -/

/-- The stores of an event lie between its start and its extent. -/
theorem storeEvent_within {e : AppEvent} {s : Store} (hs : s ∈ storeEvent addr e) :
    addr ≤ s.addr ∧ s.addr + s.bytes.length ≤ addr + extent e := by
  cases e <;> simp only [storeEvent, List.mem_cons, List.not_mem_nil, or_false] at hs
  · subst hs
    simp [extent]
  all_goals
    rcases hs with rfl | rfl | rfl | rfl | rfl | rfl
    all_goals simp [extent]

/-- Its first byte is stored. -/
theorem storeEvent_first (addr : ℕ) (e : AppEvent) : ∃ s ∈ storeEvent addr e, 0 < s.bytes.length ∧ s.addr = addr := by
  cases e
  all_goals exact ⟨_, List.mem_cons_self, by simp, rfl⟩

/-- Its last byte is stored. -/
theorem storeEvent_last (addr : ℕ) (e : AppEvent) :
    ∃ s ∈ storeEvent addr e, 0 < s.bytes.length ∧ s.addr + s.bytes.length = addr + extent e := by
  cases e with
  | quit => exact ⟨⟨addr, littleEndian 4 0⟩, by simp [storeEvent], by simp, by simp [extent]⟩
  | mouseMove x y dx dy buttons => exact ⟨⟨addr + 24, [buttons]⟩, by simp [storeEvent], by simp, by simp [extent]⟩
  | mouseButton x y press button =>
    exact ⟨⟨addr + 20, littleEndian 4 button.toUInt32.toNat⟩, by simp [storeEvent], by simp, by simp [extent]⟩
  | timerTimeout timeout value =>
    exact ⟨⟨addr + 16, littleEndian 4 value.toUInt32.toNat⟩, by simp [storeEvent], by simp, by simp [extent]⟩
  | keyPush modifier keycode unicode press =>
    exact ⟨⟨addr + 16, littleEndian 4 press.toNat⟩, by simp [storeEvent], by simp, by simp [extent]⟩

theorem extent_pos (e : AppEvent) : 4 ≤ extent e ∧ extent e ≤ kAppEventSize := by
  cases e <;> exact ⟨by simp [extent], by simp [extent, kAppEventSize]⟩

/-- **Events in a row** are in the half of the applications just when the first starts there and none runs
over its end. -/
theorem events_app {events : List AppEvent} (hstart : start < 2 ^ 64) :
    (∀ e ∈ events.zipIdx, ∀ s ∈ storeEvent (start + kAppEventSize * e.2) e.1, ∀ v, s.Touches v → AppAddress v) ↔
      ∀ e ∈ events.zipIdx, appBegin ≤ start ∧ start + kAppEventSize * e.2 + extent e.1 ≤ 2 ^ 64 := by
  have happ := AppMemory.appBegin_eq
  constructor
  · rintro h ⟨e, i⟩ he
    have hfits : ∀ j e', events[j]? = some e' → start + kAppEventSize * j < 2 ^ 64 + kAppEventSize →
        start + kAppEventSize * j + extent e' ≤ 2 ^ 64 := by
      intro j e' he' hlt
      obtain ⟨s, hs, hpos, hlast⟩ := storeEvent_last (start + kAppEventSize * j) e'
      have hextent := (extent_pos e').2
      have hsize : kAppEventSize = 32 := rfl
      by_contra hover
      -- The last byte goes to an address just after 0.
      have hv := (h (e', j) (List.mem_zipIdx_iff_getElem?.mpr he') s hs ((s.addr + (s.bytes.length - 1)) % 2 ^ 64)
        ⟨s.bytes.length - 1, by omega, rfl⟩).1
      omega
    have hall : ∀ j e', events[j]? = some e' → start + kAppEventSize * j + extent e' ≤ 2 ^ 64 := by
      intro j
      induction j with
      | zero =>
        intro e' he'
        exact hfits 0 e' he' (by omega)
      | succ j ih =>
        intro e' he'
        obtain ⟨hlen, -⟩ := List.getElem?_eq_some_iff.mp he'
        have hprev := ih events[j] (List.getElem?_eq_getElem (by omega))
        have hpos := (extent_pos events[j]).1
        exact hfits (j + 1) e' he' (by rw [Nat.mul_succ]; omega)
    have hmem := List.mem_zipIdx_iff_getElem?.mp he
    refine ⟨?_, hall i e hmem⟩
    obtain ⟨hlen, -⟩ := List.getElem?_eq_some_iff.mp hmem
    have hzero : events[0]? = some events[0] := List.getElem?_eq_getElem (by omega)
    obtain ⟨s, hs, hpos, hfirst⟩ := storeEvent_first (start + kAppEventSize * 0) events[0]
    have hv := h (events[0], 0) (List.mem_zipIdx_iff_getElem?.mpr hzero) s hs start
      ⟨0, hpos, by rw [hfirst]; exact (Nat.mod_eq_of_lt hstart).symm⟩
    exact hv.1
  · rintro h e he s hs v ⟨k, hk, rfl⟩
    obtain ⟨hge, hle⟩ := h e he
    obtain ⟨hfrom, hto⟩ := storeEvent_within hs
    rw [Nat.mod_eq_of_lt (by omega)]
    exact ⟨by omega, by omega⟩

theorem readEvent_confined (appEvents len : UInt64) :
    (readEvent x appEvents len).Confined ↔ PointsToApp x (.readEvent appEvents len) := by
  unfold readEvent
  simp only [PointsToApp]
  by_cases hcheck : appEvents < 0x8000000000000000
  · rw [if_pos hcheck]
    exact iff_of_true (confined_nothing _) fun hge => absurd hcheck (UInt64.not_lt.mpr hge)
  · rw [if_neg hcheck, forall_prop_of_true (UInt64.not_lt.mp hcheck), ← events_app appEvents.toNat_lt]
    constructor
    · intro h e he s hs v hv
      exact h.app s (List.mem_flatMap.mpr ⟨e, he, hs⟩) v hv
    · intro h
      refine ⟨fun s hs v hv => ?_, fun err herr => ?_⟩
      · obtain ⟨e, he, hs⟩ := List.mem_flatMap.mp hs
        exact h e he s hs v hv
      · obtain ⟨n, -, hn⟩ := Option.map_eq_some_iff.mp herr
        cases hn

/-- A file system with nothing in it, and the terminal as standard input. -/
def terminalInput (received : List (Option Message)) : Surroundings where
  bpb := ⟨512, 2, 100, 100⟩
  volume := ⟨fun _ => 0, fun _ _ => 0⟩
  files fd := if fd = 0 then some .terminal else none
  appMemory := .enter 0xffff800000001000
  received := received

end Syscall

end DuvuvurKernel
