import DuvuvurKernel.Lib.Runs
import DuvuvurKernel.Usb.Ring

/-!
# The event ring

`usb/xhci/ring.cpp` and `ring.hpp`: the ring on which the host controller writes its
events, and from which `ProcessEvents` takes them. The position of the driver is in a
register of the controller, `ERDP`, whose low four bits carry other fields; whether the
TRB there is new is told by its cycle bit, which the controller toggles with each lap over
the segment and the driver with each wrap of its position.

## The model

The controller writes an event word by word, the word with the cycle bit last, and
begins only when the slot has been given back. It may set the low bits of `ERDP` to
anything at any moment. The driver is `ProcessEvents` as a program: each evaluation of
`HasFront`, the handling of the event at `Front`, and `Pop` are steps of their own,
between which the controller may take any of its own. The segment has as many slots as
`ring_segment_size` says, a field of 16 bits.

**Result** (`events_handled`): the events handled are the first ones written, in order and
each once; the loop goes on exactly when one is unread; left alone it handles them all
and ends; and `Pop` leaves the low bits of `ERDP` as they are.
-/

namespace DuvuvurKernel.Usb

/-! ### `ERDP` -/

namespace ERDP

/-- `ERDP_Bitmap::Pointer`. -/
def pointer (erdp : BitVec 64) : BitVec 64 := erdp.extractLsb' 4 60 ++ 0#4

/-- The fields below the pointer: `dequeue_erst_segment_index` and `event_handler_busy`. -/
def low (erdp : BitVec 64) : BitVec 4 := erdp.extractLsb' 0 4

/-- `ERDP_Bitmap::SetPointer`. -/
def setPointer (erdp value : BitVec 64) : BitVec 64 := value.extractLsb' 4 60 ++ low erdp

/-- The register with other fields below the pointer. -/
def setLow (erdp : BitVec 64) (b : BitVec 4) : BitVec 64 := erdp.extractLsb' 4 60 ++ b

theorem toNat_append {n m : ℕ} (x : BitVec n) (y : BitVec m) : (x ++ y).toNat = x.toNat * 2 ^ m + y.toNat := by
  rw [BitVec.toNat_append, ← Nat.shiftLeft_add_eq_or_of_lt y.isLt, Nat.shiftLeft_eq]

theorem toNat_high (x : BitVec 64) : (x.extractLsb' 4 60).toNat = x.toNat / 16 := by
  have h := x.isLt
  rw [BitVec.extractLsb'_toNat, Nat.shiftRight_eq_div_pow]
  omega

@[simp] theorem low_setPointer (erdp value : BitVec 64) : low (setPointer erdp value) = low erdp := by
  apply BitVec.eq_of_toNat_eq
  have h := (low erdp).isLt
  rw [low, BitVec.extractLsb'_toNat, setPointer, toNat_append, Nat.shiftRight_zero]
  omega

@[simp] theorem pointer_setLow (erdp : BitVec 64) (b : BitVec 4) : pointer (setLow erdp b) = pointer erdp := by
  apply BitVec.eq_of_toNat_eq
  have hb := b.isLt
  rw [pointer, pointer, toNat_append, toNat_append, toNat_high, toNat_high, setLow, toNat_append, toNat_high]
  omega

/-- A pointer to a TRB is read back as it was set. -/
theorem pointer_setPointer (erdp : BitVec 64) {value : BitVec 64} (h : value.toNat % 16 = 0) :
    pointer (setPointer erdp value) = value := by
  apply BitVec.eq_of_toNat_eq
  have hl := (low erdp).isLt
  rw [pointer, toNat_append, toNat_high, setPointer, toNat_append, toNat_high, BitVec.toNat_zero]
  omega

end ERDP

/-! ### The driver's side -/

/-- `EventRing`, with the entry of its segment table and its register. -/
structure EventRing where
  /-- `ring_segment_base_address`. -/
  segmentBaseAddress : BitVec 64
  /-- `ring_segment_size`. -/
  segmentSize : BitVec 16
  /-- `cycle_bit_`. -/
  cycleBit : Bool
  /-- `ERDP` of `*interrupter_`. -/
  erdp : BitVec 64

/-- The TRBs at all addresses. -/
abbrev TRBMemory := BitVec 64 → TRB

namespace EventRing

variable (r : EventRing)

/-- `ReadDequeuePointer`. -/
def readDequeuePointer : BitVec 64 := ERDP.pointer r.erdp

/-- `Front`. -/
def front : BitVec 64 := r.readDequeuePointer

/-- `HasFront`. -/
def hasFront (mem : TRBMemory) : Bool := (mem r.front).cycleBit == r.cycleBit

/-- `WriteDequeuePointer`. -/
def writeDequeuePointer (p : BitVec 64) : EventRing := { r with erdp := ERDP.setPointer r.erdp p }

/-- `Pop`. A TRB takes 16 bytes. -/
def pop : EventRing :=
  let p := r.readDequeuePointer + 16
  let segmentBegin := r.segmentBaseAddress
  let segmentEnd := segmentBegin + 16 * r.segmentSize.setWidth 64
  if p = segmentEnd then { r with cycleBit := !r.cycleBit }.writeDequeuePointer segmentBegin
  else r.writeDequeuePointer p

/-- `Initialize`, with `buf_` in units of a TRB: it is aligned to 64 bytes. -/
def init (buf : BitVec 60) (bufSize : ℕ) (erdp : BitVec 64) : EventRing :=
  let base := buf ++ 0#4
  EventRing.writeDequeuePointer ⟨base, BitVec.ofNat 16 bufSize, true, erdp⟩ base

/-- **`Pop` leaves the other fields of `ERDP` as they are.** -/
theorem low_pop : ERDP.low r.pop.erdp = ERDP.low r.erdp := by
  unfold pop writeDequeuePointer
  dsimp only
  split
  all_goals exact ERDP.low_setPointer _ _

/-- The address of a slot of the segment. -/
def slotAddress (i : ℕ) : BitVec 64 := r.segmentBaseAddress + 16 * BitVec.ofNat 64 i

end EventRing

/-! ### Both sides -/

/-- Where `ProcessEvents` is. -/
inductive Place where
  /-- Not running. -/
  | idle
  /-- Before the condition of its loop. -/
  | loop
  /-- Before the `HasFront` of `ProcessEvent`. -/
  | check
  /-- Before the event at `Front` is handled. -/
  | handle
  /-- Before `Pop`. -/
  | pop
  deriving DecidableEq

/-- The ring, its memory, the controller and the driver. -/
structure EventSystem where
  ring : EventRing
  mem : TRBMemory
  /-- The events the controller has to write, one after the other. -/
  events : ℕ → TRB
  /-- How many of them it has written. -/
  written : ℕ
  /-- How many words of the next it has written. -/
  words : ℕ
  place : Place
  /-- The events the driver has handled. -/
  handled : List TRB
  /-- How many slots the driver has given back. -/
  popped : ℕ

namespace EventSystem

/-- A step of the controller or of the driver. -/
inductive Action where
  /-- The controller writes a word. -/
  | store
  /-- The controller sets the low bits of `ERDP`. -/
  | setLow (b : BitVec 4)
  /-- `ProcessEvents` is called. -/
  | call
  /-- `ProcessEvents` goes on. -/
  | proceed

variable (s : EventSystem)

/-- The number of slots. -/
def size : ℕ := s.ring.segmentSize.toNat

/-- What the controller writes for its event `k`: the cycle bit is 1 in its first lap. -/
def event (k : ℕ) : TRB := (s.events k).withCycle (System.phase (k / s.size))

/-- The address it writes it to. -/
def address (k : ℕ) : BitVec 64 := s.ring.slotAddress (k % s.size)

/-- The controller writes a word, if the slot has been given back. -/
def store : Option EventSystem :=
  if h : s.words < 4 ∧ s.written < s.popped + s.size then
    let a := s.address s.written
    let i : Fin 4 := ⟨s.words, h.1⟩
    let mem := Function.update s.mem a (Function.update (s.mem a) i (s.event s.written i))
    if s.words = 3 then some { s with mem := mem, written := s.written + 1, words := 0 }
    else some { s with mem := mem, words := s.words + 1 }
  else none

/-- `ProcessEvents` goes on. -/
def proceed : Option EventSystem :=
  match s.place with
  | .idle => none
  | .loop => some { s with place := if s.ring.hasFront s.mem then .check else .idle }
  | .check => some { s with place := if s.ring.hasFront s.mem then .handle else .loop }
  | .handle => some { s with handled := s.handled ++ [s.mem s.ring.front], place := .pop }
  | .pop => some { s with ring := s.ring.pop, popped := s.popped + 1, place := .loop }

/-- A step. -/
def perform : Action → Option EventSystem
  | .store => s.store
  | .setLow b => some { s with ring.erdp := ERDP.setLow s.ring.erdp b }
  | .call => if s.place = .idle then some { s with place := .loop } else none
  | .proceed => s.proceed

/-- The ring just initialized, and its memory zeroed. -/
def init (buf : BitVec 60) (bufSize : ℕ) (erdp : BitVec 64) (events : ℕ → TRB) : EventSystem where
  ring := .init buf bufSize erdp
  mem _ _ := 0
  events := events
  written := 0
  words := 0
  place := .idle
  handled := []
  popped := 0

end EventSystem

/-! ### Slots -/

/-- Numbers that are less than `n` apart have different remainders. -/
theorem mod_ne_mod {n j k : ℕ} (h : j < k) (hk : k < j + n) : j % n ≠ k % n := by
  intro heq
  have hmod := Nat.sub_mod_eq_zero_of_mod_eq heq.symm
  rw [Nat.mod_eq_of_lt (by omega)] at hmod
  omega

/-- The next number is in the same lap, one slot on, or at the start of the next lap. -/
theorem succ_div_mod {n : ℕ} (hn : 0 < n) (k : ℕ) :
    (k % n + 1 = n ∧ (k + 1) % n = 0 ∧ (k + 1) / n = k / n + 1) ∨
      (k % n + 1 < n ∧ (k + 1) % n = k % n + 1 ∧ (k + 1) / n = k / n) := by
  have hlt := Nat.mod_lt k hn
  have hk := Nat.div_add_mod k n
  rcases Nat.lt_or_ge (k % n + 1) n with h | h
  · have huniq := (Nat.div_mod_unique (a := k + 1) (d := k / n) hn).mpr
      ⟨show k % n + 1 + n * (k / n) = k + 1 by omega, h⟩
    exact .inr ⟨h, huniq.2, huniq.1⟩
  · have heq : k % n + 1 = n := by omega
    have hmul : n * (k / n + 1) = n * (k / n) + n := Nat.mul_succ n (k / n)
    have huniq := (Nat.div_mod_unique (a := k + 1) (d := k / n + 1) hn).mpr
      ⟨show 0 + n * (k / n + 1) = k + 1 by omega, hn⟩
    exact .inl ⟨heq, huniq.2, huniq.1⟩

namespace EventRing

variable {r : EventRing} {i j k : ℕ}

theorem toNat_slotAddress (r : EventRing) (h : i < 2 ^ 16) :
    (r.slotAddress i).toNat = (r.segmentBaseAddress.toNat + 16 * i) % 2 ^ 64 := by
  have hi : (16 * BitVec.ofNat 64 i).toNat = 16 * i := by
    rw [BitVec.toNat_mul, BitVec.toNat_ofNat]
    have h16 : (16 : BitVec 64).toNat = 16 := rfl
    rw [h16]
    omega
  rw [slotAddress, BitVec.toNat_add, hi]

theorem slotAddress_inj (hi : i < 2 ^ 16) (hj : j < 2 ^ 16) (h : r.slotAddress i = r.slotAddress j) : i = j := by
  have heq := congrArg BitVec.toNat h
  rw [toNat_slotAddress r hi, toNat_slotAddress r hj] at heq
  omega

theorem slotAddress_aligned (ha : r.segmentBaseAddress.toNat % 16 = 0) (hi : i < 2 ^ 16) :
    (r.slotAddress i).toNat % 16 = 0 := by
  rw [toNat_slotAddress r hi]
  omega

theorem slotAddress_zero (r : EventRing) : r.slotAddress 0 = r.segmentBaseAddress := by
  simp [slotAddress]

/-- The address behind a slot. -/
theorem slotAddress_succ (r : EventRing) (i : ℕ) : r.slotAddress i + 16 = r.slotAddress (i + 1) := by
  have hone : BitVec.ofNat 64 1 = 1 := rfl
  unfold slotAddress
  rw [BitVec.ofNat_add, hone, BitVec.mul_add, BitVec.add_assoc]
  rfl

/-- The address behind the segment. -/
theorem segmentEnd_eq (r : EventRing) :
    r.segmentBaseAddress + 16 * r.segmentSize.setWidth 64 = r.slotAddress r.segmentSize.toNat := by
  have hwidth : r.segmentSize.setWidth 64 = BitVec.ofNat 64 r.segmentSize.toNat := by
    apply BitVec.eq_of_toNat_eq
    rw [BitVec.toNat_setWidth, BitVec.toNat_ofNat]
  rw [slotAddress, hwidth]

/-- **`Pop` goes to the next slot**, and changes the phase at the end of the segment. -/
theorem pop_spec (ha : r.segmentBaseAddress.toNat % 16 = 0) (hn : 0 < r.segmentSize.toNat)
    (hfront : r.front = r.slotAddress (k % r.segmentSize.toNat))
    (hcycle : r.cycleBit = System.phase (k / r.segmentSize.toNat)) :
    r.pop.segmentBaseAddress = r.segmentBaseAddress ∧ r.pop.segmentSize = r.segmentSize ∧
      r.pop.front = r.slotAddress ((k + 1) % r.segmentSize.toNat) ∧
      r.pop.cycleBit = System.phase ((k + 1) / r.segmentSize.toNat) := by
  have hsize := r.segmentSize.isLt
  have hread : r.readDequeuePointer = r.slotAddress (k % r.segmentSize.toNat) := hfront
  unfold pop
  dsimp only
  rw [hread, slotAddress_succ, segmentEnd_eq]
  obtain ⟨hend, hmod, hdiv⟩ | ⟨hlt, hmod, hdiv⟩ := succ_div_mod hn k
  · rw [if_pos (by rw [hend]), hmod, hdiv, System.phase_succ, slotAddress_zero, ← hcycle]
    exact ⟨rfl, rfl, ERDP.pointer_setPointer _ ha, rfl⟩
  · rw [if_neg fun heq => absurd (slotAddress_inj (by omega) hsize heq) (by omega), hmod, hdiv, ← hcycle]
    exact ⟨rfl, rfl, ERDP.pointer_setPointer _ (slotAddress_aligned ha (by omega)), rfl⟩

end EventRing

namespace EventSystem

open Lib.Runs

/-- The driver is at the first slot that has not been given back, in the phase of its lap; the unread slots
hold their events, the others, TRBs of the phase before. -/
structure Inv (s : EventSystem) : Prop where
  size_pos : 0 < s.size
  aligned : s.ring.segmentBaseAddress.toNat % 16 = 0
  words_lt : s.words < 4
  le_written : s.popped ≤ s.written
  room : s.written ≤ s.popped + s.size
  busy : 0 < s.words → s.written < s.popped + s.size
  front : s.ring.front = s.address s.popped
  cycle : s.ring.cycleBit = System.phase (s.popped / s.size)
  unread : ∀ k, s.popped ≤ k → k < s.written → s.mem (s.address k) = s.event k
  stale : ∀ k, s.written ≤ k → k < s.popped + s.size → (s.mem (s.address k)).cycleBit = !System.phase (k / s.size)
  begun : ∀ i : Fin 4, i.val < s.words → s.mem (s.address s.written) i = s.event s.written i
  ready : s.place ≠ .idle → s.place ≠ .loop → s.popped < s.written
  handled : s.handled = (List.range s.handled.length).map s.event
  count : s.handled.length = s.popped + if s.place = .pop then 1 else 0

variable {s s' : EventSystem} {j k : ℕ}

theorem address_ne (h : s.Inv) (hj : j < k) (hk : k < j + s.size) : s.address k ≠ s.address j := by
  have hsize := s.ring.segmentSize.isLt
  have hlt : ∀ m, m % s.size < 2 ^ 16 := fun m => Nat.lt_trans (Nat.mod_lt m h.size_pos) hsize
  exact fun heq => mod_ne_mod hj hk (EventRing.slotAddress_inj (hlt k) (hlt j) heq).symm

theorem cycleBit_event (s : EventSystem) (k : ℕ) : (s.event k).cycleBit = System.phase (k / s.size) :=
  TRB.cycleBit_withCycle _ _

/-- **`HasFront` finds an event exactly when one is unread.** -/
theorem hasFront_iff (h : s.Inv) : s.ring.hasFront s.mem = true ↔ s.popped < s.written := by
  have hcycle := h.cycle
  unfold EventRing.hasFront
  rw [h.front, beq_iff_eq, hcycle]
  constructor
  · intro heq
    by_contra hge
    have hstale := h.stale s.popped (by omega) (by have := h.size_pos; omega)
    rw [heq] at hstale
    cases hp : System.phase (s.popped / s.size) <;> simp [hp] at hstale
  · intro hlt
    rw [h.unread s.popped (Nat.le_refl _) hlt, cycleBit_event]

/-- The controller writes a word. -/
theorem Inv.store (h : s.Inv) (hs : s.store = some s') : s'.Inv := by
  unfold EventSystem.store at hs
  split at hs
  next hc =>
    obtain ⟨hwords, hroom⟩ := hc
    have hle := h.le_written
    have hother : ∀ k, (s.popped ≤ k ∧ k < s.written) ∨ (s.written < k ∧ k < s.popped + s.size) →
        s.address k ≠ s.address s.written := by
      rintro k (hk | hk)
      · exact fun heq => address_ne h hk.2 (by omega) heq.symm
      · exact address_ne h hk.1 (by omega)
    split at hs
    next hlast =>
      cases hs
      -- The event is complete: its last word carries the cycle bit.
      have hwhole : Function.update (s.mem (s.address s.written)) ⟨s.words, hwords⟩
        (s.event s.written ⟨s.words, hwords⟩) =
          s.event s.written := by
        funext i
        by_cases hi : i = ⟨s.words, hwords⟩
        · rw [hi, Function.update_self]
        · rw [Function.update_of_ne hi]
          refine h.begun i ?_
          have hne : i.val ≠ s.words := fun heq => hi (Fin.ext heq)
          have hlt := i.isLt
          omega
      refine ⟨h.size_pos, h.aligned, Nat.zero_lt_succ 3, Nat.le_succ_of_le hle, hroom,
        fun h0 => absurd h0 (Nat.lt_irrefl 0), h.front, h.cycle, fun k hk hlt => ?_, fun k hk hlt => ?_,
          fun i hi => absurd hi (Nat.not_lt_zero _),
        fun hi hl => Nat.lt_succ_of_lt (h.ready hi hl), h.handled, h.count⟩
      · change Function.update s.mem _ _ (s.address k) = s.event k
        rcases Nat.lt_succ_iff_lt_or_eq.mp hlt with hk' | rfl
        · rw [Function.update_of_ne (hother k (.inl ⟨hk, hk'⟩))]
          exact h.unread k hk hk'
        · rw [Function.update_self, hwhole]
      · change (Function.update s.mem _ _ (s.address k)).cycleBit = _
        rw [Function.update_of_ne (hother k (.inr ⟨hk, hlt⟩))]
        exact h.stale k (Nat.le_of_succ_le hk) hlt
    next hnot =>
      cases hs
      refine ⟨h.size_pos, h.aligned, by dsimp only; omega, hle, h.room, fun _ => hroom, h.front, h.cycle,
        fun k hk hlt => ?_, fun k hk hlt => ?_, fun i hi => ?_, h.ready, h.handled, h.count⟩
      · change Function.update s.mem _ _ (s.address k) = s.event k
        rw [Function.update_of_ne (hother k (.inl ⟨hk, hlt⟩))]
        exact h.unread k hk hlt
      · change (Function.update s.mem _ _ (s.address k)).cycleBit = _
        rcases Nat.lt_or_eq_of_le hk with hk' | rfl
        · rw [Function.update_of_ne (hother k (.inr ⟨hk', hlt⟩))]
          exact h.stale k hk hlt
        · -- One of the first three words: the cycle bit is still the old one.
          have hthree : (3 : Fin 4) ≠ ⟨s.words, hwords⟩ := fun heq => hnot (congrArg Fin.val heq).symm
          rw [Function.update_self, TRB.cycleBit, Function.update_of_ne hthree]
          exact h.stale s.written hk hlt
      · change Function.update s.mem _ _ (s.address s.written) i = s.event s.written i
        rw [Function.update_self]
        rcases Nat.lt_succ_iff_lt_or_eq.mp hi with hi' | hi'
        · rw [Function.update_of_ne fun heq => absurd (congrArg Fin.val heq) (Nat.ne_of_lt hi')]
          exact h.begun i hi'
        · rw [show i = ⟨s.words, hwords⟩ from Fin.ext hi', Function.update_self]
  next => cases hs

/-- The register changes below the pointer. -/
theorem Inv.setLow (h : s.Inv) (b : BitVec 4) : Inv { s with ring.erdp := ERDP.setLow s.ring.erdp b } where
  size_pos := h.size_pos
  aligned := h.aligned
  words_lt := h.words_lt
  le_written := h.le_written
  room := h.room
  busy := h.busy
  front := (ERDP.pointer_setLow s.ring.erdp b).trans h.front
  cycle := h.cycle
  unread := h.unread
  stale := h.stale
  begun := h.begun
  ready := h.ready
  handled := h.handled
  count := h.count

/-- The driver is elsewhere, and has not handled an event on the way. -/
theorem Inv.goto (h : s.Inv) (hp : s.place ≠ .pop) {q : Place} (hq : q ≠ .pop)
    (hready : q ≠ .idle → q ≠ .loop → s.popped < s.written) : Inv { s with place := q } where
  size_pos := h.size_pos
  aligned := h.aligned
  words_lt := h.words_lt
  le_written := h.le_written
  room := h.room
  busy := h.busy
  front := h.front
  cycle := h.cycle
  unread := h.unread
  stale := h.stale
  begun := h.begun
  ready := hready
  handled := h.handled
  count := by
    have hcount := h.count
    rw [if_neg hp] at hcount
    rw [if_neg hq]
    exact hcount

/-- The event at `Front` is handled: it is the first unread one. -/
theorem Inv.handle (h : s.Inv) (hp : s.place = .handle) :
    Inv { s with handled := s.handled ++ [s.mem s.ring.front], place := .pop } := by
  have hready := h.ready (by simp [hp]) (by simp [hp])
  have hcount : s.handled.length = s.popped := by
    rw [h.count, hp]
    rfl
  refine ⟨h.size_pos, h.aligned, h.words_lt, h.le_written, h.room, h.busy, h.front, h.cycle, h.unread, h.stale, h.begun,
    fun _ _ => hready, ?_, ?_⟩
  · change s.handled ++ [s.mem s.ring.front] = (List.range (s.handled ++ [s.mem s.ring.front]).length).map s.event
    rw [List.length_append, List.length_singleton, List.range_succ, List.map_append, ← h.handled, hcount, h.front,
      h.unread s.popped (Nat.le_refl _) hready]
    rfl
  · change (s.handled ++ [s.mem s.ring.front]).length = s.popped + if Place.pop = .pop then 1 else 0
    rw [List.length_append, hcount, if_pos rfl, List.length_singleton]

/-- The slot of the event is given back: it is then the last of the stale ones. -/
theorem Inv.pop (h : s.Inv) (hp : s.place = .pop)
    (hs : s' = { s with ring := s.ring.pop, popped := s.popped + 1, place := .loop }) : s'.Inv := by
  have hready := h.ready (by simp [hp]) (by simp [hp])
  have hcount := h.count
  obtain ⟨hbase, hsegment, hfront, hcycle⟩ := EventRing.pop_spec h.aligned h.size_pos h.front h.cycle
  have hpopped : s'.popped = s.popped + 1 := by rw [hs]
  have hwritten : s'.written = s.written := by rw [hs]
  have hmem : s'.mem = s.mem := by rw [hs]
  have hsize : s'.size = s.size := by
    rw [hs]
    exact congrArg BitVec.toNat hsegment
  have hevent : s'.event = s.event := by
    funext k
    rw [event, hsize, hs]
    rfl
  have haddress : s'.address = s.address := by
    funext k
    rw [address, hsize, hs, EventRing.slotAddress, hbase]
    rfl
  rw [hp, if_pos rfl] at hcount
  constructor
  case size_pos => exact hsize ▸ h.size_pos
  case aligned => rw [hs]; exact hbase ▸ h.aligned
  case words_lt => rw [hs]; exact h.words_lt
  case le_written => omega
  case room => have := h.room; omega
  case busy => have := h.room; intro _; have := h.size_pos; omega
  case front => rw [haddress, hpopped, hs]; exact hfront
  case cycle => rw [hsize, hpopped, hs]; exact hcycle
  case unread =>
    intro k hk hlt
    rw [hmem, haddress, hevent]
    exact h.unread k (by omega) (hwritten ▸ hlt)
  case stale =>
    intro k hk hlt
    rw [hmem, haddress, hsize]
    rw [hwritten] at hk
    rcases Nat.lt_or_ge k (s.popped + s.size) with hold | hnew
    · exact h.stale k hk hold
    · -- The slot just given back: its event is of the lap before.
      have hk' : k = s.popped + s.size := by omega
      have haddr : s.address k = s.address s.popped := by rw [address, hk', Nat.add_mod_right]; rfl
      rw [haddr, h.unread s.popped (Nat.le_refl _) hready, cycleBit_event, hk', Nat.add_div_right _ h.size_pos,
        System.phase_succ, Bool.not_not]
  case begun => rw [hmem, haddress, hevent, hwritten, hs]; exact h.begun
  case ready => rw [hs]; exact fun _ hl => absurd rfl hl
  case handled => rw [hevent, hs]; exact h.handled
  case count => rw [hs, if_neg (by intro hq; cases hq)]; exact hcount

/-- **Every step keeps the invariant.** -/
theorem Inv.perform (h : s.Inv) (a : Action) (hs : s.perform a = some s') : s'.Inv := by
  cases a with
  | store => exact h.store hs
  | setLow b =>
    cases hs
    exact h.setLow b
  | call =>
    unfold EventSystem.perform at hs
    dsimp only at hs
    split at hs
    next hp =>
      cases hs
      refine h.goto ?_ ?_ ?_ <;> simp [hp]
    next => cases hs
  | proceed =>
    change s.proceed = some s' at hs
    unfold proceed at hs
    split at hs
    next => cases hs
    next hp =>
      cases hs
      have hfront := hasFront_iff h
      apply h.goto (by simp [hp])
      · split <;> simp
      · split
        next hc => exact fun _ _ => hfront.mp hc
        next => exact fun hi => absurd rfl hi
    next hp =>
      cases hs
      have hready := h.ready (by simp [hp]) (by simp [hp])
      rw [if_pos ((hasFront_iff h).mpr hready)]
      exact h.goto (by simp [hp]) (by simp) fun _ _ => hready
    next hp =>
      cases hs
      exact h.handle hp
    next hp =>
      cases hs
      exact h.pop hp rfl

/-- The ring just initialized. -/
theorem Inv.init (buf : BitVec 60) (bufSize : ℕ) (erdp : BitVec 64) (events : ℕ → TRB)
    (h : 0 < (init buf bufSize erdp events).size) : (init buf bufSize erdp events).Inv := by
  have haligned : (buf ++ 0#4).toNat % 16 = 0 := by
    rw [ERDP.toNat_append]
    exact Nat.mul_add_mod_self_right _ _ _
  refine ⟨h, haligned, Nat.zero_lt_succ 3, Nat.le_refl 0, Nat.zero_le _, fun h0 => absurd h0 (Nat.lt_irrefl 0), ?_, ?_,
    fun k _ hlt => absurd hlt (Nat.not_lt_zero k), fun k _ hlt => ?_, fun i hi => absurd hi (Nat.not_lt_zero _), ?_,
      rfl, rfl⟩
  · change ERDP.pointer (ERDP.setPointer erdp (buf ++ 0#4)) = _
    rw [ERDP.pointer_setPointer erdp haligned, address]
    change buf ++ 0#4 = EventRing.slotAddress _ (0 % _)
    rw [Nat.zero_mod, EventRing.slotAddress_zero]
    rfl
  · change true = System.phase (0 / _)
    rw [Nat.zero_div]
    rfl
  · rw [Nat.div_eq_of_lt (by change k < 0 + _ at hlt; omega)]
    change (0#32).getLsbD 0 = !System.phase 0
    rw [BitVec.getLsbD_zero]
    rfl
  · exact fun hi => absurd rfl hi

/-- The events to write stay the same. -/
theorem event_perform {a : Action} (hs : s.perform a = some s') : s'.event = s.event := by
  have hpop : s.ring.pop.segmentSize = s.ring.segmentSize := by
    unfold EventRing.pop EventRing.writeDequeuePointer
    dsimp only
    split <;> rfl
  cases a with
  | store =>
    change s.store = some s' at hs
    unfold EventSystem.store at hs
    split at hs
    next =>
      split at hs
      all_goals
        cases hs
        rfl
    next => cases hs
  | setLow b =>
    cases hs
    rfl
  | call =>
    unfold EventSystem.perform at hs
    dsimp only at hs
    split at hs
    next =>
      cases hs
      rfl
    next => cases hs
  | proceed =>
    change s.proceed = some s' at hs
    unfold proceed at hs
    split at hs
    case h_1 => cases hs
    case h_5 =>
      cases hs
      funext k
      unfold event size
      dsimp only
      rw [hpop]
    all_goals
      cases hs
      rfl

/-- The steps from a place to the next event, or to the end. -/
def rank : Place → ℕ
  | .idle => 0
  | .loop => 4
  | .check => 3
  | .handle => 2
  | .pop => 1

/-- What is left to do until `ProcessEvents` returns. -/
def left (s : EventSystem) : ℕ := 5 * (s.written - s.popped) + rank s.place

/-- `ProcessEvents` gets on with each of its steps, and returns when no event is unread. -/
theorem proceed_spec (h : s.Inv) (hp : s.place ≠ .idle) : ∃ s', s.proceed = some s' ∧ s'.left < s.left ∧
    s'.written = s.written ∧ (s'.place = .idle → s'.popped = s'.written) := by
  have hle := h.le_written
  have hfront := hasFront_iff h
  unfold proceed left
  cases hplace : s.place with
  | idle => exact absurd hplace hp
  | loop =>
    by_cases hc : s.ring.hasFront s.mem = true
    · refine ⟨_, rfl, ?_, rfl, fun hidle => ?_⟩
      · simp [hc, rank]
      · simp [hc] at hidle
    · refine ⟨_, rfl, ?_, rfl, fun _ => ?_⟩
      · simp [hc, rank]
      · exact Nat.le_antisymm hle (Nat.le_of_not_lt (hfront.not.mp hc))
  | check =>
    have hc := hfront.mpr (h.ready hp (by simp [hplace]))
    refine ⟨_, rfl, ?_, rfl, fun hidle => ?_⟩
    · simp [hc, rank]
    · simp [hc] at hidle
  | handle =>
    refine ⟨_, rfl, ?_, rfl, fun hidle => nomatch hidle⟩
    simp [rank]
  | pop =>
    have hready := h.ready hp (by simp [hplace])
    refine ⟨_, rfl, ?_, rfl, fun hidle => nomatch hidle⟩
    simp only [rank]
    omega

/-- **Left alone, the driver handles the events written and stops.** -/
theorem run_proceed (h : s.Inv) (hp : s.place ≠ .idle) : ∃ n s', run perform s (List.replicate n .proceed) = some s' ∧
    s'.place = .idle ∧ s'.handled = (List.range s.written).map s.event := by
  induction hd : s.left using Nat.strong_induction_on generalizing s with
  | _ d ih =>
    obtain ⟨s₁, hstep, hlt, hwritten, hlast⟩ := proceed_spec h hp
    have h₁ : s₁.Inv := h.perform .proceed hstep
    have hevent : s₁.event = s.event := event_perform (a := .proceed) hstep
    by_cases hidle : s₁.place = .idle
    · have hcount := h₁.count
      rw [hidle, if_neg (by simp), hlast hidle, hwritten] at hcount
      refine ⟨1, s₁, ?_, hidle, ?_⟩
      · exact Option.bind_eq_some_iff.mpr ⟨s₁, hstep, rfl⟩
      · rw [h₁.handled, hcount, hevent, Nat.add_zero]
    · obtain ⟨n, s', hrun, hplace, hhandled⟩ := ih s₁.left (hd ▸ hlt) h₁ hidle rfl
      refine ⟨n + 1, s', ?_, hplace, ?_⟩
      · exact Option.bind_eq_some_iff.mpr ⟨s₁, hstep, hrun⟩
      · rw [hhandled, hwritten, hevent]

/-- **`ProcessEvents` handles the events written, in order and each once**, and its loop goes on exactly when
one is unread; left alone it handles them all and returns. `Pop` keeps the low bits of the register. -/
theorem events_handled (buf : BitVec 60) (bufSize : ℕ) (erdp : BitVec 64) (events : ℕ → TRB)
    (hsize : 1 ≤ (init buf bufSize erdp events).size) {l : List Action}
    (hrun : run perform (init buf bufSize erdp events) l = some s) :
    s.handled = (List.range s.handled.length).map (init buf bufSize erdp events).event ∧
      s.handled.length ≤ s.written ∧
      (s.place = .loop → s.perform .proceed =
        some { s with place := if s.handled.length < s.written then .check else .idle }) ∧
      (s.place = .check → s.perform .proceed = some { s with place := .handle }) ∧
      (s.place ≠ .idle → ∃ n s', run perform s (List.replicate n .proceed) = some s' ∧ s'.place = .idle ∧
        s'.handled = (List.range s.written).map (init buf bufSize erdp events).event) ∧
      ERDP.low s.ring.pop.erdp = ERDP.low s.ring.erdp := by
  have h : s.Inv := run_invariant Inv (fun s a s' h hs => h.perform a hs) (Inv.init buf bufSize erdp events hsize) hrun
  have hevent := run_invariant (fun s => s.event = (init buf bufSize erdp events).event)
    (fun s a s' heq hs => (event_perform hs).trans heq) rfl hrun
  have hfront := hasFront_iff h
  have hle := h.le_written
  have hcount := h.count
  rw [← hevent]
  refine ⟨h.handled, ?_, fun hp => ?_, fun hp => ?_, run_proceed h, s.ring.low_pop⟩
  · split at hcount
    next hp =>
      have hready := h.ready (by simp [hp]) (by simp [hp])
      omega
    next => omega
  · rw [if_neg (by simp [hp]), Nat.add_zero] at hcount
    rw [perform, proceed, hp, hcount]
    simp only [hfront]
  · have hready := h.ready (by simp [hp]) (by simp [hp])
    rw [perform, proceed, hp]
    simp only [hfront.mpr hready, if_true]

/-- Two laps over a segment of one slot: an event is written and handled, then another. -/
theorem events_handled_two_laps : ∃ s, run perform (init 0 1 5 fun k _ => BitVec.ofNat 32 k)
    (List.replicate 4 .store ++ [.call, .proceed, .proceed, .proceed, .setLow 9, .proceed] ++ List.replicate 4 .store ++
      [.proceed, .proceed, .proceed]) = some s ∧
    s.handled = (List.range 2).map (init 0 1 5 fun k _ => BitVec.ofNat 32 k).event := by
  have hsize : 1 ≤ (init 0 1 5 fun k _ => BitVec.ofNat 32 k).size := Nat.le_refl 1
  -- Any actions will do after which two events are handled.
  have htwo : ∀ l : List Action,
      (run perform (init 0 1 5 fun k _ => BitVec.ofNat 32 k) l).map (fun s => s.handled.length) = some 2 →
      ∃ s, run perform (init 0 1 5 fun k _ => BitVec.ofNat 32 k) l = some s ∧
        s.handled = (List.range 2).map (init 0 1 5 fun k _ => BitVec.ofNat 32 k).event := by
    intro l hl
    obtain ⟨s, hrun, hlength⟩ := Option.map_eq_some_iff.mp hl
    have h := (events_handled 0 1 5 (fun k _ => BitVec.ofNat 32 k) hsize hrun).1
    rw [hlength] at h
    exact ⟨s, hrun, h⟩
  exact htwo _ (by decide +kernel)

end EventSystem

end DuvuvurKernel.Usb
