import Mathlib.Algebra.Group.Nat.Defs
import Mathlib.Data.List.FinRange
import Mathlib.Logic.Function.Basic
import Mathlib.Tactic

/-!
# The producer ring

`usb/xhci/ring.cpp`: the command ring and the transfer rings, on which the driver pushes
TRBs and from which the host controller takes them. The two sides share nothing but
the memory of the ring, so it is the cycle bit of a TRB that says whether it is
new: it is the parity of the lap in which the TRB was written. The last slot holds a Link
TRB, which leads the consumer back to slot 0.

## The model

A TRB is its four words. `Push` is the list of the 32-bit stores it makes, in program
order; the stores are performed one at a time, and between any two of them the
consumer may take steps. The consumer reads the TRB at its slot, and goes on only if
the cycle bit is its cycle state.

Nothing in `Push` looks at the consumer: that there is room is left to the caller.
`Allowed` is the room the caller leaves. If it counts only the TRBs pushed, a
consumer that has not followed the Link TRB yet can find it overwritten by the Link TRB of
the next lap, whose cycle bit it never accepts (`consumer_stuck`).

**Results**: whatever the interleaving, what has been taken is a prefix of what has been
pushed, word for word but for the cycle bits; and if the last TRB of a lap counts as taken
only once the Link TRB behind it has been followed, the consumer is never stuck and takes
all of it (`taken_exactly`).
-/

namespace DuvuvurKernel.Usb

/-- A word of a TRB, `uint32_t`. -/
abbrev Word := BitVec 32

/-- `TRB`: its words, `std::array<uint32_t, 4>`. -/
abbrev TRB := Fin 4 → Word

namespace TRB

/-- `bits.cycle_bit`. -/
def cycleBit (trb : TRB) : Bool := (trb 3).getLsbD 0

/-- `bits.trb_type`. -/
def trbType (trb : TRB) : BitVec 6 := (trb 3).extractLsb' 10 6

/-- `LinkTRB::Type`. -/
def linkType : BitVec 6 := 6

/-- `toggle_cycle`, of a Link TRB. -/
def toggleCycle (trb : TRB) : Bool := (trb 3).getLsbD 1

/-- `Pointer`, of a Link TRB, in units of a TRB. -/
def pointer (trb : TRB) : BitVec 60 := ((trb 1) ++ (trb 0)).extractLsb' 4 60

/-- The words of `LinkTRB link{p}` with `toggle_cycle` set, `p` in units of a TRB. -/
def link (p : BitVec 60) : TRB :=
  ![p.extractLsb' 0 28 ++ 0#4, p.extractLsb' 28 32, 0, (0#16 ++ linkType) ++ 2#10]

/-- The words that `CopyToLast` leaves in memory: `data[3]` with the given cycle bit. -/
def withCycle (c : Bool) (data : TRB) : TRB :=
  Function.update data 3 ((data 3 &&& 0xfffffffe) ||| (BitVec.ofBool c).setWidth 32)

end TRB

/-- `Ring`. -/
structure Ring where
  /-- `buf_`, in units of a TRB: it is aligned to 64 bytes. -/
  buf : BitVec 60
  /-- `buf_size_`. -/
  bufSize : ℕ
  /-- `cycle_bit_`. -/
  cycleBit : Bool
  /-- `write_index_`. -/
  writeIndex : ℕ

/-- One store, `buf_[slot].data[i] = value`. -/
structure Store where
  /-- The slot of the ring. -/
  slot : ℕ
  /-- The word of the TRB. -/
  i : Fin 4
  /-- What is stored. -/
  value : Word

namespace Ring

/-- `Initialize`. -/
def init (buf : BitVec 60) (bufSize : ℕ) : Ring where
  buf := buf
  bufSize := bufSize
  cycleBit := true
  writeIndex := 0

/-- `CopyToLast`: its stores, in order. -/
def copyToLast (r : Ring) (data : TRB) : List Store :=
  (List.finRange 4).map fun i => ⟨r.writeIndex, i, TRB.withCycle r.cycleBit data i⟩

/-- `Push`: the slot it returns, its stores, in order, and the variables it leaves behind. -/
def push (r : Ring) (data : TRB) : ℕ × List Store × Ring :=
  let trbPtr := r.writeIndex
  let stores := r.copyToLast data
  let r := { r with writeIndex := r.writeIndex + 1 }
  if r.writeIndex = r.bufSize - 1 then
    (trbPtr, stores ++ r.copyToLast (TRB.link r.buf),
      { r with writeIndex := 0, cycleBit := !r.cycleBit })
  else (trbPtr, stores, r)

@[simp] theorem push_buf (r : Ring) (data : TRB) : (r.push data).2.2.buf = r.buf := by
  simp only [push]
  split <;> rfl

@[simp] theorem push_bufSize (r : Ring) (data : TRB) : (r.push data).2.2.bufSize = r.bufSize := by
  simp only [push]
  split <;> rfl

end Ring

/-- A ring with its consumer. -/
structure System where
  /-- The producer. -/
  ring : Ring
  /-- The stores of the current `Push` still to be performed. -/
  stores : List Store
  /-- The memory of the ring. -/
  trbs : ℕ → TRB
  /-- The slot the consumer is at. -/
  slot : ℕ
  /-- The consumer's cycle state. -/
  cycleState : Bool
  /-- The TRBs pushed so far, the current one included. -/
  pushed : List TRB
  /-- The TRBs the consumer has taken. -/
  taken : List TRB

/-- What happens next. -/
inductive Action where
  /-- `Push` is called. -/
  | push (data : TRB)
  /-- The next store is performed. -/
  | store
  /-- The consumer goes on. -/
  | consume

namespace System

/-- A ring that has just been initialized, its memory cleared. -/
def init (buf : BitVec 60) (bufSize : ℕ) : System where
  ring := Ring.init buf bufSize
  stores := []
  trbs _ _ := 0
  slot := 0
  cycleState := true
  pushed := []
  taken := []

/-- A call of `Push`, once the one before it has returned. -/
def push (s : System) (data : TRB) : Option System :=
  match s.stores with
  | [] => some { s with
      stores := (s.ring.push data).2.1, ring := (s.ring.push data).2.2, pushed := s.pushed ++ [data] }
  | _ :: _ => none

/-- The next store. -/
def store (s : System) : Option System :=
  match s.stores with
  | [] => none
  | st :: stores => some { s with
      stores := stores
      trbs := Function.update s.trbs st.slot (Function.update (s.trbs st.slot) st.i st.value) }

/-- A step of the consumer: a TRB with the other cycle bit is not its own yet, a Link TRB is
followed, any other is taken. -/
def consume (s : System) : Option System :=
  let trb := s.trbs s.slot
  if trb.cycleBit ≠ s.cycleState then none
  else if trb.trbType = TRB.linkType then
    some { s with
      slot := (trb.pointer - s.ring.buf).toNat
      cycleState := if trb.toggleCycle then !s.cycleState else s.cycleState }
  else some { s with slot := s.slot + 1, taken := s.taken ++ [trb] }

/-- The action happens. -/
def perform (s : System) : Action → Option System
  | .push data => s.push data
  | .store => s.store
  | .consume => s.consume

/-- The number of TRBs the consumer is done with. If the Link TRBs count, the last TRB of a lap is
done with once the Link TRB behind it has been followed. -/
def consumed (s : System) (links : Bool) : ℕ :=
  if links ∧ s.slot = s.ring.bufSize - 1 then s.taken.length - 1 else s.taken.length

/-- The caller pushes no Link TRB, and keeps at most `buf_size - 1` TRBs unconsumed. -/
def Allowed (s : System) (links : Bool) : Action → Prop
  | .push data => data.trbType ≠ TRB.linkType ∧
      s.pushed.length + 1 ≤ s.consumed links + (s.ring.bufSize - 1)
  | _ => True

instance (s : System) (links : Bool) : (a : Action) → Decidable (s.Allowed links a)
  | .push _ => inferInstanceAs (Decidable (_ ∧ _))
  | .store | .consume => isTrue trivial

/-- The states in which a ring can be. -/
inductive Reachable (buf : BitVec 60) (bufSize : ℕ) (links : Bool) : System → Prop where
  /-- A new ring. -/
  | init : Reachable buf bufSize links (init buf bufSize)
  /-- Any action, in any order. -/
  | step {s s' : System} (a : Action) : Reachable buf bufSize links s → s.Allowed links a →
      s.perform a = some s' → Reachable buf bufSize links s'

end System

/-! ### Cycle bits -/

namespace TRB

variable (c : Bool) (data : TRB)

theorem withCycle_of_ne {i : Fin 4} (h : i ≠ 3) : withCycle c data i = data i :=
  Function.update_of_ne h _ _

theorem getLsbD_withCycle (n : ℕ) :
    (withCycle c data 3).getLsbD n = if n = 0 then c else (data 3).getLsbD n := by
  have hm : ∀ i : Fin 32, (0xfffffffe#32).getLsbD i = decide (i ≠ 0) := by decide
  rw [withCycle, Function.update_self, BitVec.getLsbD_or, BitVec.getLsbD_and, BitVec.getLsbD_setWidth]
  by_cases hn : n < 32
  · rw [show (0xfffffffe : Word).getLsbD n = decide (n ≠ 0) by simpa [Fin.ext_iff] using hm ⟨n, hn⟩]
    cases n <;> cases c <;> simp
  · rw [BitVec.getLsbD_of_ge _ _ (by omega)]
    simp [hn, show n ≠ 0 by omega]

@[simp] theorem cycleBit_withCycle : (withCycle c data).cycleBit = c := by
  rw [cycleBit, getLsbD_withCycle, if_pos rfl]

@[simp] theorem toggleCycle_withCycle : (withCycle c data).toggleCycle = data.toggleCycle := by
  rw [toggleCycle, getLsbD_withCycle, if_neg one_ne_zero, toggleCycle]

@[simp] theorem trbType_withCycle : (withCycle c data).trbType = data.trbType := by
  ext i hi
  simp [trbType, getLsbD_withCycle]

@[simp] theorem pointer_withCycle : (withCycle c data).pointer = data.pointer := by
  simp [pointer, withCycle_of_ne]

/-- Setting the cycle bit twice. -/
@[simp] theorem withCycle_withCycle (c' : Bool) : withCycle c (withCycle c' data) = withCycle c data := by
  ext i : 1
  by_cases h : i = 3
  · subst h
    apply BitVec.eq_of_getLsbD_eq
    intro n _
    simp only [getLsbD_withCycle]
    split <;> rfl
  · rw [withCycle_of_ne _ _ h, withCycle_of_ne _ _ h, withCycle_of_ne _ _ h]

@[simp] theorem trbType_link (p : BitVec 60) : (link p).trbType = linkType := by
  simp [link, trbType]
  decide

@[simp] theorem toggleCycle_link (p : BitVec 60) : (link p).toggleCycle = true := by
  simp [link, toggleCycle]
  decide

@[simp] theorem pointer_link (p : BitVec 60) : (link p).pointer = p := by
  apply BitVec.eq_of_getLsbD_eq
  intro n hn
  simp [link, pointer]
  grind

end TRB

namespace System

/-! ### What the slots hold

A lap writes the slots in order. So in the middle of a lap the slots before the one being
written hold this lap's TRBs, and those behind it still hold the previous lap's.
-/

/-- The number of slots for pushed TRBs, which is also the slot of the Link TRB. -/
def last (s : System) : ℕ := s.ring.bufSize - 1

/-- The cycle bit of a lap. -/
def phase (lap : ℕ) : Bool := lap % 2 = 0

@[simp] theorem phase_zero : phase 0 = true := rfl

@[simp] theorem phase_succ (lap : ℕ) : phase (lap + 1) = !phase lap := by
  simp only [phase]
  grind

/-- What is written to a slot in a lap. -/
def written (s : System) (lap slot : ℕ) : TRB :=
  (if slot = s.last then TRB.link s.ring.buf
    else s.pushed.getD (lap * s.last + slot) fun _ => 0).withCycle (phase lap)

/-- What a slot holds before it is written in a lap. -/
def before (s : System) (lap slot : ℕ) : TRB :=
  match lap with
  | 0 => fun _ => 0
  | lap + 1 => s.written lap slot

/-- The stores that write a slot. -/
def storesAt (s : System) (lap slot : ℕ) : List Store :=
  (List.finRange 4).map fun i => ⟨slot, i, s.written lap slot i⟩

/-- What `Push` has still to do when in lap `p` slot `v` is being written and `k` words of it
have been stored, and what it leaves behind. -/
inductive Control (s : System) (p v k : ℕ) : Prop where
  /-- No `Push` is under way. -/
  | idle (stores : s.stores = []) (words : k = 0) (slot : v < s.last) (index : s.ring.writeIndex = v)
      (cycle : s.ring.cycleBit = phase p) (length : s.pushed.length = p * s.last + v)
  /-- A TRB is being written, and room is left before the Link TRB. -/
  | trb (stores : s.stores = (s.storesAt p v).drop k) (slot : v + 1 < s.last)
      (index : s.ring.writeIndex = v + 1) (cycle : s.ring.cycleBit = phase p)
      (length : s.pushed.length = p * s.last + (v + 1))
  /-- The last TRB of the lap is being written. -/
  | lastTRB (stores : s.stores = (s.storesAt p v).drop k ++ s.storesAt p s.last) (slot : v + 1 = s.last)
      (index : s.ring.writeIndex = 0) (cycle : s.ring.cycleBit = phase (p + 1))
      (length : s.pushed.length = (p + 1) * s.last)
  /-- The Link TRB is being written. -/
  | link (stores : s.stores = (s.storesAt p v).drop k) (slot : v = s.last)
      (index : s.ring.writeIndex = 0) (cycle : s.ring.cycleBit = phase (p + 1))
      (length : s.pushed.length = (p + 1) * s.last)

/-- How far the producer, in lap `p` at slot `v`, may be ahead of the consumer, in lap `a` at slot
`b`. If only the pushed TRBs count (`links = false`), it may have overwritten the Link TRB at which the
consumer is. -/
def Ahead (s : System) (links : Bool) (p v a b : ℕ) : Prop :=
  (p = a ∧ b ≤ v) ∨
  (p = a + 1 ∧ (v < b ∨ v = b ∧ (s.stores = [] ∨ b = s.last)) ∧
    (links = true → s.stores ≠ [] → b = s.last → v + 1 < s.last)) ∨
  (links = false ∧ p = a + 2 ∧ v = 0 ∧ b = s.last ∧ s.stores = [])

/-- The invariant: the producer is in lap `p` at slot `v`, of which `k` words are stored, and the
consumer in lap `a` at slot `b`. -/
structure Inv (s : System) (links : Bool) (p v k a b : ℕ) : Prop where
  /-- There is a slot for pushed TRBs. -/
  last_pos : 0 < s.last
  /-- No Link TRB is pushed. -/
  notLink : ∀ data ∈ s.pushed, data.trbType ≠ TRB.linkType
  /-- The words of one TRB. -/
  words : k < 4
  /-- The producer. -/
  control : s.Control p v k
  /-- The memory. -/
  trbs : ∀ j ≤ s.last, ∀ i : Fin 4,
    s.trbs j i = if j < v ∨ j = v ∧ i.val < k then s.written p j i else s.before p j i
  /-- The consumer is on the ring. -/
  slot_le : b ≤ s.last
  /-- Where the consumer is. -/
  slot : s.slot = b
  /-- Its cycle state is the cycle bit of its lap. -/
  cycleState : s.cycleState = phase a
  /-- What it has taken. -/
  taken : s.taken.map (TRB.withCycle false) = (s.pushed.take (a * s.last + b)).map (TRB.withCycle false)
  /-- The producer is ahead of it. -/
  ahead : s.Ahead links p v a b

variable {s s' : System} {links : Bool} {p v k a b : ℕ}

theorem cycleBit_written (s : System) (lap slot : ℕ) : (s.written lap slot).cycleBit = phase lap :=
  TRB.cycleBit_withCycle _ _

/-- The Link TRBs of two laps differ in the cycle bit only. -/
theorem written_last_of_ne (s : System) (lap lap' : ℕ) {i : Fin 4} (hi : i ≠ 3) :
    s.written lap s.last i = s.written lap' s.last i := by
  rw [written, written, TRB.withCycle_of_ne _ _ hi, TRB.withCycle_of_ne _ _ hi, if_pos rfl, if_pos rfl]

theorem storesAt_drop (s : System) (lap slot : ℕ) {k : ℕ} (hk : k < 4) :
    (s.storesAt lap slot).drop k =
      ⟨slot, ⟨k, hk⟩, s.written lap slot ⟨k, hk⟩⟩ :: (s.storesAt lap slot).drop (k + 1) := by
  rw [List.drop_eq_getElem_cons (by simpa [storesAt] using hk)]
  simp [storesAt]

theorem storesAt_drop_four (s : System) (lap slot : ℕ) : (s.storesAt lap slot).drop 4 = [] := rfl

namespace Control

theorem slot_le (h : s.Control p v k) : v ≤ s.last := by
  cases h <;> omega

theorem length_ge (h : s.Control p v k) : p * s.last + v ≤ s.pushed.length := by
  cases h with
  | idle _ _ _ _ _ hl => exact hl.ge
  | trb _ _ _ _ hl => omega
  | lastTRB _ hs _ _ hl =>
    rw [hl, Nat.add_mul]
    omega
  | link _ hs _ _ hl =>
    rw [hl, Nat.add_mul]
    omega

/-- Between two pushes. -/
theorem of_idle (h : s.Control p v k) (hk : k < 4) (hs : s.stores = []) :
    k = 0 ∧ v < s.last ∧ s.ring.writeIndex = v ∧ s.ring.cycleBit = phase p ∧
      s.pushed.length = p * s.last + v := by
  cases h with
  | idle _ h0 hv hi hc hl => exact ⟨h0, hv, hi, hc, hl⟩
  | trb h =>
    have hl := congrArg List.length (h.symm.trans hs)
    simp [storesAt] at hl
    omega
  | lastTRB h =>
    have hl := congrArg List.length (h.symm.trans hs)
    simp [storesAt] at hl
  | link h =>
    have hl := congrArg List.length (h.symm.trans hs)
    simp [storesAt] at hl
    omega

/-- The consumer is not seen by the producer. -/
theorem consumer (h : s.Control p v k) (slot : ℕ) (cycleState : Bool) (taken : List TRB) :
    { s with slot := slot, cycleState := cycleState, taken := taken }.Control p v k := by
  cases h with
  | idle h1 h2 h3 h4 h5 h6 => exact .idle h1 h2 h3 h4 h5 h6
  | trb h1 h2 h3 h4 h5 => exact .trb h1 h2 h3 h4 h5
  | lastTRB h1 h2 h3 h4 h5 => exact .lastTRB h1 h2 h3 h4 h5
  | link h1 h2 h3 h4 h5 => exact .link h1 h2 h3 h4 h5

end Control

/-! ### The consumer -/

theorem consume_ring (h : s.consume = some s') : s'.ring = s.ring := by
  simp only [consume] at h
  split at h
  next => cases h
  next =>
    split at h
    next => cases h; rfl
    next => cases h; rfl

namespace Inv

theorem length_ge (h : s.Inv links p v k a b) : a * s.last + b ≤ s.pushed.length := by
  have hl := h.control.length_ge
  have hb := h.slot_le
  obtain ⟨rfl, hv⟩ | ⟨rfl, -⟩ | ⟨-, rfl, -⟩ := h.ahead
  · omega
  · rw [Nat.add_mul] at hl
    omega
  · rw [Nat.add_mul] at hl
    omega

theorem length_taken (h : s.Inv links p v k a b) : s.taken.length = a * s.last + b := by
  have hl := congrArg List.length h.taken
  rwa [List.length_map, List.length_map, List.length_take, min_eq_left h.length_ge] at hl

/-- Behind the producer in the same lap, the slot has been written. -/
theorem read_new (h : s.Inv links p v k p b) (hb : b < v) : s.trbs b = s.written p b := by
  ext i : 1
  rw [h.trbs b h.slot_le i, if_pos (.inl hb)]

/-- A lap behind the producer, the slot still holds what was written in that lap. -/
theorem read_old (h : s.Inv links (a + 1) v k a b) : s.trbs b = s.written a b := by
  obtain ⟨hp, -⟩ | ⟨-, hv, -⟩ | ⟨-, hp, -⟩ := h.ahead
  · omega
  · ext i : 1
    rw [h.trbs b h.slot_le i]
    split
    next hi =>
      -- only the Link TRB may be written again before it has been followed
      have hk := h.words
      obtain hlt | ⟨heq, hw⟩ := hv
      · omega
      · obtain hw | rfl := hw
        · have hz := (h.control.of_idle hk hw).1
          omega
        · exact s.written_last_of_ne _ _ (by rintro rfl; simp at hi; omega)
    next => rfl
  · omega

/-- Where the producer is, the slot has the cycle bit of another lap. -/
theorem read_empty (h : s.Inv links p v k p v) : (s.trbs v).cycleBit ≠ phase p := by
  have hw : s.trbs v 3 = s.before p v 3 := by
    rw [h.trbs v h.slot_le 3, if_neg]
    have hk := h.words
    rintro (hv | ⟨-, hv⟩)
    · omega
    · simp at hv
      omega
  cases p with
  | zero => simp [TRB.cycleBit, hw, before]
  | succ p =>
    have he : (s.trbs v).cycleBit = phase p := by
      rw [TRB.cycleBit, hw, ← cycleBit_written s p v]
      rfl
    simp [he]

/-- The other end of the ring: the slot has been written again. -/
theorem read_overwritten (h : s.Inv links (a + 2) v k a b) : (s.trbs b).cycleBit ≠ phase a := by
  obtain ⟨hp, -⟩ | ⟨hp, -⟩ | ⟨-, -, rfl, rfl, -⟩ := h.ahead
  · omega
  · omega
  · have hl := h.last_pos
    have he : s.trbs s.last = s.written (a + 1) s.last := by
      ext i : 1
      rw [h.trbs _ le_rfl i, if_neg (by have := h.control.of_idle h.words; grind)]
      rfl
    rw [he, cycleBit_written]
    simp

/-- What has been taken is the beginning of what has been pushed. -/
theorem taken_prefix (h : s.Inv links p v k a b) :
    s.taken.map (TRB.withCycle false) <+: s.pushed.map (TRB.withCycle false) := by
  rw [h.taken]
  exact (List.take_prefix _ _).map _

/-- The consumer takes a TRB. -/
theorem take (h : s.Inv links p v k a b) (hr : s.trbs b = s.written a b) (hb : b < s.last)
    (ha : s.Ahead links p v a (b + 1)) (hn : a * s.last + b < s.pushed.length) :
    ∃ s', s.consume = some s' ∧ s'.Inv links p v k a (b + 1) ∧ s'.pushed = s.pushed ∧
      s'.stores = s.stores := by
  have hd : s.written a b = (s.pushed[a * s.last + b]).withCycle (phase a) := by
    rw [written, if_neg hb.ne, List.getD_eq_getElem?_getD, List.getElem?_eq_getElem hn, Option.getD_some]
  have ht : (s.trbs b).trbType ≠ TRB.linkType := by
    rw [hr, hd, TRB.trbType_withCycle]
    exact h.notLink _ (List.getElem_mem hn)
  refine ⟨{ s with slot := s.slot + 1, taken := s.taken ++ [s.trbs s.slot] }, ?_, ?_, rfl, rfl⟩
  · simp only [consume, h.slot, h.cycleState, hr, cycleBit_written, ne_eq, not_true_eq_false, if_false]
    rw [if_neg (hr ▸ ht)]
  · refine { h with control := h.control.consumer _ _ _, slot_le := hb, slot := ?_, taken := ?_, ahead := ha }
    · exact congrArg (· + 1) h.slot
    · change (s.taken ++ [s.trbs s.slot]).map _ = (s.pushed.take (a * s.last + b + 1)).map _
      rw [List.map_append, h.taken, List.take_add_one, List.getElem?_eq_getElem hn, List.map_append,
        h.slot, hr, hd]
      simp

/-- The consumer follows the Link TRB. -/
theorem follow (h : s.Inv links p v k a s.last) (hr : s.trbs s.last = s.written a s.last)
    (ha : s.Ahead links p v (a + 1) 0) :
    ∃ s', s.consume = some s' ∧ s'.Inv links p v k (a + 1) 0 ∧ s'.pushed = s.pushed ∧
      s'.stores = s.stores := by
  have hd : s.written a s.last = (TRB.link s.ring.buf).withCycle (phase a) := by
    rw [written, if_pos rfl]
  refine ⟨{ s with slot := 0, cycleState := !s.cycleState }, ?_, ?_, rfl, rfl⟩
  · simp [consume, h.slot, h.cycleState, hr, hd]
  · refine { h with control := h.control.consumer _ _ _, slot_le := Nat.zero_le _, slot := rfl,
                    cycleState := ?_, taken := ?_, ahead := ha }
    · rw [phase_succ, ← h.cycleState]
    · refine h.taken.trans ?_
      rw [Nat.add_mul, Nat.one_mul]
      rfl

/-- The consumer goes on if the cycle bit at its slot is that of its lap. -/
theorem advance (h : s.Inv links p v k a b) (hc : (s.trbs b).cycleBit = phase a) :
    ∃ s' a' b', s.consume = some s' ∧ s'.Inv links p v k a' b' ∧ s'.pushed = s.pushed ∧
      s'.stores = s.stores ∧ (b < s.last ∧ a' = a ∧ b' = b + 1 ∨ b = s.last ∧ a' = a + 1 ∧ b' = 0) := by
  have hb := h.slot_le
  have hl := h.control.length_ge
  obtain ⟨rfl, hv⟩ | ⟨rfl, hv, -⟩ | ⟨-, rfl, -⟩ := h.ahead
  · have hlt : b < v := by
      refine lt_of_le_of_ne hv ?_
      rintro rfl
      exact h.read_empty hc
    have hvl := h.control.slot_le
    obtain ⟨s', h1, h2, h3, h4⟩ := h.take (h.read_new hlt) (by omega) (.inl ⟨rfl, hlt⟩) (by omega)
    exact ⟨s', p, b + 1, h1, h2, h3, h4, .inl ⟨by omega, rfl, rfl⟩⟩
  · rcases Nat.lt_or_eq_of_le hb with hlt | rfl
    · have hwork : s.stores ≠ [] → v < b := by
        intro hw
        rcases hv with hv | ⟨-, hv | hv⟩
        · exact hv
        · exact absurd hv hw
        · omega
      have ha : s.Ahead links (a + 1) v a (b + 1) :=
        .inr (.inl ⟨rfl, .inl (by omega), fun _ hw hbl => by have := hwork hw; omega⟩)
      rw [Nat.add_mul] at hl
      obtain ⟨s', h1, h2, h3, h4⟩ := h.take h.read_old hlt ha (by omega)
      exact ⟨s', a, b + 1, h1, h2, h3, h4, .inl ⟨hlt, rfl, rfl⟩⟩
    · obtain ⟨s', h1, h2, h3, h4⟩ := h.follow h.read_old (.inl ⟨rfl, Nat.zero_le v⟩)
      exact ⟨s', a + 1, 0, h1, h2, h3, h4, .inr ⟨rfl, rfl, rfl⟩⟩
  · exact absurd hc h.read_overwritten

/-- What a step of the consumer does. -/
theorem consume (h : s.Inv links p v k a b) (hs : s.consume = some s') :
    ∃ a' b', s'.Inv links p v k a' b' := by
  have hc : (s.trbs b).cycleBit = phase a := by
    by_contra hne
    simp [System.consume, h.slot, h.cycleState, hne] at hs
  obtain ⟨s₁, a', b', h1, h2, -⟩ := h.advance hc
  cases hs.symm.trans h1
  exact ⟨a', b', h2⟩

/-- Between two pushes, the consumer goes on as long as it has not taken everything. -/
theorem advance_of_lt (h : s.Inv true p v k a b) (hs : s.stores = [])
    (hn : a * s.last + b < s.pushed.length) : (s.trbs b).cycleBit = phase a := by
  have hl := (h.control.of_idle h.words hs).2.2.2.2
  obtain ⟨rfl, hv⟩ | ⟨rfl, -⟩ | ⟨hf, -⟩ := h.ahead
  · rw [h.read_new (by omega), cycleBit_written]
  · rw [h.read_old, cycleBit_written]
  · cases hf

/-- Between two pushes, the consumer left alone takes everything. -/
theorem takes_all (h : s.Inv true p v k a b) (hs : s.stores = []) :
    ∃ s', Relation.ReflTransGen (fun s s' => s.consume = some s') s s' ∧ s'.pushed = s.pushed ∧
      s'.taken.map (TRB.withCycle false) = s.pushed.map (TRB.withCycle false) := by
  -- the number of TRBs left, and the Link TRB if the consumer is at it
  obtain ⟨n, hn⟩ : ∃ n, n = 2 * (s.pushed.length - (a * s.last + b)) + if b = s.last then 1 else 0 := ⟨_, rfl⟩
  induction n using Nat.strong_induction_on generalizing s a b with
  | _ n ih =>
    rcases Nat.lt_or_ge (a * s.last + b) s.pushed.length with hlt | hge
    · obtain ⟨s₁, a', b', h1, h2, h3, h4, hnext⟩ := h.advance (h.advance_of_lt hs hlt)
      have hlast : s₁.last = s.last := by rw [last, consume_ring h1, last]
      have hless : (2 * (s₁.pushed.length - (a' * s₁.last + b')) + if b' = s₁.last then 1 else 0) < n := by
        have hpos := h.last_pos
        rw [hlast, h3, hn]
        obtain ⟨hb, rfl, rfl⟩ | ⟨rfl, rfl, rfl⟩ := hnext
        · rw [if_neg hb.ne]
          split <;> omega
        · rw [if_neg hpos.ne, if_pos rfl, Nat.add_mul]
          omega
      obtain ⟨s', hr, hp, ht⟩ := ih _ hless h2 (h4.trans hs) rfl
      exact ⟨s', .head h1 hr, hp.trans h3, ht.trans (by rw [h3])⟩
    · refine ⟨s, .refl, rfl, ?_⟩
      rw [h.taken, List.take_of_length_le hge]

/-! ### The producer -/

theorem init (buf : BitVec 60) {bufSize : ℕ} (h2 : 2 ≤ bufSize) (links : Bool) :
    (init buf bufSize).Inv links 0 0 0 0 0 where
  last_pos := by simp only [last, System.init, Ring.init]; omega
  notLink := by simp [System.init]
  words := by omega
  control := .idle rfl rfl (by simp only [last, System.init, Ring.init]; omega) rfl rfl (by simp [System.init])
  trbs j _ i := by
    rw [if_neg (by omega)]
    rfl
  slot_le := Nat.zero_le _
  slot := rfl
  cycleState := rfl
  taken := by simp [System.init]
  ahead := .inl ⟨rfl, le_rfl⟩

end Inv

/-- `Ahead` while a push is under way: the consumer is not at the slot being written, unless that is
the Link TRB's. -/
def AheadBusy (s : System) (links : Bool) (p v a b : ℕ) : Prop :=
  (p = a ∧ b ≤ v) ∨
  (p = a + 1 ∧ (v < b ∨ v = b ∧ b = s.last) ∧ (links = true → b = s.last → v + 1 < s.last))

theorem Ahead.busy (h : s.Ahead links p v a b) (hw : s.stores ≠ []) : s.AheadBusy links p v a b := by
  obtain h | ⟨h1, h2, h3⟩ | ⟨-, -, -, -, h5⟩ := h
  · exact .inl h
  · refine .inr ⟨h1, ?_, fun hl => h3 hl hw⟩
    obtain h2 | ⟨h2, h4 | h4⟩ := h2
    · exact .inl h2
    · exact absurd h4 hw
    · exact .inr ⟨h2, h4⟩
  · exact absurd h5 hw

theorem AheadBusy.ahead (h : s.AheadBusy links p v a b) : s.Ahead links p v a b := by
  obtain h | ⟨h1, h2, h3⟩ := h
  · exact .inl h
  · refine .inr (.inl ⟨h1, ?_, fun hl _ => h3 hl⟩)
    obtain h2 | ⟨h2, h4⟩ := h2
    · exact .inl h2
    · exact .inr ⟨h2, .inr h4⟩

namespace Inv

/-- The memory after the next store. -/
theorem trbs_store (h : s.Inv links p v k a b) (j : ℕ) (hj : j ≤ s.last) (i : Fin 4) :
    Function.update s.trbs v (Function.update (s.trbs v) ⟨k, h.words⟩ (s.written p v ⟨k, h.words⟩)) j i =
      if j < v ∨ j = v ∧ i.val < k + 1 then s.written p j i else s.before p j i := by
  by_cases hjv : j = v
  · subst hjv
    rw [Function.update_self]
    by_cases hi : i = ⟨k, h.words⟩
    · subst hi
      rw [Function.update_self, if_pos (.inr ⟨rfl, Nat.lt_succ_self k⟩)]
    · have hne : i.val ≠ k := fun e => hi (Fin.ext e)
      rw [Function.update_of_ne hi, h.trbs j hj i]
      apply if_congr _ rfl rfl
      omega
  · rw [Function.update_of_ne hjv, h.trbs j hj i]
    apply if_congr _ rfl rfl
    omega

/-- The memory after the last store of a slot. -/
theorem trbs_store_last (h : s.Inv links p v 3 a b) (j : ℕ) (hj : j ≤ s.last) (i : Fin 4) :
    Function.update s.trbs v (Function.update (s.trbs v) ⟨3, h.words⟩ (s.written p v ⟨3, h.words⟩)) j i =
      if j < v + 1 ∨ j = v + 1 ∧ i.val < 0 then s.written p j i else s.before p j i := by
  rw [h.trbs_store j hj i]
  apply if_congr _ rfl rfl
  omega

/-- A store keeps the invariant. -/
theorem store (h : s.Inv links p v k a b) (hs : s.store = some s') :
    ∃ p' v' k', s'.Inv links p' v' k' a b := by
  have hk := h.words
  cases h.control with
  | idle h1 => simp [System.store, h1] at hs
  | trb h1 h2 h3 h4 h5 =>
    rw [storesAt_drop s p v hk] at h1
    have ha := h.ahead.busy (by simp [h1])
    simp only [System.store, h1, Option.some.injEq] at hs
    subst hs
    by_cases hk' : k + 1 < 4
    · exact ⟨p, v, k + 1, { h with words := hk', control := .trb rfl h2 h3 h4 h5, trbs := h.trbs_store,
                                   ahead := AheadBusy.ahead ha }⟩
    · obtain rfl : k = 3 := by omega
      refine ⟨p, v + 1, 0, { h with words := by omega, control := .idle rfl rfl h2 h3 h4 h5,
                                    trbs := h.trbs_store_last, ahead := ?_ }⟩
      · obtain ⟨rfl, hb⟩ | ⟨rfl, hb, -⟩ := ha
        · exact .inl ⟨rfl, by omega⟩
        · refine .inr (.inl ⟨rfl, ?_, fun _ hw => absurd rfl hw⟩)
          rcases Nat.lt_or_ge (v + 1) b with hlt | hge
          · exact .inl hlt
          · exact .inr ⟨by omega, .inl rfl⟩
  | lastTRB h1 h2 h3 h4 h5 =>
    rw [storesAt_drop s p v hk] at h1
    have ha := h.ahead.busy (by simp [h1])
    simp only [System.store, h1, List.cons_append, Option.some.injEq] at hs
    subst hs
    by_cases hk' : k + 1 < 4
    · exact ⟨p, v, k + 1, { h with words := hk', control := .lastTRB rfl h2 h3 h4 h5, trbs := h.trbs_store,
                                   ahead := AheadBusy.ahead ha }⟩
    · obtain rfl : k = 3 := by omega
      refine ⟨p, v + 1, 0, { h with words := by omega, control := ?_, trbs := h.trbs_store_last,
                                    ahead := AheadBusy.ahead ?_ }⟩
      · refine .link ?_ h2 h3 h4 h5
        rw [storesAt_drop_four, List.nil_append, List.drop_zero, h2]
        rfl
      · have hb' := h.slot_le
        obtain ⟨rfl, hb⟩ | ⟨rfl, hb, hl⟩ := ha
        · exact .inl ⟨rfl, by omega⟩
        · have hbl : b = s.last := by omega
          exact .inr ⟨rfl, .inr ⟨by omega, hbl⟩, fun hlt _ => absurd (hl hlt hbl) (by omega)⟩
  | link h1 h2 h3 h4 h5 =>
    rw [storesAt_drop s p v hk] at h1
    have ha := h.ahead.busy (by simp [h1])
    simp only [System.store, h1, Option.some.injEq] at hs
    subst hs
    by_cases hk' : k + 1 < 4
    · exact ⟨p, v, k + 1, { h with words := hk', control := .link rfl h2 h3 h4 h5, trbs := h.trbs_store,
                                   ahead := AheadBusy.ahead ha }⟩
    · obtain rfl : k = 3 := by omega
      refine ⟨p + 1, 0, 0, { h with words := by omega, control := .idle rfl rfl h.last_pos h3 h4 h5, trbs := ?_,
                                    ahead := ?_ }⟩
      · intro j hj i
        have hle : j ≤ v := h2 ▸ hj
        refine (h.trbs_store_last j hj i).trans ?_
        rw [if_pos (by omega), if_neg (by omega)]
        rfl
      · have hb' := h.slot_le
        obtain ⟨rfl, hb⟩ | ⟨rfl, hb, hl⟩ := ha
        · refine .inr (.inl ⟨rfl, ?_, fun _ hw => absurd rfl hw⟩)
          rcases Nat.eq_zero_or_pos b with hz | hpos
          · exact .inr ⟨hz.symm, .inl rfl⟩
          · exact .inl hpos
        · have hbl : b = s.last := by omega
          refine .inr (.inr ⟨?_, rfl, rfl, hbl, rfl⟩)
          cases links with
          | false => rfl
          | true => exact absurd (hl rfl hbl) (by omega)

/-- Between two pushes the caller sees room only if the consumer is not at the next slot. -/
theorem ahead_push (h : s.Inv links p v k a b) (hs : s.stores = []) {data : TRB}
    (hr : s.Allowed links (.push data)) : s.AheadBusy links p v a b := by
  have hl := (h.control.of_idle h.words hs).2.2.2.2
  have hb := h.slot_le
  have hroom : s.pushed.length + 1 ≤ s.consumed links + s.last := hr.2
  have hroom' : s.pushed.length + 1 ≤ a * s.last + b + s.last := by
    rw [← h.length_taken]
    refine hroom.trans (Nat.add_le_add_right ?_ _)
    rw [consumed]
    split
    · exact Nat.sub_le _ _
    · exact le_rfl
  obtain h1 | ⟨rfl, -⟩ | ⟨-, rfl, -⟩ := h.ahead
  · exact .inl h1
  · rw [hl, Nat.add_mul] at hroom'
    refine .inr ⟨rfl, .inl (by omega), fun hlinks hbl => ?_⟩
    rw [consumed, if_pos ⟨hlinks, h.slot.trans hbl⟩, h.length_taken, hl, Nat.add_mul] at hroom
    omega
  · rw [hl, Nat.add_mul] at hroom'
    omega

/-- A push that is allowed keeps the invariant. -/
theorem push (h : s.Inv links p v k a b) {data : TRB} (ha : s.Allowed links (.push data))
    (hs : s.push data = some s') : s'.Inv links p v k a b := by
  have hidle : s.stores = [] := by
    unfold System.push at hs
    split at hs
    next hst => exact hst
    next => cases hs
  have hbusy := h.ahead_push hidle ha
  obtain ⟨rfl, hv, hindex, hcycle, hlen⟩ := h.control.of_idle h.words hidle
  have hle := h.length_ge
  simp only [System.push, hidle, Option.some.injEq] at hs
  have hpushed : s'.pushed = s.pushed ++ [data] := by rw [← hs]
  have hlast : s'.last = s.last := by rw [← hs, last, Ring.push_bufSize, last]
  have hbuf : s'.ring.buf = s.ring.buf := by rw [← hs, Ring.push_buf]
  have hold : ∀ lap slot, slot = s.last ∨ lap * s.last + slot < s.pushed.length →
      s'.written lap slot = s.written lap slot := by
    intro lap slot hslot
    rw [written, written, hlast, hbuf, hpushed]
    split
    next => rfl
    next hne =>
      rw [List.getD_eq_getElem?_getD, List.getElem?_append_left (hslot.resolve_left hne),
        ← List.getD_eq_getElem?_getD]
  have hnew : s'.written p v = data.withCycle (phase p) := by
    rw [written, hlast, if_neg hv.ne, hpushed, ← hlen]
    simp
  have hlink : s'.written p s.last = (TRB.link s.ring.buf).withCycle (phase p) := by
    rw [hold p s.last (.inl rfl), written, if_pos rfl]
  refine { last_pos := hlast ▸ h.last_pos, notLink := ?_, words := by omega, control := ?_, trbs := ?_,
           slot_le := hlast ▸ h.slot_le, slot := ?_, cycleState := ?_, taken := ?_, ahead := ?_ }
  · intro d hd
    rw [hpushed, List.mem_append, List.mem_singleton] at hd
    obtain hd | rfl := hd
    · exact h.notLink d hd
    · exact ha.1
  · have hcopy : s.ring.copyToLast data = s'.storesAt p v := by
      rw [Ring.copyToLast, storesAt, hindex, hcycle, hnew]
    have hlen' : s'.pushed.length = p * s.last + (v + 1) := by
      rw [hpushed, List.length_append, hlen]
      rfl
    rcases Nat.lt_or_eq_of_le (Nat.succ_le_of_lt hv) with hlt | heq
    · have hp : s.ring.push data = (v, s'.storesAt p v, { s.ring with writeIndex := v + 1 }) := by
        simp only [Ring.push, hindex, hcopy]
        exact if_neg hlt.ne
      rw [hp] at hs
      refine .trb (congrArg System.stores hs).symm (hlast ▸ hlt) ?_ ?_ (hlast ▸ hlen')
      · exact (congrArg (·.ring.writeIndex) hs).symm
      · exact (congrArg (·.ring.cycleBit) hs).symm.trans hcycle
    · have hp : s.ring.push data = (v, s'.storesAt p v ++ s'.storesAt p s'.last,
          { s.ring with writeIndex := 0, cycleBit := !s.ring.cycleBit }) := by
        simp only [Ring.push, hindex, hcopy]
        rw [hlast, storesAt, storesAt, hlink, ← hcycle, ← heq]
        exact if_pos heq
      rw [hp] at hs
      refine .lastTRB (congrArg System.stores hs).symm (hlast ▸ heq) ?_ ?_ ?_
      · exact (congrArg (·.ring.writeIndex) hs).symm
      · rw [phase_succ, ← hcycle]
        exact (congrArg (·.ring.cycleBit) hs).symm
      · rw [hlen', hlast, Nat.add_mul]
        omega
  · intro j hj i
    have htrbs : s'.trbs = s.trbs := by rw [← hs]
    rw [hlast] at hj
    rw [htrbs, h.trbs j hj i]
    split
    next hjv => rw [hold p j (.inr (by omega))]
    next =>
      cases p with
      | zero => rfl
      | succ p =>
        rw [before, before, hold p j]
        rw [hlen, Nat.add_mul]
        omega
  · rw [← hs]
    exact h.slot
  · rw [← hs]
    exact h.cycleState
  · rw [hpushed, hlast, List.take_append_of_le_length hle, ← h.taken, ← hs]
  · apply AheadBusy.ahead
    rwa [AheadBusy, hlast]

/-- Every action that is allowed keeps the invariant. -/
theorem perform (h : s.Inv links p v k a b) {act : Action} (ha : s.Allowed links act)
    (hs : s.perform act = some s') : ∃ p' v' k' a' b', s'.Inv links p' v' k' a' b' := by
  cases act with
  | push data => exact ⟨p, v, k, a, b, h.push ha hs⟩
  | store =>
    obtain ⟨p', v', k', h'⟩ := h.store hs
    exact ⟨p', v', k', a, b, h'⟩
  | consume =>
    obtain ⟨a', b', h'⟩ := h.consume hs
    exact ⟨p, v, k, a', b', h'⟩

end Inv

/-- The invariant holds in every state a ring can be in. -/
theorem Reachable.inv {buf : BitVec 60} {bufSize : ℕ} (h2 : 2 ≤ bufSize)
    (h : Reachable buf bufSize links s) : ∃ p v k a b, s.Inv links p v k a b := by
  induction h with
  | init => exact ⟨0, 0, 0, 0, 0, Inv.init buf h2 links⟩
  | step a _ ha hs ih =>
    obtain ⟨p, v, k, a', b, h⟩ := ih
    exact h.perform ha hs

/-- The state after a sequence of actions, each of them allowed. -/
def run (links : Bool) (s : System) : List Action → Option System
  | [] => some s
  | a :: as => if s.Allowed links a then (s.perform a).bind fun s => s.run links as else none

theorem Reachable.run {buf : BitVec 60} {bufSize : ℕ} (h : Reachable buf bufSize links s)
    (as : List Action) (hr : s.run links as = some s') : Reachable buf bufSize links s' := by
  induction as generalizing s with
  | nil =>
    cases hr
    exact h
  | cons a as ih =>
    rw [System.run] at hr
    split at hr
    next ha =>
      obtain ⟨s₁, h1, h2⟩ := Option.bind_eq_some_iff.mp hr
      exact ih (.step a h ha h1) h2
    next => cases hr

/-- A No Op TRB. -/
def noOp : TRB := ![0, 0, 0, 0x2000]

/-- **The producer ring**: for every size from 2 on and every interleaving, if the caller pushes no
Link TRB and keeps at most `buf_size - 1` TRBs unconsumed, what the consumer has taken is a prefix of
what has been pushed, the same words but for the cycle bits. If moreover the last TRB of a lap counts
as consumed only once the Link TRB behind it has been followed, the consumer takes everything. -/
theorem taken_exactly (buf : BitVec 60) {bufSize : ℕ} (h2 : 2 ≤ bufSize) :
    (∀ s, Reachable buf bufSize false s →
      s.taken.map (TRB.withCycle false) <+: s.pushed.map (TRB.withCycle false)) ∧
    (∀ s, Reachable buf bufSize true s →
      s.taken.map (TRB.withCycle false) <+: s.pushed.map (TRB.withCycle false) ∧
      (s.stores = [] → ∃ s', Relation.ReflTransGen (fun s s' => s.consume = some s') s s' ∧
        s'.pushed = s.pushed ∧
        s'.taken.map (TRB.withCycle false) = s.pushed.map (TRB.withCycle false))) := by
  constructor
  · intro s hs
    obtain ⟨p, v, k, a, b, h⟩ := hs.inv h2
    exact h.taken_prefix
  · intro s hs
    obtain ⟨p, v, k, a, b, h⟩ := hs.inv h2
    exact ⟨h.taken_prefix, h.takes_all⟩

/-- One TRB on a ring of two slots: the consumer takes it. -/
theorem taken_exactly_two :
    ∃ s, Reachable 0 2 true s ∧ s.pushed = [noOp] ∧ s.taken = [] ∧
      ∃ s', Relation.ReflTransGen (fun s s' => s.consume = some s') s s' ∧ s'.pushed = s.pushed ∧
        s'.taken.map (TRB.withCycle false) = s.pushed.map (TRB.withCycle false) := by
  have h : Reachable 0 2 true _ := Reachable.init.run (.push noOp :: List.replicate 8 .store) rfl
  exact ⟨_, h, rfl, rfl, ((taken_exactly 0 (by decide)).2 _ h).2 rfl⟩

/-! ### What goes wrong at the Link TRB -/

/-- Two TRBs are pushed on a ring of two slots, the second one once the first is taken, but before the
Link TRB behind it has been followed. -/
def pushTwo : List Action :=
  .push noOp :: (List.replicate 8 .store ++ .consume :: .push noOp :: List.replicate 8 .store)

/-- Though never more than one TRB is unconsumed, nothing can happen any more, and the second is not
taken. And a Link TRB that is pushed is not taken but followed. -/
theorem consumer_stuck :
    (∃ s, Reachable 0 2 false s ∧ s.pushed.length = 2 ∧ s.taken.length = 1 ∧
      ∀ a, s.Allowed false a → s.perform a = none) ∧
    ∃ s, (.push (TRB.link 0) :: (List.replicate 4 .store ++ [.consume])).foldlM perform (init 0 3) = some s ∧
      s.pushed.length = 1 ∧ s.stores.length = 0 ∧ s.taken.length = 0 ∧ s.consume.isNone := by
  constructor
  · refine ⟨_, Reachable.init.run pushTwo rfl, by decide, by decide, ?_⟩
    intro a ha
    cases a with
    | push data => exact absurd ha.2 (by decide)
    | store => rfl
    | consume => rfl
  · exact ⟨_, rfl, by decide, by decide, by decide, by decide⟩

end System

end DuvuvurKernel.Usb
