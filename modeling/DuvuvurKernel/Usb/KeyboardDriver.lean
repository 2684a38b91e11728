import DuvuvurKernel.Lib.Switches
import DuvuvurKernel.Usb.ControlTransfers
import Mathlib.Data.Finset.Image
import Mathlib.Data.List.Range

/-!
# The keyboard driver

`usb/classdriver/keyboard.cpp` and `hid.cpp`: the host controller writes each report of the keyboard over the buffer of
the driver, `OnDataReceived` compares it with the buffer before and tells the observers which keys have gone down or up,
and `OnInterruptCompleted` keeps what was received for the next time.

## The model

A report may be shorter than the eight bytes that are asked for. Then only the start of either buffer is written.
The observers are what each of them has been told.

**Result** (`reports_replayed`): whatever reports arrive, the events lead to the keys that are in the buffer, each key
goes down and up by turns, and a key that stays in the report is not mentioned.
-/

namespace DuvuvurKernel.Usb

open Lib.Switches

/-- The arguments of an observer. -/
structure KeyPush where
  modifier : UInt8
  keycode : UInt8
  press : Bool
  deriving DecidableEq

/-- `in_packet_size_` of a keyboard. -/
def inPacketSize : ℕ := 8

/-- `IsIn`. -/
def EndpointID.isIn (ep : EndpointID) : Bool := ep.addr % 2 = 1

/-- `HIDKeyboardDriver`. -/
structure HIDKeyboardDriver where
  /-- `buf_`. -/
  buf : ℕ → UInt8
  /-- `previous_buf_`. -/
  previousBuf : ℕ → UInt8
  /-- What the observers have been told, each since it subscribed. -/
  observers : List (List KeyPush)

namespace HIDKeyboardDriver

/-- The bits that the first loop of `OnDataReceived` sets. -/
def keyBits (buf : ℕ → UInt8) : BitVec 256 :=
  (List.range' 2 6).foldl (fun bits i => bits ||| BitVec.twoPow 256 (buf i).toNat) 0

variable (d : HIDKeyboardDriver)

/-- `NotifyKeyPush`. -/
def notifyKeyPush (e : KeyPush) : HIDKeyboardDriver := { d with observers := d.observers.map fun log => log ++ [e] }

/-- The calls of `NotifyKeyPush` in `OnDataReceived`. -/
def pushes : List KeyPush :=
  let prev := keyBits d.previousBuf
  let current := keyBits d.buf
  let changed := prev ^^^ current
  let pressed := changed &&& current
  ((List.range' 1 255).filter fun key => changed.getLsbD key).map fun key =>
    ⟨d.buf 0, UInt8.ofNat key, pressed.getLsbD key⟩

/-- `OnDataReceived`. -/
def onDataReceived : HIDKeyboardDriver := d.pushes.foldl notifyKeyPush d

/-- `std::copy_n` of the first `len` bytes. -/
def copyN (src dst : ℕ → UInt8) (len : ℕ) : ℕ → UInt8 := fun i => if i < len then src i else dst i

/-- `OnInterruptCompleted`. The next transfer is asked for in either case. -/
def onInterruptCompleted (epID : EndpointID) (len : ℕ) : Except Error HIDKeyboardDriver :=
  if epID.isIn then
    let d := d.onDataReceived
    .ok { d with previousBuf := copyN d.buf d.previousBuf len }
  else .error .notImplemented

/-- The host controller writes a report over the buffer. -/
def receive (report : List UInt8) : HIDKeyboardDriver := { d with buf := fun i => report.getD i (d.buf i) }

/-- A driver with some observers. -/
def init (n : ℕ) : HIDKeyboardDriver := ⟨fun _ => 0, fun _ => 0, List.replicate n []⟩

/-- What any reports lead to. -/
inductive Reachable (n : ℕ) : HIDKeyboardDriver → Prop where
  /-- No report has arrived. -/
  | init : Reachable n (init n)
  /-- A report has been transferred. -/
  | report {d d' : HIDKeyboardDriver} {report : List UInt8} {epID : EndpointID} :
    Reachable n d → report.length ≤ inPacketSize →
      (d.receive report).onInterruptCompleted epID report.length = .ok d' → Reachable n d'

/-- What an observer has been told of a key. -/
def switch (e : KeyPush) : UInt8 × Bool := (e.keycode, e.press)

/-- The keys of a report: the codes in bytes 2 to 7 that are not 0. -/
def reportKeys (buf : ℕ → UInt8) : Finset UInt8 := ((List.range' 2 6).map buf).toFinset.erase 0

variable {n : ℕ} {d d' : HIDKeyboardDriver} {key : UInt8} {buf : ℕ → UInt8} {report : List UInt8} {epID : EndpointID}

/-! ### The bits -/

theorem getLsbD_setBits (is : List ℕ) (bits : BitVec 256) {k : ℕ} :
    (is.foldl (fun bits i => bits ||| BitVec.twoPow 256 (buf i).toNat) bits).getLsbD k =
      (bits.getLsbD k || decide (∃ i ∈ is, (buf i).toNat = k)) := by
  induction is generalizing bits with
  | nil => simp
  | cons i is ih =>
    rw [List.foldl_cons, ih, BitVec.getLsbD_or, BitVec.getLsbD_twoPow, decide_eq_true (buf i).toNat_lt, Bool.true_and,
      Bool.or_assoc, ← Bool.decide_or]
    simp

theorem getLsbD_keyBits (hkey : key ≠ 0) : (keyBits buf).getLsbD key.toNat = decide (key ∈ reportKeys buf) := by
  have hzero : (0 : BitVec 256).getLsbD key.toNat = false := BitVec.getLsbD_zero
  rw [keyBits, getLsbD_setBits, hzero, Bool.false_or, decide_eq_decide, reportKeys, Finset.mem_erase, List.mem_toFinset,
    List.mem_map]
  simp only [UInt8.toNat_inj, ne_eq, hkey, not_false_eq_true, true_and]

theorem ofNat_eq_iff {i : ℕ} (hi : i ∈ List.range' 1 255) : UInt8.ofNat i = key ↔ i = key.toNat := by
  have hlt := (List.mem_range'_1.mp hi).2
  rw [← UInt8.toNat_inj, UInt8.toNat_ofNat', Nat.mod_eq_of_lt (by omega)]

/-- The loop comes upon each code once, but for 0. -/
theorem filter_keys (key : UInt8) :
    (List.range' 1 255).filter (fun i => UInt8.ofNat i = key) = if key = 0 then [] else [key.toNat] := by
  have hcode : ∀ i ∈ List.range' 1 255, decide (UInt8.ofNat i = key) = decide (i = key.toNat) := fun i hi =>
    decide_eq_decide.mpr (ofNat_eq_iff hi)
  have hlt := key.toNat_lt
  rw [List.filter_congr hcode, List.filter_eq]
  split
  next h0 =>
    have hnot : key.toNat ∉ List.range' 1 255 := fun h => by
      rw [h0] at h
      exact absurd (List.mem_range'_1.mp h).1 (by decide)
    rw [List.count_eq_zero_of_not_mem hnot, List.replicate_zero]
  next h0 =>
    have hpos : key.toNat ≠ 0 := fun h => h0 (UInt8.toNat_inj.mp h)
    have hmem : key.toNat ∈ List.range' 1 255 := List.mem_range'_1.mpr (by omega)
    rw [List.count_eq_one_of_mem List.nodup_range' hmem, List.replicate_one]

/-- **The calls of `NotifyKeyPush`** say what has changed. -/
theorem brings_pushes (d : HIDKeyboardDriver) :
    Brings (reportKeys d.previousBuf) (reportKeys d.buf) (d.pushes.map switch) := by
  intro key
  have hturns : turns key (d.pushes.map switch) =
      (((List.range' 1 255).filter fun i => UInt8.ofNat i = key).filter fun i =>
        (keyBits d.previousBuf ^^^ keyBits d.buf).getLsbD i).map fun i =>
          ((keyBits d.previousBuf ^^^ keyBits d.buf) &&& keyBits d.buf).getLsbD i := by
    rw [turns, pushes, List.map_map, List.filter_map, List.map_map, List.filter_comm]
    rfl
  rw [hturns]
  by_cases hkey : key = 0
  · have hnot : ∀ buf, key ∉ reportKeys buf := fun buf h => (Finset.mem_erase.mp h).1 hkey
    rw [filter_keys, if_pos hkey, if_pos (iff_of_false (hnot _) (hnot _))]
    rfl
  · rw [filter_keys, if_neg hkey, List.filter_singleton, BitVec.getLsbD_xor, getLsbD_keyBits hkey, getLsbD_keyBits hkey]
    by_cases hprev : key ∈ reportKeys d.previousBuf <;> by_cases hcurrent : key ∈ reportKeys d.buf <;>
      simp [hprev, hcurrent, getLsbD_keyBits hkey]

/-! ### All reports -/

theorem onDataReceived_eq (d : HIDKeyboardDriver) :
    d.onDataReceived = { d with observers := d.observers.map fun log => log ++ d.pushes } := by
  have hfold : ∀ (es : List KeyPush) (d : HIDKeyboardDriver),
      es.foldl notifyKeyPush d = { d with observers := d.observers.map fun log => log ++ es } := by
    intro es
    induction es with
    | nil => intro d; simp
    | cons e es ih => intro d; simp [ih, notifyKeyPush]
  exact hfold d.pushes d

/-- A report that has been handled. -/
theorem report_eq (h : (d.receive report).onInterruptCompleted epID report.length = .ok d') :
    d'.buf = (d.receive report).buf ∧ d'.previousBuf = copyN (d.receive report).buf d.previousBuf report.length ∧
      d'.observers = d.observers.map fun log => log ++ (d.receive report).pushes := by
  rw [onInterruptCompleted, onDataReceived_eq] at h
  split at h
  next =>
    cases h
    exact ⟨rfl, rfl, rfl⟩
  next => cases h

/-- The two buffers agree between reports, and the observers know the keys. -/
structure Inv (d : HIDKeyboardDriver) : Prop where
  same : d.previousBuf = d.buf
  replayed : ∀ log ∈ d.observers, replay ∅ (log.map switch) = reportKeys d.buf
  alternates : ∀ log ∈ d.observers, ∀ key, Alternates (turns key (log.map switch))

/-- What a short report does not reach is the same in both buffers. -/
theorem copyN_receive (h : d.previousBuf = d.buf) (report : List UInt8) :
    copyN (d.receive report).buf d.previousBuf report.length = (d.receive report).buf := by
  funext i
  rw [copyN]
  split
  next => rfl
  next hlen =>
    have hbehind : (d.receive report).buf i = report.getD i (d.buf i) := rfl
    rw [h, hbehind, List.getD_eq_getElem?_getD, List.getElem?_eq_none (Nat.le_of_not_lt hlen), Option.getD_none]

/-- The events of a report. -/
theorem Inv.brings (h : d.Inv) (report : List UInt8) :
    Brings (reportKeys d.buf) (reportKeys (d.receive report).buf) ((d.receive report).pushes.map switch) := by
  have hbrings := brings_pushes (d.receive report)
  have hprev : (d.receive report).previousBuf = d.buf := h.same
  rwa [hprev] at hbrings

theorem Inv.next (h : d.Inv) (hd : (d.receive report).onInterruptCompleted epID report.length = .ok d') : d'.Inv := by
  obtain ⟨hbuf, hprev, hobservers⟩ := report_eq hd
  have hbrings := h.brings report
  refine ⟨by rw [hprev, hbuf, copyN_receive h.same],
    fun log hlog => ?_, fun log hlog key => ?_⟩ <;> rw [hobservers] at hlog <;>
    obtain ⟨before, hbefore, rfl⟩ := List.mem_map.mp hlog <;> rw [List.map_append]
  · rw [replay_append, h.replayed before hbefore, hbuf]
    exact hbrings.replay
  · rw [← h.replayed before hbefore] at hbrings
    exact hbrings.alternates (h.alternates before hbefore key)

theorem Reachable.inv (h : Reachable n d) : d.Inv := by
  induction h with
  | init =>
    refine ⟨rfl, fun log hlog => ?_, fun log hlog key => ?_⟩ <;> rw [List.eq_of_mem_replicate hlog]
    · rfl
    · exact ⟨fun h => absurd h.symm (Option.some_ne_none false), .nil⟩
  | report _ _ hd ih => exact ih.next hd

/-- **The events** lead to the keys of the last report, each key goes down and up by turns, and a key that stays down
is not mentioned. -/
theorem reports_replayed (h : Reachable n d) :
    (∀ log ∈ d.observers, replay ∅ (log.map switch) = reportKeys d.buf ∧
    ∀ key, Alternates (turns key (log.map switch))) ∧
      ∀ (report : List UInt8) (epID : EndpointID), report.length ≤ inPacketSize → epID.isIn →
        ∃ d' es, (d.receive report).onInterruptCompleted epID report.length = .ok d' ∧
          d'.observers = d.observers.map (fun log => log ++ es) ∧
          ∀ key ∈ reportKeys d.buf, key ∈ reportKeys d'.buf → ∀ e ∈ es, e.keycode ≠ key := by
  refine ⟨fun log hlog => ⟨h.inv.replayed log hlog, h.inv.alternates log hlog⟩, fun report epID _ hin => ?_⟩
  have hd : (d.receive report).onInterruptCompleted epID report.length = .ok _ := if_pos hin
  obtain ⟨hbuf, -, hobservers⟩ := report_eq hd
  refine ⟨_, _, hd, hobservers, fun key hkey hkey' e he => ?_⟩
  have hnone := (h.inv.brings report).turns_eq_nil hkey (hbuf ▸ hkey')
  exact notMem_of_turns hnone _ (List.mem_map_of_mem he)

/-- A driver with an observer, after a short report with the key 4. -/
def oneKey : HIDKeyboardDriver :=
  let d := ((init 1).receive [0, 0, 4]).onDataReceived
  { d with previousBuf := copyN d.buf d.previousBuf 3 }

/-- The key 4 is down, and is not mentioned when the key 5 comes before it. -/
theorem reports_replayed_moved : (∀ log ∈ oneKey.observers, replay ∅ (log.map switch) = {4}) ∧
    ∃ d' es, (oneKey.receive [0, 0, 5, 4]).onInterruptCompleted ⟨3⟩ 4 = .ok d' ∧
      d'.observers = oneKey.observers.map (fun log => log ++ es) ∧ ∀ e ∈ es, e.keycode ≠ 4 := by
  have hreach : Reachable 1 oneKey := @Reachable.report 1 _ _ [0, 0, 4] ⟨3⟩ .init (by decide) rfl
  have hbuf : reportKeys oneKey.buf = {4} := by rfl
  obtain ⟨hreplayed, hnext⟩ := reports_replayed hreach
  obtain ⟨d', es, hd, hobservers, hheld⟩ := hnext [0, 0, 5, 4] ⟨3⟩ (by decide) rfl
  have hbuf' : reportKeys d'.buf = {5, 4} := by
    rw [(report_eq hd).1]
    rfl
  refine ⟨fun log hlog => hbuf ▸ (hreplayed log hlog).1, d', es, hd, hobservers, hheld 4 ?_ ?_⟩
  · rw [hbuf]
    exact Finset.mem_singleton_self 4
  · rw [hbuf']
    exact Finset.mem_insert_of_mem (Finset.mem_singleton_self 4)

end HIDKeyboardDriver

end DuvuvurKernel.Usb
