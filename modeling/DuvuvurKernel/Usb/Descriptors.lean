import DuvuvurKernel.Lib.Loops
import DuvuvurKernel.Usb.ControlTransfers
import Mathlib.Logic.Function.Basic
import Mathlib.Logic.Relation

/-!
# The configuration descriptor

`usb/device.cpp`: the host asks a device for its configuration descriptor, and gets it with the descriptors of the
interfaces and endpoints behind it, each of which begins with its length and its type. `InitializePhase2` goes from one
to the next by the lengths, looks for an interface that it has a driver for, and collects the endpoints of this
interface.

## The model

The buffer is a function, so that a read behind its `len` bytes has a result, which is whatever lies there. A round of
the loop of `InitializePhase2` goes to the next descriptor. It is undefined where a null pointer is dereferenced, and
where an endpoint is stored behind the array; the reads and stores that a round makes are listed beside it (`accesses`).
The drivers that `NewClassDriver` makes are allocated, and requesting a control transfer succeeds.

**Result** (`reached_iff`): which states the loop comes to.
-/

namespace DuvuvurKernel.Usb

open Lib.Loops

/-- `ConfigurationDescriptor::kType`. -/
def configurationType : UInt8 := 2

/-- `InterfaceDescriptor::kType`. -/
def interfaceType : UInt8 := 4

/-- `EndpointDescriptor::kType`. -/
def endpointType : UInt8 := 5

/-- `HIDDescriptor::kType`. -/
def hidType : UInt8 := 33

/-- `EndpointConfig`. -/
structure EndpointConfig where
  epID : EndpointID
  /-- `ep_type`: control, isochronous, bulk or interrupt. -/
  epType : UInt8
  maxPacketSize : ℕ
  interval : ℕ
  deriving DecidableEq

/-- The driver that `NewClassDriver` makes, for an interface. -/
inductive HIDDriver where
  | keyboard (interfaceNumber : UInt8)
  | mouse (interfaceNumber : UInt8)
  deriving DecidableEq

/-- The members of `usb::Device` that its initialization uses. -/
structure InitDevice where
  /-- `class_drivers_`. -/
  classDrivers : ℕ → Option HIDDriver
  /-- `ep_configs_`. -/
  epConfigs : ℕ → EndpointConfig
  /-- `num_ep_configs_`. -/
  numEpConfigs : ℕ
  /-- `initialize_phase_`. -/
  initializePhase : ℕ
  /-- The requests of `ControlOut`. -/
  requests : List SetupData

/-- A device that is asked for its configuration descriptor. -/
def freshDevice : InitDevice := ⟨fun _ => none, fun _ => ⟨⟨0⟩, 0, 0, 0⟩, 0, 2, []⟩

/-- A buffer with zeros behind what the device has sent. -/
def ofList (bytes : List UInt8) (i : ℕ) : UInt8 := bytes.getD i 0

/-- The length of `ep_configs_`. -/
def maxEpConfigs : ℕ := 16

/-- `request::kSetConfiguration`. -/
def kSetConfiguration : BitVec 8 := 9

/-- `SetConfiguration`. -/
def InitDevice.setConfiguration (d : InitDevice) (configValue : UInt8) : InitDevice :=
  { d with requests := d.requests ++ [⟨0, kSetConfiguration, configValue.toBitVec.setWidth 16, 0, 0⟩] }

section

variable (buf : ℕ → UInt8)

/-- `MakeEPConfig`. -/
def makeEPConfig (p : ℕ) : EndpointConfig where
  epID := ⟨((buf (p + 2) &&& 0x0f) <<< 1 ||| buf (p + 2) >>> 7).toNat⟩
  epType := buf (p + 3) &&& 0x03
  maxPacketSize := (buf (p + 4)).toNat + 256 * (buf (p + 5)).toNat
  interval := (buf (p + 6)).toNat

/-- `NewClassDriver`. -/
def newClassDriver (p : ℕ) : Option HIDDriver :=
  if buf (p + 5) = 3 ∧ buf (p + 6) = 1 then
    if buf (p + 7) = 1 then some (.keyboard (buf (p + 2)))
    else if buf (p + 7) = 2 then some (.mouse (buf (p + 2)))
    else none
  else none

/-- An endpoint is stored behind those there are. -/
def InitDevice.store (d : InitDevice) (driver : HIDDriver) (p : ℕ) : InitDevice :=
  let conf := makeEPConfig buf p
  { d with
    epConfigs := Function.update d.epConfigs d.numEpConfigs conf
    numEpConfigs := d.numEpConfigs + 1
    classDrivers := Function.update d.classDrivers conf.epID.number.toNat (some driver) }

/-- The end of `InitializePhase2`, with an interface. -/
def InitDevice.configure (d : InitDevice) : InitDevice := { d with initializePhase := 3 }.setConfiguration (buf 5)

end

/-- Where `InitializePhase2` is. -/
inductive Stage where
  /-- It looks for an interface. -/
  | search
  /-- It collects the endpoints of the interface at `ifDesc`. -/
  | collect (ifDesc : ℕ) (driver : HIDDriver)

/-- `InitializePhase2` between two rounds. -/
structure Phase2 where
  /-- `p_` of the reader, as an offset into the buffer. -/
  p : ℕ
  stage : Stage
  dev : InitDevice

variable (buf : ℕ → UInt8) (len : ℕ)

/-- What an interface descriptor is there for: its driver. Other descriptors, and interfaces without a driver, are
passed over. -/
def driverAt (p : ℕ) : Option HIDDriver := if buf (p + 1) = interfaceType then newClassDriver buf p else none

/-- A round of the loops. -/
def round (s : Phase2) : Option (Next Phase2 (Except Error Unit × InitDevice)) :=
  let p := s.p + (buf s.p).toNat
  match s.stage with
  | .search =>
    if p < len then
      match driverAt buf p with
      | none => some (.goOn ⟨p, .search, s.dev⟩)
      | some driver => some (.goOn ⟨p, .collect p driver, { s.dev with numEpConfigs := 0 }⟩)
    else some (.done (.ok (), s.dev))
  | .collect ifDesc driver =>
    if s.dev.numEpConfigs < (buf (ifDesc + 4)).toNat then
      if p < len then
        if buf (p + 1) = endpointType then
          if s.dev.numEpConfigs < maxEpConfigs then some (.goOn ⟨p, s.stage, s.dev.store buf driver p⟩) else none
        else some (.goOn ⟨p, s.stage, s.dev⟩)
      else none -- `Next` has returned a null pointer.
    else some (.done (.ok (), s.dev.configure buf))

/-- The loops are entered. -/
def Phase2.start (d : InitDevice) : Phase2 := ⟨0, .search, d⟩

/-- `InitializePhase2` returns. -/
def Phase2Returns (d : InitDevice) (r : Except Error Unit × InitDevice) : Prop :=
  if buf 1 = configurationType then Returns (round buf len) (Phase2.start d) r else r = (.error .invalidDescriptor, d)

/-- What is read and stored. -/
inductive Access where
  /-- A byte of the buffer is read, or one behind it. -/
  | read (i : ℕ)
  /-- A null pointer is dereferenced. -/
  | null
  /-- `ep_configs_[i]` is stored. -/
  | epConfig (i : ℕ)
  /-- `class_drivers_[i]` is stored. -/
  | classDriver (i : ℕ)

/-- An access that the buffer and the arrays are long enough for. -/
def Access.Inside : Access → Prop
  | .read i => i < len
  | .null => False
  | .epConfig i => i < maxEpConfigs
  | .classDriver i => i < 16

/-- What `NewClassDriver` reads. -/
def newClassDriverReads (p : ℕ) : List ℕ :=
  [p + 5] ++ if buf (p + 5) = 3 then
    [p + 6] ++ if buf (p + 6) = 1 then [p + 7] ++ if buf (p + 7) = 1 ∨ buf (p + 7) = 2 then [p + 2] else [] else []
  else []

/-- What is read of an HID descriptor, and of the class descriptors it announces, for the log. -/
def hidReads (p : ℕ) : List ℕ :=
  [p + 2, p + 3, p + 5] ++ (List.range (buf (p + 5)).toNat).flatMap fun i =>
    [p + 6 + 3 * i, p + 7 + 3 * i, p + 8 + 3 * i]

/-- What a round reads and stores. -/
def accesses (s : Phase2) : List Access :=
  let p := s.p + (buf s.p).toNat
  match s.stage with
  | .search =>
    .read s.p :: if p < len then
      -- An interface is logged first.
      .read (p + 1) ::
        if buf (p + 1) = interfaceType then ([p + 5, p + 6, p + 7] ++ newClassDriverReads buf p).map .read else []
    else []
  | .collect ifDesc _ =>
    .read (ifDesc + 4) :: if s.dev.numEpConfigs < (buf (ifDesc + 4)).toNat then
      .read s.p :: if p < len then
        .read (p + 1) :: if buf (p + 1) = endpointType then
          [p + 2, p + 3, p + 4, p + 5, p + 6].map .read ++
            [.epConfig s.dev.numEpConfigs, .classDriver (makeEPConfig buf p).epID.number.toNat]
        else if buf (p + 1) = hidType then (hidReads buf p).map .read
        else []
      else [.null]
    else [.read 5]

/-- The loops come to the state. -/
def Reached (d : InitDevice) (s : Phase2) : Prop :=
  Relation.ReflTransGen (fun s s' => round buf len s = some (.goOn s')) (Phase2.start d) s

/-! ### The descriptors of a buffer -/

/-- Where the lengths lead to: the `i`-th descriptor. -/
def pos : ℕ → ℕ
  | 0 => 0
  | i + 1 => pos i + (buf (pos i)).toNat

/-- The endpoint descriptors among the `k` descriptors behind the `c`-th. -/
def endpoints (c k : ℕ) : List ℕ := ((List.range' (c + 1) k).map (pos buf)).filter fun p => buf (p + 1) = endpointType

/-- No interface with a driver comes before the `i`-th descriptor. -/
def Unsupported (i : ℕ) : Prop := ∀ j, 1 ≤ j → j < i → driverAt buf (pos buf j) = none

/-- The `c`-th descriptor is the first interface with a driver. -/
structure IsChosen (c : ℕ) (driver : HIDDriver) : Prop where
  pos : 1 ≤ c
  lt : Usb.pos buf c < len
  driver : driverAt buf (Usb.pos buf c) = some driver
  first : Unsupported buf c

/-- `num_endpoints` of the `c`-th descriptor. -/
def numEndpoints (c : ℕ) : ℕ := (buf (pos buf c + 4)).toNat

/-- Up to the `k`-th descriptor behind the `c`-th there is an endpoint left to collect, and room for it. -/
def Collecting (c k : ℕ) : Prop :=
  ∀ j < k, (endpoints buf c j).length < numEndpoints buf c ∧
    (buf (pos buf (c + j + 1) + 1) = endpointType → (endpoints buf c j).length < maxEpConfigs)

/-- The search has come to the `i`-th descriptor. -/
def atSearch (d : InitDevice) (i : ℕ) : Phase2 := ⟨pos buf i, .search, d⟩

/-- What has been stored behind the `c`-th descriptor. -/
def collected (d : InitDevice) (c : ℕ) (driver : HIDDriver) (k : ℕ) : InitDevice :=
  (endpoints buf c k).foldl (fun d p => d.store buf driver p) { d with numEpConfigs := 0 }

/-- The collection has come to the `k`-th descriptor behind the `c`-th. -/
def atCollect (d : InitDevice) (c : ℕ) (driver : HIDDriver) (k : ℕ) : Phase2 :=
  ⟨pos buf (c + k), .collect (pos buf c) driver, collected buf d c driver k⟩

variable {buf len} {d : InitDevice} {driver : HIDDriver} {c i j k : ℕ} {s : Phase2}

theorem pos_mono (h : i ≤ j) : pos buf i ≤ pos buf j := by
  induction h with
  | refl => exact Nat.le_refl _
  | step _ ih => exact ih.trans (Nat.le_add_right _ _)

/-- Of the descriptors in the buffer none comes after one behind it. -/
theorem lt_of_pos_lt (hi : pos buf i < len) (hj : len ≤ pos buf j) : i < j :=
  Nat.lt_of_not_le fun h => absurd (hj.trans (pos_mono h)) (Nat.not_le_of_lt hi)

theorem endpoints_succ (c k : ℕ) : endpoints buf c (k + 1) =
    endpoints buf c k ++ if buf (pos buf (c + k + 1) + 1) = endpointType then [pos buf (c + k + 1)] else [] := by
  rw [endpoints, List.range'_concat, List.map_append, List.filter_append, Nat.one_mul, Nat.add_right_comm]
  refine congrArg _ ?_
  by_cases h : buf (pos buf (c + k + 1) + 1) = endpointType <;> simp [h]

theorem length_endpoints_mono (h : j ≤ k) : (endpoints buf c j).length ≤ (endpoints buf c k).length := by
  induction h with
  | refl => exact Nat.le_refl _
  | step _ ih =>
    rw [endpoints_succ, List.length_append]
    exact ih.trans (Nat.le_add_right _ _)

theorem numEpConfigs_collected (d : InitDevice) (c : ℕ) (driver : HIDDriver) (k : ℕ) :
    (collected buf d c driver k).numEpConfigs = (endpoints buf c k).length := by
  have hfold : ∀ (ps : List ℕ) (d : InitDevice),
      (ps.foldl (fun d p => d.store buf driver p) d).numEpConfigs = d.numEpConfigs + ps.length := by
    intro ps
    induction ps with
    | nil => exact fun d => rfl
    | cons p ps ih =>
      intro d
      have hstore : (d.store buf driver p).numEpConfigs = d.numEpConfigs + 1 := rfl
      rw [List.foldl_cons, ih, List.length_cons, hstore, Nat.add_assoc, Nat.add_comm 1]
  exact (hfold _ _).trans (Nat.zero_add _)

/-! ### The rounds -/

theorem round_atSearch (d : InitDevice) (i : ℕ) : round buf len (atSearch buf d i) =
    if pos buf (i + 1) < len then
      (driverAt buf (pos buf (i + 1))).elim (some (.goOn (atSearch buf d (i + 1)))) fun driver =>
        some (.goOn (atCollect buf d (i + 1) driver 0))
    else some (.done (.ok (), d)) := by
  have hstep : pos buf i + (buf (pos buf i)).toNat = pos buf (i + 1) := rfl
  rw [round, atSearch]
  simp only [hstep]
  split
  next =>
    cases hdriver : driverAt buf (pos buf (i + 1)) with
    | none => rfl
    | some driver => rfl
  next => rfl

theorem collected_succ (d : InitDevice) (c : ℕ) (driver : HIDDriver) (k : ℕ) : collected buf d c driver (k + 1) =
    if buf (pos buf (c + k + 1) + 1) = endpointType then
      (collected buf d c driver k).store buf driver (pos buf (c + k + 1))
    else collected buf d c driver k := by
  rw [collected, endpoints_succ]
  split
  next => rw [List.foldl_append, List.foldl_cons, List.foldl_nil, collected]
  next => rw [List.append_nil, collected]

theorem round_atCollect (d : InitDevice) (c : ℕ) (driver : HIDDriver) (k : ℕ) :
    round buf len (atCollect buf d c driver k) =
    if (endpoints buf c k).length < numEndpoints buf c then
      if pos buf (c + k + 1) < len ∧ (buf (pos buf (c + k + 1) + 1) = endpointType →
        (endpoints buf c k).length < maxEpConfigs) then
        some (.goOn (atCollect buf d c driver (k + 1)))
      else none
    else some (.done (.ok (), (collected buf d c driver k).configure buf)) := by
  have hstep : pos buf (c + k) + (buf (pos buf (c + k))).toNat = pos buf (c + k + 1) := rfl
  have hnum : (buf (pos buf c + 4)).toNat = numEndpoints buf c := rfl
  rw [round, atCollect]
  simp only [hstep, hnum, numEpConfigs_collected]
  split
  next =>
    have hgo : atCollect buf d c driver (k + 1) = ⟨pos buf (c + k + 1), .collect (pos buf c) driver,
        if buf (pos buf (c + k + 1) + 1) = endpointType then
          (collected buf d c driver k).store buf driver (pos buf (c + k + 1))
        else collected buf d c driver k⟩ := by
      rw [atCollect, collected_succ]
      rfl
    rw [hgo]
    by_cases hp : pos buf (c + k + 1) < len
    · by_cases htype : buf (pos buf (c + k + 1) + 1) = endpointType
      · by_cases hroom : (endpoints buf c k).length < maxEpConfigs <;> simp [hp, htype, hroom]
      · simp [hp, htype]
    · simp [hp]
  next => rfl

/-! ### What the loops come to -/

theorem Unsupported.succ (h : Unsupported buf i) (hi : driverAt buf (pos buf i) = none) : Unsupported buf (i + 1) := by
  intro j hj hlt
  rcases Nat.lt_succ_iff_lt_or_eq.mp hlt with hlt | rfl
  · exact h j hj hlt
  · exact hi

/-- The search goes on as long as there is no interface with a driver. -/
theorem reached_atSearch (d : InitDevice) (hlt : pos buf i < len) (h : Unsupported buf (i + 1)) :
    Reached buf len d (atSearch buf d i) := by
  induction i with
  | zero => exact .refl
  | succ i ih =>
    refine (ih (Nat.lt_of_le_of_lt (pos_mono (Nat.le_succ i)) hlt) fun j hj hji =>
      h j hj (Nat.lt_succ_of_lt hji)).tail ?_
    rw [round_atSearch, if_pos hlt, h (i + 1) (Nat.succ_le_succ (Nat.zero_le i)) (Nat.lt_succ_self _)]
    rfl

/-- It ends at the first. -/
theorem reached_chosen (d : InitDevice) (h : IsChosen buf len c driver) :
    Reached buf len d (atCollect buf d c driver 0) := by
  obtain ⟨i, rfl⟩ := Nat.exists_eq_add_of_le' h.pos
  refine (reached_atSearch d (Nat.lt_of_le_of_lt (pos_mono (Nat.le_succ i)) h.lt) h.first).tail ?_
  rw [round_atSearch, if_pos h.lt, h.driver]
  rfl

theorem reached_atCollect (d : InitDevice) (h : IsChosen buf len c driver) (hlt : pos buf (c + k) < len)
    (hk : Collecting buf c k) :
    Reached buf len d (atCollect buf d c driver k) := by
  induction k with
  | zero => exact reached_chosen d h
  | succ k ih =>
    obtain ⟨hleft, hroom⟩ := hk k (Nat.lt_succ_self k)
    refine (ih (Nat.lt_of_le_of_lt (pos_mono (Nat.le_succ _)) hlt) fun j hj => hk j (Nat.lt_succ_of_lt hj)).tail ?_
    rw [round_atCollect, if_pos hleft, if_pos ⟨hlt, hroom⟩]

/-- **The states** the loops come to. -/
theorem reached_iff (hlen : 0 < len) : Reached buf len d s ↔
    (∃ i, s = atSearch buf d i ∧ pos buf i < len ∧ Unsupported buf (i + 1)) ∨
      ∃ c driver k, s = atCollect buf d c driver k ∧ IsChosen buf len c driver ∧ pos buf (c + k) < len ∧
        Collecting buf c k := by
  constructor
  · intro h
    induction h with
    | refl => exact .inl ⟨0, rfl, hlen, fun j hj hlt => absurd hlt (Nat.not_lt_of_le hj)⟩
    | tail _ hround ih =>
      obtain ⟨i, rfl, hlt, hun⟩ | ⟨c, driver, k, rfl, hc, hlt, hk⟩ := ih
      · rw [round_atSearch] at hround
        split at hround
        next hlt' =>
          cases hdriver : driverAt buf (pos buf (i + 1)) with
          | none =>
            rw [hdriver] at hround
            cases hround
            exact .inl ⟨i + 1, rfl, hlt', hun.succ hdriver⟩
          | some driver =>
            rw [hdriver] at hround
            cases hround
            exact .inr ⟨i + 1, driver, 0, rfl, ⟨Nat.succ_le_succ (Nat.zero_le i), hlt', hdriver, hun⟩, hlt',
              fun j hj => absurd hj (Nat.not_lt_zero j)⟩
        next => cases hround
      · rw [round_atCollect] at hround
        split at hround
        next hleft =>
          split at hround
          next hnext =>
            cases hround
            refine .inr ⟨c, driver, k + 1, rfl, hc, hnext.1, fun j hj => ?_⟩
            rcases Nat.lt_succ_iff_lt_or_eq.mp hj with hj | rfl
            · exact hk j hj
            · exact ⟨hleft, hnext.2⟩
          next => cases hround
        next => cases hround
  · rintro (⟨i, rfl, hlt, hun⟩ | ⟨c, driver, k, rfl, hc, hlt, hk⟩)
    · exact reached_atSearch d hlt hun
    · exact reached_atCollect d hc hlt hk

end DuvuvurKernel.Usb
