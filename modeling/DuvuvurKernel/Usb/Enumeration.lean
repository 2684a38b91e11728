import DuvuvurKernel.Usb.Configuration
import DuvuvurKernel.Usb.KeyboardDriver
import DuvuvurKernel.Usb.PortAddressing

/-!
# From the address of a device to its reports

`usb/device.cpp`, `usb/classdriver/hid.cpp` and the end of the port phases in `usb/xhci/xhci.cpp`: when a device has its
address, the host asks it for its device descriptor, then for its configuration descriptor, and sets the configuration
(`initialize_phase_` 1 to 3). Each step is taken when the transfer of the one before has completed. The host controller
is told of the endpoints, the class driver asks for the boot protocol, and then for one report after the other.

## The model

`System` is one device, with its port, its class driver and the transfers that the host controller has been given and is
not done with (`pending`). An event is about one of these, in any order: it has completed with some bytes, or it has
failed. That the host controller's events are about pending transfers is the matter of `Usb.ControlMatching`, and the
rings and contexts are left out, but for which rings there are. A driver that `NewClassDriver` makes starts as
`HIDBaseDriver.init`. `issued`, `reports` and `failures` are kept for the theorem: all transfers there have been, the
bytes of the interrupt transfers that have completed, and how many transfers have failed.

A step is undefined where a ring before the first is looked for (`ringIndex`), and where `InitializePhase2` is.

What is proved of every reachable state (`enumerated`):

* the requests come in order, each once but for `SetProtocol`, which is sent for each endpoint number of the driver;
* at most one transfer is under way into the buffer of the device, and one into the buffer of the driver;
* each report is handed to the driver once, in order, together with the one before it;
* as long as no transfer has failed, a driver that has asked for a report waits for the next one.

A transfer that fails is not tried again: a driver that has lost its transfer never gets a report (`lost`).
-/

namespace DuvuvurKernel.Usb.Enumeration

open Lib.Loops

/-! ### Requests -/

/-- `DeviceDescriptor::kType`. -/
def deviceType : UInt8 := 1

/-- `request::kGetDescriptor`. -/
def kGetDescriptor : BitVec 8 := 6

/-- `request::kSetProtocol`. -/
def kSetProtocol : BitVec 8 := 11

/-- The length of `buf_`. -/
def bufSize : ℕ := 256

/-- The request of `GetDescriptor`, into `buf_`. -/
def getDescriptor (descType descIndex : UInt8) : SetupData :=
  ⟨0x80, kGetDescriptor, descType.toBitVec ++ descIndex.toBitVec, 0, BitVec.ofNat 16 bufSize⟩

/-- The request of `SetConfiguration`. -/
def setConfiguration (configValue : UInt8) : SetupData :=
  ⟨0, kSetConfiguration, configValue.toBitVec.setWidth 16, 0, 0⟩

/-- `interface_index_`. -/
def interfaceIndex : HIDDriver → UInt8
  | .keyboard interfaceNumber => interfaceNumber
  | .mouse interfaceNumber => interfaceNumber

/-- `in_packet_size_`. -/
def inPacketSize : HIDDriver → ℕ
  | .keyboard _ => 8
  | .mouse _ => 3

/-- The request of `HIDBaseDriver::OnEndpointsConfigured`. -/
def setProtocol (w : HIDDriver) : SetupData :=
  ⟨0x21, kSetProtocol, 0, (interfaceIndex w).toBitVec.setWidth 16, 0⟩

/-- A transfer that the host controller has been given. -/
inductive Transfer where
  /-- `ControlIn` into `buf_`, or `ControlOut` without data, on the default control pipe. -/
  | control (setupData : SetupData) (dirIn : Bool)
  /-- `InterruptIn` into the buffer of a driver. -/
  | interruptIn (ep : EndpointID) (w : HIDDriver)
  deriving DecidableEq

/-- The bytes there is room for. -/
def Transfer.length : Transfer → ℕ
  | .control setupData dirIn => if dirIn then setupData.length.toNat else 0
  | .interruptIn _ w => inPacketSize w

/-- The host controller writes into `buf_`. -/
def Transfer.fillsBuf : Transfer → Bool
  | .control _ dirIn => dirIn
  | .interruptIn _ _ => false

/-- The host controller writes into the buffer of the driver. -/
def Transfer.fills (w : HIDDriver) : Transfer → Bool
  | .control _ _ => false
  | .interruptIn _ w' => w' = w

/-- The default control pipe, in `transfer_rings_`. -/
def controlRing : Fin 31 := ⟨0, by decide⟩

/-! ### The device and its driver -/

/-- `HIDBaseDriver`. -/
structure HIDBaseDriver where
  /-- `ep_interrupt_in_`. -/
  epInterruptIn : EndpointID
  /-- `ep_interrupt_out_`. -/
  epInterruptOut : EndpointID
  /-- `initialize_phase_`. -/
  initializePhase : ℕ
  /-- `buf_`. -/
  buf : ℕ → UInt8
  /-- `previous_buf_`. -/
  previousBuf : ℕ → UInt8
  /-- `Buffer` and `PreviousBuffer` at each call of `OnDataReceived`. -/
  received : List ((ℕ → UInt8) × (ℕ → UInt8))

namespace HIDBaseDriver

/-- The constructor. -/
def init : HIDBaseDriver := ⟨⟨0⟩, ⟨0⟩, 0, fun _ => 0, fun _ => 0, []⟩

variable (d : HIDBaseDriver)

/-- `EndpointType::kInterrupt`. -/
def kInterrupt : UInt8 := 3

/-- `SetEndpoint`. -/
def setEndpoint (config : EndpointConfig) : HIDBaseDriver :=
  if config.epType = kInterrupt ∧ config.epID.isIn then { d with epInterruptIn := config.epID }
  else if config.epType = kInterrupt ∧ ¬ config.epID.isIn then { d with epInterruptOut := config.epID }
  else d

/-- `OnDataReceived` is called, and the buffer is kept. -/
def onDataReceived (len : ℕ) : HIDBaseDriver :=
  { d with
    received := d.received ++ [(d.buf, d.previousBuf)]
    previousBuf := HIDKeyboardDriver.copyN d.buf d.previousBuf len }

end HIDBaseDriver

/-- The bytes are written over the start of a buffer. -/
def overwrite (buf : ℕ → UInt8) (bytes : List UInt8) : ℕ → UInt8 := fun i => bytes.getD i (buf i)

/-- A device, its port, its driver and its transfers. -/
structure System where
  /-- `port_config_phase` of the port. -/
  portConfigPhase : ConfigPhase
  /-- Which of `transfer_rings_` are set. -/
  transferRings : Fin 31 → Bool
  /-- `buf_`. -/
  buf : ℕ → UInt8
  /-- `num_configurations_`. -/
  numConfigurations : UInt8
  /-- `config_index_`. -/
  configIndex : UInt8
  /-- `is_initialized_`. -/
  isInitialized : Bool
  /-- `initialize_phase_`, `class_drivers_`, `ep_configs_` and `num_ep_configs_`. -/
  dev : InitDevice
  /-- `event_waiters_`. -/
  eventWaiters : ArrayMap SetupData (Option HIDDriver) 4
  /-- The drivers. -/
  drivers : HIDDriver → HIDBaseDriver
  /-- The transfers that the host controller is not done with. -/
  pending : List Transfer
  /-- All transfers that the host controller has been given. -/
  issued : List Transfer
  /-- The bytes of each interrupt transfer that has completed. -/
  reports : List (List UInt8)
  /-- How many transfers have failed. -/
  failures : ℕ

namespace System

/-- A device with an address, and a ring for its default control pipe. -/
def init : System where
  portConfigPhase := .addressingDevice
  transferRings := fun i => i = controlRing
  buf := fun _ => 0
  numConfigurations := 0
  configIndex := 0
  isInitialized := false
  dev := { freshDevice with initializePhase := 0 }
  eventWaiters := .empty none
  drivers := fun _ => .init
  pending := []
  issued := []
  reports := []
  failures := 0

variable (s : System)

/-- The host controller is given a transfer. -/
def give (t : Transfer) : System := { s with pending := s.pending ++ [t], issued := s.issued ++ [t] }

/-- A driver changes. -/
def setDriver (w : HIDDriver) (d : HIDBaseDriver) : System := { s with drivers := Function.update s.drivers w d }

/-- `ControlIn` and `ControlOut` on the default control pipe. -/
def control (setupData : SetupData) (dirIn : Bool) (issuer : Option HIDDriver) : Except Error Unit × System :=
  let s := match issuer with
    | some w => { s with eventWaiters := s.eventWaiters.put setupData (some w) }
    | none => s
  if s.transferRings controlRing then (.ok (), s.give (.control setupData dirIn)) else (.error .transferRingNotSet, s)

/-- `InterruptIn`. -/
def interruptIn (ep : EndpointID) (w : HIDDriver) : Option (Except Error Unit × System) :=
  ep.ringIndex.map fun i =>
    if s.transferRings i then (.ok (), s.give (.interruptIn ep w)) else (.error .transferRingNotSet, s)

/-! ### The class driver -/

/-- `HIDBaseDriver::OnEndpointsConfigured`. -/
def driverOnEndpointsConfigured (w : HIDDriver) : Except Error Unit × System :=
  (s.setDriver w { s.drivers w with initializePhase := 1 }).control (setProtocol w) false (some w)

/-- `HIDBaseDriver::OnControlCompleted`. -/
def driverOnControlCompleted (w : HIDDriver) : Option (Except Error Unit × System) :=
  if (s.drivers w).initializePhase = 1 then
    (s.setDriver w { s.drivers w with initializePhase := 2 }).interruptIn (s.drivers w).epInterruptIn w
  else some (.error .notImplemented, s)

/-- `HIDBaseDriver::OnInterruptCompleted`. -/
def driverOnInterruptCompleted (w : HIDDriver) (ep : EndpointID) (len : ℕ) : Option (Except Error Unit × System) :=
  if ep.isIn then
    (s.setDriver w ((s.drivers w).onDataReceived len)).interruptIn (s.drivers w).epInterruptIn w
  else some (.error .notImplemented, s)

/-! ### The device -/

/-- `StartInitialize`. -/
def startInitialize : Except Error Unit × System :=
  { s with isInitialized := false, dev := { s.dev with initializePhase := 1 } }.control (getDescriptor deviceType 0)
    true none

/-- `InitializePhase1`. -/
def initializePhase1 : Except Error Unit × System :=
  { s with
    numConfigurations := s.buf 17
    configIndex := 0
    dev := { s.dev with initializePhase := 2 } }.control (getDescriptor configurationType 0) true none

/-- The end of `InitializePhase2`, where a request may have been added. -/
def request (d : InitDevice) (r : Except Error Unit) : Except Error Unit × System :=
  match d.requests.drop s.dev.requests.length with
  | [] => (r, { s with dev := d })
  | setupData :: _ => { s with dev := d }.control setupData false none

/-- `InitializePhase2`. -/
def InitializePhase2 (len : ℕ) (r : Except Error Unit) (s' : System) : Prop :=
  ∃ r' d, Phase2Returns s.buf len s.dev (r', d) ∧ (r, s') = s.request d r'

/-- A round of the loop of `InitializePhase3`. -/
def setEndpoint (i : ℕ) : Option System :=
  let config := s.dev.epConfigs i
  (s.dev.classDrivers config.epID.number.toNat).map fun w => s.setDriver w ((s.drivers w).setEndpoint config)

/-- `InitializePhase3`. -/
def initializePhase3 : Option (Except Error Unit × System) :=
  ((List.range s.dev.numEpConfigs).foldlM setEndpoint s).map fun s =>
    (.ok (), { s with dev := { s.dev with initializePhase := 4 }, isInitialized := true })

/-- `Device::OnControlCompleted`. A request for a descriptor has data. -/
def OnControlCompleted (setupData : SetupData) (len : ℕ) (r : Except Error Unit) (s' : System) : Prop :=
  if s.isInitialized then
    match s.eventWaiters.get setupData with
    | some (some w) => s.driverOnControlCompleted w = some (r, s')
    | some none => False
    | none => (r, s') = (.error .noWaiter, s)
  else if s.dev.initializePhase = 1 then
    if setupData.request = kGetDescriptor ∧ s.buf 1 = deviceType then (r, s') = s.initializePhase1
    else (r, s') = (.error .invalidPhase, s)
  else if s.dev.initializePhase = 2 then
    if setupData.request = kGetDescriptor ∧ s.buf 1 = configurationType then s.InitializePhase2 len r s'
    else (r, s') = (.error .invalidPhase, s)
  else if s.dev.initializePhase = 3 then
    if setupData.request = kSetConfiguration then s.initializePhase3 = some (r, s')
    else (r, s') = (.error .invalidPhase, s)
  else (r, s') = (.error .notImplemented, s)

/-- `Device::OnInterruptCompleted`. -/
def onInterruptCompleted (ep : EndpointID) (len : ℕ) : Option (Except Error Unit × System) :=
  match s.dev.classDrivers ep.number.toNat with
  | some w => s.driverOnInterruptCompleted w ep len
  | none => some (.error .noWaiter, s)

/-- The loop of `Device::OnEndpointsConfigured`. -/
def onEndpointsConfigured : List ℕ → System → Except Error Unit × System
  | [], s => (.ok (), s)
  | i :: l, s =>
    match s.dev.classDrivers i with
    | none => onEndpointsConfigured l s
    | some w =>
      match s.driverOnEndpointsConfigured w with
      | (.ok (), s) => onEndpointsConfigured l s
      | (.error err, s) => (.error err, s)

/-! ### The port -/

/-- A round of the loop of `ConfigureEndpoints`: the endpoint gets a ring. -/
def allocTransferRing (i : ℕ) : Option System :=
  (s.dev.epConfigs i).epID.ringIndex.map fun j => { s with transferRings := Function.update s.transferRings j true }

/-- `ConfigureEndpoints`. -/
def configureEndpoints (portSpeed : ℕ) : Option System :=
  if portSpeed = 0 ∨ kSuperSpeedPlus < portSpeed then some s
  else ((List.range s.dev.numEpConfigs).foldlM allocTransferRing s).map fun s =>
    { s with portConfigPhase := .configuringEndpoints }

/-- `CompleteConfiguration`. -/
def completeConfiguration : System :=
  { (onEndpointsConfigured (List.range 16) s).2 with portConfigPhase := .configured }

/-- The bytes have been written where the transfer wants them. -/
def receive (bytes : List UInt8) : Transfer → System
  | .control _ dirIn => if dirIn then { s with buf := overwrite s.buf bytes } else s
  | .interruptIn _ w =>
    { s.setDriver w { s.drivers w with buf := overwrite (s.drivers w).buf bytes } with
      reports := s.reports ++ [bytes] }

/-- What `OnTransferEventReceived` calls for a transfer that has completed. -/
def OnCompleted (len : ℕ) (r : Except Error Unit) (s' : System) : Transfer → Prop
  | .control setupData _ => s.OnControlCompleted setupData len r s'
  | .interruptIn ep _ => s.onInterruptCompleted ep len = some (r, s')

/-- The host controller is done with a transfer. -/
def finish (i : ℕ) : System := { s with pending := s.pending.eraseIdx i }

end System

/-- What the host controller tells of. -/
inductive Event where
  /-- The device has its address. -/
  | addressed
  /-- A transfer has completed, with some bytes; the speed is the one of the port. -/
  | completed (i : ℕ) (bytes : List UInt8) (portSpeed : ℕ)
  /-- A transfer has failed. -/
  | failed (i : ℕ)
  /-- The endpoints are configured. -/
  | configured

/-- `OnEvent`, for each event. -/
def Step (s : System) : Event → System → Prop
  | .addressed, s' =>
    s' = if s.portConfigPhase = .addressingDevice then
      ({ s with portConfigPhase := .initializingDevice }.startInitialize).2 else s
  | .completed i bytes portSpeed, s' =>
    ∃ t, s.pending[i]? = some t ∧ bytes.length ≤ t.length ∧
      ∃ r u, ((s.finish i).receive bytes t).OnCompleted bytes.length r u t ∧
        if r = .ok () ∧ u.isInitialized ∧ u.portConfigPhase = .initializingDevice then
          u.configureEndpoints portSpeed = some s'
        else s' = u
  | .failed i, s' => i < s.pending.length ∧ s' = { s.finish i with failures := s.failures + 1 }
  | .configured, s' => s' = if s.portConfigPhase = .configuringEndpoints then s.completeConfiguration else s

/-- What any events lead to. -/
inductive Reachable : System → Prop where
  /-- The device is being addressed. -/
  | init : Reachable System.init
  /-- An event has been handled. -/
  | step {s s' : System} {e : Event} : Reachable s → Step s e s' → Reachable s'


/-! ### The transfers of a device -/

/-- The request for the device descriptor. -/
def deviceRequest : Transfer := .control (getDescriptor deviceType 0) true

/-- The request for the configuration descriptor. -/
def configurationRequest : Transfer := .control (getDescriptor configurationType 0) true

/-- The request that sets the configuration. -/
def configureRequest (configValue : UInt8) : Transfer := .control (setConfiguration configValue) false

/-- The request for the boot protocol. -/
def protocolRequest (w : HIDDriver) : Transfer := .control (setProtocol w) false

/-- The endpoint numbers that a driver is entered for. -/
def entries (d : InitDevice) (w : HIDDriver) (l : List ℕ) : ℕ := l.countP fun i => d.classDrivers i = some w

/-- The requests of the initialization. -/
def requests (configValue : UInt8) : List Transfer :=
  [deviceRequest, configurationRequest, configureRequest configValue]

/-- The transfer for the next report. -/
def poll (s : System) (w : HIDDriver) : Transfer := .interruptIn (s.drivers w).epInterruptIn w

/-- The transfers of a device in order, up to the one after the last report. -/
def conversation (s : System) (configValue : UInt8) (w : HIDDriver) : List Transfer :=
  requests configValue ++ List.replicate (entries s.dev w (List.range 16)) (protocolRequest w) ++
    List.replicate (s.reports.length + 1) (poll s w)

/-- What reports leave in a buffer. -/
def contents (reports : List (List UInt8)) : ℕ → UInt8 := reports.foldl overwrite fun _ => 0

/-- Each report and the one before it. -/
def handed (reports : List (List UInt8)) : List ((ℕ → UInt8) × (ℕ → UInt8)) :=
  (List.range reports.length).map fun k => (contents (reports.take (k + 1)), contents (reports.take k))

/-- The driver is the one of each endpoint, and the only one. -/
structure Serves (d : InitDevice) (w : HIDDriver) : Prop where
  only : ∀ i w', d.classDrivers i = some w' → w' = w
  endpoint : ∀ i < d.numEpConfigs, d.classDrivers (d.epConfigs i).epID.number.toNat = some w

/-- Only the driver waits, for its request. -/
structure Waiting (m : ArrayMap SetupData (Option HIDDriver) 4) (w : HIDDriver) : Prop where
  only : ∀ e ∈ m.table, e.1 = none ∨ e = (some (setProtocol w), some w)
  room : m.Has (setProtocol w) ∨ m.HasFree

/-- What holds between the host, a device and its driver. -/
structure Conversing (s : System) (configValue : UInt8) (w : HIDDriver) : Prop where
  /-- The transfers have been issued in order. -/
  issued : s.issued <+: conversation s configValue w
  /-- One transfer at a time fills the buffer of the device. -/
  fillsBuf : s.pending.countP Transfer.fillsBuf ≤ 1
  /-- One transfer at a time fills the buffer of the driver. -/
  fills : s.pending.countP (Transfer.fills w) ≤ 1
  /-- The driver has been handed all reports. -/
  received : (s.drivers w).received = handed s.reports
  /-- No other driver has been handed one. -/
  others : ∀ w' ≠ w, (s.drivers w').received = []
  /-- As long as nothing fails, a driver that has asked for a report waits for the next one. -/
  waits : s.failures = 0 → (s.drivers w).initializePhase = 2 → s.pending.countP (Transfer.fills w) = 1

variable {s s' u : System} {e : Event} {w : HIDDriver} {v : UInt8} {d d' : InitDevice} {buf : ℕ → UInt8} {len i : ℕ}
  {r : Except Error Unit} {l : List ℕ} {t t' : Transfer} {reports : List (List UInt8)} {bytes : List UInt8}
  {m : ArrayMap SetupData (Option HIDDriver) 4}

/-! ### Buffers -/

theorem contents_concat : contents (reports ++ [bytes]) = overwrite (contents reports) bytes := List.foldl_append

theorem handed_concat : handed (reports ++ [bytes]) = handed reports ++ [(overwrite (contents reports) bytes,
    contents reports)] := by
  rw [handed, List.length_append, List.length_singleton, List.range_succ, List.map_append, List.map_singleton,
    List.take_left, List.take_of_length_le (by simp), contents_concat, handed]
  refine congrArg (· ++ _) (List.map_congr_left fun k hk => ?_)
  have hlt := List.mem_range.mp hk
  rw [List.take_append_of_le_length (by omega), List.take_append_of_le_length (by omega)]

/-- The bytes received are kept, and no others. -/
theorem copyN_overwrite : HIDKeyboardDriver.copyN (overwrite buf bytes) buf bytes.length = overwrite buf bytes := by
  funext i
  rw [HIDKeyboardDriver.copyN]
  split
  next => rfl
  next hle =>
    rw [overwrite, List.getD_eq_getElem?_getD, List.getElem?_eq_none (Nat.le_of_not_lt hle), Option.getD_none]

/-! ### Waiting -/

theorem Waiting.empty (w : HIDDriver) : Waiting (.empty none) w where
  only := fun _ he => .inl (by rw [List.eq_of_mem_replicate he])
  room := .inr ⟨(none, none), List.mem_cons_self, rfl⟩

theorem Waiting.put (h : Waiting m w) : Waiting (m.put (setProtocol w) (some w)) w ∧
    (m.put (setProtocol w) (some w)).Has (setProtocol w) := by
  have hhas : (m.put (setProtocol w) (some w)).Has (setProtocol w) :=
    ArrayMap.has_put.mpr (h.room.imp_right fun hfree => ⟨rfl, hfree⟩)
  refine ⟨⟨fun e he => ?_, .inl hhas⟩, hhas⟩
  rcases ArrayMap.mem_put he with he | rfl
  · exact h.only e he
  · exact .inr rfl

theorem Waiting.get (h : Waiting m w) (hhas : m.Has (setProtocol w)) : m.get (setProtocol w) = some (some w) := by
  cases hget : m.get (setProtocol w) with
  | none => exact absurd hhas (ArrayMap.get_eq_none_iff.mp hget)
  | some value =>
    rcases h.only _ (ArrayMap.of_get hget) with hnone | heq
    · cases hnone
    · rw [(Prod.mk.inj heq).2]

/-! ### The configuration descriptor -/

/-- **`InitializePhase2`** finds nothing, or a driver and its endpoints. -/
theorem phase2_cases (hnone : ∀ i, d.classDrivers i = none) (ht : buf 1 = configurationType)
    (h : Phase2Returns buf len d (r, d')) : r = .ok () ∧ (d' = d ∨ ∃ w, Serves d' w ∧ d'.initializePhase = 3 ∧
      d'.requests = d.requests ++ [setConfiguration (buf 5)]) := by
  rw [Phase2Returns, if_pos ht] at h
  obtain ⟨p, hreach, hdone⟩ := returns_iff_reached.mp h
  have hform : (∃ i, p = atSearch buf d i) ∨ ∃ c w k, p = atCollect buf d c w k := by
    clear hdone
    induction hreach with
    | refl => exact .inl ⟨0, rfl⟩
    | tail _ hround ih =>
      obtain ⟨i, rfl⟩ | ⟨c, w, k, rfl⟩ := ih
      · rw [round_atSearch] at hround
        split at hround
        next =>
          cases hdriver : driverAt buf (pos buf (i + 1)) with
          | none =>
            rw [hdriver] at hround
            cases hround
            exact .inl ⟨i + 1, rfl⟩
          | some w =>
            rw [hdriver] at hround
            cases hround
            exact .inr ⟨i + 1, w, 0, rfl⟩
        next => cases hround
      · rw [round_atCollect] at hround
        split at hround
        next =>
          split at hround
          next =>
            cases hround
            exact .inr ⟨c, w, k + 1, rfl⟩
          next => cases hround
        next => cases hround
  obtain ⟨i, rfl⟩ | ⟨c, w, k, rfl⟩ := hform
  · rw [round_atSearch] at hdone
    split at hdone
    next =>
      cases hdriver : driverAt buf (pos buf (i + 1)) with
      | none =>
        rw [hdriver] at hdone
        cases hdone
      | some w =>
        rw [hdriver] at hdone
        cases hdone
    next =>
      cases hdone
      exact ⟨rfl, .inl rfl⟩
  · rw [round_atCollect] at hdone
    split at hdone
    next => split at hdone <;> cases hdone
    next =>
      cases hdone
      obtain ⟨hends, hrequests⟩ := hasEndpoints_collected buf d c w k
      refine ⟨rfl, .inr ⟨w, ⟨fun i w' hw' => ?_, fun i hi => ?_⟩, rfl, congrArg (· ++ _) hrequests⟩⟩
      · have hdrivers := (hends.classDrivers i).symm.trans hw'
        split at hdrivers
        next => exact (Option.some.inj hdrivers).symm
        next => rw [hnone] at hdrivers; cases hdrivers
      · have hmem : (collected buf d c w k).epConfigs i ∈ (endpoints buf c k).map (makeEPConfig buf) :=
          hends.epConfigs ▸ List.mem_map_of_mem (List.mem_range.mpr hi)
        obtain ⟨p, hp, heq⟩ := List.mem_map.mp hmem
        refine (hends.classDrivers _).trans (if_pos ?_)
        exact List.mem_map.mpr ⟨p, hp, by rw [endpointNumber, heq]; rfl⟩

/-! ### The loops -/

/-- The loop of `ConfigureEndpoints` gives each endpoint a ring. -/
theorem allocTransferRings (h : l.foldlM System.allocTransferRing s = some u) :
    ∃ rings, u = { s with transferRings := rings } ∧ (∀ j, s.transferRings j = true → rings j = true) ∧
      ∀ i ∈ l, ∀ j, (s.dev.epConfigs i).epID.ringIndex = some j → rings j = true := by
  induction l generalizing s with
  | nil =>
    obtain rfl := Option.some.inj h
    exact ⟨s.transferRings, rfl, fun _ => id, fun i hi => absurd hi List.not_mem_nil⟩
  | cons i l ih =>
    obtain ⟨s₁, hs₁, h⟩ := Option.bind_eq_some_iff.mp h
    obtain ⟨j, hj, rfl⟩ := Option.map_eq_some_iff.mp hs₁
    obtain ⟨rings, rfl, hkeep, hset⟩ := ih h
    have hupdate : ∀ j', j' = j ∨ s.transferRings j' = true → rings j' = true := by
      rintro j' (rfl | hj')
      · exact hkeep _ (Function.update_self _ _ _)
      · refine hkeep _ ?_
        by_cases heq : j' = j
        · rw [heq]
          exact Function.update_self _ _ _
        · exact (Function.update_of_ne heq _ _).trans hj'
    refine ⟨rings, rfl, fun j' hj' => hupdate j' (.inr hj'), fun i' hi' j' hj' => ?_⟩
    rcases List.mem_cons.mp hi' with rfl | hi'
    · exact hupdate j' (.inl (Option.some.inj (hj'.symm.trans hj)))
    · exact hset i' hi' j' hj'

/-- What `SetEndpoint` leaves of a driver that has no endpoint yet. -/
structure Assigned (dev : InitDevice) (d : HIDBaseDriver) (l : List ℕ) : Prop where
  initializePhase : d.initializePhase = 0
  buf : d.buf = fun _ => 0
  previousBuf : d.previousBuf = fun _ => 0
  received : d.received = []
  epInterruptIn : d.epInterruptIn = ⟨0⟩ ∨
    d.epInterruptIn.isIn = true ∧ ∃ i ∈ l, (dev.epConfigs i).epID = d.epInterruptIn

theorem Assigned.setEndpoint {dev : InitDevice} {d : HIDBaseDriver} (h : Assigned dev d l) (i : ℕ) :
    Assigned dev (d.setEndpoint (dev.epConfigs i)) (l ++ [i]) := by
  have hold : d.epInterruptIn = ⟨0⟩ ∨
      d.epInterruptIn.isIn = true ∧ ∃ i' ∈ l ++ [i], (dev.epConfigs i').epID = d.epInterruptIn :=
    h.epInterruptIn.imp_right fun ⟨hin, i', hi', heq⟩ => ⟨hin, i', List.mem_append_left _ hi', heq⟩
  rw [HIDBaseDriver.setEndpoint]
  split
  next hin => exact ⟨h.1, h.2, h.3, h.4, .inr ⟨hin.2, i, List.mem_append_right _ List.mem_cons_self, rfl⟩⟩
  next =>
    split
    next => exact ⟨h.1, h.2, h.3, h.4, hold⟩
    next => exact ⟨h.1, h.2, h.3, h.4, hold⟩

/-- The loop of `InitializePhase3` changes the driver of the endpoints only. -/
theorem setEndpoints {js : List ℕ} (hs : Serves s.dev w) (hj : ∀ j ∈ js, j < s.dev.numEpConfigs)
    (h : js.foldlM System.setEndpoint s = some u) (ha : Assigned s.dev (s.drivers w) l) :
    ∃ d, u = s.setDriver w d ∧ Assigned s.dev d (l ++ js) := by
  induction js generalizing s l with
  | nil =>
    obtain rfl := Option.some.inj h
    refine ⟨s.drivers w, ?_, by rwa [List.append_nil]⟩
    rw [System.setDriver, Function.update_eq_self]
  | cons j js ih =>
    obtain ⟨hlt, hj⟩ := List.forall_mem_cons.mp hj
    obtain ⟨s₁, hs₁, h⟩ := Option.bind_eq_some_iff.mp h
    obtain ⟨w', hw', rfl⟩ := Option.map_eq_some_iff.mp hs₁
    obtain rfl := hs.only _ _ hw'
    have hself : (s.setDriver w' ((s.drivers w').setEndpoint (s.dev.epConfigs j))).drivers w' =
        (s.drivers w').setEndpoint (s.dev.epConfigs j) := Function.update_self _ _ _
    obtain ⟨d, rfl, hd⟩ := ih (s := s.setDriver w' ((s.drivers w').setEndpoint (s.dev.epConfigs j))) hs hj h
      (by rw [hself]; exact ha.setEndpoint j)
    refine ⟨d, ?_, ?_⟩
    · simp only [System.setDriver, Function.update_idem]
    · rw [List.append_assoc] at hd
      exact hd

/-- The loop of `OnEndpointsConfigured` asks for the boot protocol once for each entry of the driver. -/
theorem onEndpointsConfigured_spec (hs : Serves s.dev w) (h0 : s.transferRings controlRing = true)
    (hm : Waiting s.eventWaiters w) :
    ∃ m d, (System.onEndpointsConfigured l s).2 = { s.setDriver w d with
        eventWaiters := m
        pending := s.pending ++ List.replicate (entries s.dev w l) (protocolRequest w)
        issued := s.issued ++ List.replicate (entries s.dev w l) (protocolRequest w) } ∧
      Waiting m w ∧ (s.eventWaiters.Has (setProtocol w) ∨ 0 < entries s.dev w l → m.Has (setProtocol w)) ∧
      ∃ phase, (phase = (s.drivers w).initializePhase ∨ phase = 1) ∧
        d = { s.drivers w with initializePhase := phase } := by
  induction l generalizing s with
  | nil =>
    refine ⟨s.eventWaiters, s.drivers w, ?_, hm, fun h => h.resolve_right (Nat.lt_irrefl 0), _, .inl rfl, rfl⟩
    simp only [System.onEndpointsConfigured, System.setDriver, entries, List.countP_nil, List.replicate_zero,
      List.append_nil, Function.update_eq_self]
  | cons i l ih =>
    rw [System.onEndpointsConfigured]
    cases hi : s.dev.classDrivers i with
    | none =>
      have hcount : entries s.dev w (i :: l) = entries s.dev w l :=
        List.countP_cons_of_neg (by rw [hi]; simp)
      rw [hcount]
      exact ih hs h0 hm
    | some w' =>
      obtain rfl := hs.only _ _ hi
      have hcount : entries s.dev w' (i :: l) = entries s.dev w' l + 1 :=
        List.countP_cons_of_pos (by rw [hi]; simp)
      obtain ⟨hput, hhas⟩ := hm.put
      have hcall : s.driverOnEndpointsConfigured w' = (.ok (), System.give
          { s.setDriver w' { s.drivers w' with initializePhase := 1 } with
            eventWaiters := s.eventWaiters.put (setProtocol w') (some w') } (protocolRequest w')) := if_pos h0
      dsimp only
      rw [hcall]
      obtain ⟨m, d, heq, hm', hhas', phase, hphase, rfl⟩ := ih (s := System.give
          { s.setDriver w' { s.drivers w' with initializePhase := 1 } with
            eventWaiters := s.eventWaiters.put (setProtocol w') (some w') } (protocolRequest w')) hs h0 hput
      have hself : (Function.update s.drivers w' { s.drivers w' with initializePhase := 1 }) w' =
        { s.drivers w' with initializePhase := 1 } := Function.update_self _ _ _
      refine ⟨m, { s.drivers w' with initializePhase := phase }, ?_, hm', fun _ => hhas' (.inl hhas), phase, ?_, rfl⟩
      · rw [heq, hcount, List.replicate_succ]
        simp only [System.give, System.setDriver, hself, Function.update_idem, List.append_assoc,
          List.singleton_append]
      · refine .inr (hphase.elim (fun h => h.trans ?_) id)
        simp only [System.give, System.setDriver, hself]

/-! ### The stages -/

/-- The device is asked for something, and nothing else is under way. -/
structure Asking (s : System) (phase : ℕ) (t : Transfer) : Prop where
  portConfigPhase : s.portConfigPhase = .initializingDevice
  isInitialized : s.isInitialized = false
  initializePhase : s.dev.initializePhase = phase
  transferRings : s.transferRings controlRing = true
  eventWaiters : s.eventWaiters = .empty none
  drivers : s.drivers = fun _ => .init
  reports : s.reports = []
  pending : s.pending = [] ∨ s.pending = [t]

/-- The driver has its endpoints, which may have their rings. -/
structure Ready (s : System) (w : HIDDriver) : Prop where
  portConfigPhase : s.portConfigPhase = .initializingDevice ∨ s.portConfigPhase = .configuringEndpoints ∧
    ∀ i < s.dev.numEpConfigs, ∀ j, (s.dev.epConfigs i).epID.ringIndex = some j → s.transferRings j = true
  isInitialized : s.isInitialized = true
  serves : Serves s.dev w
  transferRings : s.transferRings controlRing = true
  eventWaiters : s.eventWaiters = .empty none
  driver : Assigned s.dev (s.drivers w) (List.range s.dev.numEpConfigs)
  others : ∀ w' ≠ w, s.drivers w' = .init
  reports : s.reports = []
  pending : s.pending = []

/-- The driver asks for the boot protocol, and for one report after the other. -/
structure Polling (s : System) (v : UInt8) (w : HIDDriver) : Prop where
  portConfigPhase : s.portConfigPhase = .configured
  isInitialized : s.isInitialized = true
  serves : Serves s.dev w
  transferRings : ∀ i < s.dev.numEpConfigs, ∀ j, (s.dev.epConfigs i).epID.ringIndex = some j →
    s.transferRings j = true
  waiting : Waiting s.eventWaiters w
  waits : protocolRequest w ∈ s.pending → s.eventWaiters.Has (setProtocol w)
  polled : poll s w ∈ s.pending → ∃ j, (s.drivers w).epInterruptIn.ringIndex = some j
  epInterruptIn : (s.drivers w).epInterruptIn = ⟨0⟩ ∨ (s.drivers w).epInterruptIn.isIn = true ∧
    ∃ i ∈ List.range s.dev.numEpConfigs, (s.dev.epConfigs i).epID = (s.drivers w).epInterruptIn
  received : (s.drivers w).received = handed s.reports
  buf : (s.drivers w).buf = contents s.reports
  previousBuf : (s.drivers w).previousBuf = contents s.reports
  others : ∀ w' ≠ w, s.drivers w' = .init
  pending : ∀ t ∈ s.pending, t = protocolRequest w ∨ t = poll s w
  issued : ∃ m, s.issued = requests v ++ List.replicate (entries s.dev w (List.range 16)) (protocolRequest w) ++
      List.replicate m (poll s w) ∧
    ((s.drivers w).initializePhase ≠ 2 ∧ m = 0 ∧ s.reports = [] ∧ s.pending.countP (Transfer.fills w) = 0 ∨
      (s.drivers w).initializePhase = 2 ∧ m = s.reports.length + 1 ∧ s.pending.countP (Transfer.fills w) ≤ 1 ∧
        (s.failures = 0 → s.pending.countP (Transfer.fills w) = 1))

/-- Where a device has got to. -/
inductive Inv (s : System) : Prop where
  | addressing (h : s = .init)
  | first (h : Asking s 1 deviceRequest) (hd : ∀ i, s.dev.classDrivers i = none) (hi : s.issued = [deviceRequest])
  | second (h : Asking s 2 configurationRequest) (hd : ∀ i, s.dev.classDrivers i = none)
    (hi : s.issued = [deviceRequest, configurationRequest])
  | third (v : UInt8) (w : HIDDriver) (h : Asking s 3 (configureRequest v)) (hs : Serves s.dev w)
    (hi : s.issued = requests v)
  | ready (v : UInt8) (w : HIDDriver) (h : Ready s w) (hi : s.issued = requests v)
  | polling (v : UInt8) (w : HIDDriver) (h : Polling s v w)

/-! ### A transfer that is done with -/

/-- What is pending is the transfer that is done with, and the others. -/
theorem countP_finish (ht : s.pending[i]? = some t) (p : Transfer → Bool) :
    s.pending.countP p = (s.pending.eraseIdx i).countP p + if p t then 1 else 0 := by
  obtain ⟨hlt, rfl⟩ := List.getElem?_eq_some_iff.mp ht
  rw [← (List.getElem_cons_eraseIdx_perm hlt).countP_eq p, List.countP_cons]

theorem Asking.finish {phase : ℕ} (h : Asking s phase t) (i n : ℕ) :
    Asking { s.finish i with failures := n } phase t where
  portConfigPhase := h.portConfigPhase
  isInitialized := h.isInitialized
  initializePhase := h.initializePhase
  transferRings := h.transferRings
  eventWaiters := h.eventWaiters
  drivers := h.drivers
  reports := h.reports
  pending := by
    rw [System.finish]
    rcases h.pending with hp | hp
    · exact .inl (by rw [hp, List.eraseIdx_nil])
    · rw [hp]
      cases i with
      | zero => exact .inl rfl
      | succ i => exact .inr rfl

/-- The only transfer there can be. -/
theorem Asking.taken {phase : ℕ} (h : Asking s phase t) (ht : s.pending[i]? = some t') :
    t' = t ∧ (s.finish i).pending = [] := by
  rcases h.pending with hp | hp
  · rw [hp] at ht
    cases ht
  · rw [System.finish, hp]
    rw [hp] at ht
    cases i with
    | zero => exact ⟨(Option.some.inj ht).symm, rfl⟩
    | succ i => cases ht

/-- A transfer may be lost if it has failed. -/
theorem Polling.finish (h : Polling s v w) {n : ℕ} (hn : n = 0 → s.failures = 0 ∧
    (s.pending.eraseIdx i).countP (Transfer.fills w) = s.pending.countP (Transfer.fills w)) :
    Polling { s.finish i with failures := n } v w where
  portConfigPhase := h.portConfigPhase
  isInitialized := h.isInitialized
  serves := h.serves
  transferRings := h.transferRings
  waiting := h.waiting
  waits := fun hmem => h.waits (List.mem_of_mem_eraseIdx hmem)
  polled := fun hmem => h.polled (List.mem_of_mem_eraseIdx hmem)
  epInterruptIn := h.epInterruptIn
  received := h.received
  buf := h.buf
  previousBuf := h.previousBuf
  others := h.others
  pending := fun t ht => h.pending t (List.mem_of_mem_eraseIdx ht)
  issued := by
    obtain ⟨m, hi, hphase⟩ := h.issued
    have hcount : (s.pending.eraseIdx i).countP (Transfer.fills w) ≤ s.pending.countP (Transfer.fills w) :=
      (List.eraseIdx_sublist _ _).countP_le
    refine ⟨m, hi, hphase.imp ?_ ?_⟩
    · rintro ⟨h1, h2, h3, h4⟩
      exact ⟨h1, h2, h3, Nat.le_zero.mp (hcount.trans h4.le)⟩
    · rintro ⟨h1, h2, h3, h4⟩
      exact ⟨h1, h2, hcount.trans h3, fun h0 => (hn h0).2.trans (h4 (hn h0).1)⟩

theorem Inv.failed (h : Inv s) (hi : i < s.pending.length) : Inv { s.finish i with failures := s.failures + 1 } := by
  cases h with
  | addressing h =>
    subst h
    cases hi
  | first h hd hi => exact .first (h.finish i _) hd hi
  | second h hd hi => exact .second (h.finish i _) hd hi
  | third v w h hs hi => exact .third v w (h.finish i _) hs hi
  | ready v w h =>
    rw [h.pending] at hi
    cases hi
  | polling v w h => exact .polling v w (h.finish fun hn => absurd hn (Nat.succ_ne_zero _))

/-! ### The device has its address -/

theorem control_none {setupData : SetupData} {dirIn : Bool} (h0 : s.transferRings controlRing = true) :
    s.control setupData dirIn none = (.ok (), s.give (.control setupData dirIn)) := if_pos h0

theorem Inv.addressed (h : Inv s) (hphase : s.portConfigPhase = .addressingDevice) :
    Inv ({ s with portConfigPhase := .initializingDevice }.startInitialize).2 := by
  cases h with
  | addressing h =>
    subst h
    rw [System.startInitialize, control_none rfl]
    exact .first ⟨rfl, rfl, rfl, rfl, rfl, rfl, rfl, .inr rfl⟩ (fun _ => rfl) rfl
  | first h => rw [h.portConfigPhase] at hphase; cases hphase
  | second h => rw [h.portConfigPhase] at hphase; cases hphase
  | third v w h => rw [h.portConfigPhase] at hphase; cases hphase
  | ready v w h =>
    rcases h.portConfigPhase with hready | ⟨hready, -⟩
    · rw [hready] at hphase; cases hphase
    · rw [hready] at hphase; cases hphase
  | polling v w h => rw [h.portConfigPhase] at hphase; cases hphase

/-! ### A descriptor, or the answer to a request -/

theorem receive_control (bytes : List UInt8) (setupData : SetupData) (dirIn : Bool) :
    ∃ buf, s.receive bytes (.control setupData dirIn) = { s with buf := buf } := by
  cases dirIn with
  | false => exact ⟨s.buf, rfl⟩
  | true => exact ⟨overwrite s.buf bytes, rfl⟩

/-- The device descriptor: the configuration descriptor is asked for. -/
theorem Asking.first_completed (h : Asking s 1 deviceRequest) (hd : ∀ i, s.dev.classDrivers i = none)
    (hi : s.issued = [deviceRequest]) (hp : s.pending = [])
    (hdone : s.OnControlCompleted (getDescriptor deviceType 0) len r u) :
    Inv u ∧ u.isInitialized = false := by
  rw [System.OnControlCompleted, if_neg (Bool.eq_false_iff.mp h.isInitialized), if_pos h.initializePhase] at hdone
  split at hdone
  next =>
    obtain ⟨rfl, rfl⟩ := Prod.mk.inj (hdone.trans (control_none h.transferRings))
    refine ⟨.second ⟨h.portConfigPhase, h.isInitialized, rfl, h.transferRings, h.eventWaiters, h.drivers, h.reports,
      .inr ?_⟩ hd ?_, h.isInitialized⟩
    · exact congrArg (· ++ [configurationRequest]) hp
    · exact congrArg (· ++ [configurationRequest]) hi
  next =>
    obtain ⟨rfl, rfl⟩ := Prod.mk.inj hdone
    exact ⟨.first ⟨h.1, h.2, h.3, h.4, h.5, h.6, h.7, .inl hp⟩ hd hi, h.isInitialized⟩

/-- The configuration descriptor: the configuration is set, if it has a driver. -/
theorem Asking.second_completed (h : Asking s 2 configurationRequest) (hd : ∀ i, s.dev.classDrivers i = none)
    (hi : s.issued = [deviceRequest, configurationRequest]) (hp : s.pending = [])
    (hdone : s.OnControlCompleted (getDescriptor configurationType 0) len r u) :
    Inv u ∧ u.isInitialized = false := by
  rw [System.OnControlCompleted, if_neg (Bool.eq_false_iff.mp h.isInitialized),
    if_neg (by rw [h.initializePhase]; decide), if_pos h.initializePhase] at hdone
  split at hdone
  next htype =>
    obtain ⟨r', d, hret, hrequest⟩ := hdone
    obtain ⟨rfl, rfl | ⟨w, hserves, hthird, hrequests⟩⟩ := phase2_cases hd htype.2 hret
    · rw [System.request, List.drop_length] at hrequest
      obtain ⟨rfl, rfl⟩ := Prod.mk.inj hrequest
      exact ⟨.second ⟨h.1, h.2, h.3, h.4, h.5, h.6, h.7, .inl hp⟩ hd hi, h.isInitialized⟩
    · rw [System.request, hrequests, List.drop_left] at hrequest
      obtain ⟨rfl, rfl⟩ := Prod.mk.inj (hrequest.trans (control_none h.transferRings))
      refine ⟨.third (s.buf 5) w ⟨h.portConfigPhase, h.isInitialized, hthird, h.transferRings, h.eventWaiters,
        h.drivers, h.reports, .inr ?_⟩ hserves ?_, h.isInitialized⟩
      · exact congrArg (· ++ [configureRequest (s.buf 5)]) hp
      · exact congrArg (· ++ [configureRequest (s.buf 5)]) hi
  next =>
    obtain ⟨rfl, rfl⟩ := Prod.mk.inj hdone
    exact ⟨.second ⟨h.1, h.2, h.3, h.4, h.5, h.6, h.7, .inl hp⟩ hd hi, h.isInitialized⟩

/-- The answer to `SetConfiguration`: the driver gets its endpoints. -/
theorem Asking.third_completed (h : Asking s 3 (configureRequest v)) (hs : Serves s.dev w)
    (hi : s.issued = requests v) (hp : s.pending = [])
    (hdone : s.OnControlCompleted (setConfiguration v) len r u) :
    Ready u w ∧ u.issued = requests v ∨ Asking u 3 (configureRequest v) ∧ Serves u.dev w ∧ u.issued = requests v := by
  rw [System.OnControlCompleted, if_neg (Bool.eq_false_iff.mp h.isInitialized),
    if_neg (by rw [h.initializePhase]; decide), if_neg (by rw [h.initializePhase]; decide),
    if_pos h.initializePhase] at hdone
  split at hdone
  next =>
    obtain ⟨u', hloop, heq⟩ := Option.map_eq_some_iff.mp hdone
    have hnew : s.drivers w = .init := congrFun h.drivers w
    obtain ⟨d, rfl, hassigned⟩ := setEndpoints (l := []) hs (fun j hj => List.mem_range.mp hj) hloop
      (by rw [hnew]; exact ⟨rfl, rfl, rfl, rfl, .inl rfl⟩)
    obtain ⟨rfl, rfl⟩ := Prod.mk.inj heq
    have hself : Function.update s.drivers w d w = d := Function.update_self _ _ _
    have hassigned' : Assigned s.dev d (List.range s.dev.numEpConfigs) := hassigned
    refine .inl ⟨⟨.inl h.portConfigPhase, rfl, ⟨hs.only, hs.endpoint⟩, h.transferRings, h.eventWaiters, ?_, ?_,
      h.reports, hp⟩, hi⟩
    · change Assigned _ (Function.update s.drivers w d w) _
      rw [hself]
      exact ⟨hassigned'.1, hassigned'.2, hassigned'.3, hassigned'.4, hassigned'.5⟩
    · intro w' hw'
      exact (Function.update_of_ne hw' _ _).trans (congrFun h.drivers w')
  next =>
    obtain ⟨rfl, rfl⟩ := Prod.mk.inj hdone
    exact .inr ⟨⟨h.1, h.2, h.3, h.4, h.5, h.6, h.7, .inl hp⟩, hs, hi⟩

/-! ### The rings of the endpoints -/

theorem Ready.configureEndpoints (h : Ready s w) {portSpeed : ℕ} (hu : s.configureEndpoints portSpeed = some u) :
    Ready u w ∧ u.issued = s.issued := by
  rw [System.configureEndpoints] at hu
  split at hu
  next =>
    obtain rfl := Option.some.inj hu
    exact ⟨h, rfl⟩
  next =>
    obtain ⟨u', hloop, rfl⟩ := Option.map_eq_some_iff.mp hu
    obtain ⟨rings, rfl, hkeep, hset⟩ := allocTransferRings hloop
    exact ⟨⟨.inr ⟨rfl, fun i hi => hset i (List.mem_range.mpr hi)⟩, h.isInitialized, h.serves,
      hkeep _ h.transferRings, h.eventWaiters, h.driver, h.others, h.reports, h.pending⟩, rfl⟩

/-- The endpoints are configured: the driver asks for the boot protocol. -/
theorem Ready.completeConfiguration (h : Ready s w) (hi : s.issued = requests v)
    (hphase : s.portConfigPhase = .configuringEndpoints) : Polling s.completeConfiguration v w := by
  obtain ⟨m, d, heq, hm, hhas, phase, hold, rfl⟩ := onEndpointsConfigured_spec (l := List.range 16) h.serves
    h.transferRings (by rw [h.eventWaiters]; exact Waiting.empty w)
  have hself : Function.update s.drivers w { s.drivers w with initializePhase := phase } w =
    { s.drivers w with initializePhase := phase } := Function.update_self _ _ _
  have hnot2 : phase ≠ 2 := by
    rcases hold with rfl | rfl
    · rw [h.driver.initializePhase]
      decide
    · decide
  rw [System.completeConfiguration, heq]
  refine ⟨rfl, h.isInitialized, h.serves, ?_, hm, fun hmem => hhas (.inr ?_), fun hmem => ?_, ?_, ?_, ?_, ?_, ?_,
    ?_, 0, ?_, .inl ?_⟩
  · rcases h.portConfigPhase with hinit | ⟨-, hrings⟩
    · rw [hphase] at hinit
      cases hinit
    · exact hrings
  · rcases List.mem_append.mp hmem with hmem | hmem
    · rw [h.pending] at hmem
      cases hmem
    · exact Nat.pos_of_ne_zero (List.mem_replicate.mp hmem).1
  · rcases List.mem_append.mp hmem with hmem | hmem
    · rw [h.pending] at hmem
      cases hmem
    · cases List.eq_of_mem_replicate hmem
  · simp only [System.setDriver, hself]
    exact h.driver.epInterruptIn
  · simp only [System.setDriver, hself, h.reports]
    exact h.driver.received
  · simp only [System.setDriver, hself, h.reports]
    exact h.driver.buf
  · simp only [System.setDriver, hself, h.reports]
    exact h.driver.previousBuf
  · intro w' hw'
    simp only [System.setDriver, Function.update_of_ne hw', h.others w' hw']
  · intro t ht
    rcases List.mem_append.mp ht with ht | ht
    · rw [h.pending] at ht
      cases ht
    · exact .inl (List.eq_of_mem_replicate ht)
  · rw [List.replicate_zero, List.append_nil, ← hi]
    rfl
  · simp only [System.setDriver, hself]
    refine ⟨hnot2, trivial, h.reports, List.countP_eq_zero.mpr fun t ht => ?_⟩
    rw [h.pending, List.nil_append] at ht
    rw [List.eq_of_mem_replicate ht]
    exact Bool.false_ne_true

/-! ### The driver -/

theorem fills_poll : Transfer.fills w (poll s w) = true := decide_eq_true rfl

/-- The driver has a ring for its reports, if its endpoint number has one. -/
theorem Polling.ring (h : Polling s v w) {j : Fin 31} (hj : (s.drivers w).epInterruptIn.ringIndex = some j) :
    s.transferRings j = true ∧ (s.drivers w).epInterruptIn.isIn = true ∧
      s.dev.classDrivers (s.drivers w).epInterruptIn.number.toNat = some w := by
  rcases h.epInterruptIn with hnone | ⟨hin, i, hi, heq⟩
  · rw [hnone] at hj
    cases hj
  · rw [← heq] at hj ⊢
    have hlt := List.mem_range.mp hi
    exact ⟨h.transferRings i hlt j hj, heq ▸ hin, h.serves.endpoint i hlt⟩

/-- The answer to another `SetProtocol` changes nothing. -/
theorem Polling.protocol_again (h : Polling s v w) (hhas : s.eventWaiters.Has (setProtocol w))
    (hphase : (s.drivers w).initializePhase ≠ 1) (hdone : s.OnControlCompleted (setProtocol w) len r u) : u = s := by
  rw [System.OnControlCompleted, if_pos h.isInitialized, h.waiting.get hhas] at hdone
  dsimp only at hdone
  rw [System.driverOnControlCompleted, if_neg hphase] at hdone
  exact (Prod.mk.inj (Option.some.inj hdone)).2.symm

/-- The answer to `SetProtocol`: the first report is asked for. -/
theorem Polling.protocol (h : Polling s v w) (hhas : s.eventWaiters.Has (setProtocol w))
    (hdone : s.OnControlCompleted (setProtocol w) len r u) : Polling u v w := by
  by_cases hphase : (s.drivers w).initializePhase = 1
  · rw [System.OnControlCompleted, if_pos h.isInitialized, h.waiting.get hhas] at hdone
    dsimp only at hdone
    rw [System.driverOnControlCompleted, if_pos hphase] at hdone
    obtain ⟨j, hj, heq⟩ := Option.map_eq_some_iff.mp hdone
    obtain ⟨-, rfl⟩ := Prod.mk.inj ((if_pos (h.ring hj).1).symm.trans heq)
    have hself : Function.update s.drivers w { s.drivers w with initializePhase := 2 } w =
      { s.drivers w with initializePhase := 2 } := Function.update_self _ _ _
    obtain ⟨m, hi, ⟨-, rfl, hreports, hcount⟩ | ⟨htwo, -⟩⟩ := h.issued
    · refine ⟨h.portConfigPhase, h.isInitialized, h.serves, h.transferRings, h.waiting, fun _ => hhas, ?_, ?_, ?_,
        ?_, ?_, ?_, ?_, 1, ?_, .inr ?_⟩
      all_goals simp only [System.setDriver, System.give, poll, hself]
      · exact fun _ => ⟨j, hj⟩
      · exact h.epInterruptIn
      · exact h.received
      · exact h.buf
      · exact h.previousBuf
      · intro w' hw'
        rw [Function.update_of_ne hw']
        exact h.others w' hw'
      · intro t ht
        rcases List.mem_append.mp ht with ht | ht
        · exact h.pending t ht
        · exact .inr (List.mem_singleton.mp ht)
      · rw [hi, List.replicate_zero, List.append_nil]
        rfl
      · have hone : (s.pending ++ [poll s w]).countP (Transfer.fills w) = 1 := by
          rw [List.countP_append, hcount, Nat.zero_add, List.countP_singleton, if_pos fills_poll]
        exact ⟨trivial, by rw [hreports]; rfl, hone.le, fun _ => hone⟩
    · rw [htwo] at hphase
      cases hphase
  · rw [h.protocol_again hhas hphase hdone]
    exact h

/-- A driver that has been handed all reports. -/
def handedDriver (d : HIDBaseDriver) (reports : List (List UInt8)) : HIDBaseDriver :=
  { d with buf := contents reports, previousBuf := contents reports, received := handed reports }

/-- A report has been handed to the driver, and the next one is asked for. -/
def System.reported (s : System) (w : HIDDriver) (i : ℕ) (bytes : List UInt8) : System :=
  { s with
    drivers := Function.update s.drivers w (handedDriver (s.drivers w) (s.reports ++ [bytes]))
    pending := s.pending.eraseIdx i ++ [poll s w]
    issued := s.issued ++ [poll s w]
    reports := s.reports ++ [bytes] }

theorem drivers_reported :
    (s.reported w i bytes).drivers w = handedDriver (s.drivers w) (s.reports ++ [bytes]) := Function.update_self _ _ _

theorem poll_reported : poll (s.reported w i bytes) w = poll s w := by
  rw [poll, drivers_reported]
  rfl

theorem Polling.onDataReceived (h : Polling s v w) :
    { s.drivers w with buf := overwrite (s.drivers w).buf bytes }.onDataReceived bytes.length =
      handedDriver (s.drivers w) (s.reports ++ [bytes]) := by
  rw [HIDBaseDriver.onDataReceived, handedDriver, handed_concat, contents_concat]
  simp only [h.buf, h.previousBuf, h.received, copyN_overwrite]

/-- What a report changes. -/
theorem Polling.onInterruptCompleted (h : Polling s v w) (hmem : poll s w ∈ s.pending)
    (hdone : ((s.finish i).receive bytes (poll s w)).onInterruptCompleted (s.drivers w).epInterruptIn bytes.length =
      some (r, u)) : u = s.reported w i bytes := by
  obtain ⟨j, hj⟩ := h.polled hmem
  obtain ⟨hring, hin, hclass⟩ := h.ring hj
  have hclass' : ((s.finish i).receive bytes (poll s w)).dev.classDrivers (s.drivers w).epInterruptIn.number.toNat =
    some w := hclass
  have hbuf : ((s.finish i).receive bytes (poll s w)).drivers w =
    { s.drivers w with buf := overwrite (s.drivers w).buf bytes } := Function.update_self _ _ _
  rw [System.onInterruptCompleted, hclass'] at hdone
  dsimp only at hdone
  rw [System.driverOnInterruptCompleted, if_pos hin, hbuf, h.onDataReceived] at hdone
  obtain ⟨j', hj', heq⟩ := Option.map_eq_some_iff.mp hdone
  obtain rfl : j = j' := Option.some.inj (hj.symm.trans hj')
  obtain ⟨-, rfl⟩ := Prod.mk.inj ((if_pos hring).symm.trans heq)
  simp only [System.reported, System.give, System.setDriver, System.receive, System.finish, poll, Function.update_idem]

/-- A driver that has been handed a report waits for the next one. -/
theorem Polling.next (h : Polling s v w) (ht : s.pending[i]? = some (poll s w)) :
    Polling (s.reported w i bytes) v w := by
  have hmem := List.mem_of_getElem? ht
  have hkept : ∀ t ∈ (s.reported w i bytes).pending, t ∈ s.pending := by
    intro t ht
    rcases List.mem_append.mp ht with ht | ht
    · exact List.mem_of_mem_eraseIdx ht
    · rw [List.mem_singleton.mp ht]
      exact hmem
  refine ⟨h.portConfigPhase, h.isInitialized, h.serves, h.transferRings, h.waiting,
    fun hp => h.waits (hkept _ hp), fun _ => ?_, ?_, ?_, ?_, ?_, fun w' hw' => ?_, fun t ht => ?_, ?_⟩
  · rw [drivers_reported]
    exact h.polled hmem
  · rw [drivers_reported]
    exact h.epInterruptIn
  · rw [drivers_reported]
    rfl
  · rw [drivers_reported]
    rfl
  · rw [drivers_reported]
    rfl
  · exact (Function.update_of_ne hw' _ _).trans (h.others w' hw')
  · rw [poll_reported]
    exact h.pending t (hkept t ht)
  · have hsame : (s.reported w i bytes).pending.countP (Transfer.fills w) =
        s.pending.countP (Transfer.fills w) := by
      rw [System.reported, List.countP_append, List.countP_singleton, countP_finish ht]
    rw [poll_reported, drivers_reported, hsame]
    obtain ⟨m, hi, ⟨-, -, -, hzero⟩ | ⟨htwo, rfl, hcount⟩⟩ := h.issued
    · exact absurd fills_poll (List.countP_eq_zero.mp hzero _ hmem)
    · refine ⟨s.reports.length + 1 + 1, ?_, .inr ⟨htwo, ?_, hcount⟩⟩
      · rw [System.reported, hi, List.append_assoc, ← List.replicate_succ']
      · rw [System.reported, List.length_append, List.length_singleton]

/-! ### Runs -/

theorem Asking.setBuf {phase : ℕ} (h : Asking s phase t) (buf : ℕ → UInt8) : Asking { s with buf := buf } phase t :=
  ⟨h.1, h.2, h.3, h.4, h.5, h.6, h.7, h.8⟩

/-- The only request is the one that has completed. -/
theorem Asking.completed {phase : ℕ} {setupData : SetupData} {dirIn : Bool}
    (h : Asking s phase (.control setupData dirIn)) (ht : s.pending[i]? = some t)
    (hdone : ((s.finish i).receive bytes t).OnCompleted len r u t) :
    ∃ buf, Asking { s.finish i with buf := buf } phase (.control setupData dirIn) ∧ (s.finish i).pending = [] ∧
      { s.finish i with buf := buf }.OnControlCompleted setupData len r u := by
  obtain ⟨rfl, hp⟩ := h.taken ht
  obtain ⟨buf, hbuf⟩ := receive_control (s := s.finish i) bytes setupData dirIn
  rw [hbuf] at hdone
  exact ⟨buf, (h.finish i s.failures).setBuf buf, hp, hdone⟩

/-- The endpoints are not configured before the device is initialized. -/
theorem stays {portSpeed : ℕ} (hu : u.isInitialized = false)
    (hs : if r = .ok () ∧ u.isInitialized ∧ u.portConfigPhase = .initializingDevice then
      u.configureEndpoints portSpeed = some s' else s' = u) : s' = u := by
  rw [if_neg fun h => Bool.eq_false_iff.mp hu h.2.1] at hs
  exact hs

theorem Polling.stays {portSpeed : ℕ} (h : Polling u v w)
    (hs : if r = .ok () ∧ u.isInitialized ∧ u.portConfigPhase = .initializingDevice then
      u.configureEndpoints portSpeed = some s' else s' = u) : s' = u := by
  have hnot : ¬ u.portConfigPhase = .initializingDevice := by
    rw [h.portConfigPhase]
    decide
  rw [if_neg fun hc => hnot hc.2.2] at hs
  exact hs

theorem Inv.completed {portSpeed : ℕ} (h : Inv s) (hstep : Step s (.completed i bytes portSpeed) s') : Inv s' := by
  obtain ⟨t, ht, -, r, u, hdone, hs'⟩ := hstep
  cases h with
  | addressing h =>
    subst h
    cases ht
  | first h hd hi =>
    obtain ⟨buf, hask, hp, hcompleted⟩ := h.completed ht hdone
    obtain ⟨hinv, hnot⟩ := hask.first_completed hd hi hp hcompleted
    exact stays hnot hs' ▸ hinv
  | second h hd hi =>
    obtain ⟨buf, hask, hp, hcompleted⟩ := h.completed ht hdone
    obtain ⟨hinv, hnot⟩ := hask.second_completed hd hi hp hcompleted
    exact stays hnot hs' ▸ hinv
  | third v w h hs hi =>
    obtain ⟨buf, hask, hp, hcompleted⟩ := h.completed ht hdone
    rcases hask.third_completed hs hi hp hcompleted with ⟨hready, hissued⟩ | ⟨hasking, hserves, hissued⟩
    · split at hs'
      next =>
        obtain ⟨hready', heq⟩ := hready.configureEndpoints hs'
        exact .ready v w hready' (heq.trans hissued)
      next => exact hs' ▸ .ready v w hready hissued
    · exact stays hasking.isInitialized hs' ▸ .third v w hasking hserves hissued
  | ready v w h hi =>
    rw [h.pending] at ht
    cases ht
  | polling v w h =>
    have hmem := List.mem_of_getElem? ht
    have hpolling : Polling u v w := by
      rcases h.pending t hmem with rfl | rfl
      · have hkept : s.pending.countP (Transfer.fills w) = (s.pending.eraseIdx i).countP (Transfer.fills w) :=
          countP_finish ht _
        have hfinish : Polling (s.finish i) v w := h.finish fun h0 => ⟨h0, hkept.symm⟩
        exact hfinish.protocol (h.waits hmem) hdone
      · obtain rfl := h.onInterruptCompleted hmem hdone
        exact h.next ht
    exact hpolling.stays hs' ▸ .polling v w hpolling

theorem Inv.completeConfiguration (h : Inv s) (hphase : s.portConfigPhase = .configuringEndpoints) :
    Inv s.completeConfiguration := by
  cases h with
  | addressing h => subst h; cases hphase
  | first h => rw [h.portConfigPhase] at hphase; cases hphase
  | second h => rw [h.portConfigPhase] at hphase; cases hphase
  | third v w h => rw [h.portConfigPhase] at hphase; cases hphase
  | ready v w h hi => exact .polling v w (h.completeConfiguration hi hphase)
  | polling v w h => rw [h.portConfigPhase] at hphase; cases hphase

/-- An event leaves the device where it is, or takes it to the next stage. -/
theorem Inv.step (h : Inv s) (hstep : Step s e s') : Inv s' := by
  cases e with
  | addressed =>
    obtain rfl := hstep
    split
    next hphase => exact h.addressed hphase
    next => exact h
  | completed i bytes portSpeed => exact h.completed hstep
  | failed i =>
    obtain ⟨hi, rfl⟩ := hstep
    exact h.failed hi
  | configured =>
    obtain rfl := hstep
    split
    next hphase => exact h.completeConfiguration hphase
    next => exact h

theorem Reachable.inv (h : Reachable s) : Inv s := by
  induction h with
  | init => exact .addressing rfl
  | step _ hstep ih => exact ih.step hstep

theorem Asking.countP_le {phase : ℕ} (h : Asking s phase t) (p : Transfer → Bool) : s.pending.countP p ≤ 1 := by
  rcases h.pending with hp | hp
  · rw [hp]
    exact Nat.zero_le 1
  · rw [hp]
    exact List.countP_le_length

/-- What there is to say of a device that has no report yet. -/
theorem of_no_report (hi : s.issued <+: requests v) (hp : ∀ p : Transfer → Bool, s.pending.countP p ≤ 1)
    (hreports : s.reports = []) (hd : ∀ w, (s.drivers w).received = [] ∧ (s.drivers w).initializePhase = 0)
    (w : HIDDriver) : Conversing s v w := by
  refine ⟨?_, hp _, hp _, ?_, fun w' _ => (hd w').1, fun _ htwo => nomatch (hd w).2.symm.trans htwo⟩
  · rw [conversation, List.append_assoc]
    exact hi.trans (List.prefix_append _ _)
  · rw [hreports, (hd w).1]
    rfl

/-- **Whatever completes or fails, in any order**, the requests are sent in order, a buffer is written by one transfer
at a time, and the driver is handed each report with the one before it. As long as nothing fails, there is a transfer
for the next one. -/
theorem enumerated (h : Reachable s) : ∃ v w, Conversing s v w := by
  cases h.inv with
  | addressing h =>
    subst h
    exact ⟨0, .keyboard 0, of_no_report (s := .init) List.nil_prefix (fun _ => Nat.zero_le 1) rfl
      (fun _ => ⟨rfl, rfl⟩) _⟩
  | first h hd hi =>
    refine ⟨0, .keyboard 0, of_no_report ?_ h.countP_le h.reports (fun w => by rw [h.drivers]; exact ⟨rfl, rfl⟩) _⟩
    rw [hi]
    exact ⟨_, rfl⟩
  | second h hd hi =>
    refine ⟨0, .keyboard 0, of_no_report ?_ h.countP_le h.reports (fun w => by rw [h.drivers]; exact ⟨rfl, rfl⟩) _⟩
    rw [hi]
    exact ⟨_, rfl⟩
  | third v w h hs hi =>
    exact ⟨v, w, of_no_report (hi ▸ List.prefix_rfl) h.countP_le h.reports
      (fun w => by rw [h.drivers]; exact ⟨rfl, rfl⟩) w⟩
  | ready v w h hi =>
    refine ⟨v, w, of_no_report (hi ▸ List.prefix_rfl) (fun p => by rw [h.pending]; exact Nat.zero_le 1) h.reports
      (fun w' => ?_) w⟩
    by_cases hw : w' = w
    · rw [hw]
      exact ⟨h.driver.received, h.driver.initializePhase⟩
    · rw [h.others w' hw]
      exact ⟨rfl, rfl⟩
  | polling v w h =>
    obtain ⟨m, hi, hm⟩ := h.issued
    refine ⟨v, w, ?_, ?_, ?_, h.received, fun w' hw' => by rw [h.others w' hw']; rfl, fun h0 htwo => ?_⟩
    · rw [hi, conversation, List.prefix_append_right_inj]
      rcases hm with ⟨-, rfl, -⟩ | ⟨-, rfl, -⟩
      · exact List.nil_prefix
      · exact List.prefix_rfl
    · rw [List.countP_eq_zero.mpr]
      · exact Nat.zero_le 1
      · intro t ht
        rcases h.pending t ht with rfl | rfl <;> exact Bool.false_ne_true
    · rcases hm with ⟨-, -, -, hzero⟩ | ⟨-, -, hle, -⟩
      · exact hzero.le.trans (Nat.zero_le 1)
      · exact hle
    · rcases hm with ⟨hnot, -⟩ | ⟨-, -, -, hone⟩
      · exact absurd htwo hnot
      · exact hone h0

/-- A configuration descriptor with a keyboard and its endpoint. -/
def keyboardDescriptor : List UInt8 :=
  [9, 2, 25, 0, 1, 1, 0, 160, 50, 9, 4, 0, 0, 1, 3, 1, 1, 0, 7, 5, 129, 3, 8, 0, 10]

/-- A keyboard is enumerated, and sends a report. -/
theorem reachable_keyboard : ∃ s, Reachable s ∧ s.reports = [[0, 0, 4]] ∧ s.pending = [poll s (.keyboard 0)] ∧
    (s.drivers (.keyboard 0)).initializePhase = 2 := by
  refine ⟨?s, ?_, ?_⟩
  case refine_1 =>
    apply Reachable.step (e := .completed 0 [0, 0, 4] 1)
    apply Reachable.step (e := .completed 0 [] 1)
    apply Reachable.step (e := .configured)
    apply Reachable.step (e := .completed 0 [] 1)
    apply Reachable.step (e := .completed 0 keyboardDescriptor 1)
    apply Reachable.step (e := .completed 0 [18, 1] 1)
    apply Reachable.step (e := .addressed)
    · exact .init
    · exact rfl
    · exact ⟨_, rfl, by decide, _, _, rfl, rfl⟩
    · exact ⟨_, rfl, by decide, _, _, ⟨_, _, .goOn rfl (.goOn rfl (.done rfl)), rfl⟩, rfl⟩
    · exact ⟨_, rfl, by decide, _, _, rfl, rfl⟩
    · exact rfl
    · exact ⟨_, rfl, by decide, _, _, rfl, rfl⟩
    · refine ⟨_, rfl, by decide, _, _, rfl, ?_⟩
      rw [if_neg fun h => ?_]
      exact nomatch (show ConfigPhase.configured = ConfigPhase.initializingDevice from h.2.2)
  case refine_2 => exact ⟨rfl, rfl, rfl⟩

theorem enumerated_keyboard : ∃ s, s.reports = [[0, 0, 4]] ∧ s.pending = [poll s (.keyboard 0)] ∧
    ∃ v w, Conversing s v w := by
  obtain ⟨s, h, hreports, hpending, -⟩ := reachable_keyboard
  exact ⟨s, hreports, hpending, enumerated h⟩

/-- The driver waits for a report that no transfer will bring. -/
structure Lost (s : System) (v : UInt8) (w : HIDDriver) : Prop where
  polling : Polling s v w
  initializePhase : (s.drivers w).initializePhase = 2
  pending : s.pending.countP (Transfer.fills w) = 0

theorem Lost.finish (h : Lost s v w) {n : ℕ} (hn : n = 0 → s.failures = 0) :
    Lost { s.finish i with failures := n } v w := by
  have hnone : (s.pending.eraseIdx i).countP (Transfer.fills w) = 0 :=
    Nat.le_zero.mp ((List.eraseIdx_sublist _ _).countP_le.trans h.pending.le)
  exact ⟨h.polling.finish fun h0 => ⟨hn h0, hnone.trans h.pending.symm⟩, h.initializePhase, hnone⟩

theorem Lost.step (h : Lost s v w) (hstep : Step s e s') : Lost s' v w ∧ s'.reports = s.reports := by
  have hphase := h.polling.portConfigPhase
  cases e with
  | addressed =>
    obtain rfl := hstep
    rw [if_neg (by rw [hphase]; decide)]
    exact ⟨h, rfl⟩
  | completed i bytes portSpeed =>
    obtain ⟨t, ht, -, r, u, hdone, hs'⟩ := hstep
    have hmem := List.mem_of_getElem? ht
    have hfinish : Lost (s.finish i) v w := h.finish id
    rcases h.polling.pending t hmem with rfl | rfl
    · obtain rfl := hfinish.polling.protocol_again (h.polling.waits hmem)
        (by rw [hfinish.initializePhase]; decide) hdone
      exact hfinish.polling.stays hs' ▸ ⟨hfinish, rfl⟩
    · exact absurd fills_poll (List.countP_eq_zero.mp h.pending _ hmem)
  | failed i =>
    obtain ⟨-, rfl⟩ := hstep
    exact ⟨h.finish fun hn => absurd hn (Nat.succ_ne_zero _), rfl⟩
  | configured =>
    obtain rfl := hstep
    rw [if_neg (by rw [hphase]; decide)]
    exact ⟨h, rfl⟩

/-- A driver that has asked for a report is polling. -/
theorem Inv.polling_of_phase (h : Inv s) (htwo : (s.drivers w).initializePhase = 2) : ∃ v, Polling s v w := by
  have hinit : s.drivers w ≠ .init := by
    intro hinit
    rw [hinit] at htwo
    cases htwo
  cases h with
  | addressing h => exact absurd (h ▸ rfl) hinit
  | first h => exact absurd (congrFun h.drivers w) hinit
  | second h => exact absurd (congrFun h.drivers w) hinit
  | third v w' h => exact absurd (congrFun h.drivers w) hinit
  | ready v w' h =>
    by_cases hw : w = w'
    · subst hw
      exact nomatch h.driver.initializePhase.symm.trans htwo
    · exact absurd (h.others w hw) hinit
  | polling v w' h =>
    by_cases hw : w = w'
    · exact ⟨v, hw ▸ h⟩
    · exact absurd (h.others w hw) hinit

/-- **A transfer that fails is not tried again**: no report comes any more, whatever happens, and the driver is not
called. -/
theorem lost (h : Reachable s) (htwo : (s.drivers w).initializePhase = 2)
    (hlost : s.pending.countP (Transfer.fills w) = 0)
    (hrun : Relation.ReflTransGen (fun s s' => ∃ e, Step s e s') s s') :
    s'.reports = s.reports ∧ (s'.drivers w).received = (s.drivers w).received := by
  obtain ⟨v, hpolling⟩ := h.inv.polling_of_phase htwo
  have hall : Lost s' v w ∧ s'.reports = s.reports := by
    induction hrun with
    | refl => exact ⟨⟨hpolling, htwo, hlost⟩, rfl⟩
    | tail _ hstep ih =>
      obtain ⟨e, hstep⟩ := hstep
      obtain ⟨hkept, heq⟩ := ih.1.step hstep
      exact ⟨hkept, heq.trans ih.2⟩
  exact ⟨hall.2, by rw [hall.1.polling.received, hpolling.received, hall.2]⟩

/-- The keyboard's transfer fails, and the endpoints are configured again. -/
theorem lost_keyboard : ∃ s s' : System, s.reports = [[0, 0, 4]] ∧ s.pending = [] ∧ Step s .configured s' ∧
    s'.reports = s.reports ∧ (s'.drivers (.keyboard 0)).received = (s.drivers (.keyboard 0)).received := by
  obtain ⟨s, h, hreports, hpending, htwo⟩ := reachable_keyboard
  have hnone : (s.finish 0).pending = [] := by rw [System.finish, hpending]; rfl
  have hfailed : Step s (.failed 0) { s.finish 0 with failures := s.failures + 1 } :=
    ⟨by rw [hpending]; exact Nat.one_pos, rfl⟩
  refine ⟨{ s.finish 0 with failures := s.failures + 1 }, _, hreports, hnone, rfl, ?_⟩
  exact lost (w := .keyboard 0) (h.step hfailed) htwo (by rw [hnone]; rfl) (.single ⟨.configured, rfl⟩)

end DuvuvurKernel.Usb.Enumeration
