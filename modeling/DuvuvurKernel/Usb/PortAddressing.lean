import DuvuvurKernel.Error
import Mathlib.Data.List.FinRange
import Mathlib.Data.Set.Insert
import Mathlib.Logic.Function.Basic

/-!
# Port addressing

`usb/xhci/xhci.cpp`: the phases of the root hub ports. From its reset until its device
has an address a port must be served alone, so a second port that is connected
meanwhile waits; `addressing_port` is the number of the port being served, or 0.

## The model

A port number and a slot number are a `uint8_t`. Ports are numbered from 1, so the number
in a port status change event is not 0. What the host controller shows at an event (its
port registers, the device contexts it writes) and what the rest of the driver answers
(whether the device has taken the transfer, whether it is initialized, whether memory was
left for a device) is a `Hardware`, another one at each event. Log output, doorbells
and the contexts handed to the host controller are left out.

**Result** (`addressing_exclusive`): at every event boundary the ports between their
reset and their address are the one in `addressing_port`, or none when it is 0.
-/

namespace DuvuvurKernel.Usb

/-- `ConfigPhase`. -/
inductive ConfigPhase where
  | notConnected
  | waitingAddressed
  | resettingPort
  | enablingSlot
  | addressingDevice
  | initializingDevice
  | configuringEndpoints
  | configured
  deriving DecidableEq, Repr

/-- The phases that only one port may be in. -/
def ConfigPhase.Addressing (ph : ConfigPhase) : Prop :=
  ph = .resettingPort ∨ ph = .enablingSlot ∨ ph = .addressingDevice

instance (ph : ConfigPhase) : Decidable ph.Addressing :=
  inferInstanceAs (Decidable (_ ∨ _))

/-- An index into `port_config_phase`, a `uint8_t`. -/
abbrev PortNum := Fin 256

/-- The number of a port. -/
abbrev Port := { p : PortNum // p ≠ 0 }

/-- A slot number, a `uint8_t`. -/
abbrev SlotID := Fin 256

instance slotIDsNeZero : @NeZero ℕ Zero.ofOfNat0 256 := ⟨Nat.succ_ne_zero 255⟩

/-- The fields of `PORTSC` that are read. -/
structure PortSC where
  /-- `current_connect_status`. -/
  currentConnectStatus : Bool
  /-- `port_enabled_disabled`. -/
  portEnabledDisabled : Bool
  /-- `port_reset_change`. -/
  portResetChange : Bool
  /-- `port_speed`. -/
  portSpeed : Fin 16

/-- What is outside the handlers, as they find it at one event. -/
structure Hardware where
  /-- The port registers. -/
  portsc : PortNum → PortSC
  /-- `root_hub_port_num` in the slot context of each device. -/
  rootHubPortNum : SlotID → PortNum
  /-- What `OnTransferEventReceived` returns. -/
  onTransferEventReceived : Except Error Unit
  /-- `IsInitialized`, of the device of the event. -/
  isInitialized : Bool
  /-- Whether `AllocArray` finds memory for a device. -/
  allocated : Bool

/-- A command pushed onto the command ring. -/
inductive Command where
  | enableSlot
  | addressDevice (slotID : SlotID)
  | configureEndpoint (slotID : SlotID)
  deriving DecidableEq, Repr

/-- What the handlers keep: `port_config_phase`, `addressing_port`, which entries of
`devices_` are set, and the commands pushed so far. -/
structure Controller where
  /-- `port_config_phase`. -/
  portConfigPhase : PortNum → ConfigPhase
  /-- `addressing_port`. -/
  addressingPort : PortNum
  /-- Whether `devices_[slot_id]` is set. -/
  devices : SlotID → Bool
  /-- The commands pushed, in order. -/
  commandRing : List Command

/-- What a handler returns, and the state it leaves behind. -/
abbrev Outcome := Except Error Unit × Controller

/-- `kDeviceSize`, the number of slots. -/
def kDeviceSize : ℕ := 8

/-- `EnableSlotCommandTRB::Type`. -/
def enableSlotCommandType : ℕ := 9

/-- `AddressDeviceCommandTRB::Type`. -/
def addressDeviceCommandType : ℕ := 11

/-- `ConfigureEndpointCommandTRB::Type`. -/
def configureEndpointCommandType : ℕ := 12

/-- `kSuperSpeedPlus`. -/
def kSuperSpeedPlus : ℕ := 5

namespace Controller

variable (c : Controller) (hw : Hardware)

/-- `port_config_phase[port] = phase`. -/
def setPhase (port : PortNum) (phase : ConfigPhase) : Controller :=
  { c with portConfigPhase := Function.update c.portConfigPhase port phase }

/-- `Ring::Push`, of the command ring. -/
def push (cmd : Command) : Controller := { c with commandRing := c.commandRing ++ [cmd] }

/-- `FindBySlot`: whether there is a device in the slot. -/
def findBySlot (slotID : SlotID) : Bool := if kDeviceSize < slotID then false else c.devices slotID

/-- `AllocDevice`; its error is not looked at. -/
def allocDevice (slotID : SlotID) : Controller :=
  if kDeviceSize < slotID then c
  else if c.devices slotID then c
  else { c with devices := Function.update c.devices slotID hw.allocated }

/-- `ResetPort`. -/
def resetPort (port : PortNum) : Outcome :=
  if ¬ (hw.portsc port).currentConnectStatus then (.ok (), c)
  else if c.addressingPort ≠ 0 then (.ok (), c.setPhase port .waitingAddressed)
  else if c.portConfigPhase port ≠ .notConnected ∧ c.portConfigPhase port ≠ .waitingAddressed then
    (.error .invalidPhase, c)
  else (.ok (), { c with addressingPort := port }.setPhase port .resettingPort)

/-- `EnableSlot`. -/
def enableSlot (port : PortNum) : Outcome :=
  if (hw.portsc port).portEnabledDisabled ∧ (hw.portsc port).portResetChange then
    (.ok (), (c.setPhase port .enablingSlot).push .enableSlot)
  else (.ok (), c)

/-- `AddressDevice`. -/
def addressDevice (portID : PortNum) (slotID : SlotID) : Outcome :=
  let c := c.allocDevice hw slotID
  if ¬ c.findBySlot slotID then (.error .invalidSlotID, c)
  else (.ok (), (c.setPhase portID .addressingDevice).push (.addressDevice slotID))

/-- `InitializeDevice`. -/
def initializeDevice (portID : PortNum) (slotID : SlotID) : Outcome :=
  if ¬ c.findBySlot slotID then (.error .invalidSlotID, c)
  else (.ok (), c.setPhase portID .initializingDevice)

/-- `ConfigureEndpoints`, of the device in a slot. -/
def configureEndpoints (slotID : SlotID) : Outcome :=
  let portID := hw.rootHubPortNum slotID
  let portSpeed := (hw.portsc portID).portSpeed
  if portSpeed.val = 0 ∨ kSuperSpeedPlus < portSpeed then (.error .unknownXHCISpeedID, c)
  else (.ok (), (c.setPhase portID .configuringEndpoints).push (.configureEndpoint slotID))

/-- `CompleteConfiguration`. -/
def completeConfiguration (portID : PortNum) (slotID : SlotID) : Outcome :=
  if ¬ c.findBySlot slotID then (.error .invalidSlotID, c)
  else (.ok (), c.setPhase portID .configured)

/-- `OnEvent`, of a port status change event. -/
def onPortStatusChange (portID : PortNum) : Outcome :=
  match c.portConfigPhase portID with
  | .notConnected => c.resetPort hw portID
  | .resettingPort => c.enableSlot hw portID
  | _ => (.error .invalidPhase, c)

/-- `OnEvent`, of a transfer event. -/
def onTransfer (slotID : SlotID) : Outcome :=
  if ¬ c.findBySlot slotID then (.error .invalidSlotID, c)
  else match hw.onTransferEventReceived with
    | .error e => (.error e, c)
    | .ok () =>
      if hw.isInitialized ∧ c.portConfigPhase (hw.rootHubPortNum slotID) = .initializingDevice then
        c.configureEndpoints hw slotID
      else (.ok (), c)

/-- The loop over `port_config_phase`: the first port that waits is reset. -/
def resetWaiting : Outcome :=
  match (List.finRange 256).find? fun i => c.portConfigPhase i = .waitingAddressed with
  | some i => c.resetPort hw i
  | none => (.ok (), c)

/-- The end of a port's turn: `addressing_port = 0`, the first port that waits is reset, and the
device is initialized. -/
def finishAddressing (portID : PortNum) (slotID : SlotID) : Outcome :=
  match { c with addressingPort := 0 }.resetWaiting hw with
  | (.error e, c) => (.error e, c)
  | (.ok (), c) => c.initializeDevice portID slotID

/-- `OnEvent`, of a command completion event. -/
def onCommandCompletion (issuerType : ℕ) (slotID : SlotID) : Outcome :=
  let portID := hw.rootHubPortNum slotID
  if issuerType = enableSlotCommandType then
    if c.portConfigPhase c.addressingPort ≠ .enablingSlot then (.error .invalidPhase, c)
    else c.addressDevice hw c.addressingPort slotID
  else if issuerType = addressDeviceCommandType then
    if ¬ c.findBySlot slotID then (.error .invalidSlotID, c)
    else if portID ≠ c.addressingPort then (.error .invalidPhase, c)
    else if c.portConfigPhase portID ≠ .addressingDevice then (.error .invalidPhase, c)
    else c.finishAddressing hw portID slotID
  else if issuerType = configureEndpointCommandType then
    if ¬ c.findBySlot slotID then (.error .invalidSlotID, c)
    else if c.portConfigPhase portID ≠ .configuringEndpoints then (.error .invalidPhase, c)
    else c.completeConfiguration portID slotID
  else (.error .invalidPhase, c)

end Controller

/-- An event TRB. -/
inductive Event where
  /-- `PortStatusChangeEventTRB`. -/
  | portStatusChange (portID : Port)
  /-- `TransferEventTRB`. -/
  | transfer (slotID : SlotID)
  /-- `CommandCompletionEventTRB`, with the type of the command it completes. -/
  | commandCompletion (issuerType : ℕ) (slotID : SlotID)
  /-- Any other TRB. -/
  | other

namespace Controller

/-- The event of `ProcessEvent`: the handler of its type. -/
def processEvent (c : Controller) (hw : Hardware) : Event → Outcome
  | .portStatusChange portID => c.onPortStatusChange hw portID
  | .transfer slotID => c.onTransfer hw slotID
  | .commandCompletion issuerType slotID => c.onCommandCompletion hw issuerType slotID
  | .other => (.error .notImplemented, c)

/-- `ProcessEvents`: an error is logged, and the next event processed. -/
def processEvents (c : Controller) : List (Hardware × Event) → Controller
  | [] => c
  | (hw, e) :: es => (c.processEvent hw e).2.processEvents es

/-- `ConfigurePort`. -/
def configurePort (c : Controller) (hw : Hardware) (port : PortNum) : Outcome :=
  if c.portConfigPhase port = .notConnected then c.resetPort hw port else (.ok (), c)

/-- The variables before `Initialize`. -/
def initial : Controller where
  portConfigPhase _ := .notConnected
  addressingPort := 0
  devices _ := false
  commandRing := []

/-- The ports from 1 to `MaxPorts`, in order. -/
def ports (maxPorts : PortNum) : List Port :=
  (List.finRange 256).filterMap fun i => if h : i ≠ 0 ∧ i ≤ maxPorts then some ⟨i, h.1⟩ else none

/-- The loop at the end of `Initialize`: a port found connected is configured, an error is logged.
What is seen of a port is whether it is connected, and then the hardware of `ConfigurePort`. -/
def configurePorts (c : Controller) (seen : Port → Bool × Hardware) : List Port → Controller
  | [] => c
  | port :: ports =>
    (if (seen port).1 then (c.configurePort (seen port).2 port).2 else c).configurePorts seen ports

/-- `Initialize`. -/
def initializeXHCI (seen : Port → Bool × Hardware) (maxPorts : PortNum) : Controller :=
  initial.configurePorts seen (ports maxPorts)

/-! ### The invariant

Inside `finishAddressing`, the port whose turn is over still has its phase when the next
one is reset. The invariant therefore leaves out such a port.
-/

/-- The ports between their reset and their address are the one being served, and no other;
nothing is said of the ports left out. -/
structure ExclusiveBut (left : Set PortNum) (c : Controller) : Prop where
  /-- The ports between their reset and their address. -/
  addressing : ∀ p ∉ left, (c.portConfigPhase p).Addressing ↔ p = c.addressingPort ∧ p ≠ 0
  /-- There is no port 0. -/
  zero : c.portConfigPhase 0 = .notConnected

/-- The invariant at an event boundary. -/
abbrev Exclusive (c : Controller) : Prop := ExclusiveBut ∅ c

variable {c : Controller} {hw : Hardware} {left : Set PortNum} {port : PortNum} {slotID : SlotID}

@[simp] theorem setPhase_portConfigPhase (phase : ConfigPhase) :
    (c.setPhase port phase).portConfigPhase = Function.update c.portConfigPhase port phase := rfl

@[simp] theorem setPhase_addressingPort (phase : ConfigPhase) :
    (c.setPhase port phase).addressingPort = c.addressingPort := rfl

@[simp] theorem push_portConfigPhase (cmd : Command) :
    (c.push cmd).portConfigPhase = c.portConfigPhase := rfl

@[simp] theorem push_addressingPort (cmd : Command) : (c.push cmd).addressingPort = c.addressingPort := rfl

@[simp] theorem allocDevice_portConfigPhase :
    (c.allocDevice hw slotID).portConfigPhase = c.portConfigPhase := by
  unfold allocDevice
  split <;> [rfl; (split <;> rfl)]

@[simp] theorem allocDevice_addressingPort :
    (c.allocDevice hw slotID).addressingPort = c.addressingPort := by
  unfold allocDevice
  split <;> [rfl; (split <;> rfl)]

namespace ExclusiveBut

theorem ne_zero (h : ExclusiveBut left c) {phase : ConfigPhase} (hp : c.portConfigPhase port = phase)
    (hn : phase ≠ .notConnected) : port ≠ 0 := by
  rintro rfl
  exact hn (hp.symm.trans h.zero)

theorem initial : Exclusive initial where
  addressing p _ := by
    constructor
    · intro h
      exact absurd h (by simp [Controller.initial, ConfigPhase.Addressing])
    · rintro ⟨h1, h2⟩
      exact absurd h1 h2
  zero := rfl

/-- Pushing a command changes no phase. -/
theorem push (h : ExclusiveBut left c) (cmd : Command) : ExclusiveBut left (c.push cmd) :=
  ⟨h.addressing, h.zero⟩

theorem allocDevice (h : ExclusiveBut left c) (hw : Hardware) (slotID : SlotID) :
    ExclusiveBut left (c.allocDevice hw slotID) := by
  constructor
  · simpa using h.addressing
  · simpa using h.zero

/-- A phase may change if the new one agrees with `addressing_port`. The port need not be left out
any more. -/
theorem setPhase (h : ExclusiveBut left c) (h0 : port ≠ 0) (phase : ConfigPhase)
    (hp : phase.Addressing ↔ port = c.addressingPort) :
    ExclusiveBut (left \ {port}) (c.setPhase port phase) := by
  constructor
  · intro p hl
    by_cases e : p = port
    · subst e
      simp [hp, h0]
    · simpa [Function.update_of_ne e] using h.addressing p fun hm => hl ⟨hm, e⟩
  · simpa [Function.update_of_ne h0.symm] using h.zero

theorem mono {left' : Set PortNum} (h : ExclusiveBut left c) (hl : left ⊆ left') : ExclusiveBut left' c :=
  ⟨fun p hp => h.addressing p fun hm => hp (hl hm), h.zero⟩

/-- `addressing_port` may change from 0 if the port it names is left out. -/
theorem serve (h : ExclusiveBut left c) (h0 : c.addressingPort = 0) (port : PortNum) :
    ExclusiveBut (insert port left) { c with addressingPort := port } := by
  constructor
  · intro p hp
    rw [Set.mem_insert_iff, not_or] at hp
    have hc := h.addressing p hp.2
    rw [h0] at hc
    simp only [hc]
    constructor
    · rintro ⟨h1, h2⟩
      exact absurd h1 h2
    · rintro ⟨h1, -⟩
      exact absurd h1 hp.1
  · exact h.zero

/-- `addressing_port` may become 0 if the port it named is left out. -/
theorem release (h : Exclusive c) : ExclusiveBut {c.addressingPort} { c with addressingPort := 0 } := by
  constructor
  · intro p hp
    have hc := h.addressing p (Set.notMem_empty p)
    simp only [hc]
    constructor
    · rintro ⟨h1, -⟩
      exact absurd h1 hp
    · rintro ⟨h1, h2⟩
      exact absurd h1 h2
  · exact h.zero

end ExclusiveBut

/-! ### The handlers -/

/-- What `ResetPort` can do. -/
theorem resetPort_cases (c : Controller) (hw : Hardware) (port : PortNum) :
    c.resetPort hw port = (.ok (), c) ∨
    (c.addressingPort ≠ 0 ∧ c.resetPort hw port = (.ok (), c.setPhase port .waitingAddressed)) ∨
    (c.portConfigPhase port ≠ .waitingAddressed ∧ c.resetPort hw port = (.error .invalidPhase, c)) ∨
    (c.addressingPort = 0 ∧
      c.resetPort hw port = (.ok (), { c with addressingPort := port }.setPhase port .resettingPort)) := by
  unfold resetPort
  split
  next => exact .inl rfl
  next =>
    split
    next h => exact .inr (.inl ⟨h, rfl⟩)
    next h =>
      split
      next hp => exact .inr (.inr (.inl ⟨hp.2, rfl⟩))
      next => exact .inr (.inr (.inr ⟨not_not.mp h, rfl⟩))

/-- `ResetPort`, of a port that is not between its reset and its address. -/
theorem ExclusiveBut.resetPort (h : ExclusiveBut left c) (hw : Hardware) (h0 : port ≠ 0) (hl : port ∉ left)
    (hp : ¬ (c.portConfigPhase port).Addressing) : ExclusiveBut left (c.resetPort hw port).2 := by
  obtain e | ⟨-, e⟩ | ⟨-, e⟩ | ⟨hz, e⟩ := c.resetPort_cases hw port
  · rw [e]
    exact h
  · rw [e]
    have hne : port ≠ c.addressingPort := fun e => hp ((h.addressing port hl).mpr ⟨e, h0⟩)
    have hs := h.setPhase h0 .waitingAddressed (by simpa [ConfigPhase.Addressing] using hne)
    exact hs.mono Set.sdiff_subset
  · rw [e]
    exact h
  · rw [e]
    have hs := (h.serve hz port).setPhase h0 .resettingPort (by simp [ConfigPhase.Addressing])
    apply hs.mono
    rw [Set.insert_sdiff_of_mem _ (Set.mem_singleton port)]
    exact Set.sdiff_subset

/-- `ResetPort` either leaves `addressing_port` alone or sets it to the port. -/
theorem resetPort_addressingPort (c : Controller) (hw : Hardware) (port : PortNum) :
    (c.resetPort hw port).2.addressingPort = c.addressingPort ∨
      (c.resetPort hw port).2.addressingPort = port := by
  obtain e | ⟨-, e⟩ | ⟨-, e⟩ | ⟨-, e⟩ := c.resetPort_cases hw port
  · exact .inl (by rw [e])
  · exact .inl (by rw [e]; rfl)
  · exact .inl (by rw [e])
  · exact .inr (by rw [e]; rfl)

theorem resetPort_findBySlot (c : Controller) (hw : Hardware) (port : PortNum) :
    (c.resetPort hw port).2.findBySlot = c.findBySlot := by
  obtain e | ⟨-, e⟩ | ⟨-, e⟩ | ⟨-, e⟩ := c.resetPort_cases hw port <;> rw [e] <;> rfl

/-- A port that waits can be reset. -/
theorem resetPort_of_waiting (hp : c.portConfigPhase port = .waitingAddressed) :
    (c.resetPort hw port).1 = .ok () := by
  obtain e | ⟨-, e⟩ | ⟨hn, -⟩ | ⟨-, e⟩ := c.resetPort_cases hw port
  · rw [e]
  · rw [e]
  · exact absurd hp hn
  · rw [e]

/-- `EnableSlot`, of the port that has been reset. -/
theorem ExclusiveBut.enableSlot (h : Exclusive c) (hp : c.portConfigPhase port = .resettingPort) :
    Exclusive (c.enableSlot hw port).2 := by
  have h0 := h.ne_zero hp nofun
  have ha := ((h.addressing port (Set.notMem_empty port)).mp (hp ▸ .inl rfl)).1
  unfold Controller.enableSlot
  split
  next =>
    refine ((h.setPhase h0 .enablingSlot ?_).mono Set.sdiff_subset).push _
    simpa [ConfigPhase.Addressing] using ha
  next => exact h

/-- `AddressDevice`, of the port that has a slot. -/
theorem ExclusiveBut.addressDevice (h : Exclusive c)
    (hp : c.portConfigPhase c.addressingPort = .enablingSlot) :
    Exclusive (c.addressDevice hw c.addressingPort slotID).2 := by
  have h0 := h.ne_zero hp nofun
  have hc := h.allocDevice hw slotID
  simp only [Controller.addressDevice]
  split
  next => exact hc
  next =>
    refine ((hc.setPhase h0 .addressingDevice ?_).mono Set.sdiff_subset).push _
    simp [ConfigPhase.Addressing]

/-- `ConfigureEndpoints`, of a device that is being initialized. -/
theorem ExclusiveBut.configureEndpoints (h : Exclusive c)
    (hp : c.portConfigPhase (hw.rootHubPortNum slotID) = .initializingDevice) :
    Exclusive (c.configureEndpoints hw slotID).2 := by
  have h0 := h.ne_zero hp nofun
  have hn := mt (h.addressing _ (Set.notMem_empty (hw.rootHubPortNum slotID))).mpr
    (by simp [hp, ConfigPhase.Addressing])
  simp only [Controller.configureEndpoints]
  split
  next => exact h
  next =>
    refine ((h.setPhase h0 .configuringEndpoints ?_).mono Set.sdiff_subset).push _
    simpa [ConfigPhase.Addressing, h0] using hn

/-- `CompleteConfiguration`, of a device whose endpoints are being configured. -/
theorem ExclusiveBut.completeConfiguration (h : Exclusive c)
    (hp : c.portConfigPhase port = .configuringEndpoints) :
    Exclusive (c.completeConfiguration port slotID).2 := by
  have h0 := h.ne_zero hp nofun
  have hn := mt (h.addressing port (Set.notMem_empty port)).mpr (by simp [hp, ConfigPhase.Addressing])
  unfold Controller.completeConfiguration
  split
  next => exact h
  next =>
    refine (h.setPhase h0 .configured ?_).mono Set.sdiff_subset
    simpa [ConfigPhase.Addressing, h0] using hn

/-- The loop over the ports, after the turn of `port`: it succeeds, and the port it resets is
another one. -/
theorem resetWaiting_spec (h : ExclusiveBut {port} c) (hw : Hardware)
    (hp : c.portConfigPhase port = .addressingDevice) (hz : c.addressingPort ≠ port) :
    (c.resetWaiting hw).1 = .ok () ∧ ExclusiveBut {port} (c.resetWaiting hw).2 ∧
      (c.resetWaiting hw).2.addressingPort ≠ port ∧ (c.resetWaiting hw).2.findBySlot = c.findBySlot := by
  unfold resetWaiting
  split
  next i hi =>
    have hi' : c.portConfigPhase i = .waitingAddressed := by simpa using List.find?_some hi
    have hne : i ≠ port := by
      rintro rfl
      rw [hp] at hi'
      cases hi'
    have hr := h.resetPort hw (h.ne_zero hi' nofun) hne (by simp [hi', ConfigPhase.Addressing])
    refine ⟨resetPort_of_waiting hi', hr, ?_, c.resetPort_findBySlot hw i⟩
    obtain e | e := c.resetPort_addressingPort hw i
    · rwa [e]
    · rwa [e]
  next => exact ⟨rfl, h, hz, rfl⟩

/-- The end of a port's turn. -/
theorem ExclusiveBut.finishAddressing (h : Exclusive c) (hs : c.findBySlot slotID = true)
    (hp : c.portConfigPhase c.addressingPort = .addressingDevice) :
    Exclusive (c.finishAddressing hw c.addressingPort slotID).2 := by
  have h0 := h.ne_zero hp nofun
  obtain ⟨h1, h2, h3, h4⟩ := resetWaiting_spec h.release hw hp h0.symm
  unfold Controller.finishAddressing
  split
  next e he =>
    rw [he] at h1
    cases h1
  next c' he =>
    rw [he] at h2 h3 h4
    have hs' : c'.findBySlot slotID = true := by
      rw [h4]
      exact hs
    simp only [initializeDevice, hs', not_true_eq_false, if_false]
    have hi := h2.setPhase h0 .initializingDevice (by simpa [ConfigPhase.Addressing] using h3.symm)
    rwa [sdiff_self] at hi

/-! ### Events -/

theorem ExclusiveBut.onPortStatusChange (h : Exclusive c) (portID : Port) :
    Exclusive (c.onPortStatusChange hw portID).2 := by
  unfold Controller.onPortStatusChange
  split
  next hp => exact h.resetPort hw portID.2 (Set.notMem_empty _) (by simp [hp, ConfigPhase.Addressing])
  next hp => exact h.enableSlot hp
  next => exact h

theorem ExclusiveBut.onTransfer (h : Exclusive c) : Exclusive (c.onTransfer hw slotID).2 := by
  unfold Controller.onTransfer
  split
  next => exact h
  next =>
    split
    next => exact h
    next =>
      split
      next hp => exact h.configureEndpoints hp.2
      next => exact h

theorem ExclusiveBut.onCommandCompletion (h : Exclusive c) (issuerType : ℕ) :
    Exclusive (c.onCommandCompletion hw issuerType slotID).2 := by
  simp only [Controller.onCommandCompletion]
  split
  next =>
    split
    next => exact h
    next hp => exact h.addressDevice (not_not.mp hp)
  next =>
    split
    next =>
      split
      next => exact h
      next hs =>
        split
        next => exact h
        next ha =>
          split
          next => exact h
          next hp =>
            rw [not_not] at ha hp hs
            rw [ha] at hp ⊢
            exact h.finishAddressing hs hp
    next =>
      split
      next =>
        split
        next => exact h
        next =>
          split
          next => exact h
          next hp => exact h.completeConfiguration (not_not.mp hp)
      next => exact h

/-- Every event keeps the invariant. -/
theorem ExclusiveBut.processEvent (h : Exclusive c) (e : Event) : Exclusive (c.processEvent hw e).2 := by
  cases e with
  | portStatusChange portID => exact h.onPortStatusChange portID
  | transfer slotID => exact h.onTransfer
  | commandCompletion issuerType slotID => exact h.onCommandCompletion issuerType
  | other => exact h

theorem ExclusiveBut.processEvents (h : Exclusive c) (es : List (Hardware × Event)) :
    Exclusive (c.processEvents es) := by
  induction es generalizing c with
  | nil => exact h
  | cons e es ih => exact ih (h.processEvent e.2)

/-- Configuring the ports that are connected at the start keeps the invariant too. -/
theorem ExclusiveBut.configurePorts (h : Exclusive c) (seen : Port → Bool × Hardware) (ports : List Port) :
    Exclusive (c.configurePorts seen ports) := by
  induction ports generalizing c with
  | nil => exact h
  | cons port ports ih =>
    apply ih
    split
    next =>
      unfold configurePort
      split
      next hp => exact h.resetPort (seen port).2 port.2 (Set.notMem_empty _) (by simp [hp, ConfigPhase.Addressing])
      next => exact h
    next => exact h

/-- **Port addressing is exclusive**: whatever ports are connected at the start and whatever events
follow, in any order and for any ports and slots, the ports between their reset and their address are
the one in `addressing_port`, or none when that is 0. -/
theorem addressing_exclusive (seen : Port → Bool × Hardware) (maxPorts : PortNum)
    (es : List (Hardware × Event)) :
    {p | (((initializeXHCI seen maxPorts).processEvents es).portConfigPhase p).Addressing} =
      if ((initializeXHCI seen maxPorts).processEvents es).addressingPort = 0 then ∅
      else {((initializeXHCI seen maxPorts).processEvents es).addressingPort} := by
  have h := (ExclusiveBut.initial.configurePorts seen (ports maxPorts)).processEvents es
  rw [← initializeXHCI] at h
  ext p
  rw [Set.mem_ofPred_eq, h.addressing p (Set.notMem_empty p)]
  split
  next hz =>
    rw [hz]
    constructor
    · rintro ⟨h1, h2⟩
      exact absurd h1 h2
    · intro hm
      cases hm
  next hz =>
    constructor
    · rintro ⟨h1, -⟩
      exact h1
    · rintro rfl
      exact ⟨rfl, hz⟩

end Controller

end DuvuvurKernel.Usb
