import DuvuvurKernel.Lib.Runs
import DuvuvurKernel.Usb.HandOver

/-!
# Command completion events

`OnEvent` of a command completion event, with the completion code that the host controller
puts in it, and the device context array, which `LoadDCBAA` writes. Entry 0 of the array
is not that of a device: it is the pointer to the scratchpad buffers.

The handler does not read the completion code. A command that has failed is handled as
one that has not: if the handler's guards let it (`Accepts`), the port moves on to its next
phase, and the slot number, 0 when Enable Slot has failed, gets a device and its entry.

**Result** (`quiet_iff`): over all events, a failed command changes no phase and allocates
no device, and entry 0 stays as it is, exactly when no failed command is accepted and no
Enable Slot command with the slot number 0.
-/

namespace DuvuvurKernel.Usb

open Lib.Runs

/-- The completion code `Success`. -/
def successCode : UInt8 := 1

/-- `CommandCompletionEventTRB`. -/
structure CommandCompletionEventTRB where
  /-- The type of the command at `command_trb_pointer`. -/
  issuerType : ℕ
  /-- `slot_id`. -/
  slotID : SlotID
  /-- `completion_code`. -/
  completionCode : UInt8

/-- An event TRB, with the fields the host controller fills in. -/
inductive EventTRB where
  | portStatusChange (portID : Port)
  | transfer (slotID : SlotID)
  | commandCompletion (trb : CommandCompletionEventTRB)
  | other

/-- An event without the fields that no handler reads. -/
def EventTRB.event : EventTRB → Event
  | portStatusChange portID => .portStatusChange portID
  | transfer slotID => .transfer slotID
  | commandCompletion trb => .commandCompletion trb.issuerType trb.slotID
  | other => .other

/-- What an entry of the device context array points to. -/
inductive ContextPointer where
  | null
  /-- The scratchpad buffers. -/
  | scratchpad
  /-- The context of the device in a slot. -/
  | device (slotID : SlotID)
  deriving DecidableEq

/-- What the handlers keep, and `device_context_pointers_`. -/
structure Driver where
  controller : Controller
  /-- `device_context_pointers_`. -/
  deviceContextPointers : SlotID → ContextPointer

namespace Driver

variable (d : Driver) (hw : Hardware)

/-- `LoadDCBAA`. -/
def loadDCBAA (slotID : SlotID) : Driver :=
  if kDeviceSize < slotID then d
  else { d with deviceContextPointers := Function.update d.deviceContextPointers slotID (.device slotID) }

/-- `AddressDevice`. -/
def addressDevice (portID : PortNum) (slotID : SlotID) : Except Error Unit × Driver :=
  let d := { d with controller := d.controller.allocDevice hw slotID }
  if ¬ d.controller.findBySlot slotID then (.error .invalidSlotID, d)
  else
    let d := d.loadDCBAA slotID
    (.ok (), { d with
      controller := (d.controller.setPhase portID .addressingDevice).push (.addressDevice slotID) })

/-- `OnEvent`, of a command completion event: its completion code is not read. -/
def onCommandCompletion (trb : CommandCompletionEventTRB) : Except Error Unit × Driver :=
  let c := d.controller
  if trb.issuerType = enableSlotCommandType then
    if c.portConfigPhase c.addressingPort ≠ .enablingSlot then (.error .invalidPhase, d)
    else d.addressDevice hw c.addressingPort trb.slotID
  else
    let (result, c) := c.onCommandCompletion hw trb.issuerType trb.slotID
    (result, { d with controller := c })

/-- `ProcessEvent`. -/
def processEvent : EventTRB → Driver
  | .commandCompletion trb => (d.onCommandCompletion hw trb).2
  | e => { d with controller := (d.controller.processEvent hw e.event).2 }

/-- A round of `ProcessEvents`: an error is logged, and the next event processed. -/
def round (d : Driver) (x : Hardware × EventTRB) : Option Driver := some (d.processEvent x.1 x.2)

variable {d : Driver} {hw : Hardware}

/-- The handlers of `xhci.cpp` do the same, but for the device context array. -/
theorem controller_processEvent (d : Driver) (hw : Hardware) (e : EventTRB) :
    (d.processEvent hw e).controller = (d.controller.processEvent hw e.event).2 := by
  cases e with
  | portStatusChange portID => rfl
  | transfer slotID => rfl
  | other => rfl
  | commandCompletion trb =>
    simp only [processEvent, onCommandCompletion, EventTRB.event, Controller.processEvent]
    by_cases htype : trb.issuerType = enableSlotCommandType
    · simp only [if_pos htype, Controller.onCommandCompletion]
      split
      · rfl
      · unfold addressDevice Controller.addressDevice loadDCBAA
        dsimp only
        split
        · rfl
        · split
          all_goals rfl
    · simp only [if_neg htype]

/-! ### What a command completion event changes -/

/-- The guards of the handler let the event. -/
def Accepted (d : Driver) (hw : Hardware) (trb : CommandCompletionEventTRB) : Prop :=
  let c := d.controller
  let portID := hw.rootHubPortNum trb.slotID
  (trb.issuerType = enableSlotCommandType ∧ c.portConfigPhase c.addressingPort = .enablingSlot ∧
    ¬ kDeviceSize < trb.slotID ∧ (c.devices trb.slotID ∨ hw.allocated)) ∨
  (trb.issuerType = addressDeviceCommandType ∧ c.findBySlot trb.slotID ∧ portID = c.addressingPort ∧
    c.portConfigPhase portID = .addressingDevice) ∨
  (trb.issuerType = configureEndpointCommandType ∧ c.findBySlot trb.slotID ∧
    c.portConfigPhase portID = .configuringEndpoints)

/-- No phase is changed and no device allocated. -/
structure Unchanged (d d' : Driver) : Prop where
  phases : d'.controller.portConfigPhase = d.controller.portConfigPhase
  devices : d'.controller.devices = d.controller.devices

theorem findBySlot_allocDevice (c : Controller) (hw : Hardware) (slotID : SlotID) :
    (c.allocDevice hw slotID).findBySlot slotID = true ↔
      ¬ kDeviceSize < slotID.val ∧ (c.devices slotID = true ∨ hw.allocated = true) := by
  unfold Controller.allocDevice Controller.findBySlot
  by_cases hslot : kDeviceSize < slotID.val
  · simp [hslot]
  · by_cases hdev : c.devices slotID = true
    · simp [hslot, hdev]
    · simp [hslot, hdev]

/-- Where no device is found after the allocation, none was allocated. -/
theorem devices_allocDevice {c : Controller} {slotID : SlotID}
    (h : ¬ (c.allocDevice hw slotID).findBySlot slotID = true) : (c.allocDevice hw slotID).devices = c.devices := by
  rw [findBySlot_allocDevice] at h
  unfold Controller.allocDevice
  split
  · rfl
  next hslot =>
    split
    · rfl
    next hdev =>
      have hnone : hw.allocated = false := by
        rw [Bool.eq_false_iff]
        exact fun ha => h ⟨hslot, .inr ha⟩
      funext s
      by_cases hs : s = slotID
      · subst hs
        simp only [Function.update_self, hnone]
        exact (Bool.eq_false_iff.mpr hdev).symm
      · exact Function.update_of_ne hs _ _

theorem addressDevice_of_found (portID : PortNum) {slotID : SlotID}
    (h : (d.controller.allocDevice hw slotID).findBySlot slotID = true) :
    (d.addressDevice hw portID slotID).2.controller.portConfigPhase =
        Function.update d.controller.portConfigPhase portID .addressingDevice ∧
      (d.addressDevice hw portID slotID).2.deviceContextPointers =
        Function.update d.deviceContextPointers slotID (.device slotID) := by
  have hslot := ((findBySlot_allocDevice d.controller hw slotID).mp h).1
  unfold addressDevice loadDCBAA
  dsimp only
  rw [if_neg (not_not_intro h), if_neg hslot]
  simp

theorem addressDevice_of_not_found {portID : PortNum} {slotID : SlotID}
    (h : ¬ (d.controller.allocDevice hw slotID).findBySlot slotID = true) :
    Unchanged d (d.addressDevice hw portID slotID).2 ∧
      (d.addressDevice hw portID slotID).2.deviceContextPointers = d.deviceContextPointers := by
  unfold addressDevice
  dsimp only
  rw [if_pos h]
  exact ⟨⟨Controller.allocDevice_portConfigPhase, devices_allocDevice h⟩, rfl⟩

/-- The port whose turn is over moves on. -/
theorem phase_finishAddressing {c : Controller} {portID : PortNum} {slotID : SlotID} (hs : c.findBySlot slotID = true) :
    (c.finishAddressing hw portID slotID).2.portConfigPhase portID = .initializingDevice := by
  have hreset : ({ c with addressingPort := 0 }.resetWaiting hw).1 = .ok () ∧
      ({ c with addressingPort := 0 }.resetWaiting hw).2.findBySlot = c.findBySlot := by
    unfold Controller.resetWaiting
    split
    next i hi =>
      have hwaiting := List.find?_some hi
      exact ⟨Controller.resetPort_of_waiting (by simpa using hwaiting),
        Controller.resetPort_findBySlot { c with addressingPort := 0 } hw i⟩
    next => exact ⟨rfl, rfl⟩
  unfold Controller.finishAddressing
  split
  next e c' he =>
    rw [he] at hreset
    cases hreset.1
  next c' he =>
    rw [he] at hreset
    unfold Controller.initializeDevice
    rw [hreset.2, if_neg (not_not_intro hs)]
    exact Function.update_self ..

/-- **An event the guards do not let changes nothing.** -/
theorem unchanged_of_not_accepted {trb : CommandCompletionEventTRB} (h : ¬ d.Accepted hw trb) :
    Unchanged d (d.onCommandCompletion hw trb).2 ∧
      (d.onCommandCompletion hw trb).2.deviceContextPointers = d.deviceContextPointers := by
  simp only [Accepted, not_or, not_and] at h
  obtain ⟨henable, haddress, hconfigure⟩ := h
  unfold onCommandCompletion
  dsimp only
  by_cases he : trb.issuerType = enableSlotCommandType
  · rw [if_pos he]
    split
    · exact ⟨⟨rfl, rfl⟩, rfl⟩
    next hphase =>
      apply addressDevice_of_not_found
      rw [findBySlot_allocDevice]
      rintro ⟨hslot, hfound⟩
      exact absurd hfound (not_or.mpr (henable he (not_not.mp hphase) hslot))
  · rw [if_neg he]
    unfold Controller.onCommandCompletion
    rw [if_neg he]
    by_cases ha : trb.issuerType = addressDeviceCommandType
    · rw [if_pos ha]
      split
      · exact ⟨⟨rfl, rfl⟩, rfl⟩
      next hfound =>
        split
        · exact ⟨⟨rfl, rfl⟩, rfl⟩
        next hport =>
          rw [if_pos (haddress ha (not_not.mp hfound) (not_not.mp hport))]
          exact ⟨⟨rfl, rfl⟩, rfl⟩
    · rw [if_neg ha]
      split
      next hc =>
        split
        · exact ⟨⟨rfl, rfl⟩, rfl⟩
        next hfound =>
          rw [if_pos (hconfigure hc (not_not.mp hfound))]
          exact ⟨⟨rfl, rfl⟩, rfl⟩
      next => exact ⟨⟨rfl, rfl⟩, rfl⟩

/-- An Enable Slot event in its phase is handled by `AddressDevice`. -/
theorem onCommandCompletion_enableSlot {trb : CommandCompletionEventTRB} (ht : trb.issuerType = enableSlotCommandType)
    (hphase : d.controller.portConfigPhase d.controller.addressingPort = .enablingSlot) :
    d.onCommandCompletion hw trb = d.addressDevice hw d.controller.addressingPort trb.slotID := by
  unfold onCommandCompletion
  dsimp only
  rw [if_pos ht, if_neg (not_not_intro hphase)]

/-- **An event the guards let moves a port on.** -/
theorem phases_of_accepted {trb : CommandCompletionEventTRB} (h : d.Accepted hw trb) :
    (d.onCommandCompletion hw trb).2.controller.portConfigPhase ≠ d.controller.portConfigPhase := by
  have hmoved : ∃ port phase, (d.onCommandCompletion hw trb).2.controller.portConfigPhase port = phase ∧
      d.controller.portConfigPhase port ≠ phase := by
    obtain ⟨he, hphase, hslot, hdev⟩ | ⟨ha, hfound, hport, hphase⟩ | ⟨hc, hfound, hphase⟩ := h
    · have hfound := (findBySlot_allocDevice d.controller hw trb.slotID).mpr ⟨hslot, hdev⟩
      refine ⟨d.controller.addressingPort, .addressingDevice, ?_, by rw [hphase]; decide⟩
      rw [onCommandCompletion_enableSlot he hphase, (addressDevice_of_found _ hfound).1]
      exact Function.update_self ..
    · refine ⟨hw.rootHubPortNum trb.slotID, .initializingDevice, ?_, by rw [hphase]; decide⟩
      unfold onCommandCompletion Controller.onCommandCompletion
      rw [if_neg (by rw [ha]; decide), if_neg (by rw [ha]; decide), if_pos ha, if_neg (not_not_intro hfound),
        if_neg (not_not_intro hport), if_neg (not_not_intro hphase)]
      exact phase_finishAddressing hfound
    · refine ⟨hw.rootHubPortNum trb.slotID, .configured, ?_, by rw [hphase]; decide⟩
      unfold onCommandCompletion Controller.onCommandCompletion Controller.completeConfiguration
      rw [if_neg (by rw [hc]; decide), if_neg (by rw [hc]; decide), if_neg (by rw [hc]; decide), if_pos hc,
        if_neg (not_not_intro hfound), if_neg (not_not_intro hphase), if_neg (not_not_intro hfound)]
      exact Function.update_self ..
  obtain ⟨port, phase, hnew, hold⟩ := hmoved
  intro heq
  exact hold (congrFun heq port ▸ hnew)

/-! ### Over all events -/

/-- A failed command changes no phase and allocates no device, and entry 0 stays as it is. -/
structure Quiet (d : Driver) (x : Hardware × EventTRB) : Prop where
  failed : ∀ trb, x.2 = .commandCompletion trb → trb.completionCode ≠ successCode →
    Unchanged d (d.processEvent x.1 x.2)
  scratchpad : (d.processEvent x.1 x.2).deviceContextPointers 0 = d.deviceContextPointers 0

/-- The handler accepts no failed command, and no Enable Slot command with the slot number 0. -/
structure Refused (d : Driver) (x : Hardware × EventTRB) : Prop where
  failed : ∀ trb, x.2 = .commandCompletion trb → trb.completionCode ≠ successCode → ¬ d.Accepted x.1 trb
  slotZero : ∀ trb, x.2 = .commandCompletion trb → trb.issuerType = enableSlotCommandType → trb.slotID = 0 →
    ¬ d.Accepted x.1 trb

/-- Entry 0 changes when an Enable Slot command with the slot number 0 is accepted, and only then. -/
theorem entry_zero (hzero : d.deviceContextPointers 0 ≠ .device 0) (trb : CommandCompletionEventTRB) :
    (d.onCommandCompletion hw trb).2.deviceContextPointers 0 = d.deviceContextPointers 0 ↔
      (trb.issuerType = enableSlotCommandType → trb.slotID = 0 → ¬ d.Accepted hw trb) := by
  by_cases ha : d.Accepted hw trb
  · by_cases he : trb.issuerType = enableSlotCommandType
    · obtain ⟨-, hphase, hslot, hdev⟩ | ⟨ht, -⟩ | ⟨ht, -⟩ := ha
      · have hfound := (findBySlot_allocDevice d.controller hw trb.slotID).mpr ⟨hslot, hdev⟩
        rw [onCommandCompletion_enableSlot he hphase, (addressDevice_of_found _ hfound).2]
        constructor
        · intro heq _ hs
          rw [hs, Function.update_self] at heq
          exact absurd heq.symm hzero
        · intro hs
          exact Function.update_of_ne (fun h0 => hs he h0.symm (.inl ⟨he, hphase, hslot, hdev⟩)) _ _
      · exact absurd (he.symm.trans ht) (by decide)
      · exact absurd (he.symm.trans ht) (by decide)
    · have hsame : (d.onCommandCompletion hw trb).2.deviceContextPointers = d.deviceContextPointers := by
        unfold onCommandCompletion
        rw [if_neg he]
      simp [hsame, he]
  · simp [(unchanged_of_not_accepted ha).2, ha]

/-- One event. -/
theorem quiet_iff_refused (hzero : d.deviceContextPointers 0 ≠ .device 0) (x : Hardware × EventTRB) :
    d.Quiet x ↔ d.Refused x := by
  obtain ⟨hw, e⟩ := x
  constructor
  · intro h
    refine ⟨?_, ?_⟩
    · rintro trb rfl hcode haccepted
      exact phases_of_accepted haccepted (h.failed trb rfl hcode).phases
    · rintro trb rfl
      exact (entry_zero hzero trb).mp h.scratchpad
  · intro h
    refine ⟨?_, ?_⟩
    · rintro trb rfl hcode
      exact (unchanged_of_not_accepted (h.failed trb rfl hcode)).1
    · cases e with
      | commandCompletion trb => exact (entry_zero hzero trb).mpr (h.slotZero trb rfl)
      | portStatusChange portID => rfl
      | transfer slotID => rfl
      | other => rfl

/-- The driver after `Initialize`: entry 0 is set if the host controller asks for scratchpad buffers. -/
def initialDriver (seen : Port → Bool × Hardware) (maxPorts : PortNum) (scratchpad : Bool) : Driver where
  controller := Controller.initializeXHCI seen maxPorts
  deviceContextPointers slotID := if slotID = 0 ∧ scratchpad then .scratchpad else .null

/-- **Failed commands have no effect, and entry 0 is never overwritten**, exactly when none of them is accepted,
and no Enable Slot command with the slot number 0 either. -/
theorem quiet_iff (seen : Port → Bool × Hardware) (maxPorts : PortNum) (scratchpad : Bool)
    (es : List (Hardware × EventTRB)) :
    Along round Quiet (initialDriver seen maxPorts scratchpad) es ↔
      Along round Refused (initialDriver seen maxPorts scratchpad) es := by
  have hinit : (initialDriver seen maxPorts scratchpad).deviceContextPointers 0 ≠ .device 0 := by
    unfold initialDriver
    dsimp only
    split
    all_goals decide
  refine Along.congr (fun d x h => quiet_iff_refused h x) (fun d x d' h hr hstep => ?_) hinit
  cases hstep
  rw [((quiet_iff_refused h x).mpr hr).scratchpad]
  exact h

/-- The host controller has no slot left for the device at port 1: No Slots Available, with the slot number 0. -/
theorem failed_command_accepted : ∃ (seen : Port → Bool × Hardware) (maxPorts : PortNum)
    (before : List (Hardware × EventTRB)) (d : Driver) (hw : Hardware) (trb : CommandCompletionEventTRB),
    run round (initialDriver seen maxPorts true) before = some d ∧ trb.completionCode ≠ successCode ∧ trb.slotID = 0 ∧
    d.controller.portConfigPhase 1 = .enablingSlot ∧ d.deviceContextPointers 0 = .scratchpad ∧
    (d.processEvent hw (.commandCompletion trb)).controller.portConfigPhase 1 = .addressingDevice ∧
    (d.processEvent hw (.commandCompletion trb)).controller.devices 0 = true ∧
    (d.processEvent hw (.commandCompletion trb)).deviceContextPointers 0 = .device 0 := by
  refine ⟨fun _ => (true, Controller.someConnected [1]), 1,
    [(Controller.someConnected [1], .portStatusChange Controller.portOne)], _, Controller.someConnected [1],
    ⟨enableSlotCommandType, 0, 9⟩, rfl, by decide, rfl, ?_, ?_, ?_, ?_, ?_⟩
  all_goals decide +kernel

end Driver

end DuvuvurKernel.Usb
