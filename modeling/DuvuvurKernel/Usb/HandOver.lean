import DuvuvurKernel.Usb.PortAddressing

/-!
# Handing the turn over

`usb/xhci/xhci.cpp`, the ports in `kWaitingAddressed`. When the port being served has its
address, the first port that waits is reset in its place. `ResetPort` succeeds on a
port that is no longer connected and does nothing, and no other port is tried.

## The model

That of `PortAddressing`. `HandsOver` is the condition on one event: if it ends the turn
of a port, the first port that waits is connected. `WaitingServed` is the invariant: when no
port is served, none waits.

**Result** (`none_stranded`): in a run whose events all hand over, no port is left waiting when
none is served. Otherwise a port that is connected may be (`port_stranded`).
-/

namespace DuvuvurKernel.Usb

namespace Controller

variable {c : Controller} {hw : Hardware} {port : PortNum} {slotID : SlotID}

/-- The first port that waits. -/
def firstWaiting (c : Controller) : Option PortNum :=
  (List.finRange 256).find? fun i => c.portConfigPhase i = .waitingAddressed

/-- The completion of an address device command for the slot ends the turn of the port being served. -/
def EndsTurn (c : Controller) (hw : Hardware) (slotID : SlotID) : Prop :=
  c.findBySlot slotID ∧ hw.rootHubPortNum slotID = c.addressingPort ∧
    c.portConfigPhase c.addressingPort = .addressingDevice

instance (c : Controller) (hw : Hardware) (slotID : SlotID) : Decidable (c.EndsTurn hw slotID) :=
  inferInstanceAs (Decidable (_ ∧ _))

/-- If the event ends the turn of a port, the first port that waits is connected. -/
def HandsOver (c : Controller) (hw : Hardware) : Event → Prop
  | .commandCompletion issuerType slotID =>
    issuerType = addressDeviceCommandType → c.EndsTurn hw slotID →
      c.firstWaiting.all fun i => (hw.portsc i).currentConnectStatus
  | _ => True

instance (c : Controller) (hw : Hardware) : (e : Event) → Decidable (c.HandsOver hw e)
  | .commandCompletion _ _ => inferInstanceAs (Decidable (_ → _ → _))
  | .portStatusChange _ | .transfer _ | .other => .isTrue trivial

/-- All events of a run hand over. -/
def AllHandOver (c : Controller) : List (Hardware × Event) → Prop
  | [] => True
  | (hw, e) :: es => c.HandsOver hw e ∧ (c.processEvent hw e).2.AllHandOver es

instance decidableAllHandOver (c : Controller) : (es : List (Hardware × Event)) → Decidable (c.AllHandOver es)
  | [] => .isTrue trivial
  | (hw, e) :: es => @instDecidableAnd _ _ _ (decidableAllHandOver (c.processEvent hw e).2 es)

/-- When no port is served, none waits. -/
def WaitingServed (c : Controller) : Prop := c.addressingPort.val = 0 → ∀ p, c.portConfigPhase p ≠ .waitingAddressed

/-! ### The handlers -/

namespace WaitingServed

theorem initial : WaitingServed initial := by
  intro _ p
  exact nofun

/-- A port may go on to another phase than waiting. -/
theorem setPhase (h : c.WaitingServed) {phase : ConfigPhase} (hphase : phase ≠ .waitingAddressed) :
    (c.setPhase port phase).WaitingServed := by
  intro hz p
  rw [setPhase_portConfigPhase]
  by_cases e : p = port
  · rw [e, Function.update_self]
    exact hphase
  · rw [Function.update_of_ne e]
    exact h hz p

theorem push (h : c.WaitingServed) (cmd : Command) : (c.push cmd).WaitingServed := h

theorem allocDevice (h : c.WaitingServed) (hw : Hardware) (slotID : SlotID) :
    (c.allocDevice hw slotID).WaitingServed := by
  unfold WaitingServed
  rw [allocDevice_addressingPort, allocDevice_portConfigPhase]
  exact h

/-- `ResetPort` makes a port wait only if another is served. -/
theorem resetPort (h : c.WaitingServed) (hw : Hardware) (h0 : port ≠ 0) : (c.resetPort hw port).2.WaitingServed := by
  obtain e | ⟨hne, e⟩ | ⟨-, e⟩ | ⟨-, e⟩ := c.resetPort_cases hw port
  · rw [e]
    exact h
  · rw [e]
    intro hz
    exact absurd (Fin.ext hz) hne
  · rw [e]
    exact h
  · rw [e]
    intro hz
    exact absurd (Fin.ext hz) h0

theorem enableSlot (h : c.WaitingServed) : (c.enableSlot hw port).2.WaitingServed := by
  unfold Controller.enableSlot
  split
  next =>
    have hs : (c.setPhase port .enablingSlot).WaitingServed := h.setPhase (by simp)
    exact hs.push _
  next => exact h

theorem addressDevice (h : c.WaitingServed) : (c.addressDevice hw port slotID).2.WaitingServed := by
  simp only [Controller.addressDevice]
  split
  next => exact h.allocDevice hw slotID
  next =>
    have hs : ((c.allocDevice hw slotID).setPhase port .addressingDevice).WaitingServed :=
      (h.allocDevice hw slotID).setPhase (by simp)
    exact hs.push _

theorem initializeDevice (h : c.WaitingServed) : (c.initializeDevice port slotID).2.WaitingServed := by
  unfold Controller.initializeDevice
  split
  next => exact h
  next => exact h.setPhase (by simp)

theorem configureEndpoints (h : c.WaitingServed) : (c.configureEndpoints hw slotID).2.WaitingServed := by
  simp only [Controller.configureEndpoints]
  split
  next => exact h
  next =>
    have hs : (c.setPhase (hw.rootHubPortNum slotID) .configuringEndpoints).WaitingServed := h.setPhase (by simp)
    exact hs.push _

theorem completeConfiguration (h : c.WaitingServed) : (c.completeConfiguration port slotID).2.WaitingServed := by
  unfold Controller.completeConfiguration
  split
  next => exact h
  next => exact h.setPhase (by simp)

/-- The first port that waits, if it is connected, is the next to be served. -/
theorem resetWaiting (hz : c.addressingPort = 0) (hzero : c.portConfigPhase 0 = .notConnected)
    (hconnected : ∀ i ∈ c.firstWaiting, (hw.portsc i).currentConnectStatus) :
    (c.resetWaiting hw).2.WaitingServed := by
  unfold Controller.resetWaiting
  split
  next i hi =>
    have hwaits : c.portConfigPhase i = .waitingAddressed := by simpa using List.find?_some hi
    have h0 : i ≠ 0 := by
      rintro rfl
      rw [hzero] at hwaits
      cases hwaits
    have hreset : c.resetPort hw i = (.ok (), { c with addressingPort := i }.setPhase i .resettingPort) := by
      unfold Controller.resetPort
      rw [if_neg (not_not.mpr (hconnected i hi)), if_neg (not_not.mpr hz), if_neg fun hc => hc.2 hwaits]
    rw [hreset]
    intro hi0
    exact absurd (Fin.ext hi0) h0
  next hnone =>
    intro _ p hp
    exact List.find?_eq_none.mp hnone p (List.mem_finRange p) (decide_eq_true hp)

theorem finishAddressing (hzero : c.portConfigPhase 0 = .notConnected)
    (hconnected : ∀ i ∈ c.firstWaiting, (hw.portsc i).currentConnectStatus) :
    (c.finishAddressing hw port slotID).2.WaitingServed := by
  have h := resetWaiting (c := { c with addressingPort := 0 }) rfl hzero hconnected
  unfold Controller.finishAddressing
  split
  next e c' he =>
    rw [he] at h
    exact h
  next c' he =>
    rw [he] at h
    exact h.initializeDevice

/-! ### Events -/

theorem onPortStatusChange (h : c.WaitingServed) (portID : Port) :
    (c.onPortStatusChange hw portID).2.WaitingServed := by
  unfold Controller.onPortStatusChange
  split
  next => exact h.resetPort hw portID.2
  next => exact h.enableSlot
  next => exact h

theorem onTransfer (h : c.WaitingServed) : (c.onTransfer hw slotID).2.WaitingServed := by
  unfold Controller.onTransfer
  split
  next => exact h
  next =>
    split
    next => exact h
    next =>
      split
      next => exact h.configureEndpoints
      next => exact h

theorem onCommandCompletion (h : c.WaitingServed) (hzero : c.portConfigPhase 0 = .notConnected) {issuerType : ℕ}
    (hover : c.HandsOver hw (.commandCompletion issuerType slotID)) :
    (c.onCommandCompletion hw issuerType slotID).2.WaitingServed := by
  simp only [Controller.onCommandCompletion]
  split
  next =>
    split
    next => exact h
    next => exact h.addressDevice
  next =>
    split
    next htype =>
      split
      next => exact h
      next hs =>
        split
        next => exact h
        next ha =>
          split
          next => exact h
          next hp =>
            rw [not_not] at hs ha hp
            have hends : c.EndsTurn hw slotID := ⟨hs, ha, ha ▸ hp⟩
            exact finishAddressing hzero fun i hi => (Option.all_eq_true _ _).mp (hover htype hends) i hi
    next =>
      split
      next =>
        split
        next => exact h
        next =>
          split
          next => exact h
          next => exact h.completeConfiguration
      next => exact h

/-- An event that hands over keeps the invariant. -/
theorem processEvent (h : c.WaitingServed) (hzero : c.portConfigPhase 0 = .notConnected) {e : Event}
    (hover : c.HandsOver hw e) : (c.processEvent hw e).2.WaitingServed := by
  cases e with
  | portStatusChange portID => exact h.onPortStatusChange portID
  | transfer slotID => exact h.onTransfer
  | commandCompletion issuerType slotID => exact h.onCommandCompletion hzero hover
  | other => exact h

theorem processEvents (h : c.WaitingServed) (hex : c.Exclusive) {es : List (Hardware × Event)}
    (hover : c.AllHandOver es) :
    (c.processEvents es).WaitingServed := by
  induction es generalizing c with
  | nil => exact h
  | cons e es ih => exact ih (h.processEvent hex.zero hover.1) (hex.processEvent e.2) hover.2

theorem configurePorts (h : c.WaitingServed) (seen : Port → Bool × Hardware) (ports : List Port) :
    (c.configurePorts seen ports).WaitingServed := by
  induction ports generalizing c with
  | nil => exact h
  | cons port ports ih =>
    apply ih
    split
    next =>
      unfold configurePort
      split
      next => exact h.resetPort (seen port).2 port.2
      next => exact h
    next => exact h

end WaitingServed

/-- What holds of the events of a run holds of those at its start. -/
theorem AllHandOver.of_append {es es' : List (Hardware × Event)} (h : c.AllHandOver (es ++ es')) :
    c.AllHandOver es := by
  induction es generalizing c with
  | nil => exact trivial
  | cons e es ih => exact ⟨h.1, ih h.2⟩

/-- **No port is stranded** in a run whose events all hand over: after each of them, if no port is served, none
that is connected waits. -/
theorem none_stranded (seen : Port → Bool × Hardware) (maxPorts : PortNum) (es : List (Hardware × Event))
    (hover : (initializeXHCI seen maxPorts).AllHandOver es) (before after : List (Hardware × Event)) (hw : Hardware)
    (e : Event) (hes : es = before ++ (hw, e) :: after) :
    ((initializeXHCI seen maxPorts).processEvents (before ++ [(hw, e)])).addressingPort = 0 →
      ∀ p, (hw.portsc p).currentConnectStatus →
        ((initializeXHCI seen maxPorts).processEvents (before ++ [(hw, e)])).portConfigPhase p ≠ .waitingAddressed := by
  have hover' : (initializeXHCI seen maxPorts).AllHandOver (before ++ [(hw, e)]) := by
    rw [hes, List.append_cons] at hover
    exact hover.of_append
  have hinit : (initializeXHCI seen maxPorts).WaitingServed := WaitingServed.initial.configurePorts seen _
  have hex : (initializeXHCI seen maxPorts).Exclusive := ExclusiveBut.initial.configurePorts seen _
  intro hz p _
  exact hinit.processEvents hex hover' (congrArg Fin.val hz) p

/-! ### A port left waiting -/

/-- Hardware on which the ports `connected` are connected and enabled, and reset has just been done. The device
of each slot is at the port of the same number. -/
def someConnected (connected : List PortNum) : Hardware where
  portsc p := ⟨p ∈ connected, true, true, ⟨3, by decide⟩⟩
  rootHubPortNum slotID := slotID
  onTransferEventReceived := .ok ()
  isInitialized := false
  allocated := true

/-- A port is served until its device has a slot. -/
def serve (hw : Hardware) (port : Port) : List (Hardware × Event) :=
  [(hw, .portStatusChange port), (hw, .commandCompletion enableSlotCommandType port)]

/-- The port's device has an address. -/
def addressed (hw : Hardware) (port : Port) : Hardware × Event := (hw, .commandCompletion addressDeviceCommandType port)

/-- Port 1. -/
def portOne : Port := ⟨⟨1, by decide⟩, by decide⟩

/-- Port 2. -/
def portTwo : Port := ⟨⟨2, by decide⟩, by decide⟩

/-- Ports 1 and 2 are served one after the other. -/
theorem none_stranded_two : ∃ c :
    Controller, c = (initializeXHCI (fun _ => (true, someConnected [1, 2])) 2).processEvents
      ((serve (someConnected [1, 2]) portOne ++ [addressed (someConnected [1, 2]) portOne] ++
        serve (someConnected [1, 2]) portTwo) ++ [addressed (someConnected [1, 2]) portTwo]) ∧
    c.addressingPort = 0 ∧ ∀ p, ((someConnected [1, 2]).portsc p).currentConnectStatus →
        c.portConfigPhase p ≠ .waitingAddressed := by
  have hz : ((initializeXHCI (fun _ => (true, someConnected [1, 2])) 2).processEvents
      ((serve (someConnected [1, 2]) portOne ++ [addressed (someConnected [1, 2]) portOne] ++
        serve (someConnected [1, 2]) portTwo) ++ [addressed (someConnected [1, 2]) portTwo])).addressingPort = 0 := by
    decide +kernel
  exact ⟨_, rfl, hz, none_stranded _ _ _ (by decide +kernel) _ [] _ _ rfl hz⟩

/-- Port 2 is unplugged before its turn comes: port 3 is left waiting. -/
theorem port_stranded : ∃ (seen : Port → Bool × Hardware) (maxPorts : PortNum) (before : List (Hardware × Event))
    (hw : Hardware) (e : Event),
    ((initializeXHCI seen maxPorts).processEvents (before ++ [(hw, e)])).addressingPort = 0 ∧
    (hw.portsc 3).currentConnectStatus ∧
    ((initializeXHCI seen maxPorts).processEvents (before ++ [(hw, e)])).portConfigPhase 3 = .waitingAddressed := by
  refine ⟨fun _ => (true, someConnected [1, 2, 3]), 3, serve (someConnected [1, 2, 3]) portOne, someConnected [1, 3],
    .commandCompletion addressDeviceCommandType portOne, ?_, rfl, ?_⟩
  · decide +kernel
  · decide +kernel

end Controller

end DuvuvurKernel.Usb
