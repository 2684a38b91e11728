import DuvuvurKernel.Error
import DuvuvurKernel.Usb.ArrayMap
import DuvuvurKernel.Usb.Ring

/-!
# Control transfers

`usb/xhci/device.cpp`: `ControlIn` and `ControlOut` push the TRBs of a transfer on the ring of its endpoint, and
`OnTransferEventReceived` handles the event of a TRB that the host controller is done with. The event leads
to the last TRB of the data, or to the status TRB if there is none, and `setup_stage_map_` from there to the setup
TRB, in which the request is read again.

## The model

A `TRB*` is the ring it points into and the slot there. `Push` performs all of its stores, and the doorbell is left
out: from then on an event may come. Where an event leads to no ring, or the map to no setup TRB, there is
no result (`none`).
-/

namespace DuvuvurKernel.Usb

/-- `SetupData`. -/
structure SetupData where
  /-- `request_type.data`. -/
  requestType : BitVec 8
  request : BitVec 8
  value : BitVec 16
  index : BitVec 16
  length : BitVec 16
  deriving DecidableEq

/-- A TRB has words. -/
instance trbWordsNeZero : @NeZero ℕ Zero.ofOfNat0 4 := ⟨Nat.succ_ne_zero 3⟩

namespace TRB

/-- `NormalTRB::Type`. -/
def normalType : BitVec 6 := 1

/-- `SetupStageTRB::Type`. -/
def setupStageType : BitVec 6 := 2

/-- `DataStageTRB::Type`. -/
def dataStageType : BitVec 6 := 3

/-- `StatusStageTRB::Type`. -/
def statusStageType : BitVec 6 := 4

/-- `SetupStageTRB::kNoDataStage`. -/
def kNoDataStage : BitVec 2 := 0

/-- `SetupStageTRB::kOutDataStage`. -/
def kOutDataStage : BitVec 2 := 2

/-- `SetupStageTRB::kInDataStage`. -/
def kInDataStage : BitVec 2 := 3

/-- The last word of a TRB of a transfer: what follows `trb_type`, `trb_type`, and the ten bits before it. -/
def control (high : BitVec 16) (type : BitVec 6) (low : BitVec 10) : Word := (high ++ type) ++ low

/-- `MakeSetupStageTRB`, with `immediate_data` set and a `trb_transfer_length` of 8. -/
def makeSetupStageTRB (setupData : SetupData) (transferType : BitVec 2) : TRB :=
  ![(setupData.value ++ setupData.request) ++ setupData.requestType, setupData.length ++ setupData.index, 8,
    control (transferType.setWidth 16) setupStageType 0x40]

/-- The request in a setup TRB. -/
def setupData (trb : TRB) : SetupData where
  requestType := (trb 0).extractLsb' 0 8
  request := (trb 0).extractLsb' 8 8
  value := (trb 0).extractLsb' 16 16
  index := (trb 1).extractLsb' 0 16
  length := (trb 1).extractLsb' 16 16

/-- `MakeDataStageTRB`, with `interrupt_on_completion` set. -/
def makeDataStageTRB (buf : BitVec 64) (len : BitVec 32) (dirIn : Bool) : TRB :=
  ![buf.extractLsb' 0 32, buf.extractLsb' 32 32, (len.setWidth 17).setWidth 32,
    control ((BitVec.ofBool dirIn).setWidth 16) dataStageType 0x20]

/-- A `StatusStageTRB` with the given `direction` and `interrupt_on_completion`. -/
def statusStageTRB (direction interruptOnCompletion : Bool) : TRB :=
  ![0, 0, 0, control ((BitVec.ofBool direction).setWidth 16) statusStageType
    (if interruptOnCompletion then 0x20 else 0)]

/-- `Pointer`, of a Normal TRB or a data TRB. -/
def dataBufferPointer (trb : TRB) : BitVec 64 := trb 1 ++ trb 0

/-- `trb_transfer_length`, of a Normal TRB or a data TRB. -/
def transferLength (trb : TRB) : BitVec 17 := (trb 2).extractLsb' 0 17

end TRB

/-- A transfer ring, with its memory. -/
structure TransferRing where
  ring : Ring
  trbs : ℕ → TRB

/-- The stores are performed. -/
def storeAll (trbs : ℕ → TRB) (stores : List Store) : ℕ → TRB :=
  stores.foldl (fun trbs st => Function.update trbs st.slot (Function.update (trbs st.slot) st.i st.value)) trbs

/-- `Push`: the slot it returns, and the ring. -/
def TransferRing.push (tr : TransferRing) (data : TRB) : ℕ × TransferRing :=
  ((tr.ring.push data).1, { ring := (tr.ring.push data).2.2, trbs := storeAll tr.trbs (tr.ring.push data).2.1 })

/-- A `TRB*` into a transfer ring. -/
structure TRBPtr where
  /-- The index in `transfer_rings_`. -/
  ring : Fin 31
  /-- The index in the ring. -/
  slot : ℕ
  deriving DecidableEq

/-- `EndpointID`. -/
structure EndpointID where
  /-- `addr_`. -/
  addr : ℤ
  deriving DecidableEq

/-- `Number`. -/
def EndpointID.number (ep : EndpointID) : ℤ := ep.addr / 2

/-- `dci.value - 1`, if it is an index of `transfer_rings_`. -/
def EndpointID.ringIndex (ep : EndpointID) : Option (Fin 31) :=
  if h : (ep.addr - 1).toNat < 31 ∧ 1 ≤ ep.addr then some ⟨(ep.addr - 1).toNat, h.1⟩ else none

/-- A `ClassDriver*` that is not null. -/
abbrev ClassDriver := ℕ

/-- `Device`. -/
structure Device where
  /-- `transfer_rings_`. -/
  transferRings : Fin 31 → Option TransferRing
  /-- `setup_stage_map_`. -/
  setupStageMap : ArrayMap TRBPtr (Option TRBPtr) 16
  /-- `event_waiters_`. -/
  eventWaiters : ArrayMap SetupData (Option ClassDriver) 4

/-- `TransferEventTRB`. -/
structure TransferEventTRB where
  /-- `Pointer`. -/
  pointer : TRBPtr
  /-- `trb_transfer_length`. -/
  residualLength : BitVec 24
  completionCode : BitVec 8
  /-- `EndpointID`. -/
  endpointID : EndpointID

/-- What an event comes to. -/
inductive Reaction where
  /-- An error is returned. -/
  | error (err : Error)
  /-- `OnInterruptCompleted` is called. -/
  | onInterruptCompleted (ep : EndpointID) (buf : BitVec 64) (len : BitVec 32)
  /-- `OnControlCompleted` is called. -/
  | onControlCompleted (ep : EndpointID) (setupData : SetupData) (buf : BitVec 64) (len : BitVec 32)
  deriving DecidableEq

namespace Device

variable (d : Device)

/-- What a pointer points to. -/
def trbAt (p : TRBPtr) : Option TRB := (d.transferRings p.ring).map fun tr => tr.trbs p.slot

/-- `ControlIn` and `ControlOut` of the base class, which always succeed. -/
def addWaiter (setupData : SetupData) (issuer : Option ClassDriver) : Device :=
  match issuer with
  | some driver => { d with eventWaiters := d.eventWaiters.put setupData (some driver) }
  | none => d

/-- The pushes of a transfer: the awaited TRB, the setup TRB, and the ring. `TRBDynamicCast` yields null if the TRB
pushed is no setup TRB. -/
def pushTransfer (tr : TransferRing) (setupData : SetupData) (buf : BitVec 64) (len : BitVec 32)
    (transferType : BitVec 2) (dirIn statusDirection : Bool) : ℕ × Option ℕ × TransferRing :=
  let (setup, tr) := tr.push (TRB.makeSetupStageTRB setupData (if buf ≠ 0 then transferType else TRB.kNoDataStage))
  let cast := if (tr.trbs setup).trbType = TRB.setupStageType then some setup else none
  if buf ≠ 0 then
    let (awaited, tr) := tr.push (TRB.makeDataStageTRB buf len dirIn)
    let (_, tr) := tr.push (TRB.statusStageTRB statusDirection false)
    (awaited, cast, tr)
  else
    let (awaited, tr) := tr.push (TRB.statusStageTRB statusDirection true)
    (awaited, cast, tr)

/-- What `ControlIn` and `ControlOut` have in common. -/
def control (ep : EndpointID) (setupData : SetupData) (buf : BitVec 64) (len : BitVec 32) (issuer : Option ClassDriver)
    (transferType : BitVec 2) (dirIn statusDirection : Bool) : Option (Except Error Unit × Device) :=
  let d := d.addWaiter setupData issuer
  if ep.number < 0 ∨ 15 < ep.number then some (.error .invalidEndpointNumber, d)
  else do
    let i ← ep.ringIndex
    match d.transferRings i with
    | none => some (.error .transferRingNotSet, d)
    | some tr =>
      let (awaited, setup, tr) := pushTransfer tr setupData buf len transferType dirIn statusDirection
      some (.ok (), { d with
        transferRings := Function.update d.transferRings i (some tr)
        setupStageMap := d.setupStageMap.put ⟨i, awaited⟩ (setup.map (TRBPtr.mk i)) })

/-- `ControlIn`. The status goes the other way than the data; without data it comes in. -/
def controlIn (ep : EndpointID) (setupData : SetupData) (buf : BitVec 64) (len : BitVec 32)
    (issuer : Option ClassDriver) :
    Option (Except Error Unit × Device) :=
  d.control ep setupData buf len issuer TRB.kInDataStage true (buf = 0)

/-- `ControlOut`. -/
def controlOut (ep : EndpointID) (setupData : SetupData) (buf : BitVec 64) (len : BitVec 32)
    (issuer : Option ClassDriver) :
    Option (Except Error Unit × Device) :=
  d.control ep setupData buf len issuer TRB.kOutDataStage false true


/-- `OnTransferEventReceived`: what it comes to, and the device. -/
def onTransferEventReceived (trb : TransferEventTRB) : Option (Reaction × Device) :=
  if trb.completionCode ≠ 1 ∧ trb.completionCode ≠ 13 then some (.error .transferFailed, d)
  else do
    let issuer ← d.trbAt trb.pointer
    let length := issuer.transferLength.setWidth 32 - trb.residualLength.setWidth 32
    if issuer.trbType = TRB.normalType then
      some (.onInterruptCompleted trb.endpointID issuer.dataBufferPointer length, d)
    else match d.setupStageMap.get trb.pointer with
      | none => some (.error .noCorrespondingSetupStage, d)
      | some setup => do
        let d := { d with setupStageMap := d.setupStageMap.delete trb.pointer }
        let setup ← setup
        let setup ← d.trbAt setup
        if issuer.trbType = TRB.dataStageType then
          some (.onControlCompleted trb.endpointID setup.setupData issuer.dataBufferPointer length, d)
        else if issuer.trbType = TRB.statusStageType then
          some (.onControlCompleted trb.endpointID setup.setupData 0 0, d)
        else some (.error .notImplemented, d)

end Device

/-! ### TRBs -/

namespace TRB

theorem trbType_control (high : BitVec 16) (type : BitVec 6) (low : BitVec 10) :
    (control high type low).extractLsb' 10 6 = type := by
  apply BitVec.eq_of_getLsbD_eq
  intro n hn
  simp [control]
  grind

@[simp] theorem trbType_makeSetupStageTRB (setupData : SetupData) (transferType : BitVec 2) :
    (makeSetupStageTRB setupData transferType).trbType = setupStageType :=
  trbType_control _ _ _

@[simp] theorem trbType_makeDataStageTRB (buf : BitVec 64) (len : BitVec 32) (dirIn : Bool) :
    (makeDataStageTRB buf len dirIn).trbType = dataStageType :=
  trbType_control _ _ _

@[simp] theorem trbType_statusStageTRB (direction interruptOnCompletion : Bool) :
    (statusStageTRB direction interruptOnCompletion).trbType = statusStageType :=
  trbType_control _ _ _

/-- The request is read as it was written. -/
@[simp] theorem setupData_makeSetupStageTRB (data : SetupData) (transferType : BitVec 2) :
    (makeSetupStageTRB data transferType).setupData = data := by
  obtain ⟨requestType, request, value, index, length⟩ := data
  simp only [setupData, makeSetupStageTRB]
  congr 1
  all_goals
    apply BitVec.eq_of_getLsbD_eq
    intro n hn
    simp
    grind

@[simp] theorem setupData_withCycle (c : Bool) (trb : TRB) : (withCycle c trb).setupData = trb.setupData := by
  simp [setupData, withCycle_of_ne]

end TRB

/-! ### Pushes -/

/-- The slot of the TRB pushed after the one in a slot. -/
def nextSlot (bufSize slot : ℕ) : ℕ := if slot + 1 = bufSize - 1 then 0 else slot + 1

theorem nextSlot_lt {b i : ℕ} (hi : i + 1 < b) : nextSlot b i + 1 < b := by
  rw [nextSlot]
  split <;> omega

theorem nextSlot_inj {b i j : ℕ} (h : nextSlot b i = nextSlot b j) : i = j := by
  rw [nextSlot, nextSlot] at h
  split at h <;> split at h <;> omega

/-- On a ring with three slots, the slots of three TRBs are different. -/
theorem nextSlot_ne {b i : ℕ} (hb : 4 ≤ b) : nextSlot b i ≠ i ∧ nextSlot b (nextSlot b i) ≠ i := by
  simp only [nextSlot]
  split <;> split <;> omega

/-- A ring that holds the TRBs of a transfer, and its next slot. -/
structure TransferRing.Ready (tr : TransferRing) : Prop where
  size : 4 ≤ tr.ring.bufSize
  slot : tr.ring.writeIndex + 1 < tr.ring.bufSize

theorem storeAll_copyToLast (trbs : ℕ → TRB) (r : Ring) (data : TRB) :
    storeAll trbs (r.copyToLast data) = Function.update trbs r.writeIndex (TRB.withCycle r.cycleBit data) := by
  funext slot
  by_cases hslot : slot = r.writeIndex
  · subst hslot
    funext i
    fin_cases i <;> simp [storeAll, Ring.copyToLast, List.finRange_succ]
  · simp [storeAll, Ring.copyToLast, List.finRange_succ, Function.update_of_ne hslot]

/-- **What `Push` does**: the slots apart from its own and the one of the Link TRB stay as they are. -/
theorem TransferRing.Ready.push {tr : TransferRing} (h : tr.Ready) (data : TRB) :
    (tr.push data).1 = tr.ring.writeIndex ∧ (tr.push data).2.Ready ∧
      (tr.push data).2.ring.bufSize = tr.ring.bufSize ∧
      (tr.push data).2.ring.writeIndex = nextSlot tr.ring.bufSize tr.ring.writeIndex ∧
      (tr.push data).2.trbs tr.ring.writeIndex = data.withCycle tr.ring.cycleBit ∧
      ∀ slot, slot + 1 < tr.ring.bufSize → slot ≠ tr.ring.writeIndex → (tr.push data).2.trbs slot = tr.trbs slot := by
  have hsize := h.size
  have hslot := h.slot
  simp only [TransferRing.push, Ring.push]
  split
  next hlast =>
    have hapart : tr.ring.writeIndex ≠ tr.ring.writeIndex + 1 := Nat.ne_of_lt (Nat.lt_succ_self _)
    have hstore : storeAll tr.trbs (tr.ring.copyToLast data ++
        Ring.copyToLast { tr.ring with writeIndex := tr.ring.writeIndex + 1 } (TRB.link tr.ring.buf)) =
        Function.update (Function.update tr.trbs tr.ring.writeIndex (data.withCycle tr.ring.cycleBit))
          (tr.ring.writeIndex + 1) ((TRB.link tr.ring.buf).withCycle tr.ring.cycleBit) := by
      rw [storeAll, List.foldl_append]
      change storeAll (storeAll tr.trbs (tr.ring.copyToLast data)) _ = _
      rw [storeAll_copyToLast, storeAll_copyToLast]
    refine ⟨rfl, ⟨hsize, ?_⟩, rfl, ?_, ?_, fun slot hlt hne => ?_⟩
    · dsimp only
      omega
    · rw [nextSlot, if_pos hlast]
    · rw [hstore, Function.update_of_ne hapart, Function.update_self]
    · rw [hstore, Function.update_of_ne (by omega), Function.update_of_ne hne]
  next hlast =>
    dsimp only at hlast ⊢
    rw [storeAll_copyToLast]
    refine ⟨rfl, ⟨hsize, ?_⟩, rfl, ?_, Function.update_self _ _ _, fun slot _ hne => Function.update_of_ne hne _ _⟩
    · dsimp only
      omega
    · rw [nextSlot, if_neg hlast]

/-- The slots of the TRBs of a transfer. -/
def TransferRing.transferSlots (tr : TransferRing) (buf : BitVec 64) : List ℕ :=
  let setup := tr.ring.writeIndex
  let second := nextSlot tr.ring.bufSize setup
  if buf ≠ 0 then [setup, second, nextSlot tr.ring.bufSize second] else [setup, second]

/-- What the pushes of a transfer leave in the ring. -/
structure Pushed (tr tr' : TransferRing) (setupData : SetupData) (buf : BitVec 64) : Prop where
  ready : tr'.Ready
  size : tr'.ring.bufSize = tr.ring.bufSize
  setup : (tr'.trbs tr.ring.writeIndex).setupData = setupData
  awaited : (tr'.trbs (nextSlot tr.ring.bufSize tr.ring.writeIndex)).trbType ∈ [TRB.dataStageType, TRB.statusStageType]
  others : ∀ slot, slot + 1 < tr.ring.bufSize → slot ∉ tr.transferSlots buf → tr'.trbs slot = tr.trbs slot

/-- **The pushes of a transfer.** -/
theorem Device.pushTransfer_spec {tr : TransferRing} (h : tr.Ready) (setupData : SetupData) (buf : BitVec 64)
    (len : BitVec 32) (transferType : BitVec 2) (dirIn statusDirection : Bool) :
    ∃ tr', Device.pushTransfer tr setupData buf len transferType dirIn statusDirection =
        (nextSlot tr.ring.bufSize tr.ring.writeIndex, some tr.ring.writeIndex, tr') ∧ Pushed tr tr' setupData buf := by
  obtain ⟨hne, hne'⟩ := nextSlot_ne (i := tr.ring.writeIndex) h.size
  have hslot := h.slot
  have hlt := nextSlot_lt hslot
  generalize hdata : TRB.makeSetupStageTRB setupData (if buf ≠ 0 then transferType else TRB.kNoDataStage) = data
  obtain ⟨hp₁, hready₁, hsize₁, hindex₁, hat₁, hothers₁⟩ := h.push data
  have hcast : ((tr.push data).2.trbs tr.ring.writeIndex).trbType = TRB.setupStageType := by
    rw [hat₁, ← hdata]
    simp
  have hsetup : ((tr.push data).2.trbs tr.ring.writeIndex).setupData = setupData := by
    rw [hat₁, ← hdata]
    simp
  by_cases hbuf : buf = 0
  · obtain ⟨hp₂, hready₂, hsize₂, hindex₂, hat₂, hothers₂⟩ := hready₁.push (TRB.statusStageTRB statusDirection true)
    rw [hindex₁] at hp₂ hat₂ hothers₂
    rw [hsize₁] at hsize₂ hothers₂
    refine ⟨((tr.push data).2.push (TRB.statusStageTRB statusDirection true)).2, ?_, hready₂, hsize₂, ?_, ?_, ?_⟩
    · rw [pushTransfer]
      dsimp only
      rw [hdata, hp₁, if_pos hcast, if_neg (not_not.mpr hbuf), hp₂]
    · rw [hothers₂ _ hslot hne.symm, hsetup]
    · rw [hat₂]
      simp
    · intro slot hlt' hnot
      simp only [TransferRing.transferSlots, hbuf, ne_eq, not_true_eq_false, if_false, List.mem_cons, List.not_mem_nil,
        or_false, not_or] at hnot
      rw [hothers₂ slot hlt' hnot.2, hothers₁ slot hlt' hnot.1]
  · obtain ⟨hp₂, hready₂, hsize₂, hindex₂, hat₂, hothers₂⟩ := hready₁.push (TRB.makeDataStageTRB buf len dirIn)
    obtain ⟨-, hready₃, hsize₃, -, -, hothers₃⟩ := hready₂.push (TRB.statusStageTRB statusDirection false)
    rw [hindex₂, hsize₂, hsize₁, hindex₁] at hothers₃
    rw [hindex₁] at hp₂ hat₂ hothers₂
    rw [hsize₂, hsize₁] at hsize₃
    rw [hsize₁] at hothers₂
    refine ⟨_, ?_, hready₃, hsize₃, ?_, ?_, ?_⟩
    · rw [pushTransfer]
      dsimp only
      rw [hdata, hp₁, if_pos hcast, if_pos hbuf, hp₂]
    · rw [hothers₃ _ hslot hne'.symm, hothers₂ _ hslot hne.symm, hsetup]
    · rw [hothers₃ _ hlt (nextSlot_ne h.size).1.symm, hat₂]
      simp
    · intro slot hlt' hnot
      simp only [TransferRing.transferSlots, ne_eq, hbuf, not_false_eq_true, if_true, List.mem_cons, List.not_mem_nil,
        or_false, not_or] at hnot
      rw [hothers₃ slot hlt' hnot.2.2, hothers₂ slot hlt' hnot.2.1, hothers₁ slot hlt' hnot.1]

/-! ### Calls -/

namespace Device

variable {d d' : Device} {ep : EndpointID} {setupData : SetupData} {buf : BitVec 64} {len : BitVec 32}
    {issuer : Option ClassDriver}
  {transferType : BitVec 2} {dirIn statusDirection : Bool} {r : Except Error Unit}

@[simp] theorem transferRings_addWaiter : (d.addWaiter setupData issuer).transferRings = d.transferRings := by
  cases issuer <;> rfl

@[simp] theorem setupStageMap_addWaiter : (d.addWaiter setupData issuer).setupStageMap = d.setupStageMap := by
  cases issuer <;> rfl

/-- A transfer has been issued, its setup TRB in the next slot of the ring of its endpoint. -/
def Issued (d d' : Device) (ep : EndpointID) (setupData : SetupData) (buf : BitVec 64) : Prop :=
  ∃ i tr tr', ep.ringIndex = some i ∧ d.transferRings i = some tr ∧ Pushed tr tr' setupData buf ∧
    d'.transferRings = Function.update d.transferRings i (some tr') ∧
    d'.setupStageMap = d.setupStageMap.put ⟨i, nextSlot tr.ring.bufSize tr.ring.writeIndex⟩
      (some ⟨i, tr.ring.writeIndex⟩)

/-- **What a call does.** -/
theorem control_spec (hready : ∀ i tr, d.transferRings i = some tr → tr.Ready)
    (h : d.control ep setupData buf len issuer transferType dirIn statusDirection = some (r, d')) :
    (∃ err, r = .error err) ∧ d'.transferRings = d.transferRings ∧ d'.setupStageMap = d.setupStageMap ∨
      r = .ok () ∧ d.Issued d' ep setupData buf := by
  rw [control] at h
  dsimp only at h
  split at h
  · cases h
    exact .inl ⟨⟨_, rfl⟩, transferRings_addWaiter, setupStageMap_addWaiter⟩
  · obtain ⟨i, hi, h⟩ := Option.bind_eq_some_iff.mp h
    rw [transferRings_addWaiter] at h
    cases hring : d.transferRings i with
    | none =>
      rw [hring] at h
      cases h
      exact .inl ⟨⟨_, rfl⟩, transferRings_addWaiter, setupStageMap_addWaiter⟩
    | some tr =>
      obtain ⟨tr', hpush, hpushed⟩ :=
        pushTransfer_spec (hready i tr hring) setupData buf len transferType dirIn statusDirection
      rw [hring] at h
      dsimp only at h
      rw [hpush] at h
      cases h
      exact .inr ⟨rfl, i, tr, tr', hi, hring, hpushed, rfl, by rw [setupStageMap_addWaiter]; rfl⟩

/-- The event of a TRB of a transfer that has succeeded: the map says whether it is delivered. -/
theorem onTransferEventReceived_awaited {trb : TransferEventTRB} {issuer setup : TRB} {p : TRBPtr}
    (hcode : trb.completionCode = 1 ∨ trb.completionCode = 13) (hissuer : d.trbAt trb.pointer = some issuer)
    (htype : issuer.trbType ∈ [TRB.dataStageType, TRB.statusStageType])
    (hvalue : ∀ v, (some trb.pointer, v) ∈ d.setupStageMap.table → v = some p) (hsetup : d.trbAt p = some setup) :
    (d.setupStageMap.Has trb.pointer → ∃ buf len, d.onTransferEventReceived trb =
      some (.onControlCompleted trb.endpointID setup.setupData buf len,
        { d with setupStageMap := d.setupStageMap.delete trb.pointer })) ∧
    (¬ d.setupStageMap.Has trb.pointer →
      d.onTransferEventReceived trb = some (.error .noCorrespondingSetupStage, d)) := by
  have hsuccess : ¬ (trb.completionCode ≠ 1 ∧ trb.completionCode ≠ 13) := fun hnot => hcode.elim hnot.1 hnot.2
  have hnormal : issuer.trbType ≠ TRB.normalType := by
    intro heq
    rw [heq] at htype
    revert htype
    decide
  constructor
  · intro hhas
    cases hget : d.setupStageMap.get trb.pointer with
    | none => exact absurd hhas (ArrayMap.get_eq_none_iff.mp hget)
    | some v =>
      obtain rfl := hvalue v (ArrayMap.of_get hget)
      have hsetup' : trbAt { d with setupStageMap := d.setupStageMap.delete trb.pointer } p = some setup := hsetup
      rw [onTransferEventReceived, if_neg hsuccess, hissuer, Option.bind_eq_bind, Option.bind_some]
      dsimp only
      rw [if_neg hnormal, hget]
      dsimp only
      rw [Option.bind_eq_bind, Option.bind_some, hsetup', Option.bind_some]
      rcases List.mem_cons.mp htype with hdata | hstatus
      · rw [if_pos hdata]
        exact ⟨_, _, rfl⟩
      · have hstatus := List.mem_singleton.mp hstatus
        rw [if_neg (by rw [hstatus]; decide), if_pos hstatus]
        exact ⟨_, _, rfl⟩
  · intro hnot
    rw [onTransferEventReceived, if_neg hsuccess, hissuer, Option.bind_eq_bind, Option.bind_some]
    dsimp only
    rw [if_neg hnormal, ArrayMap.get_eq_none_iff.mpr hnot]

end Device

end DuvuvurKernel.Usb
