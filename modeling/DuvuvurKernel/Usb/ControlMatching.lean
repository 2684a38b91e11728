import DuvuvurKernel.Lib.Runs
import DuvuvurKernel.Usb.ControlTransfers

/-!
# Control transfers and their events

Calls of `ControlIn` and `ControlOut`, and the events of the transfers they issue, in any order. When a transfer has
succeeded, `OnControlCompleted` should be called with the request it was issued with.

`setup_stage_map_` gets an entry when a transfer is issued, and loses it when the transfer has succeeded, but not when
it has failed. The entries left behind do no harm in themselves: each leads from a slot to the one before it, and so
does that of a later transfer in the same slots. But they are never freed otherwise, and when the map is full, `Put`
does nothing.

**Result** (`all_delivered_iff`): in any sequence of calls and events, every transfer that succeeds is delivered with
its own request exactly when for each of them, as it was issued, an entry of the map was free, or
was there already for its slot.
-/

namespace DuvuvurKernel.Usb

open Lib.Runs

/-- A transfer in flight. -/
structure Transfer where
  /-- The request it was issued with. -/
  setupData : SetupData
  /-- Where its setup TRB is. -/
  setup : TRBPtr
  /-- The TRB whose event completes it. -/
  awaited : TRBPtr
  /-- As it was issued, an entry of the map was free, or was there for the TRB awaited. -/
  hadRoom : Bool

/-- The event reports a success: the completion codes Success and Short Packet. -/
def TransferEventTRB.Succeeds (trb : TransferEventTRB) : Prop := trb.completionCode = 1 ∨ trb.completionCode = 13

instance (trb : TransferEventTRB) : Decidable trb.Succeeds := inferInstanceAs (Decidable (_ ∨ _))

namespace Device

variable (d : Device) (ep : EndpointID)

/-- The transfer that is issued next on the ring of an endpoint. -/
def nextTransfer (setupData : SetupData) : Option Transfer := do
  let i ← ep.ringIndex
  let tr ← d.transferRings i
  let awaited : TRBPtr := ⟨i, nextSlot tr.ring.bufSize tr.ring.writeIndex⟩
  some {
    setupData := setupData
    setup := ⟨i, tr.ring.writeIndex⟩
    awaited := awaited
    hadRoom := d.setupStageMap.HasFree ∨ d.setupStageMap.Has awaited }

/-- The places of the TRBs it will have. -/
def nextTRBs (buf : BitVec 64) : List TRBPtr :=
  (ep.ringIndex.bind fun i => (d.transferRings i).map fun tr => (tr.transferSlots buf).map (TRBPtr.mk i)).getD []

end Device

/-- A device, and the transfers in flight. -/
structure TransferSystem where
  device : Device
  pending : List Transfer

/-- A call or an event. -/
inductive Call where
  | controlIn (ep : EndpointID) (setupData : SetupData) (buf : BitVec 64) (len : BitVec 32)
    (issuer : Option ClassDriver)
  | controlOut (ep : EndpointID) (setupData : SetupData) (buf : BitVec 64) (len : BitVec 32)
    (issuer : Option ClassDriver)
  /-- The event that completes the transfer `k`. -/
  | event (k : ℕ) (trb : TransferEventTRB)

namespace TransferSystem

/-- Rings just initialized, and no entry in the map. -/
def init (rings : Fin 31 → Option (BitVec 60 × ℕ)) : TransferSystem where
  device := {
    transferRings := fun i => (rings i).map fun r => { ring := Ring.init r.1 r.2, trbs := fun _ _ => 0 }
    setupStageMap := ArrayMap.empty none
    eventWaiters := ArrayMap.empty none }
  pending := []

variable (s : TransferSystem)

/-- A call has come to `result`: if there was no error, the transfer has been issued. -/
def issue (ep : EndpointID) (setupData : SetupData) (result : Option (Except Error Unit × Device)) :
    Option TransferSystem := do
  let (r, d) ← result
  match r with
  | .error _ => some { s with device := d }
  | .ok _ => (s.device.nextTransfer ep setupData).map fun t => { device := d, pending := s.pending ++ [t] }

/-- What a call or an event does. -/
def perform : Call → Option TransferSystem
  | .controlIn ep setupData buf len issuer => s.issue ep setupData (s.device.controlIn ep setupData buf len issuer)
  | .controlOut ep setupData buf len issuer => s.issue ep setupData (s.device.controlOut ep setupData buf len issuer)
  | .event k trb =>
    (s.device.onTransferEventReceived trb).map fun r => { device := r.2, pending := s.pending.eraseIdx k }

/-- The ring is not overrun: no TRB is written over that the event of a transfer in flight needs. -/
def NotOverrun (ep : EndpointID) (buf : BitVec 64) : Prop :=
  ∀ t ∈ s.pending, t.setup ∉ s.device.nextTRBs ep buf ∧ t.awaited ∉ s.device.nextTRBs ep buf

/-- The transfer `k` is in flight, and if it has succeeded, the event leads to the TRB awaited. -/
def EventOf (k : ℕ) (trb : TransferEventTRB) : Prop :=
  ∃ t, s.pending[k]? = some t ∧ (trb.Succeeds → trb.pointer = t.awaited)

instance (ep : EndpointID) (buf : BitVec 64) : Decidable (s.NotOverrun ep buf) :=
  inferInstanceAs (Decidable (∀ t ∈ s.pending, _))

instance (k : ℕ) (trb : TransferEventTRB) : Decidable (s.EventOf k trb) :=
  match h : s.pending[k]? with
  | none => isFalse fun ⟨_, ht, _⟩ => by rw [h] at ht; cases ht
  | some t => decidable_of_iff (trb.Succeeds → trb.pointer = t.awaited)
    ⟨fun hpointer => ⟨t, h, hpointer⟩, fun ⟨t', ht, hpointer⟩ => by rw [h] at ht; cases ht; exact hpointer⟩

/-- What may happen next. -/
def Allowed : Call → Prop
  | .controlIn ep _ buf _ _ => s.NotOverrun ep buf
  | .controlOut ep _ buf _ _ => s.NotOverrun ep buf
  | .event k trb => s.EventOf k trb

instance : (call : Call) → Decidable (s.Allowed call)
  | .controlIn ep _ buf _ _ => inferInstanceAs (Decidable (s.NotOverrun ep buf))
  | .controlOut ep _ buf _ _ => inferInstanceAs (Decidable (s.NotOverrun ep buf))
  | .event k trb => inferInstanceAs (Decidable (s.EventOf k trb))

/-- A step. -/
def step (s : TransferSystem) (call : Call) : Option TransferSystem := if s.Allowed call then s.perform call else none

/-- A transfer that has succeeded is delivered with its own request. -/
def Delivers (s : TransferSystem) : Call → Prop
  | .event k trb => trb.Succeeds → ∀ t, s.pending[k]? = some t → trb.pointer = t.awaited →
    ∃ buf len d, s.device.onTransferEventReceived trb = some (.onControlCompleted trb.endpointID t.setupData buf len, d)
  | _ => True

/-- A transfer that has succeeded had room in the map as it was issued. -/
def HadRoom (s : TransferSystem) : Call → Prop
  | .event k trb => trb.Succeeds → ∀ t, s.pending[k]? = some t → trb.pointer = t.awaited → t.hadRoom = true
  | _ => True

/-! ### The invariant -/

/-- The TRBs of a transfer in flight are as they were pushed. -/
structure InFlight (d : Device) (t : Transfer) : Prop where
  placed : ∃ i w tr, d.transferRings i = some tr ∧ w + 1 < tr.ring.bufSize ∧ t.setup = ⟨i, w⟩ ∧
    t.awaited = ⟨i, nextSlot tr.ring.bufSize w⟩ ∧ (tr.trbs w).setupData = t.setupData ∧
    (tr.trbs (nextSlot tr.ring.bufSize w)).trbType ∈ [TRB.dataStageType, TRB.statusStageType]
  entry : d.setupStageMap.Has t.awaited ↔ t.hadRoom = true

/-- Every entry of the map leads from a slot to the one before it, and no two transfers in flight await the same TRB. -/
structure Inv (s : TransferSystem) : Prop where
  ready : ∀ i tr, s.device.transferRings i = some tr → tr.Ready
  map : ∀ p v, (some p, v) ∈ s.device.setupStageMap.table → ∃ w tr, s.device.transferRings p.ring = some tr ∧
    p.slot = nextSlot tr.ring.bufSize w ∧ v = some ⟨p.ring, w⟩
  pending : ∀ t ∈ s.pending, InFlight s.device t
  distinct : s.pending.Pairwise fun t t' => t.awaited ≠ t'.awaited

variable {s s' : TransferSystem} {ep : EndpointID} {setupData : SetupData} {buf : BitVec 64} {t : Transfer} {k : ℕ}
  {trb : TransferEventTRB}

theorem Inv.init {rings : Fin 31 → Option (BitVec 60 × ℕ)} (h : ∀ i r, rings i = some r → 4 ≤ r.2) :
    (init rings).Inv where
  ready := by
    intro i tr htr
    obtain ⟨r, hr, rfl⟩ := Option.map_eq_some_iff.mp htr
    have hsize := h i r hr
    exact ⟨hsize, by change 0 + 1 < r.2; omega⟩
  map := fun p v hmem => by cases List.eq_of_mem_replicate hmem
  pending := fun t ht => by cases ht
  distinct := .nil

/-- **The event of a transfer that has succeeded.** -/
theorem Inv.event_awaited (h : s.Inv) (ht : InFlight s.device t) (hcode : trb.Succeeds)
    (hpointer : trb.pointer = t.awaited) :
    (t.hadRoom = true → ∃ buf len, s.device.onTransferEventReceived trb =
      some (.onControlCompleted trb.endpointID t.setupData buf len,
        { s.device with setupStageMap := s.device.setupStageMap.delete t.awaited })) ∧
    (t.hadRoom ≠ true →
      s.device.onTransferEventReceived trb = some (.error .noCorrespondingSetupStage, s.device)) := by
  obtain ⟨i, w, tr, hring, hlt, hsetup, hawaited, hdata, htype⟩ := ht.placed
  have hissuer : s.device.trbAt trb.pointer = some (tr.trbs (nextSlot tr.ring.bufSize w)) := by
    rw [hpointer, hawaited, Device.trbAt, hring]
    rfl
  have hat : s.device.trbAt t.setup = some (tr.trbs w) := by
    rw [hsetup, Device.trbAt, hring]
    rfl
  have hvalue : ∀ v, (some trb.pointer, v) ∈ s.device.setupStageMap.table → v = some t.setup := by
    intro v hv
    obtain ⟨w', tr', hring', hslot, rfl⟩ := h.map _ _ hv
    rw [hpointer, hawaited] at hring' hslot ⊢
    obtain rfl := Option.some.inj (hring'.symm.trans hring)
    rw [hsetup, nextSlot_inj hslot]
  obtain ⟨hhas, hnot⟩ := Device.onTransferEventReceived_awaited hcode hissuer htype hvalue hat
  rw [hdata, hpointer] at hhas
  rw [hpointer] at hnot
  exact ⟨fun hroom => hhas (ht.entry.mpr hroom), fun hroom => hnot fun hentry => hroom (ht.entry.mp hentry)⟩

/-- It is delivered exactly if it had room. -/
theorem Inv.delivers_iff (h : s.Inv) (call : Call) : s.Delivers call ↔ s.HadRoom call := by
  cases call with
  | controlIn => exact Iff.rfl
  | controlOut => exact Iff.rfl
  | event k trb =>
    constructor
    · intro hdelivers hcode t ht hpointer
      by_contra hroom
      obtain ⟨buf, len, d, hreaction⟩ := hdelivers hcode t ht hpointer
      rw [(h.event_awaited (h.pending t (List.mem_of_getElem? ht)) hcode hpointer).2 hroom] at hreaction
      cases hreaction
    · intro hroom hcode t ht hpointer
      obtain ⟨buf, len, hreaction⟩ :=
        (h.event_awaited (h.pending t (List.mem_of_getElem? ht)) hcode hpointer).1 (hroom hcode t ht hpointer)
      exact ⟨buf, len, _, hreaction⟩

/-! ### Steps -/

/-- After an event, the map has lost an entry of the TRB awaited at most. -/
theorem Inv.after_event (h : s.Inv) (ht : s.pending[k]? = some t) {d : Device}
    (hd : d = s.device ∨ d = { s.device with setupStageMap := s.device.setupStageMap.delete t.awaited }) :
    Inv { device := d, pending := s.pending.eraseIdx k } := by
  have hrings : d.transferRings = s.device.transferRings := by
    rcases hd with rfl | rfl <;> rfl
  have hmap : ∀ p v, (some p, v) ∈ d.setupStageMap.table → (some p, v) ∈ s.device.setupStageMap.table := by
    intro p v hmem
    rcases hd with rfl | rfl
    · exact hmem
    · exact (ArrayMap.mem_delete hmem).resolve_right (by simp)
  have hhas : ∀ p ≠ t.awaited, (d.setupStageMap.Has p ↔ s.device.setupStageMap.Has p) := by
    intro p hp
    rcases hd with rfl | rfl
    · exact Iff.rfl
    · exact ArrayMap.has_delete_of_ne hp
  have hother : ∀ t' ∈ s.pending.eraseIdx k, t'.awaited ≠ t.awaited := by
    intro t' ht'
    obtain ⟨hk, rfl⟩ := List.getElem?_eq_some_iff.mp ht
    obtain ⟨j, hne, hj⟩ := List.mem_eraseIdx_iff_getElem?.mp ht'
    obtain ⟨hlen, rfl⟩ := List.getElem?_eq_some_iff.mp hj
    have hpair := List.pairwise_iff_getElem.mp h.distinct
    rcases Nat.lt_or_gt_of_ne hne with hlt | hgt
    · exact hpair j k hlen hk hlt
    · exact (hpair k j hk hlen hgt).symm
  refine ⟨hrings ▸ h.ready, fun p v hmem => hrings ▸ h.map p v (hmap p v hmem), fun t' ht' => ?_, ?_⟩
  · obtain ⟨hplaced, hentry⟩ := h.pending t' ((List.eraseIdx_sublist _ _).subset ht')
    exact ⟨hrings ▸ hplaced, (hhas _ (hother t' ht')).trans hentry⟩
  · exact h.distinct.sublist (List.eraseIdx_sublist _ _)

theorem Inv.event (h : s.Inv) (hevent : s.EventOf k trb) (hs : s.perform (.event k trb) = some s') : s'.Inv := by
  obtain ⟨t, ht, hpointer⟩ := hevent
  obtain ⟨⟨r, d⟩, hreaction, rfl⟩ := Option.map_eq_some_iff.mp hs
  refine h.after_event ht ?_
  by_cases hcode : trb.Succeeds
  · obtain ⟨hroom, hnot⟩ := h.event_awaited (h.pending t (List.mem_of_getElem? ht)) hcode (hpointer hcode)
    by_cases hhad : t.hadRoom = true
    · obtain ⟨buf, len, heq⟩ := hroom hhad
      rw [heq] at hreaction
      cases hreaction
      exact .inr rfl
    · rw [hnot hhad] at hreaction
      cases hreaction
      exact .inl rfl
  · rw [Device.onTransferEventReceived, if_pos (not_or.mp hcode)] at hreaction
    cases hreaction
    exact .inl rfl

/-- A call that fails. -/
theorem Inv.of_eq (h : s.Inv) {d : Device} (hrings : d.transferRings = s.device.transferRings)
    (hmap : d.setupStageMap = s.device.setupStageMap) : Inv { s with device := d } where
  ready := hrings ▸ h.ready
  map := by
    intro p v hmem
    rw [hmap] at hmem
    exact hrings ▸ h.map p v hmem
  pending := fun t ht => ⟨hrings ▸ (h.pending t ht).placed, hmap ▸ (h.pending t ht).entry⟩
  distinct := h.distinct

theorem nextTRBs_eq {d : Device} {i : Fin 31} {tr : TransferRing} (hi : ep.ringIndex = some i)
    (hring : d.transferRings i = some tr) :
    d.nextTRBs ep buf = (tr.transferSlots buf).map (TRBPtr.mk i) := by
  rw [Device.nextTRBs, hi, Option.bind_some, hring]
  rfl

/-- The TRB that the event of a transfer leads to is one of its own. -/
theorem awaited_mem_nextTRBs {d : Device} {i : Fin 31} {tr : TransferRing} (hi : ep.ringIndex = some i)
    (hring : d.transferRings i = some tr) :
    (⟨i, nextSlot tr.ring.bufSize tr.ring.writeIndex⟩ : TRBPtr) ∈ d.nextTRBs ep buf := by
  rw [nextTRBs_eq hi hring]
  refine List.mem_map_of_mem ?_
  rw [TransferRing.transferSlots]
  split <;> simp

/-- The rings have the size they had, and the TRBs they had but for those of the transfer. -/
theorem ring_of_issued {d d' : Device} (h : d.Issued d' ep setupData buf) {j : Fin 31} {tr : TransferRing}
    (hj : d.transferRings j = some tr) : ∃ tr', d'.transferRings j = some tr' ∧ tr'.ring.bufSize = tr.ring.bufSize ∧
      ∀ w, w + 1 < tr.ring.bufSize → ⟨j, w⟩ ∉ d.nextTRBs ep buf → tr'.trbs w = tr.trbs w := by
  obtain ⟨i, tr₁, tr₂, hi, hring, hpushed, hrings, -⟩ := h
  by_cases hji : j = i
  · subst hji
    obtain rfl := Option.some.inj (hj.symm.trans hring)
    refine ⟨tr₂, by rw [hrings, Function.update_self], hpushed.size,
      fun w hw hnot => hpushed.others w hw fun hmem => hnot ?_⟩
    rw [nextTRBs_eq hi hring]
    exact List.mem_map_of_mem hmem
  · refine ⟨tr, ?_, rfl, fun _ _ _ => rfl⟩
    rw [hrings, Function.update_of_ne hji, hj]

/-- A transfer in flight stays so where no TRB of it is written over. -/
theorem InFlight.of_issued {d d' : Device} (ht : InFlight d t) (h : d.Issued d' ep setupData buf)
    (hsetup : t.setup ∉ d.nextTRBs ep buf) (hawaited : t.awaited ∉ d.nextTRBs ep buf) : InFlight d' t := by
  obtain ⟨⟨j, w, tr, hj, hlt, hat, hat', hdata, htype⟩, hentry⟩ := ht
  obtain ⟨tr', hj', hsize, htrbs⟩ := ring_of_issued h hj
  obtain ⟨i, tr₁, -, hi, hring, -, -, hmap⟩ := h
  rw [hat] at hsetup
  refine ⟨⟨j, w, tr', hj', by rw [hsize]; exact hlt, hat, by rw [hsize]; exact hat', ?_, ?_⟩, ?_⟩
  · rw [htrbs w hlt hsetup, hdata]
  · rw [hsize, htrbs _ (nextSlot_lt hlt) (hat' ▸ hawaited)]
    exact htype
  · rw [hmap, ArrayMap.has_put, ← hentry]
    refine or_iff_left ?_
    rintro ⟨heq, -⟩
    exact hawaited (heq ▸ awaited_mem_nextTRBs hi hring)

/-- **A transfer is issued.** -/
theorem Inv.issued (h : s.Inv) (hover : s.NotOverrun ep buf) {d : Device} (hd : s.device.Issued d ep setupData buf) :
    ∃ t, s.device.nextTransfer ep setupData = some t ∧ Inv { device := d, pending := s.pending ++ [t] } := by
  have hkept := fun j tr₁ (hj : s.device.transferRings j = some tr₁) => ring_of_issued hd hj
  have hflight := fun t (ht : t ∈ s.pending) => (h.pending t ht).of_issued hd (hover t ht).1 (hover t ht).2
  obtain ⟨i, tr, tr', hi, hring, hpushed, hrings, hmap⟩ := hd
  have hslot := (h.ready i tr hring).slot
  have hring' : d.transferRings i = some tr' := by rw [hrings, Function.update_self]
  refine ⟨_, by rw [Device.nextTransfer, hi, Option.bind_eq_bind, Option.bind_some, hring]; rfl, ?_, ?_, ?_, ?_⟩
  · intro j tr₂ hj
    by_cases hji : j = i
    · subst hji
      obtain rfl := Option.some.inj (hj.symm.trans hring')
      exact hpushed.ready
    · dsimp only at hj
      rw [hrings, Function.update_of_ne hji] at hj
      exact h.ready j tr₂ hj
  · intro p v hmem
    rw [hmap] at hmem
    rcases ArrayMap.mem_put hmem with hold | hnew
    · obtain ⟨w, tr₁, hj, hp, hv⟩ := h.map p v hold
      obtain ⟨tr₂, hj', hsize, -⟩ := hkept _ _ hj
      exact ⟨w, tr₂, hj', hsize ▸ hp, hv⟩
    · cases hnew
      exact ⟨tr.ring.writeIndex, tr', hring', by rw [hpushed.size], rfl⟩
  · intro t ht
    rcases List.mem_append.mp ht with hold | hnew
    · exact hflight t hold
    · obtain rfl := List.mem_singleton.mp hnew
      refine ⟨⟨i, tr.ring.writeIndex, tr', hring', by rw [hpushed.size]; exact hslot, rfl, by rw [hpushed.size],
        hpushed.setup, ?_⟩, ?_⟩
      · rw [hpushed.size]
        exact hpushed.awaited
      · dsimp only
        rw [hmap, ArrayMap.has_put, decide_eq_true_iff]
        simp [or_comm]
  · refine List.pairwise_append.mpr ⟨h.distinct, List.pairwise_singleton _ _, fun t ht t' ht' heq => ?_⟩
    obtain rfl := List.mem_singleton.mp ht'
    exact (hover t ht).2 (heq ▸ awaited_mem_nextTRBs hi hring)

theorem Inv.issue (h : s.Inv) (hover : s.NotOverrun ep buf) {len : BitVec 32} {issuer : Option ClassDriver}
    {transferType : BitVec 2} {dirIn statusDirection : Bool}
    (hs : s.issue ep setupData (s.device.control ep setupData buf len issuer transferType dirIn statusDirection) =
    some s') :
    s'.Inv := by
  obtain ⟨⟨r, d⟩, hcontrol, hs⟩ := Option.bind_eq_some_iff.mp hs
  rcases Device.control_spec h.ready hcontrol with ⟨⟨err, rfl⟩, hrings, hmap⟩ | ⟨rfl, hissued⟩
  · cases hs
    exact h.of_eq hrings hmap
  · obtain ⟨t, ht, h'⟩ := h.issued hover hissued
    dsimp only at hs
    rw [ht] at hs
    cases hs
    exact h'

/-- **Every step keeps the invariant.** -/
theorem Inv.step (h : s.Inv) (call : Call) (hs : step s call = some s') : s'.Inv := by
  rw [TransferSystem.step] at hs
  split at hs
  next hallowed =>
    cases call with
    | controlIn => exact h.issue hallowed hs
    | controlOut => exact h.issue hallowed hs
    | event => exact h.event hallowed hs
  next => cases hs

/-- **Transfers and their events**: each transfer that succeeds is delivered with its own request, exactly when for
each of them the map had room as it was issued. -/
theorem all_delivered_iff {rings : Fin 31 → Option (BitVec 60 × ℕ)} (h : ∀ i r, rings i = some r → 4 ≤ r.2)
    (calls : List Call) :
    Along step Delivers (init rings) calls ↔ Along step HadRoom (init rings) calls :=
  Along.congr (fun _ call hinv => hinv.delivers_iff call) (fun _ call _ hinv _ hs => hinv.step call hs) (Inv.init h)

/-- The ring of the default control pipe, with 32 slots. -/
def defaultPipe (i : Fin 31) : Option (BitVec 60 × ℕ) := if i = 0 then some (0x1000, 32) else none

/-- A request without data, to the default control pipe. -/
def request (value : BitVec 16) : Call := .controlOut ⟨1⟩ ⟨0, 9, value, 0, 0⟩ 0 0 none

/-- The event of a TRB on the default control pipe. -/
def eventOf (slot : ℕ) (completionCode : BitVec 8) : TransferEventTRB := ⟨⟨0, slot⟩, 0, completionCode, ⟨1⟩⟩

/-- A transfer fails, the next succeeds. -/
theorem delivered_second : Along step Delivers (init defaultPipe)
    [request 1, .event 0 (eventOf 1 4), request 2, .event 0 (eventOf 3 1)] := by
  have hsize : ∀ i r, defaultPipe i = some r → 4 ≤ r.2 := by
    intro i r hr
    rw [defaultPipe] at hr
    split at hr <;> cases hr
    decide
  refine (all_delivered_iff hsize _).mpr ?_
  have hroom : (run step (init defaultPipe) [request 1, .event 0 (eventOf 1 4), request 2]).map
      (fun s => s.pending.map Transfer.hadRoom) = some [true] := by decide +kernel
  refine ⟨trivial, fun s₁ h₁ => ⟨fun hcode => ?_,
    fun s₂ h₂ => ⟨trivial, fun s₃ h₃ => ⟨fun _ t ht _ => ?_, fun _ _ => trivial⟩⟩⟩⟩
  · exact absurd hcode (by decide)
  · have hrun : run step (init defaultPipe) [request 1, .event 0 (eventOf 1 4), request 2] = some s₃ := by
      simp only [run, h₁, h₂, h₃, Option.bind_some]
    rw [hrun, Option.map_some, Option.some.injEq] at hroom
    have hmem := List.mem_map_of_mem (f := Transfer.hadRoom) (List.mem_of_getElem? ht)
    rw [hroom] at hmem
    exact List.mem_singleton.mp hmem

/-- Sixteen transfers fail one after the other; then one succeeds. -/
theorem not_delivered_after_failures : ¬ Along step Delivers (init defaultPipe)
    ((List.range 16).flatMap (fun n => [request (BitVec.ofNat 16 n), .event 0 (eventOf ((2 * n + 1) % 31) 4)]) ++
      [request 16] ++ [.event 0 (eventOf 2 1)]) := by
  intro h
  have hrun : (run step (init defaultPipe)
      ((List.range 16).flatMap (fun n => [request (BitVec.ofNat 16 n), .event 0 (eventOf ((2 * n + 1) % 31) 4)]) ++
        [request 16])).any
        (fun s => (s.pending[0]?.any fun t => (eventOf 2 1).pointer = t.awaited) &&
          (s.device.onTransferEventReceived (eventOf 2 1)).any fun r => r.1 = .error .noCorrespondingSetupStage) =
              true := by
    decide +kernel
  obtain ⟨s, hs, hlast⟩ := Option.any_eq_true _ _ |>.mp hrun
  obtain ⟨hpending, hreaction⟩ := Bool.and_eq_true _ _ |>.mp hlast
  obtain ⟨t, ht, hpointer⟩ := Option.any_eq_true _ _ |>.mp hpending
  obtain ⟨r, hr, herr⟩ := Option.any_eq_true _ _ |>.mp hreaction
  obtain ⟨buf, len, d, heq⟩ := (h.append hs).1 (.inl rfl) t ht (of_decide_eq_true hpointer)
  rw [heq] at hr
  cases hr
  exact absurd (of_decide_eq_true herr) (by simp)

end TransferSystem

end DuvuvurKernel.Usb
