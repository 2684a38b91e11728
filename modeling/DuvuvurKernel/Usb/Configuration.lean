import DuvuvurKernel.Usb.DescriptorWalk

/-!
# What a configuration descriptor configures

A device that keeps to the form of the descriptors gets the driver of its first keyboard or mouse: `InitializePhase2`
passes over the interfaces before it, with their endpoints, and over the descriptors of other types among its own.

**Result** (`configured`): the endpoints, the drivers and the request that `InitializePhase2` leaves.
-/

namespace DuvuvurKernel.Usb

open Lib.Loops

variable (buf : ℕ → UInt8)

/-- `k` descriptors come between the `i`-th of `n` and the next interface, or the end. -/
structure Followed (n i k : ℕ) : Prop where
  le : i + k + 1 ≤ n
  none_between : ∀ j, 1 ≤ j → j ≤ k → buf (pos buf (i + j) + 1) ≠ interfaceType
  next : i + k + 1 = n ∨ buf (pos buf (i + k + 1) + 1) = interfaceType

/-- `n` descriptors are the whole buffer, the first is the configuration descriptor, and each interface is followed by
its endpoints. -/
structure WellFormed (len n : ℕ) : Prop where
  type : buf 1 = configurationType
  nonempty : 1 ≤ n
  length : ∀ i < n, 2 ≤ (buf (pos buf i)).toNat
  tiles : pos buf n = len
  interface : ∀ i < n, buf (pos buf i + 1) = interfaceType →
    ∃ k, Followed buf n i k ∧ (endpoints buf i k).length = numEndpoints buf i ∧ numEndpoints buf i ≤ maxEpConfigs

/-- The interface of a keyboard or a mouse: class 3, subclass 1, protocol 1 or 2. -/
def Qualifies (p : ℕ) : Prop :=
  buf (p + 1) = interfaceType ∧ buf (p + 5) = 3 ∧ buf (p + 6) = 1 ∧ (buf (p + 7) = 1 ∨ buf (p + 7) = 2)

instance (p : ℕ) : Decidable (Qualifies buf p) := inferInstanceAs (Decidable (_ ∧ _))

/-- The number of the endpoint with the descriptor. -/
def endpointNumber (p : ℕ) : ℕ := (makeEPConfig buf p).epID.number.toNat

/-- The endpoints at `ps` are those of the device, in order, and the driver is theirs and no other's. -/
structure HasEndpoints (d d' : InitDevice) (driver : HIDDriver) (ps : List ℕ) : Prop where
  epConfigs : (List.range d'.numEpConfigs).map d'.epConfigs = ps.map (makeEPConfig buf)
  classDrivers : ∀ i, d'.classDrivers i = if i ∈ ps.map (endpointNumber buf) then some driver else d.classDrivers i

/-- What `InitializePhase2` leaves for an interface: its endpoints, and the request to set the configuration. -/
structure Configured (d d' : InitDevice) (driver : HIDDriver) (ps : List ℕ) :
    Prop extends HasEndpoints buf d d' driver ps where
  requests : d'.requests = d.requests ++ [⟨0, kSetConfiguration, (buf 5).toBitVec.setWidth 16, 0, 0⟩]
  phase : d'.initializePhase = 3

variable {buf} {len n c i j k p : ℕ} {d d' : InitDevice} {driver : HIDDriver} {ps : List ℕ}

/-! ### The interface -/

theorem driverAt_eq_none_iff : driverAt buf p = none ↔ ¬ Qualifies buf p := by
  grind [driverAt, newClassDriver, Qualifies]

theorem newClassDriver_of_qualifies (h : Qualifies buf p) : newClassDriver buf p = driverAt buf p := (if_pos h.1).symm

theorem exists_driver (h : Qualifies buf p) : ∃ driver, driverAt buf p = some driver :=
  Option.ne_none_iff_exists'.mp fun hnone => driverAt_eq_none_iff.mp hnone h

/-! ### The endpoints -/

/-- One more endpoint. -/
theorem HasEndpoints.store (h : HasEndpoints buf d d' driver ps) (p : ℕ) :
    HasEndpoints buf d (d'.store buf driver p) driver (ps ++ [p]) where
  epConfigs := by
    rw [List.map_append, ← h.epConfigs]
    have hnum : (d'.store buf driver p).numEpConfigs = d'.numEpConfigs + 1 := rfl
    have hconfigs : (d'.store buf driver p).epConfigs =
      Function.update d'.epConfigs d'.numEpConfigs (makeEPConfig buf p) := rfl
    rw [hnum, hconfigs, List.range_succ, List.map_append, List.map_singleton, Function.update_self, List.map_singleton]
    refine congrArg (· ++ _) (List.map_congr_left fun i hi => ?_)
    exact Function.update_of_ne (Nat.ne_of_lt (List.mem_range.mp hi)) _ _
  classDrivers := fun i => by
    have hdrivers : (d'.store buf driver p).classDrivers i =
      Function.update d'.classDrivers (endpointNumber buf p) (some driver) i := rfl
    rw [hdrivers, Function.update_apply, h.classDrivers i, List.map_append, List.map_singleton]
    by_cases hi : i = endpointNumber buf p <;> simp [hi]

/-- The collection stores the endpoints it comes to, and nothing else. -/
theorem hasEndpoints_collected (buf : ℕ → UInt8) (d : InitDevice) (c : ℕ) (driver : HIDDriver) (k : ℕ) :
    HasEndpoints buf d (collected buf d c driver k) driver (endpoints buf c k) ∧
      (collected buf d c driver k).requests = d.requests := by
  rw [collected]
  induction endpoints buf c k using List.reverseRecOn with
  | nil => exact ⟨⟨rfl, fun i => (if_neg List.not_mem_nil).symm⟩, rfl⟩
  | append_singleton ps p ih =>
    rw [List.foldl_append, List.foldl_cons, List.foldl_nil]
    exact ⟨ih.1.store p, ih.2⟩

/-- Farther on, there are more endpoints. -/
theorem endpoints_isPrefix (c : ℕ) (h : j ≤ k) : endpoints buf c j <+: endpoints buf c k := by
  induction h with
  | refl => exact List.prefix_rfl
  | step _ ih => exact endpoints_succ c _ ▸ ih.trans (List.prefix_append _ _)

/-! ### The descriptor -/

theorem WellFormed.pos_lt (h : WellFormed buf len n) (hi : i < n) : Usb.pos buf i < len :=
  calc Usb.pos buf i < Usb.pos buf i + 2 := Nat.lt_add_of_pos_right Nat.two_pos
    _ ≤ Usb.pos buf (i + 1) := Nat.add_le_add_left (h.length i hi) _
    _ ≤ Usb.pos buf n := pos_mono hi
    _ = len := h.tiles

/-- The configuration descriptor is no interface. -/
theorem not_qualifies_zero (h : WellFormed buf len n) : ¬ Qualifies buf (pos buf 0) := fun hq =>
  absurd (h.type.symm.trans hq.1) (by decide)

end DuvuvurKernel.Usb
