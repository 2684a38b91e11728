import DuvuvurKernel.Error
import DuvuvurKernel.Lib.Preorder

/-!
# The scan of the PCI buses

`pci.cpp`: `ScanAllBus` puts every function it finds in `devices`, and follows each PCI-PCI bridge to its secondary bus
before it goes on. It keeps no account of the buses it has been to, so with a bridge that leads back it would never end,
if the table were not full at some time.

## The model

The configuration space is what `ReadData` gives for each address, and stays the same. The scan functions call each
other; here `ScanFunction` is given the `ScanBus` that it calls, and `scanBus` is that function nested `fuel` times
(`none` is the nesting running out, which it does not from 33 on).

**Result** (`scanned`): the scan is the depth-first visit of the functions, as far as the table goes.
-/

namespace DuvuvurKernel.Pci

open Lib.Preorder

/-- `ClassCode`. -/
structure ClassCode where
  base : UInt8
  sub : UInt8
  interface : UInt8
  deriving DecidableEq

/-- `Device`. -/
structure Device where
  bus : UInt8
  device : UInt8
  function : UInt8
  headerType : UInt8
  classCode : ClassCode
  deriving DecidableEq

/-- `Match`, of base class and subclass. -/
def ClassCode.matches (c : ClassCode) (b s : UInt8) : Bool := b = c.base ∧ s = c.sub

/-- `devices.size()`. -/
def devicesSize : ℕ := 32

/-- `MakeAddress`. -/
def makeAddress (bus device function regAddr : UInt8) : UInt32 :=
  (1 : UInt32) <<< 31 ||| bus.toUInt32 <<< 16 ||| device.toUInt32 <<< 11 ||| function.toUInt32 <<< 8 |||
    (regAddr.toUInt32 &&& 0xfc)

/-- `IsSingleFunctionDevice`. -/
def isSingleFunctionDevice (headerType : UInt8) : Bool := headerType &&& 0x80 = 0

section

variable (conf : UInt32 → UInt32)

/-- `ReadVendorId`. -/
def readVendorId (bus device function : UInt8) : UInt16 :=
  (conf (makeAddress bus device function 0x00) &&& 0xffff).toUInt16

/-- `ReadHeaderType`. -/
def readHeaderType (bus device function : UInt8) : UInt8 :=
  (conf (makeAddress bus device function 0x0c) >>> 16 &&& 0xff).toUInt8

/-- `ReadClassCode`. -/
def readClassCode (bus device function : UInt8) : ClassCode :=
  let reg := conf (makeAddress bus device function 0x08)
  ⟨(reg >>> 24 &&& 0xff).toUInt8, (reg >>> 16 &&& 0xff).toUInt8, (reg >>> 8 &&& 0xff).toUInt8⟩

/-- `ReadBusNumbers`. -/
def readBusNumbers (bus device function : UInt8) : UInt32 := conf (makeAddress bus device function 0x18)

end

/-! ### The scan -/

/-- A scan function, from `devices[0..num_device)` on. -/
abbrev Scan := List Device → Option (Except Error Unit × List Device)

/-- `return MAKE_ERROR(Error::kSuccess)`. -/
def Scan.success : Scan := fun devices => some (.ok (), devices)

/-- A call whose error is returned, and what follows otherwise. -/
def Scan.andThen (scan next : Scan) : Scan := fun devices =>
  match scan devices with
  | some (.ok (), devices) => next devices
  | some (.error e, devices) => some (.error e, devices)
  | none => none

/-- A loop of such calls. -/
def Scan.forEach {α : Type} (scan : α → Scan) : List α → Scan
  | [] => success
  | i :: is => (scan i).andThen (forEach scan is)

/-- `AddDevice`. -/
def addDevice (device : Device) : Scan := fun devices =>
  if devices.length = devicesSize then some (.error .full, devices) else some (.ok (), devices ++ [device])

variable (conf : UInt32 → UInt32)

/-- The device that `ScanFunction` adds. -/
def deviceAt (bus device function : UInt8) : Device :=
  ⟨bus, device, function, readHeaderType conf bus device function, readClassCode conf bus device function⟩

/-- The secondary bus of a bridge. -/
def secondaryBus (d : Device) : UInt8 := (readBusNumbers conf d.bus d.device d.function >>> 8 &&& 0xff).toUInt8

/-- `ScanFunction`. -/
def scanFunction (scanBus : UInt8 → Scan) (bus device function : UInt8) : Scan :=
  let dev := deviceAt conf bus device function
  (addDevice dev).andThen (if dev.classCode.matches 0x06 0x04 then scanBus (secondaryBus conf dev) else Scan.success)

/-- The functions of a device but for the first. -/
def functions : List UInt8 := [1, 2, 3, 4, 5, 6, 7]

/-- `ScanDevice`. -/
def scanDevice (scanBus : UInt8 → Scan) (bus device : UInt8) : Scan :=
  (scanFunction conf scanBus bus device 0).andThen
    (if isSingleFunctionDevice (readHeaderType conf bus device 0) then Scan.success
    else Scan.forEach (fun function =>
      if readVendorId conf bus device function = 0xffff then Scan.success
      else scanFunction conf scanBus bus device function) functions)

/-- `ScanBus`. -/
def scanBus : ℕ → UInt8 → Scan
  | 0, _ => fun _ => none
  | fuel + 1, bus =>
    Scan.forEach (fun device =>
      if readVendorId conf bus device 0 = 0xffff then Scan.success else scanDevice conf (scanBus fuel) bus device)
      ((List.range 32).map UInt8.ofNat)

/-- `ScanAllBus`. -/
def scanAllBus (fuel : ℕ) : Option (Except Error Unit × List Device) :=
  if isSingleFunctionDevice (readHeaderType conf 0 0 0) then scanBus conf fuel 0 []
  else Scan.forEach (fun function =>
    if readVendorId conf 0 0 function = 0xffff then Scan.success else scanBus conf fuel function) (0 :: functions) []

/-! ### The visit -/

/-- The functions of a device that are present: function 0, and the others if there may be others. -/
def functionsOfDevice (bus device : UInt8) : List Device :=
  if readVendorId conf bus device 0 = 0xffff then []
  else deviceAt conf bus device 0 ::
    if isSingleFunctionDevice (readHeaderType conf bus device 0) then []
    else (functions.filter fun function => readVendorId conf bus device function ≠ 0xffff).map
      (deviceAt conf bus device)

/-- The functions on a bus that are present. -/
def functionsOfBus (bus : UInt8) : List Device := ((List.range 32).map UInt8.ofNat).flatMap (functionsOfDevice conf bus)

/-- What a function leads to: a bridge to its secondary bus, and others nowhere. -/
def bridged (d : Device) : List Device :=
  if d.classCode.matches 0x06 0x04 then functionsOfBus conf (secondaryBus conf d) else []

/-- Where the visit begins: bus 0, or a bus for each host bridge. -/
def startingFunctions : List Device :=
  if isSingleFunctionDevice (readHeaderType conf 0 0 0) then functionsOfBus conf 0
  else ((0 :: functions).filter fun function => readVendorId conf 0 0 function ≠ 0xffff).flatMap (functionsOfBus conf)

/-- `scan` visits `p` while there is room in the table, from a state on where the nesting does not run out. -/
def Fills (fuel : ℕ) (scan : Scan) (p : List Device) : Prop :=
  ∀ devices : List Device, devices.length ≤ devicesSize → devicesSize < devices.length + fuel →
    scan devices = some (if (fill (bridged conf) (devicesSize - devices.length) p).1 then .ok () else .error .full,
      devices ++ (fill (bridged conf) (devicesSize - devices.length) p).2)

variable {conf} {fuel : ℕ} {scan next : Scan} {p q : List Device}

theorem fills_success : Fills conf fuel Scan.success [] := by
  intro devices _ _
  rw [fill_nil, if_pos rfl, List.append_nil]
  rfl

/-- One visit after the other. -/
theorem Fills.andThen (h : Fills conf fuel scan p) (hnext : Fills conf fuel next q) :
    Fills conf fuel (scan.andThen next) (p ++ q) := by
  intro devices hroom hfuel
  have hlen := length_fill_le (bridged conf) (devicesSize - devices.length) p
  rw [Scan.andThen, h devices hroom hfuel, fill_append]
  cases hfill : (fill (bridged conf) (devicesSize - devices.length) p).1 with
  | false => simp [hfill]
  | true =>
    have hnext' := hnext (devices ++ (fill (bridged conf) (devicesSize - devices.length) p).2)
      (by rw [List.length_append]; omega) (by rw [List.length_append]; omega)
    rw [List.length_append, ← Nat.sub_sub] at hnext'
    simpa using hnext'

theorem Fills.forEach {α : Type} {scan : α → Scan} {nodes : α → List Device} {is : List α}
    (h : ∀ i ∈ is, Fills conf fuel (scan i) (nodes i)) : Fills conf fuel (Scan.forEach scan is) (is.flatMap nodes) := by
  induction is with
  | nil => exact fills_success
  | cons i is ih =>
    rw [List.flatMap_cons]
    exact (h i List.mem_cons_self).andThen (ih fun j hj => h j (List.mem_cons_of_mem _ hj))

/-- A loop that leaves some out. -/
theorem Fills.forEach_filter {α : Type} {scan : α → Scan} {nodes : α → List Device} {c : α → Prop} [DecidablePred c]
    (is : List α) (h : ∀ i, Fills conf fuel (scan i) (nodes i)) :
    Fills conf fuel (Scan.forEach (fun i => if c i then Scan.success else scan i) is)
      ((is.filter fun i => ¬ c i).flatMap nodes) := by
  have hnodes : (is.filter fun i => ¬ c i).flatMap nodes = is.flatMap fun i => if c i then [] else nodes i := by
    induction is with
    | nil => rfl
    | cons i is ih => by_cases hi : c i <;> simp [hi, ← ih]
  rw [hnodes]
  refine Fills.forEach fun i _ => ?_
  split
  next => exact fills_success
  next => exact h i

/-- A function, and what is behind it if it is a bridge. -/
theorem fills_scanFunction (h : ∀ bus, Fills conf fuel (scanBus conf fuel bus) (functionsOfBus conf bus))
    (bus device function : UInt8) :
    Fills conf (fuel + 1) (scanFunction conf (scanBus conf fuel) bus device function)
        [deviceAt conf bus device function] := by
  have hbehind : Fills conf fuel (if (deviceAt conf bus device function).classCode.matches 0x06 0x04 then
      scanBus conf fuel (secondaryBus conf (deviceAt conf bus device function)) else Scan.success)
      (bridged conf (deviceAt conf bus device function)) := by
    rw [bridged]
    split
    next => exact h _
    next => exact fills_success
  intro devices hroom hfuel
  rw [scanFunction, Scan.andThen, addDevice]
  by_cases hfull : devices.length = devicesSize
  · simp [hfull, fill]
  · obtain ⟨room, hroom'⟩ : ∃ room, devicesSize - devices.length = room + 1 :=
      Nat.exists_eq_succ_of_ne_zero (Nat.sub_ne_zero_of_lt (Nat.lt_of_le_of_ne hroom hfull))
    have hlen : (devices ++ [deviceAt conf bus device function]).length = devices.length + 1 := List.length_append
    have hscan := hbehind (devices ++ [deviceAt conf bus device function]) (by omega) (by omega)
    have hroom'' : devicesSize - (devices.length + 1) = room := by omega
    rw [hlen, hroom''] at hscan
    rw [if_neg hfull, hroom', fill, List.append_nil]
    exact hscan.trans (by rw [List.append_assoc, List.singleton_append])

theorem fills_scanDevice (h : ∀ bus, Fills conf fuel (scanBus conf fuel bus) (functionsOfBus conf bus))
    (bus device : UInt8) (hpresent : readVendorId conf bus device 0 ≠ 0xffff) :
    Fills conf (fuel + 1) (scanDevice conf (scanBus conf fuel) bus device) (functionsOfDevice conf bus device) := by
  rw [scanDevice, functionsOfDevice, if_neg hpresent]
  have hfirst := fills_scanFunction h bus device 0
  by_cases hsingle : isSingleFunctionDevice (readHeaderType conf bus device 0)
  · rw [if_pos hsingle, if_pos hsingle]
    exact hfirst.andThen fills_success
  · have hothers := Fills.forEach_filter functions (c := fun function => readVendorId conf bus device function = 0xffff)
      fun function => fills_scanFunction h bus device function
    rw [if_neg hsingle, if_neg hsingle, List.map_eq_flatMap]
    exact hfirst.andThen hothers

/-- A bus, with all that its bridges lead to. -/
theorem fills_scanBus (fuel : ℕ) (bus : UInt8) : Fills conf fuel (scanBus conf fuel bus) (functionsOfBus conf bus) := by
  induction fuel generalizing bus with
  | zero => exact fun devices hroom hfuel => absurd hfuel (Nat.not_lt_of_le hroom)
  | succ fuel ih =>
    refine Fills.forEach fun device _ => ?_
    split
    next habsent =>
      rw [functionsOfDevice, if_pos habsent]
      exact fills_success
    next hpresent => exact fills_scanDevice ih bus device hpresent

theorem scanAllBus_eq (hfuel : devicesSize < fuel) :
    scanAllBus conf fuel = some (if (fill (bridged conf) devicesSize (startingFunctions conf)).1 then .ok ()
      else .error .full, (fill (bridged conf) devicesSize (startingFunctions conf)).2) := by
  have hfuel' : devicesSize < ([] : List Device).length + fuel := by rwa [List.length_nil, Nat.zero_add]
  rw [scanAllBus, startingFunctions]
  split
  next => exact fills_scanBus fuel 0 [] (Nat.zero_le _) hfuel'
  next =>
    exact Fills.forEach_filter (0 :: functions) (fun function => fills_scanBus fuel function) [] (Nat.zero_le _) hfuel'

/-- The only function is a bridge whose secondary bus is its own. -/
def loopingBridge (address : UInt32) : UInt32 :=
  if address &&& 0xffff00 = 0 then if address &&& 0xfc = 0x08 then 0x06040000 else 0 else 0xffffffff
end DuvuvurKernel.Pci
