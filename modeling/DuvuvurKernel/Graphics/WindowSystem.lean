import DuvuvurKernel.Graphics.LayerStack
import DuvuvurKernel.Graphics.ToplevelWindow

/-!
# The window system

`mouse.cpp`: the mouse, whose reports activate, drag and close windows; and what else
creates and removes layers: the system calls for windows in `syscall.cpp`, `TaskTerminal`,
and `ProcessLayerMessage` of `layer.cpp`.

## The model

`DuvuvurKernel.Graphics.Layer` leaves out of a layer whether it can be dragged and of
which class its window is. These are kept beside it here, in a list with the IDs of
`layers_` in the same order (`traits`), so that the layer `FindLayer` finds for an ID has
the traits found first for it.

Where `Draw(id, area)` finds no layer with the ID on the stack it goes on with a rectangle
that was never set. `drawArea` is undefined there; the operations here
(`drawAreaOr` and those that use it) go on as the source does, with any rectangle, which
is given with each event. They are undefined where a null pointer is followed.

The messages in flight to all tasks are in `sent`. A task receives any of them that is
sent to it: their order is left open. What a task draws into its window is any change of
its contents.
-/

namespace DuvuvurKernel

/-! ### Drawing with a rectangle that is not set -/

namespace LayerManager

variable (unset : Rectangle) (m : LayerManager)

/-- `Draw(id, area)`, with the value that `window_area` has where it is not set. -/
def drawAreaOr (id : UInt32) (area : Rectangle) : Option LayerManager := do
  let layers ← m.stackLayers
  let s := layers.foldl (drawStep id) ⟨area, none, m.backBuffer⟩
  let windowArea := s.windowArea.getD unset
  return { m with backBuffer := s.back, screen := m.screen.copied windowArea.pos s.back windowArea }

/-- `Draw(id)`. -/
def drawLayerOr (id : UInt32) : Option LayerManager := m.drawAreaOr unset id ⟨⟨0, 0⟩, ⟨-1, -1⟩⟩

/-- What `Move` and `MoveRelative` have in common. -/
def moveWithOr (id : UInt32) (f : Layer → Layer) : Option LayerManager := do
  let layer ← m.findLayer id
  let m := m.updateLayer id f
  let m ← m.draw layer.area
  m.drawLayerOr unset id

/-- `Move`. -/
def moveOr (id : UInt32) (newPos : Vector2D) : Option LayerManager := m.moveWithOr unset id fun l => l.move newPos

/-- `MoveRelative`. -/
def moveRelativeOr (id : UInt32) (posDiff : Vector2D) : Option LayerManager :=
  m.moveWithOr unset id fun l => l.moveRelative posDiff

/-- The operation of a layer message. -/
def operateOr (op : LayerOperation) (id : UInt32) (x y w h : Int32) : Option LayerManager :=
  match op with
  | .move => m.moveOr unset id ⟨x.toInt, y.toInt⟩
  | .moveRelative => m.moveRelativeOr unset id ⟨x.toInt, y.toInt⟩
  | .draw => m.drawLayerOr unset id
  | .drawArea => m.drawAreaOr unset id ⟨⟨x.toInt, y.toInt⟩, ⟨w.toInt, h.toInt⟩⟩

/-- `FindLayerByPosition`. -/
def findLayerByPosition (pos : Vector2D) (excludeID : UInt32) : Option (Option Layer) := do
  let layers ← m.stackLayers
  return layers.reverse.find? fun l => l.id ≠ excludeID ∧ l.area.Contains pos

end LayerManager

namespace Desktop

variable (unset : Rectangle) (d : Desktop)

/-- The part of `Activate` that concerns the layer that was active. -/
def deactivateOldOr : Option Desktop :=
  if d.activeLayer > 0 then do
    let _ ← d.manager.findLayer d.activeLayer
    let m := d.manager.updateLayer d.activeLayer fun l => l.repaint l.window.deactivate
    let m ← m.drawLayerOr unset d.activeLayer
    return { d with manager := m }.sendWindowActiveMessage d.activeLayer false
  else
    some d

/-- The part of `Activate` that concerns the layer that becomes active. -/
def activateNewOr (layerID : UInt32) : Option Desktop :=
  let d := { d with activeLayer := layerID }
  if layerID > 0 then do
    let _ ← d.manager.findLayer layerID
    let m := d.manager.updateLayer layerID fun l => l.repaint l.window.activate
    let m ← m.upDown layerID 0
    let m ← m.upDown layerID (m.getHeight d.mouseLayer - 1)
    let m ← m.drawLayerOr unset layerID
    return { d with manager := m }.sendWindowActiveMessage layerID true
  else
    some d

/-- `ActiveLayer::Activate`. -/
def activateOr (layerID : UInt32) : Option Desktop :=
  if d.activeLayer = layerID then
    some d
  else do
    let d ← d.deactivateOldOr unset
    d.activateNewOr unset layerID

/-- `CloseLayer`. -/
def closeLayerOr (layerID : UInt32) : Option (Except Error Unit × Desktop) :=
  match d.manager.findLayer layerID with
  | none => some (.error .noSuchEntry, d)
  | some layer => do
    let d ← d.activateOr unset 0
    let m := d.manager.removeLayer layerID
    let m ← m.draw layer.area
    return (.ok (), { d with
      manager := m, layerTaskMap := fun id => if id = layerID then none else d.layerTaskMap id })

/-- `FindActiveLayerTask`, where it finds both. -/
def findActiveLayerTask : Option (Layer × UInt64) :=
  if d.activeLayer = 0 then none
  else do
    let layer ← d.manager.findLayer d.activeLayer
    let task ← d.layerTaskMap d.activeLayer
    if task = 0 then none else some (layer, task)

/-- The messages of `SendMouseMessage`. -/
def mouseMessages (relpos posdiff : Vector2D) (buttons previousButtons : UInt8) : List Message :=
  let move : List Message :=
    if posdiff.x ≠ 0 ∨ posdiff.y ≠ 0 then
      [⟨0, .mouseMove (.ofInt relpos.x) (.ofInt relpos.y) (.ofInt posdiff.x) (.ofInt posdiff.y) buttons⟩]
    else []
  let diff := (previousButtons ^^^ buttons).toBitVec
  let button := ((List.range 8).filter fun i => diff.getLsbD i).map fun i =>
    (⟨0, .mouseButton (.ofInt relpos.x) (.ofInt relpos.y) (buttons.toBitVec.getLsbD i) (.ofNat i)⟩ : Message)
  move ++ button

/-- `SendMouseMessage`. -/
def sendMouseMessage (newpos posdiff : Vector2D) (buttons previousButtons : UInt8) : Desktop :=
  match d.findActiveLayerTask with
  | none => d
  | some (layer, task) =>
    { d with sent := d.sent ++ (mouseMessages (newpos - layer.pos) posdiff buttons previousButtons).map (task, ·) }

/-- `SendCloseMessage`. -/
def sendCloseMessage : Desktop :=
  match d.findActiveLayerTask with
  | none => d
  | some (layer, task) => { d with sent := d.sent ++ [(task, ⟨0, .windowClose layer.id⟩)] }

/-- `ProcessLayerMessage`. -/
def processLayerMessage (op : LayerOperation) (id : UInt32) (x y w h : Int32) : Option Desktop := do
  return { d with manager := ← d.manager.operateOr unset op id x y w h }

end Desktop

/-! ### Windows and their classes -/

/-- The class of a window, with what the virtual functions for the close button make of the contents. -/
inductive WindowClass where
  | window
  | toplevel (isPrivileged : Bool) (mouseEnter mouseLeave : Bool → Contents → Contents)

namespace WindowClass

/-- `GetWindowRegion`, of a window of the given size. -/
def getWindowRegion (size pos : Vector2D) : WindowClass → WindowRegion
  | window => .other
  | toplevel isPrivileged _ _ => ToplevelWindow.getWindowRegion size isPrivileged pos

/-- `MouseEnterIntoCloseButton`. -/
def mouseEnterIntoCloseButton (isAlreadyActive : Bool) : WindowClass → Contents → Contents
  | window => id
  | toplevel _ mouseEnter _ => mouseEnter isAlreadyActive

/-- `MouseLeaveFromCloseButton`. -/
def mouseLeaveFromCloseButton (isAlreadyActive : Bool) : WindowClass → Contents → Contents
  | window => id
  | toplevel _ _ mouseLeave => mouseLeave isAlreadyActive

end WindowClass

/-- What `Layer` leaves out. -/
structure LayerTraits where
  /-- `draggable_`. -/
  draggable : Bool
  windowClass : WindowClass

/-- A `ToplevelWindow` that is to get a layer, with what draws its title bar. -/
structure NewWindow where
  window : Window
  mouseEnter : Bool → Contents → Contents
  mouseLeave : Bool → Contents → Contents

/-- The traits of its layer. -/
def NewWindow.traits (w : NewWindow) (isPrivileged : Bool) : LayerTraits :=
  ⟨true, .toplevel isPrivileged w.mouseEnter w.mouseLeave⟩

/-- `Mouse`. -/
structure Mouse where
  /-- `layer_id_`. -/
  layerID : UInt32
  /-- `visual_position_`. -/
  visualPosition : Vector2D
  /-- `drag_layer_id_`. -/
  dragLayerID : UInt32
  /-- `previous_buttons_`. -/
  previousButtons : UInt8

/-- `mouse_cursor_hitbox_offset`. -/
def mouseCursorHitboxOffset : Vector2D := ⟨10, 0⟩

/-- The left button in a report. -/
def leftPressed (buttons : UInt8) : Bool := buttons &&& 1 ≠ 0

/-- The layers, what is left out of them, and the mouse. -/
structure WindowSystem where
  desktop : Desktop
  traits : List (UInt32 × LayerTraits)
  mouse : Mouse

namespace WindowSystem

variable (unset : Rectangle) (s : WindowSystem)

/-- The traits of the layer that `FindLayer` finds. -/
def findTraits (id : UInt32) : Option LayerTraits := (s.traits.find? fun t => t.1 = id).map Prod.snd

/-- `NewLayer` and the calls that set up the layer; `latestID` is then its ID. -/
def newLayer (window : Window) (pos : Vector2D) (t : LayerTraits) : WindowSystem :=
  let m := s.desktop.manager.newLayer window pos
  { s with desktop.manager := m, traits := s.traits ++ [(m.latestID, t)] }

/-- `CloseLayer`. -/
def closeLayer (id : UInt32) : Option WindowSystem := do
  let (_, d) ← s.desktop.closeLayerOr unset id
  return { s with desktop := d, traits := s.traits.filter fun t => t.1 ≠ id }

/-- The contents of a layer's window change. -/
def repaint (id : UInt32) (f : Contents → Contents) : WindowSystem :=
  { s with desktop.manager := s.desktop.manager.updateLayer id fun l => l.repaint f }

/-! ### `Mouse::OnInterrupt` -/

/-- The left button is pressed: the layer whose close button it is, 0 if it is none. -/
def press : Option (WindowSystem × UInt32) := do
  match ← s.desktop.manager.findLayerByPosition s.mouse.visualPosition s.mouse.layerID with
  | none => return ({ s with desktop := ← s.desktop.activateOr unset 0 }, 0)
  | some layer =>
    let t ← s.findTraits layer.id
    if t.draggable then
      let posLayer := s.mouse.visualPosition + mouseCursorHitboxOffset - layer.pos
      let region := t.windowClass.getWindowRegion layer.window.size posLayer
      let dragLayerID := if region = .titleBar then layer.id else s.mouse.dragLayerID
      let closeLayerID := if region = .closeButton then layer.id else 0
      return ({ s with desktop := ← s.desktop.activateOr unset layer.id, mouse.dragLayerID := dragLayerID },
        closeLayerID)
    else
      return ({ s with desktop := ← s.desktop.activateOr unset 0 }, 0)

/-- The left button stays pressed. -/
def drag (posdiff : Vector2D) : Option WindowSystem :=
  if s.mouse.dragLayerID > 0 then do
    return { s with desktop.manager := ← s.desktop.manager.moveRelativeOr unset s.mouse.dragLayerID posdiff }
  else
    some s

/-- The left button is not pressed, and was not. -/
def hover : Option WindowSystem := do
  match ← s.desktop.manager.findLayerByPosition s.mouse.visualPosition s.mouse.layerID with
  | none => return s
  | some layer =>
    let t ← s.findTraits layer.id
    let posLayer := s.mouse.visualPosition + mouseCursorHitboxOffset - layer.pos
    let active := decide (s.desktop.activeLayer = layer.id)
    if t.windowClass.getWindowRegion layer.window.size posLayer = .closeButton then
      return s.repaint layer.id (t.windowClass.mouseEnterIntoCloseButton active)
    else
      return s.repaint layer.id (t.windowClass.mouseLeaveFromCloseButton active)

/-- What the report's buttons do, and the layer to close. -/
def onButtons (buttons : UInt8) (posdiff : Vector2D) : Option (WindowSystem × UInt32) :=
  match leftPressed s.mouse.previousButtons, leftPressed buttons with
  | false, true => s.press unset
  | true, true => do return (← s.drag unset posdiff, 0)
  | true, false => some ({ s with mouse.dragLayerID := 0 }, 0)
  | false, false => do return (← s.hover, 0)

/-- The messages at the end of a report. -/
def sendMessages (closeLayerID : UInt32) (newpos posdiff : Vector2D) (buttons previousButtons : UInt8) : WindowSystem :=
  if s.mouse.dragLayerID = 0 then
    if closeLayerID = 0 then
      { s with desktop := s.desktop.sendMouseMessage newpos posdiff buttons previousButtons }
    else { s with desktop := s.desktop.sendCloseMessage }
  else s

/-- `Mouse::OnInterrupt`. -/
def onInterrupt (buttons : UInt8) (displacementX displacementY : Int8) : Option WindowSystem := do
  let oldpos := s.mouse.visualPosition
  let newpos := elementMin (oldpos + ⟨displacementX.toInt, displacementY.toInt⟩)
    (s.desktop.manager.screen.size + ⟨-1, -1⟩)
  let visualPosition := elementMax newpos ⟨0, 0⟩
  let posdiff := visualPosition - oldpos
  let m ← s.desktop.manager.moveOr unset s.mouse.layerID visualPosition
  let s := { s with desktop.manager := m, mouse.visualPosition := visualPosition }
  let (s, closeLayerID) ← s.onButtons unset buttons posdiff
  let s := s.sendMessages closeLayerID newpos posdiff buttons s.mouse.previousButtons
  return { s with mouse.previousButtons := buttons }

/-! ### Tasks -/

/-- `layer_task_map->insert`. -/
def insertTask (id : UInt32) (task : UInt64) : WindowSystem :=
  { s with desktop.layerTaskMap := fun j => if j = id then (s.desktop.layerTaskMap j).or (some task)
    else s.desktop.layerTaskMap j }

/-- `SyscallOpenWindow`. -/
def syscallOpenWindow (task : UInt64) (w : NewWindow) (pos : Vector2D) : Option WindowSystem := do
  let s := s.newLayer w.window pos (w.traits false)
  let layerID := s.desktop.manager.latestID
  let s := { s with desktop := ← s.desktop.activateOr unset layerID }
  return s.insertTask layerID task

/-- The beginning of `TaskTerminal`, with `show_window`. -/
def openTerminal (task : UInt64) (w : NewWindow) : Option WindowSystem := do
  let s := s.newLayer w.window ⟨0, 0⟩ (w.traits false)
  let layerID := s.desktop.manager.latestID
  -- The layer is not on the stack yet.
  let s := { s with desktop.manager := ← s.desktop.manager.moveOr unset layerID ⟨100, 200⟩ }
  let s := s.insertTask layerID task
  return { s with desktop := ← s.desktop.activateOr unset layerID }

/-- The low half of an argument. -/
def layerIDOf (arg : UInt64) : UInt32 := arg.toUInt32

/-- `DoWinFunc`, with what the function makes of the contents. -/
def doWinFunc (layerIDFlags : UInt64) (f : Contents → Contents) : Option WindowSystem :=
  let layerFlags := layerIDFlags >>> 32
  let layerID := layerIDOf layerIDFlags
  match s.desktop.manager.findLayer layerID with
  | none => some s
  | some _ =>
    let s := s.repaint layerID f
    if layerFlags &&& 1 = 0 then do
      return { s with desktop.manager := ← s.desktop.manager.drawLayerOr unset layerID }
    else some s

/-- `SyscallCloseWindow`. -/
def syscallCloseWindow (arg1 : UInt64) : Option WindowSystem := s.closeLayer unset (layerIDOf arg1)

instance sentLawfulBEq : LawfulBEq (UInt64 × Message) := inferInstance

/-- A message is received. -/
def received (task : UInt64) (msg : Message) : WindowSystem :=
  { s with desktop.sent := s.desktop.sent.erase (task, msg) }

/-- The ID of the main task. -/
def mainTask : UInt64 := 1

/-- What happens to the window system. -/
inductive Event where
  /-- A report of the mouse. -/
  | report (buttons : UInt8) (displacementX displacementY : Int8)
  /-- `SyscallOpenWindow`. -/
  | openWindow (task : UInt64) (w : NewWindow) (pos : Vector2D)
  /-- `TaskTerminal` begins. -/
  | openTerminal (task : UInt64) (w : NewWindow)
  /-- One of the system calls that draw. -/
  | winFunc (layerIDFlags : UInt64) (f : Contents → Contents)
  /-- `SyscallCloseWindow`. -/
  | closeWindow (arg1 : UInt64)
  /-- `TaskTerminal` receives a close message. -/
  | closeMessage (task : UInt64) (srcTask : UInt64) (layerID : UInt32)
  /-- A task sends a layer message to the main task. -/
  | sendLayer (srcTask : UInt64) (op : LayerOperation) (layerID : UInt32) (x y w h : Int32)
  /-- The main task receives a layer message. -/
  | layerMessage (srcTask : UInt64) (op : LayerOperation) (layerID : UInt32) (x y w h : Int32)
  /-- A task receives a message and does nothing to the layers. -/
  | receive (task : UInt64) (msg : Message)
  /-- A task draws into its window. -/
  | paint (layerID : UInt32) (f : Contents → Contents)
  /-- The main task draws a window of its own, `Draw(id)`. -/
  | draw (layerID : UInt32)

/-- The effect of an event. -/
def perform (s : WindowSystem) (e : Rectangle × Event) : Option WindowSystem :=
  let unset := e.1
  match e.2 with
  | .report buttons displacementX displacementY => s.onInterrupt unset buttons displacementX displacementY
  | .openWindow task w pos => s.syscallOpenWindow unset task w pos
  | .openTerminal task w => s.openTerminal unset task w
  | .winFunc layerIDFlags f => s.doWinFunc unset layerIDFlags f
  | .closeWindow arg1 => s.syscallCloseWindow unset arg1
  | .closeMessage task srcTask layerID =>
    if (task, ⟨srcTask, .windowClose layerID⟩) ∈ s.desktop.sent then
      (s.received task ⟨srcTask, .windowClose layerID⟩).closeLayer unset layerID
    else none
  | .sendLayer srcTask op layerID x y w h =>
    some { s with desktop.sent := s.desktop.sent ++ [(mainTask, ⟨srcTask, .layer op layerID x y w h⟩)] }
  | .layerMessage srcTask op layerID x y w h =>
    if (mainTask, ⟨srcTask, .layer op layerID x y w h⟩) ∈ s.desktop.sent then do
      let s := s.received mainTask ⟨srcTask, .layer op layerID x y w h⟩
      return { s with desktop := ← s.desktop.processLayerMessage unset op layerID x y w h }
    else none
  | .receive task msg => if (task, msg) ∈ s.desktop.sent then some (s.received task msg) else none
  | .paint layerID f => some (s.repaint layerID f)
  | .draw layerID => do
    return { s with desktop.manager := ← s.desktop.manager.drawLayerOr unset layerID }

/-! ### The beginning -/

/-- `UpDown`, of the window system. -/
def upDown (id : UInt32) (newHeight : ℤ) : Option WindowSystem := do
  return { s with desktop.manager := ← s.desktop.manager.upDown id newHeight }

/-- `std::numeric_limits<int>::max()`. -/
def intMax : ℤ := 2147483647

/-- `Draw(area)`, of the window system. -/
def draw (area : Rectangle) : Option WindowSystem := do
  return { s with desktop.manager := ← s.desktop.manager.draw area }

/-- `InitializeLayer`. -/
def initializeLayer (background console : Window) : Option WindowSystem := do
  let s := s.newLayer background ⟨0, 0⟩ ⟨false, .window⟩
  let backgroundID := s.desktop.manager.latestID
  let s := s.newLayer console ⟨0, 0⟩ ⟨false, .window⟩
  let consoleID := s.desktop.manager.latestID
  let s ← s.upDown backgroundID 0
  s.upDown consoleID 1

/-- `InitializeCounterWindow` and `InitializeTextWindow`: a privileged window gets its layer, on top of the others. -/
def addPrivileged (w : NewWindow) (pos : Vector2D) : Option WindowSystem :=
  let s := s.newLayer w.window pos (w.traits true)
  s.upDown s.desktop.manager.latestID intMax

/-- `InitializeMouse`. -/
def initializeMouse (window : Window) : Option WindowSystem := do
  let s := s.newLayer window ⟨0, 0⟩ ⟨false, .window⟩
  let layerID := s.desktop.manager.latestID
  let visualPosition := (⟨200, 200⟩ : Vector2D) - mouseCursorHitboxOffset
  -- The layer is not on the stack yet.
  let m ← s.desktop.manager.moveOr unset layerID visualPosition
  let s : WindowSystem := ⟨{ s.desktop with manager := m, mouseLayer := layerID }, s.traits,
    ⟨layerID, visualPosition, 0, 0⟩⟩
  s.upDown layerID intMax

/-- The windows that the kernel creates. -/
structure BootWindows where
  background : Window
  console : Window
  counter : NewWindow
  normalText : NewWindow
  bhatText : NewWindow
  pekzepText : NewWindow
  mouse : Window

/-- No layers yet. -/
def blank (screen backBuffer : FrameBuffer) : WindowSystem where
  desktop := ⟨⟨screen, backBuffer, [], [], 0⟩, 0, 0, fun _ => none, []⟩
  traits := []
  mouse := ⟨0, ⟨0, 0⟩, 0, 0⟩

/-- `KernelMainNewStack`, from `InitializeLayer` to `InitializeMouse`. -/
def boot (screen backBuffer : FrameBuffer) (w : BootWindows) : Option WindowSystem := do
  let s ← (blank screen backBuffer).initializeLayer w.background w.console
  let s ← s.addPrivileged w.counter ⟨320, 70⟩
  let s ← s.addPrivileged w.normalText ⟨520, 70⟩
  let s ← s.addPrivileged w.bhatText ⟨320, 15⟩
  let s ← s.addPrivileged w.pekzepText ⟨320, 125⟩
  let s ← s.draw ⟨⟨0, 0⟩, screen.size⟩
  s.initializeMouse unset w.mouse

/-- The IDs of the layers of the counter and of the three text windows. -/
def privilegedIDs : List UInt32 := [3, 4, 5, 6]

/-- A black window. -/
def blackWindow (width height : ℕ) : Window where
  width := width
  height := height
  shadowFormat := .bgrResv8BitPerColor
  transparentColor := none
  contents := ⟨fun _ => ⟨0, 0, 0⟩, fun _ => ⟨0, 0, 0⟩⟩
  activate := id
  deactivate := id

/-- A black window that is to get a layer. -/
def newBlackWindow (width height : ℕ) : NewWindow := ⟨blackWindow width height, fun _ => id, fun _ => id⟩

/-- A black screen. -/
def blackScreen : FrameBuffer := ⟨768, 543, .bgrResv8BitPerColor, fun _ => ⟨0, 0, 0⟩⟩

/-- The windows that the kernel creates, black. -/
def blackWindows : BootWindows where
  background := blackWindow 768 543
  console := blackWindow 640 400
  counter := newBlackWindow 160 52
  normalText := newBlackWindow 168 52
  bhatText := newBlackWindow 368 52
  pekzepText := newBlackWindow 368 70
  mouse := blackWindow 18 24

end WindowSystem

end DuvuvurKernel
