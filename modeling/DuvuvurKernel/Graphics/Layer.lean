import DuvuvurKernel.Graphics.Window
import DuvuvurKernel.Task.Message
import Mathlib.Data.List.Basic

/-!
# Layers

`layer.cpp`: the layers, the manager that stacks and draws them, the active layer, and
`CloseLayer`.

## The model

`layer_stack_` holds pointers to layers. Every pointer put there is what `FindLayer`
returned for an ID, so the model keeps the ID, and a pointer is followed by looking the
ID up again. Of two layers with one ID (`latest_id_` is an `unsigned int` and wraps)
`FindLayer` only ever finds the older one, and `RemoveLayer` removes both.

Every layer is given its window in the expression that creates it, so a layer here has
a window. An operation returns `none` where the source follows a null or a dangling
pointer, or reads a variable it has not set.

What `SendWindowActiveMessage` hands to the task manager is appended to `sent`. Of a
layer whether it can be dragged is left out.
-/

namespace DuvuvurKernel

/-- `Layer`. -/
structure Layer where
  /-- `id_`. -/
  id : UInt32
  /-- `pos_`. -/
  pos : Vector2D
  /-- `window_`. -/
  window : Window

namespace Layer

/-- The area the layer's window takes. -/
def area (l : Layer) : Rectangle := ⟨l.pos, l.window.size⟩

/-- `Layer::DrawTo`. -/
def drawTo (l : Layer) (screen : FrameBuffer) (area : Rectangle) : FrameBuffer :=
  l.window.drawTo screen l.pos area

/-- `Layer::Move`. -/
def move (l : Layer) (pos : Vector2D) : Layer := { l with pos := pos }

/-- `Layer::MoveRelative`. -/
def moveRelative (l : Layer) (posDiff : Vector2D) : Layer := { l with pos := l.pos + posDiff }

/-- The window's contents changed. -/
def repaint (l : Layer) (f : Contents → Contents) : Layer :=
  { l with window := { l.window with contents := f l.window.contents } }

end Layer

/-- `LayerManager`. -/
structure LayerManager where
  /-- `*screen_`. -/
  screen : FrameBuffer
  /-- `back_buffer_`. -/
  backBuffer : FrameBuffer
  /-- `layers_`. -/
  layers : List Layer
  /-- `layer_stack_`, bottom first. -/
  layerStack : List UInt32
  /-- `latest_id_`. -/
  latestID : UInt32

/-- A change of the first layer with an ID. -/
def updateFirst (id : UInt32) (f : Layer → Layer) : List Layer → List Layer
  | [] => []
  | l :: ls => if l.id = id then f l :: ls else l :: updateFirst id f ls

namespace LayerManager

/-- `NewLayer`, with `SetWindow` and `Move` called on the new layer. -/
def newLayer (m : LayerManager) (window : Window) (pos : Vector2D) : LayerManager :=
  let id := m.latestID + 1
  { m with latestID := id, layers := m.layers ++ [⟨id, pos, window⟩] }

/-- `FindLayer`. -/
def findLayer (m : LayerManager) (id : UInt32) : Option Layer := m.layers.find? fun l => l.id = id

/-- A change of the layer `FindLayer` finds. -/
def updateLayer (m : LayerManager) (id : UInt32) (f : Layer → Layer) : LayerManager :=
  { m with layers := updateFirst id f m.layers }

/-- The layers on the stack. -/
def stackLayers (m : LayerManager) : Option (List Layer) := m.layerStack.mapM m.findLayer

/-- `Draw(area)`. -/
def draw (m : LayerManager) (area : Rectangle) : Option LayerManager := do
  let layers ← m.stackLayers
  let back := layers.foldl (fun back l => l.drawTo back area) m.backBuffer
  return { m with backBuffer := back, screen := m.screen.copied area.pos back area }

/-- The variables of the loop in `Draw(id, area)`. -/
structure DrawState where
  area : Rectangle
  /-- `window_area`, once it is set; `draw` is true from then on. -/
  windowArea : Option Rectangle
  /-- `back_buffer_`. -/
  back : FrameBuffer

/-- The body of the loop in `Draw(id, area)`. -/
def drawStep (id : UInt32) (s : DrawState) (layer : Layer) : DrawState :=
  let s :=
    if layer.id = id then
      if s.area.size.x ≥ 0 ∨ s.area.size.y ≥ 0 then
        let area : Rectangle := ⟨s.area.pos + layer.area.pos, s.area.size⟩
        { s with area := area, windowArea := some (layer.area &&& area) }
      else
        { s with windowArea := some layer.area }
    else s
  match s.windowArea with
  | some windowArea => { s with back := layer.drawTo s.back windowArea }
  | none => s

/-- `Draw(id, area)`. If no layer on the stack has the ID, `window_area` is not set. -/
def drawArea (m : LayerManager) (id : UInt32) (area : Rectangle) : Option LayerManager := do
  let layers ← m.stackLayers
  let s := layers.foldl (drawStep id) ⟨area, none, m.backBuffer⟩
  let windowArea ← s.windowArea
  return { m with backBuffer := s.back, screen := m.screen.copied windowArea.pos s.back windowArea }

/-- `Draw(id)`. -/
def drawLayer (m : LayerManager) (id : UInt32) : Option LayerManager :=
  m.drawArea id ⟨⟨0, 0⟩, ⟨-1, -1⟩⟩

/-- What `Move` and `MoveRelative` have in common: the layer changes its place, and the
old place and the new one are drawn. -/
def moveWith (m : LayerManager) (id : UInt32) (f : Layer → Layer) : Option LayerManager := do
  let layer ← m.findLayer id
  let m := m.updateLayer id f
  let m ← m.draw layer.area
  m.drawLayer id

/-- `Move`. -/
def move (m : LayerManager) (id : UInt32) (newPos : Vector2D) : Option LayerManager :=
  m.moveWith id fun l => l.move newPos

/-- `MoveRelative`. -/
def moveRelative (m : LayerManager) (id : UInt32) (posDiff : Vector2D) : Option LayerManager :=
  m.moveWith id fun l => l.moveRelative posDiff

/-- `Hide`. -/
def hide (m : LayerManager) (id : UInt32) : LayerManager :=
  match m.findLayer id with
  | some _ => { m with layerStack := m.layerStack.erase id }
  | none => m

/-- `UpDown`. For an ID without a layer it would put a null pointer on the stack. -/
def upDown (m : LayerManager) (id : UInt32) (newHeight : ℤ) : Option LayerManager :=
  if newHeight < 0 then
    some (m.hide id)
  else do
    let size := m.layerStack.length
    let newPos := min newHeight.toNat size
    let _ ← m.findLayer id
    if id ∉ m.layerStack then
      return { m with layerStack := m.layerStack.insertIdx newPos id }
    -- `new_pos` is an iterator from before the erasure: it keeps its index.
    let newPos := if newPos = size then size - 1 else newPos
    return { m with layerStack := (m.layerStack.erase id).insertIdx newPos id }

/-- `RemoveLayer`. -/
def removeLayer (m : LayerManager) (id : UInt32) : LayerManager :=
  let m := m.hide id
  { m with layers := m.layers.filter fun l => l.id ≠ id }

/-- `GetHeight`. -/
def getHeight (m : LayerManager) (id : UInt32) : ℤ :=
  match m.layerStack.idxOf? id with
  | some h => h
  | none => -1

end LayerManager

/-- The global variables of `layer.cpp`. -/
structure Desktop where
  /-- `*layer_manager`. -/
  manager : LayerManager
  /-- `active_layer_` of `*active_layer`. -/
  activeLayer : UInt32
  /-- `mouse_layer_` of `*active_layer`. -/
  mouseLayer : UInt32
  /-- `*layer_task_map`. -/
  layerTaskMap : UInt32 → Option UInt64
  /-- The messages sent, each with the task it is sent to. -/
  sent : List (UInt64 × Message)

namespace Desktop

/-- `SendWindowActiveMessage`, whose callers drop the error it returns. -/
def sendWindowActiveMessage (d : Desktop) (layerID : UInt32) (activate : Bool) : Desktop :=
  match d.layerTaskMap layerID with
  | none => d
  | some task => { d with sent := d.sent ++ [(task, ⟨0, .windowActive activate⟩)] }

/-- The part of `Activate` that concerns the layer that was active. -/
def deactivateOld (d : Desktop) : Option Desktop :=
  if d.activeLayer > 0 then do
    let _ ← d.manager.findLayer d.activeLayer
    let m := d.manager.updateLayer d.activeLayer fun l => l.repaint l.window.deactivate
    let m ← m.drawLayer d.activeLayer
    return { d with manager := m }.sendWindowActiveMessage d.activeLayer false
  else
    some d

/-- The part of `Activate` that concerns the layer that becomes active. -/
def activateNew (d : Desktop) (layerID : UInt32) : Option Desktop :=
  let d := { d with activeLayer := layerID }
  if layerID > 0 then do
    let _ ← d.manager.findLayer layerID
    let m := d.manager.updateLayer layerID fun l => l.repaint l.window.activate
    let m ← m.upDown layerID 0
    let m ← m.upDown layerID (m.getHeight d.mouseLayer - 1)
    let m ← m.drawLayer layerID
    return { d with manager := m }.sendWindowActiveMessage layerID true
  else
    some d

/-- `ActiveLayer::Activate`. -/
def activate (d : Desktop) (layerID : UInt32) : Option Desktop :=
  if d.activeLayer = layerID then
    some d
  else do
    let d ← d.deactivateOld
    d.activateNew layerID

/-- `CloseLayer`. -/
def closeLayer (d : Desktop) (layerID : UInt32) : Option (Except Error Unit × Desktop) :=
  match d.manager.findLayer layerID with
  | none => some (.error .noSuchEntry, d)
  | some layer => do
    let d ← d.activate 0
    let m := d.manager.removeLayer layerID
    let m ← m.draw layer.area
    return (.ok (), { d with
      manager := m, layerTaskMap := fun id => if id = layerID then none else d.layerTaskMap id })

/-! ### Operations -/

/-- What tasks do with the layers. -/
inductive Op where
  /-- A layer is created, with its window and position. -/
  | newLayer (window : Window) (pos : Vector2D)
  /-- `LayerManager::Move`. -/
  | move (id : UInt32) (pos : Vector2D)
  /-- `LayerManager::MoveRelative`. -/
  | moveRelative (id : UInt32) (posDiff : Vector2D)
  /-- Something is drawn into a window, and then `Draw(id)`. -/
  | repaint (id : UInt32) (f : Contents → Contents)
  /-- `ActiveLayer::Activate`. -/
  | activate (id : UInt32)
  /-- `CloseLayer`. -/
  | closeLayer (id : UInt32)

/-- The effect of an operation. -/
def step (d : Desktop) : Op → Option Desktop
  | .newLayer window pos => some { d with manager := d.manager.newLayer window pos }
  | .move id pos => (d.manager.move id pos).map fun m => { d with manager := m }
  | .moveRelative id posDiff =>
    (d.manager.moveRelative id posDiff).map fun m => { d with manager := m }
  | .repaint id f => do
    let _ ← d.manager.findLayer id
    let m ← (d.manager.updateLayer id fun l => l.repaint f).drawLayer id
    return { d with manager := m }
  | .activate id => d.activate id
  | .closeLayer id => (d.closeLayer id).map Prod.snd

end Desktop

end DuvuvurKernel
