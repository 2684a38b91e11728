import DuvuvurKernel.Graphics.WindowInvariant

/-!
# Where the pointer points

The hot spot of the cursor is 10 pixels to the right of `visual_position_`. `SetLogicalPosition` and the regions of a
window take this into account; `FindLayerByPosition` is called with `visual_position_` itself, and `SendMouseMessage`
with `newpos`, which has not been moved into the screen at the left and at the top either.

**Result** (`coherent_iff`): over all runs, all reports are coherent with the point that the hot spot is at just when
for every press and hover the same layer is on top there and at `visual_position_`, and no report sends a mouse message:
the first coordinate is always wrong (`message_beside`).
-/

namespace DuvuvurKernel

/-- The coordinates in a mouse message. -/
def MessageArg.mousePoint : MessageArg → Option (Int32 × Int32)
  | .mouseMove x y _ _ _ => some (x, y)
  | .mouseButton x y _ _ => some (x, y)
  | _ => none

namespace WindowSystem

open LayerManager Desktop Lib.Runs

variable (unset : Rectangle) (s : WindowSystem)

/-- Where the hot spot of the cursor is. -/
def hotSpot (visualPosition : Vector2D) : Vector2D := visualPosition + mouseCursorHitboxOffset

/-- The topmost layer at a position, other than the cursor. -/
def topmostAt (p : Vector2D) : Option Layer :=
  s.desktop.manager.shownLayers.reverse.find? fun l => l.id ≠ s.mouse.layerID ∧ l.area.Contains p

/-- The layer that a press at a position is for: the topmost one, if it can be dragged. -/
def pressedAt (p : Vector2D) : Option Layer :=
  (s.topmostAt p).filter fun l => (s.findTraits l.id).any LayerTraits.draggable

/-- The ID of a layer, 0 for none. -/
def idOf (layer : Option Layer) : UInt32 := layer.elim 0 Layer.id

/-- The region of a layer's window at a position. -/
def regionAt (layer : Layer) (p : Vector2D) : WindowRegion :=
  (s.findTraits layer.id).elim .other fun t => t.windowClass.getWindowRegion layer.window.size (p - layer.pos)

/-- `newpos` of a report. -/
def newpos (dx dy : Int8) : Vector2D :=
  elementMin (s.mouse.visualPosition + ⟨dx.toInt, dy.toInt⟩) (s.desktop.manager.screen.size + ⟨-1, -1⟩)

/-- `visual_position_` after a report. -/
def visualAfter (dx dy : Int8) : Vector2D := elementMax (s.newpos dx dy) ⟨0, 0⟩

/-- The beginning of `OnInterrupt`: the cursor is moved. -/
def moveCursor (dx dy : Int8) : Option WindowSystem :=
  (s.desktop.manager.moveOr unset s.mouse.layerID (s.visualAfter dx dy)).map fun m =>
    { s with desktop.manager := m, mouse.visualPosition := s.visualAfter dx dy }

/-- A call of `MouseEnterIntoCloseButton` or `MouseLeaveFromCloseButton` of `*active_layer`. -/
structure HoverCall where
  enters : Bool
  layerID : UInt32

/-- The call that a hover makes. -/
def hoverCall : Option (Option HoverCall) := do
  match ← s.desktop.manager.findLayerByPosition s.mouse.visualPosition s.mouse.layerID with
  | none => return none
  | some layer =>
    let t ← s.findTraits layer.id
    let posLayer := s.mouse.visualPosition + mouseCursorHitboxOffset - layer.pos
    return some ⟨decide (t.windowClass.getWindowRegion layer.window.size posLayer = .closeButton), layer.id⟩

/-- What the call does. -/
def performHover (call : HoverCall) : Option WindowSystem :=
  (s.findTraits call.layerID).map fun t =>
    let active := decide (s.desktop.activeLayer = call.layerID)
    s.repaint call.layerID (if call.enters then t.windowClass.mouseEnterIntoCloseButton active
      else t.windowClass.mouseLeaveFromCloseButton active)

/-- The messages that have been sent since. -/
def sentSince (s' : WindowSystem) : List Message := (s'.desktop.sent.drop s.desktop.sent.length).map Prod.snd

/-- A layer has a task that gets its messages. -/
def HasTask (id : UInt32) : Prop :=
  id ≠ 0 ∧ s.Found id ∧ ∃ task, s.desktop.layerTaskMap id = some task ∧ task ≠ 0

/-! ### What is asked of a report -/

/-- A report that takes `s` to `s'` is coherent with the point that the hot spot is at: a press activates, begins to
drag and closes no layer but the one it is for, a hover updates the topmost one, and the coordinates in the mouse
messages are those of the point, in the active layer. -/
structure Coherent (buttons : UInt8) (dx dy : Int8) (s' : WindowSystem) : Prop where
  pressed : leftPressed s.mouse.previousButtons = false → leftPressed buttons = true →
    s'.desktop.activeLayer = idOf (s.pressedAt (hotSpot s'.mouse.visualPosition)) ∧
      (s'.mouse.dragLayerID = s.mouse.dragLayerID ∨
        s'.mouse.dragLayerID = idOf (s.pressedAt (hotSpot s'.mouse.visualPosition))) ∧
      ∀ msg ∈ s.sentSince s', ∀ id, msg.arg = .windowClose id →
        id = idOf (s.pressedAt (hotSpot s'.mouse.visualPosition))
  hovered : leftPressed s.mouse.previousButtons = false → leftPressed buttons = false →
    ∀ s₁ call, s.moveCursor unset dx dy = some s₁ → s₁.hoverCall = some call →
      call.map HoverCall.layerID = (s.topmostAt (hotSpot s'.mouse.visualPosition)).map Layer.id
  messages : ∀ msg ∈ s.sentSince s', ∀ point, msg.arg.mousePoint = some point →
    ∃ layer, s'.desktop.manager.findLayer s'.desktop.activeLayer = some layer ∧
      point = (.ofInt (hotSpot s'.mouse.visualPosition - layer.pos).x,
        .ofInt (hotSpot s'.mouse.visualPosition - layer.pos).y)

/-- Apart from presses and releases, no message is sent: a layer is dragged, nothing is new, or the active layer has no
task. -/
def Silent (buttons : UInt8) (dx dy : Int8) : Prop :=
  s.mouse.dragLayerID ≠ 0 ∨ (s.visualAfter dx dy = s.mouse.visualPosition ∧ buttons = s.mouse.previousButtons) ∨
    ¬ s.HasTask s.desktop.activeLayer

/-- The same layer is on top at `visual_position_` and at the hot spot, and no mouse message is sent. -/
structure Coincides (buttons : UInt8) (dx dy : Int8) : Prop where
  pressed : leftPressed s.mouse.previousButtons = false → leftPressed buttons = true →
    idOf (s.pressedAt (s.visualAfter dx dy)) = idOf (s.pressedAt (hotSpot (s.visualAfter dx dy))) ∧
      ∀ layer, s.pressedAt (s.visualAfter dx dy) = some layer → s.mouse.dragLayerID ≠ 0 ∨
        s.regionAt layer (hotSpot (s.visualAfter dx dy)) = .titleBar ∨
        s.regionAt layer (hotSpot (s.visualAfter dx dy)) = .closeButton ∨ ¬ s.HasTask layer.id
  dragged : leftPressed s.mouse.previousButtons = true → leftPressed buttons = true → s.Silent buttons dx dy
  released : leftPressed s.mouse.previousButtons = true → leftPressed buttons = false →
    ¬ s.HasTask s.desktop.activeLayer
  hovered : leftPressed s.mouse.previousButtons = false → leftPressed buttons = false →
    (s.topmostAt (s.visualAfter dx dy)).map Layer.id = (s.topmostAt (hotSpot (s.visualAfter dx dy))).map Layer.id ∧
      s.Silent buttons dx dy

variable {unset : Rectangle} {s s' s₁ : WindowSystem} {buttons : UInt8} {dx dy : Int8} {p : Vector2D} {layer : Layer}

/-! ### The topmost layer -/

/-- A layer is on top at a position if it contains it, and no layer above it does. -/
theorem topmostAt_eq_some_iff : s.topmostAt p = some layer ↔
    (layer.id ≠ s.mouse.layerID ∧ layer.area.Contains p) ∧ ∃ below above,
      s.desktop.manager.shownLayers = below ++ layer :: above ∧
        ∀ l ∈ above, l.id ≠ s.mouse.layerID → ¬ l.area.Contains p := by
  rw [topmostAt, List.find?_eq_some_iff_append, decide_eq_true_iff]
  refine and_congr_right fun _ => ?_
  constructor
  · rintro ⟨above, below, heq, hall⟩
    refine ⟨below.reverse, above.reverse, ?_, fun l hl hid hp => ?_⟩
    · rw [← List.reverse_reverse s.desktop.manager.shownLayers, heq]
      simp
    · exact absurd (hall l (List.mem_reverse.mp hl)) (by simp [hid, hp])
  · rintro ⟨below, above, heq, hall⟩
    refine ⟨above.reverse, below.reverse, by rw [heq]; simp, fun l hl => ?_⟩
    have hnot := hall l (List.mem_reverse.mp hl)
    rw [Bool.not_eq_true', decide_eq_false_iff_not]
    exact fun hin => hnot hin.1 hin.2

theorem findLayerByPosition_eq (hs : s.Sound) (p : Vector2D) :
    s.desktop.manager.findLayerByPosition p s.mouse.layerID = some (s.topmostAt p) := by
  rw [findLayerByPosition, stackLayers_eq hs.linked]
  rfl

/-- A hover makes its call, if it makes any. -/
theorem hover_eq (s : WindowSystem) : s.hover = s.hoverCall.bind fun call => call.elim (some s) s.performHover := by
  unfold hover hoverCall
  cases s.desktop.manager.findLayerByPosition s.mouse.visualPosition s.mouse.layerID with
  | none => rfl
  | some found =>
    cases found with
    | none => rfl
    | some layer =>
      cases ht : s.findTraits layer.id with
      | none => simp [ht]
      | some t =>
        simp only [ht, Option.bind_eq_bind, Option.bind_some, performHover, Option.pure_def, Option.elim_some,
          Option.map_some]
        split
        next hregion => simp [hregion]
        next hregion => simp [hregion]

/-- The call is for the topmost layer at `visual_position_`. -/
theorem hoverCall_layerID (hs : s.Sound) {call : Option HoverCall} (h : s.hoverCall = some call) :
    call.map HoverCall.layerID = (s.topmostAt s.mouse.visualPosition).map Layer.id := by
  obtain ⟨found, hfound, h⟩ := Option.bind_eq_some_iff.mp h
  obtain rfl := Option.some_inj.mp ((findLayerByPosition_eq hs _).symm.trans hfound)
  cases htop : s.topmostAt s.mouse.visualPosition with
  | none =>
    rw [htop] at h
    cases h
    rfl
  | some layer =>
    rw [htop] at h
    obtain ⟨t, -, h⟩ := Option.bind_eq_some_iff.mp h
    cases h
    rfl

/-! ### The cursor is moved -/

theorem onInterrupt_eq (unset : Rectangle) (s : WindowSystem) (buttons : UInt8) (dx dy : Int8) :
    s.onInterrupt unset buttons dx dy = (s.moveCursor unset dx dy).bind fun s₁ =>
      (s₁.onButtons unset buttons (s.visualAfter dx dy - s.mouse.visualPosition)).bind fun r =>
        some { (r.1.sendMessages r.2 (s.newpos dx dy) (s.visualAfter dx dy - s.mouse.visualPosition) buttons
          r.1.mouse.previousButtons) with mouse.previousButtons := buttons } := by
  rw [moveCursor, Option.bind_map]
  rfl

theorem layers_moveOr {m m' : LayerManager} {id : UInt32} {pos : Vector2D} (h : m.moveOr unset id pos = some m') :
    m'.layers = updateFirst id (fun l => l.move pos) m.layers ∧ m'.layerStack = m.layerStack := by
  obtain ⟨layer, -, h⟩ := Option.bind_eq_some_iff.mp h
  obtain ⟨m₁, hdraw, h⟩ := Option.bind_eq_some_iff.mp h
  obtain ⟨layers₁, -, hdraw⟩ := Option.bind_eq_some_iff.mp hdraw
  obtain ⟨layers₂, -, h⟩ := Option.bind_eq_some_iff.mp h
  cases hdraw
  cases h
  exact ⟨rfl, rfl⟩

/-- A change of what is not looked for. -/
theorem find?_map_of_fixed {α : Type*} {f : α → α} {p : α → Bool} (hp : ∀ a, p (f a) = p a)
    (hf : ∀ a, p a = true → f a = a) (l : List α) : (l.map f).find? p = l.find? p := by
  rw [List.find?_map, show p ∘ f = p from funext hp]
  cases hfound : l.find? p with
  | none => rfl
  | some a => rw [Option.map_some, hf a (List.find?_some hfound)]

/-- Wherever the cursor is, the other layers are on top where they were. -/
theorem topmostAt_moveCursor (h : s.moveCursor unset dx dy = some s₁) (p : Vector2D) :
    s₁.topmostAt p = s.topmostAt p := by
  obtain ⟨m, hm, rfl⟩ := Option.map_eq_some_iff.mp h
  obtain ⟨hlayers, hstack⟩ := layers_moveOr hm
  have hfind : ∀ j, m.findLayer j = (s.desktop.manager.findLayer j).map fun l =>
      if j = s.mouse.layerID then l.move (s.visualAfter dx dy) else l := by
    intro j
    rw [findLayer, hlayers]
    exact find?_updateFirst (fun l => Layer.id_move l (s.visualAfter dx dy)) s.mouse.layerID j _
  have hshown : m.shownLayers = s.desktop.manager.shownLayers.map fun l =>
      if l.id = s.mouse.layerID then l.move (s.visualAfter dx dy) else l := by
    rw [shownLayers, hstack, shownLayers, List.map_filterMap]
    refine List.filterMap_congr fun j _ => ?_
    rw [hfind]
    cases hj : s.desktop.manager.findLayer j with
    | none => rfl
    | some l => rw [Option.map_some, Option.map_some, id_of_findLayer hj]
  unfold topmostAt
  dsimp only
  rw [hshown, ← List.map_reverse]
  refine find?_map_of_fixed (fun l => ?_) (fun l hl => ?_) _
  · by_cases hl : l.id = s.mouse.layerID
    · simp [hl]
    · rw [if_neg hl]
  · rw [decide_eq_true_iff] at hl
    exact if_neg hl.1

/-- The cursor is moved, and nothing else. -/
theorem moveCursor_spec (h : s.moveCursor unset dx dy = some s₁) :
    Calm s s₁ ∧ s₁.desktop.activeLayer = s.desktop.activeLayer ∧
      s₁.desktop.layerTaskMap = s.desktop.layerTaskMap ∧ s₁.desktop.sent = s.desktop.sent ∧
      s₁.mouse = { s.mouse with visualPosition := s.visualAfter dx dy } := by
  obtain ⟨m, hm, rfl⟩ := Option.map_eq_some_iff.mp h
  exact ⟨(Calm.of_manager (moveOr_keeps hm)).trans (.of_rest rfl rfl rfl fun _ hp => hp), rfl, rfl, rfl, rfl⟩

theorem pressedAt_moveCursor (h : s.moveCursor unset dx dy = some s₁) (p : Vector2D) :
    s₁.pressedAt p = s.pressedAt p := by
  have hcalm := (moveCursor_spec h).1
  unfold pressedAt
  rw [topmostAt_moveCursor h]
  simp only [hcalm.findTraits]

/-! ### What is sent when a layer is activated -/

/-- Some messages are sent which tell tasks that their layers are active or not. -/
structure Announces (d d' : Desktop) : Prop where
  sent : ∃ acts, d'.sent = d.sent ++ acts ∧ ∀ m ∈ acts, ∃ b, m.2.arg = .windowActive b
  task : d'.layerTaskMap = d.layerTaskMap

variable {d d' d'' : Desktop} {id : UInt32}

theorem Announces.of_rest (hsent : d'.sent = d.sent) (htask : d'.layerTaskMap = d.layerTaskMap) : Announces d d' :=
  ⟨⟨[], by rw [hsent, List.append_nil], by simp⟩, htask⟩

theorem Announces.trans (h : Announces d d') (h' : Announces d' d'') : Announces d d'' := by
  obtain ⟨acts, hsent, hacts⟩ := h.sent
  obtain ⟨acts', hsent', hacts'⟩ := h'.sent
  refine ⟨⟨acts ++ acts', by rw [hsent', hsent, List.append_assoc], fun m hm => ?_⟩, h'.task.trans h.task⟩
  exact (List.mem_append.mp hm).elim (hacts m) (hacts' m)

theorem announces_send (d : Desktop) (id : UInt32) (b : Bool) : Announces d (d.sendWindowActiveMessage id b) := by
  unfold Desktop.sendWindowActiveMessage
  cases d.layerTaskMap id with
  | none => exact .of_rest rfl rfl
  | some task => exact ⟨⟨[_], rfl, fun m hm => ⟨b, by rw [List.mem_singleton.mp hm]⟩⟩, rfl⟩

theorem activateOr_announces (h : d.activateOr unset id = some d') : Announces d d' ∧ d'.activeLayer = id := by
  unfold activateOr at h
  split at h
  next heq =>
    cases h
    exact ⟨.of_rest rfl rfl, heq⟩
  next =>
    obtain ⟨d₁, hd₁, h⟩ := Option.bind_eq_some_iff.mp h
    have hact := (activateNewOr_spec h).2.1
    have hold : Announces d d₁ := by
      unfold deactivateOldOr at hd₁
      split at hd₁
      · obtain ⟨l, hl, hd₁⟩ := Option.bind_eq_some_iff.mp hd₁
        obtain ⟨m, hm, hd₁⟩ := Option.bind_eq_some_iff.mp hd₁
        cases hd₁
        exact (Announces.of_rest rfl rfl : Announces d { d with manager := m }).trans (announces_send ..)
      · cases hd₁
        exact .of_rest rfl rfl
    have hnew : Announces d₁ d' := by
      unfold activateNewOr at h
      dsimp only at h
      split at h
      · obtain ⟨l, hl, h⟩ := Option.bind_eq_some_iff.mp h
        obtain ⟨m₁, hm₁, h⟩ := Option.bind_eq_some_iff.mp h
        obtain ⟨m₂, hm₂, h⟩ := Option.bind_eq_some_iff.mp h
        obtain ⟨m₃, hm₃, h⟩ := Option.bind_eq_some_iff.mp h
        cases h
        exact (Announces.of_rest rfl rfl : Announces d₁ { d₁ with manager := m₃, activeLayer := id }).trans
          (announces_send ..)
      · cases h
        exact .of_rest rfl rfl
    exact ⟨hold.trans hnew, hact⟩

/-! ### What the buttons do -/

/-- What a press does: it is for the layer that is on top at `visual_position_`. -/
structure Acted (s : WindowSystem) (p : Vector2D) (s' : WindowSystem) (closeLayerID : UInt32) : Prop where
  active : s'.desktop.activeLayer = idOf (s.pressedAt p)
  nothing : s.pressedAt p = none → s'.mouse.dragLayerID = s.mouse.dragLayerID ∧ closeLayerID = 0
  layer : ∀ layer, s.pressedAt p = some layer →
    s'.mouse.dragLayerID = (if s.regionAt layer (hotSpot p) = .titleBar then layer.id else s.mouse.dragLayerID) ∧
      closeLayerID = if s.regionAt layer (hotSpot p) = .closeButton then layer.id else 0

/-- What is common to all branches. -/
structure Rest (s s' : WindowSystem) : Prop where
  announces : Announces s.desktop s'.desktop
  visual : s'.mouse.visualPosition = s.mouse.visualPosition
  buttons : s'.mouse.previousButtons = s.mouse.previousButtons

variable {c : UInt32}

theorem press_acts (hs : s.Sound) (h : s.press unset = some (s', c)) :
    Acted s s.mouse.visualPosition s' c ∧ Rest s s' := by
  obtain ⟨found, hfound, h⟩ := Option.bind_eq_some_iff.mp h
  obtain rfl := Option.some_inj.mp ((findLayerByPosition_eq hs _).symm.trans hfound)
  cases htop : s.topmostAt s.mouse.visualPosition with
  | none =>
    have hpressed : s.pressedAt s.mouse.visualPosition = none := by rw [pressedAt, htop]; rfl
    rw [htop] at h
    obtain ⟨d, hd, h⟩ := Option.bind_eq_some_iff.mp h
    cases h
    obtain ⟨hannounces, hact⟩ := activateOr_announces hd
    exact ⟨⟨by rw [hpressed]; exact hact, fun _ => ⟨rfl, rfl⟩, by simp [hpressed]⟩, hannounces, rfl, rfl⟩
  | some layer =>
    rw [htop] at h
    obtain ⟨t, ht, h⟩ := Option.bind_eq_some_iff.mp h
    dsimp only at h
    split at h
    next hdraggable =>
      have hpressed : s.pressedAt s.mouse.visualPosition = some layer := by
        simp [pressedAt, htop, ht, hdraggable, Option.filter]
      have hregion : s.regionAt layer (hotSpot s.mouse.visualPosition) = t.windowClass.getWindowRegion
          layer.window.size (s.mouse.visualPosition + mouseCursorHitboxOffset - layer.pos) := by
        rw [regionAt, ht]
        rfl
      obtain ⟨d, hd, h⟩ := Option.bind_eq_some_iff.mp h
      cases h
      obtain ⟨hannounces, hact⟩ := activateOr_announces hd
      refine ⟨⟨by rw [hpressed]; exact hact, by simp [hpressed], fun l hl => ?_⟩, hannounces, rfl, rfl⟩
      obtain rfl := Option.some_inj.mp (hpressed.symm.trans hl)
      rw [hregion]
      exact ⟨rfl, rfl⟩
    next hdraggable =>
      have hpressed : s.pressedAt s.mouse.visualPosition = none := by
        simp [pressedAt, htop, ht, hdraggable, Option.filter]
      obtain ⟨d, hd, h⟩ := Option.bind_eq_some_iff.mp h
      cases h
      obtain ⟨hannounces, hact⟩ := activateOr_announces hd
      exact ⟨⟨by rw [hpressed]; exact hact, fun _ => ⟨rfl, rfl⟩, by simp [hpressed]⟩, hannounces, rfl, rfl⟩

/-- The other branches: no layer is activated or closed, and a release ends a drag. -/
structure Unpressed (s s' : WindowSystem) (closeLayerID : UInt32) (buttons : UInt8) : Prop where
  active : s'.desktop.activeLayer = s.desktop.activeLayer
  close : closeLayerID = 0
  drag : s'.mouse.dragLayerID = if leftPressed s.mouse.previousButtons = true ∧ leftPressed buttons = false then 0
    else s.mouse.dragLayerID

/-- A drag and a hover change nothing but layers. -/
theorem exists_manager_drag {posdiff : Vector2D} (h : s.drag unset posdiff = some s') :
    ∃ m, s' = { s with desktop.manager := m } := by
  unfold drag at h
  split at h
  · obtain ⟨m, -, h⟩ := Option.bind_eq_some_iff.mp h
    cases h
    exact ⟨m, rfl⟩
  · cases h
    exact ⟨_, rfl⟩

theorem exists_manager_hover (h : s.hover = some s') : ∃ m, s' = { s with desktop.manager := m } := by
  obtain ⟨found, -, h⟩ := Option.bind_eq_some_iff.mp h
  cases found with
  | none =>
    cases h
    exact ⟨_, rfl⟩
  | some layer =>
    obtain ⟨t, -, h⟩ := Option.bind_eq_some_iff.mp h
    dsimp only at h
    split at h
    all_goals
      cases h
      exact ⟨_, rfl⟩

theorem onButtons_acts (hs : s.Sound) {posdiff : Vector2D} (h : s.onButtons unset buttons posdiff = some (s', c)) :
    Rest s s' ∧ (leftPressed s.mouse.previousButtons = false → leftPressed buttons = true →
        Acted s s.mouse.visualPosition s' c) ∧
      (¬ (leftPressed s.mouse.previousButtons = false ∧ leftPressed buttons = true) → Unpressed s s' c buttons) := by
  unfold onButtons at h
  split at h
  next hprevious hnow =>
    obtain ⟨hacted, hrest⟩ := press_acts hs h
    exact ⟨hrest, fun _ _ => hacted, fun hnot => absurd ⟨hprevious, hnow⟩ hnot⟩
  next hprevious hnow =>
    obtain ⟨s₁, hdrag, h⟩ := Option.bind_eq_some_iff.mp h
    obtain ⟨m, rfl⟩ := exists_manager_drag hdrag
    cases h
    exact ⟨⟨.of_rest rfl rfl, rfl, rfl⟩, by simp [hprevious], fun _ => ⟨rfl, rfl, by simp [hnow]⟩⟩
  next hprevious hnow =>
    cases h
    exact ⟨⟨.of_rest rfl rfl, rfl, rfl⟩, by simp [hprevious], fun _ => ⟨rfl, rfl, by simp [hprevious, hnow]⟩⟩
  next hprevious hnow =>
    obtain ⟨s₁, hhover, h⟩ := Option.bind_eq_some_iff.mp h
    obtain ⟨m, rfl⟩ := exists_manager_hover hhover
    cases h
    exact ⟨⟨.of_rest rfl rfl, rfl, rfl⟩, by simp [hnow], fun _ => ⟨rfl, rfl, by simp [hprevious]⟩⟩

/-! ### The messages -/

theorem findActiveLayerTask_eq_some {task : UInt64} (h : s.desktop.findActiveLayerTask = some (layer, task)) :
    s.HasTask s.desktop.activeLayer ∧ s.desktop.manager.findLayer s.desktop.activeLayer = some layer := by
  unfold Desktop.findActiveLayerTask at h
  split at h
  · cases h
  next h0 =>
    obtain ⟨l, hl, h⟩ := Option.bind_eq_some_iff.mp h
    obtain ⟨t, ht, h⟩ := Option.bind_eq_some_iff.mp h
    split at h
    · cases h
    next ht0 =>
      cases h
      exact ⟨⟨h0, Option.isSome_iff_exists.mpr ⟨layer, hl⟩, task, ht, ht0⟩, hl⟩

theorem findActiveLayerTask_eq_none (h : s.desktop.findActiveLayerTask = none) :
    ¬ s.HasTask s.desktop.activeLayer := by
  rintro ⟨h0, hfound, task, htask, ht0⟩
  obtain ⟨layer, hlayer⟩ := Option.isSome_iff_exists.mp hfound
  have hsome : s.desktop.findActiveLayerTask = some (layer, task) := by
    rw [Desktop.findActiveLayerTask, if_neg h0, hlayer, htask]
    exact if_neg ht0
  rw [hsome] at h
  cases h

/-- All messages of `SendMouseMessage` have the same coordinates. -/
theorem mousePoint_mouseMessages {relpos posdiff : Vector2D} {buttons previousButtons : UInt8} {msg : Message}
    (h : msg ∈ mouseMessages relpos posdiff buttons previousButtons) :
    msg.arg.mousePoint = some (.ofInt relpos.x, .ofInt relpos.y) := by
  unfold mouseMessages at h
  rcases List.mem_append.mp h with hmove | hbutton
  · split at hmove
    · rw [List.mem_singleton.mp hmove]
      rfl
    · cases hmove
  · obtain ⟨i, -, rfl⟩ := List.mem_map.mp hbutton
    rfl

/-- There are none if nothing is new. -/
theorem mouseMessages_eq_nil_iff (relpos : Vector2D) {posdiff : Vector2D} {buttons previousButtons : UInt8} :
    mouseMessages relpos posdiff buttons previousButtons = [] ↔ posdiff = ⟨0, 0⟩ ∧ buttons = previousButtons := by
  unfold mouseMessages
  rw [List.append_eq_nil_iff]
  refine and_congr ?_ ?_
  · split
    next hmoved => exact iff_of_false (List.cons_ne_nil _ _) fun heq => by simp [heq] at hmoved
    next hmoved => exact iff_of_true rfl (Vector2D.ext (not_not.mp fun hx => hmoved (.inl hx))
        (not_not.mp fun hy => hmoved (.inr hy)))
  · rw [List.map_eq_nil_iff, List.filter_eq_nil_iff]
    constructor
    · intro hbits
      refine UInt8.toBitVec_inj.mp (BitVec.eq_of_getLsbD_eq fun i hi => ?_)
      have hbit := hbits i (List.mem_range.mpr hi)
      rw [UInt8.toBitVec_xor, BitVec.getLsbD_xor, Bool.not_eq_true, bne_eq_false_iff_eq] at hbit
      exact hbit.symm
    · rintro rfl i _
      simp

theorem ofInt_ne {a b : ℤ} (hlt : a < b) (hnear : b < a + 2 ^ 32) : Int32.ofInt a ≠ Int32.ofInt b := by
  intro heq
  have hbmod := congrArg Int32.toInt heq
  rw [Int32.toInt_ofInt, Int32.toInt_ofInt, Int.bmod_def, Int.bmod_def] at hbmod
  have hsize : ((Int32.size : ℕ) : ℤ) = 2 ^ 32 := rfl
  rw [hsize] at hbmod
  split at hbmod <;> split at hbmod <;> omega

/-- The point that is sent with the messages is to the left of the hot spot. -/
theorem message_beside (h : 0 ≤ s.mouse.visualPosition.x) (dx dy : Int8) (pos : Vector2D) :
    Int32.ofInt (s.newpos dx dy - pos).x ≠ Int32.ofInt (hotSpot (s.visualAfter dx dy) - pos).x := by
  have hdx := dx.le_toInt
  have hnewpos : (s.newpos dx dy).x = min (s.mouse.visualPosition.x + dx.toInt)
      (s.desktop.manager.screen.width + -1) := rfl
  have hpointer : (hotSpot (s.visualAfter dx dy)).x = max (s.newpos dx dy).x 0 + 10 := rfl
  refine ofInt_ne ?_ ?_ <;> rw [Vector2D.sub_x, Vector2D.sub_x, hpointer] <;> omega

/-- No mouse message is sent: a layer is dragged or closed, nothing is new, or the active layer has no task. -/
def Quiet (s : WindowSystem) (closeLayerID : UInt32) (still : Prop) (has : UInt32 → Prop) : Prop :=
  s.mouse.dragLayerID ≠ 0 ∨ closeLayerID ≠ 0 ∨ still ∨ ¬ has s.desktop.activeLayer

/-- The messages at the end of a report. -/
structure LastMessages (s : WindowSystem) (newpos : Vector2D) (silent : Prop) (last : List (UInt64 × Message)) :
    Prop where
  close : ∀ m ∈ last, ∀ id, m.2.arg = .windowClose id → id = s.desktop.activeLayer
  mouse : ∀ m ∈ last, ∀ point, m.2.arg.mousePoint = some point →
    ∃ layer, s.desktop.manager.findLayer s.desktop.activeLayer = some layer ∧
      point = (.ofInt (newpos - layer.pos).x, .ofInt (newpos - layer.pos).y)
  silent_iff : (∀ m ∈ last, m.2.arg.mousePoint = none) ↔ silent

theorem LastMessages.of_nil {newpos : Vector2D} {silent : Prop} (hsilent : silent) :
    LastMessages s newpos silent [] :=
  ⟨by simp, by simp, iff_of_true (by simp) hsilent⟩

/-- A close message. -/
theorem LastMessages.of_close {newpos : Vector2D} {silent : Prop} (hsilent : silent)
    (hlayer : s.desktop.manager.findLayer s.desktop.activeLayer = some layer) (task : UInt64) :
    LastMessages s newpos silent [(task, ⟨0, .windowClose layer.id⟩)] := by
  refine ⟨fun m hm id hid => ?_, fun m hm point hpoint => ?_, iff_of_true (fun m hm => ?_) hsilent⟩
  · rw [List.mem_singleton.mp hm] at hid
    cases hid
    exact id_of_findLayer hlayer
  · rw [List.mem_singleton.mp hm] at hpoint
    cases hpoint
  · rw [List.mem_singleton.mp hm]
    rfl

/-- Mouse messages, if there are any. -/
theorem LastMessages.of_mouse {newpos : Vector2D} {silent : Prop} {msgs : List Message}
    (hlayer : s.desktop.manager.findLayer s.desktop.activeLayer = some layer)
    (hpoint : ∀ msg ∈ msgs, msg.arg.mousePoint = some (.ofInt (newpos - layer.pos).x, .ofInt (newpos - layer.pos).y))
    (hsilent : silent ↔ msgs = []) (task : UInt64) : LastMessages s newpos silent (msgs.map (task, ·)) := by
  refine ⟨fun m hm id hid => ?_, fun m hm point hmp => ?_, ?_⟩
  · obtain ⟨msg, hmsg, rfl⟩ := List.mem_map.mp hm
    have hmp := hpoint msg hmsg
    rw [hid] at hmp
    cases hmp
  · obtain ⟨msg, hmsg, rfl⟩ := List.mem_map.mp hm
    exact ⟨layer, hlayer, Option.some_inj.mp (hmp.symm.trans (hpoint msg hmsg))⟩
  · rw [hsilent]
    constructor
    · intro hall
      refine List.eq_nil_iff_forall_not_mem.mpr fun msg hmsg => ?_
      have hmp := (hpoint msg hmsg).symm.trans (hall _ (List.mem_map_of_mem hmsg))
      cases hmp
    · rintro rfl
      simp

theorem sendMessages_acts (s : WindowSystem) (c : UInt32) (newpos posdiff : Vector2D)
    (buttons previousButtons : UInt8) :
    ∃ last, (s.sendMessages c newpos posdiff buttons previousButtons).desktop.sent = s.desktop.sent ++ last ∧
      LastMessages s newpos (s.Quiet c (posdiff = ⟨0, 0⟩ ∧ buttons = previousButtons) s.HasTask) last := by
  unfold sendMessages
  split
  next hdrag =>
    cases htask : s.desktop.findActiveLayerTask with
    | none =>
      refine ⟨[], ?_, .of_nil (.inr (.inr (.inr (findActiveLayerTask_eq_none htask))))⟩
      rw [List.append_nil]
      split
      · rw [Desktop.sendMouseMessage, htask]
      · rw [Desktop.sendCloseMessage, htask]
    | some found =>
      obtain ⟨layer, task⟩ := found
      obtain ⟨hhas, hlayer⟩ := findActiveLayerTask_eq_some htask
      split
      next hc =>
        refine ⟨_, by rw [Desktop.sendMouseMessage, htask],
          .of_mouse hlayer (fun msg hmsg => mousePoint_mouseMessages hmsg) ?_ task⟩
        rw [mouseMessages_eq_nil_iff, Quiet, hdrag, hc, ne_self_iff_false, false_or, false_or,
          or_iff_left (not_not.mpr hhas)]
      next hc => exact ⟨_, by rw [Desktop.sendCloseMessage, htask], .of_close (.inr (.inl hc)) hlayer task⟩
  next hdrag => exact ⟨[], (List.append_nil _).symm, .of_nil (.inl hdrag)⟩

/-! ### A report -/

theorem hasTask_iff (hfound : ∀ id, s'.Found id ↔ s.Found id) (htask : s'.desktop.layerTaskMap = s.desktop.layerTaskMap)
    (id : UInt32) : s'.HasTask id ↔ s.HasTask id := by
  rw [HasTask, HasTask, hfound, htask]

theorem Acted.of_moveCursor {s₂ : WindowSystem} (hmove : s.moveCursor unset dx dy = some s₁)
    (h : Acted s₁ s₁.mouse.visualPosition s₂ c) : Acted s (s.visualAfter dx dy) s₂ c := by
  obtain ⟨hcalm, -, -, -, hmouse⟩ := moveCursor_spec hmove
  obtain ⟨hactive, hnothing, hlayer⟩ := h
  simp only [hmouse, pressedAt_moveCursor hmove, regionAt, hcalm.findTraits] at hactive hnothing hlayer
  exact ⟨hactive, hnothing, hlayer⟩

theorem Unpressed.of_moveCursor {s₂ : WindowSystem} (hmove : s.moveCursor unset dx dy = some s₁)
    (h : Unpressed s₁ s₂ c buttons) : Unpressed s s₂ c buttons := by
  obtain ⟨-, hactive₁, -, -, hmouse⟩ := moveCursor_spec hmove
  obtain ⟨hactive, hclose, hdrag⟩ := h
  rw [hmouse] at hdrag
  exact ⟨hactive.trans hactive₁, hclose, hdrag⟩

/-- What a report does: the cursor is moved, the buttons do what they do (`s₂`), and the messages are sent. -/
structure Reported (s : WindowSystem) (buttons : UInt8) (dx dy : Int8) (s₂ : WindowSystem) (closeLayerID : UInt32)
    (acts last : List (UInt64 × Message)) (s' : WindowSystem) : Prop where
  manager : s'.desktop.manager = s₂.desktop.manager
  active : s'.desktop.activeLayer = s₂.desktop.activeLayer
  visual : s'.mouse.visualPosition = s.visualAfter dx dy
  drag : s'.mouse.dragLayerID = s₂.mouse.dragLayerID
  sent : s'.desktop.sent = s.desktop.sent ++ (acts ++ last)
  acts : ∀ m ∈ acts, ∃ b, m.2.arg = .windowActive b
  last : LastMessages s₂ (s.newpos dx dy) (s₂.Quiet closeLayerID
    (s.visualAfter dx dy = s.mouse.visualPosition ∧ buttons = s.mouse.previousButtons) s.HasTask) last
  acted : leftPressed s.mouse.previousButtons = false → leftPressed buttons = true →
    Acted s (s.visualAfter dx dy) s₂ closeLayerID
  unpressed : ¬ (leftPressed s.mouse.previousButtons = false ∧ leftPressed buttons = true) →
    Unpressed s s₂ closeLayerID buttons

theorem onInterrupt_reported (hs : s.Sound) (h : s.onInterrupt unset buttons dx dy = some s') :
    ∃ s₂ c acts last, Reported s buttons dx dy s₂ c acts last s' := by
  rw [onInterrupt_eq] at h
  obtain ⟨s₁, hmove, h⟩ := Option.bind_eq_some_iff.mp h
  obtain ⟨⟨s₂, c⟩, hbuttons, h⟩ := Option.bind_eq_some_iff.mp h
  obtain ⟨hcalm, hactive₁, htask₁, hsent₁, hmouse₁⟩ := moveCursor_spec hmove
  have hs₁ := hcalm.sound hs
  obtain ⟨hrest, hacted, hunpressed⟩ := onButtons_acts hs₁ hbuttons
  have hcalm₂ := (onButtons_spec hs₁ hbuttons).1
  obtain ⟨acts, hacts, hwindow⟩ := hrest.announces.sent
  have hprevious : s₂.mouse.previousButtons = s.mouse.previousButtons := by rw [hrest.buttons, hmouse₁]
  have hvisual : s₂.mouse.visualPosition = s.visualAfter dx dy := by rw [hrest.visual, hmouse₁]
  have hhas : s₂.HasTask = s.HasTask := funext fun id => propext <|
    hasTask_iff (hcalm.trans hcalm₂).found (hrest.announces.task.trans htask₁) id
  have hposdiff : s.visualAfter dx dy - s.mouse.visualPosition = ⟨0, 0⟩ ↔
      s.visualAfter dx dy = s.mouse.visualPosition := by
    rw [Vector2D.ext_iff, Vector2D.ext_iff, Vector2D.sub_x, Vector2D.sub_y]
    exact and_congr Int.sub_eq_zero Int.sub_eq_zero
  obtain ⟨d, hsend, hmanager, hactive, -⟩ := sendMessages_spec s₂ c (s.newpos dx dy)
    (s.visualAfter dx dy - s.mouse.visualPosition) buttons s₂.mouse.previousButtons
  obtain ⟨last, hsent, hlast⟩ := sendMessages_acts s₂ c (s.newpos dx dy)
    (s.visualAfter dx dy - s.mouse.visualPosition) buttons s₂.mouse.previousButtons
  rw [hposdiff, hprevious, hhas] at hlast
  rw [hsend] at h hsent
  obtain rfl := Option.some_inj.mp h
  have hbuttons₁ : s₁.mouse.previousButtons = s.mouse.previousButtons := by rw [hmouse₁]
  rw [hbuttons₁] at hacted hunpressed
  exact ⟨s₂, c, acts, last, {
    manager := hmanager
    active := hactive
    visual := hvisual
    drag := rfl
    sent := by rw [hsent, hacts, hsent₁, List.append_assoc]
    acts := hwindow
    last := hlast
    acted := fun hprevious hnow => (hacted hprevious hnow).of_moveCursor hmove
    unpressed := fun hnot => (hunpressed hnot).of_moveCursor hmove }⟩

/-- A hover makes its call for the layer that is on top at `visual_position_`. -/
theorem hover_call (hs : s.Sound) (h : s.onInterrupt unset buttons dx dy = some s')
    (hprevious : leftPressed s.mouse.previousButtons = false) (hnow : leftPressed buttons = false) :
    ∃ s₁ call, s.moveCursor unset dx dy = some s₁ ∧ s₁.hoverCall = some call ∧
      call.map HoverCall.layerID = (s.topmostAt (s.visualAfter dx dy)).map Layer.id := by
  rw [onInterrupt_eq] at h
  obtain ⟨s₁, hmove, h⟩ := Option.bind_eq_some_iff.mp h
  obtain ⟨⟨s₂, c⟩, hbuttons, -⟩ := Option.bind_eq_some_iff.mp h
  obtain ⟨hcalm, -, -, -, hmouse⟩ := moveCursor_spec hmove
  have hprevious₁ : leftPressed s₁.mouse.previousButtons = false := by rw [hmouse, hprevious]
  rw [onButtons, hprevious₁, hnow] at hbuttons
  obtain ⟨s₃, hhover, -⟩ := Option.bind_eq_some_iff.mp hbuttons
  rw [hover_eq] at hhover
  obtain ⟨call, hcall, -⟩ := Option.bind_eq_some_iff.mp hhover
  refine ⟨s₁, call, hmove, hcall, ?_⟩
  rw [hoverCall_layerID (hcalm.sound hs) hcall, topmostAt_moveCursor hmove, hmouse]

section

variable {s₂ : WindowSystem} {acts last : List (UInt64 × Message)} {still : Prop} {has : UInt32 → Prop}

theorem Reported.sentSince_eq (h : Reported s buttons dx dy s₂ c acts last s') :
    s.sentSince s' = (acts ++ last).map Prod.snd := by
  rw [sentSince, h.sent, List.drop_left]

/-- No mouse message is coherent. -/
theorem Reported.messages_iff (h : Reported s buttons dx dy s₂ c acts last s') (h0 : 0 ≤ s.mouse.visualPosition.x) :
    (∀ msg ∈ s.sentSince s', ∀ point, msg.arg.mousePoint = some point →
      ∃ layer, s'.desktop.manager.findLayer s'.desktop.activeLayer = some layer ∧
        point = (.ofInt (hotSpot s'.mouse.visualPosition - layer.pos).x,
          .ofInt (hotSpot s'.mouse.visualPosition - layer.pos).y)) ↔
      s₂.Quiet c (s.visualAfter dx dy = s.mouse.visualPosition ∧ buttons = s.mouse.previousButtons) s.HasTask := by
  rw [← h.last.silent_iff, h.sentSince_eq, h.manager, h.active, h.visual]
  constructor
  · intro hall m hm
    by_contra hsome
    obtain ⟨point, hpoint⟩ := Option.ne_none_iff_exists'.mp hsome
    obtain ⟨layer, hlayer, heq⟩ := hall _ (List.mem_map_of_mem (List.mem_append_right _ hm)) point hpoint
    obtain ⟨layer', hlayer', heq'⟩ := h.last.mouse m hm point hpoint
    obtain rfl := Option.some_inj.mp (hlayer.symm.trans hlayer')
    exact message_beside h0 dx dy layer.pos (Prod.ext_iff.mp (heq'.symm.trans heq)).1
  · intro hnone msg hmsg point hpoint
    obtain ⟨m, hm, rfl⟩ := List.mem_map.mp hmsg
    rcases List.mem_append.mp hm with hact | hlast
    · obtain ⟨b, hb⟩ := h.acts m hact
      rw [hb] at hpoint
      cases hpoint
    · rw [hnone m hlast] at hpoint
      cases hpoint

/-- The close messages of a report are for the active layer. -/
theorem Reported.close (h : Reported s buttons dx dy s₂ c acts last s') {msg : Message} (hmsg : msg ∈ s.sentSince s')
    {id : UInt32} (hid : msg.arg = .windowClose id) : id = s'.desktop.activeLayer := by
  rw [h.sentSince_eq] at hmsg
  obtain ⟨m, hm, rfl⟩ := List.mem_map.mp hmsg
  rcases List.mem_append.mp hm with hact | hlast
  · obtain ⟨b, hb⟩ := h.acts m hact
    rw [hb] at hid
    cases hid
  · rw [h.active]
    exact h.last.close m hlast id hid

theorem Acted.drag (hacted : Acted s p s₂ c) :
    s₂.mouse.dragLayerID = s.mouse.dragLayerID ∨ s₂.mouse.dragLayerID = idOf (s.pressedAt p) := by
  cases hpressed : s.pressedAt p with
  | none => exact .inl (hacted.nothing hpressed).1
  | some layer =>
    rw [(hacted.layer layer hpressed).1]
    split
    · exact .inr rfl
    · exact .inl rfl

/-- A press sends no mouse message if it begins a drag or closes a layer, or the layer has no task. -/
theorem Acted.quiet_pressed_iff (hacted : Acted s p s₂ c) (h0 : ¬ has 0) (hstill : ¬ still) :
    s₂.Quiet c still has ↔ ∀ layer, s.pressedAt p = some layer → s.mouse.dragLayerID ≠ 0 ∨
      s.regionAt layer (hotSpot p) = .titleBar ∨ s.regionAt layer (hotSpot p) = .closeButton ∨ ¬ has layer.id := by
  rw [Quiet, hacted.active]
  cases hpressed : s.pressedAt p with
  | none => exact iff_of_true (.inr (.inr (.inr h0))) (by simp)
  | some layer =>
    obtain ⟨hdrag, hclose⟩ := hacted.layer layer hpressed
    have hid : idOf (some layer) = layer.id := rfl
    rw [hdrag, hclose, hid]
    by_cases hzero : layer.id = 0
    · have hnot : ¬ has layer.id := hzero ▸ h0
      refine iff_of_true (.inr (.inr (.inr hnot))) fun l hl => ?_
      obtain rfl := Option.some_inj.mp hl
      exact .inr (.inr (.inr hnot))
    · cases hregion : s.regionAt layer (hotSpot p) <;> simp [hregion, hzero, hstill]

theorem Unpressed.quiet_unpressed_iff (h : Unpressed s s₂ c buttons)
    (hheld : ¬ (leftPressed s.mouse.previousButtons = true ∧ leftPressed buttons = false)) :
    s₂.Quiet c still has ↔ s.mouse.dragLayerID ≠ 0 ∨ still ∨ ¬ has s.desktop.activeLayer := by
  rw [Quiet, h.drag, if_neg hheld, h.active, h.close, ne_self_iff_false, false_or]

/-- A release sends its message if there is a task. -/
theorem Unpressed.quiet_iff_released (h : Unpressed s s₂ c buttons) (hstill : ¬ still)
    (hreleased : leftPressed s.mouse.previousButtons = true ∧ leftPressed buttons = false) :
    s₂.Quiet c still has ↔ ¬ has s.desktop.activeLayer := by
  rw [Quiet, h.drag, if_pos hreleased, h.active, h.close, ne_self_iff_false, false_or, false_or, or_iff_right hstill]

end

/-- When a report sends no mouse message. -/
theorem Reported.quiet_cases {s₂ : WindowSystem} {acts last : List (UInt64 × Message)}
    (hr : Reported s buttons dx dy s₂ c acts last s') :
    s₂.Quiet c (s.visualAfter dx dy = s.mouse.visualPosition ∧ buttons = s.mouse.previousButtons) s.HasTask ↔
      (leftPressed s.mouse.previousButtons = false → leftPressed buttons = true →
        ∀ layer, s.pressedAt (s.visualAfter dx dy) = some layer → s.mouse.dragLayerID ≠ 0 ∨
          s.regionAt layer (hotSpot (s.visualAfter dx dy)) = .titleBar ∨
          s.regionAt layer (hotSpot (s.visualAfter dx dy)) = .closeButton ∨ ¬ s.HasTask layer.id) ∧
      (leftPressed s.mouse.previousButtons = true → leftPressed buttons = false →
        ¬ s.HasTask s.desktop.activeLayer) ∧
      (leftPressed s.mouse.previousButtons = leftPressed buttons → s.Silent buttons dx dy) := by
  have hzero : ¬ s.HasTask 0 := fun hhas => hhas.1 rfl
  -- Pressing and releasing the button is something new.
  have hstill : leftPressed s.mouse.previousButtons ≠ leftPressed buttons →
      ¬ (s.visualAfter dx dy = s.mouse.visualPosition ∧ buttons = s.mouse.previousButtons) :=
    fun hne heq => hne (by rw [heq.2])
  cases hprevious : leftPressed s.mouse.previousButtons with
  | false =>
    cases hnow : leftPressed buttons with
    | false =>
      rw [(hr.unpressed (by simp [hnow])).quiet_unpressed_iff (by simp [hprevious])]
      simp [Silent]
    | true =>
      rw [(hr.acted hprevious hnow).quiet_pressed_iff hzero (hstill (by simp [hprevious, hnow]))]
      simp
  | true =>
    have hunpressed := hr.unpressed (by simp [hprevious])
    cases hnow : leftPressed buttons with
    | false =>
      rw [hunpressed.quiet_iff_released (hstill (by simp [hprevious, hnow])) ⟨hprevious, hnow⟩]
      simp
    | true =>
      rw [hunpressed.quiet_unpressed_iff (by simp [hnow])]
      simp [Silent]

/-- **A report** is coherent with the hot spot just when the same layer is on top there and at `visual_position_`, and
no mouse message is sent. -/
theorem onInterrupt_coherent_iff (hs : s.Sound) (h0 : 0 ≤ s.mouse.visualPosition.x)
    (h : s.onInterrupt unset buttons dx dy = some s') :
    s.Coherent unset buttons dx dy s' ↔ s.Coincides buttons dx dy := by
  obtain ⟨s₂, c, acts, last, hr⟩ := onInterrupt_reported hs h
  have hmessages := (hr.messages_iff h0).trans hr.quiet_cases
  constructor
  · rintro ⟨hpressed, hhovered, hpoints⟩
    obtain ⟨hpress, hrelease, hsilent⟩ := hmessages.mp hpoints
    refine ⟨fun hprevious hnow => ⟨?_, hpress hprevious hnow⟩,
      fun hprevious hnow => hsilent (hprevious.trans hnow.symm), hrelease,
      fun hprevious hnow => ⟨?_, hsilent (hprevious.trans hnow.symm)⟩⟩
    · rw [← (hr.acted hprevious hnow).active, ← hr.active, (hpressed hprevious hnow).1, hr.visual]
    · obtain ⟨s₁, call, hmove, hcall, hid⟩ := hover_call hs h hprevious hnow
      rw [← hid, hhovered hprevious hnow s₁ call hmove hcall, hr.visual]
  · rintro ⟨hpressed, hdragged, hreleased, hhovered⟩
    refine ⟨fun hprevious hnow => ?_, fun hprevious hnow s₁ call hmove hcall => ?_,
      hmessages.mpr ⟨fun hprevious hnow => (hpressed hprevious hnow).2, hreleased, fun hsame => ?_⟩⟩
    · have hacted := hr.acted hprevious hnow
      have hsame := (hpressed hprevious hnow).1
      have hactive : s'.desktop.activeLayer = idOf (s.pressedAt (hotSpot s'.mouse.visualPosition)) := by
        rw [hr.active, hacted.active, hsame, hr.visual]
      refine ⟨hactive, ?_, fun msg hmsg id hid => (hr.close hmsg hid).trans hactive⟩
      rw [hr.drag, hr.visual, ← hsame]
      exact hacted.drag
    · obtain ⟨s₁', call', hmove', hcall', hid⟩ := hover_call hs h hprevious hnow
      obtain rfl := Option.some_inj.mp (hmove.symm.trans hmove')
      obtain rfl := Option.some_inj.mp (hcall.symm.trans hcall')
      rw [hid, (hhovered hprevious hnow).1, hr.visual]
    · cases hprevious : leftPressed s.mouse.previousButtons with
      | false => exact (hhovered hprevious (hsame.symm.trans hprevious)).2
      | true => exact hdragged hprevious (hsame.symm.trans hprevious)

/-! ### Runs -/

/-- Only a report moves the mouse. -/
theorem mouse_perform (hs : s.Sound) {e : Rectangle × Event} (h : s.perform e = some s')
    (hreport : ∀ buttons dx dy, e.2 ≠ .report buttons dx dy) : s'.mouse = s.mouse := by
  obtain ⟨unset, e⟩ := e
  unfold perform at h
  cases e with
  | report buttons dx dy => exact absurd rfl (hreport buttons dx dy)
  | openWindow task w pos =>
    obtain ⟨d, -, h⟩ := Option.bind_eq_some_iff.mp h
    cases h
    rfl
  | openTerminal task w =>
    obtain ⟨m, -, h⟩ := Option.bind_eq_some_iff.mp h
    obtain ⟨d, -, h⟩ := Option.bind_eq_some_iff.mp h
    cases h
    rfl
  | winFunc layerIDFlags f => exact (doWinFunc_calm h).2
  | closeWindow arg1 =>
    obtain ⟨s₁, hclose, -, -, hmouse, -⟩ := closeLayer_spec hs unset (layerIDOf arg1)
    rwa [Option.some_inj.mp (h.symm.trans hclose)]
  | closeMessage task srcTask layerID =>
    obtain ⟨-, h⟩ := Option.ite_none_right_eq_some.mp h
    obtain ⟨s₁, hclose, -, -, hmouse, -⟩ := closeLayer_spec ((received_calm s task _).sound hs) unset layerID
    rwa [Option.some_inj.mp (h.symm.trans hclose)]
  | sendLayer srcTask op layerID x y w height =>
    cases h
    rfl
  | layerMessage srcTask op layerID x y w height =>
    obtain ⟨-, h⟩ := Option.ite_none_right_eq_some.mp h
    obtain ⟨d, -, h⟩ := Option.bind_eq_some_iff.mp h
    cases h
    rfl
  | receive task msg =>
    obtain ⟨-, h⟩ := Option.ite_none_right_eq_some.mp h
    cases h
    rfl
  | paint layerID f =>
    cases h
    rfl
  | draw layerID =>
    obtain ⟨m, -, h⟩ := Option.bind_eq_some_iff.mp h
    cases h
    rfl

/-- The cursor is not to the left of the screen. -/
structure OnScreen (s : WindowSystem) : Prop where
  sound : s.Sound
  left : 0 ≤ s.mouse.visualPosition.x

/-- An event keeps the cursor on the screen. -/
theorem OnScreen.perform (h : s.OnScreen) {e : Rectangle × Event} (hs : s.perform e = some s') : s'.OnScreen := by
  refine ⟨(perform_effect h.sound hs).sound, ?_⟩
  by_cases hreport : ∀ buttons dx dy, e.2 ≠ .report buttons dx dy
  · rw [mouse_perform h.sound hs hreport]
    exact h.left
  · obtain ⟨unset, e⟩ := e
    simp only [ne_eq, not_forall, not_not] at hreport
    obtain ⟨buttons, dx, dy, rfl⟩ := hreport
    obtain ⟨s₂, c, acts, last, hr⟩ := onInterrupt_reported h.sound hs
    rw [hr.visual]
    exact le_max_right _ _

/-- A report in a run is coherent. -/
def CoherentReport (s : WindowSystem) (e : Rectangle × Event) : Prop :=
  ∀ buttons dx dy s', e.2 = .report buttons dx dy → s.perform e = some s' → s.Coherent e.1 buttons dx dy s'

/-- The conditions hold at a report that is defined. -/
def CoincidesAt (s : WindowSystem) (e : Rectangle × Event) : Prop :=
  ∀ buttons dx dy, e.2 = .report buttons dx dy → (∃ s', s.perform e = some s') → s.Coincides buttons dx dy

/-- **The pointer.** From all states with the cursor on the screen, over all runs: all reports are coherent with the hot
spot of the cursor just when at each of them the same layer is on top there and at `visual_position_`, and no mouse
message is sent. -/
theorem coherent_iff (h : s.OnScreen) (events : List (Rectangle × Event)) :
    Along perform CoherentReport s events ↔ Along perform CoincidesAt s events := by
  refine Along.congr (fun s e (h : s.OnScreen) => ?_) (fun s e s' h _ hs => h.perform hs) h
  obtain ⟨unset, e⟩ := e
  constructor
  · rintro hall buttons dx dy rfl ⟨s', hs⟩
    exact (onInterrupt_coherent_iff h.sound h.left hs).mp (hall buttons dx dy s' rfl hs)
  · rintro hall buttons dx dy s' rfl hs
    exact (onInterrupt_coherent_iff h.sound h.left hs).mpr (hall buttons dx dy rfl ⟨s', hs⟩)

/-- A window of 100 by 50 pixels with a task, at (5, 0), and the cursor. -/
def oneWindow (active : UInt32) (visualPosition : Vector2D) : WindowSystem where
  desktop := ⟨⟨blackScreen, blackScreen, [⟨1, ⟨5, 0⟩, blackWindow 100 50⟩, ⟨2, visualPosition, blackWindow 1 1⟩],
    [1, 2], 2⟩, active, 2, fun id => if id = 1 then some 5 else none, []⟩
  traits := [(1, (newBlackWindow 100 50).traits false), (2, ⟨false, .window⟩)]
  mouse := ⟨2, visualPosition, 0, 0⟩

theorem onScreen_oneWindow {active : UInt32} (hactive : active ∈ [0, 1]) {visualPosition : Vector2D}
    (h : 0 ≤ visualPosition.x) : (oneWindow active visualPosition).OnScreen := by
  refine ⟨⟨fun j hj => ?_, (by decide : [(1 : UInt32), 2].Nodup), fun h0 => ?_, rfl⟩, h⟩
  · have hids : j = 1 ∨ j = 2 := by simpa [oneWindow] using hj
    rcases hids with rfl | rfl
    · exact ⟨_, rfl⟩
    · exact ⟨_, rfl⟩
  · have hids : active = 0 ∨ active = 1 := by simpa using hactive
    rcases hids with rfl | rfl
    · exact absurd rfl h0
    · rfl

/-- The title bar of the window is pressed, at a distance from its left end. -/
theorem coherent_iff_titleBar : Along perform CoherentReport (oneWindow 0 ⟨20, 5⟩)
    [(⟨⟨0, 0⟩, ⟨0, 0⟩⟩, .report 1 0 0)] := by
  refine (coherent_iff (onScreen_oneWindow (by decide) (by decide)) _).mpr ⟨?_, fun _ _ => trivial⟩
  rintro _ _ _ heq -
  cases heq
  refine ⟨fun _ _ => ⟨rfl, fun layer hlayer => ?_⟩, fun hprevious => absurd hprevious (by decide),
    fun hprevious => absurd hprevious (by decide), fun _ hnow => absurd hnow (by decide)⟩
  cases hlayer
  exact .inr (.inl rfl)

/-- The cursor is moved by a pixel: the coordinates in the message are wrong. The window is pressed with the hot spot
only: it is not activated. -/
theorem pointer_apart :
    ((oneWindow 1 ⟨0, 0⟩).OnScreen ∧
      ¬ Along perform CoherentReport (oneWindow 1 ⟨0, 0⟩) [(⟨⟨0, 0⟩, ⟨0, 0⟩⟩, .report 0 1 0)]) ∧
    (oneWindow 0 ⟨0, 0⟩).OnScreen ∧
      ¬ Along perform CoherentReport (oneWindow 0 ⟨0, 0⟩) [(⟨⟨0, 0⟩, ⟨0, 0⟩⟩, .report 1 0 0)] := by
  have h : (oneWindow 1 ⟨0, 0⟩).OnScreen := onScreen_oneWindow (by decide) le_rfl
  have h' : (oneWindow 0 ⟨0, 0⟩).OnScreen := onScreen_oneWindow (by decide) le_rfl
  refine ⟨⟨h, ?_⟩, h', ?_⟩
  · rintro ⟨hreport, -⟩
    have hdefined : ((oneWindow 1 ⟨0, 0⟩).perform (⟨⟨0, 0⟩, ⟨0, 0⟩⟩, .report 0 1 0)).isSome := rfl
    obtain ⟨s', hs⟩ := Option.isSome_iff_exists.mp hdefined
    have hcoincides := (onInterrupt_coherent_iff h.sound h.left hs).mp (hreport 0 1 0 s' rfl hs)
    rcases (hcoincides.hovered rfl rfl).2 with hdrag | hstill | hnone
    · exact hdrag rfl
    · exact absurd hstill.1 (by decide)
    · exact hnone ⟨by decide, rfl, 5, rfl, by decide⟩
  · rintro ⟨hreport, -⟩
    have hdefined : ((oneWindow 0 ⟨0, 0⟩).perform (⟨⟨0, 0⟩, ⟨0, 0⟩⟩, .report 1 0 0)).isSome := rfl
    obtain ⟨s', hs⟩ := Option.isSome_iff_exists.mp hdefined
    have hcoincides := (onInterrupt_coherent_iff h'.sound h'.left hs).mp (hreport 1 0 0 s' rfl hs)
    exact absurd (hcoincides.pressed rfl rfl).1 (by decide)

end WindowSystem

end DuvuvurKernel
