import DuvuvurKernel.Graphics.Layer
import Mathlib.Data.List.Nodup

/-!
# The layer stack

What the operations of `layer.cpp` do to the layers and to the stack, one equation for
each of them, on states in which every ID on the stack is that of a layer (`Linked`).

The drawing operations are said in terms of `redraw`: some of the layers are drawn over
the back buffer, clipped to an area, and the area is copied to the screen. `Draw(area)`
draws all layers of the stack, `Draw(id)` those from the layer upwards (`layersFrom`),
clipped to its window.
-/

namespace DuvuvurKernel

/-! ### Layers by ID -/

/-- A change of the layer with one ID, as `FindLayer` sees it. -/
theorem find?_updateFirst {f : Layer → Layer} (hf : ∀ l, (f l).id = l.id) (id j : UInt32)
    (ls : List Layer) : (updateFirst id f ls).find? (fun l => l.id = j) =
      (ls.find? fun l => l.id = j).map fun l => if j = id then f l else l := by
  induction ls with
  | nil => rfl
  | cons l ls ih =>
    by_cases hl : l.id = id
    · rw [updateFirst, if_pos hl]
      by_cases hj : l.id = j
      · have hj' : j = id := hj.symm.trans hl
        rw [List.find?_cons_of_pos (by simpa [hf] using hj),
          List.find?_cons_of_pos (by simpa using hj), Option.map_some, if_pos hj']
      · have hj' : j ≠ id := fun h => hj (hl.trans h.symm)
        rw [List.find?_cons_of_neg (by simpa [hf] using hj),
          List.find?_cons_of_neg (by simpa using hj)]
        simp [hj']
    · rw [updateFirst, if_neg hl]
      by_cases hj : l.id = j
      · have hj' : j ≠ id := fun h => hl (hj.trans h)
        rw [List.find?_cons_of_pos (by simpa using hj), List.find?_cons_of_pos (by simpa using hj),
          Option.map_some, if_neg hj']
      · rw [List.find?_cons_of_neg (by simpa using hj), List.find?_cons_of_neg (by simpa using hj),
          ih]

@[simp] theorem Layer.id_move (l : Layer) (pos : Vector2D) : (l.move pos).id = l.id := rfl

@[simp] theorem Layer.id_moveRelative (l : Layer) (d : Vector2D) : (l.moveRelative d).id = l.id := rfl

@[simp] theorem Layer.id_repaint (l : Layer) (f : Contents → Contents) : (l.repaint f).id = l.id := rfl

namespace LayerManager

variable {m : LayerManager} {id : UInt32} {l : Layer}

theorem id_of_findLayer (h : m.findLayer id = some l) : l.id = id := by
  have := List.find?_some h
  simpa using this

theorem findLayer_updateLayer {f : Layer → Layer} (hf : ∀ l, (f l).id = l.id) (m : LayerManager)
    (id j : UInt32) : (m.updateLayer id f).findLayer j =
      (m.findLayer j).map fun l => if j = id then f l else l :=
  find?_updateFirst hf id j m.layers

theorem findLayer_newLayer (m : LayerManager) (w : Window) (pos : Vector2D) (j : UInt32) :
    (m.newLayer w pos).findLayer j = (m.findLayer j).or
      (if m.latestID + 1 = j then some ⟨m.latestID + 1, pos, w⟩ else none) := by
  unfold findLayer newLayer
  rw [List.find?_append]
  congr 1
  by_cases h : m.latestID + 1 = j <;> simp [h]

theorem layers_hide (m : LayerManager) (id : UInt32) : (m.hide id).layers = m.layers := by
  unfold hide
  cases m.findLayer id <;> rfl

theorem findLayer_removeLayer (m : LayerManager) (id j : UInt32) :
    (m.removeLayer id).findLayer j = if j = id then none else m.findLayer j := by
  simp only [findLayer, removeLayer, layers_hide, List.find?_filter]
  by_cases h : j = id
  · subst h
    simp
  · rw [if_neg h]
    congr 1
    funext l
    by_cases hl : l.id = j
    · simp [hl, h]
    · simp [hl]

/-- Every ID on the stack is that of a layer. -/
def Linked (m : LayerManager) : Prop := ∀ id ∈ m.layerStack, ∃ l, m.findLayer id = some l

/-- The layers on the stack. -/
def shownLayers (m : LayerManager) : List Layer := m.layerStack.filterMap m.findLayer

/-- The layers on the stack from one ID upwards. -/
def layersFrom (m : LayerManager) (id : UInt32) : List Layer :=
  (m.layerStack.dropWhile fun j => j ≠ id).filterMap m.findLayer

theorem stackLayers_eq (h : m.Linked) : m.stackLayers = some m.shownLayers := by
  have hlist : ∀ ids : List UInt32, (∀ id ∈ ids, ∃ l, m.findLayer id = some l) →
      ids.mapM m.findLayer = some (ids.filterMap m.findLayer) := by
    intro ids hids
    induction ids with
    | nil => rfl
    | cons id ids ih =>
      obtain ⟨l, hl⟩ := hids id (List.mem_cons_self ..)
      have ih' := ih fun j hj => hids j (List.mem_cons_of_mem _ hj)
      simp [List.mapM_cons, hl, ih']
  exact hlist m.layerStack h

/-! ### Drawing -/

/-- Some layers drawn over the back buffer, and an area of it copied to the screen. -/
def redraw (m : LayerManager) (layers : List Layer) (area : Rectangle) : LayerManager :=
  let back := layers.foldl (fun back l => l.drawTo back area) m.backBuffer
  { m with backBuffer := back, screen := m.screen.copied area.pos back area }

@[simp] theorem layers_redraw (m : LayerManager) (ls : List Layer) (area : Rectangle) :
    (m.redraw ls area).layers = m.layers := rfl

@[simp] theorem layerStack_redraw (m : LayerManager) (ls : List Layer) (area : Rectangle) :
    (m.redraw ls area).layerStack = m.layerStack := rfl

@[simp] theorem findLayer_redraw (m : LayerManager) (ls : List Layer) (area : Rectangle) :
    (m.redraw ls area).findLayer = m.findLayer := rfl

/-- `Draw(area)` draws every layer of the stack. -/
theorem draw_eq (h : m.Linked) (area : Rectangle) : m.draw area = some (m.redraw m.shownLayers area) := by
  unfold draw
  rw [stackLayers_eq h]
  rfl

/-- Below the layer `Draw(id)` is about, its loop does nothing. -/
theorem foldl_drawStep_below {ls : List Layer} (h : ∀ l ∈ ls, l.id ≠ id) (area : Rectangle)
    (back : FrameBuffer) : ls.foldl (drawStep id) ⟨area, none, back⟩ = ⟨area, none, back⟩ := by
  induction ls with
  | nil => rfl
  | cons l ls ih =>
    have hstep : drawStep id ⟨area, none, back⟩ l = ⟨area, none, back⟩ := by
      simp only [drawStep, if_neg (h l (List.mem_cons_self ..))]
    rw [List.foldl_cons, hstep]
    exact ih fun l' hl' => h l' (List.mem_cons_of_mem _ hl')

/-- Above it, every layer is drawn in the area it has set. -/
theorem foldl_drawStep_above {ls : List Layer} (h : ∀ l ∈ ls, l.id ≠ id) (area wa : Rectangle)
    (back : FrameBuffer) : ls.foldl (drawStep id) ⟨area, some wa, back⟩ =
      ⟨area, some wa, ls.foldl (fun back l => l.drawTo back wa) back⟩ := by
  induction ls generalizing back with
  | nil => rfl
  | cons l ls ih =>
    have hstep : drawStep id ⟨area, some wa, back⟩ l = ⟨area, some wa, l.drawTo back wa⟩ := by
      simp only [drawStep, if_neg (h l (List.mem_cons_self ..))]
    rw [List.foldl_cons, hstep]
    exact ih (fun l' hl' => h l' (List.mem_cons_of_mem _ hl')) _

theorem filterMap_ids {ids : List UInt32} (h : id ∉ ids) :
    ∀ l ∈ ids.filterMap m.findLayer, l.id ≠ id := by
  intro l hl he
  obtain ⟨j, hj, hf⟩ := List.mem_filterMap.mp hl
  rw [← he, id_of_findLayer hf] at h
  exact h hj

theorem dropWhile_ne {below above : List UInt32} (h : id ∉ below) :
    (below ++ id :: above).dropWhile (fun j => j ≠ id) = id :: above := by
  rw [List.dropWhile_append_of_pos]
  · simp
  · intro j hj
    have hne : j ≠ id := fun he => h (he ▸ hj)
    simpa using hne

/-- The layers from an ID upwards, where the stack is split at it. -/
theorem layersFrom_eq {below above : List UInt32} (hs : m.layerStack = below ++ id :: above)
    (hb : id ∉ below) (hl : m.findLayer id = some l) :
    m.layersFrom id = l :: above.filterMap m.findLayer := by
  unfold layersFrom
  rw [hs, dropWhile_ne hb, List.filterMap_cons_some hl]

/-- `Draw(id)` draws the layers from `id` upwards, in the area of its window. -/
theorem drawLayer_eq (h : m.Linked) (hn : m.layerStack.Nodup) (hid : id ∈ m.layerStack)
    (hl : m.findLayer id = some l) :
    m.drawLayer id = some (m.redraw (m.layersFrom id) l.area) := by
  obtain ⟨below, above, hs⟩ := List.append_of_mem hid
  rw [hs, List.nodup_middle, List.nodup_cons, List.mem_append, not_or] at hn
  have hshown : m.shownLayers =
      below.filterMap m.findLayer ++ l :: above.filterMap m.findLayer := by
    unfold shownLayers
    rw [hs, List.filterMap_append, List.filterMap_cons_some hl]
  have hstep : ∀ back, drawStep id ⟨⟨⟨0, 0⟩, ⟨-1, -1⟩⟩, none, back⟩ l =
      ⟨⟨⟨0, 0⟩, ⟨-1, -1⟩⟩, some l.area, l.drawTo back l.area⟩ := by
    intro back
    simp only [drawStep, if_pos (id_of_findLayer hl)]
    rfl
  have hfold : ∀ back, (below.filterMap m.findLayer ++ l :: above.filterMap m.findLayer).foldl
      (drawStep id) ⟨⟨⟨0, 0⟩, ⟨-1, -1⟩⟩, none, back⟩ = ⟨⟨⟨0, 0⟩, ⟨-1, -1⟩⟩, some l.area,
        (l :: above.filterMap m.findLayer).foldl (fun back l' => l'.drawTo back l.area) back⟩ := by
    intro back
    rw [List.foldl_append, foldl_drawStep_below (filterMap_ids hn.1.1), List.foldl_cons, hstep,
      foldl_drawStep_above (filterMap_ids hn.1.2), List.foldl_cons]
  unfold drawLayer drawArea
  rw [stackLayers_eq h, hshown, layersFrom_eq hs hn.1.1 hl]
  simp only [Option.bind_eq_bind, Option.bind_some, hfold]
  rfl

/-- Drawing changes no layer. -/
theorem findLayer_drawLayer {m' : LayerManager} (h : m.drawLayer id = some m') :
    m'.findLayer = m.findLayer := by
  unfold drawLayer drawArea at h
  simp only [Option.bind_eq_bind, Option.bind_eq_some_iff] at h
  obtain ⟨ls, -, area, -, h⟩ := h
  rw [← Option.some.inj h]
  rfl

/-! ### Moving a layer in the stack -/

/-- `UpDown(id, 0)` puts a layer at the bottom. -/
theorem upDown_zero (hl : m.findLayer id = some l) :
    m.upDown id 0 = some { m with layerStack := id :: m.layerStack.erase id } := by
  unfold upDown
  rw [if_neg (by omega), hl]
  by_cases hid : id ∈ m.layerStack
  · have hpos : 0 ≠ m.layerStack.length := (List.length_pos_of_mem hid).ne
    simp [hid, hpos]
  · simp [hid, List.erase_of_not_mem hid]

theorem idxOf?_append_cons {below above : List UInt32} (h : id ∉ below) :
    (below ++ id :: above).idxOf? id = some below.length := by
  induction below with
  | nil => simp [List.idxOf?_cons]
  | cons j below ih =>
    rw [List.mem_cons, not_or] at h
    rw [List.cons_append, List.idxOf?_cons, if_neg (by simpa using Ne.symm h.1), ih h.2]
    rfl

theorem insertIdx_length (below above : List UInt32) (id : UInt32) :
    (below ++ above).insertIdx below.length id = below ++ id :: above := by
  induction below with
  | nil => rfl
  | cons j below ih =>
    rw [List.cons_append, List.length_cons, List.insertIdx_succ_cons, ih]
    rfl

/-- The height of a layer is the number of layers below it. -/
theorem getHeight_eq {below above : List UInt32} (hs : m.layerStack = below ++ id :: above)
    (hb : id ∉ below) : m.getHeight id = below.length := by
  unfold getHeight
  rw [hs, idxOf?_append_cons hb]

/-- `UpDown` of a layer at the bottom to the height of another, less one: it comes to
stand directly below the other. -/
theorem upDown_below {other : UInt32} {below above : List UInt32}
    (hs : m.layerStack = id :: (below ++ other :: above)) (hl : m.findLayer id = some l)
    (hid : id ≠ other) (hb : other ∉ below) :
    m.upDown id (m.getHeight other - 1) =
      some { m with layerStack := below ++ id :: other :: above } := by
  have hheight : m.getHeight other = (id :: below).length := by
    refine @getHeight_eq m other (id :: below) above hs ?_
    rw [List.mem_cons, not_or]
    exact ⟨hid.symm, hb⟩
  rw [List.length_cons] at hheight
  have hneg : ¬ m.getHeight other - 1 < 0 := by omega
  have hto : (m.getHeight other - 1).toNat = below.length := by omega
  have hlen : below.length < m.layerStack.length := by
    rw [hs, List.length_cons, List.length_append]
    omega
  have hmem : id ∈ m.layerStack := by
    rw [hs]
    exact List.mem_cons_self ..
  have herase : m.layerStack.erase id = below ++ other :: above := by
    rw [hs, List.erase_cons_head]
  simp only [upDown, if_neg hneg, hto, min_eq_left hlen.le, hl, if_neg hlen.ne, herase,
    insertIdx_length, hmem, not_true_eq_false, if_false]
  rfl

/-! ### What keeps the stack linked -/

/-- The IDs for which `FindLayer` finds a layer, and the stack. -/
structure SameLayers (m m' : LayerManager) : Prop where
  stack : m'.layerStack = m.layerStack
  found : ∀ j, (m'.findLayer j).isSome = (m.findLayer j).isSome

theorem SameLayers.redraw (m : LayerManager) (ls : List Layer) (area : Rectangle) :
    SameLayers m (m.redraw ls area) := ⟨rfl, fun _ => rfl⟩

theorem SameLayers.updateLayer {f : Layer → Layer} (hf : ∀ l, (f l).id = l.id) (m : LayerManager)
    (id : UInt32) : SameLayers m (m.updateLayer id f) := by
  refine ⟨rfl, fun j => ?_⟩
  rw [findLayer_updateLayer hf, Option.isSome_map]

theorem SameLayers.trans {m₁ m₂ m₃ : LayerManager} (h : SameLayers m₁ m₂) (h' : SameLayers m₂ m₃) :
    SameLayers m₁ m₃ :=
  ⟨h'.stack.trans h.stack, fun j => (h'.found j).trans (h.found j)⟩

theorem SameLayers.linked {m m' : LayerManager} (h : SameLayers m m') (hl : m.Linked) :
    m'.Linked := by
  intro id hid
  rw [h.stack] at hid
  rw [← Option.isSome_iff_exists, h.found, Option.isSome_iff_exists]
  exact hl id hid

theorem layerStack_removeLayer (hl : m.findLayer id = some l) :
    (m.removeLayer id).layerStack = m.layerStack.erase id := by
  simp only [removeLayer, hide, hl]

/-- A layer taken off the stack and away. -/
theorem linked_removeLayer (h : m.Linked) (hn : m.layerStack.Nodup)
    (hl : m.findLayer id = some l) : (m.removeLayer id).Linked := by
  intro j hj
  rw [layerStack_removeLayer hl, hn.mem_erase_iff] at hj
  obtain ⟨l', hl'⟩ := h j hj.2
  rw [findLayer_removeLayer, if_neg hj.1]
  exact ⟨l', hl'⟩

/-- A layer put in another place of the stack, or on it. -/
theorem linked_insert {below above : List UInt32} (h : m.Linked)
    (hs : m.layerStack.erase id = below ++ above) (hl : m.findLayer id = some l) :
    LayerManager.Linked { m with layerStack := below ++ id :: above } := by
  intro j hj
  rw [List.mem_append, List.mem_cons, or_left_comm, ← List.mem_append, ← hs] at hj
  rcases hj with rfl | hj
  · exact ⟨l, hl⟩
  · exact h j (List.mem_of_mem_erase hj)

theorem nodup_insert {below above : List UInt32} (hn : m.layerStack.Nodup)
    (hs : m.layerStack.erase id = below ++ above) : (below ++ id :: above).Nodup := by
  rw [List.nodup_middle, List.nodup_cons, ← hs]
  exact ⟨hn.not_mem_erase, hn.erase id⟩

/-- The others keep their order. -/
theorem erase_insert {below above : List UInt32} (hn : m.layerStack.Nodup)
    (hs : m.layerStack.erase id = below ++ above) :
    (below ++ id :: above).erase id = m.layerStack.erase id := by
  have hid : id ∉ below := by
    intro hmem
    have hmem' : id ∈ m.layerStack.erase id := by
      rw [hs]
      exact List.mem_append_left _ hmem
    exact hn.not_mem_erase hmem'
  rw [List.erase_append_right _ hid, List.erase_cons_head, hs]

/-! ### Drawing leaves the stack alone -/

theorem drawLayer_same (h : m.Linked) (hn : m.layerStack.Nodup) (hid : id ∈ m.layerStack) :
    ∃ m', m.drawLayer id = some m' ∧ SameLayers m m' := by
  obtain ⟨l, hl⟩ := h id hid
  exact ⟨_, drawLayer_eq h hn hid hl, SameLayers.redraw m _ _⟩

theorem updateLayer_drawLayer_same {f : Layer → Layer} (hf : ∀ l, (f l).id = l.id) (h : m.Linked)
    (hn : m.layerStack.Nodup) (hid : id ∈ m.layerStack) :
    ∃ m', (m.updateLayer id f).drawLayer id = some m' ∧ SameLayers m m' := by
  have hu := SameLayers.updateLayer hf m id
  obtain ⟨m', hm', hs⟩ := drawLayer_same (hu.linked h) (m := m.updateLayer id f) hn hid
  exact ⟨m', hm', hu.trans hs⟩

theorem moveWith_same {f : Layer → Layer} (hf : ∀ l, (f l).id = l.id) (h : m.Linked)
    (hn : m.layerStack.Nodup) (hid : id ∈ m.layerStack) :
    ∃ m', m.moveWith id f = some m' ∧ SameLayers m m' := by
  obtain ⟨l, hl⟩ := h id hid
  have hu := SameLayers.updateLayer hf m id
  have hd := hu.trans (SameLayers.redraw (m.updateLayer id f) (m.updateLayer id f).shownLayers l.area)
  obtain ⟨m', hm', hs⟩ := drawLayer_same (hd.linked h)
    (m := (m.updateLayer id f).redraw (m.updateLayer id f).shownLayers l.area) hn hid
  refine ⟨m', ?_, hd.trans hs⟩
  unfold moveWith
  rw [hl]
  simp only [draw_eq (hu.linked h), Option.bind_eq_bind, Option.bind_some]
  exact hm'

end LayerManager

namespace Desktop

open LayerManager

variable {d : Desktop} {id : UInt32} {l : Layer}

@[simp] theorem manager_send (d : Desktop) (id : UInt32) (b : Bool) :
    (d.sendWindowActiveMessage id b).manager = d.manager := by
  unfold sendWindowActiveMessage
  cases d.layerTaskMap id <;> rfl

@[simp] theorem activeLayer_send (d : Desktop) (id : UInt32) (b : Bool) :
    (d.sendWindowActiveMessage id b).activeLayer = d.activeLayer := by
  unfold sendWindowActiveMessage
  cases d.layerTaskMap id <;> rfl

@[simp] theorem mouseLayer_send (d : Desktop) (id : UInt32) (b : Bool) :
    (d.sendWindowActiveMessage id b).mouseLayer = d.mouseLayer := by
  unfold sendWindowActiveMessage
  cases d.layerTaskMap id <;> rfl

/-! ### Activating a layer -/

theorem deactivateOld_zero (h : d.activeLayer = 0) : d.deactivateOld = some d := by
  unfold deactivateOld
  rw [h, if_neg (by decide)]

/-- The layer that was active is repainted and drawn where it is. -/
theorem deactivateOld_eq {m : LayerManager} (h0 : d.activeLayer ≠ 0)
    (hl : d.manager.findLayer d.activeLayer = some l)
    (hm : (d.manager.updateLayer d.activeLayer fun l => l.repaint l.window.deactivate).drawLayer
      d.activeLayer = some m) :
    d.deactivateOld = some ({ d with manager := m }.sendWindowActiveMessage d.activeLayer false) := by
  unfold deactivateOld
  rw [if_pos (UInt32.pos_iff_ne_zero.mpr h0), hl]
  simp only [hm]
  rfl

theorem activateNew_zero (d : Desktop) : d.activateNew 0 = some { d with activeLayer := 0 } := by
  unfold activateNew
  rw [if_neg (by decide)]

/-- The layer that becomes active is repainted, comes to stand directly below the mouse
layer, and is drawn there. -/
theorem activateNew_eq {m : LayerManager} {below above : List UInt32} (h0 : id ≠ 0)
    (hl : d.manager.findLayer id = some l) (hid : id ≠ d.mouseLayer)
    (hs : d.manager.layerStack.erase id = below ++ d.mouseLayer :: above)
    (hb : d.mouseLayer ∉ below)
    (hm : { d.manager.updateLayer id (fun l => l.repaint l.window.activate) with
      layerStack := below ++ id :: d.mouseLayer :: above }.drawLayer id = some m) :
    d.activateNew id =
      some ({ d with activeLayer := id, manager := m }.sendWindowActiveMessage id true) := by
  have hl' : ∃ l', (d.manager.updateLayer id fun l => l.repaint l.window.activate).findLayer id =
      some l' := by
    rw [← Option.isSome_iff_exists, (SameLayers.updateLayer (f := fun l =>
      l.repaint l.window.activate) (fun _ => rfl) _ _).found, hl]
    rfl
  obtain ⟨l', hl'⟩ := hl'
  have hstack : (d.manager.updateLayer id fun l => l.repaint l.window.activate).layerStack =
      d.manager.layerStack := rfl
  have hzero := upDown_zero hl'
  rw [hstack, hs] at hzero
  have hraise := upDown_below (m := { d.manager.updateLayer id
    (fun l => l.repaint l.window.activate) with layerStack := id :: (below ++ d.mouseLayer :: above) })
    rfl hl' hid hb
  unfold activateNew
  rw [if_pos (UInt32.pos_iff_ne_zero.mpr h0)]
  simp only [hl, hzero, hraise, hm, Option.bind_eq_bind, Option.bind_some]
  rfl

/-- Where the active layer is on the stack, its part of `Activate` is defined. -/
theorem deactivateOld_same (h : d.manager.Linked) (hn : d.manager.layerStack.Nodup)
    (ha : d.activeLayer = 0 ∨ d.activeLayer ∈ d.manager.layerStack) :
    ∃ d', d.deactivateOld = some d' ∧ SameLayers d.manager d'.manager ∧
      d'.activeLayer = d.activeLayer ∧ d'.mouseLayer = d.mouseLayer := by
  by_cases h0 : d.activeLayer = 0
  · exact ⟨d, deactivateOld_zero h0, ⟨rfl, fun _ => rfl⟩, rfl, rfl⟩
  · have hid := ha.resolve_left h0
    obtain ⟨l, hl⟩ := h _ hid
    obtain ⟨m', hm', hs⟩ := updateLayer_drawLayer_same
      (f := fun l => l.repaint l.window.deactivate) (fun _ => rfl) h hn hid
    refine ⟨_, deactivateOld_eq h0 hl hm', ?_, ?_, ?_⟩
    · rw [manager_send]
      exact hs
    · rw [activeLayer_send]
    · rw [mouseLayer_send]

/-- What the new active layer's part of `Activate` does to the stack. -/
theorem activateNew_same {below above : List UInt32} (h : d.manager.Linked)
    (hn : d.manager.layerStack.Nodup) (h0 : id ≠ 0) (hl : d.manager.findLayer id = some l)
    (hid : id ≠ d.mouseLayer) (hs : d.manager.layerStack.erase id = below ++ d.mouseLayer :: above) :
    ∃ d', d.activateNew id = some d' ∧ d'.manager.Linked ∧
      d'.manager.layerStack = below ++ id :: d.mouseLayer :: above ∧ d'.activeLayer = id ∧
      d'.mouseLayer = d.mouseLayer := by
  have hb : d.mouseLayer ∉ below := by
    have hnd := hn.erase id
    rw [hs, List.nodup_middle, List.nodup_cons, List.mem_append, not_or] at hnd
    exact hnd.1.1
  have hu := SameLayers.updateLayer (f := fun l => l.repaint l.window.activate) (fun _ => rfl)
    d.manager id
  obtain ⟨l', hl'⟩ : ∃ l', (d.manager.updateLayer id fun l => l.repaint l.window.activate).findLayer
      id = some l' := by
    rw [← Option.isSome_iff_exists, hu.found, hl]
    rfl
  have hlink := linked_insert (hu.linked h) hs hl'
  obtain ⟨m', hm', hs'⟩ := drawLayer_same hlink (nodup_insert hn hs)
    (List.mem_append_right _ (List.mem_cons_self ..))
  refine ⟨_, activateNew_eq h0 hl hid hs hb hm', ?_, ?_, ?_, ?_⟩
  · rw [manager_send]
    exact hs'.linked hlink
  · rw [manager_send]
    exact hs'.stack
  · rw [activeLayer_send]
  · rw [mouseLayer_send]

/-- `Activate(0)` only deactivates. -/
theorem activate_zero_same (h : d.manager.Linked) (hn : d.manager.layerStack.Nodup)
    (ha : d.activeLayer = 0 ∨ d.activeLayer ∈ d.manager.layerStack) :
    ∃ d', d.activate 0 = some d' ∧ SameLayers d.manager d'.manager ∧ d'.activeLayer = 0 ∧
      d'.mouseLayer = d.mouseLayer := by
  by_cases h0 : d.activeLayer = 0
  · exact ⟨d, if_pos h0, ⟨rfl, fun _ => rfl⟩, h0, rfl⟩
  · obtain ⟨d', hd', hs, -, hm⟩ := deactivateOld_same h hn ha
    refine ⟨{ d' with activeLayer := 0 }, ?_, hs, rfl, hm⟩
    unfold activate
    rw [if_neg h0, hd']
    exact activateNew_zero d'

end Desktop

end DuvuvurKernel
