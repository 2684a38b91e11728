import DuvuvurKernel.Graphics.WindowSystem
import DuvuvurKernel.Lib.Runs

/-!
# What the window system keeps

Every ID on the stack is that of a layer and on it once, the active layer exists, and
the traits are those of the layers (`Sound`). Most operations also leave the layers that
there are (`Calm`); a layer comes with `newLayer` and goes with `closeLayer`.
-/

namespace DuvuvurKernel

/-! ### The layers -/

namespace LayerManager

variable {m m' m'' : LayerManager} {id j : UInt32} {unset : Rectangle}

theorem isSome_findLayer (m : LayerManager) (id : UInt32) : (m.findLayer id).isSome ↔ id ∈ m.layers.map Layer.id := by
  simp [findLayer, List.find?_isSome]

/-- The layers are the same, up to their contents and places, and the stack has no other. -/
structure Keeps (m m' : LayerManager) : Prop where
  ids : m'.layers.map Layer.id = m.layers.map Layer.id
  latest : m'.latestID = m.latestID
  linked : m.Linked → m'.Linked
  nodup : m.layerStack.Nodup → m'.layerStack.Nodup

theorem Keeps.refl (m : LayerManager) : Keeps m m := ⟨rfl, rfl, id, id⟩

theorem Keeps.trans (h : Keeps m m') (h' : Keeps m' m'') : Keeps m m'' :=
  ⟨h'.ids.trans h.ids, h'.latest.trans h.latest, h'.linked ∘ h.linked, h'.nodup ∘ h.nodup⟩

theorem Keeps.found (h : Keeps m m') (j : UInt32) : (m'.findLayer j).isSome ↔ (m.findLayer j).isSome := by
  rw [isSome_findLayer, isSome_findLayer, h.ids]

/-- The same layers, and a stack of some of the old ones and of one that exists. -/
theorem Keeps.of_stack (hids : m'.layers.map Layer.id = m.layers.map Layer.id) (hlatest : m'.latestID = m.latestID)
    (hstack : ∀ j ∈ m'.layerStack, j ∈ m.layerStack ∨ (m.findLayer j).isSome)
    (hnodup : m.layerStack.Nodup → m'.layerStack.Nodup) : Keeps m m' := by
  refine ⟨hids, hlatest, fun hl j hj => ?_, hnodup⟩
  rw [← Option.isSome_iff_exists, isSome_findLayer, hids, ← isSome_findLayer]
  rcases hstack j hj with hold | hnew
  · exact Option.isSome_iff_exists.mpr (hl j hold)
  · exact hnew

theorem ids_updateFirst {f : Layer → Layer} (hf : ∀ l, (f l).id = l.id) (id : UInt32) (ls : List Layer) :
    (updateFirst id f ls).map Layer.id = ls.map Layer.id := by
  induction ls with
  | nil => rfl
  | cons l ls ih =>
    unfold updateFirst
    split
    · rw [List.map_cons, hf, List.map_cons]
    · rw [List.map_cons, ih, List.map_cons]

theorem updateLayer_keeps {f : Layer → Layer} (hf : ∀ l, (f l).id = l.id) (m : LayerManager) (id : UInt32) :
    Keeps m (m.updateLayer id f) :=
  .of_stack (ids_updateFirst hf id m.layers) rfl (fun _ hj => .inl hj) fun hn => hn

theorem draw_keeps {area : Rectangle} (h : m.draw area = some m') : Keeps m m' := by
  obtain ⟨layers, -, h⟩ := Option.bind_eq_some_iff.mp h
  cases h
  exact .of_stack rfl rfl (fun _ hj => .inl hj) fun hn => hn

theorem drawAreaOr_keeps {area : Rectangle} (h : m.drawAreaOr unset id area = some m') : Keeps m m' := by
  obtain ⟨layers, -, h⟩ := Option.bind_eq_some_iff.mp h
  cases h
  exact .of_stack rfl rfl (fun _ hj => .inl hj) fun hn => hn

theorem moveWithOr_keeps {f : Layer → Layer} (hf : ∀ l, (f l).id = l.id) (h : m.moveWithOr unset id f = some m') :
    Keeps m m' := by
  obtain ⟨layer, -, h⟩ := Option.bind_eq_some_iff.mp h
  obtain ⟨m₁, hdraw, h⟩ := Option.bind_eq_some_iff.mp h
  exact ((updateLayer_keeps hf m id).trans (draw_keeps hdraw)).trans (drawAreaOr_keeps h)

theorem moveOr_keeps {pos : Vector2D} (h : m.moveOr unset id pos = some m') : Keeps m m' :=
  moveWithOr_keeps (f := fun l => l.move pos) (fun _ => rfl) h

theorem moveRelativeOr_keeps {posDiff : Vector2D} (h : m.moveRelativeOr unset id posDiff = some m') : Keeps m m' :=
  moveWithOr_keeps (f := fun l => l.moveRelative posDiff) (fun _ => rfl) h

theorem operateOr_keeps {op : LayerOperation} {x y w height : Int32}
    (h : m.operateOr unset op id x y w height = some m') :
    Keeps m m' := by
  cases op with
  | move => exact moveOr_keeps h
  | moveRelative => exact moveRelativeOr_keeps h
  | draw => exact drawAreaOr_keeps h
  | drawArea => exact drawAreaOr_keeps h

theorem layerStack_hide (m : LayerManager) (id : UInt32) :
    (m.hide id).layerStack = m.layerStack ∨ (m.hide id).layerStack = m.layerStack.erase id := by
  unfold hide
  cases m.findLayer id with
  | none => exact .inl rfl
  | some l => exact .inr rfl

theorem latestID_hide (m : LayerManager) (id : UInt32) : (m.hide id).latestID = m.latestID := by
  unfold hide
  cases m.findLayer id <;> rfl

theorem hide_keeps (m : LayerManager) (id : UInt32) : Keeps m (m.hide id) := by
  refine .of_stack (by rw [layers_hide]) (latestID_hide m id) (fun j hj => .inl ?_) fun hn => ?_
  · rcases layerStack_hide m id with heq | heq
    · exact heq ▸ hj
    · exact List.mem_of_mem_erase (heq ▸ hj)
  · rcases layerStack_hide m id with heq | heq
    · exact heq ▸ hn
    · exact heq ▸ hn.erase id

/-- An element put anywhere in a list. -/
theorem nodup_insertIdx {l : List UInt32} {n : ℕ} (hn : l.Nodup) (hid : id ∉ l) : (l.insertIdx n id).Nodup := by
  rcases Nat.lt_or_ge l.length n with hlt | hle
  · rwa [List.insertIdx_of_length_lt hlt]
  · exact (List.perm_insertIdx id l hle).nodup_iff.mpr (List.nodup_cons.mpr ⟨hid, hn⟩)

theorem mem_of_mem_insertIdx {l : List UInt32} {n : ℕ} (h : j ∈ l.insertIdx n id) : j = id ∨ j ∈ l := by
  rcases Nat.lt_or_ge l.length n with hlt | hle
  · rw [List.insertIdx_of_length_lt hlt] at h
    exact .inr h
  · exact List.mem_cons.mp ((List.perm_insertIdx id l hle).mem_iff.mp h)

theorem upDown_keeps {newHeight : ℤ} (h : m.upDown id newHeight = some m') : Keeps m m' := by
  unfold upDown at h
  split at h
  · cases h
    exact hide_keeps m id
  · obtain ⟨l, hl, h⟩ := Option.bind_eq_some_iff.mp h
    have hsome : (m.findLayer id).isSome := Option.isSome_iff_exists.mpr ⟨l, hl⟩
    split at h
    next hid =>
      cases h
      refine .of_stack rfl rfl (fun j hj => ?_) fun hn => nodup_insertIdx hn hid
      rcases mem_of_mem_insertIdx hj with rfl | hold
      · exact .inr hsome
      · exact .inl hold
    next =>
      cases h
      refine .of_stack rfl rfl (fun j hj => ?_) fun hn => nodup_insertIdx (hn.erase id) hn.not_mem_erase
      rcases mem_of_mem_insertIdx hj with rfl | hold
      · exact .inr hsome
      · exact .inl (List.mem_of_mem_erase hold)

/-- Drawing is defined where the pointers on the stack are good. -/
theorem drawAreaOr_isSome (h : m.Linked) (unset area : Rectangle) (id : UInt32) :
    ∃ m', m.drawAreaOr unset id area = some m' := by
  unfold drawAreaOr
  rw [stackLayers_eq h]
  exact ⟨_, rfl⟩

end LayerManager

/-! ### The active layer -/

namespace Desktop

open LayerManager

variable {d d' : Desktop} {id : UInt32} {unset : Rectangle}

/-- A message is a close message. -/
def isClose (p : UInt64 × Message) : Bool :=
  match p.2.arg with
  | .windowClose _ => true
  | _ => false

/-- The close messages in flight. -/
def closes (d : Desktop) : List (UInt64 × Message) := d.sent.filter isClose

@[simp] theorem closes_send (d : Desktop) (id : UInt32) (b : Bool) :
    (d.sendWindowActiveMessage id b).closes = d.closes := by
  unfold sendWindowActiveMessage closes
  cases d.layerTaskMap id <;> simp [isClose]

theorem deactivateOldOr_spec (h : d.deactivateOldOr unset = some d') :
    d.manager.Keeps d'.manager ∧ d'.closes = d.closes := by
  unfold deactivateOldOr at h
  split at h
  · obtain ⟨l, hl, h⟩ := Option.bind_eq_some_iff.mp h
    obtain ⟨m, hm, h⟩ := Option.bind_eq_some_iff.mp h
    cases h
    rw [manager_send, closes_send]
    have hu := updateLayer_keeps (f := fun l => l.repaint l.window.deactivate) (fun _ => rfl) d.manager d.activeLayer
    exact ⟨hu.trans (drawAreaOr_keeps hm), rfl⟩
  · cases h
    exact ⟨.refl _, rfl⟩

theorem activateNewOr_spec (h : d.activateNewOr unset id = some d') :
    d.manager.Keeps d'.manager ∧ d'.activeLayer = id ∧ (id ≠ 0 → (d.manager.findLayer id).isSome) ∧
        d'.closes = d.closes := by
  unfold activateNewOr at h
  dsimp only at h
  split at h
  next h0 =>
    obtain ⟨l, hl, h⟩ := Option.bind_eq_some_iff.mp h
    obtain ⟨m₁, hm₁, h⟩ := Option.bind_eq_some_iff.mp h
    obtain ⟨m₂, hm₂, h⟩ := Option.bind_eq_some_iff.mp h
    obtain ⟨m₃, hm₃, h⟩ := Option.bind_eq_some_iff.mp h
    cases h
    rw [manager_send, activeLayer_send, closes_send]
    refine ⟨?_, rfl, fun _ => Option.isSome_iff_exists.mpr ⟨l, hl⟩, rfl⟩
    have hu := updateLayer_keeps (f := fun l => l.repaint l.window.activate) (fun _ => rfl) d.manager id
    exact ((hu.trans (upDown_keeps hm₁)).trans (upDown_keeps hm₂)).trans (drawAreaOr_keeps hm₃)
  next h0 =>
    cases h
    exact ⟨.refl _, rfl, fun hne => absurd (UInt32.pos_iff_ne_zero.mpr hne) h0, rfl⟩

/-- `Activate` of a layer makes it the active one, and leaves the layers. -/
theorem activateOr_spec (h : d.activateOr unset id = some d')
    (ha : d.activeLayer ≠ 0 → (d.manager.findLayer d.activeLayer).isSome) :
    d.manager.Keeps d'.manager ∧ d'.activeLayer = id ∧ (id ≠ 0 → (d.manager.findLayer id).isSome) ∧
        d'.closes = d.closes := by
  unfold activateOr at h
  split at h
  next heq =>
    cases h
    exact ⟨.refl _, heq, heq ▸ ha, rfl⟩
  next =>
    obtain ⟨d₁, hd₁, h⟩ := Option.bind_eq_some_iff.mp h
    obtain ⟨hkeeps, hcloses⟩ := deactivateOldOr_spec hd₁
    obtain ⟨hkeeps', hact, hfound, hcloses'⟩ := activateNewOr_spec h
    exact ⟨hkeeps.trans hkeeps', hact, fun h0 => (hkeeps.found id).mp (hfound h0), hcloses'.trans hcloses⟩

/-- `Activate(0)` is defined. -/
theorem activateOr_zero (unset : Rectangle) (hl : d.manager.Linked)
    (ha : d.activeLayer ≠ 0 → (d.manager.findLayer d.activeLayer).isSome) : ∃ d', d.activateOr unset 0 = some d' := by
  unfold activateOr
  split
  · exact ⟨d, rfl⟩
  next h0 =>
    obtain ⟨l, hfound⟩ := Option.isSome_iff_exists.mp (ha h0)
    have hlinked := (updateLayer_keeps (f := fun l => l.repaint l.window.deactivate)
      (fun _ => rfl) d.manager d.activeLayer).linked hl
    obtain ⟨m, hm⟩ := drawAreaOr_isSome hlinked unset ⟨⟨0, 0⟩, ⟨-1, -1⟩⟩ d.activeLayer
    refine ⟨{ (Desktop.sendWindowActiveMessage { d with manager := m } d.activeLayer false) with activeLayer := 0 }, ?_⟩
    unfold deactivateOldOr drawLayerOr
    rw [if_pos (UInt32.pos_iff_ne_zero.mpr h0), hfound]
    simp only [Option.bind_eq_bind, Option.bind_some, hm]
    rfl

end Desktop

/-! ### The window system -/

/-- The window is one created with `is_privileged`. -/
def LayerTraits.IsPrivileged (t : LayerTraits) : Prop := ∃ enter leave, t.windowClass = .toplevel true enter leave

namespace WindowSystem

open LayerManager Desktop

variable {s s' s'' : WindowSystem} {id j : UInt32} {unset : Rectangle}

/-- The layer `FindLayer` finds for an ID exists. -/
def Found (s : WindowSystem) (id : UInt32) : Prop := (s.desktop.manager.findLayer id).isSome

/-- What holds at all times. -/
structure Sound (s : WindowSystem) : Prop where
  linked : s.desktop.manager.Linked
  nodup : s.desktop.manager.layerStack.Nodup
  active : s.desktop.activeLayer ≠ 0 → s.Found s.desktop.activeLayer
  traits : s.traits.map Prod.fst = s.desktop.manager.layers.map Layer.id

/-- No layer comes or goes, and no close message is sent. -/
structure Calm (s s' : WindowSystem) : Prop where
  keeps : s.desktop.manager.Keeps s'.desktop.manager
  traits : s'.traits = s.traits
  active : (s.desktop.activeLayer ≠ 0 → s.Found s.desktop.activeLayer) →
    s'.desktop.activeLayer ≠ 0 → s'.Found s'.desktop.activeLayer
  closes : ∀ p ∈ s'.desktop.closes, p ∈ s.desktop.closes

namespace Calm

theorem refl (s : WindowSystem) : Calm s s := ⟨.refl _, rfl, id, fun _ hp => hp⟩

theorem trans (h : Calm s s') (h' : Calm s' s'') : Calm s s'' :=
  ⟨h.keeps.trans h'.keeps, h'.traits.trans h.traits, h'.active ∘ h.active, fun p hp => h.closes p (h'.closes p hp)⟩

theorem found (h : Calm s s') (id : UInt32) : s'.Found id ↔ s.Found id := h.keeps.found id

theorem findTraits (h : Calm s s') (id : UInt32) : s'.findTraits id = s.findTraits id := by
  unfold WindowSystem.findTraits
  rw [h.traits]

theorem sound (h : Calm s s') (hs : s.Sound) : s'.Sound where
  linked := h.keeps.linked hs.linked
  nodup := h.keeps.nodup hs.nodup
  active := h.active hs.active
  traits := by rw [h.traits, hs.traits, h.keeps.ids]

/-- The manager goes over to one that keeps the layers. -/
theorem of_manager {m : LayerManager} (h : s.desktop.manager.Keeps m) : Calm s { s with desktop.manager := m } :=
  ⟨h, rfl, fun ha h0 => (h.found _).mpr (ha h0), fun _ hp => hp⟩

/-- Of the rest only `layer_task_map` and the mouse change. -/
theorem of_rest (hm : s'.desktop.manager = s.desktop.manager) (ha : s'.desktop.activeLayer = s.desktop.activeLayer)
    (ht : s'.traits = s.traits) (hc : ∀ p ∈ s'.desktop.closes, p ∈ s.desktop.closes) : Calm s s' := by
  refine ⟨hm ▸ .refl _, ht, fun hact => ?_, hc⟩
  unfold Found
  rw [ha, hm]
  exact hact

end Calm

theorem repaint_calm (s : WindowSystem) (id : UInt32) (f : Contents → Contents) : Calm s (s.repaint id f) :=
  .of_manager (updateLayer_keeps (f := fun l => l.repaint f) (fun _ => rfl) _ id)

theorem activate_calm (hs : s.Sound) {d : Desktop} (h : s.desktop.activateOr unset id = some d) :
    Calm s { s with desktop := d } ∧ d.activeLayer = id ∧ (id ≠ 0 → s.Found id) := by
  obtain ⟨hkeeps, hact, hfound, hcloses⟩ := activateOr_spec h hs.active
  refine ⟨⟨hkeeps, rfl, fun _ h0 => ?_, fun p hp => hcloses ▸ hp⟩, hact, hfound⟩
  change d.activeLayer ≠ 0 at h0
  change (d.manager.findLayer d.activeLayer).isSome
  rw [hact] at h0 ⊢
  exact (hkeeps.found id).mpr (hfound h0)

/-- The layer found at a position is one that `FindLayer` finds. -/
theorem found_of_position (hs : s.Sound) {pos : Vector2D} {layer : Layer}
    (h : s.desktop.manager.findLayerByPosition pos id = some (some layer)) : s.Found layer.id := by
  unfold findLayerByPosition at h
  rw [stackLayers_eq hs.linked] at h
  have hmem := List.mem_of_find?_eq_some (Option.some.inj h)
  rw [List.mem_reverse, shownLayers, List.mem_filterMap] at hmem
  obtain ⟨j, -, hj⟩ := hmem
  unfold Found
  rw [id_of_findLayer hj, hj]
  rfl

/-! ### Reports of the mouse -/

/-- The close button of a layer was clicked: it is the active layer now, and its window has a close button. -/
def Clicked (s : WindowSystem) (closeLayerID : UInt32) : Prop :=
  s.desktop.activeLayer = closeLayerID ∧ ∃ t size pos, s.findTraits closeLayerID = some t ∧
    t.windowClass.getWindowRegion size pos = .closeButton

/-- The dragged layer is none, the one before, or one that exists. -/
def DragOf (s s' : WindowSystem) : Prop :=
  s'.mouse.dragLayerID = 0 ∨ s'.mouse.dragLayerID = s.mouse.dragLayerID ∨ s'.Found s'.mouse.dragLayerID

theorem press_spec (hs : s.Sound) {c : UInt32} (h : s.press unset = some (s', c)) :
    Calm s s' ∧ DragOf s s' ∧ (c ≠ 0 → Clicked s' c) := by
  obtain ⟨found, hfound, h⟩ := Option.bind_eq_some_iff.mp h
  cases found with
  | none =>
    obtain ⟨d, hd, h⟩ := Option.bind_eq_some_iff.mp h
    cases h
    exact ⟨(activate_calm hs hd).1, .inr (.inl rfl), fun h0 => absurd rfl h0⟩
  | some layer =>
    obtain ⟨t, ht, h⟩ := Option.bind_eq_some_iff.mp h
    split at h
    · obtain ⟨d, hd, h⟩ := Option.bind_eq_some_iff.mp h
      obtain ⟨hcalm, hact, -⟩ := activate_calm hs hd
      cases h
      refine ⟨hcalm.trans (.of_rest rfl rfl rfl fun _ hp => hp), ?_, fun h0 => ?_⟩
      · unfold DragOf
        dsimp only
        split
        · exact .inr (.inr ((hcalm.found layer.id).mpr (found_of_position hs hfound)))
        · exact .inr (.inl rfl)
      · split at h0
        next hregion =>
          rw [if_pos hregion]
          exact ⟨hact, t, _, _, ht, hregion⟩
        next => exact absurd rfl h0
    · obtain ⟨d, hd, h⟩ := Option.bind_eq_some_iff.mp h
      cases h
      exact ⟨(activate_calm hs hd).1, .inr (.inl rfl), fun h0 => absurd rfl h0⟩

theorem drag_spec {posdiff : Vector2D} (h : s.drag unset posdiff = some s') : Calm s s' ∧ s'.mouse = s.mouse := by
  unfold drag at h
  split at h
  · obtain ⟨m, hm, h⟩ := Option.bind_eq_some_iff.mp h
    cases h
    exact ⟨.of_manager (moveRelativeOr_keeps hm), rfl⟩
  · cases h
    exact ⟨.refl _, rfl⟩

theorem hover_spec (h : s.hover = some s') : Calm s s' ∧ s'.mouse = s.mouse := by
  obtain ⟨found, -, h⟩ := Option.bind_eq_some_iff.mp h
  cases found with
  | none =>
    cases h
    exact ⟨.refl _, rfl⟩
  | some layer =>
    obtain ⟨t, -, h⟩ := Option.bind_eq_some_iff.mp h
    dsimp only at h
    split at h
    all_goals
      cases h
      exact ⟨repaint_calm _ _ _, rfl⟩

theorem onButtons_spec (hs : s.Sound) {buttons : UInt8} {posdiff : Vector2D} {c : UInt32}
    (h : s.onButtons unset buttons posdiff = some (s', c)) : Calm s s' ∧ DragOf s s' ∧ (c ≠ 0 → Clicked s' c) := by
  unfold onButtons at h
  split at h
  · exact press_spec hs h
  · obtain ⟨s₁, hs₁, h⟩ := Option.bind_eq_some_iff.mp h
    cases h
    obtain ⟨hcalm, hmouse⟩ := drag_spec hs₁
    exact ⟨hcalm, .inr (.inl (by rw [hmouse])), fun h0 => absurd rfl h0⟩
  · cases h
    exact ⟨.of_rest rfl rfl rfl fun _ hp => hp, .inl rfl, fun h0 => absurd rfl h0⟩
  · obtain ⟨s₁, hs₁, h⟩ := Option.bind_eq_some_iff.mp h
    cases h
    obtain ⟨hcalm, hmouse⟩ := hover_spec hs₁
    exact ⟨hcalm, .inr (.inl (by rw [hmouse])), fun h0 => absurd rfl h0⟩

/-- The messages of the mouse to the active layer's task are not close messages. -/
theorem closes_sendMouseMessage (d : Desktop) (newpos posdiff : Vector2D) (buttons previousButtons : UInt8) :
    (d.sendMouseMessage newpos posdiff buttons previousButtons).closes = d.closes := by
  unfold sendMouseMessage
  split
  · rfl
  · unfold closes mouseMessages
    rw [List.filter_append, List.append_right_eq_self, List.filter_eq_nil_iff]
    simp only [List.map_append, List.mem_append, List.mem_map]
    rintro p (⟨msg, hmsg, rfl⟩ | ⟨msg, ⟨i, -, rfl⟩, rfl⟩)
    · split at hmsg
      · rw [List.mem_singleton.mp hmsg]
        simp [isClose]
      · cases hmsg
    · simp [isClose]

/-- A close message is sent only for the active layer. -/
theorem closes_sendCloseMessage {d : Desktop} {p : UInt64 × Message} (hp : p ∈ d.sendCloseMessage.closes) :
    p ∈ d.closes ∨ p.2.arg = .windowClose d.activeLayer := by
  unfold sendCloseMessage at hp
  split at hp
  · exact .inl hp
  next layer task hfind =>
    unfold findActiveLayerTask at hfind
    split at hfind
    · cases hfind
    · obtain ⟨l, hl, hfind⟩ := Option.bind_eq_some_iff.mp hfind
      obtain ⟨t, -, hfind⟩ := Option.bind_eq_some_iff.mp hfind
      split at hfind
      · cases hfind
      · cases hfind
        rw [closes, List.filter_append, List.mem_append] at hp
        rcases hp with hold | hnew
        · exact .inl hold
        · right
          rw [List.mem_singleton.mp (List.mem_of_mem_filter hnew), id_of_findLayer hl]

/-- The messages at the end of a report change nothing but `sent`. -/
theorem sendMessages_spec (s : WindowSystem) (c : UInt32) (newpos posdiff : Vector2D)
    (buttons previousButtons : UInt8) :
    ∃ d, s.sendMessages c newpos posdiff buttons previousButtons = { s with desktop := d } ∧
      d.manager = s.desktop.manager ∧ d.activeLayer = s.desktop.activeLayer ∧
      ∀ p ∈ d.closes, p ∈ s.desktop.closes ∨ (c ≠ 0 ∧ p.2.arg = .windowClose s.desktop.activeLayer) := by
  unfold sendMessages
  split
  · split
    · refine ⟨_, rfl, ?_, ?_, fun p hp => .inl (closes_sendMouseMessage .. ▸ hp)⟩
      all_goals
        unfold sendMouseMessage
        split <;> rfl
    next h0 =>
      refine ⟨_, rfl, ?_, ?_, fun p hp => (closes_sendCloseMessage hp).imp_right fun harg => ⟨h0, harg⟩⟩
      all_goals
        unfold sendCloseMessage
        split <;> rfl
  · exact ⟨_, rfl, rfl, rfl, fun p hp => .inl hp⟩

/-- **A report of the mouse** adds and removes no layer; it sends a close message only for a layer whose close
button was clicked. -/
theorem onInterrupt_spec (hs : s.Sound) {buttons : UInt8} {dx dy : Int8}
    (h : s.onInterrupt unset buttons dx dy = some s') :
    s.desktop.manager.Keeps s'.desktop.manager ∧ s'.traits = s.traits ∧ s'.Sound ∧ DragOf s s' ∧
      ∀ p ∈ s'.desktop.closes, p ∈ s.desktop.closes ∨ ∃ c, p.2.arg = .windowClose c ∧ Clicked s' c := by
  unfold onInterrupt at h
  dsimp only at h
  generalize elementMin _ _ = newpos at h
  generalize elementMax newpos _ = visualPosition at h
  generalize visualPosition - _ = posdiff at h
  obtain ⟨m, hm, h⟩ := Option.bind_eq_some_iff.mp h
  obtain ⟨⟨s₂, c⟩, hbuttons, h⟩ := Option.bind_eq_some_iff.mp h
  obtain ⟨d, hsend, hmanager, hactive, hcloses⟩ :=
    sendMessages_spec s₂ c newpos posdiff buttons s₂.mouse.previousButtons
  have hmoved : Calm s { s with desktop.manager := m, mouse.visualPosition := visualPosition } :=
    (Calm.of_manager (moveOr_keeps hm)).trans (.of_rest rfl rfl rfl fun _ hp => hp)
  obtain ⟨hcalm, hdrag, hclicked⟩ := onButtons_spec (hmoved.sound hs) hbuttons
  have hfinal := (hmoved.trans hcalm).keeps
  have htraits := (hmoved.trans hcalm).traits
  have hsound := (hmoved.trans hcalm).sound hs
  dsimp only at h
  rw [hsend] at h
  cases h
  refine ⟨?_, htraits, ⟨?_, ?_, ?_, ?_⟩, ?_, fun p hp => ?_⟩
  · change s.desktop.manager.Keeps d.manager
    rw [hmanager]
    exact hfinal
  · change d.manager.Linked
    rw [hmanager]
    exact hsound.linked
  · change d.manager.layerStack.Nodup
    rw [hmanager]
    exact hsound.nodup
  · change d.activeLayer ≠ 0 → (d.manager.findLayer d.activeLayer).isSome
    rw [hmanager, hactive]
    exact hsound.active
  · change s₂.traits.map Prod.fst = d.manager.layers.map Layer.id
    rw [hmanager]
    exact hsound.traits
  · change s₂.mouse.dragLayerID = 0 ∨ s₂.mouse.dragLayerID = s.mouse.dragLayerID ∨
      (d.manager.findLayer s₂.mouse.dragLayerID).isSome
    rw [hmanager]
    exact hdrag
  · rcases hcloses p hp with hold | ⟨h0, harg⟩
    · exact .inl (hmoved.closes p (hcalm.closes p hold))
    · obtain ⟨hact, t, size, pos, ht, hregion⟩ := hclicked h0
      exact .inr ⟨c, hact ▸ harg, hactive.trans hact, t, size, pos, ht, hregion⟩

/-! ### Layers that come and go -/

theorem findTraits_newLayer (s : WindowSystem) (w : Window) (pos : Vector2D) (t : LayerTraits) (j : UInt32) :
    (s.newLayer w pos t).findTraits j =
    (s.findTraits j).or (if s.desktop.manager.latestID + 1 = j then some t else none) := by
  unfold findTraits newLayer
  rw [List.find?_append, Option.map_or]
  congr 1
  by_cases h : s.desktop.manager.latestID + 1 = j <;> simp [h, LayerManager.newLayer]

theorem newLayer_sound (hs : s.Sound) (w : Window) (pos : Vector2D) (t : LayerTraits) : (s.newLayer w pos t).Sound := by
  have hfound : ∀ j, s.Found j → (s.newLayer w pos t).Found j := fun j hj => by
    change ((s.desktop.manager.newLayer w pos).findLayer j).isSome
    rw [findLayer_newLayer, Option.isSome_or, Bool.or_eq_true]
    exact .inl hj
  refine ⟨fun j hj => ?_, hs.nodup, fun h0 => hfound _ (hs.active h0), ?_⟩
  · exact Option.isSome_iff_exists.mp (hfound j (Option.isSome_iff_exists.mpr (hs.linked j hj)))
  · change (s.traits ++ [_]).map Prod.fst = (s.desktop.manager.layers ++ [_]).map Layer.id
    rw [List.map_append, List.map_append, hs.traits]
    rfl

theorem found_newLayer (s : WindowSystem) (w : Window) (pos : Vector2D) (t : LayerTraits) (j : UInt32) :
    (s.newLayer w pos t).Found j ↔ s.Found j ∨ j = s.desktop.manager.latestID + 1 := by
  change ((s.desktop.manager.newLayer w pos).findLayer j).isSome ↔ _
  rw [findLayer_newLayer, Option.isSome_or, Bool.or_eq_true]
  by_cases h : s.desktop.manager.latestID + 1 = j
  · simp [h, Found]
  · simp [h, Found, Ne.symm h]

theorem found_iff_findTraits (hs : s.Sound) (id : UInt32) : s.Found id ↔ (s.findTraits id).isSome := by
  unfold Found findTraits
  rw [isSome_findLayer, ← hs.traits, Option.isSome_map, List.find?_isSome]
  simp

theorem findTraits_closed (s : WindowSystem) (id j : UInt32) :
    ((s.traits.filter fun t => t.1 ≠ id).find? fun t => t.1 = j).map Prod.snd = if j =
    id then none else s.findTraits j := by
  rw [List.find?_filter]
  by_cases h : j = id
  · subst h
    simp
  · rw [if_neg h, findTraits]
    congr 2
    funext t
    by_cases ht : t.1 = j
    · simp [ht, h]
    · simp [ht]

/-- **`CloseLayer`** is defined, takes the layer away if there is one, and leaves the others. -/
theorem closeLayer_spec (hs : s.Sound) (unset : Rectangle) (id : UInt32) :
    ∃ s', s.closeLayer unset id = some s' ∧ s'.Sound ∧
      (∀ j, s'.findTraits j = if j = id then none else s.findTraits j) ∧ s'.mouse = s.mouse ∧
    ∀ p ∈ s'.desktop.closes, p ∈ s.desktop.closes := by
  cases hl : s.desktop.manager.findLayer id with
  | none =>
    have hclose : s.closeLayer unset id = some { s with traits := s.traits.filter fun t => t.1 ≠ id } := by
      unfold closeLayer closeLayerOr
      rw [hl]
      rfl
    have hall : (s.traits.filter fun t => t.1 ≠ id) = s.traits := by
      rw [List.filter_eq_self]
      intro t ht
      have hnot : ¬ s.Found id := by
        unfold Found
        rw [hl]
        exact Bool.false_ne_true
      unfold Found at hnot
      rw [isSome_findLayer, ← hs.traits] at hnot
      have hmem : t.1 ∈ s.traits.map Prod.fst := List.mem_map_of_mem ht
      exact decide_eq_true fun heq => hnot (heq ▸ hmem)
    refine ⟨_, hclose, ?_, fun j => findTraits_closed s id j, rfl, fun p hp => hp⟩
    rw [hall]
    exact hs
  | some l =>
    obtain ⟨d, hd⟩ := activateOr_zero unset hs.linked hs.active
    obtain ⟨hcalm, hact, -⟩ := activate_calm hs hd
    have hsound := hcalm.sound hs
    obtain ⟨l', hl'⟩ := Option.isSome_iff_exists.mp
      ((hcalm.found id).mpr (show s.Found id by unfold Found; rw [hl]; rfl))
    have hremoved := linked_removeLayer hsound.linked hsound.nodup hl'
    have hclose : s.closeLayer unset id = some { s with
        desktop := { d with
          manager := (d.manager.removeLayer id).redraw (d.manager.removeLayer id).shownLayers l.area,
          layerTaskMap := fun j => if j = id then none else d.layerTaskMap j },
        traits := s.traits.filter fun t => t.1 ≠ id } := by
      unfold closeLayer closeLayerOr
      rw [hl]
      simp only [hd, draw_eq hremoved, Option.bind_eq_bind, Option.bind_some]
      rfl
    refine ⟨_, hclose, ⟨hremoved, ?_, fun h0 => absurd hact h0, ?_⟩,
      fun j => findTraits_closed s id j, rfl, hcalm.closes⟩
    · change (d.manager.removeLayer id).layerStack.Nodup
      rw [layerStack_removeLayer hl']
      exact hsound.nodup.erase id
    · change (s.traits.filter _).map Prod.fst = (d.manager.removeLayer id).layers.map Layer.id
      have htraits : s.traits.map Prod.fst = d.manager.layers.map Layer.id := hsound.traits
      have hlayers : (d.manager.removeLayer id).layers = d.manager.layers.filter fun l => l.id ≠ id := by
        unfold removeLayer
        dsimp only
        rw [layers_hide]
      calc (s.traits.filter fun t => t.1 ≠ id).map Prod.fst
          = (s.traits.map Prod.fst).filter fun j => j ≠ id := by rw [List.filter_map]; rfl
        _ = (d.manager.layers.map Layer.id).filter fun j => j ≠ id := by rw [htraits]
        _ = (d.manager.removeLayer id).layers.map Layer.id := by rw [List.filter_map, hlayers]; rfl

/-! ### Events -/

/-- The layer that an event passes to `CloseLayer`. -/
def Event.closes : Event → Option UInt32
  | .closeWindow arg1 => some (layerIDOf arg1)
  | .closeMessage _ _ layerID => some layerID
  | _ => none

/-- The ID of the layer that an event creates. -/
def Event.opens (s : WindowSystem) : Event → Option UInt32
  | .openWindow .. => some (s.desktop.manager.latestID + 1)
  | .openTerminal .. => some (s.desktop.manager.latestID + 1)
  | _ => none

/-- The layers after an event: without the one that is closed, and perhaps with a new one, which is not privileged. -/
def LayersOf (s s' : WindowSystem) (closed opened : Option UInt32) : Prop :=
  ∀ j, if closed = some j then s'.findTraits j = none
    else s'.findTraits j = s.findTraits j ∨
      opened = some j ∧ s.findTraits j = none ∧ ∃ t, s'.findTraits j = some t ∧ ¬ t.IsPrivileged

theorem Calm.layersOf (h : Calm s s') : LayersOf s s' none none := fun j => by
  rw [if_neg (by simp)]
  exact .inl (h.findTraits j)

/-- What an event does, as far as layers go. -/
structure Effect (s s' : WindowSystem) (e : Event) : Prop where
  sound : s'.Sound
  layers : LayersOf s s' e.closes (e.opens s)
  opened : ∀ j, e.opens s = some j → s'.Found j
  drag : DragOf s s'
  closes : ∀ p ∈ s'.desktop.closes, p ∈ s.desktop.closes ∨ ∃ c, p.2.arg = .windowClose c ∧ Clicked s' c

theorem Calm.effect (h : Calm s s') (hs : s.Sound) (hmouse : s'.mouse = s.mouse) {e : Event} (he : e.closes = none)
    (ho : e.opens s = none) : Effect s s' e where
  sound := h.sound hs
  layers := he ▸ ho ▸ h.layersOf
  opened j hj := by
    rw [ho] at hj
    cases hj
  drag := .inr (.inl (by rw [hmouse]))
  closes p hp := .inl (h.closes p hp)

/-- A new layer, and then calm. -/
theorem newLayer_effect (hs : s.Sound) {w : Window} {pos : Vector2D} {t : LayerTraits} (ht : ¬ t.IsPrivileged)
    (h : Calm (s.newLayer w pos t) s') (hmouse : s'.mouse = s.mouse) {e : Event} (he : e.closes = none)
    (ho : e.opens s = some (s.desktop.manager.latestID + 1)) : Effect s s' e where
  sound := h.sound (newLayer_sound hs w pos t)
  layers j := by
    rw [he, ho, if_neg (by simp), h.findTraits, findTraits_newLayer]
    cases hj : s.findTraits j with
    | some t' => exact .inl rfl
    | none =>
      by_cases hnew : s.desktop.manager.latestID + 1 = j
      · exact .inr ⟨by rw [hnew], rfl, t, by rw [if_pos hnew]; rfl, ht⟩
      · exact .inl (by rw [if_neg hnew]; rfl)
  opened j hj := by
    rw [h.found, found_newLayer]
    exact .inr (Option.some.inj (ho.symm.trans hj)).symm
  drag := .inr (.inl (by rw [hmouse]))
  closes p hp := .inl (h.closes p hp)

theorem not_isPrivileged (w : NewWindow) : ¬ (w.traits false).IsPrivileged := by
  rintro ⟨enter, leave, h⟩
  cases h

theorem insertTask_calm (s : WindowSystem) (id : UInt32) (task : UInt64) : Calm s (s.insertTask id task) :=
  .of_rest rfl rfl rfl fun _ hp => hp

theorem received_calm (s : WindowSystem) (task : UInt64) (msg : Message) : Calm s (s.received task msg) := by
  refine .of_rest rfl rfl rfl fun p hp => ?_
  have hmem := List.mem_filter.mp hp
  exact List.mem_filter.mpr ⟨List.mem_of_mem_erase hmem.1, hmem.2⟩

theorem processLayerMessage_calm {op : LayerOperation} {x y w height : Int32} {d : Desktop}
    (h : s.desktop.processLayerMessage unset op id x y w height = some d) : Calm s { s with desktop := d } := by
  obtain ⟨m, hm, h⟩ := Option.bind_eq_some_iff.mp h
  cases h
  exact .of_manager (operateOr_keeps hm)

theorem openWindow_effect (hs : s.Sound) {task : UInt64} {w : NewWindow} {pos : Vector2D}
    (h : s.syscallOpenWindow unset task w pos = some s') : Effect s s' (.openWindow task w pos) := by
  obtain ⟨d, hd, h⟩ := Option.bind_eq_some_iff.mp h
  cases h
  have hnew := newLayer_sound hs w.window pos (w.traits false)
  exact newLayer_effect hs (not_isPrivileged w) ((activate_calm hnew hd).1.trans (insertTask_calm _ _ _)) rfl rfl rfl

theorem openTerminal_effect (hs : s.Sound) {task : UInt64} {w : NewWindow} (h : s.openTerminal unset task w = some s') :
    Effect s s' (.openTerminal task w) := by
  obtain ⟨m, hm, h⟩ := Option.bind_eq_some_iff.mp h
  obtain ⟨d, hd, h⟩ := Option.bind_eq_some_iff.mp h
  cases h
  have hnew := newLayer_sound hs w.window ⟨0, 0⟩ (w.traits false)
  have hmoved := (Calm.of_manager (moveOr_keeps hm)).trans
    (insertTask_calm _ (s.newLayer w.window ⟨0, 0⟩ (w.traits false)).desktop.manager.latestID task)
  have hcalm := hmoved.trans (activate_calm (hmoved.sound hnew) hd).1
  exact newLayer_effect hs (not_isPrivileged w) hcalm rfl rfl rfl

theorem doWinFunc_calm {layerIDFlags : UInt64} {f : Contents → Contents}
    (h : s.doWinFunc unset layerIDFlags f = some s') :
    Calm s s' ∧ s'.mouse = s.mouse := by
  unfold doWinFunc at h
  dsimp only at h
  split at h
  · cases h
    exact ⟨.refl _, rfl⟩
  · split at h
    · obtain ⟨m, hm, h⟩ := Option.bind_eq_some_iff.mp h
      cases h
      exact ⟨(repaint_calm s _ f).trans (.of_manager (drawAreaOr_keeps hm)), rfl⟩
    · cases h
      exact ⟨repaint_calm s _ f, rfl⟩

/-- `CloseLayer`, called after a calm step. -/
theorem closeLayer_effect (hs : s.Sound) (hcalm : Calm s s') (hmouse : s'.mouse = s.mouse) {e : Event}
    (he : e.closes = some id) (ho : e.opens s = none) (h : s'.closeLayer unset id = some s'') : Effect s s'' e := by
  obtain ⟨s₁, hclose, hsound, htraits, hmouse', hcloses⟩ := closeLayer_spec (hcalm.sound hs) unset id
  rw [hclose] at h
  cases h
  refine ⟨hsound, fun j => ?_, fun j hj => ?_, .inr (.inl (by rw [hmouse', hmouse])),
    fun p hp => .inl (hcalm.closes p (hcloses p hp))⟩
  · rw [he, htraits, hcalm.findTraits]
    by_cases hj : j = id
    · rw [if_pos (by rw [hj]), if_pos hj]
    · rw [if_neg fun heq => hj (Option.some.inj heq).symm, if_neg hj]
      exact .inl rfl
  · rw [ho] at hj
    cases hj

/-- **What an event does.** -/
theorem perform_effect (hs : s.Sound) {e : Rectangle × Event} (h : s.perform e = some s') : Effect s s' e.2 := by
  obtain ⟨unset, e⟩ := e
  unfold perform at h
  cases e with
  | report buttons dx dy =>
    obtain ⟨-, htraits, hsound, hdrag, hcloses⟩ := onInterrupt_spec hs h
    refine ⟨hsound, fun j => ?_, fun j hj => (nomatch hj), hdrag, hcloses⟩
    rw [if_neg (by simp [Event.closes]), findTraits, htraits]
    exact .inl rfl
  | openWindow task w pos => exact openWindow_effect hs h
  | openTerminal task w => exact openTerminal_effect hs h
  | winFunc layerIDFlags f =>
    obtain ⟨hcalm, hmouse⟩ := doWinFunc_calm h
    exact hcalm.effect hs hmouse rfl rfl
  | closeWindow arg1 => exact closeLayer_effect hs (.refl s) rfl rfl rfl h
  | closeMessage task srcTask layerID =>
    dsimp only at h
    split at h
    · exact closeLayer_effect hs (received_calm s _ _) rfl rfl rfl h
    · cases h
  | sendLayer srcTask op layerID x y w height =>
    cases h
    have hcalm : Calm s { s with
        desktop.sent := s.desktop.sent ++ [(mainTask, ⟨srcTask, .layer op layerID x y w height⟩)] } := by
      refine .of_rest rfl rfl rfl fun p hp => ?_
      rw [Desktop.closes, List.filter_append, List.mem_append] at hp
      rcases hp with hold | hnew
      · exact hold
      · obtain ⟨hmem, hclose⟩ := List.mem_filter.mp hnew
        rw [List.mem_singleton.mp hmem] at hclose
        cases hclose
    exact hcalm.effect hs rfl rfl rfl
  | layerMessage srcTask op layerID x y w height =>
    dsimp only at h
    split at h
    · obtain ⟨d, hd, h⟩ := Option.bind_eq_some_iff.mp h
      cases h
      exact ((received_calm s _ _).trans (processLayerMessage_calm hd)).effect hs rfl rfl rfl
    · cases h
  | receive task msg =>
    dsimp only at h
    split at h
    · cases h
      exact (received_calm s _ _).effect hs rfl rfl rfl
    · cases h
  | paint layerID f =>
    cases h
    exact (repaint_calm s _ f).effect hs rfl rfl rfl
  | draw layerID =>
    obtain ⟨m, hm, h⟩ := Option.bind_eq_some_iff.mp h
    cases h
    exact Calm.effect (.of_manager (drawAreaOr_keeps hm)) hs rfl rfl rfl

/-! ### The beginning -/

/-- The system while it starts: its layers have the traits, no more IDs are used, and nothing was sent. -/
structure Starting (ts : List (UInt32 × LayerTraits)) (latestID : UInt32) (s : WindowSystem) : Prop where
  sound : s.Sound
  traits : s.traits = ts
  latest : s.desktop.manager.latestID = latestID
  sent : s.desktop.sent = []

namespace Starting

variable {ts : List (UInt32 × LayerTraits)} {latestID : UInt32}

theorem newLayer (h : Starting ts latestID s) (w : Window) (pos : Vector2D) (t : LayerTraits) :
    Starting (ts ++ [(latestID + 1, t)]) (latestID + 1) (s.newLayer w pos t) := by
  obtain ⟨hs, rfl, rfl, hsent⟩ := h
  exact ⟨newLayer_sound hs w pos t, rfl, rfl, hsent⟩

theorem of_manager (h : Starting ts latestID s) {m : LayerManager} (hm : s.desktop.manager.Keeps m) :
    Starting ts latestID { s with desktop.manager := m } :=
  ⟨(Calm.of_manager hm).sound h.sound, h.traits, hm.latest.trans h.latest, h.sent⟩

theorem found (h : Starting ts latestID s) (id : UInt32) (hid : id ∈ ts.map Prod.fst) :
    ∃ l, s.desktop.manager.findLayer id = some l := by
  rw [← h.traits, h.sound.traits, ← isSome_findLayer] at hid
  exact Option.isSome_iff_exists.mp hid

theorem upDown (h : Starting ts latestID s) (id : UInt32) {newHeight : ℤ} (h0 : 0 ≤ newHeight)
    (hid : id ∈ ts.map Prod.fst) :
    ∃ s', s.upDown id newHeight = some s' ∧ Starting ts latestID s' := by
  obtain ⟨l, hl⟩ := h.found id hid
  obtain ⟨m, hm⟩ : ∃ m, s.desktop.manager.upDown id newHeight = some m := by
    unfold LayerManager.upDown
    rw [if_neg (Int.not_lt.mpr h0), hl]
    simp only [Option.bind_eq_bind, Option.bind_some]
    split
    · exact ⟨_, rfl⟩
    · exact ⟨_, rfl⟩
  refine ⟨_, ?_, h.of_manager (upDown_keeps hm)⟩
  unfold WindowSystem.upDown
  rw [hm]
  rfl

theorem draw (h : Starting ts latestID s) (area : Rectangle) :
    ∃ s', s.draw area = some s' ∧ Starting ts latestID s' := by
  have hdraw := draw_eq h.sound.linked area
  refine ⟨_, ?_, h.of_manager (draw_keeps hdraw)⟩
  unfold WindowSystem.draw
  rw [hdraw]
  rfl

theorem initializeLayer (h : Starting [] 0 s) (background console : Window) :
    ∃ s', s.initializeLayer background console = some s' ∧
      Starting [(1, ⟨false, .window⟩), (2, ⟨false, .window⟩)] 2 s' := by
  have h₁ := h.newLayer background ⟨0, 0⟩ ⟨false, .window⟩
  have h₂ := h₁.newLayer console ⟨0, 0⟩ ⟨false, .window⟩
  obtain ⟨s₃, e₃, h₃⟩ := h₂.upDown 1 (Int.le_refl 0) (by simp)
  obtain ⟨s₄, e₄, h₄⟩ := h₃.upDown 2 (show (0 : ℤ) ≤ 1 by decide) (by simp)
  refine ⟨s₄, ?_, h₄⟩
  unfold WindowSystem.initializeLayer
  dsimp only
  rw [h₁.latest, h₂.latest]
  exact Option.bind_eq_some_iff.mpr ⟨s₃, e₃, e₄⟩

theorem addPrivileged (h : Starting ts latestID s) (w : NewWindow) (pos : Vector2D) :
    ∃ s', s.addPrivileged w pos = some s' ∧ Starting (ts ++ [(latestID + 1, w.traits true)]) (latestID + 1) s' := by
  have hnew := h.newLayer w.window pos (w.traits true)
  obtain ⟨s', hs', h'⟩ := hnew.upDown (latestID + 1) (show 0 ≤ intMax by decide) (by simp)
  refine ⟨s', ?_, h'⟩
  unfold WindowSystem.addPrivileged
  dsimp only
  rw [hnew.latest]
  exact hs'

theorem moveOr (h : Starting ts latestID s) (unset : Rectangle) (id : UInt32) (pos : Vector2D)
    (hid : id ∈ ts.map Prod.fst) :
    ∃ m, s.desktop.manager.moveOr unset id pos = some m := by
  obtain ⟨l, hl⟩ := h.found id hid
  have hlinked := (updateLayer_keeps (f := fun l => l.move pos) (fun _ => rfl) s.desktop.manager id).linked
    h.sound.linked
  have hdraw := draw_eq hlinked l.area
  obtain ⟨m, hm⟩ := drawAreaOr_isSome ((draw_keeps hdraw).linked hlinked) unset ⟨⟨0, 0⟩, ⟨-1, -1⟩⟩ id
  refine ⟨m, ?_⟩
  unfold LayerManager.moveOr moveWithOr
  rw [hl]
  simp only [hdraw, Option.bind_eq_bind, Option.bind_some]
  exact hm

theorem of_mouse (h : Starting ts latestID s) (mouseLayer : UInt32) (mouse : Mouse) :
    Starting ts latestID ⟨{ s.desktop with mouseLayer := mouseLayer }, s.traits, mouse⟩ :=
  ⟨⟨h.sound.linked, h.sound.nodup, h.sound.active, h.sound.traits⟩, h.traits, h.latest, h.sent⟩

theorem initializeMouse (h : Starting ts latestID s) (unset : Rectangle) (window : Window) :
    ∃ s', s.initializeMouse unset window = some s' ∧
      Starting (ts ++ [(latestID + 1, ⟨false, .window⟩)]) (latestID + 1) s' ∧ s'.mouse.dragLayerID = 0 := by
  have hnew := h.newLayer window ⟨0, 0⟩ ⟨false, .window⟩
  obtain ⟨m, hm⟩ := hnew.moveOr unset (latestID + 1) (⟨200, 200⟩ - mouseCursorHitboxOffset) (by simp)
  have hmoved := hnew.of_manager (moveOr_keeps hm)
  obtain ⟨s', hs', h'⟩ := (hmoved.of_mouse (latestID + 1)
    ⟨latestID + 1, ⟨200, 200⟩ - mouseCursorHitboxOffset, 0, 0⟩).upDown
    (latestID + 1) (show 0 ≤ intMax by decide) (by simp)
  refine ⟨s', ?_, h', ?_⟩
  · unfold WindowSystem.initializeMouse
    dsimp only
    rw [hnew.latest]
    exact Option.bind_eq_some_iff.mpr ⟨m, hm, hs'⟩
  · obtain ⟨m', -, e⟩ := Option.bind_eq_some_iff.mp hs'
    cases e
    rfl

end Starting

/-- The traits of the layers when the system has started. -/
def bootTraits (w : BootWindows) : List (UInt32 × LayerTraits) :=
  [(1, ⟨false, .window⟩), (2, ⟨false, .window⟩), (3, w.counter.traits true), (4, w.normalText.traits true),
    (5, w.bhatText.traits true), (6, w.pekzepText.traits true), (7, ⟨false, .window⟩)]

/-- **The start of the system** goes through. -/
theorem boot_starting (unset : Rectangle) (screen backBuffer : FrameBuffer) (w : BootWindows) :
    ∃ s, boot unset screen backBuffer w = some s ∧ Starting (bootTraits w) 7 s ∧ s.mouse.dragLayerID = 0 := by
  have h₀ : Starting [] 0 (blank screen backBuffer) :=
    ⟨⟨fun _ hj => (List.not_mem_nil hj).elim, List.nodup_nil, fun h0 => absurd rfl h0, rfl⟩, rfl, rfl, rfl⟩
  obtain ⟨s₁, e₁, h₁⟩ := h₀.initializeLayer w.background w.console
  obtain ⟨s₂, e₂, h₂⟩ := h₁.addPrivileged w.counter ⟨320, 70⟩
  obtain ⟨s₃, e₃, h₃⟩ := h₂.addPrivileged w.normalText ⟨520, 70⟩
  obtain ⟨s₄, e₄, h₄⟩ := h₃.addPrivileged w.bhatText ⟨320, 15⟩
  obtain ⟨s₅, e₅, h₅⟩ := h₄.addPrivileged w.pekzepText ⟨320, 125⟩
  obtain ⟨s₆, e₆, h₆⟩ := h₅.draw ⟨⟨0, 0⟩, screen.size⟩
  obtain ⟨s₇, e₇, h₇, hdrag⟩ := h₆.initializeMouse unset w.mouse
  refine ⟨s₇, ?_, h₇, hdrag⟩
  unfold boot
  simp only [e₁, e₂, e₃, e₄, e₅, e₆, e₇, Option.bind_eq_bind, Option.bind_some]

end WindowSystem

end DuvuvurKernel
