import DuvuvurKernel.Graphics.LayerStack
import Mathlib.Logic.Relation

/-!
# The order of the layers

The background stays at the bottom of the layer stack and the mouse layer at the top,
whatever tasks do with the other layers; an activated layer comes to stand directly
below the mouse layer, and no other layer changes its place among the rest.

`Activate` returns at once if the layer is active already. That the layer is directly
below the mouse layer then too needs the invariant `ZOrder.active`: an active layer
stays there until it is deactivated or closed, since no other operation puts a layer
above it.
-/

namespace DuvuvurKernel

namespace Desktop

open LayerManager Relation

variable {bg mouse id : UInt32} {d d' : Desktop} {l : Layer}

/-- The layers are in order, with the background `bg` and the mouse layer `mouse`. -/
structure ZOrder (bg mouse : UInt32) (d : Desktop) : Prop where
  /-- Only layers of `layers_` are on the stack. -/
  linked : d.manager.Linked
  nodup : d.manager.layerStack.Nodup
  /-- The background is at the bottom, the mouse layer at the top. -/
  ends : ∃ mid, d.manager.layerStack = bg :: (mid ++ [mouse])
  mouse_eq : d.mouseLayer = mouse
  /-- A layer that is active is directly below the mouse layer. None is active when
  `InitializeMouse` puts the mouse layer at the top. -/
  active : d.activeLayer = 0 ∨ ∃ below, d.manager.layerStack = below ++ [d.activeLayer, mouse]

/-- What tasks do: they activate and close layers that exist, other than the background
and the mouse layer, and move and draw layers that are on the stack. -/
def Permitted (bg mouse : UInt32) (d : Desktop) : Op → Prop
  | .newLayer _ _ => True
  | .move id _ => id ∈ d.manager.layerStack
  | .moveRelative id _ => id ∈ d.manager.layerStack
  | .repaint id _ => id ∈ d.manager.layerStack
  | .activate id => id = 0 ∨ id ≠ bg ∧ id ≠ mouse ∧ ∃ l, d.manager.findLayer id = some l
  | .closeLayer id => id ≠ bg ∧ id ≠ mouse

/-- A run of permitted operations. -/
def Reaches (bg mouse : UInt32) : Desktop → Desktop → Prop :=
  ReflTransGen fun d d' => ∃ op, Permitted bg mouse d op ∧ d.step op = some d'

namespace ZOrder

/-- An active layer is a layer. -/
theorem active_found (h : ZOrder bg mouse d) :
    d.activeLayer = 0 ∨ d.activeLayer ∈ d.manager.layerStack := by
  rcases h.active with h0 | ⟨below, hs⟩
  · exact .inl h0
  · right
    rw [hs]
    simp

theorem of_same (h : ZOrder bg mouse d) (hs : SameLayers d.manager d'.manager)
    (ha : d'.activeLayer = 0 ∨ d'.activeLayer = d.activeLayer) (hm : d'.mouseLayer = d.mouseLayer) :
    ZOrder bg mouse d' := by
  refine ⟨hs.linked h.linked, ?_, ?_, hm.trans h.mouse_eq, ?_⟩
  · rw [hs.stack]
    exact h.nodup
  · rw [hs.stack]
    exact h.ends
  · rcases ha with ha | ha
    · exact .inl ha
    · rw [ha, hs.stack]
      exact h.active

/-- Taking a layer between the two ends out of the stack. -/
theorem erase_ends {mid : List UInt32} (hbg : id ≠ bg) (hmouse : id ≠ mouse) :
    (bg :: (mid ++ [mouse])).erase id = bg :: mid.erase id ++ [mouse] := by
  rw [List.erase_cons_tail (by simpa using hbg.symm), List.cons_append]
  congr 1
  by_cases hid : id ∈ mid
  · rw [List.erase_append_left _ hid]
  · rw [List.erase_append_right _ hid, List.erase_of_not_mem hid,
      List.erase_of_not_mem (by simpa using hmouse)]

/-- **What `Activate` does to the stack.** -/
theorem activate (h : ZOrder bg mouse d) (h0 : id ≠ 0) (hbg : id ≠ bg) (hmouse : id ≠ mouse)
    (hl : d.manager.findLayer id = some l) :
    ∃ d', d.activate id = some d' ∧ ZOrder bg mouse d' ∧ d'.activeLayer = id ∧
      (∃ below, d'.manager.layerStack = below ++ [id, mouse]) ∧
      d'.manager.layerStack.erase id = d.manager.layerStack.erase id := by
  obtain ⟨mid, hmid⟩ := h.ends
  by_cases ha : d.activeLayer = id
  · have hbelow : ∃ below, d.manager.layerStack = below ++ [id, mouse] := by
      rcases h.active with hz | hb
      · exact absurd (ha.symm.trans hz) h0
      · rwa [ha] at hb
    exact ⟨d, if_pos ha, h, ha, hbelow, rfl⟩
  · obtain ⟨d₁, hd₁, hs₁, -, hm₁⟩ := deactivateOld_same h.linked h.nodup h.active_found
    have hn₁ : d₁.manager.layerStack.Nodup := by
      rw [hs₁.stack]
      exact h.nodup
    obtain ⟨l₁, hl₁⟩ : ∃ l₁, d₁.manager.findLayer id = some l₁ := by
      rw [← Option.isSome_iff_exists, hs₁.found, hl]
      rfl
    have hmouse₁ : d₁.mouseLayer = mouse := hm₁.trans h.mouse_eq
    have herase : d₁.manager.layerStack.erase id = bg :: mid.erase id ++ [d₁.mouseLayer] := by
      rw [hs₁.stack, hmid, hmouse₁]
      exact erase_ends hbg hmouse
    obtain ⟨d', hd', hlink, hstack, hact, hm'⟩ := activateNew_same (hs₁.linked h.linked) hn₁ h0 hl₁
      (by rwa [hmouse₁]) herase
    have hsame : d'.manager.layerStack.erase id = d.manager.layerStack.erase id := by
      rw [hstack, erase_insert hn₁ herase, hs₁.stack]
    rw [hmouse₁] at hstack
    refine ⟨d', ?_, ⟨hlink, ?_, ?_, hm'.trans hmouse₁, ?_⟩, hact, ⟨_, hstack⟩, hsame⟩
    · unfold Desktop.activate
      rw [if_neg ha, hd₁]
      exact hd'
    · rw [hstack, ← hmouse₁]
      exact nodup_insert hn₁ herase
    · exact ⟨mid.erase id ++ [id], by rw [hstack]; simp⟩
    · right
      rw [hact]
      exact ⟨_, hstack⟩

/-- **What `CloseLayer` does to the stack.** -/
theorem closeLayer (h : ZOrder bg mouse d) (hbg : id ≠ bg) (hmouse : id ≠ mouse)
    (hl : d.manager.findLayer id = some l) :
    ∃ d', d.closeLayer id = some (.ok (), d') ∧ ZOrder bg mouse d' ∧ d'.activeLayer = 0 ∧
      d'.manager.findLayer id = none ∧
      d'.manager.layerStack = d.manager.layerStack.erase id := by
  obtain ⟨mid, hmid⟩ := h.ends
  obtain ⟨d₁, hd₁, hs₁, ha₁, hm₁⟩ := activate_zero_same h.linked h.nodup h.active_found
  have hn₁ : d₁.manager.layerStack.Nodup := by
    rw [hs₁.stack]
    exact h.nodup
  obtain ⟨l₁, hl₁⟩ : ∃ l₁, d₁.manager.findLayer id = some l₁ := by
    rw [← Option.isSome_iff_exists, hs₁.found, hl]
    rfl
  have hlink := linked_removeLayer (hs₁.linked h.linked) hn₁ hl₁
  have hstack : (d₁.manager.removeLayer id).layerStack = d.manager.layerStack.erase id := by
    rw [layerStack_removeLayer hl₁, hs₁.stack]
  refine ⟨{ d₁ with
    manager := (d₁.manager.removeLayer id).redraw (d₁.manager.removeLayer id).shownLayers l.area
    layerTaskMap := fun j => if j = id then none else d₁.layerTaskMap j }, ?_,
    ⟨?_, ?_, ?_, hm₁.trans h.mouse_eq, .inl ha₁⟩, ha₁, ?_, ?_⟩
  · unfold Desktop.closeLayer
    rw [hl]
    simp only [hd₁, draw_eq hlink, Option.bind_eq_bind, Option.bind_some]
    rfl
  · exact hlink
  · rw [layerStack_redraw, hstack]
    exact h.nodup.erase id
  · rw [layerStack_redraw, hstack, hmid, erase_ends hbg hmouse]
    exact ⟨_, rfl⟩
  · rw [findLayer_redraw, findLayer_removeLayer, if_pos rfl]
  · rw [layerStack_redraw, hstack]

/-- A new layer is not on the stack. -/
theorem newLayer (h : ZOrder bg mouse d) (w : Window) (pos : Vector2D) :
    ZOrder bg mouse { d with manager := d.manager.newLayer w pos } := by
  refine ⟨?_, h.nodup, h.ends, h.mouse_eq, h.active⟩
  intro j hj
  obtain ⟨l, hl⟩ := h.linked j hj
  refine ⟨l, ?_⟩
  rw [findLayer_newLayer, hl]
  rfl

/-- Drawing a layer on the stack leaves the order alone. -/
theorem drawn (h : ZOrder bg mouse d) {m : Option LayerManager}
    (hm : ∃ m', m = some m' ∧ SameLayers d.manager m') :
    ∃ d', m.map (fun m' => { d with manager := m' }) = some d' ∧ ZOrder bg mouse d' := by
  obtain ⟨m', rfl, hs⟩ := hm
  exact ⟨_, rfl, h.of_same hs (.inr rfl) rfl⟩

/-- **A permitted operation is defined and leaves the layers in order.** -/
theorem step (h : ZOrder bg mouse d) {op : Op} (hp : Permitted bg mouse d op) :
    ∃ d', d.step op = some d' ∧ ZOrder bg mouse d' := by
  cases op with
  | newLayer w pos => exact ⟨_, rfl, h.newLayer w pos⟩
  | move id pos => exact h.drawn (moveWith_same (fun _ => rfl) h.linked h.nodup hp)
  | moveRelative id posDiff => exact h.drawn (moveWith_same (fun _ => rfl) h.linked h.nodup hp)
  | repaint id f =>
    obtain ⟨l, hl⟩ := h.linked id hp
    obtain ⟨m', hm', hs⟩ := updateLayer_drawLayer_same (f := fun l => l.repaint f) (fun _ => rfl)
      h.linked h.nodup hp
    refine ⟨{ d with manager := m' }, ?_, h.of_same hs (.inr rfl) rfl⟩
    simp only [Desktop.step, hl, hm', Option.bind_eq_bind, Option.bind_some]
    rfl
  | activate id =>
    by_cases h0 : id = 0
    · subst h0
      obtain ⟨d', hd', hs, ha, hm⟩ := activate_zero_same h.linked h.nodup h.active_found
      exact ⟨d', hd', h.of_same hs (.inl ha) hm⟩
    · obtain ⟨hbg, hmouse, l, hl⟩ := hp.resolve_left h0
      obtain ⟨d', hd', hz, -⟩ := h.activate h0 hbg hmouse hl
      exact ⟨d', hd', hz⟩
  | closeLayer id =>
    cases hl : d.manager.findLayer id with
    | none =>
      refine ⟨d, ?_, h⟩
      simp only [Desktop.step, Desktop.closeLayer, hl]
      rfl
    | some l =>
      obtain ⟨d', hd', hz, -⟩ := h.closeLayer hp.1 hp.2 hl
      refine ⟨d', ?_, hz⟩
      simp only [Desktop.step, hd']
      rfl

/-- The layers stay in order over a run. -/
theorem reaches (h : ZOrder bg mouse d) (hr : Reaches bg mouse d d') : ZOrder bg mouse d' := by
  induction hr with
  | refl => exact h
  | tail _ hs ih =>
    obtain ⟨op, hp, hop⟩ := hs
    obtain ⟨d₂, hd₂, hz⟩ := ih.step hp
    rw [hop] at hd₂
    rw [Option.some.inj hd₂]
    exact hz

end ZOrder

/-- **The order of the layers.** In every state that a run reaches, no layer is on the
stack twice, every layer on it exists, the background is at the bottom and the mouse
layer at the top, and the active layer exists. `Activate(0)` leaves the stack as it is,
`Activate(id)` moves the layer directly below the mouse layer, and `CloseLayer` takes
the layer away; the other layers keep their order. -/
theorem layer_order (h : ZOrder bg mouse d) (hr : Reaches bg mouse d d') :
    d'.manager.layerStack.Nodup ∧
    (∀ id ∈ d'.manager.layerStack, ∃ l, d'.manager.findLayer id = some l) ∧
    d'.manager.layerStack.head? = some bg ∧
    d'.manager.layerStack.getLast? = some mouse ∧
    (d'.activeLayer = 0 ∨ ∃ l, d'.manager.findLayer d'.activeLayer = some l) ∧
    (∃ d'', d'.activate 0 = some d'' ∧ d''.manager.layerStack = d'.manager.layerStack) ∧
    (∀ id l, id ≠ 0 → id ≠ bg → id ≠ mouse → d'.manager.findLayer id = some l →
      ∃ d'', d'.activate id = some d'' ∧
        (∃ below, d''.manager.layerStack = below ++ [id, mouse]) ∧
        d''.manager.layerStack.erase id = d'.manager.layerStack.erase id) ∧
    (∀ id l, id ≠ bg → id ≠ mouse → d'.manager.findLayer id = some l →
      ∃ d'', d'.closeLayer id = some (.ok (), d'') ∧ d''.manager.findLayer id = none ∧
        d''.manager.layerStack = d'.manager.layerStack.erase id) := by
  have hz := h.reaches hr
  obtain ⟨mid, hmid⟩ := hz.ends
  refine ⟨hz.nodup, hz.linked, by rw [hmid]; rfl, ?_, ?_, ?_, ?_, ?_⟩
  · rw [hmid, ← List.cons_append]
    exact List.getLast?_concat ..
  · exact hz.active_found.imp_right fun ha => hz.linked _ ha
  · obtain ⟨d'', hd'', hs, -⟩ := activate_zero_same hz.linked hz.nodup hz.active_found
    exact ⟨d'', hd'', hs.stack⟩
  · intro id l h0 hbg hmouse hl
    obtain ⟨d'', hd'', -, -, hbelow, hrest⟩ := hz.activate h0 hbg hmouse hl
    exact ⟨d'', hd'', hbelow, hrest⟩
  · intro id l hbg hmouse hl
    obtain ⟨d'', hd'', -, -, hgone, hstack⟩ := hz.closeLayer hbg hmouse hl
    exact ⟨d'', hd'', hgone, hstack⟩

/-- A window of 4 by 4 black pixels. -/
def blackWindow (transparentColor : Option PixelColor) : Window where
  width := 4
  height := 4
  shadowFormat := .bgrResv8BitPerColor
  transparentColor := transparentColor
  contents := ⟨fun _ => ⟨0, 0, 0⟩, fun _ => ⟨0, 0, 0⟩⟩
  activate := fun c => c
  deactivate := fun c => c

/-- A screen of 4 by 4 pixels with the background, a console and the mouse layer. -/
def smallDesktop : Desktop where
  manager :=
    { screen := ⟨4, 4, .bgrResv8BitPerColor, fun _ => ⟨0, 0, 0⟩⟩
      backBuffer := ⟨4, 4, .bgrResv8BitPerColor, fun _ => ⟨0, 0, 0⟩⟩
      layers := [⟨1, ⟨0, 0⟩, blackWindow none⟩, ⟨2, ⟨1, 1⟩, blackWindow none⟩,
        ⟨3, ⟨2, 2⟩, blackWindow (some ⟨255, 255, 255⟩)⟩]
      layerStack := [1, 2, 3]
      latestID := 3 }
  activeLayer := 0
  mouseLayer := 3
  layerTaskMap := fun _ => none
  sent := []

/-- A window is opened over the console: it comes to stand above it. -/
theorem layer_order_opened :
    ∃ d' d'', Reaches 1 3 smallDesktop d' ∧ d'.activate 4 = some d'' ∧
      (∃ below, d''.manager.layerStack = below ++ [4, 3]) ∧
      d''.manager.layerStack.erase 4 = [1, 2, 3] := by
  have hz : ZOrder 1 3 smallDesktop := by
    refine ⟨?_, by decide, ⟨[2], rfl⟩, rfl, .inl rfl⟩
    intro id hid
    simp only [smallDesktop, List.mem_cons, List.not_mem_nil, or_false] at hid
    rcases hid with rfl | rfl | rfl
    · exact ⟨_, rfl⟩
    · exact ⟨_, rfl⟩
    · exact ⟨_, rfl⟩
  have hr : Reaches 1 3 smallDesktop { smallDesktop with
      manager := smallDesktop.manager.newLayer (blackWindow none) ⟨0, 2⟩ } :=
    .single ⟨.newLayer (blackWindow none) ⟨0, 2⟩, trivial, rfl⟩
  obtain ⟨-, -, -, -, -, -, hact, -⟩ := layer_order hz hr
  obtain ⟨d'', hd'', hbelow, hrest⟩ := hact 4 _ (by decide) (by decide) (by decide) rfl
  exact ⟨_, d'', hr, hd'', hbelow, hrest⟩

end Desktop

end DuvuvurKernel
