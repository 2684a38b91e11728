import DuvuvurKernel.Graphics.LayerStack
import Mathlib.Logic.Relation

/-!
# Redrawing is composition

The screen shows, at every pixel, the colour of the topmost layer that covers it
non-transparently (`composition`). Each operation of `layer.cpp` repaints only some
rectangles, into a back buffer that keeps what was drawn before, and only the layers
from one height upwards; the transparent mouse cursor is drawn without regard to the
rectangle. That the screen shows the composition all the same is kept by the invariant
`Composed`: the screen and the back buffer both show it.

A transparent layer cannot be erased by drawing it. If its contents change so that a
pixel that had a colour becomes transparent, the old colour stays (`stale_pixel`): the
contents of a layer may only change so that what was covered stays covered, which an
opaque window's do whatever is drawn in it (`Layer.covers_repaint`).
-/

namespace DuvuvurKernel

open Lib.Painting

namespace Layer

/-- The colour of a layer where it covers the screen non-transparently. -/
def colorAt (l : Layer) (p : Vector2D) : Option PixelColor := l.window.colorAt l.pos p

/-- What `DrawTo` draws of the layer. -/
def drawnAt (l : Layer) (area : Rectangle) (p : Vector2D) : Option PixelColor :=
  l.window.drawnAt l.pos area p

theorem colorAt_eq_none {l : Layer} {p : Vector2D} (h : ¬ l.area.Contains p) : l.colorAt p = none :=
  Window.colorAt_eq_none h

/-- Drawing in an opaque window leaves covered what was covered. -/
theorem covers_repaint {l : Layer} (ho : l.window.transparentColor = none)
    (f : Contents → Contents) {p : Vector2D} (h : (l.repaint f).colorAt p = none) :
    l.colorAt p = none := by
  refine colorAt_eq_none fun hp => ?_
  exact Window.colorAt_ne_none (w := (l.repaint f).window) ho hp h

/-- A change of layers that leaves their IDs and, of the windows, the transparent colour and
the pixel format. -/
structure Retouch (f : Layer → Layer) : Prop where
  id : ∀ l, (f l).id = l.id
  transparentColor : ∀ l, (f l).window.transparentColor = l.window.transparentColor
  shadowFormat : ∀ l, (f l).window.shadowFormat = l.window.shadowFormat

theorem retouch_move (pos : Vector2D) : Retouch fun l => l.move pos :=
  ⟨fun _ => rfl, fun _ => rfl, fun _ => rfl⟩

theorem retouch_moveRelative (posDiff : Vector2D) : Retouch fun l => l.moveRelative posDiff :=
  ⟨fun _ => rfl, fun _ => rfl, fun _ => rfl⟩

theorem retouch_repaint (g : Layer → Contents → Contents) : Retouch fun l => l.repaint (g l) :=
  ⟨fun _ => rfl, fun _ => rfl, fun _ => rfl⟩

end Layer

namespace LayerManager

variable {m : LayerManager} {mouse id : UInt32} {l : Layer} {p : Vector2D}

/-- The layer with an ID, as it is seen. -/
def seen (m : LayerManager) (id : UInt32) (p : Vector2D) : Option PixelColor :=
  (m.findLayer id).bind fun l => l.colorAt p

/-- The colour of the topmost layer that covers a pixel non-transparently. -/
def composition (m : LayerManager) (p : Vector2D) : Option PixelColor :=
  topmost (m.layerStack.map m.seen) p

/-- A frame buffer shows the composition at a pixel. -/
def ShowsAt (m : LayerManager) (fb : FrameBuffer) (p : Vector2D) : Prop :=
  Shows fb.pixels (m.layerStack.map m.seen) p

/-- The layers can be drawn: they are on the stack properly, only the layer `mouse` at the
top may be transparent, and all windows and both buffers have one pixel format. -/
structure Drawable (mouse : UInt32) (m : LayerManager) : Prop where
  linked : m.Linked
  nodup : m.layerStack.Nodup
  top : ∃ below, m.layerStack = below ++ [mouse]
  opaque' : ∀ id l, m.findLayer id = some l → id ≠ mouse → l.window.transparentColor = none
  format : ∀ id l, m.findLayer id = some l → l.window.shadowFormat = m.backBuffer.pixelFormat
  screen_format : m.screen.pixelFormat = m.backBuffer.pixelFormat
  outline_eq : m.screen.outline = m.backBuffer.outline

/-- Both buffers show the composition. -/
def Shown (m : LayerManager) : Prop :=
  ∀ p, m.backBuffer.outline.Contains p → m.ShowsAt m.backBuffer p ∧ m.ShowsAt m.screen p

/-! ### What `redraw` does to the buffers -/

theorem frame_foldl_drawTo (ls : List Layer) (back : FrameBuffer) (area : Rectangle) :
    (ls.foldl (fun back l => l.drawTo back area) back).outline = back.outline ∧
      (ls.foldl (fun back l => l.drawTo back area) back).pixelFormat = back.pixelFormat := by
  induction ls generalizing back with
  | nil => exact ⟨rfl, rfl⟩
  | cons l ls ih =>
    obtain ⟨hout, hfmt⟩ := Window.frame_drawTo l.window back l.pos area
    exact ⟨(ih (l.drawTo back area)).1.trans hout, (ih (l.drawTo back area)).2.trans hfmt⟩

/-- Drawing layers over a buffer of their format. -/
theorem pixels_foldl_drawTo {ls : List Layer} {back : FrameBuffer} (area : Rectangle)
    (hf : ∀ l ∈ ls, l.window.shadowFormat = back.pixelFormat) (hp : back.outline.Contains p) :
    (ls.foldl (fun back l => l.drawTo back area) back).pixels p =
      (topmost (ls.map fun l => l.drawnAt area) p).getD (back.pixels p) := by
  induction ls generalizing back with
  | nil => rfl
  | cons l ls ih =>
    obtain ⟨hout, hfmt⟩ := Window.frame_drawTo l.window back l.pos area
    have hpix := Window.pixels_drawTo (w := l.window) (hf l (List.mem_cons_self ..)).symm l.pos area hp
    have ih' := @ih (l.drawTo back area)
      (fun l' hl' => (hf l' (List.mem_cons_of_mem _ hl')).trans hfmt.symm) (by rwa [← hout] at hp)
    rw [List.foldl_cons, ih', List.map_cons, topmost_cons]
    cases topmost (ls.map fun l => l.drawnAt area) p with
    | some c => rfl
    | none => exact hpix

/-- What is drawn of the layer with an ID. -/
def drawn (m : LayerManager) (area : Rectangle) (id : UInt32) (p : Vector2D) : Option PixelColor :=
  (m.findLayer id).bind fun l => l.drawnAt area p

namespace Drawable

theorem formats (h : Drawable mouse m) (ids : List UInt32) :
    ∀ l ∈ ids.filterMap m.findLayer, l.window.shadowFormat = m.backBuffer.pixelFormat := by
  intro l hl
  obtain ⟨id, -, hid⟩ := List.mem_filterMap.mp hl
  exact h.format id l hid

/-- The back buffer after drawing the layers of some IDs. -/
theorem back_redraw (h : Drawable mouse m) (ids : List UInt32) (area : Rectangle)
    (hp : m.backBuffer.outline.Contains p) :
    (m.redraw (ids.filterMap m.findLayer) area).backBuffer.pixels p =
      paintAll m.backBuffer.pixels (ids.map (m.drawn area)) p := by
  rw [paintAll_apply]
  refine (pixels_foldl_drawTo area (h.formats ids) hp).trans ?_
  rw [topmost_filterMap]
  rfl

/-- The screen has the pixels of the back buffer in the area, and its own elsewhere. -/
theorem screen_redraw (h : Drawable mouse m) (ls : List Layer) (area : Rectangle)
    (hp : m.backBuffer.outline.Contains p) :
    (m.redraw ls area).screen.pixels p =
      if area.Contains p then (m.redraw ls area).backBuffer.pixels p else m.screen.pixels p := by
  obtain ⟨hout, hfmt⟩ := frame_foldl_drawTo ls m.backBuffer area
  have hshift : p - (area.pos - area.pos) = p := by
    ext
    · simp only [Vector2D.sub_x]
      omega
    · simp only [Vector2D.sub_y]
      omega
  simp only [LayerManager.redraw]
  rw [FrameBuffer.pixels_copied (h.screen_format.trans hfmt.symm)]
  simp only [FrameBuffer.contains_copyArea, hshift, hout, h.outline_eq, hp, true_and]

theorem redraw (h : Drawable mouse m) (ls : List Layer) (area : Rectangle) :
    Drawable mouse (m.redraw ls area) := by
  obtain ⟨hout, hfmt⟩ := frame_foldl_drawTo ls m.backBuffer area
  exact ⟨h.linked, h.nodup, h.top, h.opaque', fun id l hl => (h.format id l hl).trans hfmt.symm,
    (FrameBuffer.pixelFormat_copied ..).trans (h.screen_format.trans hfmt.symm),
    (FrameBuffer.outline_copied ..).trans (h.outline_eq.trans hout.symm)⟩

theorem drawn_eq_seen (ids : List UInt32) {area : Rectangle} (hp : area.Contains p) :
    topmost (ids.map (m.drawn area)) p = topmost (ids.map m.seen) p := by
  refine topmost_congr fun id _ => ?_
  unfold drawn seen
  cases m.findLayer id with
  | none => rfl
  | some l => exact Window.drawnAt_of_contains hp

/-- What is drawn of the upper part of the stack at a pixel, if anything, is what is seen
of it: outside the area only the topmost layer is drawn. -/
theorem drawn_or (h : Drawable mouse m) {below ids : List UInt32}
    (hs : m.layerStack = below ++ ids) (area : Rectangle) (p : Vector2D) :
    topmost (ids.map (m.drawn area)) p = none ∨
      topmost (ids.map (m.drawn area)) p = topmost (ids.map m.seen) p := by
  by_cases hp : area.Contains p
  · exact .inr (drawn_eq_seen ids hp)
  · rcases List.eq_nil_or_concat' ids with rfl | ⟨ids, top, rfl⟩
    · exact .inl rfl
    · obtain ⟨below', hs'⟩ := h.top
      rw [hs', ← List.append_assoc] at hs
      obtain ⟨hbelow, htop⟩ := List.append_inj' hs rfl
      obtain rfl : mouse = top := by simpa using htop
      have hn := h.nodup
      rw [hs', List.nodup_append] at hn
      have hrest : topmost (ids.map (m.drawn area)) p = none := by
        refine topmost_of_none fun id hid => ?_
        unfold drawn
        cases hl : m.findLayer id with
        | none => rfl
        | some l =>
          have hne : id ≠ mouse := by
            refine hn.2.2 id ?_ mouse (List.mem_singleton_self _)
            rw [hbelow]
            exact List.mem_append_right _ hid
          exact if_pos ⟨h.opaque' id l hl hne, hp⟩
      simp only [List.map_append, List.map_singleton, topmost_append, topmost_singleton, hrest,
        Option.or_none]
      unfold drawn seen
      cases m.findLayer mouse with
      | none => exact .inl rfl
      | some l =>
        by_cases ht : l.window.transparentColor = none
        · exact .inl (if_pos ⟨ht, hp⟩)
        · have hd : l.drawnAt area p = l.colorAt p := if_neg fun hn => ht hn.1
          simp only [Option.bind_some, hd]
          cases l.colorAt p with
          | none => exact .inl rfl
          | some c => exact .inr rfl

/-- Drawing an upper part of the stack spoils no pixel of the back buffer. -/
theorem back_keeps (h : Drawable mouse m) {below ids : List UInt32}
    (hs : m.layerStack = below ++ ids) (area : Rectangle) (hp : m.backBuffer.outline.Contains p)
    (hb : m.ShowsAt m.backBuffer p) :
    m.ShowsAt (m.redraw (ids.filterMap m.findLayer) area).backBuffer p := by
  unfold ShowsAt at hb ⊢
  rw [hs, List.map_append] at hb ⊢
  intro c hc
  rw [h.back_redraw ids area hp]
  exact Shows.repaint hb (h.drawn_or hs area p) c hc

/-- A pixel of the area is right after drawing layers that cover it, or all layers. -/
theorem back_repaired (h : Drawable mouse m) {below ids : List UInt32} {area : Rectangle}
    (hs : m.layerStack = below ++ ids) (hp : m.backBuffer.outline.Contains p)
    (ha : area.Contains p) (hc : topmost (ids.map m.seen) p ≠ none ∨ below = []) :
    m.ShowsAt (m.redraw (ids.filterMap m.findLayer) area).backBuffer p := by
  unfold ShowsAt
  rw [hs, List.map_append]
  intro c hcol
  rw [h.back_redraw ids area hp]
  exact shows_repaint (drawn_eq_seen ids ha) (hc.imp_right fun hb => by rw [hb]; rfl) c hcol

/-- The screen is right where the back buffer is, in the area, and where it was, elsewhere. -/
theorem screen_shows (h : Drawable mouse m) (ls : List Layer) {area : Rectangle}
    (hp : m.backBuffer.outline.Contains p) (hb : m.ShowsAt (m.redraw ls area).backBuffer p)
    (hscr : area.Contains p ∨ m.ShowsAt m.screen p) : m.ShowsAt (m.redraw ls area).screen p := by
  intro c hc
  rw [h.screen_redraw ls area hp]
  split
  next => exact hb c hc
  next ha => exact hscr.resolve_left ha c hc

/-- `Draw(area)` repairs the pixels of the area. -/
theorem shows_draw (h : Drawable mouse m) {area : Rectangle} (hp : m.backBuffer.outline.Contains p)
    (hs : area.Contains p ∨ m.ShowsAt m.backBuffer p ∧ m.ShowsAt m.screen p) :
    m.ShowsAt (m.redraw m.shownLayers area).backBuffer p ∧
      m.ShowsAt (m.redraw m.shownLayers area).screen p := by
  have hback : m.ShowsAt (m.redraw m.shownLayers area).backBuffer p := by
    rcases hs with ha | hb
    · exact h.back_repaired (List.nil_append _).symm hp ha (.inr rfl)
    · exact h.back_keeps (List.nil_append _).symm area hp hb.1
  exact ⟨hback, h.screen_shows _ hp hback (hs.imp_right And.right)⟩

/-- `Draw(id)` repairs the pixels that the layer covers. -/
theorem shows_drawLayer (h : Drawable mouse m) (hid : id ∈ m.layerStack)
    (hl : m.findLayer id = some l) (hp : m.backBuffer.outline.Contains p)
    (hs : l.colorAt p ≠ none ∨
      m.ShowsAt m.backBuffer p ∧ (l.area.Contains p ∨ m.ShowsAt m.screen p)) :
    m.ShowsAt (m.redraw (m.layersFrom id) l.area).backBuffer p ∧
      m.ShowsAt (m.redraw (m.layersFrom id) l.area).screen p := by
  obtain ⟨below, above, hsplit⟩ := List.append_of_mem hid
  have hn := h.nodup
  rw [hsplit, List.nodup_middle, List.nodup_cons, List.mem_append, not_or] at hn
  have hfrom : m.layersFrom id = (id :: above).filterMap m.findLayer := by
    rw [layersFrom_eq hsplit hn.1.1 hl, List.filterMap_cons_some hl]
  rw [hfrom]
  rcases hs with hc | ⟨hb, hscr⟩
  · have ha : l.area.Contains p := by
      by_contra hout
      exact hc (Layer.colorAt_eq_none hout)
    have htop : topmost ((id :: above).map m.seen) p ≠ none := by
      have hseen : m.seen id p = l.colorAt p := by
        unfold seen
        rw [hl]
        rfl
      rw [List.map_cons, topmost_cons, hseen]
      intro hnone
      exact hc (Option.or_eq_none_iff.mp hnone).2
    have hback := h.back_repaired hsplit hp ha (.inl htop)
    exact ⟨hback, h.screen_shows _ hp hback (.inl ha)⟩
  · have hback := h.back_keeps hsplit l.area hp hb
    exact ⟨hback, h.screen_shows _ hp hback hscr⟩

/-! ### Changes of a layer -/

/-- A layer changed its place or contents, and not its window otherwise. -/
theorem updateLayer (h : Drawable mouse m) {f : Layer → Layer} (hf : Layer.Retouch f) (id : UInt32) :
    Drawable mouse (m.updateLayer id f) := by
  have hfound : ∀ {j l'}, (m.updateLayer id f).findLayer j = some l' →
      ∃ l, m.findLayer j = some l ∧ l'.window.transparentColor = l.window.transparentColor ∧
        l'.window.shadowFormat = l.window.shadowFormat := by
    intro j l' hl'
    rw [findLayer_updateLayer hf.id] at hl'
    obtain ⟨l, hl, rfl⟩ := Option.map_eq_some_iff.mp hl'
    refine ⟨l, hl, ?_⟩
    split_ifs
    · exact ⟨hf.transparentColor l, hf.shadowFormat l⟩
    · exact ⟨rfl, rfl⟩
  refine ⟨(SameLayers.updateLayer hf.id m id).linked h.linked, h.nodup, h.top, ?_, ?_,
    h.screen_format, h.outline_eq⟩
  · intro j l' hl' hj
    obtain ⟨l, hl, htc, -⟩ := hfound hl'
    exact htc.trans (h.opaque' j l hl hj)
  · intro j l' hl'
    obtain ⟨l, hl, -, hfmt⟩ := hfound hl'
    exact hfmt.trans (h.format j l hl)

end Drawable

variable {f : Layer → Layer}

theorem findLayer_updateLayer_self (hf : Layer.Retouch f) (hl : m.findLayer id = some l) :
    (m.updateLayer id f).findLayer id = some (f l) := by
  rw [findLayer_updateLayer hf.id, hl, Option.map_some, if_pos rfl]

/-- Where the layer that changes looks the same, so does the stack. -/
theorem showsAt_updateLayer (hf : Layer.Retouch f) (hl : m.findLayer id = some l)
    (hc : (f l).colorAt p = l.colorAt p) (fb : FrameBuffer) :
    (m.updateLayer id f).ShowsAt fb p ↔ m.ShowsAt fb p := by
  have hseen : topmost ((m.updateLayer id f).layerStack.map (m.updateLayer id f).seen) p =
      topmost (m.layerStack.map m.seen) p := by
    refine topmost_congr fun j _ => ?_
    unfold seen
    rw [findLayer_updateLayer hf.id]
    by_cases hj : j = id
    · subst hj
      simp only [hl, Option.map_some, if_true, Option.bind_some, hc]
    · simp only [if_neg hj, Option.map_id']
  unfold ShowsAt Shows
  rw [hseen]

/-! ### The operations of the manager -/

/-- `Move` and `MoveRelative`. -/
theorem moveWith_shown (hf : Layer.Retouch f) (h : Drawable mouse m) (hs : m.Shown)
    (hid : id ∈ m.layerStack) :
    ∃ m', m.moveWith id f = some m' ∧ SameLayers m m' ∧ Drawable mouse m' ∧ m'.Shown := by
  obtain ⟨l, hl⟩ := h.linked id hid
  have hu := h.updateLayer hf id
  have hlu := findLayer_updateLayer_self hf hl
  -- The old place is drawn, and then the layer in the new one.
  obtain ⟨m₁, hm₁⟩ : ∃ m₁, m₁ = (m.updateLayer id f).redraw (m.updateLayer id f).shownLayers l.area :=
    ⟨_, rfl⟩
  have hd : Drawable mouse m₁ := hm₁ ▸ hu.redraw _ _
  have hid₁ : id ∈ m₁.layerStack := by rwa [hm₁]
  have hl₁ : m₁.findLayer id = some (f l) := by rwa [hm₁]
  have hout : m₁.backBuffer.outline = m.backBuffer.outline := by
    rw [hm₁]
    exact (frame_foldl_drawTo ..).1
  have hsame : SameLayers m m₁ := by
    rw [hm₁]
    exact (SameLayers.updateLayer hf.id m id).trans (SameLayers.redraw _ _ _)
  have hmove : m.moveWith id f = some (m₁.redraw (m₁.layersFrom id) (f l).area) := by
    unfold moveWith
    rw [hl]
    simp only [draw_eq hu.linked, Option.bind_eq_bind, Option.bind_some, ← hm₁]
    exact drawLayer_eq hd.linked hd.nodup hid₁ hl₁
  have hout' : (m₁.redraw (m₁.layersFrom id) (f l).area).backBuffer.outline =
      m₁.backBuffer.outline := (frame_foldl_drawTo ..).1
  refine ⟨_, hmove, hsame.trans (SameLayers.redraw _ _ _), hd.redraw _ _, fun p hp => ?_⟩
  rw [hout', hout] at hp
  refine hd.shows_drawLayer hid₁ hl₁ (hout ▸ hp) ?_
  by_cases hnew : (f l).colorAt p = none
  · right
    -- Outside the old place nothing has changed at this pixel.
    have hcase : l.area.Contains p ∨ (m.updateLayer id f).ShowsAt m.backBuffer p ∧
        (m.updateLayer id f).ShowsAt m.screen p := by
      by_cases hold : l.area.Contains p
      · exact .inl hold
      · have hc : (f l).colorAt p = l.colorAt p := hnew.trans (Layer.colorAt_eq_none hold).symm
        rw [showsAt_updateLayer hf hl hc, showsAt_updateLayer hf hl hc]
        exact .inr (hs p hp)
    have hshows := hu.shows_draw hp hcase
    rw [← hm₁] at hshows
    have hat : m₁.ShowsAt = (m.updateLayer id f).ShowsAt := by
      rw [hm₁]
      rfl
    rw [hat]
    exact ⟨hshows.1, .inr hshows.2⟩
  · exact .inl hnew

/-- `Draw(id)` after a change of the layer's contents that leaves covered what was covered. -/
theorem repaint_shown {g : Layer → Contents → Contents} (h : Drawable mouse m) (hs : m.Shown)
    (hid : id ∈ m.layerStack) (hl : m.findLayer id = some l)
    (hcover : ∀ p, (l.repaint (g l)).colorAt p = none → l.colorAt p = none) :
    ∃ m', (m.updateLayer id fun l => l.repaint (g l)).drawLayer id = some m' ∧
      SameLayers m m' ∧ Drawable mouse m' ∧ m'.Shown := by
  have hf := Layer.retouch_repaint g
  have hu := h.updateLayer hf id
  have hlu := findLayer_updateLayer_self hf hl
  refine ⟨_, drawLayer_eq hu.linked hu.nodup hid hlu,
    (SameLayers.updateLayer hf.id m id).trans (SameLayers.redraw _ _ _), hu.redraw _ _,
    fun p hp => ?_⟩
  have hout : ((m.updateLayer id fun l => l.repaint (g l)).redraw
      ((m.updateLayer id fun l => l.repaint (g l)).layersFrom id)
      (l.repaint (g l)).area).backBuffer.outline = m.backBuffer.outline := (frame_foldl_drawTo ..).1
  rw [hout] at hp
  refine hu.shows_drawLayer hid hlu hp ?_
  by_cases hnew : (l.repaint (g l)).colorAt p = none
  · have hc : (l.repaint (g l)).colorAt p = l.colorAt p := hnew.trans (hcover p hnew).symm
    have hat := showsAt_updateLayer (p := p) hf hl hc
    exact .inr ⟨(hat _).mpr (hs p hp).1, .inr ((hat _).mpr (hs p hp).2)⟩
  · exact .inl hnew

/-- The stack with a layer in another place shows the same where the layer is not seen. -/
theorem showsAt_insert {below above : List UInt32} (hs : m.layerStack.erase id = below ++ above)
    (hid : id ∉ below) (hc : m.seen id p = none) (fb : FrameBuffer) :
    LayerManager.ShowsAt { m with layerStack := below ++ id :: above } fb p ↔ m.ShowsAt fb p := by
  have hseen : topmost ((below ++ id :: above).map m.seen) p =
      topmost (m.layerStack.map m.seen) p := by
    rw [← topmost_erase (l := below ++ id :: above) hc, ← topmost_erase (l := m.layerStack) hc, hs,
      List.erase_append_right _ hid, List.erase_cons_head]
  have hdef : LayerManager.ShowsAt { m with layerStack := below ++ id :: above } fb p ↔
      Shows fb.pixels ((below ++ id :: above).map m.seen) p := Iff.rfl
  rw [hdef]
  unfold ShowsAt Shows
  rw [hseen]

/-- An opaque layer that is repainted, put directly below the top, and drawn. -/
theorem raise_shown {g : Layer → Contents → Contents} {below : List UInt32}
    (h : Drawable mouse m) (hs : m.Shown) (hid : id ≠ mouse) (hl : m.findLayer id = some l)
    (hstack : m.layerStack.erase id = below ++ [mouse]) :
    ∃ m', LayerManager.drawLayer { m.updateLayer id (fun l => l.repaint (g l)) with
        layerStack := below ++ id :: [mouse] } id = some m' ∧
      m'.layerStack = below ++ id :: [mouse] ∧ Drawable mouse m' ∧ m'.Shown := by
  have hf := Layer.retouch_repaint g
  have hu := h.updateLayer hf id
  have hlu := findLayer_updateLayer_self hf hl
  obtain ⟨m₁, hm₁⟩ : ∃ m₁, m₁ = { m.updateLayer id (fun l => l.repaint (g l)) with
    layerStack := below ++ id :: [mouse] } := ⟨_, rfl⟩
  have hmem : id ∈ m₁.layerStack := by
    rw [hm₁]
    exact List.mem_append_right _ (List.mem_cons_self ..)
  have hd : Drawable mouse m₁ := by
    rw [hm₁]
    exact ⟨linked_insert hu.linked hstack hlu, nodup_insert hu.nodup hstack,
      ⟨below ++ [id], by simp⟩, hu.opaque', hu.format, hu.screen_format, hu.outline_eq⟩
  have hl₁ : m₁.findLayer id = some (l.repaint (g l)) := by
    rw [hm₁]
    exact hlu
  rw [← hm₁]
  have hout : (m₁.redraw (m₁.layersFrom id) (l.repaint (g l)).area).backBuffer.outline =
      m.backBuffer.outline := by
    rw [hm₁]
    exact (frame_foldl_drawTo ..).1
  refine ⟨_, drawLayer_eq hd.linked hd.nodup hmem hl₁, ?_, hd.redraw _ _, fun p hp => ?_⟩
  · rw [layerStack_redraw, hm₁]
  · rw [hout] at hp
    have hp₁ : m₁.backBuffer.outline.Contains p := by rwa [hm₁]
    refine hd.shows_drawLayer hmem hl₁ hp₁ ?_
    by_cases hnew : (l.repaint (g l)).colorAt p = none
    · right
      have hold := Layer.covers_repaint (h.opaque' id l hl hid) (g l) hnew
      have hseen : (m.updateLayer id fun l => l.repaint (g l)).seen id p = none := by
        unfold seen
        rw [hlu]
        exact hnew
      have hbelow : id ∉ below := by
        intro hin
        refine h.nodup.not_mem_erase (a := id) ?_
        rw [hstack]
        exact List.mem_append_left _ hin
      have hat := showsAt_insert (m := m.updateLayer id fun l => l.repaint (g l)) hstack hbelow hseen
      have hat' := showsAt_updateLayer (p := p) hf hl (hnew.trans hold.symm)
      rw [hm₁]
      exact ⟨(hat _).mpr ((hat' _).mpr (hs p hp).1), .inr ((hat _).mpr ((hat' _).mpr (hs p hp).2))⟩
    · exact .inl hnew

theorem buffers_removeLayer (m : LayerManager) (id : UInt32) :
    (m.removeLayer id).backBuffer = m.backBuffer ∧ (m.removeLayer id).screen = m.screen := by
  simp only [removeLayer, hide]
  cases m.findLayer id with
  | none => exact ⟨rfl, rfl⟩
  | some l => exact ⟨rfl, rfl⟩

theorem erase_top {below : List UInt32} (hs : m.layerStack = below ++ [mouse]) (hid : id ≠ mouse) :
    m.layerStack.erase id = below.erase id ++ [mouse] := by
  rw [hs]
  by_cases hin : id ∈ below
  · rw [List.erase_append_left _ hin]
  · rw [List.erase_append_right _ hin, List.erase_of_not_mem hin,
      List.erase_of_not_mem (by simpa using hid)]

theorem Drawable.removeLayer (h : Drawable mouse m) (hid : id ≠ mouse)
    (hl : m.findLayer id = some l) : Drawable mouse (m.removeLayer id) := by
  obtain ⟨hback, hscr⟩ := buffers_removeLayer m id
  have hfound : ∀ {j l'}, (m.removeLayer id).findLayer j = some l' → m.findLayer j = some l' := by
    intro j l' hl'
    rw [findLayer_removeLayer] at hl'
    split_ifs at hl'
    exact hl'
  obtain ⟨below, hbelow⟩ := h.top
  refine ⟨linked_removeLayer h.linked h.nodup hl, ?_, ?_, ?_, ?_, ?_, ?_⟩
  · rw [layerStack_removeLayer hl]
    exact h.nodup.erase id
  · exact ⟨below.erase id, by rw [layerStack_removeLayer hl, erase_top hbelow hid]⟩
  · intro j l' hl' hj
    exact h.opaque' j l' (hfound hl') hj
  · intro j l' hl'
    rw [hback]
    exact h.format j l' (hfound hl')
  · rw [hback, hscr]
    exact h.screen_format
  · rw [hback, hscr]
    exact h.outline_eq

/-- A layer that is taken away, and its area drawn. -/
theorem remove_shown (h : Drawable mouse m) (hs : m.Shown) (hid : id ≠ mouse)
    (hl : m.findLayer id = some l) :
    ∃ m', (m.removeLayer id).draw l.area = some m' ∧ m'.layerStack = m.layerStack.erase id ∧
      Drawable mouse m' ∧ m'.Shown := by
  have hr := h.removeLayer hid hl
  obtain ⟨hback, hscr⟩ := buffers_removeLayer m id
  refine ⟨_, draw_eq hr.linked l.area, ?_, hr.redraw _ _, fun p hp => ?_⟩
  · rw [layerStack_redraw, layerStack_removeLayer hl]
  · have hout : ((m.removeLayer id).redraw (m.removeLayer id).shownLayers l.area).backBuffer.outline =
        (m.removeLayer id).backBuffer.outline := (frame_foldl_drawTo ..).1
    rw [hout] at hp
    refine hr.shows_draw hp ?_
    by_cases ha : l.area.Contains p
    · exact .inl ha
    · right
      have hseen : m.seen id p = none := by
        unfold seen
        rw [hl]
        exact Layer.colorAt_eq_none ha
      have hstack : topmost ((m.removeLayer id).layerStack.map (m.removeLayer id).seen) p =
          topmost (m.layerStack.map m.seen) p := by
        rw [layerStack_removeLayer hl, ← topmost_erase (l := m.layerStack) hseen]
        refine topmost_congr fun j hj => ?_
        have hne : j ≠ id := fun he => h.nodup.not_mem_erase (he ▸ hj)
        unfold seen
        rw [findLayer_removeLayer, if_neg hne]
      unfold ShowsAt Shows
      rw [hstack, hback, hscr]
      exact hs p (hback ▸ hp)

/-- Drawing the whole screen shows the composition, whatever the buffers had. -/
theorem draw_shown (h : Drawable mouse m) (area : Rectangle)
    (ha : ∀ p, m.backBuffer.outline.Contains p → area.Contains p) :
    ∃ m', m.draw area = some m' ∧ SameLayers m m' ∧ Drawable mouse m' ∧ m'.Shown := by
  refine ⟨_, draw_eq h.linked area, SameLayers.redraw _ _ _, h.redraw _ _, fun p hp => ?_⟩
  have hout : (m.redraw m.shownLayers area).backBuffer.outline = m.backBuffer.outline :=
    (frame_foldl_drawTo ..).1
  rw [hout] at hp
  exact h.shows_draw hp (.inl (ha p hp))

end LayerManager

namespace Desktop

open LayerManager Relation

variable {mouse id : UInt32} {d d' : Desktop} {l : Layer} {p : Vector2D}

/-- The screen and the back buffer show the composition. -/
structure Composed (mouse : UInt32) (d : Desktop) : Prop where
  drawable : Drawable mouse d.manager
  shown : d.manager.Shown
  mouse_eq : d.mouseLayer = mouse
  /-- The active layer, if any, is on the stack below the mouse layer. -/
  active : d.activeLayer = 0 ∨ d.activeLayer ∈ d.manager.layerStack ∧ d.activeLayer ≠ mouse

namespace Composed

/-- The layer that was active is repainted. -/
theorem deactivateOld (h : Composed mouse d) :
    ∃ d', d.deactivateOld = some d' ∧ Composed mouse d' ∧ d'.activeLayer = d.activeLayer ∧
      ∀ j l, d.manager.findLayer j = some l → ∃ l', d'.manager.findLayer j = some l' ∧
        l'.area = l.area := by
  by_cases h0 : d.activeLayer = 0
  · exact ⟨d, deactivateOld_zero h0, h, rfl, fun j l hl => ⟨l, hl, rfl⟩⟩
  · obtain ⟨hid, hmouse⟩ := h.active.resolve_left h0
    obtain ⟨l, hl⟩ := h.drawable.linked _ hid
    obtain ⟨m', hm', hsame, hd, hs⟩ := repaint_shown (g := fun l => l.window.deactivate) h.drawable
      h.shown hid hl fun p => Layer.covers_repaint (h.drawable.opaque' _ l hl hmouse) _
    refine ⟨_, deactivateOld_eq h0 hl hm', ⟨?_, ?_, ?_, ?_⟩, activeLayer_send .., ?_⟩
    · rwa [manager_send]
    · rwa [manager_send]
    · rw [mouseLayer_send]
      exact h.mouse_eq
    · rw [manager_send, activeLayer_send, hsame.stack]
      exact h.active
    · intro j x hx
      rw [manager_send, findLayer_drawLayer hm', findLayer_updateLayer
        (Layer.retouch_repaint fun l => l.window.deactivate).id, hx, Option.map_some]
      refine ⟨_, rfl, ?_⟩
      split_ifs <;> rfl

/-- `Activate(0)`. -/
theorem activate_zero (h : Composed mouse d) :
    ∃ d', d.activate 0 = some d' ∧ Composed mouse d' ∧ d'.activeLayer = 0 ∧
      ∀ j l, d.manager.findLayer j = some l → ∃ l', d'.manager.findLayer j = some l' ∧
        l'.area = l.area := by
  by_cases h0 : d.activeLayer = 0
  · exact ⟨d, if_pos h0, h, h0, fun j l hl => ⟨l, hl, rfl⟩⟩
  · obtain ⟨d', hd', hc, -, hfound⟩ := h.deactivateOld
    refine ⟨{ d' with activeLayer := 0 }, ?_, ⟨hc.drawable, hc.shown, hc.mouse_eq, .inl rfl⟩, rfl,
      hfound⟩
    unfold Desktop.activate
    rw [if_neg h0, hd']
    exact activateNew_zero d'

/-- `Activate` of a layer other than the mouse layer. -/
theorem activate (h : Composed mouse d) (h0 : id ≠ 0) (hid : id ≠ mouse)
    (hl : d.manager.findLayer id = some l) :
    ∃ d', d.activate id = some d' ∧ Composed mouse d' := by
  by_cases ha : d.activeLayer = id
  · exact ⟨d, if_pos ha, h⟩
  · obtain ⟨d₁, hd₁, h₁, -, hfound⟩ := h.deactivateOld
    obtain ⟨l₁, hl₁, -⟩ := hfound id l hl
    obtain ⟨below, hbelow⟩ := h₁.drawable.top
    have herase := erase_top hbelow hid
    have hmem : mouse ∉ below.erase id := by
      have hn := h₁.drawable.nodup.erase id
      rw [herase, List.nodup_append] at hn
      exact fun hin => hn.2.2 mouse hin mouse (List.mem_singleton_self _) rfl
    obtain ⟨m', hm', hstack, hd, hs⟩ := raise_shown (g := fun l => l.window.activate) h₁.drawable
      h₁.shown hid hl₁ herase
    have hnew := activateNew_eq (d := d₁) h0 hl₁ (by rwa [h₁.mouse_eq])
      (by rw [h₁.mouse_eq]; exact herase) (by rwa [h₁.mouse_eq]) (by rw [h₁.mouse_eq]; exact hm')
    refine ⟨_, by unfold Desktop.activate; rw [if_neg ha, hd₁]; exact hnew, ⟨?_, ?_, ?_, ?_⟩⟩
    · rwa [manager_send]
    · rwa [manager_send]
    · rw [mouseLayer_send]
      exact h₁.mouse_eq
    · right
      rw [manager_send, activeLayer_send, hstack]
      exact ⟨List.mem_append_right _ (List.mem_cons_self ..), hid⟩

/-- `CloseLayer` of a layer other than the mouse layer. -/
theorem closeLayer (h : Composed mouse d) (hid : id ≠ mouse)
    (hl : d.manager.findLayer id = some l) :
    ∃ d', d.closeLayer id = some (.ok (), d') ∧ Composed mouse d' := by
  obtain ⟨d₁, hd₁, h₁, h0, hfound⟩ := h.activate_zero
  obtain ⟨l₁, hl₁, harea⟩ := hfound id l hl
  obtain ⟨m', hm', -, hd, hs⟩ := remove_shown h₁.drawable h₁.shown hid hl₁
  rw [harea] at hm'
  refine ⟨{ d₁ with
    manager := m'
    layerTaskMap := fun j => if j = id then none else d₁.layerTaskMap j }, ?_,
    ⟨hd, hs, h₁.mouse_eq, .inl h0⟩⟩
  unfold Desktop.closeLayer
  rw [hl]
  simp only [hd₁, hm', Option.bind_eq_bind, Option.bind_some]
  rfl

/-- A new layer is not on the stack. -/
theorem newLayer (h : Composed mouse d) {w : Window} (hw : w.transparentColor = none)
    (hf : w.shadowFormat = d.manager.screen.pixelFormat) (pos : Vector2D) :
    Composed mouse { d with manager := d.manager.newLayer w pos } := by
  have hfound : ∀ {j l}, (d.manager.newLayer w pos).findLayer j = some l →
      d.manager.findLayer j = some l ∨ d.manager.findLayer j = none ∧ l.window = w := by
    intro j l hl
    rw [findLayer_newLayer] at hl
    cases hj : d.manager.findLayer j with
    | some l' =>
      rw [hj, Option.some_or] at hl
      exact .inl hl
    | none =>
      rw [hj, Option.none_or] at hl
      split_ifs at hl
      rw [← Option.some.inj hl]
      exact .inr ⟨rfl, rfl⟩
  have hold : ∀ j ∈ d.manager.layerStack,
      (d.manager.newLayer w pos).findLayer j = d.manager.findLayer j := by
    intro j hj
    obtain ⟨l, hl⟩ := h.drawable.linked j hj
    rw [findLayer_newLayer, hl, Option.some_or]
  have hd := h.drawable
  refine ⟨⟨?_, hd.nodup, hd.top, ?_, ?_, hd.screen_format, hd.outline_eq⟩, ?_, h.mouse_eq, h.active⟩
  · intro j hj
    obtain ⟨l, hl⟩ := hd.linked j hj
    exact ⟨l, (hold j hj).trans hl⟩
  · intro j l hl hj
    rcases hfound hl with hl' | ⟨-, rfl⟩
    · exact hd.opaque' j l hl' hj
    · exact hw
  · intro j l hl
    rcases hfound hl with hl' | ⟨-, rfl⟩
    · exact hd.format j l hl'
    · exact hf.trans hd.screen_format
  · intro p hp
    have hstack : topmost (d.manager.layerStack.map (d.manager.newLayer w pos).seen) p =
        topmost (d.manager.layerStack.map d.manager.seen) p := by
      refine topmost_congr fun j hj => ?_
      unfold seen
      rw [hold j hj]
    have hs := h.shown p hp
    unfold ShowsAt Shows at hs ⊢
    rw [← hstack] at hs
    exact hs

end Composed

/-! ### Runs -/

/-- What tasks do. They move, paint and draw layers that are on the stack, activate and close
layers other than the mouse layer, and give a new layer an opaque window in the format of
the screen. What they paint in a window leaves covered what it covered. -/
def Allowed (mouse : UInt32) (d : Desktop) : Op → Prop
  | .newLayer w _ => w.transparentColor = none ∧ w.shadowFormat = d.manager.screen.pixelFormat
  | .move id _ => id ∈ d.manager.layerStack
  | .moveRelative id _ => id ∈ d.manager.layerStack
  | .repaint id f => id ∈ d.manager.layerStack ∧ ∀ l p, d.manager.findLayer id = some l →
      (l.repaint f).colorAt p = none → l.colorAt p = none
  | .activate id => id = 0 ∨ id ≠ mouse ∧ ∃ l, d.manager.findLayer id = some l
  | .closeLayer id => id ≠ mouse

/-- A run of allowed operations. -/
def Runs (mouse : UInt32) : Desktop → Desktop → Prop :=
  ReflTransGen fun d d' => ∃ op, Allowed mouse d op ∧ d.step op = some d'

namespace Composed

/-- **An allowed operation is defined, and the screen shows the composition after it.** -/
theorem step (h : Composed mouse d) {op : Op} (ha : Allowed mouse d op) :
    ∃ d', d.step op = some d' ∧ Composed mouse d' := by
  have hd := h.drawable
  -- What is common to the operations that leave the stack and the active layer as they are.
  have hkeep : ∀ {m : Option LayerManager}, (∃ m', m = some m' ∧ SameLayers d.manager m' ∧
      Drawable mouse m' ∧ m'.Shown) →
      ∃ d', m.map (fun m' => { d with manager := m' }) = some d' ∧ Composed mouse d' := by
    rintro m ⟨m', rfl, hsame, hd', hs'⟩
    refine ⟨_, rfl, hd', hs', h.mouse_eq, ?_⟩
    rw [hsame.stack]
    exact h.active
  cases op with
  | newLayer w pos => exact ⟨_, rfl, h.newLayer ha.1 ha.2 pos⟩
  | move id pos => exact hkeep (moveWith_shown (Layer.retouch_move pos) hd h.shown ha)
  | moveRelative id posDiff =>
    exact hkeep (moveWith_shown (Layer.retouch_moveRelative posDiff) hd h.shown ha)
  | repaint id f =>
    obtain ⟨hid, hcover⟩ := ha
    obtain ⟨l, hl⟩ := hd.linked id hid
    obtain ⟨m', hm', hrest⟩ := repaint_shown (g := fun _ => f) hd h.shown hid hl
      fun p => hcover l p hl
    obtain ⟨d', hd', hc⟩ := hkeep ⟨m', rfl, hrest⟩
    refine ⟨d', ?_, hc⟩
    rw [← hd']
    simp only [Desktop.step, hl, hm', Option.bind_eq_bind, Option.bind_some]
    rfl
  | activate id =>
    by_cases h0 : id = 0
    · subst h0
      obtain ⟨d', hd', hc, -⟩ := h.activate_zero
      exact ⟨d', hd', hc⟩
    · obtain ⟨hid, l, hl⟩ := ha.resolve_left h0
      exact h.activate h0 hid hl
  | closeLayer id =>
    cases hl : d.manager.findLayer id with
    | none =>
      refine ⟨d, ?_, h⟩
      simp only [Desktop.step, Desktop.closeLayer, hl]
      rfl
    | some l =>
      obtain ⟨d', hd', hc⟩ := h.closeLayer ha hl
      refine ⟨d', ?_, hc⟩
      simp only [Desktop.step, hd']
      rfl

theorem runs (h : Composed mouse d) (hr : Runs mouse d d') : Composed mouse d' := by
  induction hr with
  | refl => exact h
  | tail _ hs ih =>
    obtain ⟨op, ha, hop⟩ := hs
    obtain ⟨d₂, hd₂, hc⟩ := ih.step ha
    rw [hop] at hd₂
    rw [Option.some.inj hd₂]
    exact hc

/-- Drawing the whole screen establishes the invariant. -/
theorem of_draw (hd : Drawable mouse d.manager) (hm : d.mouseLayer = mouse)
    (ha : d.activeLayer = 0 ∨ d.activeLayer ∈ d.manager.layerStack ∧ d.activeLayer ≠ mouse) :
    ∃ m', d.manager.draw d.manager.screen.outline = some m' ∧
      Composed mouse { d with manager := m' } := by
  obtain ⟨m', hm', hsame, hd', hs'⟩ := draw_shown hd d.manager.screen.outline
    fun p hp => by rwa [hd.outline_eq]
  refine ⟨m', hm', hd', hs', hm, ?_⟩
  rw [hsame.stack]
  exact ha

end Composed

/-- Where the bottom layer is opaque and covers the screen, every pixel has a colour. -/
theorem composition_ne_none {bg : UInt32} {m : LayerManager}
    (hbg : m.layerStack.head? = some bg) (hl : m.findLayer bg = some l)
    (ho : l.window.transparentColor = none) (hp : l.area.Contains p) : m.composition p ≠ none := by
  obtain ⟨rest, hrest⟩ := List.head?_eq_some_iff.mp hbg
  unfold composition
  rw [hrest, List.map_cons, topmost_cons]
  intro hnone
  have hcol : l.colorAt p ≠ none := Window.colorAt_ne_none ho hp
  refine hcol ?_
  have hseen := (Option.or_eq_none_iff.mp hnone).2
  unfold seen at hseen
  rwa [hl] at hseen

/-- **The screen shows the composition.** In every state that a run of allowed operations
reaches, each pixel of the screen has the colour of the topmost layer that covers it
non-transparently, if there is one; with an opaque layer at the bottom that covers the
screen there always is. Every allowed operation is defined there. -/
theorem screen_shows_composition (h : Composed mouse d) (hr : Runs mouse d d') :
    (∀ p c, d'.manager.screen.outline.Contains p → d'.manager.composition p = some c →
      d'.manager.screen.pixels p = c) ∧
    (∀ bg l, d'.manager.layerStack.head? = some bg → d'.manager.findLayer bg = some l →
      l.window.transparentColor = none →
      (∀ p, d'.manager.screen.outline.Contains p → l.area.Contains p) →
      ∀ p, d'.manager.screen.outline.Contains p →
        d'.manager.composition p = some (d'.manager.screen.pixels p)) ∧
    (∀ op, Allowed mouse d' op → ∃ d'', d'.step op = some d'') := by
  have hc := h.runs hr
  have hshow : ∀ p c, d'.manager.screen.outline.Contains p → d'.manager.composition p = some c →
      d'.manager.screen.pixels p = c := by
    intro p c hp hcol
    rw [hc.drawable.outline_eq] at hp
    exact (hc.shown p hp).2 c hcol
  refine ⟨hshow, ?_, ?_⟩
  · intro bg l hbg hl ho hcover p hp
    obtain ⟨c, hcol⟩ := Option.ne_none_iff_exists'.mp (composition_ne_none hbg hl ho (hcover p hp))
    rw [hcol, hshow p c hp hcol]
  · intro op ha
    obtain ⟨d'', hd'', -⟩ := hc.step ha
    exact ⟨d'', hd''⟩

/-- A window of one pixel. -/
def dot (transparentColor : Option PixelColor) (c : PixelColor) : Window where
  width := 1
  height := 1
  shadowFormat := .bgrResv8BitPerColor
  transparentColor := transparentColor
  contents := ⟨fun _ => c, fun _ => c⟩
  activate := fun contents => contents
  deactivate := fun contents => contents

/-- A black background of one pixel, and a red mouse cursor over it. -/
def cursorDesktop : Desktop where
  manager :=
    { screen := ⟨1, 1, .bgrResv8BitPerColor, fun _ => ⟨255, 0, 0⟩⟩
      backBuffer := ⟨1, 1, .bgrResv8BitPerColor, fun _ => ⟨255, 0, 0⟩⟩
      layers := [⟨1, ⟨0, 0⟩, dot none ⟨0, 0, 0⟩⟩,
        ⟨2, ⟨0, 0⟩, dot (some ⟨255, 255, 255⟩) ⟨255, 0, 0⟩⟩]
      layerStack := [1, 2]
      latestID := 2 }
  activeLayer := 0
  mouseLayer := 2
  layerTaskMap := fun _ => none
  sent := []

theorem composed_cursorDesktop : Composed 2 cursorDesktop := by
  have hfound : ∀ {id l}, cursorDesktop.manager.findLayer id = some l →
      id = 1 ∧ l.window = dot none ⟨0, 0, 0⟩ ∨
        id = 2 ∧ l.window = dot (some ⟨255, 255, 255⟩) ⟨255, 0, 0⟩ := by
    intro id l hl
    have hmem := List.mem_of_find?_eq_some hl
    have hid := id_of_findLayer hl
    simp only [cursorDesktop, List.mem_cons, List.not_mem_nil, or_false] at hmem
    rcases hmem with rfl | rfl
    · exact .inl ⟨hid.symm, rfl⟩
    · exact .inr ⟨hid.symm, rfl⟩
  refine ⟨⟨?_, by decide, ⟨[1], rfl⟩, ?_, ?_, rfl, rfl⟩, ?_, rfl, .inl rfl⟩
  · intro id hid
    simp only [cursorDesktop, List.mem_cons, List.not_mem_nil, or_false] at hid
    rcases hid with rfl | rfl
    · exact ⟨_, rfl⟩
    · exact ⟨_, rfl⟩
  · intro id l hl hid
    rcases hfound hl with ⟨-, hw⟩ | ⟨hid', -⟩
    · rw [hw]
      rfl
    · exact absurd hid' hid
  · intro id l hl
    rcases hfound hl with ⟨-, hw⟩ | ⟨-, hw⟩
    · rw [hw]
      rfl
    · rw [hw]
      rfl
  · intro p hp
    obtain rfl : p = ⟨0, 0⟩ := by
      simp only [Rectangle.Contains, FrameBuffer.outline, FrameBuffer.size, cursorDesktop] at hp
      ext
      · simp only
        omega
      · simp only
        omega
    have htop : topmost (cursorDesktop.manager.layerStack.map cursorDesktop.manager.seen) ⟨0, 0⟩ =
        some ⟨255, 0, 0⟩ := by decide
    refine ⟨fun c hc => ?_, fun c hc => ?_⟩
    · exact Option.some.inj (htop.symm.trans hc)
    · exact Option.some.inj (htop.symm.trans hc)

/-- The cursor is moved off the screen: the background shows. -/
theorem screen_shows_composition_moved :
    ∃ d', cursorDesktop.step (.move 2 ⟨1, 0⟩) = some d' ∧ Runs 2 cursorDesktop d' ∧
      d'.manager.screen.pixels ⟨0, 0⟩ = ⟨0, 0, 0⟩ := by
  have hallowed : Allowed 2 cursorDesktop (.move 2 ⟨1, 0⟩) :=
    show (2 : UInt32) ∈ [1, 2] by decide
  have hrun : Runs 2 cursorDesktop _ := .single ⟨.move 2 ⟨1, 0⟩, hallowed, rfl⟩
  refine ⟨_, rfl, hrun, ?_⟩
  exact (screen_shows_composition composed_cursorDesktop hrun).1 ⟨0, 0⟩ _ (by decide) (by decide)

/-- The cursor's pixel becomes transparent: on the screen it stays red, although the
background is the topmost layer that covers it. -/
theorem stale_pixel :
    Composed 2 cursorDesktop ∧
    cursorDesktop.manager.composition ⟨0, 0⟩ = some (cursorDesktop.manager.screen.pixels ⟨0, 0⟩) ∧
    ∃ d', cursorDesktop.step (.repaint 2 fun _ => ⟨fun _ => ⟨255, 255, 255⟩,
        fun _ => ⟨255, 255, 255⟩⟩) = some d' ∧
      d'.manager.screen.outline.Contains ⟨0, 0⟩ ∧
      d'.manager.composition ⟨0, 0⟩ = some ⟨0, 0, 0⟩ ∧
      d'.manager.screen.pixels ⟨0, 0⟩ = ⟨255, 0, 0⟩ :=
  ⟨composed_cursorDesktop, by decide, _, rfl, by decide, by decide, by decide⟩

end Desktop

end DuvuvurKernel
