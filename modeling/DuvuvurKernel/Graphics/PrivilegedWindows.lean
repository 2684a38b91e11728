import DuvuvurKernel.Graphics.WindowInvariant

/-!
# Privileged windows

The counter and the three text windows are created with `is_privileged`, and are to have
no close button. Of the two ways to `CloseLayer` the close message is closed to them: a
click never finds a close button on such a window. The system call is open: it takes any
ID.

**Result** (`privileged_stay_iff`): from the start of the system, over all events, the
privileged windows keep their layers exactly when `SyscallCloseWindow` is not called with
one of their IDs in the low half of its argument.
-/

namespace DuvuvurKernel.WindowSystem

open Lib.Runs

variable {s s' : WindowSystem} {unset : Rectangle}

/-- The layer of the privileged window that was created with an ID is in `layers_`. -/
def Present (s : WindowSystem) (id : UInt32) : Prop :=
  s.Found id ∧ ∃ t, s.findTraits id = some t ∧ t.IsPrivileged

/-- The privileged windows have their layers, and no close message for one of them is in flight. -/
structure Guarded (s : WindowSystem) : Prop where
  sound : s.Sound
  present : ∀ id ∈ privilegedIDs, s.Present id
  closes : ∀ p ∈ s.desktop.closes, ∀ id ∈ privilegedIDs, p.2.arg ≠ .windowClose id

/-- A click on a privileged window is not on a close button. -/
theorem not_clicked {id : UInt32} (h : s.Present id) : ¬ s.Clicked id := by
  obtain ⟨-, t, ht, enter, leave, hclass⟩ := h
  rintro ⟨-, t', size, pos, ht', hregion⟩
  rw [ht] at ht'
  cases ht'
  rw [hclass] at hregion
  exact ToplevelWindow.getWindowRegion_privileged size pos hregion

/-- The event does not name a privileged window to `SyscallCloseWindow`. -/
def Harmless (e : Event) : Prop := ∀ arg1, e = .closeWindow arg1 → layerIDOf arg1 ∉ privilegedIDs

/-- The layer that an event closes is not a privileged one. -/
theorem closes_not_privileged (h : s.Guarded) {e : Rectangle × Event} (he : Harmless e.2) (hs : s.perform e = some s')
    {id : UInt32} (hid : id ∈ privilegedIDs) : e.2.closes ≠ some id := by
  obtain ⟨unset, e⟩ := e
  intro hclose
  cases e with
  | closeWindow arg1 => exact he arg1 rfl (Option.some.inj hclose ▸ hid)
  | closeMessage task srcTask layerID =>
    change (if _ then _ else _) = _ at hs
    split at hs
    next hsent =>
      have hmem : (task, (⟨srcTask, .windowClose layerID⟩ : Message)) ∈ s.desktop.closes :=
        List.mem_filter.mpr ⟨hsent, rfl⟩
      exact h.closes _ hmem id hid (by rw [← Option.some.inj hclose])
    next => cases hs
  | _ => cases hclose

/-- **Every event that does not name them leaves the privileged windows.** -/
theorem Guarded.perform (h : s.Guarded) {e : Rectangle × Event} (he : Harmless e.2) (hs : s.perform e = some s') :
    s'.Guarded := by
  have heffect := perform_effect h.sound hs
  have hpresent : ∀ id ∈ privilegedIDs, s'.Present id := by
    intro id hid
    obtain ⟨hfound, t, ht, hprivileged⟩ := h.present id hid
    have hlayers := heffect.layers id
    rw [if_neg (closes_not_privileged h he hs hid)] at hlayers
    rcases hlayers with hsame | ⟨-, hnone, -⟩
    · rw [← hsame] at ht
      refine ⟨(found_iff_findTraits heffect.sound id).mpr ?_, t, ht, hprivileged⟩
      rw [ht]
      rfl
    · rw [ht] at hnone
      cases hnone
  refine ⟨heffect.sound, hpresent, fun p hp id hid harg => ?_⟩
  rcases heffect.closes p hp with hold | ⟨c, hc, hclicked⟩
  · exact h.closes p hold id hid harg
  · rw [harg] at hc
    cases hc
    exact not_clicked (hpresent id hid) hclicked

/-- `SyscallCloseWindow` takes the layer away. -/
theorem not_present_closed (h : s.Sound) (unset : Rectangle) (arg1 : UInt64) :
    ∃ s', s.perform (unset, .closeWindow arg1) = some s' ∧ ¬ s'.Present (layerIDOf arg1) := by
  obtain ⟨s', hclose, -, htraits, -⟩ := closeLayer_spec h unset (layerIDOf arg1)
  refine ⟨s', hclose, ?_⟩
  rintro ⟨-, t, ht, -⟩
  rw [htraits, if_pos rfl] at ht
  cases ht

/-! ### From the start -/

theorem Starting.guarded {w : BootWindows} (h : Starting (bootTraits w) 7 s) : s.Guarded := by
  have hpresent : ∀ id ∈ privilegedIDs, ∃ t, s.findTraits id = some t ∧ t.IsPrivileged := by
    intro id hid
    unfold findTraits
    rw [h.traits]
    simp only [privilegedIDs, List.mem_cons, List.not_mem_nil, or_false] at hid
    rcases hid with rfl | rfl | rfl | rfl
    all_goals exact ⟨_, rfl, _, _, rfl⟩
  refine ⟨h.sound, fun id hid => ?_, fun p hp => ?_⟩
  · obtain ⟨t, ht, hprivileged⟩ := hpresent id hid
    exact ⟨(found_iff_findTraits h.sound id).mpr (by rw [ht]; rfl), t, ht, hprivileged⟩
  · rw [Desktop.closes, h.sent] at hp
    cases hp

/-- **Privileged windows stay** as long as `SyscallCloseWindow` does not name them. -/
theorem privileged_stay_iff (unset : Rectangle) (screen backBuffer : FrameBuffer) (w : BootWindows) :
    ∃ s, boot unset screen backBuffer w = some s ∧ (∀ id ∈ privilegedIDs, s.Present id) ∧
      ∀ events : List (Rectangle × Event),
        Along perform (fun s e => ∀ s', s.perform e = some s' → ∀ id ∈ privilegedIDs, s'.Present id) s events ↔
          Along perform (fun _ e => Harmless e.2) s events := by
  obtain ⟨s, hboot, hstarting, -⟩ := boot_starting unset screen backBuffer w
  have hs := hstarting.guarded
  refine ⟨s, hboot, hs.present, fun events => ?_⟩
  refine Along.congr (fun s e (h : s.Guarded) => ?_) (fun s e s' h he hs => h.perform he hs) hs
  constructor
  · intro hstay arg1 heq hnamed
    obtain ⟨unset, e⟩ := e
    cases heq
    obtain ⟨s', hperform, hgone⟩ := not_present_closed h.sound unset arg1
    exact hgone (hstay s' hperform _ hnamed)
  · exact fun he s' hs => (h.perform he hs).present

/-- An application closes the counter: its layer is gone. -/
theorem counter_closed : ∃ s s', boot ⟨⟨0, 0⟩, ⟨0, 0⟩⟩ blackScreen blackScreen blackWindows = some s ∧
    s.perform (⟨⟨0, 0⟩, ⟨0, 0⟩⟩, .closeWindow 3) = some s' ∧ 3 ∈ privilegedIDs ∧ s.Present 3 ∧ ¬ s'.Present 3 := by
  obtain ⟨s, hboot, hstarting, -⟩ := boot_starting ⟨⟨0, 0⟩, ⟨0, 0⟩⟩ blackScreen blackScreen blackWindows
  have hs := hstarting.guarded
  obtain ⟨s', hperform, hgone⟩ := not_present_closed hs.sound ⟨⟨0, 0⟩, ⟨0, 0⟩⟩ 3
  exact ⟨s, s', hboot, hperform, by decide, hs.present 3 (by decide), hgone⟩

end DuvuvurKernel.WindowSystem
