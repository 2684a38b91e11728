import DuvuvurKernel.Usb.Descriptors

/-!
# The end of the descriptor walk

`InitializePhase2` goes by lengths that the device gives. A length of 0 keeps it at the same descriptor, and the
endpoints it collects may not be there: then it goes on behind the buffer, through null pointers.

**Result** (`phase2Returns_iff`): which buffers the loops get to an end with.
-/

namespace DuvuvurKernel.Usb

open Lib.Loops

variable {buf : ℕ → UInt8} {len : ℕ} {d : InitDevice} {driver : HIDDriver} {c i j k : ℕ}

/-! ### Lengths -/

/-- A length of 0 leads nowhere. -/
theorem pos_stuck (h : buf (pos buf i) = 0) (hij : i ≤ j) : pos buf j = pos buf i := by
  induction hij with
  | refl => rfl
  | step _ ih => rw [pos, ih, h, UInt8.toNat_zero, Nat.add_zero]

/-- Without one, the lengths lead out of the buffer. -/
theorem len_le_pos (h : ∀ i, pos buf i < len → buf (pos buf i) ≠ 0) : len ≤ pos buf len := by
  have hstep : ∀ i, i ≤ pos buf i ∨ len ≤ pos buf i := by
    intro i
    induction i with
    | zero => exact .inl (Nat.zero_le _)
    | succ i ih =>
      rcases Nat.lt_or_ge (pos buf i) len with hlt | hge
      · have hpos : (buf (pos buf i)).toNat ≠ 0 := fun h0 => h i hlt (UInt8.toNat_inj.mp h0)
        rcases ih with hi | hi
        · exact .inl (Nat.add_le_add hi (Nat.pos_of_ne_zero hpos))
        · exact absurd hi (Nat.not_le_of_lt hlt)
      · exact .inr (hge.trans (pos_mono (Nat.le_succ i)))
  exact (hstep len).elim id id

/-- The last descriptor in the buffer. -/
theorem exists_last (hlen : 0 < len) (h : ∃ m, len ≤ pos buf m) : ∃ i, pos buf i < len ∧ len ≤ pos buf (i + 1) := by
  by_contra hnone
  have hall : ∀ m, pos buf m < len := by
    intro m
    induction m with
    | zero => exact hlen
    | succ m ih => exact Nat.lt_of_not_le fun hend => hnone ⟨m, ih, hend⟩
  obtain ⟨m, hm⟩ := h
  exact absurd hm (Nat.not_le_of_lt (hall m))

theorem unsupported_of_not_chosen (h : ∀ c driver, ¬ IsChosen buf len c driver) (hlt : pos buf i < len) :
    Unsupported buf (i + 1) := by
  intro j
  induction j using Nat.strong_induction_on with
  | _ j ih =>
    intro hj hji
    have hjlt : pos buf j < len := Nat.lt_of_le_of_lt (pos_mono (Nat.le_of_lt_succ hji)) hlt
    cases hdriver : driverAt buf (pos buf j) with
    | none => rfl
    | some driver => exact absurd ⟨hj, hjlt, hdriver, fun m hm hmj => ih m hmj hm (hmj.trans hji)⟩ (h j driver)

/-- An interface with a driver comes before what the search has passed over, or not at all. -/
theorem not_chosen_of_unsupported (h : Unsupported buf i) (hend : len ≤ pos buf i) (c : ℕ) (driver : HIDDriver) :
    ¬ IsChosen buf len c driver := fun hc => by
  have hnone := h c hc.pos (lt_of_pos_lt hc.lt hend)
  rw [hc.driver] at hnone
  cases hnone

theorem Collecting.length_le (h : Collecting buf c k) : (endpoints buf c k).length ≤ maxEpConfigs := by
  induction k with
  | zero => exact Nat.zero_le _
  | succ k ih =>
    rw [endpoints_succ, List.length_append]
    split
    next htype => exact (h k (Nat.lt_succ_self k)).2 htype
    next => exact ih fun j hj => h j (Nat.lt_succ_of_lt hj)

/-! ### The end -/

/-- The search ends behind the buffer. -/
theorem returns_search (hun : Unsupported buf (i + 1)) (hlt : pos buf i < len) (hend : len ≤ pos buf (i + 1)) :
    Returns (round buf len) (Phase2.start d) (.ok (), d) := by
  refine returns_iff_reached.mpr ⟨_, reached_atSearch d hlt hun, ?_⟩
  rw [round_atSearch, if_neg (Nat.not_lt_of_le hend)]

/-- The collection ends with the last endpoint. -/
theorem returns_collect (hc : IsChosen buf len c driver) (hlt : pos buf (c + k) < len) (hk : Collecting buf c k)
    (hall : numEndpoints buf c ≤ (endpoints buf c k).length) :
    Returns (round buf len) (Phase2.start d) (.ok (), (collected buf d c driver k).configure buf) := by
  refine returns_iff_reached.mpr ⟨_, reached_atCollect d hc hlt hk, ?_⟩
  rw [round_atCollect, if_neg (Nat.not_lt_of_le hall)]

/-- It gets there when the endpoints that are announced are in the buffer. -/
theorem exists_returns_collect (d : InitDevice) (hc : IsChosen buf len c driver)
    (hroom : numEndpoints buf c ≤ maxEpConfigs) (hlt : pos buf (c + k) < len)
    (hall : numEndpoints buf c ≤ (endpoints buf c k).length) :
    ∃ j ≤ k, numEndpoints buf c ≤ (endpoints buf c j).length ∧
      Returns (round buf len) (Phase2.start d) (.ok (), (collected buf d c driver j).configure buf) := by
  -- The round with the last endpoint.
  have hex : ∃ k, numEndpoints buf c ≤ (endpoints buf c k).length := ⟨k, hall⟩
  have hle : Nat.find hex ≤ k := Nat.find_min' hex hall
  have hlt' := Nat.lt_of_le_of_lt (pos_mono (Nat.add_le_add_left hle c)) hlt
  refine ⟨Nat.find hex, hle, Nat.find_spec hex, returns_collect hc hlt' (fun j hj => ?_) (Nat.find_spec hex)⟩
  have hleft := Nat.lt_of_not_le (Nat.find_min hex hj)
  exact ⟨hleft, fun _ => Nat.lt_of_lt_of_le hleft hroom⟩

/-- Where the loops end. -/
theorem of_returns {r : Except Error Unit × InitDevice} (hlen : 0 < len)
    (h : Returns (round buf len) (Phase2.start d) r) :
    (∃ i, Unsupported buf (i + 1) ∧ len ≤ pos buf (i + 1)) ∨
      ∃ c driver k, IsChosen buf len c driver ∧ pos buf (c + k) < len ∧ Collecting buf c k ∧
        numEndpoints buf c ≤ (endpoints buf c k).length := by
  obtain ⟨s, hreach, hdone⟩ := returns_iff_reached.mp h
  obtain ⟨i, rfl, hlt, hun⟩ | ⟨c, driver, k, rfl, hc, hlt, hk⟩ := (reached_iff hlen).mp hreach
  · rw [round_atSearch] at hdone
    split at hdone
    next => cases hdriver : driverAt buf (pos buf (i + 1)) <;> rw [hdriver] at hdone <;> cases hdone
    next hend => exact .inl ⟨i, hun, Nat.le_of_not_lt hend⟩
  · rw [round_atCollect] at hdone
    split at hdone
    next => split at hdone <;> cases hdone
    next hall => exact .inr ⟨c, driver, k, hc, hlt, hk, Nat.le_of_not_lt hall⟩

/-- **The walk ends** if there is no interface with a driver and no length is 0, or if the endpoints that the first such
interface announces are there, and there is room for them. -/
theorem phase2Returns_iff (buf : ℕ → UInt8) (len : ℕ) (d : InitDevice) : (∃ r, Phase2Returns buf len d r) ↔
    buf 1 ≠ configurationType ∨
      ((∀ c driver, ¬ IsChosen buf len c driver) ∧ ∀ i, pos buf i < len → buf (pos buf i) ≠ 0) ∨
      ∃ c driver, IsChosen buf len c driver ∧ numEndpoints buf c ≤ maxEpConfigs ∧
        ∃ k, pos buf (c + k) < len ∧ numEndpoints buf c ≤ (endpoints buf c k).length := by
  by_cases htype : buf 1 = configurationType
  · have hloop : (∃ r, Phase2Returns buf len d r) ↔ ∃ r, Returns (round buf len) (Phase2.start d) r :=
      exists_congr fun r => by rw [Phase2Returns, if_pos htype]
    rw [hloop, or_iff_right (not_not_intro htype)]
    rcases Nat.eq_zero_or_pos len with rfl | hlen
    · have hnot : ∀ i, ¬ pos buf i < 0 := fun i => Nat.not_lt_zero _
      refine iff_of_true ⟨(.ok (), d), .done ?_⟩
        (.inl ⟨fun c driver hc => hnot c hc.lt, fun i hi => absurd hi (hnot i)⟩)
      exact (round_atSearch d 0).trans (if_neg (hnot 1))
    constructor
    · rintro ⟨r, hr⟩
      obtain ⟨i, hun, hend⟩ | ⟨c, driver, k, hc, hlt, hk, hall⟩ := of_returns hlen hr
      · refine .inl ⟨not_chosen_of_unsupported hun hend, fun j hj hzero => ?_⟩
        rw [pos_stuck hzero (lt_of_pos_lt hj hend).le] at hend
        exact absurd hend (Nat.not_le_of_lt hj)
      · exact .inr ⟨c, driver, hc, hall.trans hk.length_le, k, hlt, hall⟩
    · rintro (⟨hnot, hlengths⟩ | ⟨c, driver, hc, hroom, hall⟩)
      · -- The first descriptor behind the buffer.
        obtain ⟨i, hlt, hend⟩ := exists_last hlen ⟨len, len_le_pos hlengths⟩
        exact ⟨_, returns_search (unsupported_of_not_chosen hnot hlt) hlt hend⟩
      · obtain ⟨k, hlt, hk⟩ := hall
        obtain ⟨j, -, -, hr⟩ := exists_returns_collect d hc hroom hlt hk
        exact ⟨_, hr⟩
  · exact iff_of_true ⟨(.error .invalidDescriptor, d), by rw [Phase2Returns, if_neg htype]⟩ (.inl htype)

/-- A configuration descriptor with nothing but zeros behind it keeps the kernel for ever. -/
theorem phase2Returns_zeros : ¬ ∃ r, Phase2Returns (ofList [9, 2, 18, 0, 1, 1, 0, 128, 50]) 18 freshDevice r := by
  rintro ⟨r, hr⟩
  rw [Phase2Returns, if_pos (by decide)] at hr
  have hpos : ∀ i, 1 ≤ i → pos (ofList [9, 2, 18, 0, 1, 1, 0, 128, 50]) i = 9 := fun i hi => pos_stuck (i := 1) rfl hi
  obtain ⟨i, -, hend⟩ | ⟨c, driver, k, hc, -⟩ := of_returns (Nat.succ_pos 17) hr
  · rw [hpos (i + 1) (Nat.succ_le_succ (Nat.zero_le i))] at hend
    exact absurd hend (by decide)
  · have hdriver := hc.driver
    rw [hpos c hc.pos, driverAt, if_neg (by decide)] at hdriver
    cases hdriver

end DuvuvurKernel.Usb
