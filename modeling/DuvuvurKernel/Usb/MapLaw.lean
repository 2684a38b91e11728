import DuvuvurKernel.Usb.ArrayMap
import Mathlib.Data.Set.Card

/-!
# The map law

`ArrayMap` is used as a map: `Get` should find the value of the last `Put` of a key since it was last deleted. A
sequence of calls is judged by what `Get` would find after each of them, whatever key it were called with.

`Put` does not look for the key. If the key has an entry, the value is put in a free one besides, and which of
the two `Get` finds depends on which comes first in the array. `Delete` then frees one of them only.

**Result** (`map_law_iff`): for which sequences of calls the law holds. It holds when no key is put again before it is
deleted, and never more than `N` keys have a value.
-/

namespace DuvuvurKernel.Usb.ArrayMap

variable {K V : Type*} {N : ℕ}

/-- A call. -/
inductive Call (K V : Type*) where
  | put (key : K) (value : V)
  | get (key : K)
  | delete (key : K)

variable [DecidableEq K]

/-- What a call makes of the array. -/
def perform (m : ArrayMap K V N) : Call K V → ArrayMap K V N
  | .put key value => m.put key value
  | .get _ => m
  | .delete key => m.delete key

/-- The array after some calls. -/
def after (N : ℕ) (default : V) (calls : List (Call K V)) : ArrayMap K V N := calls.foldl perform (empty default)

/-- The value a key has after a call, given the one that it had. -/
def Call.update (key : K) (found : Option V) : Call K V → Option V
  | .put key' value => if key' = key then some value else found
  | .get _ => found
  | .delete key' => if key' = key then none else found

/-- The value of the last `Put` of a key since its last `Delete`. -/
def lastPut (calls : List (Call K V)) (key : K) : Option V := calls.foldl (Call.update key) none

/-- **The map law**: after each of the calls `Get` would find the value last put. -/
def MapLaw (N : ℕ) (default : V) (calls : List (Call K V)) : Prop :=
  ∀ before, before <+: calls → ∀ key, (after N default before).get key = lastPut before key

/-- Never more than `N` keys have a value. -/
def AtMostLive (N : ℕ) (calls : List (Call K V)) : Prop :=
  ∀ before, before <+: calls → {key | lastPut before key ≠ none}.encard ≤ N

/-- No key that has a value is put. -/
def PutsFresh (calls : List (Call K V)) : Prop :=
  ∀ before key value, before ++ [.put key value] <+: calls → lastPut before key = none

/-- A free entry stands in front of all entries of the key. -/
def FreeFirst (m : ArrayMap K V N) (key : K) : Prop :=
  ∃ e, m.table.find? (fun e => e.1 = none ∨ e.1 = some key) = some e ∧ e.1 = none

/-- The key has one entry at most. -/
def AtMostOnce (m : ArrayMap K V N) (key : K) : Prop := m.table.countP (fun e => e.1 = some key) ≤ 1

/-- What is asked of a call that follows others. -/
def Suits (m : ArrayMap K V N) (before : List (Call K V)) : Call K V → Prop
  | .put key value => lastPut before key = some value ∨ m.FreeFirst key
  | .get _ => True
  | .delete key => m.AtMostOnce key

/-- So it is of all calls. -/
def AllSuit (N : ℕ) (default : V) (calls : List (Call K V)) : Prop :=
  ∀ before call, before ++ [call] <+: calls → (after N default before).Suits before call

variable {m : ArrayMap K V N} {key key' : K} {value default : V} {calls before : List (Call K V)} {call : Call K V}

/-! ### One call -/

@[simp] theorem after_append : after N default (calls ++ [call]) = (after N default calls).perform call := by
  rw [after, List.foldl_append]
  rfl

@[simp] theorem lastPut_append : lastPut (calls ++ [call]) key = call.update key (lastPut calls key) := by
  rw [lastPut, List.foldl_append]
  rfl

/-- **`Put`** leaves what is found for the other keys. -/
theorem get_put_of_ne (hne : key' ≠ key) : (m.put key value).get key' = m.get key' := by
  obtain ⟨t, hsize⟩ := m
  change ((putIn key value t).find? fun e => e.1 = some key').map Prod.snd =
    (t.find? fun e => e.1 = some key').map Prod.snd
  clear hsize
  induction t with
  | nil => rfl
  | cons e t ih =>
    rw [putIn]
    split
    next hfree => simp [hfree, hne.symm]
    next hfree =>
      rw [List.find?_cons, List.find?_cons]
      split
      · rfl
      · exact ih

/-- **`Put`** is seen only if a free entry stands in front of all entries of the key. -/
theorem get_put_self_of_freeFirst (h : m.FreeFirst key) : (m.put key value).get key = some value := by
  obtain ⟨t, hsize⟩ := m
  obtain ⟨e, hfind, hfree⟩ := h
  change ((putIn key value t).find? fun e => e.1 = some key).map Prod.snd = some value
  change t.find? (fun e => e.1 = none ∨ e.1 = some key) = some e at hfind
  clear hsize
  induction t with
  | nil => cases hfind
  | cons e' t ih =>
    rw [putIn]
    rw [List.find?_cons] at hfind
    split at hfind
    next hhead =>
      cases hfind
      rw [if_pos hfree]
      simp
    next hhead =>
      have hneither : e'.1 ≠ none ∧ e'.1 ≠ some key := by simpa using hhead
      rw [if_neg hneither.1, List.find?_cons_of_neg (by simpa using hneither.2)]
      exact ih hfind

/-- Otherwise what was found before is found. -/
theorem get_put_self_of_not_freeFirst (h : ¬ m.FreeFirst key) : (m.put key value).get key = m.get key := by
  obtain ⟨t, hsize⟩ := m
  change ((putIn key value t).find? fun e => e.1 = some key).map Prod.snd =
    (t.find? fun e => e.1 = some key).map Prod.snd
  have h' : ¬ ∃ e, t.find? (fun e => e.1 = none ∨ e.1 = some key) = some e ∧ e.1 = none := h
  clear h hsize
  induction t with
  | nil => rfl
  | cons e t ih =>
    have hfree : e.1 ≠ none := fun hfree => h' ⟨e, by simp [hfree], hfree⟩
    rw [putIn, if_neg hfree, List.find?_cons, List.find?_cons]
    split
    next => rfl
    next hkey =>
      apply ih
      rintro ⟨e', hfind, hfree'⟩
      refine h' ⟨e', ?_, hfree'⟩
      rw [List.find?_cons_of_neg (by simpa [hfree] using hkey)]
      exact hfind

/-- **`Delete`** leaves what is found for the other keys. -/
theorem get_delete_of_ne (hne : key' ≠ key) : (m.delete key).get key' = m.get key' := by
  obtain ⟨t, hsize⟩ := m
  change ((deleteIn key t).find? fun e => e.1 = some key').map Prod.snd =
    (t.find? fun e => e.1 = some key').map Prod.snd
  clear hsize
  induction t with
  | nil => rfl
  | cons e t ih =>
    rw [deleteIn]
    split
    next hkey => simp [hkey, hne.symm]
    next =>
      rw [List.find?_cons, List.find?_cons]
      split
      · rfl
      · exact ih

/-- **`Delete`** frees one entry of the key. -/
theorem get_delete_self_iff : (m.delete key).get key = none ↔ m.AtMostOnce key := by
  obtain ⟨t, hsize⟩ := m
  change ((deleteIn key t).find? fun e => e.1 = some key).map Prod.snd = none ↔
    t.countP (fun e => e.1 = some key) ≤ 1
  clear hsize
  induction t with
  | nil => simp [deleteIn]
  | cons e t ih =>
    rw [deleteIn]
    split
    next hkey =>
      rw [List.countP_cons_of_pos (by simpa using hkey), List.find?_cons_of_neg (by simp), Nat.succ_le_succ_iff,
        Nat.le_zero, List.countP_eq_zero, Option.map_eq_none_iff, List.find?_eq_none]
    next hkey =>
      rw [List.countP_cons_of_neg (by simpa using hkey), List.find?_cons_of_neg (by simpa using hkey)]
      exact ih

/-- **A call** keeps the law exactly when it suits. -/
theorem perform_iff (h : ∀ key, m.get key = lastPut before key) :
    (∀ key, (m.perform call).get key = lastPut (before ++ [call]) key) ↔ m.Suits before call := by
  cases call with
  | put key value =>
    constructor
    · intro hlaw
      have hkey := hlaw key
      rw [lastPut_append, Call.update, if_pos rfl] at hkey
      by_cases hfree : m.FreeFirst key
      · exact .inr hfree
      · left
        rw [← h, ← hkey]
        exact (get_put_self_of_not_freeFirst hfree).symm
    · intro hsuits key'
      rw [lastPut_append, Call.update]
      split
      next hkey =>
        subst hkey
        by_cases hfree : m.FreeFirst key
        · exact get_put_self_of_freeFirst hfree
        · rw [← hsuits.resolve_right hfree, ← h]
          exact get_put_self_of_not_freeFirst hfree
      next hkey => exact (get_put_of_ne (Ne.symm hkey)).trans (h key')
  | get key =>
    refine ⟨fun _ => trivial, fun _ key' => ?_⟩
    rw [lastPut_append]
    exact h key'
  | delete key =>
    constructor
    · intro hlaw
      have hkey := hlaw key
      rw [lastPut_append, Call.update, if_pos rfl] at hkey
      exact get_delete_self_iff.mp hkey
    · intro hsuits key'
      rw [lastPut_append, Call.update]
      split
      next hkey =>
        subst hkey
        exact get_delete_self_iff.mpr hsuits
      next hkey => exact (get_delete_of_ne (Ne.symm hkey)).trans (h key')

/-! ### Any number of calls -/

theorem mapLaw_append : MapLaw N default (calls ++ [call]) ↔
    MapLaw N default calls ∧ ∀ key, (after N default (calls ++ [call])).get key = lastPut (calls ++ [call]) key := by
  unfold MapLaw
  simp only [List.prefix_concat_iff]
  constructor
  · exact fun h => ⟨fun before hb => h before (.inr hb), h _ (.inl rfl)⟩
  · rintro ⟨hcalls, hlast⟩ before (rfl | hb)
    · exact hlast
    · exact hcalls before hb

theorem allSuit_append : AllSuit N default (calls ++ [call]) ↔
    AllSuit N default calls ∧ (after N default calls).Suits calls call := by
  unfold AllSuit
  simp only [List.prefix_concat_iff]
  constructor
  · exact fun h => ⟨fun before c hb => h before c (.inr hb), h _ _ (.inl rfl)⟩
  · rintro ⟨hcalls, hlast⟩ before c (heq | hb)
    · obtain ⟨rfl, hc⟩ := List.append_inj' heq rfl
      cases hc
      exact hlast
    · exact hcalls before c hb

/-- The calls keep the law exactly when each of them suits. -/
theorem mapLaw_iff_allSuit (calls : List (Call K V)) : MapLaw N default calls ↔ AllSuit N default calls := by
  induction calls using List.reverseRecOn with
  | nil =>
    constructor
    · intro _ before call hb
      simp at hb
    · intro _ before hb key
      rw [List.prefix_nil.mp hb]
      exact get_eq_none_iff.mpr fun ⟨e, he, hkey⟩ => by
        rw [List.eq_of_mem_replicate he] at hkey
        cases hkey
  | append_singleton calls call ih =>
    rw [mapLaw_append, allSuit_append, ← ih]
    refine and_congr_right fun hlaw => ?_
    rw [after_append]
    exact perform_iff (hlaw calls List.prefix_rfl)

/-! ### Keys put once -/

/-- No key has two entries. -/
def Distinct (m : ArrayMap K V N) : Prop := ∀ key, m.AtMostOnce key

theorem Distinct.empty : (ArrayMap.empty default : ArrayMap K V N).Distinct := by
  intro key
  have hzero : (ArrayMap.empty default : ArrayMap K V N).table.countP (fun e => e.1 = some key) = 0 := by
    refine List.countP_eq_zero.mpr fun e he => ?_
    rw [List.eq_of_mem_replicate he]
    simp
  exact hzero.trans_le (Nat.zero_le 1)

/-- A key without an entry gets one. -/
theorem Distinct.put (h : m.Distinct) (hnew : m.get key = none) (value : V) : (m.put key value).Distinct := by
  have hcount : ∀ (t : List (Option K × V)) (key' : K), (putIn key value t).countP (fun e => e.1 = some key') ≤
      t.countP (fun e => e.1 = some key') + if key = key' then 1 else 0 := by
    intro t key'
    induction t with
    | nil => exact Nat.zero_le _
    | cons e t ih =>
      rw [putIn]
      split
      next hfree =>
        rw [List.countP_cons, List.countP_cons]
        simp [hfree]
      next =>
        rw [List.countP_cons, List.countP_cons]
        omega
  intro key'
  have hle := hcount m.table key'
  by_cases hkey : key = key'
  · subst hkey
    have hzero : m.table.countP (fun e => e.1 = some key) = 0 :=
      List.countP_eq_zero.mpr fun e he hkey => get_eq_none_iff.mp hnew ⟨e, he, of_decide_eq_true hkey⟩
    rw [hzero, if_pos rfl] at hle
    exact hle
  · rw [if_neg hkey] at hle
    exact hle.trans (h key')

theorem Distinct.delete (h : m.Distinct) (key : K) : (m.delete key).Distinct := by
  have hcount : ∀ (t : List (Option K × V)) (key' : K), (deleteIn key t).countP (fun e => e.1 = some key') ≤
      t.countP (fun e => e.1 = some key') := by
    intro t key'
    induction t with
    | nil => exact Nat.le_refl _
    | cons e t ih =>
      rw [deleteIn]
      split
      next =>
        rw [List.countP_cons_of_neg (by simp), List.countP_cons]
        exact Nat.le_add_right _ _
      next =>
        rw [List.countP_cons, List.countP_cons]
        omega
  exact fun key' => (hcount m.table key').trans (h key')

/-- Without a free entry there are `N` keys. -/
theorem Distinct.exists_keys (h : m.Distinct) (hfull : ¬ m.HasFree) :
    ∃ keys : List K, keys.Nodup ∧ keys.length = N ∧ ∀ key ∈ keys, m.get key ≠ none := by
  refine ⟨m.table.filterMap Prod.fst, List.nodup_iff_count_le_one.mpr fun key => ?_, ?_, fun key hkey => ?_⟩
  · rw [List.count_filterMap]
    have hkey := h key
    unfold AtMostOnce at hkey
    simpa only [beq_eq_decide] using hkey
  · rw [List.length_filterMap_eq_countP]
    refine (List.countP_eq_length.mpr fun e he => ?_).trans m.size
    exact Option.isSome_iff_ne_none.mpr fun hfree => hfull ⟨e, he, hfree⟩
  · obtain ⟨e, he, hfst⟩ := List.mem_filterMap.mp hkey
    exact fun hnone => get_eq_none_iff.mp hnone ⟨e, he, hfst⟩

/-- A free entry stands in front of all entries of a key that has none. -/
theorem freeFirst_of_hasFree (hnew : m.get key = none) (h : m.HasFree) : m.FreeFirst key := by
  obtain ⟨e, he, hfree⟩ := h
  cases hfind : m.table.find? fun e => e.1 = none ∨ e.1 = some key with
  | none => exact absurd hfree (by simpa using fun h => (List.find?_eq_none.mp hfind e he (by simp [h])))
  | some e' =>
    refine ⟨e', hfind, ?_⟩
    have hor : e'.1 = none ∨ e'.1 = some key := by simpa using List.find?_some hfind
    exact hor.resolve_right fun hkey => get_eq_none_iff.mp hnew ⟨e', List.mem_of_find?_eq_some hfind, hkey⟩

/-- There is room for one key more if after the `Put` no more than `N` have a value. -/
theorem Distinct.hasFree (h : m.Distinct) (hlaw : ∀ key, m.get key = lastPut before key)
    (hnew : lastPut before key = none)
    (hlive : {key' | lastPut (before ++ [.put key value]) key' ≠ none}.encard ≤ N) : m.HasFree := by
  by_contra hfull
  obtain ⟨keys, hnodup, hlength, hkeys⟩ := h.exists_keys hfull
  have hnotMem : key ∉ keys := fun hmem => hkeys key hmem ((hlaw key).trans hnew)
  have hsub : (↑(key :: keys).toFinset : Set K) ⊆ {key' | lastPut (before ++ [.put key value]) key' ≠ none} := by
    intro key' hmem
    rw [List.coe_toFinset, Set.mem_ofPred_eq, List.mem_cons] at hmem
    rw [Set.mem_ofPred_eq, lastPut_append, Call.update]
    split
    next => exact Option.some_ne_none value
    next hne =>
      rw [← hlaw key']
      exact hkeys key' (hmem.resolve_left (Ne.symm hne))
  have hcard := (Set.encard_le_encard hsub).trans hlive
  rw [Set.encard_coe_eq_coe_finsetCard, List.toFinset_card_of_nodup (List.nodup_cons.mpr ⟨hnotMem, hnodup⟩),
    List.length_cons, hlength] at hcard
  exact absurd (ENat.natCast_le_natCast.mp hcard) (Nat.not_succ_le_self N)

/-- **The map law** holds where keys are deleted before they are put again. -/
theorem mapLaw_of_putsFresh (hlive : AtMostLive N calls) (hfresh : PutsFresh calls) :
    MapLaw N default calls ∧ (after N default calls).Distinct := by
  induction calls using List.reverseRecOn with
  | nil => exact ⟨(mapLaw_iff_allSuit []).mpr fun before call hb => by simp at hb, .empty⟩
  | append_singleton calls call ih =>
    have hwiden : ∀ {before : List (Call K V)}, before <+: calls → before <+: calls ++ [call] :=
      fun hb => hb.trans (List.prefix_append _ _)
    obtain ⟨hlaw, hdistinct⟩ := ih (fun before hb => hlive before (hwiden hb))
      fun before key value hb => hfresh before key value (hwiden hb)
    have hget := hlaw calls List.prefix_rfl
    rw [mapLaw_append, after_append, perform_iff hget]
    cases call with
    | put key value =>
      have hnew := hfresh calls key value List.prefix_rfl
      have hnone : (after N default calls).get key = none := (hget key).trans hnew
      have hroom := hdistinct.hasFree hget hnew (hlive _ List.prefix_rfl)
      exact ⟨⟨hlaw, .inr (freeFirst_of_hasFree hnone hroom)⟩, hdistinct.put hnone value⟩
    | get key => exact ⟨⟨hlaw, trivial⟩, hdistinct⟩
    | delete key => exact ⟨⟨hlaw, hdistinct key⟩, hdistinct.delete key⟩

/-- **For which calls the array is a map**: all of them suit. So they do where no key is put again before it is
deleted, and no more than `N` keys have a value. -/
theorem map_law_iff (calls : List (Call K V)) : (MapLaw N default calls ↔ AllSuit N default calls) ∧
    (AtMostLive N calls → PutsFresh calls → MapLaw N default calls) :=
  ⟨mapLaw_iff_allSuit calls, fun hlive hfresh => (mapLaw_of_putsFresh hlive hfresh).1⟩

/-- Only keys that are put have a value. -/
theorem put_mem_of_lastPut (h : lastPut before key ≠ none) : ∃ value, .put key value ∈ before := by
  induction before using List.reverseRecOn with
  | nil => exact absurd rfl h
  | append_singleton before call ih =>
    have hold : lastPut before key ≠ none → ∃ value, .put key value ∈ before ++ [call] :=
      fun hne => (ih hne).imp fun _ hmem => List.mem_append_left _ hmem
    rw [lastPut_append] at h
    cases call with
    | put key' value =>
      rw [Call.update] at h
      split at h
      next hkey => exact ⟨value, by simp [hkey]⟩
      next => exact hold h
    | get key' => exact hold h
    | delete key' =>
      rw [Call.update] at h
      split at h
      · exact absurd rfl h
      · exact hold h

/-- If only few keys are put, few have a value. -/
theorem atMostLive_of_puts (keys : List K) (h : ∀ key value, .put key value ∈ calls → key ∈ keys)
    (hlength : keys.length ≤ N) : AtMostLive N calls := by
  intro before hb
  have hsub : {key | lastPut before key ≠ none} ⊆ (↑keys.toFinset : Set K) := by
    intro key hkey
    obtain ⟨value, hmem⟩ := put_mem_of_lastPut hkey
    rw [List.coe_toFinset]
    exact h key value (hb.subset hmem)
  refine (Set.encard_le_encard hsub).trans ?_
  rw [Set.encard_coe_eq_coe_finsetCard]
  exact ENat.natCast_le_natCast.mpr ((List.toFinset_card_le keys).trans hlength)

/-- A key that is put, deleted and put again. -/
theorem map_law_iff_again : MapLaw 1 0 [Call.put 1 5, .delete 1, .put 1 6] := by
  have hputs : ∀ key value, Call.put key value ∈ [Call.put 1 5, .delete 1, .put 1 6] → key ∈ [1] := by
    intro key value hmem
    simp at hmem ⊢
    omega
  refine (map_law_iff _).2 (atMostLive_of_puts [1] hputs le_rfl) fun before key value hb => ?_
  rcases before with _ | ⟨_, _ | ⟨_, _ | ⟨_, before⟩⟩⟩
  all_goals simp at hb
  · rfl
  · obtain ⟨rfl, rfl, rfl, rfl⟩ := hb
    rfl

/-- **A second `Put`** does not replace the value, and `Delete` does not remove the key. -/
theorem put_not_replaced : AtMostLive 16 [Call.put 1 5, .put 1 6, .delete 1] ∧
    ¬ MapLaw 16 0 [Call.put 1 5, .put 1 6, .delete 1] ∧
    (after 16 0 [Call.put 1 5, .put 1 6]).get 1 = some 5 ∧
    (after 16 0 [Call.put 1 5, .put 1 6, .delete 1]).get 1 = some 6 := by
  have hputs : ∀ key value, Call.put key value ∈ [Call.put 1 5, .put 1 6, .delete 1] → key ∈ [1] := by
    intro key value hmem
    simp at hmem ⊢
    omega
  refine ⟨atMostLive_of_puts [1] hputs (by decide), fun h => ?_, by decide, by decide⟩
  have hget := h [.put 1 5, .put 1 6] ⟨[.delete 1], rfl⟩ 1
  exact absurd hget (by decide)

end DuvuvurKernel.Usb.ArrayMap
