import DuvuvurKernel.Timer.TimerManager
import Mathlib.Logic.Relation

/-!
# When timers fire

Runs of `AddTimer` and `Tick`, in any order.

## The model

`Clock` is the manager with what has happened so far: the timers added, each with the tick
at which it was, and for each `Tick` the value of the counter, the messages sent and what
was returned. A timer is due at `dueTick`, the first tick after it was added that is not
before its timeout.

**Result** (`timers_fire`): each timer fires once, at the tick at which it is due; the
timer for switching tasks expires then and every `kTaskTimerPeriod` ticks from there on.
The counter must stay away from its end: `Tick` does not return when the timer for
switching tasks is set to a tick past it (`tick_never_returns`).
-/

namespace DuvuvurKernel

open Lib.Loops Lib.PriorityQueues

/-- What a `Tick` has done. -/
structure TickRecord where
  /-- `tick_`. -/
  value : UInt64
  sent : List (UInt64 × Message)
  returned : Bool

/-- A manager with its history. -/
structure Clock (P : PriorityQueue Timer Timer.less) where
  manager : TimerManager P
  /-- The timers added, each with the value of the counter at that time. -/
  added : Multiset (UInt64 × Timer)
  ticks : List TickRecord

variable {P : PriorityQueue Timer Timer.less}

/-- The manager at the start. -/
def Clock.start (P : PriorityQueue Timer Timer.less) : Clock P := ⟨.new P, 0, []⟩

/-- A call of `AddTimer` or of `Tick`. -/
inductive ClockStep : Clock P → Clock P → Prop where
  | addTimer {x : Clock P} (t : Timer) :
      ClockStep x ⟨x.manager.addTimer t, (x.manager.tick, t) ::ₘ x.added, x.ticks⟩
  | tick {x : Clock P} {r : TimerManager.Ticking P} : x.manager.Tick r →
      ClockStep x ⟨r.manager, x.added, x.ticks ++ [⟨r.manager.tick, r.sent, r.taskTimerTimeout⟩]⟩

/-- The tick at which a timer is due: the first after it was added that is not before its timeout. -/
def dueTick (a : UInt64 × Timer) : ℕ := max a.2.timeout.toNat (a.1.toNat + 1)

/-- A timer expires at tick `m`: when it is due, and if it is for switching tasks, every second tick from
there on. -/
def ExpiresAt (m : ℕ) (a : UInt64 × Timer) : Prop :=
  dueTick a = m ∨ a.2.IsTaskTimer ∧ dueTick a ≤ m ∧ (m - dueTick a) % kTaskTimerPeriod.toNat = 0

instance (m : ℕ) (a : UInt64 × Timer) : Decidable (ExpiresAt m a) := inferInstanceAs (Decidable (_ ∨ _))

/-- A timer is still in the queue after tick `n`. -/
def StillThere (n : ℕ) (a : UInt64 × Timer) : Prop := n < dueTick a ∨ a.2.IsTaskTimer

instance (n : ℕ) (a : UInt64 × Timer) : Decidable (StillThere n a) := inferInstanceAs (Decidable (_ ∨ _))

/-- What a timer is in the queue after tick `n`: itself, or the timer for switching tasks set anew. -/
def inQueue (n : ℕ) (a : UInt64 × Timer) : Timer :=
  if n < dueTick a then a.2 else taskTimer (.ofNat (dueTick a + 2 * ((n - dueTick a) / 2 + 1)))

variable {x y : Clock P} {a : UInt64 × Timer} {n m : ℕ} {v : UInt64}

/-! ### One timer -/

theorem stillThere_succ : StillThere (n + 1) a ↔ StillThere n a ∧ (ExpiresAt (n + 1) a → a.2.IsTaskTimer) := by
  unfold StillThere ExpiresAt
  by_cases htask : a.2.IsTaskTimer
  · simp [htask]
  · simp only [htask, or_false, false_and, imp_false]
    omega

/-- A timer in the queue expires at the next tick if its timeout is then no longer in the future. -/
theorem inQueue_timeout_le (hv : v.toNat = n + 1) (hlim : n + 3 < 2 ^ 64) (hadded : a.1.toNat ≤ n)
    (hthere : StillThere n a) : (inQueue n a).timeout ≤ v ↔ ExpiresAt (n + 1) a := by
  have hperiod : kTaskTimerPeriod.toNat = 2 := rfl
  rw [UInt64.le_iff_toNat_le, hv, inQueue, ExpiresAt, hperiod]
  by_cases hdue : n < dueTick a
  · rw [if_pos hdue]
    unfold dueTick at hdue ⊢
    constructor
    · intro hle
      exact .inl (by omega)
    · rintro (heq | ⟨-, hle, -⟩)
      · omega
      · omega
  · rw [if_neg hdue]
    have htask := hthere.resolve_left hdue
    have htimeout : (taskTimer (.ofNat (dueTick a + 2 * ((n - dueTick a) / 2 + 1)))).timeout.toNat =
        dueTick a + 2 * ((n - dueTick a) / 2 + 1) := by
      rw [taskTimer, UInt64.toNat_ofNat']
      exact Nat.mod_eq_of_lt (by omega)
    rw [htimeout]
    constructor
    · intro hle
      exact .inr ⟨htask, by omega, by omega⟩
    · rintro (heq | ⟨-, hle, hmod⟩)
      · omega
      · omega

theorem inQueue_isTaskTimer (hthere : StillThere n a) : (inQueue n a).IsTaskTimer ↔ a.2.IsTaskTimer := by
  unfold inQueue
  split
  next => exact Iff.rfl
  next hdue => exact iff_of_true rfl (hthere.resolve_left hdue)

theorem inQueue_of_not_expires (hthere : StillThere n a) (hnot : ¬ ExpiresAt (n + 1) a) :
    inQueue (n + 1) a = inQueue n a := by
  unfold inQueue
  have hperiod : kTaskTimerPeriod.toNat = 2 := rfl
  rw [ExpiresAt, hperiod, not_or] at hnot
  by_cases hdue : n < dueTick a
  · rw [if_pos hdue, if_pos (by omega)]
  · have htask := hthere.resolve_left hdue
    have hmod : (n + 1 - dueTick a) % 2 ≠ 0 := fun hc => hnot.2 ⟨htask, by omega, hc⟩
    rw [if_neg hdue, if_neg (by omega)]
    congr 2
    omega

theorem inQueue_of_expires (hv : v.toNat = n + 1) (hexp : ExpiresAt (n + 1) a) :
    inQueue (n + 1) a = taskTimer (v + kTaskTimerPeriod) := by
  have hperiod : kTaskTimerPeriod.toNat = 2 := rfl
  have hle : dueTick a ≤ n + 1 ∧ (n + 1 - dueTick a) % 2 = 0 := by
    rw [ExpiresAt, hperiod] at hexp
    rcases hexp with heq | ⟨-, hle, hmod⟩
    · omega
    · exact ⟨hle, hmod⟩
  unfold inQueue
  rw [if_neg (by omega)]
  congr 1
  apply UInt64.toNat_inj.mp
  rw [UInt64.toNat_ofNat', UInt64.toNat_add, hv, hperiod]
  congr 1
  omega

/-! ### Any run -/

/-- What a `Tick` should have done, given the timers added. -/
structure TickRecord.OnTime (added : Multiset (UInt64 × Timer)) (rec : TickRecord) : Prop where
  /-- It has sent the messages of the timers due, in the order of their timeouts. -/
  sent : ∃ L : List Timer, rec.sent = L.map Timer.message ∧ L.Pairwise (fun a b => a.timeout ≤ b.timeout) ∧
    (L : Multiset Timer) = (added.filter fun a => ¬ a.2.IsTaskTimer ∧ dueTick a = rec.value.toNat).map Prod.snd
  /-- It has returned whether a timer for switching tasks expired. -/
  returned : rec.returned = true ↔ ∃ a ∈ added, a.2.IsTaskTimer ∧ ExpiresAt rec.value.toNat a

/-- What holds of a manager and its history. -/
structure Clock.Kept (x : Clock P) : Prop where
  items : P.items x.manager.timers =
    sentinel ::ₘ (x.added.filter (StillThere x.manager.tick.toNat)).map (inQueue x.manager.tick.toNat)
  added : ∀ a ∈ x.added, a.1.toNat ≤ x.manager.tick.toNat
  values : x.ticks.map (fun rec => rec.value.toNat) = List.range' 1 x.manager.tick.toNat
  onTime : ∀ rec ∈ x.ticks, rec.OnTime x.added

theorem Clock.kept_start : (Clock.start P).Kept := by
  refine ⟨?_, ?_, rfl, ?_⟩
  · show P.items (P.push P.empty sentinel) = _
    rw [P.items_push, P.items_empty]
    rfl
  · intro a ha
    exact absurd ha (Multiset.notMem_zero a)
  · intro rec hrec
    cases hrec

/-- The ticks that have been are no later than the counter. -/
theorem Clock.Kept.value_le (h : x.Kept) {rec : TickRecord} (hrec : rec ∈ x.ticks) :
    rec.value.toNat ≤ x.manager.tick.toNat := by
  have hmem : rec.value.toNat ∈ x.ticks.map fun rec => rec.value.toNat := List.mem_map_of_mem hrec
  rw [h.values, List.mem_range'_1] at hmem
  omega

/-- A timer that is added later changes nothing about the ticks that have been. -/
theorem TickRecord.OnTime.cons {added : Multiset (UInt64 × Timer)} {rec : TickRecord} (h : rec.OnTime added)
    (hlater : rec.value.toNat < dueTick a) : rec.OnTime (a ::ₘ added) := by
  have hnot : ¬ ExpiresAt rec.value.toNat a := by
    rintro (heq | ⟨-, hle, -⟩)
    · omega
    · omega
  refine ⟨?_, ?_⟩
  · rw [Multiset.filter_cons_of_neg added fun hc => absurd hc.2 (by omega)]
    exact h.sent
  · rw [h.returned]
    constructor
    · rintro ⟨b, hb, hdue⟩
      exact ⟨b, Multiset.mem_cons_of_mem hb, hdue⟩
    · rintro ⟨b, hb, htask, hexp⟩
      rcases Multiset.mem_cons.mp hb with rfl | hb
      · exact absurd hexp hnot
      · exact ⟨b, hb, htask, hexp⟩

/-- `AddTimer` keeps what holds. -/
theorem Clock.Kept.addTimer (h : x.Kept) (t : Timer) :
    (Clock.mk (x.manager.addTimer t) ((x.manager.tick, t) ::ₘ x.added) x.ticks).Kept := by
  have hdue : x.manager.tick.toNat < dueTick (x.manager.tick, t) := by
    exact Nat.lt_of_lt_of_le (Nat.lt_succ_self _) (Nat.le_max_right _ _)
  refine ⟨?_, ?_, h.values, fun rec hrec => (h.onTime rec hrec).cons ?_⟩
  · show P.items (P.push x.manager.timers t) = _
    rw [P.items_push, h.items, Multiset.filter_cons_of_pos x.added (.inl hdue), Multiset.map_cons, Multiset.cons_swap]
    exact congrArg (sentinel ::ₘ · ::ₘ _) (if_pos hdue).symm
  · intro a ha
    rcases Multiset.mem_cons.mp ha with rfl | ha
    · exact le_rfl
    · exact h.added a ha
  · have := h.value_le hrec
    omega

/-- One timer is always in the future. -/
theorem Clock.Kept.exists_future (h : x.Kept) (hlim : x.manager.tick.toNat + 3 < 2 ^ 64) :
    ∃ t ∈ P.items x.manager.timers, x.manager.tick + 1 < t.timeout := by
  refine ⟨sentinel, h.items ▸ Multiset.mem_cons_self _ _, ?_⟩
  rw [UInt64.lt_iff_toNat_lt, UInt64.toNat_add, UInt64.toNat_one]
  have : sentinel.timeout.toNat = 2 ^ 64 - 1 := rfl
  omega

theorem later_of_lt (hlim : v.toNat + 3 < 2 ^ 64) : v + 1 < v + 1 + kTaskTimerPeriod := by
  have hperiod : kTaskTimerPeriod.toNat = 2 := rfl
  have hv : (v + 1).toNat = v.toNat + 1 := by
    rw [UInt64.toNat_add, UInt64.toNat_one]
    omega
  rw [UInt64.lt_iff_toNat_lt, UInt64.toNat_add (v + 1), hperiod, hv]
  omega

/-- What a tick finds in the queue: the timers that expire, and those that do not. -/
theorem Clock.Kept.filter_items (h : x.Kept) (hlim : x.manager.tick.toNat + 3 < 2 ^ 64) (q : Timer → Prop)
    [DecidablePred q] (q' : UInt64 × Timer → Prop) [DecidablePred q']
    (hq : ∀ a, StillThere x.manager.tick.toNat a → (q (inQueue x.manager.tick.toNat a) ↔ q' a)) :
    (P.items x.manager.timers).filter (fun t => t.timeout ≤ x.manager.tick + 1 ∧ q t) =
      (x.added.filter fun a => StillThere x.manager.tick.toNat a ∧ ExpiresAt (x.manager.tick.toNat + 1) a ∧ q' a).map
        (inQueue x.manager.tick.toNat) := by
  have hv : (x.manager.tick + 1).toNat = x.manager.tick.toNat + 1 := by
    rw [UInt64.toNat_add, UInt64.toNat_one]
    omega
  have hsentinel : ¬ sentinel.timeout ≤ x.manager.tick + 1 := by
    rw [UInt64.le_iff_toNat_le, hv]
    have : sentinel.timeout.toNat = 2 ^ 64 - 1 := rfl
    omega
  rw [h.items, Multiset.filter_cons_of_neg _ fun hc => hsentinel hc.1, Multiset.filter_map, Multiset.filter_filter]
  congr 1
  refine Multiset.filter_congr fun a ha => ?_
  constructor
  · rintro ⟨⟨hle, hqa⟩, hthere⟩
    exact ⟨hthere, (inQueue_timeout_le hv hlim (h.added a ha) hthere).mp hle, (hq a hthere).mp hqa⟩
  · rintro ⟨hthere, hexp, hqa⟩
    exact ⟨⟨(inQueue_timeout_le hv hlim (h.added a ha) hthere).mpr hexp, (hq a hthere).mpr hqa⟩, hthere⟩

/-- What a tick leaves in the queue as it is. -/
theorem Clock.Kept.filter_later (h : x.Kept) (hlim : x.manager.tick.toNat + 3 < 2 ^ 64) :
    (P.items x.manager.timers).filter (fun t => x.manager.tick + 1 < t.timeout) =
      sentinel ::ₘ (x.added.filter fun a => StillThere x.manager.tick.toNat a ∧
        ¬ ExpiresAt (x.manager.tick.toNat + 1) a).map
        (inQueue x.manager.tick.toNat) := by
  have hv : (x.manager.tick + 1).toNat = x.manager.tick.toNat + 1 := by
    rw [UInt64.toNat_add, UInt64.toNat_one]
    omega
  have hsentinel : x.manager.tick + 1 < sentinel.timeout := by
    rw [UInt64.lt_iff_toNat_lt, hv]
    have : sentinel.timeout.toNat = 2 ^ 64 - 1 := rfl
    omega
  rw [h.items, Multiset.filter_cons_of_pos (p := fun t : Timer => x.manager.tick + 1 < t.timeout) _ hsentinel,
    Multiset.filter_map, Multiset.filter_filter]
  congr 2
  refine Multiset.filter_congr fun a ha => ?_
  rw [and_comm]
  refine and_congr_right fun hthere => ?_
  rw [← inQueue_timeout_le hv hlim (h.added a ha) hthere, UInt64.not_le]
  exact Iff.rfl

/-- What is in the queue after a tick. -/
theorem filter_stillThere_succ {added : Multiset (UInt64 × Timer)} (hv : v.toNat = n + 1) :
    (added.filter fun a => StillThere n a ∧ ¬ ExpiresAt (n + 1) a).map (inQueue n) +
        ((added.filter fun a => StillThere n a ∧ ExpiresAt (n + 1) a ∧ a.2.IsTaskTimer).map (inQueue n)).map
          (fun _ => taskTimer (v + kTaskTimerPeriod)) =
      (added.filter (StillThere (n + 1))).map (inQueue (n + 1)) := by
  have hkept : (added.filter fun a => StillThere n a ∧ ¬ ExpiresAt (n + 1) a).map (inQueue n) =
      (added.filter fun a => StillThere n a ∧ ¬ ExpiresAt (n + 1) a).map (inQueue (n + 1)) := by
    refine Multiset.map_congr rfl fun a ha => ?_
    obtain ⟨-, hthere, hnot⟩ := Multiset.mem_filter.mp ha
    exact (inQueue_of_not_expires hthere hnot).symm
  have hanew : ((added.filter fun a => StillThere n a ∧ ExpiresAt (n + 1) a ∧ a.2.IsTaskTimer).map (inQueue n)).map
      (fun _ => taskTimer (v + kTaskTimerPeriod)) =
      (added.filter fun a => StillThere n a ∧ ExpiresAt (n + 1) a ∧ a.2.IsTaskTimer).map (inQueue (n + 1)) := by
    rw [Multiset.map_map]
    refine Multiset.map_congr rfl fun a ha => ?_
    obtain ⟨-, -, hexp, -⟩ := Multiset.mem_filter.mp ha
    exact (inQueue_of_expires hv hexp).symm
  rw [hkept, hanew, ← Multiset.map_add, Multiset.filter_add_filter]
  have hnone : (added.filter fun a => (StillThere n a ∧ ¬ ExpiresAt (n + 1) a) ∧
      StillThere n a ∧ ExpiresAt (n + 1) a ∧ a.2.IsTaskTimer) = 0 :=
    Multiset.filter_eq_nil.mpr fun a _ hc => hc.1.2 hc.2.2.1
  rw [hnone, add_zero]
  congr 1
  refine Multiset.filter_congr fun a _ => ?_
  rw [stillThere_succ, ← and_or_left]
  refine and_congr_right fun _ => ?_
  by_cases hexp : ExpiresAt (n + 1) a
  · simp [hexp]
  · simp [hexp]

/-- The timers whose messages are sent at a tick are those due then. -/
theorem filter_due {added : Multiset (UInt64 × Timer)} :
    (added.filter fun a => StillThere n a ∧ ExpiresAt (n + 1) a ∧ ¬ a.2.IsTaskTimer).map (inQueue n) =
      (added.filter fun a => ¬ a.2.IsTaskTimer ∧ dueTick a = n + 1).map Prod.snd := by
  have hfilter : (added.filter fun a => StillThere n a ∧ ExpiresAt (n + 1) a ∧ ¬ a.2.IsTaskTimer) =
      added.filter fun a => ¬ a.2.IsTaskTimer ∧ dueTick a = n + 1 := by
    refine Multiset.filter_congr fun a _ => ?_
    constructor
    · rintro ⟨-, heq | ⟨htask, -⟩, hnot⟩
      · exact ⟨hnot, heq⟩
      · exact absurd htask hnot
    · rintro ⟨hnot, heq⟩
      exact ⟨.inl (by omega), .inl heq, hnot⟩
  rw [hfilter]
  refine Multiset.map_congr rfl fun a ha => ?_
  obtain ⟨-, -, heq⟩ := Multiset.mem_filter.mp ha
  exact if_pos (by omega)

/-- `Tick` keeps what holds. -/
theorem Clock.Kept.tick (h : x.Kept) (hlim : x.manager.tick.toNat + 3 < 2 ^ 64) {r : TimerManager.Ticking P}
    (hr : x.manager.Tick r) :
    (Clock.mk r.manager x.added (x.ticks ++ [⟨r.manager.tick, r.sent, r.taskTimerTimeout⟩])).Kept := by
  obtain ⟨n, hn⟩ : ∃ n, n = x.manager.tick.toNat := ⟨_, rfl⟩
  have hv : (x.manager.tick + 1).toNat = n + 1 := by
    rw [UInt64.toNat_add, UInt64.toNat_one, hn]
    omega
  have hticked := (TimerManager.tick_spec rfl (h.exists_future hlim) (later_of_lt hlim)).2 r hr
  have hsent := h.filter_items hlim (fun t => ¬ t.IsTaskTimer) (fun a => ¬ a.2.IsTaskTimer)
    fun a hthere => not_congr (inQueue_isTaskTimer hthere)
  have htask := h.filter_items hlim Timer.IsTaskTimer (fun a => a.2.IsTaskTimer)
    fun a hthere => inQueue_isTaskTimer hthere
  rw [← hn] at hsent htask
  refine ⟨?_, ?_, ?_, ?_⟩
  · show P.items r.manager.timers = sentinel ::ₘ (x.added.filter (StillThere r.manager.tick.toNat)).map
      (inQueue r.manager.tick.toNat)
    rw [hticked.items, htask, hticked.tick, hv, h.filter_later hlim, ← hn, Multiset.cons_add, filter_stillThere_succ hv]
  · intro a ha
    show a.1.toNat ≤ r.manager.tick.toNat
    rw [hticked.tick, hv]
    have := h.added a ha
    omega
  · show (x.ticks ++ [_]).map _ = List.range' 1 r.manager.tick.toNat
    rw [List.map_append, h.values, hticked.tick, hv, List.range'_concat, ← hn, List.map_singleton, hv, Nat.one_mul,
      Nat.add_comm 1 n]
  · intro rec hrec
    rcases List.mem_append.mp hrec with hold | hnew
    · exact h.onTime rec hold
    · rw [List.mem_singleton.mp hnew]
      refine ⟨?_, ?_⟩
      · obtain ⟨L, hL, hsorted, hfilter⟩ := hticked.sent
        refine ⟨L, hL, hsorted, ?_⟩
        show (L : Multiset Timer) = (x.added.filter fun a => _ ∧ dueTick a = r.manager.tick.toNat).map Prod.snd
        rw [hfilter, hsent, filter_due, hticked.tick, hv]
      · show r.taskTimerTimeout = true ↔ ∃ a ∈ x.added, a.2.IsTaskTimer ∧ ExpiresAt r.manager.tick.toNat a
        rw [hticked.taskTimerTimeout, hticked.tick, hv]
        constructor
        · rintro (hc | ⟨t, ht, hdue⟩)
          · cases hc
          · have hmem : t ∈ (P.items x.manager.timers).filter fun t => t.timeout ≤ x.manager.tick + 1 ∧ t.IsTaskTimer :=
              Multiset.mem_filter.mpr ⟨ht, hdue⟩
            rw [htask] at hmem
            obtain ⟨a, ha, -⟩ := Multiset.mem_map.mp hmem
            obtain ⟨ha, -, hexp, hta⟩ := Multiset.mem_filter.mp ha
            exact ⟨a, ha, hta, hexp⟩
        · rintro ⟨a, ha, hta, hexp⟩
          have hmem := Multiset.mem_map_of_mem (inQueue n)
            (Multiset.mem_filter.mpr ⟨ha, Or.inr hta, hexp, hta⟩ : a ∈ x.added.filter fun a =>
              StillThere n a ∧ ExpiresAt (n + 1) a ∧ a.2.IsTaskTimer)
          rw [← htask] at hmem
          obtain ⟨ht, hdue⟩ := Multiset.mem_filter.mp hmem
          exact .inr ⟨_, ht, hdue⟩

theorem Clock.Kept.length_ticks (h : x.Kept) : x.ticks.length = x.manager.tick.toNat := by
  have := congrArg List.length h.values
  rwa [List.length_map, List.length_range'] at this

/-- Each run keeps what holds, until the counter comes near its end. -/
theorem Clock.kept_run (h : Relation.ReflTransGen ClockStep (Clock.start P) x)
    (hlim : x.ticks.length + kTaskTimerPeriod.toNat < 2 ^ 64) : x.Kept := by
  have hperiod : kTaskTimerPeriod.toNat = 2 := rfl
  induction h with
  | refl => exact kept_start
  | tail _ hstep ih =>
    cases hstep with
    | addTimer t => exact (ih hlim).addTimer t
    | tick hr =>
      rw [List.length_append, List.length_singleton] at hlim
      have hkept := ih (by omega)
      have := hkept.length_ticks
      exact hkept.tick (by omega) hr

/-- As many timers for switching tasks are in the queue as have been added. -/
theorem Clock.Kept.countP_isTaskTimer (h : x.Kept) :
    (P.items x.manager.timers).countP Timer.IsTaskTimer = x.added.countP fun a => a.2.IsTaskTimer := by
  have hsentinel : ¬ sentinel.IsTaskTimer := by
    show (0 : Int32) ≠ Int32.maxValue
    decide
  rw [h.items, Multiset.countP_cons_of_neg _ hsentinel, Multiset.countP_map, Multiset.countP_eq_card_filter,
    Multiset.filter_filter]
  refine congrArg _ (Multiset.filter_congr fun a _ => ?_)
  constructor
  · rintro ⟨htask, hthere⟩
    exact (inQueue_isTaskTimer hthere).mp htask
  · intro htask
    exact ⟨(inQueue_isTaskTimer (.inr htask)).mpr htask, .inr htask⟩

/-- **Timers fire once and on time.** In every run in which the counter stays `kTaskTimerPeriod` away from its
end: it counts the ticks; each tick sends the messages of the timers due then, in the order of their timeouts,
and returns whether a timer for switching tasks expires; as many of those are in the queue as have been
added; and the next tick returns. -/
theorem timers_fire (h : Relation.ReflTransGen ClockStep (Clock.start P) x)
    (hlim : x.ticks.length + kTaskTimerPeriod.toNat < 2 ^ 64) :
    x.ticks.map (fun rec => rec.value.toNat) = List.range' 1 x.manager.tick.toNat ∧
    (∀ rec ∈ x.ticks, rec.OnTime x.added) ∧
    (P.items x.manager.timers).countP Timer.IsTaskTimer = x.added.countP (fun a => a.2.IsTaskTimer) ∧
    (x.ticks.length + 1 + kTaskTimerPeriod.toNat < 2 ^ 64 → ∃ r, x.manager.Tick r) := by
  have hkept := Clock.kept_run h hlim
  refine ⟨hkept.values, hkept.onTime, hkept.countP_isTaskTimer, fun hnext => ?_⟩
  have hlt : x.manager.tick.toNat + 3 < 2 ^ 64 := by
    rw [← hkept.length_ticks]
    exact hnext
  exact (TimerManager.tick_spec rfl (hkept.exists_future hlt) (later_of_lt hlt)).1

/-- Timers in a sorted list. -/
def timerLists : PriorityQueue Timer Timer.less := sortedLists fun t : Timer => t.timeout.toNat

/-- A tick at which a message is sent and it is time to switch tasks. -/
theorem tick_one : ((TimerManager.new timerLists).addTimer ⟨1, -5, 3⟩ |>.addTimer (taskTimer 1)).Tick
    ⟨((⟨1, (TimerManager.new timerLists).timers⟩ : TimerManager timerLists).addTimer (taskTimer 3)), true,
      [(3, ⟨0, .timerTimeout 1 (-5)⟩)]⟩ := by
  have hsend := TimerManager.tickRound_send (P := timerLists) (t := ⟨1, -5, 3⟩)
    (x := ⟨⟨1, ((TimerManager.new timerLists).addTimer ⟨1, -5, 3⟩ |>.addTimer (taskTimer 1)).timers⟩, false, []⟩)
    (by decide)
    (by decide) (by decide)
  have htask := TimerManager.tickRound_task (P := timerLists) (t := taskTimer 1)
    (x := ⟨⟨1, ((TimerManager.new timerLists).addTimer (taskTimer 1)).timers⟩, false, [(3, ⟨0, .timerTimeout 1 (-5)⟩)]⟩)
    (by decide)
    (by decide) (by decide)
  have hdone := TimerManager.tickRound_done (P := timerLists) (t := taskTimer 3)
    (x := ⟨⟨1, ((TimerManager.new timerLists).addTimer (taskTimer 3)).timers⟩, true, [(3, ⟨0, .timerTimeout 1 (-5)⟩)]⟩)
    (by decide)
    (by decide)
  exact .goOn hsend (.goOn htask (.done hdone))

/-- A timer is added, and one for switching tasks; then there is a tick. -/
theorem timers_fire_one : ∃ x : Clock timerLists, Relation.ReflTransGen ClockStep (Clock.start timerLists) x ∧
    x.added = {((0 : UInt64), taskTimer 1), ((0 : UInt64), ⟨1, -5, 3⟩)} ∧
    x.ticks = [⟨1, [(3, ⟨0, .timerTimeout 1 (-5)⟩)], true⟩] ∧ (∀ rec ∈ x.ticks, rec.OnTime x.added) := by
  have hrun := ((Relation.ReflTransGen.single (ClockStep.addTimer (x := Clock.start timerLists) ⟨1, -5, 3⟩)).tail
    (ClockStep.addTimer (taskTimer 1))).tail (ClockStep.tick tick_one)
  exact ⟨_, hrun, rfl, rfl, (timers_fire hrun (by decide)).2.1⟩

/-! ### At the end of the counter -/

/-- Nothing but ticks. -/
theorem Clock.exists_idle (k : ℕ) (hk : k + 2 < 2 ^ 64) : ∃ x : Clock P,
    Relation.ReflTransGen ClockStep (Clock.start P) x ∧ x.added = 0 ∧ x.ticks.length = k := by
  have hperiod : kTaskTimerPeriod.toNat = 2 := rfl
  induction k with
  | zero => exact ⟨_, .refl, rfl, rfl⟩
  | succ k ih =>
    obtain ⟨x, hrun, hadded, hlen⟩ := ih (by omega)
    have hkept := kept_run hrun (by omega)
    have hlt : x.manager.tick.toNat + 3 < 2 ^ 64 := by
      rw [← hkept.length_ticks]
      omega
    obtain ⟨r, hr⟩ := (TimerManager.tick_spec rfl (hkept.exists_future hlt) (later_of_lt hlt)).1
    refine ⟨_, hrun.tail (.tick hr), hadded, ?_⟩
    rw [List.length_append, List.length_singleton, hlen]

/-- With the timer for switching tasks due one tick before the end of the counter, `Tick` does not return. -/
theorem tick_never_returns : ∃ x : Clock timerLists, Relation.ReflTransGen ClockStep (Clock.start timerLists) x ∧
    x.added = {((18446744073709551613 : UInt64), taskTimer 18446744073709551614)} ∧
    x.manager.tick + 1 < 18446744073709551615 ∧ ¬ ∃ r, x.manager.Tick r := by
  have hperiod : kTaskTimerPeriod.toNat = 2 := rfl
  obtain ⟨x, hrun, hadded, hlen⟩ := Clock.exists_idle (P := timerLists) 18446744073709551613 (by decide)
  have hkept := Clock.kept_run hrun (by omega)
  have htick : x.manager.tick = 18446744073709551613 := by
    apply UInt64.toNat_inj.mp
    rw [← hkept.length_ticks, hlen]
    rfl
  refine ⟨_, hrun.tail (.addTimer (taskTimer 18446744073709551614)), ?_, ?_, ?_⟩
  · rw [hadded, htick]
    rfl
  · show x.manager.tick + 1 < _
    rw [htick]
    decide
  · rintro ⟨r, hr⟩
    refine TimerManager.not_returns ?_ ⟨taskTimer 18446744073709551614, ?_, ?_, rfl⟩ hr
    · show x.manager.tick + 1 + kTaskTimerPeriod ≤ x.manager.tick + 1
      rw [htick]
      decide
    · show _ ∈ timerLists.items (timerLists.push _ _)
      rw [timerLists.items_push]
      exact Multiset.mem_cons_self _ _
    · show (18446744073709551614 : UInt64) ≤ x.manager.tick + 1
      rw [htick]
      decide

end DuvuvurKernel
