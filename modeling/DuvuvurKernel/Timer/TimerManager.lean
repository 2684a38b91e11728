import DuvuvurKernel.Lib.Loops
import DuvuvurKernel.Lib.PriorityQueues
import DuvuvurKernel.Task.Message
import Mathlib.Data.Nat.Notation
import Mathlib.Tactic

/-!
# Timers

`timer.cpp` and `timer.hpp`: the timers in a priority queue, and `Tick`, which the timer
interrupt calls.

## The model

The standard leaves open which of several timers with the same timeout a
`std::priority_queue` gives first, so the manager is over any such queue `P`. `Tick`
stops when the first timer lies in the future; that it does stop is part of what is
proved (`tick_spec`).
-/

namespace DuvuvurKernel

open Lib.Loops Lib.PriorityQueues

/-- `Timer`. -/
structure Timer where
  timeout : UInt64
  value : Int32
  taskID : UInt64
  deriving DecidableEq

/-- `operator<`: a timer that times out later comes after. -/
def Timer.less (lhs rhs : Timer) : Prop := lhs.timeout > rhs.timeout

/-- `kTimerFreq`. -/
def kTimerFreq : UInt64 := 100

/-- `kTaskTimerPeriod`: 0.02 seconds. -/
def kTaskTimerPeriod : UInt64 := 2

/-- `kTaskTimerValue`. -/
def kTaskTimerValue : Int32 := Int32.maxValue

/-- `CreateTimer`: the timer it adds for the app, unless it returns `EINVAL`. -/
def createTimer (mode : UInt32) (timerValue : Int32) (arg3 currentTick taskID : UInt64) : Option Timer :=
  if timerValue ≤ 0 then none
  else
    let timeout := arg3 * kTimerFreq / 1000
    -- a timer of the kernel has a positive value, so an app's is made negative
    some ⟨if mode &&& 1 ≠ 0 then timeout + currentTick else timeout, -timerValue, taskID⟩

/-- The message a timer sends, and to which task. -/
def Timer.message (t : Timer) : UInt64 × Message := (t.taskID, ⟨0, .timerTimeout t.timeout t.value⟩)

/-- The timer for switching tasks. -/
def Timer.IsTaskTimer (t : Timer) : Prop := t.value = kTaskTimerValue

instance (t : Timer) : Decidable t.IsTaskTimer := inferInstanceAs (Decidable (_ = _))

/-- An app's timer is not the one for switching tasks. -/
theorem createTimer_not_isTaskTimer {mode : UInt32} {value : Int32} {arg3 tick taskID : UInt64} {t : Timer}
    (h : createTimer mode value arg3 tick taskID = some t) : ¬ t.IsTaskTimer := by
  unfold createTimer at h
  split at h
  next => cases h
  next hvalue =>
    cases h
    intro htask
    have hneg : value = -kTaskTimerValue := by rw [← (htask : -value = kTaskTimerValue), Int32.neg_neg]
    exact hvalue (hneg ▸ by decide)

/-- The timer that is always in the queue: the largest `unsigned long`. -/
def sentinel : Timer := ⟨18446744073709551615, 0, 0⟩

/-- The timer with which `Tick` replaces an expired timer for switching tasks. -/
def taskTimer (timeout : UInt64) : Timer := ⟨timeout, kTaskTimerValue, 1⟩

/-- `TimerManager`. -/
structure TimerManager (P : PriorityQueue Timer Timer.less) where
  /-- `tick_`. -/
  tick : UInt64
  /-- `timers_`. -/
  timers : P.Queue

namespace TimerManager

variable {P : PriorityQueue Timer Timer.less}

/-- `TimerManager()`. -/
def new (P : PriorityQueue Timer Timer.less) : TimerManager P := ⟨0, P.push P.empty sentinel⟩

/-- `AddTimer`. -/
def addTimer (m : TimerManager P) (timer : Timer) : TimerManager P :=
  { m with timers := P.push m.timers timer }

/-- The locals of `Tick`, with the messages sent so far. -/
structure Ticking (P : PriorityQueue Timer Timer.less) where
  manager : TimerManager P
  /-- `task_timer_timeout`. -/
  taskTimerTimeout : Bool
  sent : List (UInt64 × Message)

/-- A round of the loop of `Tick`. -/
def tickRound (x : Ticking P) : Option (Next (Ticking P) (Ticking P)) := do
  let t ← P.top x.manager.timers
  if x.manager.tick < t.timeout then return .done x
  else if t.IsTaskTimer then
    let timers := P.push (P.pop x.manager.timers) (taskTimer (x.manager.tick + kTaskTimerPeriod))
    return .goOn ⟨⟨x.manager.tick, timers⟩, true, x.sent⟩
  else return .goOn ⟨⟨x.manager.tick, P.pop x.manager.timers⟩, x.taskTimerTimeout, x.sent ++ [t.message]⟩

/-- `Tick` returns: the manager, whether it is time to switch tasks, and the messages sent. -/
def Tick (m : TimerManager P) (r : Ticking P) : Prop :=
  Returns tickRound ⟨⟨m.tick + 1, m.timers⟩, false, []⟩ r

/-! ### One call of `Tick` -/

variable {x : Ticking P} {t : Timer} {S S' : Multiset Timer} {v : UInt64}

theorem tickRound_done (h : P.top x.manager.timers = some t) (ht : x.manager.tick < t.timeout) :
    tickRound x = some (.done x) := by
  simp [tickRound, h, ht]

theorem tickRound_task (h : P.top x.manager.timers = some t) (ht : ¬ x.manager.tick < t.timeout) (hk : t.IsTaskTimer) :
    tickRound x = some (.goOn ⟨⟨x.manager.tick, P.push (P.pop x.manager.timers)
      (taskTimer (x.manager.tick + kTaskTimerPeriod))⟩, true, x.sent⟩) := by
  simp [tickRound, h, ht, hk]

theorem tickRound_send (h : P.top x.manager.timers = some t) (ht : ¬ x.manager.tick < t.timeout)
    (hk : ¬ t.IsTaskTimer) :
    tickRound x = some (.goOn ⟨⟨x.manager.tick, P.pop x.manager.timers⟩, x.taskTimerTimeout,
        x.sent ++ [t.message]⟩) := by
  simp [tickRound, h, ht, hk]

/-- What the loop of `Tick` does with the timers `S`: it sends the messages of those that have timed out,
and sets those for switching tasks anew. -/
structure Ticked (S : Multiset Timer) (v : UInt64) (x r : Ticking P) : Prop where
  tick : r.manager.tick = v
  sent : ∃ L : List Timer, r.sent = x.sent ++ L.map Timer.message ∧ L.Pairwise (fun a b => a.timeout ≤ b.timeout) ∧
    (L : Multiset Timer) = S.filter fun t => t.timeout ≤ v ∧ ¬ t.IsTaskTimer
  items : P.items r.manager.timers = S.filter (fun t => v < t.timeout) +
    (S.filter fun t => t.timeout ≤ v ∧ t.IsTaskTimer).map fun _ => taskTimer (v + kTaskTimerPeriod)
  taskTimerTimeout : r.taskTimerTimeout = true ↔ x.taskTimerTimeout = true ∨ ∃ t ∈ S, t.timeout ≤ v ∧ t.IsTaskTimer

/-- The first timer lies in the future: so do all others. -/
theorem ticked_future (hS : P.items x.manager.timers = S) (hv : x.manager.tick = v)
    (hfuture : ∀ b ∈ S, v < b.timeout) : Ticked S v x x := by
  have hnone : ∀ (p : Timer → Prop) [DecidablePred p], S.filter (fun t => t.timeout ≤ v ∧ p t) = 0 := by
    intro p _
    refine Multiset.filter_eq_nil.mpr fun b hb hc => ?_
    exact absurd (hfuture b hb) (UInt64.not_lt.mpr hc.1)
  refine ⟨hv, ⟨[], by simp, List.Pairwise.nil, ?_⟩, ?_, ?_⟩
  · rw [hnone]
    rfl
  · rw [hnone, Multiset.map_zero, add_zero, Multiset.filter_eq_self.mpr hfuture, hS]
  · refine (or_iff_left ?_).symm
    rintro ⟨b, hb, hle, -⟩
    exact absurd (hfuture b hb) (UInt64.not_lt.mpr hle)

/-- A round that sends a message, and the rest of the loop. -/
theorem Ticked.send {y r : Ticking P} (ht : t.timeout ≤ v) (hk : ¬ t.IsTaskTimer)
    (hfirst : ∀ b ∈ S, t.timeout ≤ b.timeout) (hflag : y.taskTimerTimeout = x.taskTimerTimeout)
    (hsent : y.sent = x.sent ++ [t.message]) (h : Ticked S v y r) :
    Ticked (t ::ₘ S) v x r := by
  obtain ⟨L, hL, hsorted, hfilter⟩ := h.sent
  refine ⟨h.tick, ⟨t :: L, ?_, ?_, ?_⟩, ?_, ?_⟩
  · rw [hL, hsent, List.append_assoc]
    rfl
  · refine List.pairwise_cons.mpr ⟨fun b hb => hfirst b ?_, hsorted⟩
    have hmem : b ∈ (L : Multiset Timer) := hb
    rw [hfilter] at hmem
    exact (Multiset.mem_filter.mp hmem).1
  · rw [← Multiset.cons_coe, hfilter, Multiset.filter_cons_of_pos S ⟨ht, hk⟩]
  · rw [h.items, Multiset.filter_cons_of_neg S (UInt64.not_lt.mpr ht), Multiset.filter_cons_of_neg S fun hc => hk hc.2]
  · rw [h.taskTimerTimeout, hflag]
    refine or_congr_right ⟨?_, ?_⟩
    · rintro ⟨b, hb, hdue⟩
      exact ⟨b, Multiset.mem_cons_of_mem hb, hdue⟩
    · rintro ⟨b, hb, hle, htask⟩
      rcases Multiset.mem_cons.mp hb with rfl | hb
      · exact absurd htask hk
      · exact ⟨b, hb, hle, htask⟩

/-- A round that sets a timer for switching tasks anew, and the rest of the loop. -/
theorem Ticked.task {y r : Ticking P} (ht : t.timeout ≤ v) (hk : t.IsTaskTimer) (hlater : v < v + kTaskTimerPeriod)
    (hflag : y.taskTimerTimeout = true) (hsent : y.sent = x.sent)
    (h : Ticked (taskTimer (v + kTaskTimerPeriod) ::ₘ S) v y r) : Ticked (t ::ₘ S) v x r := by
  have hnew : ¬ (taskTimer (v + kTaskTimerPeriod)).timeout ≤ v := UInt64.not_le.mpr hlater
  obtain ⟨L, hL, hsorted, hfilter⟩ := h.sent
  rw [Multiset.filter_cons_of_neg S fun hc => hnew hc.1] at hfilter
  refine ⟨h.tick, ⟨L, by rw [hL, hsent], hsorted, ?_⟩, ?_, ?_⟩
  · rw [hfilter, Multiset.filter_cons_of_neg S fun hc => hc.2 hk]
  · rw [h.items, Multiset.filter_cons_of_pos S hlater, Multiset.filter_cons_of_neg S fun hc => hnew hc.1,
      Multiset.filter_cons_of_neg S (UInt64.not_lt.mpr ht), Multiset.filter_cons_of_pos S ⟨ht, hk⟩, Multiset.map_cons,
      Multiset.cons_add, Multiset.add_cons]
  · rw [h.taskTimerTimeout, hflag]
    exact iff_of_true (.inl rfl) (.inr ⟨t, Multiset.mem_cons_self t S, ht, hk⟩)

/-- **The loop of `Tick`** ends, as long as some timer lies in the future and the counter does not run
over. The induction is on the number of timers that have timed out. -/
theorem returns_ticked {k : ℕ} (hS : P.items x.manager.timers = S) (hv : x.manager.tick = v)
    (hk : (S.filter fun t => t.timeout ≤ v).card = k) (hfuture : ∃ t ∈ S, v < t.timeout)
    (hlater : v < v + kTaskTimerPeriod) : ∃ r, Returns tickRound x r ∧ Ticked S v x r := by
  induction k using Nat.strong_induction_on generalizing x S with
  | _ k ih =>
    obtain ⟨b, hb, hbv⟩ := hfuture
    obtain ⟨t, htop⟩ := P.exists_top (hS ▸ hb : b ∈ P.items x.manager.timers)
    have hfirst : ∀ b ∈ S, t.timeout ≤ b.timeout := fun b hb => UInt64.not_lt.mp (P.top_first _ t htop b (hS ▸ hb))
    by_cases ht : v < t.timeout
    · have hall : ∀ b ∈ S, v < b.timeout := fun b hb => UInt64.lt_of_lt_of_le ht (hfirst b hb)
      exact ⟨x, .done (tickRound_done htop (hv ▸ ht)), ticked_future hS hv hall⟩
    · have htv : t.timeout ≤ v := UInt64.not_lt.mp ht
      have hpop := P.items_top _ t htop
      rw [hS] at hpop
      subst hpop
      have hbig : b ∈ P.items (P.pop x.manager.timers) := by
        rcases Multiset.mem_cons.mp hb with rfl | hb
        · exact absurd hbv ht
        · exact hb
      rw [Multiset.filter_cons_of_pos (p := fun t : Timer => t.timeout ≤ v) _ htv, Multiset.card_cons] at hk
      by_cases htask : t.IsTaskTimer
      · have hround := tickRound_task htop (hv ▸ ht) htask
        generalize hy : Ticking.mk ⟨x.manager.tick, P.push (P.pop x.manager.timers)
          (taskTimer (x.manager.tick + kTaskTimerPeriod))⟩ true x.sent = y at hround
        have hitems : P.items y.manager.timers =
            taskTimer (v + kTaskTimerPeriod) ::ₘ P.items (P.pop x.manager.timers) := by
          rw [← hy, ← hv]
          exact P.items_push _ _
        have hcard : ((taskTimer (v + kTaskTimerPeriod) ::ₘ P.items (P.pop x.manager.timers)).filter
            fun t => t.timeout ≤ v).card = k - 1 := by
          rw [Multiset.filter_cons_of_neg (p := fun t : Timer => t.timeout ≤ v) _ (UInt64.not_le.mpr hlater)]
          omega
        obtain ⟨r, hr, hticked⟩ := ih (k - 1) (by omega) hitems (hy ▸ hv) hcard ⟨b, Multiset.mem_cons_of_mem hbig, hbv⟩
        exact ⟨r, .goOn hround hr, hticked.task htv htask hlater (by rw [← hy]) (by rw [← hy])⟩
      · have hround := tickRound_send htop (hv ▸ ht) htask
        generalize hy :
          Ticking.mk ⟨x.manager.tick, P.pop x.manager.timers⟩ x.taskTimerTimeout (x.sent ++ [t.message]) = y
          at hround
        have hitems : P.items y.manager.timers = P.items (P.pop x.manager.timers) := by rw [← hy]
        obtain ⟨r, hr, hticked⟩ := ih (k - 1) (by omega) hitems (hy ▸ hv) (by omega) ⟨b, hbig, hbv⟩
        exact ⟨r, .goOn hround hr, hticked.send htv htask (fun b hb => hfirst b (Multiset.mem_cons_of_mem hb))
          (by rw [← hy]) (by rw [← hy])⟩

/-- **`Tick`** returns, and what it returns is determined as far as the timers determine it. -/
theorem tick_spec {m : TimerManager P} (hS : P.items m.timers = S) (hfuture : ∃ t ∈ S, m.tick + 1 < t.timeout)
    (hlater : m.tick + 1 < m.tick + 1 + kTaskTimerPeriod) :
    (∃ r, m.Tick r) ∧ ∀ r, m.Tick r → Ticked S (m.tick + 1) ⟨⟨m.tick + 1, m.timers⟩, false, []⟩ r := by
  obtain ⟨r, hr, hticked⟩ := returns_ticked (x := ⟨⟨m.tick + 1, m.timers⟩, false, []⟩) hS rfl rfl hfuture hlater
  refine ⟨⟨r, hr⟩, fun r' hr' => ?_⟩
  rw [hr'.unique hr]
  exact hticked

/-- Past the end of the counter `Tick` does not return: the timer for switching tasks is set to a tick that
has been, and expires again. -/
theorem not_returns {r : Ticking P} (hwrap : x.manager.tick + kTaskTimerPeriod ≤ x.manager.tick)
    (hdue : ∃ t ∈ P.items x.manager.timers, t.timeout ≤ x.manager.tick ∧ t.IsTaskTimer) : ¬ Returns tickRound x r := by
  intro hr
  induction hr with
  | @done x r hround =>
    obtain ⟨b, hb, hbv, -⟩ := hdue
    obtain ⟨t, htop⟩ := P.exists_top hb
    have htv : ¬ x.manager.tick < t.timeout := fun hc =>
      P.top_first _ t htop b hb (UInt64.lt_of_le_of_lt hbv hc)
    by_cases htask : t.IsTaskTimer
    · rw [tickRound_task htop htv htask] at hround
      cases hround
    · rw [tickRound_send htop htv htask] at hround
      cases hround
  | @goOn x y r hround _ ih =>
    obtain ⟨b, hb, hbv, hbtask⟩ := hdue
    obtain ⟨t, htop⟩ := P.exists_top hb
    have htv : ¬ x.manager.tick < t.timeout := fun hc =>
      P.top_first _ t htop b hb (UInt64.lt_of_le_of_lt hbv hc)
    by_cases htask : t.IsTaskTimer
    · rw [tickRound_task htop htv htask] at hround
      cases hround
      refine ih hwrap ⟨taskTimer (x.manager.tick + kTaskTimerPeriod), ?_, hwrap, rfl⟩
      show _ ∈ P.items (P.push _ _)
      rw [P.items_push]
      exact Multiset.mem_cons_self _ _
    · rw [tickRound_send htop htv htask] at hround
      cases hround
      refine ih hwrap ⟨b, ?_, hbv, hbtask⟩
      rw [P.items_top _ t htop] at hb
      rcases Multiset.mem_cons.mp hb with rfl | hb
      · exact absurd hbtask htask
      · exact hb

end TimerManager

end DuvuvurKernel
