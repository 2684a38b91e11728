import DuvuvurKernel.Lib.Queues
import DuvuvurKernel.Task.Manager
import Mathlib.Tactic

/-!
# The run queues

The four run queues and their summary (`current_level_`, `level_changed_`) are kept
consistent by every operation of the task manager. `QueueInv` says what consistent is:
the queues hold the running tasks, each at its own level; the current queue is not
empty; unless `level_changed_` is set, the queues above it are empty. `SchedulerInv`
adds that the processor runs the current task. `QueueInv` alone holds inside `Finish`,
between taking the finished task off its queue and switching away from it.

Each operation has one lemma, `*_spec`: it is defined, it keeps the invariant, and it
changes just what is listed.
-/

namespace DuvuvurKernel

namespace Task

/-- The new state of a task that goes to sleep. -/
def asleep (o : Task) : Task := { o with running := false }

/-- The new state of a task that is woken up at a level, or at its own. -/
def awake (o : Task) (level : ℤ) : Task :=
  { o with running := true, level := if level < 0 then o.level else level.toNat }

@[simp] theorem awake_natCast (o : Task) (lv : ℕ) : o.awake lv = { o with running := true, level := lv } := by
  rw [awake, if_neg (by omega), Int.toNat_natCast]

theorem awake_of_running {o : Task} (hr : o.running = true) {level : ℤ}
    (h : level < 0 ∨ level = o.level) : o.awake level = o := by
  obtain ⟨l, r, ms⟩ := o
  simp only at hr h
  subst hr
  rcases h with h | rfl
  · simp [awake, h]
  · simp [awake]

end Task

namespace TaskManager

open Lib.Queues

variable {m m' : TaskManager} {t : TaskID} {lv : ℕ}

/-! ### What the small updates leave alone -/

@[simp] theorem setObj_tasks (o : Task) : (m.setObj t o).tasks = m.tasks := rfl
@[simp] theorem setObj_running (o : Task) : (m.setObj t o).running = m.running := rfl
@[simp] theorem setObj_obj (o : Task) : (m.setObj t o).obj = Function.update m.obj t o := rfl
@[simp] theorem setObj_currentTask (o : Task) : (m.setObj t o).currentTask = m.currentTask := rfl
@[simp] theorem setQueue_tasks (q : List TaskID) : (m.setQueue lv q).tasks = m.tasks := rfl
@[simp] theorem setQueue_obj (q : List TaskID) : (m.setQueue lv q).obj = m.obj := rfl
@[simp] theorem setQueue_running (q : List TaskID) :
    (m.setQueue lv q).running = Function.update m.running lv q := rfl

/-! ### The invariant -/

/-- Where a task stands: in the queue of its level if it exists and runs. -/
def place (m : TaskManager) (t : TaskID) : Option ℕ :=
  if t ∈ m.tasks ∧ (m.obj t).running = true then some (m.obj t).level else none

/-- The summary of the queues: unless `level_changed_` is set, the queues above the current
level are empty. -/
def Summary (m : TaskManager) : Prop :=
  m.levelChanged = true ∨ ∀ lv, m.currentLevel < lv → m.running lv = []

/-- The queues are consistent with the tasks and with their summary. -/
structure QueueInv (m : TaskManager) : Prop where
  /-- The queues hold the running tasks, each at its level. -/
  placed : Placed m.running m.place
  /-- No task is owned twice. -/
  nodup : m.tasks.Nodup
  /-- IDs are given out in order. -/
  fresh : ∀ t ∈ m.tasks, t ≤ m.latestID
  /-- Levels are levels. -/
  level_le : ∀ t ∈ m.tasks, (m.obj t).level ≤ kMaxLevel
  /-- The current level is a level. -/
  current_le : m.currentLevel ≤ kMaxLevel
  /-- The current queue is not empty. -/
  nonempty : m.running m.currentLevel ≠ []
  /-- The summary. -/
  summary : m.Summary
  /-- The idle task exists and runs. -/
  idle : m.place idle ≠ none
  /-- A waiter exists. -/
  waiter : ∀ id w, m.finishWaiter id = some w → w ∈ m.tasks

/-- The queues are consistent, and the processor runs the current task. -/
structure SchedulerInv (m : TaskManager) : Prop extends QueueInv m where
  /-- The current task has the processor. -/
  cpu : m.currentTask = some m.cpu

/-- The current task heads the highest queue that is not empty. -/
def HeadsHighest (m : TaskManager) : Prop :=
  m.running m.currentLevel ≠ [] ∧ ∀ lv, m.currentLevel < lv → m.running lv = []

/-! ### Where tasks stand -/

theorem place_eq_some (h : t ∈ m.tasks) (hr : (m.obj t).running = true) :
    m.place t = some (m.obj t).level := if_pos ⟨h, hr⟩

theorem place_eq_none (hr : (m.obj t).running = false) : m.place t = none :=
  if_neg fun h => by rw [hr] at h; exact absurd h.2 (by decide)

theorem mem_of_place (h : m.place t = some lv) :
    t ∈ m.tasks ∧ (m.obj t).running = true ∧ (m.obj t).level = lv := by
  unfold place at h
  split_ifs at h with hp
  exact ⟨hp.1, hp.2, Option.some.inj h⟩

/-- Changing one task moves at most that task. -/
theorem place_of_update (ht : m'.tasks = m.tasks) {o : Task} (ho : m'.obj = Function.update m.obj t o) :
    m'.place =
      Function.update m.place t (if t ∈ m.tasks ∧ o.running = true then some o.level else none) := by
  funext u
  by_cases hu : u = t
  · subst hu; simp [place, ht, ho]
  · simp [place, ht, ho, Function.update_of_ne hu]

theorem place_of_asleep (ht : m'.tasks = m.tasks) (ho : m'.obj = Function.update m.obj t (m.obj t).asleep) :
    m'.place = Function.update m.place t none := by
  rw [place_of_update ht ho]
  simp [Task.asleep]

theorem idle_of_asleep (h : m.place idle ≠ none) (hi : t ≠ idle) (ht : m'.tasks = m.tasks)
    (ho : m'.obj = Function.update m.obj t (m.obj t).asleep) : m'.place idle ≠ none := by
  rw [place_of_asleep ht ho, Function.update_of_ne hi.symm]
  exact h

theorem place_of_running (ht : m'.tasks = m.tasks) {o : Task} (ho : m'.obj = Function.update m.obj t o)
    (hm : t ∈ m.tasks) (hr : o.running = true) : m'.place = Function.update m.place t (some o.level) := by
  rw [place_of_update ht ho, if_pos ⟨hm, hr⟩]

theorem QueueInv.exists_front (h : m.QueueInv) :
    ∃ t rest, m.running m.currentLevel = t :: rest ∧ m.currentTask = some t ∧
      m.place t = some m.currentLevel := by
  obtain ⟨t, rest, hq⟩ := List.exists_cons_of_ne_nil h.nonempty
  exact ⟨t, rest, hq, by rw [currentTask, hq]; rfl, h.placed.place_of_cons hq⟩

theorem restoreContext_eq (h : m.currentTask = some t) : m.restoreContext = some { m with cpu := t } := by
  rw [restoreContext, h]; rfl

/-- The task that has the processor exists. -/
theorem SchedulerInv.cpu_mem (h : m.SchedulerInv) : m.cpu ∈ m.tasks := by
  obtain ⟨front, -, -, hcur, hpl⟩ := h.exists_front
  obtain rfl : front = m.cpu := Option.some.inj (hcur.symm.trans h.cpu)
  exact (mem_of_place hpl).1

/-! ### Rotation -/

/-- The search for the highest queue that is not empty finds it. -/
theorem highestLevel_spec (q : ℕ → List TaskID) (current n : ℕ) (h : ∃ lv ≤ n, q lv ≠ []) :
    highestLevel q current n ≤ n ∧ q (highestLevel q current n) ≠ [] ∧
      ∀ lv, highestLevel q current n < lv → lv ≤ n → q lv = [] := by
  induction n with
  | zero =>
    obtain ⟨lv, hle, hne⟩ := h
    obtain rfl : lv = 0 := by omega
    simp only [highestLevel, if_neg hne]
    exact ⟨le_rfl, hne, fun lv h1 h2 => by omega⟩
  | succ n ih =>
    by_cases hq : q (n + 1) = []
    · simp only [highestLevel, if_pos hq]
      have hex : ∃ lv ≤ n, q lv ≠ [] := by
        obtain ⟨lv, hle, hne⟩ := h
        refine ⟨lv, ?_, hne⟩
        rcases Nat.lt_or_ge n lv with hlt | hge
        · obtain rfl : lv = n + 1 := by omega
          exact absurd hq hne
        · exact hge
      obtain ⟨h1, h2, h3⟩ := ih hex
      refine ⟨by omega, h2, fun lv hlt hle => ?_⟩
      rcases Nat.lt_or_ge n lv with hn | hn
      · obtain rfl : lv = n + 1 := by omega
        exact hq
      · exact h3 lv hlt hn
    · simp only [highestLevel, if_neg hq]
      exact ⟨le_rfl, hq, fun lv h1 h2 => by omega⟩

/-- **Rotation**, over any placement of the tasks: the front of the current queue goes to the
back, or leaves; the new current level is the highest whose queue is not empty. When the
task leaves, another must stand somewhere. -/
theorem rotateCurrentRunQueue_spec {pl : TaskID → Option ℕ} (hp : Placed m.running pl)
    (hle : ∀ u lv, pl u = some lv → lv ≤ kMaxLevel) (hs : m.Summary)
    (ht : m.currentTask = some t) (currentSleep : Bool)
    (hne : currentSleep = true → ∃ u, u ≠ t ∧ pl u ≠ none) :
    ∃ r c, m.rotateCurrentRunQueue currentSleep =
        some (t, { m with running := r, currentLevel := c, levelChanged := false }) ∧
      Placed r (if currentSleep then Function.update pl t none else pl) ∧
      c ≤ kMaxLevel ∧ r c ≠ [] ∧ ∀ lv, c < lv → r lv = [] := by
  obtain ⟨rest, hq⟩ : ∃ rest, m.running m.currentLevel = t :: rest := by
    rw [currentTask, List.head?_eq_some_iff] at ht
    exact ht
  have hcur : m.currentLevel ≤ kMaxLevel := hle t _ (hp.place_of_cons hq)
  generalize hq' : (if currentSleep then rest else rest ++ [t]) = q'
  have hp' : Placed (Function.update m.running m.currentLevel q')
      (if currentSleep then Function.update pl t none else pl) := by
    cases currentSleep with
    | true => simp only [if_true] at hq' ⊢; subst hq'; exact hp.popFront hq
    | false => simp only [Bool.false_eq_true, if_false] at hq' ⊢; subst hq'; exact hp.rotate hq
  have hnil : ∀ lv, kMaxLevel < lv → Function.update m.running m.currentLevel q' lv = [] := by
    intro lv hlv
    rw [Function.update_of_ne (by omega), List.eq_nil_iff_forall_not_mem]
    intro u hu
    exact absurd (hle u lv ((hp.mem_iff _ _).mp hu)) (by omega)
  by_cases hc : (m.levelChanged || q'.isEmpty) = true
  · -- the summary is recomputed
    have hex : ∃ lv ≤ kMaxLevel, Function.update m.running m.currentLevel q' lv ≠ [] := by
      cases currentSleep with
      | false =>
        refine ⟨m.currentLevel, hcur, ?_⟩
        simp only [Bool.false_eq_true, if_false] at hq'
        rw [Function.update_self, ← hq']
        simp
      | true =>
        obtain ⟨u, hut, hu⟩ := hne rfl
        obtain ⟨lv, hlv⟩ := Option.ne_none_iff_exists'.mp hu
        refine ⟨lv, hle u lv hlv, List.ne_nil_of_mem (a := u) ((hp'.mem_iff _ _).mpr ?_)⟩
        rw [if_pos rfl, Function.update_of_ne hut]
        exact hlv
    obtain ⟨h1, h2, h3⟩ := highestLevel_spec _ m.currentLevel kMaxLevel hex
    refine ⟨_, _, ?_, hp', h1, h2, fun lv hlv => ?_⟩
    · simp only [rotateCurrentRunQueue, hq, hq', hc, if_true, setQueue]
    · rcases Nat.lt_or_ge kMaxLevel lv with hn | hn
      · exact hnil lv hn
      · exact h3 lv hlv hn
  · -- the current queue keeps a task, and the queues above it were empty
    simp only [Bool.or_eq_true, not_or, Bool.not_eq_true, List.isEmpty_eq_false_iff] at hc
    refine ⟨Function.update m.running m.currentLevel q', m.currentLevel, ?_, hp', hcur, ?_, fun lv hlv => ?_⟩
    · simp [rotateCurrentRunQueue, hq, hq', hc.1, hc.2, setQueue]
    · rw [Function.update_self]
      exact hc.2
    · rw [Function.update_of_ne (by omega)]
      exact (hs.resolve_left (by rw [hc.1]; decide)) lv hlv

/-! ### The operations -/

/-- What only an operation that makes or ends a task changes. -/
structure SameTasks (m m' : TaskManager) : Prop where
  tasks : m'.tasks = m.tasks
  latestID : m'.latestID = m.latestID
  finishTasks : m'.finishTasks = m.finishTasks
  finishWaiter : m'.finishWaiter = m.finishWaiter

theorem SameTasks.refl (m : TaskManager) : SameTasks m m := ⟨rfl, rfl, rfl, rfl⟩

/-- What is left of the invariant to prove for an operation that makes or ends no task. -/
theorem QueueInv.of_sameTasks (h : m.QueueInv) (hst : SameTasks m m')
    (hp : Placed m'.running m'.place) (hl : ∀ u ∈ m.tasks, (m'.obj u).level ≤ kMaxLevel)
    (hc : m'.currentLevel ≤ kMaxLevel) (hne : m'.running m'.currentLevel ≠ []) (hs : m'.Summary)
    (hi : m'.place TaskManager.idle ≠ none) : m'.QueueInv where
  placed := hp
  nodup := by rw [hst.tasks]; exact h.nodup
  fresh := by rw [hst.tasks, hst.latestID]; exact h.fresh
  level_le := by rw [hst.tasks]; exact hl
  current_le := hc
  nonempty := hne
  summary := hs
  idle := hi
  waiter := by rw [hst.tasks, hst.finishWaiter]; exact h.waiter

theorem update_level_le (h : m.QueueInv) {o : Task} (ho : o.level ≤ kMaxLevel) (u : TaskID)
    (hu : u ∈ m.tasks) : (Function.update m.obj t o u).level ≤ kMaxLevel := by
  by_cases hut : u = t
  · subst hut; rwa [Function.update_self]
  · rw [Function.update_of_ne hut]; exact h.level_le u hu

/-- A queue that is not empty and gets another element behind keeps its front. -/
theorem head?_update_append {q : ℕ → List TaskID} {c : ℕ} (hne : q c ≠ []) (lv : ℕ) (l : List TaskID) :
    (Function.update q lv (q lv ++ l) c).head? = (q c).head? := by
  by_cases hc : c = lv
  · subst hc; rw [Function.update_self, List.head?_append_of_ne_nil _ hne]
  · rw [Function.update_of_ne hc]

/-- `Sleep`. -/
theorem sleep_spec (h : m.SchedulerInv) (ht : t ∈ m.tasks) (hi : t ≠ idle) :
    ∃ m', m.sleep t = some m' ∧ m'.SchedulerInv ∧ SameTasks m m' ∧
      m'.obj = Function.update m.obj t (m.obj t).asleep := by
  cases hr : (m.obj t).running with
  | false =>
    refine ⟨m, by simp [sleep, ht, hr, guard], h, SameTasks.refl m, ?_⟩
    have : (m.obj t).asleep = m.obj t := by
      rw [Task.asleep, ← hr]
    rw [this, Function.update_eq_self]
  | true =>
    have hpl := place_eq_some ht hr
    by_cases hf : t = m.cpu
    · -- the task sleeps itself: the next task gets the processor
      have hcur : m.currentTask = some t := by rw [h.cpu, hf]
      obtain ⟨r, c, hrot, hp, hc, hne, habove⟩ := rotateCurrentRunQueue_spec (m := m.setObj t (m.obj t).asleep)
        (t := t) h.placed (fun u lv hu => by
          obtain ⟨hm, -, rfl⟩ := mem_of_place hu
          exact h.level_le u hm) h.summary hcur true (fun _ => ⟨idle, hi.symm, h.idle⟩)
      obtain ⟨u, hu⟩ : ∃ u, (r c).head? = some u := by
        obtain ⟨u, l, hq⟩ := List.exists_cons_of_ne_nil hne
        exact ⟨u, by rw [hq]; rfl⟩
      refine ⟨{ m.setObj t (m.obj t).asleep with running := r, currentLevel := c, levelChanged := false,
                                                 cpu := u }, ?_, ⟨?_, hu⟩, ⟨rfl, rfl, rfl, rfl⟩, rfl⟩
      · have hrot' : (m.setRunning t false).rotateCurrentRunQueue true = _ := hrot
        have hcur' : (m.setRunning t false).currentTask = some t := hcur
        simp only [sleep, guard, ht, hr, hcur', hrot', if_true, Bool.not_true, Bool.false_eq_true, if_false,
          Option.pure_def, Option.bind_eq_bind, Option.bind_some]
        exact restoreContext_eq hu
      · refine h.toQueueInv.of_sameTasks ⟨rfl, rfl, rfl, rfl⟩ ?_ (update_level_le h.toQueueInv (h.level_le t ht))
          hc hne (Or.inr habove) ?_
        · rw [if_pos rfl] at hp
          exact hp.congr_place (congrFun (place_of_asleep rfl rfl))
        · exact idle_of_asleep h.idle hi rfl rfl
    · -- another task is put to sleep: it leaves its queue
      have hcur : (m.setRunning t false).currentTask = some m.cpu := h.cpu
      generalize hq : (m.running (m.obj t).level).filter (· != t) = q
      have hfront : (Function.update m.running (m.obj t).level q m.currentLevel).head? = some m.cpu := by
        by_cases hl : m.currentLevel = (m.obj t).level
        · rw [← hl, Function.update_self, ← hq, ← hl]
          exact head?_filter_ne h.cpu (Ne.symm hf)
        · rw [Function.update_of_ne hl]
          exact h.cpu
      refine ⟨{ m with obj := Function.update m.obj t (m.obj t).asleep,
                       running := Function.update m.running (m.obj t).level q },
        ?_, ⟨?_, hfront⟩, ⟨rfl, rfl, rfl, rfl⟩, rfl⟩
      · simp only [sleep, guard, ht, hr, hcur, hf, if_true, if_false, Bool.not_true, Bool.false_eq_true,
          Option.pure_def, Option.bind_eq_bind, Option.bind_some]
        simp [eraseFrom, setQueue, setRunning, setObj, Task.asleep, hq]
      · refine h.toQueueInv.of_sameTasks ⟨rfl, rfl, rfl, rfl⟩ ?_ (update_level_le h.toQueueInv (h.level_le t ht))
          h.current_le (fun hnil => ?_) ?_ (idle_of_asleep h.idle hi rfl rfl)
        · exact (hq ▸ h.placed.erase hpl).congr_place (congrFun (place_of_asleep rfl rfl))
        · simp only at hnil
          rw [hnil] at hfront
          cases hfront
        · refine h.summary.imp id fun hs lv hlv => ?_
          by_cases hl : lv = (m.obj t).level
          · subst hl; simp only [Function.update_self, ← hq, hs _ hlv, List.filter_nil]
          · simp only [Function.update_of_ne hl]; exact hs lv hlv

/-- A running task that is woken up at no level or at its own stays as it is. -/
theorem awake_eq_self (hr : (m.obj t).running = true) {level : ℤ} (hl : level < 0 ∨ level = (m.obj t).level) :
    Function.update m.obj t ((m.obj t).awake level) = m.obj := by
  rw [Task.awake_of_running hr hl, Function.update_eq_self]

/-- What a level change of a running task leaves to prove: its new place, and the queues. -/
theorem QueueInv.of_level (h : m.QueueInv) (ht : t ∈ m.tasks) {o : Task} (hr : o.running = true)
    (hle : o.level ≤ kMaxLevel) (hst : SameTasks m m') (ho : m'.obj = Function.update m.obj t o)
    (hp : Placed m'.running (Function.update m.place t (some o.level))) (hc : m'.currentLevel ≤ kMaxLevel)
    (hne : m'.running m'.currentLevel ≠ []) (hs : m'.Summary) : m'.QueueInv := by
  have hpl : m'.place = Function.update m.place t (some o.level) := place_of_running hst.tasks ho ht hr
  refine h.of_sameTasks hst (hp.congr_place (congrFun hpl)) (fun u hu => ?_) hc hne hs ?_
  · rw [ho]; exact update_level_le h hle u hu
  · rw [hpl]
    by_cases hi : TaskManager.idle = t
    · rw [hi, Function.update_self]; simp
    · rw [Function.update_of_ne hi]; exact h.idle

/-- The current task changes its own level: it goes on at the front of its new queue, which
becomes the current one. -/
theorem changeLevelRunning_self (h : m.QueueInv) (ht : t ∈ m.tasks) (hr : (m.obj t).running = true)
    (hcur : m.currentTask = some t) (hle : lv ≤ kMaxLevel) (hne : lv ≠ (m.obj t).level) :
    ∃ m', m.changeLevelRunning t lv = some m' ∧ m'.QueueInv ∧ SameTasks m m' ∧
      m'.currentTask = m.currentTask ∧ m'.cpu = m.cpu ∧
      m'.obj = Function.update m.obj t ((m.obj t).awake lv) := by
  obtain ⟨rest, hq⟩ : ∃ rest, m.running m.currentLevel = t :: rest := by
    rw [currentTask, List.head?_eq_some_iff] at hcur
    exact hcur
  have hl : (m.obj t).level = m.currentLevel :=
    Option.some.inj ((place_eq_some ht hr).symm.trans (h.placed.place_of_cons hq))
  have hlc : lv ≠ m.currentLevel := hl ▸ hne
  have hp := (h.placed.popFront hq).pushFront (a := t) (by simp) lv
  rw [Function.update_of_ne hlc, Function.update_idem] at hp
  refine ⟨{ m with obj := Function.update m.obj t ((m.obj t).awake lv),
                   running := Function.update (Function.update m.running m.currentLevel rest) lv
                     (t :: m.running lv),
                   currentLevel := lv, levelChanged := m.levelChanged || decide (lv < m.currentLevel) },
    ?_, ?_, ⟨rfl, rfl, rfl, rfl⟩, ?_, rfl, rfl⟩
  · have hnot : ¬((lv : ℤ) < 0 ∨ (lv : ℤ) = (m.obj t).level) := by omega
    simp only [changeLevelRunning, if_neg hnot, guard, Int.toNat_natCast, hle, hcur, if_true, Option.pure_def,
      Option.bind_eq_bind, Option.bind_some, ne_eq, not_true_eq_false, if_false]
    by_cases hlt : m.currentLevel ≤ lv
    · simp [setQueue, setLevel, setObj, hr, hq, hlc, hlt]
    · simp [setQueue, setLevel, setObj, hr, hq, hlc, hlt, Nat.lt_of_not_le hlt]
  · refine h.of_level ht (o := (m.obj t).awake lv) rfl (by simpa using hle) ⟨rfl, rfl, rfl, rfl⟩ rfl
      (by simpa using hp) hle (by simp) ?_
    -- a task that goes up leaves only queues above which were empty; one that goes down sets the flag
    rcases Nat.lt_or_ge lv m.currentLevel with hlt | hge
    · exact Or.inl (by simp [hlt])
    · refine h.summary.imp (fun hs => by simp [hs]) fun hs lv' hlv' => ?_
      simp only at hlv' ⊢
      rw [Function.update_of_ne (by omega), Function.update_of_ne (by omega)]
      exact hs lv' (by omega)
  · rw [hcur]; simp [currentTask]

/-- Another task changes level: it goes to the back of its new queue. -/
theorem changeLevelRunning_other (h : m.QueueInv) (ht : t ∈ m.tasks) (hr : (m.obj t).running = true)
    (hcur : m.currentTask ≠ some t) (hle : lv ≤ kMaxLevel) (hne : lv ≠ (m.obj t).level) :
    ∃ m', m.changeLevelRunning t lv = some m' ∧ m'.QueueInv ∧ SameTasks m m' ∧
      m'.currentTask = m.currentTask ∧ m'.cpu = m.cpu ∧
      m'.obj = Function.update m.obj t ((m.obj t).awake lv) := by
  obtain ⟨front, -, -, hfront, -⟩ := h.exists_front
  have hft : t ≠ front := fun he => hcur (by rw [hfront, he])
  have hp := (h.placed.erase (place_eq_some ht hr)).pushBack (a := t) (by simp) lv
  rw [Function.update_of_ne hne, Function.update_idem] at hp
  generalize hq : (m.running (m.obj t).level).filter (· != t) = q at hp
  have hhead : (Function.update (Function.update m.running (m.obj t).level q) lv (m.running lv ++ [t])
      m.currentLevel).head? = some front := by
    by_cases hc : m.currentLevel = lv
    · rw [hc, Function.update_self, List.head?_append_of_ne_nil _ (hc ▸ h.nonempty), ← hc]
      exact hfront
    · rw [Function.update_of_ne hc]
      by_cases hc' : m.currentLevel = (m.obj t).level
      · rw [hc', Function.update_self, ← hq, ← hc']
        exact head?_filter_ne hfront hft.symm
      · rw [Function.update_of_ne hc']
        exact hfront
  refine ⟨{ m with obj := Function.update m.obj t ((m.obj t).awake lv),
                   running := Function.update (Function.update m.running (m.obj t).level q) lv
                     (m.running lv ++ [t]),
                   levelChanged := m.levelChanged || decide (m.currentLevel < lv) },
    ?_, ?_, ⟨rfl, rfl, rfl, rfl⟩, hhead.trans hfront.symm, rfl, rfl⟩
  · have hnot : ¬((lv : ℤ) < 0 ∨ (lv : ℤ) = (m.obj t).level) := by omega
    simp only [changeLevelRunning, if_neg hnot, guard, Int.toNat_natCast, hle, hfront, if_true, Option.pure_def,
      Option.bind_eq_bind, Option.bind_some, ne_eq, hft, not_false_eq_true]
    simp [eraseFrom, setQueue, setLevel, setObj, hr, hq, hne]
  · refine h.of_level ht (o := (m.obj t).awake lv) rfl (by simpa using hle) ⟨rfl, rfl, rfl, rfl⟩ rfl
      (by simpa using hp) h.current_le (fun hnil => ?_) ?_
    · simp only at hnil
      rw [hnil] at hhead
      cases hhead
    · rcases Nat.lt_or_ge m.currentLevel lv with hlt | hge
      · exact Or.inl (by simp [hlt])
      · refine h.summary.imp (fun hs => by simp [hs]) fun hs lv' hlv' => ?_
        simp only at hlv' ⊢
        rw [Function.update_of_ne (by omega)]
        by_cases hl : lv' = (m.obj t).level
        · rw [hl, Function.update_self, ← hq, ← hl, hs lv' hlv', List.filter_nil]
        · rw [Function.update_of_ne hl]; exact hs lv' hlv'

/-- `ChangeLevelRunning`. -/
theorem changeLevelRunning_spec (h : m.QueueInv) (ht : t ∈ m.tasks) (hr : (m.obj t).running = true)
    {level : ℤ} (hle : level ≤ kMaxLevel) :
    ∃ m', m.changeLevelRunning t level = some m' ∧ m'.QueueInv ∧ SameTasks m m' ∧
      m'.currentTask = m.currentTask ∧ m'.cpu = m.cpu ∧
      m'.obj = Function.update m.obj t ((m.obj t).awake level) := by
  by_cases hl : level < 0 ∨ level = (m.obj t).level
  · exact ⟨m, by simp only [changeLevelRunning, if_pos hl], h, SameTasks.refl m, rfl, rfl, (awake_eq_self hr hl).symm⟩
  obtain ⟨hpos, hne⟩ := not_or.mp hl
  obtain ⟨lv, rfl⟩ : ∃ lv : ℕ, level = lv := ⟨level.toNat, by omega⟩
  by_cases hcur : m.currentTask = some t
  · exact changeLevelRunning_self h ht hr hcur (by omega) (by omega)
  · exact changeLevelRunning_other h ht hr hcur (by omega) (by omega)

/-- `Wakeup`. -/
theorem wakeup_spec (h : m.QueueInv) (ht : t ∈ m.tasks) (level : ℤ) (hle : level ≤ kMaxLevel) :
    ∃ m', m.wakeup t level = some m' ∧ m'.QueueInv ∧ SameTasks m m' ∧
      m'.currentTask = m.currentTask ∧ m'.cpu = m.cpu ∧
      m'.obj = Function.update m.obj t ((m.obj t).awake level) := by
  cases hr : (m.obj t).running with
  | true =>
    obtain ⟨m', h1, h2⟩ := changeLevelRunning_spec h ht hr hle
    exact ⟨m', by simpa [wakeup, ht, hr, guard] using h1, h2⟩
  | false =>
    obtain ⟨lv, hlv⟩ : ∃ lv, lv = if level < 0 then (m.obj t).level else level.toNat := ⟨_, rfl⟩
    have hlv_le : lv ≤ kMaxLevel := by
      rw [hlv]
      split_ifs
      · exact h.level_le t ht
      · omega
    have hp := h.placed.pushBack (place_eq_none hr) lv
    have hhead := head?_update_append h.nonempty lv [t]
    refine ⟨{ m with obj := Function.update m.obj t ((m.obj t).awake level),
                     running := Function.update m.running lv (m.running lv ++ [t]),
                     levelChanged := m.levelChanged || decide (m.currentLevel < lv) },
      ?_, ?_, ⟨rfl, rfl, rfl, rfl⟩, hhead, rfl, rfl⟩
    · simp only [wakeup, guard, ht, hr, ← hlv, hlv_le, if_true, Bool.false_eq_true, if_false,
        Option.pure_def, Option.bind_eq_bind, Option.bind_some]
      simp [setQueue, setLevel, setRunning, setObj, Task.awake, hlv]
    · refine h.of_level ht (o := (m.obj t).awake level) rfl (by simpa [Task.awake, ← hlv] using hlv_le)
        ⟨rfl, rfl, rfl, rfl⟩ rfl (by simpa [Task.awake, ← hlv] using hp) h.current_le (fun hnil => ?_) ?_
      · simp only at hnil
        rw [hnil, List.head?_nil, eq_comm, List.head?_eq_none_iff] at hhead
        exact h.nonempty hhead
      · rcases Nat.lt_or_ge m.currentLevel lv with hlt | hge
        · exact Or.inl (by simp [hlt])
        · refine h.summary.imp (fun hs => by simp [hs]) fun hs lv' hlv' => ?_
          simp only at hlv' ⊢
          rw [Function.update_of_ne (by omega)]
          exact hs lv' hlv'

/-- `Task::SendMessage` wakes its task up. -/
theorem sendMessageTo_spec (h : m.QueueInv) (ht : t ∈ m.tasks) (msg : Message) :
    ∃ m', m.sendMessageTo t msg = some m' ∧ m'.QueueInv ∧ SameTasks m m' ∧
      m'.currentTask = m.currentTask ∧ m'.cpu = m.cpu ∧
      m'.obj = Function.update m.obj t { m.obj t with running := true, msgs := (m.obj t).msgs ++ [msg] } := by
  have hobj : ∀ u, ((Function.update m.obj t { m.obj t with msgs := (m.obj t).msgs ++ [msg] } u).running =
      (m.obj u).running) ∧ ((Function.update m.obj t { m.obj t with msgs := (m.obj t).msgs ++ [msg] } u).level =
      (m.obj u).level) := by
    intro u
    by_cases hu : u = t
    · subst hu; simp
    · simp [Function.update_of_ne hu]
  have hpl : (m.setObj t { m.obj t with msgs := (m.obj t).msgs ++ [msg] }).place = m.place := by
    funext u
    simp only [place, setObj_obj, setObj_tasks, hobj]
  have h' : (m.setObj t { m.obj t with msgs := (m.obj t).msgs ++ [msg] }).QueueInv :=
    h.of_sameTasks ⟨rfl, rfl, rfl, rfl⟩ (h.placed.congr_place (congrFun hpl))
      (fun u hu => by rw [setObj_obj, (hobj u).2]; exact h.level_le u hu) h.current_le h.nonempty h.summary
      (by rw [hpl]; exact h.idle)
  obtain ⟨m', h1, h2, h3, h4, h5, h6⟩ := wakeup_spec h' ht (-1) (by decide)
  refine ⟨m', by simpa [sendMessageTo, ht, guard] using h1, h2, ⟨h3.1, h3.2, h3.3, h3.4⟩, h4, h5, ?_⟩
  rw [h6]
  simp [Task.awake]

/-- `SwitchTask`. -/
theorem switchTask_spec (h : m.SchedulerInv) :
    ∃ m', m.switchTask = some m' ∧ m'.SchedulerInv ∧ SameTasks m m' ∧ m'.obj = m.obj := by
  obtain ⟨r, c, hrot, hp, hc, hne, habove⟩ := rotateCurrentRunQueue_spec h.placed
    (fun u lv hu => by
      obtain ⟨hm, -, rfl⟩ := mem_of_place hu
      exact h.level_le u hm) h.summary h.cpu false (fun hf => by cases hf)
  obtain ⟨u, hu⟩ : ∃ u, (r c).head? = some u := by
    obtain ⟨u, l, hq⟩ := List.exists_cons_of_ne_nil hne
    exact ⟨u, by rw [hq]; rfl⟩
  refine ⟨{ m with running := r, currentLevel := c, levelChanged := false, cpu := u }, ?_, ⟨?_, hu⟩,
    ⟨rfl, rfl, rfl, rfl⟩, rfl⟩
  · have hcur : currentTask { m with running := r, currentLevel := c, levelChanged := false } = some u := hu
    simp only [switchTask, hrot, Option.bind_eq_bind, Option.bind_some, hcur]
    by_cases hcpu : u = m.cpu
    · rw [if_neg (by simp [hcpu]), hcpu]
    · rw [if_pos (by simp [hcpu]), restoreContext_eq hcur]
  · exact h.toQueueInv.of_sameTasks ⟨rfl, rfl, rfl, rfl⟩ hp h.level_le hc hne (Or.inr habove) h.idle

/-- `NewTask`: the new task exists and does not run. -/
theorem newTask_spec (h : m.SchedulerInv) : m.newTask.SchedulerInv := by
  have hnew : m.latestID + 1 ∉ m.tasks := fun hm =>
    Nat.not_succ_le_self _ (h.fresh _ hm)
  have hpl : m.newTask.place = m.place := by
    funext u
    by_cases hu : u = m.latestID + 1
    · subst hu; simp [place, newTask, hnew]
    · simp [place, newTask, hu]
  have hlevel : ∀ u ∈ m.newTask.tasks, (m.newTask.obj u).level ≤ kMaxLevel := by
    intro u hu
    by_cases he : u = m.latestID + 1
    · subst he; simp [newTask, kMaxLevel]
    · simp only [newTask, List.mem_append, List.mem_singleton, he, or_false] at hu
      simpa [newTask, he] using h.level_le u hu
  refine ⟨⟨h.placed.congr_place (congrFun hpl), ?_, ?_, hlevel, h.current_le, h.nonempty, h.summary,
    by rw [hpl]; exact h.idle, fun id w hw => ?_⟩, h.cpu⟩
  · simpa [newTask, List.nodup_append] using ⟨h.nodup, fun u hu he => hnew (he ▸ hu)⟩
  · intro u hu
    simp only [newTask, List.mem_append, List.mem_singleton] at hu ⊢
    rcases hu with hu | rfl
    · exact Nat.le_succ_of_le (h.fresh u hu)
    · exact le_rfl
  · exact List.mem_append_left _ (h.waiter id w hw)

/-- `Finish`, by a task no one takes for a waiter: the task is gone, its exit code is kept, its
waiter is woken up, and the next task gets the processor. -/
theorem finish_spec (h : m.SchedulerInv) (hi : m.cpu ≠ idle)
    (hw : ∀ id, m.finishWaiter id ≠ some m.cpu) (exitCode : ℤ) :
    ∃ m', m.finish exitCode = some m' ∧ m'.SchedulerInv ∧ m'.tasks = m.tasks.erase m.cpu ∧
      m'.latestID = m.latestID ∧ m'.finishTasks = Function.update m.finishTasks m.cpu (some exitCode) ∧
      m'.finishWaiter = Function.update m.finishWaiter m.cpu none ∧
      m'.obj = (match m.finishWaiter m.cpu with
        | some w => Function.update m.obj w ((m.obj w).awake (-1))
        | none => m.obj) := by
  obtain ⟨r, c, hrot, hp, hc, hne, habove⟩ := rotateCurrentRunQueue_spec h.placed
    (fun u lv hu => by
      obtain ⟨hm, -, rfl⟩ := mem_of_place hu
      exact h.level_le u hm) h.summary h.cpu true (fun _ => ⟨idle, hi.symm, h.idle⟩)
  have hmem := h.cpu_mem
  -- the state between the rotation and the wakeup of the waiter
  set m₁ : TaskManager := { m with running := r, currentLevel := c, levelChanged := false,
                                   tasks := m.tasks.erase m.cpu,
                                   finishTasks := Function.update m.finishTasks m.cpu (some exitCode),
                                   finishWaiter := Function.update m.finishWaiter m.cpu none } with hm₁
  have hpl : m₁.place = Function.update m.place m.cpu none := by
    funext u
    by_cases hu : u = m.cpu
    · subst hu; simp [place, m₁, h.nodup.mem_erase_iff]
    · simp [place, m₁, h.nodup.mem_erase_iff, hu]
  have hinv : m₁.QueueInv := by
    refine ⟨hp.congr_place (congrFun hpl), h.nodup.erase _, fun u hu => h.fresh u (List.mem_of_mem_erase hu),
      fun u hu => h.level_le u (List.mem_of_mem_erase hu), hc, hne, Or.inr habove, ?_, fun id w hid => ?_⟩
    · rw [hpl, Function.update_of_ne hi.symm]; exact h.idle
    · by_cases he : id = m.cpu
      · subst he; simp [m₁] at hid
      · simp only [m₁, Function.update_of_ne he] at hid
        rw [h.nodup.mem_erase_iff]
        exact ⟨fun hwc => hw id (hwc ▸ hid), h.waiter id w hid⟩
  obtain ⟨front, -, -, hfront, -⟩ := hinv.exists_front
  cases hwait : m.finishWaiter m.cpu with
  | none =>
    have hfw : Function.update m.finishWaiter m.cpu none = m.finishWaiter := by
      rw [← hwait, Function.update_eq_self]
    refine ⟨{ m₁ with cpu := front }, ?_, ⟨hinv.of_sameTasks ⟨rfl, rfl, rfl, rfl⟩ hinv.placed hinv.level_le
      hinv.current_le hinv.nonempty hinv.summary hinv.idle, hfront⟩, rfl, rfl, rfl, rfl, rfl⟩
    simp only [finish, hrot, guard, hmem, hwait, if_true, Option.pure_def, Option.bind_eq_bind, Option.bind_some]
    rw [hm₁, hfw]
    exact restoreContext_eq hfront
  | some w =>
    have hwmem : w ∈ m₁.tasks := by
      simp only [m₁, h.nodup.mem_erase_iff]
      exact ⟨fun hwc => hw m.cpu (hwc ▸ hwait), h.waiter m.cpu w hwait⟩
    obtain ⟨m₂, h1, h2, h3, h4, h5, h6⟩ := wakeup_spec hinv hwmem (-1) (by decide)
    have hfront₂ : m₂.currentTask = some front := h4.trans hfront
    refine ⟨{ m₂ with cpu := front }, ?_, ⟨h2.of_sameTasks ⟨rfl, rfl, rfl, rfl⟩ h2.placed h2.level_le
      h2.current_le h2.nonempty h2.summary h2.idle, hfront₂⟩, h3.tasks, h3.latestID, h3.finishTasks,
      h3.finishWaiter, h6⟩
    simp only [finish, hrot, guard, hmem, hwait, if_true, Option.pure_def, Option.bind_eq_bind, Option.bind_some]
    have h1' : wakeup { m with running := r, currentLevel := c, levelChanged := false,
                               tasks := m.tasks.erase m.cpu,
                               finishTasks := Function.update m.finishTasks m.cpu (some exitCode),
                               finishWaiter := Function.update m.finishWaiter m.cpu none } w (-1) = some m₂ := h1
    rw [h1', Option.bind_some, restoreContext_eq hfront₂]

/-- The constructor sets the invariant up. -/
theorem init_spec : init.SchedulerInv := by
  have hpl : init.place = Function.update (Function.update (fun _ => none) 1 (some kMaxLevel)) 2 (some 0) := by
    funext u
    by_cases h2 : u = 2
    · subst h2; rfl
    · by_cases h1 : u = 1
      · subst h1; rfl
      · rw [Function.update_of_ne h2, Function.update_of_ne h1]
        exact if_neg fun h => by
          rcases List.mem_cons.mp (show u ∈ [1, 2] from h.1) with h | h
          · exact h1 h
          · exact h2 (List.mem_singleton.mp h)
  have hempty : Placed (fun _ : ℕ => ([] : List TaskID)) (fun _ => none) :=
    ⟨fun _ => List.nodup_nil, fun _ _ => by simp⟩
  have hp := (hempty.pushBack (a := 1) rfl kMaxLevel).pushBack (a := 2) (by simp) 0
  refine ⟨⟨hp.congr_place (congrFun hpl), by decide, by decide, by decide, by decide, by decide,
    Or.inr fun lv hlv => ?_, by rw [hpl]; decide, fun _ _ h => by cases h⟩, by decide⟩
  show Function.update (Function.update (fun _ => ([] : List TaskID)) kMaxLevel [1]) 0 [2] lv = []
  have hlv' : kMaxLevel < lv := hlv
  rw [Function.update_of_ne (by omega), Function.update_of_ne (by omega)]

end TaskManager

end DuvuvurKernel
