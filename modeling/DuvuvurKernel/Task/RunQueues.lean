import DuvuvurKernel.Task.Scheduler

/-!
# Runs of the scheduler

Every sequence of operations of the task manager, from its constructor: tasks are
made, put to sleep, woken up, moved between levels and finished, and the timer
switches between them. The idle task is never put to sleep and never finishes. No
operation of such a sequence is undefined, and after each of them the run queues are
consistent (`SchedulerInv`, whose parts `runQueues` states on the queues themselves).
-/

namespace DuvuvurKernel.TaskManager

open Lib.Queues

/-- The calls of a sequence. A level change is a `wakeup` of a task that runs. -/
inductive Operation where
  | newTask
  | sleep (t : TaskID)
  | sleepByID (id : ℕ)
  | wakeup (t : TaskID) (level : ℤ)
  | wakeupByID (id : ℕ) (level : ℤ)
  | sendMessage (id : ℕ) (msg : Message)
  | finish (exitCode : ℤ)
  | switchTask

/-- The state after a call that may return an error, which changes nothing. -/
def settle (m : TaskManager) : Except Error TaskManager → TaskManager
  | .ok m' => m'
  | .error _ => m

/-- A call. -/
def step (m : TaskManager) : Operation → Option TaskManager
  | .newTask => some m.newTask
  | .sleep t => m.sleep t
  | .sleepByID id => (m.sleepByID id).map m.settle
  | .wakeup t level => m.wakeup t level
  | .wakeupByID id level => (m.wakeupByID id level).map m.settle
  | .sendMessage id msg => (m.sendMessage id msg).map m.settle
  | .finish exitCode => m.finish exitCode
  | .switchTask => m.switchTask

/-- The calls a caller may make: on tasks that exist, at levels `-1` and `0` to `kMaxLevel`,
and never putting the idle task to sleep or finishing it. -/
def Allowed (m : TaskManager) : Operation → Prop
  | .newTask => True
  | .sleep t => t ∈ m.tasks ∧ t ≠ idle
  | .sleepByID id => id ≠ idle
  | .wakeup t level => t ∈ m.tasks ∧ -1 ≤ level ∧ level ≤ kMaxLevel
  | .wakeupByID _ level => -1 ≤ level ∧ level ≤ kMaxLevel
  | .sendMessage _ _ => True
  | .finish _ => m.cpu ≠ idle
  | .switchTask => True

instance (m : TaskManager) (op : Operation) : Decidable (m.Allowed op) := by
  cases op <;> unfold Allowed <;> infer_instance

/-- The states of the sequences of allowed calls. -/
inductive Reachable : TaskManager → Prop where
  | init : Reachable TaskManager.init
  | step {m m' : TaskManager} (op : Operation) :
      Reachable m → m.Allowed op → m.step op = some m' → Reachable m'

variable {m : TaskManager}

/-- **A step**: an allowed call is defined and keeps the invariant. -/
theorem step_spec (h : m.SchedulerInv) (hw : ∀ id, m.finishWaiter id = none) (op : Operation)
    (ha : m.Allowed op) :
    ∃ m', m.step op = some m' ∧ m'.SchedulerInv ∧ ∀ id, m'.finishWaiter id = none := by
  -- a call that wakes up leaves the processor where it is
  have hawake : ∀ {m' : TaskManager}, m'.QueueInv → SameTasks m m' → m'.currentTask = m.currentTask →
      m'.cpu = m.cpu → m'.SchedulerInv ∧ ∀ id, m'.finishWaiter id = none :=
    fun h2 h3 h4 h5 => ⟨⟨h2, by rw [h4, h5]; exact h.cpu⟩, by rw [h3.finishWaiter]; exact hw⟩
  cases op with
  | newTask => exact ⟨_, rfl, newTask_spec h, hw⟩
  | sleep t =>
    obtain ⟨m', h1, h2, h3, -⟩ := sleep_spec h ha.1 ha.2
    exact ⟨m', h1, h2, by rw [h3.finishWaiter]; exact hw⟩
  | sleepByID id =>
    by_cases hid : id ∈ m.tasks
    · obtain ⟨m', h1, h2, h3, -⟩ := sleep_spec h hid ha
      exact ⟨m', by simp [step, sleepByID, hid, h1, settle], h2, by rw [h3.finishWaiter]; exact hw⟩
    · exact ⟨m, by simp [step, sleepByID, hid, settle], h, hw⟩
  | wakeup t level =>
    obtain ⟨m', h1, h2, h3, h4, h5, -⟩ := wakeup_spec h.toQueueInv ha.1 level ha.2.2
    exact ⟨m', h1, hawake h2 h3 h4 h5⟩
  | wakeupByID id level =>
    by_cases hid : id ∈ m.tasks
    · obtain ⟨m', h1, h2, h3, h4, h5, -⟩ := wakeup_spec h.toQueueInv hid level ha.2
      exact ⟨m', by simp [step, wakeupByID, hid, h1, settle], hawake h2 h3 h4 h5⟩
    · exact ⟨m, by simp [step, wakeupByID, hid, settle], h, hw⟩
  | sendMessage id msg =>
    by_cases hid : id ∈ m.tasks
    · obtain ⟨m', h1, h2, h3, h4, h5, -⟩ := sendMessageTo_spec h.toQueueInv hid msg
      exact ⟨m', by simp [step, sendMessage, hid, h1, settle], hawake h2 h3 h4 h5⟩
    · exact ⟨m, by simp [step, sendMessage, hid, settle], h, hw⟩
  | finish exitCode =>
    obtain ⟨m', h1, h2, -, -, -, h6, -⟩ := finish_spec h ha (fun id hid => by rw [hw] at hid; cases hid) exitCode
    refine ⟨m', h1, h2, fun id => ?_⟩
    rw [h6]
    by_cases he : id = m.cpu
    · rw [he, Function.update_self]
    · rw [Function.update_of_ne he]; exact hw id
  | switchTask =>
    obtain ⟨m', h1, h2, h3, -⟩ := switchTask_spec h
    exact ⟨m', h1, h2, by rw [h3.finishWaiter]; exact hw⟩

/-- **A run**: the invariant holds in every state reached. -/
theorem Reachable.inv (h : Reachable m) : m.SchedulerInv ∧ ∀ id, m.finishWaiter id = none := by
  induction h with
  | init => exact ⟨init_spec, fun _ => rfl⟩
  | step op _ ha hs ih =>
    obtain ⟨m', h1, h2⟩ := step_spec ih.1 ih.2 op ha
    rw [hs, Option.some.injEq] at h1
    rwa [h1]

/-- **The run queues**, in every state a sequence of calls reaches. A task is in the queue of its
own level once if it runs, not at all if it does not, and in no other queue; the queues hold
nothing else. The current queue is not empty and the processor runs the task at its front.
Unless `level_changed_` is set, the queues above it are empty. No call is undefined, and
right after a rotation (for `Sleep`, with the flag of the current task already cleared: the
memory of the tasks plays no part) the current task heads the highest queue that is not empty. -/
theorem runQueues (h : Reachable m) :
    (∀ t ∈ m.tasks, (m.running (m.obj t).level).count t = (if (m.obj t).running then 1 else 0) ∧
      ∀ lv, lv ≠ (m.obj t).level → t ∉ m.running lv) ∧
    (∀ lv, ∀ t ∈ m.running lv, t ∈ m.tasks) ∧
    (m.running m.currentLevel ≠ [] ∧ m.currentTask = some m.cpu) ∧
    (m.levelChanged = true ∨ ∀ lv, m.currentLevel < lv → m.running lv = []) ∧
    (∀ op, m.Allowed op → ∃ m', m.step op = some m') ∧
    ∀ (currentSleep : Bool) (obj : TaskID → Task), (currentSleep = true → m.cpu ≠ idle) →
      ∃ m', rotateCurrentRunQueue { m with obj := obj } currentSleep = some (m.cpu, m') ∧
        m'.HeadsHighest := by
  obtain ⟨hi, hw⟩ := h.inv
  refine ⟨fun t ht => ⟨?_, fun lv hlv hm => ?_⟩, fun lv t hm => ?_, ⟨hi.nonempty, hi.cpu⟩, hi.summary,
    fun op ha => ?_, fun currentSleep obj hs => ?_⟩
  · rw [hi.placed.count_eq]
    cases hr : (m.obj t).running with
    | true => rw [place_eq_some ht hr]; simp
    | false => rw [place_eq_none hr]; simp
  · exact hlv (mem_of_place ((hi.placed.mem_iff _ _).mp hm)).2.2.symm
  · exact (mem_of_place ((hi.placed.mem_iff _ _).mp hm)).1
  · obtain ⟨m', h1, -⟩ := step_spec hi hw op ha
    exact ⟨m', h1⟩
  · obtain ⟨r, c, hrot, -, -, hne, habove⟩ := rotateCurrentRunQueue_spec (m := { m with obj := obj }) hi.placed
      (fun u lv hu => by
        obtain ⟨hm, -, rfl⟩ := mem_of_place hu
        exact hi.level_le u hm) hi.summary hi.cpu currentSleep (fun hf => ⟨idle, (hs hf).symm, hi.idle⟩)
    exact ⟨_, hrot, hne, habove⟩

/-- The queues after a second task was made and woken up at level 2, and the first slept. -/
theorem runQueues_example :
    ∃ m : TaskManager, m.cpu = 3 ∧ m.running 2 = [3] ∧ (m.running (m.obj 1).level).count 1 = 0 ∧
      ∃ m', m.rotateCurrentRunQueue false = some (3, m') ∧ m'.HeadsHighest := by
  have h : Reachable _ := .step (.sleep 1) (.step (.wakeup 3 2) (.step .newTask .init (by decide) rfl)
    (by decide) rfl) (by decide) rfl
  obtain ⟨hcount, -, -, -, -, hrot⟩ := runQueues h
  exact ⟨_, rfl, rfl, (hcount 1 (by decide)).1, hrot false _ (fun hf => by cases hf)⟩

end DuvuvurKernel.TaskManager
