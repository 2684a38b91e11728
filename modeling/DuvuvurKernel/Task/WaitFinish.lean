import DuvuvurKernel.Task.RunQueues

/-!
# Waiting for a task to finish

`WaitFinish` and `Finish` meet through two maps: `Finish` leaves the exit code in
`finish_tasks_` and wakes up whom it finds in `finish_waiter_`; `WaitFinish` looks for
the exit code, and if there is none registers in `finish_waiter_` and sleeps, again
and again.

## The model

Every call of the task manager is atomic, but `WaitFinish` is not: it gives the
processor away each time it sleeps. So a task that is inside it is a state of its
own (`waiting`), its first round is the action `waitFinish`, and each later round,
when the task has the processor again, is the action `resume`. All other actions are
calls by the task that has the processor, or, at any time, by an interrupt handler
(`FromInterrupt`): messages, wakeups and the timer. Beside the task manager, the
system records what has happened: who has waited for whom, who has finished with
which exit code, and what `WaitFinish` has returned.

Two things are outside the handshake, and each defeats it: another
task putting the waiter to sleep once the task it waits for has finished, and waiting
a second time for the same task. `Undisturbed` excludes just these.
-/

namespace DuvuvurKernel.TaskManager

open Lib.Queues

/-- The task manager, who is inside `WaitFinish`, and what has happened so far. -/
structure System where
  /-- The task manager. -/
  m : TaskManager
  /-- The task a task waits for, while it is inside `WaitFinish`. -/
  waiting : TaskID → Option TaskID
  /-- Who has called `WaitFinish` for a task. -/
  waiter : TaskID → Option TaskID
  /-- The exit codes tasks have finished with. -/
  finished : TaskID → Option ℤ
  /-- What `WaitFinish` has returned for a task. -/
  returned : TaskID → Option ℤ

/-- What happens next. -/
inductive Action where
  /-- A call of the task manager. -/
  | call (op : Operation)
  /-- The task that has the processor calls `WaitFinish`. -/
  | waitFinish (id : TaskID)
  /-- The task that has the processor goes on inside `WaitFinish`. -/
  | resume

/-- The calls interrupt handlers make, at any time. -/
def Operation.FromInterrupt : Operation → Prop
  | .wakeup _ _ | .wakeupByID _ _ | .sendMessage _ _ | .switchTask => True
  | _ => False

instance : (op : Operation) → Decidable op.FromInterrupt
  | .wakeup _ _ | .wakeupByID _ _ | .sendMessage _ _ | .switchTask => isTrue trivial
  | .newTask | .sleep _ | .sleepByID _ | .finish _ => isFalse id

/-- Whom a call puts to sleep. -/
def Operation.sleeper : Operation → Option TaskID
  | .sleep t => some t
  | .sleepByID id => some id
  | _ => none

namespace System

/-- The system at the start. -/
def init : System where
  m := TaskManager.init
  waiting := fun _ => none
  waiter := fun _ => none
  finished := fun _ => none
  returned := fun _ => none

/-- What a call adds to the record. -/
def record (s : System) : Operation → TaskID → Option ℤ
  | .finish exitCode => Function.update s.finished s.m.cpu (some exitCode)
  | _ => s.finished

/-- A round of `WaitFinish` by the task that has the processor. -/
def round (s : System) (id : TaskID) : Option System :=
  (s.m.waitFinishRound s.m.cpu id).map fun
    | (some exitCode, m) =>
      { s with m := m, waiting := Function.update s.waiting s.m.cpu none,
               returned := Function.update s.returned id (some exitCode) }
    | (none, m) => { s with m := m, waiting := Function.update s.waiting s.m.cpu (some id) }

/-- What an action does. -/
def perform (s : System) : Action → Option System
  | .call op => (s.m.step op).map fun m => { s with m := m, finished := s.record op }
  | .waitFinish id => round { s with waiter := Function.update s.waiter id (some s.m.cpu) } id
  | .resume => (s.waiting s.m.cpu).bind s.round

/-- The actions there are: inside `WaitFinish` a task makes no other call, the idle task does
not wait, and no two tasks wait for the same one. -/
def Enabled (s : System) : Action → Prop
  | .call op => s.m.Allowed op ∧ (op.FromInterrupt ∨ s.waiting s.m.cpu = none)
  | .waitFinish id =>
    s.waiting s.m.cpu = none ∧ s.m.cpu ≠ idle ∧ (s.waiter id = none ∨ s.waiter id = some s.m.cpu)
  | .resume => s.waiting s.m.cpu ≠ none

instance (s : System) (a : Action) : Decidable (s.Enabled a) := by
  cases a <;> unfold Enabled <;> infer_instance

/-- The actions that leave the handshake alone: no task is put to sleep inside a `WaitFinish`
whose task has finished, and each task is waited for once. -/
def Undisturbed (s : System) : Action → Prop
  | .call op => ∀ t id, op.sleeper = some t → s.waiting t = some id → s.finished id = none
  | .waitFinish id => s.waiter id = none
  | .resume => True

/-- The states of the runs whose actions all satisfy `P`. -/
inductive Reachable (P : System → Action → Prop) : System → Prop where
  | init : Reachable P System.init
  | step {s s' : System} (a : Action) : Reachable P s → P s a → s.perform a = some s' → Reachable P s'

/-- The actions of an undisturbed run. -/
def Fair (s : System) (a : Action) : Prop := s.Enabled a ∧ s.Undisturbed a

/-! ### The invariant -/

/-- What holds in every state of an undisturbed run. -/
structure Inv (s : System) : Prop where
  /-- The run queues are consistent. -/
  sched : s.m.SchedulerInv
  /-- Who is registered waits. -/
  registered : ∀ id w, s.m.finishWaiter id = some w → s.waiting w = some id
  /-- Who waits exists, and is the one waiter. -/
  waits : ∀ w id, s.waiting w = some id → w ∈ s.m.tasks ∧ w ≠ idle ∧ s.waiter id = some w
  /-- Who waits for a task that has not finished is registered. -/
  unfinished : ∀ w id, s.waiting w = some id → s.finished id = none → s.m.finishWaiter id = some w
  /-- Who waits for a task that has finished is awake, and has not been told. -/
  awake : ∀ w id, s.waiting w = some id → s.finished id ≠ none →
    (s.m.obj w).running = true ∧ s.returned id = none
  /-- No one is registered for a task that has finished. -/
  erased : ∀ id, s.finished id ≠ none → s.m.finishWaiter id = none
  /-- The exit code is kept until it is returned. -/
  kept : ∀ id c, s.finished id = some c → s.returned id = none → s.m.finishTasks id = some c
  /-- Only exit codes are kept. -/
  code : ∀ id c, s.m.finishTasks id = some c → s.finished id = some c
  /-- What is returned is the exit code, to who waited. -/
  told : ∀ id c, s.returned id = some c → s.finished id = some c ∧ s.waiter id ≠ none
  /-- A task that has finished is gone. -/
  gone : ∀ id, s.finished id ≠ none → id ∉ s.m.tasks ∧ id ≤ s.m.latestID

variable {s s' : System} {w id : TaskID}

theorem init_inv : init.Inv where
  sched := init_spec
  registered := fun _ _ h => by cases h
  waits := fun _ _ h => by cases h
  unfinished := fun _ _ h => by cases h
  awake := fun _ _ h => by cases h
  erased := fun _ h => absurd rfl h
  kept := fun _ _ h => by cases h
  code := fun _ _ h => by cases h
  told := fun _ _ h => by cases h
  gone := fun _ h => absurd rfl h

/-- A call that makes and ends no task keeps the invariant if it leaves the waiters of finished
tasks awake. -/
theorem Inv.of_sameTasks (h : s.Inv) {m : TaskManager} (hm : m.SchedulerInv) (hst : SameTasks s.m m)
    (hr : ∀ w id, s.waiting w = some id → s.finished id ≠ none → (m.obj w).running = true) :
    Inv { s with m := m } where
  sched := hm
  registered := by rw [hst.finishWaiter]; exact h.registered
  waits := by rw [hst.tasks]; exact h.waits
  unfinished := by rw [hst.finishWaiter]; exact h.unfinished
  awake := fun w id hw hf => ⟨hr w id hw hf, (h.awake w id hw hf).2⟩
  erased := by rw [hst.finishWaiter]; exact h.erased
  kept := by rw [hst.finishTasks]; exact h.kept
  code := by rw [hst.finishTasks]; exact h.code
  told := h.told
  gone := by rw [hst.tasks, hst.latestID]; exact h.gone

/-- A call that changes at most one task, and leaves it running, keeps the waiters awake. -/
theorem Inv.awake_of_update (h : s.Inv) {m : TaskManager} {t : TaskID} {o : Task}
    (ho : m.obj = Function.update s.m.obj t o) (hr : o.running = true) (w id : TaskID)
    (hw : s.waiting w = some id) (hf : s.finished id ≠ none) : (m.obj w).running = true := by
  rw [ho]
  by_cases hwt : w = t
  · rw [hwt, Function.update_self]; exact hr
  · rw [Function.update_of_ne hwt]; exact (h.awake w id hw hf).1

/-- A call that wakes up or sends keeps the invariant. -/
theorem Inv.of_wakeup (h : s.Inv) {m : TaskManager} {t : TaskID} {o : Task} (h2 : m.QueueInv)
    (h3 : SameTasks s.m m) (h4 : m.currentTask = s.m.currentTask) (h5 : m.cpu = s.m.cpu)
    (ho : m.obj = Function.update s.m.obj t o) (hr : o.running = true) : Inv { s with m := m } :=
  h.of_sameTasks ⟨h2, by rw [h4, h5]; exact h.sched.cpu⟩ h3 (h.awake_of_update ho hr)

/-- `Sleep`, of a task that waits for no finished task. -/
theorem Inv.sleep (h : s.Inv) {t : TaskID} (ht : t ∈ s.m.tasks) (hi : t ≠ idle)
    (hd : ∀ id, s.waiting t = some id → s.finished id = none) :
    ∃ m, s.m.sleep t = some m ∧ Inv { s with m := m } := by
  obtain ⟨m, h1, h2, h3, h4⟩ := sleep_spec h.sched ht hi
  refine ⟨m, h1, h.of_sameTasks h2 h3 fun w id hw hf => ?_⟩
  have hne : w ≠ t := by
    rintro rfl
    exact hf (hd id hw)
  rw [h4, Function.update_of_ne hne]
  exact (h.awake w id hw hf).1

/-- `NewTask`. -/
theorem Inv.newTask (h : s.Inv) : Inv { s with m := s.m.newTask } where
  sched := newTask_spec h.sched
  registered := h.registered
  waits := fun w id hw => ⟨List.mem_append_left _ (h.waits w id hw).1, (h.waits w id hw).2⟩
  unfinished := h.unfinished
  awake := fun w id hw hf => by
    have hne : w ≠ s.m.latestID + 1 := fun he =>
      Nat.not_succ_le_self _ (he ▸ h.sched.fresh w (h.waits w id hw).1)
    simpa [TaskManager.newTask, hne] using h.awake w id hw hf
  erased := h.erased
  kept := h.kept
  code := h.code
  told := h.told
  gone := fun id hf => by
    obtain ⟨h1, h2⟩ := h.gone id hf
    have hne : id ≠ s.m.latestID + 1 := fun he => Nat.not_succ_le_self _ (he ▸ h2)
    simpa [TaskManager.newTask, hne] using ⟨h1, Nat.le_succ_of_le h2⟩

/-- `Finish`, by a task that is not inside `WaitFinish`. -/
theorem Inv.finish (h : s.Inv) (hi : s.m.cpu ≠ idle) (hcpu : s.waiting s.m.cpu = none) (c : ℤ) :
    ∃ m, s.m.finish c = some m ∧
      Inv { s with m := m, finished := Function.update s.finished s.m.cpu (some c) } := by
  have hnw : ∀ id, s.m.finishWaiter id ≠ some s.m.cpu := fun id hid => by
    rw [h.registered id _ hid] at hcpu
    cases hcpu
  have hmem := h.sched.cpu_mem
  have hunf : s.finished s.m.cpu = none := by
    by_contra hf
    exact (h.gone _ hf).1 hmem
  have hunt : s.returned s.m.cpu = none := by
    cases hr : s.returned s.m.cpu with
    | none => rfl
    | some c' => rw [(h.told _ _ hr).1] at hunf; cases hunf
  obtain ⟨m, h1, h2, h3, h4, h5, h6, h7⟩ := finish_spec h.sched hi hnw c
  have hne : ∀ w id, s.waiting w = some id → w ≠ s.m.cpu := fun w id hw he => by
    rw [he, hcpu] at hw
    cases hw
  refine ⟨m, h1, ⟨h2, fun id w hid => ?_, fun w id hw => ?_, fun w id hw hf => ?_, fun w id hw hf => ?_,
    fun id hf => ?_, fun id c' hf hr => ?_, fun id c' hk => ?_, fun id c' hr => ?_, fun id hf => ?_⟩⟩
  · rw [h6] at hid
    by_cases he : id = s.m.cpu
    · rw [he, Function.update_self] at hid; cases hid
    · rw [Function.update_of_ne he] at hid; exact h.registered id w hid
  · rw [h3, h.sched.nodup.mem_erase_iff]
    exact ⟨⟨hne w id hw, (h.waits w id hw).1⟩, (h.waits w id hw).2⟩
  · have he : id ≠ s.m.cpu := fun he => by simp [he] at hf
    simp only [Function.update_of_ne he] at hf
    rw [h6, Function.update_of_ne he]
    exact h.unfinished w id hw hf
  · by_cases he : id = s.m.cpu
    · -- the waiter of the task that finishes is registered, and woken up
      subst he
      refine ⟨?_, hunt⟩
      rw [h7, h.unfinished w _ hw hunf]
      simp [Task.awake]
    · simp only [Function.update_of_ne he] at hf
      obtain ⟨hr, hret⟩ := h.awake w id hw hf
      refine ⟨?_, hret⟩
      rw [h7]
      cases hwt : s.m.finishWaiter s.m.cpu with
      | none => exact hr
      | some w' =>
        by_cases hww : w = w'
        · simp [hww, Task.awake]
        · simpa [Function.update_of_ne hww] using hr
  · rw [h6]
    by_cases he : id = s.m.cpu
    · rw [he, Function.update_self]
    · simp only [Function.update_of_ne he] at hf ⊢
      exact h.erased id hf
  · rw [h5]
    by_cases he : id = s.m.cpu
    · simpa [he] using hf
    · simp only [Function.update_of_ne he] at hf ⊢
      exact h.kept id c' hf hr
  · rw [h5] at hk
    by_cases he : id = s.m.cpu
    · simpa [he] using hk
    · simp only [Function.update_of_ne he] at hk ⊢
      exact h.code id c' hk
  · have he : id ≠ s.m.cpu := fun he => by
      simp only [he] at hr
      rw [hunt] at hr
      cases hr
    simp only [Function.update_of_ne he]
    exact h.told id c' hr
  · rw [h3, h4, h.sched.nodup.mem_erase_iff]
    by_cases he : id = s.m.cpu
    · exact ⟨fun hm => hm.1 he, he ▸ h.sched.fresh _ hmem⟩
    · simp only [Function.update_of_ne he] at hf
      exact ⟨fun hm => (h.gone id hf).1 hm.2, (h.gone id hf).2⟩

/-- A call keeps the invariant. -/
theorem Inv.call (h : s.Inv) (op : Operation) (he : s.Enabled (.call op)) (hd : s.Undisturbed (.call op)) :
    ∃ s', s.perform (.call op) = some s' ∧ s'.Inv := by
  obtain ⟨ha, hc⟩ := he
  cases op with
  | newTask => exact ⟨_, rfl, h.newTask⟩
  | sleep t =>
    obtain ⟨m, h1, h2⟩ := h.sleep ha.1 ha.2 (fun id => hd t id rfl)
    exact ⟨_, by simp only [perform, step, h1]; rfl, h2⟩
  | sleepByID id =>
    by_cases hid : id ∈ s.m.tasks
    · obtain ⟨m, h1, h2⟩ := h.sleep hid ha (fun id' => hd id id' rfl)
      exact ⟨_, by simp only [perform, step, sleepByID, hid, h1]; rfl, h2⟩
    · exact ⟨_, by simp only [perform, step, sleepByID, hid]; rfl, h⟩
  | wakeup t level =>
    obtain ⟨m, h1, h2, h3, h4, h5, h6⟩ := wakeup_spec h.sched.toQueueInv ha.1 level ha.2.2
    exact ⟨_, by simp only [perform, step, h1]; rfl, h.of_wakeup h2 h3 h4 h5 h6 rfl⟩
  | wakeupByID id level =>
    by_cases hid : id ∈ s.m.tasks
    · obtain ⟨m, h1, h2, h3, h4, h5, h6⟩ := wakeup_spec h.sched.toQueueInv hid level ha.2
      exact ⟨_, by simp only [perform, step, wakeupByID, hid, h1]; rfl, h.of_wakeup h2 h3 h4 h5 h6 rfl⟩
    · exact ⟨_, by simp only [perform, step, wakeupByID, hid]; rfl, h⟩
  | sendMessage id msg =>
    by_cases hid : id ∈ s.m.tasks
    · obtain ⟨m, h1, h2, h3, h4, h5, h6⟩ := sendMessageTo_spec h.sched.toQueueInv hid msg
      exact ⟨_, by simp only [perform, step, sendMessage, hid, h1]; rfl, h.of_wakeup h2 h3 h4 h5 h6 rfl⟩
    · exact ⟨_, by simp only [perform, step, sendMessage, hid]; rfl, h⟩
  | finish c =>
    obtain ⟨m, h1, h2⟩ := h.finish ha (hc.resolve_left id) c
    exact ⟨_, by simp only [perform, step, h1]; rfl, h2⟩
  | switchTask =>
    obtain ⟨m, h1, h2, h3, h4⟩ := switchTask_spec h.sched
    exact ⟨_, by simp only [perform, step, h1]; rfl,
      h.of_sameTasks h2 h3 fun w id hw hf => by rw [h4]; exact (h.awake w id hw hf).1⟩

/-- The task that has the processor is registered as a waiter. -/
theorem register_spec {m : TaskManager} (h : m.SchedulerInv) (id : TaskID) :
    SchedulerInv { m with finishWaiter := Function.update m.finishWaiter id (some m.cpu) } := by
  refine ⟨⟨h.placed, h.nodup, h.fresh, h.level_le, h.current_le, h.nonempty, h.summary, h.idle, fun id' w hid => ?_⟩,
    h.cpu⟩
  by_cases hne : id' = id
  · subst hne
    simp only [Function.update_self, Option.some.injEq] at hid
    exact hid ▸ h.cpu_mem
  · simp only [Function.update_of_ne hne] at hid
    exact h.waiter id' w hid

/-- A round of `WaitFinish` returns the exit code if the task has finished. -/
theorem Inv.round_finished (h : s.Inv) (hw : s.waiter id = some s.m.cpu)
    (hcpu : s.waiting s.m.cpu = none ∨ s.waiting s.m.cpu = some id) (hret : s.returned id = none) {c : ℤ}
    (hf : s.finished id = some c) :
    ∃ s', s.round id = some s' ∧ s'.Inv ∧ s'.returned id = some c ∧ s'.waiting s.m.cpu = none := by
  have hsole : ∀ w, s.waiting w = some id → w = s.m.cpu := fun w hwi =>
    Option.some.inj ((h.waits w id hwi).2.2.symm.trans hw)
  have hk := h.kept id c hf hret
  have hreg : ∀ id' w, s.m.finishWaiter id' = some w → w ≠ s.m.cpu := by
    rintro id' w hid rfl
    rcases hcpu with hc | hc
    · rw [h.registered _ _ hid] at hc
      cases hc
    · have := h.registered _ _ hid
      rw [hc, Option.some.injEq] at this
      subst this
      rw [h.erased _ (by rw [hf]; simp)] at hid
      cases hid
  have hother : ∀ w id', Function.update s.waiting s.m.cpu none w = some id' →
      w ≠ s.m.cpu ∧ s.waiting w = some id' ∧ id' ≠ id := by
    intro w id' hwi
    have hne : w ≠ s.m.cpu := by rintro rfl; simp at hwi
    rw [Function.update_of_ne hne] at hwi
    exact ⟨hne, hwi, by rintro rfl; exact hne (hsole w hwi)⟩
  refine ⟨{ s with m := { s.m with finishTasks := Function.update s.m.finishTasks id none },
                   waiting := Function.update s.waiting s.m.cpu none,
                   returned := Function.update s.returned id (some c) },
    by simp only [System.round, waitFinishRound, hk]; rfl, ⟨?_, fun id' w hid => ?_, fun w id' hwi => ?_,
    fun w id' hwi hf' => ?_, fun w id' hwi hf' => ?_, h.erased, fun id' c' hf' hr => ?_, fun id' c' hk' => ?_,
    fun id' c' hr => ?_, h.gone⟩, ?_⟩
  · exact ⟨⟨h.sched.placed, h.sched.nodup, h.sched.fresh, h.sched.level_le, h.sched.current_le,
      h.sched.nonempty, h.sched.summary, h.sched.idle, h.sched.waiter⟩, h.sched.cpu⟩
  · simp only [Function.update_of_ne (hreg id' w hid)]
    exact h.registered id' w hid
  · exact h.waits w id' (hother w id' hwi).2.1
  · exact h.unfinished w id' (hother w id' hwi).2.1 hf'
  · obtain ⟨-, hwi', hne⟩ := hother w id' hwi
    simp only [Function.update_of_ne hne]
    exact h.awake w id' hwi' hf'
  · have hne : id' ≠ id := by rintro rfl; simp at hr
    simp only [Function.update_of_ne hne] at hr ⊢
    exact h.kept id' c' hf' hr
  · have hne : id' ≠ id := by rintro rfl; simp at hk'
    simp only [Function.update_of_ne hne] at hk'
    exact h.code id' c' hk'
  · by_cases hne : id' = id
    · subst hne
      simp only [Function.update_self, Option.some.injEq] at hr
      subst hr
      exact ⟨hf, by rw [hw]; simp⟩
    · simp only [Function.update_of_ne hne] at hr
      exact h.told id' c' hr
  · simp

/-- If not, the waiter sleeps, registered. -/
theorem Inv.round_unfinished (h : s.Inv) (hi : s.m.cpu ≠ idle) (hw : s.waiter id = some s.m.cpu)
    (hcpu : s.waiting s.m.cpu = none ∨ s.waiting s.m.cpu = some id) (hf : s.finished id = none) :
    ∃ s', s.round id = some s' ∧ s'.Inv ∧ s'.returned = s.returned := by
  have hsole : ∀ w, s.waiting w = some id → w = s.m.cpu := fun w hwi =>
    Option.some.inj ((h.waits w id hwi).2.2.symm.trans hw)
  have hk : s.m.finishTasks id = none := by
    cases hk : s.m.finishTasks id with
    | none => rfl
    | some c => rw [h.code id c hk] at hf; cases hf
  obtain ⟨m, h1, h2, h3, h4⟩ := sleep_spec (register_spec h.sched id) h.sched.cpu_mem hi
  refine ⟨{ s with m := m, waiting := Function.update s.waiting s.m.cpu (some id) },
    by simp only [System.round, waitFinishRound, hk, h1]; rfl, ⟨h2, fun id' w hid => ?_,
    fun w id' hwi => ?_, fun w id' hwi hf' => ?_, fun w id' hwi hf' => ?_, fun id' hf' => ?_,
    by rw [h3.finishTasks]; exact h.kept, by rw [h3.finishTasks]; exact h.code, h.told,
    by rw [h3.tasks, h3.latestID]; exact h.gone⟩, rfl⟩
  · rw [h3.finishWaiter] at hid
    by_cases hne : id' = id
    · subst hne
      simp only [Function.update_self, Option.some.injEq] at hid
      simp [← hid]
    · simp only [Function.update_of_ne hne] at hid
      have hwi := h.registered id' w hid
      have hwc : w ≠ s.m.cpu := by
        rintro rfl
        rcases hcpu with hc | hc <;> rw [hc] at hwi
        · cases hwi
        · exact hne (Option.some.inj hwi).symm
      simp only [Function.update_of_ne hwc]
      exact hwi
  · rw [h3.tasks]
    by_cases hwc : w = s.m.cpu
    · subst hwc
      simp only [Function.update_self, Option.some.injEq] at hwi
      subst hwi
      exact ⟨h.sched.cpu_mem, hi, hw⟩
    · simp only [Function.update_of_ne hwc] at hwi
      exact h.waits w id' hwi
  · rw [h3.finishWaiter]
    by_cases hwc : w = s.m.cpu
    · subst hwc
      simp only [Function.update_self, Option.some.injEq] at hwi
      subst hwi
      simp
    · simp only [Function.update_of_ne hwc] at hwi
      have hne : id' ≠ id := by rintro rfl; exact hwc (hsole w hwi)
      simp only [Function.update_of_ne hne]
      exact h.unfinished w id' hwi hf'
  · have hwc : w ≠ s.m.cpu := by
      rintro rfl
      simp only [Function.update_self, Option.some.injEq] at hwi
      exact hf' (hwi ▸ hf)
    simp only [Function.update_of_ne hwc] at hwi
    rw [h4, Function.update_of_ne hwc]
    exact h.awake w id' hwi hf'
  · rw [h3.finishWaiter]
    have hne : id' ≠ id := by rintro rfl; exact hf' hf
    simp only [Function.update_of_ne hne]
    exact h.erased id' hf'

theorem Inv.round (h : s.Inv) (hi : s.m.cpu ≠ idle) (hw : s.waiter id = some s.m.cpu)
    (hcpu : s.waiting s.m.cpu = none ∨ s.waiting s.m.cpu = some id) (hret : s.returned id = none) :
    ∃ s', s.round id = some s' ∧ s'.Inv ∧
      (∀ c, s.finished id = some c → s'.returned id = some c ∧ s'.waiting s.m.cpu = none) ∧
      (s.finished id = none → s'.returned = s.returned) := by
  cases hf : s.finished id with
  | some c =>
    obtain ⟨s', hround, hinv, hreturned, hwaiting⟩ := h.round_finished hw hcpu hret hf
    refine ⟨s', hround, hinv, fun c' hc' => ?_, fun hn => by cases hn⟩
    cases hc'
    exact ⟨hreturned, hwaiting⟩
  | none =>
    obtain ⟨s', hround, hinv, hreturned⟩ := h.round_unfinished hi hw hcpu hf
    exact ⟨s', hround, hinv, fun c hc => (by cases hc), fun _ => hreturned⟩

/-- A first round of `WaitFinish`. -/
theorem Inv.waitFinish (h : s.Inv) (he : s.Enabled (.waitFinish id)) (hd : s.Undisturbed (.waitFinish id)) :
    ∃ s', s.perform (.waitFinish id) = some s' ∧ s'.Inv ∧
      (∀ c, s.finished id = some c → s'.returned id = some c ∧ s'.waiting s.m.cpu = none) ∧
      (s.finished id = none → s'.returned = s.returned) := by
  have hret : s.returned id = none := by
    cases hr : s.returned id with
    | none => rfl
    | some c => exact absurd hd (h.told id c hr).2
  have h' : Inv { s with waiter := Function.update s.waiter id (some s.m.cpu) } := by
    refine ⟨h.sched, h.registered, fun w id' hw => ?_, h.unfinished, h.awake, h.erased, h.kept, h.code,
      fun id' c hr => ⟨(h.told id' c hr).1, ?_⟩, h.gone⟩
    · obtain ⟨h1, h2, h3⟩ := h.waits w id' hw
      have hne : id' ≠ id := by
        rintro rfl
        rw [show s.waiter id' = none from hd] at h3
        cases h3
      exact ⟨h1, h2, by simpa [Function.update_of_ne hne] using h3⟩
    · have hne : id' ≠ id := by
        rintro rfl
        rw [hret] at hr
        cases hr
      simpa [Function.update_of_ne hne] using (h.told id' c hr).2
  exact h'.round he.2.1 (by simp) (Or.inl he.1) hret

/-- A later round of `WaitFinish`. -/
theorem Inv.resume (h : s.Inv) (hcpu : s.waiting s.m.cpu = some id) :
    ∃ s', s.perform .resume = some s' ∧ s'.Inv ∧
      (∀ c, s.finished id = some c → s'.returned id = some c ∧ s'.waiting s.m.cpu = none) ∧
      (s.finished id = none → s'.returned = s.returned) := by
  obtain ⟨-, hi, hw⟩ := h.waits _ _ hcpu
  have hret : s.returned id = none := by
    cases hr : s.returned id with
    | none => rfl
    | some c =>
      have := (h.awake _ _ hcpu (by rw [(h.told id c hr).1]; simp)).2
      rw [hr] at this
      cases this
  obtain ⟨s', h1, h2⟩ := h.round hi hw (Or.inr hcpu) hret
  exact ⟨s', by rw [perform, hcpu]; exact h1, h2⟩

/-- **A step**: an action of an undisturbed run is defined and keeps the invariant. -/
theorem Inv.step (h : s.Inv) (a : Action) (ha : s.Fair a) : ∃ s', s.perform a = some s' ∧ s'.Inv := by
  obtain ⟨he, hd⟩ := ha
  cases a with
  | call op => exact h.call op he hd
  | waitFinish id =>
    obtain ⟨s', h1, h2, -⟩ := h.waitFinish he hd
    exact ⟨s', h1, h2⟩
  | resume =>
    obtain ⟨id, hid⟩ := Option.ne_none_iff_exists'.mp he
    obtain ⟨s', h1, h2, -⟩ := h.resume hid
    exact ⟨s', h1, h2⟩

/-- **A run**: the invariant holds in every state of an undisturbed run. -/
theorem Reachable.inv (h : Reachable Fair s) : s.Inv := by
  induction h with
  | init => exact init_inv
  | step a _ ha hs ih =>
    obtain ⟨s', h1, h2⟩ := ih.step a ha
    rw [hs, Option.some.injEq] at h1
    rwa [h1]

/-- **The handshake**, in every state of an undisturbed run. What `WaitFinish` has returned for a
task is the exit code the task has finished with. A waiter whose task has finished is awake.
When it has the processor, its next round returns that exit code, and so does a call of
`WaitFinish` made after the task has finished; a round before that returns nothing. No
action is undefined. -/
theorem waitFinish_handshake (h : Reachable Fair s) :
    (∀ id c, s.returned id = some c → s.finished id = some c) ∧
    (∀ w id c, s.waiting w = some id → s.finished id = some c → (s.m.obj w).running = true) ∧
    (∀ id, s.waiting s.m.cpu = some id → ∃ s', s.perform .resume = some s' ∧
      (∀ c, s.finished id = some c → s'.returned id = some c ∧ s'.waiting s.m.cpu = none) ∧
      (s.finished id = none → s'.returned = s.returned)) ∧
    (∀ id, s.Fair (.waitFinish id) → ∃ s', s.perform (.waitFinish id) = some s' ∧
      (∀ c, s.finished id = some c → s'.returned id = some c ∧ s'.waiting s.m.cpu = none) ∧
      (s.finished id = none → s'.returned = s.returned)) ∧
    ∀ a, s.Fair a → ∃ s', s.perform a = some s' := by
  have hi := h.inv
  refine ⟨fun id c hr => (hi.told id c hr).1, fun w id c hw hf => (hi.awake w id hw (by rw [hf]; simp)).1,
    fun id hw => ?_, fun id ha => ?_, fun a ha => ?_⟩
  · obtain ⟨s', h1, -, h2⟩ := hi.resume hw
    exact ⟨s', h1, h2⟩
  · obtain ⟨s', h1, -, h2⟩ := hi.waitFinish ha.1 ha.2
    exact ⟨s', h1, h2⟩
  · obtain ⟨s', h1, -⟩ := hi.step a ha
    exact ⟨s', h1⟩

/-- Task 3 finishes with 42 while task 1 sleeps in `WaitFinish`: task 1 is awake, and its next
round returns 42. -/
theorem waitFinish_handshake_example :
    ∃ s : System, s.finished 3 = some 42 ∧ s.waiting 1 = some 3 ∧ (s.m.obj 1).running = true ∧
      ∃ s', s.perform .resume = some s' ∧ s'.returned 3 = some 42 := by
  have h : Reachable Fair _ :=
    .step (.call .switchTask) (.step (.call (.finish 42)) (.step (.waitFinish 3) (.step (.call (.wakeup 3 3))
      (.step (.call .newTask) .init ⟨by decide, fun _ _ ht => nomatch ht⟩ rfl)
      ⟨by decide, fun _ _ ht => nomatch ht⟩ rfl) ⟨by decide, rfl⟩ rfl)
      ⟨by decide, fun _ _ ht => nomatch ht⟩ rfl) ⟨by decide, fun _ _ ht => nomatch ht⟩ rfl
  obtain ⟨-, hawake, hround, -⟩ := waitFinish_handshake h
  obtain ⟨s', h1, h2, -⟩ := hround 3 rfl
  exact ⟨_, rfl, rfl, hawake 1 3 42 rfl rfl, s', h1, (h2 42 rfl).1⟩

/-! ### What defeats the handshake -/

/-- A waiter left asleep: inside `WaitFinish` for a task that has finished. -/
def LeftAsleep (s : System) : Prop :=
  ∃ w id, s.waiting w = some id ∧ s.finished id ≠ none ∧ (s.m.obj w).running = false

/-- The state after a sequence of actions, each of them enabled. -/
def run (s : System) : List Action → Option System
  | [] => some s
  | a :: as => if s.Enabled a then (s.perform a).bind fun s => s.run as else none

theorem Reachable.run (h : Reachable Enabled s) (as : List Action) (hr : s.run as = some s') :
    Reachable Enabled s' := by
  induction as generalizing s with
  | nil =>
    cases hr
    exact h
  | cons a as ih =>
    rw [System.run] at hr
    split at hr
    next ha =>
      obtain ⟨s₁, h1, h2⟩ := Option.bind_eq_some_iff.mp hr
      exact ih (.step a h ha h1) h2
    next => cases hr

/-- Tasks 3 and 4 run above task 1, which waits for 3; 3 finishes and wakes up 1, and before 1 has
the processor again 4 puts it to sleep. -/
def putToSleep : List Action :=
  [.call .newTask, .call .newTask, .call (.wakeup 3 3), .call (.wakeup 4 3), .waitFinish 3,
    .call (.finish 42), .call (.sleep 1)]

/-- Task 1 waits for task 3, is told, and waits for it a second time. -/
def waitTwice : List Action :=
  [.call .newTask, .call (.wakeup 3 3), .waitFinish 3, .call (.finish 42), .call .switchTask,
    .resume, .waitFinish 3]

/-- Either way a waiter is left asleep after the `Finish` it waits for. -/
theorem asleep_after_finish :
    (∃ s, Reachable Enabled s ∧ s.returned 3 = none ∧ s.LeftAsleep) ∧
    (∃ s, Reachable Enabled s ∧ s.returned 3 = some 42 ∧ s.LeftAsleep) := by
  constructor
  · exact ⟨_, Reachable.init.run putToSleep rfl, by decide, 1, 3, by decide⟩
  · exact ⟨_, Reachable.init.run waitTwice rfl, by decide, 1, 3, by decide⟩

end System

end DuvuvurKernel.TaskManager
