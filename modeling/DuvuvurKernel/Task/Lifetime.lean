import DuvuvurKernel.Task.WaitFinish

/-!
# Who may be scheduled

`WaitFinish.lean` is about runs that leave the handshake alone. Here the runs are
arbitrary: tasks may wait twice, and be put to sleep whatever they wait for. Still no
destroyed task comes into a run queue, and a task exists until it finishes itself.
-/

namespace DuvuvurKernel.TaskManager.System

open Lib.Queues

/-- What holds in every state of every run. -/
structure Sound (s : System) : Prop where
  /-- The run queues are consistent. -/
  sched : s.m.SchedulerInv
  /-- Who is registered waits. -/
  registered : ∀ id w, s.m.finishWaiter id = some w → s.waiting w = some id
  /-- The idle task does not wait. -/
  idle : s.waiting idle = none
  /-- No one is registered for a task whose exit code is kept. -/
  code : ∀ id, s.m.finishTasks id ≠ none → s.m.finishWaiter id = none

variable {s s' : System} {t : TaskID} {lv : ℕ}

namespace Sound

/-- A run queue holds tasks that exist. -/
theorem mem_tasks (h : s.Sound) (ht : t ∈ s.m.running lv) : t ∈ s.m.tasks :=
  (mem_of_place ((h.sched.placed.mem_iff lv t).mp ht)).1

theorem init : init.Sound where
  sched := init_spec
  registered _ _ h := by cases h
  idle := rfl
  code _ h := absurd rfl h

/-- A call that makes and ends no task. -/
theorem of_sameTasks (h : s.Sound) {m : TaskManager} (hm : m.SchedulerInv) (hst : SameTasks s.m m) :
    Sound { s with m := m } where
  sched := hm
  registered := by rw [hst.finishWaiter]; exact h.registered
  idle := h.idle
  code := by rw [hst.finishTasks, hst.finishWaiter]; exact h.code

/-- A call that wakes up or sends. -/
theorem of_wakeup (h : s.Sound) {m : TaskManager} (h2 : m.QueueInv) (h3 : SameTasks s.m m)
    (h4 : m.currentTask = s.m.currentTask) (h5 : m.cpu = s.m.cpu) : Sound { s with m := m } :=
  h.of_sameTasks ⟨h2, by rw [h4, h5]; exact h.sched.cpu⟩ h3

/-- A task is told of its end only if it does not wait. -/
theorem not_registered (h : s.Sound) (hw : s.waiting t = none) (id : TaskID) :
    s.m.finishWaiter id ≠ some t := by
  intro hid
  rw [h.registered id t hid] at hw
  cases hw

theorem newTask (h : s.Sound) : Sound { s with m := s.m.newTask } where
  sched := newTask_spec h.sched
  registered := h.registered
  idle := h.idle
  code := h.code

/-- What an action ends: the task that calls `Finish`. -/
def Survives (s : System) (t : TaskID) : Action → Prop
  | .call (.finish _) => t ≠ s.m.cpu
  | _ => True

theorem call (h : s.Sound) (op : Operation) (ha : s.Enabled (.call op)) :
    ∃ s', s.perform (.call op) = some s' ∧ s'.Sound ∧
      ∀ t ∈ s.m.tasks, Survives s t (.call op) → t ∈ s'.m.tasks := by
  obtain ⟨ha, hc⟩ := ha
  cases op with
  | newTask => exact ⟨_, rfl, h.newTask, fun t ht _ => List.mem_append_left _ ht⟩
  | sleep t =>
    obtain ⟨m, h1, h2, h3, -⟩ := sleep_spec h.sched ha.1 ha.2
    exact ⟨_, by simp only [perform, step, h1]; rfl, h.of_sameTasks h2 h3, fun t ht _ => h3.tasks ▸ ht⟩
  | sleepByID id =>
    by_cases hid : id ∈ s.m.tasks
    · obtain ⟨m, h1, h2, h3, -⟩ := sleep_spec h.sched hid ha
      exact ⟨_, by simp only [perform, step, sleepByID, hid, h1]; rfl, h.of_sameTasks h2 h3,
        fun t ht _ => h3.tasks ▸ ht⟩
    · exact ⟨_, by simp only [perform, step, sleepByID, hid]; rfl, h, fun t ht _ => ht⟩
  | wakeup t level =>
    obtain ⟨m, h1, h2, h3, h4, h5, -⟩ := wakeup_spec h.sched.toQueueInv ha.1 level ha.2.2
    exact ⟨_, by simp only [perform, step, h1]; rfl, h.of_wakeup h2 h3 h4 h5, fun t ht _ => h3.tasks ▸ ht⟩
  | wakeupByID id level =>
    by_cases hid : id ∈ s.m.tasks
    · obtain ⟨m, h1, h2, h3, h4, h5, -⟩ := wakeup_spec h.sched.toQueueInv hid level ha.2
      exact ⟨_, by simp only [perform, step, wakeupByID, hid, h1]; rfl, h.of_wakeup h2 h3 h4 h5,
        fun t ht _ => h3.tasks ▸ ht⟩
    · exact ⟨_, by simp only [perform, step, wakeupByID, hid]; rfl, h, fun t ht _ => ht⟩
  | sendMessage id msg =>
    by_cases hid : id ∈ s.m.tasks
    · obtain ⟨m, h1, h2, h3, h4, h5, -⟩ := sendMessageTo_spec h.sched.toQueueInv hid msg
      exact ⟨_, by simp only [perform, step, sendMessage, hid, h1]; rfl, h.of_wakeup h2 h3 h4 h5,
        fun t ht _ => h3.tasks ▸ ht⟩
    · exact ⟨_, by simp only [perform, step, sendMessage, hid]; rfl, h, fun t ht _ => ht⟩
  | finish c =>
    have hw := hc.resolve_left id
    obtain ⟨m, h1, h2, h3, -, h5, h6, -⟩ := finish_spec h.sched ha (h.not_registered hw) c
    refine ⟨{ s with m := m, finished := s.record (.finish c) }, by simp only [perform, step, h1]; rfl,
      ⟨h2, ?_, h.idle, ?_⟩, ?_⟩
    · intro id w hid
      rw [h6] at hid
      by_cases he : id = s.m.cpu
      · rw [he, Function.update_self] at hid
        cases hid
      · rw [Function.update_of_ne he] at hid
        exact h.registered id w hid
    · intro id hid
      rw [h6]
      by_cases he : id = s.m.cpu
      · rw [he, Function.update_self]
      · rw [h5, Function.update_of_ne he] at hid
        rw [Function.update_of_ne he]
        exact h.code id hid
    · intro t ht hne
      rw [h3]
      exact (List.mem_erase_of_ne hne).mpr ht
  | switchTask =>
    obtain ⟨m, h1, h2, h3, -⟩ := switchTask_spec h.sched
    exact ⟨_, by simp only [perform, step, h1]; rfl, h.of_sameTasks h2 h3, fun t ht _ => h3.tasks ▸ ht⟩

/-- A round of `WaitFinish`. -/
theorem round (h : s.Sound) (id : TaskID) (hi : s.m.cpu ≠ TaskManager.idle)
    (hcpu : s.waiting s.m.cpu = none ∨ s.waiting s.m.cpu = some id) :
    ∃ s', s.round id = some s' ∧ s'.Sound ∧ s'.m.tasks = s.m.tasks := by
  cases hk : s.m.finishTasks id with
  | some c =>
    refine ⟨{ s with m := { s.m with finishTasks := Function.update s.m.finishTasks id none },
                     waiting := Function.update s.waiting s.m.cpu none,
                     returned := Function.update s.returned id (some c) },
      by simp only [System.round, waitFinishRound, hk]; rfl, ⟨?_, ?_, ?_, ?_⟩, rfl⟩
    · exact ⟨⟨h.sched.placed, h.sched.nodup, h.sched.fresh, h.sched.level_le, h.sched.current_le,
        h.sched.nonempty, h.sched.summary, h.sched.idle, h.sched.waiter⟩, h.sched.cpu⟩
    · intro id' w hid
      have hne : w ≠ s.m.cpu := by
        rintro rfl
        have hreg := h.registered id' _ hid
        rcases hcpu with hc | hc
        · exact h.not_registered hc id' hid
        · obtain rfl : id = id' := Option.some.inj (hc.symm.trans hreg)
          exact absurd (h.code id (by rw [hk]; simp)) (by rw [hid]; simp)
      simp only [Function.update_of_ne hne]
      exact h.registered id' w hid
    · simp only [Function.update_of_ne hi.symm]
      exact h.idle
    · intro id' hid
      have hne : id' ≠ id := by
        rintro rfl
        simp at hid
      simp only [Function.update_of_ne hne] at hid
      exact h.code id' hid
  | none =>
    obtain ⟨m, h1, h2, h3, -⟩ := sleep_spec (register_spec h.sched id) h.sched.cpu_mem hi
    refine ⟨{ s with m := m, waiting := Function.update s.waiting s.m.cpu (some id) },
      by simp only [System.round, waitFinishRound, hk, h1]; rfl, ⟨h2, ?_, ?_, ?_⟩, h3.tasks⟩
    · intro id' w hid
      rw [h3.finishWaiter] at hid
      by_cases hne : id' = id
      · subst hne
        simp only [Function.update_self, Option.some.injEq] at hid
        simp [← hid]
      · simp only [Function.update_of_ne hne] at hid
        have hreg := h.registered id' w hid
        have hwc : w ≠ s.m.cpu := by
          rintro rfl
          rcases hcpu with hc | hc
          · exact h.not_registered hc id' hid
          · exact hne (Option.some.inj (hreg.symm.trans hc))
        simp only [Function.update_of_ne hwc]
        exact hreg
    · simp only [Function.update_of_ne hi.symm]
      exact h.idle
    · intro id' hid
      rw [h3.finishTasks] at hid
      rw [h3.finishWaiter]
      have hne : id' ≠ id := by
        rintro rfl
        exact hid hk
      simp only [Function.update_of_ne hne]
      exact h.code id' hid

/-- **A step**: an action is defined and keeps the invariant, and no task but one that finishes
itself ceases to exist. -/
theorem step (h : s.Sound) (a : Action) (ha : s.Enabled a) :
    ∃ s', s.perform a = some s' ∧ s'.Sound ∧ ∀ t ∈ s.m.tasks, Survives s t a → t ∈ s'.m.tasks := by
  cases a with
  | call op => exact h.call op ha
  | waitFinish id =>
    have h' : Sound { s with waiter := Function.update s.waiter id (some s.m.cpu) } :=
      ⟨h.sched, h.registered, h.idle, h.code⟩
    obtain ⟨s', h1, h2, h3⟩ := h'.round id ha.2.1 (.inl ha.1)
    exact ⟨s', h1, h2, fun t ht _ => h3 ▸ ht⟩
  | resume =>
    obtain ⟨id, hid⟩ := Option.ne_none_iff_exists'.mp ha
    have hi : s.m.cpu ≠ TaskManager.idle := by
      intro hi
      rw [hi, h.idle] at hid
      cases hid
    obtain ⟨s', h1, h2, h3⟩ := h.round id hi (.inr hid)
    refine ⟨s', ?_, h2, fun t ht _ => h3 ▸ ht⟩
    rw [perform, hid]
    exact h1

end Sound

theorem Reachable.sound (h : Reachable Enabled s) : s.Sound := by
  induction h with
  | init => exact Sound.init
  | step a _ ha hs ih =>
    obtain ⟨s', h1, h2, -⟩ := ih.step a ha
    rw [hs, Option.some.injEq] at h1
    rwa [h1]

/-! ### What a step leaves alone -/

/-- Only tasks that have been made wait, are waited for, or have finished; who has finished is gone. -/
structure Bounded (s : System) : Prop where
  waiting : ∀ w id, s.waiting w = some id → w ≤ s.m.latestID ∧ id ≤ s.m.latestID
  codes : ∀ id, s.m.finishTasks id ≠ none → id ≤ s.m.latestID ∧ id ∉ s.m.tasks

/-- A task waits for a task that has been made. -/
def Known (s : System) (a : Action) : Prop := s.Enabled a ∧ ∀ id, a = .waitFinish id → id ≤ s.m.latestID

/-- A call that makes and ends no task. -/
theorem Sound.step_sameTasks (h : s.Sound) {op : Operation} (ha : s.m.Allowed op) (hnew : op ≠ .newTask)
    (hfinish : ∀ c, op ≠ .finish c) : ∃ m, s.m.step op = some m ∧ SameTasks s.m m := by
  cases op with
  | newTask => exact absurd rfl hnew
  | finish c => exact absurd rfl (hfinish c)
  | sleep t =>
    obtain ⟨m, h1, -, h3, -⟩ := sleep_spec h.sched ha.1 ha.2
    exact ⟨m, h1, h3⟩
  | sleepByID id =>
    by_cases hid : id ∈ s.m.tasks
    · obtain ⟨m, h1, -, h3, -⟩ := sleep_spec h.sched hid ha
      exact ⟨m, by simp only [TaskManager.step, sleepByID, hid, h1]; rfl, h3⟩
    · exact ⟨s.m, by simp only [TaskManager.step, sleepByID, hid]; rfl, SameTasks.refl _⟩
  | wakeup t level =>
    obtain ⟨m, h1, -, h3, -⟩ := wakeup_spec h.sched.toQueueInv ha.1 level ha.2.2
    exact ⟨m, h1, h3⟩
  | wakeupByID id level =>
    by_cases hid : id ∈ s.m.tasks
    · obtain ⟨m, h1, -, h3, -⟩ := wakeup_spec h.sched.toQueueInv hid level ha.2
      exact ⟨m, by simp only [TaskManager.step, wakeupByID, hid, h1]; rfl, h3⟩
    · exact ⟨s.m, by simp only [TaskManager.step, wakeupByID, hid]; rfl, SameTasks.refl _⟩
  | sendMessage id msg =>
    by_cases hid : id ∈ s.m.tasks
    · obtain ⟨m, h1, -, h3, -⟩ := sendMessageTo_spec h.sched.toQueueInv hid msg
      exact ⟨m, by simp only [TaskManager.step, sendMessage, hid, h1]; rfl, h3⟩
    · exact ⟨s.m, by simp only [TaskManager.step, sendMessage, hid]; rfl, SameTasks.refl _⟩
  | switchTask =>
    obtain ⟨m, h1, -, h3, -⟩ := switchTask_spec h.sched
    exact ⟨m, h1, h3⟩

/-- A call changes no wait, and no exit code but that of a task that finishes; a new task has a new number. -/
theorem Sound.call_frame (h : s.Sound) {op : Operation} (ha : s.Enabled (.call op))
    (hs : s.perform (.call op) = some s') :
    s'.waiting = s.waiting ∧ s.m.latestID ≤ s'.m.latestID ∧ (∀ t ∈ s'.m.tasks, t ∈ s.m.tasks ∨ s.m.latestID < t) ∧
      ∀ t, (∀ c, op = .finish c → t ≠ s.m.cpu) → s'.m.finishTasks t = s.m.finishTasks t := by
  obtain ⟨m, hm, rfl⟩ := Option.map_eq_some_iff.mp hs
  refine ⟨rfl, ?_⟩
  by_cases hnew : op = .newTask
  · subst hnew
    cases hm
    refine ⟨Nat.le_succ _, fun t ht => ?_, fun _ _ => rfl⟩
    rcases List.mem_append.mp ht with hold | hmade
    · exact .inl hold
    · exact .inr (List.mem_singleton.mp hmade ▸ Nat.lt_succ_self _)
  by_cases hfinish : ∃ c, op = .finish c
  · obtain ⟨c, rfl⟩ := hfinish
    obtain ⟨m', h1, -, h3, h4, h5, -⟩ := finish_spec h.sched ha.1 (h.not_registered (ha.2.resolve_left id)) c
    obtain rfl : m' = m := Option.some.inj (h1.symm.trans hm)
    refine ⟨Nat.le_of_eq h4.symm, fun t ht => .inl (List.mem_of_mem_erase (h3 ▸ ht)), fun t ht => ?_⟩
    rw [h5, Function.update_of_ne (ht c rfl)]
  · obtain ⟨m', h1, h3⟩ := h.step_sameTasks ha.1 hnew fun c hc => hfinish ⟨c, hc⟩
    obtain rfl : m' = m := Option.some.inj (h1.symm.trans hm)
    exact ⟨Nat.le_of_eq h3.latestID.symm, fun t ht => .inl (h3.tasks ▸ ht), fun t _ => congrFun h3.finishTasks t⟩

/-- `Finish` leaves the exit code, and not the task. -/
theorem Sound.finish_frame (h : s.Sound) {c : ℤ} (ha : s.Enabled (.call (.finish c)))
    (hs : s.perform (.call (.finish c)) = some s') : s'.m.finishTasks s.m.cpu = some c ∧ s.m.cpu ∉ s'.m.tasks := by
  obtain ⟨m, hm, rfl⟩ := Option.map_eq_some_iff.mp hs
  obtain ⟨m', h1, -, h3, -, h5, -⟩ := finish_spec h.sched ha.1 (h.not_registered (ha.2.resolve_left id)) c
  obtain rfl : m' = m := Option.some.inj (h1.symm.trans hm)
  refine ⟨(congrFun h5 _).trans (Function.update_self ..), fun hmem => ?_⟩
  rw [h3] at hmem
  exact h.sched.nodup.not_mem_erase hmem

/-- A round of `WaitFinish` returns the exit code there is, or goes on waiting. -/
theorem Sound.round_frame (h : s.Sound) {id : TaskID} (hi : s.m.cpu ≠ TaskManager.idle) (hs : s.round id = some s') :
    s'.m.latestID = s.m.latestID ∧ s'.m.tasks = s.m.tasks ∧
      ((∃ c, s.m.finishTasks id = some c ∧ s'.waiting = Function.update s.waiting s.m.cpu none ∧
          s'.returned id = some c ∧ s'.m.finishTasks = Function.update s.m.finishTasks id none) ∨
        (s.m.finishTasks id = none ∧ s'.waiting = Function.update s.waiting s.m.cpu (some id) ∧
          s'.m.finishTasks = s.m.finishTasks)) := by
  obtain ⟨r, hr, rfl⟩ := Option.map_eq_some_iff.mp hs
  unfold waitFinishRound at hr
  cases hk : s.m.finishTasks id with
  | some c =>
    rw [hk] at hr
    cases hr
    exact ⟨rfl, rfl, .inl ⟨c, rfl, rfl, Function.update_self .., rfl⟩⟩
  | none =>
    rw [hk] at hr
    obtain ⟨m, hm, rfl⟩ := Option.map_eq_some_iff.mp hr
    obtain ⟨m', h1, -, h3, -⟩ := sleep_spec (register_spec h.sched id) h.sched.cpu_mem hi
    obtain rfl : m' = m := Option.some.inj (h1.symm.trans hm)
    exact ⟨h3.latestID, h3.tasks, .inr ⟨rfl, rfl, h3.finishTasks⟩⟩

/-- A round of `WaitFinish` as a step. -/
theorem Sound.wait_frame (h : s.Sound) {a : Action} (ha : s.Enabled a) (hcall : ∀ op, a ≠ .call op)
    (hs : s.perform a = some s') : ∃ id, (a = .waitFinish id ∨ s.waiting s.m.cpu = some id) ∧
      s'.m.latestID = s.m.latestID ∧ s'.m.tasks = s.m.tasks ∧
      ((∃ c, s.m.finishTasks id = some c ∧ s'.waiting = Function.update s.waiting s.m.cpu none ∧
          s'.returned id = some c ∧ s'.m.finishTasks = Function.update s.m.finishTasks id none) ∨
        (s.m.finishTasks id = none ∧ s'.waiting = Function.update s.waiting s.m.cpu (some id) ∧
          s'.m.finishTasks = s.m.finishTasks)) := by
  cases a with
  | call op => exact absurd rfl (hcall op)
  | waitFinish id =>
    have h' : Sound { s with waiter := Function.update s.waiter id (some s.m.cpu) } :=
      ⟨h.sched, h.registered, h.idle, h.code⟩
    exact ⟨id, .inl rfl, h'.round_frame ha.2.1 hs⟩
  | resume =>
    obtain ⟨id, hid⟩ := Option.ne_none_iff_exists'.mp ha
    have hi : s.m.cpu ≠ TaskManager.idle := by
      intro hi
      rw [hi, h.idle] at hid
      cases hid
    rw [perform, hid] at hs
    exact ⟨id, .inr hid, h.round_frame hi hs⟩

/-- **A round of `WaitFinish`**, the first or a later one. -/
theorem Sound.wait (h : s.Sound) {id : TaskID} (hi : s.m.cpu ≠ TaskManager.idle)
    (hcpu : ∀ id', s.waiting s.m.cpu = some id' → id' = id) :
    ∃ s', s.perform (if s.waiting s.m.cpu = none then .waitFinish id else .resume) = some s' ∧ s'.Sound ∧
      s'.m.tasks = s.m.tasks ∧ s'.m.latestID = s.m.latestID ∧
      ((∃ c, s.m.finishTasks id = some c ∧ s'.waiting = Function.update s.waiting s.m.cpu none ∧
          s'.returned id = some c ∧ s'.m.finishTasks = Function.update s.m.finishTasks id none) ∨
        (s.m.finishTasks id = none ∧ s'.waiting = Function.update s.waiting s.m.cpu (some id) ∧
          s'.m.finishTasks = s.m.finishTasks)) := by
  cases hw : s.waiting s.m.cpu with
  | none =>
    have h' : Sound { s with waiter := Function.update s.waiter id (some s.m.cpu) } :=
      ⟨h.sched, h.registered, h.idle, h.code⟩
    obtain ⟨s', h1, h2, -⟩ := h'.round id hi (.inl hw)
    obtain ⟨hlatest, htasks, hround⟩ := h'.round_frame hi h1
    exact ⟨s', by rw [if_pos rfl]; exact h1, h2, htasks, hlatest, hround⟩
  | some id' =>
    obtain rfl := hcpu id' hw
    obtain ⟨s', h1, h2, -⟩ := h.round id' hi (.inr hw)
    obtain ⟨hlatest, htasks, hround⟩ := h.round_frame hi h1
    refine ⟨s', ?_, h2, htasks, hlatest, hround⟩
    rw [if_neg (Option.some_ne_none id'), perform, hw]
    exact h1

/-- **A known step** keeps the bounds. -/
theorem Bounded.step (hb : s.Bounded) (h : s.Sound) {a : Action} (ha : s.Known a) (hs : s.perform a = some s') :
    s'.Bounded ∧ s.m.latestID ≤ s'.m.latestID := by
  obtain ⟨ha, hknown⟩ := ha
  by_cases hcall : ∃ op, a = .call op
  · obtain ⟨op, rfl⟩ := hcall
    obtain ⟨hwaiting, hlatest, htasks, hcodes⟩ := h.call_frame ha hs
    refine ⟨⟨fun w id hw => ?_, fun id hid => ?_⟩, hlatest⟩
    · rw [hwaiting] at hw
      exact ⟨Nat.le_trans (hb.waiting w id hw).1 hlatest, Nat.le_trans (hb.waiting w id hw).2 hlatest⟩
    · by_cases hcpu : ∃ c, op = .finish c ∧ id = s.m.cpu
      · obtain ⟨c, rfl, rfl⟩ := hcpu
        exact ⟨Nat.le_trans (h.sched.fresh _ h.sched.cpu_mem) hlatest, (h.finish_frame ha hs).2⟩
      · rw [hcodes id fun c hop he => hcpu ⟨c, hop, he⟩] at hid
        obtain ⟨hle, hgone⟩ := hb.codes id hid
        exact ⟨Nat.le_trans hle hlatest, fun hmem => (htasks id hmem).elim hgone (Nat.not_lt.mpr hle)⟩
  · obtain ⟨id, hid, hlatest, htasks, hround⟩ := h.wait_frame ha (fun op he => hcall ⟨op, he⟩) hs
    have hle : id ≤ s.m.latestID := hid.elim (hknown id) fun hw => (hb.waiting _ id hw).2
    have hcodes : ∀ id', s'.m.finishTasks id' ≠ none → s.m.finishTasks id' ≠ none := by
      intro id' hid'
      rcases hround with ⟨c, -, -, -, hcodes⟩ | ⟨-, -, hcodes⟩
      · rw [hcodes] at hid'
        by_cases hne : id' = id
        · rw [hne, Function.update_self] at hid'
          exact absurd rfl hid'
        · rwa [Function.update_of_ne hne] at hid'
      · rwa [hcodes] at hid'
    have hwaits : ∀ w id', s'.waiting w = some id' → s.waiting w = some id' ∨ (w = s.m.cpu ∧ id' = id) := by
      intro w id' hw
      rcases hround with ⟨c, -, hwaiting, -⟩ | ⟨-, hwaiting, -⟩
      · rw [hwaiting] at hw
        by_cases hwc : w = s.m.cpu
        · rw [hwc, Function.update_self] at hw
          cases hw
        · rw [Function.update_of_ne hwc] at hw
          exact .inl hw
      · rw [hwaiting] at hw
        by_cases hwc : w = s.m.cpu
        · rw [hwc, Function.update_self, Option.some.injEq] at hw
          exact .inr ⟨hwc, hw.symm⟩
        · rw [Function.update_of_ne hwc] at hw
          exact .inl hw
    refine ⟨⟨fun w id' hw => ?_, fun id' hid' => ?_⟩, Nat.le_of_eq hlatest.symm⟩
    · rw [hlatest]
      rcases hwaits w id' hw with hold | ⟨rfl, rfl⟩
      · exact hb.waiting w id' hold
      · exact ⟨h.sched.fresh _ h.sched.cpu_mem, hle⟩
    · rw [hlatest, htasks]
      exact hb.codes id' (hcodes id' hid')

theorem Reachable.bounded (h : Reachable Known s) : s.Sound ∧ s.Bounded := by
  induction h with
  | init => exact ⟨Sound.init, nofun, fun _ hid => absurd rfl hid⟩
  | step a _ ha hs ih =>
    obtain ⟨s', h1, h2, -⟩ := ih.1.step a ha.1
    obtain rfl := Option.some.inj (h1.symm.trans hs)
    exact ⟨h2, (ih.2.step ih.1 ha hs).1⟩

/-- What tasks other than some do: none of these finishes, waits or is waited for by others. -/
def Apart (s : System) (ts : List TaskID) : Action → Prop
  | .call (.finish _) | .resume => s.m.cpu ∉ ts
  | .call _ => True
  | .waitFinish id => s.m.cpu ∉ ts ∧ id ∉ ts

/-- **What other tasks do** leaves the waits and the exit codes of some tasks alone, and who waits for them. -/
theorem Sound.apart_frame (h : s.Sound) {ts : List TaskID}
    (hts : ∀ w id, s.waiting w = some id → id ∈ ts → w ∈ ts ∨ s.m.finishTasks id = none)
    {a : Action} (ha : s.Enabled a) (hapart : s.Apart ts a) (hs : s.perform a = some s') :
    (∀ t ∈ ts, s'.m.finishTasks t = s.m.finishTasks t ∧ s'.waiting t = s.waiting t) ∧
      ∀ w id, s'.waiting w = some id → id ∈ ts → s.waiting w = some id := by
  by_cases hcall : ∃ op, a = .call op
  · obtain ⟨op, rfl⟩ := hcall
    obtain ⟨hwaiting, -, -, hcodes⟩ := h.call_frame ha hs
    rw [hwaiting]
    refine ⟨fun t ht => ⟨hcodes t ?_, rfl⟩, fun _ _ hw _ => hw⟩
    rintro c rfl rfl
    exact hapart ht
  · obtain ⟨id, hid, -, -, hround⟩ := h.wait_frame ha (fun op he => hcall ⟨op, he⟩) hs
    have hother : s.m.cpu ∉ ts ∧ (id ∈ ts → s.waiting s.m.cpu = some id) := by
      cases a with
      | call op => exact absurd ⟨op, rfl⟩ hcall
      | waitFinish id' =>
        rcases hid with he | hw
        · cases he
          exact ⟨hapart.1, fun hmem => absurd hmem hapart.2⟩
        · rw [ha.1] at hw
          cases hw
      | resume => exact ⟨hapart, fun _ => hid.resolve_left nofun⟩
    obtain ⟨hcpu, hsame⟩ := hother
    have hne : ∀ t ∈ ts, t ≠ s.m.cpu := fun t ht he => hcpu (he ▸ ht)
    rcases hround with ⟨c, hc, hwaiting, -, hcodes⟩ | ⟨-, hwaiting, hcodes⟩
    · have hnid : ∀ t ∈ ts, t ≠ id := by
        rintro t ht rfl
        rcases hts _ t (hsame ht) ht with hmem | hnone
        · exact hcpu hmem
        · rw [hc] at hnone
          cases hnone
      rw [hwaiting, hcodes]
      refine ⟨fun t ht => ⟨Function.update_of_ne (hnid t ht) .., Function.update_of_ne (hne t ht) ..⟩,
        fun w id' hw _ => ?_⟩
      by_cases hwc : w = s.m.cpu
      · rw [hwc, Function.update_self] at hw
        cases hw
      · rwa [Function.update_of_ne hwc] at hw
    · rw [hwaiting, hcodes]
      refine ⟨fun t ht => ⟨rfl, Function.update_of_ne (hne t ht) ..⟩, fun w id' hw hid' => ?_⟩
      by_cases hwc : w = s.m.cpu
      · rw [hwc, Function.update_self, Option.some.injEq] at hw
        rw [hwc, ← hw]
        exact hsame (hw ▸ hid')
      · rwa [Function.update_of_ne hwc] at hw

end DuvuvurKernel.TaskManager.System
