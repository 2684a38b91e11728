import DuvuvurKernel.Lib.Neighbours
import DuvuvurKernel.Terminal.PipelineRun

/-!
# The plumbing of a line

What holds of the terminals of a line `c1 | c2 | ... | cn > f`. Of each terminal it is said what
has come of it, as far as that depends on the terminal behind it (`Stage`); the exit code comes
back from the last to the first.

**Result** (`pipeline_plumbed`): in a run in which no stage finishes before it has been sent
its end marker, every stage runs its command once, connected to its neighbours, and is sent one end
marker; when the first terminal returns, all have run, its standard output is what it was,
and its exit code is that of the last command.

Nothing makes a stage outlive the one before it: a command that is not found finishes at once,
and the end marker goes to a destroyed task (`marker_to_destroyed`).
-/

namespace DuvuvurKernel.PipelineRun

open TaskManager LineTerminal CommandLine Lib.Neighbours

variable {L : PipelineLine} {opens : List UInt8 → Bool} {p p' : PipelineRun} {i : ℕ} {sh new : Shell}
    {next : Option Shell}

/-! ### What a stage has done -/

/-- Where the output of a line goes. -/
def output (L : PipelineLine) : FileRef := L.file.elim (.given 1) .file

/-- The standard input of a stage. -/
def stdin (i : ℕ) (task : TaskID) : FileRef := if i = 0 then .given 0 else .pipe task

/-- The standard output a terminal is given. -/
def stdout (L : PipelineLine) (i : ℕ) : FileRef := if i = 0 then .given 1 else output L

/-- The standard output of the command of a stage. -/
def commandStdout (L : PipelineLine) (next : Option Shell) : FileRef := next.elim (output L) fun n => .pipe n.task

/-- What the command of a stage is called with. -/
def invocation (L : PipelineLine) (i : ℕ) (task : TaskID) (next : Option Shell) : Invocation :=
  ⟨word (L.text i), arguments (L.text i), ⟨stdin i task, commandStdout L next, .given 2⟩⟩

/-- The command has been called, and `ExecuteLine` has not returned. -/
structure Busy (L : PipelineLine) (i : ℕ) (sh : Shell) (next : Option Shell) : Prop where
  original : sh.originalStdout = stdout L i
  invoked : sh.invocations = [invocation L i sh.task next]
  last : next = none ↔ i = L.rest.length

/-- `ExecuteLine` has returned. -/
structure Settled (L : PipelineLine) (i : ℕ) (sh : Shell) (next : Option Shell) : Prop where
  stdout : sh.files.stdout = stdout L i
  invoked : sh.invocations = [invocation L i sh.task next]
  last : next = none ↔ i = L.rest.length
  marked : sh.written.count [] = if next.isSome then 1 else 0
  own : next = none → sh.exitCode = some sh.lastExitCode
  passed : ∀ n, next = some n → n.phase = .finished ∧ sh.lastExitCode = n.lastExitCode
  ended : sh.exitCode.isSome

/-- What has come of a stage. -/
def Progress (L : PipelineLine) (i : ℕ) (sh : Shell) (next : Option Shell) : Phase → Prop
  | .typed => next = none ∧ sh.files.stdout = stdout L i ∧ sh.invocations = [] ∧ sh.exitCode = none ∧ sh.written = []
  | .running subtask => Busy L i sh next ∧ subtask = next.map Shell.task ∧ (∀ n, next = some n → n.phase ≠ .finished) ∧
      sh.exitCode = none ∧ [] ∉ sh.written
  | .ended subtask =>
    Busy L i sh next ∧ some subtask = next.map Shell.task ∧ (∀ n, next = some n → n.phase ≠ .finished) ∧
      sh.exitCode.isSome ∧ [] ∉ sh.written
  | .waiting subtask =>
    Busy L i sh next ∧ some subtask = next.map Shell.task ∧ sh.exitCode.isSome ∧ sh.written.count [] = 1
  | .returned | .finished => Settled L i sh next

/-- What holds of a terminal and the one behind it. -/
structure Stage (L : PipelineLine) (i : ℕ) (sh : Shell) (next : Option Shell) : Prop where
  le : i ≤ L.rest.length
  line : sh.line = if i = 0 then L.line else L.stageLine i
  stdin : sh.files.stdin = stdin i sh.task
  stderr : sh.files.stderr = .given 2
  progress : Progress L i sh next sh.phase

/-- What a terminal finds in its line. -/
theorem Stage.ofLine (h : Stage L i sh next) : CommandLine.ofLine sh.line = ⟨word (L.text i), arguments (L.text i),
    if i = 0 then L.file else none, if i < L.rest.length then some (L.stageLine (i + 1)) else none⟩ := by
  rw [h.line]
  split
  next hzero =>
    subst hzero
    exact PipelineLine.ofLine_line
  next => exact PipelineLine.ofLine_stageLine h.le

/-- The terminal behind takes a step; it finishes only where it is waited for. -/
theorem Stage.replace {a b : Shell} (h : Stage L i sh (some a)) (htask : b.task = a.task) (hne : a.phase ≠ .finished)
    (hfinished : b.phase = .finished → ∃ subtask, sh.phase = .waiting subtask) : Stage L i sh (some b) := by
  obtain ⟨hle, hline, hstdin, hstderr, hprogress⟩ := h
  have hbusy : Busy L i sh (some a) → Busy L i sh (some b) := by
    rintro ⟨horiginal, hinvoked, hlast⟩
    refine ⟨horiginal, ?_, by simpa using hlast⟩
    rw [hinvoked, invocation, invocation, commandStdout, commandStdout, Option.elim_some, Option.elim_some, htask]
  refine ⟨hle, hline, hstdin, hstderr, ?_⟩
  cases hphase : sh.phase with
  | typed =>
    rw [hphase] at hprogress
    exact absurd hprogress.1 (Option.some_ne_none a)
  | running subtask =>
    rw [hphase] at hprogress
    obtain ⟨hb, hsub, -, hrest⟩ := hprogress
    refine ⟨hbusy hb, by rw [hsub, Option.map_some, Option.map_some, htask], fun n hn hf => ?_, hrest⟩
    cases hn
    obtain ⟨t, ht⟩ := hfinished hf
    rw [hphase] at ht
    cases ht
  | ended subtask =>
    rw [hphase] at hprogress
    obtain ⟨hb, hsub, -, hrest⟩ := hprogress
    refine ⟨hbusy hb, by rw [hsub, Option.map_some, Option.map_some, htask], fun n hn hf => ?_, hrest⟩
    cases hn
    obtain ⟨t, ht⟩ := hfinished hf
    rw [hphase] at ht
    cases ht
  | waiting subtask =>
    rw [hphase] at hprogress
    obtain ⟨hb, hsub, hrest⟩ := hprogress
    exact ⟨hbusy hb, by rw [hsub, Option.map_some, Option.map_some, htask], hrest⟩
  | returned | finished =>
    rw [hphase] at hprogress
    exact absurd (hprogress.passed a rfl).1 hne

/-! ### The tasks of the terminals -/

/-- What the task manager knows of the tasks of the terminals. -/
structure TasksInv (p : PipelineRun) : Prop where
  sound : p.s.Sound
  bounded : p.s.Bounded
  nodup : p.tasks.Nodup
  made : ∀ t ∈ p.tasks, t ≤ p.s.m.latestID ∧ t ≠ idle
  /-- A terminal that has not finished has its task. -/
  alive : ∀ sh ∈ p.shells, sh.phase ≠ .finished → sh.task ∈ p.s.m.tasks
  /-- The exit code that is kept is that of a terminal that has finished. -/
  codes : ∀ sh ∈ p.shells, ∀ c, p.s.m.finishTasks sh.task = some c → sh.phase = .finished ∧ c = sh.lastExitCode
  /-- A terminal waits for the task behind its `|`. -/
  waits : ∀ sh ∈ p.shells, ∀ id, p.s.waiting sh.task = some id → sh.phase = .waiting id
  /-- Only terminals wait for tasks of terminals, but for that of the first. -/
  waiters : ∀ w id, p.s.waiting w = some id → id ∈ p.tasks → w ∈ p.tasks ∨ p.tasks[0]? = some id

theorem mem_tasks (h : p.shells[i]? = some sh) : sh.task ∈ p.tasks := List.mem_map_of_mem (List.mem_of_getElem? h)

theorem tasks_set {s : System} (hi : p.shells[i]? = some sh) (htask : new.task = sh.task) :
    tasks ⟨s, p.shells.set i new⟩ = p.tasks := by
  obtain ⟨hlt, hget⟩ := List.getElem?_eq_some_iff.mp hi
  have hlength : i < (p.shells.map Shell.task).length := by rwa [List.length_map]
  have hsame : (p.shells.map Shell.task)[i] = new.task := by rw [List.getElem_map, hget, htask]
  unfold tasks
  rw [List.map_set, ← hsame]
  exact List.set_getElem_self hlength

/-- The other terminals. -/
theorem mem_set_shells (h : p.TasksInv) (hi : p.shells[i]? = some sh) {c : Shell} (hc : c ∈ p.shells.set i new) :
    c = new ∨ (c ∈ p.shells ∧ c.task ≠ sh.task) := by
  have hlt : i < p.shells.length := (List.getElem?_eq_some_iff.mp hi).1
  obtain ⟨j, hj⟩ := List.getElem?_of_mem hc
  by_cases hij : i = j
  · rw [← hij, List.getElem?_set_self hlt, Option.some.injEq] at hj
    exact .inl hj.symm
  · rw [List.getElem?_set_ne hij] at hj
    refine .inr ⟨List.mem_of_getElem? hj, fun htask => hij ?_⟩
    have hlength : i < p.tasks.length := by simpa [tasks] using hlt
    have hsame : p.tasks[i]? = p.tasks[j]? := by simp [tasks, hi, hj, htask]
    exact (List.getElem?_inj hlength h.nodup).mp hsame

/-- **A terminal takes a step**, and what the system does to the others is nothing. -/
theorem TasksInv.set (h : p.TasksInv) (hi : p.shells[i]? = some sh) {s : System} (htask : new.task = sh.task)
    (hsound : s.Sound) (hbounded : s.Bounded) (hlatest : p.s.m.latestID ≤ s.m.latestID)
    (hothers : ∀ t ∈ p.tasks, t ≠ sh.task → (t ∈ p.s.m.tasks → t ∈ s.m.tasks) ∧
      (∀ c, s.m.finishTasks t = some c → p.s.m.finishTasks t = some c) ∧ s.waiting t = p.s.waiting t)
    (halive : new.phase ≠ .finished → sh.task ∈ s.m.tasks)
    (hcodes : ∀ c, s.m.finishTasks sh.task = some c → new.phase = .finished ∧ c = new.lastExitCode)
    (hwaits : ∀ id, s.waiting sh.task = some id → new.phase = .waiting id)
    (hwaiters : ∀ w id, s.waiting w = some id → id ∈ p.tasks → w ∈ p.tasks ∨ p.tasks[0]? = some id) :
    TasksInv ⟨s, p.shells.set i new⟩ := by
  have htasks := tasks_set (s := s) hi htask
  have hmem : ∀ c ∈ p.shells, c.task ∈ p.tasks := fun c hc => List.mem_map_of_mem hc
  refine ⟨hsound, hbounded, htasks ▸ h.nodup, fun t ht => ?_, fun c hc hne => ?_, fun c hc code hcode => ?_,
    fun c hc id hid => ?_, fun w id hw hid => ?_⟩
  · rw [htasks] at ht
    exact ⟨Nat.le_trans (h.made t ht).1 hlatest, (h.made t ht).2⟩
  · rcases mem_set_shells h hi hc with rfl | ⟨hc, hother⟩
    · exact htask ▸ halive hne
    · exact (hothers _ (hmem c hc) hother).1 (h.alive c hc hne)
  · rcases mem_set_shells h hi hc with rfl | ⟨hc, hother⟩
    · exact hcodes code (htask ▸ hcode)
    · exact h.codes c hc code ((hothers _ (hmem c hc) hother).2.1 code hcode)
  · rcases mem_set_shells h hi hc with rfl | ⟨hc, hother⟩
    · exact hwaits id (htask ▸ hid)
    · exact h.waits c hc id ((hothers _ (hmem c hc) hother).2.2 ▸ hid)
  · rw [htasks] at hid ⊢
    exact hwaiters w id hw hid

/-- A terminal takes a step that does not concern the system. -/
theorem TasksInv.set_shell (h : p.TasksInv) (new : Shell) (hi : p.shells[i]? = some sh) (htask : new.task = sh.task)
    (hphase : sh.phase ≠ .finished) (hwaiting : p.s.waiting sh.task = none) : TasksInv ⟨p.s, p.shells.set i new⟩ := by
  have hmem := List.mem_of_getElem? hi
  refine h.set hi htask h.sound h.bounded (Nat.le_refl _) (fun t _ _ => ⟨id, fun _ => id, rfl⟩)
    (fun _ => h.alive sh hmem hphase) (fun c hc => absurd (h.codes sh hmem c hc).1 hphase) (fun id hid => ?_) h.waiters
  rw [hwaiting] at hid
  cases hid

/-- A terminal collects the exit code it waited for. -/
theorem TasksInv.collects (h : p.TasksInv) (new : Shell) (hi : p.shells[i]? = some sh) {s : System} {id : TaskID}
    (htask : new.task = sh.task) (hphase : sh.phase ≠ .finished) (hsound : s.Sound)
    (htasks : s.m.tasks = p.s.m.tasks) (hlatest : s.m.latestID = p.s.m.latestID)
    (hwaiting : s.waiting = Function.update p.s.waiting sh.task none)
    (hcodes : s.m.finishTasks = Function.update p.s.m.finishTasks id none) :
    TasksInv ⟨s, p.shells.set i new⟩ := by
  have hmem := List.mem_of_getElem? hi
  have hwait : ∀ w id, s.waiting w = some id → p.s.waiting w = some id := by
    intro w id hw
    rw [hwaiting] at hw
    by_cases hwc : w = sh.task
    · rw [hwc, Function.update_self] at hw
      cases hw
    · rwa [Function.update_of_ne hwc] at hw
  have hold : ∀ t c, s.m.finishTasks t = some c → p.s.m.finishTasks t = some c := by
    intro t c ht
    rw [hcodes] at ht
    by_cases hid : t = id
    · rw [hid, Function.update_self] at ht
      cases ht
    · rwa [Function.update_of_ne hid] at ht
  refine h.set hi htask hsound ⟨fun w id hw => ?_, fun id hid => ?_⟩ (Nat.le_of_eq hlatest.symm)
    (fun t _ hne => ⟨fun ht => htasks ▸ ht, hold t, ?_⟩) (fun _ => htasks ▸ h.alive sh hmem hphase)
    (fun c hc => absurd (h.codes sh hmem c (hold _ c hc)).1 hphase) (fun id hid => ?_) fun w id hw hid => ?_
  · rw [hlatest]
    exact h.bounded.waiting w id (hwait w id hw)
  · obtain ⟨c, hc⟩ := Option.ne_none_iff_exists'.mp hid
    rw [hlatest, htasks]
    exact h.bounded.codes id (by rw [hold id c hc]; exact Option.some_ne_none c)
  · rw [hwaiting, Function.update_of_ne hne]
  · rw [hwaiting, Function.update_self] at hid
    cases hid
  · exact h.waiters w id (hwait w id hw) hid

/-- A terminal goes on waiting for the task of another. -/
theorem TasksInv.sleeps (h : p.TasksInv) (hi : p.shells[i]? = some sh) {s : System} {id : TaskID}
    (hphase : sh.phase = .waiting id) (hid : id ∈ p.tasks) (hsound : s.Sound)
    (htasks : s.m.tasks = p.s.m.tasks) (hlatest : s.m.latestID = p.s.m.latestID)
    (hwaiting : s.waiting = Function.update p.s.waiting sh.task (some id))
    (hcodes : s.m.finishTasks = p.s.m.finishTasks) : TasksInv ⟨s, p.shells⟩ := by
  have hmem := List.mem_of_getElem? hi
  have hne : sh.phase ≠ .finished := by
    rw [hphase]
    exact nofun
  have hset : TasksInv ⟨s, p.shells.set i sh⟩ := by
    refine h.set hi rfl hsound ⟨fun w id' hw => ?_, ?_⟩ (Nat.le_of_eq hlatest.symm)
      (fun t _ hne => ⟨fun ht => htasks ▸ ht, fun c hc => hcodes ▸ hc, ?_⟩) (fun _ => htasks ▸ h.alive sh hmem hne)
      (fun c hc => h.codes sh hmem c (hcodes ▸ hc)) (fun id' hid' => ?_) fun w id' hw hid' => ?_
    · rw [hlatest]
      rw [hwaiting] at hw
      by_cases hwc : w = sh.task
      · rw [hwc, Function.update_self, Option.some.injEq] at hw
        exact ⟨hwc ▸ (h.made _ (mem_tasks hi)).1, hw ▸ (h.made _ hid).1⟩
      · rw [Function.update_of_ne hwc] at hw
        exact h.bounded.waiting w id' hw
    · rw [hcodes, hlatest, htasks]
      exact h.bounded.codes
    · rw [hwaiting, Function.update_of_ne hne]
    · rw [hwaiting, Function.update_self, Option.some.injEq] at hid'
      exact hid' ▸ hphase
    · rw [hwaiting] at hw
      by_cases hwc : w = sh.task
      · exact .inl (hwc ▸ mem_tasks hi)
      · rw [Function.update_of_ne hwc] at hw
        exact h.waiters w id' hw hid'
  have hsame : p.shells.set i sh = p.shells := by
    obtain ⟨hlt, hget⟩ := List.getElem?_eq_some_iff.mp hi
    rw [← hget]
    exact List.set_getElem_self hlt
  rwa [hsame] at hset

/-- A terminal that has the processor sends a message. -/
theorem TasksInv.send (h : p.TasksInv) (new : Shell) (hi : p.shells[i]? = some sh) (htask : new.task = sh.task)
    (hphase : sh.phase ≠ .finished) (hwaiting : p.s.waiting sh.task = none) {t : TaskID} (ht : t ∈ p.s.m.tasks)
    (msg : Message) :
    ∃ m, p.s.m.sendMessageTo t msg = some m ∧ TasksInv ⟨{ p.s with m := m }, p.shells.set i new⟩ := by
  obtain ⟨m, h1, h2, h3, h4, h5, -⟩ := sendMessageTo_spec h.sound.sched.toQueueInv ht msg
  have hset := h.set_shell new hi htask hphase hwaiting
  refine ⟨m, h1, h.sound.of_wakeup h2 h3 h4 h5, ⟨?_, ?_⟩, hset.nodup, ?_, ?_, ?_, hset.waits, hset.waiters⟩
  · rw [h3.latestID]
    exact h.bounded.waiting
  · rw [h3.finishTasks, h3.latestID, h3.tasks]
    exact h.bounded.codes
  · rw [h3.latestID]
    exact hset.made
  · rw [h3.tasks]
    exact hset.alive
  · rw [h3.finishTasks]
    exact hset.codes

theorem idle_mem {m : TaskManager} (h : m.QueueInv) : TaskManager.idle ∈ m.tasks := by
  obtain ⟨lv, hlv⟩ := Option.ne_none_iff_exists'.mp h.idle
  exact (mem_of_place hlv).1

/-- A task is started for a terminal. -/
theorem TasksInv.push (h : p.TasksInv) {n : Shell} (htask : n.task = p.s.m.latestID + 1) :
    ∃ s, startTask p.s = some s ∧ TasksInv ⟨s, p.shells ++ [n]⟩ := by
  have hsound := h.sound.newTask
  have hmem : p.s.m.latestID + 1 ∈ p.s.m.newTask.tasks := List.mem_append_right _ (List.mem_singleton_self _)
  obtain ⟨m, h1, h2, h3, h4, h5, -⟩ := wakeup_spec hsound.sched.toQueueInv hmem (-1) (by decide)
  have hlatest : m.latestID = p.s.m.latestID + 1 := h3.latestID
  have hcodes : m.finishTasks = p.s.m.finishTasks := h3.finishTasks
  have hnone : p.s.m.finishTasks (p.s.m.latestID + 1) = none := by
    by_contra hne
    exact Nat.not_succ_le_self _ (h.bounded.codes _ hne).1
  have hfresh : p.s.m.latestID + 1 ∉ p.tasks := fun ht => Nat.not_succ_le_self _ (h.made _ ht).1
  have htasks : tasks ⟨{ p.s with m := m }, p.shells ++ [n]⟩ = p.tasks ++ [p.s.m.latestID + 1] := by simp [tasks, htask]
  refine ⟨{ p.s with m := m }, ?_, hsound.of_wakeup h2 h3 h4 h5, ⟨fun w id hw => ?_, fun id hid => ?_⟩, ?_,
    fun t ht => ?_, fun c hc hne => ?_, fun c hc code hcode => ?_, fun c hc id hid => ?_, fun w id hw hid => ?_⟩
  · exact Option.map_eq_some_iff.mpr ⟨m, h1, rfl⟩
  · rw [hlatest]
    exact ⟨Nat.le_succ_of_le (h.bounded.waiting w id hw).1, Nat.le_succ_of_le (h.bounded.waiting w id hw).2⟩
  · rw [hlatest, h3.tasks]
    rw [hcodes] at hid
    obtain ⟨hle, hgone⟩ := h.bounded.codes id hid
    refine ⟨Nat.le_succ_of_le hle, fun hid => ?_⟩
    rcases List.mem_append.mp hid with hold | hnew
    · exact hgone hold
    · rw [List.mem_singleton.mp hnew] at hle
      exact Nat.not_succ_le_self _ hle
  · rw [htasks]
    exact List.nodup_append.mpr ⟨h.nodup, List.nodup_singleton _, fun t ht u hu => by
      rintro rfl
      exact hfresh (List.mem_singleton.mp hu ▸ ht)⟩
  · rw [hlatest]
    rw [htasks] at ht
    rcases List.mem_append.mp ht with hold | hnew
    · exact ⟨Nat.le_succ_of_le (h.made t hold).1, (h.made t hold).2⟩
    · have hidle : TaskManager.idle ≤ p.s.m.latestID := h.sound.sched.fresh _ (idle_mem h.sound.sched.toQueueInv)
      have ht := List.mem_singleton.mp hnew
      refine ⟨Nat.le_of_eq ht, fun he => ?_⟩
      rw [← he, ht] at hidle
      exact Nat.not_succ_le_self _ hidle
  · rw [h3.tasks]
    rcases List.mem_append.mp hc with hold | hnew
    · exact List.mem_append_left _ (h.alive c hold hne)
    · rw [List.mem_singleton.mp hnew, htask]
      exact hmem
  · dsimp only at hcode
    rw [hcodes] at hcode
    rcases List.mem_append.mp hc with hold | hnew
    · exact h.codes c hold code hcode
    · rw [List.mem_singleton.mp hnew, htask, hnone] at hcode
      cases hcode
  · rcases List.mem_append.mp hc with hold | hnew
    · exact h.waits c hold id hid
    · rw [List.mem_singleton.mp hnew, htask] at hid
      exact absurd (h.bounded.waiting _ id hid).1 (Nat.not_succ_le_self _)
  · rw [htasks] at hid ⊢
    rcases List.mem_append.mp hid with hold | hnew
    · refine (h.waiters w id hw hold).imp (List.mem_append_left _) fun hfirst => ?_
      rw [List.getElem?_append_left (List.getElem?_eq_some_iff.mp hfirst).1, hfirst]
    · have hle := (h.bounded.waiting w id hw).2
      rw [List.mem_singleton.mp hnew] at hle
      exact absurd hle (Nat.not_succ_le_self _)

/-! ### Steps -/

/-- What holds in every state of an orderly run. -/
structure Inv (L : PipelineLine) (p : PipelineRun) : Prop extends TasksInv p where
  stages : Linked (Stage L) p.shells
  /-- The first terminal does not finish. -/
  first : ∃ sh, p.shells[0]? = some sh ∧ sh.phase ≠ .finished

theorem Inv.first_set (h : p.Inv L) (hi : p.shells[i]? = some sh) (hnew : i = 0 → new.phase ≠ .finished) :
    ∃ sh, (p.shells.set i new)[0]? = some sh ∧ sh.phase ≠ .finished := by
  by_cases hzero : i = 0
  · subst hzero
    exact ⟨new, List.getElem?_set_self (List.getElem?_eq_some_iff.mp hi).1, hnew rfl⟩
  · rw [List.getElem?_set_ne hzero]
    exact h.first

/-- **A terminal takes a step** that does not end its task. -/
theorem Inv.of_set (h : p.Inv L) (hi : p.shells[i]? = some sh) {s : System} (htasks : TasksInv ⟨s, p.shells.set i new⟩)
    (htask : new.task = sh.task) (hphase : sh.phase ≠ .finished) (hnew : new.phase ≠ .finished)
    (hstage : Stage L i new p.shells[i + 1]?) : Inv L ⟨s, p.shells.set i new⟩ := by
  refine ⟨htasks, h.stages.set hi hstage fun j c _ _ hc => hc.replace htask hphase fun hf => absurd hf hnew, ?_⟩
  exact h.first_set hi fun _ => hnew

/-- There is no exit code of the first terminal. -/
theorem Inv.first_code (h : p.Inv L) {t : TaskID} (ht : p.tasks[0]? = some t) : p.s.m.finishTasks t = none := by
  obtain ⟨sh, hsh, hphase⟩ := h.first
  rw [tasks, List.getElem?_map, hsh] at ht
  obtain rfl := Option.some.inj ht
  by_contra hne
  obtain ⟨c, hc⟩ := Option.ne_none_iff_exists'.mp hne
  exact hphase (h.codes sh (List.mem_of_getElem? hsh) c hc).1

/-- What others do. -/
theorem Inv.system (h : p.Inv L) {a : TaskManager.Action} (ha : p.s.Known a) (hapart : p.s.Apart p.tasks a) :
    ∃ p', p.perform opens (.system a) = some p' ∧ p'.Inv L := by
  obtain ⟨s', h1, h2, h3⟩ := h.sound.step a ha.1
  have hts : ∀ w id, p.s.waiting w = some id → id ∈ p.tasks → w ∈ p.tasks ∨ p.s.m.finishTasks id = none :=
    fun w id hw hid => (h.waiters w id hw hid).imp (fun hmem => hmem) h.first_code
  obtain ⟨hframe, hwaiters⟩ := h.sound.apart_frame hts ha.1 hapart h1
  obtain ⟨hbounded, hlatest⟩ := h.bounded.step h.sound ha h1
  have hmem : ∀ sh ∈ p.shells, sh.task ∈ p.tasks := fun sh hsh => List.mem_map_of_mem hsh
  refine ⟨{ p with s := s' }, by simp only [perform, h1]; rfl,
    ⟨h2, hbounded, h.nodup, fun t ht => ?_, fun sh hsh hne => ?_, fun sh hsh c hc => ?_, fun sh hsh id hid => ?_,
      fun w id hw hid => h.waiters w id (hwaiters w id hw hid) hid⟩,
    h.stages, h.first⟩
  · exact ⟨Nat.le_trans (h.made t ht).1 hlatest, (h.made t ht).2⟩
  · refine h3 _ (h.alive sh hsh hne) ?_
    unfold System.Sound.Survives
    split
    next c =>
      intro he
      exact hapart (he ▸ hmem sh hsh)
    next => trivial
  · rw [(hframe _ (hmem sh hsh)).1] at hc
    exact h.codes sh hsh c hc
  · rw [(hframe _ (hmem sh hsh)).2] at hid
    exact h.waits sh hsh id hid

/-- The task behind a pipe exists. -/
theorem Inv.subtask_alive (h : p.Inv L) {subtask : TaskID} (hsub : some subtask = p.shells[i + 1]?.map Shell.task)
    (hunfinished : ∀ n, p.shells[i + 1]? = some n → n.phase ≠ .finished) : subtask ∈ p.s.m.tasks := by
  obtain ⟨n, hn, rfl⟩ := Option.map_eq_some_iff.mp hsub.symm
  exact h.alive n (List.mem_of_getElem? hn) (hunfinished n hn)

theorem Busy.congr (h : Busy L i sh next) (htask : new.task = sh.task)
    (horiginal : new.originalStdout = sh.originalStdout) (hinvoked : new.invocations = sh.invocations) :
    Busy L i new next :=
  ⟨horiginal.trans h.original, by rw [hinvoked, htask, h.invoked], h.last⟩

/-- The command writes to its pipe. -/
theorem Inv.write (h : p.Inv L) {data : List UInt8} (he : p.Enabled (.write i data)) :
    ∃ p', p.perform opens (.write i data) = some p' ∧ p'.Inv L := by
  obtain ⟨sh, hi, -, hwaiting, ⟨subtask, hphase⟩, hdata⟩ := he
  have hne : sh.phase ≠ .finished := by
    rw [hphase]
    exact nofun
  have hstage := h.stages i sh hi
  have hprogress := hstage.progress
  rw [hphase] at hprogress
  obtain ⟨hbusy, hsub, hunfinished, hcode, hwritten⟩ := hprogress
  obtain ⟨m, hsend, htasks⟩ := h.toTasksInv.send { sh with written := sh.written ++ [data] } hi rfl hne hwaiting
    (h.subtask_alive hsub hunfinished) (pipeMessage data)
  refine ⟨_, ?_, h.of_set hi htasks rfl hne hne ⟨hstage.le, hstage.line, hstage.stdin, hstage.stderr, ?_⟩⟩
  · simp only [perform, hi, Option.bind_some, PipelineRun.write, hphase, hsend, Option.map_some]
  · dsimp only
    rw [hphase]
    refine ⟨hbusy.congr rfl rfl rfl, hsub, hunfinished, hcode, fun hmem => ?_⟩
    rcases List.mem_append.mp hmem with hold | hnew
    · exact hwritten hold
    · exact hdata (List.mem_singleton.mp hnew).symm

/-- The command returns. -/
theorem Inv.commandReturns (h : p.Inv L) {exitCode : ℤ} (he : p.Enabled (.commandReturns i exitCode)) :
    ∃ p', p.perform opens (.commandReturns i exitCode) = some p' ∧ p'.Inv L := by
  obtain ⟨sh, hi, -, hwaiting, ⟨subtask, hphase⟩, -⟩ := he
  have hne : sh.phase ≠ .finished := by
    rw [hphase]
    exact nofun
  have hstage := h.stages i sh hi
  have hprogress := hstage.progress
  rw [hphase] at hprogress
  obtain ⟨hbusy, hsub, hunfinished, hcode, hwritten⟩ := hprogress
  cases subtask with
  | none =>
    have hnext : p.shells[i + 1]? = none := Option.map_eq_none_iff.mp hsub.symm
    have htasks := h.toTasksInv.set_shell ({ sh with exitCode := some exitCode }.returns exitCode) hi rfl hne hwaiting
    refine ⟨_, ?_, h.of_set hi htasks rfl hne nofun ⟨hstage.le, hstage.line, hstage.stdin, hstage.stderr, ?_⟩⟩
    · simp only [perform, hi, Option.bind_some, PipelineRun.commandReturns, hphase]
    · rw [hnext]
      rw [hnext] at hbusy
      refine ⟨hbusy.original, hbusy.invoked, hbusy.last, List.count_eq_zero.mpr hwritten,
        fun _ => rfl, fun n hn => ?_, rfl⟩
      exact absurd hn.symm (Option.some_ne_none n)
  | some subtask =>
    have htasks := h.toTasksInv.set_shell
      { sh with exitCode := some exitCode, phase := .ended subtask } hi rfl hne hwaiting
    refine ⟨_, ?_, h.of_set hi htasks rfl hne nofun ⟨hstage.le, hstage.line, hstage.stdin, hstage.stderr, ?_⟩⟩
    · simp only [perform, hi, Option.bind_some, PipelineRun.commandReturns, hphase]
    · exact ⟨hbusy.congr rfl rfl rfl, hsub, hunfinished, rfl, hwritten⟩

/-- **The end marker is sent**: the task behind the pipe exists. -/
theorem Inv.finishWrite (h : p.Inv L) (he : p.Enabled (.finishWrite i)) :
    ∃ p', p.perform opens (.finishWrite i) = some p' ∧ p'.Inv L := by
  obtain ⟨sh, hi, -, hwaiting, subtask, hphase⟩ := he
  have hne : sh.phase ≠ .finished := by
    rw [hphase]
    exact nofun
  have hstage := h.stages i sh hi
  have hprogress := hstage.progress
  rw [hphase] at hprogress
  obtain ⟨hbusy, hsub, hunfinished, hcode, hwritten⟩ := hprogress
  obtain ⟨m, hsend, htasks⟩ := h.toTasksInv.send
    { sh with phase := .waiting subtask, written := sh.written ++ [[]] } hi rfl hne hwaiting
    (h.subtask_alive hsub hunfinished) (pipeMessage [])
  refine ⟨_, ?_, h.of_set hi htasks rfl hne nofun ⟨hstage.le, hstage.line, hstage.stdin, hstage.stderr, ?_⟩⟩
  · simp only [perform, hi, Option.bind_some, PipelineRun.finishWrite, hphase, hsend, Option.map_some]
  · refine ⟨hbusy.congr rfl rfl rfl, hsub, hcode, ?_⟩
    rw [List.count_append, List.count_eq_zero.mpr hwritten]
    rfl

/-- **A round of `WaitFinish`**: the exit code it returns is that of the stage behind, which has finished. -/
theorem Inv.waitFinish (h : p.Inv L) (he : p.Enabled (.waitFinish i)) :
    ∃ p', p.perform opens (.waitFinish i) = some p' ∧ p'.Inv L := by
  obtain ⟨sh, hi, hcpu, subtask, hphase⟩ := he
  have hne : sh.phase ≠ .finished := by
    rw [hphase]
    exact nofun
  have hmem := List.mem_of_getElem? hi
  have hstage := h.stages i sh hi
  have hprogress := hstage.progress
  rw [hphase] at hprogress
  obtain ⟨hbusy, hsub, hcode, hcount⟩ := hprogress
  obtain ⟨n, hn, rfl⟩ := Option.map_eq_some_iff.mp hsub.symm
  have hidle : p.s.m.cpu ≠ TaskManager.idle := hcpu ▸ (h.made _ (mem_tasks hi)).2
  have hown : ∀ id', p.s.waiting p.s.m.cpu = some id' → id' = n.task := by
    intro id' hid
    rw [← hcpu] at hid
    have hwaits := h.waits sh hmem id' hid
    rw [hphase] at hwaits
    exact (Phase.waiting.inj hwaits).symm
  obtain ⟨s', hs', hsound, htasks, hlatest, hround⟩ := h.sound.wait hidle hown
  rw [← hcpu] at hs' hround
  rcases hround with ⟨c, hc, hwaiting, hreturned, hcodes⟩ | ⟨hnone, hwaiting, hcodes⟩
  · obtain ⟨hfinished, rfl⟩ := h.codes n (List.mem_of_getElem? hn) c hc
    have hself : s'.waiting sh.task = none := by rw [hwaiting, Function.update_self]
    have hset := h.toTasksInv.collects (sh.returns n.lastExitCode) hi rfl hne hsound htasks hlatest hwaiting
      hcodes
    refine ⟨_, ?_, h.of_set hi hset rfl hne nofun ⟨hstage.le, hstage.line, hstage.stdin, hstage.stderr, ?_⟩⟩
    · simp only [perform, hi, Option.bind_some, PipelineRun.waitFinish, hphase, hs', hself, hreturned, Option.map_some,
        if_pos]
    · rw [hn] at hbusy ⊢
      exact ⟨hbusy.original, hbusy.invoked, hbusy.last, hcount, nofun,
        fun n' hn' => by cases hn'; exact ⟨hfinished, rfl⟩, hcode⟩
  · have hself : s'.waiting sh.task = some n.task := by rw [hwaiting, Function.update_self]
    have hset := h.toTasksInv.sleeps hi hphase (mem_tasks hn) hsound htasks hlatest hwaiting hcodes
    refine ⟨⟨s', p.shells⟩, ?_, hset, h.stages, h.first⟩
    simp only [perform, hi, Option.bind_some, PipelineRun.waitFinish, hphase, hs', hself, reduceCtorEq, if_false]

/-- **A stage finishes**, once it is waited for. -/
theorem Inv.finish (h : p.Inv L) (he : p.Enabled (.finish i)) (hmarked : p.MarkedFirst (.finish i)) :
    ∃ p', p.perform opens (.finish i) = some p' ∧ p'.Inv L := by
  obtain ⟨hbehind, sh, hi, hcpu, hwaiting, hphase⟩ := he
  have hne : sh.phase ≠ .finished := by
    rw [hphase]
    exact nofun
  have hstage := h.stages i sh hi
  have hprogress := hstage.progress
  rw [hphase] at hprogress
  have hidle : p.s.m.cpu ≠ TaskManager.idle := hcpu ▸ (h.made _ (mem_tasks hi)).2
  have henabled : p.s.Enabled (.call (.finish sh.lastExitCode)) := ⟨hidle, .inr (hcpu ▸ hwaiting)⟩
  obtain ⟨s', hs', hsound, hsurvive⟩ := h.sound.step _ henabled
  obtain ⟨hwaits, hlatest, -, hcodes⟩ := h.sound.call_frame henabled hs'
  obtain ⟨hcode, -⟩ := h.sound.finish_frame henabled hs'
  rw [← hcpu] at hcode
  have hset : TasksInv ⟨s', p.shells.set i { sh with phase := .finished }⟩ := by
    refine h.toTasksInv.set hi rfl hsound (h.bounded.step h.sound ⟨henabled, nofun⟩ hs').1 hlatest (fun t _ hne => ?_)
      (fun hf => absurd rfl hf) (fun c hc => ?_) (fun id hid => ?_) ?_
    · have hother : t ≠ p.s.m.cpu := hcpu ▸ hne
      refine ⟨fun ht => hsurvive t ht hother, fun c hc => ?_, by rw [hwaits]⟩
      rwa [hcodes t fun _ _ => hother] at hc
    · rw [hcode, Option.some.injEq] at hc
      exact ⟨rfl, hc.symm⟩
    · rw [hwaits, hwaiting] at hid
      cases hid
    · rw [hwaits]
      exact h.waiters
  refine ⟨_, ?_, hset, h.stages.set hi ⟨hstage.le, hstage.line, hstage.stdin, hstage.stderr, ?_⟩
    fun j c hij hj hc => ?_, ?_⟩
  · simp only [perform, hi, Option.bind_some, PipelineRun.finish, hs', Option.map_some]
  · exact ⟨hprogress.stdout, hprogress.invoked, hprogress.last, hprogress.marked, hprogress.own, hprogress.passed,
      hprogress.ended⟩
  · exact hc.replace rfl hne fun _ => hmarked j c hij hj
  · exact h.first_set hi fun hzero => absurd hzero (Nat.ne_of_gt hbehind)

/-- The output of a stage, when it has been redirected. -/
theorem redirected (h : sh.files.stdout = stdout L i) :
    (if i = 0 then L.file else none).elim sh.files.stdout .file = output L := by
  rw [h, stdout]
  split
  · rfl
  · rfl

/-- A terminal that calls its command. -/
theorem Stage.invoke (h : Stage L i sh none) (hphase : sh.phase = .typed) (next : Option Shell) {l : CommandLine}
    (hcommand : l.command = word (L.text i)) (hargs : l.firstArg = arguments (L.text i))
    (hlast : next = none ↔ i = L.rest.length) (hunfinished : ∀ n, next = some n → n.phase ≠ .finished) :
    Stage L i (Shell.invoke { sh with
      originalStdout := sh.files.stdout
      files := { sh.files with stdout := commandStdout L next } } l (next.map Shell.task)) next := by
  have hprogress := h.progress
  rw [hphase] at hprogress
  obtain ⟨-, hstdout, hinvocations, hcode, hwritten⟩ := hprogress
  have hne : ¬ l.command = [] := hcommand ▸ PipelineLine.word_ne_nil h.le
  refine ⟨h.le, h.line, h.stdin, h.stderr, ⟨hstdout, ?_, hlast⟩, rfl, hunfinished, hcode, hwritten ▸ List.not_mem_nil⟩
  unfold Shell.invoke
  dsimp only
  rw [if_neg hne, hinvocations, hcommand, hargs, h.stdin, h.stderr]
  rfl

/-- The terminal of the next stage. -/
theorem stage_ofDescriptor (hi : i < L.rest.length) (id : TaskID) :
    Stage L (i + 1) (.ofDescriptor id (L.stageLine (i + 1)) ⟨.pipe id, output L, .given 2⟩) none ∧
      (Shell.ofDescriptor id (L.stageLine (i + 1)) ⟨.pipe id, output L, .given 2⟩).phase = .typed := by
  have hline : typedLine (L.stageLine (i + 1)) = L.stageLine (i + 1) :=
    typedLine_plain (fun c hc => ⟨(PipelineLine.stageLine_plain hi hc).1, (PipelineLine.stageLine_plain hi hc).2.1,
      (PipelineLine.stageLine_plain hi hc).2.2.1⟩) (PipelineLine.stageLine_length hi)
  have hne : L.stageLine (i + 1) ≠ [] := by
    intro hnil
    obtain ⟨c, hc, -⟩ := PipelineLine.stageLine_starts hi
    rw [hnil] at hc
    cases hc
  have hphase : (if L.stageLine (i + 1) = [] then Phase.returned else Phase.typed) = .typed := if_neg hne
  refine ⟨⟨hi, ?_, rfl, rfl, ?_⟩, hphase⟩
  · exact hline
  · dsimp only [Shell.ofDescriptor, Shell.new]
    rw [hphase]
    exact ⟨rfl, rfl, rfl, rfl, rfl⟩

/-- **A line is executed** up to its command: what is behind the `|` gets a terminal. -/
theorem Inv.execute (h : p.Inv L) (hopens : ∀ name ∈ L.file, opens name = true) (he : p.Enabled (.execute i)) :
    ∃ p', p.perform opens (.execute i) = some p' ∧ p'.Inv L := by
  obtain ⟨sh, hi, -, hwaiting, hphase⟩ := he
  have hne : sh.phase ≠ .finished := by
    rw [hphase]
    exact nofun
  have hstage := h.stages i sh hi
  have hprogress := hstage.progress
  rw [hphase] at hprogress
  obtain ⟨hnext, hstdout, -⟩ := hprogress
  rw [hnext] at hstage
  have hopen : (if i = 0 then L.file else none).all opens = true := by
    split
    · exact (Option.all_eq_true _ _).mpr hopens
    · rfl
  have hperform : p.perform opens (.execute i) = p.execute opens i sh := by rw [perform, hi, Option.bind_some]
  rw [hperform, PipelineRun.execute, hstage.ofLine]
  dsimp only
  rw [if_pos hopen, redirected hstdout]
  by_cases hlt : i < L.rest.length
  · rw [if_pos hlt]
    dsimp only
    obtain ⟨hbehind, htyped⟩ := stage_ofDescriptor hlt (p.s.m.latestID + 1)
    rw [← hstage.stderr] at hbehind htyped
    generalize hn : Shell.ofDescriptor (p.s.m.latestID + 1) (L.stageLine (i + 1))
      ⟨.pipe (p.s.m.latestID + 1), output L, sh.files.stderr⟩ = n at hbehind htyped ⊢
    have htask : n.task = p.s.m.latestID + 1 := hn ▸ rfl
    have hinvoked := hstage.invoke hphase (some n) (l := ⟨word (L.text i), arguments (L.text i),
      if i = 0 then L.file else none, some (L.stageLine (i + 1))⟩) rfl rfl (by simpa using Nat.ne_of_lt hlt)
      (fun n' hn' => by cases hn'; rw [htyped]; exact nofun)
    simp only [commandStdout, Option.elim_some, Option.map_some, htask] at hinvoked
    generalize hcalled : Shell.invoke _ _ _ = called at hinvoked ⊢
    have hset : TasksInv ⟨p.s, p.shells.set i called⟩ := h.toTasksInv.set_shell called hi (hcalled ▸ rfl) hne hwaiting
    obtain ⟨s, hs, hpush⟩ := hset.push htask
    have hend : p.shells.length = i + 1 :=
      Nat.le_antisymm (List.getElem?_eq_none_iff.mp hnext) (List.getElem?_eq_some_iff.mp hi).1
    have hcalledPhase : called.phase ≠ .finished := by
      rw [← hcalled]
      exact nofun
    refine ⟨⟨s, p.shells.set i called ++ [n]⟩, by rw [hs]; rfl, hpush, h.stages.set_push hi hend hinvoked hbehind
      fun j d _ hd => hd.replace (hcalled ▸ rfl) hne fun hf => absurd hf hcalledPhase, ?_⟩
    obtain ⟨first, hfirst, hfirstPhase⟩ := h.first_set hi fun _ => hcalledPhase
    exact ⟨first, by rw [List.getElem?_append_left (List.getElem?_eq_some_iff.mp hfirst).1, hfirst], hfirstPhase⟩
  · rw [if_neg hlt]
    dsimp only
    have hlast : i = L.rest.length := Nat.le_antisymm hstage.le (Nat.le_of_not_lt hlt)
    have hinvoked := hstage.invoke hphase none (l := ⟨word (L.text i), arguments (L.text i),
      if i = 0 then L.file else none, none⟩) rfl rfl (by simpa using hlast) fun n hn =>
        absurd hn.symm (Option.some_ne_none n)
    refine ⟨_, rfl, h.of_set hi (h.toTasksInv.set_shell _ hi rfl hne hwaiting) rfl hne nofun ?_⟩
    rw [hnext]
    exact hinvoked

/-- A terminal executes a line. -/
theorem Inv.start {s : System} {lastExitCode : ℤ} (hs : s.Sound) (hbounded : s.Bounded)
    (hidle : s.m.cpu ≠ TaskManager.idle) (hwaiting : s.waiting s.m.cpu = none) : Inv L (start s L lastExitCode) := by
  refine ⟨⟨hs, hbounded, List.nodup_singleton _, fun t ht => ?_, fun sh hsh _ => ?_, fun sh hsh c hc => ?_,
    fun sh hsh id hid => ?_, fun w id _ hid => ?_⟩, fun i sh hi => ?_, _, rfl, nofun⟩
  · rw [List.mem_singleton.mp ht]
    exact ⟨hs.sched.fresh _ hs.sched.cpu_mem, hidle⟩
  · rw [List.mem_singleton.mp hsh]
    exact hs.sched.cpu_mem
  · rw [List.mem_singleton.mp hsh] at hc
    have hcode : s.m.finishTasks s.m.cpu ≠ none := fun hnone => Option.some_ne_none c (hc.symm.trans hnone)
    exact absurd hs.sched.cpu_mem (hbounded.codes _ hcode).2
  · rw [List.mem_singleton.mp hsh] at hid
    cases hwaiting.symm.trans hid
  · exact .inr (congrArg some (List.mem_singleton.mp hid).symm)
  · cases i with
    | zero =>
      cases hi
      exact ⟨Nat.zero_le _, rfl, rfl, rfl, rfl, rfl, rfl, rfl, rfl⟩
    | succ i => cases hi

/-- **An action of an orderly run** is defined and keeps the invariant. -/
theorem Inv.step (h : p.Inv L) (hopens : ∀ name ∈ L.file, opens name = true) {a : Action} (ha : p.Orderly a) :
    ∃ p', p.perform opens a = some p' ∧ p'.Inv L := by
  obtain ⟨he, hmarked⟩ := ha
  cases a with
  | system a => exact h.system he.1 he.2
  | execute i => exact h.execute hopens he
  | write i data => exact h.write he
  | commandReturns i exitCode => exact h.commandReturns he
  | finishWrite i => exact h.finishWrite he
  | waitFinish i => exact h.waitFinish he
  | finish i => exact h.finish he hmarked

theorem Reachable.inv {lastExitCode : ℤ} (h : Reachable opens L lastExitCode Orderly p)
    (hopens : ∀ name ∈ L.file, opens name = true) : p.Inv L := by
  induction h with
  | start s hs hidle hwaiting =>
    obtain ⟨hsound, hbounded⟩ := hs.bounded
    exact Inv.start hsound hbounded hidle hwaiting
  | step a _ ha hp ih =>
    obtain ⟨p', h1, h2⟩ := ih.step hopens ha
    obtain rfl := Option.some.inj (h1.symm.trans hp)
    exact h2

/-- What a stage has called. -/
theorem Stage.invocations (h : Stage L i sh next) :
    sh.invocations = if sh.phase = .typed then [] else [invocation L i sh.task next] := by
  have hprogress := h.progress
  cases hphase : sh.phase with
  | typed =>
    rw [hphase] at hprogress
    exact hprogress.2.2.1
  | running _ | ended _ | waiting _ =>
    rw [hphase] at hprogress
    exact hprogress.1.invoked
  | returned | finished =>
    rw [hphase] at hprogress
    exact hprogress.invoked

/-- A stage writes to the task behind it, and marks the end after its command. -/
theorem Stage.marks {n : Shell} (h : Stage L i sh (some n)) :
    (∀ t, sh.phase.subtask = some t → t = n.task) ∧ sh.written.count [] = (if sh.phase.marked then 1 else 0) ∧
      (sh.phase.marked → sh.exitCode.isSome) := by
  have hprogress := h.progress
  cases hphase : sh.phase with
  | typed =>
    rw [hphase] at hprogress
    exact absurd hprogress.1 (Option.some_ne_none n)
  | running subtask =>
    rw [hphase] at hprogress
    obtain ⟨-, rfl, -, -, hwritten⟩ := hprogress
    exact ⟨fun t ht => (Option.some.inj ht).symm, List.count_eq_zero.mpr hwritten, nofun⟩
  | ended subtask =>
    rw [hphase] at hprogress
    obtain ⟨-, hsub, -, hcode, hwritten⟩ := hprogress
    exact ⟨fun t ht => (Option.some.inj ht).symm.trans (Option.some.inj hsub), List.count_eq_zero.mpr hwritten, nofun⟩
  | waiting subtask =>
    rw [hphase] at hprogress
    obtain ⟨-, hsub, hcode, hcount⟩ := hprogress
    exact ⟨fun t ht => (Option.some.inj ht).symm.trans (Option.some.inj hsub), hcount, fun _ => hcode⟩
  | returned | finished =>
    rw [hphase] at hprogress
    exact ⟨nofun, hprogress.marked, fun _ => hprogress.ended⟩

/-- What a terminal has done that has returned. -/
theorem Stage.settled (h : Stage L i sh next) (hphase : sh.phase = .returned ∨ sh.phase = .finished) :
    Settled L i sh next := by
  have hprogress := h.progress
  rcases hphase with hphase | hphase
  · rwa [hphase] at hprogress
  · rwa [hphase] at hprogress

/-- **The first terminal has returned**: so have all, there is one for each command, and the exit code is
that of the last. -/
theorem Inv.returned (h : p.Inv L) (hfirst : p.shells[0]? = some sh) (hphase : sh.phase = .returned) :
    p.shells.length = L.rest.length + 1 ∧ (∀ a ∈ p.shells, a.phase = .returned ∨ a.phase = .finished) ∧
      sh.files = ⟨.given 0, .given 1, .given 2⟩ ∧
      ∃ last, p.shells[L.rest.length]? = some last ∧ last.exitCode = some sh.lastExitCode := by
  have hstep : ∀ i a b, Stage L i a (some b) → a.phase = .returned ∨ a.phase = .finished →
      b.phase = .returned ∨ b.phase = .finished :=
    fun i a b hstage ha => .inr ((hstage.settled ha).passed b rfl).1
  have hall := h.stages.all hstep hfirst (.inl hphase)
  have hmem : ∀ a ∈ p.shells, a.phase = .returned ∨ a.phase = .finished := fun a ha => by
    obtain ⟨i, hi⟩ := List.getElem?_of_mem ha
    exact hall i a hi
  obtain ⟨last, hlast, hcode⟩ := h.stages.from_last (Q := fun a z => z.exitCode = some a.lastExitCode)
    (fun i a b hstage ha => ⟨hstep i a b hstage ha, fun z hz => by rw [((hstage.settled ha).passed b rfl).2]; exact hz⟩)
    (fun i a hstage ha => (hstage.settled ha).own rfl) hfirst (.inl hphase)
  have hpos : 0 < p.shells.length := (List.getElem?_eq_some_iff.mp hfirst).1
  have hlength : p.shells.length - 1 = L.rest.length := by
    have hstage := h.stages _ last hlast
    refine (hstage.settled (hall _ last hlast)).last.mp (List.getElem?_eq_none ?_)
    omega
  rw [hlength] at hlast
  have hstage := h.stages 0 sh hfirst
  have hstdin : sh.files.stdin = .given 0 := hstage.stdin
  have hstdout : sh.files.stdout = .given 1 := (hstage.settled (.inl hphase)).stdout
  have hstderr : sh.files.stderr = .given 2 := hstage.stderr
  exact ⟨by omega, hmem, Files.ext hstdin hstdout hstderr, last, hlast, hcode⟩

/-- The line `a | x`. -/
def twoCommands : PipelineLine where
  first := [0x61, 0x20]
  rest := [([0x20], [0x78])]
  dest := none
  texts := List.forall_mem_cons.mpr
    ⟨⟨List.forall_mem_cons.mpr ⟨by decide, List.forall_mem_singleton.mpr (by decide)⟩, 0x61, rfl, rfl⟩,
      List.forall_mem_singleton.mpr ⟨List.forall_mem_singleton.mpr (by decide), 0x78, rfl, rfl⟩⟩
  gaps := List.forall_mem_singleton.mpr fun c hc => List.mem_singleton.mp hc ▸ by decide
  target := nofun
  spaced := by
    rintro i (hi | ⟨-, hne⟩)
    · obtain rfl : i = 0 := Nat.lt_one_iff.mp hi
      rfl
    · exact absurd rfl hne
  fits := by decide

end DuvuvurKernel.PipelineRun
