import DuvuvurKernel.Error
import DuvuvurKernel.Task.Message
import Mathlib.Data.List.Basic
import Mathlib.Logic.Function.Basic
import Mathlib.Data.Int.Notation
import Mathlib.Order.Basic

/-!
# The task manager

`task.cpp`: the objects `Task` and the class `TaskManager`, operation by operation.

## The model

A `Task*` is the ID of the task it points to: `NewTask` gives every task a new ID,
so an ID names one object for ever. `tasks` lists the objects `tasks_` owns; `obj`
is their memory. An operation that the source leaves undefined (`front` of an empty
deque, an index past the end of `running_`, a pointer to a destroyed task) has no
result (`none`).

The processor is part of the state: `cpu` is the task whose context is loaded. It
changes where the source calls `SwitchContext` or `RestoreContext`, and nowhere else.
-/

namespace DuvuvurKernel

/-- A `Task*`, which is also the task's ID. -/
abbrev TaskID := ℕ

/-- `kMaxLevel`. -/
def kMaxLevel : ℕ := 3

/-- The members of `Task` the task manager reads and writes. -/
structure Task where
  /-- `level_`, from `kDefaultLevel`. -/
  level : ℕ := 1
  /-- `running_`. -/
  running : Bool := false
  /-- `msgs_`. -/
  msgs : List Message := []

/-- `TaskManager`, with the memory of the tasks and the processor. -/
structure TaskManager where
  /-- `tasks_`: the tasks that exist, in the order they were made. -/
  tasks : List TaskID
  /-- The memory of the tasks. -/
  obj : TaskID → Task
  /-- `latest_id_`. -/
  latestID : ℕ
  /-- `running_`: the run queue of each level. -/
  running : ℕ → List TaskID
  /-- `current_level_`. -/
  currentLevel : ℕ
  /-- `level_changed_`. -/
  levelChanged : Bool
  /-- `finish_tasks_`: the exit codes of the finished tasks not waited for yet. -/
  finishTasks : TaskID → Option ℤ
  /-- `finish_waiter_`: who waits for a task to finish. -/
  finishWaiter : TaskID → Option TaskID
  /-- The task whose context the processor runs. -/
  cpu : TaskID

namespace TaskManager

/-- What a member function of a task changes. -/
def setObj (m : TaskManager) (t : TaskID) (o : Task) : TaskManager :=
  { m with obj := Function.update m.obj t o }

/-- `Task::SetLevel`. -/
def setLevel (m : TaskManager) (t : TaskID) (level : ℕ) : TaskManager :=
  m.setObj t { m.obj t with level := level }

/-- `Task::SetRunning`. -/
def setRunning (m : TaskManager) (t : TaskID) (running : Bool) : TaskManager :=
  m.setObj t { m.obj t with running := running }

/-- `running_[lv] = q`. -/
def setQueue (m : TaskManager) (lv : ℕ) (q : List TaskID) : TaskManager :=
  { m with running := Function.update m.running lv q }

/-- `CurrentTask`: the front of the current run queue. -/
def currentTask (m : TaskManager) : Option TaskID := (m.running m.currentLevel).head?

/-- `SwitchContext` and `RestoreContext` as they are called: to the current task. -/
def restoreContext (m : TaskManager) : Option TaskManager :=
  m.currentTask.map fun t => { m with cpu := t }

/-- The loop of `RotateCurrentRunQueue`: the highest level, from `lv` down, whose queue is
not empty; the current level if there is none. -/
def highestLevel (q : ℕ → List TaskID) (current : ℕ) : ℕ → ℕ
  | 0 => if q 0 = [] then current else 0
  | lv + 1 => if q (lv + 1) = [] then highestLevel q current lv else lv + 1

/-- `RotateCurrentRunQueue`. -/
def rotateCurrentRunQueue (m : TaskManager) (currentSleep : Bool) : Option (TaskID × TaskManager) :=
  match m.running m.currentLevel with
  | [] => none
  | currentTask :: rest =>
    let levelQueue := if currentSleep then rest else rest ++ [currentTask]
    let m := m.setQueue m.currentLevel levelQueue
    let levelChanged := m.levelChanged || levelQueue.isEmpty
    some (currentTask,
      if levelChanged then
        { m with levelChanged := false, currentLevel := highestLevel m.running m.currentLevel kMaxLevel }
      else m)

/-- `NewTask`. -/
def newTask (m : TaskManager) : TaskManager :=
  { m with latestID := m.latestID + 1, tasks := m.tasks ++ [m.latestID + 1],
           obj := Function.update m.obj (m.latestID + 1) {} }

/-- `Erase` of a task from a run queue. -/
def eraseFrom (m : TaskManager) (lv : ℕ) (t : TaskID) : TaskManager :=
  m.setQueue lv ((m.running lv).filter (· != t))

/-- `ChangeLevelRunning`. -/
def changeLevelRunning (m : TaskManager) (t : TaskID) (level : ℤ) : Option TaskManager :=
  if level < 0 ∨ level = (m.obj t).level then some m
  else do
    let lv := level.toNat
    guard (lv ≤ kMaxLevel)
    let front ← m.currentTask
    if t ≠ front then
      -- change level of other task
      let m := m.eraseFrom (m.obj t).level t
      let m := (m.setQueue lv (m.running lv ++ [t])).setLevel t lv
      some { m with levelChanged := m.levelChanged || decide (m.currentLevel < lv) }
    else
      -- change level myself
      let m := m.setQueue m.currentLevel (m.running m.currentLevel).tail
      let m := (m.setQueue lv (t :: m.running lv)).setLevel t lv
      if m.currentLevel ≤ lv then some { m with currentLevel := lv }
      else some { m with currentLevel := lv, levelChanged := true }

/-- `Sleep(Task*)`. -/
def sleep (m : TaskManager) (t : TaskID) : Option TaskManager := do
  guard (t ∈ m.tasks)
  if !(m.obj t).running then some m
  else
    let m := m.setRunning t false
    let front ← m.currentTask
    if t = front then
      let (_, m) ← m.rotateCurrentRunQueue true
      m.restoreContext
    else some (m.eraseFrom (m.obj t).level t)

/-- `Wakeup(Task*, int)`. A call without a level passes `-1`. -/
def wakeup (m : TaskManager) (t : TaskID) (level : ℤ) : Option TaskManager := do
  guard (t ∈ m.tasks)
  if (m.obj t).running then m.changeLevelRunning t level
  else
    let lv := if level < 0 then (m.obj t).level else level.toNat
    guard (lv ≤ kMaxLevel)
    let m := (m.setLevel t lv).setRunning t true
    let m := m.setQueue lv (m.running lv ++ [t])
    some { m with levelChanged := m.levelChanged || decide (m.currentLevel < lv) }

/-- `Sleep(uint64_t)`. -/
def sleepByID (m : TaskManager) (id : ℕ) : Option (Except Error TaskManager) :=
  if id ∈ m.tasks then (m.sleep id).map .ok else some (.error .noSuchTask)

/-- `Wakeup(uint64_t, int)`. -/
def wakeupByID (m : TaskManager) (id : ℕ) (level : ℤ) : Option (Except Error TaskManager) :=
  if id ∈ m.tasks then (m.wakeup id level).map .ok else some (.error .noSuchTask)

/-- `Task::SendMessage`. -/
def sendMessageTo (m : TaskManager) (t : TaskID) (msg : Message) : Option TaskManager := do
  guard (t ∈ m.tasks)
  (m.setObj t { m.obj t with msgs := (m.obj t).msgs ++ [msg] }).wakeup t (-1)

/-- `TaskManager::SendMessage`. -/
def sendMessage (m : TaskManager) (id : ℕ) (msg : Message) : Option (Except Error TaskManager) :=
  if id ∈ m.tasks then (m.sendMessageTo id msg).map .ok else some (.error .noSuchTask)

/-- `SwitchTask`, which the timer interrupt calls. -/
def switchTask (m : TaskManager) : Option TaskManager := do
  let (currentTask, m) ← m.rotateCurrentRunQueue false
  if m.currentTask ≠ some currentTask then m.restoreContext else some m

/-- `Finish`. -/
def finish (m : TaskManager) (exitCode : ℤ) : Option TaskManager := do
  let (t, m) ← m.rotateCurrentRunQueue true
  guard (t ∈ m.tasks)
  let m := { m with tasks := m.tasks.erase t,
                    finishTasks := Function.update m.finishTasks t (some exitCode) }
  match m.finishWaiter t with
  | some waiter =>
    let m := { m with finishWaiter := Function.update m.finishWaiter t none }
    let m ← m.wakeup waiter (-1)
    m.restoreContext
  | none => m.restoreContext

/-- One round of the loop of `WaitFinish`, run by `current`: the exit code, if the task has
finished; if not, `current` registers as the waiter and sleeps. -/
def waitFinishRound (m : TaskManager) (current : TaskID) (id : TaskID) :
    Option (Option ℤ × TaskManager) :=
  match m.finishTasks id with
  | some exitCode =>
    some (some exitCode, { m with finishTasks := Function.update m.finishTasks id none })
  | none =>
    (sleep { m with finishWaiter := Function.update m.finishWaiter id (some current) } current).map
      fun m => (none, m)

/-- The constructor: the task that runs it, at `current_level_`, and the idle task at level `0`. -/
def init : TaskManager :=
  let m : TaskManager :=
    { tasks := [], obj := fun _ => {}, latestID := 0, running := fun _ => [], currentLevel := kMaxLevel,
      levelChanged := false, finishTasks := fun _ => none, finishWaiter := fun _ => none, cpu := 1 }
  let m := ((m.newTask.setLevel 1 kMaxLevel).setRunning 1 true).setQueue kMaxLevel [1]
  ((m.newTask.setLevel 2 0).setRunning 2 true).setQueue 0 [2]

/-- The idle task. -/
def idle : TaskID := 2

end TaskManager

end DuvuvurKernel
