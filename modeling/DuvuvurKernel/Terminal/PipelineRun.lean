import DuvuvurKernel.Terminal.Pipeline
import DuvuvurKernel.Terminal.PipelineLine

/-!
# Running a line of several commands

`Terminal::ExecuteLine` and `TaskTerminal`: a terminal starts a task for what is behind the
first `|` of its line, runs the command before it with a pipe to that task, sends the end
marker, and waits for the task; the task types its line into a terminal of its own, where the same
happens, and finishes with the exit code of that terminal.

## The model

The tasks are those of the task manager (`System`), and anything else there is may happen
between any two steps (`Action.system`). A terminal is in one `Phase` of `ExecuteLine`; a
step is what it does up to the next call that others can come between. The command itself
may take any time, call the task manager and write to the pipe; what is recorded is what it
was called with, its exit code, and what has been sent through the pipe.

A message to a destroyed task has no result. The windows of the terminals are left out.
-/

namespace DuvuvurKernel

open TaskManager LineTerminal

/-- What a descriptor of a terminal is. -/
inductive FileRef where
  /-- A descriptor the first terminal has been given. -/
  | given (i : ℕ)
  /-- The file the output is redirected to. -/
  | file (name : List UInt8)
  /-- The pipe to a task. -/
  | pipe (task : TaskID)
  deriving DecidableEq

/-- `files_`. -/
@[ext]
structure Files where
  stdin : FileRef
  stdout : FileRef
  stderr : FileRef
  deriving DecidableEq

/-- What a command is called with. -/
structure Invocation where
  command : List UInt8
  firstArg : Option (List UInt8)
  files : Files
  deriving DecidableEq

/-- Where a terminal is in `ExecuteLine`. -/
inductive Phase where
  /-- The line has been given. -/
  | typed
  /-- The command runs, and the task behind the `|` exists. -/
  | running (subtask : Option TaskID)
  /-- The command has returned, and `FinishWrite` comes next. -/
  | ended (subtask : TaskID)
  /-- In `WaitFinish`, or before it. -/
  | waiting (subtask : TaskID)
  /-- `ExecuteLine` has returned. -/
  | returned
  /-- The task has finished. -/
  | finished
  deriving DecidableEq

namespace Phase

/-- The task behind the pipe, while `ExecuteLine` knows it. -/
def subtask : Phase → Option TaskID
  | .running t => t
  | .ended t | .waiting t => some t
  | _ => none

/-- `FinishWrite` has returned, if there is a pipe. -/
def marked : Phase → Bool
  | .waiting _ | .returned | .finished => true
  | _ => false

end Phase

/-- A terminal that executes a line, its task, and what has happened. -/
structure Shell where
  task : TaskID
  /-- `linebuf_`. -/
  line : List UInt8
  /-- `files_`. -/
  files : Files
  /-- `original_stdout`. -/
  originalStdout : FileRef
  /-- `last_exit_code_`. -/
  lastExitCode : ℤ
  phase : Phase
  /-- What the commands of the terminal were called with. -/
  invocations : List Invocation
  /-- The exit code of its command. -/
  exitCode : Option ℤ
  /-- The messages sent through its pipe. -/
  written : List (List UInt8)
  deriving DecidableEq

namespace Shell

/-- The terminal of a task, with its line. -/
def new (task : TaskID) (line : List UInt8) (files : Files) (lastExitCode : ℤ) (phase : Phase) : Shell where
  task := task
  line := line
  files := files
  originalStdout := files.stdout
  lastExitCode := lastExitCode
  phase := phase
  invocations := []
  exitCode := none
  written := []

/-- The terminal of a `TerminalDescriptor`: it types its command line, if there is one. -/
def ofDescriptor (task : TaskID) (commandLine : List UInt8) (files : Files) : Shell :=
  new task (typedLine commandLine) files 0 (if commandLine = [] then .returned else .typed)

variable (sh : Shell)

/-- The command is called, unless it is empty. -/
def invoke (l : CommandLine) (subtask : Option TaskID) : Shell :=
  { sh with
    invocations := sh.invocations ++ if l.command = [] then [] else [⟨l.command, l.firstArg, sh.files⟩]
    phase := .running subtask }

/-- The end of `ExecuteLine`. -/
def returns (exitCode : ℤ) : Shell :=
  { sh with
    lastExitCode := exitCode
    files := { sh.files with stdout := sh.originalStdout }
    phase := .returned }

end Shell

/-- The terminals of a line, and the tasks there are. -/
structure PipelineRun where
  /-- The tasks. -/
  s : System
  /-- The terminals, from the first on. -/
  shells : List Shell

namespace PipelineRun

variable (opens : List UInt8 → Bool) (p : PipelineRun) (i : ℕ) (sh : Shell)

/-- `NewTask` and `Wakeup`. -/
def startTask (s : System) : Option System :=
  System.perform { s with m := s.m.newTask } (.call (.wakeup (s.m.latestID + 1) (-1)))

/-- `ExecuteLine` up to the command; `opens` says which files can be redirected to. -/
def execute : Option PipelineRun :=
  let l := CommandLine.ofLine sh.line
  if l.redirDest.all opens then
    let sh := { sh with
      originalStdout := sh.files.stdout
      files := { sh.files with stdout := l.redirDest.elim sh.files.stdout .file } }
    match l.subcommand with
    | none => some { p with shells := p.shells.set i (sh.invoke l none) }
    | some subcommand =>
      (startTask p.s).map fun s =>
        let id := p.s.m.latestID + 1
        let subtask := Shell.ofDescriptor id subcommand ⟨.pipe id, sh.files.stdout, sh.files.stderr⟩
        let sh := { sh with files := { sh.files with stdout := .pipe id } }
        ⟨s, p.shells.set i (sh.invoke l (some id)) ++ [subtask]⟩
  else some { p with shells := p.shells.set i { sh with phase := .returned } }

/-- The command sends a message of `PipeDescriptor::Write`. -/
def write (data : List UInt8) : Option PipelineRun :=
  match sh.phase with
  | .running (some subtask) =>
    (p.s.m.sendMessageTo subtask (pipeMessage data)).map fun m =>
      ⟨{ p.s with m := m }, p.shells.set i { sh with written := sh.written ++ [data] }⟩
  | _ => none

/-- The command returns. -/
def commandReturns (exitCode : ℤ) : Option PipelineRun :=
  let sh := { sh with exitCode := some exitCode }
  match sh.phase with
  | .running none => some { p with shells := p.shells.set i (sh.returns exitCode) }
  | .running (some subtask) => some { p with shells := p.shells.set i { sh with phase := .ended subtask } }
  | _ => none

/-- `FinishWrite`. -/
def finishWrite : Option PipelineRun :=
  match sh.phase with
  | .ended subtask =>
    (p.s.m.sendMessageTo subtask (pipeMessage [])).map fun m =>
      ⟨{ p.s with m := m }, p.shells.set i { sh with phase := .waiting subtask, written := sh.written ++ [[]] }⟩
  | _ => none

/-- A round of `WaitFinish`, and the end of `ExecuteLine` if it is the last. -/
def waitFinish : Option PipelineRun :=
  match sh.phase with
  | .waiting subtask =>
    (p.s.perform (if p.s.waiting sh.task = none then .waitFinish subtask else .resume)).bind fun s =>
      if s.waiting sh.task = none then
        (s.returned subtask).map fun exitCode => ⟨s, p.shells.set i (sh.returns exitCode)⟩
      else some { p with s := s }
  | _ => none

/-- The task of a terminal behind a `|` finishes. -/
def finish : Option PipelineRun :=
  (p.s.perform (.call (.finish sh.lastExitCode))).map fun s => ⟨s, p.shells.set i { sh with phase := .finished }⟩

/-- What happens next. -/
inductive Action where
  /-- Anything that is not a step of one of the terminals. -/
  | system (a : TaskManager.Action)
  | execute (i : ℕ)
  | write (i : ℕ) (data : List UInt8)
  | commandReturns (i : ℕ) (exitCode : ℤ)
  | finishWrite (i : ℕ)
  | waitFinish (i : ℕ)
  | finish (i : ℕ)

/-- What an action does. -/
def perform : Action → Option PipelineRun
  | .system a => (p.s.perform a).map fun s => { p with s := s }
  | .execute i => p.shells[i]?.bind (p.execute opens i)
  | .write i data => p.shells[i]?.bind fun sh => p.write i sh data
  | .commandReturns i exitCode => p.shells[i]?.bind fun sh => p.commandReturns i sh exitCode
  | .finishWrite i => p.shells[i]?.bind (p.finishWrite i)
  | .waitFinish i => p.shells[i]?.bind (p.waitFinish i)
  | .finish i => p.shells[i]?.bind (p.finish i)

/-- The tasks of the terminals. -/
def tasks : List TaskID := p.shells.map Shell.task

/-- A terminal that has the processor, outside `WaitFinish`. -/
def At (P : Shell → Prop) : Prop :=
  ∃ sh, p.shells[i]? = some sh ∧ sh.task = p.s.m.cpu ∧ p.s.waiting sh.task = none ∧ P sh

/-- The actions there are. A command that is empty returns 0, the first terminal does not
finish, and no other task waits for that of a terminal. -/
def Enabled : Action → Prop
  | .system a => p.s.Known a ∧ p.s.Apart p.tasks a
  | .execute i => p.At i fun sh => sh.phase = .typed
  | .write i data => p.At i fun sh => (∃ subtask, sh.phase = .running (some subtask)) ∧ data ≠ []
  | .commandReturns i exitCode =>
    p.At i fun sh => (∃ subtask, sh.phase = .running subtask) ∧ (sh.invocations = [] → exitCode = 0)
  | .finishWrite i => p.At i fun sh => ∃ subtask, sh.phase = .ended subtask
  | .waitFinish i => ∃ sh, p.shells[i]? = some sh ∧ sh.task = p.s.m.cpu ∧ ∃ subtask, sh.phase = .waiting subtask
  | .finish i => 0 < i ∧ p.At i fun sh => sh.phase = .returned

/-- A stage finishes after the stage before it has sent its end marker. -/
def MarkedFirst : Action → Prop
  | .finish i => ∀ j sh, i = j + 1 → p.shells[j]? = some sh → ∃ subtask, sh.phase = .waiting subtask
  | _ => True

/-- The actions of an orderly run. -/
def Orderly (a : Action) : Prop := p.Enabled a ∧ p.MarkedFirst a

/-- The task that has the processor is about to execute a line. -/
def start (s : System) (L : PipelineLine) (lastExitCode : ℤ) : PipelineRun :=
  ⟨s, [.new s.m.cpu L.line ⟨.given 0, .given 1, .given 2⟩ lastExitCode .typed]⟩

/-- The states of the runs of a line whose actions all satisfy `P`. -/
inductive Reachable (opens : List UInt8 → Bool) (L : PipelineLine) (lastExitCode : ℤ)
    (P : PipelineRun → Action → Prop) :
    PipelineRun → Prop where
  | start (s : System) : System.Reachable System.Known s → s.m.cpu ≠ idle → s.waiting s.m.cpu = none →
      Reachable opens L lastExitCode P (start s L lastExitCode)
  | step {p p' : PipelineRun} (a : Action) : Reachable opens L lastExitCode P p → P p a → p.perform opens a = some p' →
      Reachable opens L lastExitCode P p'

end PipelineRun

end DuvuvurKernel
