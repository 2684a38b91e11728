import DuvuvurKernel.Task.Lifetime
import DuvuvurKernel.Task.TimerInterrupt

/-!
# One processor for many tasks

The task manager decides which task runs; the routines of `asmfunc.asm` take the processor from one task to the next.
Here both run together, on one memory, in any order of events: the task that has the processor executes instructions,
calls the task manager, or is interrupted.

## The model

A state is the task manager with its waits (`System`) and the processor with its memory. Where the task manager calls
`SwitchContext`, `RestoreContext` or returns to `IntHandlerLAPICTimer`, the routine is run, instruction by instruction.
What C++ does in between is any change of registers and memory that leaves the contexts of the tasks alone.

## What is proved

The registers of a task (`view`) are those of the processor while it has it, and those in its `context_` while it has
not. `step_view` says what every event does to the registers of every task: a task's registers change when it executes
instructions itself, when it returns from the `SwitchContext` it called, and when its context is initialized, and at no
other time. `comes_back` carries this over whole runs: a task that loses the processor, however often and to whomever,
finds the registers it had.

## Honest scope

Where the `context_` of a task lies is a function of the task (`ctx`). The allocator is trusted to lay them out apart
from each other and from the stack of the interrupt (`Layout`), and C++ to keep its stacks off them.
-/

namespace DuvuvurKernel

open Lib.X86 TaskManager

/-- `kKernelCS`. -/
def kKernelCS : Word := 1 <<< 3

/-- `kKernelSS`. -/
def kKernelSS : Word := 2 <<< 3

/-- What `Task::InitContext` puts into the context. -/
def initContext (id f data stackEnd cr3 : Word) : TaskContext where
  cr3 := cr3
  rip := f
  rflags := 0x202
  reserved1 := 0
  cs := kKernelCS
  ss := kKernelSS
  fs := 0
  gs := 0
  rax := 0
  rbx := 0
  rcx := 0
  rdx := 0
  rdi := id
  rsi := data
  rsp := aligned stackEnd - 8
  rbp := 0
  r8 := 0
  r9 := 0
  r10 := 0
  r11 := 0
  r12 := 0
  r13 := 0
  r14 := 0
  r15 := 0
  -- all exceptions of MXCSR are masked
  fxsaveArea := Function.update (fun _ => 0) 3 0x1f80

/-- The task manager, and the processor with its memory. -/
structure Processor where
  sys : System
  s : State

/-- What happens. -/
inductive Event where
  /-- The task that has the processor executes instructions. -/
  | execute
  /-- The task that has the processor calls `InitContext` of another one. -/
  | initContext (t : TaskID) (f data stackEnd : Word)
  /-- An action of the task manager. `switchTask` is the timer interrupt in which the task timer has timed out. -/
  | act (a : Action)
  /-- Any other timer interrupt. -/
  | interrupt

namespace Processor

section

variable (ctx : TaskID → Word) (g : Gate)

/-- How the contexts of the tasks lie. -/
structure Layout (ts : List TaskID) : Prop where
  /-- `FXSAVE` finds its area aligned. -/
  aligned : ∀ t ∈ ts, (ctx t + 0xc0).toNat % 16 = 0
  /-- No two contexts overlap. -/
  apart : ∀ t ∈ ts, ∀ u ∈ ts, t ≠ u → Separate (ctx t) TaskContext.size (ctx u) TaskContext.size
  /-- The stack of the interrupt overlaps none. -/
  interrupts : ∀ t ∈ ts, Separate (Lib.X86.aligned g.stack - 752) 94 (ctx t) TaskContext.size

/-- The contexts of tasks are the same in two memories. -/
def Keeps (ts : List TaskID) (m m' : Memory) : Prop :=
  ∀ t ∈ ts, ∀ i < TaskContext.size, read64 m' (slot (ctx t) i) = read64 m (slot (ctx t) i)

/-- The words below the stack pointer overlap no context. -/
def StackApart (ts : List TaskID) (s : State) : Prop :=
  ∀ t ∈ ts, Separate (s.gpr .rsp - 40) 6 (ctx t) TaskContext.size

/-- The registers of a task: those of the processor, or those in its context. -/
def view (p : Processor) (t : TaskID) : Regs :=
  if t = p.sys.m.cpu then p.s.toRegs else (TaskContext.at' p.s.mem (ctx t)).regs

/-- A step. -/
inductive Step (A : Alu) : Processor → Event → Processor → Prop
  | execute {sys : System} {s s' : State} (hkeep : Keeps ctx (sys.m.tasks.erase sys.m.cpu) s.mem s'.mem) :
      Step A ⟨sys, s⟩ .execute ⟨sys, s'⟩
  | initContext {sys : System} {s : State} {m : Memory} {t : TaskID} {f data stackEnd : Word} (ht : t ∈ sys.m.tasks)
      (hne : t ≠ sys.m.cpu)
      (hc : TaskContext.at' m (ctx t) = DuvuvurKernel.initContext (.ofNat 64 t) f data stackEnd s.cr3)
      (hkeep : Keeps ctx (sys.m.tasks.erase t) s.mem m) :
      Step A ⟨sys, s⟩ (.initContext t f data stackEnd) ⟨sys, { s with mem := m }⟩
  /-- The action leaves the processor to its task. -/
  | stays {sys sys' : System} {s : State} {a : Action} (ha : sys.Enabled a) (hs : sys.perform a = some sys')
      (hne : a ≠ .call .switchTask) (hcpu : sys'.m.cpu = sys.m.cpu) (hlayout : Layout ctx g sys'.m.tasks) :
      Step A ⟨sys, s⟩ (.act a) ⟨sys', s⟩
  /-- The task sleeps: `SwitchContext(&CurrentTask().Context(), &current_task->Context())`. -/
  | sleeps {sys sys' : System} {s s' : State} {a : Action} (ha : sys.Enabled a) (hs : sys.perform a = some sys')
      (hne : a ≠ .call .switchTask) (hfinish : ∀ c, a ≠ .call (.finish c)) (hcpu : sys'.m.cpu ≠ sys.m.cpu)
      (hdi : s.gpr .rdi = ctx sys'.m.cpu) (hsi : s.gpr .rsi = ctx sys.m.cpu) (hstack : StackApart ctx sys.m.tasks s)
      (hrun : run A switchContext s = some s') :
      Step A ⟨sys, s⟩ (.act a) ⟨sys', s'⟩
  /-- The task finishes: `RestoreContext(&CurrentTask().Context())`. -/
  | finishes {sys sys' : System} {s s' : State} {c : ℤ} (ha : sys.Enabled (.call (.finish c)))
      (hs : sys.perform (.call (.finish c)) = some sys')
      (hdi : s.gpr .rdi = ctx sys'.m.cpu) (hstack : StackApart ctx sys.m.tasks s)
      (hrun : run A restoreContext s = some s') :
      Step A ⟨sys, s⟩ (.act (.call (.finish c))) ⟨sys', s'⟩
  /-- `SwitchTask` copies the context on the stack, and goes on with that of another task. -/
  | preempts {sys sys' : System} {s t u s' : State} (hs : sys.perform (.call .switchTask) = some sys')
      (hcpu : sys'.m.cpu ≠ sys.m.cpu) (hbuild : run A buildContext (s.interrupted g) = some t)
      (hcopy : ∀ i < TaskContext.size, read64 u.mem (slot (ctx sys.m.cpu) i) = read64 t.mem (slot (t.gpr .rdi) i))
      (hkeep : Keeps ctx (sys.m.tasks.erase sys.m.cpu) t.mem u.mem)
      (hdi : u.gpr .rdi = ctx sys'.m.cpu) (hstack : StackApart ctx sys.m.tasks u)
      (hrun : run A restoreContext u = some s') :
      Step A ⟨sys, s⟩ (.act (.call .switchTask)) ⟨sys', s'⟩
  /-- `SwitchTask` finds that no other task is to run, and returns. -/
  | goesOn {sys sys' : System} {s t u s' : State} (hs : sys.perform (.call .switchTask) = some sys')
      (hcpu : sys'.m.cpu = sys.m.cpu) (hbuild : run A buildContext (s.interrupted g) = some t)
      (hkeep : Keeps ctx (sys.m.tasks.erase sys.m.cpu) t.mem u.mem) (hreturn : Returned t u)
      (hrun : run A leaveInterrupt u = some s') :
      Step A ⟨sys, s⟩ (.act (.call .switchTask)) ⟨sys', s'⟩
  | interrupt {sys : System} {s t u s' : State} (hbuild : run A buildContext (s.interrupted g) = some t)
      (hkeep : Keeps ctx (sys.m.tasks.erase sys.m.cpu) t.mem u.mem) (hreturn : Returned t u)
      (hrun : run A leaveInterrupt u = some s') :
      Step A ⟨sys, s⟩ .interrupt ⟨sys, s'⟩

end

variable {A : Alu} {ctx : TaskID → Word} {g : Gate} {p p' : Processor} {e : Event} {t : TaskID}

/-! ### A step -/

/-- What an event does to the registers of the tasks: those of the task that has the processor may change, if it
executes instructions or gives the processor away itself; so do those of a task whose context is initialized. -/
def after (ctx : TaskID → Word) (p p' : Processor) : Event → TaskID → Regs
  | .execute => Function.update (p.view ctx) p.sys.m.cpu p'.s.toRegs
  | .initContext t f data stackEnd =>
    Function.update (p.view ctx) t (DuvuvurKernel.initContext (.ofNat 64 t) f data stackEnd p.s.cr3).regs
  | .act (.call .switchTask) => p.view ctx
  | .act _ =>
    if p'.sys.m.cpu = p.sys.m.cpu then p.view ctx else Function.update (p.view ctx) p.sys.m.cpu (afterReturn p.s)
  | .interrupt => p.view ctx

/-- What holds in every state. -/
structure Inv (ctx : TaskID → Word) (g : Gate) (p : Processor) : Prop where
  sound : p.sys.Sound
  layout : Layout ctx g p.sys.m.tasks

/-- The task that has the processor exists. -/
theorem Inv.cpu_mem (h : p.Inv ctx g) : p.sys.m.cpu ∈ p.sys.m.tasks := h.sound.sched.cpu_mem

theorem view_cpu (h : t = p.sys.m.cpu) : p.view ctx t = p.s.toRegs := if_pos h

theorem view_of_ne (h : t ≠ p.sys.m.cpu) : p.view ctx t = (TaskContext.at' p.s.mem (ctx t)).regs := if_neg h

theorem after_act {a : Action} (hne : a ≠ .call .switchTask) : p.after ctx p' (.act a) =
    if p'.sys.m.cpu = p.sys.m.cpu then p.view ctx
    else Function.update (p.view ctx) p.sys.m.cpu (afterReturn p.s) := by
  cases a with
  | call op =>
    cases op with
    | switchTask => exact absurd rfl hne
    | _ => rfl
  | _ => rfl

/-- Only `NewTask` makes a task. -/
theorem mem_of_perform {s s' : System} {a : Action} (h : s.Sound) (ha : s.Enabled a) (hs : s.perform a = some s')
    (hnew : a ≠ .call .newTask) (ht : t ∈ s'.m.tasks) : t ∈ s.m.tasks := by
  cases a with
  | call op =>
    obtain ⟨m, hm, rfl⟩ := Option.map_eq_some_iff.mp hs
    by_cases hfinish : ∃ c, op = .finish c
    · obtain ⟨c, rfl⟩ := hfinish
      obtain ⟨m', h1, -, h3, -⟩ := finish_spec h.sched ha.1 (h.not_registered (ha.2.resolve_left id)) c
      obtain rfl : m' = m := Option.some.inj (h1.symm.trans hm)
      exact List.mem_of_mem_erase (h3 ▸ ht)
    · obtain ⟨m', h1, h3⟩ := h.step_sameTasks ha.1 (fun hop => hnew (congrArg _ hop)) fun c hc => hfinish ⟨c, hc⟩
      obtain rfl : m' = m := Option.some.inj (h1.symm.trans hm)
      exact h3.tasks ▸ ht
  | waitFinish id =>
    obtain ⟨-, -, -, htasks, -⟩ := h.wait_frame ha (fun _ => nofun) hs
    exact htasks ▸ ht
  | resume =>
    obtain ⟨-, -, -, htasks, -⟩ := h.wait_frame ha (fun _ => nofun) hs
    exact htasks ▸ ht

/-- An action that gives the processor away makes no task. -/
theorem ne_newTask_of_switch {s s' : System} {a : Action} (hs : s.perform a = some s') (hcpu : s'.m.cpu ≠ s.m.cpu) :
    a ≠ .call .newTask := by
  rintro rfl
  cases hs
  exact hcpu rfl

theorem sound_of_perform {s s' : System} {a : Action} (h : s.Sound) (ha : s.Enabled a) (hs : s.perform a = some s') :
    s'.Sound := by
  obtain ⟨s'', h1, h2, -⟩ := h.step a ha
  rwa [Option.some.inj (h1.symm.trans hs)] at h2

/-- Whoever gets the processor existed before. -/
theorem cpu_mem_of_switch {s s' : System} {a : Action} (h : s.Sound) (ha : s.Enabled a) (hs : s.perform a = some s')
    (hcpu : s'.m.cpu ≠ s.m.cpu) : s'.m.cpu ∈ s.m.tasks := by
  exact mem_of_perform h ha hs (ne_newTask_of_switch hs hcpu) (sound_of_perform h ha hs).sched.cpu_mem

/-- A context that lies off the stack, when words below the stack pointer are written. -/
theorem at_of_stack {s : State} {m : Memory} {ts : List TaskID} (hstack : StackApart ctx ts s) (ht : t ∈ ts)
    (hframe : ∀ x : Word, 40 ≤ (x - (s.gpr .rsp - 40)).toNat → m x = s.mem x) :
    TaskContext.at' m (ctx t) = TaskContext.at' s.mem (ctx t) := by
  refine TaskContext.at_of_bytes fun k hk => hframe _ ?_
  have hle := (hstack t ht).le hk
  omega

/-- `RestoreContext` goes on with the registers of the task whose context it is passed. -/
theorem restoreContext_view {s s' : State} {ts : List TaskID} (hlayout : Layout ctx g ts)
    (hdi : s.gpr .rdi = ctx t) (ht : t ∈ ts) (hstack : StackApart ctx ts s) (hrun : run A restoreContext s = some s') :
    s'.toRegs = (TaskContext.at' s.mem (ctx t)).regs ∧
      ∀ u ∈ ts, TaskContext.at' s'.mem (ctx u) = TaskContext.at' s.mem (ctx u) := by
  have hsep : Separate (s.gpr .rsp - 40) 5 (ctx t) TaskContext.size :=
    ⟨Nat.le_trans (by decide) (hstack t ht).1, (hstack t ht).2⟩
  have hrestore := restoreContext_spec (A := A) (s := s) (c := TaskContext.at' s.mem (ctx t))
    (by rw [hdi]; exact hlayout.aligned t ht) (by rw [hdi]; exact hsep) (by rw [hdi])
  obtain rfl := Option.some.inj (hrun.symm.trans hrestore)
  exact ⟨rfl, fun u hu => at_of_stack hstack hu fun x hx => writeWords_of_le hx⟩

/-- `SwitchContext` saves the registers of one task and goes on with those of another. -/
theorem switchContext_view {s s' : State} {ts : List TaskID} {u : TaskID} (hlayout : Layout ctx g ts)
    (hsi : s.gpr .rsi = ctx t) (hdi : s.gpr .rdi = ctx u) (ht : t ∈ ts) (hu : u ∈ ts) (hne : t ≠ u)
    (hstack : StackApart ctx ts s) (hrun : run A switchContext s = some s') :
    s'.toRegs = (TaskContext.at' s.mem (ctx u)).regs ∧ (TaskContext.at' s'.mem (ctx t)).regs = afterReturn s ∧
      ∀ v ∈ ts, v ≠ t → TaskContext.at' s'.mem (ctx v) = TaskContext.at' s.mem (ctx v) := by
  obtain ⟨t', hrun', hnext, hsaved, hframe⟩ := switchContext_spec (A := A) (s := s)
    (by rw [hsi]; exact hlayout.aligned t ht) (by rw [hdi]; exact hlayout.aligned u hu)
    (by rw [hsi]; exact hstack t ht) (by rw [hdi]; exact hstack u hu)
    (by rw [hsi, hdi]; exact hlayout.apart t ht u hu hne)
  obtain rfl := Option.some.inj (hrun.symm.trans hrun')
  rw [hdi] at hnext
  rw [hsi] at hsaved
  refine ⟨hnext, hsaved, fun v hv hvt => TaskContext.at_of_bytes fun k hk => hframe _ ?_ ?_⟩
  · rw [hsi]
    exact (hlayout.apart t ht v hv (Ne.symm hvt)).le hk
  · have hle := (hstack v hv).le hk
    omega

/-- The routine of the interrupt saves the registers on its own stack. -/
theorem buildContext_view {s u : State} {ts : List TaskID} (hlayout : Layout ctx g ts)
    (hbuild : run A buildContext (s.interrupted g) = some u) :
    (TaskContext.at' u.mem (u.gpr .rdi)).regs = s.toRegs ∧
      (∀ v s', Returned u v → run A leaveInterrupt v = some s' → s' = { s.toRegs with mem := v.mem }) ∧
      ∀ t ∈ ts, TaskContext.at' u.mem (ctx t) = TaskContext.at' s.mem (ctx t) := by
  obtain ⟨u', hbuild', hregs, hframe, hleave, -⟩ := intHandlerLAPICTimer_transparent (A := A) s g
  obtain rfl := Option.some.inj (hbuild.symm.trans hbuild')
  refine ⟨hregs, fun v s' hv hrun => Option.some.inj (hrun.symm.trans (hleave v hv)), fun t ht =>
    TaskContext.at_of_bytes fun k hk => hframe _ ?_⟩
  exact (hlayout.interrupts t ht).le hk

/-- An interrupt that returns. -/
theorem leaveInterrupt_view {sys sys' : System} {s s' u v : State} (hlayout : Layout ctx g sys.m.tasks)
    (hcpu : sys'.m.cpu = sys.m.cpu) (hbuild : run A buildContext (s.interrupted g) = some u)
    (hkeep : Keeps ctx (sys.m.tasks.erase sys.m.cpu) u.mem v.mem) (hreturn : Returned u v)
    (hrun : run A leaveInterrupt v = some s') (ht : t ∈ sys.m.tasks) :
    Processor.view ctx ⟨sys', s'⟩ t = Processor.view ctx ⟨sys, s⟩ t := by
  obtain ⟨-, hleave, hother⟩ := buildContext_view hlayout hbuild
  obtain rfl := hleave v s' hreturn hrun
  by_cases ht₁ : t = sys.m.cpu
  · rw [Processor.view_cpu (p := ⟨sys', _⟩) (ht₁.trans hcpu.symm), Processor.view_cpu (p := ⟨sys, s⟩) ht₁]
  · rw [Processor.view_of_ne (p := ⟨sys', _⟩) (hcpu ▸ ht₁), Processor.view_of_ne (p := ⟨sys, s⟩) ht₁, ← hother t ht,
      ← TaskContext.at_congr (hkeep t ((List.mem_erase_of_ne ht₁).mpr ht))]

/-- **A step** keeps the registers of every task but as `after` says. -/
theorem step_view (h : p.Inv ctx g) (hstep : Step ctx g A p e p') (ht : t ∈ p.sys.m.tasks)
    (ht' : t ∈ p'.sys.m.tasks) : p'.view ctx t = p.after ctx p' e t := by
  have hlayout := h.layout
  have hmem := h.cpu_mem
  cases hstep with
  | @execute sys s s' hkeep =>
    rw [Processor.after]
    by_cases ht₁ : t = sys.m.cpu
    · subst ht₁
      rw [Processor.view_cpu rfl, Function.update_self]
    · rw [Processor.view_of_ne ht₁, Function.update_of_ne ht₁, Processor.view_of_ne ht₁,
        TaskContext.at_congr (hkeep t ((List.mem_erase_of_ne ht₁).mpr ht))]
  | @initContext sys s m u f data stackEnd hu hne hc hkeep =>
    rw [Processor.after]
    by_cases ht₁ : t = u
    · subst ht₁
      rw [Processor.view_of_ne hne, Function.update_self, hc]
    rw [Function.update_of_ne ht₁]
    by_cases ht₂ : t = sys.m.cpu
    · rw [Processor.view_cpu ht₂, Processor.view_cpu ht₂]
    · rw [Processor.view_of_ne ht₂, Processor.view_of_ne ht₂,
        TaskContext.at_congr (hkeep t ((List.mem_erase_of_ne ht₁).mpr ht))]
  | stays ha hs hne hcpu hlayout' =>
    rw [Processor.after_act hne, if_pos hcpu, Processor.view, Processor.view, hcpu]
  | @sleeps sys sys' s s' a ha hs hne hfinish hcpu hdi hsi hstack hrun =>
    obtain ⟨hnext, hsaved, hother⟩ := switchContext_view hlayout hsi hdi hmem (cpu_mem_of_switch h.sound ha hs hcpu)
      (Ne.symm hcpu) hstack hrun
    rw [Processor.after_act hne, if_neg hcpu]
    by_cases ht₁ : t = sys.m.cpu
    · subst ht₁
      rw [Processor.view_of_ne (Ne.symm hcpu), Function.update_self, hsaved]
    rw [Function.update_of_ne ht₁, Processor.view_of_ne (p := ⟨sys, s⟩) ht₁]
    by_cases ht₂ : t = sys'.m.cpu
    · rw [Processor.view_cpu ht₂, ht₂, hnext]
    · rw [Processor.view_of_ne ht₂, hother t ht ht₁]
  | @finishes sys sys' s s' c ha hs hdi hstack hrun =>
    have hgone := (h.sound.finish_frame ha hs).2
    have hcpu : sys'.m.cpu ≠ sys.m.cpu := fun heq => hgone (heq ▸ (sound_of_perform h.sound ha hs).sched.cpu_mem)
    obtain ⟨hnext, hother⟩ := restoreContext_view hlayout hdi (cpu_mem_of_switch h.sound ha hs hcpu) hstack hrun
    have ht₁ : t ≠ sys.m.cpu := fun heq => hgone (heq ▸ ht')
    rw [Processor.after_act (by simp), if_neg hcpu, Function.update_of_ne ht₁, Processor.view_of_ne (p := ⟨sys, s⟩) ht₁]
    by_cases ht₂ : t = sys'.m.cpu
    · rw [Processor.view_cpu ht₂, ht₂, hnext]
    · rw [Processor.view_of_ne ht₂, hother t ht]
  | @preempts sys sys' s u v s' hs hcpu hbuild hcopy hkeep hdi hstack hrun =>
    have ha : sys.Enabled (.call .switchTask) := ⟨trivial, .inl trivial⟩
    obtain ⟨hregs, -, hbefore⟩ := buildContext_view hlayout hbuild
    obtain ⟨hnext, hother⟩ := restoreContext_view hlayout hdi (cpu_mem_of_switch h.sound ha hs hcpu) hstack hrun
    -- while `SwitchTask` runs, the context of each task holds the registers of the task
    have hsaved : ∀ w ∈ sys.m.tasks, (TaskContext.at' v.mem (ctx w)).regs = Processor.view ctx ⟨sys, s⟩ w := by
      intro w hw
      by_cases hw₁ : w = sys.m.cpu
      · rw [Processor.view_cpu (p := ⟨sys, s⟩) hw₁, ← hregs, hw₁, TaskContext.at_congr hcopy]
      · rw [Processor.view_of_ne (p := ⟨sys, s⟩) hw₁, ← hbefore w hw,
          TaskContext.at_congr (hkeep w ((List.mem_erase_of_ne hw₁).mpr hw))]
    rw [Processor.after]
    by_cases ht₂ : t = sys'.m.cpu
    · rw [Processor.view_cpu ht₂, ht₂, hnext, hsaved _ (ht₂ ▸ ht)]
    · rw [Processor.view_of_ne ht₂, hother t ht, hsaved t ht]
  | goesOn hs hcpu hbuild hkeep hreturn hrun => exact leaveInterrupt_view hlayout hcpu hbuild hkeep hreturn hrun ht
  | interrupt hbuild hkeep hreturn hrun => exact leaveInterrupt_view hlayout rfl hbuild hkeep hreturn hrun ht

theorem Layout.mono {ts ts' : List TaskID} (h : Layout ctx g ts) (hsub : ∀ t ∈ ts', t ∈ ts) : Layout ctx g ts' where
  aligned t ht := h.aligned t (hsub t ht)
  apart t ht u hu := h.apart t (hsub t ht) u (hsub u hu)
  interrupts t ht := h.interrupts t (hsub t ht)

/-- A step keeps the invariant. -/
theorem step_inv (h : p.Inv ctx g) (hstep : Step ctx g A p e p') : p'.Inv ctx g := by
  have hswitch : p.sys.Enabled (.call .switchTask) := ⟨trivial, .inl trivial⟩
  have hperform : ∀ {sys' : System} {s' : State} {a : Action}, p.sys.Enabled a → p.sys.perform a = some sys' →
      a ≠ .call .newTask → Processor.Inv ctx g ⟨sys', s'⟩ := fun ha hs hnew =>
    ⟨sound_of_perform h.sound ha hs, h.layout.mono fun t ht => mem_of_perform h.sound ha hs hnew ht⟩
  cases hstep with
  | execute | initContext | interrupt => exact ⟨h.sound, h.layout⟩
  | stays ha hs hne hcpu hlayout => exact ⟨sound_of_perform h.sound ha hs, hlayout⟩
  | sleeps ha hs hne hfinish hcpu => exact hperform ha hs (ne_newTask_of_switch hs hcpu)
  | finishes ha hs => exact hperform ha hs (by simp)
  | preempts hs | goesOn hs => exact hperform hswitch hs (by simp)

/-! ### Runs -/

/-- The states that are reached from the start of the task manager. -/
inductive Reachable (ctx : TaskID → Word) (g : Gate) (A : Alu) : Processor → Prop
  | start {s : State} (hlayout : Layout ctx g System.init.m.tasks) : Reachable ctx g A ⟨System.init, s⟩
  | step {p p' : Processor} {e : Event} (h : Reachable ctx g A p) (hstep : Step ctx g A p e p') :
      Reachable ctx g A p'

theorem Reachable.inv (h : Reachable ctx g A p) : p.Inv ctx g := by
  induction h with
  | start hlayout => exact ⟨System.Sound.init, hlayout⟩
  | step _ hstep ih => exact step_inv ih hstep

/-- The events that are a task's own: it executes instructions or gives the processor away itself, or its context is
initialized. -/
def Own (p p' : Processor) (t : TaskID) : Event → Prop
  | .execute => p.sys.m.cpu = t
  | .initContext u _ _ _ => u = t
  | .act a => a ≠ .call .switchTask ∧ p'.sys.m.cpu ≠ p.sys.m.cpu ∧ p.sys.m.cpu = t
  | .interrupt => False

/-- A run during which a task exists, and none of the events is its own. -/
inductive Away (ctx : TaskID → Word) (g : Gate) (A : Alu) (t : TaskID) : Processor → Processor → Prop
  | refl {p : Processor} : Away ctx g A t p p
  | step {p p₁ p₂ : Processor} {e : Event} (h : Away ctx g A t p p₁) (hstep : Step ctx g A p₁ e p₂)
      (hown : ¬ Own p₁ p₂ t e) (ht : t ∈ p₂.sys.m.tasks) : Away ctx g A t p p₂

theorem after_of_not_own (hown : ¬ Own p p' t e) : p.after ctx p' e t = p.view ctx t := by
  cases e with
  | execute => exact Function.update_of_ne (Ne.symm hown) _ _
  | initContext u f data stackEnd => exact Function.update_of_ne (Ne.symm hown) _ _
  | interrupt => rfl
  | act a =>
    by_cases hne : a = .call .switchTask
    · subst hne
      rfl
    rw [Processor.after_act hne]
    by_cases hcpu : p'.sys.m.cpu = p.sys.m.cpu
    · rw [if_pos hcpu]
    · rw [if_neg hcpu, Function.update_of_ne fun ht => hown ⟨hne, hcpu, ht.symm⟩]

/-- While a task is away its registers stay. -/
theorem Away.view (haway : Away ctx g A t p p') (h : p.Inv ctx g) (ht : t ∈ p.sys.m.tasks) :
    p'.Inv ctx g ∧ t ∈ p'.sys.m.tasks ∧ p'.view ctx t = p.view ctx t := by
  induction haway with
  | refl => exact ⟨h, ht, rfl⟩
  | step _ hstep hown ht' ih =>
    obtain ⟨h₁, ht₁, hview⟩ := ih
    exact ⟨step_inv h₁ hstep, ht', by rw [step_view h₁ hstep ht₁ ht', after_of_not_own hown, hview]⟩

/-- **A task comes back to its registers.** Take any event, and any run after it of which no event is the task's own,
with other tasks and interrupts as they come. Whenever the task has the processor again, the registers are as the event
left them: its own after an interrupt and after `SwitchTask`, those after the return if it called `SwitchContext`
itself, those of `InitContext` if it is new. -/
theorem comes_back {p₁ p₂ : Processor} (h : Reachable ctx g A p) (hstep : Step ctx g A p e p₁)
    (ht : t ∈ p.sys.m.tasks) (ht₁ : t ∈ p₁.sys.m.tasks) (haway : Away ctx g A t p₁ p₂) (hcpu : p₂.sys.m.cpu = t) :
    p₂.s.toRegs = p.after ctx p₁ e t := by
  obtain ⟨-, -, hview⟩ := haway.view (step_inv h.inv hstep) ht₁
  rw [← step_view h.inv hstep ht ht₁, ← hview, Processor.view_cpu hcpu.symm]

/-- Two tasks, the first of which sets a register and is interrupted. -/
theorem comes_back_example : ∃ (ctx : TaskID → Word) (g : Gate) (p p₁ p₂ : Processor),
    Step ctx g (fun _ _ _ flags => flags) p .execute p₁ ∧ Away ctx g (fun _ _ _ flags => flags) 1 p₁ p₂ ∧
      p₁.s.gpr .rax = 7 ∧ p₂.s.toRegs = p₁.s.toRegs := by
  let ctx : TaskID → Word := fun t => .ofNat 64 (0x10000 * t)
  let g : Gate := ⟨0, 0x8000, 8, 16, 2⟩
  let s : State := ⟨⟨fun _ => 0, 0, 2, fun _ => 8, 0, fun _ => 0⟩, fun _ => 0⟩
  have hlayout : Layout ctx g System.init.m.tasks := by
    have htasks : System.init.m.tasks = [1, 2] := rfl
    refine ⟨by rw [htasks]; decide, ?_, ?_⟩
    · rw [htasks]
      unfold Separate TaskContext.size
      decide
    · rw [htasks]
      unfold Separate TaskContext.size
      decide
  obtain ⟨t, hbuild, -, -, hleave, -⟩ := intHandlerLAPICTimer_transparent (A := fun _ _ _ flags => flags)
    (s.set .rax 7) g
  have hexecute : Step ctx g (fun _ _ _ flags => flags) ⟨System.init, s⟩ .execute ⟨System.init, s.set .rax 7⟩ :=
    .execute fun _ _ _ _ => rfl
  have haway : Away ctx g (fun _ _ _ flags => flags) 1 ⟨System.init, s.set .rax 7⟩
      ⟨System.init, { (s.set .rax 7).toRegs with mem := t.mem }⟩ :=
    .step .refl (.interrupt hbuild (fun _ _ _ _ => rfl) ⟨rfl, rfl, rfl, rfl, rfl, fun _ _ => rfl⟩
      (hleave t ⟨rfl, rfl, rfl, rfl, rfl, fun _ _ => rfl⟩)) id List.mem_cons_self
  refine ⟨ctx, g, _, _, _, hexecute, haway, State.set_gpr_self, ?_⟩
  exact comes_back (.start hlayout) hexecute (by decide) (by decide) haway rfl

end Processor

end DuvuvurKernel
