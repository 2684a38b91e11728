import DuvuvurKernel.Lib.X86

/-!
# Into an application and out of it

`CallApp`, `SyscallEntry` and `ExitApp` of `asmfunc.asm`. `CallApp` leaves its caller's registers on the system stack,
and the stack pointer in the task, and goes to the application by a far return. There is no way back through the stack:
the application ends in a system call, or in an exception, and `ExitApp` takes the processor back to the caller of
`CallApp`.

## What is proved

* `callApp_spec`: the application starts with its arguments, its stack and its segments.
* `syscallEntry_spec`: a system call gets the arguments of the application, on the system stack of the task; the
  application goes on after `syscall` with its flags, its stack and the registers that calls keep.
* `callApp_returns`: whatever the application does in between, its exit code is what `CallApp` returns to its caller.

## Honest scope

The calls of C++ functions are not modelled as instructions: what is asked of them is that they keep the registers and
the stack of their caller (`Serviced`, `Handled`). The flags that `cmp` sets on the way to `ExitApp` are left out.
-/

namespace DuvuvurKernel

open Lib.X86

variable {A : Alu} {s t u v : State}

/-- The registers a caller of `CallApp` keeps, in the order they are pushed. -/
def calleeSaved : List Reg := [.rbx, .rbp, .r12, .r13, .r14, .r15]

/-- The far return into the application. -/
def toApp : List Instr :=
  [ .store .r9 0 .rsp,
    .push (.reg .rdx), .push (.reg .r8), .add .rdx 8, .push (.reg .rdx), .push (.reg .rcx), .retf ]

/-- `CallApp`. -/
def callApp : List Instr := calleeSaved.map (fun r => .push (.reg r)) ++ toApp

/-- `ExitApp`. -/
def exitApp : List Instr :=
  .mov .rsp (.reg .rdi) :: .mov32 .rax .rsi :: (calleeSaved.reverse.map .pop ++ [.ret])

/-- `InitializeSyscall`. -/
def syscallGate (entry : Word) : SyscallGate where
  star := 8 <<< 32 ||| (16 ||| 3) <<< 48
  lstar := entry
  fmask := 0

/-- The registers that `SyscallEntry` saves. -/
def callerSources : List Src := [.reg .rbp, .reg .rcx, .reg .r11, .reg .rax]

/-- The stack aligned for a call. -/
def alignStack : List Instr :=
  [ .mov .rcx (.reg .r10), .and32 .rax 0x7fffffff, .mov .rbp (.reg .rsp),
    .and .rsp 0xfffffffffffffff0, .push (.reg .rax), .push (.reg .rdx), .cli ]

/-- `SyscallEntry` up to the call of `GetCurrentTaskOSStackPointer`. -/
def saveCaller : List Instr := callerSources.map .push ++ alignStack

/-- The two words copied to the system stack. -/
def copyPending : List Instr :=
  [ .sti, .mov .rdx (.mem .rsp 0), .store .rax (-16) .rdx, .mov .rdx (.mem .rsp 8), .store .rax (-8) .rdx,
    .lea .rsp .rax (-16) ]

/-- `SyscallEntry` from there to the call of the system call. -/
def toSystemStack : List Instr := copyPending ++ ([.rdx, .rax].map .pop ++ [.and .rsp 0xfffffffffffffff0])

/-- The number of the system call `Exit`. -/
def exitNumber : BitVec 32 := 0x80000002

/-- `SyscallEntry` after the system call. -/
def leaveSyscall (A : Alu) (g : SyscallGate) (s : State) : Option State :=
  (run A [.mov .rsp (.reg .rbp), .pop .rsi] s).bind fun s =>
    if (s.gpr .rsi).setWidth 32 = exitNumber then
      run A (.mov .rdi (.reg .rax) :: .mov32 .rsi .rdx :: exitApp) s
    else run A [.pop .r11, .pop .rcx, .pop .rbp, .sysretq g.userCS g.userSS] s

/-- The words of the registers of a state. -/
def savedWords (s : State) : List Word := calleeSaved.reverse.map s.gpr

/-- The stack for the far return. -/
theorem run_toApp (hring : rpl ((v.gpr .rdx + 8).setWidth 16) ≠ rpl (v.seg .cs))
    (hu : v = { u with mem := write64 u.mem (u.gpr .r9) (u.gpr .rsp) }) :
    ∃ t, run A toApp u = some t ∧ t.rip = v.gpr .rcx ∧ t.gpr .rsp = v.gpr .r8 ∧
      (∀ r, r ≠ .rsp → r ≠ .rdx → t.gpr r = v.gpr r) ∧
      t.seg .cs = (v.gpr .rdx + 8).setWidth 16 ∧ t.seg .ss = (v.gpr .rdx).setWidth 16 ∧
      t.mem = writeWords v.mem (v.gpr .rsp - 32) [v.gpr .rcx, v.gpr .rdx + 8, v.gpr .r8, v.gpr .rdx] := by
  have hstore : exec A u (.store .r9 0 .rsp) = some v := by
    rw [exec, hu, show u.gpr .r9 + 0 = u.gpr .r9 from BitVec.add_zero _]
  generalize hflags : A .add (v.gpr .rdx) 8 v.rflags = flags
  generalize hw : (v.set .rdx (v.gpr .rdx + 8)).setFlags flags = w
  have hret : run A toApp u = exec A (w.pushAll [v.gpr .rcx, v.gpr .rdx + 8, v.gpr .r8, v.gpr .rdx]) .retf := by
    have hadd : exec A (v.pushAll [v.gpr .r8, v.gpr .rdx]) (.add .rdx 8) =
        some (w.pushAll [v.gpr .r8, v.gpr .rdx]) := by
      rw [exec, State.pushAll_gpr (by decide), State.pushAll_set (by decide), State.pushAll_rflags, hflags,
        State.pushAll_setFlags, hw]
    have hdx : w.gpr .rdx = v.gpr .rdx + 8 := by rw [← hw, State.setFlags_gpr, State.set_gpr_self]
    have hcx : w.gpr .rcx = v.gpr .rcx := by rw [← hw, State.setFlags_gpr, State.set_gpr_of_ne (by decide)]
    rw [toApp, run_cons, hstore, Option.bind_some, run_cons, exec, Option.bind_some, State.value, State.pushed_eq,
      run_cons, exec, Option.bind_some, State.value, State.pushAll_gpr (by decide), State.pushed_pushAll,
      run_cons, hadd, Option.bind_some, run_cons, exec, Option.bind_some, State.value, State.pushAll_gpr (by decide),
      hdx,
      State.pushed_pushAll, run_cons, exec, Option.bind_some, State.value, State.pushAll_gpr (by decide), hcx,
      State.pushed_pushAll, run_singleton]
  have hstack : ∀ i a, [v.gpr .rcx, v.gpr .rdx + 8, v.gpr .r8, v.gpr .rdx][i]? = some a →
      (w.pushAll [v.gpr .rcx, v.gpr .rdx + 8, v.gpr .r8, v.gpr .rdx]).onStack i = a :=
    fun i a hi => State.onStack_pushAll (by simp) hi
  have hfar : exec A (w.pushAll [v.gpr .rcx, v.gpr .rdx + 8, v.gpr .r8, v.gpr .rdx]) .retf = some
      { (w.pushAll [v.gpr .rcx, v.gpr .rdx + 8, v.gpr .r8, v.gpr .rdx]).set .rsp (v.gpr .r8) with
        rip := v.gpr .rcx
        seg := Function.update (Function.update v.seg .cs ((v.gpr .rdx + 8).setWidth 16)) .ss
          ((v.gpr .rdx).setWidth 16) } := by
    have hseg : w.seg = v.seg := by
      rw [← hw]
      rfl
    rw [exec, hstack 0 _ rfl, hstack 1 _ rfl, hstack 2 _ rfl, hstack 3 _ rfl, State.pushAll_seg, hseg, if_neg hring]
  refine ⟨_, hret.trans hfar, rfl, ?_, fun r hr hr' => ?_, rfl, rfl, ?_⟩
  · simp only [State.set_gpr_self]
  · simp only [State.set_gpr_of_ne hr]
    rw [State.pushAll_gpr hr, ← hw, State.setFlags_gpr, State.set_gpr_of_ne hr']
  · rw [← hw]
    rfl

/-- **`CallApp`** goes to the application, with the arguments where it finds them. The registers that the caller keeps
are on the system stack, whose top is where `os_stack_ptr` points to. -/
theorem callApp_spec (hos : Separate (s.gpr .rsp - 80) 11 (s.gpr .r9) 1)
    (hring : rpl ((s.gpr .rdx + 8).setWidth 16) ≠ rpl (s.seg .cs)) :
    ∃ t, run A callApp s = some t ∧ t.rip = s.gpr .rcx ∧ t.gpr .rsp = s.gpr .r8 ∧
      t.gpr .rdi = s.gpr .rdi ∧ t.gpr .rsi = s.gpr .rsi ∧
      t.seg .cs = (s.gpr .rdx + 8).setWidth 16 ∧ t.seg .ss = (s.gpr .rdx).setWidth 16 ∧
      read64 t.mem (s.gpr .r9) = s.gpr .rsp - 48 ∧ readWords t.mem (s.gpr .rsp - 48) 6 = savedWords s ∧
      ∀ x : Word, 80 ≤ (x - (s.gpr .rsp - 80)).toNat → 8 ≤ (x - s.gpr .r9).toNat → t.mem x = s.mem x := by
  have hpush := run_pushes (A := A) (s := s) (W := []) (n := 6) (l := calleeSaved.map .reg)
    (by simp [calleeSaved, State.stable_reg]) (by decide)
  have hsaved : ((calleeSaved.map Src.reg).map s.value).reverse = savedWords s := rfl
  rw [State.pushAll_nil, List.append_nil, hsaved, List.map_map] at hpush
  have hsp : (s.pushAll (savedWords s)).gpr .rsp = s.gpr .rsp - 48 := State.pushAll_rsp
  generalize hv : { s.pushAll (savedWords s) with
    mem := write64 (s.pushAll (savedWords s)).mem ((s.pushAll (savedWords s)).gpr .r9)
      ((s.pushAll (savedWords s)).gpr .rsp) } = v
  have hgpr : ∀ r, r ≠ .rsp → v.gpr r = s.gpr r := by
    intro r hr
    rw [← hv]
    exact State.pushAll_gpr hr
  obtain ⟨t, hrun, hrip, htsp, hother, hcs, hss, hmem⟩ := run_toApp (A := A) (v := v)
    (by rw [hgpr _ (by decide), ← hv]; exact hring) hv.symm
  have hvsp : v.gpr .rsp = s.gpr .rsp - 48 := by
    rw [← hv]
    exact hsp
  have hvmem : v.mem = write64 (writeWords s.mem (s.gpr .rsp - 48) (savedWords s)) (s.gpr .r9) (s.gpr .rsp - 48) := by
    rw [← hv, hsp, State.pushAll_gpr (by decide)]
    rfl
  have hlen : (savedWords s).length = 6 := rfl
  obtain ⟨hos1, hos2⟩ := hos
  have hdx := hgpr .rdx (by decide)
  refine ⟨t, (run_append hpush).trans hrun, hrip.trans (hgpr _ (by decide)), htsp.trans (hgpr _ (by decide)),
    (hother _ (by decide) (by decide)).trans (hgpr _ (by decide)),
    (hother _ (by decide) (by decide)).trans (hgpr _ (by decide)), hcs.trans (by rw [hdx]), hss.trans (by rw [hdx]),
    ?_, ?_, fun x hx hx' => ?_⟩
  · have hsep : Separate (v.gpr .rsp - 32) 4 (s.gpr .r9) 1 := by
      rw [hvsp]
      constructor <;> bv_omega
    have hread := read64_writeWords_of_separate (m := v.mem) (W := [v.gpr .rcx, v.gpr .rdx + 8, v.gpr .r8, v.gpr .rdx])
      hsep Nat.zero_lt_one
    rw [slot_zero, ← hmem] at hread
    rw [hread, hvmem, read64_write64_self]
  · have hsep : Separate (v.gpr .rsp - 32) 4 (s.gpr .rsp - 48) 6 := by
      rw [hvsp]
      constructor <;> bv_omega
    have hread := readWords_writeWords (m := s.mem) (a := s.gpr .rsp - 48) (W := savedWords s) (by rw [hlen]; decide)
    rw [hlen] at hread
    refine (readWords_congr fun i hi => ?_).trans hread
    have hapart : WordsApart (s.gpr .r9) (slot (s.gpr .rsp - 48) i) := by
      unfold slot
      constructor <;> bv_omega
    rw [hmem, read64_writeWords_of_separate hsep hi, hvmem, read64_write64_of_apart hapart]
  · have hle : 8 * [v.gpr .rcx, v.gpr .rdx + 8, v.gpr .r8, v.gpr .rdx].length ≤ (x - (v.gpr .rsp - 32)).toNat := by
      rw [hvsp, List.length_cons, List.length_cons, List.length_cons, List.length_singleton]
      bv_omega
    have hle' : 8 * (savedWords s).length ≤ (x - (s.gpr .rsp - 48)).toNat := by
      rw [hlen]
      bv_omega
    rw [hmem, writeWords_of_le hle, hvmem, write64_of_le hx', writeWords_of_le hle']

/-- **`ExitApp`**, with the stack that `CallApp` has left, returns to the caller of `CallApp`. -/
theorem exitApp_spec (hsaved : readWords u.mem (u.gpr .rdi) 6 = savedWords s) :
    ∃ v, run A exitApp u = some v ∧ v.rip = read64 u.mem (slot (u.gpr .rdi) 6) ∧
      v.gpr .rsp = slot (u.gpr .rdi) 7 ∧ v.gpr .rax = ((u.gpr .rsi).setWidth 32).setWidth 64 ∧
      (∀ r ∈ calleeSaved, v.gpr r = s.gpr r) ∧ v.mem = u.mem ∧ v.seg = u.seg ∧ v.cr3 = u.cr3 := by
  generalize hw : (u.set .rsp (u.gpr .rdi)).set .rax (((u.gpr .rsi).setWidth 32).setWidth 64) = w
  have hsp : w.gpr .rsp = u.gpr .rdi := by
    rw [← hw, State.set_gpr_of_ne (by decide), State.set_gpr_self]
  have hmem : w.mem = u.mem := by
    rw [← hw]
    rfl
  have hstart : run A exitApp u = run A (calleeSaved.reverse.map .pop ++ [.ret]) w := by
    rw [exitApp, run_cons, exec, Option.bind_some, run_cons, exec, Option.bind_some, State.value,
      State.set_gpr_of_ne (by decide), hw]
  have hword : ∀ r ∈ calleeSaved, w.onStack (calleeSaved.reverse.idxOf r) = s.gpr r := by
    intro r hr
    have hidx : (savedWords s)[calleeSaved.reverse.idxOf r]? = some (s.gpr r) := by
      rw [savedWords, List.getElem?_map, List.getElem?_idxOf (List.mem_reverse.mpr hr), Option.map_some]
    rw [State.onStack, hsp, hmem]
    exact read64_of_readWords hsaved hidx
  obtain ⟨v, hrun, hrip, hvsp, hin, hout, hvmem, hcr3, hseg, -⟩ := run_pops_ret (A := A) (s := w)
    (l := calleeSaved.reverse) (by decide) (by decide)
  refine ⟨v, hstart.trans hrun, ?_, ?_, ?_, fun r hr => (hin r (List.mem_reverse.mpr hr)).trans (hword r hr),
    hvmem.trans hmem, ?_, ?_⟩
  · rw [hrip, State.onStack, hsp, hmem]
    rfl
  · rw [hvsp, hsp]
    rfl
  · rw [hout _ (by decide) (by decide), ← hw, State.set_gpr_self]
  · rw [hseg, ← hw]
    rfl
  · rw [hcr3, ← hw]
    rfl

/-! ### System calls -/

variable {a d r : State} {g : SyscallGate} {os : Word}

/-- The index into `syscall_table`. -/
def syscallIndex (a : State) : Word := (((a.gpr .rax).setWidth 32 &&& 0x7fffffff : BitVec 32)).setWidth 64

/-- What is saved on the stack of the application. -/
def callerWords (a : State) : List Word := [a.gpr .rax, a.rflags, a.rip, a.gpr .rbp]

/-- The arguments that are kept while the system stack is asked for. -/
def pendingWords (a : State) : List Word := [a.gpr .rdx, syscallIndex a]

/-- What `GetCurrentTaskOSStackPointer`, which saves every register, leaves: its result, and the stack of its caller. -/
structure Serviced (t u : State) (os : Word) : Prop where
  rax : u.gpr .rax = os
  gpr : ∀ r, r ≠ .rax → u.gpr r = t.gpr r
  stack : ∀ x : Word, (x - t.gpr .rsp).toNat < 64 → u.mem x = t.mem x

/-- What the calling convention promises of a system call that returns, and what it leaves of the stack of the
application. -/
structure Handled (d r : State) : Prop where
  saved : ∀ x ∈ calleeSaved, r.gpr x = d.gpr x
  stack : ∀ x : Word, (x - d.gpr .rbp).toNat < 32 → r.mem x = d.mem x

theorem alignStack_spec (s : State) :
    ∃ t, run A alignStack s = some t ∧ t.gpr .rsp = aligned (s.gpr .rsp) - 16 ∧ t.gpr .rbp = s.gpr .rsp ∧
      t.gpr .rcx = s.gpr .r10 ∧
      (∀ x, x ≠ .rax → x ≠ .rsp → x ≠ .rbp → x ≠ .rcx → t.gpr x = s.gpr x) ∧
      t.mem = writeWords s.mem (aligned (s.gpr .rsp) - 16) (pendingWords s) := by
  have hindex : (((s.set .rcx (s.gpr .r10)).gpr .rax).setWidth 32 &&& 0x7fffffff : BitVec 32).setWidth 64 =
      syscallIndex s := by
    rw [State.set_gpr_of_ne (by decide), syscallIndex]
  generalize hu : (((s.set .rcx (s.gpr .r10)).set .rax (syscallIndex s)).setFlags
    (A .and32 ((s.set .rcx (s.gpr .r10)).gpr .rax) ((0x7fffffff : BitVec 32).setWidth 64) s.rflags)).set .rbp
      (s.gpr .rsp) = u
  have husp : u.gpr .rsp = s.gpr .rsp := by
    rw [← hu, State.set_gpr_of_ne (by decide), State.setFlags_gpr, State.set_gpr_of_ne (by decide),
      State.set_gpr_of_ne (by decide)]
  have hfirst : run A alignStack s = run A [.and .rsp 0xfffffffffffffff0, .push (.reg .rax), .push (.reg .rdx), .cli]
      u := by
    rw [← hu, ← hindex]
    rfl
  generalize hv : (u.set .rsp (aligned (s.gpr .rsp))).setFlags
    (A .and (u.gpr .rsp) 0xfffffffffffffff0 u.rflags) = v
  have hand : exec A u (.and .rsp 0xfffffffffffffff0) = some v := by
    rw [exec, husp, ← hv, husp]
    rfl
  have hvsp : v.gpr .rsp = aligned (s.gpr .rsp) := by rw [← hv, State.setFlags_gpr, State.set_gpr_self]
  have hvu : ∀ x, x ≠ .rsp → v.gpr x = u.gpr x := by
    intro x hx
    rw [← hv, State.setFlags_gpr, State.set_gpr_of_ne hx]
  have hvax : v.gpr .rax = syscallIndex s := by
    rw [hvu _ (by decide), ← hu, State.set_gpr_of_ne (by decide), State.setFlags_gpr, State.set_gpr_self]
  have hother : ∀ x, x ≠ .rax → x ≠ .rsp → x ≠ .rbp → x ≠ .rcx → v.gpr x = s.gpr x := by
    intro x h1 h2 h3 h4
    rw [hvu x h2, ← hu, State.set_gpr_of_ne h3, State.setFlags_gpr, State.set_gpr_of_ne h1, State.set_gpr_of_ne h4]
  have hrun : run A alignStack s = some ((v.pushAll (pendingWords s)).setFlags
      ((v.pushAll (pendingWords s)).rflags &&& ~~~interruptFlag)) := by
    rw [hfirst, run_cons, hand, Option.bind_some, run_cons, exec, Option.bind_some, State.value, hvax, State.pushed_eq,
      run_cons, exec, Option.bind_some, State.value, State.pushAll_gpr (by decide),
      hother .rdx (by decide) (by decide) (by decide) (by decide), State.pushed_pushAll, run_singleton]
    rfl
  refine ⟨_, hrun, ?_, ?_, ?_, fun x h1 h2 h3 h4 => ?_, ?_⟩
  · rw [State.setFlags_gpr, State.pushAll_rsp, hvsp]
    rfl
  · rw [State.setFlags_gpr, State.pushAll_gpr (by decide), hvu _ (by decide), ← hu, State.set_gpr_self]
  · rw [State.setFlags_gpr, State.pushAll_gpr (by decide), hvu _ (by decide), ← hu, State.set_gpr_of_ne (by decide),
      State.setFlags_gpr, State.set_gpr_of_ne (by decide), State.set_gpr_self]
  · rw [State.setFlags_gpr, State.pushAll_gpr h2, hother x h1 h2 h3 h4]
  · change writeWords v.mem (v.gpr .rsp - 16) _ = _
    rw [hvsp, ← hv, ← hu]
    rfl

/-- Up to `GetCurrentTaskOSStackPointer`. -/
theorem saveCaller_spec (a : State) (g : SyscallGate) :
    ∃ t, run A saveCaller (a.syscall g) = some t ∧ t.gpr .rsp = aligned (a.gpr .rsp - 32) - 16 ∧
      t.gpr .rbp = a.gpr .rsp - 32 ∧ t.gpr .rcx = a.gpr .r10 ∧
      (∀ x, x ≠ .rax → x ≠ .rsp → x ≠ .rbp → x ≠ .rcx → x ≠ .r11 → t.gpr x = a.gpr x) ∧
      t.mem = writeWords (writeWords a.mem (a.gpr .rsp - 32) (callerWords a)) (aligned (a.gpr .rsp - 32) - 16)
        (pendingWords a) := by
  have hpush := run_pushes (A := A) (s := a.syscall g) (W := []) (n := 4) (l := callerSources)
    (by simp [callerSources, State.stable_reg]) (by decide)
  have hvals : (callerSources.map (a.syscall g).value).reverse = callerWords a := by
    simp only [callerSources, List.map_cons, List.map_nil, List.reverse_cons, List.reverse_nil, List.nil_append,
      List.cons_append, State.value, State.syscall_rcx, State.syscall_r11, callerWords,
      State.syscall_gpr (g := g) (s := a) (show Reg.rbp ≠ .rcx by decide) (by decide),
      State.syscall_gpr (g := g) (s := a) (show Reg.rax ≠ .rcx by decide) (by decide)]
  rw [State.pushAll_nil, List.append_nil, hvals] at hpush
  have hsp : ((a.syscall g).pushAll (callerWords a)).gpr .rsp = a.gpr .rsp - 32 := by
    rw [State.pushAll_rsp, State.syscall_gpr (by decide) (by decide)]
    rfl
  have hgpr : ∀ x, x ≠ .rsp → x ≠ .rcx → x ≠ .r11 → ((a.syscall g).pushAll (callerWords a)).gpr x = a.gpr x := by
    intro x h1 h2 h3
    rw [State.pushAll_gpr h1, State.syscall_gpr h2 h3]
  obtain ⟨t, hrun, htsp, htbp, htcx, hother, hmem⟩ := alignStack_spec (A := A) ((a.syscall g).pushAll (callerWords a))
  rw [hsp] at htsp htbp hmem
  refine ⟨t, (run_append hpush).trans hrun, htsp, htbp, htcx.trans (hgpr _ (by decide) (by decide) (by decide)),
    fun x h1 h2 h3 h4 h5 => (hother x h1 h2 h3 h4).trans (hgpr x h2 h4 h5), ?_⟩
  have hpending : pendingWords ((a.syscall g).pushAll (callerWords a)) = pendingWords a := by
    rw [pendingWords, syscallIndex, hgpr .rdx (by decide) (by decide) (by decide),
      hgpr .rax (by decide) (by decide) (by decide)]
    rfl
  have hpushed : ((a.syscall g).pushAll (callerWords a)).mem =
      writeWords a.mem (a.gpr .rsp - 32) (callerWords a) := by
    rw [State.pushAll, State.syscall_gpr (by decide) (by decide)]
    rfl
  rw [hmem, hpending, hpushed]

theorem copyPending_spec {w₀ w₁ : Word} (hax : u.gpr .rax = os) (hrow : readWords u.mem (u.gpr .rsp) 2 = [w₀, w₁])
    (hsep : Separate (os - 16) 2 (u.gpr .rsp) 2) :
    ∃ t, run A copyPending u = some t ∧ t.gpr .rsp = os - 16 ∧ (∀ x, x ≠ .rsp → x ≠ .rdx → t.gpr x = u.gpr x) ∧
      read64 t.mem (os - 16) = w₀ ∧ read64 t.mem (os - 8) = w₁ ∧
      ∀ x : Word, 16 ≤ (x - (os - 16)).toNat → t.mem x = u.mem x := by
  have hw₀ : read64 u.mem (u.gpr .rsp) = w₀ := by
    rw [← slot_zero (a := u.gpr .rsp)]
    exact read64_of_readWords hrow rfl
  have hw₁ : read64 u.mem (u.gpr .rsp + 8) = w₁ := read64_of_readWords (i := 1) hrow rfl
  have hapart : WordsApart (os - 16) (u.gpr .rsp + 8) := by
    obtain ⟨h1, h2⟩ := hsep
    constructor <;> bv_omega
  have hapart' : WordsApart (os - 8) (os - 16) := by
    constructor <;> bv_omega
  have hneg : os + (-16) = os - 16 ∧ os + (-8) = os - 8 := by
    constructor <;> bv_omega
  -- the state after each half, and after the last instruction
  generalize hv : { (u.setFlags (u.rflags ||| interruptFlag)).set .rdx w₀ with
    mem := write64 u.mem (os - 16) w₀ } = v
  generalize hw : { v.set .rdx w₁ with mem := write64 v.mem (os - 8) w₁ } = w
  have hvgpr : ∀ x, x ≠ .rdx → v.gpr x = u.gpr x := by
    intro x hx
    rw [← hv]
    exact State.set_gpr_of_ne hx
  have hwgpr : ∀ x, x ≠ .rdx → w.gpr x = u.gpr x := by
    intro x hx
    rw [← hw, ← hvgpr x hx]
    exact State.set_gpr_of_ne hx
  have hvmem : v.mem = write64 u.mem (os - 16) w₀ := by rw [← hv]
  have hwmem : w.mem = write64 (write64 u.mem (os - 16) w₀) (os - 8) w₁ := by rw [← hw, ← hvmem]
  have hfirst : run A [.sti, .mov .rdx (.mem .rsp 0), .store .rax (-16) .rdx] u = some v := by
    have hval : (u.setFlags (u.rflags ||| interruptFlag)).value (.mem .rsp 0) = w₀ := by
      rw [State.value, State.setFlags_gpr, show u.gpr .rsp + 0 = u.gpr .rsp from BitVec.add_zero _]
      exact hw₀
    rw [run_cons, exec, Option.bind_some, run_cons, exec, Option.bind_some, hval, run_singleton, exec,
      State.set_gpr_of_ne (by decide), State.set_gpr_self, State.setFlags_gpr, hax, hneg.1, ← hv]
    rfl
  have hsecond : run A [.mov .rdx (.mem .rsp 8), .store .rax (-8) .rdx] v = some w := by
    have hval : v.value (.mem .rsp 8) = w₁ := by
      rw [State.value, hvgpr _ (by decide), hvmem, read64_write64_of_apart hapart, hw₁]
    rw [run_cons, exec, Option.bind_some, hval, run_singleton, exec, State.set_gpr_of_ne (by decide),
      State.set_gpr_self, hvgpr _ (by decide), hax, hneg.2, ← hw]
    rfl
  have hlea : exec A w (.lea .rsp .rax (-16)) = some (w.set .rsp (os - 16)) := by
    rw [exec, hwgpr _ (by decide), hax, hneg.1]
  refine ⟨w.set .rsp (os - 16), ?_, State.set_gpr_self, fun x hx hx' => ?_, ?_, ?_, fun x hx => ?_⟩
  · exact (run_append (j := [.mov .rdx (.mem .rsp 8), .store .rax (-8) .rdx, .lea .rsp .rax (-16)]) hfirst).trans
      ((run_append hsecond).trans ((run_singleton _).trans hlea))
  · rw [State.set_gpr_of_ne hx, hwgpr x hx']
  · exact (congrArg (read64 · (os - 16)) hwmem).trans ((read64_write64_of_apart hapart').trans read64_write64_self)
  · exact (congrArg (read64 · (os - 8)) hwmem).trans read64_write64_self
  · refine (congrFun hwmem x).trans ?_
    rw [write64_of_le (by bv_omega), write64_of_le (by bv_omega)]

/-- From `GetCurrentTaskOSStackPointer` to the system call. -/
theorem toSystemStack_spec {w₀ w₁ : Word} (hax : u.gpr .rax = os) (hrow : readWords u.mem (u.gpr .rsp) 2 = [w₀, w₁])
    (hsep : Separate (os - 16) 2 (u.gpr .rsp) 2) :
    ∃ d, run A toSystemStack u = some d ∧ d.gpr .rsp = aligned os ∧ d.gpr .rdx = w₀ ∧ d.gpr .rax = w₁ ∧
      (∀ x, x ≠ .rsp → x ≠ .rdx → x ≠ .rax → d.gpr x = u.gpr x) ∧
      ∀ x : Word, 16 ≤ (x - (os - 16)).toNat → d.mem x = u.mem x := by
  obtain ⟨t, hrun, hsp, hgpr, h0, h1, hframe⟩ := copyPending_spec (A := A) hax hrow hsep
  have hpops := run_pops (A := A) (s := t) (l := [.rdx, .rax]) (by decide) (by decide)
  generalize hv : { t with gpr := t.popAll [.rdx, .rax] } = v at hpops
  have hvgpr : v.gpr = t.popAll [.rdx, .rax] := by rw [← hv]
  have hvsp : v.gpr .rsp = os := by
    rw [hvgpr, State.popAll_rsp, hsp]
    unfold slot
    simp only [List.length_cons, List.length_nil]
    bv_omega
  have hand : exec A v (.and .rsp 0xfffffffffffffff0) =
      some ((v.set .rsp (aligned os)).setFlags (A .and os 0xfffffffffffffff0 v.rflags)) := by
    rw [exec, hvsp]
    rfl
  refine ⟨_, (run_append hrun).trans ((run_append hpops).trans ((run_singleton _).trans hand)), ?_, ?_, ?_,
    fun x h1 h2 h3 => ?_, fun x hx => ?_⟩
  · rw [State.setFlags_gpr, State.set_gpr_self]
  · rw [State.setFlags_gpr, State.set_gpr_of_ne (by decide), hvgpr, State.popAll_of_mem (by decide) (by decide),
      State.onStack, hsp, ← h0]
    exact congrArg _ slot_zero
  · rw [State.setFlags_gpr, State.set_gpr_of_ne (by decide), hvgpr, State.popAll_of_mem (by decide) (by decide),
      State.onStack, hsp, ← h1]
    refine congrArg _ (?_ : slot (os - 16) 1 = os - 8)
    rw [slot_one]
    bv_omega
  · rw [State.setFlags_gpr, State.set_gpr_of_ne h1, hvgpr, State.popAll_of_notMem (by simp [h2, h3]) h1, hgpr x h1 h2]
  · rw [← hframe x hx, ← hv]
    rfl

/-- After the system call, with the number that was passed. -/
theorem leaveSyscall_eq {w : Word} (hbp : read64 r.mem (r.gpr .rbp) = w) :
    leaveSyscall A g r =
      if w.setWidth 32 = exitNumber then
        run A (.mov .rdi (.reg .rax) :: .mov32 .rsi .rdx :: exitApp)
          (((r.set .rsp (r.gpr .rbp)).dropped 1).set .rsi w)
      else run A [.pop .r11, .pop .rcx, .pop .rbp, .sysretq g.userCS g.userSS]
        (((r.set .rsp (r.gpr .rbp)).dropped 1).set .rsi w) := by
  have htop : (r.set .rsp (r.gpr .rbp)).onStack 0 = w := by
    rw [State.onStack, State.set_gpr_self, slot_zero]
    exact hbp
  rw [leaveSyscall, run_cons, exec, Option.bind_some, State.value, run_singleton, exec, htop, Option.bind_some,
    State.set_gpr_self]

/-- A system call other than `Exit` returns to the application. -/
theorem leaveSyscall_return (hrow : readWords r.mem (r.gpr .rbp) 4 = callerWords a)
    (hnum : (a.gpr .rax).setWidth 32 ≠ exitNumber) :
    ∃ v, leaveSyscall A g r = some v ∧ v.rip = a.rip ∧ v.rflags = sysretFlags a.rflags ∧
      v.gpr .rsp = slot (r.gpr .rbp) 4 ∧ v.gpr .rbp = a.gpr .rbp ∧
      (∀ x, x ∉ [Reg.rsp, .rsi, .r11, .rcx, .rbp] → v.gpr x = r.gpr x) ∧
      v.seg .cs = g.userCS ∧ v.seg .ss = g.userSS ∧ v.mem = r.mem := by
  have hbp : read64 r.mem (r.gpr .rbp) = a.gpr .rax := by
    rw [← slot_zero (a := r.gpr .rbp)]
    exact read64_of_readWords hrow rfl
  rw [leaveSyscall_eq hbp, if_neg hnum]
  generalize hw : ((r.set .rsp (r.gpr .rbp)).dropped 1).set .rsi (a.gpr .rax) = w
  have hwsp : w.gpr .rsp = slot (r.gpr .rbp) 1 := by
    rw [← hw, State.set_gpr_of_ne (by decide), State.dropped, State.set_gpr_self, State.set_gpr_self]
  have hwmem : w.mem = r.mem := by
    rw [← hw]
    rfl
  have hwgpr : ∀ x, x ≠ .rsp → x ≠ .rsi → w.gpr x = r.gpr x := by
    intro x h1 h2
    rw [← hw, State.set_gpr_of_ne h2, State.dropped, State.set_gpr_of_ne h1, State.set_gpr_of_ne h1]
  have hstack : ∀ i y, (callerWords a)[1 + i]? = some y → w.onStack i = y := by
    intro i y hi
    rw [State.onStack, hwsp, hwmem, slot_slot]
    exact read64_of_readWords hrow hi
  have hpops := run_pops (A := A) (s := w) (l := [.r11, .rcx, .rbp]) (by decide) (by decide)
  generalize hv : { w with gpr := w.popAll [.r11, .rcx, .rbp] } = v at hpops
  have hvgpr : v.gpr = w.popAll [.r11, .rcx, .rbp] := by rw [← hv]
  have h11 : v.gpr .r11 = a.rflags := by
    rw [hvgpr, State.popAll_of_mem (by decide) (by decide)]
    exact hstack 0 _ rfl
  have hcx : v.gpr .rcx = a.rip := by
    rw [hvgpr, State.popAll_of_mem (by decide) (by decide)]
    exact hstack 1 _ rfl
  refine ⟨_, (run_append (j := [.sysretq g.userCS g.userSS]) hpops).trans (run_singleton _), hcx, ?_, ?_, ?_,
    fun x hx => ?_, rfl, rfl, ?_⟩
  · rw [← h11]
  · refine (congrFun hvgpr _).trans ?_
    rw [State.popAll_rsp, hwsp, slot_slot]
    rfl
  · refine (congrFun hvgpr _).trans ?_
    rw [State.popAll_of_mem (by decide) (by decide)]
    exact hstack 2 _ rfl
  · simp only [List.mem_cons, List.not_mem_nil, or_false, not_or] at hx
    obtain ⟨h1, h2, h3, h4, h5⟩ := hx
    refine (congrFun hvgpr _).trans ?_
    rw [State.popAll_of_notMem (by simp [h3, h4, h5]) h1, hwgpr x h1 h2]
  · rw [← hwmem, ← hv]

/-- `Exit` returns to the caller of `CallApp`. -/
theorem leaveSyscall_exit (hrow : readWords r.mem (r.gpr .rbp) 4 = callerWords a)
    (hnum : (a.gpr .rax).setWidth 32 = exitNumber) (hsaved : readWords r.mem (r.gpr .rax) 6 = savedWords s) :
    ∃ v, leaveSyscall A g r = some v ∧ v.rip = read64 r.mem (slot (r.gpr .rax) 6) ∧
      v.gpr .rsp = slot (r.gpr .rax) 7 ∧ v.gpr .rax = ((r.gpr .rdx).setWidth 32).setWidth 64 ∧
      (∀ x ∈ calleeSaved, v.gpr x = s.gpr x) ∧ v.mem = r.mem := by
  have hbp : read64 r.mem (r.gpr .rbp) = a.gpr .rax := by
    rw [← slot_zero (a := r.gpr .rbp)]
    exact read64_of_readWords hrow rfl
  rw [leaveSyscall_eq hbp, if_pos hnum]
  generalize hw : ((r.set .rsp (r.gpr .rbp)).dropped 1).set .rsi (a.gpr .rax) = w
  have hwmem : w.mem = r.mem := by
    rw [← hw]
    rfl
  have hwgpr : ∀ x, x ≠ .rsp → x ≠ .rsi → w.gpr x = r.gpr x := by
    intro x h1 h2
    rw [← hw, State.set_gpr_of_ne h2, State.dropped, State.set_gpr_of_ne h1, State.set_gpr_of_ne h1]
  generalize hu :
    (w.set .rdi (w.gpr .rax)).set .rsi ((((w.set .rdi (w.gpr .rax)).gpr .rdx).setWidth 32).setWidth 64) = u
  have hrun : run A (.mov .rdi (.reg .rax) :: .mov32 .rsi .rdx :: exitApp) w = run A exitApp u := by
    rw [run_cons, exec, Option.bind_some, run_cons, exec, Option.bind_some, State.value, hu]
  have hdi : u.gpr .rdi = r.gpr .rax := by
    rw [← hu, State.set_gpr_of_ne (by decide), State.set_gpr_self, hwgpr _ (by decide) (by decide)]
  have hsi : u.gpr .rsi = ((r.gpr .rdx).setWidth 32).setWidth 64 := by
    rw [← hu, State.set_gpr_self, State.set_gpr_of_ne (by decide), hwgpr _ (by decide) (by decide)]
  have humem : u.mem = r.mem := by
    rw [← hwmem, ← hu]
    rfl
  obtain ⟨v, hv, hrip, hsp, hax, hin, hmem, -, -⟩ := exitApp_spec (A := A) (u := u) (s := s)
    (by rw [humem, hdi]; exact hsaved)
  rw [humem, hdi] at hrip
  refine ⟨v, hrun.trans hv, hrip, by rw [hsp, hdi], ?_, hin, hmem.trans humem⟩
  have hlow : (((r.gpr .rdx).setWidth 32).setWidth 64 : Word).setWidth 32 = (r.gpr .rdx).setWidth 32 := by simp
  rw [hax, hsi, hlow]

/-- The rows on the stack of the application. -/
theorem callerRow (a : State) :
    readWords (writeWords (writeWords a.mem (a.gpr .rsp - 32) (callerWords a)) (aligned (a.gpr .rsp - 32) - 16)
      (pendingWords a)) (aligned (a.gpr .rsp - 32) - 16) 2 = pendingWords a ∧
    readWords (writeWords (writeWords a.mem (a.gpr .rsp - 32) (callerWords a)) (aligned (a.gpr .rsp - 32) - 16)
      (pendingWords a)) (a.gpr .rsp - 32) 4 = callerWords a := by
  have hal := sub_aligned_lt (a.gpr .rsp - 32)
  have hsep : Separate (aligned (a.gpr .rsp - 32) - 16) (pendingWords a).length (a.gpr .rsp - 32) 4 := by
    rw [show (pendingWords a).length = 2 from rfl]
    generalize aligned (a.gpr .rsp - 32) = b at hal ⊢
    constructor <;> bv_omega
  refine ⟨readWords_writeWords (W := pendingWords a) (show 8 * 2 ≤ 2 ^ 64 by decide), ?_⟩
  have hcaller := readWords_writeWords (m := a.mem) (a := a.gpr .rsp - 32) (W := callerWords a)
    (show 8 * 4 ≤ 2 ^ 64 by decide)
  exact (readWords_congr fun i hi => read64_writeWords_of_separate hsep hi).trans hcaller

/-- Where the rows are not. -/
theorem caller_frame {b sp x : Word} (hal : (sp - 32 - b).toNat < 16) (hx : 64 ≤ (x - (sp - 64)).toNat) :
    8 * 2 ≤ (x - (b - 16)).toNat ∧ 8 * 4 ≤ (x - (sp - 32)).toNat := by
  have hsub : x - (b - 16) = (x - (sp - 64)) - 16 + (sp - 32 - b) := by grind
  have hsub' : x - (sp - 32) = (x - (sp - 64)) - 32 := by grind
  rw [hsub, hsub']
  generalize x - (sp - 64) = p at hx
  generalize sp - 32 - b = q at hal
  clear hsub hsub'
  constructor <;> bv_omega

/-- A row of words whose bytes are the same. -/
theorem readWords_of_bytes {m m' : Memory} {b c : Word} {n k : ℕ} (h : ∀ x : Word, (x - b).toNat < k → m' x = m x)
    (hk : (c - b).toNat + 8 * n ≤ k) : readWords m' c n = readWords m c n := by
  refine readWords_congr fun i hi => read64_congr fun j hj => h _ ?_
  have hsum : slot c i + .ofNat 64 j - b = c - b + .ofNat 64 (8 * i + j) := by
    rw [slot, BitVec.ofNat_add]
    grind
  have hle : (c - b + .ofNat 64 (8 * i + j) : Word).toNat ≤ (c - b).toNat + (8 * i + j) := by
    rw [BitVec.toNat_add, BitVec.toNat_ofNat]
    exact Nat.le_trans (Nat.mod_le _ _) (Nat.add_le_add_left (Nat.mod_le _ _) _)
  rw [hsum]
  omega

/-- **A system call.** The system call finds its arguments where the calling convention puts them, the fourth one taken
from `r10`, and its number without the highest bit, on the system stack, where only the two words below the stack
pointer of the task have been written. If it is `Exit`, which returns the stack pointer of the task, the caller of
`CallApp` goes on; any other system call returns to the application, with the flags that `sysret` loads and the
registers that a caller keeps. -/
theorem syscallEntry_spec (a : State) (g : SyscallGate) :
    ∃ t, run A saveCaller (a.syscall g) = some t ∧
      (∀ x : Word, 64 ≤ (x - (a.gpr .rsp - 64)).toNat → t.mem x = a.mem x) ∧
      ∀ u os, Serviced t u os → Separate (os - 16) 2 (t.gpr .rsp) 8 →
        ∃ d, run A toSystemStack u = some d ∧ d.gpr .rax = syscallIndex a ∧ d.gpr .rdi = a.gpr .rdi ∧
          d.gpr .rsi = a.gpr .rsi ∧ d.gpr .rdx = a.gpr .rdx ∧ d.gpr .rcx = a.gpr .r10 ∧ d.gpr .r8 = a.gpr .r8 ∧
          d.gpr .r9 = a.gpr .r9 ∧ d.gpr .rsp = aligned os ∧
          (∀ x : Word, 16 ≤ (x - (os - 16)).toNat → d.mem x = u.mem x) ∧
          ∀ r, Handled d r →
            ((a.gpr .rax).setWidth 32 ≠ exitNumber →
              ∃ v, leaveSyscall A g r = some v ∧ v.rip = a.rip ∧ v.rflags = sysretFlags a.rflags ∧
                v.gpr .rsp = a.gpr .rsp ∧ (∀ x ∈ calleeSaved, v.gpr x = a.gpr x) ∧
                v.gpr .rax = r.gpr .rax ∧ v.gpr .rdx = r.gpr .rdx ∧
                v.seg .cs = g.userCS ∧ v.seg .ss = g.userSS ∧ v.mem = r.mem) ∧
            ((a.gpr .rax).setWidth 32 = exitNumber → ∀ s, readWords r.mem (r.gpr .rax) 6 = savedWords s →
              ∃ v, leaveSyscall A g r = some v ∧ v.rip = read64 r.mem (slot (r.gpr .rax) 6) ∧
                v.gpr .rsp = slot (r.gpr .rax) 7 ∧ v.gpr .rax = ((r.gpr .rdx).setWidth 32).setWidth 64 ∧
                (∀ x ∈ calleeSaved, v.gpr x = s.gpr x) ∧ v.mem = r.mem) := by
  obtain ⟨t, hrun, htsp, htbp, htcx, hother, hmem⟩ := saveCaller_spec (A := A) a g
  obtain ⟨hpending, hcaller⟩ := callerRow a
  rw [← hmem] at hpending hcaller
  have hal := sub_aligned_lt (a.gpr .rsp - 32)
  refine ⟨t, hrun, fun x hx => ?_, fun u os hu hsep => ?_⟩
  · obtain ⟨hle, hle'⟩ := caller_frame hal hx
    rw [hmem, writeWords_of_le (W := pendingWords a) hle, writeWords_of_le (W := callerWords a) hle']
  have husp : u.gpr .rsp = aligned (a.gpr .rsp - 32) - 16 := (hu.gpr _ (by decide)).trans htsp
  rw [htsp] at hsep
  have hgpr : ∀ x, x ≠ .rax → x ≠ .rsp → x ≠ .rbp → x ≠ .rcx → x ≠ .r11 → u.gpr x = a.gpr x :=
    fun x h1 h2 h3 h4 h5 => (hu.gpr x h1).trans (hother x h1 h2 h3 h4 h5)
  have hpending' : readWords u.mem (u.gpr .rsp) 2 = [a.gpr .rdx, syscallIndex a] := by
    rw [husp]
    exact (readWords_of_bytes (htsp ▸ hu.stack) (by bv_omega)).trans hpending
  have hcaller' : readWords u.mem (a.gpr .rsp - 32) 4 = callerWords a := by
    refine (readWords_of_bytes (htsp ▸ hu.stack) ?_).trans hcaller
    generalize aligned (a.gpr .rsp - 32) = b at hal
    bv_omega
  obtain ⟨d, hd, hdsp, hddx, hdax, hdgpr, hdframe⟩ := toSystemStack_spec (A := A) hu.rax hpending'
    (by rw [husp]; exact ⟨hsep.1, Nat.le_trans (by decide) hsep.2⟩)
  have hdbp : d.gpr .rbp = a.gpr .rsp - 32 := by
    rw [hdgpr _ (by decide) (by decide) (by decide), hu.gpr _ (by decide), htbp]
  have hdother : ∀ x, x ∉ [Reg.rax, .rsp, .rbp, .rcx, .r11, .rdx] → d.gpr x = a.gpr x := by
    intro x hx
    simp only [List.mem_cons, List.not_mem_nil, or_false, not_or] at hx
    obtain ⟨h1, h2, h3, h4, h5, h6⟩ := hx
    rw [hdgpr x h2 h6 h1, hgpr x h1 h2 h3 h4 h5]
  have hdcaller : readWords d.mem (a.gpr .rsp - 32) 4 = callerWords a := by
    have hbytes : ∀ x : Word, (x - (aligned (a.gpr .rsp - 32) - 16)).toNat < 64 → d.mem x = u.mem x :=
      fun x hx => hdframe x (hsep.le_of_lt hx)
    refine (readWords_of_bytes hbytes ?_).trans hcaller'
    clear hsep hdframe hbytes
    generalize aligned (a.gpr .rsp - 32) = b at hal
    bv_omega
  refine ⟨d, hd, hdax, hdother _ (by decide), hdother _ (by decide), hddx, ?_, hdother _ (by decide),
    hdother _ (by decide), hdsp, hdframe, fun r hr => ?_⟩
  · rw [hdgpr _ (by decide) (by decide) (by decide), hu.gpr _ (by decide), htcx]
  have hrbp : r.gpr .rbp = a.gpr .rsp - 32 := (hr.saved _ (by decide)).trans hdbp
  have hrow : readWords r.mem (r.gpr .rbp) 4 = callerWords a := by
    rw [hrbp]
    exact (readWords_of_bytes (hdbp ▸ hr.stack) (by bv_omega)).trans hdcaller
  refine ⟨fun hnum => ?_, fun hnum s hsaved => leaveSyscall_exit hrow hnum hsaved⟩
  obtain ⟨v, hv, hrip, hflags, hvsp, hvbp, hvgpr, hcs, hss, hvmem⟩ := leaveSyscall_return (A := A) (g := g) hrow hnum
  refine ⟨v, hv, hrip, hflags, ?_, fun x hx => ?_, hvgpr _ (by decide), hvgpr _ (by decide), hcs, hss, hvmem⟩
  · rw [hvsp, hrbp]
    unfold slot
    bv_omega
  · by_cases hbp : x = .rbp
    · rw [hbp, hvbp]
    have hx' : x ∉ [Reg.rsp, .rsi, .r11, .rcx, .rbp] ∧ x ∉ [Reg.rax, .rsp, .rbp, .rcx, .r11, .rdx] := by
      revert x
      decide
    rw [hvgpr x hx'.1, hr.saved x hx, hdother x hx'.2]

/-- What `CallApp` has left on the system stack is there when the application ends. -/
theorem exitApp_returns {m : Memory} (hos : Separate (s.gpr .rsp - 80) 11 (s.gpr .r9) 1)
    (hsaved : readWords t.mem (s.gpr .rsp - 48) 6 = savedWords s)
    (hframe : ∀ x : Word, 80 ≤ (x - (s.gpr .rsp - 80)).toNat → 8 ≤ (x - s.gpr .r9).toNat → t.mem x = s.mem x)
    (hstack : ∀ x : Word, (x - (s.gpr .rsp - 48)).toNat < 56 → m x = t.mem x) :
    readWords m (s.gpr .rsp - 48) 6 = savedWords s ∧
      read64 m (slot (s.gpr .rsp - 48) 6) = read64 s.mem (s.gpr .rsp) := by
  refine ⟨(readWords_of_bytes hstack (by simp)).trans hsaved, ?_⟩
  have htop : slot (s.gpr .rsp - 48) 6 = s.gpr .rsp := by
    unfold slot
    bv_omega
  rw [htop]
  refine read64_congr fun k hk => ?_
  have hle : (s.gpr .rsp + .ofNat 64 k - (s.gpr .rsp - 80) : Word).toNat = 80 + k := by bv_omega
  have hle' : (s.gpr .rsp + .ofNat 64 k - (s.gpr .rsp - 48) : Word).toNat = 48 + k := by bv_omega
  rw [hstack _ (by omega), hframe _ (by omega) (hos.symm.le_of_lt (by omega))]

/-- **`CallApp` returns** what the application passes to `Exit`: the caller goes on after the call, with the registers
it keeps, however the application has used the processor. It also returns if the kernel ends the application, with the
exit code that `ExitApp` is passed then. -/
theorem callApp_returns (hos : Separate (s.gpr .rsp - 80) 11 (s.gpr .r9) 1)
    (hring : rpl ((s.gpr .rdx + 8).setWidth 16) ≠ rpl (s.seg .cs)) :
    ∃ t, run A callApp s = some t ∧ t.rip = s.gpr .rcx ∧ t.gpr .rsp = s.gpr .r8 ∧
      t.gpr .rdi = s.gpr .rdi ∧ t.gpr .rsi = s.gpr .rsi ∧
      t.seg .cs = (s.gpr .rdx + 8).setWidth 16 ∧ t.seg .ss = (s.gpr .rdx).setWidth 16 ∧
      read64 t.mem (s.gpr .r9) = s.gpr .rsp - 48 ∧
      -- the application calls `Exit`
      (∀ (g : SyscallGate) (a t' u d r : State), run A saveCaller (a.syscall g) = some t' →
        Serviced t' u (s.gpr .rsp - 48) → Separate (s.gpr .rsp - 48 - 16) 2 (t'.gpr .rsp) 8 →
        run A toSystemStack u = some d → Handled d r → (a.gpr .rax).setWidth 32 = exitNumber →
        r.gpr .rax = s.gpr .rsp - 48 → (r.gpr .rdx).setWidth 32 = (d.gpr .rdi).setWidth 32 →
        (∀ x : Word, (x - (s.gpr .rsp - 48)).toNat < 56 → r.mem x = t.mem x) →
        ∃ v, leaveSyscall A g r = some v ∧ v.rip = read64 s.mem (s.gpr .rsp) ∧ v.gpr .rsp = s.gpr .rsp + 8 ∧
          v.gpr .rax = ((a.gpr .rdi).setWidth 32).setWidth 64 ∧ ∀ x ∈ calleeSaved, v.gpr x = s.gpr x) ∧
      -- the kernel calls `ExitApp`
      ∀ u : State, u.gpr .rdi = s.gpr .rsp - 48 →
        (∀ x : Word, (x - (s.gpr .rsp - 48)).toNat < 56 → u.mem x = t.mem x) →
        ∃ v, run A exitApp u = some v ∧ v.rip = read64 s.mem (s.gpr .rsp) ∧ v.gpr .rsp = s.gpr .rsp + 8 ∧
          v.gpr .rax = ((u.gpr .rsi).setWidth 32).setWidth 64 ∧ ∀ x ∈ calleeSaved, v.gpr x = s.gpr x := by
  obtain ⟨t, hrun, hrip, hsp, hdi, hsi, hcs, hss, hptr, hsaved, hframe⟩ := callApp_spec (A := A) hos hring
  have hup : slot (s.gpr .rsp - 48) 7 = s.gpr .rsp + 8 := by
    unfold slot
    bv_omega
  refine ⟨t, hrun, hrip, hsp, hdi, hsi, hcs, hss, hptr, fun g a t' u d r ht' hu hsep hd hr hnum hax hdx hstack => ?_,
    fun u hdi' hstack => ?_⟩
  · obtain ⟨t'', ht'', -, hspec⟩ := syscallEntry_spec (A := A) a g
    obtain rfl := Option.some.inj (ht'.symm.trans ht'')
    obtain ⟨d', hd', -, hddi, -, -, -, -, -, -, -, hleave⟩ := hspec u _ hu hsep
    obtain rfl := Option.some.inj (hd.symm.trans hd')
    obtain ⟨hwords, hret⟩ := exitApp_returns hos hsaved hframe hstack
    obtain ⟨v, hv, hvrip, hvsp, hvax, hvgpr, -⟩ := (hleave r hr).2 hnum s (by rw [hax]; exact hwords)
    refine ⟨v, hv, ?_, ?_, ?_, hvgpr⟩
    · rw [hvrip, hax, hret]
    · rw [hvsp, hax, hup]
    · rw [hvax, hdx, hddi]
  · obtain ⟨hwords, hret⟩ := exitApp_returns hos hsaved hframe hstack
    obtain ⟨v, hv, hvrip, hvsp, hvax, hvgpr, -⟩ := exitApp_spec (A := A) (u := u) (s := s)
      (by rw [hdi']; exact hwords)
    refine ⟨v, hv, ?_, ?_, hvax, hvgpr⟩
    · rw [hvrip, hdi', hret]
    · rw [hvsp, hdi', hup]

/-- An application that is called with the selectors of the kernel, and ended by a signal. -/
theorem callApp_returns_example : ∃ s t v : State, run (fun _ _ _ flags => flags) callApp s = some t ∧
    t.seg .cs = 35 ∧ t.seg .ss = 27 ∧
    run (fun _ _ _ flags => flags) exitApp ((t.set .rdi (s.gpr .rsp - 48)).set .rsi 139) = some v ∧
    v.gpr .rax = 139 := by
  obtain ⟨s, hdx, h9, hsp, hcs⟩ : ∃ s : State,
      s.gpr .rdx = 27 ∧ s.gpr .r9 = 0x1000 ∧ s.gpr .rsp = 0x8000 ∧ s.seg .cs = 8 :=
    ⟨⟨⟨fun | .rdx => 27 | .r9 => 0x1000 | _ => 0x8000, 0, 2, fun _ => 8, 0, fun _ => 0⟩, fun _ => 0⟩, rfl, rfl, rfl,
      rfl⟩
  obtain ⟨t, hrun, -, -, -, -, htcs, htss, -, -, hend⟩ := callApp_returns (A := fun _ _ _ flags => flags) (s := s)
    (by rw [hsp, h9]; exact ⟨by decide, by decide⟩) (by rw [hdx, hcs]; decide)
  rw [hdx] at htcs htss
  obtain ⟨v, hv, -, -, hax, -⟩ := hend ((t.set .rdi (s.gpr .rsp - 48)).set .rsi 139)
    ((State.set_gpr_of_ne (by decide)).trans State.set_gpr_self) fun _ _ => rfl
  rw [State.set_gpr_self] at hax
  exact ⟨s, t, v, hrun, htcs, htss, hv, hax⟩

end DuvuvurKernel
