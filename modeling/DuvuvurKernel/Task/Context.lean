import DuvuvurKernel.Lib.X86

/-!
# Contexts

A `TaskContext` (`task.hpp`) is where a task leaves its registers while another one runs. `SwitchContext` and
`RestoreContext` (`asmfunc.asm`) put them there and take them back. The routines are given as instructions; a context is
read from memory by the offsets of its members.

## What is proved

* `restoreContext_spec`: `RestoreContext` loads every register from a context, `rsp` and `rip` at the end and together,
  and writes to no memory but the five words below the stack pointer.
* `save_spec`: what `SwitchContext` saves are the registers as they will be when it has returned: above the return
  address, and at it.
* `switchContext_resumes`: so a task that calls `SwitchContext` returns from it whenever its context is restored, on
  whatever stack `RestoreContext` then runs.
-/

namespace DuvuvurKernel

open Lib.X86

/-- `TaskContext`. -/
@[ext]
structure TaskContext where
  cr3 : Word
  rip : Word
  rflags : Word
  reserved1 : Word
  cs : Word
  ss : Word
  fs : Word
  gs : Word
  rax : Word
  rbx : Word
  rcx : Word
  rdx : Word
  rdi : Word
  rsi : Word
  rsp : Word
  rbp : Word
  r8 : Word
  r9 : Word
  r10 : Word
  r11 : Word
  r12 : Word
  r13 : Word
  r14 : Word
  r15 : Word
  fxsaveArea : Fin 64 → Word

namespace TaskContext

/-- The context at an address, by the offsets of the members. -/
def at' (m : Memory) (a : Word) : TaskContext where
  cr3 := read64 m (a + 0x00)
  rip := read64 m (a + 0x08)
  rflags := read64 m (a + 0x10)
  reserved1 := read64 m (a + 0x18)
  cs := read64 m (a + 0x20)
  ss := read64 m (a + 0x28)
  fs := read64 m (a + 0x30)
  gs := read64 m (a + 0x38)
  rax := read64 m (a + 0x40)
  rbx := read64 m (a + 0x48)
  rcx := read64 m (a + 0x50)
  rdx := read64 m (a + 0x58)
  rdi := read64 m (a + 0x60)
  rsi := read64 m (a + 0x68)
  rsp := read64 m (a + 0x70)
  rbp := read64 m (a + 0x78)
  r8 := read64 m (a + 0x80)
  r9 := read64 m (a + 0x88)
  r10 := read64 m (a + 0x90)
  r11 := read64 m (a + 0x98)
  r12 := read64 m (a + 0xa0)
  r13 := read64 m (a + 0xa8)
  r14 := read64 m (a + 0xb0)
  r15 := read64 m (a + 0xb8)
  fxsaveArea := fun i => read64 m (slot (a + 0xc0) i)

/-- `sizeof(TaskContext)`, in words. -/
def size : ℕ := 88

/-- The words of a context, in the order of the members. -/
def words (c : TaskContext) : List Word :=
  [ c.cr3, c.rip, c.rflags, c.reserved1, c.cs, c.ss, c.fs, c.gs, c.rax, c.rbx, c.rcx, c.rdx, c.rdi, c.rsi, c.rsp, c.rbp,
    c.r8, c.r9, c.r10, c.r11, c.r12, c.r13, c.r14, c.r15 ] ++ List.ofFn c.fxsaveArea

/-- The registers a context stands for. A selector is the low 16 bits of its member. -/
def regs (c : TaskContext) : Regs where
  gpr
    | .rax => c.rax | .rbx => c.rbx | .rcx => c.rcx | .rdx => c.rdx
    | .rdi => c.rdi | .rsi => c.rsi | .rsp => c.rsp | .rbp => c.rbp
    | .r8 => c.r8 | .r9 => c.r9 | .r10 => c.r10 | .r11 => c.r11
    | .r12 => c.r12 | .r13 => c.r13 | .r14 => c.r14 | .r15 => c.r15
  rip := c.rip
  rflags := c.rflags
  seg
    | .cs => c.cs.setWidth 16 | .ss => c.ss.setWidth 16
    | .fs => c.fs.setWidth 16 | .gs => c.gs.setWidth 16
  cr3 := c.cr3
  fx := c.fxsaveArea

/-- A context is read from its words, wherever they are. -/
theorem at_congr {m n : Memory} {a b : Word} (h : ∀ i < size, read64 n (slot b i) = read64 m (slot a i)) :
    at' n b = at' m a := by
  have hoff : ∀ off : Word, off.toNat % 8 = 0 ∧ off.toNat < 8 * size → read64 n (b + off) = read64 m (a + off) := by
    rintro off ⟨h0, hlt⟩
    rw [add_eq_slot h0, add_eq_slot h0]
    exact h _ (by omega)
  have hfx : ∀ i : Fin 64, read64 n (slot (b + 0xc0) i) = read64 m (slot (a + 0xc0) i) := by
    intro i
    have hi := h (24 + i) (by unfold size; omega)
    rwa [← slot_slot, ← slot_slot] at hi
  simp (disch := decide) only [at', hoff, hfx]

/-- A context whose bytes are the same. -/
theorem at_of_bytes {m m' : Memory} {a : Word} (h : ∀ k < 8 * size, m' (a + .ofNat 64 k) = m (a + .ofNat 64 k)) :
    at' m' a = at' m a := by
  refine at_congr fun i hi => read64_congr fun k hk => ?_
  rw [slot, BitVec.add_assoc, ← BitVec.ofNat_add]
  exact h _ (by omega)

/-- The context whose words lie at an address. -/
theorem at_of_readWords {m : Memory} {a : Word} {c : TaskContext} (h : readWords m a size = c.words) : at' m a = c := by
  have hoff : ∀ (off w : Word), off.toNat % 8 = 0 → c.words[off.toNat / 8]? = some w → read64 m (a + off) = w := by
    intro off w h0 hi
    rw [add_eq_slot h0]
    exact read64_of_readWords h hi
  have hfx : ∀ i : Fin 64, read64 m (slot (a + 0xc0) i) = c.fxsaveArea i := by
    intro i
    have hi : c.words[(i : ℕ) + 24]? = some (c.fxsaveArea i) := by
      have hlen : (i : ℕ) < (List.ofFn c.fxsaveArea).length := by
        rw [List.length_ofFn]
        exact i.isLt
      exact (List.getElem?_eq_getElem hlen).trans (congrArg some (List.getElem_ofFn hlen))
    rw [← read64_of_readWords h hi, Nat.add_comm, ← slot_slot]
    rfl
  exact TaskContext.ext (hoff _ _ rfl rfl) (hoff _ _ rfl rfl) (hoff _ _ rfl rfl) (hoff _ _ rfl rfl) (hoff _ _ rfl rfl)
    (hoff _ _ rfl rfl) (hoff _ _ rfl rfl) (hoff _ _ rfl rfl) (hoff _ _ rfl rfl) (hoff _ _ rfl rfl) (hoff _ _ rfl rfl)
    (hoff _ _ rfl rfl) (hoff _ _ rfl rfl) (hoff _ _ rfl rfl) (hoff _ _ rfl rfl) (hoff _ _ rfl rfl) (hoff _ _ rfl rfl)
    (hoff _ _ rfl rfl) (hoff _ _ rfl rfl) (hoff _ _ rfl rfl) (hoff _ _ rfl rfl) (hoff _ _ rfl rfl) (hoff _ _ rfl rfl)
    (hoff _ _ rfl rfl) (funext hfx)

end TaskContext

/-- `RestoreContext`, after the stack frame for `iret`. -/
def restoreRegisters : List Instr :=
  [ .fxrstor .rdi 0xc0,
    .mov .rax (.mem .rdi 0x00), .movToCr3 .rax,
    .mov .rax (.mem .rdi 0x30), .movToSeg .fs .rax,
    .mov .rax (.mem .rdi 0x38), .movToSeg .gs .rax ] ++
  ([ (.rax, 0x40), (.rbx, 0x48), (.rcx, 0x50), (.rdx, 0x58), (.rsi, 0x68), (.rbp, 0x78),
    (.r8, 0x80), (.r9, 0x88), (.r10, 0x90), (.r11, 0x98),
    (.r12, 0xa0), (.r13, 0xa8), (.r14, 0xb0), (.r15, 0xb8) ].map (fun p : Reg × Word => .mov p.1 (.mem .rdi p.2)) ++
  [ .mov .rdi (.mem .rdi 0x60),
    .iretq ])

/-- `RestoreContext`. -/
def restoreContext : List Instr :=
  [.mem .rdi 0x28, .mem .rdi 0x70, .mem .rdi 0x10, .mem .rdi 0x20, .mem .rdi 0x08].map .push ++ restoreRegisters

variable {A : Alu} {s : State}

/-- The stack frame that `iret` takes. -/
def TaskContext.frame (c : TaskContext) : List Word := [c.rip, c.cs, c.rflags, c.rsp, c.ss]

/-- `iret`, with the other registers of a context loaded. -/
theorem iretq_spec {c : TaskContext} (hf : readWords s.mem (s.gpr .rsp) 5 = c.frame)
    (hgpr : ∀ r, r ≠ .rsp → s.gpr r = c.regs.gpr r) (hfs : s.seg .fs = c.regs.seg .fs)
    (hgs : s.seg .gs = c.regs.seg .gs) (hcr3 : s.cr3 = c.cr3) (hfx : s.fx = c.fxsaveArea) :
    exec A s .iretq = some { c.regs with mem := s.mem } := by
  obtain ⟨h0, h1, h2, h3, h4⟩ : s.onStack 0 = c.rip ∧ s.onStack 1 = c.cs ∧ s.onStack 2 = c.rflags ∧
      s.onStack 3 = c.rsp ∧ s.onStack 4 = c.ss := by
    simpa [readWords, List.range_succ, TaskContext.frame, State.onStack] using hf
  have hg : Function.update s.gpr .rsp c.rsp = c.regs.gpr := by
    funext r
    by_cases hr : r = .rsp
    · rw [hr, Function.update_self]
      rfl
    · rw [Function.update_of_ne hr, hgpr r hr]
  have hseg : Function.update (Function.update s.seg .cs (c.cs.setWidth 16)) .ss (c.ss.setWidth 16) = c.regs.seg := by
    funext r
    cases r with
    | cs | ss => rfl
    | fs => exact hfs
    | gs => exact hgs
  rw [exec, h0, h1, h2, h3, h4, hseg]
  simp only [State.set, hg, hcr3, hfx]
  rfl

/-- The registers are read from a context, the rest from the stack frame. -/
theorem restoreRegisters_spec {c : TaskContext} (ha : (s.gpr .rdi + 0xc0).toNat % 16 = 0)
    (hc : TaskContext.at' s.mem (s.gpr .rdi) = c) (hf : readWords s.mem (s.gpr .rsp) 5 = c.frame) :
    run A restoreRegisters s = some { c.regs with mem := s.mem } := by
  subst hc
  have hfx : exec A s (.fxrstor .rdi 0xc0) =
      some { s with fx := (TaskContext.at' s.mem (s.gpr .rdi)).fxsaveArea } := by
    rw [exec, if_pos ha]
    rfl
  rw [restoreRegisters, run_append (t := { s with
    gpr := Function.update s.gpr .rax (TaskContext.at' s.mem (s.gpr .rdi)).gs,
    fx := (TaskContext.at' s.mem (s.gpr .rdi)).fxsaveArea, cr3 := (TaskContext.at' s.mem (s.gpr .rdi)).cr3,
    seg := Function.update (Function.update s.seg .fs ((TaskContext.at' s.mem (s.gpr .rdi)).fs.setWidth 16)) .gs
      ((TaskContext.at' s.mem (s.gpr .rdi)).gs.setWidth 16) }),
    run_append (run_loads (by decide) (by decide)), run_cons, exec, Option.bind_some, run_cons,
    iretq_spec (c := TaskContext.at' s.mem (s.gpr .rdi))]
  · rfl
  · exact hf
  · intro r hr
    cases r
    case rsp => exact absurd rfl hr
    all_goals rfl
  · rfl
  · rfl
  · rfl
  · rfl
  · rw [run_cons, hfx, Option.bind_some]
    simp only [run_cons, run_nil, exec, Option.bind_some, State.set, State.value, Function.update_idem,
      Function.update_self]
    rfl

/-- **`RestoreContext`** goes on with the registers of the context. All it writes is the stack frame. -/
theorem restoreContext_spec {c : TaskContext} (ha : (s.gpr .rdi + 0xc0).toNat % 16 = 0)
    (hs : Separate (s.gpr .rsp - 40) 5 (s.gpr .rdi) TaskContext.size) (hc : TaskContext.at' s.mem (s.gpr .rdi) = c) :
    run A restoreContext s = some { c.regs with mem := writeWords s.mem (s.gpr .rsp - 40) c.frame } := by
  have hstable : ∀ src ∈ [Src.mem .rdi 0x28, .mem .rdi 0x70, .mem .rdi 0x10, .mem .rdi 0x20, .mem .rdi 0x08],
      s.Stable 5 src := by
    obtain ⟨h1, h2⟩ := hs
    simp only [TaskContext.size] at h1 h2
    simp only [List.forall_mem_cons, List.not_mem_nil, IsEmpty.forall_iff, implies_true, and_true, State.Stable, ne_eq,
      reduceCtorEq, not_false_eq_true, true_and, Separate]
    bv_omega
  have hvals : ([Src.mem .rdi 0x28, .mem .rdi 0x70, .mem .rdi 0x10, .mem .rdi 0x20, .mem .rdi 0x08].map s.value).reverse
      = c.frame := by
    subst hc
    rfl
  have hframe : s.pushAll c.frame = { s with
      gpr := Function.update s.gpr .rsp (s.gpr .rsp - 40), mem := writeWords s.mem (s.gpr .rsp - 40) c.frame } := rfl
  have hpush := run_pushes (A := A) (W := []) hstable (by decide)
  rw [State.pushAll_nil, hvals, List.append_nil, hframe] at hpush
  rw [restoreContext, run_append hpush]
  refine restoreRegisters_spec ha ?_ ?_
  · rw [← hc]
    exact TaskContext.at_congr fun i hi => read64_writeWords_of_separate hs hi
  · exact readWords_writeWords (m := s.mem) (W := c.frame) (show 8 * 5 ≤ 2 ^ 64 by decide)

/-! ### Saving -/

/-- The registers that are saved first. -/
def firstSaved : List (Word × Reg) :=
  [(0x40, .rax), (0x48, .rbx), (0x50, .rcx), (0x58, .rdx), (0x60, .rdi), (0x68, .rsi)]

/-- The registers that are saved once `rax` is the stack pointer. -/
def laterSaved : List (Word × Reg) :=
  [ (0x70, .rax), (0x78, .rbp), (0x80, .r8), (0x88, .r9), (0x90, .r10), (0x98, .r11),
    (0xa0, .r12), (0xa8, .r13), (0xb0, .r14), (0xb8, .r15) ]

/-- The first half of `SwitchContext`: the general registers. -/
def saveGeneral : List Instr :=
  firstSaved.map (fun p => .store .rsi p.1 p.2) ++ ([.lea .rax .rsp 8] ++ laterSaved.map fun p => .store .rsi p.1 p.2)

/-- The other registers. -/
def saveSpecial : List Instr :=
  [ .movFromCr3 .rax, .store .rsi 0x00 .rax,
    .mov .rax (.mem .rsp 0), .store .rsi 0x08 .rax,
    .pushfq, .popMem .rsi 0x10,
    .movFromSeg .rax .cs, .store .rsi 0x20 .rax,
    .movFromSeg .rbx .ss, .store .rsi 0x28 .rbx,
    .movFromSeg .rcx .fs, .store .rsi 0x30 .rcx,
    .movFromSeg .rdx .gs, .store .rsi 0x38 .rdx,
    .fxsave .rsi 0xc0 ]

/-- `SwitchContext`, which falls through to `RestoreContext`. -/
def switchContext : List Instr := saveGeneral ++ (saveSpecial ++ restoreContext)

/-- What has been saved at `rsi` on the way from one state to another: words at offsets, the last one at an offset
counts. The registers that change are `rax` to `rdx`; memory changes in the context and below the stack. -/
structure Saving (s t : State) (l : List (Word × Word)) : Prop where
  /-- The words. -/
  words : ∀ off : Word, off.toNat % 8 = 0 → off.toNat < 8 * TaskContext.size → read64 t.mem (s.gpr .rsi + off) =
    ((l.reverse.find? fun p => p.1 = off).map Prod.snd).getD (read64 s.mem (s.gpr .rsi + off))
  /-- The rest of memory. -/
  frame : ∀ x : Word, 8 * TaskContext.size ≤ (x - s.gpr .rsi).toNat → 8 ≤ (x - (s.gpr .rsp - 8)).toNat →
    t.mem x = s.mem x
  /-- The registers. -/
  gpr : ∀ r, r ≠ .rax → r ≠ .rbx → r ≠ .rcx → r ≠ .rdx → t.gpr r = s.gpr r
  seg : t.seg = s.seg
  cr3 : t.cr3 = s.cr3
  rflags : t.rflags = s.rflags
  fx : t.fx = s.fx

namespace Saving

variable {t : State} {l : List (Word × Word)} {o w : Word} {r : Reg}

theorem refl : Saving s s [] := ⟨fun _ _ _ => rfl, fun _ _ _ => rfl, fun _ _ _ _ _ => rfl, rfl, rfl, rfl, rfl⟩

/-- A scratch register is set. -/
theorem set (h : Saving s t l) (hr : r = .rax ∨ r = .rbx ∨ r = .rcx ∨ r = .rdx) : Saving s (t.set r w) l where
  words := h.words
  frame := h.frame
  gpr := fun r' h1 h2 h3 h4 => by
    have hne : r' ≠ r := by rcases hr with rfl | rfl | rfl | rfl <;> assumption
    exact (Function.update_of_ne hne _ _).trans (h.gpr r' h1 h2 h3 h4)
  seg := h.seg
  cr3 := h.cr3
  rflags := h.rflags
  fx := h.fx

/-- A word is saved. -/
theorem store (h : Saving s t l) (h8 : o.toNat % 8 = 0) (hoff : o.toNat < 8 * TaskContext.size) :
    Saving s { t with mem := write64 t.mem (s.gpr .rsi + o) w } (l ++ [(o, w)]) where
  words := fun o' h8' hoff' => by
    rw [List.reverse_append, List.reverse_singleton, List.singleton_append, List.find?_cons]
    by_cases heq : o = o'
    · rw [← heq, decide_eq_true rfl]
      exact read64_write64_self
    · have hapart : WordsApart (s.gpr .rsi + o) (s.gpr .rsi + o') := by
        constructor <;> bv_omega
      rw [decide_eq_false heq]
      exact (read64_write64_of_apart hapart).trans (h.words o' h8' hoff')
  frame := fun x hx hx' => by
    unfold TaskContext.size at hoff hx
    exact (write64_of_le (by bv_omega)).trans (h.frame x hx hx')
  gpr := h.gpr
  seg := h.seg
  cr3 := h.cr3
  rflags := h.rflags
  fx := h.fx

/-- A word is pushed, and the stack pointer goes back. -/
theorem below (h : Saving s t l) (hs : Separate (s.gpr .rsp - 40) 6 (s.gpr .rsi) TaskContext.size) :
    Saving s { t with mem := write64 t.mem (s.gpr .rsp - 8) w } l where
  words := fun o h8 hoff => by
    obtain ⟨h1, h2⟩ := hs
    unfold TaskContext.size at h2 hoff
    have hapart : WordsApart (s.gpr .rsp - 8) (s.gpr .rsi + o) := by
      constructor <;> bv_omega
    rw [read64_write64_of_apart hapart]
    exact h.words o h8 hoff
  frame := fun x hx hx' => (write64_of_le hx').trans (h.frame x hx hx')
  gpr := h.gpr
  seg := h.seg
  cr3 := h.cr3
  rflags := h.rflags
  fx := h.fx

/-- The word at the top of the stack stays. -/
theorem top (h : Saving s t l) (hs : Separate (s.gpr .rsp - 40) 6 (s.gpr .rsi) TaskContext.size) :
    read64 t.mem (s.gpr .rsp) = read64 s.mem (s.gpr .rsp) := by
  obtain ⟨h1, h2⟩ := hs
  unfold TaskContext.size at h2
  refine read64_congr fun k hk => h.frame _ ?_ ?_
  · unfold TaskContext.size
    bv_omega
  · bv_omega

/-- Registers are stored. -/
theorem run_stores {q : List (Word × Reg)} (h : Saving s t l)
    (hps : ∀ p ∈ q, p.1.toNat % 8 = 0 ∧ p.1.toNat < 8 * TaskContext.size) :
    ∃ t', run A (q.map fun p => .store .rsi p.1 p.2) t = some t' ∧ t'.gpr = t.gpr ∧
      Saving s t' (l ++ q.map fun p => (p.1, t.gpr p.2)) := by
  induction q generalizing t l with
  | nil => exact ⟨t, rfl, rfl, by rwa [List.map_nil, List.append_nil]⟩
  | cons p q ih =>
    rw [List.forall_mem_cons] at hps
    obtain ⟨t', hrun, hgpr, h'⟩ := ih (h.store (w := t.gpr p.2) hps.1.1 hps.1.2) hps.2
    refine ⟨t', ?_, hgpr, ?_⟩
    · rw [List.map_cons, run_cons, exec, h.gpr .rsi (by decide) (by decide) (by decide) (by decide)]
      exact hrun
    · rwa [List.append_assoc] at h'

/-- A scratch register is set, and stored. -/
theorem run_set_store {i : Instr} (h : Saving s t l) (hi : exec A t i = some (t.set r w))
    (hr : r = .rax ∨ r = .rbx ∨ r = .rcx ∨ r = .rdx) (h8 : o.toNat % 8 = 0)
    (hoff : o.toNat < 8 * TaskContext.size) :
    ∃ t', run A [i, .store .rsi o r] t = some t' ∧ Saving s t' (l ++ [(o, w)]) := by
  obtain ⟨t', hrun, -, h'⟩ := (h.set (w := w) hr).run_stores (A := A) (q := [(o, r)])
    (List.forall_mem_singleton.mpr ⟨h8, hoff⟩)
  have hself : (t.set r w).gpr r = w := Function.update_self _ _ _
  rw [List.map_singleton, hself] at h'
  refine ⟨t', ?_, h'⟩
  rw [run_cons, hi]
  exact hrun

/-- The flags are pushed, and popped into the context. -/
theorem run_flags (h : Saving s t l) (hs : Separate (s.gpr .rsp - 40) 6 (s.gpr .rsi) TaskContext.size) :
    ∃ t', run A [.pushfq, .popMem .rsi 0x10] t = some t' ∧ Saving s t' (l ++ [(0x10, s.rflags)]) := by
  have hsp := h.gpr .rsp (by decide) (by decide) (by decide) (by decide)
  have hsi := h.gpr .rsi (by decide) (by decide) (by decide) (by decide)
  have hpop : (t.pushed t.rflags).onStack 0 = s.rflags := by
    rw [State.onStack, slot_zero, ← h.rflags]
    exact read64_write64_self
  have hgpr : (t.pushed t.rflags).dropped 1 = { t with mem := write64 t.mem (s.gpr .rsp - 8) t.rflags } := by
    have hup : slot (t.gpr .rsp - 8) 1 = t.gpr .rsp := by
      rw [slot_one]
      bv_omega
    simp only [State.dropped, State.set, State.pushed, Function.update_self, Function.update_idem]
    rw [hup, Function.update_eq_self, hsp]
  have hmem : (t.pushed t.rflags).mem = write64 t.mem (s.gpr .rsp - 8) t.rflags := by
    rw [← hsp]
    rfl
  refine ⟨_, ?_, (h.below hs (w := t.rflags)).store (o := 0x10) (w := s.rflags) (by decide) (by decide)⟩
  rw [run_cons, exec, Option.bind_some, run_cons, exec, hpop, hgpr, hmem, Option.bind_some, run_nil,
    show (t.pushed t.rflags).gpr .rsi = s.gpr .rsi from hsi]

/-- The floating-point registers are saved last. -/
theorem run_fxsave (h : Saving s t l) (ha : (s.gpr .rsi + 0xc0).toNat % 16 = 0) :
    ∃ t', run A [.fxsave .rsi 0xc0] t = some t' ∧ t'.gpr = t.gpr ∧
      (∀ o : Word, o.toNat % 8 = 0 ∧ o.toNat < 0xc0 → read64 t'.mem (s.gpr .rsi + o) =
        ((l.reverse.find? fun p => p.1 = o).map Prod.snd).getD (read64 s.mem (s.gpr .rsi + o))) ∧
      (∀ i : Fin 64, read64 t'.mem (slot (s.gpr .rsi + 0xc0) i) = s.fx i) ∧
      ∀ x : Word, 8 * TaskContext.size ≤ (x - s.gpr .rsi).toNat → 8 ≤ (x - (s.gpr .rsp - 8)).toNat →
        t'.mem x = s.mem x := by
  have hsi := h.gpr .rsi (by decide) (by decide) (by decide) (by decide)
  have hlen : (List.ofFn s.fx).length = 64 := List.length_ofFn
  refine ⟨{ t with mem := writeWords t.mem (s.gpr .rsi + 0xc0) (List.ofFn s.fx) }, ?_, rfl, ?_, ?_, ?_⟩
  · rw [run_cons, exec, hsi, if_pos ha, h.fx]
    rfl
  · rintro o ⟨h8, hoff⟩
    have hsep : Separate (s.gpr .rsi + 0xc0) (List.ofFn s.fx).length (s.gpr .rsi + o) 1 := by
      rw [hlen]
      constructor <;> bv_omega
    have hread := read64_writeWords_of_separate (m := t.mem) hsep Nat.zero_lt_one
    rw [slot_zero] at hread
    rw [← h.words o h8 (by unfold TaskContext.size; omega)]
    exact hread
  · intro i
    have hword := read64_writeWords (m := t.mem) (a := s.gpr .rsi + 0xc0) (W := List.ofFn s.fx) (i := i)
      (by rw [hlen]; decide) (by rw [hlen]; exact i.isLt)
    rwa [List.getElem_ofFn] at hword
  · intro x hx hx'
    refine (writeWords_of_le ?_).trans (h.frame x hx hx')
    rw [hlen]
    unfold TaskContext.size at hx
    bv_omega

end Saving

/-- The registers as they are once `ret` has been executed. -/
def afterReturn (s : State) : Regs :=
  { s.toRegs with gpr := Function.update s.gpr .rsp (s.gpr .rsp + 8), rip := read64 s.mem (s.gpr .rsp) }

/-- The low half of a selector read into a register. -/
theorem setWidth_selector (w : Word) (sel : BitVec 16) : (w.extractLsb' 16 48 ++ sel : Word).setWidth 16 = sel := by
  rw [BitVec.setWidth_append]
  simp

/-- **Saving** puts the registers in the context as they are once `SwitchContext` has returned, and changes nothing else
but the word below the stack. -/
theorem save_spec (ha : (s.gpr .rsi + 0xc0).toNat % 16 = 0)
    (hs : Separate (s.gpr .rsp - 40) 6 (s.gpr .rsi) TaskContext.size) :
    ∃ t, run A (saveGeneral ++ saveSpecial) s = some t ∧ (TaskContext.at' t.mem (s.gpr .rsi)).regs = afterReturn s ∧
      t.gpr .rdi = s.gpr .rdi ∧ t.gpr .rsp = s.gpr .rsp ∧
      ∀ x : Word, 8 * TaskContext.size ≤ (x - s.gpr .rsi).toNat → 8 ≤ (x - (s.gpr .rsp - 8)).toNat →
        t.mem x = s.mem x := by
  obtain ⟨t₁, run₁, gpr₁, h₁⟩ := Saving.refl (s := s).run_stores (A := A) (q := firstSaved) (by decide)
  obtain ⟨t₂, run₂, -, h₂⟩ := (h₁.set (r := .rax) (w := t₁.gpr .rsp + 8) (by simp)).run_stores (A := A)
    (q := laterSaved) (by decide)
  obtain ⟨t₃, run₃, h₃⟩ := h₂.run_set_store (A := A) (i := .movFromCr3 .rax) (o := 0x00) rfl (by simp) (by decide)
    (by decide)
  obtain ⟨t₄, run₄, h₄⟩ := h₃.run_set_store (A := A) (i := .mov .rax (.mem .rsp 0)) (o := 0x08) rfl (by simp)
    (by decide) (by decide)
  obtain ⟨t₅, run₅, h₅⟩ := h₄.run_flags (A := A) hs
  obtain ⟨t₆, run₆, h₆⟩ := h₅.run_set_store (A := A) (i := .movFromSeg .rax .cs) (o := 0x20) rfl (by simp)
    (by decide) (by decide)
  obtain ⟨t₇, run₇, h₇⟩ := h₆.run_set_store (A := A) (i := .movFromSeg .rbx .ss) (o := 0x28) rfl (by simp)
    (by decide) (by decide)
  obtain ⟨t₈, run₈, h₈⟩ := h₇.run_set_store (A := A) (i := .movFromSeg .rcx .fs) (o := 0x30) rfl (by simp)
    (by decide) (by decide)
  obtain ⟨t₉, run₉, h₉⟩ := h₈.run_set_store (A := A) (i := .movFromSeg .rdx .gs) (o := 0x38) rfl (by simp)
    (by decide) (by decide)
  obtain ⟨t, run₁₀, gpr₁₀, hword, hfx, hframe⟩ := h₉.run_fxsave (A := A) ha
  have hrip : t₃.value (.mem .rsp 0#64) = read64 s.mem (s.gpr .rsp) := by
    rw [State.value, h₃.gpr .rsp (by decide) (by decide) (by decide) (by decide), BitVec.add_zero, h₃.top hs]
  have hgpr : ∀ r, r ≠ .rax → r ≠ .rbx → r ≠ .rcx → r ≠ .rdx → t.gpr r = s.gpr r := by
    rw [gpr₁₀]
    exact h₉.gpr
  refine ⟨t, ?_, ?_, hgpr _ (by decide) (by decide) (by decide) (by decide),
    hgpr _ (by decide) (by decide) (by decide) (by decide), hframe⟩
  · rw [saveGeneral, List.append_assoc, run_append run₁, List.append_assoc,
      run_append (t := t₁.set .rax (t₁.gpr .rsp + 8)) rfl, run_append run₂]
    exact (run_append run₃).trans ((run_append run₄).trans ((run_append run₅).trans ((run_append run₆).trans
      ((run_append run₇).trans ((run_append run₈).trans ((run_append run₉).trans run₁₀))))))
  · have hgeneral : ∀ r, (TaskContext.at' t.mem (s.gpr .rsi)).regs.gpr r = (afterReturn s).gpr r := by
      intro r
      cases r
      case rax => exact (hword 0x40 (by decide)).trans (by simp [firstSaved, laterSaved, afterReturn])
      case rbx => exact (hword 0x48 (by decide)).trans (by simp [firstSaved, laterSaved, afterReturn])
      case rcx => exact (hword 0x50 (by decide)).trans (by simp [firstSaved, laterSaved, afterReturn])
      case rdx => exact (hword 0x58 (by decide)).trans (by simp [firstSaved, laterSaved, afterReturn])
      case rdi => exact (hword 0x60 (by decide)).trans (by simp [firstSaved, laterSaved, afterReturn])
      case rsi => exact (hword 0x68 (by decide)).trans (by simp [firstSaved, laterSaved, afterReturn])
      case rsp => exact (hword 0x70 (by decide)).trans (by simp [firstSaved, laterSaved, afterReturn, State.set, gpr₁])
      case rbp => exact (hword 0x78 (by decide)).trans (by simp [firstSaved, laterSaved, afterReturn, State.set, gpr₁])
      case r8 => exact (hword 0x80 (by decide)).trans (by simp [firstSaved, laterSaved, afterReturn, State.set, gpr₁])
      case r9 => exact (hword 0x88 (by decide)).trans (by simp [firstSaved, laterSaved, afterReturn, State.set, gpr₁])
      case r10 => exact (hword 0x90 (by decide)).trans (by simp [firstSaved, laterSaved, afterReturn, State.set, gpr₁])
      case r11 => exact (hword 0x98 (by decide)).trans (by simp [firstSaved, laterSaved, afterReturn, State.set, gpr₁])
      case r12 => exact (hword 0xa0 (by decide)).trans (by simp [firstSaved, laterSaved, afterReturn, State.set, gpr₁])
      case r13 => exact (hword 0xa8 (by decide)).trans (by simp [firstSaved, laterSaved, afterReturn, State.set, gpr₁])
      case r14 => exact (hword 0xb0 (by decide)).trans (by simp [firstSaved, laterSaved, afterReturn, State.set, gpr₁])
      case r15 => exact (hword 0xb8 (by decide)).trans (by simp [firstSaved, laterSaved, afterReturn, State.set, gpr₁])
    have hseg : ∀ r, (TaskContext.at' t.mem (s.gpr .rsi)).regs.seg r = (afterReturn s).seg r := by
      intro r
      cases r
      case cs =>
        exact (congrArg (BitVec.setWidth 16) (hword 0x20 (by decide))).trans
          (by simp [setWidth_selector, h₅.seg, afterReturn])
      case ss =>
        exact (congrArg (BitVec.setWidth 16) (hword 0x28 (by decide))).trans
          (by simp [setWidth_selector, h₆.seg, afterReturn])
      case fs =>
        exact (congrArg (BitVec.setWidth 16) (hword 0x30 (by decide))).trans
          (by simp [setWidth_selector, h₇.seg, afterReturn])
      case gs =>
        exact (congrArg (BitVec.setWidth 16) (hword 0x38 (by decide))).trans
          (by simp [setWidth_selector, h₈.seg, afterReturn])
    refine Regs.ext (funext hgeneral) ?_ ?_ (funext hseg) ?_ (funext hfx)
    · exact (hword 0x08 (by decide)).trans (by simp [hrip, afterReturn])
    · exact (hword 0x10 (by decide)).trans (by simp [afterReturn])
    · exact (hword 0x00 (by decide)).trans (by simp [h₂.cr3, afterReturn])

/-- **`SwitchContext`** saves one context, and goes on with the registers of another. -/
theorem switchContext_spec (ha : (s.gpr .rsi + 0xc0).toNat % 16 = 0) (ha' : (s.gpr .rdi + 0xc0).toNat % 16 = 0)
    (hs : Separate (s.gpr .rsp - 40) 6 (s.gpr .rsi) TaskContext.size)
    (hs' : Separate (s.gpr .rsp - 40) 6 (s.gpr .rdi) TaskContext.size)
    (hd : Separate (s.gpr .rsi) TaskContext.size (s.gpr .rdi) TaskContext.size) :
    ∃ t, run A switchContext s = some t ∧ t.toRegs = (TaskContext.at' s.mem (s.gpr .rdi)).regs ∧
      (TaskContext.at' t.mem (s.gpr .rsi)).regs = afterReturn s ∧
      ∀ x : Word, 8 * TaskContext.size ≤ (x - s.gpr .rsi).toNat → 40 ≤ (x - (s.gpr .rsp - 40)).toNat →
        t.mem x = s.mem x := by
  obtain ⟨t, hrun, hregs, hdi, hsp, hframe⟩ := save_spec (A := A) ha hs
  have hnext : TaskContext.at' t.mem (s.gpr .rdi) = TaskContext.at' s.mem (s.gpr .rdi) := by
    obtain ⟨h1, h2⟩ := hs'
    obtain ⟨h3, h4⟩ := hd
    refine TaskContext.at_congr fun i hi => read64_congr fun k hk => hframe _ ?_ ?_
    · unfold TaskContext.size at h3 h4 hi ⊢
      unfold slot
      bv_omega
    · unfold TaskContext.size at h2 hi
      unfold slot
      bv_omega
  have hsep : ∀ a, Separate (s.gpr .rsp - 40) 6 a TaskContext.size →
      Separate (t.gpr .rsp - 40) 5 a TaskContext.size := by
    rintro a ⟨h1, h2⟩
    unfold TaskContext.size at h2 ⊢
    rw [hsp]
    constructor <;> bv_omega
  have hrestore := restoreContext_spec (A := A) (s := t) (c := TaskContext.at' s.mem (s.gpr .rdi))
    (by rw [hdi]; exact ha') (by rw [hdi]; exact hsep _ hs') (by rw [hdi]; exact hnext)
  have hall : run A switchContext s = run A restoreContext t := by
    rw [switchContext, ← List.append_assoc, run_append hrun]
  refine ⟨_, hall.trans hrestore, rfl, ?_, fun x hx hx' => ?_⟩
  · have hc := TaskContext.at_congr (m := t.mem) (n := writeWords t.mem (t.gpr .rsp - 40)
      (TaskContext.at' s.mem (s.gpr .rdi)).frame) fun i hi => read64_writeWords_of_separate (hsep _ hs) hi
    exact (congrArg TaskContext.regs hc).trans hregs
  · rw [hsp]
    refine (writeWords_of_le (by exact hx')).trans (hframe x hx ?_)
    bv_omega

/-- **A task that calls `SwitchContext` returns from it**, whenever its context is restored: the word at the top of its
stack is where it goes on, and the other registers are what they were. -/
theorem switchContext_resumes (ha : (s.gpr .rsi + 0xc0).toNat % 16 = 0) (ha' : (s.gpr .rdi + 0xc0).toNat % 16 = 0)
    (hs : Separate (s.gpr .rsp - 40) 6 (s.gpr .rsi) TaskContext.size)
    (hs' : Separate (s.gpr .rsp - 40) 6 (s.gpr .rdi) TaskContext.size)
    (hd : Separate (s.gpr .rsi) TaskContext.size (s.gpr .rdi) TaskContext.size) :
    ∃ t, run A switchContext s = some t ∧ t.toRegs = (TaskContext.at' s.mem (s.gpr .rdi)).regs ∧
      (∀ x : Word, 8 * TaskContext.size ≤ (x - s.gpr .rsi).toNat → 40 ≤ (x - (s.gpr .rsp - 40)).toNat →
        t.mem x = s.mem x) ∧
      ∀ u : State, u.gpr .rdi = s.gpr .rsi → Separate (u.gpr .rsp - 40) 5 (s.gpr .rsi) TaskContext.size →
        (∀ i < TaskContext.size, read64 u.mem (slot (s.gpr .rsi) i) = read64 t.mem (slot (s.gpr .rsi) i)) →
        ∃ v, run A restoreContext u = some v ∧ v.toRegs = afterReturn s ∧
          ∀ x : Word, 40 ≤ (x - (u.gpr .rsp - 40)).toNat → v.mem x = u.mem x := by
  obtain ⟨t, hrun, hnext, hregs, hframe⟩ := switchContext_spec (A := A) ha ha' hs hs' hd
  refine ⟨t, hrun, hnext, hframe, fun u hdi hsep hmem => ?_⟩
  have hc : TaskContext.at' u.mem (u.gpr .rdi) = TaskContext.at' t.mem (s.gpr .rsi) := by
    rw [hdi]
    exact TaskContext.at_congr hmem
  have hrestore := restoreContext_spec (A := A) (s := u) (by rw [hdi]; exact ha) (by rw [hdi]; exact hsep) hc
  exact ⟨_, hrestore, hregs, fun x hx => writeWords_of_le hx⟩

/-- A context saved at `0x20000`, left and restored. -/
theorem switchContext_resumes_example : ∃ s t u v : State,
    run (fun _ _ _ flags => flags) switchContext s = some t ∧ u.mem = t.mem ∧
      run (fun _ _ _ flags => flags) restoreContext u = some v ∧ v.toRegs = afterReturn s := by
  obtain ⟨s, hdi, hsi, hsp⟩ : ∃ s : State, s.gpr .rdi = 0x10000 ∧ s.gpr .rsi = 0x20000 ∧ s.gpr .rsp = 0x8000 :=
    ⟨⟨⟨fun | .rdi => 0x10000 | .rsi => 0x20000 | _ => 0x8000, 0, 2, fun _ => 8, 0, fun _ => 0⟩, fun _ => 0⟩, rfl, rfl,
      rfl⟩
  have hsep : Separate (0x8000 - 40) 5 0x20000 TaskContext.size := ⟨by decide, by decide⟩
  obtain ⟨t, hrun, -, -, hresumes⟩ := switchContext_resumes (A := fun _ _ _ flags => flags) (s := s)
    (by rw [hsi]; decide) (by rw [hdi]; decide) (by rw [hsp, hsi]; exact ⟨by decide, by decide⟩)
    (by rw [hsp, hdi]; exact ⟨by decide, by decide⟩) (by rw [hsi, hdi]; exact ⟨by decide, by decide⟩)
  obtain ⟨u, hdi', hsp', hmem⟩ : ∃ u : State, u.gpr .rdi = s.gpr .rsi ∧ u.gpr .rsp = 0x8000 ∧ u.mem = t.mem :=
    ⟨{ s.set .rdi (s.gpr .rsi) with mem := t.mem }, State.set_gpr_self, (State.set_gpr_of_ne (by decide)).trans hsp,
      rfl⟩
  obtain ⟨v, hv, hregs, -⟩ := hresumes u hdi' (by rw [hsp', hsi]; exact hsep) fun _ _ => by rw [hmem]
  exact ⟨s, t, u, v, hrun, hmem, hv, hregs⟩

end DuvuvurKernel
