import DuvuvurKernel.Task.Context

/-!
# The timer interrupt

`IntHandlerLAPICTimer` of `asmfunc.asm`: the entry of the interrupt that takes the processor from one task to another.
It builds a `TaskContext` of the interrupted task on the stack and passes it to `LAPICTimerOnInterrupt`. If that
function returns, the interrupted task goes on; if it does not, it has left a copy of the context in the task, and has
gone on with the context of another one.

## What is proved

* `buildContext_spec`: what lies on the stack is a context of the registers the interrupt found, under the saved `rbp`
  and the frame of the interrupt, and nothing else in memory has changed.
* `leaveInterrupt_spec`: from such a stack the routine goes on with those registers.
* `intHandlerLAPICTimer_transparent`: either way, whether the C++ function returns or a copy of the context is restored
  later, the interrupted task finds the registers it had.

## Honest scope

The call of `LAPICTimerOnInterrupt` is not modelled as instructions. What is asked of it, if it returns, is the calling
convention: it gives back `rsp` and `rbp`, and does not write to its caller's stack.
-/

namespace DuvuvurKernel

open Lib.X86

variable {A : Alu} {s t u : State} {g : Gate} {a : Word}

/-- The first part of `IntHandlerLAPICTimer`, up to the floating-point registers. -/
def reserveArea : List Instr := [.push (.reg .rbp), .mov .rbp (.reg .rsp), .sub .rsp 512, .fxsave .rsp 0]

/-- The general registers, pushed as the members of a `TaskContext` from the last one down. -/
def generalSources : List Src :=
  [ .reg .r15, .reg .r14, .reg .r13, .reg .r12, .reg .r11, .reg .r10, .reg .r9, .reg .r8, .mem .rbp 0x00,
    .mem .rbp 0x20, .reg .rsi, .reg .rdi, .reg .rdx, .reg .rcx, .reg .rbx, .reg .rax ]

/-- The other members. -/
def specialSources : List Src :=
  [ .reg .rbx, .reg .rax, .mem .rbp 0x28, .mem .rbp 0x10, .reg .rbp, .mem .rbp 0x18, .mem .rbp 0x08, .reg .rcx ]

/-- The selectors and `CR3`, which cannot be pushed themselves. -/
def readSpecial : List Instr := [.movFromSeg .rax .fs, .movFromSeg .rbx .gs, .movFromCr3 .rcx]

/-- `IntHandlerLAPICTimer` up to the call. -/
def buildContext : List Instr :=
  reserveArea ++ (generalSources.map .push ++ (readSpecial ++ specialSources.map .push)) ++ [.mov .rdi (.reg .rsp)]

/-- The registers popped first. -/
def poppedFirst : List Reg := [.rax, .rbx, .rcx, .rdx, .rdi, .rsi]

/-- The registers popped once `RSP` and `RBP` have been skipped. -/
def poppedLater : List Reg := [.r8, .r9, .r10, .r11, .r12, .r13, .r14, .r15]

/-- The end of `IntHandlerLAPICTimer`. -/
def leaveArea : List Instr := [.fxrstor .rsp 0, .mov .rsp (.reg .rbp), .pop .rbp, .iretq]

/-- `IntHandlerLAPICTimer` after the call. -/
def leaveInterrupt : List Instr :=
  .add .rsp 64 :: (poppedFirst.map .pop ++ .add .rsp 16 :: (poppedLater.map .pop ++ leaveArea))

/-- The context that is built: the frame pointer stands in the reserved member, and the selectors are read into
registers whose other bits stay. -/
def interruptContext (s : State) (top : Word) : TaskContext where
  cr3 := s.cr3
  rip := s.rip
  rflags := s.rflags
  reserved1 := top - 48
  cs := (s.seg .cs).setWidth 64
  ss := (s.seg .ss).setWidth 64
  fs := (s.gpr .rax).extractLsb' 16 48 ++ s.seg .fs
  gs := (s.gpr .rbx).extractLsb' 16 48 ++ s.seg .gs
  rax := s.gpr .rax
  rbx := s.gpr .rbx
  rcx := s.gpr .rcx
  rdx := s.gpr .rdx
  rdi := s.gpr .rdi
  rsi := s.gpr .rsi
  rsp := s.gpr .rsp
  rbp := s.gpr .rbp
  r8 := s.gpr .r8
  r9 := s.gpr .r9
  r10 := s.gpr .r10
  r11 := s.gpr .r11
  r12 := s.gpr .r12
  r13 := s.gpr .r13
  r14 := s.gpr .r14
  r15 := s.gpr .r15
  fxsaveArea := s.fx

theorem interruptContext_regs (s : State) (top : Word) : (interruptContext s top).regs = s.toRegs := by
  refine Regs.ext (funext fun r => ?_) rfl rfl (funext fun r => ?_) rfl rfl
  · cases r <;> rfl
  · cases r with
    | cs | ss => exact (BitVec.setWidth_setWidth_of_le _ (show 16 ≤ 64 by decide)).trans (BitVec.setWidth_eq _)
    | fs | gs => exact setWidth_selector _ _

/-- What is on the stack at the call: the context, the saved `rbp` and the frame. -/
def TaskContext.row (c : TaskContext) : List Word := c.words ++ c.rbp :: c.frame

theorem length_row (c : TaskContext) : c.row.length = 94 := by
  simp [TaskContext.row, TaskContext.words, TaskContext.frame]

/-- The area for the floating-point registers. -/
theorem run_area (ha : (u.gpr .rsp).toNat % 16 = 0) :
    run A [.sub .rsp 512, .fxsave .rsp 0] u =
      some ((u.setFlags (A .sub (u.gpr .rsp) 512 u.rflags)).pushAll (List.ofFn u.fx)) := by
  have halign : (u.gpr .rsp - 512 + 0).toNat % 16 = 0 := by bv_omega
  have hlen : (List.ofFn u.fx).length = 64 := List.length_ofFn
  have hzero : u.gpr .rsp - 512 + 0 = u.gpr .rsp - 512 := BitVec.add_zero _
  rw [run_cons, exec, Option.bind_some, run_cons, exec, State.setFlags_gpr, State.set_gpr_self, if_pos halign, hzero,
    State.pushAll, hlen]
  rfl

theorem run_reserveArea (s : State) (ws : List Word) (ha : (s.gpr .rsp).toNat % 16 = 0) (hws : ws.length = 5) :
    ∃ flags, run A reserveArea (s.pushAll ws) =
      some (((s.set .rbp (s.gpr .rsp - 48)).setFlags flags).pushAll (List.ofFn s.fx ++ (s.gpr .rbp :: ws))) := by
  have hsp : (s.pushAll (s.gpr .rbp :: ws)).gpr .rsp = s.gpr .rsp - 48 := by
    rw [State.pushAll_rsp, List.length_cons, hws]
    rfl
  have hsp' : ((s.set .rbp (s.gpr .rsp - 48)).pushAll (s.gpr .rbp :: ws)).gpr .rsp = s.gpr .rsp - 48 := by
    rw [← State.pushAll_set (by decide), State.set_gpr_of_ne (by decide), hsp]
  rw [reserveArea, run_cons, exec, State.value, State.pushAll_gpr (by decide), State.pushed_pushAll, Option.bind_some,
    run_cons, exec, State.value, hsp, State.pushAll_set (by decide), Option.bind_some,
    run_area (by rw [hsp']; bv_omega), State.pushAll_setFlags, State.pushAll_pushAll]
  exact ⟨_, rfl⟩

/-- A word of the frame, or the saved `rbp`, read at `rbp`. -/
theorem value_frame {ws : List Word} {off w : Word} {i : ℕ} (hbp : u.gpr .rbp = u.gpr .rsp - 48)
    (hlen : 8 * ws.length ≤ 2 ^ 64) (hoff : off = 48 - .ofNat 64 (8 * (i + 1))) (hi : ws.reverse[i]? = some w) :
    (u.pushAll ws).value (.mem .rbp off) = w := by
  have ha : u.gpr .rsp - 48 + off = u.gpr .rsp - .ofNat 64 (8 * (i + 1)) := by
    rw [hoff]
    bv_omega
  rw [State.value, State.pushAll_gpr (by decide), hbp, ha]
  exact State.read64_pushAll hlen hi

/-- Such a word stays while others are pushed. -/
theorem stable_frame {ws : List Word} {off : Word} {n : ℕ} (hbp : u.gpr .rbp = u.gpr .rsp - 48)
    (hlen : 7 ≤ ws.length) (hn : ws.length + n ≤ 94) (hoff : off.toNat ≤ 40) :
    (u.pushAll ws).Stable n (.mem .rbp off) := by
  refine ⟨by decide, ?_⟩
  rw [State.pushAll_rsp, State.pushAll_gpr (by decide), hbp]
  constructor <;> bv_omega

/-- The general registers, once the area has been filled. -/
theorem run_generalSources {l frame : List Word} (hbp : u.gpr .rbp = u.gpr .rsp - 48) (hfx : l.length = 64)
    {p rip cs rflags rsp ss : Word} (hframe : frame = [p, rip, cs, rflags, rsp, ss]) :
    run A (generalSources.map .push) (u.pushAll (l ++ frame)) = some (u.pushAll (
      [ u.gpr .rax, u.gpr .rbx, u.gpr .rcx, u.gpr .rdx, u.gpr .rdi, u.gpr .rsi, rsp, p,
        u.gpr .r8, u.gpr .r9, u.gpr .r10, u.gpr .r11, u.gpr .r12, u.gpr .r13, u.gpr .r14, u.gpr .r15 ] ++
      (l ++ frame))) := by
  subst hframe
  have hstable : ∀ src ∈ generalSources, (u.pushAll (l ++ [p, rip, cs, rflags, rsp, ss])).Stable 16 src := by
    simp only [generalSources, List.forall_mem_cons, List.not_mem_nil, IsEmpty.forall_iff, implies_true,
      State.stable_reg, ne_eq, reduceCtorEq, not_false_eq_true, and_true, true_and]
    exact ⟨stable_frame hbp (by simp [hfx]) (by simp [hfx]) (by decide),
      stable_frame hbp (by simp [hfx]) (by simp [hfx]) (by decide)⟩
  have hpush := run_pushes (A := A) (W := []) hstable (by decide)
  rw [State.pushAll_nil, List.append_nil, State.pushAll_pushAll] at hpush
  have hsaved : (u.pushAll (l ++ [p, rip, cs, rflags, rsp, ss])).value (.mem .rbp 0x00) = p :=
    value_frame (i := 5) hbp (by simp [hfx]) (by decide) (by rw [List.reverse_append]; rfl)
  have hsp : (u.pushAll (l ++ [p, rip, cs, rflags, rsp, ss])).value (.mem .rbp 0x20) = rsp :=
    value_frame (i := 1) hbp (by simp [hfx]) (by decide) (by rw [List.reverse_append]; rfl)
  have hvals : (generalSources.map (u.pushAll (l ++ [p, rip, cs, rflags, rsp, ss])).value).reverse =
      [ u.gpr .rax, u.gpr .rbx, u.gpr .rcx, u.gpr .rdx, u.gpr .rdi, u.gpr .rsi, rsp, p,
        u.gpr .r8, u.gpr .r9, u.gpr .r10, u.gpr .r11, u.gpr .r12, u.gpr .r13, u.gpr .r14, u.gpr .r15 ] := by
    rw [generalSources]
    simp only [List.map_cons, List.map_nil, hsaved, hsp]
    rfl
  rw [hpush, hvals]

/-- The other members, once the general registers have been pushed. -/
theorem run_specialSources {l frame : List Word} (hbp : u.gpr .rbp = u.gpr .rsp - 48) (hws : l.length = 80)
    {p rip cs rflags rsp ss : Word} (hframe : frame = [p, rip, cs, rflags, rsp, ss]) :
    run A (specialSources.map .push) (u.pushAll (l ++ frame)) = some (u.pushAll (
      [u.gpr .rcx, rip, rflags, u.gpr .rbp, cs, ss, u.gpr .rax, u.gpr .rbx] ++ (l ++ frame))) := by
  subst hframe
  have hstable : ∀ src ∈ specialSources, (u.pushAll (l ++ [p, rip, cs, rflags, rsp, ss])).Stable 8 src := by
    simp only [specialSources, List.forall_mem_cons, List.not_mem_nil, IsEmpty.forall_iff, implies_true,
      State.stable_reg, ne_eq, reduceCtorEq, not_false_eq_true, and_true, true_and]
    exact ⟨stable_frame hbp (by simp [hws]) (by simp [hws]) (by decide),
      stable_frame hbp (by simp [hws]) (by simp [hws]) (by decide),
      stable_frame hbp (by simp [hws]) (by simp [hws]) (by decide),
      stable_frame hbp (by simp [hws]) (by simp [hws]) (by decide)⟩
  have hpush := run_pushes (A := A) (W := []) hstable (by decide)
  rw [State.pushAll_nil, List.append_nil, State.pushAll_pushAll] at hpush
  have hss : (u.pushAll (l ++ [p, rip, cs, rflags, rsp, ss])).value (.mem .rbp 0x28) = ss :=
    value_frame (i := 0) hbp (by simp [hws]) (by decide) (by rw [List.reverse_append]; rfl)
  have hcs : (u.pushAll (l ++ [p, rip, cs, rflags, rsp, ss])).value (.mem .rbp 0x10) = cs :=
    value_frame (i := 3) hbp (by simp [hws]) (by decide) (by rw [List.reverse_append]; rfl)
  have hflags : (u.pushAll (l ++ [p, rip, cs, rflags, rsp, ss])).value (.mem .rbp 0x18) = rflags :=
    value_frame (i := 2) hbp (by simp [hws]) (by decide) (by rw [List.reverse_append]; rfl)
  have hip : (u.pushAll (l ++ [p, rip, cs, rflags, rsp, ss])).value (.mem .rbp 0x08) = rip :=
    value_frame (i := 4) hbp (by simp [hws]) (by decide) (by rw [List.reverse_append]; rfl)
  have hvals : (specialSources.map (u.pushAll (l ++ [p, rip, cs, rflags, rsp, ss])).value).reverse =
      [u.gpr .rcx, rip, rflags, u.gpr .rbp, cs, ss, u.gpr .rax, u.gpr .rbx] := by
    rw [specialSources]
    simp only [List.map_cons, List.map_nil, hss, hcs, hflags, hip]
    rfl
  rw [hpush, hvals]

/-- **The context on the stack.** At the call the stack holds a context of the interrupted registers, whose address is
passed; memory outside of the row has not changed. -/
theorem buildContext_spec (s : State) (g : Gate) :
    ∃ t, run A buildContext (s.interrupted g) = some t ∧
      t.gpr .rdi = aligned g.stack - 752 ∧ t.gpr .rsp = aligned g.stack - 752 ∧ t.gpr .rbp = aligned g.stack - 48 ∧
      t.mem = writeWords s.mem (aligned g.stack - 752) (interruptContext s (aligned g.stack)).row ∧
      t.cr3 = s.cr3 ∧ t.seg .fs = s.seg .fs ∧ t.seg .gs = s.seg .gs := by
  obtain ⟨flags, h₁⟩ := run_reserveArea (A := A) (s.entered g) s.frame
    (by rw [State.entered_rsp]; exact aligned_toNat _) rfl
  rw [State.entered_rsp, State.entered_gpr (by decide), show (s.entered g).fx = s.fx from rfl] at h₁
  generalize hu : ((s.entered g).set .rbp (aligned g.stack - 48)).setFlags flags = u at h₁
  have hsp : u.gpr .rsp = aligned g.stack := by
    rw [← hu, State.setFlags_gpr, State.set_gpr_of_ne (by decide), State.entered_rsp]
  have hbp : u.gpr .rbp = aligned g.stack - 48 := by
    rw [← hu, State.setFlags_gpr, State.set_gpr_self]
  have hgpr : ∀ r, r ≠ .rsp → r ≠ .rbp → u.gpr r = s.gpr r := by
    intro r hr hr'
    rw [← hu, State.setFlags_gpr, State.set_gpr_of_ne hr', State.entered_gpr hr]
  have hspecial : u.cr3 = s.cr3 ∧ u.seg .fs = s.seg .fs ∧ u.seg .gs = s.seg .gs ∧ u.mem = s.mem := by
    rw [← hu]
    exact ⟨rfl, rfl, rfl, rfl⟩
  obtain ⟨hcr3, hfs, hgs, hmem⟩ := hspecial
  have h₂ := run_generalSources (A := A) (u := u) (l := List.ofFn s.fx) (by rw [hsp, hbp]) List.length_ofFn
    (p := s.gpr .rbp) (show s.gpr .rbp :: s.frame = _ from rfl)
  rw [← List.append_assoc] at h₂
  generalize hws : [ u.gpr .rax, u.gpr .rbx, u.gpr .rcx, u.gpr .rdx, u.gpr .rdi, u.gpr .rsi, s.gpr .rsp, s.gpr .rbp,
    u.gpr .r8, u.gpr .r9, u.gpr .r10, u.gpr .r11, u.gpr .r12, u.gpr .r13, u.gpr .r14, u.gpr .r15 ] ++ List.ofFn s.fx =
    ws at h₂
  have hlen : ws.length = 80 := by simp [← hws]
  generalize hv : ((u.set .rax ((u.gpr .rax).extractLsb' 16 48 ++ u.seg .fs)).set .rbx
    ((u.gpr .rbx).extractLsb' 16 48 ++ u.seg .gs)).set .rcx u.cr3 = v
  have h₃ : run A readSpecial
      (u.pushAll (ws ++ (s.gpr .rbp :: s.frame))) = some (v.pushAll (ws ++ (s.gpr .rbp :: s.frame))) := by
    rw [← hv, ← State.pushAll_set (by decide), ← State.pushAll_set (by decide), ← State.pushAll_set (by decide)]
    rfl
  have hv' : ∀ r, r ≠ .rax → r ≠ .rbx → r ≠ .rcx → v.gpr r = u.gpr r := by
    intro r h1 h2 h3
    rw [← hv, State.set_gpr_of_ne h3, State.set_gpr_of_ne h2, State.set_gpr_of_ne h1]
  have h₄ := run_specialSources (A := A) (u := v) (l := ws) (p := s.gpr .rbp)
    (by rw [hv' _ (by decide) (by decide) (by decide), hv' _ (by decide) (by decide) (by decide), hsp, hbp]) hlen
    (show s.gpr .rbp :: s.frame = _ from rfl)
  have hrow : [v.gpr .rcx, s.rip, s.rflags, v.gpr .rbp, (s.seg .cs).setWidth 64, (s.seg .ss).setWidth 64, v.gpr .rax,
      v.gpr .rbx] ++ (ws ++ (s.gpr .rbp :: s.frame)) = (interruptContext s (aligned g.stack)).row := by
    have hax : v.gpr .rax = (s.gpr .rax).extractLsb' 16 48 ++ s.seg .fs := by
      rw [← hv, State.set_gpr_of_ne (by decide), State.set_gpr_of_ne (by decide), State.set_gpr_self,
        hgpr _ (by decide) (by decide), hfs]
    have hbx : v.gpr .rbx = (s.gpr .rbx).extractLsb' 16 48 ++ s.seg .gs := by
      rw [← hv, State.set_gpr_of_ne (by decide), State.set_gpr_self, hgpr _ (by decide) (by decide), hgs]
    have hcx : v.gpr .rcx = s.cr3 := by
      rw [← hv, State.set_gpr_self, hcr3]
    rw [hax, hbx, hcx, hv' .rbp (by decide) (by decide) (by decide), hbp, ← hws]
    simp (disch := decide) only [hgpr]
    rfl
  rw [hrow] at h₄
  have hvsp : v.gpr .rsp = aligned g.stack := by rw [hv' _ (by decide) (by decide) (by decide), hsp]
  have htop : (v.pushAll (interruptContext s (aligned g.stack)).row).gpr .rsp = aligned g.stack - 752 := by
    rw [State.pushAll_rsp, hvsp, length_row]
    rfl
  have hvspecial : v.cr3 = u.cr3 ∧ v.seg = u.seg ∧ v.mem = u.mem := by
    rw [← hv]
    exact ⟨rfl, rfl, rfl⟩
  obtain ⟨hvcr3, hvseg, hvmem⟩ := hvspecial
  refine ⟨(v.pushAll (interruptContext s (aligned g.stack)).row).set .rdi (aligned g.stack - 752), ?_,
    State.set_gpr_self, ?_, ?_, ?_, ?_, ?_, ?_⟩
  · rw [buildContext, State.interrupted, List.append_assoc, List.append_assoc, List.append_assoc, run_append h₁,
      run_append h₂, run_append h₃, run_append h₄, run_cons, exec, State.value, htop]
    rfl
  · rw [State.set_gpr_of_ne (by decide), htop]
  · rw [State.set_gpr_of_ne (by decide), State.pushAll_gpr (by decide), hv' _ (by decide) (by decide) (by decide), hbp]
  · show writeWords v.mem (v.gpr .rsp - .ofNat 64 (8 * (interruptContext s (aligned g.stack)).row.length)) _ = _
    rw [hvmem, hmem, hvsp, length_row]
    rfl
  · exact hvcr3.trans hcr3
  · exact (congrFun hvseg _).trans hfs
  · exact (congrFun hvseg _).trans hgs

/-- The parts of the row. -/
theorem readWords_row {m : Memory} {c : TaskContext} (h : readWords m a 94 = c.row) :
    readWords m a TaskContext.size = c.words ∧ readWords m (slot a 89) 5 = c.frame := by
  have hlen : (readWords m a 88).length = c.words.length := by
    simp [readWords, TaskContext.words]
  have hsplit : readWords m a 88 ++ readWords m (slot a 88) 6 = c.words ++ c.rbp :: c.frame := by
    rw [← readWords_add]
    exact h
  obtain ⟨hwords, hrest⟩ := List.append_inj hsplit hlen
  rw [show 6 = 1 + 5 from rfl, readWords_add, slot_slot, ← List.singleton_append] at hrest
  exact ⟨hwords, (List.append_inj hrest (by simp [readWords])).2⟩

/-- **Leaving the interrupt**, from a stack that still holds the row: the registers of the context are loaded. -/
theorem leaveInterrupt_spec {c : TaskContext} (hsp : u.gpr .rsp = a) (hbp : u.gpr .rbp = a + 704)
    (ha : a.toNat % 16 = 0) (hrow : readWords u.mem a 94 = c.row) (hcr3 : u.cr3 = c.cr3)
    (hfs : u.seg .fs = c.regs.seg .fs) (hgs : u.seg .gs = c.regs.seg .gs) :
    run A leaveInterrupt u = some { c.regs with mem := u.mem } := by
  have hword : ∀ i w, c.row[i]? = some w → read64 u.mem (slot a i) = w := fun i w hi => read64_of_readWords hrow hi
  obtain ⟨hwords, hframe⟩ := readWords_row hrow
  obtain ⟨v, run₁, hsp₁, hin₁, hout₁, hmem₁, hcr3₁, hseg₁, -⟩ := run_skip_pops (A := A) (s := u) (l := poppedFirst)
    (by decide) (by decide) 8 (.add .rsp 16 :: (poppedLater.map .pop ++ leaveArea))
  obtain ⟨t, run₂, hsp₂, hin₂, hout₂, hmem₂, hcr3₂, hseg₂, -⟩ := run_skip_pops (A := A) (s := v) (l := poppedLater)
    (by decide) (by decide) 2 leaveArea
  rw [hsp] at hsp₁ hin₁
  rw [hsp₁, slot_slot] at hsp₂
  have hlater : ∀ r ∈ poppedLater, t.gpr r = read64 u.mem (slot a (16 + poppedLater.idxOf r)) := by
    intro r hr
    rw [hin₂ r hr, hsp₁, slot_slot, hmem₁, ← Nat.add_assoc]
    rfl
  have hfirst : ∀ r ∈ poppedFirst, t.gpr r = read64 u.mem (slot a (8 + poppedFirst.idxOf r)) := by
    intro r hr
    have hne : r ∉ poppedLater ∧ r ≠ .rsp := by
      revert r
      decide
    rw [hout₂ r hne.1 hne.2, hin₁ r hr]
  have hbp' : t.gpr .rbp = a + 704 := by
    rw [hout₂ _ (by decide) (by decide), hout₁ _ (by decide) (by decide), hbp]
  have hsp' : t.gpr .rsp + 0 = a + 0xc0 := by
    rw [hsp₂]
    exact BitVec.add_zero _
  have hmem : t.mem = u.mem := hmem₂.trans hmem₁
  generalize hw : (((({ t with fx := fun i => read64 t.mem (slot (t.gpr .rsp + 0) i) } : State).set .rsp
    (t.gpr .rbp)).dropped 1).set .rbp (read64 t.mem (slot (t.gpr .rbp) 0))) = w
  have hleave : run A leaveArea t = exec A w .iretq := by
    have halign : (t.gpr .rsp + 0).toNat % 16 = 0 := by
      rw [hsp']
      bv_omega
    rw [leaveArea, run_cons, exec, if_pos halign, ← hw]
    simp only [run_cons, Option.bind_some, exec, State.value, State.onStack, State.set_gpr_self, run_nil]
    rfl
  have hwsp : w.gpr .rsp = slot a 89 := by
    rw [← hw, State.set_gpr_of_ne (by decide), State.dropped, State.set_gpr_self, State.set_gpr_self, hbp',
      show a + 704 = slot a 88 from rfl, slot_slot]
  have hwbp : w.gpr .rbp = c.rbp := by
    rw [← hw, State.set_gpr_self, hbp', hmem, show a + 704 = slot a 88 from rfl, slot_slot]
    exact hword 88 _ rfl
  have hwgpr : ∀ r, r ≠ .rsp → r ≠ .rbp → w.gpr r = t.gpr r := by
    intro r h1 h2
    rw [← hw, State.set_gpr_of_ne h2, State.dropped, State.set_gpr_of_ne h1, State.set_gpr_of_ne h1]
  have hwmem : w.mem = u.mem := by
    rw [← hw]
    exact hmem
  rw [leaveInterrupt]
  refine (run₁.trans (run₂.trans hleave)).trans ?_
  rw [iretq_spec (c := c), hwmem]
  · rw [hwmem, hwsp]
    exact hframe
  · intro r hr
    cases r
    case rsp => exact absurd rfl hr
    case rbp => exact hwbp
    case rax => exact (hwgpr _ (by decide) (by decide)).trans ((hfirst _ (by decide)).trans (hword 8 _ rfl))
    case rbx => exact (hwgpr _ (by decide) (by decide)).trans ((hfirst _ (by decide)).trans (hword 9 _ rfl))
    case rcx => exact (hwgpr _ (by decide) (by decide)).trans ((hfirst _ (by decide)).trans (hword 10 _ rfl))
    case rdx => exact (hwgpr _ (by decide) (by decide)).trans ((hfirst _ (by decide)).trans (hword 11 _ rfl))
    case rdi => exact (hwgpr _ (by decide) (by decide)).trans ((hfirst _ (by decide)).trans (hword 12 _ rfl))
    case rsi => exact (hwgpr _ (by decide) (by decide)).trans ((hfirst _ (by decide)).trans (hword 13 _ rfl))
    case r8 => exact (hwgpr _ (by decide) (by decide)).trans ((hlater _ (by decide)).trans (hword 16 _ rfl))
    case r9 => exact (hwgpr _ (by decide) (by decide)).trans ((hlater _ (by decide)).trans (hword 17 _ rfl))
    case r10 => exact (hwgpr _ (by decide) (by decide)).trans ((hlater _ (by decide)).trans (hword 18 _ rfl))
    case r11 => exact (hwgpr _ (by decide) (by decide)).trans ((hlater _ (by decide)).trans (hword 19 _ rfl))
    case r12 => exact (hwgpr _ (by decide) (by decide)).trans ((hlater _ (by decide)).trans (hword 20 _ rfl))
    case r13 => exact (hwgpr _ (by decide) (by decide)).trans ((hlater _ (by decide)).trans (hword 21 _ rfl))
    case r14 => exact (hwgpr _ (by decide) (by decide)).trans ((hlater _ (by decide)).trans (hword 22 _ rfl))
    case r15 => exact (hwgpr _ (by decide) (by decide)).trans ((hlater _ (by decide)).trans (hword 23 _ rfl))
  · rw [← hw]
    exact (congrFun (hseg₂.trans hseg₁) _).trans hfs
  · rw [← hw]
    exact (congrFun (hseg₂.trans hseg₁) _).trans hgs
  · rw [← hw]
    exact (hcr3₂.trans hcr3₁).trans hcr3
  · have hfx : w.fx = (TaskContext.at' u.mem a).fxsaveArea := by
      rw [← hw]
      funext i
      change read64 t.mem (slot (t.gpr .rsp + 0) i) = _
      rw [hsp', hmem]
      rfl
    rw [hfx, TaskContext.at_of_readWords hwords]

/-- What the calling convention promises of a C++ function that returns, from the state before the call to the state
after it: the registers the routine still needs, and the row on its stack. -/
structure Returned (t u : State) : Prop where
  rsp : u.gpr .rsp = t.gpr .rsp
  rbp : u.gpr .rbp = t.gpr .rbp
  cr3 : u.cr3 = t.cr3
  fs : u.seg .fs = t.seg .fs
  gs : u.seg .gs = t.seg .gs
  row : ∀ i < 94, read64 u.mem (slot (t.gpr .rsp) i) = read64 t.mem (slot (t.gpr .rsp) i)

/-- **The interrupt is transparent.** The C++ function is passed the context of the interrupted task. If it returns, or
if a copy of the context is restored later, wherever that may be, the task goes on with the registers it had. -/
theorem intHandlerLAPICTimer_transparent (s : State) (g : Gate) :
    ∃ t, run A buildContext (s.interrupted g) = some t ∧
      (TaskContext.at' t.mem (t.gpr .rdi)).regs = s.toRegs ∧
      (∀ x : Word, 752 ≤ (x - (aligned g.stack - 752)).toNat → t.mem x = s.mem x) ∧
      -- the function returns
      (∀ u : State, Returned t u → run A leaveInterrupt u = some { s.toRegs with mem := u.mem }) ∧
      -- a copy is restored
      ∀ u : State, (u.gpr .rdi + 0xc0).toNat % 16 = 0 →
        Separate (u.gpr .rsp - 40) 5 (u.gpr .rdi) TaskContext.size →
        (∀ i < TaskContext.size, read64 u.mem (slot (u.gpr .rdi) i) = read64 t.mem (slot (t.gpr .rdi) i)) →
        ∃ v, run A restoreContext u = some v ∧ v.toRegs = s.toRegs ∧
          ∀ x : Word, 40 ≤ (x - (u.gpr .rsp - 40)).toNat → v.mem x = u.mem x := by
  obtain ⟨t, hrun, hdi, hsp, hbp, hmem, hcr3, hfs, hgs⟩ := buildContext_spec (A := A) s g
  have hrow : readWords t.mem (aligned g.stack - 752) 94 = (interruptContext s (aligned g.stack)).row := by
    have hread := readWords_writeWords (m := s.mem) (a := aligned g.stack - 752)
      (W := (interruptContext s (aligned g.stack)).row) (by rw [length_row]; decide)
    rwa [length_row, ← hmem] at hread
  have hctx : TaskContext.at' t.mem (t.gpr .rdi) = interruptContext s (aligned g.stack) := by
    rw [hdi]
    exact TaskContext.at_of_readWords (readWords_row hrow).1
  have hregs := interruptContext_regs s (aligned g.stack)
  refine ⟨t, hrun, by rw [hctx, hregs], fun x hx => ?_, fun u hu => ?_,
    fun u halign hsep hwords => ?_⟩
  · rw [hmem]
    exact writeWords_of_le (by rw [length_row]; exact hx)
  · have hrow' : readWords u.mem (aligned g.stack - 752) 94 = (interruptContext s (aligned g.stack)).row := by
      rw [← hrow]
      exact readWords_congr (hsp ▸ hu.row)
    have halign : (aligned g.stack - 752).toNat % 16 = 0 := by
      have := aligned_toNat g.stack
      bv_omega
    have hleave := leaveInterrupt_spec (A := A) (hu.rsp.trans hsp) (hu.rbp.trans (hbp.trans (by bv_omega)))
      halign hrow' (hu.cr3.trans hcr3) (by rw [hu.fs, hfs, hregs]) (by rw [hu.gs, hgs, hregs])
    rw [hleave, hregs]
  · have hc : TaskContext.at' u.mem (u.gpr .rdi) = interruptContext s (aligned g.stack) := by
      rw [← hctx]
      exact TaskContext.at_congr hwords
    exact ⟨_, restoreContext_spec halign hsep hc, hregs, fun x hx => writeWords_of_le hx⟩

end DuvuvurKernel
