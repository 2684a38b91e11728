import DuvuvurKernel.Lib.Bytes
import Mathlib.Logic.Function.Basic
import Mathlib.Tactic

/-!
# A processor

The part of the x86-64 instruction set with which a kernel saves registers, loads them, and goes from one stack to
another: moves, pushes and pops, the segment and control registers, the 512 bytes of `FXSAVE`, interrupts, and the
returns that change the privilege level.

## The model

Memory is a byte for each address. A routine is a list of instructions, run one after the other. An instruction that
goes elsewhere (`ret`, `retf`, `iretq`, `sysretq`) sets `rip`, and ends its list; the others leave `rip` alone. What
arithmetic does to the status flags is a parameter (`Alu`): nothing here depends on it.

## Stacks

Words that lie one after the other in memory are a list (`writeWords`, `readWords`), the lowest first: a push puts one
more at its front. A place in such a row is a `slot`, counted from its lowest address.
-/

namespace Lib.X86

open Lib.Bytes

/-- A word of 64 bits. -/
abbrev Word := BitVec 64

/-- The byte at each address. -/
abbrev Memory := Word → UInt8

/-- The general registers. -/
inductive Reg where
  | rax | rbx | rcx | rdx | rdi | rsi | rsp | rbp
  | r8 | r9 | r10 | r11 | r12 | r13 | r14 | r15
  deriving DecidableEq

/-- The segment registers a routine reads. -/
inductive Seg where
  | cs | ss | fs | gs
  deriving DecidableEq

/-- The registers. -/
@[ext]
structure Regs where
  gpr : Reg → Word
  rip : Word
  rflags : Word
  seg : Seg → BitVec 16
  cr3 : Word
  /-- The floating-point and vector registers, as `FXSAVE` lays them out. -/
  fx : Fin 64 → Word

/-- The processor and its memory. -/
structure State extends Regs where
  mem : Memory

/-! ### Words in memory -/

/-- The word at an address. -/
def read64 (m : Memory) (a : Word) : Word :=
  .ofNat 64 (ofLittle ((List.range 8).map fun k => m (a + .ofNat 64 k)))

/-- Memory with a word written at an address. -/
def write64 (m : Memory) (a w : Word) : Memory := fun x => ((toLittle 8 w.toNat)[(x - a).toNat]?).getD (m x)

/-- The address of a word in a row of words. -/
def slot (a : Word) (i : ℕ) : Word := a + .ofNat 64 (8 * i)

/-- Words written one after the other, the first at the address. -/
def writeWords (m : Memory) : Word → List Word → Memory
  | _, [] => m
  | a, w :: W => write64 (writeWords m (a + 8) W) a w

/-- The words from an address on. -/
def readWords (m : Memory) (a : Word) (n : ℕ) : List Word := (List.range n).map fun i => read64 m (slot a i)

/-- Two words that do not overlap. -/
def WordsApart (a b : Word) : Prop := 8 ≤ (a - b).toNat ∧ 8 ≤ (b - a).toNat

variable {m : Memory} {a b w : Word} {W vs : List Word} {i j n : ℕ}

theorem write64_of_le (h : 8 ≤ (b - a).toNat) : write64 m a w b = m b := by
  rw [write64, List.getElem?_eq_none (by rw [length_toLittle]; exact h), Option.getD_none]

@[simp] theorem read64_write64_self : read64 (write64 m a w) a = w := by
  have hbytes : ((List.range 8).map fun k => write64 m a w (a + .ofNat 64 k)) = toLittle 8 w.toNat := by
    refine List.ext_getElem (by simp [length_toLittle]) fun k hk hk' => ?_
    have hlt : k < 8 := by simpa using hk
    have hsub : (a + .ofNat 64 k - a : Word).toNat = k := by bv_omega
    rw [List.getElem_map, List.getElem_range, write64, hsub, List.getElem?_eq_getElem hk', Option.getD_some]
  rw [read64, hbytes, ofLittle_toLittle w.isLt, BitVec.ofNat_toNat, BitVec.setWidth_eq]

theorem read64_congr {m' : Memory} (h : ∀ k < 8, m' (a + .ofNat 64 k) = m (a + .ofNat 64 k)) :
    read64 m' a = read64 m a := by
  rw [read64, read64]
  congr 2
  exact List.map_congr_left fun k hk => h k (List.mem_range.mp hk)

theorem read64_write64_of_apart (h : WordsApart a b) : read64 (write64 m a w) b = read64 m b := by
  obtain ⟨h1, h2⟩ := h
  refine read64_congr fun k hk => write64_of_le ?_
  bv_omega

/-- Two rows of words that do not overlap. -/
def Separate (a : Word) (n : ℕ) (b : Word) (k : ℕ) : Prop := 8 * n ≤ (b - a).toNat ∧ 8 * k ≤ (a - b).toNat

theorem slot_zero : slot a 0 = a := by simp [slot]

theorem slot_slot : slot (slot a i) j = slot a (i + j) := by
  rw [slot, slot, slot, BitVec.add_assoc, ← BitVec.ofNat_add, Nat.mul_add]

theorem slot_one : slot a 1 = a + 8 := rfl

/-- An offset in bytes, as a number of words. -/
theorem add_eq_slot {off : Word} (h : off.toNat % 8 = 0) : a + off = slot a (off.toNat / 8) := by
  rw [slot, Nat.mul_div_cancel' (Nat.dvd_of_mod_eq_zero h), BitVec.ofNat_toNat, BitVec.setWidth_eq]

theorem writeWords_append : writeWords m a (W ++ vs) = writeWords (writeWords m (slot a W.length) vs) a W := by
  induction W generalizing a with
  | nil => rw [List.nil_append, List.length_nil, slot_zero, writeWords]
  | cons w W ih =>
    rw [List.cons_append, writeWords, ih, ← slot_one, slot_slot, Nat.add_comm 1, List.length_cons, writeWords, slot_one]

/-- The bytes above a row of words. -/
theorem writeWords_of_le (h : 8 * W.length ≤ (b - a).toNat) : writeWords m a W b = m b := by
  induction W generalizing a with
  | nil => rfl
  | cons w W ih =>
    rw [List.length_cons] at h
    rw [writeWords, write64_of_le (by omega), ih (by bv_omega)]

/-- A row of words that does not overlap the one written. -/
theorem read64_writeWords_of_separate (h : Separate a W.length b n) (hi : i < n) :
    read64 (writeWords m a W) (slot b i) = read64 m (slot b i) := by
  obtain ⟨h1, h2⟩ := h
  have hlt := (b - a).isLt
  exact read64_congr fun k hk => writeWords_of_le (by unfold slot; bv_omega)

/-- A byte of a row is outside of the other one. -/
theorem Separate.le (h : Separate a n b i) (hj : j < 8 * i) : 8 * n ≤ (b + .ofNat 64 j - a).toNat := by
  obtain ⟨h1, h2⟩ := h
  have hlt := (a - b).isLt
  bv_omega

theorem Separate.le_of_lt (h : Separate a n b i) {x : Word} (hx : (x - b).toNat < 8 * i) : 8 * n ≤ (x - a).toNat := by
  have hle := h.le hx
  rwa [BitVec.ofNat_toNat, BitVec.setWidth_eq, BitVec.add_comm, BitVec.sub_add_cancel] at hle

theorem Separate.symm (h : Separate a n b i) : Separate b i a n := ⟨h.2, h.1⟩

/-- The words of a row. -/
theorem read64_writeWords (h : 8 * W.length ≤ 2 ^ 64) (hi : i < W.length) :
    read64 (writeWords m a W) (slot a i) = W[i] := by
  induction W generalizing a i with
  | nil => cases hi
  | cons w W ih =>
    rw [List.length_cons] at h hi
    rw [writeWords]
    cases i with
    | zero => rw [slot_zero, read64_write64_self, List.getElem_cons_zero]
    | succ i =>
      have hne : WordsApart a (slot a (i + 1)) := by
        unfold WordsApart slot
        constructor <;> bv_omega
      rw [read64_write64_of_apart hne, List.getElem_cons_succ, ← ih (a := a + 8) (by omega) (by omega), ← slot_one,
        slot_slot, Nat.add_comm i]

theorem readWords_writeWords (h : 8 * W.length ≤ 2 ^ 64) : readWords (writeWords m a W) a W.length = W := by
  refine List.ext_getElem (by simp [readWords]) fun i hi hi' => ?_
  simp only [readWords, List.getElem_map, List.getElem_range, read64_writeWords h hi']

/-- A word of a row that has been read. -/
theorem read64_of_readWords (h : readWords m a n = W) (hi : W[i]? = some w) : read64 m (slot a i) = w := by
  subst h
  obtain ⟨hlt, hw⟩ := List.getElem?_eq_some_iff.mp hi
  rw [← hw]
  simp only [readWords, List.getElem_map, List.getElem_range]

theorem readWords_congr {m' : Memory} (h : ∀ i < n, read64 m' (slot a i) = read64 m (slot a i)) :
    readWords m' a n = readWords m a n :=
  List.map_congr_left fun i hi => h i (List.mem_range.mp hi)

theorem readWords_add : readWords m a (n + i) = readWords m a n ++ readWords m (slot a n) i := by
  simp only [readWords, List.range_add, List.map_append, List.map_map, slot_slot, Function.comp_def]

/-! ### Instructions -/

/-- What is read: a register, or the word in memory at a register and an offset. -/
inductive Src where
  | reg (r : Reg)
  | mem (base : Reg) (off : Word)

/-- The instructions. -/
inductive Instr where
  | mov (dst : Reg) (src : Src)
  /-- A move of the low halves, which clears the upper half. -/
  | mov32 (dst src : Reg)
  /-- `mov [base + off], src`. -/
  | store (base : Reg) (off : Word) (src : Reg)
  | lea (dst base : Reg) (off : Word)
  | push (src : Src)
  | pushfq
  | pop (dst : Reg)
  /-- `pop qword [base + off]`, of a base that is not `rsp`. -/
  | popMem (base : Reg) (off : Word)
  | add (dst : Reg) (imm : Word)
  | sub (dst : Reg) (imm : Word)
  | and (dst : Reg) (imm : Word)
  /-- `and` of the low halves, which clears the upper half. -/
  | and32 (dst : Reg) (imm : BitVec 32)
  /-- `mov ax, cs`: the upper 48 bits stay. -/
  | movFromSeg (dst : Reg) (src : Seg)
  | movToSeg (dst : Seg) (src : Reg)
  | movFromCr3 (dst : Reg)
  | movToCr3 (src : Reg)
  | fxsave (base : Reg) (off : Word)
  | fxrstor (base : Reg) (off : Word)
  | cli
  | sti
  | ret
  /-- `o64 retf`. -/
  | retf
  | iretq
  /-- `o64 sysret`, with the selectors it loads. -/
  | sysretq (cs ss : BitVec 16)

/-- The operations that change the status flags. -/
inductive AluOp where
  | add | sub | and | and32

/-- What arithmetic does to the flags: the operation, its operands, and the flags before. -/
abbrev Alu := AluOp → Word → Word → Word → Word

namespace State

variable (s : State)

/-- A register set. -/
def set (r : Reg) (w : Word) : State := { s with gpr := Function.update s.gpr r w }

/-- The flags set. -/
def setFlags (flags : Word) : State := { s with rflags := flags }

/-- The value read. -/
def value : Src → Word
  | .reg r => s.gpr r
  | .mem base off => read64 s.mem (s.gpr base + off)

/-- A word pushed. -/
def pushed (w : Word) : State :=
  { s with gpr := Function.update s.gpr .rsp (s.gpr .rsp - 8), mem := write64 s.mem (s.gpr .rsp - 8) w }

/-- The word a number of words above the top of the stack. -/
def onStack (i : ℕ) : Word := read64 s.mem (slot (s.gpr .rsp) i)

/-- Words taken off the stack. -/
def dropped (n : ℕ) : State := s.set .rsp (slot (s.gpr .rsp) n)

end State

/-- The privilege level of a selector. -/
def rpl (selector : BitVec 16) : BitVec 2 := selector.setWidth 2

/-- The interrupt flag. -/
def interruptFlag : Word := 0x200

/-- The flags that `sysret` takes over, and the one that is always set. -/
def sysretFlags (flags : Word) : Word := flags &&& 0x3c7fd7 ||| 2

/-- An instruction. One that faults has no result: `FXSAVE` and `FXRSTOR` want 16-byte alignment. -/
def exec (A : Alu) (s : State) : Instr → Option State
  | .mov dst src => s.set dst (s.value src)
  | .mov32 dst src => s.set dst (((s.gpr src).setWidth 32).setWidth 64)
  | .store base off src => some { s with mem := write64 s.mem (s.gpr base + off) (s.gpr src) }
  | .lea dst base off => s.set dst (s.gpr base + off)
  | .push src => s.pushed (s.value src)
  | .pushfq => s.pushed s.rflags
  | .pop dst => (s.dropped 1).set dst (s.onStack 0)
  | .popMem base off => some { s.dropped 1 with mem := write64 s.mem (s.gpr base + off) (s.onStack 0) }
  | .add dst imm => (s.set dst (s.gpr dst + imm)).setFlags (A .add (s.gpr dst) imm s.rflags)
  | .sub dst imm => (s.set dst (s.gpr dst - imm)).setFlags (A .sub (s.gpr dst) imm s.rflags)
  | .and dst imm => (s.set dst (s.gpr dst &&& imm)).setFlags (A .and (s.gpr dst) imm s.rflags)
  | .and32 dst imm => (s.set dst (((s.gpr dst).setWidth 32 &&& imm).setWidth 64)).setFlags
      (A .and32 (s.gpr dst) (imm.setWidth 64) s.rflags)
  | .movFromSeg dst src => s.set dst ((s.gpr dst).extractLsb' 16 48 ++ s.seg src)
  | .movToSeg dst src => some { s with seg := Function.update s.seg dst ((s.gpr src).setWidth 16) }
  | .movFromCr3 dst => s.set dst s.cr3
  | .movToCr3 src => some { s with cr3 := s.gpr src }
  | .fxsave base off =>
    if (s.gpr base + off).toNat % 16 = 0 then
      some { s with mem := writeWords s.mem (s.gpr base + off) (List.ofFn s.fx) }
    else none
  | .fxrstor base off =>
    if (s.gpr base + off).toNat % 16 = 0 then
      some { s with fx := fun i => read64 s.mem (slot (s.gpr base + off) i) }
    else none
  | .cli => s.setFlags (s.rflags &&& ~~~interruptFlag)
  | .sti => s.setFlags (s.rflags ||| interruptFlag)
  | .ret => some { s.dropped 1 with rip := s.onStack 0 }
  | .retf =>
    let cs := (s.onStack 1).setWidth 16
    -- a return to another privilege level takes the stack pointer too
    if rpl cs = rpl (s.seg .cs) then
      some { s.dropped 2 with rip := s.onStack 0, seg := Function.update s.seg .cs cs }
    else some { s.set .rsp (s.onStack 2) with
      rip := s.onStack 0, seg := Function.update (Function.update s.seg .cs cs) .ss ((s.onStack 3).setWidth 16) }
  | .iretq => some { s.set .rsp (s.onStack 3) with
      rip := s.onStack 0, rflags := s.onStack 2,
      seg := Function.update (Function.update s.seg .cs ((s.onStack 1).setWidth 16)) .ss ((s.onStack 4).setWidth 16) }
  | .sysretq cs ss => some { s with
      rip := s.gpr .rcx, rflags := sysretFlags (s.gpr .r11),
      seg := Function.update (Function.update s.seg .cs cs) .ss ss }

/-- A routine. -/
def run (A : Alu) : List Instr → State → Option State
  | [], s => some s
  | i :: is, s => (exec A s i).bind (run A is)

variable {A : Alu} {s s' : State} {is js : List Instr}

@[simp] theorem State.setFlags_gpr : (s.setFlags w).gpr = s.gpr := rfl

@[simp] theorem State.set_gpr_self {r : Reg} : (s.set r w).gpr r = w := Function.update_self _ _ _

theorem State.set_gpr_of_ne {r r' : Reg} (h : r' ≠ r) : (s.set r w).gpr r' = s.gpr r' := Function.update_of_ne h _ _

@[simp] theorem run_nil : run A [] s = some s := rfl

@[simp] theorem run_cons (i : Instr) : run A (i :: is) s = (exec A s i).bind (run A is) := rfl

theorem run_singleton (i : Instr) : run A [i] s = exec A s i := Option.bind_fun_some _

theorem run_append {j : List Instr} {t : State} (h : run A is s = some t) : run A (is ++ j) s = run A j t := by
  induction is generalizing s with
  | nil =>
    cases h
    rfl
  | cons i is ih =>
    obtain ⟨s₁, hs, h⟩ := Option.bind_eq_some_iff.mp h
    rw [List.cons_append, run_cons, hs, Option.bind_some]
    exact ih h

/-! ### Pushing -/

namespace State

/-- Words pushed one after the other: the last one is first. -/
def pushAll (s : State) (W : List Word) : State :=
  { s with
    gpr := Function.update s.gpr .rsp (s.gpr .rsp - .ofNat 64 (8 * W.length)),
    mem := writeWords s.mem (s.gpr .rsp - .ofNat 64 (8 * W.length)) W }

/-- A source that is the same however many words are pushed, up to a number. -/
def Stable (s : State) (n : ℕ) : Src → Prop
  | .reg r => r ≠ .rsp
  | .mem base off => base ≠ .rsp ∧ Separate (s.gpr .rsp - .ofNat 64 (8 * n)) n (s.gpr base + off) 1

variable {r : Reg}

theorem stable_reg : s.Stable n (.reg r) ↔ r ≠ .rsp := Iff.rfl

@[simp] theorem pushAll_nil (s : State) : s.pushAll [] = s := by simp [pushAll, writeWords]

@[simp] theorem pushAll_gpr (h : r ≠ .rsp) : (s.pushAll W).gpr r = s.gpr r := Function.update_of_ne h _ _

@[simp] theorem pushAll_rsp : (s.pushAll W).gpr .rsp = s.gpr .rsp - .ofNat 64 (8 * W.length) := by
  simp [pushAll]

@[simp] theorem pushAll_seg : (s.pushAll W).seg = s.seg := rfl
@[simp] theorem pushAll_rflags : (s.pushAll W).rflags = s.rflags := rfl
@[simp] theorem pushAll_cr3 : (s.pushAll W).cr3 = s.cr3 := rfl
@[simp] theorem pushAll_fx : (s.pushAll W).fx = s.fx := rfl
@[simp] theorem pushAll_rip : (s.pushAll W).rip = s.rip := rfl

theorem pushed_pushAll (s : State) (W : List Word) (w : Word) : (s.pushAll W).pushed w = s.pushAll (w :: W) := by
  have hsp : s.gpr .rsp - .ofNat 64 (8 * W.length) - 8 = s.gpr .rsp - .ofNat 64 (8 * (w :: W).length) := by
    rw [List.length_cons]
    bv_omega
  have hup : s.gpr .rsp - .ofNat 64 (8 * (w :: W).length) + 8 = s.gpr .rsp - .ofNat 64 (8 * W.length) := by
    rw [List.length_cons]
    bv_omega
  simp only [pushed, pushAll, Function.update_self, Function.update_idem, hsp, writeWords, hup]

theorem value_pushAll {src : Src} (h : s.Stable n src) (hn : W.length ≤ n) :
    (s.pushAll W).value src = s.value src := by
  cases src with
  | reg r => exact pushAll_gpr h
  | mem base off =>
    obtain ⟨hbase, h1, h2⟩ := h
    rcases Nat.eq_zero_or_pos W.length with h0 | hpos
    · rw [List.length_eq_zero_iff.mp h0, pushAll_nil]
    have hsep : Separate (s.gpr .rsp - .ofNat 64 (8 * W.length)) W.length (s.gpr base + off) 1 := by
      have hlt : 8 * n < 2 ^ 64 := Nat.lt_of_le_of_lt h1 (BitVec.isLt _)
      generalize s.gpr base + off = b at h1 h2 ⊢
      constructor <;> bv_omega
    have hread := read64_writeWords_of_separate (m := s.mem) hsep (Nat.zero_lt_one)
    rw [slot_zero] at hread
    rw [value, value, pushAll_gpr hbase]
    exact hread

theorem pushed_eq (s : State) (w : Word) : s.pushed w = s.pushAll [w] := by
  rw [← pushed_pushAll, pushAll_nil]

theorem pushAll_pushAll (s : State) (W vs : List Word) : (s.pushAll W).pushAll vs = s.pushAll (vs ++ W) := by
  have hsp : s.gpr .rsp - .ofNat 64 (8 * W.length) - .ofNat 64 (8 * vs.length) =
      s.gpr .rsp - .ofNat 64 (8 * (vs ++ W).length) := by
    rw [List.length_append, Nat.mul_add, BitVec.ofNat_add]
    bv_omega
  have hup : slot (s.gpr .rsp - .ofNat 64 (8 * (vs ++ W).length)) vs.length =
      s.gpr .rsp - .ofNat 64 (8 * W.length) := by
    rw [slot, ← hsp]
    bv_omega
  simp only [pushAll, Function.update_self, Function.update_idem, hsp, writeWords_append, hup]

theorem pushAll_setFlags : (s.pushAll W).setFlags w = (s.setFlags w).pushAll W := rfl

/-- A register other than the stack pointer. -/
theorem pushAll_set (h : r ≠ .rsp) : (s.pushAll W).set r w = (s.set r w).pushAll W := by
  simp only [pushAll, set_gpr_of_ne (Ne.symm h)]
  simp only [set, Function.update_comm h]

/-- A word that has been pushed, counted from the top. -/
theorem onStack_pushAll (hlen : 8 * W.length ≤ 2 ^ 64) (h : W[i]? = some w) : (s.pushAll W).onStack i = w := by
  obtain ⟨hi, hw⟩ := List.getElem?_eq_some_iff.mp h
  rw [onStack, pushAll_rsp, pushAll, read64_writeWords hlen hi, hw]

/-- A word that has been pushed, counted from where the stack began. -/
theorem read64_pushAll (hlen : 8 * W.length ≤ 2 ^ 64) (h : W.reverse[i]? = some w) :
    read64 (s.pushAll W).mem (s.gpr .rsp - .ofNat 64 (8 * (i + 1))) = w := by
  obtain ⟨hi, hw⟩ := List.getElem?_eq_some_iff.mp h
  rw [List.length_reverse] at hi
  have hslot : s.gpr .rsp - .ofNat 64 (8 * (i + 1)) =
      slot (s.gpr .rsp - .ofNat 64 (8 * W.length)) (W.length - (i + 1)) := by
    have hsplit : 8 * W.length = 8 * (W.length - (i + 1)) + 8 * (i + 1) := by omega
    rw [slot]
    conv_rhs => rw [hsplit, BitVec.ofNat_add]
    bv_omega
  rw [hslot, pushAll, read64_writeWords hlen (by omega), ← hw, List.getElem_reverse]
  congr 1
  omega

end State

/-- A row of pushes. -/
theorem run_pushes {l : List Src} (h : ∀ src ∈ l, s.Stable n src) (hn : W.length + l.length ≤ n) :
    run A (l.map .push) (s.pushAll W) = some (s.pushAll ((l.map s.value).reverse ++ W)) := by
  induction l generalizing W with
  | nil => rfl
  | cons src l ih =>
    rw [List.length_cons] at hn
    rw [List.map_cons, run_cons, exec, Option.bind_some, State.value_pushAll (h src List.mem_cons_self) (by omega),
      State.pushed_pushAll, ih (fun src' hsrc => h src' (List.mem_cons_of_mem _ hsrc)) (by simp; omega), List.map_cons,
      List.reverse_cons, List.append_assoc, List.singleton_append]

/-! ### Loading -/

/-- Registers loaded from offsets to an address. -/
def loadAll (s : State) (a : Word) (l : List (Reg × Word)) (r : Reg) : Word :=
  ((l.find? fun p => p.1 = r).map fun p => read64 s.mem (a + p.2)).getD (s.gpr r)

theorem loadAll_set {dst : Reg} {off : Word} {l : List (Reg × Word)} (hdst : dst ∉ l.map Prod.fst) :
    loadAll (s.set dst (read64 s.mem (a + off))) a l = loadAll s a ((dst, off) :: l) := by
  funext r
  simp only [loadAll, List.find?_cons]
  by_cases hr : dst = r
  · have hnone : (l.find? fun p => p.1 = r) = none := by
      rw [List.find?_eq_none]
      rintro q hq hqr
      exact hdst (List.mem_map.mpr ⟨q, hq, (of_decide_eq_true hqr).trans hr.symm⟩)
    rw [hnone, decide_eq_true hr, ← hr]
    exact Function.update_self _ _ _
  · rw [decide_eq_false hr]
    simp only [State.set, Function.update_of_ne (Ne.symm hr)]

/-- A row of loads, of different registers. -/
theorem run_loads {base : Reg} {l : List (Reg × Word)} (hbase : base ∉ l.map Prod.fst) (hl : (l.map Prod.fst).Nodup) :
    run A (l.map fun p => .mov p.1 (.mem base p.2)) s = some { s with gpr := loadAll s (s.gpr base) l } := by
  induction l generalizing s with
  | nil => rfl
  | cons p l ih =>
    obtain ⟨dst, off⟩ := p
    simp only [List.map_cons, List.mem_cons, List.nodup_cons, not_or] at hbase hl
    have hb : (s.set dst (read64 s.mem (s.gpr base + off))).gpr base = s.gpr base := Function.update_of_ne hbase.1 _ _
    rw [List.map_cons, run_cons, exec, State.value, Option.bind_some, ih hbase.2 hl.2, hb, loadAll_set hl.1]
    rfl

/-! ### Popping -/

/-- The registers once a row of them has been popped. -/
def State.popAll (s : State) (l : List Reg) (r : Reg) : Word :=
  if r = .rsp then slot (s.gpr .rsp) l.length else if r ∈ l then s.onStack (l.idxOf r) else s.gpr r

theorem State.popAll_rsp {l : List Reg} : s.popAll l .rsp = slot (s.gpr .rsp) l.length := if_pos rfl

theorem State.popAll_of_mem {l : List Reg} {r : Reg} (hsp : .rsp ∉ l) (hr : r ∈ l) :
    s.popAll l r = s.onStack (l.idxOf r) := by
  have hne : r ≠ .rsp := fun h => hsp (h ▸ hr)
  rw [popAll, if_neg hne, if_pos hr]

theorem State.popAll_of_notMem {l : List Reg} {r : Reg} (hr : r ∉ l) (hne : r ≠ .rsp) : s.popAll l r = s.gpr r := by
  rw [popAll, if_neg hne, if_neg hr]

/-- A row of pops, to different registers. -/
theorem run_pops {l : List Reg} (hsp : .rsp ∉ l) (hl : l.Nodup) :
    run A (l.map .pop) s = some { s with gpr := s.popAll l } := by
  induction l generalizing s with
  | nil =>
    have hgpr : s.popAll [] = s.gpr := by
      funext r
      by_cases hr : r = .rsp
      · rw [State.popAll, if_pos hr, List.length_nil, slot_zero, hr]
      · rw [State.popAll, if_neg hr, if_neg List.not_mem_nil]
    rw [hgpr]
    rfl
  | cons dst l ih =>
    rw [List.mem_cons, not_or] at hsp
    rw [List.nodup_cons] at hl
    have hgpr : ((s.dropped 1).set dst (s.onStack 0)).popAll l = s.popAll (dst :: l) := by
      have hsp' : ((s.dropped 1).set dst (s.onStack 0)).gpr .rsp = slot (s.gpr .rsp) 1 := by
        rw [State.set_gpr_of_ne hsp.1, State.dropped, State.set_gpr_self]
      funext r
      by_cases hr : r = .rsp
      · rw [State.popAll, if_pos hr, State.popAll, if_pos hr, hsp', slot_slot, Nat.add_comm, List.length_cons]
      rw [State.popAll, if_neg hr, State.popAll, if_neg hr]
      by_cases hdst : r = dst
      · rw [if_neg (by rw [hdst]; exact hl.1), if_pos (by rw [hdst]; exact List.mem_cons_self), hdst,
          List.idxOf_cons_self]
        exact Function.update_self _ _ _
      have hother : ((s.dropped 1).set dst (s.onStack 0)).gpr r = s.gpr r := by
        rw [State.set_gpr_of_ne hdst, State.dropped, State.set_gpr_of_ne hr]
      by_cases hmem : r ∈ l
      · rw [if_pos hmem, if_pos (List.mem_cons_of_mem _ hmem), State.onStack, hsp', slot_slot, Nat.add_comm,
          List.idxOf_cons_ne _ (Ne.symm hdst)]
        rfl
      · rw [if_neg hmem, if_neg (by simp [hdst, hmem]), hother]
    rw [List.map_cons, run_cons, exec, Option.bind_some, ih hsp.2 hl.2, hgpr]
    rfl

/-- Words skipped, and a row of pops. -/
theorem run_skip_pops {l : List Reg} (hsp : .rsp ∉ l) (hl : l.Nodup) (n : ℕ) (is : List Instr) :
    ∃ t, run A (.add .rsp (.ofNat 64 (8 * n)) :: (l.map .pop ++ is)) s = run A is t ∧
      t.gpr .rsp = slot (s.gpr .rsp) (n + l.length) ∧
      (∀ r ∈ l, t.gpr r = read64 s.mem (slot (s.gpr .rsp) (n + l.idxOf r))) ∧
      (∀ r, r ∉ l → r ≠ .rsp → t.gpr r = s.gpr r) ∧
      t.mem = s.mem ∧ t.cr3 = s.cr3 ∧ t.seg = s.seg ∧ t.fx = s.fx := by
  have hskip : ((s.set .rsp (s.gpr .rsp + .ofNat 64 (8 * n))).setFlags
      (A .add (s.gpr .rsp) (.ofNat 64 (8 * n)) s.rflags)).gpr .rsp = slot (s.gpr .rsp) n := by
    rw [State.setFlags_gpr, State.set_gpr_self, slot]
  refine ⟨_, run_append (run_pops hsp hl), ?_, fun r hr => ?_, fun r hr hne => ?_, rfl, rfl, rfl, rfl⟩
  · exact State.popAll_rsp.trans (by rw [hskip, slot_slot])
  · refine (State.popAll_of_mem hsp hr).trans ?_
    rw [State.onStack, hskip, slot_slot]
    rfl
  · exact (State.popAll_of_notMem hr hne).trans (by rw [State.setFlags_gpr, State.set_gpr_of_ne hne])

/-- A row of pops, and the return. -/
theorem run_pops_ret {l : List Reg} (hsp : .rsp ∉ l) (hl : l.Nodup) :
    ∃ t, run A (l.map .pop ++ [.ret]) s = some t ∧ t.rip = s.onStack l.length ∧
      t.gpr .rsp = slot (s.gpr .rsp) (l.length + 1) ∧ (∀ r ∈ l, t.gpr r = s.onStack (l.idxOf r)) ∧
      (∀ r, r ∉ l → r ≠ .rsp → t.gpr r = s.gpr r) ∧
      t.mem = s.mem ∧ t.cr3 = s.cr3 ∧ t.seg = s.seg ∧ t.fx = s.fx := by
  generalize hv : { s with gpr := s.popAll l } = v
  have hgpr : v.gpr = s.popAll l := by rw [← hv]
  have hvsp : v.gpr .rsp = slot (s.gpr .rsp) l.length := by rw [hgpr, State.popAll_rsp]
  have hret : exec A v .ret = some { v.dropped 1 with rip := v.onStack 0 } := rfl
  refine ⟨_, (run_append (run_pops hsp hl)).trans (by rw [hv, run_singleton]; exact hret), ?_, ?_, fun r hr => ?_,
    fun r hr hne => ?_, ?_, ?_, ?_, ?_⟩
  · simp only [State.onStack, hvsp, slot_slot, Nat.add_zero]
    rw [← hv]
  · simp only [State.dropped, State.set_gpr_self, hvsp, slot_slot]
  · simp only [State.dropped, State.set_gpr_of_ne (fun h : r = .rsp => hsp (h ▸ hr)), hgpr]
    exact State.popAll_of_mem hsp hr
  · simp only [State.dropped, State.set_gpr_of_ne hne, hgpr]
    exact State.popAll_of_notMem hr hne
  all_goals
    rw [← hv]
    rfl

/-! ### Interrupts -/

/-- The stack pointer from the table, aligned. -/
def aligned (a : Word) : Word := a &&& ~~~0xf

theorem aligned_toNat (a : Word) : (aligned a).toNat % 16 = 0 := by
  have h : (aligned a).setWidth 4 = 0 := by
    rw [aligned, BitVec.setWidth_and]
    exact BitVec.and_zero
  have h' := congrArg BitVec.toNat h
  rwa [BitVec.toNat_setWidth] at h'

/-- The bits under a mask, and the others. -/
theorem and_not_add_and (a m : Word) : (a &&& ~~~m) + (a &&& m) = a := by
  have hand : (a &&& ~~~m) &&& (a &&& m) = 0 := by
    ext i hi
    simp
    grind
  rw [BitVec.add_eq_or_of_and_eq_zero _ _ hand]
  ext i hi
  simp
  grind

theorem sub_aligned_lt (a : Word) : (a - aligned a).toNat < 16 := by
  have h : (a &&& 0xf).toNat < 16 := by
    rw [BitVec.toNat_and]
    exact Nat.and_lt_two_pow (n := 4) _ (by decide)
  have hadd := and_not_add_and a 0xf
  rw [aligned]
  bv_omega

/-- The processor as an interrupt begins: the gate gives the handler, the selectors, the flags and a stack. -/
structure Gate where
  handler : Word
  stack : Word
  cs : BitVec 16
  ss : BitVec 16
  flags : Word

/-- The stack frame of an interrupt, which `iretq` takes. -/
def Regs.frame (r : Regs) : List Word :=
  [r.rip, (r.seg .cs).setWidth 64, r.rflags, r.gpr .rsp, (r.seg .ss).setWidth 64]

/-- The processor before the frame is pushed. -/
def State.entered (s : State) (g : Gate) : State :=
  { s.set .rsp (aligned g.stack) with
    rip := g.handler, rflags := g.flags, seg := Function.update (Function.update s.seg .cs g.cs) .ss g.ss }

@[simp] theorem State.entered_rsp {g : Gate} : (s.entered g).gpr .rsp = aligned g.stack := by
  simp [State.entered, State.set]

theorem State.entered_gpr {g : Gate} {r : Reg} (h : r ≠ .rsp) : (s.entered g).gpr r = s.gpr r := by
  simp [State.entered, State.set, h]

/-- An interrupt. -/
def State.interrupted (s : State) (g : Gate) : State := (s.entered g).pushAll s.frame

/-! ### System calls -/

/-- What a processor is told about system calls: where they go, and with which selectors and flags. -/
structure SyscallGate where
  /-- `IA32_STAR`. -/
  star : Word
  /-- `IA32_LSTAR`. -/
  lstar : Word
  /-- `IA32_FMASK`. -/
  fmask : Word

/-- The selectors that `syscall` loads. -/
def SyscallGate.kernelCS (g : SyscallGate) : BitVec 16 := g.star.extractLsb' 32 16 &&& 0xfffc

def SyscallGate.kernelSS (g : SyscallGate) : BitVec 16 := g.star.extractLsb' 32 16 + 8

/-- The selectors that `o64 sysret` loads. -/
def SyscallGate.userCS (g : SyscallGate) : BitVec 16 := (g.star.extractLsb' 48 16 + 16) ||| 3

def SyscallGate.userSS (g : SyscallGate) : BitVec 16 := (g.star.extractLsb' 48 16 + 8) ||| 3

/-- The instruction `syscall`: `rip` is where the program goes on. -/
def State.syscall (s : State) (g : SyscallGate) : State :=
  { (s.set .rcx s.rip).set .r11 s.rflags with
    rip := g.lstar, rflags := s.rflags &&& ~~~g.fmask,
    seg := Function.update (Function.update s.seg .cs g.kernelCS) .ss g.kernelSS }

theorem State.syscall_gpr {g : SyscallGate} {r : Reg} (h : r ≠ .rcx) (h' : r ≠ .r11) :
    (s.syscall g).gpr r = s.gpr r := by
  simp [State.syscall, State.set, h, h']

@[simp] theorem State.syscall_rcx {g : SyscallGate} : (s.syscall g).gpr .rcx = s.rip := by
  simp [State.syscall, State.set]

@[simp] theorem State.syscall_r11 {g : SyscallGate} : (s.syscall g).gpr .r11 = s.rflags := by
  simp [State.syscall, State.set]

end Lib.X86
