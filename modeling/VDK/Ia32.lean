import VDK.ByteMemory

/-!
# The stack of a 32-bit processor

Registers, flags and flat memory of a processor in ring 0, with the instructions
straight-line entry and exit code is made of. Code is a list of instructions, so
`eip` is an address only where control enters or leaves such a list. What an
entry has pushed and a return pops again is one relation, `Pushed`.
-/
namespace Ia32

open ByteMem

inductive Reg where
  | eax | ecx | edx | ebx | esp | ebp | esi | edi
  deriving DecidableEq

inductive Seg where
  | ds | es | fs | gs
  deriving DecidableEq

/-- EFLAGS. Bit 1 is fixed and always set. -/
structure Flags where
  word : UInt32
  fixed : word ||| 2 = word

namespace Flags

@[ext] theorem ext {f g : Flags} (h : f.word = g.word) : f = g := by
  cases f
  cases g
  cases h
  rfl

def ofWord (w : UInt32) : Flags := ⟨w ||| 2, by rw [UInt32.or_assoc, UInt32.or_self]⟩

@[simp] theorem ofWord_word (f : Flags) : ofWord f.word = f := Flags.ext f.fixed

theorem word_ne_zero (f : Flags) : f.word ≠ 0 := by
  intro zero
  have fixed := f.fixed
  rw [zero] at fixed
  exact absurd fixed (by decide)

def put (f : Flags) (mask : UInt32) (b : Bool) : Flags :=
  ofWord (if b then f.word ||| mask else f.word &&& ~~~mask)

/-- The arithmetic flags behind an addition: CF, PF, AF, ZF, SF and OF. -/
def afterAdd (f : Flags) (a b : UInt32) : Flags :=
  let sum := a + b
  let evenOnes := (List.range 8).countP (fun i => sum.toNat.testBit i) % 2 = 0
  let sameSign := (a.toNat < 2 ^ 31) = (b.toNat < 2 ^ 31)
  let newSign := (a.toNat < 2 ^ 31) ≠ (sum.toNat < 2 ^ 31)
  let carries := f.put 0x1 (2 ^ 32 ≤ a.toNat + b.toNat) |>.put 0x10 (16 ≤ a.toNat % 16 + b.toNat % 16)
  carries.put 0x4 evenOnes |>.put 0x40 (sum = 0) |>.put 0x80 (2 ^ 31 ≤ sum.toNat)
    |>.put 0x800 (sameSign ∧ newSign)

end Flags

/-- `w` with its low 16 bits replaced. -/
def withLow (w : UInt32) (v : UInt16) : UInt32 := UInt32.ofNat (w.toNat / 65536 * 65536 + v.toNat)

@[simp] theorem withLow_low (w : UInt32) (v : UInt16) : (withLow w v).toUInt16 = v := by
  have bound := v.toNat_lt
  apply UInt16.toNat_inj.mp
  simp only [withLow, UInt32.toUInt16_ofNat', UInt16.toNat_ofNat']
  omega

structure Cpu where
  regs : Reg → UInt32
  segs : Seg → UInt16
  cs : UInt16
  ss : UInt16
  eip : UInt32
  eflags : Flags
  mem : Mem

namespace Cpu

def set (m : Cpu) (r : Reg) (w : UInt32) : Cpu := { m with regs := Function.update m.regs r w }

def setSeg (m : Cpu) (g : Seg) (v : UInt16) : Cpu := { m with segs := Function.update m.segs g v }

def push (m : Cpu) (w : UInt32) : Cpu :=
  { m.set .esp (m.regs .esp - 4) with mem := m.mem.write (m.regs .esp - 4) (bytes32 w) }

/-- The word the stack pointer points at. -/
def top (m : Cpu) : UInt32 := m.mem.load32 (m.regs .esp)

def skip (m : Cpu) : Cpu := m.set .esp (m.regs .esp + 4)

/-- The register is written last: `pop esp` leaves the popped word in `esp`. -/
def pop (m : Cpu) (r : Reg) : Cpu := m.skip.set r m.top

/-- `popa` steps over the saved stack pointer. -/
def popSaved (m : Cpu) (r : Reg) : Cpu := if r = .esp then m.skip else m.pop r

/-- Push a return address and enter the function at `target`. -/
def call (m : Cpu) (target back : UInt32) : Cpu := { m.push back with eip := target }

/-- Enter an interrupt gate from ring 0: EFLAGS, CS and EIP are pushed, then the
error code if there is one; IF, TF, NT, RF and VM are cleared. -/
def deliver (m : Cpu) (selector : UInt16) (handler : UInt32) (code : Option UInt32) : Cpu :=
  { ([m.eflags.word, m.cs.toUInt32, m.eip] ++ code.toList).foldl push m with
    cs := selector
    eip := handler
    eflags := m.eflags.put 0x34300 false }

end Cpu

def pushaOrder : List Reg := [.eax, .ecx, .edx, .ebx, .esp, .ebp, .esi, .edi]

inductive Instr where
  | cli
  | sti
  | pushImm (w : UInt32)
  | push (r : Reg)
  | pop (r : Reg)
  | pusha
  | popa
  /-- `mov r16, sreg` -/
  | movFromSeg (r : Reg) (g : Seg)
  /-- `mov r16, imm16` -/
  | movLow (r : Reg) (v : UInt16)
  /-- `mov sreg, r16` -/
  | movToSeg (g : Seg) (r : Reg)
  /-- `mov ss, r16` -/
  | movToSs (r : Reg)
  | addImm (r : Reg) (w : UInt32)
  | iret
  deriving DecidableEq

/-- `iret` is the return within ring 0, which pops three words. -/
def Instr.exec : Instr → Cpu → Cpu
  | .cli, m => { m with eflags := m.eflags.put 0x200 false }
  | .sti, m => { m with eflags := m.eflags.put 0x200 true }
  | .pushImm w, m => m.push w
  | .push r, m => m.push (m.regs r)
  | .pop r, m => m.pop r
  | .pusha, m => (pushaOrder.map m.regs).foldl Cpu.push m
  | .popa, m => pushaOrder.reverse.foldl Cpu.popSaved m
  | .movFromSeg r g, m => m.set r (withLow (m.regs r) (m.segs g))
  | .movLow r v, m => m.set r (withLow (m.regs r) v)
  | .movToSeg g r, m => m.setSeg g (m.regs r).toUInt16
  | .movToSs r, m => { m with ss := (m.regs r).toUInt16 }
  | .addImm r w, m => { m.set r (m.regs r + w) with eflags := m.eflags.afterAdd (m.regs r) w }
  | .iret, m =>
      { m.skip.skip.skip with
        eip := m.top
        cs := m.skip.top.toUInt16
        eflags := .ofWord m.skip.skip.top }

/-- The instruction loads flags, segments or registers other than the stack pointer. -/
def Instr.loads : Instr → Bool
  | .cli | .sti | .movToSeg _ _ | .movToSs _ => true
  | .movFromSeg r _ | .movLow r _ => r ≠ .esp
  | _ => false

def Instr.loadsStack : Instr → Bool
  | .movToSs _ => true
  | _ => false

def run (code : List Instr) (m : Cpu) : Cpu := code.foldl (fun m i => i.exec m) m

/-- What a function called by the C convention does until it returns: it pops its
return address and keeps the registers that belong to its caller and `kept` bytes
behind its `args` argument words. The argument words are its own to change. -/
structure Cdecl (called after : Cpu) (args kept : Nat) : Prop where
  esp : after.regs .esp = called.regs .esp + 4
  eip : after.eip = called.top
  cs : after.cs = called.cs
  ss : after.ss = called.ss
  saved : ∀ r ∈ [Reg.ebx, .ebp, .esi, .edi], after.regs r = called.regs r
  frame : called.mem.Agree after.mem (called.regs .esp + 4 + UInt32.ofNat (4 * args)) kept

theorem run_append (xs ys : List Instr) (m : Cpu) : run (xs ++ ys) m = run ys (run xs m) :=
  List.foldl_append

theorem run_cons (i : Instr) (code : List Instr) (m : Cpu) :
    run (i :: code) m = run code (i.exec m) := rfl

section Updates

variable (m : Cpu) (w : UInt32)

@[simp] theorem set_self (r : Reg) : (m.set r w).regs r = w := Function.update_self _ _ _

theorem set_of_ne {r q : Reg} (h : q ≠ r) : (m.set r w).regs q = m.regs q :=
  Function.update_of_ne h _ _

@[simp] theorem push_esp : (m.push w).regs .esp = m.regs .esp - 4 :=
  set_self m (m.regs .esp - 4) .esp

theorem push_regs {r : Reg} (h : r ≠ .esp) : (m.push w).regs r = m.regs r := set_of_ne m _ h

@[simp] theorem push_mem :
    (m.push w).mem = m.mem.write (m.regs .esp - 4) (bytes32 w) := rfl

@[simp] theorem skip_esp : m.skip.regs .esp = m.regs .esp + 4 :=
  set_self m (m.regs .esp + 4) .esp

@[simp] theorem skip_mem : m.skip.mem = m.mem := rfl

theorem skip_regs {r : Reg} (h : r ≠ .esp) : m.skip.regs r = m.regs r := set_of_ne m _ h

end Updates

/-- On top of the stack of `s` the machine has pushed `ws`, the last word first,
and `n` bytes of the stack of `s` are as they were. -/
structure Pushed (s m : Cpu) (ws : List UInt32) (n : Nat) : Prop where
  esp : m.regs .esp + UInt32.ofNat (4 * ws.length) = s.regs .esp
  words : m.mem.HoldsWords (m.regs .esp) ws
  below : s.mem.Agree m.mem (s.regs .esp) n

namespace Pushed

variable {s m : Cpu} {ws : List UInt32} {n : Nat}

theorem refl (s : Cpu) (n : Nat) : Pushed s s [] n :=
  ⟨UInt32.add_zero _, trivial, fun _ _ => rfl⟩

/-- A stretch that returns the stack pointer and writes neither the pushed words
nor the stack below them. -/
theorem kept (h : Pushed s m ws n) {r : Cpu} (esp : r.regs .esp = m.regs .esp)
    (same : m.mem.Agree r.mem (m.regs .esp) (4 * ws.length + n)) : Pushed s r ws n := by
  refine ⟨esp.symm ▸ h.esp, esp.symm ▸ h.words.congr (same.take (Nat.le_add_right _ _)), ?_⟩
  have rest := same.drop
  rw [h.esp] at rest
  exact h.below.trans rest

theorem push (h : Pushed s m ws n) (w : UInt32) (fits : 4 * (ws.length + 1) + n ≤ 2 ^ 32) :
    Pushed s (m.push w) (w :: ws) n := by
  have same : m.mem.Agree (m.push w).mem (m.regs .esp) (4 * ws.length + n) :=
    Mem.agree_write_below m.mem (m.regs .esp) w (by omega)
  have above : (m.push w).regs .esp + 4 = m.regs .esp := by
    rw [push_esp, UInt32.sub_add_cancel]
  refine ⟨?_, ⟨?_, ?_⟩, ?_⟩
  · rw [List.length_cons, add_ofNat_succ, above, h.esp]
  · rw [push_esp, push_mem]
    exact Mem.load32_write m.mem _ w
  · rw [above]
    exact h.words.congr (same.take (Nat.le_add_right _ _))
  · have rest := same.drop
    rw [h.esp] at rest
    exact h.below.trans rest

theorem pushAll (h : Pushed s m ws n) (vs : List UInt32)
    (fits : 4 * (vs.length + ws.length) + n ≤ 2 ^ 32) :
    Pushed s (vs.foldl Cpu.push m) (vs.reverse ++ ws) n := by
  induction vs generalizing m ws with
  | nil => exact h
  | cons v vs ih =>
      rw [List.length_cons] at fits
      have first := h.push v (by omega)
      have all := ih first (by rw [List.length_cons]; omega)
      rwa [List.reverse_cons, List.append_assoc]

theorem skip {w : UInt32} (h : Pushed s m (w :: ws) n) : Pushed s m.skip ws n := by
  refine ⟨?_, ?_, h.below⟩
  · rw [skip_esp, ← add_ofNat_succ]
    exact h.esp
  · rw [skip_esp, skip_mem]
    exact h.words.2

theorem top {w : UInt32} (h : Pushed s m (w :: ws) n) : m.top = w := h.words.1

/-- Only the stack pointer and the memory matter. -/
theorem congr (h : Pushed s m ws n) {r : Cpu} (esp : r.regs .esp = m.regs .esp)
    (mem : r.mem = m.mem) : Pushed s r ws n :=
  h.kept esp fun _ _ => congrFun mem _

theorem pop {w : UInt32} (h : Pushed s m (w :: ws) n) {r : Reg} (other : r ≠ .esp) :
    Pushed s (m.pop r) ws n :=
  h.skip.congr (set_of_ne _ _ other.symm) rfl

theorem loads (h : Pushed s m ws n) {i : Instr} (loads : i.loads = true) :
    Pushed s (i.exec m) ws n := by
  cases i with
  | cli => exact h.congr rfl rfl
  | sti => exact h.congr rfl rfl
  | movFromSeg r g => exact h.congr (set_of_ne m _ (of_decide_eq_true loads).symm) rfl
  | movLow r v => exact h.congr (set_of_ne m _ (of_decide_eq_true loads).symm) rfl
  | movToSeg g r => exact h.congr rfl rfl
  | movToSs r => exact h.congr rfl rfl
  | pushImm w => exact Bool.noConfusion loads
  | push r => exact Bool.noConfusion loads
  | pop r => exact Bool.noConfusion loads
  | pusha => exact Bool.noConfusion loads
  | popa => exact Bool.noConfusion loads
  | addImm r w => exact Bool.noConfusion loads
  | iret => exact Bool.noConfusion loads

theorem run_loads (h : Pushed s m ws n) (code : List Instr)
    (loads : ∀ i ∈ code, i.loads = true) : Pushed s (run code m) ws n := by
  induction code generalizing m with
  | nil => exact h
  | cons i code ih =>
      exact ih (h.loads (loads i List.mem_cons_self)) fun j member =>
        loads j (List.mem_cons_of_mem _ member)

end Pushed

theorem pushAll_ss (vs : List UInt32) (m : Cpu) : (vs.foldl Cpu.push m).ss = m.ss := by
  induction vs generalizing m with
  | nil => rfl
  | cons v vs ih => exact ih (m.push v)

theorem popSaved_ss (rs : List Reg) (m : Cpu) : (rs.foldl Cpu.popSaved m).ss = m.ss := by
  induction rs generalizing m with
  | nil => rfl
  | cons r rs ih =>
      refine (ih (m.popSaved r)).trans ?_
      unfold Cpu.popSaved
      split
      · rfl
      · rfl

/-- Code that does not load the stack segment keeps it. -/
theorem run_ss {code : List Instr} (keeps : ∀ i ∈ code, i.loadsStack = false) (m : Cpu) :
    (run code m).ss = m.ss := by
  induction code generalizing m with
  | nil => rfl
  | cons i code ih =>
      rw [run_cons, ih fun j member => keeps j (List.mem_cons_of_mem _ member)]
      have stays := keeps i List.mem_cons_self
      cases i with
      | pusha => exact pushAll_ss _ m
      | popa => exact popSaved_ss _ m
      | movToSs r => exact Bool.noConfusion stays
      | _ => rfl

@[simp] theorem pushAll_segs (vs : List UInt32) (m : Cpu) :
    (vs.foldl Cpu.push m).segs = m.segs := by
  induction vs generalizing m with
  | nil => rfl
  | cons v vs ih => exact ih (m.push v)

theorem pushAll_regs (vs : List UInt32) (m : Cpu) {r : Reg} (h : r ≠ .esp) :
    (vs.foldl Cpu.push m).regs r = m.regs r := by
  induction vs generalizing m with
  | nil => rfl
  | cons v vs ih => exact (ih (m.push v)).trans (push_regs m v h)

theorem popSaved_run {s m : Cpu} {ws : List UInt32} {n : Nat} {f : Reg → UInt32} (rs : List Reg)
    (h : Pushed s m (rs.map f ++ ws) n) :
    Pushed s (rs.foldl Cpu.popSaved m) ws n ∧ (rs.foldl Cpu.popSaved m).segs = m.segs ∧
      ∀ r, r ≠ .esp → (rs.foldl Cpu.popSaved m).regs r = if r ∈ rs then f r else m.regs r := by
  induction rs generalizing m with
  | nil => exact ⟨h, rfl, fun r _ => rfl⟩
  | cons q rs ih =>
      by_cases stack : q = .esp
      · have step : m.popSaved q = m.skip := if_pos stack
        obtain ⟨rest, segs, regs⟩ := ih (m := m.popSaved q) (step ▸ h.skip)
        refine ⟨rest, segs.trans (step ▸ rfl), fun r other => (regs r other).trans ?_⟩
        have apart : r ≠ q := fun same => other (same.trans stack)
        rw [step, skip_regs m other]
        simp only [List.mem_cons, apart, false_or]
      · have step : m.popSaved q = m.pop q := if_neg stack
        obtain ⟨rest, segs, regs⟩ := ih (m := m.popSaved q) (step ▸ h.pop stack)
        refine ⟨rest, segs.trans (step ▸ rfl), fun r other => (regs r other).trans ?_⟩
        by_cases same : r = q
        · subst same
          have value : (m.pop r).regs r = f r := (set_self _ _ r).trans h.top
          rw [step, value]
          simp only [List.mem_cons, true_or, if_true, ite_self]
        · have value : (m.pop q).regs r = m.regs r := (set_of_ne _ _ same).trans (skip_regs m other)
          rw [step, value]
          simp only [List.mem_cons, same, false_or]

namespace Pushed

variable {s m : Cpu} {ws : List UInt32} {n : Nat}

theorem span (h : Pushed s m ws n) (fits : 4 * ws.length < 2 ^ 32) :
    (s.regs .esp - m.regs .esp).toNat = 4 * ws.length := by
  rw [← h.esp, UInt32.add_comm, UInt32.add_sub_cancel, UInt32.toNat_ofNat']
  exact Nat.mod_eq_of_lt fits

/-- A function that keeps its argument words as well pops its return address alone. -/
theorem returned {back : UInt32} {args : List UInt32} (h : Pushed s m (back :: (args ++ ws)) n)
    {after : Cpu} (returns : Cdecl m after args.length (4 * ws.length + n))
    (own : m.mem.Agree after.mem (m.regs .esp + 4) (4 * args.length)) :
    Pushed s after (args ++ ws) n := by
  have frame := own.append returns.frame
  rw [← Nat.add_assoc, ← Nat.mul_add, ← List.length_append] at frame
  exact h.skip.kept (returns.esp.trans (skip_esp m).symm) ((skip_esp m).symm ▸ frame)

/-- `pop esp` of the address of what lies under it is a plain pop. -/
theorem pop_esp {w : UInt32} (h : Pushed s m (w :: ws) n) (under : w = m.regs .esp + 4) :
    Pushed s (m.pop .esp) ws n := by
  refine h.skip.congr ?_ rfl
  rw [skip_esp, ← under, ← h.top]
  exact set_self m.skip m.top .esp

theorem add_esp {w v : UInt32} (h : Pushed s m (w :: v :: ws) n) :
    Pushed s (Instr.exec (.addImm .esp 8) m) ws n := by
  refine h.skip.skip.congr ?_ rfl
  rw [skip_esp, skip_esp, UInt32.add_assoc]
  exact set_self m (m.regs .esp + 8) .esp

end Pushed

/-- What `iret` finds: the pushed words of the interrupted state. -/
theorem iret_restores {s m : Cpu} {n : Nat}
    (h : Pushed s m [s.eip, s.cs.toUInt32, s.eflags.word] n) :
    Pushed s (Instr.exec .iret m) [] n ∧ (Instr.exec .iret m).eip = s.eip ∧
      (Instr.exec .iret m).cs = s.cs ∧ (Instr.exec .iret m).eflags = s.eflags := by
  refine ⟨h.skip.skip.skip.congr rfl rfl, h.top, ?_, ?_⟩
  · exact (congrArg UInt32.toUInt16 h.skip.top).trans (UInt16.toUInt16_toUInt32 _)
  · exact (congrArg Flags.ofWord h.skip.skip.top).trans (Flags.ofWord_word _)

theorem iret_regs (m : Cpu) {r : Reg} (h : r ≠ .esp) : (Instr.exec .iret m).regs r = m.regs r :=
  (skip_regs m.skip.skip h).trans ((skip_regs m.skip h).trans (skip_regs m h))

end Ia32
