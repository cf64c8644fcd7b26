import VDK.InterruptStubs

/-!
# The frame a C handler reads

The processor pushes an error code for some vectors. A stub that pushes a default
code as well moves every field behind it by one word.
-/
namespace VDK

open ByteMem Ia32

/-- Which of the later exceptions a processor defines: 29 (`#VC`) and 30 (`#SX`). -/
structure Processor where
  vc : Bool
  sx : Bool

/-- The vectors the processor pushes an error code for. -/
def Processor.pushesCode (p : Processor) (v : UInt8) : Bool :=
  v = 8 || (10 ≤ v && v ≤ 14) || v = 17 || v = 21 || (p.vc && v = 29) || (p.sx && v = 30)

def Processor.code (p : Processor) (v : UInt8) (err : UInt32) : Option UInt32 :=
  if p.pushesCode v then some err else none

def Stub.registers (stub : Stub) (s : Cpu) (base : UInt32) (code : Option UInt32)
    (handler back : UInt32) : Registers :=
  Registers.read (stub.called s base code handler back).mem
    (stub.jmp.registersAt (stub.called s base code handler back))

/-- The record holds the vector, the error code and the interrupted state `s`. -/
structure Registers.Describes (r : Registers) (v : UInt8) (s : Cpu) (code : Option UInt32) :
    Prop where
  intNo : r.intNo = v.toUInt32
  errCode : r.errCode = code.getD 0
  eip : r.eip = s.eip
  cs : r.cs = s.cs.toUInt32
  eflags : r.eflags = s.eflags.word
  data : r.Data s

section Shapes

variable (s : Cpu) (base : UInt32) (handler back : UInt32)

theorem registers_hold (vs : List UInt32) (jmp : Tail) (code : Option UInt32)
    (short : vs.length ≤ 2) :
    ∃ mem p sp, Stub.registers ⟨.cli :: vs.map .pushImm, jmp⟩ s base code handler back =
        Registers.read mem p ∧
      mem.HoldsWords p (tailWords s sp ++ (vs.reverse ++ gateWords s code)) := by
  have room : (gateWords s code).length ≤ 4 := by
    cases code with
    | none => exact Nat.le_succ 3
    | some err => exact Nat.le_refl 4
  obtain ⟨sp, pushed⟩ := called_pushed vs jmp s base code handler back 0 (by omega)
  exact ⟨_, _, sp, rfl, registersAt_holds pushed⟩

/-- One word for the error code, whoever pushed it. -/
theorem describes_of_words {mem : Mem} {p sp err : UInt32} {v : UInt8} {code : Option UInt32}
    (value : err = code.getD 0)
    (h : mem.HoldsWords p (tailWords s sp ++
      [v.toUInt32, err, s.eip, s.cs.toUInt32, s.eflags.word])) :
    (Registers.read mem p).Describes v s code := by
  obtain ⟨intNo, errCode, eip, cs, eflags⟩ := read_gate h
  exact ⟨intNo, errCode.trans value, eip, cs, eflags, read_data h⟩

theorem codeStub_describes (v : UInt8) (err : UInt32) :
    ((codeStub v.toUInt32).registers s base (some err) handler back).Describes v s (some err) := by
  obtain ⟨mem, p, sp, read, words⟩ := registers_hold s base handler back [v.toUInt32]
    .exceptionHandler (some err) (Nat.le_succ 1)
  rw [show codeStub v.toUInt32 = ⟨.cli :: [v.toUInt32].map .pushImm, .exceptionHandler⟩ from rfl, read]
  exact describes_of_words s rfl words

theorem irqStub_describes (v : UInt8) :
    ((irqStub v.toUInt32).registers s base none handler back).Describes v s none := by
  obtain ⟨mem, p, sp, read, words⟩ := registers_hold s base handler back [0, v.toUInt32]
    .irqHandler none (Nat.le_refl 2)
  rw [show irqStub v.toUInt32 = ⟨.cli :: [0, v.toUInt32].map .pushImm, .irqHandler⟩ from rfl, read]
  exact describes_of_words s rfl words

theorem bareStub_describes (v : UInt8) :
    ((bareStub v.toUInt32).registers s base none handler back).Describes v s none := by
  obtain ⟨mem, p, sp, read, words⟩ := registers_hold s base handler back [0, v.toUInt32]
    .exceptionHandler none (Nat.le_refl 2)
  rw [show bareStub v.toUInt32 = ⟨.cli :: [0, v.toUInt32].map .pushImm, .exceptionHandler⟩ from rfl,
    read]
  exact describes_of_words s rfl words

/-- Two error codes: the stub's own stands in `err_code`, and the processor's, the
instruction pointer and the code segment each stand one field too far. -/
theorem bareStub_shifted (n : UInt32) (err : UInt32) :
    ((bareStub n).registers s base (some err) handler back).errCode = 0 ∧
      ((bareStub n).registers s base (some err) handler back).eip = err ∧
      ((bareStub n).registers s base (some err) handler back).cs = s.eip ∧
      ((bareStub n).registers s base (some err) handler back).eflags = s.cs.toUInt32 := by
  obtain ⟨mem, p, sp, read, words⟩ := registers_hold s base handler back [0, n]
    .exceptionHandler (some err) (Nat.le_refl 2)
  rw [show bareStub n = ⟨.cli :: [0, n].map .pushImm, .exceptionHandler⟩ from rfl, read]
  exact (read_gate words).2

/-- A shifted frame is never right: all of its fields would have to be zero, and
EFLAGS is not. -/
theorem bareStub_misdescribes (v : UInt8) (n err : UInt32) :
    ¬((bareStub n).registers s base (some err) handler back).Describes v s (some err) := by
  intro h
  obtain ⟨errCode, eip, cs, eflags⟩ := bareStub_shifted s base handler back n err
  have code : err = 0 := h.errCode.symm.trans errCode
  have pointer : s.eip = 0 := (h.eip.symm.trans eip).trans code
  have segment : s.cs.toUInt32 = 0 := (h.cs.symm.trans cs).trans pointer
  exact s.eflags.word_ne_zero ((h.eflags.symm.trans eflags).trans segment)

end Shapes

/-- The vectors whose stub pushes what the processor leaves out. -/
def Processor.Balanced (p : Processor) (v : UInt8) : Prop :=
  v ≠ 17 ∧ v ≠ 21 ∧ (p.vc = true → v ≠ 29) ∧ (p.sx = true → v ≠ 30)

instance (p : Processor) (v : UInt8) : Decidable (p.Balanced v) :=
  inferInstanceAs (Decidable (v ≠ 17 ∧ v ≠ 21 ∧ (p.vc = true → v ≠ 29) ∧ (p.sx = true → v ≠ 30)))

/-- Which stub each vector has, and whether it counts on an error code. -/
theorem idtEntries_cases (p : Processor) : ∀ entry ∈ idtEntries,
    (entry.2 = codeStub entry.1.toUInt32 ∧ p.pushesCode entry.1 = true ∧ p.Balanced entry.1) ∨
    (entry.2 = irqStub entry.1.toUInt32 ∧ p.pushesCode entry.1 = false ∧ p.Balanced entry.1) ∨
    (entry.2 = bareStub entry.1.toUInt32 ∧ (p.pushesCode entry.1 = false ↔ p.Balanced entry.1)) := by
  rcases p with ⟨vc, sx⟩
  cases vc with
  | false =>
      cases sx with
      | false => decide
      | true => decide
  | true =>
      cases sx with
      | false => decide
      | true => decide

theorem idtEntries_own : ∀ entry ∈ idtEntries,
    entry.2.own = .cli :: [entry.1.toUInt32].map .pushImm ∨
      entry.2.own = .cli :: [0, entry.1.toUInt32].map .pushImm := by decide

/-- A handler reads the interrupted state if and only if its vector is not one of
those whose stub pushes a second error code. -/
theorem frame_describes_iff (p : Processor) {v : UInt8} {stub : Stub} (entry : (v, stub) ∈ idtEntries)
    (s : Cpu) (err base handler back : UInt32) :
    (stub.registers s base (p.code v err) handler back).Describes v s (p.code v err) ↔
      p.Balanced v := by
  have coded : p.pushesCode v = true → p.code v err = some err := fun yes => if_pos yes
  have plain : p.pushesCode v = false → p.code v err = none := fun no =>
    if_neg (Bool.eq_false_iff.mp no)
  rcases idtEntries_cases p (v, stub) entry with
    ⟨shape, pushes, balanced⟩ | ⟨shape, pushes, balanced⟩ | ⟨shape, counts⟩
  · rw [coded pushes, show stub = codeStub v.toUInt32 from shape]
    exact iff_of_true (codeStub_describes s base handler back v err) balanced
  · rw [plain pushes, show stub = irqStub v.toUInt32 from shape]
    exact iff_of_true (irqStub_describes s base handler back v) balanced
  · rw [show stub = bareStub v.toUInt32 from shape]
    cases pushes : p.pushesCode v with
    | false =>
        rw [plain pushes]
        exact iff_of_true (bareStub_describes s base handler back v) (counts.mp pushes)
    | true =>
        rw [coded pushes]
        apply iff_of_false (bareStub_misdescribes s base handler back v _ err)
        intro balanced
        exact Bool.noConfusion (pushes.symm.trans (counts.mpr balanced))

/-- A processor state in the kernel's command loop. -/
def kernelCpu : Cpu where
  regs := Function.update (fun _ => 7) .esp 0x9000
  segs _ := 0x10
  cs := 8
  ss := 0x10
  eip := 0x101234
  eflags := .ofWord 0x246
  mem _ := 0

theorem frame_describes_iff_timer : ((irqStub 32).registers kernelCpu 0x100000
    (Processor.code ⟨false, false⟩ 32 0) 0x102000 0x100020).Describes 32 kernelCpu none :=
  (frame_describes_iff ⟨false, false⟩ (show (32, irq0) ∈ idtEntries by decide) kernelCpu 0 0x100000
    0x102000 0x100020).mpr (by decide)

/-- An alignment check: the handler reads the error code as the instruction pointer. -/
theorem alignment_check_shifted : (17, exception17) ∈ idtEntries ∧
    ¬(exception17.registers kernelCpu 0x100000 (Processor.code ⟨false, false⟩ 17 0)
      0x102000 0x100020).Describes 17 kernelCpu (Processor.code ⟨false, false⟩ 17 0) :=
  ⟨by decide, bareStub_misdescribes kernelCpu 0x100000 0x102000 0x100020 17 17 0⟩

end VDK
