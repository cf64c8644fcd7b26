import VDK.Ia32

/-!
# Interrupt stubs and the frame they build

Every stub pushes its vector, and a zero where it expects no error code, and jumps
to one of two shared tails, which save the registers and call the C handler. The
handler reads what lies on the stack as a `REGISTERS` record.
-/
namespace VDK

open ByteMem Ia32

section Tails

def loadKernelData : List Instr :=
  [.movLow .eax 0x10, .movToSeg .ds .eax, .movToSeg .es .eax, .movToSeg .fs .eax, .movToSeg .gs .eax]

/-- `exception_handler` up to its call. -/
def exceptionHandlerEntry : List Instr :=
  [.pusha, .movFromSeg .eax .ds, .push .eax] ++ loadKernelData

def restoreData : List Instr :=
  [.movToSeg .ds .ebx, .movToSeg .es .ebx, .movToSeg .fs .ebx, .movToSeg .gs .ebx]

/-- `exception_handler` behind its call. -/
def exceptionHandlerExit : List Instr :=
  [.pop .ebx] ++ restoreData ++ [.popa, .addImm .esp 0x8, .sti, .iret]

/-- `irq_handler` up to its call. -/
def irqHandlerEntry : List Instr :=
  [.pusha, .movFromSeg .eax .ds, .push .eax] ++ loadKernelData ++ [.push .esp]

/-- `irq_handler` behind its call. -/
def irqHandlerExit : List Instr :=
  [.pop .esp, .pop .ebx] ++ restoreData ++ [.popa, .addImm .esp 0x8, .sti, .iret]

/-- The shared tail a stub jumps to. -/
inductive Tail where
  | exceptionHandler
  | irqHandler
  deriving DecidableEq

def Tail.entry : Tail → List Instr
  | .exceptionHandler => exceptionHandlerEntry
  | .irqHandler => irqHandlerEntry

def Tail.exit : Tail → List Instr
  | .exceptionHandler => exceptionHandlerExit
  | .irqHandler => irqHandlerExit

/-- The argument words the tail pushes. The record that `isr_exception_handler` takes by value
is the saved frame in place. -/
def Tail.args : Tail → Nat
  | .exceptionHandler => 0
  | .irqHandler => 1

/-- Where the called C function finds its `REGISTERS`: `isr_exception_handler` takes
the record by value, `isr_irq_handler` takes a pointer to it. -/
def Tail.registersAt : Tail → Cpu → UInt32
  | .exceptionHandler, called => called.regs .esp + 4
  | .irqHandler, called => called.mem.load32 (called.regs .esp + 4)

end Tails

section Stubs

structure Stub where
  own : List Instr
  jmp : Tail
  deriving DecidableEq

/-- The processor when the C handler is called: the gate is entered with `code`, the
stub and the entry of its tail run, and the tail calls the function at `handler`. -/
def Stub.called (stub : Stub) (s : Cpu) (base : UInt32) (code : Option UInt32)
    (handler back : UInt32) : Cpu :=
  (run stub.jmp.entry (run stub.own (s.deliver 8 base code))).call handler back

/-- A stub that pushes a default error code. -/
def bareStub (n : UInt32) : Stub := ⟨[.cli, .pushImm 0, .pushImm n], .exceptionHandler⟩

/-- A stub that leaves the error code to the processor. -/
def codeStub (n : UInt32) : Stub := ⟨[.cli, .pushImm n], .exceptionHandler⟩

/-- The macro `IRQ`. -/
def irqStub (n : UInt32) : Stub := ⟨[.cli, .pushImm 0, .pushImm n], .irqHandler⟩

def exception0 : Stub := bareStub 0
def exception1 : Stub := bareStub 1
def exception2 : Stub := bareStub 2
def exception3 : Stub := bareStub 3
def exception4 : Stub := bareStub 4
def exception5 : Stub := bareStub 5
def exception6 : Stub := bareStub 6
def exception7 : Stub := bareStub 7
def exception8 : Stub := codeStub 8
def exception9 : Stub := bareStub 9
def exception10 : Stub := codeStub 10
def exception11 : Stub := codeStub 11
def exception12 : Stub := codeStub 12
def exception13 : Stub := codeStub 13
def exception14 : Stub := codeStub 14
def exception15 : Stub := bareStub 15
def exception16 : Stub := bareStub 16
def exception17 : Stub := bareStub 17
def exception18 : Stub := bareStub 18
def exception19 : Stub := bareStub 19
def exception20 : Stub := bareStub 20
def exception21 : Stub := bareStub 21
def exception22 : Stub := bareStub 22
def exception23 : Stub := bareStub 23
def exception24 : Stub := bareStub 24
def exception25 : Stub := bareStub 25
def exception26 : Stub := bareStub 26
def exception27 : Stub := bareStub 27
def exception28 : Stub := bareStub 28
def exception29 : Stub := bareStub 29
def exception30 : Stub := bareStub 30
def exception31 : Stub := bareStub 31
def exception128 : Stub := bareStub 128

def irq0 : Stub := irqStub 32
def irq1 : Stub := irqStub 33
def irq2 : Stub := irqStub 34
def irq3 : Stub := irqStub 35
def irq4 : Stub := irqStub 36
def irq5 : Stub := irqStub 37
def irq6 : Stub := irqStub 38
def irq7 : Stub := irqStub 39
def irq8 : Stub := irqStub 40
def irq9 : Stub := irqStub 41
def irq10 : Stub := irqStub 42
def irq11 : Stub := irqStub 43
def irq12 : Stub := irqStub 44
def irq13 : Stub := irqStub 45
def irq14 : Stub := irqStub 46
def irq15 : Stub := irqStub 47

/-- The entries `idt_init` makes, each an interrupt gate with selector 8. -/
def idtEntries : List (UInt8 × Stub) :=
  [(0, exception0), (1, exception1), (2, exception2), (3, exception3), (4, exception4),
    (5, exception5), (6, exception6), (7, exception7), (8, exception8), (9, exception9),
    (10, exception10), (11, exception11), (12, exception12), (13, exception13),
    (14, exception14), (15, exception15), (16, exception16), (17, exception17),
    (18, exception18), (19, exception19), (20, exception20), (21, exception21),
    (22, exception22), (23, exception23), (24, exception24), (25, exception25),
    (26, exception26), (27, exception27), (28, exception28), (29, exception29),
    (30, exception30), (31, exception31), (32, irq0), (33, irq1), (34, irq2), (35, irq3),
    (36, irq4), (37, irq5), (38, irq6), (39, irq7), (40, irq8), (41, irq9), (42, irq10),
    (43, irq11), (44, irq12), (45, irq13), (46, irq14), (47, irq15), (128, exception128)]

end Stubs

section Registers

structure Registers where
  ds : UInt32
  edi : UInt32
  esi : UInt32
  ebp : UInt32
  esp : UInt32
  ebx : UInt32
  edx : UInt32
  ecx : UInt32
  eax : UInt32
  intNo : UInt32
  errCode : UInt32
  eip : UInt32
  cs : UInt32
  eflags : UInt32
  useresp : UInt32
  ss : UInt32

def Registers.read (mem : Mem) (p : UInt32) : Registers where
  ds := mem.load32 p
  edi := mem.load32 (p + 4)
  esi := mem.load32 (p + 8)
  ebp := mem.load32 (p + 12)
  esp := mem.load32 (p + 16)
  ebx := mem.load32 (p + 20)
  edx := mem.load32 (p + 24)
  ecx := mem.load32 (p + 28)
  eax := mem.load32 (p + 32)
  intNo := mem.load32 (p + 36)
  errCode := mem.load32 (p + 40)
  eip := mem.load32 (p + 44)
  cs := mem.load32 (p + 48)
  eflags := mem.load32 (p + 52)
  useresp := mem.load32 (p + 56)
  ss := mem.load32 (p + 60)

/-- The words an entry from ring 0 finds pushed by the processor. -/
def gateWords (s : Cpu) (code : Option UInt32) : List UInt32 :=
  code.toList ++ [s.eip, s.cs.toUInt32, s.eflags.word]

/-- The words a tail pushes: the data segment selector and the registers. Only `sp`,
which stands for the stack pointer, is not the interrupted value. -/
def tailWords (s : Cpu) (sp : UInt32) : List UInt32 :=
  withLow (s.regs .eax) (s.segs .ds) ::
    pushaOrder.reverse.map (Function.update s.regs .esp sp)

/-- Nothing but the stack pointer, the flags and the stack has changed. -/
structure SameData (s m : Cpu) : Prop where
  regs : ∀ r, r ≠ .esp → m.regs r = s.regs r
  segs : m.segs = s.segs

theorem SameData.pushAll {s m : Cpu} (h : SameData s m) (vs : List UInt32) :
    SameData s (vs.foldl Cpu.push m) :=
  ⟨fun r other => (pushAll_regs vs m other).trans (h.regs r other), (pushAll_segs vs m).trans h.segs⟩

theorem deliver_pushed (s : Cpu) (base : UInt32) (code : Option UInt32) (n : Nat)
    (fits : 4 * (gateWords s code).length + n ≤ 2 ^ 32) :
    Pushed s (s.deliver 8 base code) (gateWords s code) n ∧ SameData s (s.deliver 8 base code) := by
  have words : gateWords s code =
      ([s.eflags.word, s.cs.toUInt32, s.eip] ++ code.toList).reverse ++ [] := by
    cases code with
    | none => rfl
    | some e => rfl
  have length : ([s.eflags.word, s.cs.toUInt32, s.eip] ++ code.toList).length =
      (gateWords s code).length := by
    rw [words, List.append_nil, List.length_reverse]
  have same := SameData.pushAll ⟨fun r _ => rfl, rfl⟩ (m := s) (s := s)
    ([s.eflags.word, s.cs.toUInt32, s.eip] ++ code.toList)
  refine ⟨?_, same.regs, same.segs⟩
  rw [words]
  exact ((Pushed.refl s n).pushAll _ (by rw [length]; exact fits)).congr rfl rfl

theorem own_pushed {s m : Cpu} {ws : List UInt32} {n : Nat} (h : Pushed s m ws n)
    (same : SameData s m) (vs : List UInt32) (fits : 4 * (vs.length + ws.length) + n ≤ 2 ^ 32) :
    Pushed s (run (.cli :: vs.map .pushImm) m) (vs.reverse ++ ws) n ∧
      SameData s (run (.cli :: vs.map .pushImm) m) := by
  have code : run (.cli :: vs.map .pushImm) m = vs.foldl Cpu.push (Instr.exec .cli m) := by
    simp only [run, List.foldl_cons, List.foldl_map]
    rfl
  rw [code]
  exact ⟨(h.congr (r := Instr.exec .cli m) rfl rfl).pushAll vs fits,
    SameData.pushAll (m := Instr.exec .cli m) ⟨same.regs, same.segs⟩ vs⟩

/-- Both tails first save the data segment selector and the registers. -/
theorem entry_pushed {s m : Cpu} {ws : List UInt32} {n : Nat} (h : Pushed s m ws n)
    (same : SameData s m) (fits : 4 * (9 + ws.length) + n ≤ 2 ^ 32) :
    Pushed s (run exceptionHandlerEntry m) (tailWords s (m.regs .esp) ++ ws) n := by
  have values : (pushaOrder.map m.regs).reverse =
      pushaOrder.reverse.map (Function.update s.regs .esp (m.regs .esp)) := by
    rw [← List.map_reverse]
    apply List.map_congr_left
    intro r _
    by_cases stack : r = .esp
    · rw [stack, Function.update_self]
    · rw [Function.update_of_ne stack, same.regs r stack]
  have count : (pushaOrder.map m.regs).length = 8 := rfl
  have saved := h.pushAll (pushaOrder.map m.regs) (by rw [count]; omega)
  have data := SameData.pushAll same (pushaOrder.map m.regs)
  rw [exceptionHandlerEntry, run_append, run_cons, run_cons, run_cons,
    show Instr.exec .pusha m = (pushaOrder.map m.regs).foldl Cpu.push m from rfl]
  generalize (pushaOrder.map m.regs).foldl Cpu.push m = saves at saved data ⊢
  -- the selector goes through `ax`, which keeps the upper half of `eax`
  have value : (Instr.exec (.movFromSeg .eax .ds) saves).regs .eax =
      withLow (s.regs .eax) (s.segs .ds) :=
    (set_self _ _ _).trans
      (congrArg₂ withLow (data.regs .eax (by decide)) (congrFun data.segs .ds))
  have pushed := (saved.loads (i := .movFromSeg .eax .ds) (by decide)).push
    (withLow (s.regs .eax) (s.segs .ds)) (by
      rw [List.length_append, List.length_reverse, count]
      omega)
  rw [values] at pushed
  refine Pushed.run_loads ?_ _ (by decide)
  change Pushed s (Cpu.push _ _) _ n
  rw [value]
  exact pushed

/-- The pointer `irq_handler` pushes, under the return address. -/
def Tail.argWords : Tail → Cpu → List UInt32
  | .exceptionHandler, _ => []
  | .irqHandler, called => [called.regs .esp + 8]

@[simp] theorem Tail.length_argWords (jmp : Tail) (called : Cpu) :
    (jmp.argWords called).length = jmp.args := by
  cases jmp with
  | exceptionHandler => rfl
  | irqHandler => rfl

/-- `push esp` pushes the address of what lies under it. -/
theorem push_esp_pushed {s m : Cpu} {ws : List UInt32} {n : Nat} (h : Pushed s m ws n)
    (handler back : UInt32) (fits : 4 * (2 + ws.length) + n ≤ 2 ^ 32) :
    Pushed s ((m.push (m.regs .esp)).call handler back)
      (back :: (((m.push (m.regs .esp)).call handler back).regs .esp + 8) :: ws) n := by
  have pointer := h.push (m.regs .esp) (by omega)
  have called := pointer.push back (by rw [List.length_cons]; omega)
  have under : ((m.push (m.regs .esp)).call handler back).regs .esp + 8 = m.regs .esp := by
    change ((m.push (m.regs .esp)).push back).regs .esp + 8 = m.regs .esp
    rw [push_esp, push_esp, show (8 : UInt32) = 4 + 4 from rfl, ← UInt32.add_assoc,
      UInt32.sub_add_cancel, UInt32.sub_add_cancel]
  rw [under]
  exact called.congr rfl rfl

/-- The stack a C handler is called on: the return address, the argument of
`isr_irq_handler`, the saved registers, what the stub pushed and what the
processor pushed. -/
theorem called_pushed (vs : List UInt32) (jmp : Tail) (s : Cpu) (base : UInt32)
    (code : Option UInt32) (handler back : UInt32) (n : Nat)
    (fits : 4 * (vs.length + (gateWords s code).length + 11) + n ≤ 2 ^ 32) :
    ∃ sp, Pushed s (Stub.called ⟨.cli :: vs.map .pushImm, jmp⟩ s base code handler back)
      (back :: (jmp.argWords (Stub.called ⟨.cli :: vs.map .pushImm, jmp⟩ s base code handler back) ++
        (tailWords s sp ++ (vs.reverse ++ gateWords s code)))) n := by
  obtain ⟨gate, unchanged⟩ := deliver_pushed s base code n (by omega)
  obtain ⟨own, same⟩ := own_pushed gate unchanged vs (by omega)
  unfold Stub.called
  generalize run (.cli :: vs.map .pushImm) (s.deliver 8 base code) = ready at own same ⊢
  have entry := entry_pushed own same (by
    rw [List.length_append, List.length_reverse]
    omega)
  have length : (tailWords s (ready.regs .esp) ++ (vs.reverse ++ gateWords s code)).length =
      9 + (vs.length + (gateWords s code).length) := by
    rw [List.length_append, List.length_append, List.length_reverse,
      show (tailWords s (ready.regs .esp)).length = 9 from rfl]
  refine ⟨ready.regs .esp, ?_⟩
  cases jmp with
  | exceptionHandler => exact (entry.push back (by rw [length]; omega)).congr rfl rfl
  | irqHandler =>
      have step : run Tail.irqHandler.entry ready = Instr.exec (.push .esp)
          (run exceptionHandlerEntry ready) := run_append exceptionHandlerEntry [.push .esp] ready
      rw [step]
      exact push_esp_pushed entry handler back (by rw [length]; omega)

/-- Neither the gate nor a stub loads the stack segment. -/
theorem called_ss (vs : List UInt32) (jmp : Tail) (s : Cpu) (base : UInt32) (code : Option UInt32)
    (handler back : UInt32) :
    (Stub.called ⟨.cli :: vs.map .pushImm, jmp⟩ s base code handler back).ss = s.ss := by
  have entered : ∀ i ∈ jmp.entry, i.loadsStack = false := by
    cases jmp with
    | exceptionHandler => decide
    | irqHandler => decide
  have pushes : ∀ i ∈ Instr.cli :: vs.map .pushImm, i.loadsStack = false := by
    intro i member
    rcases List.mem_cons.mp member with rfl | rest
    · rfl
    · obtain ⟨w, _, rfl⟩ := List.mem_map.mp rest
      rfl
  exact (run_ss entered _).trans ((run_ss pushes _).trans (pushAll_ss _ s))

theorem registersAt_holds {jmp : Tail} {s called : Cpu} {back : UInt32} {ws : List UInt32} {n : Nat}
    (h : Pushed s called (back :: (jmp.argWords called ++ ws)) n) :
    called.mem.HoldsWords (jmp.registersAt called) ws := by
  cases jmp with
  | exceptionHandler => exact h.words.2
  | irqHandler =>
      have pointer : Tail.irqHandler.registersAt called = called.regs .esp + 8 := h.words.2.1
      have place : called.regs .esp + 8 = called.regs .esp + 4 + 4 := by
        rw [UInt32.add_assoc]
        rfl
      rw [pointer, place]
      exact h.words.2.2

/-- The saved registers and the data segment selector, as the record shows them. -/
structure Registers.Data (r : Registers) (s : Cpu) : Prop where
  ds : r.ds.toUInt16 = s.segs .ds
  edi : r.edi = s.regs .edi
  esi : r.esi = s.regs .esi
  ebp : r.ebp = s.regs .ebp
  ebx : r.ebx = s.regs .ebx
  edx : r.edx = s.regs .edx
  ecx : r.ecx = s.regs .ecx
  eax : r.eax = s.regs .eax

theorem read_data {mem : Mem} {p : UInt32} {s : Cpu} {sp : UInt32} {ws : List UInt32}
    (h : mem.HoldsWords p (tailWords s sp ++ ws)) : (Registers.read mem p).Data s where
  ds := (congrArg UInt32.toUInt16 h.1).trans (withLow_low _ _)
  edi := h.get (i := 1) rfl
  esi := h.get (i := 2) rfl
  ebp := h.get (i := 3) rfl
  ebx := h.get (i := 5) rfl
  edx := h.get (i := 6) rfl
  ecx := h.get (i := 7) rfl
  eax := h.get (i := 8) rfl

/-- Behind the saved registers the record takes the words as they come. -/
theorem read_gate {mem : Mem} {p : UInt32} {s : Cpu} {sp no err eip cs flags : UInt32}
    {ws : List UInt32} (h : mem.HoldsWords p (tailWords s sp ++ no :: err :: eip :: cs :: flags :: ws)) :
    (Registers.read mem p).intNo = no ∧ (Registers.read mem p).errCode = err ∧
      (Registers.read mem p).eip = eip ∧ (Registers.read mem p).cs = cs ∧
      (Registers.read mem p).eflags = flags :=
  ⟨h.get (i := 9) rfl, h.get (i := 10) rfl, h.get (i := 11) rfl, h.get (i := 12) rfl,
    h.get (i := 13) rfl⟩

end Registers

end VDK
