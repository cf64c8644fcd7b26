import VDK.InterruptGates
import VDK.InterruptReturn
import VDK.IrqService
import VDK.SegmentTable

/-!
# From an interrupt line to its handler

The line's vector, the gate of the table, its stub and the record the C handler reads
all name the same interrupt, and the C handler runs on the kernel's flat segments.
-/
namespace VDK
open Atomic Fuel Kernel ByteMem Ia32 Pic

section Segments

/-- The segments a called C handler runs on: the selectors 8 and 0x10. -/
structure KernelSelectors (m : Cpu) : Prop where
  code : m.cs = 8
  data : ∀ g, m.segs g = 0x10

/-- `load_gdt` behind `lgdt`, up to its return: the data segments and the stack segment are
loaded, `eax` goes through CR0, and the far jump loads the code segment. -/
def loadGdt (cr0 : UInt32) (m : Cpu) : Cpu :=
  { (run (loadKernelData ++ [.movToSs .eax, .cli]) m).set .eax (cr0 ||| 1) with cs := 0x08 }

theorem loadKernelData_segs (m : Cpu) (g : Seg) : (run loadKernelData m).segs g = 0x10 := by
  have low := withLow_low (m.regs .eax) 0x10
  cases g with
  | ds => exact low
  | es => exact low
  | fs => exact low
  | gs => exact low

/-- Only a return loads the code segment. -/
theorem exec_cs {i : Instr} (stays : i ≠ .iret) (m : Cpu) : (i.exec m).cs = m.cs := by
  have saved : ∀ (rs : List Reg) (m : Cpu), (rs.foldl Cpu.popSaved m).cs = m.cs := by
    intro rs
    induction rs with
    | nil => exact fun m => rfl
    | cons r rs ih =>
        intro m
        refine (ih (m.popSaved r)).trans ?_
        unfold Cpu.popSaved
        split
        · rfl
        · rfl
  have pushed : ∀ (ws : List UInt32) (m : Cpu), (ws.foldl Cpu.push m).cs = m.cs := by
    intro ws
    induction ws with
    | nil => exact fun m => rfl
    | cons w ws ih => exact fun m => ih (m.push w)
  cases i with
  | pusha => exact pushed _ m
  | popa => exact saved _ m
  | iret => exact absurd rfl stays
  | _ => rfl

theorem run_cs {code : List Instr} (stays : ∀ i ∈ code, i ≠ .iret) (m : Cpu) :
    (run code m).cs = m.cs := by
  induction code generalizing m with
  | nil => rfl
  | cons i code ih =>
      rw [run_cons, ih fun j member => stays j (List.mem_cons_of_mem _ member)]
      exact exec_cs (stays i List.mem_cons_self) m

theorem loadGdt_selectors (cr0 : UInt32) (m : Cpu) :
    KernelSelectors (loadGdt cr0 m) ∧ (loadGdt cr0 m).ss = 0x10 :=
  ⟨⟨rfl, loadKernelData_segs m⟩, withLow_low (m.regs .eax) 0x10⟩

/-- A C handler is called on the kernel's segments, whatever was interrupted. -/
theorem called_selectors (own : List UInt32) (jmp : Tail) (s : Cpu) (base : UInt32)
    (code : Option UInt32) (handler back : UInt32) :
    KernelSelectors (Stub.called ⟨.cli :: own.map .pushImm, jmp⟩ s base code handler back) := by
  have entered : ∀ i ∈ jmp.entry, i ≠ .iret := by
    cases jmp with
    | exceptionHandler => decide
    | irqHandler => decide
  have pushes : ∀ i ∈ Instr.cli :: own.map .pushImm, i ≠ .iret := by
    intro i member same
    rcases List.mem_cons.mp member with first | rest
    · exact nomatch first.symm.trans same
    · obtain ⟨w, _, value⟩ := List.mem_map.mp rest
      exact nomatch value.trans same
  constructor
  · exact (run_cs entered _).trans (run_cs pushes _)
  · intro g
    have loaded := loadKernelData_segs (run [.pusha, .movFromSeg .eax .ds, .push .eax]
      (run (.cli :: own.map .pushImm) (s.deliver 8 base code))) g
    cases jmp with
    | exceptionHandler => exact loaded
    | irqHandler => exact loaded

/-- The selector stands for a flat data segment of ring 0 that can be written. -/
def FlatData (gdtr : Gdtr) (mem : Mem) (selector : UInt16) : Prop :=
  ∃ d, gdtr.select mem selector = some d ∧ d.Flat ∧ d.isWritable = true ∧ d.privilege = 0

/-- The processor finds flat segments of ring 0 in its memory, behind the code segment and the
data segments. -/
structure FlatKernel (gdtr : Gdtr) (m : Cpu) : Prop where
  code : ∃ d, gdtr.select m.mem m.cs = some d ∧ d.Flat ∧ d.isCode = true ∧ d.privilege = 0
  data : ∀ g, FlatData gdtr m.mem (m.segs g)

section Tables

variable {gGdt : UInt32} {mem : Mem} {m : Cpu}

/-- The memory holds the table that `gdt_init` wrote. -/
def HoldsGdt (gGdt : UInt32) (mem : Mem) (m : Cpu) : Prop :=
  (gdtInit gGdt mem).2.Agree m.mem gGdt (8 * noGdtDescriptors)

theorem HoldsGdt.descriptor (held : HoldsGdt gGdt mem m) {entry : GdtEntry}
    (member : entry ∈ gdtEntries) :
    (gGdtPtr gGdt).descriptor m.mem entry.index =
      some ⟨entry.base, entry.limit % 0x100000, entry.access, entry.gran >>> 4⟩ := by
  have below : entry.index < noGdtDescriptors := by
    have all : gdtEntries.all (fun entry => decide (entry.index < noGdtDescriptors)) = true := by
      decide
    exact of_decide_eq_true (List.all_eq_true.mp all entry member)
  have slot : (gdtInit gGdt mem).2.Agree m.mem (descriptorAddress gGdt entry.index) 8 := by
    refine Mem.Agree.drop (Mem.Agree.take held ?_)
    omega
  have same : descriptorAt m.mem (gGdtPtr gGdt).base entry.index = _ := descriptorAt_congr slot
  rw [← gdtInit_descriptors gGdt mem entry member, Gdtr.descriptor, same]
  rfl

theorem HoldsGdt.flatData (held : HoldsGdt gGdt mem m) : FlatData (gGdtPtr gGdt) m.mem 0x10 :=
  ⟨_, held.descriptor (show ⟨2, 0, 0xFFFFFFFF, 0x92, 0xCF⟩ ∈ gdtEntries by decide),
    SegmentDescriptor.flat_of rfl rfl rfl (by decide), rfl, rfl⟩

theorem KernelSelectors.flat (h : KernelSelectors m) (held : HoldsGdt gGdt mem m) :
    FlatKernel (gGdtPtr gGdt) m where
  code := by
    rw [h.code]
    exact ⟨_, held.descriptor (show ⟨1, 0, 0xFFFFFFFF, 0x9A, 0xCF⟩ ∈ gdtEntries by decide),
      SegmentDescriptor.flat_of rfl rfl rfl (by decide), rfl, rfl⟩
  data g := by
    rw [h.data g]
    exact held.flatData

/-- The bytes an interrupt entry pushes: seventeen words below the stack pointer. -/
def Pushes (s : Cpu) (a : UInt32) : Prop := 2 ^ 32 - 68 ≤ (a - s.regs .esp).toNat

instance (s : Cpu) (a : UInt32) : Decidable (Pushes s a) :=
  inferInstanceAs (Decidable (_ ≤ _))

/-- The entry of a handler writes nothing but what it pushes. -/
theorem called_mem (vs : List UInt32) (jmp : Tail) (s : Cpu) (base : UInt32) (code : Option UInt32)
    (handler back : UInt32) (short : vs.length ≤ 2) {a : UInt32} (outside : ¬ Pushes s a) :
    (Stub.called ⟨.cli :: vs.map .pushImm, jmp⟩ s base code handler back).mem a = s.mem a := by
  have room : (gateWords s code).length ≤ 4 := by
    cases code with
    | none => exact Nat.le_succ 3
    | some err => exact Nat.le_refl 4
  obtain ⟨sp, pushed⟩ := called_pushed vs jmp s base code handler back (2 ^ 32 - 68) (by omega)
  have kept := pushed.below (a - s.regs .esp).toNat (Nat.not_le.mp outside)
  rwa [UInt32.ofNat_toNat, UInt32.add_comm, UInt32.sub_add_cancel] at kept

/-- Interrupted code whose memory holds the table, with its stack elsewhere. -/
structure Interruptible (gGdt : UInt32) (mem : Mem) (s : Cpu) : Prop where
  held : HoldsGdt gGdt mem s
  apart : ∀ i < 8 * noGdtDescriptors, ¬ Pushes s (gGdt + UInt32.ofNat i)

theorem Interruptible.called {s : Cpu} (ready : Interruptible gGdt mem s) (vs : List UInt32)
    (jmp : Tail) (base : UInt32) (code : Option UInt32) (handler back : UInt32)
    (short : vs.length ≤ 2) :
    HoldsGdt gGdt mem (Stub.called ⟨.cli :: vs.map .pushImm, jmp⟩ s base code handler back) :=
  fun i inside => (called_mem vs jmp s base code handler back short (ready.apart i inside)).trans
    (ready.held i inside)

end Tables

/-- Memory is flat behind `load_gdt`, and in every C handler that is called through the
interrupt table, whatever was interrupted, as long as the stack does not reach the table. The
stack segment is the interrupted one, flat if it was `load_gdt`'s. -/
theorem kernel_segments_flat (gGdt : UInt32) (mem : Mem) :
    (∀ cr0 m, HoldsGdt gGdt mem m → FlatKernel (gdtInit gGdt mem).1 (loadGdt cr0 m) ∧
        FlatData (gdtInit gGdt mem).1 (loadGdt cr0 m).mem (loadGdt cr0 m).ss) ∧
      ∀ entry ∈ idtEntries, ∀ s base code handler back, Interruptible gGdt mem s →
        FlatKernel (gdtInit gGdt mem).1 (entry.2.called s base code handler back) ∧
          (entry.2.called s base code handler back).ss = s.ss ∧
          (s.ss = 0x10 → FlatData (gdtInit gGdt mem).1
            (entry.2.called s base code handler back).mem s.ss) := by
  constructor
  · intro cr0 m held
    obtain ⟨selectors, stack⟩ := loadGdt_selectors cr0 m
    have same : HoldsGdt gGdt mem (loadGdt cr0 m) := held
    refine ⟨selectors.flat same, ?_⟩
    rw [stack]
    exact same.flatData
  · rintro ⟨v, own, jmp⟩ member s base code handler back ready
    obtain ⟨vs, short, rfl⟩ : ∃ vs : List UInt32, vs.length ≤ 2 ∧
        own = .cli :: vs.map .pushImm := by
      rcases idtEntries_own _ member with shape | shape
      · exact ⟨[v.toUInt32], Nat.le_succ 1, shape⟩
      · exact ⟨[0, v.toUInt32], Nat.le_refl 2, shape⟩
    have held := ready.called vs jmp base code handler back short
    refine ⟨(called_selectors vs jmp s base code handler back).flat held,
      called_ss vs jmp s base code handler back, ?_⟩
    intro stack
    rw [stack]
    exact held.flatData

/-- The kernel behind `gdt_init`, interrupted on a stack above the table. -/
def flatCpu : Cpu := { kernelCpu with mem := (gdtInit 0x6000 fun _ => 0).2 }

theorem kernel_segments_flat_timer :
    FlatKernel (gdtInit 0x6000 fun _ => 0).1 (loadGdt 0x11 flatCpu) ∧
      FlatKernel (gdtInit 0x6000 fun _ => 0).1
        (irq0.called flatCpu 0x100000 none 0x102000 0x100020) ∧
      FlatData (gdtInit 0x6000 fun _ => 0).1
        (irq0.called flatCpu 0x100000 none 0x102000 0x100020).mem 0x10 := by
  obtain ⟨loaded, called⟩ := kernel_segments_flat 0x6000 fun _ => 0
  obtain ⟨flat, _, stack⟩ := called (32, irq0) (by decide) flatCpu 0x100000 none 0x102000 0x100020
    ⟨fun _ _ => rfl, by decide⟩
  exact ⟨(loaded 0x11 flatCpu fun _ _ => rfl).1, flat, stack rfl⟩

end Segments

section Delivery

theorem idtEntries_line {n : Nat} (line : n < 16) :
    (UInt8.ofNat (32 + n), irqStub (UInt8.ofNat (32 + n)).toUInt32) ∈ idtEntries := by
  have all : (List.range 16).all (fun n => decide
      ((UInt8.ofNat (32 + n), irqStub (UInt8.ofNat (32 + n)).toUInt32) ∈ idtEntries)) = true := by
    decide
  exact of_decide_eq_true (List.all_eq_true.mp all n (List.mem_range.mpr line))

variable {σ : Type} (hw : Bus σ)

/-- An interrupt line that the processor takes while the kernel runs ends in the handler
registered for it: behind its vector stands a gate to its own stub, the record the C
handler is given names the interrupt and the interrupted state, and the dispatch returns,
with the controllers as they were before. -/
theorem line_reaches_handler (gIdt : UInt32) (address : Stub → UInt32) (mem : Mem) {p : Pair}
    (idle : p.Idle) (ready : p.Programmed 0x20 0x28) {n : Nat} (line : n < 16) (s : Cpu)
    (handler back : UInt32) (k : Kernel σ) :
    ∃ gate stub, (idtInitTable gIdt address mem).1.gate (idtInitTable gIdt address mem).2
        (p.vector n).toNat = some gate ∧ gate.present = true ∧ gate.kind = Gate.interrupt32 ∧
      gate.offset = address stub ∧
      let r := stub.registers s (address stub) none handler back
      r.Describes (p.vector n) s none ∧ r.intNo.toNat = 32 + n ∧
      ∃ l t tr, (callHandler hw (k.handlers (32 + n))).run.run k = (some (), l) ∧
        (isrIrqHandler hw r.intNo).run.run k = (some (), t) ∧
        (pic8259Eoi hw r.intNo.toUInt8).run.run l = (some (), t) ∧
        t.machine.log = k.machine.log ++ tr ∧ observeAll tr (p.enter n) = p := by
  have member := idtEntries_line line
  rw [← vector_eq ready line] at member
  have number := vector_toNat ready line
  have once : (idtEntries.map Prod.fst).Nodup := by decide
  have user := setEntries_gate gIdt once member address mem
  have limit : 8 * (p.vector n).toNat + 7 ≤ (gIdtPtr gIdt).limit.toNat := by
    change _ ≤ 2047
    omega
  have describes := irqStub_describes s (address (irqStub (p.vector n).toUInt32)) handler back
    (p.vector n)
  refine ⟨_, irqStub (p.vector n).toUInt32, if_pos limit, user.present, user.kind, user.offset,
    describes, ?_, ?_⟩
  · rw [describes.intNo, UInt8.toNat_toUInt32, number]
  · have intNo : ((irqStub (p.vector n).toUInt32).registers s
        (address (irqStub (p.vector n).toUInt32)) none handler back).intNo =
        UInt32.ofNat (32 + n) := describes.intNo.trans (vector_line ready line)
    have slot : (UInt32.ofNat (32 + n)).toNat = 32 + n := by
      rw [UInt32.toNat_ofNat']
      omega
    rw [intNo]
    obtain ⟨l, called⟩ := callHandler_returns hw (k.handlers (32 + n)) k
    have ended := run_pic8259Eoi hw (UInt32.ofNat (32 + n)).toUInt8 l
    have handled : (isrIrqHandler hw (UInt32.ofNat (32 + n))).run.run k = (some (), l.setMachine
        (sendAll hw (eoiWrites (UInt32.ofNat (32 + n)).toUInt8) l.machine)) := by
      rw [isrIrqHandler, Prog.run_bind, Prog.run_get, Exec.run_bind, Exec.run_get,
        Exec.andThen_some, Prog.run_bind, Exec.run_bind, slot, called, Exec.andThen_some, ended]
    obtain ⟨tr, log⟩ := isrIrqHandler_grows hw line handled
    exact ⟨l, _, tr, called, handled, ended, log,
      (handled_settles hw idle ready line log handled).2⟩

/-- The controllers behind `pic8259_init`, and a table of stubs at made-up addresses. -/
def programmed : Pair := observeAll ((initWrites 0xF8 0xEF).map fun w => .outb w.1 w.2) disorder

def stubAddress (stub : Stub) : UInt32 :=
  0x100000 + 16 * (stub.own.getLast?.elim 0 fun | .pushImm v => v | _ => 0)

theorem line_reaches_handler_mouse : ∃ gate stub,
    (idtInitTable 0x5000 stubAddress fun _ => 0).1.gate
      (idtInitTable 0x5000 stubAddress fun _ => 0).2 (programmed.vector 12).toNat = some gate ∧
      gate.offset = stubAddress stub ∧ (Stub.registers stub kernelCpu (stubAddress stub) none
        0x102000 0x100020).intNo.toNat = 44 := by
  obtain ⟨ready, idle, _⟩ := initWrites_programs 0xF8 0xEF disorder
  obtain ⟨gate, stub, found, _, _, offset, _, number, _⟩ := line_reaches_handler byteQueue 0x5000
    stubAddress (fun _ => 0) (show programmed.Idle from idle) ready (n := 12) (by decide) kernelCpu
    0x102000 0x100020 (withDrivers [])
  exact ⟨gate, stub, found, offset, number⟩

end Delivery

end VDK
