import VDK.InterruptFrame

/-!
# What an interrupted program sees of a serviced interrupt

The words the entry pushed come off the stack in the opposite order, whether the C
handler got its record in place or by pointer. Behind a pointer the exit takes its stack
pointer from the argument word, which belongs to the handler.
-/
namespace VDK

open ByteMem Ia32

/-- The interrupted state is back: every register, flag and segment, and `n` bytes
of the stack. -/
structure Restored (s after : Cpu) (n : Nat) : Prop where
  regs : after.regs = s.regs
  segs : after.segs = s.segs
  eflags : after.eflags = s.eflags
  cs : after.cs = s.cs
  ss : after.ss = s.ss
  eip : after.eip = s.eip
  stack : s.mem.Agree after.mem (s.regs .esp) n

section Exit

theorem restoreData_segs (m : Cpu) :
    (run restoreData m).segs = fun _ => (m.regs .ebx).toUInt16 := by
  funext g
  cases g with
  | ds => rfl
  | es => rfl
  | fs => rfl
  | gs => rfl

/-- The exit both tails share: the data segments come from the saved selector, and
every register from its saved word. -/
theorem exit_restores {s m : Cpu} {sp no err : UInt32} {n : Nat}
    (flat : ∀ g, s.segs g = s.segs .ds) (ss : m.ss = s.ss)
    (h : Pushed s m (tailWords s sp ++ no :: err :: gateWords s none) n) :
    Restored s (run exceptionHandlerExit m) n := by
  have selector : (m.pop .ebx).regs .ebx = withLow (s.regs .eax) (s.segs .ds) :=
    (set_self m.skip m.top .ebx).trans h.top
  have saved := (h.pop (r := .ebx) (by decide)).run_loads restoreData (by decide)
  have segs : (run restoreData (m.pop .ebx)).segs = s.segs := by
    rw [restoreData_segs, selector, withLow_low]
    exact funext fun g => (flat g).symm
  have stack : (run restoreData (m.pop .ebx)).ss = s.ss := ss
  have code : run exceptionHandlerExit m =
      run [.popa, .addImm .esp 8, .sti, .iret] (run restoreData (m.pop .ebx)) := by
    rw [exceptionHandlerExit, run_append, run_append]
    rfl
  rw [code]
  generalize run restoreData (m.pop .ebx) = loaded at saved segs stack ⊢
  obtain ⟨rest, kept, regs⟩ := popSaved_run pushaOrder.reverse saved
  have same := popSaved_ss pushaOrder.reverse loaded
  rw [run_cons, run_cons, run_cons, run_cons,
    show Instr.exec .popa loaded = pushaOrder.reverse.foldl Cpu.popSaved loaded from rfl]
  generalize pushaOrder.reverse.foldl Cpu.popSaved loaded = popped at rest kept regs same ⊢
  have ready := (rest.add_esp).loads (i := .sti) rfl
  obtain ⟨empty, eip, cs, eflags⟩ := iret_restores ready
  refine ⟨?_, kept.trans segs, eflags, cs, same.trans stack, eip, empty.below⟩
  funext r
  by_cases stack : r = .esp
  · rw [stack]
    exact (UInt32.add_zero _).symm.trans empty.esp
  · have member : r ∈ pushaOrder.reverse := by
      cases r <;> decide
    have value : popped.regs r = s.regs r := by
      rw [regs r stack, if_pos member, Function.update_of_ne stack]
    exact (iret_regs _ stack).trans ((set_of_ne popped _ stack).trans value)

/-- `irq_handler` first takes the stack pointer it pushed as the argument. -/
theorem tail_exit_restores {jmp : Tail} {s called after : Cpu} {sp no err : UInt32} {n : Nat}
    (flat : ∀ g, s.segs g = s.segs .ds) (ss : after.ss = s.ss)
    (esp : after.regs .esp = called.regs .esp + 4)
    (h : Pushed s after
      (jmp.argWords called ++ (tailWords s sp ++ no :: err :: gateWords s none)) n) :
    Restored s (run jmp.exit after) n := by
  cases jmp with
  | exceptionHandler => exact exit_restores flat ss h
  | irqHandler =>
      have under : called.regs .esp + 8 = after.regs .esp + 4 := by
        rw [esp, UInt32.add_assoc]
        rfl
      rw [show Tail.irqHandler.exit = .pop .esp :: exceptionHandlerExit from rfl, run_cons]
      exact exit_restores flat ss (h.pop_esp under)

theorem popSaved_esp (rs : List Reg) (m : Cpu) :
    (rs.foldl Cpu.popSaved m).regs .esp = m.regs .esp + UInt32.ofNat (4 * rs.length) := by
  induction rs generalizing m with
  | nil => exact (UInt32.add_zero _).symm
  | cons r rs ih =>
      have step : (m.popSaved r).regs .esp = m.regs .esp + 4 := by
        unfold Cpu.popSaved
        split
        · exact skip_esp m
        · rename_i other
          exact (set_of_ne m.skip m.top fun same => other same.symm).trans (skip_esp m)
      rw [List.foldl_cons, ih, step, List.length_cons, add_ofNat_succ]

theorem exceptionHandlerExit_esp (m : Cpu) :
    (run exceptionHandlerExit m).regs .esp = m.regs .esp + 56 := by
  have code : run exceptionHandlerExit m = Instr.exec .iret (Instr.exec .sti (Instr.exec
      (.addImm .esp 8) (pushaOrder.reverse.foldl Cpu.popSaved (run restoreData (m.pop .ebx))))) := rfl
  have returned : ∀ r : Cpu, (Instr.exec .iret r).regs .esp = r.regs .esp + 4 + 4 + 4 := by
    intro r
    change r.skip.skip.skip.regs .esp = _
    rw [skip_esp, skip_esp, skip_esp]
  have added : ∀ r : Cpu, (Instr.exec .sti (Instr.exec (.addImm .esp 8) r)).regs .esp =
      r.regs .esp + 8 := fun r => set_self r _ .esp
  have first : (run restoreData (m.pop .ebx)).regs .esp = m.regs .esp + 4 :=
    (set_of_ne m.skip m.top (show Reg.esp ≠ .ebx by decide)).trans (skip_esp m)
  rw [code, returned, added, popSaved_esp, first]
  simp only [UInt32.add_assoc]
  rfl

/-- The stack pointer that `irq_handler` ends with comes from the argument word. -/
theorem irqHandlerExit_esp (m : Cpu) :
    (run irqHandlerExit m).regs .esp = m.mem.load32 (m.regs .esp) + 56 := by
  rw [show irqHandlerExit = .pop .esp :: exceptionHandlerExit from rfl, run_cons,
    exceptionHandlerExit_esp]
  exact congrArg (· + 56) (set_self m.skip m.top .esp)

theorem restored_argument {s called after : Cpu} {back : UInt32} {ws : List UInt32} {n : Nat}
    (h : Pushed s called (back :: (Tail.irqHandler.argWords called ++ ws)) n)
    (fourteen : ws.length = 14) (esp : after.regs .esp = called.regs .esp + 4)
    (restored : Restored s (run irqHandlerExit after) n) :
    called.mem.Agree after.mem (called.regs .esp + 4) 4 := by
  have stack := h.esp
  rw [List.length_cons, List.length_append, Tail.length_argWords, fourteen] at stack
  have final := (irqHandlerExit_esp after).symm.trans (congrFun restored.regs .esp)
  rw [esp, ← stack] at final
  have pushed : called.mem.load32 (called.regs .esp + 4) = called.regs .esp + 8 := h.words.2.1
  have sixteen : called.regs .esp + UInt32.ofNat (4 * (Tail.irqHandler.args + 14 + 1)) =
      called.regs .esp + 8 + 56 := by
    rw [UInt32.add_assoc]
    rfl
  apply Mem.agree_of_load32
  rw [pushed]
  exact (UInt32.add_left_inj 56).mp (final.trans sixteen)

end Exit

/-- The vectors from 32 on: their stubs push two words and expect no error code. -/
theorem idtEntries_serviced : ∀ entry ∈ idtEntries, 32 ≤ entry.1 →
    entry.2.own = .cli :: [0, entry.1.toUInt32].map .pushImm := by decide

/-- What a C handler called through a stub leaves alone besides what the convention says: the
saved frame behind its argument words, up to the interrupted stack and `n` bytes of that. -/
def KeepsFrame (stub : Stub) (s called after : Cpu) (n : Nat) : Prop :=
  Cdecl called after stub.jmp.args
    ((s.regs .esp - (called.regs .esp + 4 + UInt32.ofNat (4 * stub.jmp.args))).toNat + n)

/-- A serviced interrupt is invisible to the code it interrupts exactly when the C handler
leaves its argument words as they were pushed. -/
theorem serviced_interrupt_invisible_iff {v : UInt8} {stub : Stub}
    (entry : (v, stub) ∈ idtEntries) (serviced : 32 ≤ v) (s : Cpu)
    (flat : ∀ g, s.segs g = s.segs .ds) (base handler back : UInt32) (isr : Cpu → Cpu) (n : Nat)
    (room : 64 + n ≤ 2 ^ 32)
    (returns : KeepsFrame stub s (stub.called s base none handler back)
      (isr (stub.called s base none handler back)) n) :
    Restored s (run stub.jmp.exit (isr (stub.called s base none handler back))) n ↔
      (stub.called s base none handler back).mem.Agree
        (isr (stub.called s base none handler back)).mem
        ((stub.called s base none handler back).regs .esp + 4) (4 * stub.jmp.args) := by
  rcases stub with ⟨own, jmp⟩
  obtain rfl : own = .cli :: [0, v.toUInt32].map .pushImm := idtEntries_serviced _ entry serviced
  obtain ⟨sp, pushed⟩ := called_pushed [0, v.toUInt32] jmp s base none handler back n
    (by change 4 * (2 + 3 + 11) + n ≤ 2 ^ 32; omega)
  have ss := called_ss [0, v.toUInt32] jmp s base none handler back
  rw [KeepsFrame] at returns
  generalize Stub.called ⟨.cli :: [0, v.toUInt32].map .pushImm, jmp⟩ s base none handler back =
    called at pushed returns ss ⊢
  generalize saved : tailWords s sp ++ ([0, v.toUInt32].reverse ++ gateWords s none) = ws at pushed
  have fourteen : ws.length = 14 := saved ▸ rfl
  have rest : called.regs .esp + 4 + UInt32.ofNat (4 * jmp.args) +
      UInt32.ofNat (4 * ws.length) = s.regs .esp := by
    rw [← pushed.esp, List.length_cons, List.length_append, Tail.length_argWords, UInt32.add_assoc,
      UInt32.add_assoc, ← UInt32.ofNat_add, show (4 : UInt32) = UInt32.ofNat 4 from rfl,
      ← UInt32.ofNat_add]
    congr 2
    omega
  have span : (s.regs .esp - (called.regs .esp + 4 + UInt32.ofNat (4 * jmp.args))).toNat =
      4 * ws.length := by
    rw [← rest, UInt32.add_comm, UInt32.add_sub_cancel, fourteen]
    rfl
  dsimp only at returns ⊢
  rw [span] at returns
  constructor
  · intro restored
    cases jmp with
    | exceptionHandler => exact fun i none => absurd none (Nat.not_lt_zero i)
    | irqHandler => exact restored_argument pushed fourteen returns.esp restored
  · intro arguments
    rw [← Tail.length_argWords jmp called] at returns arguments
    have after := pushed.returned returns arguments
    rw [← saved] at after
    exact tail_exit_restores flat (returns.ss.trans ss) returns.esp after

def plainIsr (m : Cpu) : Cpu := { m.skip.set .eax 1 with eip := m.top }

theorem plainIsr_cdecl (m : Cpu) (args kept : Nat) : Cdecl m (plainIsr m) args kept where
  esp := (set_of_ne m.skip 1 (show Reg.esp ≠ .eax by decide)).trans (skip_esp m)
  eip := rfl
  cs := rfl
  ss := rfl
  saved := by
    intro r member
    have other : r ≠ .esp := by rintro rfl; exact absurd member (by decide)
    have apart : r ≠ .eax := by rintro rfl; exact absurd member (by decide)
    exact (set_of_ne m.skip 1 apart).trans (skip_regs m other)
  frame := fun _ _ => rfl

theorem serviced_interrupt_invisible_iff_timer : Restored kernelCpu
    (run irq0.jmp.exit (plainIsr (irq0.called kernelCpu 0x100000 none 0x102000 0x100020))) 256 :=
  (serviced_interrupt_invisible_iff (show (32, irq0) ∈ idtEntries by decide) (by decide) kernelCpu
    (fun _ => rfl) 0x100000 0x102000 0x100020 plainIsr 256 (by decide) (plainIsr_cdecl _ _ _)).mpr
    fun _ _ => rfl

def greedyIsr (m : Cpu) : Cpu :=
  { plainIsr m with mem := m.mem.write (m.regs .esp + 4) (bytes32 0) }

theorem greedyIsr_cdecl (m : Cpu) {kept : Nat} (fits : kept + 4 ≤ 2 ^ 32) :
    Cdecl m (greedyIsr m) 1 kept where
  esp := (plainIsr_cdecl m 1 kept).esp
  eip := rfl
  cs := rfl
  ss := rfl
  saved := (plainIsr_cdecl m 1 kept).saved
  frame := by
    have above := Mem.agree_write_below m.mem (m.regs .esp + 4 + UInt32.ofNat (4 * 1)) 0 fits
    rwa [show UInt32.ofNat (4 * 1) = 4 from rfl, UInt32.add_sub_cancel] at above

/-- A handler of the timer that uses its argument word for something else leaves `irq_handler`
with a wrong stack pointer. -/
theorem argument_word_lost :
    KeepsFrame irq0 kernelCpu (irq0.called kernelCpu 0x100000 none 0x102000 0x100020)
        (greedyIsr (irq0.called kernelCpu 0x100000 none 0x102000 0x100020)) 256 ∧
      ¬ Restored kernelCpu
        (run irq0.jmp.exit (greedyIsr (irq0.called kernelCpu 0x100000 none 0x102000 0x100020)))
        256 := by
  constructor
  · refine greedyIsr_cdecl _ ?_
    decide
  · intro restored
    have lost := (irqHandlerExit_esp _).symm.trans (congrFun restored.regs .esp)
    have slot : (greedyIsr (irq0.called kernelCpu 0x100000 none 0x102000 0x100020)).regs .esp =
        (irq0.called kernelCpu 0x100000 none 0x102000 0x100020).regs .esp + 4 :=
      (greedyIsr_cdecl _ (by decide : 0 + 4 ≤ 2 ^ 32)).esp
    rw [slot, greedyIsr, Mem.load32_write] at lost
    exact absurd lost (by decide)

end VDK
