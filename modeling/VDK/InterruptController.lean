import VDK.Kernel

/-!
# The 8259 interrupt controllers and the handler table

`libkern/8259_pic.c`, and `isr_register_interrupt_handler` and `isr_end_interrupt` of
`libkern/isr.c`.
-/
namespace VDK
open Atomic Fuel Kernel

abbrev pic1 : UInt16 := 0x20
abbrev pic2 : UInt16 := 0xA0
abbrev pic1Data : UInt16 := pic1 + 1
abbrev pic2Data : UInt16 := pic2 + 1

abbrev picEoi : UInt8 := 0x20
abbrev icw1 : UInt8 := 0x11
abbrev icw4_8086 : UInt8 := 0x01

abbrev noInterruptHandlers : Nat := 256

abbrev irqBase : Nat := 0x20

section Controller

variable {σ : Type} (hw : Bus σ)

/-- `pic8259_init`; the masks that were read are written back at the end. -/
def pic8259Init : Prog (Kernel σ) Unit := do
  let a1 ← inb hw pic1Data
  let a2 ← inb hw pic2Data
  outb hw pic1 icw1
  outb hw pic2 icw1
  outb hw pic1Data 0x20
  outb hw pic2Data 0x28
  outb hw pic1Data 4
  outb hw pic2Data 2
  outb hw pic1Data icw4_8086
  outb hw pic2Data icw4_8086
  outb hw pic1Data a1
  outb hw pic2Data a2

def pic8259Eoi (irq : UInt8) : Prog (Kernel σ) Unit := do
  Prog.when (irq ≥ 0x28) (outb hw pic2 picEoi)
  outb hw pic1 picEoi

def isrEndInterrupt (num : Nat) : Prog (Kernel σ) Unit := pic8259Eoi hw (UInt8.ofNat num)

def isrRegisterInterruptHandler (num : Nat) (handler : Isr) : Prog (Kernel σ) Unit :=
  Prog.when (num < noInterruptHandlers) (Prog.modify fun s =>
    { s with handlers := Function.update s.handlers num (some handler) })

/-- The acknowledgement of a vector: the slave first, when the vector is one of its own. -/
def eoiWrites (irq : UInt8) : List (UInt16 × UInt8) :=
  if irq ≥ 0x28 then [(pic2, picEoi), (pic1, picEoi)] else [(pic1, picEoi)]

theorem run_pic8259Eoi (irq : UInt8) (s : Kernel σ) : (pic8259Eoi hw irq).run.run s =
    (some (), s.setMachine (sendAll hw (eoiWrites irq) s.machine)) := by
  unfold pic8259Eoi eoiWrites
  rw [Prog.run_bind, Exec.run_bind, Prog.run_when]
  split
  · rfl
  · rfl

end Controller

end VDK
