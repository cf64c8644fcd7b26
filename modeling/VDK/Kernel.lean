import VDK.PortMachine
import VDK.Terminal

/-!
# The kernel state behind the interrupt handlers

The globals of `libkern/keyboard.c` and `libkern/mouse.c`, the handler table of
`libkern/isr.c`, the terminal and the ports. Only two functions are ever registered
as handlers, so a table entry is one of two names. `interrupts` is the interrupt
flag as the main line sees it.
-/
namespace VDK
open Atomic Fuel

/-- `g_caps_lock`, `g_shift_pressed`, `g_ch` and `g_scan_code`. -/
structure Keyboard where
  capsLock : Bool
  shiftPressed : Bool
  ch : UInt8
  scanCode : UInt8
  deriving DecidableEq, Repr

/-- `MOUSE_STATUS`. -/
structure MouseStatus where
  leftButton : Bool
  rightButton : Bool
  middleButton : Bool
  always1 : Bool
  xSign : Bool
  ySign : Bool
  xOverflow : Bool
  yOverflow : Bool
  deriving DecidableEq, Repr

/-- `g_mouse_x_pos`, `g_mouse_y_pos`, `g_status` and the statics of `mouse_handler`. -/
structure Mouse where
  xPos : Int
  yPos : Int
  status : MouseStatus
  cycle : UInt8
  byte0 : UInt8
  byte1 : UInt8
  byte2 : UInt8
  deriving DecidableEq, Repr

/-- The functions `isr_register_interrupt_handler` is called with. -/
inductive Isr where
  | keyboardHandler
  | mouseHandler
  deriving DecidableEq, Repr

structure Kernel (σ : Type) where
  machine : Machine σ
  terminal : Terminal
  keyboard : Keyboard
  mouse : Mouse
  handlers : Nat → Option Isr
  interrupts : Bool

namespace Kernel

variable {σ : Type} (hw : Bus σ)

def setMachine (s : Kernel σ) (m : Machine σ) : Kernel σ := { s with machine := m }

def setTerminal (t : Terminal) (s : Kernel σ) : Kernel σ := { s with terminal := t }

def onKeyboard (f : Keyboard → Keyboard) (s : Kernel σ) : Kernel σ :=
  { s with keyboard := f s.keyboard }

def onMouse (f : Mouse → Mouse) (s : Kernel σ) : Kernel σ := { s with mouse := f s.mouse }

def inb (port : UInt16) : Prog (Kernel σ) UInt8 :=
  Prog.act fun s => ((inportb hw port s.machine).1, s.setMachine (inportb hw port s.machine).2)

def outb (port : UInt16) (value : UInt8) : Prog (Kernel σ) Unit :=
  Prog.modify fun s => s.setMachine (outportb hw port value s.machine)

@[simp] theorem run_inb (port : UInt16) (s : Kernel σ) : (inb hw port).run.run s =
    (some (inportb hw port s.machine).1, s.setMachine (inportb hw port s.machine).2) := rfl

@[simp] theorem run_outb (port : UInt16) (value : UInt8) (s : Kernel σ) :
    (outb hw port value).run.run s = (some (), s.setMachine (outportb hw port value s.machine)) :=
  rfl

def onTerminal {α : Type} (p : Prog Terminal α) : Prog (Kernel σ) α :=
  Prog.within Kernel.terminal setTerminal p

@[simp] theorem run_onTerminal {α : Type} (p : Prog Terminal α) (s : Kernel σ) :
    (onTerminal p).run.run s =
      ((p.run.run s.terminal).1, s.setTerminal (p.run.run s.terminal).2) := by
  rw [onTerminal, Prog.run_within Kernel.terminal setTerminal (fun _ _ => rfl) (fun _ _ _ => rfl)
    (fun _ => rfl)]
  rfl

/-- Ports were read, and that is all. -/
def Reads (s t : Kernel σ) : Prop :=
  ∃ m tr, t = s.setMachine m ∧ m.log = s.machine.log ++ tr ∧
    ∀ a ∈ tr, ∃ port value, a = Access.inb port value

instance : IsPreorder (Kernel σ) Reads where
  refl s := ⟨s.machine, [], rfl, (List.append_nil _).symm, fun _ none => nomatch none⟩
  trans s _ _ := by
    rintro ⟨m, tr, rfl, log, reads⟩ ⟨n, tr', rfl, log', reads'⟩
    refine ⟨n, tr ++ tr', rfl, ?_, fun a member => ?_⟩
    · rw [← List.append_assoc, ← log]
      exact log'
    · rcases List.mem_append.mp member with first | second
      · exact reads a first
      · exact reads' a second

theorem inb_reads (port : UInt16) : Ends Reads (inb hw port) := by
  refine Ends.act fun s => ⟨_, [.inb port (hw.inb port s.machine.bus).1], rfl, rfl, ?_⟩
  intro a member
  exact ⟨_, _, List.mem_singleton.mp member⟩

/-- The zero-initialised globals, on a machine that has done nothing yet. -/
def zeroed (bus : σ) : Kernel σ where
  machine := { bus := bus, mem := fun _ => 0, log := [] }
  terminal := { row := 0, column := 0, color := 0, buffer := 0, video := fun _ => 0, writes := [] }
  keyboard := ⟨false, false, 0, 0⟩
  mouse := ⟨0, 0, ⟨false, false, false, false, false, false, false, false⟩, 0, 0, 0, 0⟩
  handlers _ := none
  interrupts := false

end Kernel

end VDK
