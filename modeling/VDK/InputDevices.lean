import VDK.SharedBuffer
import VDK.Typing
import VDK.MousePackets
import VDK.Dispatch

/-!
# The keyboard and the mouse behind one data port

Both devices send their bytes through the one output buffer of the controller. Neither
handler looks at which device a byte is from: that it gets its own bytes rests on the
interrupt lines. Bytes are sent and loaded at any time, also between two accesses of a handler.
-/
namespace VDK
open Atomic Fuel Kernel SharedBuffer SharedBuffer.Controller

inductive InputDevice where
  | keyboard
  | mouse
  deriving DecidableEq, Repr

namespace InputDevice

/-- The handler that `keyboard_init` or `mouse_init` registers. -/
def driver : InputDevice → Isr
  | .keyboard => .keyboardHandler
  | .mouse => .mouseHandler

/-- Interrupt lines 1 and 12. -/
def vector : InputDevice → UInt32
  | .keyboard => 33
  | .mouse => 44

end InputDevice

abbrev Ps2 := Controller InputDevice UInt8

/-- The ports of the hardware are those of a controller, and commands to end an interrupt
are for other hardware. -/
structure Ps2Ports {σ : Type} (hw : Bus σ) (view : σ → Ps2) : Prop where
  status : ∀ b, (hw.inb keyboardStatusPort b).1 &&& 1 = 0 ↔ (view b).buffer = none
  polled : ∀ b, view (hw.inb keyboardStatusPort b).2 = view b
  data : ∀ b d v, (view b).buffer = some (d, v) → (hw.inb keyboardDataPort b).1 = v
  emptied : ∀ b, view (hw.inb keyboardDataPort b).2 = (view b).emptied
  ended : ∀ port ∈ [pic1, pic2], ∀ b, view (hw.outb port picEoi b) = view b

section Effects

variable {σ : Type} (view : σ → Ps2)

/-- Bytes are sent and loaded. -/
def Arrives (s t : Kernel σ) : Prop :=
  ∃ b, t = s.setMachine { s.machine with bus := b } ∧ Moves (view s.machine.bus) (view b)

/-- What happens to the globals of the two drivers, and to the controller. -/
structure Effect (f : Keyboard → Keyboard) (g : Mouse → Mouse) (P : Ps2 → Ps2 → Prop)
    (s t : Kernel σ) : Prop where
  keyboard : t.keyboard = f s.keyboard
  mouse : t.mouse = g s.mouse
  handlers : t.handlers = s.handlers
  ports : P (view s.machine.bus) (view t.machine.bus)

/-- The drivers are left alone. -/
abbrev Beside : Kernel σ → Kernel σ → Prop := Effect view id id Moves

variable {view}

theorem Effect.comp {f f' : Keyboard → Keyboard} {g g' : Mouse → Mouse} {P Q R : Ps2 → Ps2 → Prop}
    {s t u : Kernel σ} (first : Effect view f g P s t) (second : Effect view f' g' Q t u)
    (through : ∀ {a b c}, P a b → Q b c → R a c) : Effect view (f' ∘ f) (g' ∘ g) R s u :=
  ⟨second.keyboard.trans (congrArg f' first.keyboard), second.mouse.trans (congrArg g' first.mouse),
    second.handlers.trans first.handlers, through first.ports second.ports⟩

instance : IsPreorder (Kernel σ) (Beside view) where
  refl _ := ⟨rfl, rfl, rfl, .refl⟩
  trans _ _ _ first second := first.comp second Relation.ReflTransGen.trans

theorem Arrives.beside {s t : Kernel σ} (arrived : Arrives view s t) : Beside view s t := by
  obtain ⟨b, rfl, moves⟩ := arrived
  exact ⟨rfl, rfl, rfl, moves⟩

theorem interleaved_beside {α : Type} {p : Prog (Kernel σ) α} (steps : Steps (Beside view) p)
    {s t : Kernel σ} {a : α} (run : Interleaved (Arrives view) p s a t) : Beside view s t :=
  Interleaved.keeps (fun _ _ => Arrives.beside) steps run

/-- A store to the globals of the drivers. -/
theorem store_effect {f : Keyboard → Keyboard} {g : Mouse → Mouse} {h : Kernel σ → Kernel σ}
    (stores : ∀ s, Effect view f g Moves s (h s)) {s t : Kernel σ} {a : Unit}
    (run : Interleaved (Arrives view) (Prog.modify h) s a t) : Effect view f g Moves s t := by
  obtain ⟨u, arrived, rfl⟩ := run.modify_inv
  exact arrived.beside.comp (stores u) Relation.ReflTransGen.trans

theorem onKeyboard_effect {f : Keyboard → Keyboard} {s t : Kernel σ} {a : Unit}
    (run : Interleaved (Arrives view) (Prog.modify (onKeyboard f)) s a t) :
    Effect view f id Moves s t :=
  store_effect (h := onKeyboard f) (fun _ => ⟨rfl, rfl, rfl, .refl⟩) run

theorem onMouse_effect {g : Mouse → Mouse} {s t : Kernel σ} {a : Unit}
    (run : Interleaved (Arrives view) (Prog.modify (onMouse g)) s a t) :
    Effect view id g Moves s t :=
  store_effect (h := onMouse g) (fun _ => ⟨rfl, rfl, rfl, .refl⟩) run

theorem onTerminal_beside {α : Type} (p : Prog Terminal α) :
    Steps (Beside view) (onTerminal (σ := σ) p) := by
  refine Steps.within (R := Beside view) (Q := fun _ _ => True) (fun s t _ => ?_) (Steps.any p)
  exact ⟨rfl, rfl, rfl, .refl⟩

theorem printMouseInfo_beside : Steps (Beside view) (printMouseInfo (σ := σ)) := by
  have click : ∀ (c : Prop) [Decidable c] (fmt : ByteMem.Text),
      Steps (Beside view) (Prog.when c (onTerminal (σ := σ) (printLiteral fmt))) :=
    fun c _ fmt => Steps.when c (onTerminal_beside _)
  apply Steps.bind Steps.get
  intro _
  apply Steps.bind (click _ _)
  intro _
  apply Steps.bind Steps.get
  intro _
  apply Steps.bind (click _ _)
  intro _
  exact Steps.bind Steps.get fun _ => click _ _

theorem drawCursor_beside : Steps (Beside view) (drawCursor (σ := σ)) := by
  apply Steps.bind (onTerminal_beside _)
  intro _
  exact Steps.bind Steps.get fun _ => onTerminal_beside _

end Effects

section Handlers

variable {σ : Type} {hw : Bus σ} {view : σ → Ps2} (ports : Ps2Ports hw view)

include ports

/-- With a byte in the buffer the first status that is read says so. -/
theorem status_serving {s t : Kernel σ} {d : InputDevice} {v status : UInt8}
    (serving : (view s.machine.bus).Serving d v)
    (run : Interleaved (Arrives view) (inb hw keyboardStatusPort) s status t) :
    ¬status &&& 1 = 0 ∧ Beside view s t ∧ (view t.machine.bus).Serving d v := by
  obtain ⟨u, arrived, read⟩ := run.act_inv
  cases read
  have full := arrived.beside.ports.keeps Step.serving serving
  have same := ports.polled u.machine.bus
  refine ⟨fun clear => ?_, ⟨arrived.beside.keyboard, arrived.beside.mouse,
    arrived.beside.handlers, ?_⟩, ?_⟩
  · exact nomatch full.buffer.symm.trans ((ports.status _).mp clear)
  · exact same ▸ arrived.beside.ports
  · exact same ▸ full

/-- The byte that is read is the one whose interrupt has been accepted. -/
theorem data_serving {s t : Kernel σ} {d : InputDevice} {v b : UInt8}
    (serving : (view s.machine.bus).Serving d v)
    (run : Interleaved (Arrives view) (inb hw keyboardDataPort) s b t) :
    b = v ∧ Effect view id id (Takes d v) s t := by
  obtain ⟨u, arrived, read⟩ := run.act_inv
  cases read
  have full := arrived.beside.ports.keeps Step.serving serving
  refine ⟨ports.data _ d v full.buffer, arrived.beside.keyboard, arrived.beside.mouse,
    arrived.beside.handlers, _, arrived.beside.ports, full, ?_⟩
  rw [← ports.emptied]
  exact .refl

theorem getScancode_serving {s t : Kernel σ} {d : InputDevice} {v b : UInt8}
    (serving : (view s.machine.bus).Serving d v)
    (run : Interleaved (Arrives view) (getScancode hw) s b t) :
    b = v ∧ Effect view id id (Takes d v) s t := by
  have polls : (2 ^ 31 - 1000 : Nat) = 2147482647 + 1 := rfl
  rw [getScancode, polls, pollScancode] at run
  obtain ⟨status, u, polled, rest⟩ := run.bind_inv
  obtain ⟨set, beside, serving'⟩ := status_serving ports serving polled
  rw [if_neg set] at rest
  obtain ⟨value, taken⟩ := data_serving ports serving' rest
  exact ⟨value, beside.comp taken fun moves takes => takes.after moves⟩

theorem mouseRead_serving {s t : Kernel σ} {d : InputDevice} {v b : UInt8}
    (serving : (view s.machine.bus).Serving d v)
    (run : Interleaved (Arrives view) (mouseRead hw) s b t) :
    b = v ∧ Effect view id id (Takes d v) s t := by
  have polls : (100000 : Nat) = 99999 + 1 := rfl
  rw [mouseRead, mouseWait, polls, mouseWaitPolls] at run
  obtain ⟨_, u, waited, rest⟩ := run.bind_inv
  obtain ⟨status, w, polled, waited⟩ := waited.bind_inv
  obtain ⟨set, beside, serving'⟩ := status_serving ports serving polled
  have ready : mouseReady false status = true := by
    have bit : status &&& 1 = 0 ∨ status &&& 1 = 1 := by
      rw [← UInt8.toNat_inj, ← UInt8.toNat_inj, UInt8.toNat_and]
      have mod := Nat.and_one_is_mod status.toNat
      change status.toNat &&& 1 = 0 ∨ status.toNat &&& 1 = 1
      omega
    exact decide_eq_true (bit.resolve_left set)
  rw [if_pos ready] at waited
  cases waited
  obtain ⟨value, taken⟩ := data_serving ports serving' rest
  exact ⟨value, beside.comp taken fun moves takes => takes.after moves⟩

theorem pic8259Eoi_beside (irq : UInt8) : Steps (Beside view) (pic8259Eoi hw irq) := by
  have ends : ∀ port ∈ [pic1, pic2], Steps (Beside view) (outb hw port picEoi) := by
    intro port member
    refine Steps.modify fun s => ⟨rfl, rfl, rfl, ?_⟩
    rw [show view (s.setMachine (outportb hw port picEoi s.machine)).machine.bus =
      view s.machine.bus from ports.ended port member _]
    exact .refl
  exact Steps.bind (Steps.when _ (ends pic2 (by decide))) fun _ => ends pic1 (by decide)

theorem keyboardHandler_takes {s t : Kernel σ} {v : UInt8}
    (serving : (view s.machine.bus).Serving .keyboard v)
    (run : Interleaved (Arrives view) (keyboardHandler hw) s () t) :
    Effect view (fun k => k.after (.key v)) id (Takes .keyboard v) s t := by
  obtain ⟨_, u, cleared, run⟩ := run.bind_inv
  have clear := onKeyboard_effect cleared
  obtain ⟨scancode, w, fetched, stored⟩ := run.bind_inv
  obtain ⟨rfl, taken⟩ :=
    getScancode_serving ports (clear.ports.keeps Step.serving serving) fetched
  exact (clear.comp taken fun moves takes => takes.after moves).comp (onKeyboard_effect stored)
    fun takes moves => takes.moves moves

/-- The switch with its one read, whatever the other device does meanwhile. -/
theorem mouseCycle_takes {s t : Kernel σ} {v : UInt8} (early : s.mouse.cycle < 3)
    (serving : (view s.machine.bus).Serving .mouse v)
    (run : Interleaved (Arrives view) (mouseCycle hw) s () t) :
    Effect view id (Mouse.after v) (Takes .mouse v) s t := by
  obtain ⟨u, _, looked, run⟩ := run.bind_inv
  obtain ⟨rfl, arrived⟩ := looked.get_inv
  have beside := arrived.beside
  have serving' := beside.ports.keeps Step.serving serving
  have same : u.mouse = s.mouse := beside.mouse
  rw [same] at run
  have behind : ∀ {a b c : Ps2}, Takes .mouse v a b → Moves b c → Takes .mouse v a c :=
    fun takes moves => takes.moves moves
  have read : ∀ {b : UInt8} {w : Kernel σ}, Interleaved (Arrives view) (mouseRead hw) u b w →
      b = v ∧ Effect view id id (Takes .mouse v) s w := by
    intro b w fetched
    obtain ⟨value, taken⟩ := mouseRead_serving ports serving' fetched
    exact ⟨value, beside.comp taken fun moves takes => takes.after moves⟩
  by_cases first : s.mouse.cycle = 0
  · rw [if_pos first] at run
    obtain ⟨b, w, fetched, run⟩ := run.bind_inv
    obtain ⟨rfl, taken⟩ := read fetched
    obtain ⟨_, x, byte, run⟩ := run.bind_inv
    obtain ⟨_, y, status, cycle⟩ := run.bind_inv
    have stored := (taken.comp (onMouse_effect byte) behind).comp (onMouse_effect status) behind
    have whole := stored.comp (onMouse_effect cycle) behind
    refine ⟨whole.keyboard, whole.mouse.trans ?_, whole.handlers, whole.ports⟩
    rw [Mouse.after, if_pos first]
    rfl
  · rw [if_neg first] at run
    by_cases second : s.mouse.cycle = 1
    · rw [if_pos second] at run
      obtain ⟨b, w, fetched, run⟩ := run.bind_inv
      obtain ⟨rfl, taken⟩ := read fetched
      obtain ⟨_, x, byte, cycle⟩ := run.bind_inv
      have whole := (taken.comp (onMouse_effect byte) behind).comp (onMouse_effect cycle) behind
      refine ⟨whole.keyboard, whole.mouse.trans ?_, whole.handlers, whole.ports⟩
      rw [Mouse.after, if_neg first, if_pos second]
      rfl
    · have third : s.mouse.cycle = 2 := by
        rw [← UInt8.toNat_inj] at first second ⊢
        have bound := UInt8.lt_iff_toNat_lt.mp early
        change s.mouse.cycle.toNat < 3 at bound
        change s.mouse.cycle.toNat ≠ 0 at first
        change s.mouse.cycle.toNat ≠ 1 at second
        change s.mouse.cycle.toNat = 2
        omega
      rw [if_neg second, if_pos third] at run
      obtain ⟨b, w, fetched, run⟩ := run.bind_inv
      obtain ⟨rfl, taken⟩ := read fetched
      obtain ⟨_, x, byte, run⟩ := run.bind_inv
      obtain ⟨_, y, moved, run⟩ := run.bind_inv
      obtain ⟨_, z, drawn, run⟩ := run.bind_inv
      obtain ⟨_, z', printed, cycle⟩ := run.bind_inv
      have stored := (taken.comp (onMouse_effect byte) behind).comp (onMouse_effect moved) behind
      have shown := (stored.comp (interleaved_beside drawCursor_beside drawn) behind).comp
        (interleaved_beside printMouseInfo_beside printed) behind
      have whole := shown.comp (onMouse_effect cycle) behind
      refine ⟨whole.keyboard, whole.mouse.trans ?_, whole.handlers, whole.ports⟩
      rw [Mouse.after, if_neg first, if_neg second, if_pos third]
      rfl

theorem mouseHandler_takes {s t : Kernel σ} {v : UInt8} (early : s.mouse.cycle < 3)
    (serving : (view s.machine.bus).Serving .mouse v)
    (run : Interleaved (Arrives view) (mouseHandler hw) s () t) :
    Effect view id (Mouse.after v) (Takes .mouse v) s t := by
  obtain ⟨_, u, cycled, ended⟩ := run.bind_inv
  have ends := interleaved_beside (pic8259Eoi_beside ports (UInt8.ofNat (irqBase + 12))) ended
  exact (mouseCycle_takes ports early serving cycled).comp ends fun takes moves => takes.moves moves

end Handlers

section Dispatches

/-- What a byte does to the globals of the drivers. -/
def InputDevice.keyboardAfter : InputDevice → UInt8 → Keyboard → Keyboard
  | .keyboard, v, k => k.after (.key v)
  | .mouse, _, k => k

def InputDevice.mouseAfter : InputDevice → UInt8 → Mouse → Mouse
  | .keyboard, _, m => m
  | .mouse, v, m => m.after v

variable {σ : Type} {hw : Bus σ} {view : σ → Ps2}

/-- Both drivers are registered. -/
def InputRegistered (s : Kernel σ) : Prop :=
  ∀ d : InputDevice, s.handlers d.vector.toNat = some d.driver

/-- A dispatch gives the byte to the driver of the device that sent it. -/
theorem isrIrqHandler_takes (ports : Ps2Ports hw view) {s t : Kernel σ} {d : InputDevice}
    {v : UInt8} (registered : InputRegistered s) (early : s.mouse.cycle < 3)
    (serving : (view s.machine.bus).Serving d v)
    (run : Interleaved (Arrives view) (isrIrqHandler hw d.vector) s () t) :
    Effect view (d.keyboardAfter v) (d.mouseAfter v) (Takes d v) s t := by
  obtain ⟨u, _, looked, run⟩ := run.bind_inv
  obtain ⟨rfl, arrived⟩ := looked.get_inv
  obtain ⟨_, w, called, ended⟩ := run.bind_inv
  have beside := arrived.beside
  have serving' := beside.ports.keeps Step.serving serving
  have ends := interleaved_beside (pic8259Eoi_beside ports d.vector.toUInt8) ended
  rw [show u.handlers = s.handlers from beside.handlers, registered d] at called
  have handled : Effect view (d.keyboardAfter v) (d.mouseAfter v) (Takes d v) u w := by
    cases d with
    | keyboard => exact keyboardHandler_takes ports serving' called
    | mouse =>
        refine mouseHandler_takes ports ?_ serving' called
        rw [show u.mouse = s.mouse from beside.mouse]
        exact early
  exact (beside.comp handled fun moves takes => takes.after moves).comp ends
    fun takes moves => takes.moves moves

end Dispatches

end VDK
