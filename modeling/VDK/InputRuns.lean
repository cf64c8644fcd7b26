import VDK.InputDevices
import VDK.MouseFraming

/-!
# Runs with a keyboard and a mouse

A run is any sequence of interrupts from the two devices, accepted in any order, calls of
`kb_getchar`, and anything in between that leaves the drivers alone, while bytes are sent and
loaded at any time.
-/
namespace VDK
open Atomic Fuel Kernel SharedBuffer SharedBuffer.Controller

/-- A dispatch, with the byte that was in the buffer when the interrupt was accepted, or a
call of `kb_getchar` with the character it returned. -/
inductive InputEvent where
  | irq (d : InputDevice) (byte : UInt8)
  | getchar (c : UInt8)
  deriving DecidableEq, Repr

/-- The bytes of the dispatches for one device. -/
def served (d : InputDevice) : List InputEvent → List UInt8 :=
  List.filterMap fun
    | .irq e b => if e = d then some b else none
    | .getchar _ => none

def keyEvents : List InputEvent → List KeyEvent :=
  List.filterMap fun
    | .irq .keyboard b => some (.key b)
    | .irq .mouse _ => none
    | .getchar c => some (.getchar c)

section Runs

variable {σ : Type} (hw : Bus σ) (view : σ → Ps2)

/-- The processor accepts the interrupt of a line. -/
def Accepts (d : InputDevice) (s t : Kernel σ) : Prop :=
  ∃ b, t = s.setMachine { s.machine with bus := b } ∧ view b = (view s.machine.bus).accept d

def bufferByte (s : Kernel σ) : UInt8 := (view s.machine.bus).buffer.elim 0 Prod.snd

inductive InputRun (s₀ : Kernel σ) : List InputEvent → Kernel σ → Prop
  | start : InputRun s₀ [] s₀
  | irq {events : List InputEvent} {s t u : Kernel σ} {d : InputDevice} (run : InputRun s₀ events s)
      (raised : (view s.machine.bus).line d = true) (accepted : Accepts view d s t)
      (handled : Interleaved (Arrives view) (isrIrqHandler hw d.vector) t () u) :
      InputRun s₀ (events ++ [.irq d (bufferByte view s)]) u
  | getchar {events : List InputEvent} {s t : Kernel σ} {c : UInt8} (run : InputRun s₀ events s)
      (returned : (kbGetchar 1).run.run s = (some c, t)) : InputRun s₀ (events ++ [.getchar c]) t
  | other {events : List InputEvent} {s t : Kernel σ} (run : InputRun s₀ events s)
      (beside : Beside view s t) : InputRun s₀ events t

/-- The drivers are registered, and of the bytes that were sent none has been read. -/
structure InputReady (s : Kernel σ) : Prop where
  registered : InputRegistered s
  early : s.mouse.cycle < 3
  bytes : (view s.machine.bus).Balanced fun _ => []
  signalled : (view s.machine.bus).Signalled

/-- Each driver has been given the bytes of its own device, each of them once and in order. -/
structure Delivered (s₀ : Kernel σ) (events : List InputEvent) (s : Kernel σ) : Prop where
  bytes : (view s.machine.bus).Balanced fun d => served d events
  keyboard : s.keyboard = (keyEvents events).foldl Keyboard.after s₀.keyboard
  answered : Answered s₀.keyboard (keyEvents events)
  mouse : s.mouse = (served .mouse events).foldl (fun m b => m.after b) s₀.mouse
  signalled : (view s.machine.bus).Signalled

theorem served_append (d : InputDevice) (first second : List InputEvent) :
    served d (first ++ second) = served d first ++ served d second := List.filterMap_append

theorem served_cons (e d : InputDevice) (b : UInt8) (events : List InputEvent) :
    served e (.irq d b :: events) = if d = e then b :: served e events else served e events := by
  unfold served
  by_cases own : d = e
  · simp [own]
  · simp [own]

theorem served_irq (events : List InputEvent) (d e : InputDevice) (b : UInt8) :
    served e (events ++ [.irq d b]) =
      if d = e then served e events ++ [b] else served e events := by
  rw [served_append, served_cons]
  split
  · rfl
  · exact List.append_nil _

theorem served_getchar (events : List InputEvent) (e : InputDevice) (c : UInt8) :
    served e (events ++ [.getchar c]) = served e events :=
  (served_append e events [.getchar c]).trans (List.append_nil _)

theorem keyEvents_append (first second : List InputEvent) :
    keyEvents (first ++ second) = keyEvents first ++ keyEvents second := List.filterMap_append

theorem served_update (events : List InputEvent) (d : InputDevice) (b : UInt8) :
    Function.update (fun e => served e events) d (served d events ++ [b]) =
      fun e => served e (events ++ [.irq d b]) := by
  funext e
  rw [served_irq, Function.update_apply]
  by_cases own : e = d
  · rw [if_pos own, if_pos own.symm, own]
  · rw [if_neg own, if_neg fun same => own same.symm]

theorem Mouse.after_early {m : Mouse} (early : m.cycle < 3) (b : UInt8) :
    (m.after b).cycle < 3 := by
  have small := UInt8.lt_iff_toNat_lt.mp early
  have below : m.cycle.toNat % 3 = m.cycle.toNat := Nat.mod_eq_of_lt small
  rw [UInt8.lt_iff_toNat_lt, Mouse.after_cycle below.symm b]
  exact Nat.mod_lt _ (by decide)

variable {hw view}

/-- The byte that a dispatch is about, and what accepting it leaves. -/
theorem Accepts.serving {s t : Kernel σ} {d : InputDevice} (accepted : Accepts view d s t)
    (signalled : (view s.machine.bus).Signalled) (raised : (view s.machine.bus).line d = true) :
    (view t.machine.bus).Serving d (bufferByte view s) := by
  obtain ⟨b, rfl, same⟩ := accepted
  obtain ⟨v, serving⟩ := signalled.accept raised
  have byte : bufferByte view s = v := by
    rw [bufferByte, show (view s.machine.bus).buffer = some (d, v) from serving.buffer]
    rfl
  rw [byte]
  exact same ▸ serving

theorem Delivered.irq (ports : Ps2Ports hw view) {s₀ s t u : Kernel σ} {events : List InputEvent}
    {d : InputDevice} (before : Delivered view s₀ events s) (registered : InputRegistered s)
    (early : s.mouse.cycle < 3) (raised : (view s.machine.bus).line d = true)
    (accepted : Accepts view d s t)
    (handled : Interleaved (Arrives view) (isrIrqHandler hw d.vector) t () u) :
    Delivered view s₀ (events ++ [.irq d (bufferByte view s)]) u ∧ InputRegistered u ∧
      u.mouse.cycle < 3 := by
  have serving := accepted.serving before.signalled raised
  generalize bufferByte view s = v at serving ⊢
  obtain ⟨b, shape, same⟩ := accepted
  have effect := isrIrqHandler_takes ports (shape ▸ registered) (shape ▸ early) serving handled
  have balanced : (view b).Balanced fun d => served d events := by
    rw [same]
    exact before.bytes
  subst shape
  refine ⟨⟨?_, ?_, ?_, ?_, effect.ports.signalled⟩, ?_, ?_⟩
  · rw [← served_update]
    exact effect.ports.balanced balanced
  · rw [effect.keyboard, keyEvents_append, List.foldl_append, ← before.keyboard]
    cases d with
    | keyboard => rfl
    | mouse => rfl
  · rw [keyEvents_append, answered_append]
    refine ⟨before.answered, ?_⟩
    cases d with
    | keyboard => trivial
    | mouse => trivial
  · rw [effect.mouse]
    cases d with
    | keyboard =>
        rw [served_irq, if_neg (by decide)]
        exact before.mouse
    | mouse =>
        rw [served_irq, if_pos rfl, List.foldl_append, ← before.mouse]
        rfl
  · intro e
    rw [effect.handlers]
    exact registered e
  · rw [effect.mouse]
    cases d with
    | keyboard => exact early
    | mouse => exact Mouse.after_early early v

/-- A call of `kb_getchar` whose first test succeeds. -/
theorem kbGetchar_effect {s t : Kernel σ} {c : UInt8}
    (returned : (kbGetchar 1).run.run s = (some c, t)) : positive s.keyboard.ch = true ∧
      c = s.keyboard.ch ∧ Effect view (fun k => k.after (.getchar c)) id Moves s t := by
  obtain ⟨there, value, after⟩ := kbGetchar_after returned
  refine ⟨there, value, after, ?_, ?_, ?_⟩
  all_goals
    rw [kbGetchar, Prog.run_bind, Prog.run_get, Exec.run_bind, Exec.run_get, Exec.andThen_some,
      if_pos there] at returned
    cases returned
  · rfl
  · rfl
  · exact .refl

/-- In every run the drivers share the port as if each had its own. -/
theorem InputRun.delivered (ports : Ps2Ports hw view) {s₀ s : Kernel σ} {events : List InputEvent}
    (ready : InputReady view s₀) (run : InputRun hw view s₀ events s) :
    Delivered view s₀ events s ∧ InputRegistered s ∧ s.mouse.cycle < 3 := by
  induction run with
  | start =>
      exact ⟨⟨ready.bytes, rfl, trivial, rfl, ready.signalled⟩, ready.registered, ready.early⟩
  | irq _ raised accepted handled ih =>
      obtain ⟨before, registered, early⟩ := ih
      exact before.irq ports registered early raised accepted handled
  | @getchar events s t c _ returned ih =>
      obtain ⟨before, registered, early⟩ := ih
      have called : positive s.keyboard.ch = true ∧ c = s.keyboard.ch ∧
          Effect view (fun k => k.after (.getchar c)) id Moves s t := kbGetchar_effect returned
      obtain ⟨there, value, effect⟩ := called
      have same : s.keyboard = (keyEvents events).foldl Keyboard.after s₀.keyboard :=
        before.keyboard
      refine ⟨⟨?_, ?_, ?_, ?_, ?_⟩, ?_, ?_⟩
      · simp only [served_getchar]
        exact effect.ports.keeps Step.balanced before.bytes
      · rw [effect.keyboard, keyEvents_append, List.foldl_append, ← same]
        rfl
      · rw [keyEvents_append, answered_append, ← same]
        exact ⟨before.answered, there, value, trivial⟩
      · rw [served_getchar]
        exact effect.mouse.trans before.mouse
      · exact effect.ports.keeps Step.signalled before.signalled
      · intro d
        rw [effect.handlers]
        exact registered d
      · rw [effect.mouse]
        exact early
  | other _ beside ih =>
      obtain ⟨before, registered, early⟩ := ih
      refine ⟨⟨beside.ports.keeps Step.balanced before.bytes, beside.keyboard.trans before.keyboard,
        before.answered, beside.mouse.trans before.mouse,
        beside.ports.keeps Step.signalled before.signalled⟩, ?_, ?_⟩
      · intro d
        rw [beside.handlers]
        exact registered d
      · rw [beside.mouse]
        exact early

end Runs

section Playback

/-- The bit of a full buffer, and that of the mouse. -/
def ps2Status : Option (InputDevice × UInt8) → UInt8
  | none => 0
  | some (.keyboard, _) => 0x01
  | some (.mouse, _) => 0x21

theorem ps2Status_full (d : InputDevice) (v : UInt8) : ps2Status (some (d, v)) &&& 1 = 1 := by
  cases d with
  | keyboard => exact (by decide : (0x01 : UInt8) &&& 1 = 1)
  | mouse => exact (by decide : (0x21 : UInt8) &&& 1 = 1)

/-- A controller on its own. -/
def ps2Bus : Bus Ps2 where
  inb port c :=
    if port = keyboardStatusPort then (ps2Status c.buffer, c)
    else if port = keyboardDataPort then (c.buffer.elim 0 Prod.snd, c.emptied)
    else (0, c)
  inw _ c := (0, c)
  inl _ c := (0, c)
  outb _ _ c := c
  outw _ _ c := c

theorem ps2Bus_ports : Ps2Ports ps2Bus id where
  status c := by
    change ps2Status c.buffer &&& 1 = 0 ↔ c.buffer = none
    match c.buffer with
    | none => exact ⟨fun _ => rfl, fun _ => rfl⟩
    | some (d, v) =>
        rw [ps2Status_full]
        exact ⟨fun clear => absurd clear (by decide), fun none => nomatch none⟩
  polled _ := rfl
  data c d v full := by
    change c.buffer.elim 0 Prod.snd = v
    rw [show c.buffer = some (d, v) from full]
    rfl
  emptied _ := rfl
  ended _ _ _ := rfl

variable {s : Kernel Ps2} {d : InputDevice} {v : UInt8}

theorem ps2_status (full : s.machine.bus.buffer = some (d, v)) :
    (inportb ps2Bus keyboardStatusPort s.machine).1 &&& 1 = 1 := by
  change ps2Status s.machine.bus.buffer &&& 1 = 1
  rw [full, ps2Status_full]

def fetched (m : Machine Ps2) : Machine Ps2 :=
  (inportb ps2Bus keyboardDataPort (inportb ps2Bus keyboardStatusPort m).2).2

theorem getScancode_ps2 (full : s.machine.bus.buffer = some (d, v)) :
    (getScancode ps2Bus).run.run s = (some v, s.setMachine (fetched s.machine)) := by
  have polls : (2 ^ 31 - 1000 : Nat) = 2147482647 + 1 := rfl
  have status := ps2_status full
  have set : ¬(inportb ps2Bus keyboardStatusPort s.machine).1 &&& 1 = 0 := by
    rw [status]
    decide
  have data := ps2Bus_ports.data s.machine.bus d v full
  rw [getScancode, polls, pollScancode, Prog.run_bind, Exec.run_bind, run_inb, Exec.andThen_some,
    if_neg set, run_inb, ← data]
  rfl

theorem mouseRead_ps2 (full : s.machine.bus.buffer = some (d, v)) :
    (mouseRead ps2Bus).run.run s = (some v, s.setMachine (fetched s.machine)) := by
  have polls : (100000 : Nat) = 99999 + 1 := rfl
  have status := ps2_status full
  have ready : mouseReady false (inportb ps2Bus keyboardStatusPort s.machine).1 = true :=
    decide_eq_true status
  have data := ps2Bus_ports.data s.machine.bus d v full
  rw [mouseRead, mouseWait, polls, mouseWaitPolls, Prog.run_bind, Exec.run_bind, Prog.run_bind,
    Exec.run_bind, run_inb, Exec.andThen_some, if_pos ready, Prog.run_pure, Exec.run_pure,
    Exec.andThen_some, run_inb, ← data]
  rfl

theorem eoi_ps2 (irq : UInt8) (m : Machine Ps2) :
    (sendAll ps2Bus (eoiWrites irq) m).bus = m.bus := by
  unfold eoiWrites
  split
  · rfl
  · rfl

/-- An undisturbed dispatch empties the buffer, and changes nothing else of the controller. -/
theorem isrIrqHandler_ps2 (registered : InputRegistered s) (early : s.mouse.cycle < 3)
    (full : s.machine.bus.buffer = some (d, v)) :
    ∃ t, (isrIrqHandler ps2Bus d.vector).run.run s = (some (), t) ∧
      t.machine.bus = s.machine.bus.emptied := by
  have called : ∃ t, (callHandler ps2Bus (some d.driver)).run.run s = (some (), t) ∧
      t.machine.bus = s.machine.bus.emptied := by
    cases d with
    | keyboard =>
        have code := getScancode_ps2 (s := onKeyboard (Keyboard.setCh 0) s) full
        refine ⟨onKeyboard (Keyboard.receive v)
          ((onKeyboard (Keyboard.setCh 0) s).setMachine (fetched s.machine)), ?_, rfl⟩
        change (keyboardHandler ps2Bus).run.run s = _
        rw [keyboardHandler, Prog.run_bind, Prog.run_modify, Exec.run_bind, Exec.run_modify,
          Exec.andThen_some, Prog.run_bind, Exec.run_bind, code, Exec.andThen_some,
          Prog.run_modify, Exec.run_modify]
        rfl
    | mouse =>
        obtain ⟨_, t, ran, _, ports⟩ := mouseHandler_returns ps2Bus (mouseRead_ps2 full)
        refine ⟨t, ran, ?_⟩
        rw [ports early, eoi_ps2]
        rfl
  obtain ⟨t, ran, bus⟩ := called
  have ends := run_pic8259Eoi ps2Bus d.vector.toUInt8 t
  refine ⟨t.setMachine (sendAll ps2Bus (eoiWrites d.vector.toUInt8) t.machine), ?_,
    (eoi_ps2 d.vector.toUInt8 t.machine).trans bus⟩
  rw [isrIrqHandler, Prog.run_bind, Prog.run_get, Exec.run_bind, Exec.run_get, Exec.andThen_some,
    Prog.run_bind, Exec.run_bind, registered d, ran, Exec.andThen_some, ends]

/-- Nothing is in the buffer, and these bytes wait behind it. -/
structure Waits (queue : InputDevice → List UInt8) (c : Ps2) : Prop where
  buffer : c.buffer = none
  line : ∀ e, c.line e = false
  queue : c.queue = queue

theorem InputRun.serve {s₀ : Kernel Ps2} {events : List InputEvent} (ready : InputReady id s₀)
    (run : InputRun ps2Bus id s₀ events s) {queue : InputDevice → List UInt8}
    (waits : Waits queue s.machine.bus) {rest : List UInt8} (next : queue d = v :: rest) :
    ∃ t, InputRun ps2Bus id s₀ (events ++ [.irq d v]) t ∧
      Waits (Function.update queue d rest) t.machine.bus := by
  obtain ⟨_, registered, early⟩ := run.delivered ps2Bus_ports ready
  let loaded := s.setMachine { s.machine with bus := s.machine.bus.load d v rest }
  let accepted := s.setMachine { s.machine with bus := (s.machine.bus.load d v rest).accept d }
  have step : Step s.machine.bus (s.machine.bus.load d v rest) :=
    .load waits.buffer (by rw [waits.queue, next])
  have later : InputRun ps2Bus id s₀ events loaded := run.other ⟨rfl, rfl, rfl, .single step⟩
  have raised : loaded.machine.bus.line d = true := Function.update_self ..
  obtain ⟨t, handled, bus⟩ := isrIrqHandler_ps2 (s := accepted) registered early rfl
  have quiet : ∀ u : Kernel Ps2, Arrives id u u := fun u => ⟨_, rfl, .refl⟩
  refine ⟨t, later.irq raised ⟨_, rfl, rfl⟩ (Interleaved.of_run quiet handled), ?_, ?_, ?_⟩
  · rw [bus]
    rfl
  · intro e
    rw [bus]
    change Function.update (Function.update s.machine.bus.line d true) d false e = false
    rw [Function.update_idem, Function.update_apply]
    split
    · rfl
    · exact waits.line e
  · rw [bus]
    exact congrArg (fun q => Function.update q d rest) waits.queue

/-- Whatever order of interrupts and calls is asked for, some run is one. -/
theorem InputRun.play {s₀ s : Kernel Ps2} {events rest : List InputEvent} (ready : InputReady id s₀)
    (run : InputRun ps2Bus id s₀ events s) (waits : Waits (fun d => served d rest) s.machine.bus)
    (answered : Answered s.keyboard (keyEvents rest)) :
    ∃ t, InputRun ps2Bus id s₀ (events ++ rest) t := by
  induction rest generalizing s events with
  | nil =>
      rw [List.append_nil]
      exact ⟨s, run⟩
  | cons e rest ih =>
      have before := (run.delivered ps2Bus_ports ready).1.keyboard
      rw [List.append_cons]
      cases e with
      | irq d v =>
          have front : served d (.irq d v :: rest) = v :: served d rest := by
            rw [served_cons, if_pos rfl]
          have behind : Function.update (fun e => served e (.irq d v :: rest)) d (served d rest) =
              fun e => served e rest := by
            funext e
            rw [Function.update_apply]
            by_cases own : e = d
            · rw [if_pos own, own]
            · rw [if_neg own, served_cons, if_neg fun same => own same.symm]
          obtain ⟨t, ran, left⟩ := run.serve ready waits front
          have after := (ran.delivered ps2Bus_ports ready).1.keyboard
          rw [keyEvents_append, List.foldl_append, ← before] at after
          refine ih ran (behind ▸ left) ?_
          rw [after]
          cases d with
          | keyboard => exact answered
          | mouse => exact answered
      | getchar c =>
          obtain ⟨there, rfl, later⟩ := answered
          obtain ⟨t, returned, machine⟩ := kbGetchar_returns there
          refine ih (run.getchar returned) (by rw [machine]; exact waits) ?_
          rw [(kbGetchar_after returned).2.2]
          exact later

/-- The drivers are registered, and all bytes of the events wait in their queues. -/
def inputQueued (events : List InputEvent) : Kernel Ps2 :=
  { zeroed ⟨fun d => served d events, fun d => served d events, none, fun _ => false⟩ with
    handlers := driversRegistered }

theorem inputQueued_ready (events : List InputEvent) : InputReady id (inputQueued events) where
  registered := by
    intro d
    cases d with
    | keyboard => rfl
    | mouse => rfl
  early := (by decide : (0 : UInt8) < 3)
  bytes _ := rfl
  signalled _ := ⟨fun raised => Bool.noConfusion raised, fun ⟨_, full⟩ => nomatch full⟩

theorem inputQueued_run (events : List InputEvent)
    (answered : Answered ⟨false, false, 0, 0⟩ (keyEvents events)) :
    ∃ t, InputRun ps2Bus id (inputQueued events) events t :=
  InputRun.start.play (inputQueued_ready events) ⟨rfl, fun _ => rfl, rfl⟩ answered

end Playback

section Users

variable {σ : Type} {hw : Bus σ} {view : σ → Ps2}

/-- However bytes, interrupts and calls of `kb_getchar` are interleaved, each byte is given
once, in the order of sending, to the driver of the device that sent it. -/
theorem input_devices_share_port (ports : Ps2Ports hw view) {s₀ s : Kernel σ}
    {events : List InputEvent} (ready : InputReady view s₀) (run : InputRun hw view s₀ events s) :
    Delivered view s₀ events s :=
  (run.delivered ports ready).1

/-- A key and a byte of the mouse, of which the second is served first. -/
theorem input_devices_share_port_both : ∃ t,
    InputRun ps2Bus id (inputQueued [.irq .mouse 0x08, .irq .keyboard 0x1E])
      [.irq .mouse 0x08, .irq .keyboard 0x1E] t ∧
    Delivered id (inputQueued [.irq .mouse 0x08, .irq .keyboard 0x1E])
      [.irq .mouse 0x08, .irq .keyboard 0x1E] t := by
  obtain ⟨t, run⟩ := inputQueued_run [.irq .mouse 0x08, .irq .keyboard 0x1E] (by decide)
  exact ⟨t, run, input_devices_share_port ps2Bus_ports (inputQueued_ready _) run⟩

/-- Where a packet is meant to bring the cursor. -/
def MousePacket.pointed (p : MousePacket) (place : Int × Int) : Int × Int :=
  (nearest vgaWidth (place.1 + p.dx), nearest vgaHeight (place.2 - p.dy))

/-- What the three bytes of a packet leave. -/
def Mouse.afterPacket (m : Mouse) (p : MousePacket) : Mouse :=
  ((m.after p.status).after p.x).after p.y

/-- Every packet fits the position it is sent at. -/
def PacketsFit : Mouse → List MousePacket → Prop
  | _, [] => True
  | m, p :: ps => p.FitsX m ∧ p.FitsY m ∧ PacketsFit (m.afterPacket p) ps

instance decidablePacketsFit : (m : Mouse) → (ps : List MousePacket) → Decidable (PacketsFit m ps)
  | _, [] => .isTrue trivial
  | m, p :: ps =>
      letI := decidablePacketsFit (m.afterPacket p) ps
      inferInstanceAs (Decidable (_ ∧ _ ∧ _))

/-- Packets that fit bring the cursor where they are meant to. -/
theorem packets_point {m : Mouse} (on : m.OnScreen) (idle : m.cycle = 0) {ps : List MousePacket}
    (fit : PacketsFit m ps) :
    let m' := (ps.flatMap MousePacket.bytes).foldl (fun m b => m.after b) m
    (m'.xPos, m'.yPos) = ps.foldl (fun place p => p.pointed place) (m.xPos, m.yPos) := by
  induction ps generalizing m with
  | nil => rfl
  | cons p ps ih =>
      obtain ⟨fitsX, fitsY, rest⟩ := fit
      have moves : p.Moves m (m.afterPacket p) := (on.moves_iff idle p).mpr ⟨fitsX, fitsY⟩
      have between : (m.afterPacket p).cycle = 0 := by
        rw [Mouse.afterPacket, Mouse.after_packet idle]
        rfl
      have later := ih moves.onScreen between rest
      have first : p.pointed (m.xPos, m.yPos) =
          ((m.afterPacket p).xPos, (m.afterPacket p).yPos) := by
        rw [moves.x, moves.y]
        rfl
      rw [List.flatMap_cons, List.foldl_append, List.foldl_cons, first]
      exact later

/-- A text that is typed while the mouse is moved is read back, and the cursor ends where the
packets bring it, however the two are interleaved. -/
theorem typing_while_pointing (ports : Ps2Ports hw view) {s₀ s : Kernel σ}
    {events : List InputEvent} {text : List UInt8} {packets : List MousePacket}
    (ready : InputReady view s₀)
    (run : InputRun hw view s₀ events s) (typable : ∀ c ∈ text, Typable c)
    (plain : s₀.keyboard.Unmodified)
    (typed : (keyEvents events).map KeyEvent.call = (typing text).map KeyEvent.call)
    (on : s₀.mouse.OnScreen) (idle : s₀.mouse.cycle = 0)
    (sent : served .mouse events = packets.flatMap MousePacket.bytes)
    (fit : PacketsFit s₀.mouse packets) :
    charsRead (keyEvents events) = text ∧ (s.mouse.xPos, s.mouse.yPos) =
      packets.foldl (fun place p => p.pointed place) (s₀.mouse.xPos, s₀.mouse.yPos) := by
  obtain ⟨delivered, _⟩ := run.delivered ports ready
  have same := delivered.answered.unique (typing_answered typable plain).1 typed
  constructor
  · rw [same, charsRead_typing typable]
  · rw [delivered.mouse, sent]
    exact packets_point on idle fit

/-- The letter a is typed within one packet of the mouse, which moves the cursor by three. -/
def letterAndMove : List InputEvent :=
  [.irq .keyboard 0x1E, .irq .mouse 0x08, .irq .mouse 3, .getchar 0x61, .irq .mouse 0,
    .irq .keyboard 0x9E]

def rightBy3 : MousePacket := { rightBy200 with x := 3 }

theorem typing_while_pointing_letter : ∃ t, InputRun ps2Bus id (inputQueued letterAndMove)
    letterAndMove t ∧ charsRead (keyEvents letterAndMove) = [0x61] ∧
      (t.mouse.xPos, t.mouse.yPos) = (3, 0) := by
  obtain ⟨t, run⟩ := inputQueued_run letterAndMove (by decide)
  have typable : ∀ c ∈ [(0x61 : UInt8)], Typable c := by
    intro c member
    rw [List.mem_singleton.mp member]
    decide
  have sent : served .mouse letterAndMove = [rightBy3].flatMap MousePacket.bytes := by decide
  obtain ⟨read, place⟩ := typing_while_pointing ps2Bus_ports (inputQueued_ready _) run typable
    (by decide) (by decide) ⟨(by decide : (0 : Int) ≤ 0 ∧ (0 : Int) < vgaWidth),
      (by decide : (0 : Int) ≤ 0 ∧ (0 : Int) < vgaHeight)⟩ rfl sent (by decide)
  exact ⟨t, run, read, place⟩

end Users

end VDK
