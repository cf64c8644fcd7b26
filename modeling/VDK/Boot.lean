import VDK.Dispatch

/-!
# Starting up (`kmain` of `libsa/main.c`)

The main line from `idt_init` on, with interrupts arriving between its steps once
they are enabled. What `kmain` does after `terminal_initialize` is any program that
keeps the record of cell writes. The descriptor tables do not matter here.
-/
namespace VDK
open Atomic Fuel Kernel

section Boot

variable {σ : Type} (hw : Bus σ)

/-- The record of cell writes is only added to. -/
def Extends (t u : Terminal) : Prop := ∃ ws, u.writes = t.writes ++ ws

/-- A program of the kernel that does not erase the record. -/
structure Recording (σ : Type) where
  program : Prog (Kernel σ) Unit
  keeps : Steps (fun s t => Extends s.terminal t.terminal) program

/-- `idt_init`: the PIC is set up, and `sti` is its last instruction. -/
def idtInit : Prog (Kernel σ) Unit := do
  pic8259Init hw
  Prog.modify fun s => { s with interrupts := true }

def kmain (rest : Recording σ) : Prog (Kernel σ) Unit := do
  idtInit hw
  keyboardInit
  mouseInit hw
  onTerminal terminalInitialize
  rest.program

/-- Interrupts that arrive between two steps: any number of IRQs while they are enabled,
each handled to its end. -/
def Arrive : Kernel σ → Kernel σ → Prop :=
  Relation.ReflTransGen fun s t => s.interrupts = true ∧ ∃ vector : UInt32,
    32 ≤ vector ∧ vector ≤ 47 ∧ (isrIrqHandler hw vector).run.run s = (some (), t)

end Boot

section Recorded

instance : IsPreorder Terminal Extends where
  refl _ := ⟨[], (List.append_nil _).symm⟩
  trans t u v := by
    rintro ⟨ws, first⟩ ⟨vs, second⟩
    exact ⟨ws ++ vs, by rw [second, first, List.append_assoc]⟩

theorem Extends.mem {t u : Terminal} (h : Extends t u) {w : CellWrite} (member : w ∈ t.writes) :
    w ∈ u.writes := by
  obtain ⟨ws, extended⟩ := h
  rw [extended]
  exact List.mem_append_left ws member

theorem Extends.of_same {t u : Terminal} (same : u.writes = t.writes) : Extends t u :=
  ⟨[], same.trans (List.append_nil _).symm⟩

theorem extends_store (t : Terminal) (i : Nat) (v : UInt16) : Extends t (Terminal.store i v t) :=
  ⟨_, rfl⟩

theorem terminalPutentryat_extends (c color : UInt8) (x y : Nat) :
    Ends Extends (terminalPutentryat c color x y) := Ends.modify fun t => extends_store t _ _

theorem screenInitialize_extends (fg bg : UInt8) : Ends Extends (screenInitialize fg bg) := by
  have set : ∀ f : Terminal → Terminal, (∀ t, (f t).writes = t.writes) →
      Ends Extends (Prog.modify f) := fun f same => Ends.modify fun t => .of_same (same t)
  apply Ends.bind (set _ fun t => rfl)
  intro _
  apply Ends.bind (set _ fun t => rfl)
  intro _
  apply Ends.bind (set _ fun t => rfl)
  intro _
  apply Ends.bind (set _ fun t => rfl)
  intro _
  exact Ends.forEach (fun y => Ends.forEach (fun x => Ends.modify fun t => extends_store t _ _) _) _

theorem keepAtBottom_extends (row : Nat) : Ends Extends (keepAtBottom row) := by
  unfold keepAtBottom
  split
  · refine Ends.bind (Ends.modify fun t => .of_same rfl) fun _ => Ends.bind ?_ fun _ => ?_
    · exact Ends.forEach (fun y => Ends.forEach (fun x =>
        Ends.modify fun t => extends_store t _ _) _) _
    · exact Ends.forEach (fun x => Ends.modify fun t => extends_store t _ _) _
  · exact Ends.pure ()

theorem terminalPutchar_extends (c : UInt8) : Ends Extends (terminalPutchar c) := by
  unfold terminalPutchar
  split
  · apply Ends.bind (Ends.act fun t => .of_same rfl)
    intro _
    apply Ends.bind (Ends.modify fun t => .of_same rfl)
    intro _
    exact Ends.bind Ends.get fun t => keepAtBottom_extends t.row
  · apply Ends.bind Ends.get
    intro t
    apply Ends.bind (terminalPutentryat_extends _ _ _ _)
    intro _
    apply Ends.bind (Ends.act fun t => .of_same rfl)
    intro column
    split
    · apply Ends.bind (Ends.modify fun t => .of_same rfl)
      intro _
      exact Ends.bind (Ends.act fun t => .of_same rfl) fun row => keepAtBottom_extends row
    · exact Ends.pure ()

theorem printLiteral_extends {fmt : ByteMem.Text} (plain : Plain fmt.chars) :
    Ends Extends (printLiteral fmt) := by
  rw [printLiteral, printf_plain terminalPutchar _ plain]
  exact Ends.forEach terminalPutchar_extends fmt.chars

end Recorded

section Kept

variable {σ : Type} (hw : Bus σ)

/-- The same of the kernel's terminal. -/
def Keeping (s t : Kernel σ) : Prop := Extends s.terminal t.terminal

instance : IsPreorder (Kernel σ) Keeping where
  refl s := refl_of Extends s.terminal
  trans _ _ _ h k := trans_of Extends h k

theorem Keeping.of_same {s t : Kernel σ} (same : t.terminal = s.terminal) : Keeping s t :=
  Extends.of_same (congrArg Terminal.writes same)

theorem Keeping.of_reads (s t : Kernel σ) (h : Reads s t) : Keeping s t := by
  obtain ⟨m, _, rfl, _⟩ := h
  exact .of_same rfl

theorem inb_keeping (port : UInt16) : Ends Keeping (inb hw port) :=
  (inb_reads hw port).mono .of_reads

theorem outb_keeping (port : UInt16) (value : UInt8) : Ends Keeping (outb hw port value) :=
  Ends.modify fun _ => .of_same rfl

theorem onTerminal_keeping {α : Type} {p : Prog Terminal α} (h : Ends Extends p) :
    Ends (Keeping (σ := σ)) (onTerminal p) :=
  Ends.within (R := Keeping) (fun s t (extended : Extends s.terminal t) =>
    (show Keeping s (setTerminal t s) from extended)) h

theorem literal_keeping {fmt : ByteMem.Text} (plain : Plain fmt.chars) :
    Ends (Keeping (σ := σ)) (onTerminal (printLiteral fmt)) :=
  onTerminal_keeping (printLiteral_extends plain)

theorem onMouse_keeping (f : Mouse → Mouse) :
    Ends (Keeping (σ := σ)) (Prog.modify (onMouse f)) := Ends.modify fun _ => .of_same rfl

theorem mouseRead_keeping : Ends Keeping (mouseRead hw) := (mouseRead_reads hw).mono .of_reads

theorem mouseWait_keeping (type : Bool) : Ends Keeping (mouseWait hw type) :=
  (mouseWait_reads hw type).mono .of_reads

theorem pic8259Eoi_keeping (irq : UInt8) : Ends Keeping (pic8259Eoi hw irq) :=
  Ends.bind (Ends.when _ (outb_keeping hw _ _)) fun _ => outb_keeping hw _ _

theorem mouseHandler_keeping : Ends Keeping (mouseHandler hw) := by
  refine Ends.bind ?_ fun _ => pic8259Eoi_keeping hw _
  apply Ends.bind Ends.get
  intro s
  split
  · apply Ends.bind (mouseRead_keeping hw)
    intro b
    apply Ends.bind (onMouse_keeping _)
    intro _
    exact Ends.bind (onMouse_keeping _) fun _ => onMouse_keeping _
  · split
    · apply Ends.bind (mouseRead_keeping hw)
      intro b
      exact Ends.bind (onMouse_keeping _) fun _ => onMouse_keeping _
    · split
      · apply Ends.bind (mouseRead_keeping hw)
        intro b
        apply Ends.bind (onMouse_keeping _)
        intro _
        refine Ends.bind (onMouse_keeping _) fun _ => Ends.bind ?_ fun _ => Ends.bind ?_ fun _ => ?_
        · apply Ends.bind (onTerminal_keeping (screenInitialize_extends _ _))
          intro _
          exact Ends.bind Ends.get fun _ => onTerminal_keeping (terminalPutentryat_extends _ _ _ _)
        · have click : ∀ (c : Prop) [Decidable c] (fmt : ByteMem.Text), Plain fmt.chars →
              Ends (Keeping (σ := σ)) (Prog.when c (onTerminal (printLiteral fmt))) :=
            fun c _ fmt plain => Ends.when c (literal_keeping plain)
          apply Ends.bind Ends.get
          intro _
          apply Ends.bind (click _ _ (by decide))
          intro _
          apply Ends.bind Ends.get
          intro _
          apply Ends.bind (click _ _ (by decide))
          intro _
          exact Ends.bind Ends.get fun _ => click _ _ (by decide)
        · exact onMouse_keeping _
      · exact Ends.pure ()

theorem isrIrqHandler_keeping (vector : UInt32) : Ends Keeping (isrIrqHandler hw vector) := by
  refine Ends.bind Ends.get fun s => Ends.bind ?_ fun _ => pic8259Eoi_keeping hw _
  match s.handlers vector.toNat with
  | none => exact Ends.pure ()
  | some .keyboardHandler =>
      apply Ends.bind (Ends.modify fun s => .of_same rfl)
      intro _
      apply Ends.bind ((getScancode_reads hw).mono .of_reads)
      intro scancode
      exact Ends.modify fun s => .of_same rfl
  | some .mouseHandler => exact mouseHandler_keeping hw

theorem arrive_keeping (s t : Kernel σ) (arrived : Arrive hw s t) : Keeping s t := by
  induction arrived with
  | refl => exact refl_of Keeping s
  | tail _ irq ih =>
      obtain ⟨_, vector, _, _, handled⟩ := irq
      obtain ⟨_, _, ran, step⟩ := (isrIrqHandler_keeping hw vector).returns _
      rw [handled] at ran
      cases ran
      exact trans_of Keeping ih step

end Kept

section Boot

variable {σ : Type} (hw : Bus σ)

theorem printed_keeping (c : Prop) [Decidable c] {fmt : ByteMem.Text} (plain : Plain fmt.chars)
    {p : Prog (Kernel σ) Unit} (hp : Ends Keeping p) :
    Ends Keeping (if c then onTerminal (printLiteral fmt) else p) := by
  split
  · exact literal_keeping plain
  · exact hp

theorem mouseWrite_keeping (data : UInt8) : Ends Keeping (mouseWrite hw data) := by
  apply Ends.bind (mouseWait_keeping hw true)
  intro _
  apply Ends.bind (outb_keeping hw _ _)
  intro _
  exact Ends.bind (mouseWait_keeping hw true) fun _ => outb_keeping hw _ _

theorem setMouseRate_keeping (rate : UInt8) : Ends Keeping (setMouseRate hw rate) := by
  apply Ends.bind (outb_keeping hw _ _)
  intro _
  apply Ends.bind (mouseRead_keeping hw)
  intro _
  refine printed_keeping _ (by decide) ?_
  apply Ends.bind (outb_keeping hw _ _)
  intro _
  apply Ends.bind (mouseRead_keeping hw)
  intro _
  exact printed_keeping _ (by decide) (Ends.pure ())

theorem register_keeping (num : Nat) (handler : Isr) :
    Ends (Keeping (σ := σ)) (isrRegisterInterruptHandler num handler) :=
  Ends.when (num < noInterruptHandlers) (Ends.modify fun _ => .of_same rfl)

theorem mouseEnable_keeping : Ends Keeping (mouseEnable hw) := by
  apply Ends.bind (mouseWrite_keeping hw _)
  intro _
  apply Ends.bind (mouseRead_keeping hw)
  intro _
  refine printed_keeping _ (by decide) ?_
  apply Ends.bind (mouseWrite_keeping hw _)
  intro _
  apply Ends.bind (mouseRead_keeping hw)
  intro _
  exact printed_keeping _ (by decide) (register_keeping _ _)

theorem mouseDevice_keeping : Ends Keeping (mouseDevice hw) := by
  have wait := mouseWait_keeping hw
  have out := outb_keeping hw
  apply Ends.bind (wait _)
  intro _
  apply Ends.bind (out _ _)
  intro _
  apply Ends.bind (out _ _)
  intro _
  apply Ends.bind (mouseRead_keeping hw)
  intro _
  apply Ends.bind (setMouseRate_keeping hw _)
  intro _
  apply Ends.bind (wait _)
  intro _
  apply Ends.bind (out _ _)
  intro _
  apply Ends.bind (wait _)
  intro _
  apply Ends.bind (inb_keeping hw _)
  intro _
  apply Ends.bind (wait _)
  intro _
  apply Ends.bind (out _ _)
  intro _
  apply Ends.bind (wait _)
  intro _
  apply Ends.bind (out _ _)
  intro _
  exact mouseEnable_keeping hw

/-- No handler that draws. -/
def NoMouse (s : Kernel σ) : Prop := ∀ n, s.handlers n ≠ some .mouseHandler

/-- Until the mouse handler is registered, the terminal is not touched. -/
def Dark (s t : Kernel σ) : Prop := NoMouse s → NoMouse t ∧ t.terminal = s.terminal

instance : IsPreorder (Kernel σ) Dark where
  refl _ none := ⟨none, rfl⟩
  trans _ _ _ first second none :=
    ⟨(second (first none).1).1, (second (first none).1).2.trans (first none).2⟩

theorem Dark.of_same {s t : Kernel σ} (table : t.handlers = s.handlers)
    (terminal : t.terminal = s.terminal) : Dark s t := by
  refine fun none => ⟨?_, terminal⟩
  unfold NoMouse
  rw [table]
  exact none

theorem Dark.of_reads (s t : Kernel σ) (h : Reads s t) : Dark s t := by
  obtain ⟨m, _, rfl, _⟩ := h
  exact .of_same rfl rfl

theorem outb_dark (port : UInt16) (value : UInt8) : Steps Dark (outb hw port value) :=
  Steps.modify fun _ => .of_same rfl rfl

theorem idtInit_dark : Steps Dark (idtInit hw) := by
  have out := outb_dark hw
  have get : ∀ port, Steps Dark (inb hw port) := fun port => ((inb_reads hw port).mono .of_reads).steps
  refine Steps.bind ?_ fun _ => Steps.modify fun _ => .of_same rfl rfl
  apply Steps.bind (get _)
  intro a1
  apply Steps.bind (get _)
  intro a2
  apply Steps.bind (out _ _)
  intro _
  apply Steps.bind (out _ _)
  intro _
  apply Steps.bind (out _ _)
  intro _
  apply Steps.bind (out _ _)
  intro _
  apply Steps.bind (out _ _)
  intro _
  apply Steps.bind (out _ _)
  intro _
  apply Steps.bind (out _ _)
  intro _
  apply Steps.bind (out _ _)
  intro _
  exact Steps.bind (out _ _) fun _ => out _ _

theorem keyboardInit_dark : Steps Dark (keyboardInit (σ := σ)) := by
  refine Steps.when (irqBase + 1 < noInterruptHandlers) (Steps.modify fun s => ?_)
  refine fun none => ⟨fun n => ?_, rfl⟩
  change Function.update s.handlers (irqBase + 1) (some .keyboardHandler) n ≠ some .mouseHandler
  rw [Function.update_apply]
  split
  · exact fun same => nomatch same
  · exact none n

theorem callHandler_dark {handler : Option Isr} (other : handler ≠ some .mouseHandler) :
    Steps Dark (callHandler hw handler) := by
  match handler with
  | none => exact Steps.pure ()
  | some .keyboardHandler =>
      apply Steps.bind (Steps.modify fun _ => .of_same rfl rfl)
      intro _
      apply Steps.bind ((getScancode_reads hw).mono .of_reads).steps
      intro scancode
      exact Steps.modify fun _ => .of_same rfl rfl
  | some .mouseHandler => exact absurd rfl other

theorem arrive_dark (s t : Kernel σ) (arrived : Arrive hw s t) : Dark s t := by
  induction arrived with
  | refl => exact refl_of Dark s
  | @tail u t _ irq ih =>
      obtain ⟨_, vector, _, _, handled⟩ := irq
      apply trans_of Dark ih
      intro none
      have dispatch : Steps Dark (callHandler hw (u.handlers vector.toNat) >>= fun _ =>
          pic8259Eoi hw vector.toUInt8) :=
        Steps.bind (callHandler_dark hw (none _)) fun _ =>
          Steps.bind (Steps.when _ (outb_dark hw _ _)) fun _ => outb_dark hw _ _
      have step := dispatch.keeps u
      have ran : (callHandler hw (u.handlers vector.toNat) >>= fun _ =>
        pic8259Eoi hw vector.toUInt8).run.run u = (some (), t) := handled
      rw [ran] at step
      exact step none

/-- All cells were stored through the address of the screen. -/
def OnlyOnScreen (t : Terminal) : Prop := ∀ w ∈ t.writes, w.base = vgaAddress

theorem putchar_unset {s t : Kernel σ} {c : UInt8} {a : Unit} (visible : c ≠ newline)
    (none : NoMouse s) (run : Interleaved (Arrive hw) (onTerminal (terminalPutchar c)) s a t) :
    ∃ w ∈ t.terminal.writes, w.base = s.terminal.buffer := by
  have kept := (onTerminal_keeping (σ := σ) (terminalPutchar_extends c)).steps
  unfold terminalPutchar at run kept
  rw [if_neg visible] at run kept
  cases run with
  | step arrived rest =>
      rename_i u
      cases rest with
      | step arrived' rest =>
          rename_i v
          -- the screen's globals are still those of `s` when the cell is stored
          obtain ⟨none', same⟩ := arrive_dark hw s u arrived none
          obtain ⟨_, same'⟩ := arrive_dark hw _ v arrived' none'
          have later := Interleaved.keeps (arrive_keeping hw) ((kept u).2 v).2 rest
          obtain ⟨ws, extended⟩ := later
          refine ⟨⟨v.terminal.buffer, u.terminal.row * vgaWidth + u.terminal.column,
            vgaEntry c u.terminal.color⟩, ?_, ?_⟩
          · rw [extended]
            exact List.mem_append_left ws (List.mem_append_right _ List.mem_cons_self)
          · rw [← same]
            exact congrArg Terminal.buffer same'

/-- In every run the message of the mouse driver goes through the pointer as it was loaded. -/
theorem message_unset (bus : σ) (rest : Recording σ) {t : Kernel σ}
    (run : Interleaved (Arrive hw) (kmain hw rest) (zeroed bus) () t) :
    ∃ w ∈ t.terminal.writes, w.base = 0 := by
  have env := arrive_dark hw
  obtain ⟨_, s₁, idt, run⟩ := run.bind_inv
  obtain ⟨_, s₂, keyboard, run⟩ := run.bind_inv
  obtain ⟨_, s₃, mouse, run⟩ := run.bind_inv
  obtain ⟨_, s₄, x, mouse⟩ := mouse.bind_inv
  obtain ⟨_, s₅, y, mouse⟩ := mouse.bind_inv
  obtain ⟨_, s₆, message, mouse⟩ := mouse.bind_inv
  -- up to the message the terminal is as it was loaded
  have set : ∀ f : Mouse → Mouse, Steps Dark (Prog.modify (onMouse (σ := σ) f)) :=
    fun f => Steps.modify fun _ => .of_same rfl rfl
  have dark : Dark (zeroed bus) s₅ := trans_of Dark
    (Interleaved.keeps env (idtInit_dark hw) idt) (trans_of Dark
      (Interleaved.keeps env keyboardInit_dark keyboard) (trans_of Dark
        (Interleaved.keeps env (set _) x) (Interleaved.keeps env (set _) y)))
  obtain ⟨none, same⟩ := dark fun _ registered => nomatch registered
  have letters : onTerminal (printLiteral initializingMouse) = onTerminal (σ := σ)
      (terminalPutchar 'i'.toUInt8 >>= fun _ =>
        Prog.forEach terminalPutchar initializingMouse.chars.tail) := by
    rw [printLiteral, printf_plain terminalPutchar _ (by decide)]
    rfl
  rw [letters, onTerminal, Prog.within_bind] at message
  obtain ⟨_, v, first, others⟩ := message.bind_inv
  obtain ⟨w, member, base⟩ := putchar_unset hw (by decide) none first
  -- and what was written stays in the record
  have keeping := arrive_keeping hw
  obtain ⟨_, s₇, screen, run⟩ := run.bind_inv
  have written : Keeping v s₃ := trans_of Keeping
    (Interleaved.keeps keeping (onTerminal_keeping (Ends.forEach terminalPutchar_extends _)).steps
      others) (Interleaved.keeps keeping (mouseDevice_keeping hw).steps mouse)
  have drawn : Keeping s₃ t := trans_of Keeping
    (Interleaved.keeps keeping (onTerminal_keeping (screenInitialize_extends _ _)).steps screen)
    (Interleaved.keeps keeping rest.keeps run)
  exact ⟨w, (trans_of Keeping written drawn).mem member, base.trans (congrArg Terminal.buffer same)⟩

/-- Whatever the ports return and whichever interrupts arrive, the mouse driver prints
before the screen exists. -/
theorem output_before_screen (bus : σ) (rest : Recording σ) {t : Kernel σ}
    (run : Interleaved (Arrive hw) (kmain hw rest) (zeroed bus) () t) :
    ¬OnlyOnScreen t.terminal := by
  obtain ⟨w, member, base⟩ := message_unset hw bus rest run
  intro only
  exact absurd (base.symm.trans (only w member)) (by decide)

theorem kmain_keeping (rest : Recording σ) (ends : Ends Keeping rest.program) :
    Ends Keeping (kmain hw rest) := by
  have get := inb_keeping hw
  have out := outb_keeping hw
  refine Ends.bind (Ends.bind ?_ fun _ => Ends.modify fun _ => .of_same rfl) fun _ => ?_
  · apply Ends.bind (get _)
    intro a1
    apply Ends.bind (get _)
    intro a2
    apply Ends.bind (out _ _)
    intro _
    apply Ends.bind (out _ _)
    intro _
    apply Ends.bind (out _ _)
    intro _
    apply Ends.bind (out _ _)
    intro _
    apply Ends.bind (out _ _)
    intro _
    apply Ends.bind (out _ _)
    intro _
    apply Ends.bind (out _ _)
    intro _
    apply Ends.bind (out _ _)
    intro _
    exact Ends.bind (out _ _) fun _ => out _ _
  · refine Ends.bind (register_keeping _ _) fun _ => Ends.bind ?_ fun _ => ?_
    · apply Ends.bind (onMouse_keeping _)
      intro _
      apply Ends.bind (onMouse_keeping _)
      intro _
      exact Ends.bind (literal_keeping (by decide)) fun _ => mouseDevice_keeping hw
    · exact Ends.bind (onTerminal_keeping (screenInitialize_extends _ _)) fun _ => ends

def prompt : ByteMem.Text := ByteMem.Text.ofChars "> ".toList rfl

def prompted : Recording σ where
  program := onTerminal (printLiteral prompt)
  keeps := (literal_keeping (by decide)).steps

theorem prompted_run (bus : σ) :
    ∃ t, Interleaved (Arrive hw) (kmain hw prompted) (zeroed bus) () t := by
  obtain ⟨_, t, ran, _⟩ :=
    (kmain_keeping hw prompted (literal_keeping (by decide))).returns (zeroed bus)
  exact ⟨t, Interleaved.of_run (fun _ => Relation.ReflTransGen.refl) ran⟩

/-- The message of the mouse driver is stored through the null pointer. -/
theorem message_before_screen : ∃ t, Interleaved (Arrive byteQueue)
    (kmain byteQueue prompted) (zeroed []) () t ∧
      (∃ w ∈ t.terminal.writes, w.base = 0) ∧ ¬OnlyOnScreen t.terminal := by
  obtain ⟨t, run⟩ := prompted_run byteQueue []
  obtain ⟨w, member, base⟩ := message_unset byteQueue [] prompted run
  refine ⟨t, run, ⟨w, member, base⟩, fun only => ?_⟩
  exact absurd (base.symm.trans (only w member)) (by decide)

theorem output_before_screen_prompt : ∃ t, Interleaved (Arrive byteQueue)
    (kmain byteQueue prompted) (zeroed []) () t ∧ ¬OnlyOnScreen t.terminal := by
  obtain ⟨t, run⟩ := prompted_run byteQueue []
  exact ⟨t, run, output_before_screen byteQueue [] prompted run⟩

end Boot

end VDK
