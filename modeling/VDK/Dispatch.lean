import VDK.MouseCursor

/-!
# Dispatching interrupts (`libkern/isr.c`)

The C side of an IRQ: the registered handler, if there is one, and then the
acknowledgement. A run is any sequence of such dispatches.
-/
namespace VDK
open Atomic Fuel Kernel

section Dispatch

variable {σ : Type} (hw : Bus σ)

/-- The call through a table entry, which may be `NULL`. -/
def callHandler : Option Isr → Prog (Kernel σ) Unit
  | some .keyboardHandler => keyboardHandler hw
  | some .mouseHandler => mouseHandler hw
  | none => pure ()

def isrIrqHandler (intNo : UInt32) : Prog (Kernel σ) Unit := do
  let s ← Prog.get
  callHandler hw (s.handlers intNo.toNat)
  pic8259Eoi hw intNo.toUInt8

def keyboardInit : Prog (Kernel σ) Unit :=
  isrRegisterInterruptHandler (irqBase + 1) .keyboardHandler

end Dispatch

section Acknowledgement

/-- The end-of-interrupt commands to the two controllers. -/
abbrev masterEoi : Access := .outb pic1 picEoi
abbrev slaveEoi : Access := .outb pic2 picEoi

variable {σ : Type} (hw : Bus σ)

/-- Nothing was acknowledged, and no handler registered. -/
def Unacknowledged (s t : Kernel σ) : Prop :=
  t.handlers = s.handlers ∧ ∃ tr, t.machine.log = s.machine.log ++ tr ∧
    ∀ a ∈ tr, a ≠ masterEoi ∧ a ≠ slaveEoi

instance : IsPreorder (Kernel σ) Unacknowledged where
  refl s := ⟨rfl, [], (List.append_nil _).symm, fun _ none => nomatch none⟩
  trans s t u := by
    rintro ⟨table, tr, log, quiet⟩ ⟨table', tr', log', quiet'⟩
    refine ⟨table'.trans table, tr ++ tr', ?_, fun a member => ?_⟩
    · rw [log', log, List.append_assoc]
    · rcases List.mem_append.mp member with first | second
      · exact quiet a first
      · exact quiet' a second

theorem Unacknowledged.of_same {s t : Kernel σ} (table : t.handlers = s.handlers)
    (log : t.machine.log = s.machine.log) : Unacknowledged s t :=
  ⟨table, [], log.trans (List.append_nil _).symm, fun _ none => nomatch none⟩

theorem Unacknowledged.of_reads (s t : Kernel σ) (h : Reads s t) : Unacknowledged s t := by
  obtain ⟨m, tr, rfl, log, reads⟩ := h
  refine ⟨rfl, tr, log, fun a member => ?_⟩
  obtain ⟨port, value, rfl⟩ := reads a member
  constructor
  · exact fun same => nomatch same
  · exact fun same => nomatch same

/-- What is handled without an acknowledgement: ports are read, and the machine and the
table of handlers stay as they are otherwise. -/
structure Covers (R : Kernel σ → Kernel σ → Prop) : Prop where
  reads : ∀ s t, Reads s t → R s t
  same : ∀ s t, t.handlers = s.handlers → t.machine = s.machine → R s t

theorem Unacknowledged.covers : Covers (Unacknowledged (σ := σ)) :=
  ⟨.of_reads, fun _ _ table machine => .of_same table (congrArg Machine.log machine)⟩

section Covered

variable {R : Kernel σ → Kernel σ → Prop} (covers : Covers R)

include covers

theorem onTerminal_covered {α : Type} (p : Prog Terminal α) : Steps R (onTerminal p) :=
  Steps.within (R := R) (Q := fun _ _ => True)
    (fun s t _ => covers.same s (setTerminal t s) rfl rfl) (Steps.any p)

theorem keyboardHandler_covered : Ends R (keyboardHandler hw) := by
  have store : ∀ f : Keyboard → Keyboard, Ends R (Prog.modify (onKeyboard (σ := σ) f)) :=
    fun f => Ends.modify fun s => covers.same s _ rfl rfl
  apply Ends.bind (store _)
  intro _
  apply Ends.bind ((getScancode_reads hw).mono covers.reads)
  intro scancode
  exact store _

theorem mouseRead_covered : Steps R (mouseRead hw) :=
  ((mouseRead_reads hw).mono covers.reads).steps

variable [IsPreorder (Kernel σ) R]

theorem printMouseInfo_covered : Steps R printMouseInfo := by
  have click : ∀ (c : Prop) [Decidable c] (fmt : ByteMem.Text),
      Steps R (Prog.when c (onTerminal (printLiteral fmt))) :=
    fun c _ fmt => Steps.when c (onTerminal_covered covers _)
  apply Steps.bind Steps.get
  intro _
  apply Steps.bind (click _ _)
  intro _
  apply Steps.bind Steps.get
  intro _
  apply Steps.bind (click _ _)
  intro _
  exact Steps.bind Steps.get fun _ => click _ _

theorem mouseCycle_covered : Steps R (mouseCycle hw) := by
  have store : ∀ f : Mouse → Mouse, Steps R (Prog.modify (onMouse (σ := σ) f)) :=
    fun f => Steps.modify fun s => covers.same s _ rfl rfl
  apply Steps.bind Steps.get
  intro s
  split
  · apply Steps.bind (mouseRead_covered hw covers)
    intro b
    exact Steps.bind (store _) fun _ => Steps.bind (store _) fun _ => store _
  · split
    · apply Steps.bind (mouseRead_covered hw covers)
      intro b
      exact Steps.bind (store _) fun _ => store _
    · split
      · apply Steps.bind (mouseRead_covered hw covers)
        intro b
        apply Steps.bind (store _)
        intro _
        apply Steps.bind (store _)
        intro _
        refine Steps.bind ?_ fun _ => Steps.bind (printMouseInfo_covered covers) fun _ => store _
        apply Steps.bind (onTerminal_covered covers _)
        intro _
        exact Steps.bind Steps.get fun _ => onTerminal_covered covers _
      · exact Steps.pure ()

/-- What a dispatch adds to the log before its acknowledgement: the mouse handler has
acknowledged the interrupt once already. -/
theorem callHandler_log (handler : Option Isr) (s t : Kernel σ)
    (called : (callHandler hw handler).run.run s = (some (), t)) :
    ∃ u, R s u ∧ t.handlers = u.handlers ∧ t.machine.log = u.machine.log ++
      if handler = some .mouseHandler then [slaveEoi, masterEoi] else [] := by
  match handler with
  | none =>
      cases called
      exact ⟨s, refl_of R s, rfl, (List.append_nil _).symm⟩
  | some .keyboardHandler =>
      have quiet := (keyboardHandler_covered hw covers).steps.keeps s
      rw [show (keyboardHandler hw).run.run s = _ from called] at quiet
      exact ⟨t, quiet, rfl, (List.append_nil _).symm⟩
  | some .mouseHandler =>
      have quiet := (mouseCycle_covered hw covers).keeps s
      have ran : (mouseHandler hw).run.run s = (some (), t) := called
      rw [mouseHandler, Prog.run_bind] at ran
      obtain ⟨_, u, cycled, ended⟩ := Exec.bind_eq_some ran
      rw [cycled] at quiet
      rw [isrEndInterrupt, run_pic8259Eoi] at ended
      cases ended
      refine ⟨u, quiet, rfl, ?_⟩
      exact congrArg Machine.log (sendAll_eq hw _ u.machine)

end Covered

end Acknowledgement

section Runs

variable {σ : Type} (hw : Bus σ)

/-- An IRQ dispatched: the state before, its vector, the state after. -/
structure IrqDispatch (σ : Type) where
  before : Kernel σ
  vector : UInt32
  after : Kernel σ

/-- The handlers of `keyboard_init` and `mouse_init`, and no others. -/
def driversRegistered : Nat → Option Isr :=
  Function.update (Function.update (fun _ => none) 33 (some .keyboardHandler)) 44
    (some .mouseHandler)

/-- Dispatches of IRQs, with anything in between that leaves the handler table alone. -/
inductive IrqRun (s₀ : Kernel σ) : List (IrqDispatch σ) → Kernel σ → Prop
  | start : IrqRun s₀ [] s₀
  | irq {dispatches : List (IrqDispatch σ)} {s t : Kernel σ} {vector : UInt32}
      (run : IrqRun s₀ dispatches s) (low : 32 ≤ vector) (high : vector ≤ 47)
      (handled : (isrIrqHandler hw vector).run.run s = (some (), t)) :
      IrqRun s₀ (dispatches ++ [⟨s, vector, t⟩]) t
  | other {dispatches : List (IrqDispatch σ)} {s t : Kernel σ} (run : IrqRun s₀ dispatches s)
      (same : t.handlers = s.handlers) : IrqRun s₀ dispatches t

/-- One acknowledgement for the master, and one for the slave when the vector is its own. -/
def Balanced (d : IrqDispatch σ) : Prop :=
  ∃ tr, d.after.machine.log = d.before.machine.log ++ tr ∧ tr.count masterEoi = 1 ∧
    tr.count slaveEoi = if d.vector ≥ 0x28 then 1 else 0

/-- The commands behind a dispatch: those of the mouse handler, and those of the dispatch. -/
def dispatchCommands (handler : Option Isr) (vector : UInt32) : List Access :=
  (if handler = some .mouseHandler then [slaveEoi, masterEoi] else []) ++
    if vector ≥ 0x28 then [slaveEoi, masterEoi] else [masterEoi]

theorem isrIrqHandler_covered {R : Kernel σ → Kernel σ → Prop} [IsPreorder (Kernel σ) R]
    (covers : Covers R) {s t : Kernel σ} {vector : UInt32} (high : vector ≤ 47)
    (handled : (isrIrqHandler hw vector).run.run s = (some (), t)) :
    ∃ u, R s u ∧ t.handlers = u.handlers ∧ t.machine.log = u.machine.log ++
      dispatchCommands (s.handlers vector.toNat) vector := by
  rw [isrIrqHandler, Prog.run_bind, Prog.run_get, Exec.run_bind, Exec.run_get, Exec.andThen_some,
    Prog.run_bind] at handled
  obtain ⟨_, v, called, ended⟩ := Exec.bind_eq_some handled
  obtain ⟨u, related, table, log⟩ := callHandler_log hw covers _ s v called
  rw [run_pic8259Eoi, sendAll_eq] at ended
  cases ended
  refine ⟨u, related, table, ?_⟩
  have own : vector.toUInt8 ≥ 0x28 ↔ vector ≥ 0x28 := by
    have small : vector.toUInt8.toNat = vector.toNat := by
      have bound := UInt32.le_iff_toNat_le.mp high
      rw [UInt32.toNat_toUInt8]
      exact Nat.mod_eq_of_lt (Nat.lt_of_le_of_lt bound (by decide))
    rw [ge_iff_le, ge_iff_le, UInt8.le_iff_toNat_le, UInt32.le_iff_toNat_le, small]
    rfl
  have commands : (eoiWrites vector.toUInt8).map (fun w => Access.outb w.1 w.2) =
      if vector ≥ 0x28 then [slaveEoi, masterEoi] else [masterEoi] := by
    unfold eoiWrites
    by_cases slave : vector ≥ 0x28
    · rw [if_pos (own.mpr slave), if_pos slave]
      rfl
    · rw [if_neg fun high => slave (own.mp high), if_neg slave]
      rfl
  rw [dispatchCommands, ← commands, ← List.append_assoc, ← log]
  rfl

theorem isrIrqHandler_log {s t : Kernel σ} {vector : UInt32} (high : vector ≤ 47)
    (handled : (isrIrqHandler hw vector).run.run s = (some (), t)) :
    t.handlers = s.handlers ∧ ∃ quiet, (∀ a ∈ quiet, a ≠ masterEoi ∧ a ≠ slaveEoi) ∧
      t.machine.log = s.machine.log ++
        (quiet ++ dispatchCommands (s.handlers vector.toNat) vector) := by
  obtain ⟨u, ⟨table, tr, log, quiet⟩, table', log'⟩ :=
    isrIrqHandler_covered hw Unacknowledged.covers high handled
  refine ⟨table'.trans table, tr, quiet, ?_⟩
  rw [log', log, List.append_assoc]

/-- A dispatch is acknowledged as it should be unless its handler is that of the mouse. -/
theorem isrIrqHandler_balanced {s t : Kernel σ} {vector : UInt32} (high : vector ≤ 47)
    (handled : (isrIrqHandler hw vector).run.run s = (some (), t)) :
    Balanced ⟨s, vector, t⟩ ↔ s.handlers vector.toNat ≠ some .mouseHandler := by
  obtain ⟨_, quiet, unacknowledged, log⟩ := isrIrqHandler_log hw high handled
  rw [dispatchCommands] at log
  have master : quiet.count masterEoi = 0 :=
    List.count_eq_zero_of_not_mem fun member => (unacknowledged _ member).1 rfl
  have slave : quiet.count slaveEoi = 0 :=
    List.count_eq_zero_of_not_mem fun member => (unacknowledged _ member).2 rfl
  by_cases mouse : s.handlers vector.toNat = some .mouseHandler
  · rw [if_pos mouse] at log
    refine ⟨?_, fun other => absurd mouse other⟩
    rintro ⟨tr, log', one, _⟩
    have same := List.append_cancel_left (log'.symm.trans log)
    rw [same, List.count_append, master] at one
    -- two commands for the master, whichever controller the vector belongs to
    by_cases own : vector ≥ 0x28
    · rw [if_pos own] at one
      exact absurd one (by decide)
    · rw [if_neg own] at one
      exact absurd one (by decide)
  · rw [if_neg mouse] at log
    refine ⟨fun _ => mouse, fun _ => ⟨_, log, ?_, ?_⟩⟩
    · rw [List.count_append, master]
      split
      · decide
      · decide
    · rw [List.count_append, slave]
      split
      · decide
      · decide

theorem IrqRun.registered {hw : Bus σ} {s₀ s : Kernel σ} {dispatches : List (IrqDispatch σ)}
    (run : IrqRun hw s₀ dispatches s) (start : s₀.handlers = driversRegistered) :
    s.handlers = driversRegistered ∧ ∀ d ∈ dispatches,
      (Balanced d ↔ driversRegistered d.vector.toNat ≠ some .mouseHandler) := by
  induction run with
  | start => exact ⟨start, fun _ none => nomatch none⟩
  | irq run _ high handled ih =>
      obtain ⟨table, earlier⟩ := ih
      refine ⟨(isrIrqHandler_log hw high handled).1.trans table, fun d member => ?_⟩
      rcases List.mem_append.mp member with old | new
      · exact earlier d old
      · rw [List.mem_singleton.mp new, ← table]
        exact isrIrqHandler_balanced hw high handled
  | other _ same ih => exact ⟨same.trans ih.1, ih.2⟩

/-- Every dispatch of a run is acknowledged once, where it has to be, if and only if no
mouse interrupt is among them. -/
theorem acknowledged_once_iff {s₀ s : Kernel σ} {dispatches : List (IrqDispatch σ)}
    (start : s₀.handlers = driversRegistered) (run : IrqRun hw s₀ dispatches s) :
    (∀ d ∈ dispatches, Balanced d) ↔ ∀ d ∈ dispatches, d.vector ≠ 44 := by
  have mouse : ∀ v : UInt32, driversRegistered v.toNat ≠ some .mouseHandler ↔ v ≠ 44 := by
    intro v
    have vector : v ≠ 44 ↔ v.toNat ≠ 44 := not_congr UInt32.toNat_inj.symm
    rw [vector]
    unfold driversRegistered
    rw [Function.update_apply, Function.update_apply]
    by_cases is44 : v.toNat = 44
    · rw [if_pos is44]
      exact ⟨fun other => absurd rfl other, fun other => absurd is44 other⟩
    · rw [if_neg is44]
      refine ⟨fun _ => is44, fun _ => ?_⟩
      split
      · exact fun same => nomatch same
      · exact fun same => nomatch same
  constructor
  · intro balanced d member
    exact (mouse _).mp (((run.registered start).2 d member).mp (balanced d member))
  · intro other d member
    exact ((run.registered start).2 d member).mpr ((mouse _).mpr (other d member))

theorem callHandler_returns (handler : Option Isr) (s : Kernel σ) :
    ∃ t, (callHandler hw handler).run.run s = (some (), t) := by
  match handler with
  | none => exact ⟨s, rfl⟩
  | some .keyboardHandler =>
      obtain ⟨_, t, ran, _⟩ := (keyboardHandler_covered hw Unacknowledged.covers).returns s
      exact ⟨t, ran⟩
  | some .mouseHandler =>
      obtain ⟨_, _, read, _⟩ := (mouseRead_reads hw).returns s
      obtain ⟨_, t, ran, _⟩ := mouseHandler_returns hw read
      exact ⟨t, ran⟩

theorem isrIrqHandler_returns (vector : UInt32) (s : Kernel σ) :
    ∃ t, (isrIrqHandler hw vector).run.run s = (some (), t) := by
  obtain ⟨t, called⟩ := callHandler_returns hw (s.handlers vector.toNat) s
  have ends := run_pic8259Eoi hw vector.toUInt8 t
  rw [isrIrqHandler, Prog.run_bind, Prog.run_get, Exec.run_bind, Exec.run_get, Exec.andThen_some,
    Prog.run_bind, Exec.run_bind, called, Exec.andThen_some, ends]
  exact ⟨_, rfl⟩

/-- The drivers registered, and bytes queued for them. -/
def withDrivers (bytes : List UInt8) : Kernel (List UInt8) :=
  { zeroed bytes with handlers := driversRegistered }

/-- A mouse interrupt is acknowledged twice. -/
theorem mouse_acknowledged_twice : ∃ t, IrqRun byteQueue (withDrivers [0x08])
    [⟨withDrivers [0x08], 44, t⟩] t ∧ ¬Balanced ⟨withDrivers [0x08], 44, t⟩ := by
  obtain ⟨t, handled⟩ := isrIrqHandler_returns byteQueue 44 (withDrivers [0x08])
  refine ⟨t, IrqRun.start.irq (by decide) (by decide) handled, fun balanced => ?_⟩
  exact (isrIrqHandler_balanced byteQueue (by decide) handled).mp balanced rfl

theorem acknowledged_once_iff_keyboard : ∃ t u, IrqRun byteQueue (withDrivers [0x1E])
    [⟨withDrivers [0x1E], 33, t⟩, ⟨t, 46, u⟩] u ∧
      ∀ d ∈ [⟨withDrivers [0x1E], 33, t⟩, (⟨t, 46, u⟩ : IrqDispatch (List UInt8))], Balanced d := by
  obtain ⟨t, handled⟩ := isrIrqHandler_returns byteQueue 33 (withDrivers [0x1E])
  obtain ⟨u, handled'⟩ := isrIrqHandler_returns byteQueue 46 t
  have run := (IrqRun.start.irq (by decide) (by decide) handled).irq (by decide) (by decide) handled'
  refine ⟨t, u, run, (acknowledged_once_iff byteQueue rfl run).mpr fun d member => ?_⟩
  rcases List.mem_cons.mp member with rfl | member
  · exact (by decide : (33 : UInt32) ≠ 44)
  · rw [List.mem_singleton.mp member]
    exact (by decide : (46 : UInt32) ≠ 44)

end Runs

end VDK
