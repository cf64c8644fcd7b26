import VDK.Dispatch
import VDK.Pic8259

/-!
# Serving interrupts

The interrupt controllers follow the accesses the kernel makes to their ports. A run
starts behind `pic8259_init` and is any order of devices raising their lines, the main
line doing anything off these ports, and interrupts being taken. A handler runs with
interrupts disabled, but its accesses are made one at a time, and lines may be raised
between them.
-/
namespace VDK
open Atomic Fuel Kernel Pic

section Observation

/-- What the controllers make of an access. -/
def observe (p : Pair) : Access → Pair
  | .outb port v =>
      if port = pic1 then { p with master := p.master.command v }
      else if port = pic1Data then { p with master := p.master.data v }
      else if port = pic2 then { p with slave := p.slave.command v }
      else if port = pic2Data then { p with slave := p.slave.data v }
      else p
  | _ => p

def observeAll (tr : List Access) (p : Pair) : Pair := tr.foldl observe p

/-- The ports the controllers listen on. -/
def picPorts : List UInt16 := [pic1, pic1Data, pic2, pic2Data]

/-- A read, or the command to end an interrupt. -/
def Harmless (a : Access) : Prop := (∃ port v, a = .inb port v) ∨ a = masterEoi ∨ a = slaveEoi

variable {p : Pair}

theorem observeAll_append (tr tr' : List Access) :
    observeAll (tr ++ tr') p = observeAll tr' (observeAll tr p) := List.foldl_append

/-- Commands for both controllers, or for the master alone. -/
theorem observe_commands (n : Nat) :
    observeAll (if n < 8 then [masterEoi] else [slaveEoi, masterEoi]) p = p.finished n := by
  unfold Pair.finished
  split
  · rfl
  · rfl

theorem observeAll_reads {tr : List Access} (reads : ∀ a ∈ tr, ∃ port v, a = Access.inb port v) :
    observeAll tr p = p := by
  induction tr with
  | nil => rfl
  | cons a tr ih =>
      obtain ⟨port, v, rfl⟩ := reads a List.mem_cons_self
      exact ih fun b member => reads b (List.mem_cons_of_mem _ member)

theorem Harmless.serviceOnly {a : Access} (h : Harmless a) : p.ServiceOnly (observe p a) := by
  rcases h with ⟨port, v, rfl⟩ | rfl | rfl
  · exact Pair.ServiceOnly.refl p
  · obtain ⟨f, ended⟩ := p.master.endFirst_service
    exact ⟨f, p.slave.inService, by rw [← ended]; rfl⟩
  · obtain ⟨f, ended⟩ := p.slave.endFirst_service
    exact ⟨p.master.inService, f, by rw [← ended]; rfl⟩

/-- A line may be raised before or after the end of an interrupt. -/
theorem Harmless.observe_ask {a : Access} (h : Harmless a) (n : Nat) (b : Bool) :
    observe (p.ask n b) a = (observe p a).ask n b := by
  have master : ∀ q : Pair, observe q masterEoi = { q with master := q.master.endFirst } :=
    fun q => rfl
  have slave : ∀ q : Pair, observe q slaveEoi = { q with slave := q.slave.endFirst } :=
    fun q => rfl
  unfold Pair.ask
  rcases h with ⟨port, v, rfl⟩ | rfl | rfl
  · rfl
  · rw [master, master]
    split
    · rw [Chip.endFirst_ask]
    · rfl
  · rw [slave, slave]
    split
    · rfl
    · rw [Chip.endFirst_ask]

theorem observeAll_ask {tr : List Access} (harmless : ∀ a ∈ tr, Harmless a) (n : Nat) (b : Bool) :
    observeAll tr (p.ask n b) = (observeAll tr p).ask n b := by
  induction tr generalizing p with
  | nil => rfl
  | cons a tr ih =>
      have first := (harmless a List.mem_cons_self).observe_ask (p := p) n b
      change observeAll tr (observe (p.ask n b) a) = _
      rw [first]
      exact ih fun c member => harmless c (List.mem_cons_of_mem _ member)

/-- The commands of a dispatch settle the interrupt it was for, twice if it was the mouse's. -/
theorem observe_dispatch {base base' : UInt8} {n : Nat} (idle : p.Idle)
    (ready : p.Programmed base base') (line : n < 16) (handler : Option Isr) :
    observeAll (dispatchCommands handler (UInt32.ofNat (32 + n))) (p.enter n) = p := by
  have own : UInt32.ofNat (32 + n) ≥ 0x28 ↔ ¬n < 8 := by
    rw [ge_iff_le, UInt32.le_iff_toNat_le, UInt32.toNat_ofNat']
    change 40 ≤ (32 + n) % 2 ^ 32 ↔ _
    omega
  have last : (if UInt32.ofNat (32 + n) ≥ 0x28 then [slaveEoi, masterEoi] else [masterEoi]) =
      if n < 8 then [masterEoi] else [slaveEoi, masterEoi] := by
    by_cases low : n < 8
    · rw [if_pos low, if_neg fun high => own.mp high low]
    · rw [if_neg low, if_pos (own.mpr low)]
  rw [dispatchCommands, last, observeAll_append]
  by_cases mouse : handler = some .mouseHandler
  · -- the mouse handler has ended the interrupt already
    have first : observeAll [slaveEoi, masterEoi] (p.enter n) = (p.enter n).finished 8 := rfl
    rw [if_pos mouse, first, idle.finished_enter ready line fun _ => Nat.le_refl 8,
      observe_commands, idle.finished]
  · rw [if_neg mouse, observe_commands]
    exact idle.finished_enter ready line id

/-- Ports were read, whatever else has happened. -/
def Listens {σ : Type} (s t : Kernel σ) : Prop :=
  ∃ tr, t.machine.log = s.machine.log ++ tr ∧ ∀ a ∈ tr, ∃ port v, a = Access.inb port v

instance {σ : Type} : IsPreorder (Kernel σ) Listens where
  refl s := ⟨[], (List.append_nil _).symm, fun _ none => nomatch none⟩
  trans s t u := by
    rintro ⟨tr, log, reads⟩ ⟨tr', log', reads'⟩
    refine ⟨tr ++ tr', by rw [log', log, List.append_assoc], fun a member => ?_⟩
    rcases List.mem_append.mp member with first | second
    · exact reads a first
    · exact reads' a second

theorem Listens.covers {σ : Type} : Covers (Listens (σ := σ)) where
  reads s t := by
    rintro ⟨m, tr, rfl, log, reads⟩
    exact ⟨tr, log, reads⟩
  same s t _ machine :=
    ⟨[], (congrArg Machine.log machine).trans (List.append_nil _).symm, fun _ none => nomatch none⟩

theorem dispatchCommands_harmless (handler : Option Isr) (vector : UInt32) :
    ∀ a ∈ dispatchCommands handler vector, Harmless a := by
  have both : ∀ a ∈ [slaveEoi, masterEoi], Harmless a := by
    intro a member
    rcases List.mem_cons.mp member with slave | master
    · exact Or.inr (Or.inr slave)
    · exact Or.inr (Or.inl (List.mem_singleton.mp master))
  intro a member
  rcases List.mem_append.mp member with own | last
  · split at own
    · exact both a own
    · exact nomatch own
  · split at last
    · exact both a last
    · exact Or.inr (Or.inl (List.mem_singleton.mp last))

theorem ofNat_vector_le {n : Nat} (line : n < 16) : UInt32.ofNat (32 + n) ≤ 47 := by
  rw [UInt32.le_iff_toNat_le, UInt32.toNat_ofNat']
  change (32 + n) % 2 ^ 32 ≤ 47
  omega

theorem isrIrqHandler_grows {σ : Type} (hw : Bus σ) {s t : Kernel σ} {n : Nat} (line : n < 16)
    (handled : (isrIrqHandler hw (UInt32.ofNat (32 + n))).run.run s = (some (), t)) :
    ∃ tr, t.machine.log = s.machine.log ++ tr := by
  obtain ⟨u, ⟨tr, log, _⟩, _, log'⟩ :=
    isrIrqHandler_covered hw Listens.covers (ofNat_vector_le line) handled
  exact ⟨_, by rw [log', log, List.append_assoc]⟩

/-- What a dispatch has to do with the controllers: its accesses are harmless, and they
settle the interrupt. -/
theorem handled_settles {σ : Type} (hw : Bus σ) {s t : Kernel σ} {tr : List Access}
    {base base' : UInt8} {n : Nat} (idle : p.Idle) (ready : p.Programmed base base')
    (line : n < 16) (log : t.machine.log = s.machine.log ++ tr)
    (handled : (isrIrqHandler hw (UInt32.ofNat (32 + n))).run.run s = (some (), t)) :
    (∀ a ∈ tr, Harmless a) ∧ observeAll tr (p.enter n) = p := by
  obtain ⟨u, ⟨quiet, log', reads⟩, _, log''⟩ :=
    isrIrqHandler_covered hw Listens.covers (ofNat_vector_le line) handled
  rw [log', List.append_assoc, log] at log''
  obtain rfl := List.append_cancel_left log''
  constructor
  · intro a member
    rcases List.mem_append.mp member with first | last
    · exact Or.inl (reads a first)
    · exact dispatchCommands_harmless _ _ a last
  · rw [observeAll_append, observeAll_reads reads]
    exact observe_dispatch idle ready line _

/-- The writes of `pic8259_init` behind its two reads. -/
def initWrites (a1 a2 : UInt8) : List (UInt16 × UInt8) :=
  [(pic1, icw1), (pic2, icw1), (pic1Data, 0x20), (pic2Data, 0x28), (pic1Data, 4), (pic2Data, 2),
    (pic1Data, icw4_8086), (pic2Data, icw4_8086), (pic1Data, a1), (pic2Data, a2)]

/-- `pic8259_init` reads the two masks first and writes them back last. -/
theorem pic8259Init_log {σ : Type} (hw : Bus σ) {s t : Kernel σ}
    (init : (pic8259Init hw).run.run s = (some (), t)) :
    ∃ a1 a2, t.machine.log = s.machine.log ++ .inb pic1Data a1 :: .inb pic2Data a2 ::
      (initWrites a1 a2).map fun w => .outb w.1 w.2 := by
  let r1 := inportb hw pic1Data s.machine
  let r2 := inportb hw pic2Data r1.2
  have runs : (pic8259Init hw).run.run s =
      (some (), s.setMachine (sendAll hw (initWrites r1.1 r2.1) r2.2)) := rfl
  cases runs.symm.trans init
  refine ⟨r1.1, r2.1, ?_⟩
  have sent := congrArg Machine.log (sendAll_eq hw (initWrites r1.1 r2.1) r2.2)
  refine sent.trans ?_
  change ((s.machine.log ++ [.inb pic1Data r1.1]) ++ [.inb pic2Data r2.1]) ++ _ = _
  rw [List.append_assoc, List.append_assoc]
  rfl

/-- The writes program both controllers, whatever these were doing. -/
theorem initWrites_programs (a1 a2 : UInt8) (p : Pair) :
    let q := observeAll ((initWrites a1 a2).map fun w => .outb w.1 w.2) p
    q.Programmed 0x20 0x28 ∧ q.Idle ∧ q.master.mask = a1 ∧ q.slave.mask = a2 ∧
      ∀ n, q.requested n = false := by
  have start : icw1 &&& 0x10 ≠ 0 ∧ icw1 &&& 1 ≠ 0 ∧ icw1 &&& 2 = 0 := by decide
  obtain ⟨ready, idle, mask, quiet⟩ := p.master.initialised start.1 start.2.1 start.2.2 0x20 4 a1
  obtain ⟨ready', idle', mask', quiet'⟩ := p.slave.initialised start.1 start.2.1 start.2.2 0x28 2 a2
  have both : observeAll ((initWrites a1 a2).map fun w => .outb w.1 w.2) p =
    ⟨((((p.master.command icw1).data 0x20).data 4).data 1).data a1,
      ((((p.slave.command icw1).data 0x28).data 2).data 1).data a2⟩ := rfl
  rw [both]
  refine ⟨⟨ready, ready'⟩, ⟨idle, idle'⟩, mask, mask', fun n => ?_⟩
  unfold Pair.requested
  split
  · exact quiet n
  · exact quiet' (n - 8)

end Observation

section Runs

variable {σ : Type}

inductive IrqEvent where
  | raised (n : Nat)
  | taken (n : Nat)
  deriving DecidableEq, Repr

/-- Line `n` was raised after it was taken last. -/
def owed (n : Nat) (events : List IrqEvent) : Bool :=
  events.foldl (fun b e => match e with
    | .raised m => if n = m then true else b
    | .taken m => if n = m then false else b) false

/-- The kernel, the controllers and, while a handler runs, the accesses it has yet to
make. The kernel is then already in the state in which the handler returns. -/
structure IrqSystem (σ : Type) where
  kernel : Kernel σ
  pics : Pair
  handler : Option (List Access)

inductive IrqStep (hw : Bus σ) : IrqSystem σ → List IrqEvent → IrqSystem σ → Prop
  | raise {s : IrqSystem σ} {n : Nat} (line : Pair.IsLine n) :
      IrqStep hw s [.raised n] { s with pics := s.pics.raise n }
  | mainLine {k l : Kernel σ} {p : Pair} {tr : List Access}
      (log : l.machine.log = k.machine.log ++ tr) (off : ∀ a ∈ tr, a.port ∉ picPorts) :
      IrqStep hw ⟨k, p, none⟩ [] ⟨l, p, none⟩
  | take {k l : Kernel σ} {p : Pair} {n : Nat} {tr : List Access} (asked : p.acknowledge = some n)
      (handled : (isrIrqHandler hw (p.vector n).toUInt32).run.run k = (some (), l))
      (log : l.machine.log = k.machine.log ++ tr) :
      IrqStep hw ⟨k, p, none⟩ [.taken n] ⟨l, (p.drop n).enter n, some tr⟩
  | access {k : Kernel σ} {p : Pair} {a : Access} {tr : List Access} :
      IrqStep hw ⟨k, p, some (a :: tr)⟩ [] ⟨k, observe p a, some tr⟩
  | ret {k : Kernel σ} {p : Pair} : IrqStep hw ⟨k, p, some []⟩ [] ⟨k, p, none⟩

inductive IrqSteps (hw : Bus σ) (s₀ : IrqSystem σ) : List IrqEvent → IrqSystem σ → Prop
  | start : IrqSteps hw s₀ [] s₀
  | step {events new : List IrqEvent} {s t : IrqSystem σ} (run : IrqSteps hw s₀ events s)
      (next : IrqStep hw s new t) : IrqSteps hw s₀ (events ++ new) t

/-- In every state of a run, with the controllers as `p₀` at its start. -/
structure Attended (p₀ : Pair) (events : List IrqEvent) (s : IrqSystem σ) : Prop where
  ready : s.pics.Programmed 0x20 0x28
  enabled : ∀ n, s.pics.enabled n = p₀.enabled n
  requested : ∀ n, s.pics.requested n = owed n events
  harmless : ∀ a ∈ s.handler.getD [], Harmless a
  idle : (observeAll (s.handler.getD []) s.pics).Idle

theorem owed_append (n : Nat) (events : List IrqEvent) (e : IrqEvent) :
    owed n (events ++ [e]) = match e with
      | .raised m => if n = m then true else owed n events
      | .taken m => if n = m then false else owed n events := by
  rw [owed, List.foldl_append]
  rfl

theorem vector_eq {p : Pair} (ready : p.Programmed 0x20 0x28) {n : Nat} (line : n < 16) :
    p.vector n = UInt8.ofNat (32 + n) := by
  apply UInt8.toNat_inj.mp
  rw [UInt8.toNat_ofNat', Pair.vector, ready.master.base, ready.slave.base]
  split
  · rw [UInt8.toNat_add, UInt8.toNat_ofNat']
    change (32 + n % 256) % 256 = _
    omega
  · rw [UInt8.toNat_add, UInt8.toNat_ofNat']
    change (40 + (n - 8) % 256) % 256 = _
    omega

theorem vector_toNat {p : Pair} (ready : p.Programmed 0x20 0x28) {n : Nat} (line : n < 16) :
    (p.vector n).toNat = 32 + n := by
  rw [vector_eq ready line, UInt8.toNat_ofNat']
  omega

theorem vector_line {p : Pair} (ready : p.Programmed 0x20 0x28) {n : Nat} (line : n < 16) :
    (p.vector n).toUInt32 = UInt32.ofNat (32 + n) := by
  apply UInt32.toNat_inj.mp
  rw [UInt8.toNat_toUInt32, vector_toNat ready line, UInt32.toNat_ofNat']
  omega

theorem IrqStep.attended {hw : Bus σ} {p₀ : Pair} {events new : List IrqEvent} {s t : IrqSystem σ}
    (step : IrqStep hw s new t) (h : Attended p₀ events s) : Attended p₀ (events ++ new) t := by
  cases step with
  | @raise _ n line =>
      refine ⟨h.ready.ask n true, fun m => (s.pics.ask_enabled n m true).trans (h.enabled m),
        fun m => ?_, h.harmless, ?_⟩
      · rw [owed_append, ← h.requested m]
        exact s.pics.ask_requested n m true
      · change (observeAll _ (s.pics.ask n true)).Idle
        rw [observeAll_ask h.harmless]
        exact h.idle.ask n true
  | mainLine log off =>
      rw [List.append_nil]
      exact ⟨h.ready, h.enabled, h.requested, h.harmless, h.idle⟩
  | @take k l p n tr asked handled log =>
      have idle : p.Idle := h.idle
      have line := (idle.acknowledge_first h.ready asked).1.line.1
      rw [vector_line h.ready line] at handled
      have entered := (p.drop n).enter_serviceOnly n
      have ready := h.ready.ask n false
      obtain ⟨harmless, settled⟩ := handled_settles hw (idle.ask n false) ready line log handled
      refine ⟨entered.programmed ready, fun m => ?_, fun m => ?_, harmless, ?_⟩
      · rw [entered.enabled]
        exact (p.ask_enabled n m false).trans (h.enabled m)
      · rw [entered.requested, owed_append, ← h.requested m]
        exact p.ask_requested n m false
      · change (observeAll tr ((p.drop n).enter n)).Idle
        rw [show (p.drop n).enter n = (p.ask n false).enter n from rfl, settled]
        exact idle.ask n false
  | @access k p a tr =>
      have same := (h.harmless a List.mem_cons_self).serviceOnly (p := p)
      rw [List.append_nil]
      exact ⟨same.programmed h.ready, fun m => (same.enabled m).trans (h.enabled m),
        fun m => (same.requested m).trans (h.requested m),
        fun b member => h.harmless b (List.mem_cons_of_mem _ member), h.idle⟩
  | ret =>
      rw [List.append_nil]
      exact ⟨h.ready, h.enabled, h.requested, h.harmless, h.idle⟩

theorem IrqSteps.attended {hw : Bus σ} {p₀ : Pair} {events : List IrqEvent} {s₀ s : IrqSystem σ}
    (run : IrqSteps hw s₀ events s) (start : Attended p₀ [] s₀) : Attended p₀ events s := by
  induction run with
  | start => exact start
  | step _ next ih => exact next.attended ih

/-- Line `n` was raised, has not been taken since, and is not masked by the bytes
`pic8259_init` has read. -/
structure Due (a1 a2 : UInt8) (events : List IrqEvent) (n : Nat) : Prop where
  line : Pair.IsLine n
  owed : owed n events = true
  own : n < 8 → a1.toNat.testBit n = false
  behind : 8 ≤ n → a2.toNat.testBit (n - 8) = false ∧ a1.toNat.testBit 2 = false

theorem Attended.due_iff {p₀ : Pair} {events : List IrqEvent} {s : IrqSystem σ}
    (h : Attended p₀ events s) (n : Nat) :
    s.pics.Waiting n ↔ Due p₀.master.mask p₀.slave.mask events n := by
  have shown := p₀.enabled_iff n
  rw [← h.enabled n] at shown
  constructor
  · intro w
    obtain ⟨own, behind⟩ := shown.mp w.enabled
    exact ⟨w.line, (h.requested n).symm.trans w.requested, own, behind⟩
  · intro d
    exact ⟨d.line, (h.requested n).trans d.owed, shown.mpr ⟨d.own, d.behind⟩⟩

theorem IrqStep.take_of {hw : Bus σ} {k : Kernel σ} {p : Pair} {n : Nat}
    (ready : p.Programmed 0x20 0x28) (line : n < 16) (asked : p.acknowledge = some n) :
    ∃ t, IrqStep hw ⟨k, p, none⟩ [.taken n] t := by
  obtain ⟨l, handled⟩ := isrIrqHandler_returns hw (p.vector n).toUInt32 k
  obtain ⟨tr, log⟩ := isrIrqHandler_grows hw line (vector_line ready line ▸ handled)
  exact ⟨_, .take asked handled log⟩

/-- Interrupts are served without loss: between handlers nothing is in service, and what
the processor gets is always the line of the highest priority among those that were
raised since they were taken last and are not masked, under its own vector. -/
theorem interrupts_attended (hw : Bus σ) {k₀ k : Kernel σ} (p₀ : Pair)
    (init : (pic8259Init hw).run.run k₀ = (some (), k)) :
    ∃ a1 a2 tr, k.machine.log = k₀.machine.log ++ .inb pic1Data a1 :: .inb pic2Data a2 :: tr ∧
      ∀ events s, IrqSteps hw ⟨k, observeAll tr p₀, none⟩ events s → s.handler = none →
        s.pics.Idle ∧ ∀ n,
          (s.pics.acknowledge = some n ↔
            Due a1 a2 events n ∧ ∀ m, Due a1 a2 events m → Pair.rank n ≤ Pair.rank m) ∧
          (s.pics.acknowledge = some n →
            (s.pics.vector n).toNat = 32 + n ∧ ∃ t, IrqStep hw s [.taken n] t) := by
  obtain ⟨a1, a2, log⟩ := pic8259Init_log hw init
  obtain ⟨ready, idle, mask, mask', quiet⟩ := initWrites_programs a1 a2 p₀
  refine ⟨a1, a2, _, log, ?_⟩
  generalize observeAll _ p₀ = p at ready idle mask mask' quiet
  have start : Attended p [] (⟨k, p, none⟩ : IrqSystem σ) :=
    ⟨ready, fun n => rfl, quiet, fun a none => absurd none List.not_mem_nil, idle⟩
  rintro events ⟨l, q, handler⟩ run rfl
  have attended := run.attended start
  have idle' : q.Idle := attended.idle
  have due := attended.due_iff
  rw [mask, mask'] at due
  refine ⟨idle', fun n => ⟨?_, fun asked => ?_⟩⟩
  · simp only [← due]
    exact idle'.acknowledge_iff attended.ready n
  · have line := (idle'.acknowledge_first attended.ready asked).1.line.1
    exact ⟨vector_toNat attended.ready line, IrqStep.take_of attended.ready line asked⟩

/-- Controllers that are being initialised, with everything in service. -/
def disorder : Pair :=
  let chip : Pic.Chip := ⟨.icw3, true, true, 0x70, 0, 0, 0xFF, fun _ => true, fun _ => true⟩
  ⟨chip, chip⟩

/-- The kernel behind `pic8259_init`. -/
def initialised : Kernel (List UInt8) := ((pic8259Init byteQueue).run.run (zeroed [0xF8, 0xEF])).2

/-- The keyboard's line, raised behind `pic8259_init`, is the one that is served. -/
theorem interrupts_attended_keyboard : ∃ tr s,
    (pic8259Init byteQueue).run.run (zeroed [0xF8, 0xEF]) = (some (), initialised) ∧
      IrqSteps byteQueue ⟨initialised, observeAll tr disorder, none⟩ [.raised 1] s ∧
      s.pics.acknowledge = some 1 ∧ (s.pics.vector 1).toNat = 33 := by
  have init : (pic8259Init byteQueue).run.run (zeroed [0xF8, 0xEF]) = (some (), initialised) := rfl
  obtain ⟨a1, a2, tr, log, served⟩ := interrupts_attended byteQueue disorder init
  have mask : 0xF8 = a1 := (Access.inb.inj (List.cons.inj log).1).2
  have line : Pair.IsLine 1 := by decide
  have run : IrqSteps byteQueue ⟨initialised, observeAll tr disorder, none⟩ [.raised 1]
      ⟨initialised, (observeAll tr disorder).raise 1, none⟩ := IrqSteps.start.step (.raise line)
  obtain ⟨_, which⟩ := served _ _ run rfl
  have due : ∀ m, Due a1 a2 [.raised 1] m ↔ m = 1 := by
    intro m
    constructor
    · intro d
      by_contra other
      have none : owed m [.raised 1] = false := if_neg other
      exact absurd (none.symm.trans d.owed) Bool.noConfusion
    · rintro rfl
      refine ⟨line, rfl, fun _ => ?_, fun behind => absurd behind (by decide)⟩
      rw [← mask]
      decide
  have asked := (which 1).1.mpr ⟨(due 1).mpr rfl, fun m d => Nat.le_of_eq (by rw [(due m).mp d])⟩
  exact ⟨tr, _, init, run, asked, ((which 1).2 asked).1⟩

end Runs

end VDK
