import VDK.FirstFit

/-!
# A pair of 8259A interrupt controllers

Each controller has eight lines, line 0 first. It holds the edges it has seen, the
lines in service and the mask, and it is programmed by up to four initialisation
words: ICW1 on the command port, the others on the data port. The slave's output is
line 2 of the master. Priorities do not rotate, and only the commands that end an
interrupt act on the lines in service.
-/
namespace Pic
open FirstFit

/-- What the next write to the data port is. -/
inductive Phase where
  | icw2
  | icw3
  | icw4
  | ready
  deriving DecidableEq, Repr

structure Chip where
  phase : Phase
  icw4Expected : Bool
  single : Bool
  base : UInt8
  cascade : UInt8
  mode : UInt8
  mask : UInt8
  request : Nat → Bool
  inService : Nat → Bool

namespace Chip

def masked (c : Chip) (k : Nat) : Bool := c.mask.toNat.testBit k

/-- Nothing of the priority of line `k` or a higher one is in service. -/
def unblocked (c : Chip) (k : Nat) : Bool := (List.range (k + 1)).all fun j => !c.inService j

/-- The line the controller asks to be served. -/
def next (c : Chip) : Option Nat :=
  if c.phase = .ready then
    firstIndex (fun k => c.request k && !c.masked k && c.unblocked k) 8
  else none

def ask (c : Chip) (k : Nat) (b : Bool) : Chip :=
  { c with request := Function.update c.request k b }

/-- Line `k` is acknowledged. With the automatic end of interrupt it is not in service. -/
def enter (c : Chip) (k : Nat) : Chip :=
  if c.mode &&& 2 = 0 then { c with inService := Function.update c.inService k true } else c

def finish (c : Chip) (k : Nat) : Chip :=
  { c with inService := Function.update c.inService k false }

/-- The non-specific end of interrupt. -/
def endFirst (c : Chip) : Chip :=
  match firstIndex c.inService 8 with
  | some k => c.finish k
  | none => c

/-- A write to the command port: ICW1, OCW3 or OCW2. -/
def command (c : Chip) (v : UInt8) : Chip :=
  if v &&& 0x10 ≠ 0 then
    { c with
      phase := .icw2
      icw4Expected := decide (v &&& 1 ≠ 0)
      single := decide (v &&& 2 ≠ 0)
      mode := 0
      mask := 0
      request := fun _ => false
      inService := fun _ => false }
  else if v &&& 0x08 ≠ 0 then c
  else if v &&& 0xE0 = 0x20 then c.endFirst
  else if v &&& 0xE0 = 0x60 then c.finish (v &&& 7).toNat
  else c

/-- The phase behind the cascade word. -/
def afterCascade (c : Chip) : Phase := if c.icw4Expected then .icw4 else .ready

/-- A write to the data port. -/
def data (c : Chip) (v : UInt8) : Chip :=
  match c.phase with
  | .icw2 =>
      { c with base := v &&& 0xF8, phase := if c.single then c.afterCascade else .icw3 }
  | .icw3 => { c with cascade := v, phase := c.afterCascade }
  | .icw4 => { c with mode := v, phase := .ready }
  | .ready => { c with mask := v }

/-- Initialised for 8086 processors in a cascade, with explicit ends of interrupts. -/
structure Programmed (c : Chip) (base cascade : UInt8) : Prop where
  phase : c.phase = .ready
  base : c.base = base
  cascade : c.cascade = cascade
  mode : c.mode = 1

/-- Nothing is in service. -/
def Idle (c : Chip) : Prop := ∀ k, k < 8 → c.inService k = false

/-- Four initialisation words and a mask, whatever the controller was doing. -/
theorem initialised (c : Chip) {icw1 : UInt8} (start : icw1 &&& 0x10 ≠ 0) (more : icw1 &&& 1 ≠ 0)
    (pair : icw1 &&& 2 = 0) (base cascade mask : UInt8) :
    let d := ((((c.command icw1).data base).data cascade).data 1).data mask
    d.Programmed (base &&& 0xF8) cascade ∧ d.Idle ∧ d.mask = mask ∧ ∀ k, d.request k = false := by
  have restart : c.command icw1 =
      { c with phase := .icw2, icw4Expected := true, single := false, mode := 0, mask := 0,
               request := fun _ => false, inService := fun _ => false } := by
    rw [command, if_pos start, decide_eq_true more, decide_eq_false fun both => both pair]
  rw [restart]
  exact ⟨⟨rfl, rfl, rfl, rfl⟩, fun k _ => rfl, rfl, fun k => rfl⟩

theorem Idle.endFirst {c : Chip} (idle : c.Idle) : c.endFirst = c := by
  rw [Chip.endFirst, firstIndex_eq_none.mpr idle]

theorem Idle.unblocked {c : Chip} (idle : c.Idle) {k : Nat} (line : k < 8) :
    c.unblocked k = true := by
  refine List.all_eq_true.mpr fun j member => ?_
  rw [idle j (by have below := List.mem_range.mp member; omega)]
  rfl

/-- With nothing in service the first line that is requested and not masked comes next. -/
theorem Idle.next {c : Chip} (idle : c.Idle) (ready : c.phase = .ready) :
    c.next = firstIndex (fun k => c.request k && !c.masked k) 8 := by
  rw [Chip.next, if_pos ready]
  refine firstIndex_congr fun k line => ?_
  rw [idle.unblocked line, Bool.and_true]

/-- The end of the only interrupt in service. -/
theorem Idle.endFirst_enter {c : Chip} (idle : c.Idle) (explicit : c.mode = 1) {k : Nat}
    (line : k < 8) : (c.enter k).endFirst = c := by
  have taken : c.enter k = { c with inService := Function.update c.inService k true } := by
    rw [enter, if_pos (by rw [explicit]; decide)]
  have first : firstIndex (Function.update c.inService k true) 8 = some k := by
    refine firstIndex_eq_some.mpr ⟨line, Function.update_self .., fun j below => ?_⟩
    rw [Function.update_of_ne (Nat.ne_of_lt below)]
    exact idle j (Nat.lt_trans below line)
  have quiet : Function.update c.inService k false = c.inService := by
    rw [← idle k line, Function.update_eq_self]
  rw [taken, Chip.endFirst]
  simp only [first, finish, Function.update_idem, quiet]

theorem endFirst_ask (c : Chip) (k : Nat) (b : Bool) :
    (c.ask k b).endFirst = c.endFirst.ask k b := by
  unfold endFirst
  rw [show (c.ask k b).inService = c.inService from rfl]
  cases firstIndex c.inService 8 with
  | none => rfl
  | some j => rfl

theorem endFirst_service (c : Chip) : ∃ f, c.endFirst = { c with inService := f } := by
  unfold endFirst
  cases firstIndex c.inService 8 with
  | none => exact ⟨c.inService, rfl⟩
  | some k => exact ⟨_, rfl⟩

theorem enter_service (c : Chip) (k : Nat) : ∃ f, c.enter k = { c with inService := f } := by
  unfold enter
  split
  · exact ⟨_, rfl⟩
  · exact ⟨c.inService, rfl⟩

end Chip

/-- The two controllers, the slave on line 2 of the master. -/
structure Pair where
  master : Chip
  slave : Chip

namespace Pair

/-- Lines 0 to 7 are the master's, lines 8 to 15 the slave's. No device is on line 2. -/
def IsLine (n : Nat) : Prop := n < 16 ∧ n ≠ 2

instance (n : Nat) : Decidable (IsLine n) := inferInstanceAs (Decidable (_ ∧ _))

def ask (p : Pair) (n : Nat) (b : Bool) : Pair :=
  if n < 8 then { p with master := p.master.ask n b }
  else { p with slave := p.slave.ask (n - 8) b }

/-- A device raises line `n`. -/
def raise (p : Pair) (n : Nat) : Pair := p.ask n true

/-- The request of line `n` has been taken. -/
def drop (p : Pair) (n : Nat) : Pair := p.ask n false

def requested (p : Pair) (n : Nat) : Bool :=
  if n < 8 then p.master.request n else p.slave.request (n - 8)

/-- The line and, behind the slave, the cascade are not masked. -/
def enabled (p : Pair) (n : Nat) : Bool :=
  if n < 8 then !p.master.masked n else !p.slave.masked (n - 8) && !p.master.masked 2

/-- The master with the slave's output on its line 2. -/
def cascaded (p : Pair) : Chip :=
  { p.master with request := Function.update p.master.request 2 p.slave.next.isSome }

/-- The vector a line is served under. -/
def vector (p : Pair) (n : Nat) : UInt8 :=
  if n < 8 then p.master.base + UInt8.ofNat n else p.slave.base + UInt8.ofNat (n - 8)

/-- Line `n` is acknowledged, and with a line of the slave the cascade. -/
def enter (p : Pair) (n : Nat) : Pair :=
  if n < 8 then { p with master := p.master.enter n }
  else { master := p.master.enter 2, slave := p.slave.enter (n - 8) }

/-- The slave answers an acknowledgement of the master's line 2 if both know of it. -/
def answers (p : Pair) : Bool := decide (p.master.cascade &&& 4 ≠ 0 ∧ p.slave.cascade &&& 7 = 2)

/-- What the processor gets when it acknowledges: the line, if there is one to serve. -/
def acknowledge (p : Pair) : Option Nat :=
  p.cascaded.next.bind fun k =>
    if k = 2 then if p.answers then p.slave.next.map (8 + ·) else none else some k

/-- Lines are served in this order. -/
def rank (n : Nat) : Nat := if n < 2 then n else if 8 ≤ n then n - 6 else n + 8

/-- Both controllers are initialised, the slave as line 2. -/
structure Programmed (p : Pair) (base base' : UInt8) : Prop where
  master : p.master.Programmed base 4
  slave : p.slave.Programmed base' 2

/-- Nothing is in service. -/
structure Idle (p : Pair) : Prop where
  master : p.master.Idle
  slave : p.slave.Idle

/-- Line `n` could be served if nothing else were. -/
structure Waiting (p : Pair) (n : Nat) : Prop where
  line : IsLine n
  requested : p.requested n = true
  enabled : p.enabled n = true

theorem enabled_iff (p : Pair) (n : Nat) : p.enabled n = true ↔
    (n < 8 → p.master.masked n = false) ∧
      (8 ≤ n → p.slave.masked (n - 8) = false ∧ p.master.masked 2 = false) := by
  unfold enabled
  by_cases own : n < 8
  · rw [if_pos own, Bool.not_eq_true']
    exact ⟨fun shown => ⟨fun _ => shown, fun late => absurd own (Nat.not_lt.mpr late)⟩,
      fun h => h.1 own⟩
  · rw [if_neg own, Bool.and_eq_true, Bool.not_eq_true', Bool.not_eq_true']
    exact ⟨fun shown => ⟨fun early => absurd early own, fun _ => shown⟩,
      fun h => h.2 (Nat.not_lt.mp own)⟩

section Priority

variable {p : Pair} {base base' : UInt8}

theorem Idle.cascaded (idle : p.Idle) : p.cascaded.Idle := idle.master

theorem Programmed.answers (ready : p.Programmed base base') : p.answers = true := by
  rw [Pair.answers, ready.master.cascade, ready.slave.cascade]
  decide

theorem waiting_master {n : Nat} (below : n < 8) (other : n ≠ 2) : p.Waiting n ↔
    p.cascaded.request n = true ∧ p.cascaded.masked n = false := by
  have request : p.cascaded.request n = p.requested n := by
    rw [requested, if_pos below]
    exact Function.update_of_ne other ..
  have enabled : p.enabled n = !p.cascaded.masked n := by
    rw [enabled, if_pos below]
    rfl
  rw [request, ← Bool.not_eq_true', ← enabled]
  exact ⟨fun w => ⟨w.requested, w.enabled⟩, fun h => ⟨⟨by omega, other⟩, h.1, h.2⟩⟩

theorem waiting_slave (k : Nat) : p.Waiting (8 + k) ↔ k < 8 ∧ p.slave.request k = true ∧
    p.slave.masked k = false ∧ p.master.masked 2 = false := by
  have behind : ¬8 + k < 8 := by omega
  have request : p.requested (8 + k) = p.slave.request k := by
    rw [requested, if_neg behind, Nat.add_sub_cancel_left]
  have enabled : p.enabled (8 + k) = true ↔ p.slave.masked k = false ∧ p.master.masked 2 = false := by
    rw [enabled, if_neg behind, Nat.add_sub_cancel_left, Bool.and_eq_true, Bool.not_eq_true',
      Bool.not_eq_true']
  constructor
  · intro w
    have below := w.line.1
    exact ⟨by omega, request ▸ w.requested, enabled.mp w.enabled⟩
  · rintro ⟨below, asks, open'⟩
    exact ⟨⟨by omega, by omega⟩, request.trans asks, enabled.mpr open'⟩

theorem Idle.cascaded_next (idle : p.Idle) (ready : p.Programmed base base') :
    p.cascaded.next = firstIndex (fun k => p.cascaded.request k && !p.cascaded.masked k) 8 :=
  idle.cascaded.next ready.master.phase

theorem cascaded_request : p.cascaded.request 2 = p.slave.next.isSome := by
  simp only [cascaded, Function.update_self]

/-- What the master sees of a waiting line: the line itself, or the slave on line 2. -/
theorem Idle.sees {m : Nat} (idle : p.Idle) (ready : p.Programmed base base') (w : p.Waiting m) :
    ∃ k, k < 8 ∧ (p.cascaded.request k && !p.cascaded.masked k) = true ∧
      (k = 2 ∧ 8 ≤ m ∨ k ≠ 2 ∧ k = m) := by
  by_cases own : m < 8
  · obtain ⟨asks, shown⟩ := (waiting_master own w.line.2).mp w
    exact ⟨m, own, by rw [asks, shown]; rfl, Or.inr ⟨w.line.2, rfl⟩⟩
  · obtain ⟨k, rfl⟩ : ∃ k, m = 8 + k := ⟨m - 8, by omega⟩
    obtain ⟨below, asks, shown, cascade⟩ := (waiting_slave k).mp w
    have raised : p.slave.next.isSome = true := by
      by_contra silent
      rw [Bool.not_eq_true, Option.isSome_eq_false_iff, Option.isNone_iff_eq_none,
        idle.slave.next ready.slave.phase, firstIndex_eq_none] at silent
      have quiet := silent k below
      rw [asks, shown] at quiet
      exact absurd quiet (by decide)
    have shown' : p.cascaded.masked 2 = false := cascade
    exact ⟨2, by omega, by rw [cascaded_request, raised, shown']; rfl, Or.inl ⟨rfl, by omega⟩⟩

theorem rank_slave (k : Nat) : rank (8 + k) = k + 2 := by
  rw [rank, if_neg (by omega), if_pos (by omega)]
  omega

theorem rank_injective {n m : Nat} (line : IsLine n) (line' : IsLine m) (same : rank n = rank m) :
    n = m := by
  obtain ⟨below, other⟩ := line
  obtain ⟨below', other'⟩ := line'
  unfold rank at same
  split_ifs at same
  all_goals omega

theorem rank_own {k m : Nat} (own : k ≠ 2) (below : k < 8)
    (before : k ≤ 2 ∧ 8 ≤ m ∨ k ≤ m ∧ m < 8) : rank k ≤ rank m := by
  unfold rank
  split_ifs
  all_goals omega

/-- With nothing in service the processor gets the waiting line that is served first. -/
theorem Idle.acknowledge_first {n : Nat} (idle : p.Idle) (ready : p.Programmed base base')
    (h : p.acknowledge = some n) : p.Waiting n ∧ ∀ m, p.Waiting m → rank n ≤ rank m := by
  obtain ⟨k, next, taken⟩ := Option.bind_eq_some_iff.mp h
  rw [idle.cascaded_next ready, firstIndex_eq_some] at next
  obtain ⟨below, asks, before⟩ := next
  have earlier : ∀ m, p.Waiting m → ∃ j, k ≤ j ∧ (j = 2 ∧ 8 ≤ m ∨ j ≠ 2 ∧ j = m ∧ j < 8) := by
    intro m w
    obtain ⟨j, line, asks', which⟩ := idle.sees ready w
    refine ⟨j, Nat.not_lt.mp fun less => ?_, which.imp_right fun own => ⟨own.1, own.2, line⟩⟩
    rw [before j less] at asks'
    exact Bool.noConfusion asks'
  rw [Bool.and_eq_true, Bool.not_eq_true'] at asks
  by_cases slave : k = 2
  · subst slave
    rw [if_pos rfl, if_pos ready.answers, Option.map_eq_some_iff] at taken
    obtain ⟨j, first, rfl⟩ := taken
    rw [idle.slave.next ready.slave.phase, firstIndex_eq_some] at first
    obtain ⟨below', asks', before'⟩ := first
    rw [Bool.and_eq_true, Bool.not_eq_true'] at asks'
    refine ⟨(waiting_slave j).mpr ⟨below', asks'.1, asks'.2, asks.2⟩, fun m w => ?_⟩
    obtain ⟨i, late, which⟩ := earlier m w
    rw [rank_slave]
    rcases which with ⟨_, behind⟩ | ⟨other, rfl, own⟩
    · obtain ⟨l, rfl⟩ : ∃ l, m = 8 + l := ⟨m - 8, by omega⟩
      obtain ⟨_, asks'', shown'', _⟩ := (waiting_slave l).mp w
      have order : j ≤ l := by
        refine Nat.not_lt.mp fun less => ?_
        have quiet := before' l less
        rw [asks'', shown''] at quiet
        exact absurd quiet (by decide)
      rw [rank_slave]
      exact Nat.add_le_add_right order 2
    · rw [rank, if_neg (by omega), if_neg (by omega)]
      omega
  · rw [if_neg slave] at taken
    cases taken
    refine ⟨(waiting_master below slave).mpr asks, fun m w => ?_⟩
    obtain ⟨i, late, which⟩ := earlier m w
    exact rank_own slave below (by omega)

theorem Idle.acknowledge_none (idle : p.Idle) (ready : p.Programmed base base')
    (h : p.acknowledge = none) (m : Nat) : ¬p.Waiting m := by
  intro w
  obtain ⟨j, below, asks, _⟩ := idle.sees ready w
  cases next : p.cascaded.next with
  | none =>
      rw [idle.cascaded_next ready, firstIndex_eq_none] at next
      rw [next j below] at asks
      exact Bool.noConfusion asks
  | some k =>
      rw [acknowledge, next, Option.bind_some] at h
      by_cases slave : k = 2
      · subst slave
        rw [if_pos rfl, if_pos ready.answers, Option.map_eq_none_iff] at h
        rw [idle.cascaded_next ready, firstIndex_eq_some] at next
        have raised := (Bool.and_eq_true_iff.mp next.2.1).1
        rw [cascaded_request, h] at raised
        exact Bool.noConfusion raised
      · rw [if_neg slave] at h
        exact nomatch h

/-- The line the processor gets is the waiting line that is served first. -/
theorem Idle.acknowledge_iff (idle : p.Idle) (ready : p.Programmed base base') (n : Nat) :
    p.acknowledge = some n ↔ p.Waiting n ∧ ∀ m, p.Waiting m → rank n ≤ rank m := by
  refine ⟨idle.acknowledge_first ready, ?_⟩
  rintro ⟨waits, first⟩
  cases taken : p.acknowledge with
  | none => exact absurd waits (idle.acknowledge_none ready taken n)
  | some m =>
      obtain ⟨waits', first'⟩ := idle.acknowledge_first ready taken
      have same := Nat.le_antisymm (first' n waits) (first m waits')
      rw [rank_injective waits'.line waits.line same]

end Priority

/-- The commands that end the interrupt of a line: one for each controller it came through. -/
def finished (p : Pair) (n : Nat) : Pair :=
  if n < 8 then { p with master := p.master.endFirst }
  else { master := p.master.endFirst, slave := p.slave.endFirst }

/-- An interrupt that was taken and ended leaves nothing in service; the slave may be
told of it without need. -/
theorem Idle.finished_enter {p : Pair} {base base' : UInt8} {n m : Nat} (idle : p.Idle)
    (ready : p.Programmed base base') (line : n < 16) (told : 8 ≤ n → 8 ≤ m) :
    (p.enter n).finished m = p := by
  unfold enter finished
  by_cases own : n < 8
  · rw [if_pos own, idle.master.endFirst_enter ready.master.mode own, idle.slave.endFirst]
    exact ite_self p
  · have behind : ¬m < 8 := Nat.not_lt.mpr (told (Nat.not_lt.mp own))
    rw [if_neg own, if_neg behind, idle.master.endFirst_enter ready.master.mode (by omega),
      idle.slave.endFirst_enter ready.slave.mode (by omega)]

/-- More such commands do nothing. -/
theorem Idle.finished {p : Pair} (idle : p.Idle) (n : Nat) : p.finished n = p := by
  unfold Pair.finished
  rw [idle.master.endFirst, idle.slave.endFirst]
  exact ite_self p

/-- The controllers differ at most in what is in service. -/
def ServiceOnly (p q : Pair) : Prop :=
  ∃ f g, q = ⟨{ p.master with inService := f }, { p.slave with inService := g }⟩

section ServiceOnly

variable {p q : Pair}

theorem ServiceOnly.refl (p : Pair) : p.ServiceOnly p := ⟨p.master.inService, p.slave.inService, rfl⟩

theorem enter_serviceOnly (p : Pair) (n : Nat) : p.ServiceOnly (p.enter n) := by
  unfold enter
  split
  · obtain ⟨f, entered⟩ := p.master.enter_service n
    exact ⟨f, p.slave.inService, by rw [entered]⟩
  · obtain ⟨f, entered⟩ := p.master.enter_service 2
    obtain ⟨g, entered'⟩ := p.slave.enter_service (n - 8)
    exact ⟨f, g, by rw [entered, entered']⟩

theorem ServiceOnly.programmed (h : p.ServiceOnly q) {base base' : UInt8}
    (ready : p.Programmed base base') : q.Programmed base base' := by
  obtain ⟨f, g, rfl⟩ := h
  exact ⟨⟨ready.master.phase, ready.master.base, ready.master.cascade, ready.master.mode⟩,
    ⟨ready.slave.phase, ready.slave.base, ready.slave.cascade, ready.slave.mode⟩⟩

theorem ServiceOnly.requested (h : p.ServiceOnly q) (n : Nat) : q.requested n = p.requested n := by
  obtain ⟨f, g, rfl⟩ := h
  rfl

theorem ServiceOnly.enabled (h : p.ServiceOnly q) (n : Nat) : q.enabled n = p.enabled n := by
  obtain ⟨f, g, rfl⟩ := h
  rfl

end ServiceOnly

section Requests

variable {p : Pair}

theorem ask_requested (p : Pair) (n m : Nat) (b : Bool) :
    (p.ask n b).requested m = if m = n then b else p.requested m := by
  unfold ask requested
  by_cases own : n < 8
  · rw [if_pos own]
    by_cases own' : m < 8
    · rw [if_pos own', if_pos own']
      exact Function.update_apply _ _ _ _
    · rw [if_neg own', if_neg own', if_neg (by omega)]
  · rw [if_neg own]
    by_cases own' : m < 8
    · rw [if_pos own', if_pos own', if_neg (by omega)]
    · have same : m - 8 = n - 8 ↔ m = n := by omega
      rw [if_neg own', if_neg own']
      refine (Function.update_apply _ _ _ _).trans ?_
      simp only [same]

theorem ask_enabled (p : Pair) (n m : Nat) (b : Bool) : (p.ask n b).enabled m = p.enabled m := by
  unfold ask
  split
  · rfl
  · rfl

theorem Programmed.ask {base base' : UInt8} (ready : p.Programmed base base') (n : Nat) (b : Bool) :
    (p.ask n b).Programmed base base' := by
  unfold Pair.ask
  split
  · exact ⟨⟨ready.master.phase, ready.master.base, ready.master.cascade, ready.master.mode⟩,
      ready.slave⟩
  · exact ⟨ready.master, ⟨ready.slave.phase, ready.slave.base, ready.slave.cascade,
      ready.slave.mode⟩⟩

theorem Idle.ask (idle : p.Idle) (n : Nat) (b : Bool) : (p.ask n b).Idle := by
  unfold Pair.ask
  split
  · exact ⟨idle.master, idle.slave⟩
  · exact ⟨idle.master, idle.slave⟩

end Requests

end Pair

end Pic
