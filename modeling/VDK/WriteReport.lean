import VDK.LbaCommands
import Mathlib.Data.Nat.Count

/-!
# What a write reports

The device is a stream of status bytes. A monitor reads the history of a write as
the drive's side would: the status shown before each block, the words sent, and
the status shown after the cache flush. Busy bytes show nothing, since their other
bits are not valid.
-/
namespace VDK
open Fuel ByteMem

def Quiet (v : UInt8) : Prop := v &&& ataSrBsy = 0

/-- DRQ with ERR and DF clear. -/
def Ready (v : UInt8) : Prop :=
  v &&& ataSrDrq ≠ 0 ∧ v &&& ataSrErr = 0 ∧ v &&& ataSrDf = 0

def Clean (v : UInt8) : Prop := v &&& ataSrErr = 0 ∧ v &&& ataSrDf = 0

instance : DecidablePred Quiet := fun _ => inferInstanceAs (Decidable (_ = _))
instance : DecidablePred Ready := fun _ => inferInstanceAs (Decidable (_ ∧ _))
instance : DecidablePred Clean := fun _ => inferInstanceAs (Decidable (_ ∧ _))

/-- `status` is the last quiet byte shown; `blocksReady` and `flushClean` are the
verdicts so far. -/
structure WriteMonitor where
  status : UInt8
  words : Nat
  blocksReady : Bool
  flushed : Bool
  flushClean : Bool

namespace WriteMonitor

def start : WriteMonitor := ⟨0, 0, true, false, true⟩

/-- The drive shows a quiet status byte. -/
def shows (m : WriteMonitor) (v : UInt8) : WriteMonitor :=
  { m with status := v, flushClean := m.flushClean && (!m.flushed || decide (Clean v)) }

/-- One access, for a command block at `base`; a block is 256 words. -/
def observe (base : UInt16) (m : WriteMonitor) : Access → WriteMonitor
  | .inb port v => if port = base + 7 ∧ Quiet v then m.shows v else m
  | .outw port _ =>
      if port = base then
        { m with words := m.words + 1,
                 blocksReady := m.blocksReady && (m.words % 256 != 0 || decide (Ready m.status)) }
      else m
  | .outb port v =>
      if port = base + 7 ∧ (v = 0xE7 ∨ v = 0xEA) then { m with flushed := true } else m
  | _ => m

def watch (base : UInt16) (m : WriteMonitor) (tr : List Access) : WriteMonitor :=
  tr.foldl (observe base) m

/-- `n` blocks sent, each to a ready drive, and no error shown after the flush. -/
def Done (n : Nat) (m : WriteMonitor) : Prop :=
  m.words = 256 * n ∧ m.blocksReady = true ∧ m.flushClean = true

instance (n : Nat) (m : WriteMonitor) : Decidable (m.Done n) :=
  inferInstanceAs (Decidable (_ ∧ _))

variable {base : UInt16} (m : WriteMonitor)

theorem watch_append (first second : List Access) :
    m.watch base (first ++ second) = (m.watch base first).watch base second :=
  List.foldl_append

theorem watch_elsewhere {port : UInt16} (apart : port ≠ base + 7) {tr : List Access}
    (reads : ∀ a ∈ tr, ∃ value, a = Access.inb port value) : m.watch base tr = m := by
  induction tr with
  | nil => rfl
  | cons a tr ih =>
      obtain ⟨v, rfl⟩ := reads a List.mem_cons_self
      have skip : m.observe base (.inb port v) = m := if_neg fun h => apart h.1
      rw [watch, List.foldl_cons, skip]
      exact ih fun b hb => reads b (List.mem_cons_of_mem _ hb)

/-- Of a busy wait only its last byte is shown. -/
theorem watch_wait {busy : List UInt8} (all : ∀ v ∈ busy, v &&& ataSrBsy ≠ 0) {last : UInt8}
    (quiet : Quiet last) :
    m.watch base ((busy ++ [last]).map (Access.inb (base + 7))) = m.shows last := by
  induction busy with
  | nil => exact if_pos ⟨rfl, quiet⟩
  | cons v busy ih =>
      have skip : m.observe base (.inb (base + 7) v) = m :=
        if_neg fun h => all v List.mem_cons_self h.2
      rw [List.cons_append, List.map_cons, watch, List.foldl_cons, skip]
      exact ih fun w hw => all w (List.mem_cons_of_mem v hw)

theorem watch_outAccesses {writes : List (UInt16 × UInt8)}
    (none : ∀ w ∈ writes, ¬ (w.1 = base + 7 ∧ (w.2 = 0xE7 ∨ w.2 = 0xEA))) :
    m.watch base (outAccesses writes) = m := by
  induction writes with
  | nil => rfl
  | cons w writes ih =>
      have skip : m.observe base (.outb w.1 w.2) = m := if_neg (none w List.mem_cons_self)
      rw [outAccesses, List.map_cons, watch, List.foldl_cons, skip]
      exact ih fun x hx => none x (List.mem_cons_of_mem w hx)

theorem watch_inside (words : List UInt16)
    (inside : ∀ k, k < words.length → (m.words + k) % 256 ≠ 0) :
    m.watch base (words.map (Access.outw base)) = { m with words := m.words + words.length } := by
  induction words generalizing m with
  | nil => rfl
  | cons w words ih =>
      have first : m.words % 256 ≠ 0 := inside 0 (Nat.zero_lt_succ _)
      have step : m.observe base (.outw base w) = { m with words := m.words + 1 } := by
        simp [observe, first]
      rw [List.map_cons, watch, List.foldl_cons, step, ← watch, ih]
      · simp only [List.length_cons, Nat.add_assoc, Nat.add_comm 1]
      · intro k hk
        have later := inside (k + 1) (Nat.succ_lt_succ hk)
        rwa [Nat.add_assoc, Nat.add_comm 1]

/-- A block is judged by the status shown before its first word. -/
theorem watch_block {words : List UInt16} (length : words.length = 256) {k : Nat}
    (blocks : m.words = 256 * k) :
    m.watch base (words.map (Access.outw base)) =
      { m with words := 256 * (k + 1), blocksReady := m.blocksReady && decide (Ready m.status) } := by
  cases words with
  | nil => cases length
  | cons w words =>
      have rest : words.length = 255 := Nat.succ.inj length
      have boundary : m.words % 256 = 0 := by omega
      have step : m.observe base (.outw base w) =
          { m with words := m.words + 1,
                   blocksReady := m.blocksReady && decide (Ready m.status) } := by
        simp [observe, boundary]
      rw [List.map_cons, watch, List.foldl_cons, step, ← watch, watch_inside]
      · simp only [rest, blocks]
        congr 1
      · intro j hj
        dsimp only
        omega

end WriteMonitor

section Stream

variable {σ : Type}

/-- The answers of `port` are the bytes of `st` in turn; `pos` is the number given so far. -/
structure StatusStream (hw : Bus σ) (port : UInt16) (st : Nat → UInt8) (pos : σ → Nat) : Prop where
  answer : ∀ b, (hw.inb port b).1 = st (pos b)
  next : ∀ b, pos (hw.inb port b).2 = pos b + 1
  inb : ∀ p b, p ≠ port → pos (hw.inb p b).2 = pos b
  outb : ∀ p v b, pos (hw.outb p v b) = pos b
  outw : ∀ p w b, pos (hw.outw p w b) = pos b

/-- The number of quiet bytes among the first `i`. -/
abbrev quietBefore (st : Nat → UInt8) (i : Nat) : Nat := Nat.count (fun j => Quiet (st j)) i

variable {hw : Bus σ} {port : UInt16} {st : Nat → UInt8} {pos : σ → Nat}
  (stream : StatusStream hw port st pos)

include stream

theorem pos_sendBus (writes : List (UInt16 × UInt8)) (b : σ) :
    pos (sendBus hw writes b) = pos b := by
  induction writes generalizing b with
  | nil => rfl
  | cons w writes ih => exact (ih (hw.outb w.1 w.2 b)).trans (stream.outb w.1 w.2 b)

theorem pos_writeWords (data : UInt16) (words : List UInt16) (b : σ) :
    pos (writeWords hw data words b) = pos b := by
  induction words generalizing b with
  | nil => rfl
  | cons w words ih => exact (ih (hw.outw data w b)).trans (stream.outw data w b)

theorem pos_readMany {control : UInt16} (apart : control ≠ port) (n : Nat) (b : σ) :
    pos (readMany hw control n b).2 = pos b := by
  induction n generalizing b with
  | zero => rfl
  | succ n ih => exact (ih (hw.inb control b).2).trans (stream.inb control b apart)

/-- With a quiet byte ahead and fuel to reach it, the wait stops at the first one. -/
theorem busyReads_stream (fuel : Nat) (b : σ) {last : Nat} (quiet : Quiet (st last))
    (ahead : pos b ≤ last) (enough : last < pos b + fuel) :
    ∃ i busy, pos b ≤ i ∧ (∀ l, pos b ≤ l → l < i → ¬ Quiet (st l)) ∧ Quiet (st i) ∧
      (∀ v ∈ busy, v &&& ataSrBsy ≠ 0) ∧ (busyReads hw port fuel b).1 = true ∧
      (busyReads hw port fuel b).2.1 = busy ++ [st i] ∧
      pos (busyReads hw port fuel b).2.2 = i + 1 := by
  induction fuel generalizing b with
  | zero => exact absurd enough (Nat.not_lt_of_le ahead)
  | succ fuel ih =>
      rw [busyReads]
      by_cases bsy : (hw.inb port b).1 &&& ataSrBsy ≠ 0
      · simp only [if_pos bsy]
        have loud : ¬ Quiet (st (pos b)) := by
          rw [← stream.answer]
          exact bsy
        have differs : pos b ≠ last := by
          rintro rfl
          exact loud quiet
        have more := stream.next b
        obtain ⟨i, busy, ahead, before, here, all, ended, bytes, after⟩ :=
          ih (hw.inb port b).2 (by omega) (by omega)
        refine ⟨i, (hw.inb port b).1 :: busy, by omega, ?_, here, ?_, ended, ?_, after⟩
        · intro l hl hi
          by_cases first : l = pos b
          · rw [first]
            exact loud
          · exact before l (by omega) hi
        · intro v member
          rcases List.mem_cons.mp member with rfl | later
          · exact bsy
          · exact all v later
        · rw [bytes]
          rfl
      · simp only [if_neg bsy]
        have here : Quiet (st (pos b)) := by
          rw [← stream.answer]
          exact not_not.mp bsy
        refine ⟨pos b, [], Nat.le_refl _, fun l hl hi => ?_, here, by simp, trivial, ?_, stream.next b⟩
        · exact absurd hi (Nat.not_lt_of_le hl)
        · rw [stream.answer]
          rfl

end Stream

section Waits

variable {σ : Type} {hw : Bus σ} {base : UInt16} {st : Nat → UInt8} {pos : σ → Nat}

/-- A wait from `t` to `u` that ended on byte `i`. -/
structure Shown (base : UInt16) (st : Nat → UInt8) (pos : σ → Nat) (t u : IdeState σ) (i : Nat) :
    Prop where
  history : ∃ tr, u.log = t.log ++ tr ∧ ∀ m : WriteMonitor, m.watch base tr = m.shows (st i)
  channels : u.channels = t.channels
  ahead : pos t.bus ≤ i
  before : ∀ l, pos t.bus ≤ l → l < i → ¬ Quiet (st l)
  quiet : Quiet (st i)
  next : pos u.bus = i + 1

theorem Shown.count {t u : IdeState σ} {i : Nat} (h : Shown base st pos t u i) :
    quietBefore st i = quietBefore st (pos t.bus) := by
  obtain ⟨d, rfl⟩ := Nat.exists_eq_add_of_le h.ahead
  rw [quietBefore, Nat.count_add, Nat.add_eq_left, Nat.count_iff_forall_not]
  exact fun l hl => h.before _ (Nat.le_add_right _ l) (Nat.add_lt_add_left hl _)

variable (stream : StatusStream hw (base + 7) st pos)

include stream

theorem waitWhileBusy_shows (fuel : Nat) (channel : UInt8) (t : IdeState σ)
    (hb : (t.channels channel.toNat).base = base) {last : Nat} (quiet : Quiet (st last))
    (ahead : pos t.bus ≤ last) (enough : last < fuel) :
    Returns (waitWhileBusy hw channel fuel) t fun _ u => ∃ i, Shown base st pos t u i := by
  obtain ⟨i, busy, ahead, before, here, all, ended, bytes, next⟩ :=
    busyReads_stream stream fuel t.bus quiet ahead (Nat.lt_add_left _ enough)
  have run := waitWhileBusy_run hw channel fuel t (congrArg (· + 7) hb)
  rw [ended, if_pos rfl] at run
  refine ⟨(), _, run, i, ⟨_, rfl, fun m => ?_⟩, rfl, ahead, before, here, next⟩
  rw [bytes]
  exact m.watch_wait all here

theorem idePolling_shows (fuel : Nat) (channel : UInt8) (t : IdeState σ)
    (hb : (t.channels channel.toNat).base = base)
    (apart : (t.channels channel.toNat).control + 2 ≠ base + 7) {last : Nat}
    (quiet : Quiet (st last)) (ahead : pos t.bus ≤ last) (enough : last < fuel) :
    Returns (idePolling hw fuel channel 0) t fun _ u => ∃ i, Shown base st pos t u i := by
  have delayed := altStatusDelay_eq hw channel 4 t rfl
  have still := pos_readMany stream apart 4 t.bus
  have wait := waitWhileBusy_shows stream fuel channel (altStatusDelay hw channel 4 t)
    (by rw [delayed]; exact hb) quiet (by rw [delayed]; exact still ▸ ahead) enough
  refine Returns.modify (wait.bind ?_)
  rintro _ u ⟨i, shown⟩
  obtain ⟨tr, log, watched⟩ := shown.history
  have channels := shown.channels
  have ahead := shown.ahead
  have before := shown.before
  rw [delayed] at log channels ahead before
  refine Returns.pure ⟨i, ⟨_, log.trans (List.append_assoc ..), fun m => ?_⟩, channels, ?_, ?_,
    shown.quiet, shown.next⟩
  · rw [WriteMonitor.watch_append, WriteMonitor.watch_elsewhere m apart]
    · exact watched m
    · intro a member
      obtain ⟨v, _, rfl⟩ := List.mem_map.mp member
      exact ⟨v, rfl⟩
  · exact still ▸ ahead
  · exact still ▸ before

end Waits

section Blocks

variable {σ : Type} {hw : Bus σ} {ch : Nat} {base control : UInt16} {st : Nat → UInt8}
  {pos : σ → Nat}

/-- `k` blocks of a write have been sent between `s` and `t`, and `k + 1` waits are over. -/
structure Sent (ch : Nat) (base control : UInt16) (st : Nat → UInt8) (pos : σ → Nat)
    (s t : IdeState σ) (k : Nat) : Prop where
  history : ∃ tr, t.log = s.log ++ tr ∧
    (WriteMonitor.start.watch base tr).words = 256 * k ∧
    (WriteMonitor.start.watch base tr).flushed = false ∧
    (WriteMonitor.start.watch base tr).flushClean = true ∧
    ((WriteMonitor.start.watch base tr).blocksReady = true ↔
      ∀ i, i < pos t.bus → Quiet (st i) → 0 < quietBefore st i → Ready (st i))
  base : (t.channels ch).base = base
  control : (t.channels ch).control = control
  count : quietBefore st (pos t.bus) = k + 1

/-- The last quiet byte needed lies ahead while waits are outstanding. -/
theorem Sent.ahead {s t : IdeState σ} {k n last : Nat} (sent : Sent ch base control st pos s t k)
    (more : k ≤ n) (quiet : Quiet (st last)) (needed : quietBefore st last = n + 1) :
    pos t.bus ≤ last := by
  by_contra beyond
  have later : quietBefore st (last + 1) ≤ quietBefore st (pos t.bus) :=
    Nat.count_monotone _ (Nat.not_le.mp beyond)
  have one : quietBefore st (last + 1) = quietBefore st last + 1 :=
    Nat.count_succ_eq_succ_count_iff.mpr quiet
  have count := sent.count
  omega

variable (stream : StatusStream hw (base + 7) st pos)

include stream

theorem Sent.block {s t u : IdeState σ} {k i : Nat} (sent : Sent ch base control st pos s t k)
    (shown : Shown base st pos t u i) (buffer : UInt32) :
    Sent ch base control st pos s (u.onMachine (repOutsw hw base 256 buffer)) (k + 1) := by
  obtain ⟨tr, log, words, flushed, clean, ready⟩ := sent.history
  obtain ⟨ur, log', watched⟩ := shown.history
  have next : pos (writeWords hw base (memWords u.mem 256 buffer) u.bus) = i + 1 :=
    (pos_writeWords stream base _ u.bus).trans shown.next
  have judged : quietBefore st i = k + 1 := shown.count.trans sent.count
  rw [onMachine_repOutsw]
  refine ⟨⟨tr ++ ur ++ (memWords u.mem 256 buffer).map (Access.outw base), ?_, ?_⟩, ?_, ?_, ?_⟩
  · rw [IdeState.after_log, log', log, List.append_assoc, List.append_assoc, List.append_assoc]
  · have counted : ((WriteMonitor.start.watch base tr).shows (st i)).words = 256 * k := words
    rw [WriteMonitor.watch_append, WriteMonitor.watch_append, watched,
      WriteMonitor.watch_block _ (length_memWords _ _ _) counted]
    refine ⟨rfl, flushed, ?_, ?_⟩
    · simp [WriteMonitor.shows, clean, flushed]
    · simp only [WriteMonitor.shows, Bool.and_eq_true, ready, IdeState.after_bus, next]
      constructor
      · rintro ⟨earlier, here⟩ j hj quiet positive
        by_cases old : j < pos t.bus
        · exact earlier j old quiet positive
        · by_cases last : j = i
          · rw [last]
            exact of_decide_eq_true here
          · exact absurd quiet (shown.before j (Nat.not_lt.mp old) (by omega))
      · intro all
        refine ⟨fun j hj => all j (by have := shown.ahead; omega), ?_⟩
        exact decide_eq_true (all i (Nat.lt_succ_self i) shown.quiet (by omega))
  · rw [IdeState.after_channels, shown.channels, sent.base]
  · rw [IdeState.after_channels, shown.channels, sent.control]
  · rw [IdeState.after_bus, next, quietBefore, Nat.count_succ_eq_succ_count_iff.mpr shown.quiet]
    exact congrArg (· + 1) judged

theorem idePioWrite_sent {channel : UInt8} (apart : control + 2 ≠ base + 7) (fuel n : Nat)
    {last : Nat} (quiet : Quiet (st last)) (needed : quietBefore st last = n + 1)
    (enough : last < fuel) {s : IdeState σ} (left : Nat) (buffer : UInt32) {t : IdeState σ} {k : Nat}
    (split : k + left = n) (sent : Sent channel.toNat base control st pos s t k) :
    Returns (idePioWrite hw fuel channel base left buffer) t fun _ u =>
      Sent channel.toNat base control st pos s u n := by
  induction left generalizing t buffer k with
  | zero =>
      rw [Nat.add_zero] at split
      subst split
      exact Returns.pure sent
  | succ left ih =>
      have poll := idePolling_shows stream fuel channel t sent.base (by rw [sent.control]; exact apart)
        quiet (sent.ahead (by omega) quiet needed) enough
      refine poll.bind ?_
      rintro _ u ⟨i, shown⟩
      exact Returns.modify (ih (buffer + 512) (by omega) (sent.block stream shown buffer))

end Blocks

section Report

variable {σ : Type} {hw : Bus σ} {st : Nat → UInt8} {pos : σ → Nat}

/-- On an ATA drive: each wait that precedes a block ends on a ready byte, and the
wait after the flush on a clean one. Elsewhere: the unassigned local is not 0, or
there was nothing to send. -/
def WriteCondition (device : IdeDevice) (st : Nat → UInt8) (err numSectors : UInt8) : Prop :=
  if device.type = ideAta then
    ∀ i, Quiet (st i) →
      (0 < quietBefore st i → quietBefore st i ≤ numSectors.toNat → Ready (st i)) ∧
        (quietBefore st i = numSectors.toNat + 1 → Clean (st i))
  else err ≠ 0 ∨ numSectors = 0

/-- The flush is judged by the one quiet byte after it. -/
theorem done_iff_condition {ch : Nat} {base control : UInt16} {s t u : IdeState σ} {n i : Nat}
    (sent : Sent ch base control st pos s t n) {flush : UInt8}
    (command : flush = 0xE7 ∨ flush = 0xEA) {v : IdeState σ}
    (flushed : v.log = t.log ++ [Access.outb (base + 7) flush]) (same : pos v.bus = pos t.bus)
    (shown : Shown base st pos v u i) :
    ∃ tr, u.log = s.log ++ tr ∧
      ((WriteMonitor.start.watch base tr).Done n ↔
        ∀ j, Quiet (st j) → (0 < quietBefore st j → quietBefore st j ≤ n → Ready (st j)) ∧
          (quietBefore st j = n + 1 → Clean (st j))) := by
  obtain ⟨tr, log, words, unflushed, clean, ready⟩ := sent.history
  obtain ⟨ur, log', watched⟩ := shown.history
  have judged : quietBefore st i = n + 1 := by rw [shown.count, same, sent.count]
  refine ⟨tr ++ [Access.outb (base + 7) flush] ++ ur, ?_, ?_⟩
  · rw [log', flushed, log, List.append_assoc, List.append_assoc, List.append_assoc]
  · have step : (WriteMonitor.start.watch base tr).observe base (.outb (base + 7) flush) =
        { WriteMonitor.start.watch base tr with flushed := true } := if_pos ⟨rfl, command⟩
    have earlier : ∀ j, Quiet (st j) → (j < pos t.bus ↔ quietBefore st j ≤ n) := by
      intro j quiet
      have one : quietBefore st (j + 1) = quietBefore st j + 1 :=
        Nat.count_succ_eq_succ_count_iff.mpr quiet
      have count := sent.count
      constructor
      · intro hj
        have up : quietBefore st (j + 1) ≤ quietBefore st (pos t.bus) := Nat.count_monotone _ hj
        omega
      · intro few
        by_contra beyond
        have up : quietBefore st (pos t.bus) ≤ quietBefore st j :=
          Nat.count_monotone _ (Nat.not_lt.mp beyond)
        omega
    rw [WriteMonitor.watch_append, WriteMonitor.watch_append, watched, WriteMonitor.watch,
      List.foldl_cons, List.foldl_nil, step]
    simp only [WriteMonitor.Done, WriteMonitor.shows, words, ready, clean, true_and,
      Bool.true_and, Bool.not_true, Bool.false_or]
    constructor
    · rintro ⟨all, verdict⟩ j quiet
      refine ⟨fun positive few => all j ((earlier j quiet).mpr few) quiet positive, fun last => ?_⟩
      rw [Nat.count_injective quiet shown.quiet (last.trans judged.symm)]
      exact of_decide_eq_true verdict
    · intro all
      refine ⟨fun j hj quiet positive => ?_, ?_⟩
      · exact (all j quiet).1 positive ((earlier j quiet).mp hj)
      · exact decide_eq_true ((all i shown.quiet).2 judged)

theorem commandWrites_no_flush {ch : IdeChannel} (ports : AtaPorts ch) (device : IdeDevice)
    (lba : UInt32) (numSectors : UInt8) :
    ∀ w ∈ commandWrites { ch with noIntr := 2 } device .write lba numSectors,
      ¬ (w.1 = ch.base + 7 ∧ (w.2 = 0xE7 ∨ w.2 = 0xEA)) := by
  intro w member
  rcases List.mem_append.mp member with parameter | command
  · have same : AtaPorts { ch with noIntr := 2 } := ports
    exact fun flush => parameterWrites_ne_command same _ _ _ w parameter flush.1
  · have other : ∀ mode, ¬ (ideCommand mode .write = 0xE7 ∨ ideCommand mode .write = 0xEA) := by
      intro mode
      cases mode <;> decide
    rw [registerWrites_low _ (by decide), List.mem_singleton] at command
    rw [command]
    exact fun flush => other _ flush.2

variable {ch : IdeChannel} (ports : AtaPorts ch) (stream : StatusStream hw (ch.base + 7) st pos)

include ports stream

/-- The wait in front of the command is the first one; no block has been sent after it. -/
theorem sent_commanded {device : IdeDevice} {s u : IdeState σ} {i : Nat}
    (here : s.channels device.channel.toNat = ch) (origin : pos s.bus = 0) (lba : UInt32)
    (numSectors : UInt8)
    (shown : Shown ch.base st pos (accessStarted hw device.channel s) u i) :
    Sent device.channel.toNat ch.base ch.control st pos s
      (commanded hw device .write lba numSectors u) 0 := by
  have own : u.channels device.channel.toNat = { ch with noIntr := 2 } :=
    (congrFun shown.channels _).trans (accessStarted_channel hw device.channel s here)
  obtain ⟨tr, log, watched⟩ := shown.history
  have zero : pos (accessStarted hw device.channel s).bus = 0 := by
    rw [accessStarted_eq hw device.channel s here, IdeState.after_bus, stream.outb]
    exact origin
  have count : quietBefore st i = 0 := by
    rw [shown.count, zero]
    exact Nat.count_zero _
  set writes := commandWrites { ch with noIntr := 2 } device .write lba numSectors with sentWrites
  have next : pos (sendBus hw writes u.bus) = i + 1 := (pos_sendBus stream writes u.bus).trans shown.next
  rw [accessStarted_eq hw device.channel s here, IdeState.after_log] at log
  rw [commanded, own]
  refine ⟨⟨[Access.outb (ch.control + 2) 2] ++ tr ++ outAccesses writes, ?_, ?_⟩, ?_, ?_, ?_⟩
  · rw [IdeState.after_log, log, List.append_assoc, List.append_assoc]
    rfl
  · have first : WriteMonitor.start.watch ch.base [Access.outb (ch.control + 2) 2] = .start :=
      if_neg fun h => ports.control_ne_command h.1
    rw [WriteMonitor.watch_append, WriteMonitor.watch_append, first, watched,
      WriteMonitor.watch_outAccesses _ (commandWrites_no_flush ports device lba numSectors)]
    refine ⟨rfl, rfl, rfl, iff_of_true rfl ?_⟩
    intro j hj quiet positive
    rw [IdeState.after_bus, next] at hj
    have last : j = i := by
      by_contra differs
      exact shown.before j (by rw [zero]; exact Nat.zero_le j) (by omega) quiet
    rw [last, count] at positive
    exact absurd positive (Nat.lt_irrefl 0)
  · rw [IdeState.after_channels, own]
  · rw [IdeState.after_channels, own]
  · rw [IdeState.after_bus, next, quietBefore, Nat.count_succ_eq_succ_count_iff.mpr shown.quiet]
    exact congrArg (· + 1) count

theorem ideAtaAccess_reports (fuel : Nat) (drive numSectors : UInt8) (lba buffer : UInt32)
    (s : IdeState σ) {device : IdeDevice} (found : s.devices drive.toNat = device)
    (here : s.channels device.channel.toNat = ch) (origin : pos s.bus = 0) {last : Nat}
    (quiet : Quiet (st last)) (needed : quietBefore st last = numSectors.toNat + 1)
    (enough : last < fuel) :
    ∃ t tr, (ideAtaAccess hw fuel .write drive lba numSectors buffer).run s = (some 0, t) ∧
      t.log = s.log ++ tr ∧
      ((WriteMonitor.start.watch ch.base tr).Done numSectors.toNat ↔
        ∀ j, Quiet (st j) →
          (0 < quietBefore st j → quietBefore st j ≤ numSectors.toNat → Ready (st j)) ∧
            (quietBefore st j = numSectors.toNat + 1 → Clean (st j))) := by
  have started := accessStarted_eq hw device.channel s here
  have zero : pos (accessStarted hw device.channel s).bus = 0 := by
    rw [started, IdeState.after_bus, stream.outb]
    exact origin
  have base : ((accessStarted hw device.channel s).channels device.channel.toNat).base = ch.base := by
    rw [accessStarted_channel hw device.channel s here]
  obtain ⟨_, u, wait, i, shown⟩ := waitWhileBusy_shows stream fuel device.channel
    (accessStarted hw device.channel s) base quiet (by rw [zero]; exact Nat.zero_le last) enough
  have sent := sent_commanded ports stream here origin lba numSectors shown
  have apart := ports.control_ne_command
  obtain ⟨_, v, loop, all⟩ := idePioWrite_sent stream apart fuel numSectors.toNat quiet needed
    enough numSectors.toNat buffer (Nat.zero_add _) sent
  set command := cacheFlushCommand (ideSelectMode device.features lba).mode with hcommand
  have kind : command = 0xE7 ∨ command = 0xEA := by
    rw [hcommand]
    cases (ideSelectMode device.features lba).mode with
    | chs => exact Or.inl rfl
    | lba28 => exact Or.inl rfl
    | lba48 => exact Or.inr rfl
  have flush := ideWriteRegister_after hw device.channel ataRegCommand command v
  rw [registerWrites_low _ (by decide), all.base] at flush
  set w := ideWriteRegister hw device.channel ataRegCommand command v
  have still : pos w.bus = pos v.bus := by
    rw [flush, IdeState.after_bus, pos_sendBus stream]
  have channels : w.channels = v.channels := by rw [flush, IdeState.after_channels]
  obtain ⟨e, t, poll, j, after⟩ := idePolling_shows stream fuel device.channel w
    (by rw [channels, all.base]) (by rw [channels, all.control]; exact apart) quiet
    (by rw [still]; exact all.ahead (Nat.le_refl _) quiet needed) enough
  obtain ⟨tr, log, verdict⟩ := done_iff_condition all kind (by rw [flush]; rfl) still after
  refine ⟨t, tr, ?_, log, verdict⟩
  have run := ideAtaAccess_run hw fuel .write drive lba numSectors buffer s
  simp only [found, here, wait, Exec.andThen_some] at run
  rw [run, ideTransfer]
  simp only [Exec.run_bind, loop, Exec.andThen_some, Exec.run_modify]
  change Exec.andThen ((idePolling hw fuel device.channel 0).run w) _ = _
  rw [poll]
  rfl

/-- A sector write reports success only when it was done if and only if
`WriteCondition` holds, for every status stream whose waits end. -/
theorem ideWriteSectors_reports_iff (fuel : Nat) (err drive numSectors : UInt8)
    (lba buffer : UInt32) (s : IdeState σ) {device : IdeDevice}
    (found : s.devices drive.toNat = device) (here : s.channels device.channel.toNat = ch)
    (passed : sectorCheck s.devices drive numSectors lba = .passed) (origin : pos s.bus = 0)
    (ends : device.type = ideAta → ∃ last, Quiet (st last) ∧
      quietBefore st last = numSectors.toNat + 1 ∧ last < fuel) :
    ∃ code t tr, (ideWriteSectors hw fuel err drive numSectors lba buffer).run s = (some code, t) ∧
      t.log = s.log ++ tr ∧
      ((code = 0 → (WriteMonitor.start.watch ch.base tr).Done numSectors.toNat) ↔
        WriteCondition device st err numSectors) := by
  rw [ideWriteSectors]
  by_cases ata : device.type = ideAta
  · obtain ⟨last, quiet, needed, enough⟩ := ends ata
    obtain ⟨t, tr, run, log, verdict⟩ := ideAtaAccess_reports ports stream fuel drive numSectors
      lba buffer s found here origin quiet needed enough
    refine ⟨0, t, tr, ?_, log, ?_⟩
    · rw [ideSectors_ata hw fuel .write passed (found ▸ ata), run]
      rfl
    · rw [WriteCondition, if_pos ata, ← verdict]
      exact ⟨fun h => h rfl, fun h _ => h⟩
  · obtain ⟨b, tr, calls, printed, reads⟩ := idePrintError_reports hw drive err s
    refine ⟨_, _, tr, ideSectors_other hw fuel .write passed (found ▸ ata), by rw [printed]; rfl, ?_⟩
    have silent : WriteMonitor.start.watch ch.base tr = .start := by
      have apart : (s.channels (s.devices drive.toNat).channel.toNat).base + 1 ≠ ch.base + 7 := by
        rw [found, here]
        exact fun e => absurd ((UInt16.add_right_inj ch.base).mp e) (by decide)
      exact WriteMonitor.watch_elsewhere .start apart reads
    have zero : ((idePrintError hw drive err s).1.toNat : Int) = 0 ↔ err = 0 := by
      rw [← idePrintError_zero hw drive err s, Int.natCast_eq_zero]
      exact UInt8.toNat_inj (b := 0)
    have nothing : WriteMonitor.start.Done numSectors.toNat ↔ numSectors = 0 := by
      have count : (0 : Nat) = 256 * numSectors.toNat ↔ numSectors = 0 := by
        rw [← UInt8.toNat_inj, UInt8.toNat_zero]
        omega
      rw [← count]
      exact and_iff_left ⟨rfl, rfl⟩
    rw [WriteCondition, if_neg ata, silent, zero, nothing]
    exact Decidable.imp_iff_not_or

end Report

/-- A drive that answers `st` on one port and ignores everything else. -/
def streamBus (port : UInt16) (st : Nat → UInt8) : Bus Nat where
  inb p b := if p = port then (st b, b + 1) else (0, b)
  inw _ b := (0, b)
  inl _ b := (0, b)
  outb _ _ b := b
  outw _ _ b := b

/-- Every stream of status bytes is one some drive returns. -/
theorem streamBus_stream (port : UInt16) (st : Nat → UInt8) :
    StatusStream (streamBus port st) port st id where
  answer b := by simp [streamBus]
  next b := by simp [streamBus]
  inb p b apart := by simp [streamBus, apart]
  outb _ _ _ := rfl
  outw _ _ _ := rfl

theorem ideWriteSectors_reports_iff_ready :
    ∃ code t tr, (ideWriteSectors (streamBus 0x1F7 fun _ => 0x58) 3 0 0 1 0 0).run
        (foundState 0 (primaryMaster 8)) = (some code, t) ∧
      t.log = [] ++ tr ∧
      ((code = 0 → (WriteMonitor.start.watch 0x1F0 tr).Done 1) ↔
        WriteCondition (primaryMaster 8) (fun _ => 0x58) 0 1) :=
  ideWriteSectors_reports_iff (Or.inl ⟨rfl, rfl⟩) (streamBus_stream 0x1F7 fun _ => 0x58) 3 0 0 1 0 0
    (foundState 0 (primaryMaster 8)) rfl rfl (by decide) rfl
    fun _ => ⟨2, by decide, by decide, by decide⟩

/-- A drive that shows ERR throughout: the block is sent and the write reported as done. -/
theorem ideWriteSectors_hides_error :
    ∃ t tr, (ideWriteSectors (streamBus 0x1F7 fun _ => 0x01) 3 0 0 1 0 0).run
        (foundState 0 (primaryMaster 8)) = (some 0, t) ∧
      t.log = [] ++ tr ∧ ¬ (WriteMonitor.start.watch 0x1F0 tr).Done 1 := by
  have ports : AtaPorts ⟨0x1F0, 0x3F6, 0, 0⟩ := Or.inl ⟨rfl, rfl⟩
  have stream := streamBus_stream 0x1F7 fun _ => 0x01
  have needed : quietBefore (fun _ => 0x01) 2 = (1 : UInt8).toNat + 1 := by decide
  obtain ⟨t, tr, run, log, verdict⟩ := ideAtaAccess_reports ports stream 3 0 1 0 0
    (foundState 0 (primaryMaster 8)) rfl rfl rfl (by decide) needed (by decide)
  refine ⟨t, tr, ?_, log, fun done => ?_⟩
  · rw [ideWriteSectors, ideSectors_ata _ 3 .write (by decide) rfl, run]
    rfl
  · have shown := (verdict.mp done 1 (by decide)).1 (by decide) (by decide)
    exact absurd shown (by decide)

end VDK
