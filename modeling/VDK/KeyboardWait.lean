import VDK.KeyRuns
import Mathlib.Data.Nat.Find

/-!
# How long `get_scancode` waits for a scan code

The counter of the wait loop starts at 1000 and is incremented while it is positive. The
loop ends with the first ready status, or when the increment of the largest `int` wraps.
-/
namespace VDK
open Atomic Fuel Kernel

/-- What the loop leaves: `i`, `scancode`, and whether an increment of `i` overflowed. -/
structure ScanWait where
  i : Int32
  scancode : UInt8
  overflowed : Bool

def ScanWait.result (w : ScanWait) : UInt8 := if 0 < w.i then w.scancode else 0

section Loop

variable {σ : Type} (hw : Bus σ)

/-- The loop of `get_scancode` as it is written, from a counter `i` on. -/
def waitScancode : Nat → Int32 → Bool → Prog (Kernel σ) ScanWait
  | 0, _, _ => .stop
  | fuel + 1, i, overflowed =>
      if 0 < i then do
        let status ← inb hw keyboardStatusPort
        if status &&& 1 = 0 then
          waitScancode fuel (i + 1) (overflowed || decide ((i + 1).toInt ≠ i.toInt + 1))
        else do
          let scancode ← inb hw keyboardDataPort
          pure ⟨i, scancode, overflowed⟩
      else pure ⟨i, 0, overflowed⟩

def getScancodeLoop (fuel : Nat) : Prog (Kernel σ) ScanWait := waitScancode hw fuel 1000 false

end Loop

section Statuses

variable {σ : Type} (hw : Bus σ)

/-- The machine behind `n` reads of the status port. -/
def afterPolls : Nat → Machine σ → Machine σ
  | 0, m => m
  | n + 1, m => afterPolls n (inportb hw keyboardStatusPort m).2

/-- The stream of status bytes: the one that read number `k` gives. -/
def pollStatus (m : Machine σ) (k : Nat) : UInt8 :=
  (inportb hw keyboardStatusPort (afterPolls hw k m)).1

/-- The byte that the data port gives behind `n` reads of the status port. -/
def pollData (m : Machine σ) (n : Nat) : UInt8 :=
  (inportb hw keyboardDataPort (afterPolls hw n m)).1

def StatusReady (status : UInt8) : Prop := status &&& 1 ≠ 0

instance (status : UInt8) : Decidable (StatusReady status) :=
  inferInstanceAs (Decidable (status &&& 1 ≠ 0))

/-- The reads of the status port so far. -/
def statusPolls (m : Machine σ) : Nat :=
  m.log.countP fun a => decide (a.port = keyboardStatusPort)

/-- What the wait promises, whatever the controller answers: it returns behind at most 1000
polls, without an overflow of the counter, with the data byte at the first ready one. -/
structure BoundedWait (s : Kernel σ) (w : ScanWait) (t : Kernel σ) (polls : Nat) : Prop where
  returns : Settles (fun fuel => (getScancodeLoop hw fuel).run) s w t
  polled : statusPolls t.machine = statusPolls s.machine + polls
  bounded : polls ≤ 1000
  exact_counter : w.overflowed = false
  ready : ∀ n, n < polls → StatusReady (pollStatus hw s.machine n) →
    (∀ k, k < n → ¬StatusReady (pollStatus hw s.machine k)) → w.result = pollData hw s.machine (n + 1)
  never : (∀ n, n < polls → ¬StatusReady (pollStatus hw s.machine n)) → w.result = 0

theorem afterPolls_succ (n : Nat) (m : Machine σ) :
    afterPolls hw (n + 1) m = (inportb hw keyboardStatusPort (afterPolls hw n m)).2 := by
  induction n generalizing m with
  | zero => rfl
  | succ n ih => exact ih (inportb hw keyboardStatusPort m).2

theorem statusPolls_inportb (port : UInt16) (m : Machine σ) :
    statusPolls (inportb hw port m).2 =
      statusPolls m + if port = keyboardStatusPort then 1 else 0 := by
  rw [statusPolls, inportb, List.countP_append, List.countP_singleton]
  exact congrArg (_ + ·) (if_congr decide_eq_true_iff rfl rfl)

theorem statusPolls_afterPolls (n : Nat) (m : Machine σ) :
    statusPolls (afterPolls hw n m) = statusPolls m + n := by
  induction n with
  | zero => rfl
  | succ n ih =>
      rw [afterPolls_succ, statusPolls_inportb, if_pos rfl, ih]
      rfl

end Statuses

section Counter

theorem counter_positive {c : Nat} (positive : 0 < c) (room : c < 2 ^ 31) : 0 < Int32.ofNat c := by
  rw [Int32.lt_iff_toInt_lt, Int32.toInt_ofNat_of_lt room]
  exact Int.natCast_pos.mpr positive

theorem counter_next (c : Nat) : Int32.ofNat c + 1 = Int32.ofNat (c + 1) :=
  (Int32.ofNat_add c 1).symm

theorem counter_step {c : Nat} (room : c + 1 < 2 ^ 31) :
    (Int32.ofNat c + 1).toInt = (Int32.ofNat c).toInt + 1 := by
  rw [counter_next, Int32.toInt_ofNat_of_lt room, Int32.toInt_ofNat_of_lt (by omega)]
  rfl

end Counter

section Runs

variable {σ : Type} {hw : Bus σ} {s : Kernel σ}

theorem waitScancode_unready {c : Nat} (positive : 0 < c) (room : c < 2 ^ 31)
    (waits : ¬StatusReady (pollStatus hw s.machine 0)) (fuel : Nat) (o : Bool) :
    (waitScancode hw (fuel + 1) (Int32.ofNat c) o).run.run s =
      (waitScancode hw fuel (Int32.ofNat c + 1)
        (o || decide ((Int32.ofNat c + 1).toInt ≠ (Int32.ofNat c).toInt + 1))).run.run
          (s.setMachine (afterPolls hw 1 s.machine)) := by
  have clear : (inportb hw keyboardStatusPort s.machine).1 &&& 1 = 0 := not_not.mp waits
  rw [waitScancode, if_pos (counter_positive positive room), Prog.run_bind, Exec.run_bind, run_inb,
    Exec.andThen_some, if_pos clear]
  rfl

theorem waitScancode_ready {c : Nat} (positive : 0 < c) (room : c < 2 ^ 31)
    (ready : StatusReady (pollStatus hw s.machine 0)) (fuel : Nat) (o : Bool) :
    (waitScancode hw (fuel + 1) (Int32.ofNat c) o).run.run s =
      (some ⟨Int32.ofNat c, pollData hw s.machine 1, o⟩,
        s.setMachine (inportb hw keyboardDataPort (afterPolls hw 1 s.machine)).2) := by
  have set : ¬(inportb hw keyboardStatusPort s.machine).1 &&& 1 = 0 := ready
  rw [waitScancode, if_pos (counter_positive positive room), Prog.run_bind, Exec.run_bind, run_inb,
    Exec.andThen_some, if_neg set]
  rfl

/-- Statuses that are not ready move the counter up, and nothing else. -/
theorem waitScancode_polls {c n : Nat} (positive : 0 < c) (room : c + n < 2 ^ 31)
    (waits : ∀ k, k < n → ¬StatusReady (pollStatus hw s.machine k)) (fuel : Nat) (o : Bool) :
    (waitScancode hw (fuel + n) (Int32.ofNat c) o).run.run s =
      (waitScancode hw fuel (Int32.ofNat (c + n)) o).run.run
        (s.setMachine (afterPolls hw n s.machine)) := by
  induction n generalizing s c with
  | zero => rfl
  | succ n ih =>
      have step := counter_step (by omega : c + 1 < 2 ^ 31)
      have kept : (o || decide ((Int32.ofNat c + 1).toInt ≠ (Int32.ofNat c).toInt + 1)) = o := by
        rw [decide_eq_false (not_not.mpr step), Bool.or_false]
      have later := @ih (s.setMachine (afterPolls hw 1 s.machine)) (c + 1) (by omega) (by omega)
        fun k less => waits (k + 1) (Nat.succ_lt_succ less)
      rw [← Nat.add_assoc, waitScancode_unready positive (by omega) (waits 0 (Nat.succ_pos n)), kept,
        counter_next, later, Nat.add_assoc, Nat.add_comm 1 n]
      rfl

theorem pollScancode_polls {n : Nat} (waits : ∀ k, k < n → ¬StatusReady (pollStatus hw s.machine k))
    (m : Nat) : (pollScancode hw (m + n)).run.run s =
      (pollScancode hw m).run.run (s.setMachine (afterPolls hw n s.machine)) := by
  induction n generalizing s with
  | zero => rfl
  | succ n ih =>
      have clear : (inportb hw keyboardStatusPort s.machine).1 &&& 1 = 0 :=
        not_not.mp (waits 0 (Nat.succ_pos n))
      have later := @ih (s.setMachine (afterPolls hw 1 s.machine))
        fun k less => waits (k + 1) (Nat.succ_lt_succ less)
      rw [← Nat.add_assoc, pollScancode, Prog.run_bind, Exec.run_bind, run_inb, Exec.andThen_some,
        if_pos clear]
      exact later

/-- The increments left before the counter wraps. -/
def pollLimit : Nat := 2 ^ 31 - 1000

theorem getScancodeLoop_ready {n : Nat} (room : n < pollLimit)
    (waits : ∀ k, k < n → ¬StatusReady (pollStatus hw s.machine k))
    (ready : StatusReady (pollStatus hw s.machine n)) :
    Settles (fun fuel => (getScancodeLoop hw fuel).run) s
      ⟨Int32.ofNat (1000 + n), pollData hw s.machine (n + 1), false⟩
      (s.setMachine (inportb hw keyboardDataPort (afterPolls hw (n + 1) s.machine)).2) := by
  unfold pollLimit at room
  refine ⟨n + 1, fun fuel enough => ?_⟩
  obtain ⟨spare, rfl⟩ := Nat.exists_eq_add_of_le enough
  have counted : n + 1 + spare = spare + 1 + n := by omega
  have polls := waitScancode_polls (by decide : 0 < 1000) (by omega) waits (spare + 1) false
  have ends := @waitScancode_ready σ hw (s.setMachine (afterPolls hw n s.machine)) (1000 + n)
    (by omega) (by omega) ready spare false
  have data : pollData hw (afterPolls hw n s.machine) 1 = pollData hw s.machine (n + 1) :=
    congrArg (fun m => (inportb hw keyboardDataPort m).1) (afterPolls_succ hw n s.machine).symm
  rw [afterPolls_succ, ← data, counted]
  exact polls.trans ends

/-- Without one the increment of the largest `int` ends it. -/
theorem getScancodeLoop_never
    (waits : ∀ k, k < pollLimit → ¬StatusReady (pollStatus hw s.machine k)) :
    Settles (fun fuel => (getScancodeLoop hw fuel).run) s ⟨Int32.minValue, 0, true⟩
      (s.setMachine (afterPolls hw pollLimit s.machine)) := by
  obtain ⟨last, largest⟩ : ∃ last, 1000 + last = 2 ^ 31 - 1 := ⟨2 ^ 31 - 1001, by decide⟩
  have limit : pollLimit = last + 1 := by
    unfold pollLimit
    omega
  refine ⟨pollLimit + 1, fun fuel enough => ?_⟩
  obtain ⟨spare, rfl⟩ := Nat.exists_eq_add_of_le enough
  have counted : pollLimit + 1 + spare = spare + 1 + 1 + last := by omega
  have early : ∀ k, k < last → ¬StatusReady (pollStatus hw s.machine k) :=
    fun k less => waits k (by omega)
  have polls := waitScancode_polls (by decide : 0 < 1000) (by omega) early (spare + 1 + 1) false
  have ends := @waitScancode_unready σ hw (s.setMachine (afterPolls hw last s.machine))
    (1000 + last) (by omega) (by omega) (waits last (by omega)) (spare + 1) false
  have wraps : Int32.ofNat (1000 + last) + 1 = Int32.minValue := by
    rw [largest]
    decide
  have flag : (false || decide (Int32.minValue.toInt ≠ (Int32.ofNat (1000 + last)).toInt + 1)) = true := by
    rw [largest]
    decide
  have stops : ∀ u : Kernel σ, (waitScancode hw (spare + 1) Int32.minValue true).run.run u =
      (some ⟨Int32.minValue, 0, true⟩, u) := by
    intro u
    rw [waitScancode, if_neg (by decide)]
    rfl
  rw [wraps, flag] at ends
  rw [counted, limit, afterPolls_succ]
  exact (polls.trans ends).trans (stops _)

theorem first_ready_or_never (statuses : Nat → UInt8) (limit : Nat) :
    (∃ n, n < limit ∧ StatusReady (statuses n) ∧ ∀ k, k < n → ¬StatusReady (statuses k)) ∨
      ∀ k, k < limit → ¬StatusReady (statuses k) := by
  by_cases some : ∃ n, n < limit ∧ StatusReady (statuses n)
  · obtain ⟨inside, ready⟩ := Nat.find_spec some
    refine Or.inl ⟨Nat.find some, inside, ready, fun k less early => ?_⟩
    exact Nat.find_min some less ⟨Nat.lt_trans less inside, early⟩
  · exact Or.inr fun k less ready => some ⟨k, less, ready⟩

/-- `getScancode`, which counts the increments that are left, is the loop as written. -/
theorem getScancode_loop (s : Kernel σ) : ∃ w t,
    Settles (fun fuel => (getScancodeLoop hw fuel).run) s w t ∧
      (getScancode hw).run.run s = (some w.result, t) := by
  rcases first_ready_or_never (pollStatus hw s.machine) pollLimit with ⟨n, room, ready, waits⟩ | never
  · refine ⟨_, _, getScancodeLoop_ready room waits ready, ?_⟩
    unfold pollLimit at room
    have counted : 2 ^ 31 - 1000 = 2 ^ 31 - 1000 - n - 1 + 1 + n := by omega
    have set : ¬(inportb hw keyboardStatusPort
        (s.setMachine (afterPolls hw n s.machine)).machine).1 &&& 1 = 0 := ready
    rw [getScancode, counted, pollScancode_polls waits, pollScancode, Prog.run_bind, Exec.run_bind,
      run_inb, Exec.andThen_some, if_neg set, ScanWait.result,
      if_pos (counter_positive (by omega) (by omega)), pollData, afterPolls_succ]
    rfl
  · refine ⟨_, _, getScancodeLoop_never never, ?_⟩
    have counted : 2 ^ 31 - 1000 = 0 + pollLimit := (Nat.zero_add _).symm
    rw [getScancode, counted, pollScancode_polls never]
    rfl

end Runs

section Bound

variable {σ : Type} (hw : Bus σ)

def WaitBounded (s : Kernel σ) : Prop := ∃ w t polls, BoundedWait hw s w t polls

theorem polls_unready (n : Nat) (s : Kernel σ) :
    statusPolls (s.setMachine (afterPolls hw n s.machine)).machine = statusPolls s.machine + n :=
  statusPolls_afterPolls hw n s.machine

theorem polls_ready (n : Nat) (s : Kernel σ) :
    statusPolls (s.setMachine
        (inportb hw keyboardDataPort (afterPolls hw (n + 1) s.machine)).2).machine =
      statusPolls s.machine + (n + 1) := by
  have other : ¬keyboardDataPort = keyboardStatusPort := by decide
  have data := statusPolls_inportb hw keyboardDataPort (afterPolls hw (n + 1) s.machine)
  rw [if_neg other, statusPolls_afterPolls] at data
  exact data

/-- A bounded wait sees a ready status in time; all other runs of the loop poll too often. -/
theorem WaitBounded.ready {s : Kernel σ} (bounded : WaitBounded hw s) :
    ∃ n, n < 1000 ∧ StatusReady (pollStatus hw s.machine n) := by
  obtain ⟨w, t, polls, wait⟩ := bounded
  have polled := wait.polled
  have bounded := wait.bounded
  rcases first_ready_or_never (pollStatus hw s.machine) pollLimit with ⟨n, room, ready, waits⟩ | never
  · obtain ⟨_, rfl⟩ := wait.returns.unique (getScancodeLoop_ready room waits ready)
    rw [polls_ready] at polled
    exact ⟨n, by omega, ready⟩
  · obtain ⟨_, rfl⟩ := wait.returns.unique (getScancodeLoop_never never)
    rw [polls_unready] at polled
    unfold pollLimit at polled
    omega

theorem waitBounded_of_ready {s : Kernel σ} {n : Nat} (first : n < 1000)
    (ready : StatusReady (pollStatus hw s.machine n))
    (waits : ∀ k, k < n → ¬StatusReady (pollStatus hw s.machine k)) : WaitBounded hw s := by
  have room : n < pollLimit := Nat.lt_trans first (by decide)
  refine ⟨_, _, n + 1, getScancodeLoop_ready room waits ready, polls_ready hw n s, first, rfl, ?_,
    fun never => absurd ready (never n (Nat.lt_succ_self n))⟩
  intro k _ now unready
  have same : k = n := by
    rcases Nat.lt_trichotomy k n with before | same | behind
    · exact absurd now (waits k before)
    · exact same
    · exact absurd ready (unready n behind)
  rw [same, ScanWait.result, if_pos (counter_positive (by omega) (by omega))]

/-- The wait is bounded if and only if one of the first 1000 statuses is ready. -/
theorem scancode_wait_bounded_iff (s : Kernel σ) :
    WaitBounded hw s ↔ ∃ n, n < 1000 ∧ StatusReady (pollStatus hw s.machine n) := by
  refine ⟨WaitBounded.ready hw, fun ⟨m, early, late⟩ => ?_⟩
  rcases first_ready_or_never (pollStatus hw s.machine) 1000 with ⟨n, first, ready, waits⟩ | never
  · exact waitBounded_of_ready hw first ready waits
  · exact absurd late (never m early)

end Bound

/-- A controller without a scan code: no status is ever ready. -/
def emptyController : Bus Unit where
  inb _ u := (0, u)
  inw _ u := (0, u)
  inl _ u := (0, u)
  outb _ _ u := u
  outw _ _ u := u

/-- It is polled more than two thousand million times, until the counter wraps. -/
theorem empty_controller_polls : (∃ t,
    Settles (fun fuel => (getScancodeLoop emptyController fuel).run) (zeroed ())
      ⟨Int32.minValue, 0, true⟩ t ∧ statusPolls t.machine = 2147482648) ∧
    ¬WaitBounded emptyController (zeroed ()) := by
  have never : ∀ k, ¬StatusReady (pollStatus emptyController (zeroed ()).machine k) :=
    fun _ => (by decide : ¬StatusReady 0)
  constructor
  · exact ⟨_, getScancodeLoop_never fun k _ => never k, polls_unready _ _ _⟩
  · intro bounded
    obtain ⟨n, _, ready⟩ := WaitBounded.ready _ bounded
    exact never n ready

end VDK
