import VDK.DeviceTable
import Mathlib.Data.Nat.Find

/-!
# How long `ide_init` waits for an identification

The wait loop of step (III) has no bound. It reads the status register until ERR is
set, or DRQ while BSY is clear; a drive that settles without either keeps it going.
-/
namespace VDK
open Fuel

section Reads

variable {σ : Type} (hw : Bus σ) (channel : UInt8)

/-- The state behind `n` reads of the status register. -/
def afterReads : Nat → IdeState σ → IdeState σ
  | 0, s => s
  | n + 1, s => afterReads n (ideReadRegister hw channel ataRegStatus s).2

/-- The bytes that one read of the status register after another gives. -/
def statusReads (s : IdeState σ) (k : Nat) : UInt8 :=
  (ideReadRegister hw channel ataRegStatus (afterReads hw channel k s)).1

/-- A position selected and asked for its identification. -/
def askedPosition (drive : UInt8) (s : IdeState σ) : IdeState σ :=
  ideWriteRegister hw channel ataRegCommand 0xEC
    (ideWriteRegister hw channel ataRegHddevsel ((0xA0 : UInt8) ||| drive <<< 4) s)

/-- The wait loop ends from `s` after finitely many reads, with `err` set exactly when
the last of them gave ERR. -/
def WaitEnds (s : IdeState σ) : Prop :=
  ∃ n err, (∀ fuel, n < fuel →
      (awaitIdentify hw channel fuel).run s = (some err, afterReads hw channel (n + 1) s)) ∧
    (err = true ↔ statusReads hw channel s n &&& ataSrErr ≠ 0)

end Reads

instance (status : UInt8) : Decidable (Waiting status) :=
  inferInstanceAs (Decidable (_ ∧ _))

theorem not_waiting_iff (status : UInt8) : ¬Waiting status ↔
    status &&& ataSrErr ≠ 0 ∨ (status &&& ataSrBsy = 0 ∧ status &&& ataSrDrq ≠ 0) := by
  unfold Waiting
  constructor
  · intro ends
    by_cases error : status &&& ataSrErr = 0
    · exact Or.inr (not_not.mp fun waits => ends ⟨error, waits⟩)
    · exact Or.inl error
  · rintro (error | ready) ⟨clear, waits⟩
    · exact error clear
    · exact waits ready

section Loop

variable {σ : Type} {hw : Bus σ} {channel : UInt8}

theorem awaitIdentify_waiting {fuel : Nat} {s : IdeState σ}
    (waits : Waiting (statusReads hw channel s 0)) :
    (awaitIdentify hw channel (fuel + 1)).run s =
      (awaitIdentify hw channel fuel).run (afterReads hw channel 1 s) := by
  have read : statusReads hw channel s 0 = (ideReadRegister hw channel ataRegStatus s).1 := rfl
  rw [read] at waits
  rw [awaitIdentify, Exec.run_bind, Exec.run_act, Exec.andThen_some, if_neg (not_not.mpr waits.1),
    if_neg waits.2]
  rfl

theorem awaitIdentify_ends {fuel : Nat} {s : IdeState σ}
    (ends : ¬Waiting (statusReads hw channel s 0)) :
    (awaitIdentify hw channel (fuel + 1)).run s =
      (some (decide (statusReads hw channel s 0 &&& ataSrErr ≠ 0)), afterReads hw channel 1 s) := by
  have read : statusReads hw channel s 0 = (ideReadRegister hw channel ataRegStatus s).1 := rfl
  rw [read] at ends ⊢
  rw [awaitIdentify, Exec.run_bind, Exec.run_act, Exec.andThen_some]
  by_cases error : (ideReadRegister hw channel ataRegStatus s).1 &&& ataSrErr ≠ 0
  · rw [if_pos error, decide_eq_true error]
    rfl
  · have ready := ((not_waiting_iff _).mp ends).resolve_left error
    rw [if_neg error, if_pos ready, decide_eq_false error]
    rfl

/-- While every status says to wait, the loop has not returned. -/
theorem awaitIdentify_stuck {s : IdeState σ} (waits : ∀ k, Waiting (statusReads hw channel s k))
    (fuel : Nat) : ((awaitIdentify hw channel fuel).run s).1 = none := by
  induction fuel generalizing s with
  | zero => rfl
  | succ fuel ih =>
      rw [awaitIdentify_waiting (waits 0)]
      exact ih fun k => waits (k + 1)

/-- The first status that does not say to wait ends the loop. -/
theorem awaitIdentify_first {s : IdeState σ} {n : Nat}
    (waits : ∀ k, k < n → Waiting (statusReads hw channel s k))
    (ends : ¬Waiting (statusReads hw channel s n)) {fuel : Nat} (enough : n < fuel) :
    (awaitIdentify hw channel fuel).run s =
      (some (decide (statusReads hw channel s n &&& ataSrErr ≠ 0)),
        afterReads hw channel (n + 1) s) := by
  obtain ⟨fuel, rfl⟩ := Nat.exists_eq_succ_of_ne_zero (Nat.ne_of_gt (Nat.zero_lt_of_lt enough))
  induction n generalizing s fuel with
  | zero => exact awaitIdentify_ends ends
  | succ n ih =>
      have more := Nat.lt_of_succ_lt_succ enough
      obtain ⟨fuel, rfl⟩ := Nat.exists_eq_succ_of_ne_zero (Nat.ne_of_gt (Nat.zero_lt_of_lt more))
      rw [awaitIdentify_waiting (waits 0 (Nat.succ_pos n))]
      exact ih (fun k less => waits (k + 1) (Nat.succ_lt_succ less)) ends fuel more

theorem waitEnds_iff (s : IdeState σ) :
    WaitEnds hw channel s ↔ ∃ k, ¬Waiting (statusReads hw channel s k) := by
  constructor
  · rintro ⟨n, err, returns, _⟩
    refine not_forall.mp fun waits => ?_
    have stuck := awaitIdentify_stuck waits (n + 1)
    rw [returns (n + 1) (Nat.lt_succ_self n)] at stuck
    cases stuck
  · intro some
    have waits : ∀ k, k < Nat.find some → Waiting (statusReads hw channel s k) :=
      fun k less => not_not.mp (Nat.find_min some less)
    refine ⟨Nat.find some, _, fun fuel => awaitIdentify_first waits (Nat.find_spec some), ?_⟩
    exact decide_eq_true_iff

end Loop

section Position

variable {σ : Type} (hw : Bus σ) (channel drive : UInt8) (s : IdeState σ)

theorem identified_returns (count : Nat) (err : Bool) (t : IdeState σ) :
    Returns (identified hw channel drive count err) t fun _ _ => True := by
  unfold identified
  split
  · rw [Returns]
    simp only [Exec.run_bind, Exec.run_act, Exec.andThen_some]
    split
    · exact ⟨_, _, rfl, trivial⟩
    · exact ⟨_, _, rfl, trivial⟩
  · exact ⟨_, _, rfl, trivial⟩

/-- The statuses of a position that was asked: the first says whether there is a device. -/
def identifyStatuses : Nat → UInt8 := statusReads hw channel (askedPosition hw channel drive s)

/-- The wait loop of a position ends if and only if a status behind the first has ERR, or
DRQ without BSY. -/
theorem identify_wait_ends_iff :
    WaitEnds hw channel (afterReads hw channel 1 (askedPosition hw channel drive s)) ↔
      ∃ k, 0 < k ∧ (identifyStatuses hw channel drive s k &&& ataSrErr ≠ 0 ∨
        (identifyStatuses hw channel drive s k &&& ataSrBsy = 0 ∧
          identifyStatuses hw channel drive s k &&& ataSrDrq ≠ 0)) := by
  rw [waitEnds_iff]
  have later : ∀ k, statusReads hw channel
      (afterReads hw channel 1 (askedPosition hw channel drive s)) k =
        identifyStatuses hw channel drive s (k + 1) := fun k => rfl
  constructor
  · rintro ⟨k, ends⟩
    rw [later] at ends
    exact ⟨k + 1, Nat.succ_pos k, (not_waiting_iff _).mp ends⟩
  · rintro ⟨k, behind, ends⟩
    obtain ⟨k, rfl⟩ := Nat.exists_eq_succ_of_ne_zero (Nat.ne_of_gt behind)
    exact ⟨k, (later k).symm ▸ (not_waiting_iff _).mpr ends⟩

/-- A probe returns if and only if there is no device or its wait loop ends. -/
theorem probePosition_returns_iff (count : Nat) :
    (∃ fuel n t, (probePosition hw fuel channel drive count).run s = (some n, t)) ↔
      identifyStatuses hw channel drive (unmarked count s) 0 = 0 ∨
        WaitEnds hw channel
          (afterReads hw channel 1 (askedPosition hw channel drive (unmarked count s))) := by
  have probe : ∀ fuel, (probePosition hw fuel channel drive count).run s =
      (if identifyStatuses hw channel drive (unmarked count s) 0 = 0 then pure count
        else awaitIdentify hw channel fuel >>= identified hw channel drive count).run
          (afterReads hw channel 1 (askedPosition hw channel drive (unmarked count s))) :=
    fun fuel => rfl
  by_cases absent : identifyStatuses hw channel drive (unmarked count s) 0 = 0
  · simp only [probe, if_pos absent]
    exact ⟨fun _ => Or.inl absent, fun _ => ⟨0, _, _, rfl⟩⟩
  · simp only [probe, if_neg absent]
    constructor
    · rintro ⟨fuel, n, t, returned⟩
      obtain ⟨err, u, waited, _⟩ := Exec.bind_eq_some returned
      refine Or.inr ((waitEnds_iff _).mpr (not_forall.mp fun waits => ?_))
      have stuck := awaitIdentify_stuck waits fuel
      rw [waited] at stuck
      cases stuck
    · intro ends
      obtain ⟨n, err, returns, _⟩ := ends.resolve_left absent
      obtain ⟨m, t, recorded, _⟩ := identified_returns hw channel drive count err _
      exact ⟨n + 1, m, t, by rw [Exec.run_bind, returns _ (Nat.lt_succ_self n),
        Exec.andThen_some, recorded]⟩

end Position

section Idle

theorem primaryBus_reads (status : UInt8) {s : IdeState Unit} (base : (s.channels 0).base = 0x1F0)
    (k : Nat) : statusReads (primaryBus status) 0 s k = status := by
  have read := ideReadRegister_low (primaryBus status) 0 ataRegStatus (by decide) s
    (congrArg (· + 7) base)
  induction k generalizing s with
  | zero => exact congrArg Prod.fst read
  | succ k ih =>
      change statusReads (primaryBus status) 0 (ideReadRegister _ 0 ataRegStatus s).2 k = status
      rw [read]
      exact ih base (ideReadRegister_low (primaryBus status) 0 ataRegStatus (by decide) _
        (congrArg (· + 7) base))

/-- A drive that stays ready without data keeps the loop going. -/
theorem idle_drive_waits_forever :
    identifyStatuses (primaryBus 0x50) 0 0 (foundState () noDevice) 0 ≠ 0 ∧
      (∀ k, identifyStatuses (primaryBus 0x50) 0 0 (foundState () noDevice) k &&& ataSrBsy = 0) ∧
      ¬WaitEnds (primaryBus 0x50) 0
        (afterReads (primaryBus 0x50) 0 1
          (askedPosition (primaryBus 0x50) 0 0 (foundState () noDevice))) := by
  obtain ⟨b, selects⟩ := probe_selects (primaryBus 0x50) 0 0 (foundState () noDevice) rfl
  have idle : ∀ k, identifyStatuses (primaryBus 0x50) 0 0 (foundState () noDevice) k = 0x50 := by
    intro k
    rw [identifyStatuses, askedPosition, selects]
    exact primaryBus_reads 0x50 rfl k
  refine ⟨?_, fun k => ?_, fun ends => ?_⟩
  · rw [idle]
    decide
  · rw [idle]
    decide
  · obtain ⟨k, _, stops⟩ := (identify_wait_ends_iff _ _ _ _).mp ends
    rw [idle] at stops
    exact absurd stops (by decide)

end Idle

end VDK
