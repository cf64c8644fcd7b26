import VDK.DriveProbe

/-!
# One scan of the four positions

A call of `ide_init` that returns is four responses, and they alone decide what it
writes to the device table: the devices that answered, in scan order from slot 0,
and perhaps the mark of the slot behind them.
-/
namespace VDK
open Fuel ByteMem

/-- The answers of some positions, in scan order. -/
def answers (positions : List (UInt8 × UInt8)) (rs : List Response) : List (Option IdeDevice) :=
  List.zipWith (fun p r => r.answer p.1 p.2) positions rs

theorem answers_cons (p : UInt8 × UInt8) (positions : List (UInt8 × UInt8)) (r : Response)
    (rs : List Response) :
    answers (p :: positions) (r :: rs) = r.answer p.1 p.2 :: answers positions rs := rfl

/-- The accesses of some probes, in scan order. -/
def probesTrace (channels : Nat → IdeChannel) (positions : List (UInt8 × UInt8))
    (rs : List Response) : List Access :=
  (List.zipWith (fun p r => r.trace (channels p.1.toNat).base p.2) positions rs).flatten

/-- The slot number and the table after some answers. -/
def recordAnswers : Nat → (Nat → IdeDevice) → List (Option IdeDevice) → Nat × (Nat → IdeDevice)
  | count, table, [] => (count, table)
  | count, table, a :: rest =>
      recordAnswers (recordAnswer count table a).1 (recordAnswer count table a).2 rest

section Record

variable {as : List (Option IdeDevice)} {count : Nat} {table : Nat → IdeDevice}

theorem recordAnswers_some (d : IdeDevice) :
    recordAnswers count table (some d :: as) =
      recordAnswers (count + 1) (Function.update table count d) as := rfl

theorem recordAnswers_none :
    recordAnswers count table (none :: as) =
      recordAnswers count (Function.update table count { table count with reserved := 0 }) as := rfl

theorem recordAnswers_below {i : Nat} (h : i < count) :
    (recordAnswers count table as).2 i = table i := by
  induction as generalizing count table with
  | nil => rfl
  | cons a as ih =>
      cases a with
      | none =>
          rw [recordAnswers_none, ih h]
          exact Function.update_of_ne (Nat.ne_of_lt h) ..
      | some d =>
          rw [recordAnswers_some, ih (Nat.lt_succ_of_lt h)]
          exact Function.update_of_ne (Nat.ne_of_lt h) ..

/-- The slot behind the devices loses its mark when the last position did not answer. -/
def behind (as : List (Option IdeDevice)) (k : Nat) (d : IdeDevice) : IdeDevice :=
  if k = (as.filterMap id).length ∧ as.getLast? = some none then { d with reserved := 0 } else d

theorem behind_nil (k : Nat) (d : IdeDevice) : behind [] k d = d := if_neg (by simp)

theorem behind_some (e : IdeDevice) (k : Nat) (d : IdeDevice) :
    behind (some e :: as) (k + 1) d = behind as k d := by
  unfold behind
  cases as with
  | nil => simp
  | cons a as => simp [List.getLast?_cons_cons]

theorem behind_cleared (k : Nat) (d : IdeDevice) :
    behind as k { d with reserved := 0 } = { d with reserved := 0 } := by
  unfold behind
  split
  · rfl
  · rfl

theorem behind_none (k : Nat) (d : IdeDevice) :
    behind (none :: as) (k + 1) d = behind as (k + 1) d := by
  unfold behind
  cases as with
  | nil => simp
  | cons a as => simp [List.getLast?_cons_cons]

/-- When no position behind it answers, a round without an answer leaves its slot unmarked. -/
theorem behind_none_zero (empty : as.filterMap id = []) (d : IdeDevice) :
    behind (none :: as) 0 d = { d with reserved := 0 } := by
  have last : (none :: as).getLast? = some none := by
    rw [List.getLast?_cons, Option.some.injEq]
    rcases h : as.getLast? with _ | a
    · rfl
    · have absent := List.filterMap_eq_nil_iff.mp empty a (List.mem_of_getLast? h)
      exact absent
  unfold behind
  rw [if_pos]
  exact ⟨(congrArg List.length empty).symm, last⟩

theorem recordAnswers_at (k : Nat) :
    (recordAnswers count table as).2 (count + k) =
      (as.filterMap id)[k]?.getD (behind as k (table (count + k))) := by
  induction as generalizing count table k with
  | nil =>
      rw [behind_nil]
      rfl
  | cons a as ih =>
      cases a with
      | some d =>
          cases k with
          | zero =>
              rw [recordAnswers_some]
              exact (recordAnswers_below (Nat.lt_succ_self count)).trans (Function.update_self ..)
          | succ k =>
              have step := @ih (count + 1) (Function.update table count d) k
              rw [Nat.add_right_comm] at step
              rw [recordAnswers_some, behind_some]
              refine step.trans ?_
              rw [Function.update_of_ne (by omega)]
              rfl
      | none =>
          have step := @ih count (Function.update table count { table count with reserved := 0 }) k
          rw [recordAnswers_none]
          refine step.trans ?_
          rw [List.filterMap_cons_none rfl]
          cases k with
          | zero =>
              rw [Nat.add_zero, Function.update_self, behind_cleared]
              cases found : as.filterMap id with
              | nil => rw [behind_none_zero found]
              | cons d ds => rfl
          | succ k => rw [Function.update_of_ne (by omega), behind_none]

end Record

section Scan

variable {σ : Type} (hw : Bus σ)

theorem probeAll_responds (fuel : Nat) (positions : List (UInt8 × UInt8)) (count : Nat)
    (s : IdeState σ) {channels : Nat → IdeChannel} (h : s.channels = channels) :
    Yields (probeAll hw fuel positions count) s fun n t =>
      ∃ rs : List Response, rs.length = positions.length ∧ (∀ r ∈ rs, r.Valid) ∧
        t.log = s.log ++ probesTrace channels positions rs ∧
        (n, t.devices) = recordAnswers count s.devices (answers positions rs) := by
  induction positions generalizing count s with
  | nil => exact Yields.pure ⟨[], rfl, by simp, by simp [probesTrace], rfl⟩
  | cons p positions ih =>
      rw [probeAll]
      apply Yields.bind
      refine (probePosition_responds hw fuel p.1 p.2 count s
        (congrArg (fun cs => (cs p.1.toNat).base) h)).mono ?_
      rintro n t ⟨r, valid, log, same, record⟩
      refine (ih n t (same.trans h)).mono ?_
      rintro m u ⟨rs, length, all, rest, records⟩
      refine ⟨r :: rs, congrArg (· + 1) length, ?_, ?_, ?_⟩
      · rw [List.forall_mem_cons]
        exact ⟨valid, all⟩
      · rw [rest, log, List.append_assoc]
        rfl
      · rw [records, answers_cons, recordAnswers, ← record]

/-- What crossed the ports determines the responses. -/
theorem probesTrace_unique {channels : Nat → IdeChannel} {positions : List (UInt8 × UInt8)}
    {rs qs : List Response} (hr : rs.length = positions.length) (hq : qs.length = positions.length)
    (valid : ∀ r ∈ rs, r.Valid) (valid' : ∀ q ∈ qs, q.Valid)
    (same : probesTrace channels positions rs = probesTrace channels positions qs) : rs = qs := by
  induction positions generalizing rs qs with
  | nil => rw [List.length_eq_zero_iff.mp hr, List.length_eq_zero_iff.mp hq]
  | cons p positions ih =>
      obtain ⟨r, rs, rfl⟩ := List.exists_cons_of_length_eq_add_one hr
      obtain ⟨q, qs, rfl⟩ := List.exists_cons_of_length_eq_add_one hq
      rw [List.forall_mem_cons] at valid valid'
      simp only [probesTrace, List.zipWith_cons_cons, List.flatten_cons] at same
      obtain ⟨rfl, rest⟩ := Response.trace_unique valid.1 valid'.1 same
      rw [ih (Nat.succ.inj hr) (Nat.succ.inj hq) valid.2 valid'.2 rest]

end Scan

/-- A call of `ide_init` that returned, with what the four positions answered in it. -/
structure ScanCall where
  σ : Type
  hw : Bus σ
  fuel : Nat
  primBase : UInt32
  primControl : UInt32
  secBase : UInt32
  secControl : UInt32
  busMaster : UInt32
  start : IdeState σ
  finish : IdeState σ
  returned : (ideInit hw fuel primBase primControl secBase secControl busMaster).run start =
    (some (), finish)
  responses : List Response
  positions : responses.length = scanPositions.length
  valid : ∀ r ∈ responses, r.Valid
  log : finish.log = start.log ++ (Access.outb (primControl.toUInt16 + 2) 2 ::
    .outb (secControl.toUInt16 + 2) 2 ::
      probesTrace (assignChannels primBase primControl secBase secControl busMaster start).channels
        scanPositions responses)

section Init

variable {σ : Type} (hw : Bus σ)

theorem printSummary_keeps (slots : List Nat) (s : IdeState σ) :
    (printSummary slots s).log = s.log ∧ (printSummary slots s).devices = s.devices := by
  induction slots generalizing s with
  | nil => exact ⟨rfl, rfl⟩
  | cons i slots ih =>
      rw [printSummary]
      split
      · exact ih _
      · exact ih s

/-- Every call that returns has its four responses, and they decide the table. -/
theorem ideInit_responds (fuel : Nat) (primBase primControl secBase secControl busMaster : UInt32)
    (s : IdeState σ) :
    Yields (ideInit hw fuel primBase primControl secBase secControl busMaster) s fun _ t =>
      ∃ rs : List Response, rs.length = scanPositions.length ∧ (∀ r ∈ rs, r.Valid) ∧
        t.log = s.log ++ (Access.outb (primControl.toUInt16 + 2) 2 ::
          .outb (secControl.toUInt16 + 2) 2 :: probesTrace
            (assignChannels primBase primControl secBase secControl busMaster s).channels
              scanPositions rs) ∧
        t.devices = (recordAnswers 0 s.devices (answers scanPositions rs)).2 := by
  set u := assignChannels primBase primControl secBase secControl busMaster s with hu
  obtain ⟨b, off⟩ : ∃ b,
      ideWriteRegister hw 1 ataRegControl 2 (ideWriteRegister hw 0 ataRegControl 2 u) =
        u.after b [.outb (primControl.toUInt16 + 2) 2, .outb (secControl.toUInt16 + 2) 2] := by
    rw [ideWriteRegister_after, ideWriteRegister_after, IdeState.after_after,
      IdeState.after_channels, registerWrites_control, registerWrites_control]
    exact ⟨_, rfl⟩
  rw [ideInit]
  apply Yields.modify
  apply Yields.modify
  apply Yields.modify
  rw [← hu, off]
  apply Yields.bind
  refine (probeAll_responds hw fuel scanPositions 0 (u.after b _) rfl).mono ?_
  rintro n t ⟨rs, length, valid, log, record⟩
  intro _ v run
  cases run
  obtain ⟨kept, same⟩ := printSummary_keeps (List.range 4) t
  refine ⟨rs, length, valid, ?_, ?_⟩
  · rw [kept, log]
    simp [hu, assignChannels]
  · rw [same]
    exact congrArg Prod.snd record

end Init

namespace ScanCall

theorem devices (c : ScanCall) :
    c.finish.devices = (recordAnswers 0 c.start.devices (answers scanPositions c.responses)).2 := by
  obtain ⟨rs, length, valid, log, record⟩ := ideInit_responds c.hw c.fuel c.primBase c.primControl
    c.secBase c.secControl c.busMaster c.start () c.finish c.returned
  have same := List.append_cancel_left (c.log.symm.trans log)
  rw [List.cons.injEq, List.cons.injEq] at same
  rw [record, probesTrace_unique c.positions length c.valid valid same.2.2]

end ScanCall

end VDK
