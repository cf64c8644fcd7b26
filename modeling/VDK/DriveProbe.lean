import VDK.IdeRuns

/-!
# What a position answers when it is probed

`Response` is one probe of `ide_init` seen from the ports of its channel: the bytes
and words the position returned, in order. Every probe that returns is one response,
and what crossed the ports determines it.
-/
namespace VDK
open Fuel ByteMem

/-- The wait loop of step (III) reads another status. -/
def Waiting (status : UInt8) : Prop :=
  status &&& ataSrErr = 0 ∧ ¬ (status &&& ataSrBsy = 0 ∧ status &&& ataSrDrq ≠ 0)

/-- What follows the status that ends the wait loop. -/
inductive Reply where
  | unknown (cl ch : UInt8)
  | identify (words : List UInt32)
  | identifyPacket (cl ch : UInt8) (words : List UInt32)

inductive Response where
  | silent
  | waited (status : UInt8) (busy : List UInt8) (last : UInt8) (reply : Reply)

/-- `last` is a status that ends the wait loop, and the position goes on with `reply`. -/
def Reply.Valid (last : UInt8) : Reply → Prop
  | unknown cl ch => last &&& ataSrErr ≠ 0 ∧ atapiSignature cl ch = false
  | identify words =>
      last &&& ataSrErr = 0 ∧ (last &&& ataSrBsy = 0 ∧ last &&& ataSrDrq ≠ 0) ∧
        words.length = 128
  | identifyPacket cl ch words =>
      last &&& ataSrErr ≠ 0 ∧ atapiSignature cl ch = true ∧ words.length = 128

def Response.Valid : Response → Prop
  | silent => True
  | waited status busy last reply => status ≠ 0 ∧ (∀ v ∈ busy, Waiting v) ∧ reply.Valid last

/-- The accesses behind the wait loop, for a command block at `base`. -/
def Reply.trace (base : UInt16) : Reply → List Access
  | unknown cl ch => [.inb (base + 4) cl, .inb (base + 5) ch]
  | identify words => words.map (Access.inl base)
  | identifyPacket cl ch words =>
      .inb (base + 4) cl :: .inb (base + 5) ch :: .outb (base + 7) 0xA1 ::
        words.map (Access.inl base)

def Response.trace (base : UInt16) (drive : UInt8) (r : Response) : List Access :=
  .outb (base + 6) ((0xA0 : UInt8) ||| drive <<< 4) :: .outb (base + 7) 0xEC ::
    match r with
    | silent => [.inb (base + 7) 0]
    | waited status busy last reply =>
        .inb (base + 7) status ::
          (busy.map (Access.inb (base + 7)) ++ .inb (base + 7) last :: reply.trace base)

/-- The device that answered, from the identification data it sent. -/
def Reply.answer (channel drive : UInt8) : Reply → Option IdeDevice
  | unknown _ _ => none
  | identify words => some (identifyDevice (identifyBytes words) channel drive ideAta)
  | identifyPacket _ _ words => some (identifyDevice (identifyBytes words) channel drive ideAtapi)

def Response.answer (channel drive : UInt8) : Response → Option IdeDevice
  | silent => none
  | waited _ _ _ reply => reply.answer channel drive

section Unique

variable {α : Type} {p : α → Prop} {x y : List α}

/-- A list is split uniquely at its first element without `p`. -/
theorem first_failure_unique {front back : List α} {a b : α} (hf : ∀ c ∈ front, p c)
    (hb : ∀ c ∈ back, p c) (ha : ¬ p a) (hb' : ¬ p b) (same : front ++ a :: x = back ++ b :: y) :
    front = back ∧ a = b ∧ x = y := by
  induction front generalizing back with
  | nil =>
      cases back with
      | nil =>
          rw [List.nil_append, List.nil_append, List.cons.injEq] at same
          exact ⟨rfl, same⟩
      | cons c back =>
          rw [List.nil_append, List.cons_append, List.cons.injEq] at same
          exact absurd (hb a (same.1 ▸ List.mem_cons_self)) ha
  | cons c front ih =>
      cases back with
      | nil =>
          rw [List.nil_append, List.cons_append, List.cons.injEq] at same
          exact absurd (hf b (same.1 ▸ List.mem_cons_self)) hb'
      | cons d back =>
          rw [List.cons_append, List.cons_append, List.cons.injEq] at same
          obtain ⟨rfl, rest⟩ := same
          obtain ⟨rfl, tail⟩ := ih (fun e he => hf e (List.mem_cons_of_mem c he))
            (fun e he => hb e (List.mem_cons_of_mem c he)) rest
          exact ⟨rfl, tail⟩

theorem map_append_unique {β : Type} {f : β → α} (inj : Function.Injective f) {us vs : List β}
    (length : us.length = vs.length) (same : us.map f ++ x = vs.map f ++ y) :
    us = vs ∧ x = y := by
  have split := List.append_inj same (by rw [List.length_map, List.length_map, length])
  exact ⟨(List.map_inj_right fun _ _ e => inj e).mp split.1, split.2⟩

theorem Reply.Valid.ends {last : UInt8} {reply : Reply} (valid : reply.Valid last) :
    ¬ Waiting last := by
  rintro ⟨err, wait⟩
  cases reply with
  | unknown cl ch => exact valid.1 err
  | identify words => exact wait valid.2.1
  | identifyPacket cl ch words => exact valid.1 err

variable {base : UInt16}

theorem Reply.trace_unique {last : UInt8} {r q : Reply} (hr : r.Valid last) (hq : q.Valid last)
    {x y : List Access} (same : r.trace base ++ x = q.trace base ++ y) : r = q ∧ x = y := by
  have words : Function.Injective (Access.inl base) := fun a b e => (Access.inl.inj e).2
  cases r with
  | unknown cl ch =>
      cases q with
      | unknown cl' ch' =>
          simpa [Reply.trace, and_assoc] using same
      | identify ws => exact absurd hq.1 hr.1
      | identifyPacket cl' ch' ws =>
          have signature := hr.2
          simp only [Reply.trace, List.cons_append, List.cons.injEq, Access.inb.injEq, true_and]
            at same
          rw [same.1, same.2.1, hq.2.1] at signature
          cases signature
  | identify vs =>
      cases q with
      | unknown cl ch => exact absurd hr.1 hq.1
      | identify ws =>
          obtain ⟨rfl, rest⟩ := map_append_unique words (hr.2.2.trans hq.2.2.symm) same
          exact ⟨rfl, rest⟩
      | identifyPacket cl ch ws => exact absurd hr.1 hq.1
  | identifyPacket cl ch vs =>
      cases q with
      | unknown cl' ch' =>
          have signature := hr.2.1
          simp only [Reply.trace, List.cons_append, List.cons.injEq, Access.inb.injEq, true_and]
            at same
          rw [same.1, same.2.1, hq.2] at signature
          cases signature
      | identify ws => exact absurd hq.1 hr.1
      | identifyPacket cl' ch' ws =>
          simp only [Reply.trace, List.cons_append, List.cons.injEq, Access.inb.injEq, true_and]
            at same
          obtain ⟨rfl, rfl, tail⟩ := same
          obtain ⟨rfl, rest⟩ := map_append_unique words (hr.2.2.trans hq.2.2.symm) tail
          exact ⟨rfl, rest⟩

/-- What crossed the ports determines the response, and where it ends. -/
theorem Response.trace_unique {drive : UInt8} {r q : Response} (hr : r.Valid) (hq : q.Valid)
    {x y : List Access} (same : r.trace base drive ++ x = q.trace base drive ++ y) :
    r = q ∧ x = y := by
  simp only [Response.trace, List.cons_append, List.cons.injEq, true_and] at same
  cases r with
  | silent =>
      cases q with
      | silent => exact ⟨rfl, by simpa using same⟩
      | waited status busy last reply =>
          simp only [List.cons_append, List.cons.injEq, Access.inb.injEq, true_and] at same
          exact absurd same.1.symm hq.1
  | waited status busy last reply =>
      cases q with
      | silent =>
          simp only [List.cons_append, List.cons.injEq, Access.inb.injEq, true_and] at same
          exact absurd same.1 hr.1
      | waited status' busy' last' reply' =>
          simp only [List.cons_append, List.append_assoc, List.cons.injEq, Access.inb.injEq,
            true_and] at same
          have port : Function.Injective (Access.inb (base + 7)) :=
            fun a b e => (Access.inb.inj e).2
          have waits : ∀ {us : List UInt8}, (∀ v ∈ us, Waiting v) →
              ∀ a ∈ us.map (Access.inb (base + 7)), ∃ v, a = .inb (base + 7) v ∧ Waiting v := by
            intro us all a member
            obtain ⟨v, here, rfl⟩ := List.mem_map.mp member
            exact ⟨v, rfl, all v here⟩
          have stops : ∀ {v : UInt8}, ¬ Waiting v →
              ¬ ∃ w, Access.inb (base + 7) v = .inb (base + 7) w ∧ Waiting w := by
            rintro v ends ⟨w, e, wait⟩
            exact ends (port e ▸ wait)
          obtain ⟨rfl, tail⟩ := same
          obtain ⟨front, final, rest⟩ := first_failure_unique (waits hr.2.1) (waits hq.2.1)
            (stops hr.2.2.ends) (stops hq.2.2.ends) tail
          obtain rfl := (List.map_inj_right fun _ _ e => port e).mp front
          obtain rfl := port final
          obtain ⟨rfl, done⟩ := Reply.trace_unique hr.2.2 hq.2.2 rest
          exact ⟨rfl, done⟩

end Unique

section Probe

variable {σ : Type} (hw : Bus σ)

/-- Store the answer of a position in the next slot, or clear that slot's mark. -/
def recordAnswer (count : Nat) (table : Nat → IdeDevice) : Option IdeDevice → Nat × (Nat → IdeDevice)
  | some d => (count + 1, Function.update table count d)
  | none => (count, Function.update table count { table count with reserved := 0 })

theorem ideReadBuffer_data (channel : UInt8) (quads : Nat) (s : IdeState σ) {base : UInt16}
    (h : (s.channels channel.toNat).base = base) :
    ∃ words b, words.length = quads ∧ ideReadBuffer hw channel ataRegData quads s =
      (words, s.after b (words.map (Access.inl base))) := by
  have port : registerPort (s.channels channel.toNat) ataRegData = some base := by
    rw [registerPort_low _ (by decide), h]
    exact congrArg some (UInt16.add_zero base)
  obtain ⟨length, b, run⟩ := insl_eq hw base quads s.toMachine
  refine ⟨(insl hw base quads s.toMachine).1, b, length, ?_⟩
  simp only [ideReadBuffer, shadowed_low (show ataRegData < 0x08 by decide), Bool.false_eq_true,
    if_false, port]
  rw [run]
  rfl

theorem awaitIdentify_reads (channel : UInt8) (fuel : Nat) (s : IdeState σ) {base : UInt16}
    (h : (s.channels channel.toNat).base = base) :
    Yields (awaitIdentify hw channel fuel) s fun err t =>
      ∃ busy last b, (∀ v ∈ busy, Waiting v) ∧
        t = s.after b ((busy ++ [last]).map (Access.inb (base + 7))) ∧
          if err then last &&& ataSrErr ≠ 0
          else last &&& ataSrErr = 0 ∧ last &&& ataSrBsy = 0 ∧ last &&& ataSrDrq ≠ 0 := by
  induction fuel generalizing s with
  | zero =>
      intro err t run
      cases run
  | succ fuel ih =>
      have status := ideReadRegister_low hw channel ataRegStatus (by decide) s
        (congrArg (· + 7) h)
      rw [awaitIdentify]
      apply Yields.act
      rw [status]
      set v := (hw.inb (base + 7) s.bus).1
      by_cases err : v &&& ataSrErr ≠ 0
      · rw [if_pos err]
        exact Yields.pure ⟨[], v, _, by simp, rfl, err⟩
      · rw [if_neg err]
        by_cases ready : v &&& ataSrBsy = 0 ∧ v &&& ataSrDrq ≠ 0
        · rw [if_pos ready]
          exact Yields.pure ⟨[], v, _, by simp, rfl, not_not.mp err, ready⟩
        · rw [if_neg ready]
          refine (ih (s.after _ _) h).mono ?_
          rintro result t ⟨busy, last, b, waits, rfl, ends⟩
          refine ⟨v :: busy, last, b, ?_, ?_, ends⟩
          · rw [List.forall_mem_cons]
            exact ⟨⟨not_not.mp err, ready⟩, waits⟩
          · rw [IdeState.after_after]
            rfl

theorem recordDevice_data (channel drive : UInt8) (type : UInt16) (count : Nat) (s : IdeState σ)
    {base : UInt16} (h : (s.channels channel.toNat).base = base) :
    Yields (recordDevice hw channel drive type count) s fun n t =>
      ∃ words b, words.length = 128 ∧ n = count + 1 ∧
        t = setDevice count (identifyDevice (identifyBytes words) channel drive type)
          (s.after b (words.map (Access.inl base))) := by
  obtain ⟨words, b, length, read⟩ := ideReadBuffer_data hw channel 128 s h
  rw [recordDevice]
  apply Yields.act
  apply Yields.modify
  rw [read]
  exact Yields.pure ⟨words, b, length, rfl, rfl⟩

/-- The start of a probe: the next slot's mark is taken away. -/
def unmarked (count : Nat) (s : IdeState σ) : IdeState σ :=
  setDevice count { s.devices count with reserved := 0 } s

theorem probe_selects (channel drive : UInt8) (s : IdeState σ) {base : UInt16}
    (h : (s.channels channel.toNat).base = base) :
    ∃ b, ideWriteRegister hw channel ataRegCommand 0xEC
        (ideWriteRegister hw channel ataRegHddevsel ((0xA0 : UInt8) ||| drive <<< 4) s) =
      s.after b [.outb (base + 6) ((0xA0 : UInt8) ||| drive <<< 4), .outb (base + 7) 0xEC] := by
  obtain ⟨b, select⟩ := ideWriteRegister_low hw channel (show ataRegHddevsel < 0x08 by decide)
    ((0xA0 : UInt8) ||| drive <<< 4) s h
  obtain ⟨c, command⟩ := ideWriteRegister_low hw channel (show ataRegCommand < 0x08 by decide)
    0xEC (s.after b [.outb (base + ataRegHddevsel.toUInt16) ((0xA0 : UInt8) ||| drive <<< 4)]) h
  exact ⟨c, by rw [select, command, IdeState.after_after]; rfl⟩

/-- The rest of a probe behind the wait loop. -/
def identified (channel drive : UInt8) (count : Nat) (err : Bool) : Exec (IdeState σ) Nat :=
  if err then do
    let cl ← Exec.act (ideReadRegister hw channel ataRegLba1)
    let ch ← Exec.act (ideReadRegister hw channel ataRegLba2)
    if atapiSignature cl ch then do
      Exec.modify (ideWriteRegister hw channel ataRegCommand 0xA1)
      recordDevice hw channel drive ideAtapi count
    else pure count
  else recordDevice hw channel drive ideAta count

/-- The reply behind the last status of the wait loop. -/
theorem identified_responds (channel drive : UInt8) (count : Nat) (s : IdeState σ) {base : UInt16}
    (h : (s.channels channel.toNat).base = base) {err : Bool} {last : UInt8}
    (ends : if err then last &&& ataSrErr ≠ 0
      else last &&& ataSrErr = 0 ∧ last &&& ataSrBsy = 0 ∧ last &&& ataSrDrq ≠ 0) :
    Yields (identified hw channel drive count err) s fun n t =>
      ∃ reply : Reply, reply.Valid last ∧ t.log = s.log ++ reply.trace base ∧
        t.channels = s.channels ∧
        match reply.answer channel drive with
        | some d => n = count + 1 ∧ t.devices = Function.update s.devices count d
        | none => n = count ∧ t.devices = s.devices := by
  cases err with
  | false =>
      refine (recordDevice_data hw channel drive ideAta count s h).mono ?_
      rintro n u ⟨words, c, length, rfl, rfl⟩
      refine ⟨.identify words, ⟨ends.1, ends.2, length⟩, ?_, rfl, rfl, rfl⟩
      simp [setDevice, Reply.trace]
  | true =>
      obtain ⟨cl, c, low⟩ := ideReadRegister_answers hw channel
        (show ataRegLba1 < 0x08 by decide) s h
      obtain ⟨ch, d, mid⟩ := ideReadRegister_answers hw channel
        (show ataRegLba2 < 0x08 by decide) (s.after c _) h
      simp only [identified, if_true]
      apply Yields.act
      rw [low]
      apply Yields.act
      rw [mid]
      by_cases signature : atapiSignature cl ch = true
      · rw [if_pos signature]
        apply Yields.modify
        obtain ⟨e, command⟩ := ideWriteRegister_low hw channel
          (show ataRegCommand < 0x08 by decide) 0xA1 ((s.after c _).after d _) h
        rw [command]
        refine (recordDevice_data hw channel drive ideAtapi count
          (((s.after c _).after d _).after e _) h).mono ?_
        rintro n u ⟨words, g, length, rfl, rfl⟩
        refine ⟨.identifyPacket cl ch words, ⟨ends, signature, length⟩, ?_, rfl, rfl, rfl⟩
        simp [setDevice, Reply.trace]
      · rw [if_neg signature]
        refine Yields.pure ⟨.unknown cl ch, ⟨ends, by simpa using signature⟩, ?_, rfl, rfl, rfl⟩
        simp [Reply.trace]

/-- A position whose first status is not 0, from the wait loop on. -/
theorem probeReply_responds (fuel : Nat) (channel drive : UInt8) (count : Nat) (s : IdeState σ)
    {base : UInt16} (h : (s.channels channel.toNat).base = base) :
    Yields (awaitIdentify hw channel fuel >>= identified hw channel drive count) s fun n t =>
      ∃ (busy : List UInt8) (last : UInt8) (reply : Reply), (∀ v ∈ busy, Waiting v) ∧
        reply.Valid last ∧
        t.log = s.log ++ (busy.map (Access.inb (base + 7)) ++
          .inb (base + 7) last :: reply.trace base) ∧
        t.channels = s.channels ∧
        match reply.answer channel drive with
        | some d => n = count + 1 ∧ t.devices = Function.update s.devices count d
        | none => n = count ∧ t.devices = s.devices := by
  apply Yields.bind
  refine (awaitIdentify_reads hw channel fuel s h).mono ?_
  rintro err t ⟨busy, last, b, waits, rfl, ends⟩
  refine (identified_responds hw channel drive count (s.after b _) h ends).mono ?_
  rintro n u ⟨reply, valid, log, channels, record⟩
  refine ⟨busy, last, reply, waits, valid, ?_, channels, record⟩
  rw [log]
  simp

/-- A probe that returns is one response, and it records that response's answer. -/
theorem probePosition_responds (fuel : Nat) (channel drive : UInt8) (count : Nat)
    (s : IdeState σ) {base : UInt16} (h : (s.channels channel.toNat).base = base) :
    Yields (probePosition hw fuel channel drive count) s fun n t =>
      ∃ r : Response, r.Valid ∧ t.log = s.log ++ r.trace base drive ∧ t.channels = s.channels ∧
        (n, t.devices) = recordAnswer count s.devices (r.answer channel drive) := by
  obtain ⟨b, selects⟩ := probe_selects hw channel drive (unmarked count s) h
  obtain ⟨status, c, first⟩ := ideReadRegister_answers hw channel
    (show ataRegStatus < 0x08 by decide) ((unmarked count s).after b _) h
  rw [probePosition]
  apply Yields.modify
  apply Yields.modify
  apply Yields.modify
  change Yields _ (ideWriteRegister hw channel ataRegCommand 0xEC
    (ideWriteRegister hw channel ataRegHddevsel _ (unmarked count s))) _
  rw [selects]
  apply Yields.act
  rw [first]
  by_cases none : status = 0
  · rw [if_pos none]
    refine Yields.pure ⟨.silent, trivial, ?_, rfl, rfl⟩
    simp [Response.trace, unmarked, setDevice, none]
  · rw [if_neg none]
    refine (probeReply_responds hw fuel channel drive count
      (((unmarked count s).after b _).after c _) h).mono ?_
    rintro n t ⟨busy, last, reply, waits, valid, log, channels, record⟩
    refine ⟨.waited status busy last reply, ⟨none, waits, valid⟩, ?_, channels, ?_⟩
    · rw [log]
      simp [Response.trace, unmarked, setDevice]
    · cases answered : reply.answer channel drive with
      | none =>
          rw [answered] at record
          rw [Response.answer, answered, record.1, record.2]
          rfl
      | some d =>
          rw [answered] at record
          rw [Response.answer, answered, record.1, record.2]
          exact congrArg (Prod.mk (count + 1)) (Function.update_idem ..)

end Probe

end VDK
