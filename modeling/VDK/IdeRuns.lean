import VDK.IdeInit

/-!
# What the driver's routines do to the machine

`s.after b tr` is `s` with the hardware at `b` and the accesses `tr` added to the
log. Each routine gets an equation in these terms; later proofs cite it and do
not unfold the routine.
-/
namespace VDK
open Fuel ByteMem

namespace IdeState

variable {σ : Type}

def after (s : IdeState σ) (b : σ) (tr : List Access) : IdeState σ :=
  { s with bus := b, log := s.log ++ tr }

variable (s : IdeState σ) (b c : σ) (tr ur : List Access)

@[simp] theorem after_bus : (s.after b tr).bus = b := rfl
@[simp] theorem after_log : (s.after b tr).log = s.log ++ tr := rfl
@[simp] theorem after_mem : (s.after b tr).mem = s.mem := rfl
@[simp] theorem after_channels : (s.after b tr).channels = s.channels := rfl
@[simp] theorem after_devices : (s.after b tr).devices = s.devices := rfl
@[simp] theorem after_printed : (s.after b tr).printed = s.printed := rfl

@[simp] theorem after_after : (s.after b tr).after c ur = s.after c (tr ++ ur) := by
  simp only [after, List.append_assoc]

theorem after_nil : s.after s.bus [] = s := by
  simp only [after, List.append_nil]

end IdeState

section Polling

variable {σ : Type} (hw : Bus σ)

/-- Reads of `port` until a byte without BSY: whether one came, the bytes read,
and the hardware after them. -/
def busyReads (port : UInt16) : Nat → σ → Bool × List UInt8 × σ
  | 0, b => (false, [], b)
  | fuel + 1, b =>
      let r := hw.inb port b
      if r.1 &&& ataSrBsy ≠ 0 then
        let q := busyReads port fuel r.2
        (q.1, r.1 :: q.2.1, q.2.2)
      else (true, [r.1], r.2)

def readMany (port : UInt16) : Nat → σ → List UInt8 × σ
  | 0, b => ([], b)
  | n + 1, b =>
      let r := hw.inb port b
      let rest := readMany port n r.2
      (r.1 :: rest.1, rest.2)

def sendBus (writes : List (UInt16 × UInt8)) (b : σ) : σ :=
  writes.foldl (fun b w => hw.outb w.1 w.2 b) b

def outAccesses (writes : List (UInt16 × UInt8)) : List Access :=
  writes.map fun w => Access.outb w.1 w.2

theorem onMachine_sendAll (writes : List (UInt16 × UInt8)) (s : IdeState σ) :
    s.onMachine (sendAll hw writes) = s.after (sendBus hw writes s.bus) (outAccesses writes) := by
  unfold IdeState.onMachine
  rw [sendAll_eq]
  rfl

theorem onMachine_repOutsw (port : UInt16) (n : Nat) (src : UInt32) (s : IdeState σ) :
    s.onMachine (repOutsw hw port n src) =
      s.after (writeWords hw port (memWords s.mem n src) s.bus)
        ((memWords s.mem n src).map (Access.outw port)) := by
  unfold IdeState.onMachine
  rw [repOutsw_eq]
  rfl

theorem onMachine_repInsw (port : UInt16) (n : Nat) (dst : UInt32) (s : IdeState σ) :
    s.onMachine (repInsw hw port n dst) =
      { s.after (readWords hw port n s.bus).2
          ((readWords hw port n s.bus).1.map (Access.inw port)) with
        mem := s.mem.write dst ((readWords hw port n s.bus).1.flatMap bytes16) } := by
  unfold IdeState.onMachine
  rw [repInsw_eq]
  rfl

theorem registerPort_low (ch : IdeChannel) {reg : UInt8} (h : reg < 0x08) :
    registerPort ch reg = some (ch.base + reg.toUInt16) := by
  simp [registerPort, h]

theorem registerPort_control (ch : IdeChannel) :
    registerPort ch ataRegControl = some (ch.control + 2) := by
  have port : ch.control + (ataRegControl : UInt8).toUInt16 - 0x0A = ch.control + 2 := by
    apply UInt16.toNat_inj.mp
    have bound := ch.control.toNat_lt
    simp only [UInt16.toNat_sub, UInt16.toNat_add]
    change (2 ^ 16 - 10 + (ch.control.toNat + 12) % 2 ^ 16) % 2 ^ 16 =
      (ch.control.toNat + 2) % 2 ^ 16
    omega
  simp only [registerPort]
  rw [if_neg (by decide), if_neg (by decide), if_pos (by decide), port]

theorem shadowed_low {reg : UInt8} (h : reg < 0x08) : shadowed reg = false := by
  have below : ¬ 0x07 < reg := by
    rw [UInt8.lt_iff_toNat_lt] at h ⊢
    simp only [UInt8.reduceToNat] at h ⊢
    omega
  simp [shadowed, below]

theorem shadowed_bounds {reg : UInt8} (h : shadowed reg = true) : 0x07 < reg ∧ reg < 0x0C := by
  simpa only [shadowed, Bool.and_eq_true, decide_eq_true_eq] using h

theorem registerWrites_low (ch : IdeChannel) {reg : UInt8} (low : reg < 0x08) (v : UInt8) :
    registerWrites ch reg v = [(ch.base + reg.toUInt16, v)] := by
  simp only [registerWrites, shadowed_low low, Bool.false_eq_true, if_false,
    registerPort_low ch low, Option.toList_some, List.map_cons, List.map_nil]

theorem registerWrites_control (ch : IdeChannel) (v : UInt8) :
    registerWrites ch ataRegControl v = [(ch.control + 2, v)] := by
  simp only [registerWrites, show shadowed ataRegControl = false from rfl, Bool.false_eq_true,
    if_false, registerPort_control, Option.toList_some, List.map_cons, List.map_nil]

/-- A shadowed register is the one six ports below it, between two control writes. -/
theorem registerWrites_shadowed (ch : IdeChannel) {reg : UInt8} (h : shadowed reg = true)
    (v : UInt8) :
    registerWrites ch reg v =
      [(ch.control + 2, (0x80 ||| ch.noIntr).toUInt8), (ch.base + reg.toUInt16 - 6, v),
        (ch.control + 2, ch.noIntr.toUInt8)] := by
  obtain ⟨above, below⟩ := shadowed_bounds h
  have high : ¬ reg < 0x08 := by
    rw [UInt8.lt_iff_toNat_lt] at above ⊢
    simp only [UInt8.reduceToNat] at above ⊢
    omega
  have port : registerPort ch reg = some (ch.base + reg.toUInt16 - 0x06) := by
    simp only [registerPort, if_neg high, if_pos below]
  simp only [registerWrites, h, if_true, port, registerPort_control, Option.toList_some,
    List.map_cons, List.map_nil, List.cons_append, List.nil_append]

theorem inRegister_eq (channel reg : UInt8) (s : IdeState σ) {port : UInt16}
    (h : registerPort (s.channels channel.toNat) reg = some port) :
    inRegister hw channel reg s = ((hw.inb port s.bus).1,
      s.after (hw.inb port s.bus).2 [.inb port (hw.inb port s.bus).1]) := by
  simp only [inRegister, h]
  rfl

theorem ideReadRegister_low (channel reg : UInt8) (low : reg < 0x08)
    (s : IdeState σ) {port : UInt16}
    (h : (s.channels channel.toNat).base + reg.toUInt16 = port) :
    ideReadRegister hw channel reg s = ((hw.inb port s.bus).1,
      s.after (hw.inb port s.bus).2 [.inb port (hw.inb port s.bus).1]) := by
  rw [ideReadRegister, shadowed_low low]
  exact inRegister_eq hw channel reg s ((registerPort_low _ low).trans (congrArg some h))

theorem ideReadRegister_altstatus (channel : UInt8) (s : IdeState σ) {port : UInt16}
    (h : (s.channels channel.toNat).control + 2 = port) :
    ideReadRegister hw channel ataRegAltstatus s = ((hw.inb port s.bus).1,
      s.after (hw.inb port s.bus).2 [.inb port (hw.inb port s.bus).1]) :=
  inRegister_eq hw channel ataRegAltstatus s ((registerPort_control _).trans (congrArg some h))

theorem ideWriteRegister_after (channel reg data : UInt8) (s : IdeState σ) :
    ideWriteRegister hw channel reg data s =
      s.after (sendBus hw (registerWrites (s.channels channel.toNat) reg data) s.bus)
        (outAccesses (registerWrites (s.channels channel.toNat) reg data)) := by
  rw [ideWriteRegister_eq, onMachine_sendAll]

theorem ideWriteRegister_low (channel : UInt8) {reg : UInt8} (low : reg < 0x08) (v : UInt8)
    (s : IdeState σ) {base : UInt16} (h : (s.channels channel.toNat).base = base) :
    ∃ b, ideWriteRegister hw channel reg v s = s.after b [.outb (base + reg.toUInt16) v] := by
  rw [ideWriteRegister_after, registerWrites_low _ low, h]
  exact ⟨_, rfl⟩

theorem ideReadRegister_answers (channel : UInt8) {reg : UInt8} (low : reg < 0x08)
    (s : IdeState σ) {base : UInt16} (h : (s.channels channel.toNat).base = base) :
    ∃ v b, ideReadRegister hw channel reg s = (v, s.after b [.inb (base + reg.toUInt16) v]) :=
  ⟨_, _, ideReadRegister_low hw channel reg low s (congrArg (· + reg.toUInt16) h)⟩

theorem waitWhileBusy_run (channel : UInt8) (fuel : Nat) (s : IdeState σ) {port : UInt16}
    (h : (s.channels channel.toNat).base + 7 = port) :
    (waitWhileBusy hw channel fuel).run s =
      (if (busyReads hw port fuel s.bus).1 then some () else none,
        s.after (busyReads hw port fuel s.bus).2.2
          ((busyReads hw port fuel s.bus).2.1.map (Access.inb port))) := by
  induction fuel generalizing s with
  | zero => simp [waitWhileBusy, busyReads, IdeState.after_nil]
  | succ fuel ih =>
      have first := ideReadRegister_low hw channel ataRegStatus (by decide) s h
      simp only [waitWhileBusy, Exec.run_bind, Exec.run_act, Exec.andThen_some, first, busyReads]
      by_cases bsy : (hw.inb port s.bus).1 &&& ataSrBsy ≠ 0
      · rw [if_pos bsy, if_pos bsy, ih (s.after _ _) h, IdeState.after_after]
        rfl
      · rw [if_neg bsy, if_neg bsy]
        rfl

theorem altStatusDelay_eq (channel : UInt8) (n : Nat) (s : IdeState σ) {port : UInt16}
    (h : (s.channels channel.toNat).control + 2 = port) :
    altStatusDelay hw channel n s =
      s.after (readMany hw port n s.bus).2 ((readMany hw port n s.bus).1.map (Access.inb port)) := by
  induction n generalizing s with
  | zero => simp [altStatusDelay, readMany, IdeState.after_nil]
  | succ n ih =>
      rw [altStatusDelay, ideReadRegister_altstatus hw channel s h]
      dsimp only
      rw [ih (s.after _ _) h, IdeState.after_after]
      rfl

/-- The busy wait of `ide_polling`, after its four delay reads. -/
def pollReads (port control : UInt16) (fuel : Nat) (b : σ) : Bool × List UInt8 × σ :=
  busyReads hw port fuel (readMany hw control 4 b).2

def pollTrace (port control : UInt16) (fuel : Nat) (b : σ) : List Access :=
  (readMany hw control 4 b).1.map (Access.inb control) ++
    (pollReads hw port control fuel b).2.1.map (Access.inb port)

def polled (port control : UInt16) (fuel : Nat) (s : IdeState σ) : IdeState σ :=
  s.after (pollReads hw port control fuel s.bus).2.2 (pollTrace hw port control fuel s.bus)

section

variable {fuel : Nat} {channel : UInt8} {s : IdeState σ} {port control : UInt16}
  (hs : (s.channels channel.toNat).base + 7 = port)
  (hc : (s.channels channel.toNat).control + 2 = control)

include hs hc

theorem pollWait_run :
    (waitWhileBusy hw channel fuel).run (altStatusDelay hw channel 4 s) =
      (if (pollReads hw port control fuel s.bus).1 then some () else none,
        polled hw port control fuel s) := by
  rw [altStatusDelay_eq hw channel 4 s hc, waitWhileBusy_run hw channel fuel (s.after _ _) hs,
    IdeState.after_after]
  rfl

theorem idePolling_plain (ended : (pollReads hw port control fuel s.bus).1 = true) :
    (idePolling hw fuel channel 0).run s = (some 0, polled hw port control fuel s) := by
  simp only [idePolling, Exec.run_bind, Exec.run_modify, Exec.andThen_some,
    pollWait_run hw hs hc, ended, if_true]
  rfl

theorem idePolling_checked (ended : (pollReads hw port control fuel s.bus).1 = true) :
    (idePolling hw fuel channel 1).run s =
      (some (statusError (hw.inb port (polled hw port control fuel s).bus).1),
        (polled hw port control fuel s).after (hw.inb port (polled hw port control fuel s).bus).2
          [.inb port (hw.inb port (polled hw port control fuel s).bus).1]) := by
  have state := ideReadRegister_low hw channel ataRegStatus (by decide)
    (polled hw port control fuel s) hs
  simp only [idePolling, Exec.run_bind, Exec.run_modify, Exec.andThen_some,
    pollWait_run hw hs hc, ended, if_true]
  rw [if_pos (by decide)]
  simp only [Exec.run_bind, Exec.run_act, Exec.andThen_some, Exec.run_pure, state]

end

/-- Polling only reads status bytes, whatever it returns. -/
theorem idePolling_reads (fuel : Nat) (channel advancedCheck : UInt8) (s : IdeState σ) :
    ∃ result b tr, (idePolling hw fuel channel advancedCheck).run s = (result, s.after b tr) ∧
      ∀ a ∈ tr, ∃ port value, a = Access.inb port value := by
  set port := (s.channels channel.toNat).base + 7 with hs
  set control := (s.channels channel.toNat).control + 2 with hc
  have reads : ∀ a ∈ pollTrace hw port control fuel s.bus,
      ∃ port value, a = Access.inb port value := by
    intro a member
    rcases List.mem_append.mp member with delay | wait
    · obtain ⟨v, _, rfl⟩ := List.mem_map.mp delay
      exact ⟨control, v, rfl⟩
    · obtain ⟨v, _, rfl⟩ := List.mem_map.mp wait
      exact ⟨port, v, rfl⟩
  have wait : (waitWhileBusy hw channel fuel).run (altStatusDelay hw channel 4 s) = _ :=
    pollWait_run hw hs.symm hc.symm
  simp only [idePolling, Exec.run_bind, Exec.run_modify, Exec.andThen_some, wait]
  cases (pollReads hw port control fuel s.bus).1 with
  | false => exact ⟨none, _, _, rfl, reads⟩
  | true =>
      simp only [if_true, Exec.andThen_some]
      split
      · have state := ideReadRegister_low hw channel ataRegStatus (by decide)
          (polled hw port control fuel s) hs.symm
        simp only [Exec.run_bind, Exec.run_act, Exec.andThen_some, Exec.run_pure, state]
        refine ⟨_, _, _, congrArg (Prod.mk _) (IdeState.after_after s _ _ _ _), ?_⟩
        intro a member
        rcases List.mem_append.mp member with earlier | last
        · exact reads a earlier
        · exact ⟨port, _, List.mem_singleton.mp last⟩
      · exact ⟨some 0, _, _, rfl, reads⟩

end Polling

section Access

variable {σ : Type} (hw : Bus σ)

/-- The byte writes of phases (IV) and (V). -/
def parameterWrites (ch : IdeChannel) (slavebit numSectors : UInt8) (addr : LbaAddress) :
    List (UInt16 × UInt8) :=
  let select : UInt8 := if addr.mode = .chs then 0xA0 else 0xE0
  registerWrites ch ataRegHddevsel (select ||| slavebit <<< 4 ||| addr.head) ++
    ((if addr.mode = .lba48 then
        registerWrites ch ataRegSeccount1 0 ++ registerWrites ch ataRegLba3 addr.io3 ++
          registerWrites ch ataRegLba4 addr.io4 ++ registerWrites ch ataRegLba5 addr.io5
      else []) ++
      (registerWrites ch ataRegSeccount0 numSectors ++ registerWrites ch ataRegLba0 addr.io0 ++
        registerWrites ch ataRegLba1 addr.io1 ++ registerWrites ch ataRegLba2 addr.io2))

/-- The parameters go to registers below the command or to shadowed ones. -/
theorem mem_parameterWrites {ch : IdeChannel} {slavebit numSectors : UInt8} {addr : LbaAddress}
    {w : UInt16 × UInt8} (member : w ∈ parameterWrites ch slavebit numSectors addr) :
    ∃ reg v, (reg < 0x07 ∨ shadowed reg = true) ∧ w ∈ registerWrites ch reg v := by
  simp only [parameterWrites, List.mem_append] at member
  rcases member with select | ext | ((count | lba0) | lba1) | lba2
  · exact ⟨_, _, Or.inl (by decide), select⟩
  · split at ext
    · simp only [List.mem_append] at ext
      rcases ext with ((count | lba3) | lba4) | lba5
      · exact ⟨_, _, Or.inr rfl, count⟩
      · exact ⟨_, _, Or.inr rfl, lba3⟩
      · exact ⟨_, _, Or.inr rfl, lba4⟩
      · exact ⟨_, _, Or.inr rfl, lba5⟩
    · cases ext
  · exact ⟨_, _, Or.inl (by decide), count⟩
  · exact ⟨_, _, Or.inl (by decide), lba0⟩
  · exact ⟨_, _, Or.inl (by decide), lba1⟩
  · exact ⟨_, _, Or.inl (by decide), lba2⟩

theorem ideSendParameters_eq (channel slavebit numSectors : UInt8) (addr : LbaAddress)
    (s : IdeState σ) :
    ideSendParameters hw channel slavebit numSectors addr s =
      s.onMachine (sendAll hw
        (parameterWrites (s.channels channel.toNat) slavebit numSectors addr)) := by
  by_cases h : addr.mode = .lba48
  · simp only [ideSendParameters, parameterWrites, h, if_true, ideWriteRegister_eq,
      onMachine_channels, onMachine_onMachine, sendAll_append, List.append_assoc]
  · simp only [ideSendParameters, parameterWrites, h, if_false, ideWriteRegister_eq,
      onMachine_channels, onMachine_onMachine, sendAll_append, List.append_assoc, List.nil_append]

/-- The state in which the busy wait of `ide_ata_access` starts. -/
def accessStarted (channel : UInt8) (s : IdeState σ) : IdeState σ :=
  ideWriteRegister hw channel ataRegControl 2 (maskInterrupts channel s)

/-- Everything written between the busy wait and the transfer, the command byte last. -/
def commandWrites (ch : IdeChannel) (device : IdeDevice) (direction : Direction) (lba : UInt32)
    (numSectors : UInt8) : List (UInt16 × UInt8) :=
  let addr := ideSelectMode device.features lba
  parameterWrites ch device.drive numSectors addr ++
    registerWrites ch ataRegCommand (ideCommand addr.mode direction)

def commanded (device : IdeDevice) (direction : Direction) (lba : UInt32) (numSectors : UInt8)
    (s : IdeState σ) : IdeState σ :=
  let writes := commandWrites (s.channels device.channel.toNat) device direction lba numSectors
  s.after (sendBus hw writes s.bus) (outAccesses writes)

theorem commanded_eq (device : IdeDevice) (direction : Direction) (lba : UInt32)
    (numSectors : UInt8) (s : IdeState σ) :
    ideWriteRegister hw device.channel ataRegCommand
        (ideCommand (ideSelectMode device.features lba).mode direction)
        (ideSendParameters hw device.channel device.drive numSectors
          (ideSelectMode device.features lba) s) =
      commanded hw device direction lba numSectors s := by
  rw [ideSendParameters_eq, ideWriteRegister_eq, onMachine_channels, onMachine_onMachine]
  simp only [sendAll_append]
  exact onMachine_sendAll hw _ s

/-- `ide_ata_access` in its four stages: control write, busy wait, task file and
command, transfer. -/
theorem ideAtaAccess_run (fuel : Nat) (direction : Direction) (drive : UInt8) (lba : UInt32)
    (numSectors : UInt8) (buffer : UInt32) (s : IdeState σ) :
    (ideAtaAccess hw fuel direction drive lba numSectors buffer).run s =
      let d := s.devices drive.toNat
      Exec.andThen
        ((waitWhileBusy hw d.channel fuel).run (accessStarted hw d.channel s)) fun _ =>
          ⟨fun t => (ideTransfer hw fuel direction d.channel (s.channels d.channel.toNat).base
            (ideSelectMode d.features lba).mode numSectors buffer).run
              (commanded hw d direction lba numSectors t)⟩ := by
  simp only [ideAtaAccess, Exec.run_bind, Exec.run_get, Exec.andThen_some, Exec.run_modify]
  change Exec.andThen ((waitWhileBusy hw _ fuel).run (accessStarted hw _ s)) _ = _
  congr 1
  funext _
  ext1 t
  simp only [Exec.run_bind, Exec.run_modify, Exec.andThen_some, commanded_eq]

@[simp] theorem maskInterrupts_base (channel : UInt8) (s : IdeState σ) (i : Nat) :
    ((maskInterrupts channel s).channels i).base = (s.channels i).base := by
  by_cases h : i = channel.toNat
  · subst h
    simp [maskInterrupts]
  · simp [maskInterrupts, Function.update_of_ne h]

@[simp] theorem maskInterrupts_control (channel : UInt8) (s : IdeState σ) (i : Nat) :
    ((maskInterrupts channel s).channels i).control = (s.channels i).control := by
  by_cases h : i = channel.toNat
  · subst h
    simp [maskInterrupts]
  · simp [maskInterrupts, Function.update_of_ne h]

theorem accessStarted_eq (channel : UInt8) (s : IdeState σ) {ch : IdeChannel}
    (here : s.channels channel.toNat = ch) :
    accessStarted hw channel s =
      (maskInterrupts channel s).after (hw.outb (ch.control + 2) 2 s.bus)
        [Access.outb (ch.control + 2) 2] := by
  rw [accessStarted, ideWriteRegister_after, registerWrites_control, maskInterrupts_control, here]
  rfl

theorem accessStarted_channel (channel : UInt8) (s : IdeState σ) {ch : IdeChannel}
    (here : s.channels channel.toNat = ch) :
    (accessStarted hw channel s).channels channel.toNat = { ch with noIntr := 2 } := by
  rw [accessStarted_eq hw channel s here, IdeState.after_channels]
  simp only [maskInterrupts, Function.update_self, here]

/-- The busy wait of `ide_ata_access` on a bus in state `b`, after its control write. -/
def firstWait (ch : IdeChannel) (fuel : Nat) (b : σ) : Bool × List UInt8 × σ :=
  busyReads hw (ch.base + 7) fuel (hw.outb (ch.control + 2) 2 b)

def waited (device : IdeDevice) (ch : IdeChannel) (fuel : Nat) (s : IdeState σ) : IdeState σ :=
  (maskInterrupts device.channel s).after (firstWait hw ch fuel s.bus).2.2
    (Access.outb (ch.control + 2) 2 ::
      (firstWait hw ch fuel s.bus).2.1.map (Access.inb (ch.base + 7)))

theorem waited_channel (device : IdeDevice) (fuel : Nat) (s : IdeState σ) {ch : IdeChannel}
    (here : s.channels device.channel.toNat = ch) :
    (waited hw device ch fuel s).channels device.channel.toNat = { ch with noIntr := 2 } := by
  rw [waited, IdeState.after_channels]
  simp only [maskInterrupts, Function.update_self, here]

/-- `ide_ata_access` stops in its busy wait or goes on to task file, command and transfer. -/
theorem ideAtaAccess_waited (fuel : Nat) (direction : Direction) (drive : UInt8) (lba : UInt32)
    (numSectors : UInt8) (buffer : UInt32) (s : IdeState σ) {device : IdeDevice}
    (found : s.devices drive.toNat = device) {ch : IdeChannel}
    (here : s.channels device.channel.toNat = ch) :
    (ideAtaAccess hw fuel direction drive lba numSectors buffer).run s =
      if (firstWait hw ch fuel s.bus).1 then
        (ideTransfer hw fuel direction device.channel ch.base
          (ideSelectMode device.features lba).mode numSectors buffer).run
            (commanded hw device direction lba numSectors (waited hw device ch fuel s))
      else (none, waited hw device ch fuel s) := by
  have started := accessStarted_eq hw device.channel s here
  have status : ((accessStarted hw device.channel s).channels device.channel.toNat).base + 7 =
      ch.base + 7 := by
    rw [accessStarted_channel hw device.channel s here]
  have bus : (accessStarted hw device.channel s).bus = hw.outb (ch.control + 2) 2 s.bus := by
    rw [started, IdeState.after_bus]
  have reached : (accessStarted hw device.channel s).after (firstWait hw ch fuel s.bus).2.2
      ((firstWait hw ch fuel s.bus).2.1.map (Access.inb (ch.base + 7))) =
      waited hw device ch fuel s := by
    rw [started, IdeState.after_after]
    rfl
  have wait := waitWhileBusy_run hw device.channel fuel (accessStarted hw device.channel s) status
  rw [bus, ← firstWait, reached] at wait
  rw [ideAtaAccess_run]
  simp only [found, here, wait]
  cases (firstWait hw ch fuel s.bus).1 with
  | false => rfl
  | true => rfl

/-- What `ide_ata_access` has done before the transfer: one control write and the
status reads of the busy wait, then, if that ended, task file and command. -/
theorem ideAtaAccess_cases (fuel : Nat) (direction : Direction) (drive : UInt8) (lba : UInt32)
    (numSectors : UInt8) (buffer : UInt32) (s : IdeState σ) {device : IdeDevice}
    (found : s.devices drive.toNat = device) {ch : IdeChannel}
    (here : s.channels device.channel.toNat = ch) :
    ∃ reads : List UInt8, ∃ t : IdeState σ,
      t.channels = (maskInterrupts device.channel s).channels ∧ t.devices = s.devices ∧
        t.mem = s.mem ∧
        let waiting := Access.outb (ch.control + 2) 2 :: reads.map (Access.inb (ch.base + 7))
        (((ideAtaAccess hw fuel direction drive lba numSectors buffer).run s = (none, t) ∧
            t.log = s.log ++ waiting) ∨
          ((ideAtaAccess hw fuel direction drive lba numSectors buffer).run s =
              (ideTransfer hw fuel direction device.channel ch.base
                (ideSelectMode device.features lba).mode numSectors buffer).run t ∧
            t.log = s.log ++ (waiting ++ outAccesses
              (commandWrites { ch with noIntr := 2 } device direction lba numSectors)))) := by
  have run := ideAtaAccess_waited hw fuel direction drive lba numSectors buffer s found here
  refine ⟨(firstWait hw ch fuel s.bus).2.1, ?_⟩
  cases ended : (firstWait hw ch fuel s.bus).1 with
  | false =>
      rw [ended, if_neg Bool.false_ne_true] at run
      exact ⟨waited hw device ch fuel s, rfl, rfl, rfl, Or.inl ⟨run, rfl⟩⟩
  | true =>
      rw [ended, if_pos rfl] at run
      refine ⟨commanded hw device direction lba numSectors (waited hw device ch fuel s), rfl, rfl,
        rfl, Or.inr ⟨run, ?_⟩⟩
      rw [commanded, waited_channel hw device fuel s here, IdeState.after_log, waited,
        IdeState.after_log, List.append_assoc]
      rfl

end Access

end VDK
