import VDK.IdeRuns

/-!
# Which ports the driver touches

`OnChannel` follows one channel: a step that starts with the given base and
control ports adds only accesses to the eight ports from `base` on or to
`control + 2`, keeps every channel's ports, and keeps the device table. All
transfer routines satisfy it, so it also gives their frame.
-/
namespace VDK
open Fuel ByteMem

/-- The ports of registers 0x00-0x0C. -/
def ChannelPort (base control port : UInt16) : Prop :=
  (port - base).toNat < 8 ∨ port = control + 2

theorem channelPort_offset (base control : UInt16) {k : UInt16} (h : k.toNat < 8) :
    ChannelPort base control (base + k) := by
  left
  have bound := base.toNat_lt
  simp only [UInt16.toNat_sub, UInt16.toNat_add]
  omega

theorem channelPort_base (base control : UInt16) : ChannelPort base control base := by
  left
  have bound := base.toNat_lt
  simp only [UInt16.toNat_sub]
  omega

theorem registerPort_channelPort (ch : IdeChannel) {reg : UInt8} (h : reg ≤ 0x0C) :
    ∃ port, registerPort ch reg = some port ∧ ChannelPort ch.base ch.control port := by
  have bound := ch.base.toNat_lt
  rw [UInt8.le_iff_toNat_le] at h
  change reg.toNat ≤ 12 at h
  have wide : reg.toUInt16.toNat = reg.toNat := UInt8.toNat_toUInt16 reg
  by_cases low : reg < 0x08
  · have small : reg.toNat < 8 := UInt8.lt_iff_toNat_lt.mp low
    exact ⟨_, registerPort_low ch low, channelPort_offset _ _ (by omega)⟩
  · have large : 8 ≤ reg.toNat := Nat.le_of_not_lt fun lt => low (UInt8.lt_iff_toNat_lt.mpr lt)
    by_cases mid : reg < 0x0C
    · have below : reg.toNat < 12 := UInt8.lt_iff_toNat_lt.mp mid
      refine ⟨ch.base + reg.toUInt16 - 0x06, by simp only [registerPort, if_neg low, if_pos mid],
        Or.inl ?_⟩
      simp only [UInt16.toNat_sub, UInt16.toNat_add, wide]
      change (2 ^ 16 - ch.base.toNat +
        (2 ^ 16 - 6 + (ch.base.toNat + reg.toNat) % 2 ^ 16) % 2 ^ 16) % 2 ^ 16 < 8
      omega
    · have top : reg = ataRegControl := by
        apply UInt8.toNat_inj.mp
        change reg.toNat = 12
        have above : 12 ≤ reg.toNat :=
          Nat.le_of_not_lt fun lt => mid (UInt8.lt_iff_toNat_lt.mpr lt)
        omega
      subst top
      exact ⟨_, registerPort_control ch, Or.inr rfl⟩

theorem registerWrites_channelPort (ch : IdeChannel) {reg : UInt8} (h : reg ≤ 0x0C)
    (data : UInt8) : ∀ w ∈ registerWrites ch reg data, ChannelPort ch.base ch.control w.1 := by
  have one : ∀ {r : UInt8} (v : UInt8), r ≤ 0x0C →
      ∀ w ∈ ((registerPort ch r).toList).map (fun port => (port, v)),
        ChannelPort ch.base ch.control w.1 := by
    intro r v hr w member
    obtain ⟨port, found, ok⟩ := registerPort_channelPort ch hr
    rw [found] at member
    simp only [Option.toList_some, List.map_cons, List.map_nil, List.mem_singleton] at member
    rw [member]
    exact ok
  unfold registerWrites
  split
  · intro w member
    simp only [List.mem_append] at member
    rcases member with (left | mid) | right
    · exact one _ (by decide) w left
    · exact one _ h w mid
    · exact one _ (by decide) w right
  · exact one data h

theorem commandWrites_channelPort (ch : IdeChannel) (device : IdeDevice) (direction : Direction)
    (lba : UInt32) (numSectors : UInt8) :
    ∀ w ∈ commandWrites ch device direction lba numSectors,
      ChannelPort ch.base ch.control w.1 := by
  intro w member
  rcases List.mem_append.mp member with parameter | command
  · obtain ⟨reg, v, kind, written⟩ := mem_parameterWrites parameter
    refine registerWrites_channelPort ch ?_ v w written
    rcases kind with low | high
    · exact UInt8.le_trans (UInt8.le_of_lt low) (by decide)
    · exact UInt8.le_of_lt (shadowed_bounds high).2
  · exact registerWrites_channelPort ch (by decide) _ w command

section OnChannel

variable {σ : Type}

/-- One step of the driver seen from channel `ch`. -/
def OnChannel (ch : Nat) (base control : UInt16) (s t : IdeState σ) : Prop :=
  (s.channels ch).base = base → (s.channels ch).control = control →
    (∃ tr, t.log = s.log ++ tr ∧ ∀ a ∈ tr, ChannelPort base control a.port) ∧
      (∀ i, (t.channels i).base = (s.channels i).base ∧
        (t.channels i).control = (s.channels i).control) ∧ t.devices = s.devices

variable {ch : Nat} {base control : UInt16}

theorem OnChannel.refl (s : IdeState σ) : OnChannel ch base control s s :=
  fun _ _ => ⟨⟨[], by simp, by simp⟩, fun _ => ⟨rfl, rfl⟩, rfl⟩

theorem OnChannel.trans {s t u : IdeState σ} (first : OnChannel ch base control s t)
    (second : OnChannel ch base control t u) : OnChannel ch base control s u := by
  intro hb hc
  obtain ⟨⟨tr, log, ports⟩, same, devices⟩ := first hb hc
  obtain ⟨⟨ur, log', ports'⟩, same', devices'⟩ :=
    second ((same ch).1.trans hb) ((same ch).2.trans hc)
  refine ⟨⟨tr ++ ur, by rw [log', log, List.append_assoc], ?_⟩, ?_, devices'.trans devices⟩
  · intro a member
    rcases List.mem_append.mp member with left | right
    · exact ports a left
    · exact ports' a right
  · exact fun i => ⟨(same' i).1.trans (same i).1, (same' i).2.trans (same i).2⟩

instance : IsPreorder (IdeState σ) (OnChannel ch base control) where
  refl := OnChannel.refl
  trans _ _ _ := OnChannel.trans

theorem onChannel_after {s : IdeState σ} {b : σ} {tr : List Access}
    (ports : ∀ a ∈ tr, ChannelPort base control a.port) :
    OnChannel ch base control s (s.after b tr) :=
  fun _ _ => ⟨⟨tr, rfl, ports⟩, fun _ => ⟨rfl, rfl⟩, rfl⟩

variable (hw : Bus σ) {channel : UInt8}

theorem onChannel_write {reg : UInt8} (h : reg ≤ 0x0C) (data : UInt8) (s : IdeState σ) :
    OnChannel channel.toNat base control s (ideWriteRegister hw channel reg data s) := by
  intro hb hc
  rw [ideWriteRegister_after]
  refine onChannel_after ?_ hb hc
  intro a member
  obtain ⟨w, written, rfl⟩ := List.mem_map.mp member
  rw [← hb, ← hc]
  exact registerWrites_channelPort _ h data w written

theorem onChannel_read {reg : UInt8} (low : reg < 0x08) (s : IdeState σ) :
    OnChannel channel.toNat base control s (ideReadRegister hw channel reg s).2 := by
  intro hb hc
  rw [ideReadRegister_low hw channel reg low s rfl, hb]
  refine onChannel_after ?_ hb hc
  intro a member
  rw [List.mem_singleton.mp member]
  refine channelPort_offset base control ?_
  rw [UInt8.toNat_toUInt16]
  exact UInt8.lt_iff_toNat_lt.mp low

theorem onChannel_delay (n : Nat) (s : IdeState σ) :
    OnChannel channel.toNat base control s (altStatusDelay hw channel n s) := by
  intro hb hc
  rw [altStatusDelay_eq hw channel n s rfl, hc]
  refine onChannel_after ?_ hb hc
  intro a member
  obtain ⟨v, _, rfl⟩ := List.mem_map.mp member
  exact Or.inr rfl

theorem onChannel_wait (fuel : Nat) :
    Keeps (OnChannel channel.toNat base control) (waitWhileBusy hw channel fuel) := by
  induction fuel with
  | zero => exact Keeps.stop
  | succ fuel ih =>
      refine Keeps.bind (Keeps.act (onChannel_read hw (by decide))) ?_
      intro status
      split
      · exact ih
      · exact Keeps.pure ()

theorem onChannel_polling (fuel : Nat) (advancedCheck : UInt8) :
    Keeps (OnChannel channel.toNat base control) (idePolling hw fuel channel advancedCheck) := by
  apply Keeps.bind (Keeps.modify (onChannel_delay hw 4))
  intro _
  apply Keeps.bind (onChannel_wait hw fuel)
  intro _
  split
  · exact Keeps.bind (Keeps.act (onChannel_read hw (by decide)))
      fun _ => Keeps.pure _
  · exact Keeps.pure _

theorem onChannel_insw (n : Nat) (dst : UInt32) (s : IdeState σ) :
    OnChannel ch base control s (s.onMachine (repInsw hw base n dst)) := by
  intro hb hc
  rw [onMachine_repInsw]
  refine ⟨⟨_, rfl, ?_⟩, fun _ => ⟨rfl, rfl⟩, rfl⟩
  intro a member
  obtain ⟨w, _, rfl⟩ := List.mem_map.mp member
  exact channelPort_base base control

theorem onChannel_outsw (n : Nat) (src : UInt32) (s : IdeState σ) :
    OnChannel ch base control s (s.onMachine (repOutsw hw base n src)) := by
  rw [onMachine_repOutsw]
  refine onChannel_after ?_
  intro a member
  obtain ⟨w, _, rfl⟩ := List.mem_map.mp member
  exact channelPort_base base control

theorem onChannel_pioRead (fuel n : Nat) (buffer : UInt32) :
    Keeps (OnChannel channel.toNat base control) (idePioRead hw fuel channel base n buffer) := by
  induction n generalizing buffer with
  | zero => exact Keeps.pure 0
  | succ n ih =>
      apply Keeps.bind (onChannel_polling hw fuel 1)
      intro err
      split
      · exact Keeps.pure err
      · exact Keeps.bind (Keeps.modify (onChannel_insw hw 256 buffer))
          fun _ => ih (buffer + 512)

theorem onChannel_pioWrite (fuel n : Nat) (buffer : UInt32) :
    Keeps (OnChannel channel.toNat base control) (idePioWrite hw fuel channel base n buffer) := by
  induction n generalizing buffer with
  | zero => exact Keeps.pure ()
  | succ n ih =>
      apply Keeps.bind (onChannel_polling hw fuel 0)
      intro _
      exact Keeps.bind (Keeps.modify (onChannel_outsw hw 256 buffer))
        fun _ => ih (buffer + 512)

theorem onChannel_transfer (fuel : Nat) (direction : Direction) (mode : LbaMode)
    (numSectors : UInt8) (buffer : UInt32) :
    Keeps (OnChannel channel.toNat base control)
      (ideTransfer hw fuel direction channel base mode numSectors buffer) := by
  cases direction with
  | read => exact onChannel_pioRead hw fuel _ buffer
  | write =>
      apply Keeps.bind (onChannel_pioWrite hw fuel _ buffer)
      intro _
      refine Keeps.bind
        (Keeps.modify (onChannel_write hw (by decide) (cacheFlushCommand mode))) fun _ => ?_
      exact Keeps.bind (onChannel_polling hw fuel 0)
        fun _ => Keeps.pure 0

theorem onChannel_readBuffer {reg : UInt8} (low : reg < 0x08) (quads : Nat) (s : IdeState σ) :
    OnChannel channel.toNat base control s (ideReadBuffer hw channel reg quads s).2 := by
  intro hb hc
  have port := registerPort_low (s.channels channel.toNat) low
  obtain ⟨_, log⟩ := insl_frame hw ((s.channels channel.toNat).base + reg.toUInt16) quads
    s.toMachine
  have run : (ideReadBuffer hw channel reg quads s).2 =
      { s with toMachine :=
          (insl hw ((s.channels channel.toNat).base + reg.toUInt16) quads s.toMachine).2 } := by
    simp only [ideReadBuffer, shadowed_low low, Bool.false_eq_true, if_false, port]
  rw [run]
  refine ⟨⟨_, log, ?_⟩, fun _ => ⟨rfl, rfl⟩, rfl⟩
  intro a member
  obtain ⟨w, _, rfl⟩ := List.mem_map.mp member
  rw [← hb]
  refine channelPort_offset _ control ?_
  rw [UInt8.toNat_toUInt16]
  exact UInt8.lt_iff_toNat_lt.mp low

/-- An access stays on the channel of its device. -/
theorem onChannel_access (fuel : Nat) (direction : Direction) (drive : UInt8) (lba : UInt32)
    (numSectors : UInt8) (buffer : UInt32) (s : IdeState σ) {device : IdeDevice}
    (found : s.devices drive.toNat = device) :
    OnChannel device.channel.toNat base control s
      ((ideAtaAccess hw fuel direction drive lba numSectors buffer).run s).2 := by
  intro hb hc
  subst hb hc
  set ch := s.channels device.channel.toNat with here
  have waiting : ∀ reads : List UInt8,
      ∀ a ∈ Access.outb (ch.control + 2) 2 :: reads.map (Access.inb (ch.base + 7)),
        ChannelPort ch.base ch.control a.port := by
    intro reads a member
    rcases List.mem_cons.mp member with rfl | read
    · exact Or.inr rfl
    · obtain ⟨v, _, rfl⟩ := List.mem_map.mp read
      exact channelPort_offset ch.base ch.control (by decide)
  have command := commandWrites_channelPort { ch with noIntr := 2 } device direction lba numSectors
  obtain ⟨reads, t, channels, devices, _, ⟨run, log⟩ | ⟨run, log⟩⟩ :=
    ideAtaAccess_cases hw fuel direction drive lba numSectors buffer s found here.symm
  all_goals
    have kept : ∀ i, (t.channels i).base = (s.channels i).base ∧
        (t.channels i).control = (s.channels i).control := by
      intro i
      rw [channels]
      exact ⟨maskInterrupts_base _ s i, maskInterrupts_control _ s i⟩
  · rw [run]
    exact ⟨⟨_, log, waiting reads⟩, kept, devices⟩
  · have before : OnChannel device.channel.toNat ch.base ch.control s t := by
      refine fun _ _ => ⟨⟨_, log, ?_⟩, kept, devices⟩
      intro a member
      rcases List.mem_append.mp member with wait | sent
      · exact waiting reads a wait
      · obtain ⟨w, written, rfl⟩ := List.mem_map.mp sent
        exact command w written
    rw [run]
    exact before.trans (onChannel_transfer hw fuel direction _ numSectors buffer t) rfl rfl

end OnChannel

end VDK
