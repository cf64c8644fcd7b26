import VDK.IdePorts
import VDK.SectorRuns

/-!
# The ports of a whole run

A run is `ata_init` followed by any sector requests. It stays within the two
command blocks and the ports 0x3F8 and 0x378: the control base handed to
`ide_init` is already the control port, and register 0x0C adds two to it.
-/
namespace VDK
open Fuel ByteMem

/-- The command blocks and control ports of the two channels. -/
def AtaPort (port : UInt16) : Prop :=
  (port - 0x1F0).toNat < 8 ∨ (port - 0x170).toNat < 8 ∨ port = 0x3F6 ∨ port = 0x376

/-- The ports the driver does use. -/
def DriverPort (port : UInt16) : Prop :=
  (port - 0x1F0).toNat < 8 ∨ (port - 0x170).toNat < 8 ∨ port = 0x3F8 ∨ port = 0x378

instance (port : UInt16) : Decidable (AtaPort port) := by
  unfold AtaPort
  infer_instance

section Confinement

variable {σ : Type}

/-- The two channels as `ata_init` sets them, and the first `n` devices on one of the two. -/
structure Sound (n : Nat) (s : IdeState σ) : Prop where
  primary : (s.channels 0).base = 0x1F0 ∧ (s.channels 0).control = 0x3F6
  secondary : (s.channels 1).base = 0x170 ∧ (s.channels 1).control = 0x376
  position : ∀ i, i < n → (s.devices i).channel ≤ 1

/-- Accesses are only added, and from a sound state they are to the driver's ports if the
condition `ok` on the requests holds. -/
def Confined (n : Nat) (ok : Prop) (s t : IdeState σ) : Prop :=
  ∃ tr, t.log = s.log ++ tr ∧ (ok → Sound n s → (∀ a ∈ tr, DriverPort a.port) ∧ Sound n t)

variable {n : Nat} {ok : Prop}

theorem Confined.refl (s : IdeState σ) : Confined n ok s s :=
  ⟨[], by simp, fun _ sound => ⟨by simp, sound⟩⟩

theorem Confined.trans {s t u : IdeState σ} (first : Confined n ok s t)
    (second : Confined n ok t u) : Confined n ok s u := by
  obtain ⟨tr, log, ports⟩ := first
  obtain ⟨ur, log', ports'⟩ := second
  refine ⟨tr ++ ur, by rw [log', log, List.append_assoc], fun holds sound => ?_⟩
  obtain ⟨early, middle⟩ := ports holds sound
  obtain ⟨late, last⟩ := ports' holds middle
  refine ⟨fun a member => ?_, last⟩
  rcases List.mem_append.mp member with left | right
  · exact early a left
  · exact late a right

instance : IsPreorder (IdeState σ) (Confined n ok) where
  refl := Confined.refl
  trans _ _ _ := Confined.trans

theorem Sound.driverPort {s : IdeState σ} (sound : Sound n s) {channel : UInt8} (h : channel ≤ 1)
    {port : UInt16}
    (own : ChannelPort (s.channels channel.toNat).base (s.channels channel.toNat).control port) :
    DriverPort port := by
  have index : channel.toNat = 0 ∨ channel.toNat = 1 := by
    have bound : channel.toNat ≤ 1 := UInt8.le_iff_toNat_le.mp h
    omega
  rcases index with zero | one
  · rw [zero, sound.primary.1, sound.primary.2] at own
    rcases own with block | control
    · exact Or.inl block
    · exact Or.inr (Or.inr (Or.inl control))
  · rw [one, sound.secondary.1, sound.secondary.2] at own
    rcases own with block | control
    · exact Or.inr (Or.inl block)
    · exact Or.inr (Or.inr (Or.inr control))

/-- A step on one channel is confined when that channel is 0 or 1. -/
theorem Confined.of_onChannel {s t : IdeState σ} (channel : UInt8)
    (step : ∀ base control, OnChannel channel.toNat base control s t)
    (within : ok → Sound n s → channel ≤ 1) : Confined n ok s t := by
  obtain ⟨⟨tr, log, ports⟩, same, devices⟩ := step _ _ rfl rfl
  refine ⟨tr, log, fun holds sound =>
    ⟨fun a member => sound.driverPort (within holds sound) (ports a member), ?_⟩⟩
  refine ⟨?_, ?_, by rw [devices]; exact sound.position⟩
  · rw [(same 0).1, (same 0).2]
    exact sound.primary
  · rw [(same 1).1, (same 1).2]
    exact sound.secondary

/-- Steps that touch neither the log nor the tables. -/
theorem Confined.of_same {s t : IdeState σ} (log : t.log = s.log) (channels : t.channels = s.channels)
    (position : ok → Sound n s → ∀ i, i < n → (t.devices i).channel ≤ 1) :
    Confined n ok s t := by
  refine ⟨[], by rw [log, List.append_nil], fun holds sound => ⟨by simp, ?_⟩⟩
  refine ⟨?_, ?_, position holds sound⟩
  · rw [channels]
    exact sound.primary
  · rw [channels]
    exact sound.secondary

variable (hw : Bus σ)

theorem confined_printError (drive err : UInt8) (index : ok → drive.toNat < n)
    (s : IdeState σ) : Confined n ok s (idePrintError hw drive err s).2 := by
  refine Confined.of_onChannel (s.devices drive.toNat).channel ?_
    fun holds sound => sound.position _ (index holds)
  rintro base control rfl rfl
  obtain ⟨b, tr, calls, e, reads⟩ := idePrintError_reports hw drive err s
  rw [e]
  refine ⟨⟨tr, rfl, ?_⟩, fun _ => ⟨rfl, rfl⟩, rfl⟩
  intro a member
  obtain ⟨v, rfl⟩ := reads a member
  exact channelPort_offset _ _ (by decide)

/-- A call of a sector function; `err` is its unassigned local. -/
structure SectorRequest where
  direction : Direction
  err : UInt8
  drive : UInt8
  numSectors : UInt8
  lba : UInt32
  buffer : UInt32

def serve (fuel : Nat) : List SectorRequest → Exec (IdeState σ) Unit
  | [] => pure ()
  | r :: rest => do
      let _ ← ideSectors hw fuel r.direction r.err r.drive r.numSectors r.lba r.buffer
      serve fuel rest

/-- The drive is one of the first `n` devices, or a number that the sector functions refuse. -/
def SectorRequest.Listed (n : Nat) (r : SectorRequest) : Prop :=
  r.drive.toNat < n ∨ maximumIdeDevices < r.drive.toNat

theorem confined_sectors (fuel : Nat) (r : SectorRequest) (listed : ok → r.Listed n) :
    Keeps (Confined n ok)
      (ideSectors hw fuel r.direction r.err r.drive r.numSectors r.lba r.buffer) := by
  intro s
  by_cases passed : sectorCheck s.devices r.drive r.numSectors r.lba = .passed
  · have index : ok → r.drive.toNat < n := fun holds =>
      (listed holds).resolve_right (Nat.not_lt.mpr
        (UInt8.le_iff_toNat_le.mp ((sectorCheck_passed _ _ _ _).mp passed).1))
    by_cases ata : (s.devices r.drive.toNat).type = ideAta
    · have access := Confined.of_onChannel (s.devices r.drive.toNat).channel
        (fun _ _ => onChannel_access hw fuel r.direction r.drive r.lba r.numSectors r.buffer s rfl)
        fun holds sound => sound.position _ (index holds)
      rw [ideSectors_ata hw fuel r.direction passed ata]
      rcases h : (ideAtaAccess hw fuel r.direction r.drive r.lba r.numSectors r.buffer).run s
        with ⟨e | e, t⟩
      · rw [h] at access
        exact access
      · rw [h] at access
        exact access.trans (confined_printError hw r.drive e index t)
    · rw [ideSectors_other hw fuel r.direction passed ata]
      exact confined_printError hw r.drive r.err index s
  · obtain ⟨code, calls, _, e⟩ := ideSectors_refused hw r.direction passed
    rw [e]
    exact Confined.of_same rfl rfl fun _ sound => sound.position

theorem confined_serve (fuel : Nat) {requests : List SectorRequest}
    (listed : ok → ∀ r ∈ requests, r.Listed n) :
    Keeps (Confined n ok) (serve hw fuel requests) := by
  induction requests with
  | nil => exact Keeps.pure ()
  | cons r rest ih =>
      refine Keeps.bind (confined_sectors hw fuel r fun holds => listed holds r List.mem_cons_self) ?_
      exact fun _ => ih fun holds q member => listed holds q (List.mem_cons_of_mem r member)

/-- Device entries may change as long as they stay on a channel. -/
theorem confined_setDevice (count : Nat) (d : IdeDevice) (s : IdeState σ)
    (own : Sound n s → count < n → d.channel ≤ 1) :
    Confined n ok s (setDevice count d s) := by
  refine Confined.of_same rfl rfl fun _ sound i hi => ?_
  by_cases here : i = count
  · subst here
    simpa [setDevice] using own sound hi
  · simp only [setDevice, Function.update_of_ne here]
    exact sound.position i hi

section Init

variable {channel : UInt8} (within : channel ≤ 1)

include within

theorem confined_write {reg : UInt8} (h : reg ≤ 0x0C) (data : UInt8) (s : IdeState σ) :
    Confined n ok s (ideWriteRegister hw channel reg data s) :=
  Confined.of_onChannel channel (fun _ _ => onChannel_write hw h data s) fun _ _ => within

theorem confined_read {reg : UInt8} (low : reg < 0x08) (s : IdeState σ) :
    Confined n ok s (ideReadRegister hw channel reg s).2 :=
  Confined.of_onChannel channel (fun _ _ => onChannel_read hw low s) fun _ _ => within

theorem confined_awaitIdentify (fuel : Nat) : Keeps (Confined n ok) (awaitIdentify hw channel fuel) := by
  induction fuel with
  | zero => exact Keeps.stop
  | succ fuel ih =>
      apply Keeps.bind (Keeps.act (confined_read hw within (by decide)))
      intro status
      split
      · exact Keeps.pure true
      split
      · exact Keeps.pure false
      · exact ih

theorem confined_recordDevice (drive : UInt8) (type : UInt16) (count : Nat) :
    Keeps (Confined n ok) (recordDevice hw channel drive type count) := by
  refine Keeps.bind (Keeps.act fun s => ?_) fun quads => ?_
  · exact Confined.of_onChannel channel
      (fun _ _ => onChannel_readBuffer hw (by decide) 128 s) fun _ _ => within
  · refine Keeps.bind (Keeps.modify fun s => ?_) fun _ => Keeps.pure _
    exact confined_setDevice count _ s fun _ _ => within

theorem confined_probePosition (fuel : Nat) (drive : UInt8) (count : Nat) :
    Keeps (Confined n ok) (probePosition hw fuel channel drive count) := by
  refine Keeps.bind (Keeps.modify fun s => ?_) fun _ => ?_
  · exact confined_setDevice count _ s fun sound => sound.position count
  apply Keeps.bind (Keeps.modify (confined_write hw within (by decide) _))
  intro _
  apply Keeps.bind (Keeps.modify (confined_write hw within (by decide) _))
  intro _
  apply Keeps.bind (Keeps.act (confined_read hw within (by decide)))
  intro status
  split
  · exact Keeps.pure count
  apply Keeps.bind (confined_awaitIdentify hw within fuel)
  intro err
  split
  · apply Keeps.bind (Keeps.act (confined_read hw within (by decide)))
    intro cl
    apply Keeps.bind (Keeps.act (confined_read hw within (by decide)))
    intro ch
    split
    · exact Keeps.bind (Keeps.modify (confined_write hw within (by decide) _))
        fun _ => confined_recordDevice hw within drive ideAtapi count
    · exact Keeps.pure count
  · exact confined_recordDevice hw within drive ideAta count

end Init

theorem confined_probeAll (fuel : Nat) (positions : List (UInt8 × UInt8))
    (within : ∀ p ∈ positions, p.1 ≤ 1) (count : Nat) :
    Keeps (Confined n ok) (probeAll hw fuel positions count) := by
  induction positions generalizing count with
  | nil => exact Keeps.pure count
  | cons p positions ih =>
      refine Keeps.bind (confined_probePosition hw (within p List.mem_cons_self) fuel p.2 count) ?_
      exact fun next => ih (fun q hq => within q (List.mem_cons_of_mem p hq)) next

theorem confined_printSummary (slots : List Nat) (s : IdeState σ) :
    Confined n ok s (printSummary slots s) := by
  have same : (printSummary slots s).log = s.log ∧ (printSummary slots s).channels = s.channels ∧
      (printSummary slots s).devices = s.devices := by
    induction slots generalizing s with
    | nil => exact ⟨rfl, rfl, rfl⟩
    | cons i slots ih =>
        obtain ⟨log, channels, devices⟩ := ih (if (s.devices i).reserved = 1 then _ else s)
        rw [printSummary, log, channels, devices]
        split <;> exact ⟨rfl, rfl, rfl⟩
  exact Confined.of_same same.1 same.2.1 fun _ sound => by
    rw [same.2.2]
    exact sound.position

/-- `ata_init` and then any requests. -/
def driverRun (fuel : Nat) (requests : List SectorRequest) : Exec (IdeState σ) Unit := do
  ataInit hw fuel
  serve hw fuel requests

/-- Every run leaves the ATA ports, with its first access. With devices on the two channels it
goes no further than the two ports behind the control bases; a drive number behind the table
counts as a device. -/
theorem driverRun_leaves_ata_ports (fuel : Nat) (requests : List SectorRequest)
    (s : IdeState σ) :
    ∃ tr, ((driverRun hw fuel requests).run s).2.log = s.log ++ tr ∧
      ¬ (∀ a ∈ tr, AtaPort a.port) ∧
      ∀ n, (∀ i, i < n → (s.devices i).channel ≤ 1) → (∀ r ∈ requests, r.Listed n) →
        ∀ a ∈ tr, DriverPort a.port := by
  set t := assignChannels 0x1F0 0x3F6 0x170 0x376 0x000 s with assigned
  have first : (ideWriteRegister hw 0 ataRegControl 2 t).log = s.log ++ [.outb 0x3F8 2] := by
    rw [ideWriteRegister_after, registerWrites_control]
    rfl
  have later : ∀ n, Keeps (Confined n (∀ r ∈ requests, r.Listed n)) (do
      Exec.modify (ideWriteRegister hw 1 ataRegControl 2)
      let _ ← probeAll hw fuel scanPositions 0
      Exec.modify (printSummary (List.range 4))
      serve hw fuel requests) := by
    intro n
    apply Keeps.bind (Keeps.modify (confined_write hw (by decide) (by decide) 2))
    intro _
    apply Keeps.bind (confined_probeAll hw fuel scanPositions (by simp [scanPositions]) 0)
    intro _
    apply Keeps.bind (Keeps.modify (confined_printSummary _))
    intro _
    exact confined_serve hw fuel id
  have run : (driverRun hw fuel requests).run s = Exec.run (do
      Exec.modify (ideWriteRegister hw 1 ataRegControl 2)
      let _ ← probeAll hw fuel scanPositions 0
      Exec.modify (printSummary (List.range 4))
      serve hw fuel requests) (ideWriteRegister hw 0 ataRegControl 2 t) := by
    simp only [driverRun, ataInit, ideInit, bind_assoc]
    rfl
  obtain ⟨tr, log, _⟩ := later 0 (ideWriteRegister hw 0 ataRegControl 2 t)
  refine ⟨.outb 0x3F8 2 :: tr, ?_, ?_, ?_⟩
  · rw [run, log, first, List.append_assoc]
    rfl
  · intro all
    exact absurd (all _ List.mem_cons_self) (by decide)
  · intro n position listed a member
    have sound : Sound n (ideWriteRegister hw 0 ataRegControl 2 t) := by
      rw [ideWriteRegister_after]
      exact ⟨⟨rfl, rfl⟩, ⟨rfl, rfl⟩, position⟩
    obtain ⟨ur, log', ports⟩ := later n (ideWriteRegister hw 0 ataRegControl 2 t)
    have same : tr = ur := List.append_cancel_left (log.symm.trans log')
    rcases List.mem_cons.mp member with rfl | rest
    · exact Or.inr (Or.inr (Or.inl rfl))
    · exact (ports listed sound).1 a (same ▸ rest)

theorem ataInit_writes_com1 :
    ((driverRun (steadyBus 0x00) 1 []).run (foundState () noDevice)).2.log.head? =
        some (.outb 0x3F8 2) ∧
      ¬ ∀ a ∈ ((driverRun (steadyBus 0x00) 1 []).run (foundState () noDevice)).2.log,
        AtaPort a.port :=
  ⟨rfl, fun all => absurd (all (.outb 0x3F8 2) List.mem_cons_self) (by decide)⟩

/-- The same holds of every single access, whatever the drive answers. -/
theorem ideAtaAccess_leaves_ata_ports (fuel : Nat) (direction : Direction) (drive : UInt8)
    (lba : UInt32) (numSectors : UInt8) (buffer : UInt32) {s : IdeState σ} (sound : Sound n s)
    (within : (s.devices drive.toNat).channel ≤ 1) :
    ∃ tr, ((ideAtaAccess hw fuel direction drive lba numSectors buffer).run s).2.log =
        s.log ++ tr ∧ ¬ ∀ a ∈ tr, AtaPort a.port := by
  set ch := s.channels (s.devices drive.toNat).channel.toNat with here
  have outside : ¬ AtaPort (ch.control + 2) := by
    have index : (s.devices drive.toNat).channel.toNat = 0 ∨
        (s.devices drive.toNat).channel.toNat = 1 := by
      have bound : (s.devices drive.toNat).channel.toNat ≤ 1 := UInt8.le_iff_toNat_le.mp within
      omega
    rcases index with zero | one
    · rw [here, zero, sound.primary.2]
      decide
    · rw [here, one, sound.secondary.2]
      decide
  obtain ⟨reads, t, channels, _, _, ⟨run, log⟩ | ⟨run, log⟩⟩ :=
    ideAtaAccess_cases hw fuel direction drive lba numSectors buffer s rfl here.symm
  · refine ⟨_, by rw [run, log], fun all => ?_⟩
    exact outside (all (.outb (ch.control + 2) 2) List.mem_cons_self)
  · obtain ⟨⟨rest, grown, _⟩, _⟩ := onChannel_transfer hw fuel direction _ numSectors buffer t
      (by rw [channels, maskInterrupts_base]) rfl
    refine ⟨_, by rw [run, grown, log, List.append_assoc], fun all => ?_⟩
    exact outside (all (.outb (ch.control + 2) 2) (by simp))

end Confinement

end VDK
