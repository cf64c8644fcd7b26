import VDK.ReadBlocks

/-!
# The range the drive is told to move

The start of a transfer command is always the sector asked for. Its count and its address
space are those of the request only when the request is not empty and, below the 28-bit
boundary, does not run past it.
-/
namespace VDK
open Fuel ByteMem

section Ready

variable {σ : Type} (hw : Bus σ)

/-- Every status byte is the one of a drive that is ready for the next block. -/
structure AlwaysReady (port : UInt16) : Prop where
  quiet : ∀ b, Quiet (hw.inb port b).1
  ready : ∀ b, Ready (hw.inb port b).1

variable {hw} {port : UInt16} (drive : AlwaysReady hw port)

include drive

theorem AlwaysReady.busyReads (fuel : Nat) (b : σ) : (busyReads hw port (fuel + 1) b).1 = true := by
  have quiet : ¬ (hw.inb port b).1 &&& ataSrBsy ≠ 0 := not_not.mpr (drive.quiet b)
  rw [VDK.busyReads]
  dsimp only
  rw [if_neg quiet]

variable {channel : UInt8}

theorem AlwaysReady.polling (fuel : Nat) (advancedCheck : UInt8)
    (kind : advancedCheck = 0 ∨ advancedCheck = 1) {s : IdeState σ}
    (here : (s.channels channel.toNat).base + 7 = port) :
    Returns (idePolling hw (fuel + 1) channel advancedCheck) s fun err t =>
      err = 0 ∧ t.channels = s.channels := by
  have ended : (pollReads hw port ((s.channels channel.toNat).control + 2) (fuel + 1) s.bus).1 = true :=
    drive.busyReads fuel _
  rcases kind with rfl | rfl
  · exact ⟨_, _, idePolling_plain hw here rfl ended, rfl, rfl⟩
  · exact ⟨_, _, idePolling_checked hw here rfl ended,
      (statusError_zero_iff _).mpr (drive.ready _), rfl⟩

theorem AlwaysReady.pioRead (fuel : Nat) (data : UInt16) (n : Nat) (buffer : UInt32)
    {s : IdeState σ} (here : (s.channels channel.toNat).base + 7 = port) :
    Returns (idePioRead hw (fuel + 1) channel data n buffer) s fun err _ => err = 0 := by
  induction n generalizing buffer s with
  | zero => exact Returns.pure rfl
  | succ n ih =>
      refine (drive.polling fuel 1 (Or.inr rfl) here).bind ?_
      rintro err t ⟨rfl, same⟩
      rw [if_neg (not_not.mpr rfl)]
      refine Returns.modify (ih (buffer + 512) ?_)
      rw [onMachine_channels, same]
      exact here

theorem AlwaysReady.pioWrite (fuel : Nat) (data : UInt16) (n : Nat) (buffer : UInt32)
    {s : IdeState σ} (here : (s.channels channel.toNat).base + 7 = port) :
    Returns (idePioWrite hw (fuel + 1) channel data n buffer) s fun _ t =>
      t.channels = s.channels := by
  induction n generalizing buffer s with
  | zero => exact Returns.pure rfl
  | succ n ih =>
      refine (drive.polling fuel 0 (Or.inl rfl) here).bind ?_
      rintro err t ⟨_, same⟩
      refine Returns.modify ((ih (buffer + 512) ?_).mono fun _ u kept => ?_)
      · rw [onMachine_channels, same]
        exact here
      · rw [kept, onMachine_channels, same]

theorem AlwaysReady.transfer (fuel : Nat) (direction : Direction) (data : UInt16) (mode : LbaMode)
    (numSectors : UInt8) (buffer : UInt32) {s : IdeState σ}
    (here : (s.channels channel.toNat).base + 7 = port) :
    Returns (ideTransfer hw (fuel + 1) direction channel data mode numSectors buffer) s
      fun err _ => err = 0 := by
  cases direction with
  | read => exact drive.pioRead fuel data _ buffer here
  | write =>
      refine (drive.pioWrite fuel data _ buffer here).bind ?_
      intro _ t same
      refine Returns.modify ?_
      have flushed : ((ideWriteRegister hw channel ataRegCommand (cacheFlushCommand mode)
          t).channels channel.toNat).base + 7 = port := by
        rw [ideWriteRegister_after, IdeState.after_channels, same]
        exact here
      exact (drive.polling fuel 0 (Or.inl rfl) flushed).bind fun _ _ _ => Returns.pure rfl

theorem AlwaysReady.sectors (fuel : Nat) (direction : Direction) (err : UInt8)
    {index numSectors : UInt8} {lba : UInt32} (buffer : UInt32) {s : IdeState σ}
    (passed : sectorCheck s.devices index numSectors lba = .passed)
    (ata : (s.devices index.toNat).type = ideAta)
    (here : (s.channels (s.devices index.toNat).channel.toNat).base + 7 = port) :
    ((ideSectors hw (fuel + 1) direction err index numSectors lba buffer).run s).1 = some 0 := by
  have run := ideAtaAccess_waited hw (fuel + 1) direction index lba numSectors buffer s rfl rfl
  have ended : (firstWait hw (s.channels (s.devices index.toNat).channel.toNat) (fuel + 1) s.bus).1 =
      true := by
    rw [firstWait, here]
    exact drive.busyReads fuel _
  rw [ended, if_pos rfl] at run
  have own := waited_channel hw (s.devices index.toNat) (fuel + 1) s rfl
  obtain ⟨code, t, moved, rfl⟩ := drive.transfer fuel direction
    (s.channels (s.devices index.toNat).channel.toNat).base
    (ideSelectMode (s.devices index.toNat).features lba).mode numSectors buffer
    (s := commanded hw (s.devices index.toNat) direction lba numSectors
      (waited hw (s.devices index.toNat) (s.channels (s.devices index.toNat).channel.toNat)
        (fuel + 1) s))
    (by rw [commanded, IdeState.after_channels, own]; exact here)
  rw [ideSectors_ata hw (fuel + 1) direction passed ata, run, moved, Exec.andThen_some]
  dsimp only
  rw [idePrintError_none]
  rfl

end Ready

section Range

variable {σ : Type} (hw : Bus σ)

/-- What the drive is told to move, read by ATA's rules, is the request: the count,
the blocks of a transfer that succeeded, and every sector in the command's space. -/
structure CommandsRequest (base : UInt16) (f : TaskFile) (tr : List Access) (lba numSectors : Nat)
    (result : Option Int) : Prop where
  count : ∀ command file, (f.commandsSent base tr).head? = some (command, file) →
    file.count command = numSectors
  blocks : result = some 0 → dataWords base tr = 256 * numSectors
  space : ∀ command file, (f.commandsSent base tr).head? = some (command, file) →
    ∀ k, k < numSectors → lba + k < TaskFile.space command

/-- Count and address space of the command chosen, for a drive that supports LBA. -/
theorem commanded_exactly (device : IdeDevice) (direction : Direction) (lba : UInt32)
    (numSectors : UInt8) (f : TaskFile) (linear : device.features &&& 0x200 ≠ 0) {command : UInt8}
    (sent : command = ideCommand (ideSelectMode device.features lba).mode direction) :
    ((fileAfter device.drive numSectors (ideSelectMode device.features lba) f).count command =
          numSectors.toNat ∧
        ∀ k, k < numSectors.toNat → lba.toNat + k < TaskFile.space command) ↔
      numSectors ≠ 0 ∧ (2 ^ 28 ≤ lba.toNat ∨ lba.toNat + numSectors.toNat ≤ 2 ^ 28) := by
  have zero : numSectors.toNat = 0 ↔ numSectors = 0 := UInt8.toNat_inj (b := 0)
  have byte := numSectors.toNat_lt
  have word := lba.toNat_lt
  rw [sent, fileAfter_count, TaskFile.space, extCommand_ideCommand]
  by_cases high : 0x10000000 ≤ lba
  · have above : 2 ^ 28 ≤ lba.toNat := UInt32.le_iff_toNat_le.mp high
    rw [ideSelectMode_lba48 device.features high, if_pos rfl, if_pos (decide_eq_true rfl)]
    constructor
    · rintro ⟨count, _⟩
      refine ⟨?_, Or.inl above⟩
      rintro rfl
      cases count
    · rintro ⟨nonzero, _⟩
      rw [if_neg nonzero]
      exact ⟨rfl, fun k hk => by omega⟩
  · have below := lt_of_not_lba48 high
    have narrow : ¬ LbaMode.lba28 = .lba48 := by decide
    have plain : ¬ decide (LbaMode.lba28 = .lba48) = true := by decide
    rw [ideSelectMode_lba28 high linear, if_neg narrow, if_neg plain]
    constructor
    · rintro ⟨count, space⟩
      have nonzero : numSectors ≠ 0 := by
        rintro rfl
        cases count
      have positive : numSectors.toNat ≠ 0 := fun e => nonzero (zero.mp e)
      have last := space (numSectors.toNat - 1) (by omega)
      exact ⟨nonzero, Or.inr (by omega)⟩
    · rintro ⟨nonzero, range⟩
      rw [if_neg nonzero]
      exact ⟨rfl, fun k hk => by omega⟩

/-- The history of an accepted request on an ATA drive. -/
theorem ideSectors_command (fuel : Nat) (direction : Direction) (err drive numSectors : UInt8)
    (lba buffer : UInt32) (s : IdeState σ) {device : IdeDevice}
    (found : s.devices drive.toNat = device) {ch : IdeChannel}
    (here : s.channels device.channel.toNat = ch) (ports : AtaPorts ch)
    (passed : sectorCheck s.devices drive numSectors lba = .passed) (ata : device.type = ideAta)
    (f : TaskFile) :
    ∃ tr, ((ideSectors hw fuel direction err drive numSectors lba buffer).run s).2.log =
        s.log ++ tr ∧
      (((ideSectors hw fuel direction err drive numSectors lba buffer).run s).1 = some 0 →
        dataWords ch.base tr = 256 * numSectors.toNat) ∧
      (((firstWait hw ch fuel s.bus).1 = false ∧ f.commandsSent ch.base tr = []) ∨
        ((firstWait hw ch fuel s.bus).1 = true ∧ ∃ rest, f.commandsSent ch.base tr =
          (ideCommand (ideSelectMode device.features lba).mode direction,
            fileAfter device.drive numSectors (ideSelectMode device.features lba) f) :: rest)) := by
  obtain ⟨tr, log, sent⟩ := ideAtaAccess_command hw fuel direction drive lba numSectors buffer s
    found here ports f
  have moved := moved_access hw fuel direction drive lba numSectors buffer s found here
  rw [ideSectors_ata hw fuel direction passed (found ▸ ata)]
  rcases h : (ideAtaAccess hw fuel direction drive lba numSectors buffer).run s with ⟨e | e, t⟩
  · rw [h] at log sent
    exact ⟨tr, log, by simp, sent.imp (fun stuck => ⟨stuck.1, stuck.2.2⟩) id⟩
  · rw [h] at log sent
    obtain ⟨b, reads, calls, printed, all⟩ := idePrintError_reports hw drive e t
    have silent : dataWords ch.base reads = 0 :=
      dataWords_reads fun a member => ⟨_, all a member⟩
    refine ⟨tr ++ reads, ?_, ?_, Or.inr ?_⟩
    · rw [Exec.andThen_some, printed]
      change t.log ++ reads = _
      rw [log, List.append_assoc]
    · intro zero
      have clean : e = 0 := by
        rw [← idePrintError_zero hw drive e t]
        apply UInt8.toNat_inj.mp
        simpa using zero
      obtain ⟨ur, log', words⟩ := moved e t h clean
      have same : ur = tr := List.append_cancel_left (log'.symm.trans log)
      rw [dataWords_append, silent, Nat.add_zero, ← same, words]
    · obtain ⟨ended, rest, started⟩ := sent.resolve_left (by simp)
      exact ⟨ended, _, by rw [commandsSent_append, started]; rfl⟩

/-- A command is sent as soon as the busy wait ends, and it is the request's exactly when that is
not empty and does not run past the 28-bit space from below it. A drive that is always ready
moves every block. -/
theorem ideSectors_commands_iff (fuel : Nat) (direction : Direction)
    (err drive numSectors : UInt8) (lba buffer : UInt32) (s : IdeState σ) {device : IdeDevice}
    (index : drive.toNat < maximumIdeDevices) (found : s.devices drive.toNat = device)
    (present : device.reserved ≠ 0) (ata : device.type = ideAta)
    (linear : device.features &&& 0x200 ≠ 0) {ch : IdeChannel}
    (here : s.channels device.channel.toNat = ch) (ports : AtaPorts ch)
    (fits : lba.toNat + numSectors.toNat ≤ device.size.toNat) (f : TaskFile) :
    ∃ tr, ((ideSectors hw fuel direction err drive numSectors lba buffer).run s).2.log =
        s.log ++ tr ∧
      (f.commandsSent ch.base tr ≠ [] ↔ (firstWait hw ch fuel s.bus).1 = true) ∧
      ((firstWait hw ch fuel s.bus).1 = true →
        (CommandsRequest ch.base f tr lba.toNat numSectors.toNat
            ((ideSectors hw fuel direction err drive numSectors lba buffer).run s).1 ↔
          numSectors ≠ 0 ∧ (2 ^ 28 ≤ lba.toNat ∨ lba.toNat + numSectors.toNat ≤ 2 ^ 28))) ∧
      (0 < fuel → AlwaysReady hw (ch.base + 7) →
        ((ideSectors hw fuel direction err drive numSectors lba buffer).run s).1 = some 0) := by
  have passed : sectorCheck s.devices drive numSectors lba = .passed := by
    rw [sectorCheck_passed, found]
    refine ⟨UInt8.le_iff_toNat_le.mpr (Nat.le_of_lt index), present, fun _ => ?_⟩
    rw [UInt32.le_iff_toNat_le, UInt32.toNat_add, UInt8.toNat_toUInt32]
    exact Nat.le_trans (Nat.mod_le _ _) fits
  have served : 0 < fuel → AlwaysReady hw (ch.base + 7) →
      ((ideSectors hw fuel direction err drive numSectors lba buffer).run s).1 = some 0 := by
    intro positive ready
    obtain ⟨n, rfl⟩ := Nat.exists_eq_succ_of_ne_zero (Nat.ne_of_gt positive)
    exact ready.sectors n direction err buffer passed (found ▸ ata) (by rw [found, here])
  obtain ⟨tr, log, blocks, ⟨stuck, silent⟩ | ⟨ended, rest, sent⟩⟩ := ideSectors_command hw fuel
    direction err drive numSectors lba buffer s found here ports passed ata f
  · refine ⟨tr, log, by simp [silent, stuck], fun ended => ?_, served⟩
    rw [stuck] at ended
    cases ended
  · refine ⟨tr, log, by simp [sent, ended], fun _ => ?_, served⟩
    have head : (f.commandsSent ch.base tr).head? =
        some (ideCommand (ideSelectMode device.features lba).mode direction,
          fileAfter device.drive numSectors (ideSelectMode device.features lba) f) := by
      rw [sent, List.head?_cons]
    rw [← commanded_exactly device direction lba numSectors f linear rfl]
    constructor
    · intro request
      exact ⟨request.count _ _ head, request.space _ _ head⟩
    · rintro ⟨count, space⟩
      refine ⟨?_, blocks, ?_⟩
      · intro command file other
        cases head.symm.trans other
        exact count
      · intro command file other
        cases head.symm.trans other
        exact space

theorem steadyBus_ready : AlwaysReady (steadyBus 0x58) 0x1F7 :=
  ⟨fun _ => (by decide : Quiet 0x58), fun _ => (by decide : Ready 0x58)⟩

/-- Two sectors, the second of them the first behind the 28-bit space: the command is sent, and it
is not the request's. In front of the boundary it is, and the call returns. -/
theorem ideSectors_commands_iff_crossing :
    (∃ tr, ((ideSectors (steadyBus 0x58) 1 .read 0 0 2 0x0FFFFFFF 0).run
          (foundState () (primaryMaster 0x10000001))).2.log = [] ++ tr ∧
        TaskFile.commandsSent 0x1F0 ⟨⟨1, 2⟩, ⟨3, 4⟩, ⟨5, 6⟩, ⟨7, 8⟩, 9⟩ tr ≠ [] ∧
        ¬ CommandsRequest 0x1F0 ⟨⟨1, 2⟩, ⟨3, 4⟩, ⟨5, 6⟩, ⟨7, 8⟩, 9⟩ tr 0x0FFFFFFF 2
          ((ideSectors (steadyBus 0x58) 1 .read 0 0 2 0x0FFFFFFF 0).run
            (foundState () (primaryMaster 0x10000001))).1) ∧
      ∃ tr, ((ideSectors (steadyBus 0x58) 1 .read 0 0 2 0x0FFFFFFE 0).run
          (foundState () (primaryMaster 0x10000001))).2.log = [] ++ tr ∧
        TaskFile.commandsSent 0x1F0 ⟨⟨1, 2⟩, ⟨3, 4⟩, ⟨5, 6⟩, ⟨7, 8⟩, 9⟩ tr ≠ [] ∧
        CommandsRequest 0x1F0 ⟨⟨1, 2⟩, ⟨3, 4⟩, ⟨5, 6⟩, ⟨7, 8⟩, 9⟩ tr 0x0FFFFFFE 2
          ((ideSectors (steadyBus 0x58) 1 .read 0 0 2 0x0FFFFFFE 0).run
            (foundState () (primaryMaster 0x10000001))).1 ∧
        ((ideSectors (steadyBus 0x58) 1 .read 0 0 2 0x0FFFFFFE 0).run
          (foundState () (primaryMaster 0x10000001))).1 = some 0 := by
  constructor
  · obtain ⟨tr, log, sends, exact, _⟩ := ideSectors_commands_iff (steadyBus 0x58) 1 .read 0 0 2
      0x0FFFFFFF 0 (foundState () (primaryMaster 0x10000001)) (by decide) rfl (by decide) rfl
      (by decide) rfl (Or.inl ⟨rfl, rfl⟩) (by decide) ⟨⟨1, 2⟩, ⟨3, 4⟩, ⟨5, 6⟩, ⟨7, 8⟩, 9⟩
    exact ⟨tr, log, sends.mpr rfl, fun request => absurd ((exact rfl).mp request) (by decide)⟩
  · obtain ⟨tr, log, sends, exact, returns⟩ := ideSectors_commands_iff (steadyBus 0x58) 1 .read 0 0 2
      0x0FFFFFFE 0 (foundState () (primaryMaster 0x10000001)) (by decide) rfl (by decide) rfl
      (by decide) rfl (Or.inl ⟨rfl, rfl⟩) (by decide) ⟨⟨1, 2⟩, ⟨3, 4⟩, ⟨5, 6⟩, ⟨7, 8⟩, 9⟩
    exact ⟨tr, log, sends.mpr rfl, (exact rfl).mpr (by decide), returns (by decide) steadyBus_ready⟩

/-- A request for no sector succeeds without moving a block, but it commands 256 sectors. -/
theorem ideSectors_empty_commands_256 :
    sectorCheck (foundState () (primaryMaster 0x10000000)).devices 0 0 0 = .passed ∧
      ((ideSectors (steadyBus 0x50) 1 .read 0 0 0 0 0).run
        (foundState () (primaryMaster 0x10000000))).1 = some 0 ∧
      ¬ CommandsRequest 0x1F0 ⟨⟨1, 2⟩, ⟨3, 4⟩, ⟨5, 6⟩, ⟨7, 8⟩, 9⟩
        ((ideSectors (steadyBus 0x50) 1 .read 0 0 0 0 0).run
          (foundState () (primaryMaster 0x10000000))).2.log 0 0
        ((ideSectors (steadyBus 0x50) 1 .read 0 0 0 0 0).run
          (foundState () (primaryMaster 0x10000000))).1 := by
  refine ⟨by decide, rfl, ?_⟩
  intro request
  cases request.count 0x20 _ rfl

end Range

end VDK
