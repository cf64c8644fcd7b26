import VDK.LastWrite
import VDK.RangeGate

/-!
# Paths that no file has

`VD_Open` answers with the not-found entry, whose first sector is 0xFFFFFFFF, and the
callers add 1 to it. What keeps the disk out of it is the driver's check of sector 0
and nothing else. The disk behind the bus is any function of the hardware's state that
byte reads and the interrupt mask leave alone.
-/
namespace VDK
open Fuel ByteMem FirstFit VdEntry

/-- Byte reads and the control byte of `ide_ata_access` store no sector. -/
structure Inert {σ : Type} (hw : Bus σ) (contents : σ → Disk) (control : UInt16) : Prop where
  read : ∀ port b, contents (hw.inb port b).2 = contents b
  mask : ∀ b, contents (hw.outb control 2 b) = contents b

def IdeState.channelOf {σ : Type} (s : IdeState σ) (drive : UInt8) : IdeChannel :=
  s.channels (s.devices drive.toNat).channel.toNat

section Reaching

variable {σ : Type} (hw : Bus σ) (fuel : Nat) {s t u : IdeState σ}

/-- A READ SECTORS command was written between `s` and `t`. -/
def SendsRead (base : UInt16) (s t : IdeState σ) : Prop :=
  ∃ tr command, t.log = s.log ++ tr ∧ (command = 0x20 ∨ command = 0x24) ∧
    Access.outb (base + 7) command ∈ tr

theorem SendsRead.extend {base : UInt16} (first : SendsRead base s t) {tr : List Access}
    (log : u.log = t.log ++ tr) : SendsRead base s u := by
  obtain ⟨ur, command, grown, kind, member⟩ := first
  exact ⟨ur ++ tr, command, by rw [log, grown, List.append_assoc], kind,
    List.mem_append_left tr member⟩

/-- A one-sector request passes the check on an ATA drive that comes out of its busy wait. -/
def Reaches (s : IdeState σ) (drive : UInt8) (lba : UInt32) : Prop :=
  sectorCheck s.devices drive 1 lba = .passed ∧ (s.devices drive.toNat).type = ideAta ∧
    (firstWait hw (s.channelOf drive) fuel s.bus).1 = true

theorem contents_busyReads {contents : σ → Disk} {control : UInt16}
    (inert : Inert hw contents control) (port : UInt16) (b : σ) :
    contents (busyReads hw port fuel b).2.2 = contents b := by
  induction fuel generalizing b with
  | zero => rfl
  | succ fuel ih =>
      rw [busyReads]
      dsimp only
      split
      · exact (ih _).trans (inert.read port b)
      · exact inert.read port b

/-- A request that does not reach the drive writes at most the interrupt mask. -/
theorem ideSectors_unreached {contents : σ → Disk} {drive : UInt8} {lba : UInt32}
    (inert : Inert hw contents ((s.channelOf drive).control + 2))
    (unreached : ¬ Reaches hw fuel s drive lba) (direction : Direction) (err : UInt8)
    (buffer : UInt32) :
    ∃ tr t, ((ideSectors hw fuel direction err drive 1 lba buffer).run s).2 = t ∧
      t.log = s.log ++ tr ∧ (∀ port command, Access.outb port command ∈ tr → command = 2) ∧
      contents t.bus = contents s.bus := by
  by_cases passed : sectorCheck s.devices drive 1 lba = .passed
  · by_cases ata : (s.devices drive.toNat).type = ideAta
    · have stuck : (firstWait hw (s.channelOf drive) fuel s.bus).1 = false :=
        Bool.eq_false_iff.mpr fun ready => unreached ⟨passed, ata, ready⟩
      have run := ideAtaAccess_waited hw fuel direction drive lba 1 buffer s rfl rfl
      rw [← IdeState.channelOf, stuck, if_neg Bool.false_ne_true] at run
      refine ⟨_, _, by rw [ideSectors_ata hw fuel direction passed ata, run, Exec.andThen_none],
        rfl, ?_, ?_⟩
      · intro port command member
        rcases List.mem_cons.mp member with mask | read
        · cases mask
          rfl
        · obtain ⟨value, _, other⟩ := List.mem_map.mp read
          cases other
      · exact (contents_busyReads hw fuel inert _ _).trans (inert.mask s.bus)
    · obtain ⟨tr, log, reads⟩ := idePrintError_log hw drive err s
      refine ⟨tr, _, by rw [ideSectors_other hw fuel direction passed ata], log, ?_, ?_⟩
      · intro port command member
        obtain ⟨_, _, other⟩ := reads _ member
        cases other
      · rcases idePrintError_bus hw drive err s with same | ⟨port, read⟩
        · exact congrArg contents same
        · exact (congrArg contents read).trans (inert.read port s.bus)
  · obtain ⟨code, calls, _, run⟩ := ideSectors_refused hw direction passed
    refine ⟨[], _, congrArg Prod.snd (run fuel), by simp, by simp, rfl⟩

theorem ideReadSectors_sends {drive : UInt8} {lba : UInt32} (reaches : Reaches hw fuel s drive lba)
    (err : UInt8) (buffer : UInt32) :
    SendsRead (s.channelOf drive).base s
      ((ideReadSectors hw fuel err drive 1 lba buffer).run s).2 := by
  obtain ⟨passed, ata, ready⟩ := reaches
  set device := s.devices drive.toNat with found
  set ch := s.channelOf drive with here
  have run := ideAtaAccess_waited hw fuel .read drive lba 1 buffer s rfl rfl
  rw [← IdeState.channelOf, ← here, ready, if_pos rfl, ← found] at run
  set c := commanded hw device .read lba 1 (waited hw device ch fuel s) with sent
  have own : (waited hw device ch fuel s).channels device.channel.toNat = { ch with noIntr := 2 } :=
    waited_channel hw device fuel s rfl
  have grows : OnChannel device.channel.toNat ch.base ch.control c
      ((ideTransfer hw fuel .read device.channel ch.base (ideSelectMode device.features lba).mode 1
        buffer).run c).2 := onChannel_transfer hw fuel .read _ 1 buffer c
  obtain ⟨⟨rest, grown, _⟩, _⟩ := grows
    (by rw [sent, commanded, IdeState.after_channels, own])
    (by rw [sent, commanded, IdeState.after_channels, own])
  have log : c.log = s.log ++ (Access.outb (ch.control + 2) 2 ::
      (firstWait hw ch fuel s.bus).2.1.map (Access.inb (ch.base + 7)) ++
        outAccesses (commandWrites { ch with noIntr := 2 } device .read lba 1)) := by
    rw [sent, commanded, own, IdeState.after_log, waited, IdeState.after_log, List.append_assoc]
    rfl
  have kind : ideCommand (ideSelectMode device.features lba).mode .read = 0x20 ∨
      ideCommand (ideSelectMode device.features lba).mode .read = 0x24 := by
    cases (ideSelectMode device.features lba).mode with
    | chs => exact Or.inl rfl
    | lba28 => exact Or.inl rfl
    | lba48 => exact Or.inr rfl
  have command : SendsRead ch.base s c := by
    refine ⟨_, _, log, kind, List.mem_append_right _ (List.mem_map.mpr ⟨(ch.base + 7, _), ?_, rfl⟩)⟩
    rw [commandWrites, registerWrites_low _ (by decide)]
    exact List.mem_append_right _ (List.mem_singleton_self _)
  have transfer : SendsRead ch.base s
      ((ideTransfer hw fuel .read device.channel ch.base (ideSelectMode device.features lba).mode 1
        buffer).run c).2 := command.extend grown
  rw [ideReadSectors, ideSectors_ata hw fuel .read passed (found ▸ ata), run]
  rcases h : (ideTransfer hw fuel .read device.channel ch.base
      (ideSelectMode device.features lba).mode 1 buffer).run c with ⟨e | e, v⟩
  · rw [h] at transfer
    exact transfer
  · rw [h] at transfer
    obtain ⟨tr, log, _⟩ := idePrintError_log hw drive e v
    exact transfer.extend log

end Reaching

section Missing

variable {σ : Type} {hw : Bus σ} {steps : List (WriteStep σ)} {s : FsState σ}

/-- Every slot is zero or holds an entry that was passed to `VD_Write`. -/
theorem WriteRun.slots (run : WriteRun hw steps s) {i : Nat} (hi : i < maximumEntries) :
    s.entries i = VdEntry.zero ∨ ∃ w ∈ steps, s.entries i = w.file := by
  induction run with
  | start zeroed => exact Or.inl (zeroed i hi)
  | @write steps s t fuel L file run returned ih =>
      rw [vdWrite_entries returned]
      rcases place_apply (unused fileKey s.entries) maximumEntries s.entries file i with same | new
      · rw [same]
        refine ih.imp_right ?_
        rintro ⟨w, hw, here⟩
        exact ⟨w, List.mem_append_left _ hw, here⟩
      · exact Or.inr ⟨_, List.mem_append_right _ (List.mem_singleton_self _), new⟩

def nullText : List UInt8 := ['N', 'U', 'L', 'L'].map Char.toUInt8

theorem notFoundEntry_holds (junk : VdEntry) : HoldsString (notFoundEntry junk).byte nullText := by
  refine ⟨rfl, by decide, rfl, by decide, rfl, by decide, rfl, by decide, rfl⟩

theorem vdOpen_missing_iff (run : WriteRun hw steps s) {path : Text}
    (missing : ∀ w ∈ steps, ¬ HoldsString w.file.byte path.chars) (junk : VdEntry) :
    vdOpen junk s.entries path = notFoundEntry junk ↔
      ∀ i, i < maximumEntries → strcmpText (namePtr s.entries i) path ≠ some 0 := by
  rw [vdOpen]
  cases found : firstIndex (fun i => strcmpText (namePtr s.entries i) path = some 0)
      maximumEntries with
  | none =>
      apply iff_of_true rfl
      intro i hi
      exact of_decide_eq_false (firstIndex_eq_none.mp found i hi)
  | some i =>
      obtain ⟨hi, equal, _⟩ := firstIndex_eq_some.mp found
      have held := (strcmpText_eq_zero _ _).mp (of_decide_eq_true equal)
      refine iff_of_false (fun same => ?_) fun none => none i hi (of_decide_eq_true equal)
      dsimp only at same
      have null : HoldsString (s.entries i).byte nullText := by
        rw [same]
        exact notFoundEntry_holds junk
      have slot : ∀ k, k < sizeofVdEntry → namePtr s.entries i k = (s.entries i).byte k := by
        intro k hk
        rw [namePtr, Nat.div_eq_of_lt hk, Nat.mod_eq_of_lt hk, Nat.add_zero]
      have name : path.chars = nullText := by
        refine held.unique (null.congr fun k hk => slot k ?_)
        exact Nat.lt_of_le_of_lt hk (by decide)
      rcases run.slots hi with zero | ⟨w, hw, here⟩
      · rw [zero] at null
        exact absurd null.1 (by decide)
      · rw [here, ← name] at null
        exact missing w hw null

/-- What a missing file should be: the not-found entry, no sector read, no sector changed. -/
structure LeavesDisk (hw : Bus σ) (contents : σ → Disk) (fuel : Nat) (L : Locals)
    (s : FsState σ) (path data : Text) : Prop where
  missing : vdOpen L.notFound s.entries path = notFoundEntry L.notFound
  read : ¬ SendsRead (s.ide.channelOf (fsDrive s.ide.devices)).base s.ide
    ((vdReadData hw fuel L path).run s).2.ide
  write : contents ((vdWriteData hw fuel L data (vdOpen L.notFound s.entries path)).run s).2.ide.bus =
    contents s.ide.bus

/-- A path that was never registered leaves the disk alone if and only if no slot compares
equal to it and a request for sector 0 does not reach the drive. -/
theorem missing_leaves_disk_iff (run : WriteRun hw steps s) {path : Text}
    (missing : ∀ w ∈ steps, ¬ HoldsString w.file.byte path.chars) {contents : σ → Disk}
    (inert : Inert hw contents ((s.ide.channelOf (fsDrive s.ide.devices)).control + 2))
    (fuel : Nat) (L : Locals) (data : Text) :
    LeavesDisk hw contents fuel L s path data ↔
      (∀ i, i < maximumEntries → strcmpText (namePtr s.entries i) path ≠ some 0) ∧
        ¬ Reaches hw fuel s.ide (fsDrive s.ide.devices) 0 := by
  have opened := vdOpen_missing_iff run missing L.notFound
  have wrap : (notFoundEntry L.notFound).firstSector + 1 = 0 :=
    (by decide : (0xFFFFFFFF : UInt32) + 1 = 0)
  obtain ⟨m, cleared⟩ := clearBuffer_ide L s
  obtain ⟨m', filled⟩ := dataBuffered_ide L data s
  constructor
  · intro leaves
    refine ⟨opened.mp leaves.missing, fun reaches => leaves.read ?_⟩
    rw [vdReadData_run, leaves.missing, wrap, cleared]
    have sent := ideReadSectors_sends hw fuel (s := { s.ide with mem := m }) reaches L.err L.buf
    exact sent
  · rintro ⟨none, unreached⟩
    have absent := opened.mpr none
    refine ⟨absent, ?_, ?_⟩
    · obtain ⟨tr, t, state, log, mask, _⟩ := ideSectors_unreached hw fuel
        (s := { s.ide with mem := m }) inert unreached .read L.err L.buf
      rw [vdReadData_run, absent, wrap, cleared]
      rintro ⟨ur, command, log', kind, member⟩
      dsimp only at log'
      rw [ideReadSectors, state, log] at log'
      rw [← List.append_cancel_left log'] at member
      rw [mask _ _ member] at kind
      exact absurd kind (by decide)
    · obtain ⟨tr, t, state, _, _, same⟩ := ideSectors_unreached hw fuel
        (s := { s.ide with mem := m' }) inert unreached .write L.err L.buf
      rw [absent, vdWriteData_run, wrap, filled]
      dsimp only
      rw [ideWriteSectors, state]
      exact same

theorem zeroed_missing {entries : Nat → VdEntry} (zeroed : ∀ i, entries i = VdEntry.zero) (i : Nat) :
    strcmpText (namePtr entries i) lolTxt.nameText ≠ some 0 := by
  rw [Ne, namePtr_holds (Or.inr (by decide)), zeroed i]
  decide

theorem testTxt_missing {entries : Nat → VdEntry}
    (table : entries = place (unused fileKey fun _ => VdEntry.zero) maximumEntries
      (fun _ => VdEntry.zero) testTxt) (i : Nat) :
    strcmpText (namePtr entries i) lolTxt.nameText ≠ some 0 := by
  rw [Ne, namePtr_holds (Or.inr (by decide)), table]
  rcases place_apply (unused fileKey fun _ => VdEntry.zero) maximumEntries
    (fun _ => VdEntry.zero) testTxt i with zero | new
  · rw [zero]
    decide
  · rw [new]
    decide

theorem ataDrive_inert (base control : UInt16) (position : Nat) (delay : DriveEvent → Nat → Nat) :
    Inert (ataDrive base position delay) DriveState.sectors control where
  read port d := by
    simp only [ataDrive]
    split
    · exact (tick_kept d).sectors
    · rfl
  mask d := (write_kept control 2 d).sectors

/-- A drive of no sectors refuses the sector of the entry that was written and sector 0. -/
theorem missing_leaves_disk_iff_empty_drive :
    ∃ (steps : List (WriteStep DriveState)) (t : FsState DriveState),
      WriteRun (ataDrive 0x1F0 0 fun _ _ => 3) steps t ∧ steps.map WriteStep.file = [testTxt] ∧
        t.entries 0 = testTxt ∧ t.ide.bus.sectors 0 = Sector.ofText hello (by decide) ∧
        LeavesDisk (ataDrive 0x1F0 0 fun _ _ => 3) DriveState.sectors 1 sampleLocals t
          lolTxt.nameText hello := by
  have mounted := qemu_mounted 0 fun _ => Sector.ofText hello (by decide)
  set s := qemuState 0 fun _ => Sector.ofText hello (by decide)
  obtain ⟨t, ⟨N, written⟩, there, table⟩ := mounted.settles_vdWrite qemu_working sampleLocals
    (by decide : testTxt.firstSector ≠ 0xFFFFFFFF)
  have run : WriteRun (ataDrive 0x1F0 0 fun _ _ => 3) [⟨s, testTxt, t⟩] t :=
    (WriteRun.start fun _ _ => rfl).write (written N (Nat.le_refl N))
  have inert : Inert (ataDrive 0x1F0 0 fun _ _ => 3) DriveState.sectors
      ((t.ide.channelOf (fsDrive t.ide.devices)).control + 2) := ataDrive_inert _ _ _ _
  have others : ∀ w ∈ [(⟨s, testTxt, t⟩ : WriteStep DriveState)],
      ¬ HoldsString w.file.byte lolTxt.nameText.chars := by
    intro w member
    have file : w.file = testTxt := congrArg WriteStep.file (List.mem_singleton.mp member)
    rw [file]
    decide
  refine ⟨_, t, run, rfl, by rw [table]; rfl, ?_, ?_⟩
  · rw [there.rep.sectors]
    exact congrFun (if_neg (Nat.not_lt_zero _)) 0
  · refine (missing_leaves_disk_iff run others inert 1 sampleLocals hello).mpr
      ⟨fun i _ => testTxt_missing table i, ?_⟩
    rintro ⟨passed, _⟩
    rw [there.model] at passed
    have inside := (qemu_working.check_one there.rep (by decide)).mp passed
    rw [there.size] at inside
    exact absurd inside (Nat.not_lt_zero _)

/-- With a drive, writing to a file that was never registered overwrites sector 0. -/
theorem missing_file_overwrites_sector_zero :
    vdOpen VdEntry.zero (qemuState 8 fun _ => Sector.blank).entries lolTxt.nameText =
        notFoundEntry VdEntry.zero ∧
      ∃ fuel t, (vdWriteData (ataDrive 0x1F0 0 fun _ _ => 3) fuel sampleLocals hello
          (notFoundEntry VdEntry.zero)).run (qemuState 8 fun _ => Sector.blank) = (some true, t) ∧
        t.ide.bus.sectors 0 ≠ Sector.blank := by
  have mounted := qemu_mounted 8 fun _ => Sector.blank
  have wrap : (notFoundEntry VdEntry.zero).firstSector + 1 = 0 :=
    (by decide : (0xFFFFFFFF : UInt32) + 1 = 0)
  constructor
  · have run : WriteRun (ataDrive 0x1F0 0 fun _ _ => 3) [] (qemuState 8 fun _ => Sector.blank) :=
      WriteRun.start fun _ _ => rfl
    exact (vdOpen_missing_iff run (fun _ h => nomatch h) VdEntry.zero).mpr fun i _ =>
      zeroed_missing (fun _ => rfl) i
  · have plain : (notFoundEntry VdEntry.zero).firstSector + 1 ≠ 0xFFFFFFFF := by
      rw [wrap]
      decide
    obtain ⟨t, ⟨N, settled⟩, there, _⟩ :=
      mounted.settles_vdWriteData qemu_working sampleLocals plain hello
    have short : hello.chars.length < 512 := by decide
    have first : (0 : UInt32).toNat = 0 := rfl
    refine ⟨N, t, settled N (Nat.le_refl N), ?_⟩
    rw [there.rep.sectors, wrap, dataSector_short _ _ _ short, Disk.put, if_pos (by decide), first,
      Function.update_self]
    intro same
    have byte : (Sector.ofText hello short).ptr 0 = Sector.blank.ptr 0 := by rw [same]
    rw [Sector.ofText, Sector.padded_ptr] at byte
    exact absurd byte (by decide)

end Missing

end VDK
