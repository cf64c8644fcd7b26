import VDK.TaskFile
import VDK.SectorRuns

/-!
# The command a transfer sends

`ide_ata_access` writes the task file and one transfer command. Its registers are
decoded by ATA's rules: the start sector is always the one asked for, while the
count and the address space depend on the request.
-/
namespace VDK
open Fuel ByteMem

section Slices

variable (lba : UInt32)

/-- Masking before a shift selects the bits that the shifted mask selects. -/
theorem slice_toNat (mask shift : UInt32) (k w : Nat) (hk : shift.toNat % 32 = k)
    (hw : mask.toNat >>> k = 2 ^ w - 1) (narrow : w ≤ 8) :
    ((lba &&& mask) >>> shift).toUInt8.toNat = lba.toNat / 2 ^ k % 2 ^ w := by
  have small : lba.toNat / 2 ^ k % 2 ^ w < 2 ^ 8 :=
    Nat.lt_of_lt_of_le (Nat.mod_lt _ (Nat.two_pow_pos w)) (Nat.pow_le_pow_right (by decide) narrow)
  rw [UInt32.toNat_toUInt8, UInt32.toNat_shiftRight, hk, UInt32.toNat_and,
    Nat.shiftRight_and_distrib, hw, Nat.and_two_pow_sub_one_eq_mod, Nat.shiftRight_eq_div_pow]
  exact Nat.mod_eq_of_lt small

theorem ideSelectMode_lba48 {lba : UInt32} (features : UInt16) (h : 0x10000000 ≤ lba) :
    (ideSelectMode features lba).mode = .lba48 := by
  rw [ideSelectMode, if_pos h]

theorem ideSelectMode_lba28 {features : UInt16} {lba : UInt32} (low : ¬ 0x10000000 ≤ lba)
    (h : features &&& 0x200 ≠ 0) : (ideSelectMode features lba).mode = .lba28 := by
  rw [ideSelectMode, if_neg low, if_pos h]

variable {lba} {features : UInt16}

theorem ideSelectMode_linear (linear : 0x10000000 ≤ lba ∨ features &&& 0x200 ≠ 0) :
    (ideSelectMode features lba).mode ≠ .chs := by
  by_cases high : 0x10000000 ≤ lba
  · rw [ideSelectMode_lba48 features high]
    decide
  · rw [ideSelectMode_lba28 high (linear.resolve_left high)]
    decide

variable (slavebit numSectors : UInt8) (f : TaskFile)

/-- In the LBA48 branch the six bytes of the two-deep registers are the address. -/
theorem fileAfter_lba48 (h : 0x10000000 ≤ lba) :
    (fileAfter slavebit numSectors (ideSelectMode features lba) f).lba48 = lba.toNat := by
  have bound := lba.toNat_lt
  simp only [fileAfter, ideSelectMode, if_pos h, if_true, TaskFile.lba48, ByteFifo.push]
  rw [slice_toNat lba 0x000000FF 0 0 8 rfl rfl (by decide),
    slice_toNat lba 0x0000FF00 8 8 8 rfl rfl (by decide),
    slice_toNat lba 0x00FF0000 16 16 8 rfl rfl (by decide),
    slice_toNat lba 0xFF000000 24 24 8 rfl rfl (by decide)]
  simp only [UInt8.toNat_zero]
  omega

theorem lt_of_not_lba48 (low : ¬ 0x10000000 ≤ lba) : lba.toNat < 2 ^ 28 := by
  rw [UInt32.le_iff_toNat_le] at low
  exact Nat.lt_of_not_le low

/-- The device register: the select bits of a branch, the drive bit and a head nibble. -/
theorem deviceRegister {select slave head : UInt8} (bits : select = 0xA0 ∨ select = 0xE0)
    (one : slave = 0 ∨ slave = 1) (nibble : head.toNat < 16) :
    (select ||| slave <<< 4 ||| head).toNat = select.toNat + 16 * slave.toNat + head.toNat := by
  have chs : ∀ h : Fin 16,
      ((0xA0 : UInt8) ||| (0 : UInt8) <<< 4 ||| UInt8.ofNat h.val).toNat = 0xA0 + h.val ∧
        ((0xA0 : UInt8) ||| (1 : UInt8) <<< 4 ||| UInt8.ofNat h.val).toNat = 0xA0 + 16 + h.val := by
    decide
  have linear : ∀ h : Fin 16,
      ((0xE0 : UInt8) ||| (0 : UInt8) <<< 4 ||| UInt8.ofNat h.val).toNat = 0xE0 + h.val ∧
        ((0xE0 : UInt8) ||| (1 : UInt8) <<< 4 ||| UInt8.ofNat h.val).toNat = 0xE0 + 16 + h.val := by
    decide
  have heads := chs ⟨head.toNat, nibble⟩
  have tops := linear ⟨head.toNat, nibble⟩
  rw [UInt8.ofNat_toNat] at heads tops
  rcases bits with rfl | rfl
  · rcases one with rfl | rfl
    · exact heads.1
    · exact heads.2
  · rcases one with rfl | rfl
    · exact tops.1
    · exact tops.2

theorem ideSelectMode_head (linear : (ideSelectMode features lba).mode ≠ .chs) :
    (ideSelectMode features lba).head.toNat =
      if (ideSelectMode features lba).mode = .lba48 then 0 else lba.toNat / 2 ^ 24 % 2 ^ 4 := by
  by_cases high : 0x10000000 ≤ lba
  · simp only [ideSelectMode, if_pos high, if_true]
    rfl
  · by_cases feature : features &&& 0x200 ≠ 0
    · simp only [ideSelectMode, if_neg high, if_pos feature, reduceCtorEq, if_false]
      exact slice_toNat lba 0x0F000000 24 24 4 rfl rfl (by decide)
    · simp only [ideSelectMode, if_neg high, if_neg feature, ne_eq, not_true_eq_false] at linear

theorem ideSelectMode_nibble (linear : (ideSelectMode features lba).mode ≠ .chs) :
    (ideSelectMode features lba).head.toNat < 16 := by
  rw [ideSelectMode_head linear]
  split
  · decide
  · exact Nat.mod_lt _ (by decide)

/-- The device register of the LBA branches: LBA mode, the drive bit and the head nibble. -/
theorem fileAfter_device (one : slavebit = 0 ∨ slavebit = 1)
    (linear : (ideSelectMode features lba).mode ≠ .chs) :
    (fileAfter slavebit numSectors (ideSelectMode features lba) f).device.toNat =
      0xE0 + 16 * slavebit.toNat + (ideSelectMode features lba).head.toNat := by
  simp only [fileAfter, if_neg linear]
  exact deviceRegister (Or.inr rfl) one (ideSelectMode_nibble linear)

theorem fileAfter_selects (one : slavebit = 0 ∨ slavebit = 1)
    (linear : (ideSelectMode features lba).mode ≠ .chs) :
    (fileAfter slavebit numSectors (ideSelectMode features lba) f).lbaSelected = true ∧
      (fileAfter slavebit numSectors (ideSelectMode features lba) f).driveSelected =
        slavebit.toNat := by
  have device := fileAfter_device slavebit numSectors f one linear
  have nibble := ideSelectMode_nibble linear
  have small : slavebit.toNat ≤ 1 := by
    rcases one with rfl | rfl <;> decide
  constructor
  · rw [TaskFile.lbaSelected, Nat.testBit_eq_decide_div_mod_eq, device]
    exact decide_eq_true (by omega)
  · rw [TaskFile.driveSelected, device]
    omega

/-- In the LBA28 branch three current bytes and the head nibble are the address. -/
theorem fileAfter_lba28 (one : slavebit = 0 ∨ slavebit = 1) (low : ¬ 0x10000000 ≤ lba)
    (h : features &&& 0x200 ≠ 0) :
    (fileAfter slavebit numSectors (ideSelectMode features lba) f).lba28 = lba.toNat := by
  have mode := ideSelectMode_lba28 low h
  have linear : (ideSelectMode features lba).mode ≠ .chs := by rw [mode]; decide
  have device := fileAfter_device slavebit numSectors f one linear
  have bound := lt_of_not_lba48 low
  rw [ideSelectMode_head linear, if_neg (by rw [mode]; decide)] at device
  rw [TaskFile.lba28, device]
  simp only [fileAfter, ideSelectMode, if_neg low, if_pos h, reduceCtorEq, if_false,
    ByteFifo.push]
  rw [slice_toNat lba 0x00000FF 0 0 8 rfl rfl (by decide),
    slice_toNat lba 0x000FF00 8 8 8 rfl rfl (by decide),
    slice_toNat lba 0x0FF0000 16 16 8 rfl rfl (by decide)]
  omega

theorem extCommand_ideCommand (mode : LbaMode) (direction : Direction) :
    TaskFile.extCommand (ideCommand mode direction) = decide (mode = .lba48) := by
  cases mode <;> cases direction <;> rfl

theorem fileAfter_count28 (addr : LbaAddress) :
    (fileAfter slavebit numSectors addr f).count28 =
      if numSectors = 0 then 256 else numSectors.toNat := rfl

/-- The high count byte is written as 0. -/
theorem fileAfter_count48 {addr : LbaAddress} (mode : addr.mode = .lba48) :
    (fileAfter slavebit numSectors addr f).count48 =
      if numSectors = 0 then 65536 else numSectors.toNat := by
  simp only [fileAfter, mode, if_true, TaskFile.count48, ByteFifo.push, UInt8.toNat_zero,
    Nat.mul_zero, Nat.add_zero]
  by_cases h : numSectors = 0
  · subst h
    rfl
  · have nonzero : numSectors.toNat ≠ 0 := fun e => h (UInt8.toNat_inj.mp e)
    rw [if_neg h, if_neg nonzero]

/-- Either LBA branch leaves a task file that decodes `lba` on the right drive. -/
theorem fileAfter_decodes (direction : Direction) (one : slavebit = 0 ∨ slavebit = 1)
    (linear : 0x10000000 ≤ lba ∨ features &&& 0x200 ≠ 0) :
    (fileAfter slavebit numSectors (ideSelectMode features lba) f).Decodes lba slavebit
      (ideCommand (ideSelectMode features lba).mode direction) := by
  obtain ⟨lbaBit, driveBit⟩ :=
    fileAfter_selects slavebit numSectors f one (ideSelectMode_linear linear)
  refine ⟨?_, lbaBit, driveBit⟩
  rw [TaskFile.start, extCommand_ideCommand]
  by_cases high : 0x10000000 ≤ lba
  · rw [ideSelectMode_lba48 _ high]
    exact fileAfter_lba48 slavebit numSectors f high
  · have feature := linear.resolve_left high
    rw [ideSelectMode_lba28 high feature]
    exact fileAfter_lba28 slavebit numSectors f one high feature

theorem fileAfter_count (direction : Direction) (addr : LbaAddress) :
    (fileAfter slavebit numSectors addr f).count (ideCommand addr.mode direction) =
      if numSectors = 0 then (if addr.mode = .lba48 then 65536 else 256)
      else numSectors.toNat := by
  rw [TaskFile.count, extCommand_ideCommand]
  by_cases mode : addr.mode = .lba48
  · rw [if_pos (decide_eq_true mode), if_pos mode, fileAfter_count48 slavebit numSectors f mode]
  · rw [if_neg (by simp [mode]), if_neg mode, fileAfter_count28]

end Slices

section Trace

variable {σ : Type} (hw : Bus σ) (fuel : Nat) (direction : Direction) (drive : UInt8)
  (lba : UInt32) (numSectors : UInt8) (buffer : UInt32) (s : IdeState σ)

theorem foldl_outAccesses (base : UInt16) (writes : List (UInt16 × UInt8)) (f : TaskFile) :
    (outAccesses writes).foldl (TaskFile.observe base) f = writeAll base writes f := by
  induction writes generalizing f with
  | nil => rfl
  | cons w writes ih => exact ih (f.write base w.1 w.2)

/-- None of the writes before the command byte goes to the command register. -/
theorem parameterWrites_ne_command {ch : IdeChannel} (ports : AtaPorts ch)
    (slavebit numSectors : UInt8) (addr : LbaAddress) :
    ∀ w ∈ parameterWrites ch slavebit numSectors addr, w.1 ≠ ch.base + 7 := by
  have low : ∀ reg v, reg < (0x07 : UInt8) →
      ∀ w ∈ registerWrites ch reg v, w.1 ≠ ch.base + 7 := by
    intro reg v small w member e
    have below : reg < 0x08 := UInt8.lt_trans small (by decide)
    rw [registerWrites_low ch below, List.mem_singleton] at member
    rw [member] at e
    have same := congrArg UInt16.toNat ((UInt16.add_right_inj _).mp e)
    rw [UInt8.toNat_toUInt16] at same
    have bound : reg.toNat < 7 := UInt8.lt_iff_toNat_lt.mp small
    exact Nat.ne_of_lt bound same
  have high : ∀ reg v, shadowed reg = true →
      ∀ w ∈ registerWrites ch reg v, w.1 ≠ ch.base + 7 := by
    intro reg v h w member
    have below := (shadowed_bounds h).2
    simp only [registerWrites_shadowed ch h, List.mem_cons, List.not_mem_nil, or_false] at member
    rcases member with rfl | rfl | rfl
    · exact ports.control_ne_command
    · intro e
      have bound : reg.toNat < 12 := UInt8.lt_iff_toNat_lt.mp below
      have same := congrArg UInt16.toNat e
      simp only [UInt16.toNat_sub, UInt16.toNat_add, UInt8.toNat_toUInt16,
        UInt16.reduceToNat] at same
      omega
    · exact ports.control_ne_command
  intro w member
  obtain ⟨reg, v, kind, written⟩ := mem_parameterWrites member
  rcases kind with below | behind
  · exact low reg v below w written
  · exact high reg v behind w written

/-- The command writes send one command, and it finds the task file of phases (IV) and (V). -/
theorem commandsSent_commandWrites (ch : IdeChannel) (ports : AtaPorts ch) (device : IdeDevice)
    (direction : Direction) (lba : UInt32) (numSectors : UInt8) (f : TaskFile) :
    f.commandsSent ch.base (outAccesses (commandWrites ch device direction lba numSectors)) =
      [(ideCommand (ideSelectMode device.features lba).mode direction,
        fileAfter device.drive numSectors (ideSelectMode device.features lba) f)] := by
  have quiet := commandsSent_parameters ch.base f _
    (parameterWrites_ne_command ports device.drive numSectors (ideSelectMode device.features lba))
  have file := writeAll_parameters ports device.drive numSectors
    (ideSelectMode device.features lba) f
  have command : ch.base + ataRegCommand.toUInt16 = ch.base + 7 := rfl
  rw [commandWrites, outAccesses, List.map_append, ← outAccesses, ← outAccesses,
    commandsSent_append, quiet, foldl_outAccesses, file, registerWrites_low ch (by decide), command]
  simp only [outAccesses, List.map_cons, List.map_nil, TaskFile.commandsSent, if_true,
    List.nil_append]

/-- The first command of an access, with the task file the drive decodes it by: it is sent
exactly when the busy wait in front of it ends. -/
theorem ideAtaAccess_command {device : IdeDevice} (found : s.devices drive.toNat = device)
    {ch : IdeChannel} (here : s.channels device.channel.toNat = ch) (ports : AtaPorts ch)
    (f : TaskFile) :
    ∃ tr, ((ideAtaAccess hw fuel direction drive lba numSectors buffer).run s).2.log = s.log ++ tr ∧
      (((firstWait hw ch fuel s.bus).1 = false ∧
          ((ideAtaAccess hw fuel direction drive lba numSectors buffer).run s).1 = none ∧
          f.commandsSent ch.base tr = []) ∨
        ((firstWait hw ch fuel s.bus).1 = true ∧ ∃ rest, f.commandsSent ch.base tr =
          (ideCommand (ideSelectMode device.features lba).mode direction,
            fileAfter device.drive numSectors (ideSelectMode device.features lba) f) :: rest)) := by
  have waiting : ∀ tail, f.commandsSent ch.base (Access.outb (ch.control + 2) 2 ::
      (firstWait hw ch fuel s.bus).2.1.map (Access.inb (ch.base + 7)) ++ tail) =
        f.commandsSent ch.base tail := by
    intro tail
    have apart : ch.control + 2 ≠ ch.base + 7 := ports.control_ne_command
    simp only [List.cons_append, TaskFile.commandsSent, if_neg apart, write_control ports,
      commandsSent_append, commandsSent_reads, observe_reads, List.nil_append]
  have run := ideAtaAccess_waited hw fuel direction drive lba numSectors buffer s found here
  cases ended : (firstWait hw ch fuel s.bus).1 with
  | false =>
      rw [ended, if_neg Bool.false_ne_true] at run
      refine ⟨_, by rw [run]; rfl, Or.inl ⟨rfl, by rw [run], ?_⟩⟩
      have silent := waiting []
      rwa [List.append_nil] at silent
  | true =>
      rw [ended, if_pos rfl] at run
      have own := waited_channel hw device fuel s here
      set t := commanded hw device direction lba numSectors (waited hw device ch fuel s) with ht
      have log : t.log = s.log ++ (Access.outb (ch.control + 2) 2 ::
          (firstWait hw ch fuel s.bus).2.1.map (Access.inb (ch.base + 7)) ++
            outAccesses (commandWrites { ch with noIntr := 2 } device direction lba numSectors)) := by
        rw [ht, commanded, own, IdeState.after_log, waited, IdeState.after_log, List.append_assoc]
        rfl
      have base : (t.channels device.channel.toNat).base = ch.base := by
        rw [ht, commanded, IdeState.after_channels, own]
      have control : (t.channels device.channel.toNat).control = ch.control := by
        rw [ht, commanded, IdeState.after_channels, own]
      obtain ⟨⟨rest, grown, _⟩, _⟩ := onChannel_transfer hw fuel direction
        (ideSelectMode device.features lba).mode numSectors buffer t base control
      refine ⟨_, by rw [run, grown, log, List.append_assoc], Or.inr ⟨rfl, ?_⟩⟩
      rw [List.append_assoc, waiting, commandsSent_append,
        commandsSent_commandWrites ({ ch with noIntr := 2 } : IdeChannel) ports]
      exact ⟨_, rfl⟩

/-- Whatever the registers held, an access sends a command as soon as its busy wait ends, and the
drive decodes exactly sector `lba` in either LBA branch. -/
theorem ideAtaAccess_decodes {device : IdeDevice} (found : s.devices drive.toNat = device)
    {ch : IdeChannel} (here : s.channels device.channel.toNat = ch) (ports : AtaPorts ch)
    (position : device.drive = 0 ∨ device.drive = 1)
    (linear : 0x10000000 ≤ lba ∨ device.features &&& 0x200 ≠ 0) (f : TaskFile) :
    ∃ tr, ((ideAtaAccess hw fuel direction drive lba numSectors buffer).run s).2.log = s.log ++ tr ∧
      (f.commandsSent ch.base tr ≠ [] ↔ (firstWait hw ch fuel s.bus).1 = true) ∧
      ∀ command file, (f.commandsSent ch.base tr).head? = some (command, file) →
        command = ideCommand (ideSelectMode device.features lba).mode direction ∧
          file.Decodes lba device.drive command := by
  obtain ⟨tr, log, ⟨stuck, _, silent⟩ | ⟨ended, rest, sent⟩⟩ :=
    ideAtaAccess_command hw fuel direction drive lba numSectors buffer s found here ports f
  · refine ⟨tr, log, by simp [silent, stuck], ?_⟩
    intro command file head
    rw [silent] at head
    cases head
  · refine ⟨tr, log, by simp [sent, ended], ?_⟩
    intro command file head
    rw [sent, List.head?_cons] at head
    cases head
    exact ⟨rfl, fileAfter_decodes device.drive numSectors f direction position linear⟩

/-- A write to a ready primary master, over stale registers. -/
theorem ideAtaAccess_decodes_master :
    ∃ tr file, ((ideAtaAccess (steadyBus 0x58) 1 .write 0 0x0ABCDEF1 1 0).run
        (foundState () (primaryMaster 0x10000000))).2.log = [] ++ tr ∧
      (TaskFile.commandsSent 0x1F0 ⟨⟨1, 2⟩, ⟨3, 4⟩, ⟨5, 6⟩, ⟨7, 8⟩, 9⟩ tr).head? =
        some (0x30, file) ∧ file.Decodes 0x0ABCDEF1 0 0x30 := by
  obtain ⟨tr, log, sends, decodes⟩ := ideAtaAccess_decodes (steadyBus 0x58) 1 .write 0 0x0ABCDEF1 1 0
    (foundState () (primaryMaster 0x10000000)) rfl rfl (Or.inl ⟨rfl, rfl⟩) (Or.inl rfl)
    (Or.inr (by decide)) ⟨⟨1, 2⟩, ⟨3, 4⟩, ⟨5, 6⟩, ⟨7, 8⟩, 9⟩
  obtain ⟨⟨command, file⟩, rest, sent⟩ := List.exists_cons_of_ne_nil (sends.mpr rfl)
  have head := congrArg List.head? sent
  obtain ⟨rfl, decoded⟩ := decodes command file head
  exact ⟨tr, file, log, head, decoded⟩

end Trace

section Blocks

variable {σ : Type} (hw : Bus σ)

/-- The words that crossed a data port. -/
def dataWords (port : UInt16) (tr : List Access) : Nat :=
  tr.countP fun a =>
    match a with
    | .inw p _ => p == port
    | .outw p _ => p == port
    | _ => false

/-- From `s` to `t` exactly `k` words crossed the data port. -/
def Moved (port : UInt16) (k : Nat) (s t : IdeState σ) : Prop :=
  ∃ tr, t.log = s.log ++ tr ∧ dataWords port tr = k

variable {port : UInt16} {s t u : IdeState σ} {k l : Nat}

theorem dataWords_append (port : UInt16) (first second : List Access) :
    dataWords port (first ++ second) = dataWords port first + dataWords port second :=
  List.countP_append ..

theorem Moved.trans (first : Moved port k s t) (second : Moved port l t u) :
    Moved port (k + l) s u := by
  obtain ⟨tr, log, rfl⟩ := first
  obtain ⟨ur, log', rfl⟩ := second
  exact ⟨tr ++ ur, by rw [log', log, List.append_assoc], dataWords_append port tr ur⟩

theorem dataWords_reads {tr : List Access}
    (reads : ∀ a ∈ tr, ∃ p v, a = Access.inb p v) : dataWords port tr = 0 := by
  rw [dataWords, List.countP_eq_zero]
  intro a member
  obtain ⟨p, v, rfl⟩ := reads a member
  simp

theorem dataWords_outAccesses (writes : List (UInt16 × UInt8)) :
    dataWords port (outAccesses writes) = 0 := by
  rw [dataWords, outAccesses, List.countP_map, List.countP_eq_zero]
  intro w _
  simp

theorem dataWords_inw (words : List UInt16) :
    dataWords port (words.map (Access.inw port)) = words.length := by
  rw [dataWords, List.countP_map, List.countP_eq_length]
  intro w _
  simp

theorem dataWords_outw (words : List UInt16) :
    dataWords port (words.map (Access.outw port)) = words.length := by
  rw [dataWords, List.countP_map, List.countP_eq_length]
  intro w _
  simp

theorem moved_polling (port : UInt16) (fuel : Nat) (channel advancedCheck : UInt8) (s : IdeState σ) :
    Moved port 0 s ((idePolling hw fuel channel advancedCheck).run s).2 := by
  obtain ⟨result, b, tr, run, reads⟩ := idePolling_reads hw fuel channel advancedCheck s
  rw [run]
  exact ⟨tr, rfl, dataWords_reads reads⟩

theorem moved_write (channel reg data : UInt8) (s : IdeState σ) :
    Moved port 0 s (ideWriteRegister hw channel reg data s) := by
  rw [ideWriteRegister_after]
  exact ⟨_, rfl, dataWords_outAccesses _⟩

theorem moved_insw (n : Nat) (dst : UInt32) (s : IdeState σ) :
    Moved port n s (s.onMachine (repInsw hw port n dst)) := by
  rw [onMachine_repInsw]
  exact ⟨_, rfl, by rw [dataWords_inw, length_readWords]⟩

theorem moved_outsw (n : Nat) (src : UInt32) (s : IdeState σ) :
    Moved port n s (s.onMachine (repOutsw hw port n src)) := by
  rw [onMachine_repOutsw]
  exact ⟨_, rfl, by rw [dataWords_outw, length_memWords]⟩

/-- A read loop that reports no error has moved all its blocks. -/
theorem moved_pioRead (fuel : Nat) (channel : UInt8) (n : Nat) (buffer : UInt32)
    (s : IdeState σ) :
    Yields (idePioRead hw fuel channel port n buffer) s
      fun err t => err = 0 → Moved port (256 * n) s t := by
  induction n generalizing buffer s with
  | zero =>
      exact Yields.pure fun _ => ⟨[], by simp, rfl⟩
  | succ n ih =>
      rw [idePioRead]
      apply Yields.bind
      intro err t run
      have quiet := moved_polling hw port fuel channel 1 s
      rw [run] at quiet
      by_cases failed : err ≠ 0
      · rw [if_pos failed]
        exact Yields.pure fun zero => absurd zero failed
      · rw [if_neg failed]
        apply Yields.modify
        refine (ih (buffer + 512) _).mono ?_
        intro err' v more zero
        have all := (quiet.trans (moved_insw hw 256 buffer t)).trans (more zero)
        rwa [Nat.zero_add, Nat.add_comm 256, ← Nat.mul_succ] at all

theorem moved_pioWrite (fuel : Nat) (channel : UInt8) (n : Nat) (buffer : UInt32)
    (s : IdeState σ) :
    Yields (idePioWrite hw fuel channel port n buffer) s
      fun _ t => Moved port (256 * n) s t := by
  induction n generalizing buffer s with
  | zero =>
      exact Yields.pure ⟨[], by simp, rfl⟩
  | succ n ih =>
      rw [idePioWrite]
      apply Yields.bind
      intro err t run
      have quiet := moved_polling hw port fuel channel 0 s
      rw [run] at quiet
      apply Yields.modify
      refine (ih (buffer + 512) _).mono ?_
      intro _ v more
      have all := (quiet.trans (moved_outsw hw 256 buffer t)).trans more
      rwa [Nat.zero_add, Nat.add_comm 256, ← Nat.mul_succ] at all

/-- A transfer that returns 0 has moved one block for each sector asked for. -/
theorem moved_transfer (fuel : Nat) (direction : Direction) (channel : UInt8) (mode : LbaMode)
    (numSectors : UInt8) (buffer : UInt32) (s : IdeState σ) :
    Yields (ideTransfer hw fuel direction channel port mode numSectors buffer) s
      fun err t => err = 0 → Moved port (256 * numSectors.toNat) s t := by
  cases direction with
  | read => exact moved_pioRead hw fuel channel _ buffer s
  | write =>
      rw [ideTransfer]
      apply Yields.bind
      refine (moved_pioWrite hw fuel channel _ buffer s).mono ?_
      intro _ t written
      apply Yields.modify
      apply Yields.bind
      intro err v run
      have quiet := moved_polling hw port fuel channel 0
        (ideWriteRegister hw channel ataRegCommand (cacheFlushCommand mode) t)
      rw [run] at quiet
      apply Yields.pure
      intro _
      exact (written.trans (moved_write hw channel _ _ t)).trans quiet

theorem moved_access (fuel : Nat) (direction : Direction) (drive : UInt8) (lba : UInt32)
    (numSectors : UInt8) (buffer : UInt32) (s : IdeState σ) {device : IdeDevice}
    (found : s.devices drive.toNat = device) {ch : IdeChannel}
    (here : s.channels device.channel.toNat = ch) :
    Yields (ideAtaAccess hw fuel direction drive lba numSectors buffer) s
      fun err t => err = 0 → Moved ch.base (256 * numSectors.toNat) s t := by
  intro err u e
  obtain ⟨reads, t, _, _, _, ⟨run, _⟩ | ⟨run, log⟩⟩ :=
    ideAtaAccess_cases hw fuel direction drive lba numSectors buffer s found here
  · cases run.symm.trans e
  · intro zero
    have none : dataWords ch.base (reads.map (Access.inb (ch.base + 7))) = 0 := by
      apply dataWords_reads
      intro a member
      obtain ⟨v, _, rfl⟩ := List.mem_map.mp member
      exact ⟨_, v, rfl⟩
    have before : Moved ch.base 0 s t := by
      refine ⟨_, log, ?_⟩
      rw [dataWords_append, dataWords_outAccesses, Nat.add_zero]
      exact none
    have moved := moved_transfer hw fuel direction device.channel _ numSectors buffer t err u
      (run.symm.trans e) zero
    have all := before.trans moved
    rwa [Nat.zero_add] at all

end Blocks

end VDK
