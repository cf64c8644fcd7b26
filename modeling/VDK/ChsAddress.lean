import VDK.LbaCommands

/-!
# The sector a CHS command names

For a drive without the LBA bit `ide_ata_access` splits the sector number by 16
heads of 63 sectors. The sector and the head always fit their registers; the
cylinder is kept in 16 bits, so the last sector it can name is number 66060287.
-/
namespace VDK
open Fuel ByteMem

/-- Sectors are counted from 1, cylinders and heads from 0. -/
structure ChsAddress where
  cylinder : Nat
  head : Nat
  sector : Nat
  deriving DecidableEq, Repr

/-- On 16 heads of 63 sectors, the address is the one of sector `lba`. -/
structure ChsAddress.Names (lba : Nat) (a : ChsAddress) : Prop where
  first : 1 ≤ a.sector
  track : a.sector ≤ 63
  head : a.head ≤ 15
  linear : (a.cylinder * 16 + a.head) * 63 + a.sector - 1 = lba

structure TaskFile.HoldsChs (slavebit : UInt8) (a : ChsAddress) (f : TaskFile) : Prop where
  sector : f.lbaLow.cur.toNat = a.sector
  cylinder : f.lbaMid.cur.toNat + 256 * f.lbaHigh.cur.toNat = a.cylinder
  device : f.device.toNat = 0xA0 + 16 * slavebit.toNat + a.head

/-- What the CHS branch makes of a sector number. -/
def chsSplit (lba : Nat) : ChsAddress :=
  ⟨lba / 1008 % 65536, lba % 1008 / 63, lba % 63 + 1⟩

section Geometry

variable {lba other : Nat}

theorem chsSplit_names_iff : (chsSplit lba).Names lba ↔ lba < 66060288 := by
  constructor
  · intro named
    have linear := named.linear
    simp only [chsSplit] at linear
    omega
  · intro small
    constructor
    · exact Nat.le_add_left 1 _
    · exact Nat.mod_lt lba (by decide)
    · simp only [chsSplit]
      omega
    · simp only [chsSplit]
      omega

/-- Sectors a multiple of the space apart share their address, and no others do. -/
theorem chsSplit_eq_iff : chsSplit lba = chsSplit other ↔ lba % 66060288 = other % 66060288 := by
  simp only [chsSplit, ChsAddress.mk.injEq]
  constructor
  · rintro ⟨cylinder, head, sector⟩
    omega
  · intro same
    refine ⟨?_, ?_, ?_⟩ <;> omega

end Geometry

section Registers

variable {lba : UInt32} {features : UInt16}

theorem ideSelectMode_chs (low : ¬ 0x10000000 ≤ lba) (none : features &&& 0x200 = 0) :
    ∃ (sect : UInt8) (cyl : UInt16) (head : UInt8), ideSelectMode features lba =
        { mode := .chs, io0 := sect, io1 := ((cyl >>> 0) &&& 0xFF).toUInt8,
          io2 := ((cyl >>> 8) &&& 0xFF).toUInt8, io3 := 0, io4 := 0, io5 := 0, head := head } ∧
      sect.toNat = (chsSplit lba.toNat).sector ∧
      cyl.toNat = (chsSplit lba.toNat).cylinder ∧
      head.toNat = (chsSplit lba.toNat).head := by
  have bound := lt_of_not_lba48 low
  have sector : (lba % 63 + 1).toUInt8.toNat = lba.toNat % 63 + 1 := by
    simp only [UInt32.toNat_toUInt8, UInt32.toNat_add, UInt32.toNat_mod, UInt32.reduceToNat]
    omega
  have start : (lba + 1 - (lba % 63 + 1).toUInt8.toUInt32).toNat =
      lba.toNat - lba.toNat % 63 := by
    simp only [UInt32.toNat_sub, UInt32.toNat_add, UInt8.toNat_toUInt32, sector,
      UInt32.reduceToNat]
    omega
  refine ⟨(lba % 63 + 1).toUInt8,
    ((lba + 1 - (lba % 63 + 1).toUInt8.toUInt32) / (16 * 63)).toUInt16,
    ((lba + 1 - (lba % 63 + 1).toUInt8.toUInt32) % (16 * 63) / 63).toUInt8, ?_, sector, ?_, ?_⟩
  · rw [ideSelectMode, if_neg low, if_neg (not_not_intro none)]
  · simp only [UInt32.toNat_toUInt16, UInt32.toNat_div, start, chsSplit]
    change (lba.toNat - lba.toNat % 63) / 1008 % 2 ^ 16 = _
    omega
  · simp only [UInt32.toNat_toUInt8, UInt32.toNat_div, UInt32.toNat_mod, start, chsSplit]
    change (lba.toNat - lba.toNat % 63) % 1008 / 63 % 2 ^ 8 = _
    omega

variable (slavebit numSectors : UInt8) (f : TaskFile)

theorem fileAfter_chs (one : slavebit = 0 ∨ slavebit = 1) (low : ¬ 0x10000000 ≤ lba)
    (none : features &&& 0x200 = 0) :
    (fileAfter slavebit numSectors (ideSelectMode features lba) f).HoldsChs slavebit
      (chsSplit lba.toNat) := by
  obtain ⟨sect, cyl, head, selected, sector, cylinder, top⟩ := ideSelectMode_chs low none
  rw [selected]
  simp only [fileAfter, if_true, reduceCtorEq, if_false, ByteFifo.push]
  have nibble : head.toNat < 16 := by
    rw [top]
    simp only [chsSplit]
    omega
  constructor
  · exact sector
  · have wide := cyl.toNat_lt
    rw [← cylinder]
    simp only [UInt16.toNat_toUInt8, UInt16.toNat_and, UInt16.toNat_shiftRight]
    change (cyl.toNat >>> 0 &&& 2 ^ 8 - 1) % 2 ^ 8 + 256 * ((cyl.toNat >>> 8 &&& 2 ^ 8 - 1) % 2 ^ 8)
      = _
    rw [Nat.and_two_pow_sub_one_eq_mod, Nat.and_two_pow_sub_one_eq_mod, Nat.shiftRight_eq_div_pow,
      Nat.shiftRight_eq_div_pow]
    omega
  · rw [← top]
    exact deviceRegister (Or.inl rfl) one nibble

end Registers

/-- A transfer from a drive without the LBA bit, below the LBA48 branch, that the range check
lets through. -/
structure ChsRequest {σ : Type} (hw : Bus σ) where
  fuel : Nat
  direction : Direction
  drive : UInt8
  lba : UInt32
  numSectors : UInt8
  buffer : UInt32
  state : IdeState σ
  passed : sectorCheck state.devices drive numSectors lba = .passed
  noLba : (state.devices drive.toNat).features &&& 0x200 = 0
  low : lba.toNat < 2 ^ 28
  ports : AtaPorts (state.channels (state.devices drive.toNat).channel.toNat)
  position : (state.devices drive.toNat).drive = 0 ∨ (state.devices drive.toNat).drive = 1

namespace ChsRequest

variable {σ : Type} {hw : Bus σ}

def device (r : ChsRequest hw) : IdeDevice := r.state.devices r.drive.toNat

def channel (r : ChsRequest hw) : IdeChannel := r.state.channels r.device.channel.toNat

def run (r : ChsRequest hw) : Option UInt8 × IdeState σ :=
  (ideAtaAccess hw r.fuel r.direction r.drive r.lba r.numSectors r.buffer).run r.state

/-- The access's first busy wait ends within the fuel. -/
def Ended (r : ChsRequest hw) : Prop :=
  (firstWait hw r.channel r.fuel r.state.bus).1 = true

/-- The transfer's command finds `a` in the registers, which held `f` before. -/
def Sends (r : ChsRequest hw) (f : TaskFile) (a : ChsAddress) : Prop :=
  ∃ tr command file, r.run.2.log = r.state.log ++ tr ∧
    (f.commandsSent r.channel.base tr).head? = some (command, file) ∧
      file.HoldsChs r.device.drive a

theorem sends_iff (r : ChsRequest hw) (f : TaskFile) :
    (r.Ended → r.Sends f (chsSplit r.lba.toNat)) ∧
      ∀ a, r.Sends f a → a = chsSplit r.lba.toNat := by
  have low : ¬ 0x10000000 ≤ r.lba := fun h => Nat.not_lt.mpr (UInt32.le_iff_toNat_le.mp h) r.low
  have held := fileAfter_chs r.device.drive r.numSectors f r.position low r.noLba
  obtain ⟨tr, log, sent⟩ := ideAtaAccess_command hw r.fuel r.direction r.drive r.lba
    r.numSectors r.buffer r.state rfl rfl r.ports f
  constructor
  · intro ended
    obtain ⟨_, rest, sent⟩ := sent.resolve_left fun stuck => by
      rw [Ended, channel, device, stuck.1] at ended
      cases ended
    exact ⟨tr, _, _, log, by rw [channel, device, sent, List.head?_cons], held⟩
  · rintro a ⟨ur, command, file, log', head, holds⟩
    have same : ur = tr := List.append_cancel_left (log'.symm.trans log)
    subst same
    rcases sent with ⟨_, _, silent⟩ | ⟨_, rest, sent⟩
    · rw [channel, device, silent] at head
      cases head
    · rw [channel, device, sent, List.head?_cons] at head
      cases head
      have device := holds.device.symm.trans held.device
      rw [ChsAddress.mk.injEq]
      refine ⟨holds.cylinder.symm.trans held.cylinder, ?_, holds.sector.symm.trans held.sector⟩
      exact Nat.add_left_cancel device

/-- A command is sent as soon as the busy wait ends. Its registers name the requested sector
exactly below 66060288, and two requests share them exactly when their sectors agree modulo
66060288. -/
theorem registers_name_iff (r : ChsRequest hw) (f : TaskFile) :
    (r.Ended → ∃ a, r.Sends f a) ∧
      ∀ a, r.Sends f a → (a.Names r.lba.toNat ↔ r.lba.toNat < 66060288) ∧
        ∀ (other : ChsRequest hw) (g : TaskFile) (b : ChsAddress), other.Sends g b →
          (a = b ↔ r.lba.toNat % 66060288 = other.lba.toNat % 66060288) := by
  obtain ⟨sends, only⟩ := r.sends_iff f
  refine ⟨fun ended => ⟨_, sends ended⟩, ?_⟩
  intro a sent
  rw [only a sent]
  refine ⟨chsSplit_names_iff, ?_⟩
  intro other g b theirs
  rw [(other.sends_iff g).2 b theirs]
  exact chsSplit_eq_iff

end ChsRequest

def cylinderDisk : IdeDevice := { primaryMaster 0x10000000 with features := 0 }

def cylinderRead (lba : UInt32) (low : lba.toNat < 0x0FFFFFFF) : ChsRequest (steadyBus 0x58) where
  fuel := 1
  direction := .read
  drive := 0
  lba := lba
  numSectors := 1
  buffer := 0
  state := foundState () cylinderDisk
  passed := by
    rw [sectorCheck_passed]
    refine ⟨by decide, by decide, fun _ => ?_⟩
    rw [UInt32.le_iff_toNat_le, UInt32.toNat_add]
    change (lba.toNat + 1) % 2 ^ 32 ≤ 268435456
    omega
  noLba := by decide
  low := Nat.lt_trans low (by decide)
  ports := Or.inl ⟨rfl, rfl⟩
  position := Or.inl rfl

/-- Sector 66060287 is the last one of cylinder 65535. -/
theorem registers_name_iff_last :
    ∃ a, (cylinderRead 66060287 (by decide)).Sends ⟨⟨1, 2⟩, ⟨3, 4⟩, ⟨5, 6⟩, ⟨7, 8⟩, 9⟩ a ∧
      a.Names 66060287 := by
  obtain ⟨sends, named⟩ := (cylinderRead 66060287 (by decide)).registers_name_iff
    ⟨⟨1, 2⟩, ⟨3, 4⟩, ⟨5, 6⟩, ⟨7, 8⟩, 9⟩
  obtain ⟨a, sent⟩ := sends rfl
  exact ⟨a, sent, (named a sent).1.mpr (by decide)⟩

/-- Sector 66060288 passes the check, and its registers are those of sector 0. -/
theorem sectors_share_registers :
    ∃ a, (cylinderRead 66060288 (by decide)).Sends ⟨⟨1, 2⟩, ⟨3, 4⟩, ⟨5, 6⟩, ⟨7, 8⟩, 9⟩ a ∧
      (cylinderRead 0 (by decide)).Sends ⟨⟨1, 2⟩, ⟨3, 4⟩, ⟨5, 6⟩, ⟨7, 8⟩, 9⟩ a ∧
        ¬ a.Names 66060288 := by
  refine ⟨⟨0, 0, 1⟩, ?_, ?_, fun named => absurd named.linear (by decide)⟩
  · have ended : (cylinderRead 66060288 (by decide)).Ended := rfl
    exact ((cylinderRead 66060288 (by decide)).sends_iff _).1 ended
  · have ended : (cylinderRead 0 (by decide)).Ended := rfl
    exact ((cylinderRead 0 (by decide)).sends_iff _).1 ended

end VDK
