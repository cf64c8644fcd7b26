import VDK.IdeRegisters
import VDK.FirstFit
import VDK.LibsaString

/-!
# Sector transfers of the IDE driver (`libkern/ide.c`)

`ideAtaAccess` follows the source's numbered phases. The DMA branches are empty
in the source and `dma` is the constant 0. The locals that the source leaves
unassigned on some path (`err` of the sector functions) are arguments here.
-/
namespace VDK
open Fuel ByteMem FirstFit

inductive Direction where
  | read
  | write
  deriving DecidableEq, Repr

inductive LbaMode where
  | chs
  | lba28
  | lba48
  deriving DecidableEq, Repr

/-- The addressing locals of `ide_ata_access`: `lba_mode`, `lba_io[0..5]` and `head`. -/
structure LbaAddress where
  mode : LbaMode
  io0 : UInt8
  io1 : UInt8
  io2 : UInt8
  io3 : UInt8
  io4 : UInt8
  io5 : UInt8
  head : UInt8
  deriving DecidableEq, Repr

/-- Phase (I): select one of LBA28, LBA48 or CHS from the first sector alone. -/
def ideSelectMode (features : UInt16) (lba : UInt32) : LbaAddress :=
  if lba ≥ 0x10000000 then
    { mode := .lba48
      io0 := ((lba &&& 0x000000FF) >>> 0).toUInt8
      io1 := ((lba &&& 0x0000FF00) >>> 8).toUInt8
      io2 := ((lba &&& 0x00FF0000) >>> 16).toUInt8
      io3 := ((lba &&& 0xFF000000) >>> 24).toUInt8
      io4 := 0
      io5 := 0
      head := 0 }
  else if features &&& 0x200 ≠ 0 then
    { mode := .lba28
      io0 := ((lba &&& 0x00000FF) >>> 0).toUInt8
      io1 := ((lba &&& 0x000FF00) >>> 8).toUInt8
      io2 := ((lba &&& 0x0FF0000) >>> 16).toUInt8
      io3 := 0
      io4 := 0
      io5 := 0
      head := ((lba &&& 0xF000000) >>> 24).toUInt8 }
  else
    let sect := (lba % 63 + 1).toUInt8
    let cyl := ((lba + 1 - sect.toUInt32) / (16 * 63)).toUInt16
    { mode := .chs
      io0 := sect
      io1 := ((cyl >>> 0) &&& 0xFF).toUInt8
      io2 := ((cyl >>> 8) &&& 0xFF).toUInt8
      io3 := 0
      io4 := 0
      io5 := 0
      head := ((lba + 1 - sect.toUInt32) % (16 * 63) / 63).toUInt8 }

/-- Phase (VI) with `dma == 0`; the DMA commands are never selected. -/
def ideCommand : LbaMode → Direction → UInt8
  | .chs, .read => 0x20
  | .lba28, .read => 0x20
  | .lba48, .read => 0x24
  | .chs, .write => 0x30
  | .lba28, .write => 0x30
  | .lba48, .write => 0x34

def cacheFlushCommand : LbaMode → UInt8
  | .chs => 0xE7
  | .lba28 => 0xE7
  | .lba48 => 0xEA

section Access

variable {σ : Type} (hw : Bus σ) (fuel : Nat)

/-- The loop of the PIO read; `n` blocks are left. -/
def idePioRead (channel : UInt8) (port : UInt16) : Nat → UInt32 → Exec (IdeState σ) UInt8
  | 0, _ => pure 0
  | n + 1, buffer => do
      let err ← idePolling hw fuel channel 1
      if err ≠ 0 then pure err
      else do
        Exec.modify (IdeState.onMachine (repInsw hw port 256 buffer))
        idePioRead channel port n (buffer + 512)

/-- The loop of the PIO write; the verdict of `ide_polling` is dropped. -/
def idePioWrite (channel : UInt8) (port : UInt16) : Nat → UInt32 → Exec (IdeState σ) Unit
  | 0, _ => pure ()
  | n + 1, buffer => do
      let _ ← idePolling hw fuel channel 0
      Exec.modify (IdeState.onMachine (repOutsw hw port 256 buffer))
      idePioWrite channel port n (buffer + 512)

/-- The assignment to `no_intr` and `g_ide_irq_invoked` in the first statement. -/
def maskInterrupts (channel : UInt8) (s : IdeState σ) : IdeState σ :=
  { s with
    ideIrqInvoked := 0
    channels := Function.update s.channels channel.toNat
      { s.channels channel.toNat with noIntr := 2 } }

/-- Phases (IV) and (V): drive selection and parameters. -/
def ideSendParameters (channel slavebit numSectors : UInt8) (addr : LbaAddress)
    (s : IdeState σ) : IdeState σ :=
  let select : UInt8 := if addr.mode = .chs then 0xA0 else 0xE0
  let s := ideWriteRegister hw channel ataRegHddevsel (select ||| slavebit <<< 4 ||| addr.head) s
  let s :=
    if addr.mode = .lba48 then
      let s := ideWriteRegister hw channel ataRegSeccount1 0 s
      let s := ideWriteRegister hw channel ataRegLba3 addr.io3 s
      let s := ideWriteRegister hw channel ataRegLba4 addr.io4 s
      ideWriteRegister hw channel ataRegLba5 addr.io5 s
    else s
  let s := ideWriteRegister hw channel ataRegSeccount0 numSectors s
  let s := ideWriteRegister hw channel ataRegLba0 addr.io0 s
  let s := ideWriteRegister hw channel ataRegLba1 addr.io1 s
  ideWriteRegister hw channel ataRegLba2 addr.io2 s

def ideTransfer (direction : Direction) (channel : UInt8) (port : UInt16) (mode : LbaMode)
    (numSectors : UInt8) (buffer : UInt32) : Exec (IdeState σ) UInt8 :=
  match direction with
  | .read => idePioRead hw fuel channel port numSectors.toNat buffer
  | .write => do
      idePioWrite hw fuel channel port numSectors.toNat buffer
      Exec.modify (ideWriteRegister hw channel ataRegCommand (cacheFlushCommand mode))
      let _ ← idePolling hw fuel channel 0
      pure 0

def ideAtaAccess (direction : Direction) (drive : UInt8) (lba : UInt32) (numSectors : UInt8)
    (buffer : UInt32) : Exec (IdeState σ) UInt8 := do
  let s ← Exec.get
  let device := s.devices drive.toNat
  let channel := device.channel
  let bus := (s.channels channel.toNat).base
  Exec.modify (maskInterrupts channel)
  Exec.modify (ideWriteRegister hw channel ataRegControl 2)
  let addr := ideSelectMode device.features lba
  waitWhileBusy hw channel fuel
  Exec.modify (ideSendParameters hw channel device.drive numSectors addr)
  Exec.modify (ideWriteRegister hw channel ataRegCommand (ideCommand addr.mode direction))
  ideTransfer hw fuel direction channel bus addr.mode numSectors buffer

end Access

inductive SectorCheck where
  | driveNotFound
  | outOfRange
  | passed
  deriving DecidableEq, Repr

/-- The two checks in front of a transfer, as `ide_read_sectors` and
`ide_write_sectors` both make them: the sum is a 32-bit one, and the index is
compared with `>`. -/
def sectorCheck (devices : Nat → IdeDevice) (drive numSectors : UInt8) (lba : UInt32) :
    SectorCheck :=
  if drive > 5 ∨ (devices drive.toNat).reserved = 0 then .driveNotFound
  else if lba + numSectors.toUInt32 > (devices drive.toNat).size ∧
      (devices drive.toNat).type = ideAta then .outOfRange
  else .passed

section Sectors

variable {σ : Type} (hw : Bus σ) (fuel : Nat)

/-- `ide_read_sectors` and `ide_write_sectors` differ in the direction only.
`err` is the byte the unassigned local holds when the device is no ATA drive. -/
def ideSectors (direction : Direction) (err drive numSectors : UInt8) (lba buffer : UInt32) :
    Exec (IdeState σ) Int := do
  let s ← Exec.get
  let device := s.devices drive.toNat
  match sectorCheck s.devices drive numSectors lba with
  | .driveNotFound => do
      Exec.modify (IdeState.printf "IDE ERROR: Drive not found\n" [])
      pure (-1)
  | .outOfRange => do
      Exec.modify (IdeState.printf
        "IDE ERROR: LBA address(0x%x) is greater than the available drive sectors(0x%x)\n"
        [.word lba, .word device.size])
      pure (-2)
  | .passed => do
      let err ← if device.type = ideAta then
          ideAtaAccess hw fuel direction drive lba numSectors buffer
        else pure err
      let code ← Exec.act (idePrintError hw drive err)
      pure (code.toNat : Int)

def ideReadSectors (err drive numSectors : UInt8) (lba buffer : UInt32) :
    Exec (IdeState σ) Int := ideSectors hw fuel .read err drive numSectors lba buffer

def ideWriteSectors (err drive numSectors : UInt8) (lba buffer : UInt32) :
    Exec (IdeState σ) Int := ideSectors hw fuel .write err drive numSectors lba buffer

end Sectors

def ataGetDriveByModel (devices : Nat → IdeDevice) (model : Text) : Int :=
  match firstIndex (fun i => strcmpText (devices i).modelPtr model = some 0)
      maximumIdeDevices with
  | some i => i
  | none => -1

end VDK
