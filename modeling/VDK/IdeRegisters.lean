import VDK.PortMachine

/-!
# Register access of the IDE driver (`libkern/ide.c`, `libkern/ide.h`)

The channel and device tables are total functions of an index: indices below 2 and
`maximumIdeDevices` are the C arrays, later ones stand for whatever memory lies behind
them. `printf` calls are kept as format and
arguments, since the terminal plays no part in what the driver does.
-/
namespace VDK
open Fuel ByteMem

structure IdeChannel where
  base : UInt16
  control : UInt16
  bmIde : UInt16
  noIntr : UInt16
  deriving DecidableEq, Repr

/-- `model` is the 41-byte field, whose last byte is always NUL. -/
structure IdeDevice where
  reserved : UInt8
  channel : UInt8
  drive : UInt8
  type : UInt16
  signature : UInt16
  features : UInt16
  commandSets : UInt32
  size : UInt32
  model : List UInt8
  deriving DecidableEq, Repr

def IdeDevice.modelPtr (d : IdeDevice) : Ptr := fun i => d.model.getD i 0

abbrev maximumIdeDevices : Nat := 5

abbrev ataRegData : UInt8 := 0x00
abbrev ataRegError : UInt8 := 0x01
abbrev ataRegSeccount0 : UInt8 := 0x02
abbrev ataRegLba0 : UInt8 := 0x03
abbrev ataRegLba1 : UInt8 := 0x04
abbrev ataRegLba2 : UInt8 := 0x05
abbrev ataRegHddevsel : UInt8 := 0x06
abbrev ataRegCommand : UInt8 := 0x07
abbrev ataRegStatus : UInt8 := 0x07
abbrev ataRegSeccount1 : UInt8 := 0x08
abbrev ataRegLba3 : UInt8 := 0x09
abbrev ataRegLba4 : UInt8 := 0x0A
abbrev ataRegLba5 : UInt8 := 0x0B
abbrev ataRegControl : UInt8 := 0x0C
abbrev ataRegAltstatus : UInt8 := 0x0C

abbrev ataSrBsy : UInt8 := 0x80
abbrev ataSrDf : UInt8 := 0x20
abbrev ataSrDrq : UInt8 := 0x08
abbrev ataSrErr : UInt8 := 0x01

abbrev ideAta : UInt16 := 0x00
abbrev ideAtapi : UInt16 := 0x01

inductive PrintfArg where
  | str (text : String)
  | chars (bytes : List UInt8)
  | word (value : UInt32)
  deriving DecidableEq, Repr

structure PrintfCall where
  fmt : String
  args : List PrintfArg
  deriving DecidableEq, Repr

/-- The driver's globals on top of the machine. -/
structure IdeState (σ : Type) extends Machine σ where
  channels : Nat → IdeChannel
  devices : Nat → IdeDevice
  ideIrqInvoked : UInt8
  printed : List PrintfCall

namespace IdeState

variable {σ : Type}

def onMachine (f : Machine σ → Machine σ) (s : IdeState σ) : IdeState σ :=
  { s with toMachine := f s.toMachine }

def printf (fmt : String) (args : List PrintfArg) (s : IdeState σ) : IdeState σ :=
  { s with printed := s.printed ++ [⟨fmt, args⟩] }

end IdeState

section Registers

variable {σ : Type} (hw : Bus σ)

/-- The if-chain every register routine shares; 16-bit port arithmetic wraps. -/
def registerPort (ch : IdeChannel) (reg : UInt8) : Option UInt16 :=
  if reg < 0x08 then some (ch.base + reg.toUInt16 - 0x00)
  else if reg < 0x0C then some (ch.base + reg.toUInt16 - 0x06)
  else if reg < 0x0E then some (ch.control + reg.toUInt16 - 0x0A)
  else if reg < 0x16 then some (ch.bmIde + reg.toUInt16 - 0x0E)
  else none

/-- Registers 0x08-0x0B share ports with 0x02-0x05 and are reached between two control writes. -/
def shadowed (reg : UInt8) : Bool := 0x07 < reg && reg < 0x0C

def outRegister (channel reg data : UInt8) (s : IdeState σ) : IdeState σ :=
  match registerPort (s.channels channel.toNat) reg with
  | some port => s.onMachine (outportb hw port data)
  | none => s

/-- `ide_write_register`; its nested calls pass `ATA_REG_CONTROL`, which is not
shadowed, so they are single writes. -/
def ideWriteRegister (channel reg data : UInt8) (s : IdeState σ) : IdeState σ :=
  if shadowed reg then
    let noIntr := (s.channels channel.toNat).noIntr
    let s := outRegister hw channel ataRegControl (0x80 ||| noIntr).toUInt8 s
    let s := outRegister hw channel reg data s
    outRegister hw channel ataRegControl noIntr.toUInt8 s
  else outRegister hw channel reg data s

def inRegister (channel reg : UInt8) (s : IdeState σ) : UInt8 × IdeState σ :=
  match registerPort (s.channels channel.toNat) reg with
  | some port =>
      ((inportb hw port s.toMachine).1, s.onMachine fun m => (inportb hw port m).2)
  | none => (0, s)

/-- `ide_read_register`; no caller reads a register past the last range. -/
def ideReadRegister (channel reg : UInt8) (s : IdeState σ) : UInt8 × IdeState σ :=
  if shadowed reg then
    let noIntr := (s.channels channel.toNat).noIntr
    let s := ideWriteRegister hw channel ataRegControl (0x80 ||| noIntr).toUInt8 s
    let r := inRegister hw channel reg s
    (r.1, ideWriteRegister hw channel ataRegControl noIntr.toUInt8 r.2)
  else inRegister hw channel reg s

/-- `ide_read_buffer`; the long words stored into the buffer, in order. -/
def ideReadBuffer (channel reg : UInt8) (quads : Nat) (s : IdeState σ) :
    List UInt32 × IdeState σ :=
  let read (s : IdeState σ) : List UInt32 × IdeState σ :=
    match registerPort (s.channels channel.toNat) reg with
    | some port =>
        let r := insl hw port quads s.toMachine
        (r.1, { s with toMachine := r.2 })
    | none => ([], s)
  if shadowed reg then
    let noIntr := (s.channels channel.toNat).noIntr
    let s := ideWriteRegister hw channel ataRegControl (0x80 ||| noIntr).toUInt8 s
    let r := read s
    (r.1, ideWriteRegister hw channel ataRegControl noIntr.toUInt8 r.2)
  else read s

/-- `while (ide_read_register(channel, ATA_REG_STATUS) & ATA_SR_BSY);` -/
def waitWhileBusy (channel : UInt8) : Nat → Exec (IdeState σ) Unit
  | 0 => Exec.stop
  | fuel + 1 => do
      let status ← Exec.act (ideReadRegister hw channel ataRegStatus)
      if status &&& ataSrBsy ≠ 0 then waitWhileBusy channel fuel else pure ()

/-- The verdict of `ide_polling` on the status it checks. -/
def statusError (state : UInt8) : UInt8 :=
  if state &&& ataSrErr ≠ 0 then 2
  else if state &&& ataSrDf ≠ 0 then 1
  else if state &&& ataSrDrq = 0 then 3
  else 0

def altStatusDelay (channel : UInt8) : Nat → IdeState σ → IdeState σ
  | 0, s => s
  | n + 1, s => altStatusDelay channel n (ideReadRegister hw channel ataRegAltstatus s).2

/-- `ide_polling`. -/
def idePolling (fuel : Nat) (channel advancedCheck : UInt8) : Exec (IdeState σ) UInt8 := do
  Exec.modify (altStatusDelay hw channel 4)
  waitWhileBusy hw channel fuel
  if advancedCheck ≠ 0 then do
    let state ← Exec.act (ideReadRegister hw channel ataRegStatus)
    pure (statusError state)
  else pure 0

/-- Error register bits of `ide_print_error`, in the order they are tested. -/
def errorCauses : List (UInt8 × String × UInt8) :=
  [(0x01, "- No Address Mark Found\n", 7), (0x02, "- No Media or Media Error\n", 3),
    (0x04, "- Command Aborted\n", 20), (0x08, "- No Media or Media Error\n", 3),
    (0x10, "- ID mark not Found\n", 21), (0x20, "- No Media or Media Error\n", 3),
    (0x40, "- Uncorrectable Data Error\n", 22), (0x80, "- Bad Sectors\n", 13)]

def reportCauses (st : UInt8) : List (UInt8 × String × UInt8) → UInt8 × IdeState σ →
    UInt8 × IdeState σ
  | [], r => r
  | (mask, text, code) :: rest, r =>
      reportCauses st rest (if st &&& mask ≠ 0 then (code, r.2.printf text []) else r)

/-- `ide_print_error`. -/
def idePrintError (drive err : UInt8) (s : IdeState σ) : UInt8 × IdeState σ :=
  if err = 0 then (err, s)
  else
    let d := s.devices drive.toNat
    let s := s.printf "IDE:" []
    let r : UInt8 × IdeState σ :=
      if err = 1 then (19, s.printf "- Device Fault\n" [])
      else if err = 2 then
        let st := ideReadRegister hw d.channel ataRegError s
        reportCauses st.1 errorCauses (err, st.2)
      else if err = 3 then (23, s.printf "- Reads Nothing\n" [])
      else if err = 4 then (8, s.printf "- Write Protected\n" [])
      else (err, s)
    (r.1, r.2.printf "- [%s %s] %s\n"
      [.str (["Primary", "Secondary"].getD d.channel.toNat ""),
        .str (["Master", "Slave"].getD d.drive.toNat ""), .chars d.model])

end Registers

section RegisterSpecs

variable {σ : Type} (hw : Bus σ)

/-- The byte writes one `ide_write_register` makes. -/
def registerWrites (ch : IdeChannel) (reg data : UInt8) : List (UInt16 × UInt8) :=
  let one (reg data : UInt8) := ((registerPort ch reg).toList).map fun port => (port, data)
  if shadowed reg then
    one ataRegControl (0x80 ||| ch.noIntr).toUInt8 ++ one reg data ++
      one ataRegControl ch.noIntr.toUInt8
  else one reg data

@[simp] theorem onMachine_onMachine (f g : Machine σ → Machine σ) (s : IdeState σ) :
    (s.onMachine f).onMachine g = s.onMachine fun m => g (f m) := rfl

@[simp] theorem onMachine_channels (f : Machine σ → Machine σ) (s : IdeState σ) :
    (s.onMachine f).channels = s.channels := rfl

@[simp] theorem onMachine_devices (f : Machine σ → Machine σ) (s : IdeState σ) :
    (s.onMachine f).devices = s.devices := rfl

theorem outRegister_eq (channel reg data : UInt8) (s : IdeState σ) :
    outRegister hw channel reg data s = s.onMachine (sendAll hw
      (((registerPort (s.channels channel.toNat) reg).toList).map fun port => (port, data))) := by
  unfold outRegister
  cases registerPort (s.channels channel.toNat) reg with
  | none => rfl
  | some port => rfl

theorem ideWriteRegister_eq (channel reg data : UInt8) (s : IdeState σ) :
    ideWriteRegister hw channel reg data s =
      s.onMachine (sendAll hw (registerWrites (s.channels channel.toNat) reg data)) := by
  unfold ideWriteRegister registerWrites
  split
  · simp only [outRegister_eq, onMachine_channels, onMachine_onMachine, sendAll_append,
      List.append_assoc]
  · exact outRegister_eq hw channel reg data s

end RegisterSpecs

end VDK
