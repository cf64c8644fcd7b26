import VDK.InterruptController
import VDK.Printf

/-!
# The mouse driver (`libkern/mouse.c`)

A packet is three bytes, one for each call of `mouse_handler`. Positions are `int`s,
deltas are signed `char`s, and the bounds are compared as `size_t`.
-/
namespace VDK
open Atomic Fuel Kernel ByteMem

abbrev ps2CmdPort : UInt16 := 0x64
abbrev mouseDataPort : UInt16 := 0x60

abbrev mouseCmdSetDefaults : UInt8 := 0xF6
abbrev mouseCmdEnablePacketStreaming : UInt8 := 0xF4
abbrev mouseCmdSampleRate : UInt8 := 0xF3
abbrev mouseCmdMouseId : UInt8 := 0xF2
abbrev mouseAcknowledge : UInt8 := 0xFA

/-- The value of a `char`. -/
def signedChar (c : UInt8) : Int := (c.toNat : Int).bmod (2 ^ 8)

/-- An `int` converted to `size_t`. -/
def toSize (n : Int) : Nat := (n % 2 ^ 64).toNat

def getMouseStatus (statusByte : UInt8) : MouseStatus where
  leftButton := statusByte &&& 0x01 ≠ 0
  rightButton := statusByte &&& 0x02 ≠ 0
  middleButton := statusByte &&& 0x04 ≠ 0
  always1 := statusByte &&& 0x08 ≠ 0
  xSign := statusByte &&& 0x10 ≠ 0
  ySign := statusByte &&& 0x20 ≠ 0
  xOverflow := statusByte &&& 0x40 ≠ 0
  yOverflow := statusByte &&& 0x80 ≠ 0

namespace Mouse

def setByte0 (b : UInt8) (m : Mouse) : Mouse := { m with byte0 := b }

def setByte1 (b : UInt8) (m : Mouse) : Mouse := { m with byte1 := b }

def setByte2 (b : UInt8) (m : Mouse) : Mouse := { m with byte2 := b }

def setCycle (n : UInt8) (m : Mouse) : Mouse := { m with cycle := n }

/-- The position with the deltas added and the four bounds applied, as written. -/
def move (m : Mouse) : Mouse :=
  let x := wrapInt (m.xPos + signedChar m.byte1)
  let y := wrapInt (m.yPos - signedChar m.byte2)
  let x := if x < 0 then 0 else x
  let y := if y < 0 then 0 else y
  let x := if toSize x > vgaWidth then wrapInt (vgaWidth - 1 : Nat) else x
  let y := if toSize y > vgaHeight then wrapInt (vgaHeight - 1 : Nat) else y
  { m with xPos := x, yPos := y }

end Mouse

def leftClicked : Text := Text.ofChars "Left button clicked".toList rfl

def rightClicked : Text := Text.ofChars "Right button clicked".toList rfl

def middleClicked : Text := Text.ofChars "Middle button clicked".toList rfl

section Driver

variable {σ : Type} (hw : Bus σ)

/-- The test of `mouse_wait`; `type` is true when waiting to write. -/
def mouseReady (type : Bool) (status : UInt8) : Bool :=
  if type then status &&& 2 = 0 else status &&& 1 = 1

def mouseWaitPolls (type : Bool) : Nat → Prog (Kernel σ) Unit
  | 0 => pure ()
  | timeOut + 1 => do
      let status ← inb hw ps2CmdPort
      if mouseReady type status then pure () else mouseWaitPolls type timeOut

def mouseWait (type : Bool) : Prog (Kernel σ) Unit := mouseWaitPolls hw type 100000

def mouseWrite (data : UInt8) : Prog (Kernel σ) Unit := do
  mouseWait hw true
  outb hw ps2CmdPort 0xD4
  mouseWait hw true
  outb hw mouseDataPort data

def mouseRead : Prog (Kernel σ) UInt8 := do
  mouseWait hw false
  inb hw mouseDataPort

def printMouseInfo : Prog (Kernel σ) Unit := do
  let s ← Prog.get
  Prog.when s.mouse.status.leftButton (onTerminal (printLiteral leftClicked))
  let s ← Prog.get
  Prog.when s.mouse.status.rightButton (onTerminal (printLiteral rightClicked))
  let s ← Prog.get
  Prog.when s.mouse.status.middleButton (onTerminal (printLiteral middleClicked))

/-- The cursor, redrawn on a cleared screen. -/
def drawCursor : Prog (Kernel σ) Unit := do
  onTerminal terminalInitialize
  let s ← Prog.get
  onTerminal (terminalPutentryat 'X'.toUInt8 7 (toSize s.mouse.xPos) (toSize s.mouse.yPos))

/-- The switch of `mouse_handler`. -/
def mouseCycle : Prog (Kernel σ) Unit := do
  let s ← Prog.get
  if s.mouse.cycle = 0 then do
    let b ← mouseRead hw
    Prog.modify (onMouse (Mouse.setByte0 b))
    Prog.modify (onMouse fun m => { m with status := getMouseStatus m.byte0 })
    Prog.modify (onMouse fun m => m.setCycle (m.cycle + 1))
  else if s.mouse.cycle = 1 then do
    let b ← mouseRead hw
    Prog.modify (onMouse (Mouse.setByte1 b))
    Prog.modify (onMouse fun m => m.setCycle (m.cycle + 1))
  else if s.mouse.cycle = 2 then do
    let b ← mouseRead hw
    Prog.modify (onMouse (Mouse.setByte2 b))
    Prog.modify (onMouse Mouse.move)
    drawCursor
    printMouseInfo
    Prog.modify (onMouse (Mouse.setCycle 0))
  else pure ()

/-- `mouse_handler`, which ends the interrupt itself. -/
def mouseHandler : Prog (Kernel σ) Unit := do
  mouseCycle hw
  isrEndInterrupt hw (irqBase + 12)

end Driver

section Init

def initializingMouse : Text := Text.ofChars "initializing mouse...\n".toList rfl

def sampleRateCommandFailed : Text :=
  Text.ofChars "error: failed to send mouse sample rate command\n".toList rfl

def sampleRateDataFailed : Text :=
  Text.ofChars "error: failed to send mouse sample rate data\n".toList rfl

def defaultSettingsFailed : Text :=
  Text.ofChars "error: failed to set default mouse settings\n".toList rfl

def packetStreamingFailed : Text :=
  Text.ofChars "error: failed to enable mouse packet streaming\n".toList rfl

variable {σ : Type} (hw : Bus σ)

def setMouseRate (rate : UInt8) : Prog (Kernel σ) Unit := do
  outb hw mouseDataPort mouseCmdSampleRate
  let status ← mouseRead hw
  if status ≠ mouseAcknowledge then onTerminal (printLiteral sampleRateCommandFailed)
  else do
    outb hw mouseDataPort rate
    let status ← mouseRead hw
    if status ≠ mouseAcknowledge then onTerminal (printLiteral sampleRateDataFailed)
    else pure ()

/-- The end of `mouse_init`: two commands, each of which must be acknowledged. -/
def mouseEnable : Prog (Kernel σ) Unit := do
  mouseWrite hw mouseCmdSetDefaults
  let status ← mouseRead hw
  if status ≠ mouseAcknowledge then onTerminal (printLiteral defaultSettingsFailed)
  else do
    mouseWrite hw mouseCmdEnablePacketStreaming
    let status ← mouseRead hw
    if status ≠ mouseAcknowledge then onTerminal (printLiteral packetStreamingFailed)
    else isrRegisterInterruptHandler (irqBase + 12) .mouseHandler

/-- The dialogue with the device that `mouse_init` has after its message. -/
def mouseDevice : Prog (Kernel σ) Unit := do
  mouseWait hw true
  outb hw ps2CmdPort 0xA8
  outb hw mouseDataPort mouseCmdMouseId
  let _ ← mouseRead hw
  setMouseRate hw 10
  mouseWait hw true
  outb hw ps2CmdPort 0x20
  mouseWait hw false
  let status ← inb hw mouseDataPort
  mouseWait hw true
  outb hw ps2CmdPort mouseDataPort.toUInt8
  mouseWait hw true
  outb hw mouseDataPort (status ||| 2)
  mouseEnable hw

def mouseInit : Prog (Kernel σ) Unit := do
  Prog.modify (onMouse fun m => { m with xPos := 5 })
  Prog.modify (onMouse fun m => { m with yPos := 2 })
  onTerminal (printLiteral initializingMouse)
  mouseDevice hw

end Init

end VDK
