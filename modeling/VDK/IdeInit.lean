import VDK.IdeAccess

/-!
# Drive detection (`ide_init`, `ata_init`)

Each of the four positions is probed once, in scan order. The 512 identification
bytes are overwritten by every probe that reads them, so the rest of `ide_buf`
never matters. `identifyDevice` is the assignment of the device fields from them.
-/
namespace VDK
open Fuel ByteMem

/-- The bytes of the long words `ide_read_buffer` stored. -/
def identifyBytes (quads : List UInt32) : Ptr := fun i => (quads.flatMap bytes32).getD i 0

def wordAt (buf : Ptr) (i : Nat) : UInt16 := word16 (buf i) (buf (i + 1))

def dwordAt (buf : Ptr) (i : Nat) : UInt32 :=
  word32 (buf i) (buf (i + 1)) (buf (i + 2)) (buf (i + 3))

abbrev ataIdentDevicetype : Nat := 0
abbrev ataIdentModel : Nat := 54
abbrev ataIdentCapabilities : Nat := 98
abbrev ataIdentMaxLba : Nat := 120
abbrev ataIdentCommandsets : Nat := 164
abbrev ataIdentMaxLbaExt : Nat := 200

/-- Step (VII): the 48-bit capacity is read as 32 bits. -/
def identifySize (buf : Ptr) : UInt32 :=
  if dwordAt buf ataIdentCommandsets &&& ((1 : UInt32) <<< 26) ≠ 0 then dwordAt buf ataIdentMaxLbaExt
  else dwordAt buf ataIdentMaxLba

/-- The second loop of step (VIII): blank the trailing spaces among the first `k` bytes. -/
def stripTrailing : Nat → List UInt8 → List UInt8
  | 0, model => model
  | k + 1, model =>
      if model.getD k 0 = 0x20 then stripTrailing k (model.set k 0) else model

/-- Step (VIII): swap the byte pairs, terminate, strip. -/
def identifyModel (buf : Ptr) : List UInt8 :=
  let swapped := (List.range 20).flatMap fun j =>
    [buf (ataIdentModel + 2 * j + 1), buf (ataIdentModel + 2 * j)]
  stripTrailing 40 (swapped ++ [0])

/-- Steps (VI)-(VIII). -/
def identifyDevice (buf : Ptr) (channel drive : UInt8) (type : UInt16) : IdeDevice :=
  { reserved := 1
    channel := channel
    drive := drive
    type := type
    signature := wordAt buf ataIdentDevicetype
    features := wordAt buf ataIdentCapabilities
    commandSets := dwordAt buf ataIdentCommandsets
    size := identifySize buf
    model := identifyModel buf }

section Init

variable {σ : Type} (hw : Bus σ)

/-- The IDENTIFY wait loop; the result is `err != 0`. -/
def awaitIdentify (channel : UInt8) : Nat → Exec (IdeState σ) Bool
  | 0 => Exec.stop
  | fuel + 1 => do
      let status ← Exec.act (ideReadRegister hw channel ataRegStatus)
      if status &&& ataSrErr ≠ 0 then pure true
      else if status &&& ataSrBsy = 0 ∧ status &&& ataSrDrq ≠ 0 then pure false
      else awaitIdentify channel fuel

def atapiSignature (cl ch : UInt8) : Bool :=
  (cl == 0x14 && ch == 0xEB) || (cl == 0x69 && ch == 0x96)

def setDevice (count : Nat) (d : IdeDevice) (s : IdeState σ) : IdeState σ :=
  { s with devices := Function.update s.devices count d }

/-- Steps (V)-(VIII) of one position, and `count++`. -/
def recordDevice (channel drive : UInt8) (type : UInt16) (count : Nat) :
    Exec (IdeState σ) Nat := do
  let quads ← Exec.act (ideReadBuffer hw channel ataRegData 128)
  Exec.modify (setDevice count (identifyDevice (identifyBytes quads) channel drive type))
  pure (count + 1)

/-- The loop body for one (channel, drive) position; the result is the next `count`. -/
def probePosition (fuel : Nat) (channel drive : UInt8) (count : Nat) :
    Exec (IdeState σ) Nat := do
  Exec.modify fun s => setDevice count { s.devices count with reserved := 0 } s
  Exec.modify (ideWriteRegister hw channel ataRegHddevsel ((0xA0 : UInt8) ||| drive <<< 4))
  Exec.modify (ideWriteRegister hw channel ataRegCommand 0xEC)
  let status ← Exec.act (ideReadRegister hw channel ataRegStatus)
  if status = 0 then pure count
  else do
    let err ← awaitIdentify hw channel fuel
    if err then do
      let cl ← Exec.act (ideReadRegister hw channel ataRegLba1)
      let ch ← Exec.act (ideReadRegister hw channel ataRegLba2)
      if atapiSignature cl ch then do
        Exec.modify (ideWriteRegister hw channel ataRegCommand 0xA1)
        recordDevice hw channel drive ideAtapi count
      else pure count
    else recordDevice hw channel drive ideAta count

def probeAll (fuel : Nat) : List (UInt8 × UInt8) → Nat → Exec (IdeState σ) Nat
  | [], count => pure count
  | (channel, drive) :: rest, count => do
      let count ← probePosition hw fuel channel drive count
      probeAll fuel rest count

/-- The nested loops over `i` and `j`. -/
def scanPositions : List (UInt8 × UInt8) := [(0, 0), (0, 1), (1, 0), (1, 1)]

def assignChannels (primBase primControl secBase secControl busMaster : UInt32)
    (s : IdeState σ) : IdeState σ :=
  let primary : IdeChannel :=
    { s.channels 0 with base := primBase.toUInt16, control := primControl.toUInt16,
                        bmIde := busMaster.toUInt16 }
  let secondary : IdeChannel :=
    { s.channels 1 with base := secBase.toUInt16, control := secControl.toUInt16,
                        bmIde := busMaster.toUInt16 }
  { s with channels := Function.update (Function.update s.channels 0 primary) 1 secondary }

/-- Step 4: the summary of the first four slots. -/
def printSummary : List Nat → IdeState σ → IdeState σ
  | [], s => s
  | i :: rest, s =>
      let d := s.devices i
      printSummary rest <|
        if d.reserved = 1 then
          ((s.printf "%d:-\n" [.word (UInt32.ofNat i)]).printf "  model: %s\n"
            [.chars d.model]).printf "  type: %s\n"
              [.str (["ATA", "ATAPI"].getD d.type.toNat "")]
        else s

/-- `ide_init`. -/
def ideInit (fuel : Nat) (primBase primControl secBase secControl busMaster : UInt32) :
    Exec (IdeState σ) Unit := do
  Exec.modify (assignChannels primBase primControl secBase secControl busMaster)
  Exec.modify (ideWriteRegister hw 0 ataRegControl 2)
  Exec.modify (ideWriteRegister hw 1 ataRegControl 2)
  let _ ← probeAll hw fuel scanPositions 0
  Exec.modify (printSummary (List.range 4))

/-- `ata_init`. -/
def ataInit (fuel : Nat) : Exec (IdeState σ) Unit :=
  ideInit hw fuel 0x1F0 0x3F6 0x170 0x376 0x000

end Init

end VDK
