import VDK.IdeInit

/-!
# The file system (`osfs/fs.c`, `osfs/fs.h`)

`VdEntry` has the 24-byte layout of `VD_Entry`, padding included, because the
struct is copied to and from sector buffers as bytes. The table is a total
function: slots below 12 are `entries`, later ones are the memory behind it,
which an unterminated name runs into. Pointers into the caller's memory are
passed as the strings they hold, since no caller object overlaps a local.
-/
namespace VDK
open Fuel ByteMem FirstFit

structure VdEntry where
  name : Fin 11 → UInt8
  attributes : UInt8
  isDirectory : UInt8
  pad : Fin 3 → UInt8
  position : UInt32
  firstSector : UInt32

namespace VdEntry

/-- The object representation, by offset. -/
def byte (e : VdEntry) : Ptr := fun k =>
  if h : k < 11 then e.name ⟨k, h⟩
  else if k = 11 then e.attributes
  else if k = 12 then e.isDirectory
  else if h : k < 16 then e.pad ⟨k - 13, by omega⟩
  else if k < 20 then (bytes32 e.position).getD (k - 16) 0
  else (bytes32 e.firstSector).getD (k - 20) 0

/-- `memcpy(&e, p, sizeof(e))`. -/
def ofPtr (p : Ptr) : VdEntry where
  name i := p i
  attributes := p 11
  isDirectory := p 12
  pad i := p (13 + i)
  position := word32 (p 16) (p 17) (p 18) (p 19)
  firstSector := word32 (p 20) (p 21) (p 22) (p 23)

def zero : VdEntry := ofPtr fun _ => 0

end VdEntry

abbrev sizeofVdEntry : Nat := 24
abbrev ataSectorSize : Nat := 512
abbrev maximumEntries : Nat := 12

structure FsState (σ : Type) where
  ide : IdeState σ
  entries : Nat → VdEntry

/-- What an activation finds on the stack: the address of its `buf`, the byte in
the driver's unassigned `err`, and the bytes under `notFound`. -/
structure Locals where
  buf : UInt32
  err : UInt8
  notFound : VdEntry

def qemuHarddisk : Text :=
  Text.ofChars ['Q', 'E', 'M', 'U', ' ', 'H', 'A', 'R', 'D', 'D', 'I', 'S', 'K'] rfl

/-- `DRIVE` as the sector functions receive it: the `int` narrowed to `uint8_t`. -/
def fsDrive (devices : Nat → IdeDevice) : UInt8 :=
  UInt8.ofInt (ataGetDriveByModel devices qemuHarddisk)

/-- `entries[i].Name` as a pointer; it reaches the rest of the table and beyond. -/
def namePtr (entries : Nat → VdEntry) (i : Nat) : Ptr := fun k =>
  (entries (i + k / sizeofVdEntry)).byte (k % sizeofVdEntry)

def nullName : List UInt8 := ['N', 'U', 'L', 'L', Char.ofNat 0].map Char.toUInt8

/-- `notFound` after its assignments; the rest of it keeps what the stack held. -/
def notFoundEntry (junk : VdEntry) : VdEntry :=
  { junk with
    name := fun i => (nullName[i.val]?).getD (junk.name i)
    attributes := 0x00
    isDirectory := 0
    position := 0xFFFFFFFF
    firstSector := 0xFFFFFFFF }

def vdOpen (junk : VdEntry) (entries : Nat → VdEntry) (path : Text) : VdEntry :=
  match firstIndex (fun i => strcmpText (namePtr entries i) path = some 0) maximumEntries with
  | some i => entries i
  | none => notFoundEntry junk

section Operations

variable {σ : Type} (hw : Bus σ) (fuel : Nat) (L : Locals)

def onIde {α : Type} (c : Exec (IdeState σ) α) : Exec (FsState σ) α :=
  Exec.within FsState.ide (fun t s => { s with ide := t }) c

def updateMem (f : Mem → Mem) (s : FsState σ) : FsState σ :=
  { s with ide := s.ide.onMachine fun m => { m with mem := f m.mem } }

/-- `char buf[ATA_SECTOR_SIZE] = {0}`, and the `memset` that repeats it. -/
def clearBuffer (s : FsState σ) : FsState σ :=
  updateMem (fun m => memset m L.buf 0 ataSectorSize) s

def vdRead (sector : UInt32) : Exec (FsState σ) VdEntry := do
  let s ← Exec.get
  Exec.modify (clearBuffer L)
  let _ ← onIde (ideReadSectors hw fuel L.err (fsDrive s.ide.devices) 1 (0 + sector) L.buf)
  let s ← Exec.get
  pure (VdEntry.ofPtr (s.ide.mem.view L.buf))

/-- `VD_ReadData`; the result is what `strcpy` stores through `out`. -/
def vdReadData (path : Text) : Exec (FsState σ) (List UInt8) := do
  let s ← Exec.get
  let e := vdOpen L.notFound s.entries path
  Exec.modify (clearBuffer L)
  let _ ← onIde
    (ideReadSectors hw fuel L.err (fsDrive s.ide.devices) 1 (0 + e.firstSector + 1) L.buf)
  let s ← Exec.get
  match strcpy fuel (s.ide.mem.view L.buf) with
  | some out => pure out
  | none => Exec.stop

/-- The table update of `VD_Write`: the first slot with an empty name. -/
def storeEntry (e : VdEntry) (s : FsState σ) : FsState σ :=
  { s with
    entries := place (fun i => strcmpText (namePtr s.entries i) Text.empty = some 0)
      maximumEntries s.entries e }

def vdWrite (file : VdEntry) : Exec (FsState σ) Bool := do
  let s ← Exec.get
  Exec.modify (clearBuffer L)
  Exec.modify (updateMem fun m => memcpy m L.buf file.byte sizeofVdEntry)
  let _ ← onIde
    (ideWriteSectors hw fuel L.err (fsDrive s.ide.devices) 1 (0 + file.firstSector) L.buf)
  Exec.modify (storeEntry file)
  pure true

/-- `strcpy(buf, data)` of `VD_WriteData`. -/
def strcpyText (t : Text) : List UInt8 := (strcpy (t.chars.length + 1) t.ptr).getD []

def vdWriteData (data : Text) (file : VdEntry) : Exec (FsState σ) Bool := do
  let s ← Exec.get
  Exec.modify (clearBuffer L)
  Exec.modify (updateMem fun m => m.write L.buf (strcpyText data))
  let _ ← onIde
    (ideWriteSectors hw fuel L.err (fsDrive s.ide.devices) 1 (0 + (file.firstSector + 1)) L.buf)
  pure true

end Operations

end VDK
