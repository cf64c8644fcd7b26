import VDK.ByteMemory
import VDK.FirstFit
import VDK.DoWhile

/-!
# The FAT12 reader (`tools/fat/fat.c`)

The tool runs on the host: `int` has 32 bits, `long` and `size_t` have 64, and a `malloc`
succeeds with whatever the memory held before. What a pointer reaches is not bounded by
the size of its allocation; the sizes are kept beside it. The size of the table is an `int`
product in `readFat`: an image whose table has 2^31 bytes or more gets no memory for it,
and the model does not describe the tool on such an image.
-/
namespace VDK.Fat
open ByteMem FirstFit DoWhile

/-- A file open for reading. -/
structure Disk where
  bytes : Ptr
  length : Nat

/-- The bytes `fread` stores and the number of whole items it returns. -/
def fread (disk : Disk) (position size count : Nat) : List UInt8 × Nat :=
  let stored := disk.bytes.slice position (min (size * count) (disk.length - position))
  (stored, if size = 0 then 0 else stored.length / size)

def memcmp (p q : Ptr) : Nat → Int
  | 0 => 0
  | n + 1 =>
      if p 0 = q 0 then memcmp (p.advance 1) (q.advance 1) n else (p 0).toNat - (q 0).toNat

structure BootSector where
  bytesPerSector : UInt16
  sectorsPerCluster : UInt8
  reservedSectors : UInt16
  fatCount : UInt8
  dirEntryCount : UInt16
  sectorsPerFat : UInt16
  deriving DecidableEq, Repr

abbrev bootSectorSize : Nat := 62

def bootSectorAt (p : Ptr) : BootSector where
  bytesPerSector := word16 (p 11) (p 12)
  sectorsPerCluster := p 13
  reservedSectors := word16 (p 14) (p 15)
  fatCount := p 16
  dirEntryCount := word16 (p 17) (p 18)
  sectorsPerFat := word16 (p 22) (p 23)

structure DirectoryEntry where
  name : List UInt8
  attributes : UInt8
  firstClusterLow : UInt16
  size : UInt32
  deriving DecidableEq, Repr

abbrev directoryEntrySize : Nat := 32

def directoryEntryAt (p : Ptr) : DirectoryEntry where
  name := p.slice 0 11
  attributes := p 11
  firstClusterLow := word16 (p 26) (p 27)
  size := word32 (p 28) (p 29) (p 30) (p 31)

/-- `g_BootSector`, `g_Fat`, `g_RootDirectory` and `g_RootDirectoryEnd`. -/
structure Globals where
  bootSector : BootSector
  fat : Ptr
  rootDirectory : Ptr
  rootDirectoryEnd : UInt32

/-- `g_BootSector` is zeroed before the read. -/
def readBootSector (disk : Disk) : Bool × BootSector :=
  let read := fread disk 0 bootSectorSize 1
  (read.2 > 0, bootSectorAt (Text.empty.ptr.store 0 read.1))

namespace BootSector

variable (boot : BootSector)

/-- The byte offset that `readSectors` seeks to, a product of two unsigned 32-bit numbers. -/
def seekOffset (lba : UInt32) : UInt32 := lba * boot.bytesPerSector.toUInt32

def rootLba : UInt32 :=
  boot.reservedSectors.toUInt32 + boot.sectorsPerFat.toUInt32 * boot.fatCount.toUInt32

/-- `sectors` of `readRootDirectory`, whose divisor must not be zero. -/
def rootSectors : UInt32 :=
  let size := 32 * boot.dirEntryCount.toUInt32
  let sectors := size / boot.bytesPerSector.toUInt32
  if size % boot.bytesPerSector.toUInt32 > 0 then sectors + 1 else sectors

def clusterSize : Nat := boot.sectorsPerCluster.toNat * boot.bytesPerSector.toNat

/-- The bytes that `readFat` loads. -/
def fatSize : Nat := boot.sectorsPerFat.toNat * boot.bytesPerSector.toNat

end BootSector

/-- The result of `readSectors` and what it stores; a seek forward always succeeds. -/
def readSectors (boot : BootSector) (disk : Disk) (lba count : UInt32) : Bool × List UInt8 :=
  let read := fread disk (boot.seekOffset lba).toNat boot.bytesPerSector.toNat count.toNat
  (read.2 = count.toNat, read.1)

/-- The result and what `g_Fat` reaches, for a table of less than 2^31 bytes; `heap` is what the
allocation held before. -/
def readFat (boot : BootSector) (disk : Disk) (heap : Ptr) : Bool × Ptr :=
  let read := readSectors boot disk boot.reservedSectors.toUInt32 boot.sectorsPerFat.toUInt32
  (read.1, heap.store 0 read.2)

/-- What `readRootDirectory` returns, allocates and leaves in the globals. -/
structure RootDirectory where
  ok : Bool
  allocated : UInt32
  entries : Ptr
  endLba : UInt32

/-- Without a value when it divides by zero. -/
def readRootDirectory (boot : BootSector) (disk : Disk) (heap : Ptr) : Option RootDirectory :=
  if boot.bytesPerSector = 0 then none
  else
    let read := readSectors boot disk boot.rootLba boot.rootSectors
    some {
      ok := read.1
      allocated := boot.rootSectors * boot.bytesPerSector.toUInt32
      entries := heap.store 0 read.2
      endLba := boot.rootLba + boot.rootSectors }

def entryPtr (rootDirectory : Ptr) (i : Nat) : Ptr := rootDirectory.advance (directoryEntrySize * i)

def findFile (boot : BootSector) (rootDirectory name : Ptr) : Option Nat :=
  firstIndex (fun i => memcmp name (entryPtr rootDirectory i) 11 = 0) boot.dirEntryCount.toNat

/-- `fatIndex` of `readFile`; the product is an `int`. -/
def fatIndex (cluster : UInt16) : Nat := cluster.toNat * 3 / 2

namespace Globals

variable (g : Globals)

/-- `lba` of `readFile`; the difference may be negative and wraps in the sum. -/
def clusterLba (cluster : UInt16) : UInt32 :=
  g.rootDirectoryEnd + (cluster.toUInt32 - 2) * g.bootSector.sectorsPerCluster.toUInt32

/-- The link of a cluster, taken from two bytes of the table. -/
def nextCluster (cluster : UInt16) : UInt16 :=
  let word := word16 (g.fat (fatIndex cluster)) (g.fat (fatIndex cluster + 1))
  if cluster % 2 = 0 then word &&& 0x0FFF else word >>> 4

end Globals

structure Pass where
  cluster : UInt16
  fatIndex : Nat
  offset : Nat
  stored : List UInt8
  deriving DecidableEq, Repr

/-- The locals of `readFile`, what `outputBuffer` reached at the call, and the passes made. -/
structure ReadState where
  ok : Bool
  currentCluster : UInt16
  outputBuffer : Nat
  memory : Ptr
  passes : List Pass

def readPass (g : Globals) (disk : Disk) (s : ReadState) : ReadState :=
  let read :=
    if s.ok then
      readSectors g.bootSector disk (g.clusterLba s.currentCluster)
        g.bootSector.sectorsPerCluster.toUInt32
    else (false, [])
  { ok := read.1
    currentCluster := g.nextCluster s.currentCluster
    outputBuffer := s.outputBuffer + g.bootSector.clusterSize
    memory := s.memory.store s.outputBuffer read.2
    passes := s.passes ++ [⟨s.currentCluster, fatIndex s.currentCluster, s.outputBuffer, read.2⟩] }

def goesOn (s : ReadState) : Bool := s.ok && decide (s.currentCluster < 0x0FF8)

def readStart (entry : DirectoryEntry) (outputBuffer : Ptr) : ReadState :=
  ⟨true, entry.firstClusterLow, 0, outputBuffer, []⟩

/-- `readFile` with fuel for its loop; `ok` of the final state is the result. -/
def readFile (fuel : Nat) (g : Globals) (entry : DirectoryEntry) (disk : Disk)
    (outputBuffer : Ptr) : Option ReadState :=
  doWhile (readPass g disk) goesOn fuel (readStart entry outputBuffer)

section Main

def bufferSize (boot : BootSector) (entry : DirectoryEntry) : UInt32 :=
  entry.size + boot.bytesPerSector.toUInt32

def isprint (c : UInt8) : Bool := 0x20 ≤ c && c ≤ 0x7E

def hexDigit (n : UInt8) : UInt8 := if n < 10 then 48 + n else 87 + n

/-- The character itself, or its code between angle brackets. -/
def showByte (c : UInt8) : List UInt8 :=
  if isprint c then [c] else [60, hexDigit (c / 16), hexDigit (c % 16), 62]

/-- How a run of the tool ends: the result of `main`, the format printed to `stderr`, whose
only argument is the file name, and the bytes printed to `stdout`. -/
inductive Outcome where
  | divisionByZero
  | outOfFuel
  | exit (code : Int) (stderr : String) (stdout : List UInt8)

structure Heap where
  fat : Ptr
  rootDirectory : Ptr
  buffer : Ptr

/-- `main` behind the two checks that the disk image could be opened. -/
def main (fuel : Nat) (disk : Disk) (name : Ptr) (heap : Heap) : Outcome :=
  let boot := readBootSector disk
  if boot.1 = false then .exit (-2) "Could not read boot sector!\n" []
  else
    let fat := readFat boot.2 disk heap.fat
    if fat.1 = false then .exit (-3) "Could not read FAT!\n" []
    else
      match readRootDirectory boot.2 disk heap.rootDirectory with
      | none => .divisionByZero
      | some root =>
          if root.ok = false then .exit (-4) "Could not read FAT!\n" []
          else
            match findFile boot.2 root.entries name with
            | none => .exit (-5) "Could not find file %s!\n" []
            | some i =>
                let entry := directoryEntryAt (entryPtr root.entries i)
                let g : Globals := ⟨boot.2, fat.2, root.entries, root.endLba⟩
                match readFile fuel g entry disk heap.buffer with
                | none => .outOfFuel
                | some s =>
                    if s.ok = false then .exit (-5) "Could not read file %s!\n" []
                    else .exit 0 "" ((s.memory.slice 0 entry.size.toNat).flatMap showByte ++ [10])

end Main

end VDK.Fat
