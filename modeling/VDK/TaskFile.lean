import VDK.IdePorts

/-!
# The ATA task file behind the command block

The drive keeps, for each of the registers 2-5 of its command block, the byte
written last and the byte before it. Commands of the EXT set read both, the
28-bit commands read the last ones and the low nibble of the device register.
This is the hardware's side; only `fileAfter` speaks about the driver.
-/
namespace VDK
open Fuel ByteMem

/-- A register two bytes deep. -/
structure ByteFifo where
  cur : UInt8
  prev : UInt8
  deriving DecidableEq, Repr

def ByteFifo.push (r : ByteFifo) (v : UInt8) : ByteFifo := ⟨v, r.cur⟩

structure TaskFile where
  seccount : ByteFifo
  lbaLow : ByteFifo
  lbaMid : ByteFifo
  lbaHigh : ByteFifo
  device : UInt8
  deriving DecidableEq, Repr

namespace TaskFile

/-- A byte written to `port`, for a command block at `base`. -/
def write (base port : UInt16) (v : UInt8) (f : TaskFile) : TaskFile :=
  if port = base + 2 then { f with seccount := f.seccount.push v }
  else if port = base + 3 then { f with lbaLow := f.lbaLow.push v }
  else if port = base + 4 then { f with lbaMid := f.lbaMid.push v }
  else if port = base + 5 then { f with lbaHigh := f.lbaHigh.push v }
  else if port = base + 6 then { f with device := v }
  else f

def observe (base : UInt16) (f : TaskFile) : Access → TaskFile
  | .outb port v => f.write base port v
  | _ => f

/-- The commands written among some accesses, each with the task file it finds. -/
def commandsSent (base : UInt16) : TaskFile → List Access → List (UInt8 × TaskFile)
  | _, [] => []
  | f, .outb port v :: rest =>
      if port = base + 7 then (v, f) :: commandsSent base f rest
      else commandsSent base (f.write base port v) rest
  | f, _ :: rest => commandsSent base f rest

def lba28 (f : TaskFile) : Nat :=
  f.lbaLow.cur.toNat + 2 ^ 8 * f.lbaMid.cur.toNat + 2 ^ 16 * f.lbaHigh.cur.toNat +
    2 ^ 24 * (f.device.toNat % 16)

def lba48 (f : TaskFile) : Nat :=
  f.lbaLow.cur.toNat + 2 ^ 8 * f.lbaMid.cur.toNat + 2 ^ 16 * f.lbaHigh.cur.toNat +
    2 ^ 24 * f.lbaLow.prev.toNat + 2 ^ 32 * f.lbaMid.prev.toNat + 2 ^ 40 * f.lbaHigh.prev.toNat

/-- A count of 0 asks for 256 sectors. -/
def count28 (f : TaskFile) : Nat :=
  if f.seccount.cur = 0 then 256 else f.seccount.cur.toNat

/-- A count of 0 asks for 65536 sectors. -/
def count48 (f : TaskFile) : Nat :=
  let n := f.seccount.cur.toNat + 256 * f.seccount.prev.toNat
  if n = 0 then 65536 else n

/-- `READ SECTORS EXT` and `WRITE SECTORS EXT`. -/
def extCommand (command : UInt8) : Bool := command == 0x24 || command == 0x34

/-- The first sector a transfer command starts at. -/
def start (command : UInt8) (f : TaskFile) : Nat :=
  if extCommand command then f.lba48 else f.lba28

def count (command : UInt8) (f : TaskFile) : Nat :=
  if extCommand command then f.count48 else f.count28

/-- The number of sectors a transfer command can address. -/
def space (command : UInt8) : Nat := if extCommand command then 2 ^ 48 else 2 ^ 28

/-- Bit 6 of the device register. -/
def lbaSelected (f : TaskFile) : Bool := f.device.toNat.testBit 6

/-- Bit 4 of the device register: 0 is the master. -/
def driveSelected (f : TaskFile) : Nat := (f.device.toNat / 16) % 2

/-- A drive in LBA mode that decodes `lba` and answers as the device at `slavebit`. -/
structure Decodes (lba : UInt32) (slavebit command : UInt8) (f : TaskFile) : Prop where
  sector : f.start command = lba.toNat
  linear : f.lbaSelected = true
  selected : f.driveSelected = slavebit.toNat

end TaskFile

section Observation

variable (base : UInt16)

theorem write_command (v : UInt8) (f : TaskFile) : f.write base (base + 7) v = f := by
  have apart : ∀ k : UInt16, k ≠ 7 → base + 7 ≠ base + k :=
    fun k hk e => hk ((UInt16.add_right_inj base).mp e).symm
  simp only [TaskFile.write, if_neg (apart 2 (by decide)), if_neg (apart 3 (by decide)),
    if_neg (apart 4 (by decide)), if_neg (apart 5 (by decide)), if_neg (apart 6 (by decide))]

theorem commandsSent_append (f : TaskFile) (first second : List Access) :
    f.commandsSent base (first ++ second) =
      f.commandsSent base first ++ (first.foldl (TaskFile.observe base) f).commandsSent base second := by
  induction first generalizing f with
  | nil => rfl
  | cons a first ih =>
      cases a with
      | outb port v =>
          by_cases h : port = base + 7
          · subst h
            simp [TaskFile.commandsSent, TaskFile.observe, write_command, ih]
          · simp [TaskFile.commandsSent, TaskFile.observe, h, ih]
      | inb port v => exact ih f
      | inw port v => exact ih f
      | inl port v => exact ih f
      | outw port v => exact ih f

/-- Reads neither change the task file nor send a command. -/
theorem observe_reads (f : TaskFile) (port : UInt16) (values : List UInt8) :
    (values.map (Access.inb port)).foldl (TaskFile.observe base) f = f := by
  induction values with
  | nil => rfl
  | cons v values ih => exact ih

theorem commandsSent_reads (f : TaskFile) (port : UInt16) (values : List UInt8) :
    f.commandsSent base (values.map (Access.inb port)) = [] := by
  induction values with
  | nil => rfl
  | cons v values ih => exact ih

theorem commandsSent_parameters (f : TaskFile) (writes : List (UInt16 × UInt8))
    (none : ∀ w ∈ writes, w.1 ≠ base + 7) : f.commandsSent base (outAccesses writes) = [] := by
  induction writes generalizing f with
  | nil => rfl
  | cons w writes ih =>
      have first := none w List.mem_cons_self
      have rest := fun x hx => none x (List.mem_cons_of_mem w hx)
      simp only [outAccesses, List.map_cons, TaskFile.commandsSent, if_neg first]
      exact ih (f.write base w.1 w.2) rest

end Observation

/-- The ports `ata_init` gives to a channel. -/
def AtaPorts (ch : IdeChannel) : Prop :=
  (ch.base = 0x1F0 ∧ ch.control = 0x3F6) ∨ (ch.base = 0x170 ∧ ch.control = 0x376)

theorem AtaPorts.control_ne_command {ch : IdeChannel} (ports : AtaPorts ch) :
    ch.control + 2 ≠ ch.base + 7 := by
  rcases ports with ⟨hb, hc⟩ | ⟨hb, hc⟩ <;> rw [hb, hc] <;> decide

/-- The task file once phases (IV) and (V) have run on `f`. -/
def fileAfter (slavebit numSectors : UInt8) (addr : LbaAddress) (f : TaskFile) : TaskFile :=
  let select : UInt8 := if addr.mode = .chs then 0xA0 else 0xE0
  let g : TaskFile :=
    if addr.mode = .lba48 then
      { f with seccount := f.seccount.push 0, lbaLow := f.lbaLow.push addr.io3,
               lbaMid := f.lbaMid.push addr.io4, lbaHigh := f.lbaHigh.push addr.io5 }
    else f
  { seccount := g.seccount.push numSectors, lbaLow := g.lbaLow.push addr.io0,
    lbaMid := g.lbaMid.push addr.io1, lbaHigh := g.lbaHigh.push addr.io2,
    device := select ||| slavebit <<< 4 ||| addr.head }

section Writes

variable (ch : IdeChannel)

def writeAll (base : UInt16) (writes : List (UInt16 × UInt8)) (f : TaskFile) : TaskFile :=
  writes.foldl (fun f w => f.write base w.1 w.2) f

theorem writeAll_append (base : UInt16) (first second : List (UInt16 × UInt8)) (f : TaskFile) :
    writeAll base (first ++ second) f = writeAll base second (writeAll base first f) := by
  simp only [writeAll, List.foldl_append]

theorem writeAll_low (reg : UInt8) (low : reg < 0x08) (v : UInt8) (f : TaskFile) :
    writeAll ch.base (registerWrites ch reg v) f =
      f.write ch.base (ch.base + reg.toUInt16) v := by
  rw [registerWrites_low ch low]
  rfl

variable {ch} (ports : AtaPorts ch)

include ports

theorem write_control (v : UInt8) (f : TaskFile) :
    f.write ch.base (ch.control + 2) v = f := by
  rcases ports with ⟨hb, hc⟩ | ⟨hb, hc⟩ <;> rw [hb, hc] <;> rfl

theorem writeAll_shadowed (reg : UInt8) (h : shadowed reg = true) (v : UInt8) (f : TaskFile) :
    writeAll ch.base (registerWrites ch reg v) f =
      f.write ch.base (ch.base + reg.toUInt16 - 6) v := by
  simp only [registerWrites_shadowed ch h, writeAll, List.foldl_cons, List.foldl_nil,
    write_control ports]

/-- Phases (IV) and (V) leave the task file in `fileAfter`, whatever it held before. -/
theorem writeAll_parameters (slavebit numSectors : UInt8) (addr : LbaAddress) (f : TaskFile) :
    writeAll ch.base (parameterWrites ch slavebit numSectors addr) f =
      fileAfter slavebit numSectors addr f := by
  have hddevsel := writeAll_low ch ataRegHddevsel (by decide)
  have seccount0 := writeAll_low ch ataRegSeccount0 (by decide)
  have lba0 := writeAll_low ch ataRegLba0 (by decide)
  have lba1 := writeAll_low ch ataRegLba1 (by decide)
  have lba2 := writeAll_low ch ataRegLba2 (by decide)
  have seccount1 := writeAll_shadowed ports ataRegSeccount1 (by decide)
  have lba3 := writeAll_shadowed ports ataRegLba3 (by decide)
  have lba4 := writeAll_shadowed ports ataRegLba4 (by decide)
  have lba5 := writeAll_shadowed ports ataRegLba5 (by decide)
  rcases addr with ⟨mode, io0, io1, io2, io3, io4, io5, head⟩
  cases mode with
  | chs =>
      simp only [parameterWrites, reduceCtorEq, if_true, if_false, List.nil_append,
        writeAll_append, hddevsel, seccount0, lba0, lba1, lba2]
      rcases ports with ⟨hb, _⟩ | ⟨hb, _⟩ <;> rw [hb] <;> rfl
  | lba28 =>
      simp only [parameterWrites, reduceCtorEq, if_false, List.nil_append,
        writeAll_append, hddevsel, seccount0, lba0, lba1, lba2]
      rcases ports with ⟨hb, _⟩ | ⟨hb, _⟩ <;> rw [hb] <;> rfl
  | lba48 =>
      simp only [parameterWrites, reduceCtorEq, if_true, if_false, writeAll_append, hddevsel,
        seccount0, lba0, lba1, lba2, seccount1, lba3, lba4, lba5]
      rcases ports with ⟨hb, _⟩ | ⟨hb, _⟩ <;> rw [hb] <;> rfl

end Writes

end VDK
