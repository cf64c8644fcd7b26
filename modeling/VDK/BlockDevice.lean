import VDK.MountedDrive
import VDK.Contract

/-!
# The sector functions as an array of sectors

What the two sector functions are for: a transfer of up to 255 sectors that lies inside
the drive happens at once, any other one does not happen. The caller owns the memory and
stores in it what it likes between two transfers. On an LBA drive, however long it is busy
behind commands and sectors, the driver refines that array. Left out are transfers across
sector 2 ^ 28, which would need two commands and get one.
-/
namespace VDK
open Fuel ByteMem Contract

/-- What the kernel stores in its memory, or a call of a sector function. -/
inductive BlockOp where
  | store (mem : Mem)
  | sectors (direction : Direction) (lba : UInt32) (numSectors : UInt8) (buffer : UInt32)

structure BlockState where
  mem : Mem
  sectors : Disk

namespace BlockState

/-- Sectors from `lba` on, moved between the drive and the buffer. -/
def move (a : BlockState) (lba n : Nat) (buffer : UInt32) : Direction → BlockState
  | .read => { a with mem := a.mem.write buffer ((a.sectors.load lba n).flatMap Sector.bytes) }
  | .write => { a with sectors := a.sectors.store lba (Sector.run a.mem n buffer) }

end BlockState

/-- A drive of `size` sectors. -/
def blockDevice (size : Nat) : Service BlockState BlockOp Int where
  allowed _
    | .store _ => True
    | .sectors _ lba numSectors _ =>
        numSectors ≠ 0 ∧ lba.toNat + numSectors.toNat < 2 ^ 32 ∧ Countable lba numSectors.toNat
  next a
    | .store mem => { a with mem := mem }
    | .sectors direction lba numSectors buffer =>
        if lba.toNat + numSectors.toNat ≤ size then
          a.move lba.toNat numSectors.toNat buffer direction
        else a
  answers _ op code :=
    match op with
    | .store _ => code = 0
    | .sectors _ lba numSectors _ =>
        code = if lba.toNat + numSectors.toNat ≤ size then 0 else -2

/-- One operation under the driver; `err` is the unassigned local of the sector function. -/
inductive BlockCall {σ : Type} (hw : Bus σ) (drive : UInt8) (s : IdeState σ) :
    BlockOp → Int → IdeState σ → Prop
  | store (mem : Mem) : BlockCall hw drive s (.store mem) 0 { s with mem := mem }
  | sectors {direction : Direction} {lba buffer : UInt32} {numSectors : UInt8} {code : Int}
      {t : IdeState σ} (err : UInt8)
      (ran : Settles (fun fuel => ideSectors hw fuel direction err drive numSectors lba buffer)
        s code t) :
      BlockCall hw drive s (.sectors direction lba numSectors buffer) code t

section Service

variable {base : UInt16} {position : Nat} {delay : DriveEvent → Nat → Nat} {drive : UInt8} {size : Nat}
  {s t : IdeState DriveState} {a b : BlockState}

/-- The state of the driver and of its drive holds the array. -/
structure Holds (base : UInt16) (position : Nat) (drive : UInt8) (size : Nat)
    (s : IdeState DriveState) (a : BlockState) : Prop where
  mem : s.mem = a.mem
  size : (s.devices drive.toNat).size.toNat = size
  drive : OnDrive base position drive s a.sectors

theorem Holds.store (holds : Holds base position drive size s a) (mem : Mem) :
    Holds base position drive size { s with mem := mem } { a with mem := mem } where
  drive := holds.drive.keep (fun _ => ⟨rfl, rfl⟩) rfl holds.drive.sectors
  size := holds.size
  mem := rfl

theorem Holds.inside (holds : Holds base position drive size s a) {lba : UInt32}
    {numSectors : UInt8} (plain : lba.toNat + numSectors.toNat < 2 ^ 32) :
    sectorCheck s.devices drive numSectors lba =
      if lba.toNat + numSectors.toNat ≤ size then .passed else .outOfRange := by
  have index := holds.drive.index
  have table : ¬ (drive > 5 ∨ (s.devices drive.toNat).reserved = 0) := by
    rintro (beyond | gone)
    · have above : 5 < drive.toNat := UInt8.lt_iff_toNat_lt.mp beyond
      have few : maximumIdeDevices ≤ 5 := by decide
      omega
    · exact holds.drive.present gone
  have sum : (lba + numSectors.toUInt32).toNat = lba.toNat + numSectors.toNat := by
    rw [UInt32.toNat_add, UInt8.toNat_toUInt32, Nat.mod_eq_of_lt plain]
  have beyond : lba + numSectors.toUInt32 > (s.devices drive.toNat).size ↔
      ¬ lba.toNat + numSectors.toNat ≤ size := by
    rw [gt_iff_lt, UInt32.lt_iff_toNat_lt, sum, holds.size, Nat.not_le]
  rw [sectorCheck, if_neg table]
  by_cases fits : lba.toNat + numSectors.toNat ≤ size
  · rw [if_pos fits, if_neg fun past => beyond.mp past.1 fits]
  · rw [if_neg fits, if_pos ⟨beyond.mpr fits, holds.drive.ata⟩]

theorem Holds.settles_access (delay : DriveEvent → Nat → Nat) (holds : Holds base position drive size s a)
    (direction : Direction) {lba : UInt32} (buffer : UInt32) {numSectors : UInt8}
    (nonzero : numSectors ≠ 0) (countable : Countable lba numSectors.toNat) :
    ∃ t, Settles (fun fuel => ideAtaAccess (ataDrive base position delay) fuel direction drive lba
        numSectors buffer) s 0 t ∧
      Holds base position drive size t
        (a.move lba.toNat numSectors.toNat buffer direction) := by
  cases direction with
  | read =>
      obtain ⟨t, settles, there, mem, devices⟩ := ataDrive_read holds.drive buffer nonzero countable
      refine ⟨t, settles, ?_, ?_, there⟩
      · rw [mem, holds.mem]
        rfl
      · rw [devices, holds.size]
  | write =>
      obtain ⟨t, settles, there, mem, devices, _⟩ :=
        ataDrive_write holds.drive buffer nonzero countable
      rw [holds.mem] at there mem
      refine ⟨t, settles, mem, ?_, there⟩
      rw [devices, holds.size]

theorem Holds.settles_inside (holds : Holds base position drive size s a) {direction : Direction}
    (err : UInt8) {lba buffer : UInt32} {numSectors : UInt8}
    (plain : lba.toNat + numSectors.toNat < 2 ^ 32) (fits : lba.toNat + numSectors.toNat ≤ size)
    (access : Settles (fun fuel => ideAtaAccess (ataDrive base position delay) fuel direction drive
      lba numSectors buffer) s 0 t) :
    Settles (fun fuel => ideSectors (ataDrive base position delay) fuel direction err drive
      numSectors lba buffer) s 0 t := by
  have check := holds.inside plain
  rw [if_pos fits] at check
  obtain ⟨N, access⟩ := access
  refine ⟨N, fun fuel enough => ?_⟩
  rw [ideSectors_ata _ fuel direction check holds.drive.ata, access fuel enough, Exec.andThen_some]
  dsimp only
  rw [idePrintError_none]
  rfl

theorem Holds.settles_outside (holds : Holds base position drive size s a) (direction : Direction)
    (err : UInt8) {lba : UInt32} (buffer : UInt32) {numSectors : UInt8}
    (plain : lba.toNat + numSectors.toNat < 2 ^ 32) (beyond : ¬ lba.toNat + numSectors.toNat ≤ size) :
    Settles (fun fuel => ideSectors (ataDrive base position delay) fuel direction err drive
      numSectors lba buffer) s (-2) (s.printf
        "IDE ERROR: LBA address(0x%x) is greater than the available drive sectors(0x%x)\n"
        [.word lba, .word (s.devices drive.toNat).size]) := by
  have check := holds.inside plain
  rw [if_neg beyond] at check
  refine Settles.of_eq fun fuel => ?_
  unfold ideSectors
  simp only [Exec.run_bind, Exec.run_get, Exec.andThen_some, check]
  rfl

theorem Holds.settles_sectors (holds : Holds base position drive size s a) (direction : Direction)
    (err : UInt8) {lba buffer : UInt32} {numSectors : UInt8} (nonzero : numSectors ≠ 0)
    (plain : lba.toNat + numSectors.toNat < 2 ^ 32) (countable : Countable lba numSectors.toNat) :
    ∃ t, Settles (fun fuel => ideSectors (ataDrive base position delay) fuel direction err drive
        numSectors lba buffer) s (if lba.toNat + numSectors.toNat ≤ size then 0 else -2) t ∧
      Holds base position drive size t
        ((blockDevice size).next a (.sectors direction lba numSectors buffer)) := by
  dsimp only [blockDevice]
  by_cases fits : lba.toNat + numSectors.toNat ≤ size
  · rw [if_pos fits, if_pos fits]
    obtain ⟨t, access, there⟩ := holds.settles_access delay direction buffer nonzero countable
    exact ⟨t, holds.settles_inside err plain fits access, there⟩
  · rw [if_neg fits, if_neg fits]
    exact ⟨_, holds.settles_outside direction err buffer plain fits, holds.mem, holds.size,
      holds.drive.keep (fun _ => ⟨rfl, rfl⟩) rfl holds.drive.sectors⟩

theorem blockCall_refines : Refines (BlockCall (ataDrive base position delay) drive)
    (blockDevice size) (Holds base position drive size) := by
  intro s a op code t holds allowed made
  cases made with
  | store mem => exact ⟨rfl, holds.store mem⟩
  | sectors err ran =>
      obtain ⟨nonzero, plain, countable⟩ := allowed
      obtain ⟨u, expected, there⟩ := holds.settles_sectors _ err nonzero plain countable
      obtain ⟨rfl, rfl⟩ := ran.unique expected
      exact ⟨rfl, there⟩

/-- However transfers follow one another, each is answered as the array of sectors answers it,
memory and drive end as the array has them, and every further transfer returns. -/
theorem block_device_runs (holds : Holds base position drive size s a)
    {calls : List (BlockOp × Int)}
    (run : Run (BlockCall (ataDrive base position delay) drive) (blockDevice size) s a calls t b) :
    (blockDevice size).Explains a calls ∧ t.mem = b.mem ∧ t.bus.sectors = b.sectors ∧
      ∀ direction err lba numSectors buffer,
        (blockDevice size).allowed b (.sectors direction lba numSectors buffer) →
        ∃ code u, Settles (fun fuel => ideSectors (ataDrive base position delay) fuel direction
          err drive numSectors lba buffer) t code u := by
  obtain ⟨there, explained⟩ := blockCall_refines.run run holds
  refine ⟨explained, there.mem, there.drive.sectors, ?_⟩
  intro direction err lba numSectors buffer allowed
  obtain ⟨u, settles, _⟩ := there.settles_sectors direction err allowed.1 allowed.2.1 allowed.2.2
  exact ⟨_, u, settles⟩

end Service

def blankState : BlockState := ⟨fun _ => 0, fun _ => Sector.blank⟩

/-- Two sectors written to the disk of QEMU, and three read back into another buffer. -/
theorem block_device_runs_qemu :
    ∃ (t : IdeState DriveState) (b : BlockState),
      (blockDevice 8).Explains blankState
        [(.sectors .write 3 2 0x1000, 0), (.sectors .read 2 3 0x9000, 0)] ∧
      t.mem = b.mem ∧ t.bus.sectors = b.sectors ∧
      ∀ direction err lba numSectors buffer,
        (blockDevice 8).allowed b (.sectors direction lba numSectors buffer) →
        ∃ code u, Settles (fun fuel => ideSectors (ataDrive 0x1F0 0 fun _ _ => 3) fuel direction
          err 0 numSectors lba buffer) t code u := by
  have holds : Holds 0x1F0 0 0 8 (qemuState 8 fun _ => Sector.blank).ide blankState :=
    ⟨rfl, rfl, (qemu_mounted 8 fun _ => Sector.blank).rep⟩
  have two : (2 : UInt8) ≠ 0 ∧ (3 : UInt32).toNat + (2 : UInt8).toNat < 2 ^ 32 ∧
      Countable 3 (2 : UInt8).toNat := ⟨by decide, by decide, Or.inr (by decide)⟩
  have three : (3 : UInt8) ≠ 0 ∧ (2 : UInt32).toNat + (3 : UInt8).toNat < 2 ^ 32 ∧
      Countable 2 (3 : UInt8).toNat := ⟨by decide, by decide, Or.inr (by decide)⟩
  obtain ⟨s, written, there⟩ := holds.settles_sectors .write 0 two.1 two.2.1 two.2.2
  obtain ⟨t, read, _⟩ := there.settles_sectors .read 0 three.1 three.2.1 three.2.2
  have first : Run (BlockCall (ataDrive 0x1F0 0 fun _ _ => 3) 0) (blockDevice 8) _ blankState
      ([] ++ [(.sectors .write 3 2 0x1000, 0)]) s _ := .call .start two (.sectors 0 written)
  have run := first.call (by exact three) (BlockCall.sectors 0 read)
  exact ⟨t, _, block_device_runs holds run⟩

end VDK
