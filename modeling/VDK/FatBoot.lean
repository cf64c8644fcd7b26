import VDK.FatImage

/-!
# Boot sector arithmetic

Which reads succeed, and what the 32-bit computations of `readRootDirectory` are in
unbounded integers.
-/
namespace VDK.Fat
open ByteMem

section Reads

variable (boot : BootSector) (disk : Disk) (lba count : UInt32)

theorem readSectors_length :
    (readSectors boot disk lba count).2.length ≤ boot.bytesPerSector.toNat * count.toNat := by
  rw [readSectors, fread, Ptr.length_slice]
  exact Nat.min_le_left _ _

/-- A read succeeds when nothing is asked for, and otherwise when the sectors have a size and
end inside the file. -/
theorem readSectors_ok_iff : (readSectors boot disk lba count).1 = true ↔
    count = 0 ∨ (boot.bytesPerSector ≠ 0 ∧
      (boot.seekOffset lba).toNat + boot.bytesPerSector.toNat * count.toNat ≤ disk.length) := by
  have zeroCount : count = 0 ↔ count.toNat = 0 := UInt32.toNat_inj.symm
  have zeroSize : boot.bytesPerSector = 0 ↔ boot.bytesPerSector.toNat = 0 := UInt16.toNat_inj.symm
  rw [readSectors, fread, decide_eq_true_iff, Ptr.length_slice, zeroCount, ne_eq, zeroSize]
  generalize boot.bytesPerSector.toNat = size
  generalize (boot.seekOffset lba).toNat = position
  generalize count.toNat = count
  by_cases empty : size = 0
  · rw [if_pos empty]
    omega
  · have positive : 0 < size := Nat.pos_of_ne_zero empty
    rw [if_neg empty, Nat.div_eq_iff positive, Nat.mul_comm count size]
    have none : count = 0 → size * count = 0 := fun zero => by rw [zero, Nat.mul_zero]
    have some : count ≠ 0 → size ≤ size * count := fun zero =>
      Nat.le_mul_of_pos_right size (Nat.pos_of_ne_zero zero)
    omega

variable {boot disk lba count}

theorem readSectors_stored (ok : (readSectors boot disk lba count).1 = true) :
    (readSectors boot disk lba count).2 =
      disk.bytes.slice (boot.seekOffset lba).toNat (boot.bytesPerSector.toNat * count.toNat) := by
  have inside := (readSectors_ok_iff boot disk lba count).mp ok
  rw [readSectors, fread, Nat.min_eq_left]
  rcases inside with none | ⟨_, ends⟩
  · rw [none]
    exact Nat.zero_le _
  · omega

end Reads

namespace BootSector

variable (boot : BootSector)

/-- The sector of the root directory, in unbounded integers. -/
def rootSector : Nat :=
  boot.reservedSectors.toNat + boot.sectorsPerFat.toNat * boot.fatCount.toNat

theorem rootLba_toNat : boot.rootLba.toNat = boot.rootSector := by
  have reserved := boot.reservedSectors.toNat_lt
  have perFat := boot.sectorsPerFat.toNat_lt
  have copies := boot.fatCount.toNat_lt
  have tables : boot.sectorsPerFat.toNat * boot.fatCount.toNat ≤ 2 ^ 16 * 2 ^ 8 :=
    Nat.mul_le_mul (Nat.le_of_lt perFat) (Nat.le_of_lt copies)
  unfold rootLba rootSector
  rw [UInt32.toNat_add, UInt32.toNat_mul, UInt16.toNat_toUInt32, UInt16.toNat_toUInt32,
    UInt8.toNat_toUInt32]
  omega

theorem rootSector_lt : boot.rootSector < 2 ^ 25 := by
  have reserved := boot.reservedSectors.toNat_lt
  have tables : boot.sectorsPerFat.toNat * boot.fatCount.toNat ≤ 2 ^ 16 * 2 ^ 8 :=
    Nat.mul_le_mul (Nat.le_of_lt boot.sectorsPerFat.toNat_lt) (Nat.le_of_lt boot.fatCount.toNat_lt)
  unfold rootSector
  omega

/-- The sectors that the directory takes, rounded up. -/
def rootCount : Nat :=
  (32 * boot.dirEntryCount.toNat + boot.bytesPerSector.toNat - 1) / boot.bytesPerSector.toNat

variable {boot}

theorem bytesPerSector_pos (sized : boot.bytesPerSector ≠ 0) : 0 < boot.bytesPerSector.toNat :=
  Nat.pos_of_ne_zero fun zero => sized (UInt16.toNat_inj.mp zero)

theorem rootSectors_toNat (sized : boot.bytesPerSector ≠ 0) :
    boot.rootSectors.toNat = boot.rootCount := by
  have positive := bytesPerSector_pos sized
  have entries := boot.dirEntryCount.toNat_lt
  have size : (32 * boot.dirEntryCount.toUInt32).toNat = 32 * boot.dirEntryCount.toNat := by
    rw [UInt32.toNat_mul, UInt16.toNat_toUInt32]
    exact Nat.mod_eq_of_lt (by rw [show UInt32.toNat 32 = 32 from rfl]; omega)
  have remainder : (32 * boot.dirEntryCount.toUInt32) % boot.bytesPerSector.toUInt32 > 0 ↔
      0 < 32 * boot.dirEntryCount.toNat % boot.bytesPerSector.toNat := by
    rw [gt_iff_lt, UInt32.lt_iff_toNat_lt, UInt32.toNat_mod, size, UInt16.toNat_toUInt32]
    rfl
  have quotient : ((32 * boot.dirEntryCount.toUInt32) / boot.bytesPerSector.toUInt32).toNat =
      32 * boot.dirEntryCount.toNat / boot.bytesPerSector.toNat := by
    rw [UInt32.toNat_div, size, UInt16.toNat_toUInt32]
  unfold rootSectors rootCount
  dsimp only
  generalize boot.dirEntryCount.toNat = n at *
  generalize boot.bytesPerSector.toNat = size at *
  have small : 32 * n / size ≤ 32 * n := Nat.div_le_self _ _
  have split := Nat.div_add_mod (32 * n) size
  have less := Nat.mod_lt (32 * n) positive
  split
  · rename_i rest
    have more := remainder.mp rest
    rw [UInt32.toNat_add, quotient, show UInt32.toNat 1 = 1 from rfl, Nat.mod_eq_of_lt (by omega)]
    symm
    rw [Nat.div_eq_iff positive, Nat.add_mul, Nat.mul_comm (32 * n / size) size]
    omega
  · rename_i full
    have whole : 32 * n % size = 0 := by
      rw [remainder] at full
      omega
    rw [quotient]
    symm
    rw [Nat.div_eq_iff positive, Nat.mul_comm (32 * n / size) size]
    omega

/-- The sectors of the directory hold all its entries and less than one sector more. -/
theorem rootCount_covers (sized : boot.bytesPerSector ≠ 0) :
    32 * boot.dirEntryCount.toNat ≤ boot.rootCount * boot.bytesPerSector.toNat ∧
      boot.rootCount * boot.bytesPerSector.toNat <
        32 * boot.dirEntryCount.toNat + boot.bytesPerSector.toNat := by
  have positive := bytesPerSector_pos sized
  unfold rootCount
  generalize boot.dirEntryCount.toNat = n
  generalize boot.bytesPerSector.toNat = size at *
  have split := Nat.div_add_mod (32 * n + size - 1) size
  have less := Nat.mod_lt (32 * n + size - 1) positive
  rw [Nat.mul_comm] at split
  omega

theorem allocated_toNat (sized : boot.bytesPerSector ≠ 0) :
    (boot.rootSectors * boot.bytesPerSector.toUInt32).toNat =
      boot.rootCount * boot.bytesPerSector.toNat := by
  have entries := boot.dirEntryCount.toNat_lt
  have size := boot.bytesPerSector.toNat_lt
  have bound := (rootCount_covers sized).2
  rw [UInt32.toNat_mul, rootSectors_toNat sized, UInt16.toNat_toUInt32]
  exact Nat.mod_eq_of_lt (by omega)

end BootSector

section Safety

/-- The two readers that run before `readRootDirectory` accept the image. -/
structure Accepts (disk : Disk) (boot : BootSector) (heap : Ptr) : Prop where
  booted : readBootSector disk = (true, boot)
  loaded : (readFat boot disk heap).1 = true

/-- The directory is read without a division by zero, into memory that covers each
comparison, and both tables are sought at their unbounded byte offsets. -/
structure SafeRoot (disk : Disk) (boot : BootSector) (heap : Ptr) : Prop where
  divides : readRootDirectory boot disk heap ≠ none
  covers : ∀ root, readRootDirectory boot disk heap = some root →
    ∀ i, i < boot.dirEntryCount.toNat → ∀ j, j < 11 →
      directoryEntrySize * i + j < root.allocated.toNat
  fatOffset : (boot.seekOffset boot.reservedSectors.toUInt32).toNat =
    boot.reservedSectors.toNat * boot.bytesPerSector.toNat
  rootOffset : (boot.seekOffset boot.rootLba).toNat =
    boot.rootSector * boot.bytesPerSector.toNat

theorem seekOffset_toNat (boot : BootSector) (lba : UInt32) : (boot.seekOffset lba).toNat =
    lba.toNat * boot.bytesPerSector.toNat % 2 ^ 32 := by
  rw [BootSector.seekOffset, UInt32.toNat_mul, UInt16.toNat_toUInt32]

theorem fatOffset_toNat (boot : BootSector) :
    (boot.seekOffset boot.reservedSectors.toUInt32).toNat =
      boot.reservedSectors.toNat * boot.bytesPerSector.toNat := by
  have reserved := boot.reservedSectors.toNat_lt
  have size := boot.bytesPerSector.toNat_lt
  have product : boot.reservedSectors.toNat * boot.bytesPerSector.toNat ≤
      (2 ^ 16 - 1) * (2 ^ 16 - 1) := Nat.mul_le_mul (by omega) (by omega)
  rw [seekOffset_toNat, UInt16.toNat_toUInt32]
  exact Nat.mod_eq_of_lt (by omega)

/-- Sectors without a size are accepted only for a table without sectors. -/
theorem Accepts.sectorsPerFat_eq_zero {disk : Disk} {boot : BootSector} {heap : Ptr}
    (accepts : Accepts disk boot heap) (unsized : boot.bytesPerSector = 0) :
    boot.sectorsPerFat = 0 := by
  rcases (readSectors_ok_iff _ _ _ _).mp accepts.loaded with none | ⟨sized, _⟩
  · have same : boot.sectorsPerFat.toUInt32.toNat = 0 := congrArg UInt32.toNat none
    rw [UInt16.toNat_toUInt32] at same
    exact UInt16.toNat_inj.mp same
  · exact absurd unsized sized

/-- An accepted image is read safely if and only if its sectors or its table are not empty and
the root directory starts below 4 GiB. -/
theorem rootDirectory_safe_iff {disk : Disk} {boot : BootSector} {heap : Ptr}
    (accepts : Accepts disk boot heap) (heap' : Ptr) : SafeRoot disk boot heap' ↔
      ¬(boot.bytesPerSector = 0 ∧ boot.sectorsPerFat = 0) ∧
        boot.rootSector * boot.bytesPerSector.toNat < 2 ^ 32 := by
  constructor
  · intro safe
    constructor
    · rintro ⟨unsized, _⟩
      exact safe.divides (if_pos unsized)
    · rw [← safe.rootOffset]
      exact (boot.seekOffset boot.rootLba).toNat_lt
  · rintro ⟨nonempty, low⟩
    have sized : boot.bytesPerSector ≠ 0 := fun unsized =>
      nonempty ⟨unsized, accepts.sectorsPerFat_eq_zero unsized⟩
    refine ⟨?_, ?_, fatOffset_toNat boot, ?_⟩
    · rw [readRootDirectory, if_neg sized]
      exact Option.some_ne_none _
    · intro root read i entry j byte
      rw [readRootDirectory, if_neg sized] at read
      rw [← Option.some.inj read, BootSector.allocated_toNat sized]
      have covers := (BootSector.rootCount_covers sized).1
      unfold directoryEntrySize
      omega
    · rw [seekOffset_toNat, boot.rootLba_toNat]
      exact Nat.mod_eq_of_lt low

/-- An image of the given length, by its bytes that are not zero. -/
def image (length : Nat) (marks : List (Nat × UInt8)) : Disk :=
  ⟨fun i => (marks.lookup i).getD 0, length⟩

/-- A boot sector of zeros is accepted, and the sector size then divides. -/
theorem blank_image_divides : ∃ boot : BootSector,
    Accepts (image 62 []) boot Text.empty.ptr ∧
      readRootDirectory boot (image 62 []) Text.empty.ptr = none := by
  refine ⟨(readBootSector (image 62 [])).2, ⟨Prod.ext (by decide) rfl, by decide⟩, if_pos ?_⟩
  decide

/-- Six sectors of 64 bytes: the boot sector, the table, a directory of two entries and three
clusters. The first entry names a file of 70 bytes in the clusters 2 and 3. -/
def sampleDisk : Disk :=
  image 384 [(11, 64), (13, 1), (14, 1), (16, 1), (17, 2), (22, 1), (67, 0x03), (68, 0xF0),
    (69, 0xFF), (128, 65), (129, 66), (139, 0x20), (154, 2), (156, 70), (192, 72), (256, 73)]

def sampleBoot : BootSector := (readBootSector sampleDisk).2

theorem sample_accepted : Accepts sampleDisk sampleBoot Text.empty.ptr :=
  ⟨Prod.ext (by decide) rfl, by decide⟩

theorem rootDirectory_safe_iff_sample : SafeRoot sampleDisk sampleBoot Text.empty.ptr :=
  (rootDirectory_safe_iff sample_accepted Text.empty.ptr).mpr ⟨by decide, by decide⟩

end Safety

end VDK.Fat
