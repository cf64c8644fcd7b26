import VDK.FatDirectory
import VDK.FatChain

/-!
# What the FAT12 reader prints

A volume is an image whose boot sector describes tables that lie inside it and get memory.
On every volume the tool prints the bytes of the file it is asked for, or that there is no such file.
-/
namespace VDK.Fat
open ByteMem FirstFit DoWhile

/-- An image with a boot sector, a table and a root directory. -/
structure Volume where
  disk : Disk
  boot : BootSector
  header : bootSectorSize ≤ disk.length
  described : bootSectorAt disk.bytes = boot
  sized : boot.bytesPerSector ≠ 0
  allocated : boot.fatSize < 2 ^ 31
  table : boot.reservedSectors.toNat * boot.bytesPerSector.toNat + boot.fatSize ≤ disk.length
  root : (boot.rootSector + boot.rootCount) * boot.bytesPerSector.toNat ≤ disk.length
  low : boot.rootSector * boot.bytesPerSector.toNat < 2 ^ 32

namespace Volume

variable (v : Volume)

def directory : Ptr :=
  v.disk.bytes.advance (v.boot.rootSector * v.boot.bytesPerSector.toNat)

def entry (i : Nat) : DirectoryEntry := directoryEntryAt (entryPtr v.directory i)

theorem booted : readBootSector v.disk = (true, v.boot) := by
  have whole : fread v.disk 0 bootSectorSize 1 = (v.disk.bytes.slice 0 bootSectorSize, 1) := by
    have header := v.header
    have length : min (bootSectorSize * 1) (v.disk.length - 0) = bootSectorSize := by
      rw [Nat.mul_one, Nat.sub_zero, Nat.min_eq_left header]
    rw [fread, length, Ptr.length_slice]
    rfl
  have byte : ∀ i, i < bootSectorSize →
      (Text.empty.ptr.store 0 (v.disk.bytes.slice 0 bootSectorSize)) i = v.disk.bytes i := by
    intro i inside
    rw [Ptr.store, if_pos (Nat.zero_le i), Nat.sub_zero, Ptr.getElem?_slice _ _ inside,
      Option.getD_some, Nat.zero_add]
  have fields : bootSectorAt (Text.empty.ptr.store 0 (v.disk.bytes.slice 0 bootSectorSize)) =
      bootSectorAt v.disk.bytes := by
    unfold bootSectorAt
    rw [byte 11 (by decide), byte 12 (by decide), byte 13 (by decide), byte 14 (by decide),
      byte 15 (by decide), byte 16 (by decide), byte 17 (by decide), byte 18 (by decide),
      byte 22 (by decide), byte 23 (by decide)]
  rw [readBootSector, whole]
  exact Prod.ext rfl (fields.trans v.described)

theorem tableRead (heap : Ptr) : ∃ fat, readFat v.boot v.disk heap = (true, fat) := by
  have ok : (readFat v.boot v.disk heap).1 = true := by
    refine (readSectors_ok_iff _ _ _ _).mpr (.inr ⟨v.sized, ?_⟩)
    rw [fatOffset_toNat, UInt16.toNat_toUInt32, Nat.mul_comm v.boot.bytesPerSector.toNat]
    exact v.table
  exact ⟨_, Prod.ext ok rfl⟩

theorem rootRead (heap : Ptr) : ∃ root, readRootDirectory v.boot v.disk heap = some root ∧
    root.ok = true ∧ ∀ i, i < v.boot.dirEntryCount.toNat →
      directoryEntryAt (entryPtr root.entries i) = v.entry i := by
  have start : (v.boot.seekOffset v.boot.rootLba).toNat =
      v.boot.rootSector * v.boot.bytesPerSector.toNat := by
    rw [seekOffset_toNat, v.boot.rootLba_toNat]
    exact Nat.mod_eq_of_lt v.low
  have covers := (BootSector.rootCount_covers v.sized).1
  have length : v.boot.bytesPerSector.toNat * v.boot.rootSectors.toNat =
      v.boot.rootCount * v.boot.bytesPerSector.toNat := by
    rw [BootSector.rootSectors_toNat v.sized, Nat.mul_comm]
  have ok : (readSectors v.boot v.disk v.boot.rootLba v.boot.rootSectors).1 = true := by
    refine (readSectors_ok_iff _ _ _ _).mpr (.inr ⟨v.sized, ?_⟩)
    rw [start, length, ← Nat.add_mul]
    exact v.root
  refine ⟨_, if_neg v.sized, ok, fun i inside => ?_⟩
  have byte : ∀ j, j < 32 → (heap.store 0 (readSectors v.boot v.disk v.boot.rootLba
      v.boot.rootSectors).2) (32 * i + j) = v.directory (32 * i + j) := by
    intro j low
    have room : 32 * i + j < v.boot.rootCount * v.boot.bytesPerSector.toNat := by omega
    rw [readSectors_stored ok, start, length, Ptr.store, if_pos (Nat.zero_le _), Nat.sub_zero,
      Ptr.getElem?_slice _ _ room, Option.getD_some]
    rfl
  have name : ∀ p : Ptr, (entryPtr p i).slice 0 11 = p.slice (32 * i) 11 := by
    intro p
    rw [Ptr.slice_eq_iff]
    intro j _
    rw [Nat.zero_add]
    rfl
  have fields : ∀ p : Ptr, directoryEntryAt (entryPtr p i) =
      ⟨p.slice (32 * i) 11, p (32 * i + 11), word16 (p (32 * i + 26)) (p (32 * i + 27)),
        word32 (p (32 * i + 28)) (p (32 * i + 29)) (p (32 * i + 30)) (p (32 * i + 31))⟩ := by
    intro p
    rw [← name p]
    rfl
  rw [entry, fields, fields]
  dsimp only
  rw [byte 11 (by decide), byte 26 (by decide), byte 27 (by decide), byte 28 (by decide),
    byte 29 (by decide), byte 30 (by decide), byte 31 (by decide),
    Ptr.slice_eq_iff.mpr fun j low => byte j (by omega)]

/-- The search sees the names of the image. -/
theorem search {entries : Ptr} (same : ∀ i, i < v.boot.dirEntryCount.toNat →
    directoryEntryAt (entryPtr entries i) = v.entry i) (name : Ptr) :
    findFile v.boot entries name = findFile v.boot v.directory name := by
  rw [findFile_eq, findFile_eq]
  apply firstIndex_congr
  intro i inside
  rw [decide_eq_decide, Named, Named, same i inside]
  rfl

/-- What the tool does on a volume: the search in the image, then the copy. -/
theorem run (fuel : Nat) (name : Ptr) (heap : Heap) : ∃ g, Loaded v.disk v.boot g ∧
    (findFile v.boot v.directory name = none →
      main fuel v.disk name heap = .exit (-5) "Could not find file %s!\n" []) ∧
    ∀ i s, findFile v.boot v.directory name = some i →
      readFile fuel g (v.entry i) v.disk heap.buffer = some s → s.ok = true →
      main fuel v.disk name heap =
        .exit 0 "" ((s.memory.slice 0 (v.entry i).size.toNat).flatMap showByte ++ [10]) := by
  obtain ⟨fat, table⟩ := v.tableRead heap.fat
  obtain ⟨root, directory, ok, entries⟩ := v.rootRead heap.rootDirectory
  have found := v.search entries name
  refine ⟨⟨v.boot, fat, root.entries, root.endLba⟩,
    ⟨v.booted, rfl, ⟨heap.fat, table⟩, heap.rootDirectory, root, directory, rfl, rfl⟩, ?_, ?_⟩
  · intro missing
    rw [missing] at found
    rw [main]
    simp only [v.booted, table, directory, ok, found, if_false, Bool.true_eq_false]
  · intro i s here copied good
    rw [here] at found
    have inside := (firstIndex_eq_some.mp here).1
    rw [main]
    simp only [v.booted, table, directory, ok, found, if_false, Bool.true_eq_false,
      entries i inside, copied, good]

/-- Entry `i` is the first live file of that name; its clusters `cs` lie in the image, cover
its size and fit into the memory allocated for the copy. -/
structure StoredFile (name : Ptr) (i : Nat) (cs : List UInt16) : Prop where
  live : liveFile v.boot v.directory name = some i
  first : LiveFirst v.boot v.directory name
  chain : FileChain v.disk v.boot (v.entry i).firstClusterLow cs
  present : ∀ c ∈ cs, Present v.disk v.boot c
  covered : (v.entry i).size.toNat ≤ cs.length * v.boot.clusterSize
  room : cs.length * v.boot.clusterSize ≤ (bufferSize v.boot (v.entry i)).toNat

def content (i : Nat) (cs : List UInt16) : List UInt8 :=
  (cs.flatMap (v.boot.clusterData v.disk)).take (v.entry i).size.toNat

end Volume

section Sample

def sampleVolume : Volume where
  disk := sampleDisk
  boot := sampleBoot
  header := by decide
  described := by decide
  sized := by decide
  allocated := by decide
  table := by decide
  root := by decide
  low := by decide

def sampleName : Ptr := Text.empty.ptr.store 0 [65, 66]

theorem sample_stored : sampleVolume.StoredFile sampleName 0 [2, 3] where
  live := by decide
  first := by
    have live : ∀ i, i < sampleVolume.boot.dirEntryCount.toNat →
        Named sampleVolume.directory sampleName i → Live sampleVolume.directory i := by decide
    exact fun i inside named dead => absurd (live i inside named) dead
  chain := by
    have first : sampleBoot.DataCluster 2 := ⟨by decide, by decide, by decide⟩
    have second : sampleBoot.DataCluster 3 := ⟨by decide, by decide, by decide⟩
    have cluster : (sampleVolume.entry 0).firstClusterLow = 2 := by decide
    have link : packedEntry 12 (sampleBoot.table sampleDisk) (2 : UInt16).toNat = 3 :=
      (sample_loaded.nextCluster first.inside).symm.trans (by decide)
    have last : packedEntry 12 (sampleBoot.table sampleDisk) (3 : UInt16).toNat = 0xFFF :=
      (sample_loaded.nextCluster second.inside).symm.trans (by decide)
    have ends : 0xFF8 ≤ packedEntry 12 (sampleBoot.table sampleDisk) (3 : UInt16).toNat := by
      rw [last]
      decide
    rw [cluster]
    exact .link (d := 3) first link (.last second ends)
  present c member := by
    rcases List.mem_cons.mp member with rfl | member
    · exact ⟨by decide, by decide⟩
    · rw [List.mem_singleton.mp member]
      exact ⟨by decide, by decide⟩
  covered := by decide
  room := by decide

end Sample

end VDK.Fat
