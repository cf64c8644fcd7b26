import VDK.FatTable

/-!
# Extracting a file

The loop of `readFile` makes one pass for each cluster of a chain that ends, and leaves
their bytes one behind the other. In an image with a FAT12 layout the links are the
twelve-bit entries of the table, and the clusters are sectors behind the root directory.
-/
namespace VDK.Fat
open ByteMem DoWhile

def readCluster (g : Globals) (disk : Disk) (c : UInt16) : Bool × List UInt8 :=
  readSectors g.bootSector disk (g.clusterLba c) g.bootSector.sectorsPerCluster.toUInt32

/-- Every cluster of the list is linked to the next, and the last one to an end mark. -/
inductive ChainFrom (g : Globals) : UInt16 → List UInt16 → Prop
  | last {c : UInt16} (ends : ¬g.nextCluster c < 0x0FF8) : ChainFrom g c [c]
  | link {c : UInt16} {cs : List UInt16} (goes : g.nextCluster c < 0x0FF8)
      (rest : ChainFrom g (g.nextCluster c) cs) : ChainFrom g c (c :: cs)

/-- The passes that a chain of readable clusters makes. -/
def chainPasses (g : Globals) (disk : Disk) : Nat → List UInt16 → List Pass
  | _, [] => []
  | offset, c :: cs => ⟨c, fatIndex c, offset, (readCluster g disk c).2⟩ ::
      chainPasses g disk (offset + g.bootSector.clusterSize) cs

section Runs

variable {g : Globals} {disk : Disk}

@[simp] theorem length_chainPasses (offset : Nat) (cs : List UInt16) :
    (chainPasses g disk offset cs).length = cs.length := by
  induction cs generalizing offset with
  | nil => rfl
  | cons c cs ih => rw [chainPasses, List.length_cons, List.length_cons, ih]

theorem readCluster_length {c : UInt16} (ok : (readCluster g disk c).1 = true) :
    (readCluster g disk c).2.length = g.bootSector.clusterSize := by
  rw [readCluster, readSectors_stored ok, Ptr.length_slice, UInt8.toNat_toUInt32, Nat.mul_comm]
  rfl

variable {s : ReadState}

theorem readPass_ok (ok : s.ok = true) :
    (readPass g disk s).ok = (readCluster g disk s.currentCluster).1 ∧
      (readPass g disk s).memory =
        s.memory.store s.outputBuffer (readCluster g disk s.currentCluster).2 ∧
      (readPass g disk s).passes = s.passes ++ [⟨s.currentCluster, fatIndex s.currentCluster,
        s.outputBuffer, (readCluster g disk s.currentCluster).2⟩] := by
  unfold readPass
  rw [if_pos ok]
  exact ⟨rfl, rfl, rfl⟩

theorem goesOn_readPass (ok : s.ok = true) : goesOn (readPass g disk s) =
    ((readCluster g disk s.currentCluster).1 &&
      decide (g.nextCluster s.currentCluster < 0x0FF8)) := by
  rw [goesOn, (readPass_ok ok).1]
  rfl

/-- What the loop leaves behind a chain of readable clusters. -/
structure Extracted (g : Globals) (disk : Disk) (s : ReadState) (cs : List UInt16)
    (t : ReadState) : Prop where
  ok : t.ok = true
  passes : t.passes = s.passes ++ chainPasses g disk s.outputBuffer cs
  stored : t.memory.slice s.outputBuffer (cs.length * g.bootSector.clusterSize) =
    cs.flatMap fun c => (readCluster g disk c).2
  kept : ∀ i, i < s.outputBuffer → t.memory i = s.memory i

/-- One pass of a readable cluster, before the rest of its chain. -/
theorem readPass_extracts (ok : s.ok = true)
    (reads : (readCluster g disk s.currentCluster).1 = true) :
    Extracted g disk s [s.currentCluster] (readPass g disk s) := by
  have pass : (readPass g disk s).ok = _ ∧ _ := readPass_ok ok
  obtain ⟨result, memory, passes⟩ := pass
  refine ⟨result.trans reads, passes, ?_, fun i before => ?_⟩
  · rw [memory, List.flatMap_singleton, List.length_singleton, Nat.one_mul,
      ← readCluster_length reads]
    exact Ptr.slice_store _ _ _
  · rw [memory]
    exact Ptr.store_before _ _ before

theorem Extracted.cons {c : UInt16} {cs : List UInt16} {t u : ReadState}
    (first : Extracted g disk s [c] t)
    (next : t.outputBuffer = s.outputBuffer + g.bootSector.clusterSize)
    (rest : Extracted g disk t cs u) : Extracted g disk s (c :: cs) u := by
  refine ⟨rest.ok, ?_, ?_, fun i before => ?_⟩
  · rw [rest.passes, first.passes, next, List.append_assoc]
    rfl
  · have head : u.memory.slice s.outputBuffer g.bootSector.clusterSize =
        t.memory.slice s.outputBuffer g.bootSector.clusterSize :=
      Ptr.slice_eq_iff.mpr fun i less => rest.kept _ (by omega)
    have single := first.stored
    rw [List.length_singleton, Nat.one_mul, List.flatMap_singleton] at single
    rw [List.length_cons, Nat.succ_mul, Nat.add_comm, Ptr.slice_add, head, single, ← next,
      rest.stored]
    rfl
  · rw [rest.kept i (by omega), first.kept i before]

/-- The loop makes one pass for each cluster of a readable chain. -/
theorem ChainFrom.run {c : UInt16} {cs : List UInt16} (chain : ChainFrom g c cs)
    (reads : ∀ d ∈ cs, (readCluster g disk d).1 = true) (ok : s.ok = true)
    (here : s.currentCluster = c) : ∃ t, Extracted g disk s cs t ∧
      ∀ n, doWhile (readPass g disk) goesOn n s = if cs.length ≤ n then some t else none := by
  induction chain generalizing s with
  | @last c ends =>
      subst here
      have read := reads _ List.mem_cons_self
      refine ⟨readPass g disk s, readPass_extracts ok read, fun n => ?_⟩
      cases n with
      | zero => rfl
      | succ n =>
          rw [doWhile, goesOn_readPass ok, read, decide_eq_false ends]
          exact (if_pos (Nat.succ_le_succ (Nat.zero_le n))).symm
  | @link c cs goes rest ih =>
      subst here
      have read := reads _ List.mem_cons_self
      have first := readPass_extracts ok read
      obtain ⟨t, extracted, returns⟩ := ih (s := readPass g disk s)
        (fun d member => reads d (List.mem_cons_of_mem _ member)) first.ok rfl
      refine ⟨t, first.cons rfl extracted, fun n => ?_⟩
      cases n with
      | zero => rfl
      | succ n =>
          rw [doWhile, goesOn_readPass ok, read, decide_eq_true goes, returns, List.length_cons]
          simp only [Bool.and_self, if_true, Nat.succ_le_succ_iff]

end Runs

section Layout

namespace BootSector

variable (boot : BootSector)

/-- The first sector of a data cluster. -/
def clusterSector (c : UInt16) : Nat :=
  boot.reservedSectors.toNat + boot.fatCount.toNat * boot.sectorsPerFat.toNat + boot.rootCount +
    (c.toNat - 2) * boot.sectorsPerCluster.toNat

def clusterData (disk : Disk) (c : UInt16) : List UInt8 :=
  disk.bytes.slice (boot.clusterSector c * boot.bytesPerSector.toNat) boot.clusterSize

def table (disk : Disk) : List UInt8 :=
  disk.bytes.slice (boot.reservedSectors.toNat * boot.bytesPerSector.toNat) boot.fatSize

/-- A data cluster with its entry inside the table. -/
structure DataCluster (c : UInt16) : Prop where
  low : 2 ≤ c.toNat
  high : c.toNat ≤ 0xFEF
  inside : fatIndex c + 1 < boot.fatSize

end BootSector

/-- The clusters of a file, by the twelve-bit entries of the table. -/
inductive FileChain (disk : Disk) (boot : BootSector) : UInt16 → List UInt16 → Prop
  | last {c : UInt16} (data : boot.DataCluster c)
      (ends : 0xFF8 ≤ packedEntry 12 (boot.table disk) c.toNat) : FileChain disk boot c [c]
  | link {c d : UInt16} {cs : List UInt16} (data : boot.DataCluster c)
      (entry : packedEntry 12 (boot.table disk) c.toNat = d.toNat)
      (rest : FileChain disk boot d cs) : FileChain disk boot c (c :: cs)

/-- The state after the three readers have run. -/
structure Loaded (disk : Disk) (boot : BootSector) (g : Globals) : Prop where
  booted : readBootSector disk = (true, boot)
  bootSector : g.bootSector = boot
  fat : ∃ heap, readFat boot disk heap = (true, g.fat)
  rootDirectory : ∃ heap root, readRootDirectory boot disk heap = some root ∧
    g.rootDirectory = root.entries ∧ g.rootDirectoryEnd = root.endLba

variable {disk : Disk} {boot : BootSector} {g : Globals} {c : UInt16}

theorem Loaded.fat_byte (loaded : Loaded disk boot g) {i : Nat} (inside : i < boot.fatSize) :
    (boot.table disk)[i]? = some (g.fat i) := by
  obtain ⟨heap, read⟩ := loaded.fat
  have ok : (readFat boot disk heap).1 = true := congrArg Prod.fst read
  have stored : (readSectors boot disk boot.reservedSectors.toUInt32
      boot.sectorsPerFat.toUInt32).2 = boot.table disk := by
    rw [readSectors_stored ok, fatOffset_toNat, UInt16.toNat_toUInt32,
      Nat.mul_comm boot.bytesPerSector.toNat]
    rfl
  have same : g.fat = heap.store 0 (boot.table disk) := by
    rw [← stored]
    exact (congrArg Prod.snd read).symm
  have room : i < (boot.table disk).length := by
    rw [BootSector.table, Ptr.length_slice]
    exact inside
  rw [same, List.getElem?_eq_getElem room]
  have byte := Ptr.store_inside heap 0 room
  rw [Nat.zero_add] at byte
  rw [byte]

/-- The link that `readFile` computes is the entry of the table. -/
theorem Loaded.nextCluster (loaded : Loaded disk boot g) (inside : fatIndex c + 1 < boot.fatSize) :
    (g.nextCluster c).toNat = packedEntry 12 (boot.table disk) c.toNat := by
  have size : (boot.table disk).length = boot.fatSize := Ptr.length_slice ..
  have held : g.HoldsTable (boot.table disk) := fun i room => loaded.fat_byte (size ▸ room)
  exact held.nextCluster (size.symm ▸ inside)

theorem Loaded.end_toNat (loaded : Loaded disk boot g) :
    boot.bytesPerSector ≠ 0 ∧ g.rootDirectoryEnd.toNat = boot.rootSector + boot.rootCount ∧
      boot.rootSector + boot.rootCount < 2 ^ 26 := by
  obtain ⟨heap, root, read, _, same⟩ := loaded.rootDirectory
  have sized : boot.bytesPerSector ≠ 0 := by
    intro zero
    rw [readRootDirectory, if_pos zero] at read
    cases read
  rw [readRootDirectory, if_neg sized] at read
  have entries := boot.dirEntryCount.toNat_lt
  have size := boot.bytesPerSector.toNat_lt
  have start := boot.rootSector_lt
  have bound := (BootSector.rootCount_covers sized).2
  have few : boot.rootCount ≤ boot.rootCount * boot.bytesPerSector.toNat :=
    Nat.le_mul_of_pos_right _ (BootSector.bytesPerSector_pos sized)
  refine ⟨sized, ?_, by omega⟩
  rw [same, ← Option.some.inj read, UInt32.toNat_add, boot.rootLba_toNat,
    BootSector.rootSectors_toNat sized]
  exact Nat.mod_eq_of_lt (by omega)

/-- The sector that `readFile` computes is the first one of the cluster. -/
theorem Loaded.clusterLba (loaded : Loaded disk boot g) (data : boot.DataCluster c) :
    (g.clusterLba c).toNat = boot.clusterSector c := by
  obtain ⟨_, start, bound⟩ := loaded.end_toNat
  have low := data.low
  have high := data.high
  have per := boot.sectorsPerCluster.toNat_lt
  have back : (c.toUInt32 - 2).toNat = c.toNat - 2 := by
    rw [UInt32.toNat_sub_of_le _ _ ?_, UInt16.toNat_toUInt32]
    · rfl
    · rw [UInt32.le_iff_toNat_le, UInt16.toNat_toUInt32]
      exact low
  have product : (c.toNat - 2) * boot.sectorsPerCluster.toNat ≤ 2 ^ 12 * 2 ^ 8 :=
    Nat.mul_le_mul (by omega) (by omega)
  unfold Globals.clusterLba BootSector.clusterSector
  rw [loaded.bootSector, UInt32.toNat_add, UInt32.toNat_mul, back, UInt8.toNat_toUInt32, start]
  unfold BootSector.rootSector at bound ⊢
  rw [Nat.mul_comm boot.fatCount.toNat]
  omega

/-- The cluster lies below 4 GiB and inside the image. -/
structure Present (disk : Disk) (boot : BootSector) (c : UInt16) : Prop where
  low : boot.clusterSector c * boot.bytesPerSector.toNat < 2 ^ 32
  ends : boot.clusterSector c * boot.bytesPerSector.toNat + boot.clusterSize ≤ disk.length

theorem Loaded.readCluster (loaded : Loaded disk boot g) (data : boot.DataCluster c)
    (present : Present disk boot c) : readCluster g disk c = (true, boot.clusterData disk c) := by
  have offset : (g.bootSector.seekOffset (g.clusterLba c)).toNat =
      boot.clusterSector c * boot.bytesPerSector.toNat := by
    rw [seekOffset_toNat, loaded.clusterLba data, loaded.bootSector]
    exact Nat.mod_eq_of_lt present.low
  have bytes : boot.bytesPerSector.toNat * boot.sectorsPerCluster.toUInt32.toNat =
      boot.clusterSize := by
    rw [UInt8.toNat_toUInt32, Nat.mul_comm]
    rfl
  have ok : (Fat.readCluster g disk c).1 = true := by
    refine (readSectors_ok_iff _ _ _ _).mpr (.inr ⟨?_, ?_⟩)
    · rw [loaded.bootSector]
      exact loaded.end_toNat.1
    · rw [offset, loaded.bootSector, bytes]
      exact present.ends
  refine Prod.ext ok ?_
  rw [Fat.readCluster, readSectors_stored ok, offset, loaded.bootSector, bytes]
  rfl

/-- The entries of the table are the links that the loop follows. -/
theorem FileChain.chainFrom {cs : List UInt16} (chain : FileChain disk boot c cs)
    (loaded : Loaded disk boot g) : ChainFrom g c cs ∧ ∀ d ∈ cs, boot.DataCluster d := by
  induction chain with
  | @last c data ends =>
      constructor
      · refine .last fun goes => ?_
        rw [UInt16.lt_iff_toNat_lt, loaded.nextCluster data.inside] at goes
        exact absurd goes (Nat.not_lt.mpr ends)
      · intro d only
        rw [List.mem_singleton.mp only]
        exact data
  | @link c d cs data entry rest ih =>
      have next : g.nextCluster c = d :=
        UInt16.toNat_inj.mp ((loaded.nextCluster data.inside).trans entry)
      have early : d.toNat ≤ 0xFEF := by
        cases rest with
        | last data _ => exact data.high
        | link data _ _ => exact data.high
      constructor
      · refine .link ?_ (next.symm ▸ ih.1)
        rw [next, UInt16.lt_iff_toNat_lt]
        exact Nat.lt_of_le_of_lt early (by decide)
      · intro e member
        rcases List.mem_cons.mp member with first | later
        · rw [first]
          exact data
        · exact ih.2 e later

/-- A file whose clusters are linked in the table and present in the image is copied cluster
by cluster, in exactly as many passes as it has clusters. -/
theorem readFile_extracts {entry : DirectoryEntry} {cs : List UInt16}
    (loaded : Loaded disk boot g) (chain : FileChain disk boot entry.firstClusterLow cs)
    (present : ∀ c ∈ cs, Present disk boot c) (outputBuffer : Ptr) :
    ∃ s, (∀ fuel, readFile fuel g entry disk outputBuffer =
        if cs.length ≤ fuel then some s else none) ∧
      s.ok = true ∧ s.passes.length = cs.length ∧
      s.memory.slice 0 (cs.length * boot.clusterSize) = cs.flatMap (boot.clusterData disk) := by
  obtain ⟨linked, data⟩ := chain.chainFrom loaded
  have reads : ∀ c ∈ cs, readCluster g disk c = (true, boot.clusterData disk c) := fun c member =>
    loaded.readCluster (data c member) (present c member)
  obtain ⟨s, extracted, returns⟩ := linked.run
    (s := readStart entry outputBuffer) (fun c member => congrArg Prod.fst (reads c member)) rfl rfl
  refine ⟨s, returns, extracted.ok, ?_, ?_⟩
  · rw [extracted.passes]
    exact length_chainPasses _ _
  · have stored := extracted.stored
    rw [loaded.bootSector] at stored
    refine stored.trans ?_
    simp only [List.flatMap_def]
    congr 1
    apply List.map_congr_left
    intro c member
    rw [reads c member]

end Layout

section Sample

def globalsOf (disk : Disk) : Globals :=
  let boot := (readBootSector disk).2
  { bootSector := boot
    fat := (readFat boot disk Text.empty.ptr).2
    rootDirectory := Text.empty.ptr.store 0 (readSectors boot disk boot.rootLba boot.rootSectors).2
    rootDirectoryEnd := boot.rootLba + boot.rootSectors }

theorem globalsOf_loaded {disk : Disk} {boot : BootSector}
    (accepts : Accepts disk boot Text.empty.ptr) (sized : boot.bytesPerSector ≠ 0) :
    Loaded disk boot (globalsOf disk) := by
  have same : (readBootSector disk).2 = boot := congrArg Prod.snd accepts.booted
  refine ⟨accepts.booted, same, ⟨Text.empty.ptr, ?_⟩, Text.empty.ptr, _, if_neg sized, ?_, ?_⟩
  · unfold globalsOf
    rw [same]
    exact Prod.ext accepts.loaded rfl
  · unfold globalsOf
    rw [same]
  · unfold globalsOf
    rw [same]

def sampleGlobals : Globals := globalsOf sampleDisk

theorem sample_loaded : Loaded sampleDisk sampleBoot sampleGlobals :=
  globalsOf_loaded sample_accepted (by decide)

def sampleEntry : DirectoryEntry := directoryEntryAt (entryPtr sampleGlobals.rootDirectory 0)

theorem readFile_extracts_sample : ∃ s : ReadState,
    (∀ fuel, readFile fuel sampleGlobals sampleEntry sampleDisk Text.empty.ptr =
      if 2 ≤ fuel then some s else none) ∧ s.ok = true ∧ s.passes.length = 2 ∧
    s.memory.slice 0 (2 * sampleBoot.clusterSize) =
      [2, 3].flatMap (sampleBoot.clusterData sampleDisk) := by
  have first : sampleBoot.DataCluster 2 := ⟨by decide, by decide, by decide⟩
  have second : sampleBoot.DataCluster 3 := ⟨by decide, by decide, by decide⟩
  have next : sampleGlobals.nextCluster 2 = 3 := by decide
  have last : sampleGlobals.nextCluster 3 = 0xFFF := by decide
  have chain : FileChain sampleDisk sampleBoot sampleEntry.firstClusterLow [2, 3] := by
    refine .link first (d := 3) ?_ (.last second ?_)
    · rw [← next]
      exact (sample_loaded.nextCluster first.inside).symm
    · have entry := sample_loaded.nextCluster second.inside
      rw [last] at entry
      rw [← entry]
      decide
  refine readFile_extracts sample_loaded chain (fun c member => ?_) Text.empty.ptr
  rcases List.mem_cons.mp member with rfl | member
  · exact ⟨by decide, by decide⟩
  · rw [List.mem_singleton.mp member]
    exact ⟨by decide, by decide⟩

end Sample

end VDK.Fat
