import VDK.FatChain

/-!
# The copy of a file and its buffer

`main` allocates the size of the file and one sector more, in 32 bits, and `readFile` stores
whole clusters. What is stored is compared with what is allocated, for every disk that the
clusters may be read from.
-/
namespace VDK.Fat
open ByteMem DoWhile

def storedBytes (passes : List Pass) : Nat := (passes.map fun p => p.stored.length).sum

section Stored

variable {g : Globals} {disk : Disk} {s t : ReadState} {n : Nat}

theorem storedBytes_append (ps qs : List Pass) :
    storedBytes (ps ++ qs) = storedBytes ps + storedBytes qs := by
  unfold storedBytes
  rw [List.map_append, List.sum_append]

theorem readPass_stored (g : Globals) (disk : Disk) (s : ReadState) :
    storedBytes (readPass g disk s).passes ≤ storedBytes s.passes + g.bootSector.clusterSize := by
  have one : ∀ p : Pass, storedBytes [p] = p.stored.length := fun p => rfl
  unfold readPass
  dsimp only
  rw [storedBytes_append, one]
  apply Nat.add_le_add_left
  split
  · refine Nat.le_trans (readSectors_length _ _ _ _) (Nat.le_of_eq ?_)
    rw [UInt8.toNat_toUInt32, Nat.mul_comm]
    rfl
  · exact Nat.zero_le _

theorem passes_stored (passes : Passes (readPass g disk) goesOn s n t) :
    storedBytes t.passes ≤ storedBytes s.passes + n * g.bootSector.clusterSize := by
  induction passes with
  | first =>
      rw [Nat.one_mul]
      exact readPass_stored g disk s
  | @again n t _ _ ih =>
      rw [Nat.succ_mul]
      exact Nat.le_trans (readPass_stored g disk t) (by omega)

/-- The loop makes no more passes than the chain has clusters, whatever can be read. -/
theorem ChainFrom.passes_le {c : UInt16} {cs : List UInt16} (chain : ChainFrom g c cs)
    (ok : s.ok = true) (here : s.currentCluster = c)
    (passes : Passes (readPass g disk) goesOn s n t) : n ≤ cs.length := by
  induction chain generalizing s n with
  | last ends =>
      subst here
      rcases passes.tail with ⟨rfl, _⟩ | ⟨m, _, goes, _⟩
      · exact Nat.le_refl 1
      · rw [goesOn_readPass ok, decide_eq_false ends, Bool.and_false] at goes
        exact nomatch goes
  | link _ _ ih =>
      subst here
      rcases passes.tail with ⟨rfl, _⟩ | ⟨m, rfl, goes, later⟩
      · exact Nat.succ_le_succ (Nat.zero_le _)
      · rw [goesOn_readPass ok, Bool.and_eq_true] at goes
        exact Nat.succ_le_succ (ih ((readPass_ok ok).1.trans goes.1) rfl later)

theorem read_of_returns (ok : s.ok = true)
    (returns : doWhile (readPass g disk) goesOn n s = some t) (success : t.ok = true) :
    (readCluster g disk s.currentCluster).1 = true := by
  cases n with
  | zero => exact nomatch returns
  | succ n =>
      rw [doWhile] at returns
      split at returns
      · rename_i goes
        rw [goesOn_readPass ok, Bool.and_eq_true] at goes
        exact goes.1
      · rw [← Option.some.inj returns, (readPass_ok ok).1] at success
        exact success

theorem ChainFrom.reads {c : UInt16} {cs : List UInt16} (chain : ChainFrom g c cs)
    (ok : s.ok = true) (here : s.currentCluster = c)
    (returns : doWhile (readPass g disk) goesOn n s = some t) (success : t.ok = true) :
    ∀ d ∈ cs, (readCluster g disk d).1 = true := by
  have first := read_of_returns ok returns success
  induction chain generalizing s n with
  | last _ =>
      subst here
      intro d only
      rw [List.mem_singleton.mp only]
      exact first
  | link goes rest ih =>
      subst here
      intro d member
      rcases List.mem_cons.mp member with rfl | later
      · exact first
      · cases n with
        | zero => exact nomatch returns
        | succ n =>
            rw [doWhile, goesOn_readPass ok, first, decide_eq_true goes, Bool.and_self,
              if_pos rfl] at returns
            have next : (readPass g disk s).ok = true := (readPass_ok ok).1.trans first
            exact ih next rfl returns (read_of_returns next returns success) d later

theorem storedBytes_chain {cs : List UInt16} (reads : ∀ d ∈ cs, (readCluster g disk d).1 = true)
    (offset : Nat) : storedBytes (chainPasses g disk offset cs) =
      cs.length * g.bootSector.clusterSize := by
  induction cs generalizing offset with
  | nil =>
      rw [List.length_nil, Nat.zero_mul]
      rfl
  | cons c cs ih =>
      rw [chainPasses, storedBytes, List.map_cons, List.sum_cons, List.length_cons, Nat.succ_mul,
        Nat.add_comm, readCluster_length (reads c List.mem_cons_self)]
      congr 1
      exact ih (fun d member => reads d (List.mem_cons_of_mem c member)) _

/-- The passes of a readable chain cover its bytes without a gap. -/
theorem chainPasses_cover {cs : List UInt16} (reads : ∀ d ∈ cs, (readCluster g disk d).1 = true)
    {offset i : Nat} (low : offset ≤ i)
    (inside : i < offset + cs.length * g.bootSector.clusterSize) :
    ∃ p ∈ chainPasses g disk offset cs, p.offset ≤ i ∧ i < p.offset + p.stored.length := by
  induction cs generalizing offset with
  | nil =>
      rw [List.length_nil, Nat.zero_mul] at inside
      omega
  | cons c cs ih =>
      rw [List.length_cons, Nat.succ_mul] at inside
      by_cases here : i < offset + g.bootSector.clusterSize
      · refine ⟨_, List.mem_cons_self, low, ?_⟩
        rw [readCluster_length (reads c List.mem_cons_self)]
        exact here
      · have later : offset + g.bootSector.clusterSize ≤ i := Nat.not_lt.mp here
        obtain ⟨p, member, covered⟩ :=
          ih (fun d member => reads d (List.mem_cons_of_mem c member)) later (by omega)
        exact ⟨p, List.mem_cons_of_mem _ member, covered⟩

end Stored

section Copy

variable {g : Globals} {entry : DirectoryEntry} {cs : List UInt16}

/-- The clusters of a file: none for an empty first cluster, or a chain from it. -/
def FileClusters (g : Globals) (entry : DirectoryEntry) : List UInt16 → Prop
  | [] => entry.firstClusterLow = 0
  | c :: cs => ChainFrom g entry.firstClusterLow (c :: cs)

/-- The clusters that a size takes, rounded up. -/
def BootSector.clustersFor (boot : BootSector) (size : Nat) : Nat :=
  (size + boot.clusterSize - 1) / boot.clusterSize

/-- From any disk, no more is stored than is allocated, and what is printed was stored. -/
structure CopyFits (g : Globals) (entry : DirectoryEntry) : Prop where
  fits : ∀ disk outputBuffer n s,
    Passes (readPass g disk) goesOn (readStart entry outputBuffer) n s →
      storedBytes s.passes ≤ (bufferSize g.bootSector entry).toNat
  printed : ∀ disk outputBuffer fuel s, readFile fuel g entry disk outputBuffer = some s →
    s.ok = true → ∀ i, i < entry.size.toNat →
      ∃ p ∈ s.passes, p.offset ≤ i ∧ i < p.offset + p.stored.length

/-- An empty file takes one pass over clusters of one sector; any other leaves less than 4 GiB
with the added sector, and its last cluster lacks at most one sector. -/
def CopyRoom (g : Globals) (entry : DirectoryEntry) : Prop :=
  if entry.size = 0 then
    g.bootSector.sectorsPerCluster = 1 ∧ ¬g.nextCluster 0 < 0x0FF8
  else
    entry.size.toNat + g.bootSector.bytesPerSector.toNat < 2 ^ 32 ∧
      (entry.size.toNat % g.bootSector.clusterSize = 0 ∨
        g.bootSector.clusterSize - entry.size.toNat % g.bootSector.clusterSize ≤
          g.bootSector.bytesPerSector.toNat)

theorem bufferSize_toNat (boot : BootSector) (entry : DirectoryEntry) :
    (bufferSize boot entry).toNat =
      (entry.size.toNat + boot.bytesPerSector.toNat) % 2 ^ 32 := by
  rw [bufferSize, UInt32.toNat_add, UInt16.toNat_toUInt32]

def wholeDisk : Disk := ⟨Text.empty.ptr, 2 ^ 33⟩

theorem wholeDisk_reads (sized : g.bootSector.bytesPerSector ≠ 0) (c : UInt16) :
    (readCluster g wholeDisk c).1 = true := by
  have offset := (g.bootSector.seekOffset (g.clusterLba c)).toNat_lt
  have bytes := g.bootSector.bytesPerSector.toNat_lt
  have sectors := g.bootSector.sectorsPerCluster.toNat_lt
  have product : g.bootSector.bytesPerSector.toNat * g.bootSector.sectorsPerCluster.toNat ≤
      2 ^ 16 * 2 ^ 8 := Nat.mul_le_mul (by omega) (by omega)
  refine (readSectors_ok_iff _ _ _ _).mpr (.inr ⟨sized, ?_⟩)
  rw [UInt8.toNat_toUInt32, show wholeDisk.length = 2 ^ 33 from rfl]
  omega

theorem readPass_wholeDisk (sized : g.bootSector.bytesPerSector ≠ 0) {s : ReadState}
    (ok : s.ok = true) : (readPass g wholeDisk s).ok = true ∧
      storedBytes (readPass g wholeDisk s).passes =
        storedBytes s.passes + g.bootSector.clusterSize := by
  have pass : (readPass g wholeDisk s).ok = _ ∧ _ := readPass_ok ok
  obtain ⟨result, _, passes⟩ := pass
  have read := wholeDisk_reads sized s.currentCluster
  refine ⟨result.trans read, ?_⟩
  rw [passes, storedBytes_append, ← readCluster_length read]
  rfl

theorem clustersFor_mul {boot : BootSector} (positive : 0 < boot.clusterSize) (size : Nat) :
    boot.clustersFor size * boot.clusterSize =
      if size % boot.clusterSize = 0 then size
      else size + (boot.clusterSize - size % boot.clusterSize) := by
  unfold BootSector.clustersFor
  generalize boot.clusterSize = cluster at *
  have split := Nat.div_add_mod size cluster
  have less := Nat.mod_lt size positive
  have rounded := Nat.div_add_mod (size + cluster - 1) cluster
  have rest := Nat.mod_lt (size + cluster - 1) positive
  by_cases whole : size % cluster = 0
  · have count : (size + cluster - 1) / cluster = size / cluster := by
      rw [Nat.div_eq_iff positive, Nat.mul_comm]
      omega
    rw [if_pos whole, count, Nat.mul_comm]
    omega
  · have count : (size + cluster - 1) / cluster = size / cluster + 1 := by
      rw [Nat.div_eq_iff positive, Nat.succ_mul, Nat.mul_comm]
      omega
    rw [if_neg whole, count, Nat.succ_mul, Nat.mul_comm]
    omega

theorem clusterSize_ge {boot : BootSector} (sized : boot.bytesPerSector ≠ 0)
    (clustered : boot.sectorsPerCluster ≠ 0) :
    0 < boot.bytesPerSector.toNat ∧ boot.bytesPerSector.toNat ≤ boot.clusterSize := by
  refine ⟨BootSector.bytesPerSector_pos sized, Nat.le_mul_of_pos_left _ ?_⟩
  exact Nat.pos_of_ne_zero fun zero => clustered (UInt8.toNat_inj.mp zero)

/-- Whole clusters fit what is allocated in 32 bits when the sum does not wrap and the last
cluster lacks at most one sector. -/
theorem clusters_fit_iff (sized : g.bootSector.bytesPerSector ≠ 0)
    (clustered : g.bootSector.sectorsPerCluster ≠ 0) (nonempty : entry.size ≠ 0) :
    g.bootSector.clustersFor entry.size.toNat * g.bootSector.clusterSize ≤
      (bufferSize g.bootSector entry).toNat ↔ CopyRoom g entry := by
  obtain ⟨positive, least⟩ := clusterSize_ge sized clustered
  have small := entry.size.toNat_lt
  have sector := g.bootSector.bytesPerSector.toNat_lt
  have rounded := clustersFor_mul (Nat.lt_of_lt_of_le positive least) entry.size.toNat
  rw [CopyRoom, if_neg nonempty, bufferSize_toNat, rounded]
  split
  · omega
  · omega

theorem size_le_clusters {boot : BootSector} (positive : 0 < boot.clusterSize) (size : Nat) :
    size ≤ boot.clustersFor size * boot.clusterSize := by
  rw [clustersFor_mul positive]
  split
  · exact Nat.le_refl _
  · exact Nat.le_add_right _ _

theorem ChainFrom.stored_le {cs : List UInt16} (chain : ChainFrom g entry.firstClusterLow cs)
    {disk : Disk} {outputBuffer : Ptr} {n : Nat} {s : ReadState}
    (passes : Passes (readPass g disk) goesOn (readStart entry outputBuffer) n s) :
    storedBytes s.passes ≤ cs.length * g.bootSector.clusterSize := by
  have few := chain.passes_le (s := readStart entry outputBuffer) rfl rfl passes
  have stored := passes_stored passes
  have most := Nat.mul_le_mul_right g.bootSector.clusterSize few
  have none : storedBytes (readStart entry outputBuffer).passes = 0 := rfl
  omega

/-- A copy that succeeds has stored every cluster of the chain, one behind the other. -/
theorem ChainFrom.covered {cs : List UInt16} (chain : ChainFrom g entry.firstClusterLow cs)
    {disk : Disk} {outputBuffer : Ptr} {fuel : Nat} {s : ReadState}
    (returned : readFile fuel g entry disk outputBuffer = some s) (success : s.ok = true) {i : Nat}
    (inside : i < cs.length * g.bootSector.clusterSize) :
    ∃ p ∈ s.passes, p.offset ≤ i ∧ i < p.offset + p.stored.length := by
  have reads := chain.reads (s := readStart entry outputBuffer) rfl rfl returned success
  obtain ⟨t, extracted, returns⟩ := chain.run (s := readStart entry outputBuffer) reads rfl rfl
  have same : t = s := by
    have again := returns fuel
    rw [show doWhile (readPass g disk) goesOn fuel (readStart entry outputBuffer) = some s
      from returned] at again
    split at again
    · exact (Option.some.inj again).symm
    · exact nomatch again
  rw [← same, extracted.passes]
  refine chainPasses_cover reads (Nat.zero_le i) ?_
  rw [show (readStart entry outputBuffer).outputBuffer = 0 from rfl, Nat.zero_add]
  exact inside

/-- A file with clusters is copied within its buffer exactly when there is room for all of them. -/
theorem copyFits_of_chain {c : UInt16} (sized : g.bootSector.bytesPerSector ≠ 0)
    (clustered : g.bootSector.sectorsPerCluster ≠ 0) (nonempty : entry.size ≠ 0)
    (chain : ChainFrom g entry.firstClusterLow (c :: cs))
    (exact : (c :: cs).length = g.bootSector.clustersFor entry.size.toNat) :
    CopyFits g entry ↔ CopyRoom g entry := by
  have positive := Nat.lt_of_lt_of_le (clusterSize_ge sized clustered).1
    (clusterSize_ge sized clustered).2
  rw [← clusters_fit_iff sized clustered nonempty, ← exact]
  constructor
  · intro copy
    have reads : ∀ d ∈ c :: cs, (readCluster g wholeDisk d).1 = true := fun d _ =>
      wholeDisk_reads sized d
    obtain ⟨s, extracted, returns⟩ := chain.run (s := readStart entry Text.empty.ptr) reads rfl rfl
    have enough := returns (c :: cs).length
    rw [if_pos (Nat.le_refl _)] at enough
    obtain ⟨n, _, passes, _⟩ := doWhile_eq_some_iff.mp enough
    have stored := copy.fits _ _ _ _ passes
    rw [extracted.passes, storedBytes_append, storedBytes_chain reads] at stored
    exact Nat.le_trans (Nat.le_add_left _ _) stored
  · intro room
    constructor
    · exact fun disk outputBuffer n s passes => Nat.le_trans (chain.stored_le passes) room
    · intro disk outputBuffer fuel s returned success i inside
      refine chain.covered returned success (Nat.lt_of_lt_of_le inside ?_)
      rw [exact]
      exact size_le_clusters positive entry.size.toNat

/-- Over a disk that can be read anywhere, an empty file whose copy fits takes one pass over one
sector. -/
theorem CopyFits.single_sector (copy : CopyFits g entry) (sized : g.bootSector.bytesPerSector ≠ 0)
    (clustered : g.bootSector.sectorsPerCluster ≠ 0) (first : entry.firstClusterLow = 0)
    (buffer : (bufferSize g.bootSector entry).toNat = g.bootSector.bytesPerSector.toNat) :
    g.bootSector.sectorsPerCluster = 1 ∧ ¬g.nextCluster 0 < 0x0FF8 := by
  obtain ⟨positive, least⟩ := clusterSize_ge sized clustered
  let start := readStart entry Text.empty.ptr
  obtain ⟨ok, stored⟩ := readPass_wholeDisk (s := start) sized rfl
  have one := copy.fits wholeDisk Text.empty.ptr 1 _ .first
  rw [stored, buffer, show storedBytes start.passes = 0 from rfl, Nat.zero_add] at one
  constructor
  · have few : g.bootSector.sectorsPerCluster.toNat ≤ 1 := by
      refine Nat.le_of_mul_le_mul_right ?_ positive
      rw [Nat.one_mul]
      exact one
    have some : g.bootSector.sectorsPerCluster.toNat ≠ 0 := fun zero =>
      clustered (UInt8.toNat_inj.mp zero)
    exact UInt8.toNat_inj.mp (show _ = 1 by omega)
  · intro goes
    have on : goesOn (readPass g wholeDisk start) = true := by
      rw [goesOn_readPass (s := start) rfl, wholeDisk_reads sized, Bool.true_and,
        show start.currentCluster = 0 from first]
      exact decide_eq_true goes
    have two := copy.fits wholeDisk Text.empty.ptr 2 _ (.again .first on)
    rw [(readPass_wholeDisk sized ok).2, stored, buffer] at two
    omega

theorem copyFits_of_empty (sized : g.bootSector.bytesPerSector ≠ 0)
    (clustered : g.bootSector.sectorsPerCluster ≠ 0) (empty : entry.size = 0)
    (first : entry.firstClusterLow = 0) : CopyFits g entry ↔ CopyRoom g entry := by
  have sector := g.bootSector.bytesPerSector.toNat_lt
  have size : entry.size.toNat = 0 := congrArg UInt32.toNat empty
  have buffer : (bufferSize g.bootSector entry).toNat = g.bootSector.bytesPerSector.toNat := by
    rw [bufferSize_toNat, size]
    omega
  rw [CopyRoom, if_pos empty]
  constructor
  · exact fun copy => copy.single_sector sized clustered first buffer
  · rintro ⟨single, ends⟩
    have cluster : g.bootSector.clusterSize = g.bootSector.bytesPerSector.toNat := by
      rw [BootSector.clusterSize, single]
      exact Nat.one_mul _
    have chain : ChainFrom g entry.firstClusterLow [0] := first.symm ▸ ChainFrom.last ends
    constructor
    · intro disk outputBuffer n s passes
      have stored := chain.stored_le passes
      rw [List.length_singleton, Nat.one_mul, cluster, ← buffer] at stored
      exact stored
    · intro disk outputBuffer fuel s _ _ i inside
      rw [size] at inside
      exact absurd inside (Nat.not_lt_zero i)

/-- For a file with as many clusters as its size needs, the copy fits its buffer and is printed
from stored bytes if and only if there is room for whole clusters. -/
theorem copy_fits_iff (sized : g.bootSector.bytesPerSector ≠ 0)
    (clustered : g.bootSector.sectorsPerCluster ≠ 0) (clusters : FileClusters g entry cs)
    (exact : cs.length = g.bootSector.clustersFor entry.size.toNat) :
    CopyFits g entry ↔ CopyRoom g entry := by
  have positive := Nat.lt_of_lt_of_le (clusterSize_ge sized clustered).1
    (clusterSize_ge sized clustered).2
  have rounded := clustersFor_mul positive entry.size.toNat
  by_cases empty : entry.size = 0
  · have none : cs.length = 0 := by
      rw [exact, BootSector.clustersFor, show entry.size.toNat = 0 from congrArg UInt32.toNat empty,
        Nat.zero_add]
      exact Nat.div_eq_of_lt (Nat.sub_lt positive Nat.one_pos)
    rw [List.length_eq_zero_iff.mp none] at clusters
    exact copyFits_of_empty sized clustered empty clusters
  · cases cs with
    | nil =>
        have some : entry.size.toNat ≠ 0 := fun zero => empty (UInt32.toNat_inj.mp zero)
        rw [← exact, List.length_nil, Nat.zero_mul] at rounded
        split at rounded
        · omega
        · omega
    | cons c cs => exact copyFits_of_chain sized clustered empty clusters exact

end Copy

section Sample

/-- The sample table with clusters of four sectors of 512 bytes. -/
def wideGlobals : Globals :=
  { sampleGlobals with
    bootSector := { sampleBoot with bytesPerSector := 512, sectorsPerCluster := 4 } }

def tinyEntry : DirectoryEntry := { sampleEntry with firstClusterLow := 3, size := 1 }

/-- For a file of one byte 513 bytes are allocated, and 2048 are stored. -/
theorem tiny_file_overflows : FileClusters wideGlobals tinyEntry [3] ∧
    [3].length = wideGlobals.bootSector.clustersFor tinyEntry.size.toNat ∧
    (∃ s, Passes (readPass wideGlobals wholeDisk) goesOn (readStart tinyEntry Text.empty.ptr) 1 s ∧
      storedBytes s.passes = 2048) ∧
    (bufferSize wideGlobals.bootSector tinyEntry).toNat = 513 ∧
    ¬CopyFits wideGlobals tinyEntry := by
  have sized : wideGlobals.bootSector.bytesPerSector ≠ 0 := by decide
  have size : wideGlobals.bootSector.clusterSize = 2048 := by decide
  have buffer : (bufferSize wideGlobals.bootSector tinyEntry).toNat = 513 := by decide
  have stored := (readPass_wholeDisk (s := readStart tinyEntry Text.empty.ptr) sized rfl).2
  rw [size] at stored
  refine ⟨.last (by decide), by decide, ⟨_, .first, stored⟩, buffer, fun copy => ?_⟩
  have fits := copy.fits wholeDisk Text.empty.ptr 1 _ .first
  rw [stored, buffer] at fits
  exact absurd fits (by decide)

theorem copy_fits_iff_sample : CopyFits sampleGlobals sampleEntry := by
  have chain : FileClusters sampleGlobals sampleEntry [2, 3] := .link (by decide) (.last (by decide))
  exact (copy_fits_iff (by decide) (by decide) chain (by decide)).mpr (by
    rw [CopyRoom, if_neg (by decide)]
    exact ⟨by decide, .inr (by decide)⟩)

end Sample

end VDK.Fat
