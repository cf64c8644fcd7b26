import VDK.FatChain
import VDK.LinkChain

/-!
# The link graph of a file allocation table

An entry below 0xFF8 is a link, whatever it links to. The loop of `readFile` follows the
links from the first cluster for as long as sectors can be read; nothing else ends it.
-/
namespace VDK.Fat
open ByteMem DoWhile LinkChain Relation

def fatLink (g : Globals) (c : UInt16) : Option UInt16 :=
  if g.nextCluster c < 0x0FF8 then some (g.nextCluster c) else none

/-- The links that the loop follows, those of clusters whose sectors can be read. -/
def readLink (g : Globals) (disk : Disk) (c : UInt16) : Option UInt16 :=
  if (readCluster g disk c).1 then fatLink g c else none

/-- The twelve-bit entries that lie inside the table as a whole. -/
def BootSector.fatEntries (boot : BootSector) : Nat := boot.fatSize * 2 / 3

section Links

variable {g : Globals} {disk : Disk}

theorem readFile_follows : FollowsLinks (readPass g disk) goesOn (readLink g disk)
    ReadState.currentCluster fun s => s.ok = true := by
  intro s ok
  rw [goesOn_readPass ok, readLink, fatLink]
  by_cases read : (readCluster g disk s.currentCluster).1 = true
  · rw [if_pos read, read, Bool.true_and]
    by_cases goes : g.nextCluster s.currentCluster < 0x0FF8
    · rw [if_pos goes]
      exact ⟨decide_eq_true goes, rfl, (readPass_ok ok).1.trans read⟩
    · rw [if_neg goes]
      exact decide_eq_false goes
  · rw [if_neg read, Bool.eq_false_iff.mpr read, Bool.false_and]

variable {entry : DirectoryEntry} {outputBuffer : Ptr}

theorem readFile_returns_iff {fuel : Nat} :
    (∃ s, readFile fuel g entry disk outputBuffer = some s) ↔
      climb (readLink g disk) fuel entry.firstClusterLow = none :=
  readFile_follows.returns_iff (s := readStart entry outputBuffer) rfl

/-- When the sectors of every linked cluster can be read, the loop ends within as many passes as
the table has entries if and only if no cluster comes back and no more clusters than that
are linked. -/
theorem readFile_ends_iff
    (reads : ∀ c, ReflTransGen (Linked (fatLink g)) entry.firstClusterLow c →
      (readCluster g disk c).1 = true) :
    (∃ s, readFile g.bootSector.fatEntries g entry disk outputBuffer = some s) ↔
      Acyclic (fatLink g) entry.firstClusterLow ∧
        AtMost (fatLink g) g.bootSector.fatEntries entry.firstClusterLow := by
  have same : ∀ c, ReflTransGen (Linked (fatLink g)) entry.firstClusterLow c →
      readLink g disk c = fatLink g c := fun c reach => if_pos (reads c reach)
  rw [readFile_returns_iff, climb_congr same, climb_eq_none_iff]

/-- The sample image with its second cluster linked to itself. -/
def loopDisk : Disk :=
  image 384 [(11, 64), (13, 1), (14, 1), (16, 1), (17, 2), (22, 1), (67, 0x02)]

def loopGlobals : Globals := globalsOf loopDisk

theorem loop_reach {c : UInt16} (reach : ReflTransGen (Linked (fatLink loopGlobals)) 2 c) :
    c = 2 := by
  induction reach with
  | refl => rfl
  | tail _ link ih =>
      rw [ih] at link
      have self : fatLink loopGlobals 2 = some 2 := by decide
      exact Option.some.inj (link.symm.trans self)

/-- A file whose only cluster is linked to itself is read for ever. -/
theorem self_link_never_ends :
    (∃ boot, Loaded loopDisk boot loopGlobals) ∧
      (∀ c, ReflTransGen (Linked (fatLink loopGlobals)) sampleEntry.firstClusterLow c →
        (readCluster loopGlobals loopDisk c).1 = true) ∧
      ∀ fuel, readFile fuel loopGlobals sampleEntry loopDisk Text.empty.ptr = none := by
  have first : sampleEntry.firstClusterLow = 2 := by decide
  have read : (readCluster loopGlobals loopDisk 2).1 = true := by decide
  have self : readLink loopGlobals loopDisk 2 = some 2 := by decide
  refine ⟨⟨_, globalsOf_loaded ⟨Prod.ext (by decide) rfl, by decide⟩ (by decide)⟩, ?_, ?_⟩
  · intro c reach
    rw [first] at reach
    rw [loop_reach reach]
    exact read
  · intro fuel
    have forever : climb (readLink loopGlobals loopDisk) fuel 2 = some 2 := by
      have around : climb (readLink loopGlobals loopDisk) 1 2 = some 2 := by
        rw [climb, self]
        rfl
      have many := climb_cycle around fuel
      rwa [Nat.one_mul] at many
    rw [← Option.not_isSome_iff_eq_none, Option.isSome_iff_exists, readFile_returns_iff, first,
      forever]
    exact Option.some_ne_none 2

theorem sample_reach {c : UInt16} (reach : ReflTransGen (Linked (fatLink sampleGlobals)) 2 c) :
    c = 2 ∨ c = 3 := by
  induction reach with
  | refl => exact .inl rfl
  | tail _ link ih =>
      have second : fatLink sampleGlobals 2 = some 3 := by decide
      have third : fatLink sampleGlobals 3 = none := by decide
      rcases ih with rfl | rfl
      · exact .inr (Option.some.inj (link.symm.trans second))
      · exact nomatch link.symm.trans third

theorem sample_acyclic : Acyclic (fatLink sampleGlobals) 2 := by
  intro c reach around
  obtain ⟨n, back⟩ := cycle_iff.mp around
  have ended : climb (fatLink sampleGlobals) 2 c = none := by
    rcases sample_reach reach with rfl | rfl
    · decide
    · decide
  have later := climb_cycle back 2
  rw [climb_none_of_le ended (by omega)] at later
  exact nomatch later

theorem readFile_ends_iff_sample : ∃ s,
    readFile sampleBoot.fatEntries sampleGlobals sampleEntry sampleDisk Text.empty.ptr = some s := by
  refine (readFile_ends_iff (g := sampleGlobals) ?_).mpr
    ⟨sample_acyclic, [2, 3], by decide, ?_⟩
  · intro c reach
    rcases sample_reach reach with rfl | rfl
    · decide
    · decide
  · intro c reach
    rcases sample_reach reach with rfl | rfl
    · decide
    · decide

end Links

section Validity

/-- The passes of the loop read the table inside the loaded bytes and only data clusters, and a
chain that comes to a free, reserved or bad cluster is refused. -/
structure FollowsValid (g : Globals) (disk : Disk) (entry : DirectoryEntry) (outputBuffer : Ptr) :
    Prop where
  bounds : ∀ n s, Passes (readPass g disk) goesOn (readStart entry outputBuffer) n s →
    ∀ p ∈ s.passes, p.fatIndex + 1 < g.bootSector.fatSize
  data : ∀ n s, Passes (readPass g disk) goesOn (readStart entry outputBuffer) n s →
    ∀ p ∈ s.passes, 2 ≤ p.cluster.toNat ∧ p.cluster.toNat < 0xFF0
  refuses : ∀ c, ReflTransGen (Linked (fatLink g)) entry.firstClusterLow c →
    c.toNat ≤ 1 ∨ (0xFF0 ≤ c.toNat ∧ c.toNat ≤ 0xFF7) →
    ∃ fuel s, readFile fuel g entry disk outputBuffer = some s ∧ s.ok = false

variable {g : Globals} {disk : Disk} {entry : DirectoryEntry} {outputBuffer : Ptr}

theorem readable_or {c d : UInt16} (reach : ReflTransGen (Linked (fatLink g)) c d) :
    ReflTransGen (Linked (readLink g disk)) c d ∨
      ∃ e, ReflTransGen (Linked (readLink g disk)) c e ∧ (readCluster g disk e).1 = false := by
  induction reach with
  | refl => exact .inl .refl
  | @tail d e _ link ih =>
      rcases ih with followed | stuck
      · cases read : (readCluster g disk d).1 with
        | false => exact .inr ⟨d, followed, read⟩
        | true =>
            refine .inl (followed.tail ?_)
            rw [Linked, readLink, if_pos read]
            exact link
      · exact .inr stuck

theorem readFile_refuses {e : UInt16}
    (reach : ReflTransGen (Linked (readLink g disk)) entry.firstClusterLow e)
    (unread : (readCluster g disk e).1 = false) :
    ∃ fuel s, readFile fuel g entry disk outputBuffer = some s ∧ s.ok = false := by
  obtain ⟨n, u, rfl, ok, passes⟩ :=
    readFile_follows.visits (s := readStart entry outputBuffer) rfl reach
  have failed : (readPass g disk u).ok = false := (readPass_ok ok).1.trans unread
  refine ⟨n, readPass g disk u, doWhile_eq_some_iff.mpr ⟨n, Nat.le_refl n, passes, ?_⟩, failed⟩
  rw [goesOn, failed, Bool.false_and]

/-- Every pass is made for a cluster that is followed. -/
theorem passes_followed {n : Nat} {s : ReadState}
    (passes : Passes (readPass g disk) goesOn (readStart entry outputBuffer) n s) :
    ∀ p ∈ s.passes, p.fatIndex = fatIndex p.cluster ∧
      ReflTransGen (Linked (readLink g disk)) entry.firstClusterLow p.cluster := by
  have step : ∀ u : ReadState,
      ReflTransGen (Linked (readLink g disk)) entry.firstClusterLow u.currentCluster →
      u.ok = true → (∀ p ∈ u.passes, p.fatIndex = fatIndex p.cluster ∧
        ReflTransGen (Linked (readLink g disk)) entry.firstClusterLow p.cluster) →
      ∀ p ∈ (readPass g disk u).passes, p.fatIndex = fatIndex p.cluster ∧
        ReflTransGen (Linked (readLink g disk)) entry.firstClusterLow p.cluster := by
    intro u reach ok earlier p member
    rw [(readPass_ok ok).2.2] at member
    rcases List.mem_append.mp member with old | new
    · exact earlier p old
    · rw [List.mem_singleton.mp new]
      exact ⟨rfl, reach⟩
  obtain ⟨u, ⟨reach, ok, earlier⟩, rfl⟩ := readFile_follows.visited
    (s := readStart entry outputBuffer) rfl (fun _ none => nomatch none) step passes
  exact step u reach ok earlier

/-- Only valid clusters are followed if and only if every cluster that is linked behind
readable ones is a data cluster with its entry inside the table. -/
theorem readFile_valid_iff : FollowsValid g disk entry outputBuffer ↔
    ∀ c, ReflTransGen (Linked (readLink g disk)) entry.firstClusterLow c →
      2 ≤ c.toNat ∧ c.toNat < 0xFF0 ∧ fatIndex c + 1 < g.bootSector.fatSize := by
  constructor
  · intro valid c reach
    obtain ⟨n, u, rfl, ok, passes⟩ :=
      readFile_follows.visits (s := readStart entry outputBuffer) rfl reach
    have last : ⟨u.currentCluster, fatIndex u.currentCluster, u.outputBuffer,
        (readCluster g disk u.currentCluster).2⟩ ∈ (readPass g disk u).passes := by
      rw [(readPass_ok ok).2.2]
      exact List.mem_append_right _ List.mem_cons_self
    obtain ⟨low, high⟩ := valid.data n _ passes _ last
    exact ⟨low, high, valid.bounds n _ passes _ last⟩
  · intro valid
    constructor
    · intro n s passes p member
      obtain ⟨index, reach⟩ := passes_followed passes p member
      rw [index]
      exact (valid _ reach).2.2
    · intro n s passes p member
      obtain ⟨_, reach⟩ := passes_followed passes p member
      exact ⟨(valid _ reach).1, (valid _ reach).2.1⟩
    · intro c reach special
      rcases readable_or reach with followed | ⟨e, followed, unread⟩
      · obtain ⟨low, high, _⟩ := valid c followed
        omega
      · exact readFile_refuses followed unread

/-- An empty file has no cluster, and the sectors of cluster 0 are read for it. -/
theorem empty_file_not_valid :
    ¬FollowsValid sampleGlobals sampleDisk { sampleEntry with firstClusterLow := 0, size := 0 }
      Text.empty.ptr := by
  intro valid
  have low := (valid.data 1 _ .first ⟨0, 0, 0, (readCluster sampleGlobals sampleDisk 0).2⟩
    List.mem_cons_self).1
  exact absurd low (by decide)

end Validity

end VDK.Fat
