import VDK.FatBoot

/-!
# Looking up a file

`findFile` compares eleven bytes and nothing else. The live files of a directory are the
regular entries in front of its first unused entry.
-/
namespace VDK.Fat
open ByteMem FirstFit

theorem memcmp_eq_zero_iff {p q : Ptr} {n : Nat} :
    memcmp p q n = 0 ↔ ∀ i, i < n → p i = q i := by
  induction n generalizing p q with
  | zero => exact ⟨fun _ i none => absurd none (Nat.not_lt_zero i), fun _ => rfl⟩
  | succ n ih =>
      rw [memcmp]
      by_cases first : p 0 = q 0
      · rw [if_pos first, ih]
        constructor
        · intro rest i less
          cases i with
          | zero => exact first
          | succ i =>
              have tail := rest i (Nat.lt_of_succ_lt_succ less)
              rwa [Ptr.advance, Ptr.advance, Nat.add_comm] at tail
        · intro all i less
          rw [Ptr.advance, Ptr.advance, Nat.add_comm]
          exact all (i + 1) (Nat.succ_lt_succ less)
      · rw [if_neg first]
        constructor
        · intro zero
          have same : (p 0).toNat = (q 0).toNat := by omega
          exact absurd (UInt8.toNat_inj.mp same) first
        · exact fun all => absurd (all 0 (Nat.succ_pos n)) first

namespace DirectoryEntry

/-- The mark of the first entry that was never used. -/
def Unused (entry : DirectoryEntry) : Prop := entry.name.head? = some 0

/-- Neither the volume label nor the directory bit is set. -/
def Regular (entry : DirectoryEntry) : Prop := entry.attributes &&& 0x18 = 0

instance (entry : DirectoryEntry) : Decidable entry.Unused :=
  inferInstanceAs (Decidable (_ = _))

instance (entry : DirectoryEntry) : Decidable entry.Regular :=
  inferInstanceAs (Decidable (_ = _))

end DirectoryEntry

section Lookup

variable (boot : BootSector) (rootDirectory name : Ptr)

/-- Entry `i` has the eleven bytes of `name`. -/
def Named (i : Nat) : Prop :=
  (directoryEntryAt (entryPtr rootDirectory i)).name = name.slice 0 11

/-- Entry `i` is a regular file, and no entry up to it is the end of the directory. -/
def Live (i : Nat) : Prop :=
  (directoryEntryAt (entryPtr rootDirectory i)).Regular ∧
    ∀ k, k < i + 1 → ¬(directoryEntryAt (entryPtr rootDirectory k)).Unused

instance (i : Nat) : Decidable (Named rootDirectory name i) := inferInstanceAs (Decidable (_ = _))

instance (i : Nat) : Decidable (Live rootDirectory i) := inferInstanceAs (Decidable (_ ∧ _))

/-- The first live file of that name, as an index. -/
def liveFile : Option Nat :=
  firstIndex (fun i => decide (Named rootDirectory name i ∧ Live rootDirectory i))
    boot.dirEntryCount.toNat

/-- An entry of that name that is not a live file has a live file of the same name before it. -/
def LiveFirst : Prop :=
  ∀ i, i < boot.dirEntryCount.toNat → Named rootDirectory name i → ¬Live rootDirectory i →
    ∃ j, j < i ∧ Named rootDirectory name j ∧ Live rootDirectory j

theorem findFile_eq : findFile boot rootDirectory name =
    firstIndex (fun i => decide (Named rootDirectory name i)) boot.dirEntryCount.toNat := by
  unfold findFile
  congr 1
  funext i
  rw [decide_eq_decide, memcmp_eq_zero_iff, Named, directoryEntryAt, eq_comm, Ptr.slice_eq_iff]
  simp only [Nat.zero_add]

/-- The search returns the first live file of the name, or nothing, if and only if no other
entry of that name comes first. -/
theorem findFile_live_iff : findFile boot rootDirectory name = liveFile boot rootDirectory name ↔
    LiveFirst boot rootDirectory name := by
  rw [findFile_eq]
  constructor
  · intro same i entry named dead
    cases found : liveFile boot rootDirectory name with
    | none =>
        rw [found, firstIndex_eq_none] at same
        exact absurd named (of_decide_eq_false (same i entry))
    | some j =>
        rw [found] at same
        obtain ⟨_, _, before⟩ := firstIndex_eq_some.mp same
        obtain ⟨_, live, _⟩ := firstIndex_eq_some.mp found
        obtain ⟨namedFirst, liveFirst⟩ := of_decide_eq_true live
        refine ⟨j, ?_, namedFirst, liveFirst⟩
        by_contra late
        rcases Nat.lt_or_eq_of_le (Nat.not_lt.mp late) with earlier | here
        · exact of_decide_eq_false (before i earlier) named
        · exact dead (here ▸ liveFirst)
  · intro liveFirst
    cases found : firstIndex (fun i => decide (Named rootDirectory name i))
        boot.dirEntryCount.toNat with
    | none =>
        symm
        refine firstIndex_eq_none.mpr fun i entry => decide_eq_false ?_
        exact fun live => of_decide_eq_false (firstIndex_eq_none.mp found i entry) live.1
    | some i =>
        obtain ⟨entry, named, before⟩ := firstIndex_eq_some.mp found
        have live : Live rootDirectory i := by
          by_contra dead
          obtain ⟨j, earlier, namedFirst, _⟩ := liveFirst i entry (of_decide_eq_true named) dead
          exact of_decide_eq_false (before j earlier) namedFirst
        symm
        refine firstIndex_eq_some.mpr ⟨entry, decide_eq_true ⟨of_decide_eq_true named, live⟩, ?_⟩
        exact fun j earlier => decide_eq_false fun alive =>
          of_decide_eq_false (before j earlier) alive.1

end Lookup

/-- A directory `A`, the end mark, and behind it what was once a file `B`. -/
def staleDirectory : Ptr := Text.empty.ptr.store 0
  ([65, 32, 32, 32, 32, 32, 32, 32, 32, 32, 32, 0x10] ++ List.replicate 52 0 ++
    [66, 32, 32, 32, 32, 32, 32, 32, 32, 32, 32, 0x20])

/-- The name of one letter, padded with blanks. -/
def letterName (c : UInt8) : Ptr := Ptr.store (fun _ => 32) 0 [c]

/-- The directory and the entry behind the mark are both returned as files. -/
theorem findFile_returns_dead :
    let boot := { sampleBoot with dirEntryCount := 3 }
    findFile boot staleDirectory (letterName 65) = some 0 ∧
      liveFile boot staleDirectory (letterName 65) = none ∧
      findFile boot staleDirectory (letterName 66) = some 2 ∧
      liveFile boot staleDirectory (letterName 66) = none := by
  decide

end VDK.Fat
