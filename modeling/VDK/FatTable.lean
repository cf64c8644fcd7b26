import VDK.FatBoot
import VDK.PackedEntries

/-!
# The links of a file allocation table in memory

Two bytes hold a link and four bits of a neighbour. What `readFile` computes from them is
the twelve-bit entry of the table, whichever end of the two bytes it lies at.
-/
namespace VDK.Fat
open ByteMem

/-- The loaded table is the string of bytes. -/
def Globals.HoldsTable (g : Globals) (bytes : List UInt8) : Prop :=
  ∀ i, i < bytes.length → bytes[i]? = some (g.fat i)

variable {g : Globals} {bytes : List UInt8} {c : UInt16}

theorem Globals.HoldsTable.nextCluster (held : g.HoldsTable bytes)
    (inside : fatIndex c + 1 < bytes.length) :
    (g.nextCluster c).toNat = packedEntry 12 bytes c.toNat := by
  have low := held (fatIndex c) (Nat.lt_of_succ_lt inside)
  have high := held (fatIndex c + 1) inside
  have parity : c % 2 = 0 ↔ c.toNat % 2 = 0 := by
    rw [← UInt16.toNat_inj, UInt16.toNat_mod]
    rfl
  unfold Globals.nextCluster
  dsimp only
  by_cases even : c.toNat % 2 = 0
  · obtain ⟨m, place⟩ : ∃ m, c.toNat = 2 * m := ⟨c.toNat / 2, by omega⟩
    have index : fatIndex c = 3 * m := by
      unfold fatIndex
      omega
    rw [index] at low high ⊢
    rw [if_pos (parity.mpr even), place, packedEntry_even low high, UInt16.toNat_and]
    exact Nat.and_two_pow_sub_one_eq_mod _ 12
  · obtain ⟨m, place⟩ : ∃ m, c.toNat = 2 * m + 1 := ⟨c.toNat / 2, by omega⟩
    have index : fatIndex c = 3 * m + 1 := by
      unfold fatIndex
      omega
    rw [index] at low high ⊢
    rw [if_neg fun zero => even (parity.mp zero), place, packedEntry_odd low high,
      UInt16.toNat_shiftRight]
    exact Nat.shiftRight_eq_div_pow _ 4

/-- The link of a cluster is its twelve bits of the table and nothing else: every other table
with the same bits there has the same link. -/
theorem nextCluster_bits (held : g.HoldsTable bytes) (inside : fatIndex c + 1 < bytes.length) :
    (∀ k, (g.nextCluster c).toNat.testBit k =
      (decide (k < 12) && bitAt bytes (12 * c.toNat + k))) ∧
    ∀ (g' : Globals) (bytes' : List UInt8), g'.HoldsTable bytes' →
      fatIndex c + 1 < bytes'.length →
      (∀ k, k < 12 → bitAt bytes' (12 * c.toNat + k) = bitAt bytes (12 * c.toNat + k)) →
      g'.nextCluster c = g.nextCluster c := by
  constructor
  · intro k
    rw [held.nextCluster inside, testBit_packedEntry]
  · intro g' bytes' held' inside' same
    rw [← UInt16.toNat_inj, held.nextCluster inside, held'.nextCluster inside']
    exact packedEntry_congr same

/-- A table of four entries in memory that held zeros. -/
def smallTable : List UInt8 := [0xF0, 0xFF, 0xFF, 0x03, 0xF0, 0xFF]

def smallGlobals : Globals where
  bootSector := sampleBoot
  fat := Text.empty.ptr.store 0 smallTable
  rootDirectory := Text.empty.ptr
  rootDirectoryEnd := 0

theorem nextCluster_bits_odd : smallGlobals.nextCluster 3 = 0xFFF ∧
    ∀ k, (smallGlobals.nextCluster 3).toNat.testBit k =
      (decide (k < 12) && bitAt smallTable (36 + k)) := by
  have held : smallGlobals.HoldsTable smallTable := by
    intro i inside
    have byte := Ptr.store_inside Text.empty.ptr 0 inside
    rw [Nat.zero_add] at byte
    rw [List.getElem?_eq_getElem inside]
    exact congrArg some byte.symm
  exact ⟨by decide, (nextCluster_bits held (by decide)).1⟩

end VDK.Fat
