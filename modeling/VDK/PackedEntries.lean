import VDK.ByteMemory
import Mathlib.Data.List.GetD
import Mathlib.Data.Nat.Digits.Lemmas

/-!
# Entries of any width in a string of bytes

The bytes are one number, the first of them lowest, and entry `i` is its group of `width`
bits from bit `width * i` on. A twelve-bit entry is read from the two bytes it lies in.
-/
namespace ByteMem

/-- The number that the bytes are, low byte first. -/
def number (bytes : List UInt8) : Nat := Nat.ofDigits 256 (bytes.map UInt8.toNat)

/-- Entry `i` of a table of `width`-bit entries. -/
def packedEntry (width : Nat) (bytes : List UInt8) (i : Nat) : Nat :=
  number bytes / 2 ^ (width * i) % 2 ^ width

def bitAt (bytes : List UInt8) (j : Nat) : Bool := (bytes.getD (j / 8) 0).toNat.testBit (j % 8)

theorem number_drop (bytes : List UInt8) (i : Nat) :
    number bytes / 256 ^ i = number (bytes.drop i) := by
  unfold number
  rw [List.map_drop]
  apply Nat.ofDigits_div_pow_eq_ofDigits_drop i (by decide)
  intro digit member
  obtain ⟨byte, _, rfl⟩ := List.mem_map.mp member
  exact byte.toNat_lt

theorem number_word {bytes : List UInt8} {i : Nat} {lo hi : UInt8} (low : bytes[i]? = some lo)
    (high : bytes[i + 1]? = some hi) :
    number bytes / 256 ^ i % 2 ^ 16 = (word16 lo hi).toNat := by
  obtain ⟨first, rfl⟩ := List.getElem?_eq_some_iff.mp low
  obtain ⟨second, rfl⟩ := List.getElem?_eq_some_iff.mp high
  have lo := bytes[i].toNat_lt
  have hi := bytes[i + 1].toNat_lt
  rw [number_drop, List.drop_eq_getElem_cons first, List.drop_eq_getElem_cons second, word16,
    UInt16.toNat_ofNat', number, List.map_cons, List.map_cons, Nat.ofDigits_cons,
    Nat.ofDigits_cons]
  generalize Nat.ofDigits 256 _ = rest
  omega

/-- An even entry is the low end of the word it starts in. -/
theorem packedEntry_even {bytes : List UInt8} {m : Nat} {lo hi : UInt8}
    (low : bytes[3 * m]? = some lo) (high : bytes[3 * m + 1]? = some hi) :
    packedEntry 12 bytes (2 * m) = (word16 lo hi).toNat % 2 ^ 12 := by
  have place : 2 ^ (12 * (2 * m)) = 256 ^ (3 * m) := by
    rw [show (256 : Nat) = 2 ^ 8 from rfl, ← Nat.pow_mul]
    congr 1
    omega
  rw [packedEntry, place, ← number_word low high]
  omega

/-- An odd entry is the high end of the word that its first four bits end. -/
theorem packedEntry_odd {bytes : List UInt8} {m : Nat} {lo hi : UInt8}
    (low : bytes[3 * m + 1]? = some lo) (high : bytes[3 * m + 1 + 1]? = some hi) :
    packedEntry 12 bytes (2 * m + 1) = (word16 lo hi).toNat / 2 ^ 4 := by
  have place : 2 ^ (12 * (2 * m + 1)) = 256 ^ (3 * m + 1) * 2 ^ 4 := by
    rw [show (256 : Nat) = 2 ^ 8 from rfl, ← Nat.pow_mul, ← Nat.pow_add]
    congr 1
    omega
  rw [packedEntry, place, ← Nat.div_div_eq_div_mul, ← number_word low high]
  omega

theorem testBit_number (bytes : List UInt8) (j : Nat) :
    (number bytes).testBit j = bitAt bytes j := by
  have place : 256 ^ (j / 8) = 2 ^ (8 * (j / 8)) := by
    rw [show (256 : Nat) = 2 ^ 8 from rfl, ← Nat.pow_mul]
  have position : j % 8 + 8 * (j / 8) = j := Nat.mod_add_div j 8
  have short : j % 8 < 8 := Nat.mod_lt j (by decide)
  have dropped : (number bytes).testBit j = (number (bytes.drop (j / 8))).testBit (j % 8) := by
    rw [← number_drop, place, Nat.testBit_div_two_pow, position]
  rw [dropped, bitAt]
  by_cases inside : j / 8 < bytes.length
  · have rest : ∀ n : Nat, (bytes[j / 8].toNat + 256 * n).testBit (j % 8) =
        bytes[j / 8].toNat.testBit (j % 8) := by
      intro n
      have low : (bytes[j / 8].toNat + 256 * n) % 2 ^ 8 = bytes[j / 8].toNat := by
        have bound := bytes[j / 8].toNat_lt
        omega
      have bit := Nat.testBit_mod_two_pow (bytes[j / 8].toNat + 256 * n) 8 (j % 8)
      rw [low, decide_eq_true short, Bool.true_and] at bit
      exact bit.symm
    rw [List.drop_eq_getElem_cons inside, number, List.map_cons, Nat.ofDigits_cons,
      List.getD_eq_getElem _ _ inside]
    exact rest _
  · have behind := Nat.not_lt.mp inside
    rw [List.drop_eq_nil_of_le behind, List.getD_eq_default _ _ behind]
    exact (Nat.zero_testBit _).trans (Nat.zero_testBit _).symm

theorem testBit_packedEntry (width : Nat) (bytes : List UInt8) (i k : Nat) :
    (packedEntry width bytes i).testBit k =
      (decide (k < width) && bitAt bytes (width * i + k)) := by
  rw [packedEntry, Nat.testBit_mod_two_pow, Nat.testBit_div_two_pow, testBit_number, Nat.add_comm]

/-- What lies around an entry does not matter. -/
theorem packedEntry_congr {width : Nat} {bytes bytes' : List UInt8} {i : Nat}
    (same : ∀ k, k < width → bitAt bytes' (width * i + k) = bitAt bytes (width * i + k)) :
    packedEntry width bytes' i = packedEntry width bytes i := by
  apply Nat.eq_of_testBit_eq
  intro k
  rw [testBit_packedEntry, testBit_packedEntry]
  by_cases inside : k < width
  · rw [same k inside]
  · rw [decide_eq_false inside, Bool.false_and, Bool.false_and]

end ByteMem
