import VDK.Printf
import Mathlib.Data.Nat.Digits.Defs
import Mathlib.Data.List.GetD

/-!
# What `intToStr` writes

A positive number becomes its decimal numeral and a negative one the empty string.
Zero becomes its digit and no terminator.
-/
namespace VDK
open ByteMem

/-- The digits of a number as characters, the last digit first. -/
def asciiDigits (n : Nat) : List UInt8 := (Nat.digits 10 n).map fun d => UInt8.ofNat (d + 48)

/-- The decimal numeral of a positive number. -/
def decimal (n : Nat) : List UInt8 := (asciiDigits n).reverse

theorem asciiDigits_pos {n : Nat} (positive : 0 < n) :
    asciiDigits n = UInt8.ofNat (n % 10 + 48) :: asciiDigits (n / 10) := by
  rw [asciiDigits, Nat.digits_def' (by decide) positive, List.map_cons]
  rfl

theorem asciiDigits_nonzero {n : Nat} {c : UInt8} (member : c ∈ asciiDigits n) : c ≠ 0 := by
  obtain ⟨d, digit, rfl⟩ := List.mem_map.mp member
  have small := Nat.digits_lt_base (by decide) digit
  intro zero
  have value := congrArg UInt8.toNat zero
  rw [UInt8.toNat_ofNat'] at value
  change (d + 48) % 2 ^ 8 = 0 at value
  omega

/-- The first loop writes the digits, the last digit first. -/
theorem putDigits_spec (n : Nat) (str : Ptr) (i : Nat) :
    (putDigits n str i).2 = i + (asciiDigits n).length ∧
      ∀ k, (putDigits n str i).1 k = if k < i then str k else (asciiDigits n).getD (k - i) (str k) := by
  fun_induction putDigits n str i with
  | case1 n str i positive ih =>
      obtain ⟨count, digits⟩ := ih
      rw [asciiDigits_pos positive, List.length_cons]
      refine ⟨by omega, fun k => ?_⟩
      rw [digits k, Ptr.set_apply]
      by_cases earlier : k < i
      · rw [if_pos (by omega), if_neg (by omega), if_pos earlier]
      · rw [if_neg earlier]
        by_cases here : k = i
        · rw [if_pos (by omega), if_pos here, here, Nat.sub_self, List.getD_cons_zero]
        · have next : k - i = (k - (i + 1)) + 1 := by omega
          rw [if_neg (by omega), if_neg here, next, List.getD_cons_succ]
  | case2 n str i zero =>
      have none : asciiDigits n = [] := by
        rw [asciiDigits, Nat.eq_zero_of_not_pos zero, Nat.digits_zero, List.map_nil]
      rw [none]
      refine ⟨rfl, fun k => ?_⟩
      rw [List.getD_nil, ite_self]

/-- Half way through, the outer places have been exchanged. -/
theorem swapEnds_spec (str : Ptr) {i j : Nat} (half : 2 * j ≤ i) (k : Nat) :
    (List.range j).foldl (swapEnds i) str k =
      if k < j ∨ (i - j ≤ k ∧ k < i) then str (i - 1 - k) else str k := by
  induction j generalizing k with
  | zero => rw [if_neg (by omega)]; rfl
  | succ j ih =>
      have before := ih (by omega)
      rw [List.range_succ, List.foldl_append, List.foldl_cons, List.foldl_nil, swapEnds,
        Ptr.set_apply, Ptr.set_apply, before, before, before]
      by_cases last : k = i - j - 1
      · have mirror : i - 1 - k = j := by omega
        rw [if_pos last, if_neg (by omega), if_pos (by omega), mirror]
      · rw [if_neg last]
        by_cases first : k = j
        · have mirror : i - j - 1 = i - 1 - k := by omega
          rw [if_pos first, if_neg (by omega), if_pos (by omega), mirror]
        · rw [if_neg first]
          congr 1
          exact propext ⟨fun h => by omega, fun h => by omega⟩

theorem holdsString_decimal {p : Ptr} {n : Nat}
    (digits : ∀ k, k < (asciiDigits n).length →
      p k = (asciiDigits n).getD ((asciiDigits n).length - 1 - k) 0)
    (terminator : p (asciiDigits n).length = 0) : HoldsString p (decimal n) := by
  have nonzero : ∀ c ∈ decimal n, c ≠ 0 := fun c member =>
    asciiDigits_nonzero (List.mem_reverse.mp member)
  refine (holdsString_getD nonzero).congr fun k inside => ?_
  rw [decimal, List.length_reverse] at inside
  by_cases last : k = (asciiDigits n).length
  · rw [last, terminator, decimal, List.getD_eq_default _ _ (by rw [List.length_reverse])]
  · have early : k < (asciiDigits n).length := by omega
    rw [digits k early, decimal, List.getD_eq_getElem _ _ (by omega),
      List.getD_eq_getElem _ _ (by rw [List.length_reverse]; exact early), List.getElem_reverse]

theorem intToStr_positive {num : Int} (positive : 0 < num) (str : Ptr) :
    HoldsString (intToStr num str) (decimal num.toNat) := by
  obtain ⟨count, digits⟩ := putDigits_spec num.toNat str 0
  rw [intToStr, if_neg (by omega)]
  dsimp only
  rw [count, Nat.zero_add]
  have half : 2 * ((asciiDigits num.toNat).length / 2) ≤ (asciiDigits num.toNat).length := by omega
  refine holdsString_decimal (fun k inside => ?_) ?_
  · have mirror : (asciiDigits num.toNat).length - 1 - k < (asciiDigits num.toNat).length := by
      omega
    have written : ((putDigits num.toNat str 0).1.set (asciiDigits num.toNat).length 0)
        ((asciiDigits num.toNat).length - 1 - k) =
          (asciiDigits num.toNat).getD ((asciiDigits num.toNat).length - 1 - k) 0 := by
      rw [Ptr.set_apply, if_neg (Nat.ne_of_lt mirror), digits, if_neg (Nat.not_lt_zero _),
        Nat.sub_zero, List.getD_eq_getElem _ _ mirror, List.getD_eq_getElem _ _ mirror]
    rw [swapEnds_spec _ half]
    split
    · exact written
    · -- the digit in the middle stays where it is
      have middle : k = (asciiDigits num.toNat).length - 1 - k := by omega
      rw [← middle] at written ⊢
      exact written
  · rw [swapEnds_spec _ half, if_neg (by omega), Ptr.set_apply, if_pos rfl]

theorem intToStr_negative {num : Int} (negative : num < 0) (str : Ptr) :
    HoldsString (intToStr num str) [] := by
  have none : num.toNat = 0 := by omega
  have untouched : putDigits 0 str 0 = (str, 0) := by
    rw [putDigits]
    rfl
  rw [intToStr, if_neg (by omega), none, untouched]
  dsimp only
  rw [Nat.zero_div, List.range_zero, List.foldl_nil, HoldsString, Ptr.set_apply, if_pos rfl]

theorem intToStr_zero (str : Ptr) : intToStr 0 str = str.set 0 48 := if_pos rfl

end VDK
