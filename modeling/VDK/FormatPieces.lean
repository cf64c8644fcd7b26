import VDK.DecimalText
import Mathlib.Data.Nat.Digits.Lemmas

/-!
# Formats, arguments and the text they call for

A format with conversions of the ten letters and no length modifier is a list of
pieces. `Formats` is the text that C prescribes for the pieces and their arguments;
nothing in it is taken from `printf`.
-/
namespace VDK
open ByteMem

inductive Number where
  | d
  | i
  | u
  | x
  | upperX
  | p
  | o
  deriving DecidableEq, Repr

namespace Number

def letter : Number → UInt8
  | d => 'd'.toUInt8
  | i => 'i'.toUInt8
  | u => 'u'.toUInt8
  | x => 'x'.toUInt8
  | upperX => 'X'.toUInt8
  | p => 'p'.toUInt8
  | o => 'o'.toUInt8

/-- A digit; the letters behind nine start at `tens`. -/
def digit (tens : Char) (n : Nat) : UInt8 :=
  if n < 10 then UInt8.ofNat (n + 48) else UInt8.ofNat (n - 10) + tens.toUInt8

def numeral (radix : Nat) (tens : Char) (n : Nat) : List UInt8 :=
  if n = 0 then ['0'.toUInt8] else ((Nat.digits radix n).map (digit tens)).reverse

/-- The text of an argument. -/
def text (w : UInt32) : Number → List UInt8
  | d | i =>
      if wrapInt w.toNat < 0 then '-'.toUInt8 :: numeral 10 'a' (wrapInt w.toNat).natAbs
      else numeral 10 'a' w.toNat
  | u => numeral 10 'a' w.toNat
  | x | p => numeral 16 'a' w.toNat
  | upperX => numeral 16 'A' w.toNat
  | o => numeral 8 'a' w.toNat

end Number

namespace Number

theorem numeral_ne_nil (radix : Nat) (tens : Char) (n : Nat) : numeral radix tens n ≠ [] := by
  unfold numeral
  split
  · exact List.cons_ne_nil _ _
  · rename_i nonzero
    intro none
    have digits := List.map_eq_nil_iff.mp (List.reverse_eq_nil_iff.mp none)
    exact nonzero (Nat.digits_eq_nil_iff_eq_zero.mp digits)

theorem digit_ne_zero {tens : Char} (upper : tens = 'a' ∨ tens = 'A') {d : Nat} (nonzero : d ≠ 0)
    (small : d < 16) : digit tens d ≠ '0'.toUInt8 := by
  have all : ∀ d < 16, d ≠ 0 → digit 'a' d ≠ '0'.toUInt8 ∧ digit 'A' d ≠ '0'.toUInt8 := by decide
  rcases upper with rfl | rfl
  · exact (all d small nonzero).1
  · exact (all d small nonzero).2

/-- Only the numeral of zero starts with a zero. -/
theorem numeral_leading {radix : Nat} (base : 1 < radix ∧ radix ≤ 16) {tens : Char}
    (upper : tens = 'a' ∨ tens = 'A') {n : Nat} {cs : List UInt8}
    (leading : numeral radix tens n = '0'.toUInt8 :: cs) : cs = [] := by
  unfold numeral at leading
  split at leading
  · exact (List.cons.inj leading).2.symm
  · rename_i nonzero
    have digits : Nat.digits radix n ≠ [] := Nat.digits_ne_nil_iff_ne_zero.mpr nonzero
    have first := congrArg List.head? leading
    rw [List.head?_reverse, List.getLast?_map, List.getLast?_eq_some_getLast digits] at first
    have top := Nat.getLast_digit_ne_zero radix nonzero
    have small := Nat.digits_lt_base base.1 (List.getLast_mem digits)
    exact absurd (Option.some.inj first) (digit_ne_zero upper top (by omega))

theorem text_ne_nil (k : Number) (w : UInt32) : k.text w ≠ [] := by
  unfold text
  split
  · split
    · exact List.cons_ne_nil _ _
    · exact numeral_ne_nil _ _ _
  · split
    · exact List.cons_ne_nil _ _
    · exact numeral_ne_nil _ _ _
  all_goals exact numeral_ne_nil _ _ _

theorem text_leading {k : Number} {w : UInt32} {cs : List UInt8}
    (leading : k.text w = '0'.toUInt8 :: cs) : cs = [] := by
  have minus : ∀ rest : List UInt8, '-'.toUInt8 :: rest ≠ '0'.toUInt8 :: cs := by
    intro rest same
    exact absurd (List.cons.inj same).1 (by decide)
  unfold text at leading
  split at leading
  · split at leading
    · exact absurd leading (minus _)
    · exact numeral_leading (by decide) (Or.inl rfl) leading
  · split at leading
    · exact absurd leading (minus _)
    · exact numeral_leading (by decide) (Or.inl rfl) leading
  · exact numeral_leading (by decide) (Or.inl rfl) leading
  · exact numeral_leading (by decide) (Or.inl rfl) leading
  · exact numeral_leading (by decide) (Or.inl rfl) leading
  · exact numeral_leading (by decide) (Or.inr rfl) leading
  · exact numeral_leading (by decide) (Or.inl rfl) leading

end Number

/-- A piece of a format: an ordinary character or a conversion. -/
inductive Piece where
  | plain (c : UInt8) (ordinary : c ≠ 0 ∧ c ≠ '%'.toUInt8)
  | percent
  | char
  | string
  | number (k : Number)

namespace Piece

def bytes : Piece → List UInt8
  | plain c _ => [c]
  | percent => ['%'.toUInt8, '%'.toUInt8]
  | char => ['%'.toUInt8, 'c'.toUInt8]
  | string => ['%'.toUInt8, 's'.toUInt8]
  | number k => ['%'.toUInt8, k.letter]

theorem all_nonzero {bytes : List UInt8} (h : bytes.all (· ≠ 0) = true) : ∀ c ∈ bytes, c ≠ 0 :=
  fun c member => of_decide_eq_true (List.all_eq_true.mp h c member)

theorem bytes_nonzero (p : Piece) : ∀ c ∈ p.bytes, c ≠ 0 := by
  cases p with
  | plain c ordinary =>
      intro b member
      rw [List.mem_singleton.mp member]
      exact ordinary.1
  | percent => exact all_nonzero rfl
  | char => exact all_nonzero rfl
  | string => exact all_nonzero rfl
  | number k =>
      cases k with
      | d => exact all_nonzero rfl
      | i => exact all_nonzero rfl
      | u => exact all_nonzero rfl
      | x => exact all_nonzero rfl
      | upperX => exact all_nonzero rfl
      | p => exact all_nonzero rfl
      | o => exact all_nonzero rfl

/-- The conversions that take an argument. -/
def Takes : Piece → Prop
  | plain _ _ => False
  | percent => False
  | char => True
  | string => True
  | number _ => True

instance : DecidablePred Takes
  | plain _ _ => inferInstanceAs (Decidable False)
  | percent => inferInstanceAs (Decidable False)
  | char => inferInstanceAs (Decidable True)
  | string => inferInstanceAs (Decidable True)
  | number _ => inferInstanceAs (Decidable True)

def IsNumber : Piece → Prop
  | number _ => True
  | _ => False

instance : DecidablePred IsNumber
  | plain _ _ => inferInstanceAs (Decidable False)
  | percent => inferInstanceAs (Decidable False)
  | char => inferInstanceAs (Decidable False)
  | string => inferInstanceAs (Decidable False)
  | number _ => inferInstanceAs (Decidable True)

end Piece

def spelled (pieces : List Piece) : List UInt8 := pieces.flatMap Piece.bytes

/-- The format as a C string. -/
def formatOf (pieces : List Piece) : Text where
  chars := spelled pieces
  noNul c member := by
    obtain ⟨p, _, inside⟩ := List.mem_flatMap.mp member
    exact p.bytes_nonzero c inside

def taken (pieces : List Piece) : Nat := pieces.countP (·.Takes)

section Reference

variable (mem : Mem)

/-- The text of the pieces over a list of arguments that matches them. -/
inductive Formats : List Piece → List UInt32 → List UInt8 → Prop
  | done : Formats [] [] []
  | plain {ps args out c ordinary} (rest : Formats ps args out) :
      Formats (.plain c ordinary :: ps) args (c :: out)
  | percent {ps args out} (rest : Formats ps args out) :
      Formats (.percent :: ps) args ('%'.toUInt8 :: out)
  | char {ps args out} (w : UInt32) (rest : Formats ps args out) :
      Formats (.char :: ps) (w :: args) (w.toUInt8 :: out)
  | string {ps args out s} {w : UInt32} (holds : HoldsString (mem.view w) s)
      (rest : Formats ps args out) : Formats (.string :: ps) (w :: args) (s ++ out)
  | number {ps args out} (k : Number) (w : UInt32) (rest : Formats ps args out) :
      Formats (.number k :: ps) (w :: args) (k.text w ++ out)

variable {mem}

theorem Formats.append_inv {ps qs : List Piece} {args : List UInt32} {out : List UInt8}
    (h : Formats mem (ps ++ qs) args out) : ∃ args₁ args₂ out₁ out₂, args = args₁ ++ args₂ ∧
      out = out₁ ++ out₂ ∧ Formats mem ps args₁ out₁ ∧ Formats mem qs args₂ out₂ := by
  induction ps generalizing args out with
  | nil => exact ⟨[], args, [], out, rfl, rfl, .done, h⟩
  | cons p ps ih =>
      cases h with
      | plain rest =>
          obtain ⟨args₁, args₂, out₁, out₂, rfl, rfl, first, second⟩ := ih rest
          exact ⟨args₁, args₂, _, out₂, rfl, rfl, .plain first, second⟩
      | percent rest =>
          obtain ⟨args₁, args₂, out₁, out₂, rfl, rfl, first, second⟩ := ih rest
          exact ⟨args₁, args₂, _, out₂, rfl, rfl, .percent first, second⟩
      | char w rest =>
          obtain ⟨args₁, args₂, out₁, out₂, rfl, rfl, first, second⟩ := ih rest
          exact ⟨_, args₂, _, out₂, rfl, rfl, .char w first, second⟩
      | string holds rest =>
          obtain ⟨args₁, args₂, out₁, out₂, rfl, rfl, first, second⟩ := ih rest
          exact ⟨_, args₂, _, out₂, rfl, List.append_assoc _ _ _ ▸ rfl, .string holds first, second⟩
      | number k w rest =>
          obtain ⟨args₁, args₂, out₁, out₂, rfl, rfl, first, second⟩ := ih rest
          exact ⟨_, args₂, _, out₂, rfl, List.append_assoc _ _ _ ▸ rfl, .number k w first, second⟩

theorem Formats.length {ps : List Piece} {args : List UInt32} {out : List UInt8}
    (h : Formats mem ps args out) : args.length = taken ps := by
  induction h with
  | done => rfl
  | plain _ ih => exact ih
  | percent _ ih => exact ih
  | char w _ ih => exact (congrArg Nat.succ ih).trans (List.countP_cons_of_pos rfl).symm
  | string holds _ ih => exact (congrArg Nat.succ ih).trans (List.countP_cons_of_pos rfl).symm
  | number k w _ ih => exact (congrArg Nat.succ ih).trans (List.countP_cons_of_pos rfl).symm

end Reference

end VDK
