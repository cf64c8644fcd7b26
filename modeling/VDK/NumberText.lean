import VDK.FormatPieces
import VDK.LibsaString

/-!
# Numbers as text: `intToStr` and `itoa`

Both routines put the digits down backwards and then reverse them in place. A rendering
is judged by the numeral it leaves in a buffer of twelve bytes, which is as much as the
longest `int` takes.
-/
namespace VDK
open ByteMem

/-- The decimal numeral of an `int`. -/
def signedNumeral (num : Int) : List UInt8 :=
  if num < 0 then '-'.toUInt8 :: Number.numeral 10 'a' num.natAbs
  else Number.numeral 10 'a' num.toNat

/-- The text and its terminator lie in the first twelve bytes, and no byte behind them
was written. -/
structure Renders (before after : Ptr) (text : List UInt8) : Prop where
  holds : HoldsString after text
  fits : text.length < 12
  outside : ∀ k, 12 ≤ k → after k = before k

section Numerals

/-- The digits of a numeral, the last one first. -/
theorem numeral_reverse (radix : Nat) (tens : Char) (n : Nat) :
    (Number.numeral radix tens n).reverse =
      if n = 0 then ['0'.toUInt8] else (Nat.digits radix n).map (Number.digit tens) := by
  rw [Number.numeral]
  split
  · rfl
  · exact List.reverse_reverse _

theorem length_numeral_pos (radix : Nat) (tens : Char) (n : Nat) :
    0 < (Number.numeral radix tens n).length :=
  List.length_pos_iff.mpr (Number.numeral_ne_nil radix tens n)

theorem numeral_succ {radix : Nat} (large : 1 < radix) (tens : Char) (n : Nat) :
    (Number.numeral radix tens n).reverse =
      if n / radix = 0 then [Number.digit tens (n % radix)]
      else Number.digit tens (n % radix) :: (Number.numeral radix tens (n / radix)).reverse := by
  rw [numeral_reverse, numeral_reverse]
  rcases Nat.eq_zero_or_pos n with rfl | positive
  · rw [if_pos rfl, Nat.zero_div, if_pos rfl, Nat.zero_mod]
    rfl
  · rw [if_neg (Nat.ne_of_gt positive), Nat.digits_def' large positive, List.map_cons]
    by_cases last : n / radix = 0
    · rw [if_pos last, last, Nat.digits_zero, List.map_nil]
    · rw [if_neg last, if_neg last]

theorem length_numeral {radix k : Nat} (large : 1 < radix) (tens : Char) {n : Nat}
    (below : n < radix ^ k) (positive : 0 < k) : (Number.numeral radix tens n).length ≤ k := by
  rw [Number.numeral]
  split
  · exact positive
  · rw [List.length_reverse, List.length_map]
    exact (Nat.digits_length_le_iff large n).mpr below

/-- A numeral consists of the digits of its radix. -/
theorem numeral_mem {radix : Nat} (large : 1 < radix) (tens : Char) (n : Nat) :
    ∀ c ∈ Number.numeral radix tens n, ∃ d, d < radix ∧ Number.digit tens d = c := by
  intro c member
  rw [Number.numeral] at member
  split at member
  · rw [List.mem_singleton.mp member]
    exact ⟨0, Nat.zero_lt_of_lt large, rfl⟩
  · obtain ⟨d, digit, rfl⟩ := List.mem_map.mp (List.mem_reverse.mp member)
    exact ⟨d, Nat.digits_lt_base large digit, rfl⟩

theorem numeral_digit {radix : Nat} (base : 1 < radix ∧ radix ≤ 16) (n : Nat) :
    ∀ c ∈ Number.numeral radix 'a' n, ∃ d, d < 16 ∧ Number.digit 'a' d = c := by
  intro c member
  obtain ⟨d, small, same⟩ := numeral_mem base.1 'a' n c member
  exact ⟨d, Nat.lt_of_lt_of_le small base.2, same⟩

theorem numeral_nonzero {radix : Nat} (base : 1 < radix ∧ radix ≤ 16) (n : Nat) :
    ∀ c ∈ Number.numeral radix 'a' n, c ≠ 0 := by
  have all : ∀ d < 16, Number.digit 'a' d ≠ 0 := by decide
  intro c member
  obtain ⟨d, small, rfl⟩ := numeral_digit base n c member
  exact all d small

/-- The least `int` has the longest numeral. -/
theorem length_signedNumeral {num : Int} (low : -2 ^ 31 ≤ num) (high : num < 2 ^ 31) :
    (signedNumeral num).length < 12 := by
  rw [signedNumeral]
  split
  · have short := length_numeral (k := 10) (n := num.natAbs) (by decide : 1 < 10) 'a' (by omega)
      (by decide)
    rw [List.length_cons]
    omega
  · have short := length_numeral (k := 10) (n := num.toNat) (by decide : 1 < 10) 'a' (by omega)
      (by decide)
    omega

theorem numeral_decimal {n : Nat} (positive : 0 < n) : Number.numeral 10 'a' n = decimal n := by
  rw [Number.numeral, if_neg (Nat.ne_of_gt positive), decimal, asciiDigits]
  congr 1
  refine List.map_congr_left fun d member => ?_
  exact if_pos (Nat.digits_lt_base (by decide) member)

end Numerals

section Parsing

def digitValue (c : UInt8) : Nat := if c < 'a'.toUInt8 then c.toNat - 48 else c.toNat - 87

/-- The number a string of digits stands for. -/
def parseDigits (radix : Nat) (s : List UInt8) : Nat :=
  s.foldl (fun n c => radix * n + digitValue c) 0

/-- The number a numeral stands for, with or without a sign. -/
def parseNumeral (radix : Nat) : List UInt8 → Int
  | [] => 0
  | c :: s => if c = '-'.toUInt8 then -(parseDigits radix s : Int) else parseDigits radix (c :: s)

/-- Digits read from the first to the last, with any value that undoes the digits. -/
theorem foldl_digits_reverse {radix : Nat} {tens : Char} {value : UInt8 → Nat} {ds : List Nat}
    (inverts : ∀ d ∈ ds, value (Number.digit tens d) = d) :
    (ds.map (Number.digit tens)).reverse.foldl (fun n c => radix * n + value c) 0 =
      Nat.ofDigits radix ds := by
  induction ds with
  | nil => rfl
  | cons d ds ih =>
      have rest := ih fun e member => inverts e (List.mem_cons_of_mem d member)
      rw [List.map_cons, List.reverse_cons, List.foldl_append, rest, Nat.ofDigits_cons,
        List.foldl_cons, List.foldl_nil, inverts d List.mem_cons_self, Nat.add_comm]

theorem foldl_numeral {radix : Nat} (large : 1 < radix) {tens : Char} {value : UInt8 → Nat}
    (inverts : ∀ d < radix, value (Number.digit tens d) = d) (n : Nat) :
    (Number.numeral radix tens n).foldl (fun n c => radix * n + value c) 0 = n := by
  rw [Number.numeral]
  split
  · rename_i zero
    rw [List.foldl_cons, List.foldl_nil, zero, Nat.mul_zero, Nat.zero_add]
    exact inverts 0 (Nat.zero_lt_of_lt large)
  · rw [foldl_digits_reverse fun d member => inverts d (Nat.digits_lt_base large member),
      Nat.ofDigits_digits]

theorem parseDigits_numeral {radix : Nat} (base : 1 < radix ∧ radix ≤ 16) (n : Nat) :
    parseDigits radix (Number.numeral radix 'a' n) = n := by
  have value : ∀ d < 16, digitValue (Number.digit 'a' d) = d := by decide
  exact foldl_numeral base.1 (fun d small => value d (Nat.lt_of_lt_of_le small base.2)) n

theorem parseNumeral_numeral {radix : Nat} (base : 1 < radix ∧ radix ≤ 16) (n : Nat) :
    parseNumeral radix (Number.numeral radix 'a' n) = n := by
  have minus : ∀ d < 16, Number.digit 'a' d ≠ '-'.toUInt8 := by decide
  have parsed := parseDigits_numeral base n
  have digits := numeral_digit base n
  rcases text : Number.numeral radix 'a' n with _ | ⟨c, cs⟩
  · exact absurd text (Number.numeral_ne_nil radix 'a' n)
  · rw [text] at parsed digits
    obtain ⟨d, small, rfl⟩ := digits c List.mem_cons_self
    rw [parseNumeral, if_neg (minus d small), parsed]

theorem parseNumeral_signed (num : Int) : parseNumeral 10 (signedNumeral num) = num := by
  rw [signedNumeral]
  split
  · rw [parseNumeral, if_pos rfl, parseDigits_numeral (by decide)]
    omega
  · rw [parseNumeral_numeral (by decide)]
    omega

end Parsing

section IntToStr

/-- Behind the digits and the terminator nothing is written. -/
theorem intToStr_outside {num : Int} (high : num < 2 ^ 31) (str : Ptr) {k : Nat}
    (outside : 12 ≤ k) : intToStr num str k = str k := by
  rw [intToStr]
  split
  · rw [Ptr.set_apply, if_neg (by omega)]
  · obtain ⟨count, digits⟩ := putDigits_spec num.toNat str 0
    have short : (asciiDigits num.toNat).length ≤ 10 := by
      rw [asciiDigits, List.length_map]
      exact (Nat.digits_length_le_iff (by decide) _).mpr (by omega)
    dsimp only
    rw [count, Nat.zero_add, swapEnds_spec _ (by omega), if_neg (by omega), Ptr.set_apply,
      if_neg (by omega), digits, if_neg (by omega), List.getD_eq_default _ _ (by omega)]

/-- `intToStr` leaves the numeral of every positive number, and that of zero where the byte
behind the digit is a NUL already. -/
theorem intToStr_renders_iff (num : Int32) (str : Ptr) :
    Renders str (intToStr num.toInt str) (signedNumeral num.toInt) ↔
      0 < num.toInt ∨ (num.toInt = 0 ∧ str 1 = 0) := by
  have low := num.le_toInt
  have high := num.toInt_lt
  have fits := length_signedNumeral low high
  generalize num.toInt = n at low high fits ⊢
  constructor
  · intro renders
    rcases Int.lt_trichotomy n 0 with negative | rfl | positive
    · have empty := renders.holds.unique (intToStr_negative negative str)
      rw [signedNumeral, if_pos negative] at empty
      cases empty
    · have ends : intToStr 0 str 1 = 0 := renders.holds.2.2
      rw [intToStr_zero, Ptr.set_apply, if_neg Nat.one_ne_zero] at ends
      exact Or.inr ⟨rfl, ends⟩
    · exact Or.inl positive
  · rintro (positive | ⟨rfl, ends⟩)
    · refine ⟨?_, fits, fun k outside => intToStr_outside high str outside⟩
      rw [signedNumeral, if_neg (Int.not_lt.mpr (Int.le_of_lt positive)),
        numeral_decimal (by omega)]
      exact intToStr_positive positive str
    · refine ⟨?_, fits, fun k outside => intToStr_outside high str outside⟩
      rw [intToStr_zero]
      refine ⟨?_, by decide, ?_⟩
      · rw [Ptr.set_apply, if_pos rfl]
        rfl
      · change Ptr.set str 0 48 1 = 0
        rw [Ptr.set_apply, if_neg Nat.one_ne_zero]
        exact ends

/-- A negative number becomes the empty string, and over a buffer of ones zero has no end
where it should. -/
theorem intToStr_misses :
    ¬Renders (fun _ => 0) (intToStr (Int32.toInt (-5)) fun _ => 0) (signedNumeral (-5)) ∧
      ¬Renders (fun _ => 0x31) (intToStr (Int32.toInt 0) fun _ => 0x31) (signedNumeral 0) := by
  have five : Int32.toInt (-5) = -5 := rfl
  constructor
  · intro renders
    rw [five] at renders
    cases renders.holds.unique (intToStr_negative (by decide) _)
  · intro renders
    have ends : intToStr 0 (fun _ => 0x31) 1 = 0 := renders.holds.2.2
    rw [intToStr_zero] at ends
    exact absurd ends (by decide)

end IntToStr

section Itoa

theorem itoa_digit {r : UInt32} (small : r.toNat < 16) :
    (if r < 10 then r + 48 else r + 97 - 10).toUInt8 = Number.digit 'a' r.toNat := by
  have all : ∀ n < 16, (if UInt32.ofNat n < 10 then UInt32.ofNat n + 48
      else UInt32.ofNat n + 97 - 10).toUInt8 = Number.digit 'a' n := by decide
  have digit := all r.toNat small
  rw [UInt32.ofNat_toNat] at digit
  exact digit

/-- The digit loop stores the numeral backwards. -/
theorem itoaDigits_stores (divisor : Divisor) (base : divisor.val.toNat ≤ 16) (ud : UInt32)
    (buf : Ptr) (p : Nat) : itoaDigits divisor ud buf p =
      (buf.store p (Number.numeral divisor.val.toNat 'a' ud.toNat).reverse,
        p + (Number.numeral divisor.val.toNat 'a' ud.toNat).reverse.length) := by
  have large : 1 < divisor.val.toNat := UInt32.lt_iff_toNat_lt.mp divisor.property
  have last : ∀ ud : UInt32, (if ud % divisor.val < 10 then ud % divisor.val + 48
      else ud % divisor.val + 97 - 10).toUInt8 =
        Number.digit 'a' (ud.toNat % divisor.val.toNat) := by
    intro ud
    rw [← UInt32.toNat_mod]
    apply itoa_digit
    rw [UInt32.toNat_mod]
    exact Nat.lt_of_lt_of_le (Nat.mod_lt _ (Nat.zero_lt_of_lt large)) base
  have zero : ∀ ud : UInt32, ud / divisor.val = 0 ↔ ud.toNat / divisor.val.toNat = 0 := by
    intro ud
    rw [← UInt32.toNat_div, ← UInt32.toNat_inj]
    rfl
  fun_induction itoaDigits divisor ud buf p with
  | case1 ud buf p remainder digit next more ih =>
      rw [ih, numeral_succ large 'a' ud.toNat, if_neg fun none => more ((zero ud).mpr none),
        UInt32.toNat_div, Ptr.store_cons, List.length_cons, Nat.add_assoc, Nat.add_comm 1]
      exact congrArg (fun c => (Ptr.store (buf.set p c) (p + 1) _, _)) (last ud)
  | case2 ud buf p remainder digit next done =>
      rw [numeral_succ large 'a' ud.toNat, if_pos ((zero ud).mp (not_not.mp done)), Ptr.store_cons,
        List.length_singleton, ← last ud]
      exact congrArg (Prod.mk · (p + 1)) (funext fun i => (ite_self _).symm)

/-- The second loop reverses what lies between its two pointers. -/
theorem itoaReverse_apply (buf : Ptr) (p1 p2 k : Nat) :
    itoaReverse buf p1 p2 k = if p1 ≤ k ∧ k ≤ p2 then buf (p1 + p2 - k) else buf k := by
  fun_induction itoaReverse buf p1 p2 with
  | case1 buf p1 p2 apart ih =>
      rw [ih, Ptr.set_apply, Ptr.set_apply, Ptr.set_apply, Ptr.set_apply]
      by_cases first : k = p1
      · rw [if_neg (by omega), if_neg (by omega), if_pos first, if_pos (by omega), first,
          Nat.add_sub_cancel_left]
      · by_cases last : k = p2
        · rw [if_neg (by omega), if_pos last, if_pos (by omega), last, Nat.add_sub_cancel]
        · by_cases inside : p1 ≤ k ∧ k ≤ p2
          · have mirror : p1 + 1 + (p2 - 1) - k = p1 + p2 - k := by omega
            rw [if_pos (by omega), if_pos inside, mirror, if_neg (by omega), if_neg (by omega)]
          · rw [if_neg (by omega), if_neg inside, if_neg last, if_neg first]
  | case2 buf p1 p2 met =>
      split
      · have middle : p1 + p2 - k = k := by omega
        rw [middle]
      · rfl

/-- The digits put down from `q` on, terminated and reversed, are the numeral. -/
theorem itoa_finish (buf : Ptr) (q : Nat) (divisor : Divisor) (base : divisor.val.toNat ≤ 16)
    (ud : UInt32) (k : Nat) :
    let text := Number.numeral divisor.val.toNat 'a' ud.toNat
    let r := itoaDigits divisor ud buf q
    itoaReverse (r.1.set r.2 0) q (r.2 - 1) k =
      if q ≤ k ∧ k ≤ q + text.length then text.getD (k - q) 0 else buf k := by
  dsimp only
  have some := length_numeral_pos divisor.val.toNat 'a' ud.toNat
  rw [itoaDigits_stores divisor base, List.length_reverse]
  generalize Number.numeral divisor.val.toNat 'a' ud.toNat = text at some ⊢
  dsimp only
  rw [itoaReverse_apply, Ptr.set_apply, Ptr.set_apply, Ptr.store, Ptr.store]
  by_cases inside : q ≤ k ∧ k ≤ q + text.length - 1
  · have mirror : q + (q + text.length - 1) - k - q = text.length - 1 - (k - q) := by omega
    have bound : k - q < text.length := by omega
    have back : text.length - 1 - (text.length - 1 - (k - q)) = k - q := by omega
    rw [if_pos inside, if_neg (by omega), if_pos (by omega), if_pos (by omega), mirror,
      List.getElem?_reverse (by omega), back, List.getElem?_eq_getElem bound,
      List.getD_eq_getElem _ _ bound, Option.getD_some]
  · rw [if_neg inside]
    by_cases ends : k = q + text.length
    · rw [if_pos ends, if_pos (by omega), List.getD_eq_default _ _ (by omega)]
    · have outside : ¬(q ≤ k ∧ k ≤ q + text.length) := by omega
      rw [if_neg ends, if_neg outside]
      split
      · rw [List.getElem?_eq_none (by rw [List.length_reverse]; omega), Option.getD_none]
      · rfl

/-- The text that the base code asks for. -/
def itoaText (base d : Int32) : List UInt8 :=
  if base = 0x64 then signedNumeral d.toInt
  else if base = 0x78 then Number.numeral 16 'a' d.toUInt32.toNat
  else Number.numeral 10 'a' d.toUInt32.toNat

def itoaRadix (base : Int32) : Nat := if base = 0x78 then 16 else 10

theorem toUInt32_value (d : Int32) : wrapInt d.toUInt32.toNat = d.toInt :=
  (BitVec.toInt_eq_toNat_bmod d.toBitVec).symm

theorem toUInt32_neg {d : Int32} (negative : d.toInt < 0) : (-d).toUInt32.toNat = d.toInt.natAbs := by
  have wrapped : (-d).toUInt32.toNat = (2 ^ 32 - d.toUInt32.toNat) % 2 ^ 32 := BitVec.toNat_neg _
  have bound := d.toUInt32.toNat_lt
  have value := toUInt32_value d
  have high : ¬(d.toUInt32.toNat : Int) < 2 ^ 31 := by
    intro small
    rw [wrapInt_small (by omega) small] at value
    omega
  rw [wrapInt_large (by omega) (by omega)] at value
  omega

theorem toUInt32_pos {d : Int32} (positive : ¬d.toInt < 0) : d.toUInt32.toNat = d.toInt.toNat := by
  have bound := d.toUInt32.toNat_lt
  have value := toUInt32_value d
  have small : (d.toUInt32.toNat : Int) < 2 ^ 31 := by
    by_contra high
    rw [wrapInt_large (by omega) (by omega)] at value
    omega
  rw [wrapInt_small (by omega) small] at value
  omega

/-- An unsigned numeral, from the start of the buffer. -/
theorem itoa_unsigned (buf : Ptr) (divisor : Divisor) (base : divisor.val.toNat ≤ 16) (ud : UInt32)
    (short : (Number.numeral divisor.val.toNat 'a' ud.toNat).length ≤ 10) :
    let r := itoaDigits divisor ud buf 0
    Renders buf (itoaReverse (r.1.set r.2 0) 0 (r.2 - 1))
      (Number.numeral divisor.val.toNat 'a' ud.toNat) := by
  have large : 1 < divisor.val.toNat := UInt32.lt_iff_toNat_lt.mp divisor.property
  have finish := itoa_finish buf 0 divisor base ud
  dsimp only at finish ⊢
  refine ⟨?_, by omega, fun k outside => ?_⟩
  · refine (holdsString_getD (numeral_nonzero ⟨large, base⟩ ud.toNat)).congr fun k inside => ?_
    rw [finish, if_pos (by omega), Nat.sub_zero]
  · rw [finish, if_neg (by omega)]

/-- A signed numeral, behind its sign. -/
theorem itoa_signed (buf : Ptr) (ud : UInt32) (short : (Number.numeral 10 'a' ud.toNat).length ≤ 10) :
    let r := itoaDigits decimalDivisor ud (buf.set 0 '-'.toUInt8) 1
    Renders buf (itoaReverse (r.1.set r.2 0) 1 (r.2 - 1))
      ('-'.toUInt8 :: Number.numeral 10 'a' ud.toNat) := by
  have finish := itoa_finish (buf.set 0 '-'.toUInt8) 1 decimalDivisor (by decide) ud
  have ten : decimalDivisor.val.toNat = 10 := rfl
  rw [ten] at finish
  dsimp only at finish ⊢
  refine ⟨⟨?_, by decide, ?_⟩, ?_, fun k outside => ?_⟩
  · rw [finish, if_neg (by omega), Ptr.set_apply, if_pos rfl]
  · refine (holdsString_getD (numeral_nonzero (by decide) ud.toNat)).congr fun k inside => ?_
    rw [Ptr.advance, finish, if_pos (by omega), Nat.add_sub_cancel_left]
  · rw [List.length_cons]
    omega
  · rw [finish, if_neg (by omega), Ptr.set_apply, if_neg (by omega)]

/-- `itoa` writes the numeral of every `int` in every base, and the numeral determines it. -/
theorem itoa_inverts_parsing (buf : Ptr) (base d : Int32) :
    Renders buf (itoa buf base d) (itoaText base d) ∧
      wrapInt (parseNumeral (itoaRadix base) (itoaText base d)) = d.toInt ∧
      (base = 0x64 → parseNumeral 10 (itoaText base d) = d.toInt) := by
  have low := d.le_toInt
  have high := d.toInt_lt
  have bound := d.toUInt32.toNat_lt
  have sign : d < 0 ↔ d.toInt < 0 := Int32.lt_iff_toInt_lt
  have decimal : (Number.numeral 10 'a' d.toUInt32.toNat).length ≤ 10 :=
    length_numeral (by decide) 'a' (by omega) (by decide)
  have hex : (Number.numeral 16 'a' d.toUInt32.toNat).length ≤ 10 :=
    length_numeral (by decide) 'a' (by omega) (by decide)
  rw [itoa, itoaText, itoaRadix]
  by_cases signed : base = 0x64
  · have letter : ¬base = 0x78 := by
      rw [signed]
      decide
    rw [if_pos signed, if_neg letter, if_neg letter, parseNumeral_signed, wrapInt_small low high]
    refine ⟨?_, rfl, fun _ => rfl⟩
    rw [signedNumeral]
    by_cases negative : d.toInt < 0
    · rw [if_pos ⟨signed, sign.mpr negative⟩, if_pos negative, ← toUInt32_neg negative]
      exact itoa_signed buf _ (length_numeral (by decide) 'a'
        (by rw [toUInt32_neg negative]; omega) (by decide))
    · rw [if_neg fun both => negative (sign.mp both.2), if_neg negative, ← toUInt32_pos negative]
      exact itoa_unsigned buf decimalDivisor (by decide) _ decimal
  · rw [if_neg fun both => signed both.1, if_neg signed]
    by_cases hexadecimal : base = 0x78
    · rw [if_pos hexadecimal, if_pos hexadecimal, if_pos hexadecimal,
        parseNumeral_numeral (by decide)]
      exact ⟨itoa_unsigned buf hexDivisor (by decide) _ hex, toUInt32_value d,
        fun same => absurd same signed⟩
    · rw [if_neg hexadecimal, if_neg hexadecimal, if_neg hexadecimal,
        parseNumeral_numeral (by decide)]
      exact ⟨itoa_unsigned buf decimalDivisor (by decide) _ decimal, toUInt32_value d,
        fun same => absurd same signed⟩

end Itoa

end VDK
