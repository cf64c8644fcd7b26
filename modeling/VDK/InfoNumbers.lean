import VDK.NumberText

/-!
# Numbers in any base: `intToStr` of the `info` command (`term/vSh/info.h`)

The digits are put into a temporary of 32 bytes, the last one first, and copied back in
the other order. Both operands of `%` are `int`s, so that the remainders of a negative
number are negative.
-/
namespace VDK.Info
open ByteMem

/-- The bases that are not turned away. -/
abbrev Base := { b : Int32 // ¬(b < 2 ∨ 16 < b) }

/-- The temporary, with the indices it was used at. -/
structure Temp where
  chars : Ptr
  used : List Nat

def Temp.put (i : Nat) (c : UInt8) (t : Temp) : Temp :=
  { chars := t.chars.set i c, used := t.used ++ [i] }

/-- The character of a remainder, as the conversion to `char` leaves it. -/
def digitChar (remainder : Int32) : UInt8 :=
  (if 9 < remainder then remainder - 10 + 65 else remainder + 48).toUInt32.toUInt8

/-- The base as a natural number. -/
def Base.radix (base : Base) : Nat := base.val.toInt.toNat

theorem Base.large (base : Base) : 1 < base.radix ∧ base.radix ≤ 16 := by
  obtain ⟨low, high⟩ := not_or.mp base.property
  have two : (2 : Int32).toInt = 2 := rfl
  have sixteen : (16 : Int32).toInt = 16 := rfl
  rw [Int32.lt_iff_toInt_lt, two] at low
  rw [Int32.lt_iff_toInt_lt, sixteen] at high
  unfold Base.radix
  omega

theorem Base.toInt_eq (base : Base) : base.val.toInt = base.radix := by
  have large := base.large
  unfold Base.radix at large ⊢
  omega

theorem quotient_toInt (base : Base) (num : Int32) :
    (num / base.val).toInt = num.toInt.tdiv base.radix := by
  have low := num.le_toInt
  have high := num.toInt_lt
  have size : (num.toInt.tdiv base.radix).natAbs = num.toInt.natAbs / base.radix :=
    Int.natAbs_tdiv num.toInt base.radix
  have half : num.toInt.natAbs / base.radix ≤ num.toInt.natAbs / 2 :=
    Nat.div_le_div_left base.large.1 (by decide)
  rw [Int32.toInt_div, base.toInt_eq]
  exact wrapInt_small (by omega) (by omega)

theorem remainder_toInt (base : Base) (num : Int32) :
    (num % base.val).toInt = num.toInt.tmod base.radix := by
  rw [Int32.toInt_mod, base.toInt_eq]

theorem toInt_ne_zero {num : Int32} (nonzero : num ≠ 0) : num.toInt ≠ 0 :=
  fun none => nonzero (Int32.toInt.inj none)

theorem quotient_smaller (base : Base) {num : Int32} (nonzero : num ≠ 0) :
    (num / base.val).toInt.natAbs < num.toInt.natAbs := by
  have size : (num.toInt.tdiv base.radix).natAbs = num.toInt.natAbs / base.radix :=
    Int.natAbs_tdiv num.toInt base.radix
  have some := toInt_ne_zero nonzero
  rw [quotient_toInt, size]
  exact Nat.div_lt_self (by omega) base.large.1

/-- The first loop: the digits that are left, and the index behind the last one put down. -/
def digitLoop (base : Base) (num : Int32) (temp : Temp) (i : Nat) : Temp × Nat :=
  if nonzero : num ≠ 0 then
    let remainder := num % base.val
    digitLoop base (num / base.val) (temp.put i (digitChar remainder)) (i + 1)
  else (temp, i)
termination_by num.toInt.natAbs
decreasing_by exact quotient_smaller base nonzero

/-- The second loop, with the terminator behind it. -/
def copyLoop (i j : Nat) (temp : Temp) (str : Ptr) : Temp × Ptr :=
  if j < i then
    copyLoop i (j + 1) { temp with used := temp.used ++ [i - j - 1] }
      (str.set j (temp.chars (i - j - 1)))
  else (temp, str.set j 0)
termination_by i - j

/-- `intToStr`: what it leaves at `str`, and the indices it uses `temp` at. -/
def intToStr (num : Int32) (str temp : Ptr) (base : Int32) : Ptr × List Nat :=
  if invalid : base < 2 ∨ 16 < base then (str.set 0 0, [])
  else if num = 0 then ((str.set 0 '0'.toUInt8).set 1 0, [])
  else
    let digits := digitLoop ⟨base, invalid⟩ num ⟨temp, []⟩ 0
    let copied := copyLoop digits.2 0 (digits.1.put digits.2 0) str
    (copied.2, copied.1.used)

section Digits

/-- The remainders that C's division leaves, the first one first: they have the sign of `n`. -/
def remainders (radix : Nat) (n : Int) : List Int :=
  (Nat.digits radix n.natAbs).map fun d : Nat => if n < 0 then -(d : Int) else d

theorem remainders_step {radix : Nat} (large : 1 < radix) {n : Int} (nonzero : n ≠ 0) :
    remainders radix n = n.tmod radix :: remainders radix (n.tdiv radix) := by
  have positive : 0 < n.natAbs := by omega
  have size : (n.tdiv radix).natAbs = n.natAbs / radix := Int.natAbs_tdiv n radix
  have digits := Nat.digits_def' large positive
  unfold remainders
  rw [size, digits, List.map_cons]
  by_cases negative : n < 0
  · obtain ⟨m, rfl⟩ : ∃ m : Nat, n = -(m : Int) := ⟨n.natAbs, by omega⟩
    have quotient : (-(m : Int)).tdiv radix = -((m / radix : Nat) : Int) := Int.neg_tdiv m radix
    have remainder : (-(m : Int)).tmod radix = -((m % radix : Nat) : Int) := Int.neg_tmod m radix
    rw [quotient, remainder, if_pos negative, Int.natAbs_neg, Int.natAbs_natCast]
    congr 1
    apply List.map_congr_left
    intro d member
    have more : m / radix ≠ 0 := by
      intro none
      rw [none, Nat.digits_zero] at member
      exact absurd member List.not_mem_nil
    rw [if_pos negative, if_pos (Int.neg_neg_of_pos (Int.natCast_pos.mpr (Nat.pos_of_ne_zero more)))]
  · obtain ⟨m, rfl⟩ : ∃ m : Nat, n = m := ⟨n.natAbs, by omega⟩
    have quotient : (m : Int).tdiv radix = ((m / radix : Nat) : Int) := rfl
    have remainder : (m : Int).tmod radix = ((m % radix : Nat) : Int) := rfl
    rw [quotient, remainder, if_neg negative, Int.natAbs_natCast]
    simp only [negative, Int.not_lt.mpr (Int.natCast_nonneg (m / radix))]

/-- The characters that the first loop puts down. -/
def digitChars (base : Base) (num : Int32) : List UInt8 :=
  (remainders base.radix num.toInt).map fun e => digitChar (Int32.ofInt e)

theorem digitChars_step (base : Base) {num : Int32} (nonzero : num ≠ 0) :
    digitChars base num = digitChar (num % base.val) :: digitChars base (num / base.val) := by
  unfold digitChars
  rw [remainders_step base.large.1 (toInt_ne_zero nonzero), List.map_cons, ← remainder_toInt,
    Int32.ofInt_toInt, ← quotient_toInt]

theorem digitChars_zero (base : Base) : digitChars base 0 = [] := by
  have zero : (0 : Int32).toInt.natAbs = 0 := rfl
  rw [digitChars, remainders, zero, Nat.digits_zero]
  rfl

/-- The first loop stores the digits from `i` on and uses no other index. -/
theorem digitLoop_stores (base : Base) (num : Int32) (temp : Temp) (i : Nat) :
    digitLoop base num temp i =
      (⟨temp.chars.store i (digitChars base num),
          temp.used ++ List.range' i (digitChars base num).length⟩,
        i + (digitChars base num).length) := by
  fun_induction digitLoop base num temp i with
  | case1 num temp i nonzero remainder ih =>
      rw [ih, digitChars_step base nonzero, Ptr.store_cons, List.length_cons, List.range'_succ,
        Nat.add_assoc, Nat.add_comm 1, Temp.put]
      simp only [List.append_assoc, List.singleton_append]
      rfl
  | case2 num temp i done =>
      rw [not_not.mp done, digitChars_zero, List.length_nil, List.range'_zero, List.append_nil]
      exact congrArg (fun chars => ((⟨chars, temp.used⟩ : Temp), i)) (funext fun _ => (ite_self _).symm)

/-- The second loop turns the temporary around, and reads it below `i`. -/
theorem copyLoop_apply (i j : Nat) (temp : Temp) (str : Ptr) (ordered : j ≤ i) :
    (∀ k, (copyLoop i j temp str).2 k =
      if j ≤ k ∧ k < i then temp.chars (i - 1 - k) else if k = i then 0 else str k) ∧
    ∀ x ∈ (copyLoop i j temp str).1.used, x ∈ temp.used ∨ x < i := by
  fun_induction copyLoop i j temp str with
  | case1 j temp str more ih =>
      obtain ⟨copied, read⟩ := ih more
      constructor
      · intro k
        rw [copied, Ptr.set_apply]
        by_cases here : k = j
        · have mirror : i - j - 1 = i - 1 - j := by omega
          rw [if_neg (by omega), if_neg (by omega), if_pos here, if_pos (by omega), here, mirror]
        · by_cases behind : j ≤ k ∧ k < i
          · rw [if_pos (by omega), if_pos behind]
          · rw [if_neg (by omega), if_neg behind, if_neg here]
      · intro x member
        rcases read x member with old | below
        · rcases List.mem_append.mp old with before | now
          · exact Or.inl before
          · rw [List.mem_singleton.mp now]
            exact Or.inr (by omega)
        · exact Or.inr below
  | case2 j temp str done =>
      refine ⟨fun k => ?_, fun x member => Or.inl member⟩
      have last : j = i := Nat.le_antisymm ordered (Nat.not_lt.mp done)
      rw [if_neg (by omega), last]
      exact Ptr.set_apply str i k 0

theorem copyLoop_keeps (i j : Nat) (temp : Temp) (str : Ptr) :
    ∀ x ∈ temp.used, x ∈ (copyLoop i j temp str).1.used := by
  fun_induction copyLoop i j temp str with
  | case1 j temp str more ih => exact fun x member => ih x (List.mem_append_left _ member)
  | case2 j temp str done => exact fun x member => member

end Digits

section Numerals

/-- The value of a digit, with capital letters for the digits behind nine. -/
def upperValue (c : UInt8) : Nat := if c < 'A'.toUInt8 then c.toNat - 48 else c.toNat - 55

/-- The number that a string of digits stands for. -/
def readDigits (radix : Nat) (s : List UInt8) : Nat :=
  s.foldl (fun n c => radix * n + upperValue c) 0

/-- The number that a numeral stands for, with or without a sign. -/
def parse (radix : Nat) : List UInt8 → Int
  | [] => 0
  | c :: s => if c = '-'.toUInt8 then -(readDigits radix s : Int) else readDigits radix (c :: s)

/-- Digits of the radix without a leading zero. -/
structure Digits (radix : Nat) (s : List UInt8) : Prop where
  some : s ≠ []
  digit : ∀ c ∈ s, ∃ d, d < radix ∧ Number.digit 'A' d = c
  leading : ∀ cs, s = '0'.toUInt8 :: cs → cs = []

/-- What a conversion leaves: a numeral with a minus sign exactly for a negative number,
which stands for the number, and a temporary that was used inside its 32 bytes. -/
structure Converts (radix : Nat) (num : Int) (str : Ptr) (used : List Nat) : Prop where
  inside : ∀ i ∈ used, i < 32
  text : ∃ digits, Digits radix digits ∧
    HoldsString str (if num < 0 then '-'.toUInt8 :: digits else digits) ∧
    parse radix (if num < 0 then '-'.toUInt8 :: digits else digits) = num

theorem numeral_isDigits {radix : Nat} (base : 1 < radix ∧ radix ≤ 16) (n : Nat) :
    Digits radix (Number.numeral radix 'A' n) where
  some := Number.numeral_ne_nil radix 'A' n
  digit := numeral_mem base.1 'A' n
  leading _ leading := Number.numeral_leading base (Or.inr rfl) leading

theorem Digits.nonzero {radix : Nat} {s : List UInt8} (digits : Digits radix s) (small : radix ≤ 16) :
    ∀ c ∈ s, c ≠ 0 := by
  have all : ∀ d < 16, Number.digit 'A' d ≠ 0 := by decide
  intro c member
  obtain ⟨d, below, rfl⟩ := digits.digit c member
  exact all d (Nat.lt_of_lt_of_le below small)

theorem upperValue_digit : ∀ d < 16, upperValue (Number.digit 'A' d) = d := by decide

theorem parse_numeral {radix : Nat} (base : 1 < radix ∧ radix ≤ 16) (n : Nat) :
    parse radix (Number.numeral radix 'A' n) = n := by
  have minus : ∀ d < 16, Number.digit 'A' d ≠ '-'.toUInt8 := by decide
  have parsed := @foldl_numeral radix base.1 'A' upperValue
    (fun d small => upperValue_digit d (Nat.lt_of_lt_of_le small base.2)) n
  have digits := numeral_mem base.1 'A' n
  rcases text : Number.numeral radix 'A' n with _ | ⟨c, cs⟩
  · exact absurd text (Number.numeral_ne_nil radix 'A' n)
  · rw [text] at parsed digits
    obtain ⟨d, small, rfl⟩ := digits c List.mem_cons_self
    rw [parse, if_neg (minus d (Nat.lt_of_lt_of_le small base.2))]
    exact congrArg Nat.cast parsed

/-- A number has no digits above zero when none of its characters is above the zero's. -/
theorem readDigits_low {radix : Nat} {s : List UInt8} (low : ∀ c ∈ s, c ≤ '0'.toUInt8) :
    readDigits radix s = 0 := by
  have zero : ∀ c : UInt8, c ≤ '0'.toUInt8 → upperValue c = 0 := by
    intro c le
    have bound : c.toNat ≤ 48 := UInt8.le_iff_toNat_le.mp le
    have digit : c < 'A'.toUInt8 := UInt8.lt_iff_toNat_lt.mpr (Nat.lt_of_le_of_lt bound (by decide))
    rw [upperValue, if_pos digit]
    omega
  rw [readDigits]
  induction s with
  | nil => rfl
  | cons c s ih =>
      rw [List.foldl_cons, Nat.mul_zero, zero c (low c List.mem_cons_self)]
      exact ih fun d member => low d (List.mem_cons_of_mem c member)

end Numerals

section Conversion

variable (base : Base) {num : Int32}

theorem remainders_nonneg {radix : Nat} {n : Int} (positive : 0 ≤ n) :
    remainders radix n = (Nat.digits radix n.toNat).map Nat.cast := by
  have same : n.natAbs = n.toNat := by omega
  rw [remainders, same]
  exact List.map_congr_left fun d _ => if_neg (Int.not_lt.mpr positive)

/-- The digits of a positive number are those of its numeral. -/
theorem digitChars_positive (positive : 0 < num.toInt) :
    (digitChars base num).reverse = Number.numeral base.radix 'A' num.toInt.toNat := by
  have all : ∀ d < 16, digitChar (Int32.ofInt (d : Nat)) = Number.digit 'A' d := by decide
  rw [digitChars, remainders_nonneg (Int.le_of_lt positive), List.map_map, Number.numeral,
    if_neg (by omega)]
  congr 1
  apply List.map_congr_left
  intro d member
  have small := Nat.digits_lt_base base.large.1 member
  exact all d (Nat.lt_of_lt_of_le small base.large.2)

/-- The digits of a negative number are counted down from the zero. -/
theorem digitChars_negative (negative : num.toInt < 0) :
    ∀ c ∈ digitChars base num, c ≠ 0 ∧ c ≤ '0'.toUInt8 := by
  have all : ∀ d < 16, digitChar (Int32.ofInt (-(d : Nat))) ≠ 0 ∧
    digitChar (Int32.ofInt (-(d : Nat))) ≤ '0'.toUInt8 := by decide
  intro c member
  obtain ⟨e, remainder, rfl⟩ := List.mem_map.mp member
  obtain ⟨d, digit, rfl⟩ := List.mem_map.mp remainder
  have small := Nat.digits_lt_base base.large.1 digit
  rw [if_pos negative]
  exact all d (Nat.lt_of_lt_of_le small base.large.2)

theorem length_digitChars : (digitChars base num).length =
    (Nat.digits base.radix num.toInt.natAbs).length := by
  rw [digitChars, remainders, List.length_map, List.length_map]

/-- The temporary between the two loops. -/
def filled (temp : Ptr) (num : Int32) : Temp where
  chars := (temp.store 0 (digitChars base num)).set (digitChars base num).length 0
  used := List.range' 0 (digitChars base num).length ++ [(digitChars base num).length]

theorem filled_chars (temp : Ptr) (num : Int32) : (filled base temp num).chars =
    (temp.store 0 (digitChars base num)).set (digitChars base num).length 0 := rfl

theorem intToStr_eq (nonzero : num ≠ 0) (str temp : Ptr) :
    intToStr num str temp base.val =
      ((copyLoop (digitChars base num).length 0 (filled base temp num) str).2,
        (copyLoop (digitChars base num).length 0 (filled base temp num) str).1.used) := by
  rw [intToStr, dif_neg base.property, if_neg nonzero, digitLoop_stores, Nat.zero_add,
    List.nil_append]
  rfl

/-- The digits are left turned around, with a terminator behind them. -/
theorem intToStr_text (nonzero : num ≠ 0) (noNul : ∀ c ∈ digitChars base num, c ≠ 0)
    (str temp : Ptr) :
    HoldsString (intToStr num str temp base.val).1 (digitChars base num).reverse := by
  obtain ⟨copied, _⟩ := copyLoop_apply (digitChars base num).length 0 (filled base temp num) str
    (Nat.zero_le _)
  rw [intToStr_eq base nonzero]
  refine (holdsString_getD (s := (digitChars base num).reverse) fun c member =>
    noNul c (List.mem_reverse.mp member)).congr fun k inside => ?_
  rw [List.length_reverse] at inside
  refine (copied k).trans ?_
  by_cases digit : k < (digitChars base num).length
  · have mirror : (digitChars base num).length - 1 - k < (digitChars base num).length := by omega
    have stored := Ptr.store_inside temp 0 mirror
    rw [Nat.zero_add] at stored
    rw [if_pos ⟨Nat.zero_le k, digit⟩, filled_chars, Ptr.set_apply, if_neg (Nat.ne_of_lt mirror), stored,
      List.getD_eq_getElem _ _ (by rw [List.length_reverse]; exact digit), List.getElem_reverse]
  · have last : k = (digitChars base num).length := Nat.le_antisymm inside (Nat.not_lt.mp digit)
    rw [if_neg fun both => digit both.2, if_pos last,
      List.getD_eq_default _ _ (by rw [List.length_reverse]; omega)]

/-- The index of the terminator is the largest one that the temporary is used at. -/
theorem intToStr_used (nonzero : num ≠ 0) (str temp : Ptr) :
    ∀ i ∈ (intToStr num str temp base.val).2, i ≤ (digitChars base num).length := by
  obtain ⟨_, used⟩ := copyLoop_apply (digitChars base num).length 0 (filled base temp num) str
    (Nat.zero_le _)
  rw [intToStr_eq base nonzero]
  intro i member
  rcases used i member with before | below
  · rcases List.mem_append.mp before with digit | last
    · have range := List.mem_range'_1.mp digit
      omega
    · exact Nat.le_of_eq (List.mem_singleton.mp last)
  · exact Nat.le_of_lt below

theorem intToStr_ends (nonzero : num ≠ 0) {i : Nat} (length : (digitChars base num).length = i)
    (str temp : Ptr) : i ∈ (intToStr num str temp base.val).2 := by
  rw [intToStr_eq base nonzero]
  apply copyLoop_keeps
  rw [← length]
  exact List.mem_append_right _ (List.mem_singleton.mpr rfl)

theorem intToStr_zero (str temp : Ptr) :
    HoldsString (intToStr 0 str temp base.val).1 ['0'.toUInt8] ∧
      (intToStr 0 str temp base.val).2 = [] := by
  rw [intToStr, dif_neg base.property, if_pos rfl]
  exact ⟨⟨rfl, by decide, rfl⟩, rfl⟩

/-- A negative number leaves no digit above the zero, and the number that is left is zero. -/
theorem not_converts_negative (negative : num.toInt < 0) (str temp : Ptr) :
    ¬Converts base.radix num.toInt (intToStr num str temp base.val).1
      (intToStr num str temp base.val).2 := by
  intro converts
  have nonzero : num ≠ 0 := by
    rintro rfl
    exact absurd negative (by decide)
  have low := digitChars_negative base negative
  have held := intToStr_text base nonzero (fun c member => (low c member).1) str temp
  obtain ⟨digits, _, holds, value⟩ := converts.text
  rw [if_pos negative] at holds value
  have below : ∀ c ∈ '-'.toUInt8 :: digits, c ≤ '0'.toUInt8 := by
    rw [← held.unique holds]
    exact fun c member => (low c (List.mem_reverse.mp member)).2
  rw [parse, if_pos rfl, readDigits_low fun c member => below c (List.mem_cons_of_mem _ member)] at value
  omega

theorem converts_nonnegative (positive : 0 ≤ num.toInt) (str temp : Ptr) :
    Converts base.radix num.toInt (intToStr num str temp base.val).1
      (intToStr num str temp base.val).2 := by
  have sign : ¬num.toInt < 0 := Int.not_lt.mpr positive
  have numeral := numeral_isDigits base.large num.toInt.toNat
  have value := parse_numeral base.large num.toInt.toNat
  rw [Int.toNat_of_nonneg positive] at value
  by_cases zero : num = 0
  · subst zero
    obtain ⟨holds, unused⟩ := intToStr_zero base str temp
    constructor
    · rw [unused]
      exact fun i none => absurd none List.not_mem_nil
    · refine ⟨_, numeral, ?_, ?_⟩
      · rw [if_neg sign]
        exact holds
      · rw [if_neg sign]
        exact value
  · have above : 0 < num.toInt := by
      have nonzero := toInt_ne_zero zero
      omega
    have digits := digitChars_positive base above
    have used := intToStr_used base zero str temp
    rw [← List.length_reverse, digits] at used
    constructor
    · have bits := num.toInt_lt
      have short := length_numeral (k := 31) base.large.1 'A'
        (Nat.lt_of_lt_of_le (by omega : num.toInt.toNat < 2 ^ 31)
          (Nat.pow_le_pow_left base.large.1 31)) (by decide)
      intro i member
      have below := used i member
      omega
    · have holds := intToStr_text base zero (fun c member => numeral.nonzero base.large.2 c (by
        rw [← digits]
        exact List.mem_reverse.mpr member)) str temp
      rw [digits] at holds
      refine ⟨_, numeral, ?_, ?_⟩
      · rw [if_neg sign]
        exact holds
      · rw [if_neg sign]
        exact value

end Conversion

/-- For every base from 2 to 16, a number is converted to its numeral if and only if it is
not negative. -/
theorem intToStr_converts_iff (num base : Int32) (low : 2 ≤ base) (high : base ≤ 16)
    (str temp : Ptr) :
    Converts base.toInt.toNat num.toInt (intToStr num str temp base).1
        (intToStr num str temp base).2 ↔ 0 ≤ num.toInt := by
  have valid : ¬(base < 2 ∨ 16 < base) := not_or.mpr ⟨Int32.not_lt.mpr low, Int32.not_lt.mpr high⟩
  constructor
  · intro converts
    by_contra negative
    exact not_converts_negative ⟨base, valid⟩ (Int.not_le.mp negative) str temp converts
  · exact fun positive => converts_nonnegative ⟨base, valid⟩ positive str temp

/-- In base 10 the number -5 becomes a plus sign, and in base 2 the least `int` needs the
index behind the temporary for its terminator. -/
theorem negative_numbers_lost :
    HoldsString (intToStr (-5) (fun _ => 0) (fun _ => 0) 10).1 ['+'.toUInt8] ∧
      32 ∈ (intToStr Int32.minValue (fun _ => 0) (fun _ => 0) 2).2 ∧
      ¬Converts 10 (-5) (intToStr (-5) (fun _ => 0) (fun _ => 0) 10).1
        (intToStr (-5) (fun _ => 0) (fun _ => 0) 10).2 := by
  let ten : Base := ⟨10, by decide⟩
  let two : Base := ⟨2, by decide⟩
  refine ⟨?_, ?_, not_converts_negative ten (by decide : Int32.toInt (-5) < 0) _ _⟩
  · have quotient : (-5 : Int32) / ten.val = 0 := by decide
    have plus : digitChars ten (-5) = ['+'.toUInt8] := by
      rw [digitChars_step ten (by decide), quotient, digitChars_zero]
      decide
    have noNul : ∀ c ∈ digitChars ten (-5), c ≠ 0 := by
      rw [plus]
      exact List.forall_mem_singleton.mpr (by decide)
    have held := intToStr_text ten (by decide : (-5 : Int32) ≠ 0) noNul (fun _ => 0) fun _ => 0
    rw [plus] at held
    exact held
  · apply intToStr_ends two (by decide)
    have size : Int32.minValue.toInt.natAbs = 2 ^ 31 := by decide
    have radix : two.radix = 2 := by decide
    rw [length_digitChars, size, radix, Nat.length_digits 2 (2 ^ 31) (by decide) (by decide),
      Nat.log_pow (by decide)]

theorem intToStr_converts_iff_largest :
    Converts 2 (2 ^ 31 - 1) (intToStr Int32.maxValue (fun _ => 0) (fun _ => 0) 2).1
      (intToStr Int32.maxValue (fun _ => 0) (fun _ => 0) 2).2 :=
  (intToStr_converts_iff Int32.maxValue 2 (by decide) (by decide) _ _).mpr (by decide)

end VDK.Info
