import VDK.ByteMemory

/-!
# The string routines of `libsa/string.c`

The two loops without a length run on fuel, since an unterminated string keeps
them going. Objects are passed as the bytes they reach; in every call modelled
here the source and the destination are different objects.
-/
namespace VDK
open ByteMem

/-- `strcmp`: 0 when the strings agree up to and including a NUL, 1 at the first
difference, `none` while neither was met. -/
def strcmp : Nat → Ptr → Ptr → Option Int
  | 0, _, _ => none
  | fuel + 1, s₁, s₂ =>
      if s₁ 0 = s₂ 0 then
        if s₂ 0 = 0 then some 0 else strcmp fuel (s₁.advance 1) (s₂.advance 1)
      else some 1

/-- `strcpy`: the bytes stored through `dst` in order, the terminator included. -/
def strcpy : Nat → Ptr → Option (List UInt8)
  | 0, _ => none
  | fuel + 1, src =>
      if src 0 = 0 then some [0] else (strcpy fuel (src.advance 1)).map (src 0 :: ·)

def memset (m : Mem) (dst : UInt32) (c : UInt8) : Nat → Mem
  | 0 => m
  | n + 1 => memset (m.set dst c) (dst + 1) c n

/-- `memcpy` into memory from the object behind `src`. -/
def memcpy (m : Mem) (dst : UInt32) (src : Ptr) : Nat → Mem
  | 0 => m
  | n + 1 => memcpy (m.set dst (src 0)) (dst + 1) (src.advance 1) n

abbrev Divisor := {n : UInt32 // 1 < n}

def decimalDivisor : Divisor := ⟨10, by decide⟩

def hexDivisor : Divisor := ⟨16, by decide⟩

theorem quotient_lt (divisor : Divisor) {ud : UInt32} (more : ud / divisor.val ≠ 0) :
    (ud / divisor.val).toNat < ud.toNat := by
  have large : 1 < divisor.val.toNat := UInt32.lt_iff_toNat_lt.mp divisor.property
  have nonzero : (ud / divisor.val).toNat ≠ 0 := fun zero => more (UInt32.toNat_inj.mp zero)
  rw [UInt32.toNat_div] at nonzero ⊢
  have positive : 0 < ud.toNat := Nat.pos_of_ne_zero fun zero => nonzero (by rw [zero, Nat.zero_div])
  exact Nat.div_lt_self positive large

/-- The `do` loop of `itoa`: the buffer and `p` behind it. -/
def itoaDigits (divisor : Divisor) (ud : UInt32) (buf : Ptr) (p : Nat) : Ptr × Nat :=
  let remainder := ud % divisor.val
  let digit := if remainder < 10 then remainder + 48 else remainder + 97 - 10
  let buf := buf.set p digit.toUInt8
  if more : ud / divisor.val ≠ 0 then itoaDigits divisor (ud / divisor.val) buf (p + 1)
  else (buf, p + 1)
termination_by ud.toNat
decreasing_by exact quotient_lt divisor more

def itoaReverse (buf : Ptr) (p1 p2 : Nat) : Ptr :=
  if p1 < p2 then itoaReverse ((buf.set p1 (buf p2)).set p2 (buf p1)) (p1 + 1) (p2 - 1) else buf
termination_by p2 - p1

/-- `itoa`; `long` has 32 bits, and negation wraps. -/
def itoa (buf : Ptr) (base d : Int32) : Ptr :=
  if base = 0x64 ∧ d < 0 then
    let r := itoaDigits decimalDivisor (-d).toUInt32 (buf.set 0 '-'.toUInt8) 1
    itoaReverse (r.1.set r.2 0) 1 (r.2 - 1)
  else
    let divisor := if base = 0x78 then hexDivisor else decimalDivisor
    let r := itoaDigits divisor d.toUInt32 buf 0
    itoaReverse (r.1.set r.2 0) 0 (r.2 - 1)

theorem memset_eq_write (m : Mem) (dst : UInt32) (c : UInt8) (n : Nat) :
    memset m dst c n = m.write dst (List.replicate n c) := by
  induction n generalizing m dst with
  | zero => rfl
  | succ n ih => rw [memset, ih, List.replicate_succ, Mem.write]

theorem memcpy_eq_write (m : Mem) (dst : UInt32) (src : Ptr) (n : Nat) :
    memcpy m dst src n = m.write dst ((List.range n).map src) := by
  induction n generalizing m dst src with
  | zero => rfl
  | succ n ih =>
      rw [memcpy, ih, List.range_succ_eq_map, List.map_cons, Mem.write, List.map_map]
      congr 2
      funext i
      simp only [Ptr.advance, Function.comp_apply, Nat.succ_eq_add_one, Nat.add_comm 1 i]

/-- Against a terminated string the comparison ends, and it tests what `s₁` holds. -/
theorem strcmp_holds {s₂ : Ptr} {t : List UInt8} (terminated : HoldsString s₂ t) (s₁ : Ptr)
    {fuel : Nat} (enough : t.length < fuel) :
    strcmp fuel s₁ s₂ = some (if HoldsString s₁ t then 0 else 1) := by
  induction t generalizing s₁ s₂ fuel with
  | nil =>
      cases fuel with
      | zero => simp at enough
      | succ fuel =>
          have nul : s₂ 0 = 0 := terminated
          by_cases h : s₁ 0 = 0 <;> simp [strcmp, nul, HoldsString, h]
  | cons c cs ih =>
      cases fuel with
      | zero => simp at enough
      | succ fuel =>
          obtain ⟨head, nonzero, rest⟩ := terminated
          have more : cs.length < fuel := by simp only [List.length_cons] at enough; omega
          by_cases h : s₁ 0 = c
          · simp only [strcmp, head, h, nonzero, if_true, if_false, ih rest _ more, HoldsString,
              ne_eq, not_false_eq_true, true_and]
          · simp only [strcmp, head, h, if_false, HoldsString, false_and]

/-- The comparison with a text, with the fuel its length calls for. -/
def strcmpText (s₁ : Ptr) (t : Text) : Option Int := strcmp (t.chars.length + 1) s₁ t.ptr

theorem strcmpText_eq (s₁ : Ptr) (t : Text) :
    strcmpText s₁ t = some (if HoldsString s₁ t.chars then 0 else 1) :=
  strcmp_holds t.holds s₁ (Nat.lt_succ_self _)

theorem strcmpText_eq_zero (s₁ : Ptr) (t : Text) :
    strcmpText s₁ t = some 0 ↔ HoldsString s₁ t.chars := by
  rw [strcmpText_eq]
  by_cases h : HoldsString s₁ t.chars <;> simp [h]

theorem strcpy_holds {src : Ptr} {s : List UInt8} (h : HoldsString src s) {fuel : Nat}
    (enough : s.length < fuel) : strcpy fuel src = some (s ++ [0]) := by
  induction s generalizing src fuel with
  | nil =>
      cases fuel with
      | zero => simp at enough
      | succ fuel =>
          have nul : src 0 = 0 := h
          simp [strcpy, nul]
  | cons c cs ih =>
      cases fuel with
      | zero => simp at enough
      | succ fuel =>
          have more : cs.length < fuel := by simp only [List.length_cons] at enough; omega
          simp [strcpy, h.1, h.2.1, ih h.2.2 more]

/-- Whatever is copied is a terminated string. -/
theorem strcpy_some {fuel : Nat} {src : Ptr} {out : List UInt8} (h : strcpy fuel src = some out) :
    ∃ s, out = s ++ [0] ∧ HoldsString src s := by
  induction fuel generalizing src out with
  | zero => cases h
  | succ fuel ih =>
      rw [strcpy] at h
      split at h
      · rename_i nul
        cases h
        exact ⟨[], rfl, nul⟩
      · rename_i nonzero
        obtain ⟨rest, copied, rfl⟩ := Option.map_eq_some_iff.mp h
        obtain ⟨s, rfl, holds⟩ := ih copied
        exact ⟨src 0 :: s, rfl, rfl, nonzero, holds⟩

end VDK
