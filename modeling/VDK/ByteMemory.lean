import Mathlib.Algebra.Group.Nat.Defs
import Mathlib.Tactic.Common

/-!
# Byte memories, terminated strings and little-endian words

A pointer is read as the bytes it reaches, indexed by offset. A memory is a total
map on a 32-bit address space whose addresses wrap. Strings are compared with
what a pointer holds, never with the size of the object it points into.
-/
namespace ByteMem

/-- The bytes a pointer reaches, by offset. -/
abbrev Ptr := Nat → UInt8

/-- The pointer advanced by `k` bytes. -/
def Ptr.advance (p : Ptr) (k : Nat) : Ptr := fun i => p (k + i)

/-- `p[i] = c`. -/
def Ptr.set (p : Ptr) (i : Nat) (c : UInt8) : Ptr := Function.update p i c

/-- The `n` bytes from offset `a` on. -/
def Ptr.slice (p : Ptr) (a n : Nat) : List UInt8 := (List.range n).map fun i => p (a + i)

/-- The bytes of `bs` stored from offset `k` on. -/
def Ptr.store (p : Ptr) (k : Nat) (bs : List UInt8) : Ptr := fun i =>
  if k ≤ i then (bs[i - k]?).getD (p i) else p i

namespace Ptr

theorem set_apply (p : Ptr) (i k : Nat) (c : UInt8) :
    p.set i c k = if k = i then c else p k := by
  rw [set, Function.update_apply]

@[simp] theorem length_slice (p : Ptr) (a n : Nat) : (p.slice a n).length = n := by
  rw [slice, List.length_map, List.length_range]

theorem getElem?_slice (p : Ptr) (a : Nat) {n i : Nat} (inside : i < n) :
    (p.slice a n)[i]? = some (p (a + i)) := by
  rw [slice, List.getElem?_map, List.getElem?_range inside, Option.map_some]

theorem slice_eq_iff {p q : Ptr} {a b n : Nat} :
    p.slice a n = q.slice b n ↔ ∀ i, i < n → p (a + i) = q (b + i) := by
  rw [slice, slice, List.map_inj_left]
  simp only [List.mem_range]

theorem slice_add (p : Ptr) (a m n : Nat) :
    p.slice a (m + n) = p.slice a m ++ p.slice (a + m) n := by
  simp only [slice, List.range_add, List.map_append, List.map_map]
  congr 1
  apply List.map_congr_left
  intro i _
  rw [Function.comp_apply, Nat.add_assoc]

theorem store_before (p : Ptr) {k i : Nat} (bs : List UInt8) (before : i < k) :
    p.store k bs i = p i := if_neg (Nat.not_le.mpr before)

theorem store_inside (p : Ptr) (k : Nat) {bs : List UInt8} {i : Nat} (inside : i < bs.length) :
    p.store k bs (k + i) = bs[i] := by
  rw [store, if_pos (Nat.le_add_right k i), Nat.add_sub_cancel_left,
    List.getElem?_eq_getElem inside, Option.getD_some]

theorem store_cons (p : Ptr) (k : Nat) (c : UInt8) (bs : List UInt8) :
    p.store k (c :: bs) = (p.set k c).store (k + 1) bs := by
  funext i
  rw [store, store, set]
  rcases Nat.lt_trichotomy i k with before | rfl | behind
  · rw [if_neg (by omega), if_neg (by omega), Function.update_of_ne (by omega)]
  · rw [if_pos (Nat.le_refl i), if_neg (by omega), Nat.sub_self, Function.update_self]
    rfl
  · have next : i - k = i - (k + 1) + 1 := by omega
    rw [if_pos (by omega), if_pos (by omega), next, List.getElem?_cons_succ,
      Function.update_of_ne (by omega)]

theorem slice_store (p : Ptr) (k : Nat) (bs : List UInt8) :
    (p.store k bs).slice k bs.length = bs := by
  apply List.ext_getElem?
  intro i
  by_cases inside : i < bs.length
  · rw [getElem?_slice _ _ inside, store_inside p k inside, List.getElem?_eq_getElem inside]
  · rw [List.getElem?_eq_none (by rw [length_slice]; omega), List.getElem?_eq_none (by omega)]

end Ptr

/-- `p` holds exactly the bytes of `s` followed by a NUL, and `s` has no NUL. -/
def HoldsString : Ptr → List UInt8 → Prop
  | p, [] => p 0 = 0
  | p, c :: cs => p 0 = c ∧ c ≠ 0 ∧ HoldsString (p.advance 1) cs

instance decidableHoldsString : (p : Ptr) → (s : List UInt8) → Decidable (HoldsString p s)
  | p, [] => inferInstanceAs (Decidable (p 0 = 0))
  | p, c :: cs =>
      letI := decidableHoldsString (p.advance 1) cs
      inferInstanceAs (Decidable (p 0 = c ∧ c ≠ 0 ∧ HoldsString (p.advance 1) cs))

theorem HoldsString.congr {p q : Ptr} {s : List UInt8} (h : HoldsString p s)
    (same : ∀ i, i ≤ s.length → q i = p i) : HoldsString q s := by
  induction s generalizing p q with
  | nil => exact (same 0 (Nat.le_refl 0)).trans h
  | cons c cs ih =>
      refine ⟨(same 0 (Nat.zero_le _)).trans h.1, h.2.1, ih h.2.2 ?_⟩
      intro i hi
      exact same (1 + i) (by simp only [List.length_cons]; omega)

/-- A pointer holds at most one string. -/
theorem HoldsString.unique {p : Ptr} {s t : List UInt8} (h : HoldsString p s)
    (k : HoldsString p t) : s = t := by
  induction s generalizing p t with
  | nil =>
      cases t with
      | nil => rfl
      | cons d ds => exact absurd (k.1.symm.trans h) k.2.1
  | cons c cs ih =>
      cases t with
      | nil => exact absurd (h.1.symm.trans k) h.2.1
      | cons d ds =>
          have heads : c = d := h.1.symm.trans k.1
          rw [heads, ih h.2.2 k.2.2]

/-- A string has no terminator before its end. -/
theorem HoldsString.noNul {p : Ptr} {s : List UInt8} (h : HoldsString p s) : ∀ c ∈ s, c ≠ 0 := by
  induction s generalizing p with
  | nil => exact fun c none => absurd none List.not_mem_nil
  | cons d ds ih =>
      intro c member
      rcases List.mem_cons.mp member with rfl | later
      · exact h.2.1
      · exact ih h.2.2 c later

/-- Two pointers to one string agree up to its terminator. -/
theorem HoldsString.agree {p q : Ptr} {s : List UInt8} (h : HoldsString p s)
    (k : HoldsString q s) : ∀ i, i ≤ s.length → p i = q i := by
  induction s generalizing p q with
  | nil =>
      intro i bound
      rw [Nat.le_zero.mp bound]
      exact Eq.trans h (Eq.symm k)
  | cons c cs ih =>
      intro i bound
      cases i with
      | zero => exact h.1.trans k.1.symm
      | succ i =>
          have rest := ih h.2.2 k.2.2 i (Nat.le_of_succ_le_succ bound)
          simp only [Ptr.advance, Nat.add_comm 1 i] at rest
          exact rest

/-- A pointer into a byte field holds the part before the first NUL, and no other
string that ends inside the field. -/
theorem holdsString_takeWhile {p : Ptr} {field : List UInt8}
    (same : ∀ i, ∀ h : i < field.length, p i = field[i]) {t : List UInt8}
    (ends : 0 ∈ field ∨ t.length < field.length) :
    HoldsString p t ↔ field.takeWhile (· ≠ 0) = t := by
  induction field generalizing p t with
  | nil => simp at ends
  | cons c cs ih =>
      have head : p 0 = c := same 0 (Nat.zero_lt_succ _)
      by_cases nul : c = 0
      · subst nul
        cases t with
        | nil => simp [HoldsString, head]
        | cons d ds =>
            simp only [HoldsString, head, ne_eq, not_true_eq_false, decide_false, Bool.false_eq_true,
              not_false_eq_true, List.takeWhile_cons_of_neg, reduceCtorEq, iff_false]
            rintro ⟨rfl, nonzero, _⟩
            exact nonzero rfl
      · cases t with
        | nil => simp [HoldsString, head, nul]
        | cons d ds =>
            have rest := @ih (p.advance 1)
              (fun i h => (congrArg p (Nat.add_comm 1 i)).trans (same (i + 1) (Nat.succ_lt_succ h))) ds
              (by simpa [Ne.symm nul] using ends)
            simp only [HoldsString, head, rest, List.takeWhile_cons, ne_eq, nul, not_false_eq_true,
              decide_true, if_true, List.cons.injEq]
            constructor
            · rintro ⟨rfl, _, tail⟩
              exact ⟨rfl, tail⟩
            · rintro ⟨rfl, tail⟩
              exact ⟨rfl, nul, tail⟩

/-- A string without NUL bytes, the value a C string denotes. -/
structure Text where
  chars : List UInt8
  noNul : ∀ c ∈ chars, c ≠ 0

namespace Text

@[ext] theorem ext {s t : Text} (h : s.chars = t.chars) : s = t := by
  cases s
  cases t
  cases h
  rfl

instance : DecidableEq Text := fun s t =>
  decidable_of_iff (s.chars = t.chars) ⟨Text.ext, congrArg Text.chars⟩

/-- A string literal. -/
def ofChars (cs : List Char) (h : (cs.map Char.toUInt8).all (· ≠ 0) = true) : Text :=
  ⟨cs.map Char.toUInt8, fun c hc => of_decide_eq_true (List.all_eq_true.mp h c hc)⟩

/-- Adjacent literals. -/
def concat (ts : List Text) : Text where
  chars := ts.flatMap chars
  noNul c member := by
    obtain ⟨t, _, inside⟩ := List.mem_flatMap.mp member
    exact t.noNul c inside

/-- The empty string. -/
def empty : Text := ⟨[], fun _ h => nomatch h⟩

/-- One more character. -/
def push (t : Text) (c : UInt8) (h : c ≠ 0) : Text where
  chars := t.chars ++ [c]
  noNul b member := by
    rcases List.mem_append.mp member with before | last
    · exact t.noNul b before
    · exact (List.mem_singleton.mp last).symm ▸ h

/-- A pointer to the string; the bytes behind its terminator are NUL as well. -/
def ptr (s : Text) : Ptr := fun i => s.chars.getD i 0

end Text

theorem holdsString_getD {s : List UInt8} (h : ∀ c ∈ s, c ≠ 0) :
    HoldsString (fun i => s.getD i 0) s := by
  induction s with
  | nil => rfl
  | cons c cs ih =>
      refine ⟨rfl, h c List.mem_cons_self, ?_⟩
      refine (ih fun d hd => h d (List.mem_cons_of_mem c hd)).congr ?_
      intro i _
      simp only [Ptr.advance, Nat.add_comm 1 i, List.getD_cons_succ]

theorem Text.holds (s : Text) : HoldsString s.ptr s.chars := holdsString_getD s.noNul

/-- The bytes up to the terminator are the characters. -/
theorem Text.takeWhile_terminated (s : Text) : (s.chars ++ [0]).takeWhile (· ≠ 0) = s.chars := by
  rw [List.takeWhile_append_of_pos fun c member => decide_eq_true (s.noNul c member)]
  exact List.append_nil _

/-- Holding a string is agreeing with it up to its terminator. -/
theorem holdsString_iff_ptr {p : Ptr} (t : Text) :
    HoldsString p t.chars ↔ ∀ i, i ≤ t.chars.length → p i = t.ptr i :=
  ⟨fun holds => holds.agree t.holds, fun same => t.holds.congr same⟩

/-- A memory of bytes with wrapping 32-bit addresses. -/
abbrev Mem := UInt32 → UInt8

namespace Mem

/-- What a pointer to address `a` reaches. -/
def view (m : Mem) (a : UInt32) : Ptr := fun i => m (a + UInt32.ofNat i)

/-- Store one byte. -/
def set (m : Mem) (a : UInt32) (b : UInt8) : Mem := fun x => if x = a then b else m x

/-- Store consecutive bytes from `a` on. -/
def write (m : Mem) (a : UInt32) : List UInt8 → Mem
  | [] => m
  | b :: bs => (m.set a b).write (a + 1) bs

@[simp] theorem write_nil (m : Mem) (a : UInt32) : m.write a [] = m := rfl

theorem set_self (m : Mem) (a : UInt32) (b : UInt8) : (m.set a b) a = b := if_pos rfl

theorem set_twice (m : Mem) (a : UInt32) (b c : UInt8) : (m.set a b).set a c = m.set a c := by
  funext x
  unfold set
  split
  · rfl
  · rfl

theorem next_address (a : UInt32) (k : Nat) :
    a + UInt32.ofNat (k + 1) = a + UInt32.ofNat k + 1 := by
  rw [UInt32.ofNat_add, ← UInt32.add_assoc]
  rfl

theorem next_pointer (a : UInt32) (k : Nat) :
    a + UInt32.ofNat (k + 1) = a + 1 + UInt32.ofNat k := by
  rw [Nat.add_comm, UInt32.ofNat_add, ← UInt32.add_assoc]
  rfl

theorem view_zero (m : Mem) (a : UInt32) : m.view a 0 = m a := congrArg m (UInt32.add_zero a)

theorem view_advance (m : Mem) (a : UInt32) : (m.view a).advance 1 = m.view (a + 1) := by
  funext i
  rw [Ptr.advance, view, view, UInt32.ofNat_add, ← UInt32.add_assoc]
  rfl

theorem write_append (m : Mem) (a : UInt32) (bs cs : List UInt8) :
    m.write a (bs ++ cs) = (m.write a bs).write (a + UInt32.ofNat bs.length) cs := by
  induction bs generalizing m a with
  | nil => simp
  | cons b bs ih =>
      simp only [List.cons_append, write, ih, List.length_cons]
      congr 1
      rw [UInt32.add_assoc, Nat.add_comm bs.length 1, UInt32.ofNat_add]
      rfl

theorem sub_succ_toNat {x a : UInt32} (h : x ≠ a) :
    (x - (a + 1)).toNat + 1 = (x - a).toNat := by
  have hx := x.toNat_lt
  have ha := a.toNat_lt
  have hne : x.toNat ≠ a.toNat := fun e => h (UInt32.toNat_inj.mp e)
  simp only [UInt32.toNat_sub, UInt32.toNat_add, UInt32.toNat_one]
  omega

/-- A write that does not run round the address space changes exactly its range. -/
theorem write_apply (m : Mem) (a x : UInt32) (bs : List UInt8) (fits : bs.length ≤ 2 ^ 32) :
    m.write a bs x = (bs[(x - a).toNat]?).getD (m x) := by
  induction bs generalizing m a with
  | nil => rfl
  | cons b bs ih =>
      have short : bs.length ≤ 2 ^ 32 := by simp only [List.length_cons] at fits; omega
      rw [write, ih _ _ short]
      by_cases h : x = a
      · subst h
        have beyond : bs.length ≤ (x - (x + 1)).toNat := by
          have hx := x.toNat_lt
          simp only [List.length_cons] at fits
          simp only [UInt32.toNat_sub, UInt32.toNat_add, UInt32.toNat_one]
          omega
        rw [List.getElem?_eq_none beyond]
        simp [set]
      · rw [← sub_succ_toNat h, List.getElem?_cons_succ]
        simp only [set, if_neg h]

theorem write_beyond (m : Mem) {a x : UInt32} {bs : List UInt8} (fits : bs.length ≤ 2 ^ 32)
    (beyond : bs.length ≤ (x - a).toNat) : m.write a bs x = m x := by
  rw [write_apply m a x bs fits, List.getElem?_eq_none beyond, Option.getD_none]

theorem write_outside (m : Mem) {a x : UInt32} {bs : List UInt8} (fits : bs.length ≤ 2 ^ 32)
    (outside : ∀ k, k < bs.length → x ≠ a + UInt32.ofNat k) : m.write a bs x = m x := by
  apply write_beyond m fits
  by_contra inside
  apply outside (x - a).toNat (Nat.not_le.mp inside)
  rw [UInt32.ofNat_toNat, UInt32.add_comm, UInt32.sub_add_cancel]

theorem view_write (m : Mem) (a : UInt32) (bs : List UInt8) (fits : bs.length ≤ 2 ^ 32)
    (i : Nat) (hi : i < 2 ^ 32) : (m.write a bs).view a i = (bs[i]?).getD (m.view a i) := by
  have offset : (a + UInt32.ofNat i - a).toNat = i := by
    have ha := a.toNat_lt
    simp only [UInt32.toNat_sub, UInt32.toNat_add, UInt32.toNat_ofNat']
    omega
  simp only [Mem.view, write_apply m a _ bs fits, offset]

theorem view_write_inside (m : Mem) (a : UInt32) {bs : List UInt8} (fits : bs.length ≤ 2 ^ 32)
    {i : Nat} (inside : i < bs.length) : (m.write a bs).view a i = bs.getD i 0 := by
  rw [view_write m a bs fits i (by omega), List.getD_eq_getElem?_getD,
    List.getElem?_eq_getElem inside, Option.getD_some, Option.getD_some]

/-- What was written is seen from its address on. -/
theorem map_view_write (m : Mem) (a : UInt32) {bs : List UInt8} (fits : bs.length ≤ 2 ^ 32) :
    (List.range bs.length).map ((m.write a bs).view a) = bs := by
  apply List.ext_getElem?
  intro i
  by_cases inside : i < bs.length
  · rw [List.getElem?_map, List.getElem?_range inside, Option.map_some,
      view_write m a bs fits i (by omega), List.getElem?_eq_getElem inside, Option.getD_some]
  · rw [List.getElem?_eq_none (by rw [List.length_map, List.length_range]; omega),
      List.getElem?_eq_none (by omega)]

theorem view_write_behind (m : Mem) (a : UInt32) {bs : List UInt8} {i : Nat}
    (behind : bs.length ≤ i) (small : i < 2 ^ 32) : (m.write a bs).view a i = m.view a i := by
  rw [view_write m a bs (by omega) i small, List.getElem?_eq_none behind, Option.getD_none]

end Mem

/-- The 16-bit word with the given low and high byte. -/
def word16 (lo hi : UInt8) : UInt16 := UInt16.ofNat (lo.toNat + 256 * hi.toNat)

/-- Low byte first. -/
def bytes16 (w : UInt16) : List UInt8 := [UInt8.ofNat w.toNat, UInt8.ofNat (w.toNat / 256)]

/-- The 32-bit word with the given bytes, low byte first. -/
def word32 (b₀ b₁ b₂ b₃ : UInt8) : UInt32 :=
  UInt32.ofNat (b₀.toNat + 256 * (b₁.toNat + 256 * (b₂.toNat + 256 * b₃.toNat)))

/-- The 32-bit word stored at `a`. -/
def Mem.load32 (m : Mem) (a : UInt32) : UInt32 := word32 (m a) (m (a + 1)) (m (a + 2)) (m (a + 3))

/-- The words lie one behind the other from `a` on. -/
def Mem.HoldsWords (m : Mem) : UInt32 → List UInt32 → Prop
  | _, [] => True
  | a, w :: ws => m.load32 a = w ∧ m.HoldsWords (a + 4) ws

theorem add_ofNat_succ (a : UInt32) (n : Nat) :
    a + UInt32.ofNat (4 * (n + 1)) = a + 4 + UInt32.ofNat (4 * n) := by
  rw [Nat.mul_succ, Nat.add_comm, UInt32.ofNat_add, ← UInt32.add_assoc]
  rfl

theorem Mem.HoldsWords.append_inv {m : Mem} {a : UInt32} {xs ys : List UInt32}
    (h : m.HoldsWords a (xs ++ ys)) :
    m.HoldsWords a xs ∧ m.HoldsWords (a + UInt32.ofNat (4 * xs.length)) ys := by
  induction xs generalizing a with
  | nil => exact ⟨trivial, (UInt32.add_zero a).symm ▸ h⟩
  | cons x xs ih =>
      obtain ⟨first, second⟩ := ih h.2
      refine ⟨⟨h.1, first⟩, ?_⟩
      rw [List.length_cons, add_ofNat_succ]
      exact second

theorem Mem.HoldsWords.get {m : Mem} {a : UInt32} {ws : List UInt32} (h : m.HoldsWords a ws)
    {i : Nat} {w : UInt32} (found : ws[i]? = some w) : m.load32 (a + UInt32.ofNat (4 * i)) = w := by
  induction ws generalizing a i with
  | nil => exact nomatch found
  | cons x ws ih =>
      cases i with
      | zero =>
          rw [Nat.mul_zero, show UInt32.ofNat 0 = 0 from rfl, UInt32.add_zero]
          exact h.1.trans (Option.some.inj found)
      | succ i =>
          rw [add_ofNat_succ]
          exact ih h.2 found

/-- Low byte first. -/
def bytes32 (w : UInt32) : List UInt8 :=
  [UInt8.ofNat w.toNat, UInt8.ofNat (w.toNat / 256), UInt8.ofNat (w.toNat / 65536),
    UInt8.ofNat (w.toNat / 16777216)]

theorem fits_bytes32 (w : UInt32) : (bytes32 w).length ≤ 2 ^ 32 := by
  rw [show (bytes32 w).length = 4 from rfl]
  decide

@[simp] theorem length_bytes16 (w : UInt16) : (bytes16 w).length = 2 := rfl

theorem bytes16_word16 (lo hi : UInt8) : bytes16 (word16 lo hi) = [lo, hi] := by
  have hl := lo.toNat_lt
  have hh := hi.toNat_lt
  simp only [bytes16, word16, List.cons.injEq, and_true]
  constructor
  · apply UInt8.toNat_inj.mp
    simp only [UInt8.toNat_ofNat', UInt16.toNat_ofNat']
    omega
  · apply UInt8.toNat_inj.mp
    simp only [UInt8.toNat_ofNat', UInt16.toNat_ofNat']
    omega

theorem word16_bytes16 (w : UInt16) :
    word16 (UInt8.ofNat w.toNat) (UInt8.ofNat (w.toNat / 256)) = w := by
  have hw := w.toNat_lt
  apply UInt16.toNat_inj.mp
  simp only [word16, UInt16.toNat_ofNat', UInt8.toNat_ofNat']
  omega

/-- The 16-bit words of a byte string of even length. -/
def wordsOf : List UInt8 → List UInt16
  | lo :: hi :: bytes => word16 lo hi :: wordsOf bytes
  | _ => []

theorem flatMap_wordsOf (n : Nat) (bytes : List UInt8) (even : bytes.length = 2 * n) :
    (wordsOf bytes).flatMap bytes16 = bytes ∧ (wordsOf bytes).length = n := by
  induction n generalizing bytes with
  | zero =>
      rw [List.length_eq_zero_iff.mp even]
      exact ⟨rfl, rfl⟩
  | succ n ih =>
      match bytes, even with
      | lo :: hi :: bytes, even =>
          obtain ⟨same, length⟩ := ih bytes (by simp only [List.length_cons] at even; omega)
          simp only [wordsOf, List.flatMap_cons, bytes16_word16, same, List.length_cons, length]
          exact ⟨rfl, trivial⟩

theorem word32_bytes32 (w : UInt32) :
    word32 (UInt8.ofNat w.toNat) (UInt8.ofNat (w.toNat / 256)) (UInt8.ofNat (w.toNat / 65536))
      (UInt8.ofNat (w.toNat / 16777216)) = w := by
  have hw := w.toNat_lt
  apply UInt32.toNat_inj.mp
  simp only [word32, UInt32.toNat_ofNat', UInt8.toNat_ofNat']
  omega

theorem bytes32_word32 (b₀ b₁ b₂ b₃ : UInt8) :
    bytes32 (word32 b₀ b₁ b₂ b₃) = [b₀, b₁, b₂, b₃] := by
  have h₀ := b₀.toNat_lt
  have h₁ := b₁.toNat_lt
  have h₂ := b₂.toNat_lt
  have h₃ := b₃.toNat_lt
  simp only [bytes32, word32, List.cons.injEq, and_true, ← UInt8.toNat_inj, UInt8.toNat_ofNat',
    UInt32.toNat_ofNat']
  omega

/-- The two memories agree on `k` bytes from `a` on. -/
def Mem.Agree (m m' : Mem) (a : UInt32) (k : Nat) : Prop :=
  ∀ i < k, m' (a + UInt32.ofNat i) = m (a + UInt32.ofNat i)

namespace Mem

theorem Agree.trans {m₁ m₂ m₃ : Mem} {a : UInt32} {k : Nat} (h : m₁.Agree m₂ a k)
    (g : m₂.Agree m₃ a k) : m₁.Agree m₃ a k := fun i hi => (g i hi).trans (h i hi)

theorem Agree.take {m m' : Mem} {a : UInt32} {k l : Nat} (h : m.Agree m' a k) (less : l ≤ k) :
    m.Agree m' a l := fun i hi => h i (by omega)

theorem Agree.drop {m m' : Mem} {a : UInt32} {k l : Nat} (h : m.Agree m' a (k + l)) :
    m.Agree m' (a + UInt32.ofNat k) l := by
  intro i hi
  rw [UInt32.add_assoc, ← UInt32.ofNat_add]
  exact h (k + i) (by omega)

theorem Agree.append {m m' : Mem} {a : UInt32} {k l : Nat} (h : m.Agree m' a k)
    (g : m.Agree m' (a + UInt32.ofNat k) l) : m.Agree m' a (k + l) := by
  intro i hi
  by_cases first : i < k
  · exact h i first
  · have second := g (i - k) (by omega)
    rw [UInt32.add_assoc, ← UInt32.ofNat_add, Nat.add_sub_of_le (Nat.not_lt.mp first)] at second
    exact second

/-- A word determines its bytes. -/
theorem agree_of_load32 {m m' : Mem} {a : UInt32} (same : m'.load32 a = m.load32 a) :
    m.Agree m' a 4 := by
  have bytes := congrArg bytes32 same
  unfold load32 at bytes
  rw [bytes32_word32, bytes32_word32] at bytes
  simp only [List.cons.injEq, and_true] at bytes
  obtain ⟨first, second, third, fourth⟩ := bytes
  intro i hi
  match i, hi with
  | 0, _ => rwa [show UInt32.ofNat 0 = 0 from rfl, UInt32.add_zero]
  | 1, _ => exact second
  | 2, _ => exact third
  | 3, _ => exact fourth

theorem HoldsWords.congr {m m' : Mem} {a : UInt32} {ws : List UInt32} (h : m.HoldsWords a ws)
    (same : m.Agree m' a (4 * ws.length)) : m'.HoldsWords a ws := by
  induction ws generalizing a with
  | nil => trivial
  | cons w ws ih =>
      have byte : ∀ i < 4, m' (a + UInt32.ofNat i) = m (a + UInt32.ofNat i) := fun i hi =>
        same i (by rw [List.length_cons]; omega)
      refine ⟨?_, ih h.2 ?_⟩
      · have first : m' a = m a := by
          have stored := byte 0 (by decide)
          rwa [show UInt32.ofNat 0 = 0 from rfl, UInt32.add_zero] at stored
        have word : m'.load32 a = m.load32 a := by
          unfold load32
          rw [first, show m' (a + 1) = m (a + 1) from byte 1 (by decide),
            show m' (a + 2) = m (a + 2) from byte 2 (by decide),
            show m' (a + 3) = m (a + 3) from byte 3 (by decide)]
        exact word.trans h.1
      · exact Agree.drop (k := 4) (same.take (by rw [List.length_cons]; omega))

theorem load32_write (m : Mem) (a : UInt32) (w : UInt32) : (m.write a (bytes32 w)).load32 a = w := by
  have byte : ∀ i < 4, (m.write a (bytes32 w)) (a + UInt32.ofNat i) = (bytes32 w).getD i 0 :=
    fun i hi => view_write_inside m a (fits_bytes32 w) hi
  have first : (m.write a (bytes32 w)) a = UInt8.ofNat w.toNat := by
    have stored := byte 0 (by decide)
    rwa [show UInt32.ofNat 0 = 0 from rfl, UInt32.add_zero] at stored
  unfold load32
  rw [first, show (m.write a (bytes32 w)) (a + 1) = _ from byte 1 (by decide),
    show (m.write a (bytes32 w)) (a + 2) = _ from byte 2 (by decide),
    show (m.write a (bytes32 w)) (a + 3) = _ from byte 3 (by decide)]
  exact word32_bytes32 w

/-- A word stored just below `a` leaves the bytes from `a` on alone. -/
theorem agree_write_below (m : Mem) (a : UInt32) (w : UInt32) {k : Nat} (fits : k + 4 ≤ 2 ^ 32) :
    m.Agree (m.write (a - 4) (bytes32 w)) a k := by
  intro i hi
  have offset : (a + UInt32.ofNat i - (a - 4)).toNat = i + 4 := by
    have ha := a.toNat_lt
    have four : UInt32.toNat 4 = 4 := rfl
    simp only [UInt32.toNat_sub, UInt32.toNat_add, UInt32.toNat_ofNat', four]
    omega
  apply write_beyond m (fits_bytes32 w)
  rw [offset, show (bytes32 w).length = 4 from rfl]
  exact Nat.le_add_left 4 i

end Mem

end ByteMem
