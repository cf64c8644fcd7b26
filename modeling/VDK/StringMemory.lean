import VDK.LibsaString
import Mathlib.Data.List.GetD

/-!
# `strcmp` and `strcpy` on strings in memory

The two loops as they run over one memory, in which the strings may lie anywhere and the
copy is read back through its source pointer. The counter is an `int` that wraps, as the
kernel is built without optimisation.
-/
namespace VDK.InMemory
open ByteMem

/-- What `strcmp` returns, and the addresses it reads through either pointer. -/
structure Comparison where
  result : Int
  first : List UInt32
  second : List UInt32

def Comparison.behind (a b : UInt32) (r : Comparison) : Comparison :=
  { r with first := a :: r.first, second := b :: b :: r.second }

def strcmp (m : Mem) (s₁ s₂ : UInt32) : Nat → Int32 → Option Comparison
  | 0, _ => none
  | fuel + 1, i =>
      let a := s₁ + i.toUInt32
      let b := s₂ + i.toUInt32
      if m a = m b then
        if m b = 0 then some ⟨0, [a], [b, b]⟩
        else (strcmp m s₁ s₂ fuel (i + 1)).map (Comparison.behind a b)
      else some ⟨1, [a], [b]⟩

/-- `strcpy`: the length it has counted, and the memory it leaves. -/
def strcpy : Nat → Mem → UInt32 → UInt32 → Int32 → Option (Int32 × Mem)
  | 0, _, _, _, _ => none
  | fuel + 1, m, dst, src, i =>
      let c := m src
      let m := m.set dst c
      if c ≠ 0 then strcpy fuel m (dst + 1) (src + 1) (i + 1) else some (i, m)

/-- The `n` bytes at `a` and the `n` bytes at `b` do not overlap. -/
def Apart (a b : UInt32) (n : Nat) : Prop :=
  ∀ j k, j < n → k < n → a + UInt32.ofNat j ≠ b + UInt32.ofNat k

section Pointers

theorem toUInt32_ofNat (k : Nat) : (Int32.ofNat k).toUInt32 = UInt32.ofNat k := rfl

theorem next_index (k : Nat) : Int32.ofNat k + 1 = Int32.ofNat (k + 1) := (Int32.ofNat_add k 1).symm

theorem holdsString_view_cons {m : Mem} {a : UInt32} {c : UInt8} {cs : List UInt8} :
    HoldsString (m.view a) (c :: cs) ↔ m a = c ∧ c ≠ 0 ∧ HoldsString (m.view (a + 1)) cs := by
  rw [HoldsString, Mem.view_zero, Mem.view_advance]

theorem holdsString_view_nil {m : Mem} {a : UInt32} : HoldsString (m.view a) [] ↔ m a = 0 := by
  rw [HoldsString, Mem.view_zero]

/-- Strings that do not overlap in 32-bit memory are shorter than the largest `int`. -/
theorem Apart.short {a b : UInt32} {n : Nat} (apart : Apart a b n) : n ≤ 2 ^ 31 := by
  by_contra long
  have back : ∀ x y : UInt32, x + UInt32.ofNat (y - x).toNat = y + UInt32.ofNat 0 := by
    intro x y
    rw [UInt32.ofNat_toNat, UInt32.add_comm, UInt32.sub_add_cancel]
    exact (UInt32.add_zero y).symm
  by_cases forwards : (b - a).toNat < n
  · exact apart _ 0 forwards (by omega) (back a b)
  · have backwards : (a - b).toNat < n := by
      have ha := a.toNat_lt
      have hb := b.toNat_lt
      rw [UInt32.toNat_sub] at forwards ⊢
      omega
    exact apart 0 _ (by omega) backwards (back b a).symm

theorem Apart.next {a b : UInt32} {n : Nat} (apart : Apart a b (n + 1)) : Apart (a + 1) (b + 1) n := by
  intro j k first second same
  apply apart (j + 1) (k + 1) (Nat.succ_lt_succ first) (Nat.succ_lt_succ second)
  rw [Mem.next_pointer, Mem.next_pointer]
  exact same

end Pointers

section Comparing

variable {m : Mem}

/-- The comparison of what the two pointers reach is the comparison in memory. -/
theorem strcmp_view (s₁ s₂ : UInt32) (fuel k : Nat) :
    (strcmp m s₁ s₂ fuel (Int32.ofNat k)).map Comparison.result =
      VDK.strcmp fuel (m.view (s₁ + UInt32.ofNat k)) (m.view (s₂ + UInt32.ofNat k)) := by
  induction fuel generalizing k with
  | zero => rfl
  | succ fuel ih =>
      have later := ih (k + 1)
      rw [Mem.next_address, Mem.next_address, ← Mem.view_advance, ← Mem.view_advance] at later
      rw [strcmp, VDK.strcmp, toUInt32_ofNat, Mem.view_zero, Mem.view_zero, next_index, ← later]
      split
      · split
        · rfl
        · rw [Option.map_map]
          rfl
      · rfl

/-- What the comparison of two strings is to return and to read. -/
structure Compares (m : Mem) (s₁ s₂ : UInt32) (s t : List UInt8) (i : Nat) (r : Comparison) :
    Prop where
  returns : ∀ fuel, s.length < fuel → strcmp m s₁ s₂ fuel (Int32.ofNat i) = some r
  equal : r.result = 0 ↔ s = t
  first : ∀ x ∈ r.first, ∃ k, k ≤ s.length ∧ x = s₁ + UInt32.ofNat (i + k)
  second : ∀ x ∈ r.second, ∃ k, k ≤ t.length ∧ x = s₂ + UInt32.ofNat (i + k)

variable {s₁ s₂ : UInt32} {s t : List UInt8} {i : Nat}

theorem compares_differ (differ : m (s₁ + UInt32.ofNat i) ≠ m (s₂ + UInt32.ofNat i)) (other : s ≠ t) :
    Compares m s₁ s₂ s t i ⟨1, [s₁ + UInt32.ofNat i], [s₂ + UInt32.ofNat i]⟩ := by
  refine ⟨fun fuel enough => ?_, ⟨fun zero => absurd zero Int.one_ne_zero, fun same => absurd same other⟩,
    fun x member => ⟨0, Nat.zero_le _, List.mem_singleton.mp member⟩,
    fun x member => ⟨0, Nat.zero_le _, List.mem_singleton.mp member⟩⟩
  obtain ⟨fuel, rfl⟩ := Nat.exists_eq_succ_of_ne_zero (Nat.ne_of_gt (Nat.zero_lt_of_lt enough))
  rw [strcmp, toUInt32_ofNat]
  exact if_neg differ

theorem compares_end (first : m (s₁ + UInt32.ofNat i) = 0) (second : m (s₂ + UInt32.ofNat i) = 0) :
    Compares m s₁ s₂ [] [] i
      ⟨0, [s₁ + UInt32.ofNat i], [s₂ + UInt32.ofNat i, s₂ + UInt32.ofNat i]⟩ := by
  refine ⟨fun fuel enough => ?_, ⟨fun _ => rfl, fun _ => rfl⟩,
    fun x member => ⟨0, Nat.le_refl 0, List.mem_singleton.mp member⟩,
    fun x member => ⟨0, Nat.le_refl 0, ?_⟩⟩
  · obtain ⟨fuel, rfl⟩ := Nat.exists_eq_succ_of_ne_zero (Nat.ne_of_gt enough)
    rw [strcmp, toUInt32_ofNat]
    exact (if_pos (first.trans second.symm)).trans (if_pos second)
  · rcases List.mem_cons.mp member with here | again
    · exact here
    · exact List.mem_singleton.mp again

theorem Compares.behind {c : UInt8} {r : Comparison} (nonzero : c ≠ 0)
    (first : m (s₁ + UInt32.ofNat i) = c) (second : m (s₂ + UInt32.ofNat i) = c)
    (rest : Compares m s₁ s₂ s t (i + 1) r) :
    Compares m s₁ s₂ (c :: s) (c :: t) i
      (r.behind (s₁ + UInt32.ofNat i) (s₂ + UInt32.ofNat i)) := by
  have index : ∀ k, i + 1 + k = i + (k + 1) := fun k => by omega
  refine ⟨fun fuel enough => ?_, ?_, fun x member => ?_, fun x member => ?_⟩
  · obtain ⟨fuel, rfl⟩ := Nat.exists_eq_succ_of_ne_zero (Nat.ne_of_gt (Nat.zero_lt_of_lt enough))
    have later := rest.returns fuel (Nat.lt_of_succ_lt_succ enough)
    rw [strcmp, toUInt32_ofNat, next_index, later]
    refine (if_pos (first.trans second.symm)).trans (if_neg ?_)
    rw [second]
    exact nonzero
  · rw [List.cons.injEq, and_iff_right rfl]
    exact rest.equal
  · rcases List.mem_cons.mp member with here | later
    · exact ⟨0, Nat.zero_le _, here⟩
    · obtain ⟨k, inside, place⟩ := rest.first x later
      rw [index] at place
      exact ⟨k + 1, Nat.succ_le_succ inside, place⟩
  · rcases List.mem_cons.mp member with here | member
    · exact ⟨0, Nat.zero_le _, here⟩
    · rcases List.mem_cons.mp member with again | later
      · exact ⟨0, Nat.zero_le _, again⟩
      · obtain ⟨k, inside, place⟩ := rest.second x later
        rw [index] at place
        exact ⟨k + 1, Nat.succ_le_succ inside, place⟩

/-- The comparison of two strings ends, and nothing behind a terminator is read. -/
theorem strcmp_compares (first : HoldsString (m.view (s₁ + UInt32.ofNat i)) s)
    (second : HoldsString (m.view (s₂ + UInt32.ofNat i)) t) : ∃ r, Compares m s₁ s₂ s t i r := by
  induction s generalizing t i with
  | nil =>
      rw [holdsString_view_nil] at first
      cases t with
      | nil => exact ⟨_, compares_end first (holdsString_view_nil.mp second)⟩
      | cons d ds =>
          obtain ⟨byte, nonzero, _⟩ := holdsString_view_cons.mp second
          refine ⟨_, compares_differ ?_ (List.cons_ne_nil d ds).symm⟩
          rw [first, byte]
          exact nonzero.symm
  | cons c cs ih =>
      obtain ⟨byte, nonzero, rest⟩ := holdsString_view_cons.mp first
      cases t with
      | nil =>
          refine ⟨_, compares_differ ?_ (List.cons_ne_nil c cs)⟩
          rw [byte, holdsString_view_nil.mp second]
          exact nonzero
      | cons d ds =>
          obtain ⟨byte', _, rest'⟩ := holdsString_view_cons.mp second
          by_cases same : c = d
          · subst same
            rw [← Mem.next_address] at rest rest'
            obtain ⟨r, later⟩ := ih rest rest'
            exact ⟨_, later.behind nonzero byte byte'⟩
          · refine ⟨_, compares_differ ?_ fun equal => same (List.cons.inj equal).1⟩
            rw [byte, byte']
            exact same

theorem compares_strings (first : HoldsString (m.view s₁) s) (second : HoldsString (m.view s₂) t) :
    ∃ r, Compares m s₁ s₂ s t 0 r := by
  have start : ∀ a : UInt32, a + UInt32.ofNat 0 = a := UInt32.add_zero
  apply strcmp_compares
  · rw [start]
    exact first
  · rw [start]
    exact second

end Comparing

section Copying

variable {m : Mem} {dst src : UInt32} {s : List UInt8}

/-- The loop stores the string with its terminator and counts its bytes. -/
theorem strcpy_writes (holds : HoldsString (m.view src) s) (apart : Apart dst src (s.length + 1))
    {fuel : Nat} (enough : s.length < fuel) (i : Nat) :
    strcpy fuel m dst src (Int32.ofNat i) =
      some (Int32.ofNat (i + s.length), m.write dst (s ++ [0])) := by
  obtain ⟨fuel, rfl⟩ := Nat.exists_eq_succ_of_ne_zero (Nat.ne_of_gt (Nat.zero_lt_of_lt enough))
  induction s generalizing m dst src i fuel with
  | nil =>
      have nul := holdsString_view_nil.mp holds
      rw [strcpy, nul]
      exact if_neg (not_not.mpr rfl)
  | cons c cs ih =>
      obtain ⟨byte, nonzero, rest⟩ := holdsString_view_cons.mp holds
      have kept : HoldsString ((m.set dst c).view (src + 1)) cs := by
        refine rest.congr fun k inside => ?_
        have place : src + 1 + UInt32.ofNat k ≠ dst := by
          intro same
          rw [← Mem.next_pointer] at same
          apply apart 0 (k + 1) (Nat.succ_pos _) (Nat.succ_lt_succ (Nat.lt_succ_of_le inside))
          rw [same]
          exact UInt32.add_zero dst
        exact if_neg place
      have later := Nat.lt_of_succ_lt_succ enough
      obtain ⟨fuel, rfl⟩ := Nat.exists_eq_succ_of_ne_zero (Nat.ne_of_gt (Nat.zero_lt_of_lt later))
      have copied := ih kept apart.next (i + 1) fuel later
      rw [strcpy, byte, next_index]
      refine (if_pos nonzero).trans (copied.trans ?_)
      rw [List.length_cons, Nat.add_assoc, Nat.add_comm 1]
      rfl

/-- The copy stores the bytes that the copy out of an object stores. -/
theorem strcpy_view (holds : HoldsString (m.view src) s) (apart : Apart dst src (s.length + 1))
    {fuel : Nat} (enough : s.length < fuel) : strcpy fuel m dst src 0 =
      (VDK.strcpy fuel (m.view src)).map fun bs =>
        (Int32.ofNat (bs.length - 1), m.write dst bs) := by
  rw [strcpy_holds holds enough, Option.map_some, List.length_append, List.length_singleton,
    Nat.add_sub_cancel]
  have copied := strcpy_writes holds apart enough 0
  rw [Nat.zero_add] at copied
  exact copied

structure Copies (m : Mem) (dst src : UInt32) (s : List UInt8) (m' : Mem) : Prop where
  returns : ∀ fuel, s.length < fuel → ∃ n, strcpy fuel m dst src 0 = some (n, m') ∧
    n.toInt = s.length
  copied : HoldsString (m'.view dst) s
  outside : ∀ x, (∀ k, k ≤ s.length → x ≠ dst + UInt32.ofNat k) → m' x = m x
  equal : ∃ r, Compares m' dst src s s 0 r ∧ r.result = 0

theorem strcpy_copies (holds : HoldsString (m.view src) s) (apart : Apart dst src (s.length + 1)) :
    Copies m dst src s (m.write dst (s ++ [0])) := by
  have short := apart.short
  have length : (s ++ [0]).length = s.length + 1 := List.length_append
  have outside : ∀ x, (∀ k, k ≤ s.length → x ≠ dst + UInt32.ofNat k) →
      m.write dst (s ++ [0]) x = m x := fun x apart' =>
    m.write_outside (by omega) fun k less => apart' k (by omega)
  have copied : HoldsString ((m.write dst (s ++ [0])).view dst) s := by
    refine (holdsString_getD holds.noNul).congr fun k inside => ?_
    rw [Mem.view_write m dst _ (by omega) k (by omega)]
    rcases Nat.lt_or_eq_of_le inside with byte | rfl
    · rw [List.getElem?_append_left byte, List.getElem?_eq_getElem byte, Option.getD_some]
      exact (List.getD_eq_getElem _ _ byte).symm
    · rw [List.getElem?_concat_length, Option.getD_some]
      exact (List.getD_eq_default _ _ (Nat.le_refl _)).symm
  have source : HoldsString ((m.write dst (s ++ [0])).view src) s := by
    refine holds.congr fun k inside => outside _ fun j less same => ?_
    exact apart j k (Nat.lt_succ_of_le less) (Nat.lt_succ_of_le inside) same.symm
  refine ⟨fun fuel enough => ⟨Int32.ofNat s.length, ?_, Int32.toInt_ofNat_of_lt (by omega)⟩, copied,
    outside, ?_⟩
  · have written := strcpy_writes holds apart enough 0
    rw [Nat.zero_add] at written
    exact written
  · obtain ⟨r, compares⟩ := compares_strings copied source
    exact ⟨r, compares, compares.equal.mpr rfl⟩

end Copying

/-- Two strings compare as equal if and only if they are the same, nothing behind a
terminator is read, and a copy to another place is equal to its source. -/
theorem strings_compare_and_copy {m : Mem} {a b : UInt32} {s t : List UInt8}
    (first : HoldsString (m.view a) s) (second : HoldsString (m.view b) t) :
    (∃ r, Compares m a b s t 0 r) ∧
      ∀ dst, Apart dst b (t.length + 1) → ∃ m', Copies m dst b t m' := by
  exact ⟨compares_strings first second, fun dst apart => ⟨_, strcpy_copies second apart⟩⟩

section Example

def twoStrings : Mem := (Mem.write (fun _ => 0) 0x1000 [0x6C, 0x73]).write 0x2000 [0x6C, 0x73, 0x64]

theorem strings_compare_and_copy_ls :
    (∃ r, Compares twoStrings 0x1000 0x2000 [0x6C, 0x73] [0x6C, 0x73, 0x64] 0 r) ∧
      ∃ m', Copies twoStrings 0x3000 0x2000 [0x6C, 0x73, 0x64] m' := by
  have agree := strings_compare_and_copy (m := twoStrings) (a := 0x1000) (b := 0x2000)
    (s := [0x6C, 0x73]) (t := [0x6C, 0x73, 0x64]) (by decide) (by decide)
  refine ⟨agree.1, agree.2 0x3000 fun j k first second => ?_⟩
  have all : ∀ j < 4, ∀ k < 4, (0x3000 : UInt32) + UInt32.ofNat j ≠ 0x2000 + UInt32.ofNat k := by
    decide
  exact all j first k second

end Example

end VDK.InMemory
