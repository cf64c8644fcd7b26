import Mathlib.Tactic.Common
import Mathlib.Logic.Function.Basic

/-!
# First-fit slot tables

A fixed number of slots is searched from the front, both to find a key and to
find a free slot. Nothing is ever removed, so the table holds the first `n` entries
that were ever stored, and a lookup answers with the first of them under its key.
-/
namespace FirstFit

variable {α κ : Type}

/-- The first index below `n` that satisfies `p`. -/
def firstIndex (p : Nat → Bool) (n : Nat) : Option Nat := (List.range n).find? p

theorem firstIndex_eq_some {p : Nat → Bool} {n i : Nat} :
    firstIndex p n = some i ↔ i < n ∧ p i = true ∧ ∀ j, j < i → p j = false := by
  rw [firstIndex, List.find?_range_eq_some]
  simp only [List.mem_range, Bool.not_eq_true']
  constructor
  · rintro ⟨found, bound, before⟩
    exact ⟨bound, found, before⟩
  · rintro ⟨bound, found, before⟩
    exact ⟨found, bound, before⟩

theorem firstIndex_eq_none {p : Nat → Bool} {n : Nat} :
    firstIndex p n = none ↔ ∀ i, i < n → p i = false := by
  rw [firstIndex, List.find?_range_eq_none]
  simp only [Bool.not_eq_true']

theorem firstIndex_congr {p q : Nat → Bool} {n : Nat} (same : ∀ i, i < n → p i = q i) :
    firstIndex p n = firstIndex q n := by
  cases h : firstIndex q n with
  | none =>
      rw [firstIndex_eq_none] at h ⊢
      intro i hi
      rw [same i hi, h i hi]
  | some i =>
      rw [firstIndex_eq_some] at h ⊢
      obtain ⟨bound, found, before⟩ := h
      refine ⟨bound, (same i bound).trans found, ?_⟩
      intro j hj
      rw [same j (Nat.lt_trans hj bound), before j hj]

/-- Store `x` in the first free slot; a table without one stays as it is. -/
def place (free : Nat → Bool) (n : Nat) (slots : Nat → α) (x : α) : Nat → α :=
  match firstIndex free n with
  | some i => Function.update slots i x
  | none => slots

theorem place_some {free : Nat → Bool} {n i : Nat} (h : firstIndex free n = some i)
    (slots : Nat → α) (x : α) : place free n slots x = Function.update slots i x := by
  rw [place, h]

theorem place_none {free : Nat → Bool} {n : Nat} (h : firstIndex free n = none)
    (slots : Nat → α) (x : α) : place free n slots x = slots := by
  rw [place, h]

theorem place_apply (free : Nat → Bool) (n : Nat) (slots : Nat → α) (x : α) (j : Nat) :
    place free n slots x j = slots j ∨ place free n slots x j = x := by
  cases h : firstIndex free n with
  | none => exact Or.inl (congrFun (place_none h slots x) j)
  | some i =>
      rw [place_some h]
      by_cases here : j = i
      · subst here
        exact Or.inr (Function.update_self ..)
      · exact Or.inl (Function.update_of_ne here ..)

/-- The entry in the first slot with key `k`; free slots have no key. -/
def lookup [DecidableEq κ] (key : α → Option κ) (n : Nat) (slots : Nat → α) (k : κ) : Option α :=
  (firstIndex (fun i => key (slots i) = some k) n).map slots

/-- A slot is free when its entry has no key. -/
def unused (key : α → Option κ) (slots : Nat → α) (i : Nat) : Bool := (key (slots i)).isNone

variable {key : α → Option κ} {n : Nat} {slots : Nat → α} {xs : List α} {x : α}

theorem unused_eq_true {i : Nat} : unused key slots i = true ↔ key (slots i) = none :=
  Option.isNone_iff_eq_none

/-- A slot that is used, with no free slot before it, is not written. -/
theorem place_keeps {i : Nat} (used : ∀ j, j ≤ i → key (slots j) ≠ none) (y : α) :
    place (unused key slots) n slots y i = slots i := by
  cases h : firstIndex (unused key slots) n with
  | none => exact congrFun (place_none h slots y) i
  | some m =>
      obtain ⟨_, free, _⟩ := firstIndex_eq_some.mp h
      rw [place_some h]
      by_cases here : i = m
      · exact absurd (unused_eq_true.mp free) (here ▸ used i (Nat.le_refl i))
      · exact Function.update_of_ne here y slots

/-- A slot that changed is the first free one: it holds the new entry, and the slots before
it are used and as they were. -/
theorem place_changed {i : Nat} {y : α}
    (changed : place (unused key slots) n slots y i ≠ slots i) :
    place (unused key slots) n slots y i = y ∧ ∀ j, j < i → key (slots j) ≠ none := by
  cases h : firstIndex (unused key slots) n with
  | none => exact absurd (congrFun (place_none h slots y) i) changed
  | some m =>
      obtain ⟨_, _, before⟩ := firstIndex_eq_some.mp h
      rw [place_some h] at changed ⊢
      by_cases here : i = m
      · subst here
        refine ⟨Function.update_self i y slots, fun j hj free => ?_⟩
        exact absurd (unused_eq_true.mpr free) (by rw [before j hj]; exact Bool.false_ne_true)
      · exact absurd (Function.update_of_ne here y slots) changed

/-- The table holds the first `n` of `xs` in order, and the slots behind them are free. -/
structure Stored (key : α → Option κ) (n : Nat) (xs : List α) (slots : Nat → α) : Prop where
  held : ∀ i, i < n → ∀ h : i < xs.length, slots i = xs[i]
  free : ∀ i, i < n → xs.length ≤ i → key (slots i) = none
  keyed : ∀ y ∈ xs, key y ≠ none

theorem Stored.nil (h : ∀ i, i < n → key (slots i) = none) : Stored key n [] slots :=
  ⟨fun _ _ h => absurd h (Nat.not_lt_zero _), fun i hi _ => h i hi, fun _ h => nomatch h⟩

theorem Stored.used_iff (stored : Stored key n xs slots) {i : Nat} (hi : i < n) :
    unused key slots i = false ↔ i < xs.length := by
  rw [unused, Option.isNone_eq_false_iff, Option.isSome_iff_ne_none]
  constructor
  · intro used
    by_contra late
    exact used (stored.free i hi (Nat.not_lt.mp late))
  · intro early
    rw [stored.held i hi early]
    exact stored.keyed _ (List.getElem_mem early)

/-- Only the first free slot is written. -/
theorem Stored.place_beyond (stored : Stored key n xs slots) (x : α) {j : Nat}
    (behind : xs.length < j) : FirstFit.place (unused key slots) n slots x j = slots j := by
  cases h : firstIndex (unused key slots) n with
  | none => exact congrFun (place_none h slots x) j
  | some m =>
      obtain ⟨hm, _, before⟩ := firstIndex_eq_some.mp h
      have early : m ≤ xs.length := by
        by_contra late
        have used := (stored.used_iff (by omega)).mp (before xs.length (Nat.lt_of_not_le late))
        exact Nat.lt_irrefl _ used
      rw [place_some h, Function.update_of_ne (by omega)]

/-- Storing one more entry, in the next slot or not at all. -/
theorem Stored.place (stored : Stored key n xs slots) (own : key x ≠ none) :
    Stored key n (xs ++ [x]) (place (unused key slots) n slots x) := by
  have keyed : ∀ y ∈ xs ++ [x], key y ≠ none := by
    intro y member
    rcases List.mem_append.mp member with old | new
    · exact stored.keyed y old
    · rw [List.mem_singleton.mp new]
      exact own
  by_cases room : xs.length < n
  · have next : firstIndex (unused key slots) n = some xs.length := by
      refine firstIndex_eq_some.mpr ⟨room, ?_, fun j hj => ?_⟩
      · rw [unused, stored.free _ room (Nat.le_refl _)]
        rfl
      · exact (stored.used_iff (Nat.lt_trans hj room)).mpr hj
    rw [place_some next]
    refine ⟨fun i hi h => ?_, fun i hi h => ?_, keyed⟩
    · by_cases last : i = xs.length
      · subst last
        simp
      · have early : i < xs.length := by
          simp only [List.length_append, List.length_singleton] at h
          omega
        rw [Function.update_of_ne last, List.getElem_append_left early, stored.held i hi early]
    · simp only [List.length_append, List.length_singleton] at h
      rw [Function.update_of_ne (by omega)]
      exact stored.free i hi (by omega)
  · have full : firstIndex (unused key slots) n = none := by
      refine firstIndex_eq_none.mpr fun i hi => (stored.used_iff hi).mpr (by omega)
    rw [place_none full]
    refine ⟨fun i hi _ => ?_, fun i hi h => ?_, keyed⟩
    · rw [List.getElem_append_left (by omega)]
      exact stored.held i hi (by omega)
    · simp only [List.length_append, List.length_singleton] at h
      exact absurd hi (by omega)

variable [DecidableEq κ]

theorem lookup_eq_some {i : Nat} {k : κ} (hi : i < n) (own : key (slots i) = some k)
    (before : ∀ j, j < i → key (slots j) ≠ some k) : lookup key n slots k = some (slots i) := by
  have found : firstIndex (fun j => key (slots j) = some k) n = some i :=
    firstIndex_eq_some.mpr ⟨hi, decide_eq_true own, fun j hj => decide_eq_false (before j hj)⟩
  rw [lookup, found, Option.map_some]

/-- The entry that answers for `k` among those stored. -/
def answer (key : α → Option κ) (n : Nat) (xs : List α) (k : κ) : Option α :=
  (xs.take n).find? fun x => key x = some k

/-- A lookup sees the stored entries and nothing else. -/
theorem Stored.lookup (stored : Stored key n xs slots) (k : κ) :
    lookup key n slots k = answer key n xs k := by
  have listed : (List.range n).map slots =
      xs.take n ++ ((List.range n).map slots).drop (xs.take n).length := by
    refine (List.take_append_drop (xs.take n).length _).symm.trans ?_
    congr 1
    apply List.ext_getElem
    · simp
    · intro i hi hj
      have bounds := hj
      simp only [List.length_take, Nat.lt_min] at bounds
      simp only [List.getElem_take, List.getElem_map, List.getElem_range]
      exact stored.held i bounds.1 bounds.2
  have behind : (((List.range n).map slots).drop (xs.take n).length).find?
      (fun x => decide (key x = some k)) = none := by
    rw [List.find?_eq_none]
    intro y member
    obtain ⟨i, hi, rfl⟩ := List.mem_iff_getElem.mp member
    simp only [List.length_drop, List.length_map, List.length_range, List.length_take] at hi
    simp only [List.getElem_drop, List.getElem_map, List.getElem_range, List.length_take]
    rw [stored.free _ (by omega) (by omega)]
    simp
  have mapped : FirstFit.lookup key n slots k =
      ((List.range n).map slots).find? fun x => key x = some k := by
    rw [FirstFit.lookup, firstIndex, List.find?_map]
    rfl
  rw [mapped, listed, List.find?_append, behind, Option.or_none, answer]

theorem answer_append (key : α → Option κ) (n : Nat) (xs : List α) (x : α) (k : κ) :
    answer key n (xs ++ [x]) k =
      (answer key n xs k).or (([x].take (n - xs.length)).find? fun x => key x = some k) := by
  rw [answer, List.take_append, List.find?_append, answer]

/-- Entries with another key do not disturb an answer. -/
theorem answer_other {k : κ} (other : key x ≠ some k) :
    answer key n (xs ++ [x]) k = answer key n xs k := by
  have none : ([x].take (n - xs.length)).find? (fun x => decide (key x = some k)) = none := by
    rw [List.find?_eq_none]
    intro y member
    rw [List.mem_singleton.mp (List.mem_of_mem_take member)]
    simpa using other
  rw [answer_append, none, Option.or_none]

theorem answer_mem {k : κ} {y : α} (h : answer key n xs k = some y) :
    y ∈ xs.take n ∧ key y = some k :=
  ⟨List.mem_of_find?_eq_some h, by simpa using List.find?_some h⟩

/-- Entries with one key are equal, and all of them lie among the first `n`. -/
def Consistent (key : α → Option κ) (n : Nat) (xs : List α) : Prop :=
  (∀ x ∈ xs, ∀ y ∈ xs, key x = key y → x = y) ∧ ∀ x ∈ xs, x ∈ xs.take n

omit [DecidableEq κ] in
theorem Consistent.init (h : Consistent key n (xs ++ [x])) : Consistent key n xs := by
  refine ⟨fun y hy z hz => h.1 y (List.mem_append_left _ hy) z (List.mem_append_left _ hz), ?_⟩
  intro y hy
  have early := h.2 y (List.mem_append_left _ hy)
  by_cases short : xs.length ≤ n
  · rwa [List.take_of_length_le short]
  · rwa [List.take_append_of_le_length (by omega)] at early

/-- In a consistent list every entry answers for its key. -/
theorem Consistent.answer (h : Consistent key n xs) {k : κ} (member : x ∈ xs)
    (own : key x = some k) : answer key n xs k = some x := by
  cases found : FirstFit.answer key n xs k with
  | none =>
      have absent := List.find?_eq_none.mp found x (h.2 x member)
      simp [own] at absent
  | some y =>
      obtain ⟨early, same⟩ := answer_mem found
      rw [h.1 y (List.mem_of_mem_take early) x member (same.trans own.symm)]

/-- One more entry answers for its key exactly when the longer list is consistent. -/
theorem Consistent.answer_iff (h : Consistent key n xs) {k : κ} (own : key x = some k) :
    FirstFit.answer key n (xs ++ [x]) k = some x ↔ Consistent key n (xs ++ [x]) := by
  constructor
  · intro found
    have older : ∀ y ∈ xs, key y = key x → y = x := by
      intro y hy same
      have kept := h.answer hy (same.trans own)
      rw [answer_append, kept, Option.some_or] at found
      exact Option.some.inj found
    constructor
    · intro y hy z hz same
      rcases List.mem_append.mp hy with oldy | newy
      · rcases List.mem_append.mp hz with oldz | newz
        · exact h.1 y oldy z oldz same
        · rw [List.mem_singleton] at newz
          subst newz
          exact older y oldy same
      · rw [List.mem_singleton] at newy
        subst newy
        rcases List.mem_append.mp hz with oldz | newz
        · exact (older z oldz same.symm).symm
        · exact (List.mem_singleton.mp newz).symm
    · intro y hy
      rcases List.mem_append.mp hy with old | new
      · have early := h.2 y old
        rw [List.take_append]
        exact List.mem_append_left _ early
      · rw [List.mem_singleton.mp new]
        exact (answer_mem found).1
  · intro longer
    exact longer.answer (List.mem_append_right _ (List.mem_singleton_self x)) own

end FirstFit
