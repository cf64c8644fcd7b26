import Mathlib.Tactic.Common

/-!
# Pages of rows of bounded width

An unbounded sequence is cut into rows: a row ends at each breaking element, which is
dropped, and right after its last place. A window shows the last `H` rows from the
top, and `glyph` is what stands at a place of it.
-/
namespace LineLog

variable {α : Type}

/-- The rows that have ended, and the row that has not. -/
structure Page (α : Type) where
  done : List (List α)
  last : List α

namespace Page

def blank : Page α := ⟨[], []⟩

def rows (p : Page α) : List (List α) := p.done ++ [p.last]

def turn (p : Page α) : Page α := ⟨p.done ++ [p.last], []⟩

def extend (p : Page α) (c : α) : Page α := ⟨p.done, p.last ++ [c]⟩

/-- What a window of `H` rows shows in row `y`, place `x`. -/
def glyph (H : Nat) (p : Page α) (y x : Nat) : Option α :=
  ((p.rows.drop (p.rows.length - H))[y]?).bind fun row => row[x]?

section Put

variable (W : Nat) (breaks : α → Prop) [DecidablePred breaks]

def put (p : Page α) (c : α) : Page α :=
  if breaks c then p.turn
  else if p.last.length + 1 = W then (p.extend c).turn
  else p.extend c

/-- The page of a whole sequence. -/
def cut (cs : List α) : Page α := cs.foldl (put W breaks) blank

end Put

@[simp] theorem length_rows (p : Page α) : p.rows.length = p.done.length + 1 := by
  simp [rows]

@[simp] theorem length_rows_turn (p : Page α) : p.turn.rows.length = p.rows.length + 1 := by
  simp [turn]

@[simp] theorem length_rows_extend (p : Page α) (c : α) :
    (p.extend c).rows.length = p.rows.length := by
  simp [extend]

theorem glyph_eq (H : Nat) (p : Page α) (y x : Nat) :
    p.glyph H y x = (p.rows[p.rows.length - H + y]?).bind fun row => row[x]? := by
  rw [glyph, List.getElem?_drop]

/-- The row being written stands at the end of the rows and at `min n H - 1` in the window. -/
theorem glyph_extend {H : Nat} (p : Page α) (c : α) {y : Nat} (x : Nat) (hy : y < H) :
    (p.extend c).glyph H y x =
      if y = min p.rows.length H - 1 ∧ x = p.last.length then some c else p.glyph H y x := by
  have before : p.rows = p.done ++ [p.last] := rfl
  have after : (p.extend c).rows = p.done ++ [p.last ++ [c]] := rfl
  rw [glyph_eq, glyph_eq, length_rows_extend, length_rows, before, after]
  by_cases here : y = min (p.done.length + 1) H - 1
  · have index : p.done.length + 1 - H + y = p.done.length := by omega
    rw [index, List.getElem?_append_right (Nat.le_refl _),
      List.getElem?_append_right (Nat.le_refl _), Nat.sub_self]
    simp only [List.getElem?_cons_zero, Option.bind_some, here, true_and]
    by_cases place : x = p.last.length
    · rw [if_pos place, place, List.getElem?_append_right (Nat.le_refl _), Nat.sub_self]
      rfl
    · rw [if_neg place, List.getElem?_append]
      split
      · rfl
      · rw [List.getElem?_eq_none (by simp only [List.length_singleton]; omega),
          List.getElem?_eq_none (by omega)]
  · rw [if_neg fun both => here both.1]
    rcases Nat.lt_or_ge (p.done.length + 1 - H + y) p.done.length with above | below
    · rw [List.getElem?_append_left above, List.getElem?_append_left above]
    · rw [List.getElem?_eq_none (by simp only [List.length_append, List.length_singleton]; omega),
        List.getElem?_eq_none (by simp only [List.length_append, List.length_singleton]; omega)]

/-- While the window has room, a new row shows nothing. -/
theorem glyph_turn_of_lt {H : Nat} (p : Page α) (y x : Nat) (room : p.rows.length < H) :
    p.turn.glyph H y x = p.glyph H y x := by
  rw [glyph_eq, glyph_eq, length_rows_turn, Nat.sub_eq_zero_of_le (by omega),
    Nat.sub_eq_zero_of_le (by omega), Nat.zero_add]
  have tail : p.turn.rows = p.rows ++ [[]] := rfl
  rw [tail, List.getElem?_append]
  split
  · rfl
  · rename_i beyond
    rw [List.getElem?_eq_none (Nat.le_of_not_lt beyond)]
    cases y - p.rows.length with
    | zero => rfl
    | succ n => rfl

/-- In a full window a new row moves the others up by one. -/
theorem glyph_turn_of_le {H : Nat} (p : Page α) {y : Nat} (x : Nat) (hy : y < H)
    (full : H ≤ p.rows.length) :
    p.turn.glyph H y x = if y + 1 < H then p.glyph H (y + 1) x else none := by
  have tail : p.turn.rows = p.rows ++ [[]] := rfl
  rw [glyph_eq, glyph_eq, length_rows_turn, tail]
  by_cases inside : y + 1 < H
  · have index : p.rows.length + 1 - H + y = p.rows.length - H + (y + 1) := by omega
    rw [if_pos inside, index, List.getElem?_append_left (by omega)]
  · have index : p.rows.length + 1 - H + y = p.rows.length := by omega
    rw [if_neg inside, index, List.getElem?_append_right (Nat.le_refl _), Nat.sub_self]
    rfl

end Page

end LineLog
