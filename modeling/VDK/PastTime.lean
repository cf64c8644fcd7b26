import Mathlib.Data.List.Basic

/-!
# Past-time operators on finite histories

`Since begins holds h` says that some event of `h` began something which every later
event of `h` let hold; both predicates see the history before the event.
-/
namespace PastTime

variable {α : Type} {begins holds : List α → α → Prop}

def Since (begins holds : List α → α → Prop) (h : List α) : Prop :=
  ∃ a x b, h = a ++ x :: b ∧ begins a x ∧ ∀ c y d, b = c ++ y :: d → holds (a ++ x :: c) y

theorem not_since_nil : ¬ Since begins holds ([] : List α) := by
  rintro ⟨a, x, b, split, _⟩
  cases a with
  | nil => cases split
  | cons y a => cases split

theorem since_snoc (h : List α) (y : α) :
    Since begins holds (h ++ [y]) ↔ begins h y ∨ (Since begins holds h ∧ holds h y) := by
  constructor
  · rintro ⟨a, x, b, split, began, held⟩
    rcases List.eq_nil_or_concat' b with rfl | ⟨c, z, rfl⟩
    · obtain ⟨rfl, last⟩ := List.append_inj' split rfl
      cases last
      exact Or.inl began
    · rw [← List.cons_append, ← List.append_assoc] at split
      obtain ⟨rfl, last⟩ := List.append_inj' split rfl
      cases last
      refine Or.inr ⟨⟨a, x, c, rfl, began, ?_⟩, held c y [] rfl⟩
      intro d w e inside
      exact held d w (e ++ [y]) (by rw [inside, List.append_assoc, List.cons_append])
  · rintro (began | ⟨⟨a, x, b, rfl, began, held⟩, now⟩)
    · exact ⟨h, y, [], rfl, began, fun c z d none => by cases c <;> cases none⟩
    · refine ⟨a, x, b ++ [y], by rw [List.append_assoc, List.cons_append], began, ?_⟩
      intro c z d inside
      rcases List.eq_nil_or_concat' d with rfl | ⟨e, w, rfl⟩
      · obtain ⟨rfl, last⟩ := List.append_inj' inside rfl
        cases last
        exact now
      · rw [← List.cons_append, ← List.append_assoc] at inside
        obtain ⟨rfl, last⟩ := List.append_inj' inside rfl
        exact held c z e rfl

end PastTime
