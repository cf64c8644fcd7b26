import Mathlib.Tactic.Common

/-!
# Loops that test at the end

`doWhile` runs a loop on fuel; `Passes` describes the same loop without fuel, by the
states it reaches before its test. A loop that does not return has passes of every number.
-/
namespace DoWhile

variable {α : Type}

/-- `do s = body(s); while (go(s));`, with fuel for `n` passes. -/
def doWhile (body : α → α) (go : α → Bool) : Nat → α → Option α
  | 0, _ => none
  | n + 1, s => if go (body s) then doWhile body go n (body s) else some (body s)

/-- The loop started in `s` has made `n` passes and is about to test `t`. -/
inductive Passes (body : α → α) (go : α → Bool) (s : α) : Nat → α → Prop
  | first : Passes body go s 1 (body s)
  | again {n : Nat} {t : α} (earlier : Passes body go s n t) (goes : go t = true) :
      Passes body go s (n + 1) (body t)

variable {body : α → α} {go : α → Bool} {s t : α} {n : Nat}

theorem Passes.cons (goes : go (body s) = true) (later : Passes body go (body s) n t) :
    Passes body go s (n + 1) t := by
  induction later with
  | first => exact .again .first goes
  | again _ here ih => exact .again ih here

theorem Passes.tail (passes : Passes body go s n t) :
    (n = 1 ∧ t = body s) ∨
      ∃ m, n = m + 1 ∧ go (body s) = true ∧ Passes body go (body s) m t := by
  induction passes with
  | first => exact .inl ⟨rfl, rfl⟩
  | @again n t _ goes ih =>
      right
      rcases ih with ⟨rfl, rfl⟩ | ⟨m, rfl, early, later⟩
      · exact ⟨1, rfl, goes, .first⟩
      · exact ⟨m + 1, rfl, early, .again later goes⟩

theorem Passes.pos (passes : Passes body go s n t) : 0 < n := by
  cases passes with
  | first => exact Nat.one_pos
  | again _ _ => exact Nat.succ_pos _

theorem Passes.invariant {I : α → Prop} (start : I s)
    (step : ∀ u, I u → go (body u) = true → I (body u)) (passes : Passes body go s n t) :
    ∃ u, I u ∧ t = body u := by
  induction passes with
  | first => exact ⟨s, start, rfl⟩
  | again _ goes ih =>
      obtain ⟨u, before, rfl⟩ := ih
      exact ⟨body u, step u before goes, rfl⟩

/-- The loop returns what its last pass leaves. -/
theorem doWhile_eq_some_iff : doWhile body go n s = some t ↔
    ∃ k, k ≤ n ∧ Passes body go s k t ∧ go t = false := by
  induction n generalizing s with
  | zero =>
      constructor
      · exact fun absent => nomatch absent
      · rintro ⟨k, none, passes, _⟩
        exact absurd passes.pos (Nat.not_lt.mpr none)
  | succ n ih =>
      rw [doWhile]
      by_cases goes : go (body s) = true
      · rw [if_pos goes, ih]
        constructor
        · rintro ⟨k, enough, later, ends⟩
          exact ⟨k + 1, Nat.succ_le_succ enough, later.cons goes, ends⟩
        · rintro ⟨k, enough, passes, ends⟩
          rcases passes.tail with ⟨_, rfl⟩ | ⟨m, rfl, _, later⟩
          · rw [goes] at ends
            exact nomatch ends
          · exact ⟨m, Nat.le_of_succ_le_succ enough, later, ends⟩
      · rw [if_neg goes]
        constructor
        · intro same
          rw [← Option.some.inj same]
          exact ⟨1, Nat.succ_le_succ (Nat.zero_le n), .first, eq_false_of_ne_true goes⟩
        · rintro ⟨k, _, passes, _⟩
          rcases passes.tail with ⟨_, rfl⟩ | ⟨_, _, early, _⟩
          · rfl
          · exact absurd early goes

end DoWhile
