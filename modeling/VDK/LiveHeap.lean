import Mathlib.Logic.Function.Basic
import Mathlib.Data.List.Nodup

/-!
# Heaps that say what is live

A block is live from its allocation until its release. Releasing a list of addresses
tells for each one whether a block was live there at that moment.
-/
namespace LiveHeap

variable {A B : Type} [DecidableEq A]

/-- The block that is live at an address, if there is one. -/
abbrev Heap (A B : Type) := A → Option B

def Live (h : Heap A B) (p : A) : Prop := h p ≠ none

def alloc (p : A) (b : B) (h : Heap A B) : Heap A B := Function.update h p (some b)

def release (p : A) (h : Heap A B) : Heap A B := Function.update h p none

/-- Releases one after the other, with what each one found. -/
def releaseAll : List A → Heap A B → Heap A B × List (A × Bool)
  | [], h => (h, [])
  | p :: ps, h =>
      let rest := releaseAll ps (release p h)
      (rest.1, (p, (h p).isSome) :: rest.2)

theorem live_alloc (p : A) (b : B) (h : Heap A B) (q : A) :
    Live (alloc p b h) q ↔ q = p ∨ Live h q := by
  unfold Live alloc
  by_cases same : q = p
  · rw [same, Function.update_self]
    simp only [ne_eq, reduceCtorEq, not_false_eq_true, true_or]
  · rw [Function.update_of_ne same]
    simp only [same, false_or]

theorem live_release (p : A) (h : Heap A B) (q : A) :
    Live (release p h) q ↔ q ≠ p ∧ Live h q := by
  unfold Live release
  by_cases same : q = p
  · rw [same, Function.update_self]
    simp only [ne_eq, not_true_eq_false, false_and]
  · rw [Function.update_of_ne same]
    simp only [same, ne_eq, not_false_eq_true, true_and]

/-- Nothing that was released is live behind the last release, and nothing else is lost. -/
theorem live_releaseAll (ps : List A) (h : Heap A B) (q : A) :
    Live (releaseAll ps h).1 q ↔ q ∉ ps ∧ Live h q := by
  induction ps generalizing h with
  | nil => simp only [releaseAll, List.not_mem_nil, not_false_eq_true, true_and]
  | cons p ps ih =>
      rw [releaseAll, ih, live_release, List.mem_cons, not_or]
      constructor
      · rintro ⟨behind, apart, live⟩
        exact ⟨⟨apart, behind⟩, live⟩
      · rintro ⟨⟨apart, behind⟩, live⟩
        exact ⟨behind, apart, live⟩

/-- Every release finds a live block if and only if all addresses are live and none of them
is released twice. -/
theorem releaseAll_live_iff (ps : List A) (h : Heap A B) :
    (∀ r ∈ (releaseAll ps h).2, r.2 = true) ↔ ps.Nodup ∧ ∀ p ∈ ps, Live h p := by
  induction ps generalizing h with
  | nil => simp only [releaseAll, List.not_mem_nil, false_implies, implies_true, List.nodup_nil,
      and_self]
  | cons p ps ih =>
      rw [releaseAll, List.forall_mem_cons, ih, List.nodup_cons, List.forall_mem_cons]
      have here : (h p).isSome = true ↔ Live h p := Option.isSome_iff_ne_none
      constructor
      · rintro ⟨live, once, later⟩
        refine ⟨⟨fun again => ?_, once⟩, here.mp live, fun q member => ?_⟩
        · exact ((live_release p h p).mp (later p again)).1 rfl
        · exact ((live_release p h q).mp (later q member)).2
      · rintro ⟨⟨apart, once⟩, live, later⟩
        refine ⟨here.mpr live, once, fun q member => (live_release p h q).mpr ⟨?_, later q member⟩⟩
        intro same
        exact apart (same ▸ member)

end LiveHeap
