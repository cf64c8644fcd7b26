import Mathlib.Tactic.Common
import Mathlib.Order.Defs.Unbundled

/-!
# State computations that may run out of fuel

A computation passes a state on and either returns a value or stops for lack of
fuel. The state reached is kept in both cases, so a run that never returns still
has a history. `Keeps` relates every start to every state reached, `Yields` is
partial correctness, and `Settles` is total correctness of a family indexed by
fuel: every large enough fuel gives the same value and the same final state.
-/
namespace Fuel

/-- A computation on `S` with result `α`; `none` means that fuel ran out. -/
structure Exec (S α : Type) where
  run : S → Option α × S

namespace Exec

variable {S T α β γ : Type}

/-- Continue with the value, if there is one. -/
def andThen (r : Option α × S) (f : α → Exec S β) : Option β × S :=
  match r with
  | (some a, t) => (f a).run t
  | (none, t) => (none, t)

instance : Monad (Exec S) where
  pure a := ⟨fun s => (some a, s)⟩
  bind c f := ⟨fun s => andThen (c.run s) f⟩

/-- Read the whole state. -/
def get : Exec S S := ⟨fun s => (some s, s)⟩

/-- Replace the state by a function of it. -/
def modify (g : S → S) : Exec S Unit := ⟨fun s => (some (), g s)⟩

/-- A total step that returns a value. -/
def act (g : S → α × S) : Exec S α := ⟨fun s => (some (g s).1, (g s).2)⟩

/-- Out of fuel, in the state reached. -/
def stop : Exec S α := ⟨fun s => (none, s)⟩

/-- Run a computation on a part of the state. -/
def within (part : S → T) (put : T → S → S) (c : Exec T α) : Exec S α :=
  ⟨fun s => ((c.run (part s)).1, put (c.run (part s)).2 s)⟩

@[ext] theorem ext {c d : Exec S α} (h : ∀ s, c.run s = d.run s) : c = d := by
  cases c
  cases d
  exact congrArg Exec.mk (funext h)

@[simp] theorem andThen_some (a : α) (t : S) (f : α → Exec S β) :
    andThen (some a, t) f = (f a).run t := rfl

@[simp] theorem andThen_none (t : S) (f : α → Exec S β) : andThen (none, t) f = (none, t) := rfl

@[simp] theorem run_pure (a : α) (s : S) : (pure a : Exec S α).run s = (some a, s) := rfl

@[simp] theorem run_bind (c : Exec S α) (f : α → Exec S β) (s : S) :
    (c >>= f).run s = andThen (c.run s) f := rfl

@[simp] theorem run_stop (s : S) : (stop : Exec S α).run s = (none, s) := rfl

@[simp] theorem run_get (s : S) : (get : Exec S S).run s = (some s, s) := rfl

@[simp] theorem run_modify (g : S → S) (s : S) : (modify g).run s = (some (), g s) := rfl

@[simp] theorem run_act (g : S → α × S) (s : S) :
    (act g).run s = (some (g s).1, (g s).2) := rfl

/-- The two ways a sequence can end. -/
theorem bind_cases (c : Exec S α) (f : α → Exec S β) (s : S) :
    (∃ a t, c.run s = (some a, t) ∧ (c >>= f).run s = (f a).run t) ∨
      (∃ t, c.run s = (none, t) ∧ (c >>= f).run s = (none, t)) := by
  rcases h : c.run s with ⟨a | a, t⟩
  · exact Or.inr ⟨t, rfl, by rw [run_bind, h, andThen_none]⟩
  · exact Or.inl ⟨a, t, rfl, by rw [run_bind, h, andThen_some]⟩

theorem bind_eq_some {c : Exec S α} {f : α → Exec S β} {s u : S} {b : β}
    (h : (c >>= f).run s = (some b, u)) :
    ∃ a t, c.run s = (some a, t) ∧ (f a).run t = (some b, u) := by
  rcases bind_cases c f s with ⟨a, t, hc, e⟩ | ⟨t, _, e⟩
  · exact ⟨a, t, hc, e.symm.trans h⟩
  · cases e.symm.trans h

theorem bind_pure_eq (c : Exec S α) : (c >>= fun a => pure a) = c := by
  ext1 s
  rcases bind_cases c (fun a => (pure a : Exec S α)) s with ⟨a, t, hc, e⟩ | ⟨t, hc, e⟩
  · rw [e, hc, run_pure]
  · rw [e, hc]

theorem bind_assoc_eq (c : Exec S α) (f : α → Exec S β) (g : β → Exec S γ) :
    c >>= f >>= g = c >>= fun a => f a >>= g := by
  ext1 s
  simp only [run_bind]
  rcases c.run s with ⟨a | a, t⟩
  · rfl
  · rfl

instance : LawfulMonad (Exec S) :=
  LawfulMonad.mk' (Exec S) bind_pure_eq (fun _ _ => rfl) bind_assoc_eq

end Exec

section Keeps

variable {S α β : Type} {R : S → S → Prop}

/-- Every run, finished or not, ends in a state related to its start. -/
def Keeps (R : S → S → Prop) (c : Exec S α) : Prop := ∀ s, R s (c.run s).2

theorem Keeps.modify {g : S → S} (h : ∀ s, R s (g s)) : Keeps R (Exec.modify g) := h

theorem Keeps.act {g : S → α × S} (h : ∀ s, R s (g s).2) : Keeps R (Exec.act g) := h

variable [IsPreorder S R]

theorem Keeps.pure (a : α) : Keeps R (Pure.pure a : Exec S α) := refl_of R

theorem Keeps.stop : Keeps R (Exec.stop : Exec S α) := refl_of R

theorem Keeps.get : Keeps R (Exec.get : Exec S S) := refl_of R

/-- The relation composes along a sequence, whether or not the first part returned. -/
theorem Keeps.bind {c : Exec S α} {f : α → Exec S β} (hc : Keeps R c)
    (hf : ∀ a, Keeps R (f a)) : Keeps R (c >>= f) := by
  intro s
  have first := hc s
  rcases Exec.bind_cases c f s with ⟨a, t, hs, e⟩ | ⟨t, hs, e⟩
  · rw [hs] at first
    rw [e]
    exact trans_of R first (hf a t)
  · rw [hs] at first
    rw [e]
    exact first

end Keeps

section Yields

variable {S α β : Type}

/-- Partial correctness from one start: whatever is returned satisfies `Q`. -/
def Yields (c : Exec S α) (s : S) (Q : α → S → Prop) : Prop :=
  ∀ a t, c.run s = (some a, t) → Q a t

theorem Yields.bind {c : Exec S α} {f : α → Exec S β} {s : S} {Q : β → S → Prop}
    (h : Yields c s (fun a t => Yields (f a) t Q)) : Yields (c >>= f) s Q := by
  intro b u e
  obtain ⟨a, t, hc, hf⟩ := Exec.bind_eq_some e
  exact h a t hc b u hf

theorem Yields.modify {g : S → S} {f : Unit → Exec S β} {s : S} {Q : β → S → Prop}
    (h : Yields (f ()) (g s) Q) : Yields (Exec.modify g >>= f) s Q := h

theorem Yields.act {g : S → α × S} {f : α → Exec S β} {s : S} {Q : β → S → Prop}
    (h : Yields (f (g s).1) (g s).2 Q) : Yields (Exec.act g >>= f) s Q := h

theorem Yields.pure {a : α} {s : S} {Q : α → S → Prop} (h : Q a s) :
    Yields (Pure.pure a : Exec S α) s Q := by
  intro b t e
  cases e
  exact h

theorem Yields.mono {c : Exec S α} {s : S} {P Q : α → S → Prop} (h : Yields c s P)
    (imp : ∀ a t, P a t → Q a t) : Yields c s Q :=
  fun a t e => imp a t (h a t e)

end Yields

section Returns

variable {S α β : Type}

/-- Total correctness from one start: a value is returned, and it satisfies `Q`. -/
def Returns (c : Exec S α) (s : S) (Q : α → S → Prop) : Prop :=
  ∃ a t, c.run s = (some a, t) ∧ Q a t

theorem Returns.bind {c : Exec S α} {f : α → Exec S β} {s : S} {P : α → S → Prop}
    {Q : β → S → Prop} (h : Returns c s P) (k : ∀ a t, P a t → Returns (f a) t Q) :
    Returns (c >>= f) s Q := by
  obtain ⟨a, t, first, holds⟩ := h
  obtain ⟨b, u, second, goal⟩ := k a t holds
  exact ⟨b, u, by rw [Exec.run_bind, first, Exec.andThen_some, second], goal⟩

theorem Returns.modify {g : S → S} {f : Unit → Exec S β} {s : S} {Q : β → S → Prop}
    (h : Returns (f ()) (g s) Q) : Returns (Exec.modify g >>= f) s Q := h

theorem Returns.after {c : Exec S α} {f : α → Exec S β} {s t : S} {a : α} {Q : β → S → Prop}
    (ran : c.run s = (some a, t)) (h : Returns (f a) t Q) : Returns (c >>= f) s Q := by
  obtain ⟨b, u, rest, holds⟩ := h
  exact ⟨b, u, by rw [Exec.run_bind, ran, Exec.andThen_some, rest], holds⟩

theorem Returns.get {f : S → Exec S β} {s : S} {Q : β → S → Prop} (h : Returns (f s) s Q) :
    Returns (Exec.get >>= f) s Q := h

theorem Returns.mono {c : Exec S α} {s : S} {P Q : α → S → Prop} (h : Returns c s P)
    (imp : ∀ a t, P a t → Q a t) : Returns c s Q := by
  obtain ⟨a, t, ran, holds⟩ := h
  exact ⟨a, t, ran, imp a t holds⟩

theorem Returns.pure {a : α} {s : S} {Q : α → S → Prop} (h : Q a s) :
    Returns (Pure.pure a : Exec S α) s Q := ⟨a, s, rfl, h⟩

end Returns

section Diverges

variable {S α β : Type}

/-- No value is ever returned, from any start. -/
def Diverges (c : Exec S α) : Prop := ∀ s, (c.run s).1 = none

theorem Diverges.stop : Diverges (Exec.stop : Exec S α) := fun _ => rfl

theorem Diverges.after {c : Exec S α} {f : α → Exec S β} (h : ∀ a, Diverges (f a)) :
    Diverges (c >>= f) := by
  intro s
  rcases Exec.bind_cases c f s with ⟨a, t, _, e⟩ | ⟨t, _, e⟩
  · rw [e]
    exact h a t
  · rw [e]

end Diverges

section Settles

variable {S α β : Type}

/-- Every large enough fuel returns `a` and leaves `t`. -/
def Settles (c : Nat → Exec S α) (s : S) (a : α) (t : S) : Prop :=
  ∃ N, ∀ n, N ≤ n → (c n).run s = (some a, t)

theorem Settles.of_eq {c : Nat → Exec S α} {s t : S} {a : α}
    (h : ∀ n, (c n).run s = (some a, t)) : Settles c s a t := ⟨0, fun n _ => h n⟩

theorem Settles.bind {c : Nat → Exec S α} {f : Nat → α → Exec S β} {s t u : S} {a : α}
    {b : β} (hc : Settles c s a t) (hf : Settles (fun n => f n a) t b u) :
    Settles (fun n => c n >>= f n) s b u := by
  obtain ⟨N, hN⟩ := hc
  obtain ⟨M, hM⟩ := hf
  refine ⟨max N M, fun n hn => ?_⟩
  have first := hN n (Nat.le_trans (Nat.le_max_left N M) hn)
  have second := hM n (Nat.le_trans (Nat.le_max_right N M) hn)
  rw [Exec.run_bind, first, Exec.andThen_some, second]

theorem Settles.modify {g : S → S} {f : Nat → Unit → Exec S β} {s u : S} {b : β}
    (h : Settles (fun n => f n ()) (g s) b u) :
    Settles (fun n => Exec.modify g >>= f n) s b u := h

theorem Settles.get {f : Nat → S → Exec S β} {s u : S} {b : β}
    (h : Settles (fun n => f n s) s b u) : Settles (fun n => Exec.get >>= f n) s b u := h

theorem Settles.congr {c d : Nat → Exec S α} {s t : S} {a : α} (h : Settles c s a t)
    (same : ∀ n, (d n).run s = (c n).run s) : Settles d s a t := by
  obtain ⟨N, hN⟩ := h
  exact ⟨N, fun n hn => (same n).trans (hN n hn)⟩

/-- Large fuels agree, so the settled outcome is unique. -/
theorem Settles.unique {c : Nat → Exec S α} {s t u : S} {a b : α}
    (h : Settles c s a t) (k : Settles c s b u) : a = b ∧ t = u := by
  obtain ⟨N, hN⟩ := h
  obtain ⟨M, hM⟩ := k
  have e := (hN (max N M) (Nat.le_max_left N M)).symm.trans
    (hM (max N M) (Nat.le_max_right N M))
  cases e
  exact ⟨rfl, rfl⟩

end Settles

end Fuel
