import VDK.FuelExec
import Mathlib.Logic.Relation

/-!
# Programs of atomic steps

A program is a tree of total steps on a shared state, each of which may look at the
state to choose what follows. `run` executes it without interruption. `Interleaved`
lets the environment change the state before every step, any number of times and in
any way the relation `Arrive` permits; the environment sees a state only between two
steps. `Recorded` also notes what arrived before each step.
-/
namespace Atomic
open Fuel

inductive Prog (S α : Type) where
  | ret (a : α)
  | stop
  | step (f : S → S) (next : S → Prog S α)

namespace Prog

variable {S T α β : Type}

def bind : Prog S α → (α → Prog S β) → Prog S β
  | ret a, k => k a
  | stop, _ => stop
  | step f next, k => step f fun s => bind (next s) k

instance : Monad (Prog S) where
  pure := ret
  bind := bind

theorem bind_pure_eq (p : Prog S α) : p.bind ret = p := by
  induction p with
  | ret a => rfl
  | stop => rfl
  | step f next ih => exact congrArg (step f) (funext ih)

theorem bind_assoc_eq {γ : Type} (p : Prog S α) (k : α → Prog S β) (l : β → Prog S γ) :
    (p.bind k).bind l = p.bind fun a => (k a).bind l := by
  induction p with
  | ret a => rfl
  | stop => rfl
  | step f next ih => exact congrArg (step f) (funext ih)

instance : LawfulMonad (Prog S) := LawfulMonad.mk' (Prog S) bind_pure_eq (fun _ _ => rfl) bind_assoc_eq

def get : Prog S S := step id ret

def modify (f : S → S) : Prog S Unit := step f fun _ => ret ()

def act (g : S → α × S) : Prog S α := step (fun s => (g s).2) fun s => ret (g s).1

/-- A program on a part of the state. -/
def within (part : S → T) (put : T → S → S) : Prog T α → Prog S α
  | ret a => ret a
  | stop => stop
  | step f next => step (fun s => put (f (part s)) s) fun s => within part put (next (part s))

/-- `if` without `else`. -/
def when (c : Prop) [Decidable c] (p : Prog S Unit) : Prog S Unit := if c then p else ret ()

/-- A loop over the elements of a list, in order. -/
def forEach (body : α → Prog S Unit) : List α → Prog S Unit
  | [] => ret ()
  | a :: as => bind (body a) fun _ => forEach body as

theorem forEach_singleton (body : α → Prog S Unit) (a : α) : forEach body [a] = body a :=
  bind_pure_eq (body a)

theorem forEach_append (body : α → Prog S Unit) (as bs : List α) :
    forEach body (as ++ bs) = forEach body as >>= fun _ => forEach body bs := by
  induction as with
  | nil => rfl
  | cons a as ih =>
      change bind (body a) (fun _ => forEach body (as ++ bs)) = _
      rw [ih]
      exact (bind_assoc_eq (body a) (fun _ => forEach body as) _).symm

/-- Execution without interruption. -/
def run : Prog S α → Exec S α
  | ret a => pure a
  | stop => Exec.stop
  | step f next => ⟨fun s => (run (next s)).run (f s)⟩

@[simp] theorem run_ret (a : α) : run (ret a : Prog S α) = pure a := rfl

@[simp] theorem run_pure (a : α) : run (pure a : Prog S α) = pure a := rfl

@[simp] theorem run_stop : run (stop : Prog S α) = Exec.stop := rfl

@[simp] theorem run_get : run (get : Prog S S) = Exec.get := rfl

@[simp] theorem run_modify (f : S → S) : run (modify f) = Exec.modify f := rfl

@[simp] theorem run_act (g : S → α × S) : run (act g) = Exec.act g := rfl

@[simp] theorem run_bind (p : Prog S α) (k : α → Prog S β) :
    run (p >>= k) = run p >>= fun a => run (k a) := by
  change run (p.bind k) = _
  induction p with
  | ret a => rfl
  | stop => rfl
  | step f next ih =>
      ext1 s
      change (run ((next s).bind k)).run (f s) = _
      rw [ih s]
      rfl

theorem run_when (c : Prop) [Decidable c] (p : Prog S Unit) (s : S) :
    (run (when c p)).run s = if c then (run p).run s else (some (), s) := by
  unfold when
  split
  · rfl
  · rfl

theorem run_within (part : S → T) (put : T → S → S) (view : ∀ t s, part (put t s) = t)
    (again : ∀ t u s, put u (put t s) = put u s) (same : ∀ s, put (part s) s = s)
    (p : Prog T α) : run (within part put p) = Exec.within part put (run p) := by
  induction p with
  | ret a =>
      ext1 s
      change (some a, s) = (some a, put (part s) s)
      rw [same]
  | stop =>
      ext1 s
      change (none, s) = (none, put (part s) s)
      rw [same]
  | step f next ih =>
      ext1 s
      change (run (within part put (next (part s)))).run (put (f (part s)) s) = _
      rw [ih]
      simp only [Exec.within, view, again]
      rfl

theorem within_bind (part : S → T) (put : T → S → S) (p : Prog T α) (k : α → Prog T β) :
    within part put (p >>= k) = within part put p >>= fun a => within part put (k a) := by
  change within part put (p.bind k) = (within part put p).bind fun a => within part put (k a)
  induction p with
  | ret a => rfl
  | stop => rfl
  | step f next ih => exact congrArg (step _) (funext fun s => ih (part s))

/-- A loop whose rounds all return has the effect of the rounds in order. -/
theorem run_forEach {body : α → Prog S Unit} {effect : α → S → S}
    (round : ∀ a s, (run (body a)).run s = (some (), effect a s)) (as : List α) (s : S) :
    (run (forEach body as)).run s = (some (), as.foldl (fun s a => effect a s) s) := by
  induction as generalizing s with
  | nil => rfl
  | cons a as ih =>
      change (run (body a >>= fun _ => forEach body as)).run s = _
      rw [run_bind, Exec.run_bind, round, Exec.andThen_some, ih]
      rfl

end Prog

section Steps

variable {S T α β : Type}

/-- Every step the program can come to satisfies `R`. -/
def Steps (R : S → S → Prop) : Prog S α → Prop
  | .ret _ => True
  | .stop => True
  | .step f next => ∀ s, R s (f s) ∧ Steps R (next s)

theorem Steps.pure {R : S → S → Prop} (a : α) : Steps R (Pure.pure a : Prog S α) := trivial

theorem Steps.modify {R : S → S → Prop} {f : S → S} (h : ∀ s, R s (f s)) :
    Steps R (Prog.modify f) := fun s => ⟨h s, trivial⟩

theorem Steps.act {R : S → S → Prop} {g : S → α × S} (h : ∀ s, R s (g s).2) :
    Steps R (Prog.act g) := fun s => ⟨h s, trivial⟩

theorem Steps.get {R : S → S → Prop} [Std.Refl R] : Steps R (Prog.get : Prog S S) :=
  fun s => ⟨refl_of R s, trivial⟩

theorem Steps.bind {R : S → S → Prop} {p : Prog S α} {k : α → Prog S β} (hp : Steps R p)
    (hk : ∀ a, Steps R (k a)) : Steps R (p >>= k) := by
  change Steps R (p.bind k)
  induction p with
  | ret a => exact hk a
  | stop => trivial
  | step f next ih => exact fun s => ⟨(hp s).1, ih s (hp s).2⟩

theorem Steps.mono {R Q : S → S → Prop} (imp : ∀ s t, R s t → Q s t) {p : Prog S α}
    (hp : Steps R p) : Steps Q p := by
  induction p with
  | ret a => trivial
  | stop => trivial
  | step f next ih => exact fun s => ⟨imp _ _ (hp s).1, ih s (hp s).2⟩

theorem Steps.when {R : S → S → Prop} (c : Prop) [Decidable c] {p : Prog S Unit}
    (hp : Steps R p) : Steps R (Prog.when c p) := by
  unfold Prog.when
  split
  · exact hp
  · trivial

theorem Steps.forEach {R : S → S → Prop} {body : α → Prog S Unit} (h : ∀ a, Steps R (body a))
    (as : List α) : Steps R (Prog.forEach body as) := by
  induction as with
  | nil => trivial
  | cons a as ih => exact Steps.bind (h a) fun _ => ih

theorem Steps.any (p : Prog S α) : Steps (fun _ _ => True) p := by
  induction p with
  | ret a => trivial
  | stop => trivial
  | step f next ih => exact fun s => ⟨trivial, ih s⟩

theorem Steps.within {R : S → S → Prop} {Q : T → T → Prop} {part : S → T} {put : T → S → S}
    (lift : ∀ s t, Q (part s) t → R s (put t s)) {p : Prog T α} (hp : Steps Q p) :
    Steps R (Prog.within part put p) := by
  induction p with
  | ret a => trivial
  | stop => trivial
  | step f next ih =>
      intro s
      exact ⟨lift s _ (hp (part s)).1, ih (part s) (hp (part s)).2⟩

theorem Steps.keeps {R : S → S → Prop} [IsPreorder S R] {p : Prog S α} (hp : Steps R p) :
    Keeps R p.run := by
  induction p with
  | ret a => exact Keeps.pure a
  | stop => exact Keeps.stop
  | step f next ih => exact fun s => trans_of R (hp s).1 (ih s (hp s).2 (f s))

end Steps

section Ends

variable {S T α β : Type} {R : S → S → Prop}

/-- Every way through the program returns, by steps that satisfy `R`. -/
def Ends (R : S → S → Prop) : Prog S α → Prop
  | .ret _ => True
  | .stop => False
  | .step f next => ∀ s, R s (f s) ∧ Ends R (next s)

theorem Ends.pure (a : α) : Ends R (Pure.pure a : Prog S α) := trivial

theorem Ends.modify {f : S → S} (h : ∀ s, R s (f s)) : Ends R (Prog.modify f) :=
  fun s => ⟨h s, trivial⟩

theorem Ends.act {g : S → α × S} (h : ∀ s, R s (g s).2) : Ends R (Prog.act g) :=
  fun s => ⟨h s, trivial⟩

theorem Ends.get [Std.Refl R] : Ends R (Prog.get : Prog S S) := fun s => ⟨refl_of R s, trivial⟩

theorem Ends.bind {p : Prog S α} {k : α → Prog S β} (hp : Ends R p) (hk : ∀ a, Ends R (k a)) :
    Ends R (p >>= k) := by
  change Ends R (p.bind k)
  induction p with
  | ret a => exact hk a
  | stop => exact hp.elim
  | step f next ih => exact fun s => ⟨(hp s).1, ih s (hp s).2⟩

theorem Ends.when (c : Prop) [Decidable c] {p : Prog S Unit} (hp : Ends R p) :
    Ends R (Prog.when c p) := by
  unfold Prog.when
  split
  · exact hp
  · trivial

theorem Ends.forEach {body : α → Prog S Unit} (h : ∀ a, Ends R (body a)) (as : List α) :
    Ends R (Prog.forEach body as) := by
  induction as with
  | nil => trivial
  | cons a as ih => exact Ends.bind (h a) fun _ => ih

theorem Ends.within {Q : T → T → Prop} {part : S → T} {put : T → S → S}
    (lift : ∀ s t, Q (part s) t → R s (put t s)) {p : Prog T α} (hp : Ends Q p) :
    Ends R (Prog.within part put p) := by
  induction p with
  | ret a => trivial
  | stop => exact hp.elim
  | step f next ih =>
      intro s
      exact ⟨lift s _ (hp (part s)).1, ih (part s) (hp (part s)).2⟩

theorem Ends.mono {Q : S → S → Prop} (imp : ∀ s t, R s t → Q s t) {p : Prog S α}
    (hp : Ends R p) : Ends Q p := by
  induction p with
  | ret a => trivial
  | stop => exact hp.elim
  | step f next ih => exact fun s => ⟨imp _ _ (hp s).1, ih s (hp s).2⟩

theorem Ends.steps {p : Prog S α} (hp : Ends R p) : Steps R p := by
  induction p with
  | ret a => trivial
  | stop => exact hp.elim
  | step f next ih => exact fun s => ⟨(hp s).1, ih s (hp s).2⟩

/-- Without interruption it returns, and its steps add up. -/
theorem Ends.returns [IsPreorder S R] {p : Prog S α} (hp : Ends R p) (s : S) :
    Returns p.run s fun _ t => R s t := by
  induction p generalizing s with
  | ret a => exact ⟨a, s, rfl, refl_of R s⟩
  | stop => exact hp.elim
  | step f next ih =>
      obtain ⟨a, t, ran, rest⟩ := ih s (hp s).2 (f s)
      exact ⟨a, t, ran, trans_of R (hp s).1 rest⟩

end Ends

section Interleaved

variable {S α β : Type} {Arrive : S → S → Prop}

/-- A run to the end, with the environment moving before each step. -/
inductive Interleaved (Arrive : S → S → Prop) : Prog S α → S → α → S → Prop
  | ret (a : α) (s : S) : Interleaved Arrive (.ret a) s a s
  | step {f : S → S} {next : S → Prog S α} {s u t : S} {a : α} (arrived : Arrive s u)
      (rest : Interleaved Arrive (next u) (f u) a t) : Interleaved Arrive (.step f next) s a t

theorem Interleaved.bind_inv {p : Prog S α} {k : α → Prog S β} {s t : S} {b : β}
    (h : Interleaved Arrive (p >>= k) s b t) :
    ∃ a u, Interleaved Arrive p s a u ∧ Interleaved Arrive (k a) u b t := by
  change Interleaved Arrive (p.bind k) s b t at h
  induction p generalizing s with
  | ret a => exact ⟨a, s, .ret a s, h⟩
  | stop => cases h
  | step f next ih =>
      cases h with
      | step arrived rest =>
          obtain ⟨a, v, first, second⟩ := ih _ rest
          exact ⟨a, v, .step arrived first, second⟩

theorem Interleaved.get_inv {s t a : S} (h : Interleaved Arrive (Prog.get : Prog S S) s a t) :
    a = t ∧ Arrive s t := by
  cases h with
  | step arrived rest =>
      cases rest
      exact ⟨rfl, arrived⟩

theorem Interleaved.modify_inv {f : S → S} {s t : S} {a : Unit}
    (h : Interleaved Arrive (Prog.modify f) s a t) : ∃ u, Arrive s u ∧ t = f u := by
  cases h with
  | step arrived rest =>
      cases rest
      exact ⟨_, arrived, rfl⟩

theorem Interleaved.act_inv {g : S → α × S} {s t : S} {a : α}
    (h : Interleaved Arrive (Prog.act g) s a t) : ∃ u, Arrive s u ∧ (a, t) = g u := by
  cases h with
  | step arrived rest =>
      cases rest
      exact ⟨_, arrived, rfl⟩

/-- What every step and every arrival preserves, an interleaved run preserves. -/
theorem Interleaved.keeps {R : S → S → Prop} [IsPreorder S R] (env : ∀ s t, Arrive s t → R s t)
    {p : Prog S α} (hp : Steps R p) {s t : S} {a : α} (h : Interleaved Arrive p s a t) :
    R s t := by
  induction h with
  | ret a s => exact refl_of R s
  | step arrived _ ih =>
      exact trans_of R (env _ _ arrived) (trans_of R (hp _).1 (ih (hp _).2))

/-- An uninterrupted run is one of the interleaved ones. -/
theorem Interleaved.of_run (quiet : ∀ s, Arrive s s) {p : Prog S α} {s t : S} {a : α}
    (h : p.run.run s = (some a, t)) : Interleaved Arrive p s a t := by
  induction p generalizing s with
  | ret b =>
      cases h
      exact .ret _ _
  | stop => cases h
  | step f next ih => exact .step (quiet s) (ih s h)

end Interleaved

section Recorded

variable {S E α β : Type} {Arrive : S → List E → S → Prop}

/-- What arrived before a step, and the state in which the step was made. -/
structure Moment (S E : Type) where
  arrived : List E
  state : S

/-- An interleaved run with a moment for each of its steps. -/
inductive Recorded (Arrive : S → List E → S → Prop) :
    Prog S α → S → List (Moment S E) → α → S → Prop
  | ret (a : α) (s : S) : Recorded Arrive (.ret a) s [] a s
  | step {f : S → S} {next : S → Prog S α} {s u t : S} {a : α} {es : List E}
      {record : List (Moment S E)} (arrived : Arrive s es u)
      (rest : Recorded Arrive (next u) (f u) record a t) :
      Recorded Arrive (.step f next) s (⟨es, u⟩ :: record) a t

theorem Recorded.bind_inv {p : Prog S α} {k : α → Prog S β} {s t : S}
    {record : List (Moment S E)} {b : β} (h : Recorded Arrive (p >>= k) s record b t) :
    ∃ first second a u, record = first ++ second ∧ Recorded Arrive p s first a u ∧
      Recorded Arrive (k a) u second b t := by
  change Recorded Arrive (p.bind k) s record b t at h
  induction p generalizing s record with
  | ret a => exact ⟨[], record, a, s, rfl, .ret a s, h⟩
  | stop => cases h
  | step f next ih =>
      cases h with
      | step arrived rest =>
          obtain ⟨first, second, a, v, rfl, before, after⟩ := ih _ rest
          exact ⟨_, second, a, v, rfl, .step arrived before, after⟩

theorem Recorded.get_inv {s t a : S} {record : List (Moment S E)}
    (h : Recorded Arrive (Prog.get : Prog S S) s record a t) :
    ∃ es, record = [⟨es, t⟩] ∧ a = t ∧ Arrive s es t := by
  cases h with
  | step arrived rest =>
      cases rest
      exact ⟨_, rfl, rfl, arrived⟩

theorem Recorded.modify_inv {f : S → S} {s t : S} {a : Unit} {record : List (Moment S E)}
    (h : Recorded Arrive (Prog.modify f) s record a t) :
    ∃ es u, record = [⟨es, u⟩] ∧ t = f u ∧ Arrive s es u := by
  cases h with
  | step arrived rest =>
      cases rest
      exact ⟨_, _, rfl, rfl, arrived⟩

end Recorded

end Atomic
