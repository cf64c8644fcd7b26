import Mathlib.Tactic.Common

/-!
# Services with preconditions

A service says which calls are allowed in which abstract state, where a call leads
and which answers are right. An implementation is any relation between states; it
refines the service when allowed calls keep the two states related and are answered
rightly. Nothing is said about a run from its first call on that is not allowed.
-/
namespace Contract

structure Service (A Op Out : Type) where
  allowed : A → Op → Prop
  next : A → Op → A
  answers : A → Op → Out → Prop

variable {S A Op Out : Type} {step : S → Op → Out → S → Prop} {service : Service A Op Out}

/-- Allowed calls in order, with the answers of the implementation and the state the
service assigns to them. -/
inductive Run (step : S → Op → Out → S → Prop) (service : Service A Op Out) (s₀ : S) (a₀ : A) :
    List (Op × Out) → S → A → Prop
  | start : Run step service s₀ a₀ [] s₀ a₀
  | call {calls : List (Op × Out)} {s t : S} {a : A} {op : Op} {out : Out}
      (run : Run step service s₀ a₀ calls s a) (allowed : service.allowed a op)
      (made : step s op out t) :
      Run step service s₀ a₀ (calls ++ [(op, out)]) t (service.next a op)

namespace Service

/-- The state after some calls. -/
def after (service : Service A Op Out) (a : A) (calls : List (Op × Out)) : A :=
  calls.foldl (fun a call => service.next a call.1) a

/-- Every call is answered rightly in the state it meets. -/
def Explains (service : Service A Op Out) : A → List (Op × Out) → Prop
  | _, [] => True
  | a, call :: calls => service.answers a call.1 call.2 ∧
      service.Explains (service.next a call.1) calls

theorem explains_append (a : A) (first second : List (Op × Out)) :
    service.Explains a (first ++ second) ↔
      service.Explains a first ∧ service.Explains (service.after a first) second := by
  induction first generalizing a with
  | nil => simp [Explains, after]
  | cons call first ih =>
      simp only [List.cons_append, Explains, ih, and_assoc]
      rfl

end Service

theorem Run.after {s₀ s : S} {a₀ a : A} {calls : List (Op × Out)}
    (run : Run step service s₀ a₀ calls s a) : service.after a₀ calls = a := by
  induction run with
  | start => rfl
  | call run _ _ ih =>
      rw [← ih]
      exact List.foldl_append

/-- One allowed call, from related states. -/
def Refines (step : S → Op → Out → S → Prop) (service : Service A Op Out) (R : S → A → Prop) :
    Prop :=
  ∀ s a op out t, R s a → service.allowed a op → step s op out t →
    service.answers a op out ∧ R t (service.next a op)

/-- Allowed calls stay related and are answered rightly, however many there are. -/
theorem Refines.run {R : S → A → Prop} (refines : Refines step service R) {s₀ s : S} {a₀ a : A}
    {calls : List (Op × Out)} (run : Run step service s₀ a₀ calls s a) (start : R s₀ a₀) :
    R s a ∧ service.Explains a₀ calls := by
  induction run with
  | start => exact ⟨start, trivial⟩
  | call run allowed made ih =>
      obtain ⟨related, explained⟩ := ih
      obtain ⟨answered, next⟩ := refines _ _ _ _ _ related allowed made
      refine ⟨next, (Service.explains_append _ _ _).mpr ⟨explained, ?_⟩⟩
      rw [run.after]
      exact ⟨answered, trivial⟩

end Contract
