import Mathlib.Logic.Relation
import Mathlib.Logic.Function.Basic

/-!
# One output buffer for several devices

Each device sends bytes into a queue of its own. A controller moves one byte at a time into
the output buffer, and raises the line of the device it comes from; a read empties the buffer.
`sent` is all that a device has sent, so that no byte can be lost or made up unseen.
-/
namespace SharedBuffer

variable {D B : Type}

structure Controller (D B : Type) where
  sent : D → List B
  queue : D → List B
  buffer : Option (D × B)
  line : D → Bool

namespace Controller

/-- The buffer is read. -/
def emptied (c : Controller D B) : Controller D B := { c with buffer := none }

/-- The line that is raised is that of the byte in the buffer. -/
def Signalled (c : Controller D B) : Prop := ∀ d, c.line d = true ↔ ∃ b, c.buffer = some (d, b)

/-- The interrupt of a byte has been accepted, and the byte is not read yet. -/
structure Serving (c : Controller D B) (d : D) (b : B) : Prop where
  buffer : c.buffer = some (d, b)
  line : ∀ e, c.line e = false

theorem Serving.emptied_signalled {c : Controller D B} {d : D} {b : B}
    (serving : c.Serving d b) : c.emptied.Signalled := by
  intro e
  rw [show c.emptied.line e = c.line e from rfl, serving.line]
  exact ⟨fun raised => Bool.noConfusion raised, fun ⟨_, full⟩ => nomatch full⟩

section Devices

variable [DecidableEq D]

/-- A device sends a byte. -/
def send (d : D) (b : B) (c : Controller D B) : Controller D B :=
  { c with
    sent := Function.update c.sent d (c.sent d ++ [b])
    queue := Function.update c.queue d (c.queue d ++ [b]) }

/-- The byte at the head of a queue moves into the buffer, and its line is raised. -/
def load (d : D) (b : B) (rest : List B) (c : Controller D B) : Controller D B :=
  { c with
    queue := Function.update c.queue d rest
    buffer := some (d, b)
    line := Function.update c.line d true }

/-- The interrupt of a line is accepted. -/
def accept (d : D) (c : Controller D B) : Controller D B :=
  { c with line := Function.update c.line d false }

def buffered (c : Controller D B) (d : D) : List B :=
  match c.buffer with
  | some (e, b) => if e = d then [b] else []
  | none => []

/-- The bytes of a device that nothing has read yet. -/
def unread (c : Controller D B) (d : D) : List B := c.buffered d ++ c.queue d

/-- What the devices and the controller do on their own. -/
inductive Step : Controller D B → Controller D B → Prop
  | send (c : Controller D B) (d : D) (b : B) : Step c (c.send d b)
  | load {c : Controller D B} {d : D} {b : B} {rest : List B} (empty : c.buffer = none)
      (next : c.queue d = b :: rest) : Step c (c.load d b rest)

def Moves : Controller D B → Controller D B → Prop := Relation.ReflTransGen Step

instance : IsPreorder (Controller D B) Moves where
  refl _ := .refl
  trans _ _ _ := Relation.ReflTransGen.trans

/-- What was sent is what was taken and what is unread, in this order. -/
def Balanced (taken : D → List B) (c : Controller D B) : Prop :=
  ∀ d, c.sent d = taken d ++ c.unread d

section Invariants

variable {c c' : Controller D B} {taken : D → List B} {d : D} {b : B}

theorem buffered_empty (empty : c.buffer = none) (d : D) : c.buffered d = [] := by
  rw [buffered, empty]

theorem buffered_full (full : c.buffer = some (d, b)) (e : D) :
    c.buffered e = if d = e then [b] else [] := by
  rw [buffered, full]

theorem Step.balanced (step : Step c c') (before : c.Balanced taken) : c'.Balanced taken := by
  intro e
  have old := before e
  cases step with
  | send d b =>
      by_cases own : e = d
      · subst own
        change Function.update c.sent e _ e = _ ++ (c.buffered e ++ Function.update c.queue e _ e)
        rw [Function.update_self, Function.update_self, old, unread]
        simp only [List.append_assoc]
      · change Function.update c.sent d _ e = _ ++ (c.buffered e ++ Function.update c.queue d _ e)
        rw [Function.update_of_ne own, Function.update_of_ne own]
        exact old
  | @load d b rest empty next =>
      rw [unread, buffered_empty empty, List.nil_append] at old
      change c.sent e = _ ++ ((if d = e then [b] else []) ++ Function.update c.queue d rest e)
      rw [old]
      by_cases own : e = d
      · subst own
        rw [if_pos rfl, Function.update_self, next]
        rfl
      · rw [if_neg fun same => own same.symm, Function.update_of_ne own]
        rfl

theorem Step.signalled (step : Step c c') (before : c.Signalled) : c'.Signalled := by
  cases step with
  | send d b => exact before
  | @load d b rest empty next =>
      intro e
      change Function.update c.line d true e = true ↔ ∃ v, some (d, b) = some (e, v)
      by_cases own : e = d
      · subst own
        rw [Function.update_self]
        exact ⟨fun _ => ⟨b, rfl⟩, fun _ => rfl⟩
      · rw [Function.update_of_ne own, before e, empty]
        refine ⟨fun ⟨_, full⟩ => (nomatch full), fun ⟨_, full⟩ => ?_⟩
        cases full
        exact absurd rfl own

/-- A full buffer keeps its byte, and so the lines stay as they are. -/
theorem Step.serving (step : Step c c') (before : c.Serving d b) : c'.Serving d b := by
  cases step with
  | send => exact ⟨before.buffer, before.line⟩
  | load empty next => exact nomatch before.buffer.symm.trans empty

theorem Moves.keeps {P : Controller D B → Prop} (kept : ∀ {c c'}, Step c c' → P c → P c')
    (moves : Moves c c') (before : P c) : P c' := by
  induction moves with
  | refl => exact before
  | tail _ step ih => exact kept step ih

/-- The line that is accepted is that of the byte in the buffer, and no other is raised. -/
theorem Signalled.accept (signalled : c.Signalled) (raised : c.line d = true) :
    ∃ b, (c.accept d).Serving d b := by
  obtain ⟨b, full⟩ := (signalled d).mp raised
  refine ⟨b, full, fun e => ?_⟩
  change Function.update c.line d false e = false
  by_cases own : e = d
  · rw [own, Function.update_self]
  · rw [Function.update_of_ne own, Bool.eq_false_iff]
    intro other
    obtain ⟨_, full'⟩ := (signalled e).mp other
    cases full.symm.trans full'
    exact own rfl

/-- A read takes the first unread byte of its device. -/
theorem Serving.emptied_balanced (serving : c.Serving d b) (before : c.Balanced taken) :
    c.emptied.Balanced (Function.update taken d (taken d ++ [b])) := by
  intro e
  have old := before e
  rw [unread, buffered_full serving.buffer] at old
  change c.sent e = _ ++ ([] ++ c.queue e)
  rw [old]
  by_cases own : e = d
  · subst own
    rw [if_pos rfl, Function.update_self, List.append_assoc]
    rfl
  · rw [if_neg fun same => own same.symm, Function.update_of_ne own]

/-- While things move on, a byte whose interrupt has been accepted is read. -/
def Takes (d : D) (b : B) (c c' : Controller D B) : Prop :=
  ∃ e, Moves c e ∧ e.Serving d b ∧ Moves e.emptied c'

theorem Takes.after (takes : c.Takes d b c') {e : Controller D B} (moves : Moves e c) :
    e.Takes d b c' := by
  obtain ⟨f, before, serving, behind⟩ := takes
  exact ⟨f, moves.trans before, serving, behind⟩

theorem Takes.moves (takes : c.Takes d b c') {e : Controller D B} (moves : Moves c' e) :
    c.Takes d b e := by
  obtain ⟨f, before, serving, behind⟩ := takes
  exact ⟨f, before, serving, behind.trans moves⟩

theorem Takes.signalled (takes : c.Takes d b c') : c'.Signalled := by
  obtain ⟨e, _, serving, behind⟩ := takes
  exact behind.keeps Step.signalled serving.emptied_signalled

theorem Takes.balanced (takes : c.Takes d b c') (before : c.Balanced taken) :
    c'.Balanced (Function.update taken d (taken d ++ [b])) := by
  obtain ⟨e, moves, serving, behind⟩ := takes
  exact behind.keeps Step.balanced (serving.emptied_balanced (moves.keeps Step.balanced before))

end Invariants

end Devices

end Controller

end SharedBuffer
