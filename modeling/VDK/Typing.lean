import VDK.KeyRuns

/-!
# Typing a text and reading it back

A text is typed key by key on the table of the driver, with the left shift key held for
the characters that need it. If each character is fetched before its key is released,
the driver gives the text back, on every controller.
-/
namespace VDK
open Atomic Fuel Kernel

section Strokes

/-- The make codes of the table, from escape on. -/
def makeCodes : List UInt8 := (List.range 89).map fun i => UInt8.ofNat (i + 1)

def shiftedChar (e : UInt8) : UInt8 := if isalpha e then upper e else alternateChars e

def keyFor (c : UInt8) : Option (Bool × UInt8) :=
  match makeCodes.find? fun code => scanCodeChars code = c with
  | some code => some (false, code)
  | none => (makeCodes.find? fun code => shiftedChar (scanCodeChars code) = c).map (true, ·)

/-- A character that `kb_getchar` can return and that has a key. -/
def Typable (c : UInt8) : Prop := positive c = true ∧ (keyFor c).isSome = true

instance (c : UInt8) : Decidable (Typable c) :=
  inferInstanceAs (Decidable (positive c = true ∧ (keyFor c).isSome = true))

/-- The calls while a character is typed and fetched. -/
def strokes (c : UInt8) : List KeyEvent :=
  match keyFor c with
  | some (false, code) => [.key code, .getchar c, .key (code ||| 0x80)]
  | some (true, code) =>
      [.key scanCodeKeyLeftShift, .key code, .getchar c, .key (code ||| 0x80),
        .key (scanCodeKeyLeftShift ||| 0x80)]
  | none => []

def typing (text : List UInt8) : List KeyEvent := text.flatMap strokes

theorem printable_typable {c : UInt8} (low : 0x20 ≤ c) (high : c ≤ 0x7E) : Typable c := by
  have every : (List.range 95).all (fun i => decide (Typable (UInt8.ofNat (i + 32)))) = true := by
    decide +kernel
  have lower : 32 ≤ c.toNat := UInt8.le_iff_toNat_le.mp low
  have upper : c.toNat ≤ 126 := UInt8.le_iff_toNat_le.mp high
  have index : c.toNat - 32 + 32 = c.toNat := Nat.sub_add_cancel lower
  have here := List.all_eq_true.mp every (c.toNat - 32) (List.mem_range.mpr (by omega))
  rw [index, UInt8.ofNat_toNat] at here
  exact of_decide_eq_true here

end Strokes

section Answers

/-- Each fetch returns the character that waits for it. -/
def Answered : Keyboard → List KeyEvent → Prop
  | _, [] => True
  | k, .key code :: events => Answered (k.after (.key code)) events
  | k, .getchar c :: events =>
      positive k.ch = true ∧ c = k.ch ∧ Answered (k.after (.getchar c)) events

instance decidableAnswered : (k : Keyboard) → (events : List KeyEvent) →
    Decidable (Answered k events)
  | _, [] => .isTrue trivial
  | k, .key code :: events => decidableAnswered (k.after (.key code)) events
  | k, .getchar c :: events =>
      letI := decidableAnswered (k.after (.getchar c)) events
      inferInstanceAs (Decidable (_ ∧ _ ∧ _))

theorem answered_append (k : Keyboard) (first second : List KeyEvent) :
    Answered k (first ++ second) ↔
      Answered k first ∧ Answered (first.foldl Keyboard.after k) second := by
  induction first generalizing k with
  | nil => exact ⟨fun h => ⟨trivial, h⟩, fun h => h.2⟩
  | cons e first ih =>
      cases e with
      | key code => exact ih _
      | getchar c =>
          rw [List.cons_append, Answered, Answered, ih, and_assoc, and_assoc]
          rfl

theorem KeyRun.answered {σ : Type} {hw : Bus σ} {s₀ s : Kernel σ} {events : List KeyEvent}
    (run : KeyRun hw s₀ events s) : Answered s₀.keyboard events := by
  induction run with
  | start => trivial
  | key run handled ih => exact (answered_append _ _ _).mpr ⟨ih, trivial⟩
  | getchar run returned ih =>
      obtain ⟨there, value, _⟩ := kbGetchar_after returned
      rw [run.keyboard] at there value
      exact (answered_append _ _ _).mpr ⟨ih, there, value, trivial⟩
  | other _ _ ih => exact ih

def KeyEvent.call : KeyEvent → Option UInt8
  | .key code => some code
  | .getchar _ => none

/-- The calls determine the answers. -/
theorem Answered.unique {k : Keyboard} {events others : List KeyEvent} (h : Answered k events)
    (g : Answered k others) (same : events.map KeyEvent.call = others.map KeyEvent.call) :
    events = others := by
  induction events generalizing k others with
  | nil => exact (List.map_eq_nil_iff.mp same.symm).symm
  | cons e events ih =>
      obtain ⟨d, others, rfl, head, rest⟩ := List.map_eq_cons_iff.mp same.symm
      cases e with
      | key code =>
          cases d with
          | key other =>
              cases head
              rw [ih h g rest.symm]
          | getchar c => cases head
      | getchar c =>
          cases d with
          | key other => cases head
          | getchar other =>
              have equal : c = other := h.2.1.trans g.2.1.symm
              subst equal
              rw [ih h.2.2 g.2.2 rest.symm]

end Answers

section Typing

/-- Neither caps lock nor a pending shift. -/
def Keyboard.Unmodified (k : Keyboard) : Prop := k.capsLock = false ∧ k.shiftPressed = false

instance (k : Keyboard) : Decidable k.Unmodified :=
  inferInstanceAs (Decidable (k.capsLock = false ∧ k.shiftPressed = false))

theorem Keyboard.Unmodified.after_key {k : Keyboard} (plain : k.Unmodified) (code : UInt8) :
    k.after (.key code) = Keyboard.after ⟨false, false, 0, 0⟩ (.key code) := by
  obtain ⟨caps, shift, ch, scanCode⟩ := k
  obtain ⟨rfl, rfl⟩ := plain
  rfl

/-- One character is typed, fetched, and leaves no modifier behind. -/
theorem strokes_answered {c : UInt8} (typable : Typable c) {k : Keyboard} (plain : k.Unmodified) :
    Answered k (strokes c) ∧ ((strokes c).foldl Keyboard.after k).Unmodified := by
  have every : (List.range 256).all (fun i => !decide (Typable (UInt8.ofNat i)) ||
      decide (Answered ⟨false, false, 0, 0⟩ (strokes (UInt8.ofNat i)) ∧
        ((strokes (UInt8.ofNat i)).foldl Keyboard.after ⟨false, false, 0, 0⟩).Unmodified)) = true := by
    decide +kernel
  have here := List.all_eq_true.mp every c.toNat (List.mem_range.mpr c.toNat_lt)
  rw [UInt8.ofNat_toNat, decide_eq_true typable, Bool.not_true, Bool.false_or] at here
  have fresh := of_decide_eq_true here
  cases events : strokes c with
  | nil => exact ⟨trivial, plain⟩
  | cons e rest =>
      rw [events] at fresh
      cases e with
      | key code =>
          have same := plain.after_key code
          refine ⟨?_, ?_⟩
          · rw [Answered, same]
            exact fresh.1
          · rw [List.foldl_cons, same]
            exact fresh.2
      | getchar d => exact absurd fresh.1.1 (by decide)

theorem typing_answered {text : List UInt8} (typable : ∀ c ∈ text, Typable c) {k : Keyboard}
    (plain : k.Unmodified) :
    Answered k (typing text) ∧ ((typing text).foldl Keyboard.after k).Unmodified := by
  induction text generalizing k with
  | nil => exact ⟨trivial, plain⟩
  | cons c text ih =>
      obtain ⟨first, after⟩ := strokes_answered (typable c List.mem_cons_self) plain
      obtain ⟨second, last⟩ := ih (fun d hd => typable d (List.mem_cons_of_mem c hd)) after
      rw [typing, List.flatMap_cons, List.foldl_append]
      exact ⟨(answered_append _ _ _).mpr ⟨first, second⟩, last⟩

/-- The strokes fetch the characters they were made for. -/
theorem charsRead_typing {text : List UInt8} (typable : ∀ c ∈ text, Typable c) :
    charsRead (typing text) = text := by
  induction text with
  | nil => rfl
  | cons c text ih =>
      have one : charsRead (strokes c) = [c] := by
        obtain ⟨⟨shift, code⟩, key⟩ := Option.isSome_iff_exists.mp (typable c List.mem_cons_self).2
        rw [strokes, key]
        cases shift with
        | false => rfl
        | true => rfl
      rw [typing, List.flatMap_cons, charsRead, List.filterMap_append]
      exact congrArg₂ (· ++ ·) one (ih fun d hd => typable d (List.mem_cons_of_mem c hd))

/-- Whatever controller delivers the scan codes of a text, with a fetch behind the make code
of each character, the characters fetched are the text, and no modifier stays behind. -/
theorem typed_text_read {σ : Type} {hw : Bus σ} {s₀ s : Kernel σ} {events : List KeyEvent}
    {text : List UInt8} (typable : ∀ c ∈ text, Typable c) (plain : s₀.keyboard.Unmodified)
    (run : KeyRun hw s₀ events s)
    (typed : events.map KeyEvent.call = (typing text).map KeyEvent.call) :
    charsRead events = text ∧ s.keyboard.Unmodified := by
  obtain ⟨answered, after⟩ := typing_answered typable plain
  have same := run.answered.unique answered typed
  rw [run.keyboard, same]
  exact ⟨charsRead_typing typable, after⟩

theorem KeyRun.type {s₀ s : Kernel (List UInt8)} {before events : List KeyEvent}
    (run : KeyRun byteQueue s₀ before s) (answered : Answered s.keyboard events)
    (queue : s.machine.bus = scanCodes events) : ∃ t, KeyRun byteQueue s₀ (before ++ events) t := by
  induction events generalizing s before with
  | nil =>
      rw [List.append_nil]
      exact ⟨s, run⟩
  | cons e events ih =>
      rw [List.append_cons]
      cases e with
      | key code =>
          obtain ⟨u, handled, fetched, left⟩ := keyboardHandler_queue queue
          have next := run.key handled
          rw [fetched] at next
          refine ih next ?_ left
          rw [keyboardHandler_after byteQueue handled, fetched]
          exact answered
      | getchar c =>
          obtain ⟨there, rfl, later⟩ := answered
          obtain ⟨u, returned, machine⟩ := kbGetchar_returns there
          refine ih (run.getchar returned) ?_ (by rw [machine]; exact queue)
          rw [(kbGetchar_after returned).2.2]
          exact later

/-- `Hi~` and enter, typed on such a controller. -/
theorem typed_text_read_hi :
    ∃ t events, KeyRun byteQueue (zeroed (scanCodes (typing [0x48, 0x69, 0x7E, 10]))) events t ∧
      charsRead events = [0x48, 0x69, 0x7E, 10] ∧ t.keyboard.Unmodified := by
  have typable : ∀ c ∈ [(0x48 : UInt8), 0x69, 0x7E, 10], Typable c := by
    have every : [(0x48 : UInt8), 0x69, 0x7E, 10].all (fun c => decide (Typable c)) = true := by
      decide
    exact fun c member => of_decide_eq_true (List.all_eq_true.mp every c member)
  have plain : (zeroed (scanCodes (typing [0x48, 0x69, 0x7E, 10]))).keyboard.Unmodified := by decide
  obtain ⟨t, run⟩ := KeyRun.start.type (typing_answered typable plain).1 rfl
  rw [List.nil_append] at run
  exact ⟨t, _, run, typed_text_read typable plain run rfl⟩

end Typing

end VDK
