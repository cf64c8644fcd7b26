import VDK.KeyModifiers
import Mathlib.Data.List.Induction

/-!
# The one-character slot between keyboard and reader

A character key puts its character in `g_ch`, and `kb_getchar` takes it out. Every
call of the handler empties the slot first, so any scan code without a character
throws away what was not read.
-/
namespace VDK
open Atomic Fuel Kernel PastTime

section Slot

/-- The make code of a character key arrives. -/
def IsPress : KeyEvent → Prop
  | .key scancode => CharKey scancode
  | .getchar _ => False

/-- A scan code that brings no character: a release, a modifier, a key without an entry. -/
def IsSilent : KeyEvent → Prop
  | .key scancode => ¬CharKey scancode
  | .getchar _ => False

def IsRead : KeyEvent → Prop
  | .key _ => False
  | .getchar _ => True

/-- Since the make code of a character key, neither a read nor another one. -/
def IsWaiting : List KeyEvent → Prop :=
  Since (fun _ e => IsPress e) fun _ e => ¬IsRead e ∧ ¬IsPress e

/-- The character `c`, put in the slot before `later`, is still there or was read once. -/
def KeptOrRead (c : UInt8) (later : List KeyEvent) (now : UInt8) : Prop :=
  (charsRead later = [] ∧ now = c) ∨ (charsRead later = [c] ∧ now = 0)

@[simp] theorem charsRead_key (events : List KeyEvent) (scancode : UInt8) :
    charsRead (events ++ [.key scancode]) = charsRead events := by
  rw [charsRead, List.filterMap_append, List.filterMap_cons_none rfl, List.filterMap_nil,
    List.append_nil]

@[simp] theorem charsRead_getchar (events : List KeyEvent) (c : UInt8) :
    charsRead (events ++ [.getchar c]) = charsRead events ++ [c] :=
  List.filterMap_append

theorem isWaiting_snoc (events : List KeyEvent) (e : KeyEvent) :
    IsWaiting (events ++ [e]) ↔ IsPress e ∨ (IsWaiting events ∧ ¬IsRead e ∧ ¬IsPress e) :=
  since_snoc _ _

theorem receive_silent {scancode : UInt8} (silent : ¬CharKey scancode) (k : Keyboard) :
    ((k.setCh 0).receive scancode).ch = 0 := by
  have make := isMake_iff scancode
  unfold Keyboard.receive
  dsimp only
  by_cases broken : scancode &&& 0x80 ≠ 0
  · rw [if_pos broken]
    rfl
  · have low : scancode < 0x80 := make.mp (not_not.mp broken)
    have none : scanCodeChars scancode = 0 :=
      Classical.byContradiction fun entry => silent ⟨low, entry⟩
    have enter : scancode ≠ scanCodeKeyEnter := by
      rintro rfl
      exact silent (by decide)
    have tab : scancode ≠ scanCodeKeyTab := by
      rintro rfl
      exact silent (by decide)
    rw [if_neg broken, if_neg enter, if_neg tab]
    split
    · rfl
    · split
      · rfl
      · unfold Keyboard.keyDown
        rw [none]
        rcases k with ⟨caps, shift, ch, code⟩
        cases caps
        · cases shift <;> rfl
        · cases shift <;> rfl

theorem receive_press {scancode : UInt8} (char : CharKey scancode) (k : Keyboard) :
    positive ((k.setCh 0).receive scancode).ch = true := by
  have all := scanCodeChars_all (by decide : (scanCodeTable.map Char.toUInt8).all
    (fun e => e == 0 || (positive e && positive (upper e) && positive (alternateChars e))) = true)
    rfl scancode
  have entry : positive (scanCodeChars scancode) = true ∧
      positive (upper (scanCodeChars scancode)) = true ∧
      positive (alternateChars (scanCodeChars scancode)) = true := by
    simpa [char.2, and_assoc] using all
  have produced := receive_produces char (k.setCh 0)
  generalize ((k.setCh 0).receive scancode).ch = c at produced ⊢
  by_cases letter : isalpha (scanCodeChars scancode) = true
  · by_cases agree : ((k.setCh 0).shiftPressed = true ↔ (k.setCh 0).capsLock = true)
    · rw [(produced.letter letter).2 agree]
      exact entry.1
    · rw [(produced.letter letter).1 agree]
      exact entry.2.1
  · have other := produced.other (Bool.eq_false_iff.mpr letter)
    by_cases pressed : (k.setCh 0).shiftPressed = true
    · rw [other.1 pressed]
      exact entry.2.2
    · rw [other.2 pressed]
      exact entry.1

end Slot

section Runs

variable {σ : Type} {hw : Bus σ} {s₀ : Kernel σ}

/-- One more event that is no press, while the reader keeps up. -/
theorem KeptOrRead.snoc {c : UInt8} {later : List KeyEvent} {s t : Kernel σ} {e : KeyEvent}
    (kept : KeptOrRead c later s.keyboard.ch) (noPress : ¬IsPress e)
    (effect : t.keyboard = s.keyboard.after e)
    (read : ∀ d, e = .getchar d → positive s.keyboard.ch = true ∧ d = s.keyboard.ch)
    (prompt : IsSilent e → charsRead later ≠ []) : KeptOrRead c (later ++ [e]) t.keyboard.ch := by
  rw [effect]
  cases e with
  | key scancode =>
      have silent : ¬CharKey scancode := noPress
      rcases kept with ⟨unread, _⟩ | ⟨once, _⟩
      · exact absurd unread (prompt silent)
      · exact Or.inr ⟨(charsRead_key later scancode).trans once, receive_silent silent _⟩
  | getchar d =>
      obtain ⟨there, value⟩ := read d rfl
      rcases kept with ⟨unread, now⟩ | ⟨_, now⟩
      · rw [now] at value
        rw [KeptOrRead, charsRead_getchar, unread, value]
        exact Or.inr ⟨rfl, rfl⟩
      · rw [now] at there
        exact absurd there Bool.false_ne_true

theorem KeyRun.pressed {s : Kernel σ} {before : List KeyEvent} {scancode : UInt8}
    (run : KeyRun hw s₀ (before ++ [.key scancode]) s) (char : CharKey scancode) :
    s.keyboard.ch ≠ 0 := by
  obtain ⟨t, _, effect, _⟩ := run.last
  intro empty
  have there := receive_press char t.keyboard
  rw [effect] at empty
  rw [show ((t.keyboard.setCh 0).receive scancode).ch = 0 from empty] at there
  exact absurd there Bool.false_ne_true

theorem charsRead_quiet {later : List KeyEvent} (quiet : ∀ e ∈ later, ¬IsRead e) :
    charsRead later = [] := by
  apply List.filterMap_eq_nil_iff.mpr
  intro e member
  cases e with
  | key _ => rfl
  | getchar c => exact absurd trivial (quiet _ member)

theorem isWaiting_of_unread {before later : List KeyEvent} {scancode : UInt8}
    (char : CharKey scancode) (noPress : ∀ e ∈ later, ¬IsPress e) (unread : charsRead later = []) :
    IsWaiting (before ++ .key scancode :: later) := by
  refine ⟨before, .key scancode, later, rfl, char, fun c y d split => ?_⟩
  have member : y ∈ later := by
    rw [split]
    exact List.mem_append_right c List.mem_cons_self
  refine ⟨fun reads => ?_, noPress y member⟩
  cases y with
  | key _ => exact reads
  | getchar c => exact absurd (List.filterMap_eq_nil_iff.mp unread _ member) (Option.some_ne_none c)

/-- A scan code without a character empties the slot, read or not. -/
theorem KeyRun.discards {first later : List KeyEvent} {scancode release : UInt8} {t u : Kernel σ}
    (atPress : KeyRun hw s₀ (first ++ [.key scancode]) t) (char : CharKey scancode)
    (quiet : ∀ e ∈ later, ¬IsRead e) (silent : ¬CharKey release)
    (atRelease : KeyRun hw s₀ (first ++ .key scancode :: (later ++ [.key release])) u) :
    ¬KeptOrRead t.keyboard.ch (later ++ [.key release]) u.keyboard.ch := by
  have split : first ++ KeyEvent.key scancode :: (later ++ [.key release]) =
      (first ++ .key scancode :: later) ++ [.key release] := by
    rw [List.append_assoc, List.cons_append]
  rw [split] at atRelease
  obtain ⟨w, _, effect, _⟩ := atRelease.last
  have empty : u.keyboard.ch = 0 := by
    rw [effect]
    exact receive_silent silent _
  have unread : charsRead (later ++ [.key release]) = [] := by
    rw [charsRead_key]
    exact charsRead_quiet quiet
  rintro (⟨_, now⟩ | ⟨once, _⟩)
  · exact atPress.pressed char (now.symm.trans empty)
  · rw [unread] at once
    cases once

/-- Along the events after a press, as long as no scan code without a character comes
too early. -/
theorem KeyRun.keeps {before : List KeyEvent} {scancode : UInt8} {t : Kernel σ}
    (pressed : KeyRun hw s₀ (before ++ [.key scancode]) t) (char : CharKey scancode)
    {later : List KeyEvent} (noPress : ∀ e ∈ later, ¬IsPress e)
    (prompt : ∀ past e rest, later = past ++ e :: rest → IsSilent e →
      ¬IsWaiting (before ++ .key scancode :: past)) {u : Kernel σ}
    (reached : KeyRun hw s₀ (before ++ .key scancode :: later) u) :
    KeptOrRead t.keyboard.ch later u.keyboard.ch := by
  induction later using List.reverseRecOn generalizing u with
  | nil =>
      refine Or.inl ⟨rfl, ?_⟩
      rw [reached.keyboard, pressed.keyboard]
  | append_singleton later e ih =>
      rw [← List.cons_append, ← List.append_assoc] at reached
      obtain ⟨v, earlier, effect, read⟩ := reached.last
      have early : ∀ y ∈ later, ¬IsPress y := fun y member =>
        noPress y (List.mem_append_left _ member)
      have before' : ∀ past y rest, later = past ++ y :: rest → IsSilent y →
          ¬IsWaiting (before ++ .key scancode :: past) := by
        rintro past y rest rfl
        exact prompt past y (rest ++ [e]) (List.append_assoc _ _ _)
      have kept := ih early before' earlier
      refine kept.snoc (noPress e (List.mem_append_right _ List.mem_cons_self)) effect read ?_
      intro silent unread
      exact prompt later e [] rfl silent (isWaiting_of_unread char early unread)

/-- Every character is kept until it is read once, unless another one is pressed, if and
only if no scan code without a character arrives while a character waits. -/
theorem unread_keys_kept_iff {s : Kernel σ} {events : List KeyEvent}
    (run : KeyRun hw s₀ events s) :
    (∀ before scancode later after t u, events = before ++ .key scancode :: (later ++ after) →
      CharKey scancode → (∀ e ∈ later, ¬IsPress e) →
      KeyRun hw s₀ (before ++ [.key scancode]) t →
      KeyRun hw s₀ (before ++ .key scancode :: later) u →
        KeptOrRead t.keyboard.ch later u.keyboard.ch) ↔
    (∀ before e after, events = before ++ e :: after → IsSilent e → ¬IsWaiting before) := by
  constructor
  · rintro kept before e after split silent ⟨first, press, later, rfl, pressed, quiet⟩
    have passed : ∀ y ∈ later, ¬IsRead y ∧ ¬IsPress y := by
      intro y member
      obtain ⟨c, d, inside⟩ := List.append_of_mem member
      exact quiet c y d inside
    cases e with
    | getchar c => exact silent
    | key release =>
        cases press with
        | getchar c => exact pressed
        | key scancode =>
            have whole : events =
                first ++ KeyEvent.key scancode :: ((later ++ [.key release]) ++ after) := by
              rw [split]
              simp only [List.append_assoc, List.cons_append, List.nil_append]
            have noPress : ∀ y ∈ later ++ [KeyEvent.key release], ¬IsPress y := by
              intro y member
              rcases List.mem_append.mp member with old | new
              · exact (passed y old).2
              · rw [List.mem_singleton.mp new]
                exact silent
            obtain ⟨t, atPress⟩ := run.before (whole.trans (List.append_cons _ _ _))
            have upTo : events =
                (first ++ KeyEvent.key scancode :: (later ++ [.key release])) ++ after := by
              rw [whole]
              simp only [List.append_assoc, List.cons_append]
            obtain ⟨u, atRelease⟩ := run.before upTo
            have discarded := atPress.discards pressed (fun y member => (passed y member).1) silent
              atRelease
            exact discarded (kept first scancode _ after t u whole pressed noPress atPress atRelease)
  · intro prompt before scancode later after t u split char noPress pressed reached
    refine pressed.keeps char noPress ?_ reached
    rintro past e rest rfl silent
    refine prompt (before ++ .key scancode :: past) e (rest ++ after) ?_ silent
    rw [split]
    simp only [List.append_assoc, List.cons_append]

/-- The release of a key throws its own unread character away. -/
theorem release_discards_key :
    ∃ t u, KeyRun byteQueue (zeroed [0x1E, 0x9E]) [.key 0x1E] t ∧
      KeyRun byteQueue (zeroed [0x1E, 0x9E]) [.key 0x1E, .key 0x9E] u ∧
      CharKey 0x1E ∧ ¬IsPress (.key 0x9E) ∧
      ¬KeptOrRead t.keyboard.ch [.key 0x9E] u.keyboard.ch := by
  obtain ⟨t, pressed, left⟩ := (KeyRun.start : KeyRun byteQueue (zeroed [0x1E, 0x9E]) [] _).deliver
    (List.append_cons [] 0x1E [0x9E])
  obtain ⟨u, released, _⟩ := pressed.deliver (left.trans (List.append_nil _).symm)
  refine ⟨t, u, pressed, released, by decide, ?_, ?_⟩
  · exact fun char => absurd (show CharKey 0x9E from char) (by decide)
  · rw [pressed.keyboard, released.keyboard]
    rintro (⟨_, now⟩ | ⟨once, _⟩)
    · exact absurd now (by decide)
    · cases once

theorem unread_keys_kept_iff_read :
    ∃ s, KeyRun byteQueue (zeroed [0x1E, 0x9E]) [.key 0x1E, .getchar 0x61, .key 0x9E] s ∧
      ∀ before scancode later after t u,
        [KeyEvent.key 0x1E, .getchar 0x61, .key 0x9E] =
          before ++ .key scancode :: (later ++ after) →
        CharKey scancode → (∀ e ∈ later, ¬IsPress e) →
        KeyRun byteQueue (zeroed [0x1E, 0x9E]) (before ++ [.key scancode]) t →
        KeyRun byteQueue (zeroed [0x1E, 0x9E]) (before ++ .key scancode :: later) u →
          KeptOrRead t.keyboard.ch later u.keyboard.ch := by
  obtain ⟨t, pressed, left⟩ := (KeyRun.start : KeyRun byteQueue (zeroed [0x1E, 0x9E]) [] _).deliver
    (List.append_cons [] 0x1E [0x9E])
  have slot : t.keyboard.ch = 0x61 := by
    rw [pressed.keyboard]
    rfl
  obtain ⟨u, read, same⟩ := kbGetchar_returns (s := t) (by rw [slot]; rfl)
  rw [slot] at read
  obtain ⟨s, run, _⟩ := (pressed.getchar read).deliver
    ((congrArg Machine.bus same).trans (left.trans (List.append_nil _).symm))
  refine ⟨s, run, (unread_keys_kept_iff run).mpr fun before e after split silent => ?_⟩
  change [KeyEvent.key 0x1E, .getchar 0x61, .key 0x9E] = before ++ e :: after at split
  match before, split with
  | [], split =>
      cases split
      exact absurd (by decide : CharKey 0x1E) silent
  | [_], split =>
      cases split
      exact silent.elim
  | [_, _], split =>
      cases split
      intro waiting
      rcases (isWaiting_snoc [.key 0x1E] (.getchar 0x61)).mp waiting with press | ⟨_, noRead, _⟩
      · exact press
      · exact noRead trivial
  | _ :: _ :: _ :: before, split => simp at split

end Runs

end VDK
