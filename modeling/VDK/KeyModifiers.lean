import VDK.KeyRuns

/-!
# Shift and caps lock over a history of scan codes

The modifiers are defined from the scan codes alone, and compared with the two flags
the handler keeps. The caps lock flag is right; the shift flag is set by the left
shift key, cleared by the next key with caps lock off and never by a release.
-/
namespace VDK
open Atomic Fuel Kernel PastTime

section Modifiers

/-- The latest event of the key was its make code. -/
def KeyIsDown (key : UInt8) : List UInt8 → Prop :=
  Since (fun _ code => code = key) fun _ code => code ≠ key ||| 0x80

def ShiftIsDown (codes : List UInt8) : Prop :=
  KeyIsDown scanCodeKeyLeftShift codes ∨ KeyIsDown scanCodeKeyRightShift codes

def CapsLockIsOn (codes : List UInt8) : Prop := codes.count scanCodeKeyCapsLock % 2 = 1

instance (codes : List UInt8) : Decidable (CapsLockIsOn codes) :=
  inferInstanceAs (Decidable (codes.count scanCodeKeyCapsLock % 2 = 1))

/-- A make code the switch has no case for. -/
def TakesDefault (code : UInt8) : Prop :=
  code < 0x80 ∧ code ≠ scanCodeKeyCapsLock ∧ code ≠ scanCodeKeyEnter ∧ code ≠ scanCodeKeyTab ∧
    code ≠ scanCodeKeyLeftShift

/-- Since a make code of the left shift key, no other key has been pressed with caps
lock off, apart from caps lock, enter and tab. -/
def ShiftIsPending : List UInt8 → Prop :=
  Since (fun _ code => code = scanCodeKeyLeftShift) fun before code =>
    TakesDefault code → CapsLockIsOn before

/-- What a character key with entry `e` is to produce. -/
structure Produces (shift caps : Prop) (e c : UInt8) : Prop where
  letter : isalpha e = true → ((¬(shift ↔ caps) → c = upper e) ∧ ((shift ↔ caps) → c = e))
  other : isalpha e = false → ((shift → c = alternateChars e) ∧ (¬shift → c = e))

/-- The entries for which it matters whether a shift key is down. -/
def ShiftMatters (e : UInt8) : Prop := isalpha e = true ∨ alternateChars e ≠ e

theorem capsLockIsOn_snoc (codes : List UInt8) (code : UInt8) :
    CapsLockIsOn (codes ++ [code]) ↔
      if code = scanCodeKeyCapsLock then ¬CapsLockIsOn codes else CapsLockIsOn codes := by
  unfold CapsLockIsOn
  rw [List.count_append, List.count_singleton]
  by_cases here : code = scanCodeKeyCapsLock
  · simp only [here, beq_self_eq_true, if_true]
    omega
  · have differs : (code == scanCodeKeyCapsLock) = false := beq_false_of_ne here
    simp only [here, differs, if_false, Bool.false_eq_true, Nat.add_zero]

theorem isMake_iff (scancode : UInt8) : scancode &&& 0x80 = 0 ↔ scancode < 0x80 := by
  have all : ∀ x : BitVec 8, x &&& 0x80#8 = 0#8 ↔ x < 0x80#8 := by decide
  rw [UInt8.lt_iff_toBitVec_lt, ← UInt8.toBitVec_inj]
  exact all scancode.toBitVec

/-- What holds of the listed entries and of zero holds of every entry. -/
theorem scanCodeChars_all {P : UInt8 → Bool}
    (listed : (scanCodeTable.map Char.toUInt8).all P = true) (zero : P 0 = true)
    (scancode : UInt8) : P (scanCodeChars scancode) = true := by
  unfold scanCodeChars
  rw [List.getD_eq_getElem?_getD]
  rcases h : (scanCodeTable.map Char.toUInt8)[scancode.toNat]? with _ | c
  · exact zero
  · exact List.all_eq_true.mp listed c (List.mem_of_getElem? h)

/-- The letters of the table are lower case and have no alternate character. -/
theorem scanCodeChars_letter (scancode : UInt8)
    (letter : isalpha (scanCodeChars scancode) = true) :
    upper (scanCodeChars scancode) ≠ scanCodeChars scancode ∧
      alternateChars (scanCodeChars scancode) = scanCodeChars scancode := by
  have all := scanCodeChars_all (by decide : (scanCodeTable.map Char.toUInt8).all
    (fun c => !isalpha c || (upper c != c && alternateChars c == c)) = true) rfl scancode
  simpa [letter] using all

theorem upper_of_not_letter {c : UInt8} (other : isalpha c = false) : upper c = c := by
  apply if_neg
  intro lower
  simp [isalpha, lower] at other

theorem Produces.congr {shift shift' caps : Prop} {e c : UInt8} (h : Produces shift caps e c)
    (same : shift ↔ shift') : Produces shift' caps e c :=
  (propext same) ▸ h

theorem Produces.of_indifferent {shift shift' caps : Prop} {e c : UInt8}
    (h : Produces shift caps e c) (indifferent : ¬ShiftMatters e) : Produces shift' caps e c := by
  have plain : isalpha e = false :=
    Bool.eq_false_iff.mpr fun letter => indifferent (Or.inl letter)
  have same : alternateChars e = e := Classical.byContradiction fun differs =>
    indifferent (Or.inr differs)
  have value : c = e := by
    by_cases pressed : shift
    · exact ((h.other plain).1 pressed).trans same
    · exact (h.other plain).2 pressed
  refine ⟨fun letter => ?_, fun _ => ⟨fun _ => value.trans same.symm, fun _ => value⟩⟩
  rw [plain] at letter
  cases letter

theorem Produces.shift_unique {shift shift' caps : Prop} {scancode c : UInt8}
    (h : Produces shift caps (scanCodeChars scancode) c)
    (k : Produces shift' caps (scanCodeChars scancode) c)
    (sensitive : ShiftMatters (scanCodeChars scancode)) : shift ↔ shift' := by
  by_cases letter : isalpha (scanCodeChars scancode) = true
  · have cases := h.letter letter
    have cases' := k.letter letter
    have differs := (scanCodeChars_letter scancode letter).1
    by_cases agree : (shift ↔ caps)
    · by_cases agree' : (shift' ↔ caps)
      · exact agree.trans agree'.symm
      · exact absurd ((cases'.1 agree').symm.trans (cases.2 agree)) differs
    · by_cases agree' : (shift' ↔ caps)
      · exact absurd ((cases.1 agree).symm.trans (cases'.2 agree')) differs
      · tauto
  · have plain := Bool.eq_false_iff.mpr letter
    have differs := sensitive.resolve_left letter
    have cases := h.other plain
    have cases' := k.other plain
    by_cases pressed : shift
    · by_cases pressed' : shift'
      · exact ⟨fun _ => pressed', fun _ => pressed⟩
      · exact absurd ((cases.1 pressed).symm.trans (cases'.2 pressed')) differs
    · by_cases pressed' : shift'
      · exact absurd ((cases'.1 pressed').symm.trans (cases.2 pressed)) differs
      · exact ⟨fun p => absurd p pressed, fun p => absurd p pressed'⟩

end Modifiers

section Flags

/-- The two flags after a history. -/
structure FlagsAfter (codes : List UInt8) (k : Keyboard) : Prop where
  caps : k.capsLock = true ↔ CapsLockIsOn codes
  shift : k.shiftPressed = true ↔ ShiftIsPending codes

instance (code : UInt8) : Decidable (TakesDefault code) :=
  inferInstanceAs (Decidable (code < 0x80 ∧ _))

theorem keyDown_flags (scancode : UInt8) (k : Keyboard) :
    (k.keyDown scancode).capsLock = k.capsLock ∧
      (k.keyDown scancode).shiftPressed = (k.capsLock && k.shiftPressed) := by
  rcases k with ⟨caps, shift, ch, code⟩
  cases caps
  · cases shift <;> exact ⟨rfl, rfl⟩
  · cases shift <;> exact ⟨rfl, rfl⟩

theorem receive_flags (scancode : UInt8) (k : Keyboard) :
    (k.receive scancode).capsLock =
        (if scancode = scanCodeKeyCapsLock then !k.capsLock else k.capsLock) ∧
      (k.receive scancode).shiftPressed =
        (if scancode = scanCodeKeyLeftShift then true
          else if TakesDefault scancode then k.capsLock && k.shiftPressed
          else k.shiftPressed) := by
  have make := isMake_iff scancode
  unfold Keyboard.receive
  dsimp only
  by_cases broken : scancode &&& 0x80 ≠ 0
  · have high : ¬scancode < 0x80 := fun low => broken (make.mpr low)
    have caps : scancode ≠ scanCodeKeyCapsLock := by
      rintro rfl
      exact high (by decide)
    have shift : scancode ≠ scanCodeKeyLeftShift := by
      rintro rfl
      exact high (by decide)
    rw [if_pos broken, if_neg caps, if_neg shift, if_neg fun taken => high taken.1]
    exact ⟨rfl, rfl⟩
  · have low : scancode < 0x80 := make.mp (not_not.mp broken)
    rw [if_neg broken]
    by_cases caps : scancode = scanCodeKeyCapsLock
    · subst caps
      exact ⟨rfl, rfl⟩
    · by_cases enter : scancode = scanCodeKeyEnter
      · subst enter
        exact ⟨rfl, rfl⟩
      · by_cases tab : scancode = scanCodeKeyTab
        · subst tab
          exact ⟨rfl, rfl⟩
        · by_cases shift : scancode = scanCodeKeyLeftShift
          · subst shift
            exact ⟨rfl, rfl⟩
          · rw [if_neg caps, if_neg enter, if_neg tab, if_neg shift, if_neg caps, if_neg shift,
              if_pos ⟨low, caps, enter, tab, shift⟩]
            exact keyDown_flags scancode { k with scanCode := scancode }

theorem FlagsAfter.receive {codes : List UInt8} {k : Keyboard} (h : FlagsAfter codes k)
    (scancode : UInt8) : FlagsAfter (codes ++ [scancode]) ((k.setCh 0).receive scancode) := by
  obtain ⟨caps, shift⟩ := receive_flags scancode (k.setCh 0)
  constructor
  · rw [caps, capsLockIsOn_snoc, ← h.caps]
    by_cases toggles : scancode = scanCodeKeyCapsLock
    · rw [if_pos toggles, if_pos toggles, Bool.not_eq_true', Bool.not_eq_true]
      rfl
    · rw [if_neg toggles, if_neg toggles]
      rfl
  · have pending : ShiftIsPending (codes ++ [scancode]) ↔ scancode = scanCodeKeyLeftShift ∨
        (ShiftIsPending codes ∧ (TakesDefault scancode → CapsLockIsOn codes)) := since_snoc _ _
    rw [shift, pending, ← h.caps, ← h.shift]
    by_cases sets : scancode = scanCodeKeyLeftShift
    · rw [if_pos sets]
      exact ⟨fun _ => Or.inl sets, fun _ => rfl⟩
    · rw [if_neg sets]
      by_cases default : TakesDefault scancode
      · rw [if_pos default, Bool.and_eq_true]
        exact ⟨fun both => Or.inr ⟨both.2, fun _ => both.1⟩, fun either =>
          ⟨(either.resolve_left sets).2 default, (either.resolve_left sets).1⟩⟩
      · rw [if_neg default]
        exact ⟨fun there => Or.inr ⟨there, fun taken => absurd taken default⟩, fun either =>
          (either.resolve_left sets).1⟩

/-- The flags are those of the scan codes, whatever else happened. -/
theorem KeyRun.flags {σ : Type} {hw : Bus σ} {s₀ s : Kernel σ} {events : List KeyEvent}
    (run : KeyRun hw s₀ events s) (fresh : FlagsAfter [] s₀.keyboard) :
    FlagsAfter (scanCodes events) s.keyboard := by
  induction run with
  | start => exact fresh
  | @key events s t _ handled ih =>
      have after := keyboardHandler_after hw handled
      generalize t.keyboard.scanCode = code at after ⊢
      rw [scanCodes_key, after]
      exact ih.receive code
  | getchar _ returned ih =>
      rw [scanCodes_getchar, (kbGetchar_after returned).2.2]
      exact ⟨ih.caps, ih.shift⟩
  | other _ same ih =>
      rw [same]
      exact ih

theorem fresh_flags {k : Keyboard} (caps : k.capsLock = false) (shift : k.shiftPressed = false) :
    FlagsAfter [] k where
  caps := by
    rw [caps]
    exact ⟨fun h => absurd h Bool.false_ne_true, fun h => absurd h Nat.zero_ne_one⟩
  shift := by
    rw [shift]
    exact ⟨fun h => absurd h Bool.false_ne_true, fun h => absurd h not_since_nil⟩

end Flags

section Characters

theorem keyDown_produces (scancode : UInt8) (k : Keyboard) :
    Produces (k.shiftPressed = true) (k.capsLock = true) (scanCodeChars scancode)
      (k.keyDown scancode).ch := by
  rcases k with ⟨caps, shift, ch, code⟩
  have plain := fun letter => (scanCodeChars_letter scancode letter).2
  cases caps
  · cases shift
    · exact ⟨fun _ => ⟨fun differ => absurd Iff.rfl differ, fun _ => rfl⟩,
        fun _ => ⟨fun pressed => absurd pressed Bool.false_ne_true, fun _ => rfl⟩⟩
    · refine ⟨fun letter => ⟨fun _ => ?_, fun agree => ?_⟩, fun other => ⟨fun _ => ?_, ?_⟩⟩
      · exact if_pos letter
      · exact absurd (agree.mp rfl) Bool.false_ne_true
      · exact if_neg (Bool.eq_false_iff.mp other)
      · exact fun released => absurd rfl released
  · cases shift
    · refine ⟨fun _ => ⟨fun _ => rfl, fun agree => ?_⟩, fun other => ⟨fun pressed => ?_, ?_⟩⟩
      · exact absurd (agree.mpr rfl) Bool.false_ne_true
      · exact absurd pressed Bool.false_ne_true
      · exact fun _ => upper_of_not_letter other
    · refine ⟨fun letter => ⟨fun differ => absurd Iff.rfl differ, fun _ => plain letter⟩,
        fun _ => ⟨fun _ => rfl, fun released => absurd rfl released⟩⟩

/-- The character of a key, by the two flags the handler finds. -/
theorem receive_produces {scancode : UInt8} (char : CharKey scancode) (k : Keyboard) :
    Produces (k.shiftPressed = true) (k.capsLock = true) (scanCodeChars scancode)
      (k.receive scancode).ch := by
  have make := isMake_iff scancode
  unfold Keyboard.receive
  dsimp only
  rw [if_neg (not_not.mpr (make.mpr char.1))]
  by_cases caps : scancode = scanCodeKeyCapsLock
  · subst caps
    exact absurd rfl char.2
  · rw [if_neg caps]
    by_cases enter : scancode = scanCodeKeyEnter
    · subst enter
      exact ⟨fun letter => absurd letter Bool.false_ne_true, fun _ => ⟨fun _ => rfl, fun _ => rfl⟩⟩
    · rw [if_neg enter]
      by_cases tab : scancode = scanCodeKeyTab
      · subst tab
        exact ⟨fun letter => absurd letter Bool.false_ne_true, fun _ => ⟨fun _ => rfl, fun _ => rfl⟩⟩
      · rw [if_neg tab]
        by_cases shift : scancode = scanCodeKeyLeftShift
        · subst shift
          exact absurd rfl char.2
        · rw [if_neg shift]
          exact keyDown_produces scancode { k with scanCode := scancode }

/-- Every key produces the character of the held modifiers if and only if, at every key
for which it matters, a shift key is held exactly when the left shift key is pending. -/
theorem key_chars_iff {σ : Type} {hw : Bus σ} {s₀ s : Kernel σ} {events : List KeyEvent}
    (caps : s₀.keyboard.capsLock = false) (shift : s₀.keyboard.shiftPressed = false)
    (run : KeyRun hw s₀ events s) :
    (∀ before scancode after t, events = before ++ .key scancode :: after → CharKey scancode →
      KeyRun hw s₀ (before ++ [.key scancode]) t →
        Produces (ShiftIsDown (scanCodes before)) (CapsLockIsOn (scanCodes before))
          (scanCodeChars scancode) t.keyboard.ch) ↔
    (∀ before scancode after, events = before ++ .key scancode :: after → CharKey scancode →
      ShiftMatters (scanCodeChars scancode) →
        (ShiftIsDown (scanCodes before) ↔ ShiftIsPending (scanCodes before))) := by
  have code : ∀ before scancode t, CharKey scancode → KeyRun hw s₀ (before ++ [.key scancode]) t →
      Produces (ShiftIsPending (scanCodes before)) (CapsLockIsOn (scanCodes before))
        (scanCodeChars scancode) t.keyboard.ch := by
    intro before scancode t char ran
    obtain ⟨u, earlier, final, _⟩ := ran.last
    have flags := earlier.flags (fresh_flags caps shift)
    have produced := receive_produces char (u.keyboard.setCh 0)
    rw [final, ← propext flags.caps, ← propext flags.shift]
    exact produced
  constructor
  · intro right before scancode after split char sensitive
    obtain ⟨t, ran⟩ := run.before (by rw [split, List.append_cons] :
      events = (before ++ [.key scancode]) ++ after)
    exact (right before scancode after t split char ran).shift_unique
      (code before scancode t char ran) sensitive
  · intro same before scancode after t split char ran
    by_cases sensitive : ShiftMatters (scanCodeChars scancode)
    · exact (code before scancode t char ran).congr
        (same before scancode after split char sensitive).symm
    · exact (code before scancode t char ran).of_indifferent sensitive

/-- With the left shift key held, only the first letter is upper case. -/
theorem shifted_letters_lowercase :
    ∃ s, KeyRun byteQueue (zeroed [0x2A, 0x1E, 0x30]) [.key 0x2A, .key 0x1E, .key 0x30] s ∧
      CharKey 0x30 ∧ ¬Produces (ShiftIsDown [0x2A, 0x1E]) (CapsLockIsOn [0x2A, 0x1E])
        (scanCodeChars 0x30) s.keyboard.ch := by
  obtain ⟨s, run, _⟩ := (KeyRun.start : KeyRun byteQueue (zeroed [0x2A, 0x1E, 0x30]) [] _).deliver
    (List.append_nil _).symm
  refine ⟨s, run, by decide, fun produced => ?_⟩
  have held : ShiftIsDown [0x2A, 0x1E] := by
    refine Or.inl ⟨[], 0x2A, [0x1E], rfl, rfl, fun c y d split => ?_⟩
    have later : y ∈ ([0x1E] : List UInt8) := by
      rw [split]
      exact List.mem_append_right c List.mem_cons_self
    rw [List.mem_singleton.mp later]
    exact (by decide : (0x1E : UInt8) ≠ scanCodeKeyLeftShift ||| 0x80)
  have off : ¬CapsLockIsOn [0x2A, 0x1E] := by decide
  have upperCase := (produced.letter (by decide)).1 fun same => off (same.mp held)
  rw [run.keyboard] at upperCase
  exact absurd upperCase (by decide)

theorem key_chars_iff_shifted :
    ∃ s, KeyRun byteQueue (zeroed [0x2A, 0x1E]) [.key 0x2A, .key 0x1E] s ∧
      ∀ before scancode after t, [KeyEvent.key 0x2A, .key 0x1E] = before ++ .key scancode :: after →
        CharKey scancode → KeyRun byteQueue (zeroed [0x2A, 0x1E]) (before ++ [.key scancode]) t →
          Produces (ShiftIsDown (scanCodes before)) (CapsLockIsOn (scanCodes before))
            (scanCodeChars scancode) t.keyboard.ch := by
  obtain ⟨s, run, _⟩ := (KeyRun.start : KeyRun byteQueue (zeroed [0x2A, 0x1E]) [] _).deliver
    (List.append_nil _).symm
  refine ⟨s, run, (key_chars_iff rfl rfl run).mpr fun before scancode after split char _ => ?_⟩
  change [KeyEvent.key 0x2A, .key 0x1E] = before ++ .key scancode :: after at split
  match before, split with
  | [], split =>
      cases split
      exact absurd char (by decide)
  | [_], split =>
      cases split
      have pressed : ∀ holds : List UInt8 → UInt8 → Prop,
          Since (fun _ code => code = scanCodeKeyLeftShift) holds [0x2A] := fun holds =>
        (since_snoc [] _).mpr (Or.inl rfl)
      exact ⟨fun _ => pressed _, fun _ => Or.inl (pressed _)⟩
  | _ :: _ :: before, split => simp at split

end Characters

end VDK
