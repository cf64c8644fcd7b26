import VDK.Shell
import VDK.FileCalls

/-!
# Argument lines of the command loop

The line that was asked for as an argument is not set apart from commands: after the
pending command has run on it, the loop compares it with the commands as well.
-/
namespace VDK
open Fuel ByteMem

section Lines

variable {σ : Type} (hw : Bus σ) (fuel : Nat) (L : FsState σ → Locals)

theorem handleKey_newline : handleKey hw fuel L '\n'.toUInt8 =
    servePending hw fuel L >>= fun _ => Exec.modify fun s => s.dispatch.endLine := if_pos rfl

theorem line_run (line : Line) {s : Shell σ} (empty : s.bufferIndex = 0) :
    (commandLoop hw fuel L line.keys).run s =
      ((servePending hw fuel L >>= fun _ => Exec.modify fun s => s.dispatch.endLine).run
        (s.typed line.text.chars)) := by
  have room : s.bufferIndex + line.text.chars.length ≤ bufferSize - 1 := by
    rw [empty, Nat.zero_add]
    exact line.short
  have last : commandLoop hw fuel L ['\n'.toUInt8] = handleKey hw fuel L '\n'.toUInt8 :=
    Exec.bind_pure_eq (handleKey hw fuel L '\n'.toUInt8)
  rw [Line.keys, commandLoop_append, last, handleKey_newline, Exec.run_bind,
    commandLoop_typed hw fuel L line.single room, Exec.andThen_some]

end Lines

section Flags

variable {σ : Type}

/-- No argument is asked for and no command is pending. -/
structure AtPrompt (s : Shell σ) : Prop where
  isArg : s.isArg = false
  cmdEcho : s.cmdEcho = false
  cmdRead : s.cmdRead = false

/-- An argument is asked for by one of the two commands. -/
def Asked (s : Shell σ) : Prop :=
  s.isArg = true ∧
    ((s.cmdEcho = true ∧ s.cmdRead = false) ∨ (s.cmdEcho = false ∧ s.cmdRead = true))

theorem AtPrompt.of_same {s t : Shell σ} (quiet : AtPrompt s) (same : SameFlags s t) : AtPrompt t :=
  ⟨same.isArg.trans quiet.isArg, same.cmdEcho.trans quiet.cmdEcho, same.cmdRead.trans quiet.cmdRead⟩

theorem Asked.of_same {s t : Shell σ} (asked : Asked s) (same : SameFlags s t) : Asked t := by
  unfold Asked
  rw [same.isArg, same.cmdEcho, same.cmdRead]
  exact asked

theorem AtPrompt.not_asked {s : Shell σ} (quiet : AtPrompt s) : ¬s.isArg = true :=
  quiet.isArg ▸ Bool.false_ne_true

end Flags

section Serving

variable {σ : Type} (hw : Bus σ) (fuel : Nat) (L : FsState σ → Locals)

/-- What the pending command itself prints for the line as its argument. -/
def OwnOutput (line : Line) (s : Shell σ) (own : List PrintfCall) : Prop :=
  (s.cmdEcho = true ∧ own = [⟨"\n%s\n", [.chars line.text.chars]⟩]) ∨
  (s.cmdRead = true ∧ ∃ out t calls,
    (vdReadData hw fuel (L s.fs) line.text).run s.fs = (some out, t) ∧
    t.ide.printed = s.printed ++ calls ∧
    own = calls ++ [⟨"\nContents: %s\n", [.chars (out.takeWhile (· ≠ 0))]⟩])

/-- An array with a NUL in it holds a string that ends inside. -/
theorem heldText_holds {p : Ptr} {n : Nat} (ends : ∃ k, k < n ∧ p k = 0) :
    HoldsString p (heldText n p).chars ∧ (heldText n p).chars.length < n := by
  obtain ⟨k, less, nul⟩ := ends
  have member : (0 : UInt8) ∈ (List.range n).map p :=
    List.mem_map.mpr ⟨k, List.mem_range.mpr less, nul⟩
  have same : ∀ i, ∀ inside : i < ((List.range n).map p).length, p i = ((List.range n).map p)[i] := by
    intro i inside
    rw [List.getElem_map, List.getElem_range]
  refine ⟨(holdsString_takeWhile same (Or.inl member)).mpr rfl, ?_⟩
  have length : ((List.range n).map p).length = n := by rw [List.length_map, List.length_range]
  have part : (heldText n p).chars <+: (List.range n).map p := List.takeWhile_prefix _
  have bound := part.length_le
  rw [length] at bound
  refine Nat.lt_of_le_of_ne bound fun full => ?_
  rw [← part.eq_of_length (full.trans length.symm)] at member
  exact (heldText n p).noNul 0 member rfl

theorem heldText_eq {p : Ptr} {n : Nat} {t : Text} (holds : HoldsString p t.chars)
    (short : t.chars.length < n) : heldText n p = t := by
  have same : ∀ i, ∀ inside : i < ((List.range n).map p).length, p i = ((List.range n).map p)[i] := by
    intro i inside
    rw [List.getElem_map, List.getElem_range]
  have ends : t.chars.length < ((List.range n).map p).length := by
    rw [List.length_map, List.length_range]
    exact short
  exact Text.ext ((holdsString_takeWhile same (Or.inr ends)).mp holds)

theorem runEcho_idle {s : Shell σ} (idle : s.cmdEcho = false) : s.runEcho = s :=
  if_neg (idle ▸ Bool.false_ne_true)

theorem runEcho_pending {s : Shell σ} (pending : s.cmdEcho = true) :
    s.runEcho = { s.printf "\n%s\n" [.chars s.cmdArg1.chars] with cmdEcho := false } :=
  if_pos pending

theorem runRead_idle {s : Shell σ} (idle : s.cmdRead = false) :
    (runRead hw fuel L).run s = (some (), s) := by
  rw [runRead, Exec.run_bind, Exec.run_get, Exec.andThen_some,
    if_neg (idle ▸ Bool.false_ne_true), Exec.run_pure]

theorem runRead_pending {s : Shell σ} (pending : s.cmdRead = true) {out : List UInt8}
    {t : FsState σ} (ran : (vdReadData hw fuel (L s.fs) s.cmdArg1).run s.fs = (some out, t)) :
    (runRead hw fuel L).run s = (some (), { { s with fs := t }.printf
      "\nContents: %s\n" [.chars (out.takeWhile (· ≠ 0))] with cmdRead := false }) := by
  have data : (onFs (vdReadData hw fuel (L s.fs) s.cmdArg1)).run s =
      (some out, { s with fs := t }) := by
    rw [onFs_run, ran]
  rw [runRead, Exec.run_bind, Exec.run_get, Exec.andThen_some, if_pos pending, Exec.run_bind, data,
    Exec.andThen_some, Exec.run_modify]

/-- The pending command runs on the line; then nothing is pending, and the line is
still in the buffer. -/
theorem servePending_asked {line : Line} {s : Shell σ} (asked : Asked s)
    (holds : HoldsString s.terminate.buffer line.text.chars) {own : List PrintfCall}
    (output : OwnOutput hw fuel L line s own) :
    ∃ served, (servePending hw fuel L).run s = (some (), served) ∧ AtPrompt served ∧
      served.buffer = s.terminate.buffer ∧ served.printed = s.printed ++ own := by
  have taken : s.terminate.takeArgument = s.terminate.withArgument line.text := by
    unfold Shell.takeArgument
    rw [if_pos (show s.terminate.isArg = true from asked.1),
      heldText_eq holds (Nat.lt_succ_of_le line.short)]
  change ∃ served, (runRead hw fuel L).run s.terminate.takeArgument.runEcho = (some (), served) ∧ _
  rw [taken]
  rcases asked.2 with ⟨echo, read⟩ | ⟨echo, read⟩
  · rcases output with ⟨_, rfl⟩ | ⟨pending, _⟩
    · rw [runEcho_pending (s := s.terminate.withArgument line.text) echo]
      exact ⟨_, runRead_idle hw fuel L read, ⟨rfl, rfl, read⟩, rfl, rfl⟩
    · exact Bool.noConfusion (read.symm.trans pending)
  · rcases output with ⟨pending, _⟩ | ⟨_, out, t, calls, ran, printed, rfl⟩
    · exact Bool.noConfusion (echo.symm.trans pending)
    · rw [runEcho_idle (s := s.terminate.withArgument line.text) echo]
      have data : (vdReadData hw fuel (L (s.terminate.withArgument line.text).fs)
          (s.terminate.withArgument line.text).cmdArg1).run
            (s.terminate.withArgument line.text).fs = (some out, t) := ran
      have contents := runRead_pending hw fuel L (s := s.terminate.withArgument line.text) read data
      refine ⟨_, contents, ⟨rfl, echo, rfl⟩, rfl, ?_⟩
      rw [← List.append_assoc, ← printed]
      rfl

theorem servePending_quiet {s : Shell σ} (quiet : AtPrompt s) :
    (servePending hw fuel L).run s = (some (), s.terminate) := by
  have taken : s.terminate.takeArgument = s.terminate := if_neg quiet.not_asked
  change (runRead hw fuel L).run s.terminate.takeArgument.runEcho = _
  rw [taken, runEcho_idle (s := s.terminate) quiet.cmdEcho]
  exact runRead_idle hw fuel L quiet.cmdRead

end Serving

section Dispatch

variable {σ : Type}

/-- The line is one of the two commands that ask for an argument. -/
def AsksArgument (line : Text) : Prop := line = echoCommand ∨ line = readCommand

instance (line : Text) : Decidable (AsksArgument line) :=
  inferInstanceAs (Decidable (line = echoCommand ∨ line = readCommand))

theorem strcmpText_line {p : Ptr} {line : Text} (holds : HoldsString p line.chars) (t : Text) :
    strcmpText p t = some 0 ↔ line = t := by
  rw [strcmpText_eq_zero]
  constructor
  · exact fun h => Text.ext (holds.unique h)
  · rintro rfl
    exact holds

/-- What the comparisons can do: print something and leave the flags, or ask for an
argument. -/
theorem dispatch_cases {s : Shell σ} (quiet : AtPrompt s) {line : Text}
    (holds : HoldsString s.buffer line.chars) :
    (¬AsksArgument line ∧ AtPrompt s.dispatch ∧
      ∃ call calls, s.dispatch.printed = s.printed ++ call :: calls) ∨
    (AsksArgument line ∧ Asked s.dispatch) := by
  unfold Shell.dispatch AsksArgument
  simp only [strcmpText_line holds]
  by_cases hello : line = helloCommand
  · subst hello
    exact Or.inl ⟨by decide, ⟨quiet.isArg, quiet.cmdEcho, quiet.cmdRead⟩, _, [], rfl⟩
  · rw [if_neg hello]
    by_cases help : line = helpCommand
    · subst help
      refine Or.inl ⟨by decide, ⟨quiet.isArg, quiet.cmdEcho, quiet.cmdRead⟩, ?_⟩
      simp only [if_true, printf_printed, List.append_assoc, List.cons_append, List.nil_append]
      exact ⟨_, _, rfl⟩
    · rw [if_neg help]
      by_cases echo : line = echoCommand
      · rw [if_pos echo]
        exact Or.inr ⟨Or.inl echo, rfl, Or.inl ⟨rfl, quiet.cmdRead⟩⟩
      · rw [if_neg echo]
        by_cases read : line = readCommand
        · rw [if_pos read]
          exact Or.inr ⟨Or.inr read, rfl, Or.inr ⟨quiet.cmdEcho, rfl⟩⟩
        · -- the test on the two flags is always true
          have tested : (!s.cmdEcho || !s.cmdRead) = true := by rw [quiet.cmdEcho]; rfl
          rw [if_neg read, if_pos tested]
          refine Or.inl ⟨fun asks => asks.elim echo read, ?_, _, [], rfl⟩
          exact ⟨quiet.isArg, quiet.cmdEcho, quiet.cmdRead⟩

theorem endLine_flags (s : Shell σ) : SameFlags s s.endLine := by
  unfold Shell.endLine
  split
  · exact ⟨rfl, rfl, rfl⟩
  · exact ⟨rfl, rfl, rfl⟩

theorem endLine_index (s : Shell σ) : s.endLine.bufferIndex = 0 := by
  unfold Shell.endLine
  split
  · rfl
  · rfl

theorem endLine_prompt {s : Shell σ} (quiet : AtPrompt s) :
    s.endLine.printed = s.printed ++ [⟨"> ", []⟩] := by
  unfold Shell.endLine
  rw [if_neg quiet.not_asked]
  rfl

end Dispatch

section Arguments

variable {σ : Type} (hw : Bus σ) (fuel : Nat) (L : FsState σ → Locals)

/-- The line is used as an argument only: the command's own output and the prompt are
all that is printed behind the characters typed, and nothing is pending. -/
def UsedAsArgument (line : Line) (s : Shell σ) : Prop :=
  ∃ own after, OwnOutput hw fuel L line (s.typed line.text.chars) own ∧
    (commandLoop hw fuel L line.keys).run s = (some (), after) ∧
    after.printed = (s.typed line.text.chars).printed ++ own ++ [⟨"> ", []⟩] ∧ AtPrompt after

/-- Every line that is read while an argument is asked for is used as one. -/
def ArgumentsUsed : Shell σ → List Line → Prop
  | _, [] => True
  | s, line :: lines => (s.isArg = true → UsedAsArgument hw fuel L line s) ∧
      ∀ t, (commandLoop hw fuel L line.keys).run s = (some (), t) → ArgumentsUsed t lines

/-- The comparisons never leave an argument alone: they print something more or ask
for another one. -/
theorem never_only_argument (line : Line) {s : Shell σ} (asked : Asked s)
    (empty : s.bufferIndex = 0) : ¬UsedAsArgument hw fuel L line s := by
  rintro ⟨own, after, output, whole, printed, still⟩
  have pending := asked.of_same (typed_flags line.text.chars s)
  have held : HoldsString (s.typed line.text.chars).terminate.buffer line.text.chars :=
    terminate_holds empty
  obtain ⟨served, ran, quiet, buffer, shown⟩ := servePending_asked hw fuel L pending held output
  rw [line_run hw fuel L line empty, Exec.run_bind, ran, Exec.andThen_some] at whole
  cases whole
  rcases dispatch_cases quiet (buffer.symm ▸ held) with ⟨_, rest, call, calls, more⟩ | ⟨_, again⟩
  · rw [endLine_prompt rest, more, shown, List.append_assoc] at printed
    have lengths := congrArg List.length (List.append_cancel_left printed)
    simp only [List.length_append, List.length_cons, List.length_nil] at lengths
    omega
  · exact still.not_asked ((endLine_flags _).isArg.trans again.1)

theorem prompt_line (line : Line) {s : Shell σ} (quiet : AtPrompt s) (empty : s.bufferIndex = 0) :
    ∃ t, (commandLoop hw fuel L line.keys).run s = (some (), t) ∧ t.bufferIndex = 0 ∧
      ((AsksArgument line.text ∧ Asked t) ∨ (¬AsksArgument line.text ∧ AtPrompt t)) := by
  have idle := quiet.of_same (typed_flags line.text.chars s)
  have ended : AtPrompt (s.typed line.text.chars).terminate := idle.of_same ⟨rfl, rfl, rfl⟩
  refine ⟨(s.typed line.text.chars).terminate.dispatch.endLine, ?_, endLine_index _, ?_⟩
  · rw [line_run hw fuel L line empty, Exec.run_bind, servePending_quiet hw fuel L idle]
    rfl
  · rcases dispatch_cases ended (terminate_holds empty) with ⟨plain, rest, _⟩ | ⟨asks, asked⟩
    · exact Or.inr ⟨plain, rest.of_same (endLine_flags _)⟩
    · exact Or.inl ⟨asks, asked.of_same (endLine_flags _)⟩

theorem arguments_used_from_prompt (lines : List Line) {s : Shell σ} (quiet : AtPrompt s)
    (empty : s.bufferIndex = 0) :
    ArgumentsUsed hw fuel L s lines ↔ ∀ line ∈ lines.dropLast, ¬AsksArgument line.text := by
  induction lines generalizing s with
  | nil => exact iff_of_true trivial (List.forall_mem_nil _)
  | cons line lines ih =>
      obtain ⟨t, ran, empty', next⟩ := prompt_line hw fuel L line quiet empty
      have step : ArgumentsUsed hw fuel L s (line :: lines) ↔ ArgumentsUsed hw fuel L t lines := by
        constructor
        · exact fun h => h.2 t ran
        · intro h
          refine ⟨fun asked => absurd asked quiet.not_asked, fun u ran' => ?_⟩
          cases ran.symm.trans ran'
          exact h
      rw [step]
      cases lines with
      | nil => exact iff_of_true trivial (List.forall_mem_nil _)
      | cons argument lines =>
          rw [List.dropLast_cons_cons, List.forall_mem_cons]
          rcases next with ⟨asks, asked⟩ | ⟨plain, rest⟩
          · refine iff_of_false (fun h => ?_) fun h => h.1 asks
            exact never_only_argument hw fuel L argument asked empty' (h.1 asked.1)
          · rw [ih rest empty']
            exact (and_iff_right plain).symm

/-- The lines typed from the first prompt on are used as the arguments they were asked
for if and only if no line before the last one asks for an argument. -/
theorem arguments_used_iff (fs : FsState σ) (junk : Ptr) (lines : List Line) :
    ArgumentsUsed hw fuel L (Shell.start fs junk) lines ↔
      ∀ line ∈ lines.dropLast, ¬AsksArgument line.text :=
  arguments_used_from_prompt hw fuel L lines ⟨rfl, rfl, rfl⟩ rfl

def echoLine : Line := ⟨echoCommand, by decide, by decide⟩

def helloLine : Line := ⟨helloCommand, by decide, by decide⟩

end Arguments

/-- `echo`, then `hello`: the argument is echoed, and then taken for the command. -/
theorem hello_greeted :
    ¬ArgumentsUsed (steadyBus 0) 0 (fun _ => sampleLocals) (Shell.start driveless fun _ => 0)
      [echoLine, helloLine] ∧
    ((commandLoop (steadyBus 0) 0 (fun _ => sampleLocals) (echoLine.keys ++ helloLine.keys)).run
      (Shell.start driveless fun _ => 0)).2.printed.drop 10 =
        [⟨"\n%s\n", [.chars helloCommand.chars]⟩, ⟨"\nHi there!\n", []⟩, ⟨"> ", []⟩] := by
  refine ⟨fun used => ?_, by decide⟩
  exact (arguments_used_from_prompt _ _ _ _ ⟨rfl, rfl, rfl⟩ rfl).mp used echoLine List.mem_cons_self
    (Or.inl rfl)

end VDK
