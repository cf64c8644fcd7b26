import VDK.FileSystem
import Mathlib.Data.List.GetD

/-!
# The command loop of `kmain` (`libsa/main.c`)

One round of the loop per character. A newline ends a line: an argument that was
asked for is taken, a pending `echo` or `read` runs on it, and then the line is
compared with the commands. The characters come from `kb_getchar`, so none of them
is a NUL.
-/
namespace VDK
open Fuel ByteMem

abbrev bufferSize : Nat := 100

/-- The flags and the argument are the globals of `main.c`; `buffer` and `bufferIndex`
are locals of `kmain`. -/
structure Shell (σ : Type) where
  fs : FsState σ
  isArg : Bool
  argPassed : Bool
  cmdEcho : Bool
  cmdRead : Bool
  cmdArg1 : Text
  buffer : Ptr
  bufferIndex : Nat

/-- The string a character array of `n` bytes holds. -/
def heldText (n : Nat) (p : Ptr) : Text where
  chars := ((List.range n).map p).takeWhile (· ≠ 0)
  noNul c member := of_decide_eq_true (List.all_eq_true.mp List.all_takeWhile c member)

def helloCommand : Text := Text.ofChars "hello".toList rfl
def helpCommand : Text := Text.ofChars "help".toList rfl
def echoCommand : Text := Text.ofChars "echo".toList rfl
def readCommand : Text := Text.ofChars "read".toList rfl

namespace Shell

variable {σ : Type}

def start (fs : FsState σ) (junk : Ptr) : Shell σ where
  fs := fs
  isArg := false
  argPassed := false
  cmdEcho := false
  cmdRead := false
  cmdArg1 := Text.empty
  buffer := junk
  bufferIndex := 0

def printed (s : Shell σ) : List PrintfCall := s.fs.ide.printed

def printf (fmt : String) (args : List PrintfArg) (s : Shell σ) : Shell σ :=
  { s with fs := { s.fs with ide := s.fs.ide.printf fmt args } }

/-- `buffer[buffer_index++] = c`, with its echo. -/
def putKey (c : UInt8) (s : Shell σ) : Shell σ :=
  { s with buffer := s.buffer.set s.bufferIndex c, bufferIndex := s.bufferIndex + 1 }.printf
    "%c" [.chars [c]]

/-- `buffer[buffer_index] = '\0'`. -/
def terminate (s : Shell σ) : Shell σ := { s with buffer := s.buffer.set s.bufferIndex 0 }

def withArgument (s : Shell σ) (arg : Text) : Shell σ :=
  { s with cmdArg1 := arg, isArg := false, argPassed := true }

/-- `if (isArg)`. -/
def takeArgument (s : Shell σ) : Shell σ :=
  if s.isArg then s.withArgument (heldText bufferSize s.buffer) else s

/-- `if (CMDecho)`. -/
def runEcho (s : Shell σ) : Shell σ :=
  if s.cmdEcho then { s.printf "\n%s\n" [.chars s.cmdArg1.chars] with cmdEcho := false } else s

/-- The comparisons of the line with the commands. -/
def dispatch (s : Shell σ) : Shell σ :=
  if strcmpText s.buffer helloCommand = some 0 then s.printf "\nHi there!\n" []
  else if strcmpText s.buffer helpCommand = some 0 then
    s.printf "\nList of commands:\n" []
      |>.printf "\nhello - Simply prints Hi There!.\n" []
      |>.printf "echo X - Repeats X.\n" []
      |>.printf "read X - Reads file X and prints it's contents.\n" []
  else if strcmpText s.buffer echoCommand = some 0 then
    { s.printf "\nFirst argument: " [] with isArg := true, cmdEcho := true }
  else if strcmpText s.buffer readCommand = some 0 then
    { s.printf "\nFirst argument: " [] with isArg := true, cmdRead := true }
  else if !s.cmdEcho || !s.cmdRead then
    s.printf "\nUnrecognized command: %s\n" [.chars (heldText bufferSize s.buffer).chars]
  else s

/-- The buffer is reset, and the prompt printed unless an argument is asked for. -/
def endLine (s : Shell σ) : Shell σ :=
  if s.isArg then { s with bufferIndex := 0 } else { s with bufferIndex := 0 }.printf "> " []

end Shell

section Loop

variable {σ : Type} (hw : Bus σ) (fuel : Nat) (L : FsState σ → Locals)

def onFs {α : Type} (c : Exec (FsState σ) α) : Exec (Shell σ) α :=
  Exec.within Shell.fs (fun t s => { s with fs := t }) c

/-- `if (CMDread)`. The array `bofreA` is left out: the sector is taken to hold a terminator, so
that the string that is copied ends inside its 512 bytes. -/
def runRead : Exec (Shell σ) Unit := do
  let s ← Exec.get
  if s.cmdRead then do
    let out ← onFs (vdReadData hw fuel (L s.fs) s.cmdArg1)
    Exec.modify fun s =>
      { s.printf "\nContents: %s\n" [.chars (out.takeWhile (· ≠ 0))] with cmdRead := false }
  else pure ()

/-- What a newline does first: the line is ended, and a pending command runs on it. -/
def servePending : Exec (Shell σ) Unit := do
  Exec.modify fun s => s.terminate.takeArgument.runEcho
  runRead hw fuel L

/-- A round of the loop in which `kb_getchar` returned `c`. -/
def handleKey (c : UInt8) : Exec (Shell σ) Unit :=
  if c = '\n'.toUInt8 then do
    servePending hw fuel L
    Exec.modify fun s => s.dispatch.endLine
  else Exec.modify fun s =>
    if s.bufferIndex < bufferSize - 1 then s.putKey c
    else s.printf "\nBuffer overflow. Command too long.\n" []

def commandLoop : List UInt8 → Exec (Shell σ) Unit
  | [] => pure ()
  | c :: keys => do
      handleKey hw fuel L c
      commandLoop keys

end Loop

/-- A line that fits the buffer. -/
structure Line where
  text : Text
  short : text.chars.length ≤ 99
  single : '\n'.toUInt8 ∉ text.chars

def Line.keys (line : Line) : List UInt8 := line.text.chars ++ ['\n'.toUInt8]

@[simp] theorem printf_printed {σ : Type} (s : Shell σ) (fmt : String) (args : List PrintfArg) :
    (s.printf fmt args).printed = s.printed ++ [⟨fmt, args⟩] := rfl

section Typing

variable {σ : Type} (hw : Bus σ) (fuel : Nat) (L : FsState σ → Locals)

theorem onFs_run {α : Type} (c : Exec (FsState σ) α) (s : Shell σ) :
    (onFs c).run s = ((c.run s.fs).1, { s with fs := (c.run s.fs).2 }) := rfl

def Shell.typed (cs : List UInt8) (s : Shell σ) : Shell σ := cs.foldl (fun s c => s.putKey c) s

theorem commandLoop_append (keys more : List UInt8) :
    commandLoop hw fuel L (keys ++ more) =
      commandLoop hw fuel L keys >>= fun _ => commandLoop hw fuel L more := by
  induction keys with
  | nil => rfl
  | cons c keys ih =>
      rw [List.cons_append, commandLoop, commandLoop, ih, bind_assoc]

theorem commandLoop_typed {cs : List UInt8} (single : '\n'.toUInt8 ∉ cs) {s : Shell σ}
    (room : s.bufferIndex + cs.length ≤ bufferSize - 1) :
    (commandLoop hw fuel L cs).run s = (some (), s.typed cs) := by
  induction cs generalizing s with
  | nil => rfl
  | cons c cs ih =>
      have plain : c ≠ '\n'.toUInt8 := fun same => single (same ▸ List.mem_cons_self)
      have more : s.bufferIndex < bufferSize - 1 := by
        rw [List.length_cons] at room
        omega
      have key : (handleKey hw fuel L c).run s = (some (), s.putKey c) := by
        rw [handleKey, if_neg plain, Exec.run_modify, if_pos more]
      rw [commandLoop, Exec.run_bind, key, Exec.andThen_some]
      refine ih (fun member => single (List.mem_cons_of_mem c member)) ?_
      rw [List.length_cons] at room
      change s.bufferIndex + 1 + cs.length ≤ bufferSize - 1
      omega

/-- Typing changes the buffer and the screen only. -/
structure SameFlags (s t : Shell σ) : Prop where
  isArg : t.isArg = s.isArg
  cmdEcho : t.cmdEcho = s.cmdEcho
  cmdRead : t.cmdRead = s.cmdRead

theorem typed_flags (cs : List UInt8) (s : Shell σ) : SameFlags s (s.typed cs) := by
  induction cs generalizing s with
  | nil => exact ⟨rfl, rfl, rfl⟩
  | cons c cs ih => exact ⟨(ih (s.putKey c)).isArg, (ih (s.putKey c)).cmdEcho, (ih (s.putKey c)).cmdRead⟩

theorem typed_index (cs : List UInt8) (s : Shell σ) :
    (s.typed cs).bufferIndex = s.bufferIndex + cs.length := by
  induction cs generalizing s with
  | nil => rfl
  | cons c cs ih =>
      refine (ih (s.putKey c)).trans ?_
      rw [List.length_cons]
      change s.bufferIndex + 1 + cs.length = _
      omega

theorem typed_below (cs : List UInt8) (s : Shell σ) {i : Nat} (below : i < s.bufferIndex) :
    (s.typed cs).buffer i = s.buffer i := by
  induction cs generalizing s with
  | nil => rfl
  | cons c cs ih =>
      refine (ih (s.putKey c) (Nat.lt_succ_of_lt below)).trans ?_
      exact Function.update_of_ne (Nat.ne_of_lt below) _ _

theorem typed_at (cs : List UInt8) (s : Shell σ) {i : Nat} (inside : i < cs.length) :
    (s.typed cs).buffer (s.bufferIndex + i) = cs[i] := by
  induction cs generalizing s i with
  | nil => exact absurd inside (Nat.not_lt_zero i)
  | cons c cs ih =>
      cases i with
      | zero =>
          refine (typed_below cs (s.putKey c) (Nat.lt_succ_self _)).trans ?_
          exact Function.update_self _ _ _
      | succ i =>
          have place : s.bufferIndex + (i + 1) = (s.putKey c).bufferIndex + i := by
            change _ = s.bufferIndex + 1 + i
            omega
          rw [place]
          exact ih (s.putKey c) (Nat.lt_of_succ_lt_succ inside)

/-- After the newline the buffer holds the line. -/
theorem terminate_holds {line : Line} {s : Shell σ} (empty : s.bufferIndex = 0) :
    HoldsString (s.typed line.text.chars).terminate.buffer line.text.chars := by
  apply line.text.holds.congr
  intro i bound
  have index := typed_index line.text.chars s
  rw [empty, Nat.zero_add] at index
  change (s.typed line.text.chars).buffer.set (s.typed line.text.chars).bufferIndex 0 i = _
  rw [index]
  rcases Nat.lt_or_eq_of_le bound with inside | rfl
  · refine (Function.update_of_ne (Nat.ne_of_lt inside) _ _).trans ?_
    have stored := typed_at line.text.chars s inside
    rw [empty, Nat.zero_add] at stored
    rw [stored]
    exact (List.getD_eq_getElem _ _ inside).symm
  · refine (Function.update_self _ _ _).trans ?_
    exact (List.getD_eq_default _ _ (Nat.le_refl _)).symm

end Typing

end VDK
