import VDK.CommandBuffer

/-!
# The shell, line by line

What the command loop is for, without its buffer and its flags: a line that is typed is
first the argument of a command that asked for one, and then a command itself. The loop
does exactly that, for every stream of characters.
-/
namespace VDK
open Fuel ByteMem

/-- A character `kb_getchar` can return. -/
abbrev Key := { c : UInt8 // positive c = true }

theorem Key.nonzero (c : Key) : c.val ≠ 0 := by
  intro zero
  have held := c.property
  rw [zero] at held
  exact absurd held (by decide)

/-- The command the next line is the argument of. -/
inductive Pending where
  | none
  | echo
  | read
  deriving DecidableEq, Repr

section Lines

variable {σ : Type}

def say (calls : List PrintfCall) (fs : FsState σ) : FsState σ :=
  { fs with ide := { fs.ide with printed := fs.ide.printed ++ calls } }

/-- The shell between two characters; `line` is what was typed of the line. -/
structure LineShell (σ : Type) where
  fs : FsState σ
  pending : Pending
  line : Text

namespace LineShell

def start (fs : FsState σ) : LineShell σ := ⟨fs, .none, Text.empty⟩

/-- A line is cut off behind 99 characters. -/
def shown (line : Text) : Text :=
  ⟨line.chars.take 99, fun c member => line.noNul c (List.mem_of_mem_take member)⟩

/-- The pending command gets its argument. Reading a file need not return. -/
def serve (readFile : Text → FsState σ → Option (List UInt8 × FsState σ)) (argument : Text) :
    Pending → FsState σ → Option (FsState σ)
  | .none, fs => some fs
  | .echo, fs => some (say [⟨"\n%s\n", [.chars argument.chars]⟩] fs)
  | .read, fs => (readFile argument fs).map fun r =>
      say [⟨"\nContents: %s\n", [.chars (r.1.takeWhile (· ≠ 0))]⟩] r.2

/-- The answer to a line, and the command that the next line is the argument of. -/
def answer (line : Text) : List PrintfCall × Pending :=
  if line = helloCommand then ([⟨"\nHi there!\n", []⟩], .none)
  else if line = helpCommand then
    ([⟨"\nList of commands:\n", []⟩, ⟨"\nhello - Simply prints Hi There!.\n", []⟩,
      ⟨"echo X - Repeats X.\n", []⟩, ⟨"read X - Reads file X and prints it's contents.\n", []⟩],
      .none)
  else if line = echoCommand then ([⟨"\nFirst argument: ", []⟩], .echo)
  else if line = readCommand then ([⟨"\nFirst argument: ", []⟩], .read)
  else ([⟨"\nUnrecognized command: %s\n", [.chars line.chars]⟩], .none)

def prompt : Pending → List PrintfCall
  | .none => [⟨"> ", []⟩]
  | _ => []

def typeKey (c : Key) (a : LineShell σ) : LineShell σ :=
  { a with
    fs := say [if a.line.chars.length < 99 then ⟨"%c", [.chars [c.val]]⟩
      else ⟨"\nBuffer overflow. Command too long.\n", []⟩] a.fs
    line := a.line.push c.val c.nonzero }

def endLine (readFile : Text → FsState σ → Option (List UInt8 × FsState σ)) (a : LineShell σ) :
    Option (LineShell σ) :=
  (serve readFile (shown a.line) a.pending a.fs).map fun fs =>
    let reply := answer (shown a.line)
    ⟨say (reply.1 ++ prompt reply.2) fs, reply.2, Text.empty⟩

def key (readFile : Text → FsState σ → Option (List UInt8 × FsState σ)) (c : Key)
    (a : LineShell σ) : Option (LineShell σ) :=
  if c.val = '\n'.toUInt8 then a.endLine readFile else some (a.typeKey c)

def run (readFile : Text → FsState σ → Option (List UInt8 × FsState σ)) :
    List Key → LineShell σ → Option (LineShell σ)
  | [], a => some a
  | c :: keys, a => (a.key readFile c).bind (run readFile keys)

end LineShell

end Lines

section Refinement

variable {σ : Type} (hw : Bus σ) (fuel : Nat) (L : FsState σ → Locals)

def readFile (name : Text) (fs : FsState σ) : Option (List UInt8 × FsState σ) :=
  match (vdReadData hw fuel (L fs) name).run fs with
  | (some out, t) => some (out, t)
  | (none, _) => none

/-- The flags of a loop that waits for `p`. -/
structure Flagged (p : Pending) (s : Shell σ) : Prop where
  isArg : s.isArg = decide (p ≠ .none)
  cmdEcho : s.cmdEcho = decide (p = .echo)
  cmdRead : s.cmdRead = decide (p = .read)

/-- The state of the loop stands for that of the shell: the files and the screen are the
same, the buffer holds the line, and the flags say what is pending. -/
structure Models (a : LineShell σ) (s : Shell σ) : Prop extends Flagged a.pending s where
  top : RoundTop a.line.chars s
  fs : s.fs = a.fs

end Refinement

section Serving

variable {σ : Type} (hw : Bus σ) (fuel : Nat) (L : FsState σ → Locals)

theorem Models.ended {a : LineShell σ} {s : Shell σ} (h : Models a s) :
    HoldsString s.terminate.buffer (LineShell.shown a.line).chars := h.top.ended

theorem Flagged.atPrompt {s : Shell σ} (h : Flagged .none s) : AtPrompt s :=
  ⟨h.isArg, h.cmdEcho, h.cmdRead⟩

/-- The line is taken as the argument exactly when one is asked for. -/
theorem Models.takeArgument {a : LineShell σ} {s : Shell σ} (h : Models a s)
    (asked : a.pending ≠ .none) :
    s.terminate.takeArgument = s.terminate.withArgument (LineShell.shown a.line) := by
  have short : (LineShell.shown a.line).chars.length < bufferSize :=
    Nat.lt_succ_of_le (List.length_take_le 99 a.line.chars)
  unfold Shell.takeArgument
  have isArg : s.terminate.isArg = true := h.isArg.trans (decide_eq_true asked)
  rw [if_pos isArg, heldText_eq h.ended short]

/-- A pending `read` runs on its argument, if the file system returns. -/
theorem runRead_serves {w : Shell σ} (pending : w.cmdRead = true) (idle : w.cmdEcho = false)
    (taken : w.isArg = false) :
    (LineShell.serve (readFile hw fuel L) w.cmdArg1 .read w.fs = none ∧
      ((runRead hw fuel L).run w).1 = none) ∨
    ∃ u, LineShell.serve (readFile hw fuel L) w.cmdArg1 .read w.fs = some u.fs ∧
      (runRead hw fuel L).run w = (some (), u) ∧ AtPrompt u ∧ u.buffer = w.buffer := by
  rcases data : (vdReadData hw fuel (L w.fs) w.cmdArg1).run w.fs with ⟨_ | out, t⟩
  · have stuck : (onFs (vdReadData hw fuel (L w.fs) w.cmdArg1)).run w = (none, { w with fs := t }) := by
      rw [onFs_run, data]
    refine Or.inl ⟨?_, ?_⟩
    · rw [LineShell.serve, readFile, data]
      rfl
    · rw [runRead, Exec.run_bind, Exec.run_get, Exec.andThen_some, if_pos pending, Exec.run_bind,
        stuck]
      rfl
  · refine Or.inr ⟨_, ?_, runRead_pending hw fuel L pending data, ⟨taken, idle, rfl⟩, rfl⟩
    rw [LineShell.serve, readFile, data]
    rfl

/-- A newline first gives the pending command its argument, or runs out of fuel in it. -/
theorem Models.served {a : LineShell σ} {s : Shell σ} (h : Models a s) :
    (LineShell.serve (readFile hw fuel L) (LineShell.shown a.line) a.pending a.fs = none ∧
      ((servePending hw fuel L).run s).1 = none) ∨
    ∃ u, LineShell.serve (readFile hw fuel L) (LineShell.shown a.line) a.pending a.fs = some u.fs ∧
      (servePending hw fuel L).run s = (some (), u) ∧ AtPrompt u ∧
      u.buffer = s.terminate.buffer := by
  have flags := h.toFlagged
  cases pending : a.pending with
  | none =>
      rw [pending] at flags
      exact Or.inr ⟨s.terminate, congrArg some h.fs.symm, servePending_quiet hw fuel L flags.atPrompt,
        ⟨flags.isArg, flags.cmdEcho, flags.cmdRead⟩, rfl⟩
  | echo =>
      rw [pending] at flags
      have taken := h.takeArgument (by rw [pending]; exact Pending.noConfusion)
      have echoed := runEcho_pending (s := s.terminate.withArgument (LineShell.shown a.line))
        flags.cmdEcho
      refine Or.inr ⟨{ (s.terminate.withArgument (LineShell.shown a.line)).printf "\n%s\n"
        [.chars (LineShell.shown a.line).chars] with cmdEcho := false }, ?_, ?_,
        ⟨rfl, rfl, flags.cmdRead⟩, rfl⟩
      · rw [← h.fs]
        rfl
      · change (runRead hw fuel L).run s.terminate.takeArgument.runEcho = _
        rw [taken, echoed]
        exact runRead_idle hw fuel L flags.cmdRead
  | read =>
      rw [pending] at flags
      have taken := h.takeArgument (by rw [pending]; exact Pending.noConfusion)
      have silent := runEcho_idle (s := s.terminate.withArgument (LineShell.shown a.line))
        flags.cmdEcho
      have serves : (servePending hw fuel L).run s =
          (runRead hw fuel L).run (s.terminate.withArgument (LineShell.shown a.line)) := by
        change (runRead hw fuel L).run s.terminate.takeArgument.runEcho = _
        rw [taken, silent]
      have files : (s.terminate.withArgument (LineShell.shown a.line)).fs = a.fs := h.fs
      have ends := runRead_serves hw fuel L
        (w := s.terminate.withArgument (LineShell.shown a.line)) flags.cmdRead flags.cmdEcho rfl
      rw [files] at ends
      rw [serves]
      exact ends

end Serving

section Answers

variable {σ : Type}

theorem say_say (calls more : List PrintfCall) (fs : FsState σ) :
    say more (say calls fs) = say (calls ++ more) fs := by
  rw [say, say, say, ← List.append_assoc]

/-- Behind its answer a line ends with the prompt, unless it asks for an argument. -/
theorem Flagged.endLine {v : Shell σ} {p : Pending} (h : Flagged p v) {calls : List PrintfCall}
    {fs : FsState σ} (said : v.fs = say calls fs) :
    v.endLine.fs = say (calls ++ LineShell.prompt p) fs ∧ Flagged p v.endLine := by
  have same := endLine_flags v
  refine ⟨?_, same.isArg.trans h.isArg, same.cmdEcho.trans h.cmdEcho, same.cmdRead.trans h.cmdRead⟩
  unfold Shell.endLine
  by_cases asks : p = .none
  · have quiet : ¬v.isArg = true := by
      rw [h.isArg, asks]
      decide
    rw [if_neg quiet, asks, ← say_say, ← said]
    rfl
  · have nothing : LineShell.prompt p = [] := by
      cases p with
      | none => exact absurd rfl asks
      | echo => rfl
      | read => rfl
    rw [if_pos (h.isArg.trans (decide_eq_true asks)), nothing, List.append_nil, ← said]

theorem dispatch_answers {u : Shell σ} (quiet : AtPrompt u) {line : Text}
    (holds : HoldsString u.buffer line.chars) (short : line.chars.length < bufferSize) :
    u.dispatch.fs = say (LineShell.answer line).1 u.fs ∧
      Flagged (LineShell.answer line).2 u.dispatch := by
  obtain ⟨isArg, echo, read⟩ := quiet
  unfold Shell.dispatch LineShell.answer
  simp only [strcmpText_line holds]
  by_cases hello : line = helloCommand
  · rw [if_pos hello, if_pos hello]
    exact ⟨rfl, isArg, echo, read⟩
  · rw [if_neg hello, if_neg hello]
    by_cases help : line = helpCommand
    · rw [if_pos help, if_pos help]
      refine ⟨?_, isArg, echo, read⟩
      simp only [Shell.printf, IdeState.printf, say, List.append_assoc, List.cons_append,
        List.nil_append]
    · rw [if_neg help, if_neg help]
      by_cases echoes : line = echoCommand
      · rw [if_pos echoes, if_pos echoes]
        exact ⟨rfl, rfl, rfl, read⟩
      · rw [if_neg echoes, if_neg echoes]
        by_cases reads : line = readCommand
        · rw [if_pos reads, if_pos reads]
          exact ⟨rfl, rfl, echo, rfl⟩
        · have tested : (!u.cmdEcho || !u.cmdRead) = true := by rw [echo]; rfl
          rw [if_neg reads, if_neg reads, if_pos tested, heldText_eq holds short]
          exact ⟨rfl, isArg, echo, read⟩

end Answers

section Runs

variable {σ : Type} (hw : Bus σ) (fuel : Nat) (L : FsState σ → Locals)

/-- One character: the loop does what the shell does, or runs out of fuel with it. -/
theorem Models.key {a : LineShell σ} {s : Shell σ} (h : Models a s) (c : Key) :
    (a.key (readFile hw fuel L) c = none ∧ ((handleKey hw fuel L c.val).run s).1 = none) ∨
    ∃ b t, a.key (readFile hw fuel L) c = some b ∧
      (handleKey hw fuel L c.val).run s = (some (), t) ∧ Models b t := by
  by_cases newline : c.val = '\n'.toUInt8
  · have ends : a.key (readFile hw fuel L) c = a.endLine (readFile hw fuel L) := if_pos newline
    rw [ends, newline, LineShell.endLine]
    rcases h.served hw fuel L with ⟨nothing, stuck⟩ | ⟨u, served, ran, quiet, buffer⟩
    · refine Or.inl ⟨by rw [nothing]; rfl, ?_⟩
      rw [handleKey_newline, Exec.run_bind]
      rcases whole : (servePending hw fuel L).run s with ⟨_ | _, t⟩
      · rfl
      · rw [whole] at stuck
        exact absurd stuck (Option.some_ne_none _)
    · have line : (handleKey hw fuel L '\n'.toUInt8).run s = (some (), u.dispatch.endLine) := by
        rw [handleKey_newline, Exec.run_bind, ran]
        rfl
      have held : HoldsString u.buffer (LineShell.shown a.line).chars := buffer.symm ▸ h.ended
      obtain ⟨said, flagged⟩ := dispatch_answers quiet held
        (Nat.lt_succ_of_le (List.length_take_le 99 a.line.chars))
      obtain ⟨prompted, flags⟩ := flagged.endLine said
      refine Or.inr ⟨_, _, by rw [served]; rfl, line, flags, h.top.newline hw fuel L line, prompted⟩
  · have types : a.key (readFile hw fuel L) c = some (a.typeKey c) := if_neg newline
    have key := h.top.key c.nonzero
    have room : s.bufferIndex < bufferSize - 1 ↔ a.line.chars.length < 99 := by
      have index := h.top.index
      change s.bufferIndex < 99 ↔ _
      omega
    refine Or.inr ⟨_, _, types, ?_, ?_, key, ?_⟩
    · rw [handleKey, if_neg newline, Exec.run_modify]
    · split
      · exact ⟨h.isArg, h.cmdEcho, h.cmdRead⟩
      · exact ⟨h.isArg, h.cmdEcho, h.cmdRead⟩
    · rw [LineShell.typeKey, ← h.fs]
      by_cases fits : s.bufferIndex < bufferSize - 1
      · rw [if_pos fits, if_pos (room.mp fits)]
        rfl
      · rw [if_neg fits, if_neg fun less => fits (room.mpr less)]
        rfl

theorem Models.run {a : LineShell σ} {s : Shell σ} (h : Models a s) (keys : List Key) :
    (LineShell.run (readFile hw fuel L) keys a = none ∧
      ((commandLoop hw fuel L (keys.map Subtype.val)).run s).1 = none) ∨
    ∃ b t, LineShell.run (readFile hw fuel L) keys a = some b ∧
      (commandLoop hw fuel L (keys.map Subtype.val)).run s = (some (), t) ∧ Models b t := by
  induction keys generalizing a s with
  | nil => exact Or.inr ⟨a, s, rfl, rfl, h⟩
  | cons c keys ih =>
      rw [LineShell.run, List.map_cons, commandLoop, Exec.run_bind]
      rcases h.key hw fuel L c with ⟨nothing, stuck⟩ | ⟨b, t, reached, ran, next⟩
      · refine Or.inl ⟨by rw [nothing]; rfl, ?_⟩
        rcases whole : (handleKey hw fuel L c.val).run s with ⟨_ | _, t⟩
        · rfl
        · rw [whole] at stuck
          exact absurd stuck (Option.some_ne_none _)
      · rw [reached, ran]
        exact ih next

theorem Models.start (fs : FsState σ) (junk : Ptr) :
    Models (LineShell.start fs) (Shell.start fs junk) :=
  ⟨⟨rfl, rfl, rfl⟩, ⟨rfl, fun _ none => absurd none List.not_mem_nil, Or.inl ⟨rfl, rfl, rfl⟩⟩, rfl⟩

/-- The command loop refines the shell, whatever its buffer held at the start: for every
stream of characters both are stuck in a file, or they end with the same files and the
same screen, the line in the buffer and the flags of what is pending. -/
theorem command_loop_refines (keys : List Key) (fs : FsState σ) (junk : Ptr) :
    match LineShell.run (readFile hw fuel L) keys (LineShell.start fs) with
    | some a => ∃ s, (commandLoop hw fuel L (keys.map Subtype.val)).run (Shell.start fs junk) =
        (some (), s) ∧ Models a s
    | none => ((commandLoop hw fuel L (keys.map Subtype.val)).run (Shell.start fs junk)).1 = none := by
  rcases (Models.start fs junk).run hw fuel L keys with ⟨nothing, stuck⟩ | ⟨b, t, reached, ran, models⟩
  · rw [nothing]
    exact stuck
  · rw [reached]
    exact ⟨t, ran, models⟩

end Runs

end VDK
