import VDK.Keyboard
import VDK.SectorCopies
import Mathlib.Data.List.Induction

/-!
# The line buffer of the command loop

At the top of every round the buffer holds the line typed so far, cut off after 99
characters, and the flags say whether an argument is asked for. `BufferSafe` is what
that leaves for the next round to do.
-/
namespace VDK
open Fuel ByteMem

/-- A newline begins the next line. -/
def nextLine (line : List UInt8) (c : UInt8) : List UInt8 :=
  if c = '\n'.toUInt8 then [] else line ++ [c]

/-- The characters since the last newline. -/
def currentLine (keys : List UInt8) : List UInt8 := keys.foldl nextLine []

section Round

variable {σ : Type}

/-- The index of `buffer` that a round stores to, if it stores. -/
def bufferWrite (s : Shell σ) (c : UInt8) : Option Nat :=
  if c = '\n'.toUInt8 then some s.bufferIndex
  else if s.bufferIndex < bufferSize - 1 then some s.bufferIndex
  else none

/-- What holds at the top of a round, with the line typed so far. -/
structure RoundTop (line : List UInt8) (s : Shell σ) : Prop where
  held : s.buffer.slice 0 s.bufferIndex = line.take (bufferSize - 1)
  nonzero : ∀ c ∈ line, c ≠ 0
  flags : AtPrompt s ∨ Asked s

/-- The line ends inside the buffer, wherever a newline ends it, and can be taken as the
argument; at most one command is pending, and exactly then an argument is asked for. -/
structure BufferSafe (line : List UInt8) (s : Shell σ) : Prop where
  index : s.bufferIndex ≤ 99
  writes : ∀ c i, bufferWrite s c = some i → i < 100
  ended : HoldsString s.terminate.buffer (line.take 99)
  copied : CopyInside bufferSize s.terminate.buffer
  taken : (heldText bufferSize s.terminate.buffer).chars = line.take 99
  exclusive : ¬(s.cmdEcho = true ∧ s.cmdRead = true)
  isArg : s.isArg = (s.cmdEcho || s.cmdRead)

theorem slice_snoc (p : Ptr) (n : Nat) (c : UInt8) :
    (p.set n c).slice 0 (n + 1) = p.slice 0 n ++ [c] := by
  rw [Ptr.slice_add]
  congr 1
  · refine Ptr.slice_eq_iff.mpr fun i less => ?_
    exact Function.update_of_ne (by omega) _ _
  · have here : (p.set n c) (0 + n + 0) = c := by
      rw [Nat.zero_add, Nat.add_zero]
      exact Function.update_self _ _ _
    exact congrArg (fun b => [b]) here

/-- A terminator behind bytes other than NUL ends them as a string. -/
theorem holdsString_slice {p : Ptr} {n : Nat} (nonzero : ∀ c ∈ p.slice 0 n, c ≠ 0) :
    HoldsString (p.set n 0) (p.slice 0 n) := by
  refine (holdsString_getD nonzero).congr fun i bound => ?_
  rw [Ptr.length_slice] at bound
  rcases Nat.lt_or_eq_of_le bound with inside | rfl
  · rw [List.getD_eq_getElem?_getD, Ptr.getElem?_slice _ _ inside, Nat.zero_add]
    exact Function.update_of_ne (Nat.ne_of_lt inside) _ _
  · rw [List.getD_eq_default _ _ (Nat.le_of_eq (Ptr.length_slice p 0 i))]
    exact Function.update_self _ _ _

variable {line : List UInt8} {s : Shell σ}

theorem RoundTop.index (top : RoundTop line s) : s.bufferIndex = min 99 line.length := by
  have length := congrArg List.length top.held
  rw [Ptr.length_slice, List.length_take] at length
  exact length

/-- What the buffer keeps of the line. -/
def RoundTop.kept (top : RoundTop line s) : Text where
  chars := line.take 99
  noNul c member := top.nonzero c (List.mem_of_mem_take member)

theorem RoundTop.ended (top : RoundTop line s) : HoldsString s.terminate.buffer top.kept.chars := by
  have nonzero : ∀ c ∈ s.buffer.slice 0 s.bufferIndex, c ≠ 0 := by
    rw [top.held]
    exact top.kept.noNul
  have holds := holdsString_slice nonzero
  rw [top.held] at holds
  exact holds

theorem RoundTop.safe (top : RoundTop line s) : BufferSafe line s := by
  have index := top.index
  have ended := top.ended
  have atMost : s.bufferIndex ≤ 99 := Nat.le_trans (Nat.le_of_eq index) (Nat.min_le_left _ _)
  have short : top.kept.chars.length < bufferSize :=
    Nat.lt_succ_of_le (List.length_take_le 99 line)
  refine ⟨atMost, fun c i stored => ?_, ended, ?_, ?_, ?_, ?_⟩
  · unfold bufferWrite at stored
    split at stored
    · cases stored
      exact Nat.lt_succ_of_le atMost
    · split at stored
      · cases stored
        exact Nat.lt_succ_of_le atMost
      · cases stored
  · exact copyInside_iff.mpr ⟨s.bufferIndex, Nat.lt_succ_of_le atMost, Function.update_self _ _ _⟩
  · exact congrArg Text.chars (heldText_eq ended short)
  · rcases top.flags with quiet | ⟨_, ⟨_, read⟩ | ⟨echo, _⟩⟩
    · exact fun both => absurd both.1 (quiet.cmdEcho ▸ Bool.false_ne_true)
    · exact fun both => absurd both.2 (read ▸ Bool.false_ne_true)
    · exact fun both => absurd both.1 (echo ▸ Bool.false_ne_true)
  · rcases top.flags with quiet | ⟨isArg, ⟨echo, read⟩ | ⟨echo, read⟩⟩
    · rw [quiet.isArg, quiet.cmdEcho, quiet.cmdRead]
      rfl
    · rw [isArg, echo, read]
      rfl
    · rw [isArg, echo, read]
      rfl

end Round

section Serving

variable {σ : Type} (hw : Bus σ) (fuel : Nat) (L : FsState σ → Locals)

/-- Serving the pending command leaves the line where it is. -/
theorem runRead_buffer (s : Shell σ) : ((runRead hw fuel L).run s).2.buffer = s.buffer := by
  rw [runRead, Exec.run_bind, Exec.run_get, Exec.andThen_some]
  split
  · rw [Exec.run_bind, onFs_run]
    rcases (vdReadData hw fuel (L s.fs) s.cmdArg1).run s.fs with ⟨_ | _, t⟩
    · rfl
    · rfl
  · rfl

theorem runRead_returns {s t : Shell σ} (ran : (runRead hw fuel L).run s = (some (), t)) :
    t.isArg = s.isArg ∧ t.cmdEcho = s.cmdEcho ∧ t.cmdRead = false := by
  rw [runRead, Exec.run_bind, Exec.run_get, Exec.andThen_some] at ran
  split at ran
  · obtain ⟨out, u, data, printed⟩ := Exec.bind_eq_some ran
    have after : { s with fs := ((vdReadData hw fuel (L s.fs) s.cmdArg1).run s.fs).2 } = u :=
      congrArg Prod.snd data
    subst after
    cases printed
    exact ⟨rfl, rfl, rfl⟩
  · rename_i idle
    cases ran
    exact ⟨rfl, rfl, Bool.eq_false_iff.mpr idle⟩

theorem takeArgument_buffer (s : Shell σ) : s.takeArgument.buffer = s.buffer := by
  unfold Shell.takeArgument
  split
  · rfl
  · rfl

theorem takeArgument_isArg (s : Shell σ) : s.takeArgument.isArg = false := by
  unfold Shell.takeArgument
  split
  · rfl
  · rename_i notAsked
    exact Bool.eq_false_iff.mpr notAsked

theorem runEcho_kept (s : Shell σ) :
    s.runEcho.buffer = s.buffer ∧ s.runEcho.isArg = s.isArg ∧ s.runEcho.cmdEcho = false := by
  unfold Shell.runEcho
  split
  · exact ⟨rfl, rfl, rfl⟩
  · rename_i idle
    exact ⟨rfl, rfl, Bool.eq_false_iff.mpr idle⟩

theorem servePending_buffer (s : Shell σ) :
    ((servePending hw fuel L).run s).2.buffer = s.terminate.buffer := by
  have kept := runRead_buffer hw fuel L s.terminate.takeArgument.runEcho
  refine kept.trans ?_
  rw [(runEcho_kept _).1, takeArgument_buffer]

/-- Whatever was pending, nothing is afterwards. -/
theorem servePending_returns {s t : Shell σ} (ran : (servePending hw fuel L).run s = (some (), t)) :
    AtPrompt t := by
  have read : (runRead hw fuel L).run s.terminate.takeArgument.runEcho = (some (), t) := ran
  obtain ⟨isArg, echo, quiet⟩ := runRead_returns hw fuel L read
  obtain ⟨_, notAsked, idle⟩ := runEcho_kept s.terminate.takeArgument
  exact ⟨isArg.trans (notAsked.trans (takeArgument_isArg _)), echo.trans idle, quiet⟩

theorem dispatch_buffer (s : Shell σ) : s.dispatch.buffer = s.buffer := by
  unfold Shell.dispatch
  repeat' split
  all_goals rfl

theorem endLine_buffer (s : Shell σ) : s.endLine.buffer = s.buffer := by
  unfold Shell.endLine
  split
  · rfl
  · rfl

/-- A round stores to the buffer where `bufferWrite` says, and nowhere else. -/
theorem handleKey_stores (s : Shell σ) (c : UInt8) {i : Nat}
    (changed : ((handleKey hw fuel L c).run s).2.buffer i ≠ s.buffer i) :
    bufferWrite s c = some i := by
  have stored : ∀ v, s.buffer.set s.bufferIndex v i ≠ s.buffer i → s.bufferIndex = i := by
    intro v differs
    refine Classical.byContradiction fun other => differs ?_
    exact Function.update_of_ne (Ne.symm other) _ _
  unfold bufferWrite
  by_cases newline : c = '\n'.toUInt8
  · subst newline
    have kept : ((handleKey hw fuel L '\n'.toUInt8).run s).2.buffer = s.terminate.buffer := by
      rw [handleKey_newline, Exec.run_bind, ← servePending_buffer hw fuel L s]
      rcases (servePending hw fuel L).run s with ⟨_ | _, t⟩
      · rfl
      · exact (endLine_buffer _).trans (dispatch_buffer t)
    rw [kept] at changed
    rw [if_pos rfl, stored 0 changed]
  · rw [handleKey, if_neg newline, Exec.run_modify] at changed
    rw [if_neg newline]
    split at changed
    · rename_i room
      rw [if_pos room, stored c changed]
    · exact absurd rfl changed

end Serving

section Run

variable {σ : Type} (hw : Bus σ) (fuel : Nat) (L : FsState σ → Locals)

/-- A newline empties the line, and leaves at most one command pending. -/
theorem RoundTop.newline {line : List UInt8} {s t : Shell σ} (top : RoundTop line s)
    (ran : (handleKey hw fuel L '\n'.toUInt8).run s = (some (), t)) : RoundTop [] t := by
  rw [handleKey_newline] at ran
  obtain ⟨_, u, served, rest⟩ := Exec.bind_eq_some ran
  cases rest
  have held : HoldsString u.buffer top.kept.chars := by
    have buffer := servePending_buffer hw fuel L s
    rw [served] at buffer
    rw [show u.buffer = _ from buffer]
    exact top.ended
  refine ⟨?_, fun _ none => absurd none List.not_mem_nil, ?_⟩
  · rw [endLine_index]
    rfl
  · have quiet := servePending_returns hw fuel L served
    rcases dispatch_cases quiet held with ⟨_, rest, _⟩ | ⟨_, asked⟩
    · exact Or.inl (rest.of_same (endLine_flags _))
    · exact Or.inr (asked.of_same (endLine_flags _))

/-- Any other character is added to the line, and to the buffer as long as there is room. -/
theorem RoundTop.key {line : List UInt8} {s : Shell σ} (top : RoundTop line s) {c : UInt8}
    (nonzero : c ≠ 0) : RoundTop (line ++ [c]) (if s.bufferIndex < bufferSize - 1 then s.putKey c
      else s.printf "\nBuffer overflow. Command too long.\n" []) := by
  have index := top.index
  refine ⟨?_, fun b member => ?_, ?_⟩
  · split
    · rename_i room
      have fits : line.length < 99 := by
        change s.bufferIndex < 99 at room
        omega
      have whole : line.take (bufferSize - 1) = line := List.take_of_length_le (Nat.le_of_lt fits)
      refine (slice_snoc s.buffer s.bufferIndex c).trans ?_
      rw [top.held, whole, List.take_of_length_le]
      rw [List.length_append]
      exact fits
    · rename_i full
      have enough : 99 ≤ line.length := by
        change ¬s.bufferIndex < 99 at full
        omega
      have same : (line ++ [c]).take 99 = line.take 99 := List.take_append_of_le_length enough
      exact top.held.trans same.symm
  · rcases List.mem_append.mp member with before | last
    · exact top.nonzero b before
    · exact (List.mem_singleton.mp last).symm ▸ nonzero
  · have same : SameFlags s (if s.bufferIndex < bufferSize - 1 then s.putKey c
        else s.printf "\nBuffer overflow. Command too long.\n" []) := by
      split
      · exact ⟨rfl, rfl, rfl⟩
      · exact ⟨rfl, rfl, rfl⟩
    exact top.flags.imp (fun quiet => quiet.of_same same) fun asked => asked.of_same same

theorem RoundTop.handleKey {line : List UInt8} {s t : Shell σ} (top : RoundTop line s)
    {c : UInt8} (nonzero : c ≠ 0) (ran : (handleKey hw fuel L c).run s = (some (), t)) :
    RoundTop (nextLine line c) t := by
  unfold nextLine
  by_cases newline : c = '\n'.toUInt8
  · subst newline
    rw [if_pos rfl]
    exact top.newline hw fuel L ran
  · rw [VDK.handleKey, if_neg newline, Exec.run_modify] at ran
    cases ran
    rw [if_neg newline]
    exact top.key nonzero

theorem commandLoop_top {keys : List UInt8} (nonzero : ∀ c ∈ keys, c ≠ 0) {fs : FsState σ}
    {junk : Ptr} {s : Shell σ}
    (ran : (commandLoop hw fuel L keys).run (Shell.start fs junk) = (some (), s)) :
    RoundTop (currentLine keys) s := by
  induction keys using List.reverseRecOn generalizing s with
  | nil =>
      cases ran
      exact ⟨rfl, fun _ none => absurd none List.not_mem_nil, Or.inl ⟨rfl, rfl, rfl⟩⟩
  | append_singleton keys c ih =>
      rw [commandLoop_append] at ran
      obtain ⟨_, t, before, last⟩ := Exec.bind_eq_some ran
      have one : commandLoop hw fuel L [c] = handleKey hw fuel L c :=
        Exec.bind_pure_eq (handleKey hw fuel L c)
      rw [one] at last
      have top := ih (fun b member => nonzero b (List.mem_append_left [c] member)) before
      rw [currentLine, List.foldl_append]
      exact top.handleKey hw fuel L
        (nonzero c (List.mem_append_right keys (List.mem_singleton.mpr rfl))) last

/-- Whatever characters `kb_getchar` returned, the line stays inside its buffer in the round
that follows. -/
theorem command_buffer_safe (fs : FsState σ) (junk : Ptr) {keys : List UInt8}
    (returned : ∀ c ∈ keys, positive c = true) {s : Shell σ}
    (ran : (commandLoop hw fuel L keys).run (Shell.start fs junk) = (some (), s)) :
    BufferSafe (currentLine keys) s ∧ ∀ c i,
      ((handleKey hw fuel L c).run s).2.buffer i ≠ s.buffer i → bufferWrite s c = some i := by
  have nonzero : ∀ c ∈ keys, c ≠ 0 := by
    rintro c member rfl
    exact absurd (returned 0 member) Bool.false_ne_true
  exact ⟨(commandLoop_top hw fuel L nonzero ran).safe,
    fun c i changed => handleKey_stores hw fuel L s c changed⟩

/-- `echo`, and then a line that is not ended yet. -/
theorem command_buffer_safe_echo : ∃ s,
    (commandLoop (steadyBus 0) 0 (fun _ => sampleLocals) (echoLine.keys ++ [0x68, 0x69])).run
      (Shell.start driveless fun _ => 0) = (some (), s) ∧ s.isArg = true ∧ s.bufferIndex = 2 ∧
    BufferSafe [0x68, 0x69] s ∧ ∀ c i,
      ((handleKey (steadyBus 0) 0 (fun _ => sampleLocals) c).run s).2.buffer i ≠ s.buffer i →
        bufferWrite s c = some i := by
  have quiet : AtPrompt (Shell.start driveless fun _ => 0) := ⟨rfl, rfl, rfl⟩
  obtain ⟨t, asks, empty, ⟨_, asked⟩ | ⟨plain, _⟩⟩ :=
    prompt_line (steadyBus 0) 0 (fun _ => sampleLocals) echoLine quiet rfl
  · have plain : '\n'.toUInt8 ∉ [(0x68 : UInt8), 0x69] := by decide
    have room : t.bufferIndex + 2 ≤ bufferSize - 1 := empty.symm ▸ by decide
    have ran : (commandLoop (steadyBus 0) 0 (fun _ => sampleLocals)
        (echoLine.keys ++ [0x68, 0x69])).run (Shell.start driveless fun _ => 0) =
          (some (), t.typed [0x68, 0x69]) := by
      rw [commandLoop_append, Exec.run_bind, asks, Exec.andThen_some]
      exact commandLoop_typed _ _ _ plain room
    refine ⟨_, ran, (typed_flags _ t).isArg.trans asked.1, ?_, ?_⟩
    · rw [typed_index, empty]
      rfl
    · have returned : (echoLine.keys ++ [0x68, 0x69]).all positive = true := by decide
      exact command_buffer_safe (steadyBus 0) 0 (fun _ => sampleLocals) driveless (fun _ => 0)
        (List.all_eq_true.mp returned) ran
  · exact absurd (Or.inl rfl) plain

end Run

end VDK
