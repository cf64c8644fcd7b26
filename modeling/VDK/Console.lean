import Mathlib.Data.List.TakeWhile
import VDK.DeviceTable
import VDK.KernelSession
import VDK.PrintfOutput
import VDK.TerminalLog

/-!
# The session on the screen

The driver, the file system and the shell record their calls of `printf`. A call has a text
that depends on the place of its arguments only where it prints a number; made on the
terminal, with its arguments on the stack, it types that text. So the screen shows the last
rows of all texts, from the summary of the drives on.
-/
namespace VDK
open Atomic Fuel ByteMem LineLog

/-- The string of an argument, up to its terminator. -/
def PrintfArg.string : PrintfArg → Option (List UInt8)
  | .str text => some (text.toList.map Char.toUInt8)
  | .chars bytes => some (bytes.takeWhile (· ≠ 0))
  | .word _ => none

/-- The character of an argument. -/
def PrintfArg.char : PrintfArg → Option UInt8
  | .chars [c] => some c
  | _ => none

section Scan

/-- The numeric conversion of a letter. -/
def Number.ofLetter (c : UInt8) : Option Number :=
  [d, i, u, x, upperX, p, o].find? fun k => k.letter = c

theorem Number.ofLetter_letter {c : UInt8} {k : Number} (found : ofLetter c = some k) :
    k.letter = c := by
  have matching := List.find?_some found
  exact of_decide_eq_true matching

/-- The pieces of a format; `conversion` says that a percent sign stands in front. -/
def scan (conversion : Bool) : List UInt8 → Option (List Piece)
  | [] => if conversion then none else some []
  | c :: fmt =>
      if conversion then
        if c = 's'.toUInt8 then (scan false fmt).map (.string :: ·)
        else if c = 'c'.toUInt8 then (scan false fmt).map (.char :: ·)
        else if c = '%'.toUInt8 then (scan false fmt).map (.percent :: ·)
        else (Number.ofLetter c).bind fun k => (scan false fmt).map (.number k :: ·)
      else if c = '%'.toUInt8 then scan true fmt
      else if h : c ≠ 0 ∧ c ≠ '%'.toUInt8 then (scan false fmt).map (.plain c h :: ·)
      else none

theorem scan_spells {fmt : List UInt8} {conversion : Bool} {pieces : List Piece}
    (scanned : scan conversion fmt = some pieces) :
    spelled pieces = (if conversion then ['%'.toUInt8] else []) ++ fmt := by
  induction fmt generalizing conversion pieces with
  | nil =>
      cases conversion with
      | true => cases scanned
      | false =>
          cases scanned
          rfl
  | cons c fmt ih =>
      have piece : ∀ (p : Piece) (front : List UInt8), p.bytes = front →
          (scan false fmt).map (p :: ·) = some pieces → spelled pieces = front ++ fmt := by
        intro p front bytes rest
        obtain ⟨ps, behind, rfl⟩ := Option.map_eq_some_iff.mp rest
        rw [spelled, List.flatMap_cons, bytes]
        exact congrArg (front ++ ·) (ih behind)
      rw [scan] at scanned
      cases conversion with
      | true =>
          rw [if_pos rfl] at scanned
          split at scanned
          · rename_i same
            rw [same]
            exact piece .string _ rfl scanned
          split at scanned
          · rename_i same
            rw [same]
            exact piece .char _ rfl scanned
          split at scanned
          · rename_i same
            rw [same]
            exact piece .percent _ rfl scanned
          · obtain ⟨k, letter, rest⟩ := Option.bind_eq_some_iff.mp scanned
            rw [← Number.ofLetter_letter letter]
            exact piece (.number k) _ rfl rest
      | false =>
          rw [if_neg Bool.false_ne_true] at scanned
          split at scanned
          · rename_i same
            rw [same]
            exact ih scanned
          split at scanned
          · rename_i ordinary
            exact piece (.plain c ordinary) [c] rfl scanned
          · cases scanned

end Scan

section Filling

/-- What a numeric conversion prints: the address of its argument, nothing for one from `2 ^ 31`
on. The text of address 0 would run on behind its digit. -/
def addressText (argp : UInt32) : Option (List UInt8) :=
  if argp = 0 then none else some (if argp.toNat < 2 ^ 31 then decimal argp.toNat else [])

/-- What a piece prints that looks for its argument at `argp`, and the arguments behind it. The
pointer stays at a number, so that no argument may follow one. -/
def Piece.take (argp : UInt32) : Piece → List PrintfArg → Option (List UInt8 × List PrintfArg)
  | plain c _, args => some ([c], args)
  | percent, args => some (['%'.toUInt8], args)
  | char, a :: args => a.char.map fun c => ([c], args)
  | string, a :: args => a.string.map fun s => (s, args)
  | number _, [.word _] => (addressText argp).map fun s => (s, [])
  | _, _ => none

/-- The text that pieces and arguments make up. -/
def fill (argp : UInt32) : List Piece → List PrintfArg → Option (List UInt8)
  | [], args => if args.isEmpty then some [] else none
  | p :: ps, args =>
      (p.take argp args).bind fun r => (fill (p.argpAfter argp) ps r.2).map (r.1 ++ ·)

theorem fill_cons {argp : UInt32} {p : Piece} {ps : List Piece} {args rest : List PrintfArg}
    {s out : List UInt8} (first : p.take argp args = some (s, rest))
    (behind : fill (p.argpAfter argp) ps rest = some out) :
    fill argp (p :: ps) args = some (s ++ out) := by
  rw [fill, first, Option.bind_some, behind]
  rfl

namespace PrintfCall

def format (call : PrintfCall) : List UInt8 := call.fmt.toList.map Char.toUInt8

/-- The format as the C string that `printf` is passed. -/
def formatText (call : PrintfCall) : Text where
  chars := call.format.takeWhile (· ≠ 0)
  noNul c member := of_decide_eq_true (List.all_eq_true.mp List.all_takeWhile c member)

/-- The text of a call whose arguments lie from `argp` on. -/
def text (argp : UInt32) (call : PrintfCall) : Option (List UInt8) :=
  (scan false call.format).bind fun pieces => fill argp pieces call.args

end PrintfCall

end Filling

section Passing

/-- What a conversion asks for. -/
inductive ArgumentKind where
  | string
  | char
  | number
  deriving DecidableEq

def Piece.asks : Piece → Option ArgumentKind
  | string => some .string
  | char => some .char
  | number _ => some .number
  | _ => none

/-- The word passed for an argument: a pointer to its string, the code of its character, or the
number. -/
def ArgumentKind.Passed (mem : Mem) (a : PrintfArg) (w : UInt32) : ArgumentKind → Prop
  | string => ∃ s, a.string = some s ∧ HoldsString (mem.view w) s
  | char => a.char = some w.toUInt8
  | number => a = PrintfArg.word w

/-- The words passed for the arguments of the pieces. -/
inductive Passes (mem : Mem) : List Piece → List PrintfArg → List UInt32 → Prop
  | done : Passes mem [] [] []
  | skip {p ps args words} (none : p.asks = none) (rest : Passes mem ps args words) :
      Passes mem (p :: ps) args words
  | pass {p ps a args w words asked} (asks : p.asks = some asked) (passed : asked.Passed mem a w)
      (rest : Passes mem ps args words) : Passes mem (p :: ps) (a :: args) (w :: words)

variable {frame : PrintfFrame}

theorem addressText_holds {argp : UInt32} {s : List UInt8} (text : addressText argp = some s)
    (str : Ptr) : HoldsString (intToStr (wrapInt argp.toNat) str) s := by
  unfold addressText at text
  split at text
  · cases text
  · rename_i nonzero
    cases text
    have positive : 0 < argp.toNat := Nat.pos_of_ne_zero fun zero =>
      nonzero (UInt32.toNat_inj.mp zero)
    split
    · rename_i low
      rw [wrapInt_small (by omega) (by omega)]
      exact intToStr_positive (by omega) str
    · have high := argp.toNat_lt
      rw [wrapInt_large (by omega) (by omega)]
      exact intToStr_negative (by omega) str

theorem Passes.no_words {mem : Mem} {ps : List Piece} {args : List PrintfArg}
    {words : List UInt32} (h : Passes mem ps args words) (none : args = []) : words = [] := by
  induction h with
  | done => rfl
  | skip _ _ ih => exact ih none
  | pass => cases none

/-- The pieces send the text that the arguments make up. -/
theorem Passes.sends {ps : List Piece} {args : List PrintfArg} {words : List UInt32}
    (h : Passes frame.mem ps args words) {argp : UInt32} (held : frame.mem.HoldsWords argp words)
    {out : List UInt8} (filled : fill argp ps args = some out) (place : Nat) :
    SendsAll frame ps place argp out := by
  induction h generalizing argp out place with
  | done =>
      cases filled
      exact .done
  | @skip p ps args words none rest ih =>
      obtain ⟨⟨s, args'⟩, first, later⟩ := Option.bind_eq_some_iff.mp filled
      obtain ⟨out, behind, rfl⟩ := Option.map_eq_some_iff.mp later
      cases p with
      | plain c ordinary =>
          cases first
          exact .piece rfl (ih held behind _)
      | percent =>
          cases first
          exact .piece rfl (ih held behind _)
      | char => cases none
      | string => cases none
      | number k => cases none
  | @pass p ps a args w words asked asks passed rest ih =>
      obtain ⟨⟨s, args'⟩, first, later⟩ := Option.bind_eq_some_iff.mp filled
      obtain ⟨out, behind, rfl⟩ := Option.map_eq_some_iff.mp later
      cases p with
      | plain c ordinary => cases asks
      | percent => cases asks
      | char =>
          cases asks
          rw [Piece.take, (passed : a.char = _)] at first
          cases first
          exact .piece (congrArg (fun w : UInt32 => [w.toUInt8]) held.1.symm) (ih held.2 behind _)
      | string =>
          cases asks
          obtain ⟨s, string, holds⟩ := passed
          rw [Piece.take, string] at first
          cases first
          refine .piece ?_ (ih held.2 behind _)
          rw [← held.1] at holds
          exact holds
      | number k =>
          cases asks
          cases (passed : a = .word w)
          cases args with
          | cons b args => cases first
          | nil =>
              obtain ⟨s, text, same⟩ := Option.map_eq_some_iff.mp first
              cases same
              exact .piece (addressText_holds text _) (ih (rest.no_words rfl ▸ trivial) behind _)

/-- The stack of a call: its arguments lie where `printf` looks for them. -/
structure Carries (frame : PrintfFrame) (call : PrintfCall) : Prop where
  somewhere : frame.args ≠ 0
  passed : ∀ pieces, scan false call.format = some pieces →
    ∃ words, frame.mem.HoldsWords frame.args words ∧ Passes frame.mem pieces call.args words

variable {call : PrintfCall} {out : List UInt8}

/-- A call that is passed its arguments types its text. -/
theorem Carries.types (h : Carries frame call) (text : call.text frame.args = some out) {fuel : Nat}
    (enough : out.length < fuel) :
    printf terminalPutchar (frame.withFuel fuel) call.formatText = terminalWrite out := by
  obtain ⟨pieces, scanned, filled⟩ := Option.bind_eq_some_iff.mp text
  obtain ⟨words, held, passes⟩ := h.passed pieces scanned
  have spells : (formatOf pieces).chars = call.format := scan_spells scanned
  have same : call.formatText = formatOf pieces := by
    apply Text.ext
    rw [PrintfCall.formatText, spells, List.takeWhile_eq_self_iff]
    intro c member
    exact decide_eq_true ((formatOf pieces).noNul c (spells ▸ member))
  rw [same]
  exact printf_types (passes.sends held filled 0) enough

end Passing

section Screen

/-- Calls of `printf` made on the terminal, one after the other. -/
def printCalls (fuel : Nat) : List (PrintfFrame × PrintfCall) → Prog Terminal Unit
  | [] => pure ()
  | (frame, call) :: rest => do
      printf terminalPutchar (frame.withFuel fuel) call.formatText
      printCalls fuel rest

/-- The text of a list of calls. -/
def texts (calls : List (PrintfFrame × PrintfCall)) : List UInt8 :=
  calls.flatMap fun c => (c.2.text c.1.args).getD []

/-- A call that has a text wherever its arguments lie. -/
def PrintfCall.Textual (call : PrintfCall) : Prop :=
  ∀ argp, argp ≠ 0 → ∃ out, call.text argp = some out

theorem printCalls_types {calls : List (PrintfFrame × PrintfCall)}
    (textual : ∀ c ∈ calls, c.2.Textual) (carried : ∀ c ∈ calls, Carries c.1 c.2) :
    ∃ N, ∀ fuel, N ≤ fuel → printCalls fuel calls = terminalWrite (texts calls) := by
  induction calls with
  | nil => exact ⟨0, fun _ _ => rfl⟩
  | cons c calls ih =>
      obtain ⟨N, behind⟩ := ih (fun d member => textual d (List.mem_cons_of_mem c member))
        (fun d member => carried d (List.mem_cons_of_mem c member))
      have passed := carried c List.mem_cons_self
      obtain ⟨out, text⟩ := textual c List.mem_cons_self c.1.args passed.somewhere
      refine ⟨max N (out.length + 1), fun fuel enough => ?_⟩
      have types := passed.types text
        (Nat.le_trans (Nat.le_max_right N (out.length + 1)) enough)
      have split : texts (c :: calls) = out ++ texts calls := by
        rw [texts, List.flatMap_cons, text]
        rfl
      change (printf terminalPutchar (c.1.withFuel fuel) c.2.formatText >>= fun _ =>
        printCalls fuel calls) = _
      rw [types, behind fuel (Nat.le_trans (Nat.le_max_left N (out.length + 1)) enough), split]
      exact (Prog.forEach_append terminalPutchar out _).symm

end Screen

section Textual

def formatAsks (fmt : String) : Option (List ArgumentKind) :=
  (scan false (fmt.toList.map Char.toUInt8)).map fun pieces => pieces.filterMap Piece.asks

/-- The argument is of the kind its conversion asks for. -/
def PrintfArg.Fits (a : PrintfArg) : ArgumentKind → Prop
  | .string => ∃ s, a.string = some s
  | .char => ∃ c, a.char = some c
  | .number => ∃ w, a = .word w

/-- Arguments that fit make up a text, when none stands behind a number. -/
theorem fill_fits {ps : List Piece} {args : List PrintfArg} {kinds : List ArgumentKind}
    (asks : ps.filterMap Piece.asks = kinds) (fits : List.Forall₂ PrintfArg.Fits args kinds)
    {argp : UInt32} (last : kinds = [.number] ∧ argp ≠ 0 ∨ .number ∉ kinds) :
    ∃ out, fill argp ps args = some out := by
  induction ps generalizing args kinds argp with
  | nil =>
      subst asks
      cases fits
      exact ⟨[], rfl⟩
  | cons p ps ih =>
      cases p with
      | plain c ordinary =>
          obtain ⟨out, filled⟩ := ih asks fits last
          exact ⟨[c] ++ out, fill_cons rfl filled⟩
      | percent =>
          obtain ⟨out, filled⟩ := ih asks fits last
          exact ⟨['%'.toUInt8] ++ out, fill_cons rfl filled⟩
      | char =>
          subst asks
          cases fits with
          | cons first rest =>
              obtain ⟨c, passed⟩ := first
              rcases last with ⟨number, _⟩ | none
              · cases (List.cons.inj number).1
              · obtain ⟨out, filled⟩ := ih rfl rest
                  (Or.inr fun later => none (List.mem_cons_of_mem _ later))
                exact ⟨[c] ++ out, fill_cons (by rw [Piece.take, passed, Option.map_some]) filled⟩
      | string =>
          subst asks
          cases fits with
          | cons first rest =>
              obtain ⟨s, passed⟩ := first
              rcases last with ⟨number, _⟩ | none
              · cases (List.cons.inj number).1
              · obtain ⟨out, filled⟩ := ih rfl rest
                  (Or.inr fun later => none (List.mem_cons_of_mem _ later))
                exact ⟨s ++ out, fill_cons (by rw [Piece.take, passed, Option.map_some]) filled⟩
      | number k =>
          subst asks
          rcases last with ⟨number, somewhere⟩ | none
          · obtain ⟨w, rfl⟩ : ∃ w, args = [.word w] := by
              cases fits with
              | cons first rest =>
                  obtain ⟨w, rfl⟩ := first
                  rw [(List.cons.inj number).2] at rest
                  cases rest
                  exact ⟨w, rfl⟩
            have later : ∃ out, fill argp ps [] = some out :=
              ih (List.cons.inj number).2 .nil (Or.inr List.not_mem_nil)
            obtain ⟨out, filled⟩ := later
            let address := if argp.toNat < 2 ^ 31 then decimal argp.toNat else []
            have first : Piece.take argp (.number k) [.word w] = some (address, []) := by
              rw [Piece.take, addressText, if_neg somewhere, Option.map_some]
            exact ⟨address ++ out, fill_cons first filled⟩
          · exact absurd List.mem_cons_self none

theorem PrintfCall.textual {call : PrintfCall} {kinds : List ArgumentKind}
    (asks : formatAsks call.fmt = some kinds) (fits : List.Forall₂ PrintfArg.Fits call.args kinds)
    (last : kinds = [.number] ∨ .number ∉ kinds) : call.Textual := by
  intro argp somewhere
  obtain ⟨pieces, scanned, same⟩ := Option.map_eq_some_iff.mp asks
  obtain ⟨out, filled⟩ := fill_fits same fits (last.imp_left fun number => ⟨number, somewhere⟩)
  exact ⟨out, by rw [PrintfCall.text, PrintfCall.format, scanned, Option.bind_some, filled]⟩

theorem textual_literal {fmt : String} (asks : formatAsks fmt = some []) :
    PrintfCall.Textual ⟨fmt, []⟩ := PrintfCall.textual asks .nil (Or.inr List.not_mem_nil)

theorem textual_string {fmt : String} {a : PrintfArg} {s : List UInt8} (string : a.string = some s)
    (asks : formatAsks fmt = some [.string]) : PrintfCall.Textual ⟨fmt, [a]⟩ :=
  PrintfCall.textual asks (.cons ⟨s, string⟩ .nil) (Or.inr (by decide))

theorem textual_number {fmt : String} {w : UInt32} (asks : formatAsks fmt = some [.number]) :
    PrintfCall.Textual ⟨fmt, [.word w]⟩ :=
  PrintfCall.textual asks (.cons ⟨w, rfl⟩ .nil) (Or.inl rfl)

theorem Session.served_textual (look : Text → Text) (argument : Text) (p : Pending) :
    ∀ call ∈ Session.served look argument p, call.Textual := by
  intro call member
  cases p with
  | none => exact absurd member List.not_mem_nil
  | echo =>
      rw [List.mem_singleton.mp member]
      exact textual_string rfl rfl
  | read =>
      rw [List.mem_singleton.mp member]
      exact textual_string rfl rfl

theorem Session.typeKey_textual (c : Key) (a : Session) :
    ∀ call ∈ (a.typeKey c).1, call.Textual := by
  intro call member
  rw [List.mem_singleton.mp member]
  split
  · have asks : formatAsks "%c" = some [.char] := rfl
    exact PrintfCall.textual asks (.cons ⟨c.val, rfl⟩ .nil) (Or.inr (by decide))
  · exact textual_literal rfl

theorem LineShell.prompt_textual (p : Pending) : ∀ call ∈ LineShell.prompt p, call.Textual := by
  intro call member
  cases p with
  | none =>
      rw [List.mem_singleton.mp member]
      exact textual_literal rfl
  | echo => exact absurd member List.not_mem_nil
  | read => exact absurd member List.not_mem_nil

theorem LineShell.answer_textual (line : Text) :
    ∀ call ∈ (LineShell.answer line).1, call.Textual := by
  intro call member
  unfold LineShell.answer at member
  split at member
  · rw [List.mem_singleton.mp member]
    exact textual_literal rfl
  split at member
  · simp only [List.mem_cons, List.not_mem_nil, or_false] at member
    rcases member with rfl | rfl | rfl | rfl
    · exact textual_literal rfl
    · exact textual_literal rfl
    · exact textual_literal rfl
    · exact textual_literal rfl
  split at member
  · rw [List.mem_singleton.mp member]
    exact textual_literal rfl
  split at member
  · rw [List.mem_singleton.mp member]
    exact textual_literal rfl
  · rw [List.mem_singleton.mp member]
    exact textual_string rfl rfl

/-- Everything that the session prints is text. -/
theorem Session.run_textual (look : Text → Text) (keys : List Key) (a : Session) :
    ∀ call ∈ (a.run look keys).1, call.Textual := by
  induction keys generalizing a with
  | nil => exact fun call member => absurd member List.not_mem_nil
  | cons c keys ih =>
      intro call member
      rcases List.mem_append.mp member with first | rest
      · unfold Session.key at first
        split at first
        · rcases List.mem_append.mp first with served | reply
          · exact Session.served_textual look _ a.pending call served
          · rcases List.mem_append.mp reply with answered | prompted
            · exact LineShell.answer_textual _ call answered
            · exact LineShell.prompt_textual _ call prompted
        · exact Session.typeKey_textual c a call first
      · exact ih _ call rest

theorem bootOutput_textual : ∀ call ∈ bootOutput, call.Textual := by
  intro call member
  simp only [bootOutput, banner, List.cons_append, List.nil_append, List.mem_cons,
    List.not_mem_nil, or_false] at member
  rcases member with rfl | rfl | rfl | rfl | rfl | rfl | rfl | rfl
  · exact textual_string rfl rfl
  · exact textual_string rfl rfl
  · exact textual_string rfl rfl
  · exact textual_string rfl rfl
  · exact textual_string rfl rfl
  · exact textual_string rfl rfl
  · exact textual_string rfl rfl
  · exact textual_literal rfl

end Textual

section Summary

/-- The lines of step 4 of `ide_init`. -/
def summaryCalls (devices : Nat → IdeDevice) (slots : List Nat) : List PrintfCall :=
  (slots.filter fun i => (devices i).reserved = 1).flatMap fun i =>
    [⟨"%d:-\n", [.word (UInt32.ofNat i)]⟩, ⟨"  model: %s\n", [.chars (devices i).model]⟩,
      ⟨"  type: %s\n", [.str (["ATA", "ATAPI"].getD (devices i).type.toNat "")]⟩]

theorem summaryCalls_textual (devices : Nat → IdeDevice) (slots : List Nat) :
    ∀ call ∈ summaryCalls devices slots, call.Textual := by
  intro call member
  obtain ⟨i, _, lines⟩ := List.mem_flatMap.mp member
  simp only [List.mem_cons, List.not_mem_nil, or_false] at lines
  rcases lines with rfl | rfl | rfl
  · exact textual_number rfl
  · exact textual_string rfl rfl
  · exact textual_string rfl rfl

variable {σ : Type}

theorem printSummary_prints (slots : List Nat) (s : IdeState σ) :
    (printSummary slots s).printed = s.printed ++ summaryCalls s.devices slots := by
  induction slots generalizing s with
  | nil => exact (List.append_nil _).symm
  | cons i slots ih =>
      rw [printSummary, summaryCalls]
      by_cases there : (s.devices i).reserved = 1
      · rw [if_pos there, ih, List.filter_cons_of_pos (by simpa using there), List.flatMap_cons,
          ← List.append_assoc]
        congr 1
        simp only [IdeState.printf, List.append_assoc, List.cons_append, List.nil_append]
      · rw [if_neg there, ih, List.filter_cons_of_neg (by simpa using there)]
        rfl

/-- Nothing was printed. -/
def Silent (s t : IdeState σ) : Prop := t.printed = s.printed

instance : IsPreorder (IdeState σ) Silent where
  refl _ := rfl
  trans _ _ _ first second := Eq.trans second first

variable (hw : Bus σ)

theorem ideReadRegister_silent (channel reg : UInt8) :
    Keeps Silent (Exec.act (ideReadRegister hw channel reg)) :=
  Keeps.act fun s => ((unprinted_steps hw .read).read channel reg s).printed

theorem ideWriteRegister_silent (channel reg data : UInt8) :
    Keeps Silent (Exec.modify (ideWriteRegister hw channel reg data)) :=
  Keeps.modify fun s => ((unprinted_steps hw .read).write channel reg data s).printed

theorem recordDevice_silent (channel drive : UInt8) (type : UInt16) (count : Nat) :
    Keeps Silent (recordDevice hw channel drive type count) := by
  refine Keeps.bind (Keeps.act fun s => ?_) fun _ =>
    Keeps.bind (Keeps.modify fun _ => rfl) fun _ => Keeps.pure _
  obtain ⟨words, b, _, read⟩ := ideReadBuffer_data hw channel 128 s rfl
  rw [read]
  rfl

theorem awaitIdentify_silent (channel : UInt8) (fuel : Nat) :
    Keeps Silent (awaitIdentify hw channel fuel) := by
  induction fuel with
  | zero => exact Keeps.stop
  | succ fuel ih =>
      refine Keeps.bind (ideReadRegister_silent hw channel ataRegStatus) fun status => ?_
      split
      · exact Keeps.pure _
      split
      · exact Keeps.pure _
      · exact ih

theorem probePosition_silent (fuel : Nat) (channel drive : UInt8) (count : Nat) :
    Keeps Silent (probePosition hw fuel channel drive count) := by
  refine Keeps.bind (Keeps.modify fun _ => rfl) fun _ => ?_
  refine Keeps.bind (ideWriteRegister_silent hw channel _ _) fun _ => ?_
  refine Keeps.bind (ideWriteRegister_silent hw channel _ _) fun _ => ?_
  refine Keeps.bind (ideReadRegister_silent hw channel _) fun status => ?_
  split
  · exact Keeps.pure _
  refine Keeps.bind (awaitIdentify_silent hw channel fuel) fun err => ?_
  split
  · refine Keeps.bind (ideReadRegister_silent hw channel _) fun cl => ?_
    refine Keeps.bind (ideReadRegister_silent hw channel _) fun ch => ?_
    split
    · exact Keeps.bind (ideWriteRegister_silent hw channel _ _) fun _ =>
        recordDevice_silent hw channel drive ideAtapi count
    · exact Keeps.pure _
  · exact recordDevice_silent hw channel drive ideAta count

theorem probeAll_silent (fuel : Nat) (positions : List (UInt8 × UInt8)) (count : Nat) :
    Keeps Silent (probeAll hw fuel positions count) := by
  induction positions generalizing count with
  | nil => exact Keeps.pure _
  | cons p positions ih =>
      exact Keeps.bind (probePosition_silent hw fuel p.1 p.2 count) fun count => ih count

/-- `ata_init` prints the summary of the devices it found, and nothing else. -/
theorem ataInit_prints (fuel : Nat) (s : IdeState σ) : Yields (ataInit hw fuel) s fun _ t =>
    t.printed = s.printed ++ summaryCalls t.devices (List.range 4) := by
  refine Yields.modify (Yields.modify (Yields.modify (Yields.bind fun n u probed => ?_)))
  rintro _ t last
  cases last
  let s₀ := assignChannels 0x1F0 0x3F6 0x170 0x376 0 s
  let s₁ := ideWriteRegister hw 0 ataRegControl 2 s₀
  have off : s₁.printed = s.printed := ideWriteRegister_silent hw 0 ataRegControl 2 s₀
  let s₂ := ideWriteRegister hw 1 ataRegControl 2 s₁
  have off' : s₂.printed = s₁.printed := ideWriteRegister_silent hw 1 ataRegControl 2 s₁
  have quiet := probeAll_silent hw fuel scanPositions 0 s₂
  rw [probed] at quiet
  have start : u.printed = s.printed := (Eq.trans quiet off').trans off
  rw [printSummary_prints, (printSummary_keeps (List.range 4) u).2, start]

end Summary

section Shown

/-- Everything printed from `terminal_initialize` on: what `ata_init` prints, the lines of
`kmain`, and the session. -/
def sessionCalls (summary : List PrintfCall) (look : Text → Text) (keys : List Key) :
    List PrintfCall :=
  summary ++ bootOutput ++ (Session.start.run look keys).1

theorem sessionCalls_textual {summary : List PrintfCall} (printed : ∀ call ∈ summary, call.Textual)
    (look : Text → Text) (keys : List Key) :
    ∀ call ∈ sessionCalls summary look keys, call.Textual := by
  intro call member
  rcases List.mem_append.mp member with before | session
  · rcases List.mem_append.mp before with early | boot
    · exact printed call early
    · exact bootOutput_textual call boot
  · exact Session.run_textual look keys _ call session

/-- The stack of a call whose only argument is a pointer to `s`. -/
def pointedAt (s : Text) : PrintfFrame where
  mem := Mem.write (fun a => s.ptr (a - 0x2000).toNat) 0x1000 (bytes32 0x2000)
  args := 0x1000
  buffer _ _ := 0
  fuel := 0

theorem pointedAt_holds {s : Text} (short : s.chars.length < 0x1000) :
    HoldsString ((pointedAt s).mem.view 0x2000) s.chars := by
  refine s.holds.congr fun i inside => ?_
  have place : (0x2000 + UInt32.ofNat i).toNat = 0x2000 + i := by
    simp only [UInt32.toNat_add, UInt32.toNat_ofNat', UInt32.reduceToNat]
    omega
  have apart : (0x2000 + UInt32.ofNat i - 0x1000).toNat = 0x1000 + i := by
    simp only [UInt32.toNat_sub, UInt32.reduceToNat, place]
    omega
  have offset : (0x2000 + UInt32.ofNat i - 0x2000).toNat = i := by
    simp only [UInt32.toNat_sub, UInt32.reduceToNat, place]
    omega
  have kept : (pointedAt s).mem (0x2000 + UInt32.ofNat i) =
      s.ptr (0x2000 + UInt32.ofNat i - 0x2000).toNat :=
    Mem.write_beyond _ (fits_bytes32 _) (by rw [apart]; change 4 ≤ _; omega)
  rw [Mem.view, kept, offset]

theorem passes_none {mem : Mem} {ps : List Piece} (asks : ps.filterMap Piece.asks = []) :
    Passes mem ps [] [] := by
  induction ps with
  | nil => exact .done
  | cons p ps ih =>
      obtain ⟨none, rest⟩ := List.filterMap_eq_nil_iff.mp asks |> List.forall_mem_cons.mp
      exact .skip none (ih (List.filterMap_eq_nil_iff.mpr rest))

theorem passes_one {mem : Mem} {ps : List Piece} {kind : ArgumentKind}
    (asks : ps.filterMap Piece.asks = [kind]) {a : PrintfArg} {w : UInt32}
    (passed : kind.Passed mem a w) : Passes mem ps [a] [w] := by
  induction ps with
  | nil => cases asks
  | cons p ps ih =>
      cases own : p.asks with
      | none =>
          rw [List.filterMap_cons_none own] at asks
          exact .skip own (ih asks)
      | some k =>
          rw [List.filterMap_cons_some own] at asks
          obtain ⟨rfl, rest⟩ := List.cons.inj asks
          exact .pass own passed (passes_none rest)

/-- The stack of a call whose only argument is a number. -/
def counting (w : UInt32) : PrintfFrame where
  mem := Mem.write (fun _ => 0) 0x1000 (bytes32 w)
  args := 0x1000
  buffer _ _ := 0
  fuel := 0

theorem counting_carries {fmt : String} {w : UInt32} (asks : formatAsks fmt = some [.number]) :
    Carries (counting w) ⟨fmt, [.word w]⟩ := by
  obtain ⟨pieces, scanned, kinds⟩ := Option.map_eq_some_iff.mp asks
  refine ⟨(by decide : (0x1000 : UInt32) ≠ 0), fun ps found => ?_⟩
  cases scanned.symm.trans found
  exact ⟨[w], ⟨Mem.load32_write _ _ _, trivial⟩, passes_one kinds rfl⟩

theorem pointedAt_literal {fmt : String} (asks : formatAsks fmt = some []) (s : Text) :
    Carries (pointedAt s) ⟨fmt, []⟩ := by
  obtain ⟨pieces, scanned, kinds⟩ := Option.map_eq_some_iff.mp asks
  refine ⟨(by decide : (0x1000 : UInt32) ≠ 0), fun ps found => ?_⟩
  cases scanned.symm.trans found
  exact ⟨[], trivial, passes_none kinds⟩

theorem pointedAt_carries {fmt : String} (asks : formatAsks fmt = some [.string]) {s : Text}
    (short : s.chars.length < 0x1000) {a : PrintfArg} (string : a.string = some s.chars) :
    Carries (pointedAt s) ⟨fmt, [a]⟩ := by
  obtain ⟨pieces, scanned, kinds⟩ := Option.map_eq_some_iff.mp asks
  refine ⟨(by decide : (0x1000 : UInt32) ≠ 0), fun ps found => ?_⟩
  cases scanned.symm.trans found
  exact ⟨[0x2000], ⟨Mem.load32_write _ _ _, trivial⟩,
    passes_one kinds ⟨s.chars, string, pointedAt_holds short⟩⟩

/-- An empty line. -/
def enterKeys : List Key := [⟨'\n'.toUInt8, rfl⟩]

/-- A machine whose four drives answer every read alike, behind `ata_init`. -/
def alikeBoot : IdeState Unit :=
  ((ataInit (steadyBus 0x58) 1).run (foundState () noDevice)).2

theorem alikeBoot_returns :
    (ataInit (steadyBus 0x58) 1).run (foundState () noDevice) = (some (), alikeBoot) :=
  Prod.ext rfl rfl

/-- The stacks of the summary of four nameless drives. -/
def summaryFrames : List PrintfFrame :=
  (List.range 4).flatMap fun i =>
    [counting (UInt32.ofNat i), pointedAt Text.empty, pointedAt (Text.ofChars "ATA".toList rfl)]

/-- The strings that are passed behind the summary, up to the answer to an empty line. -/
def enterStrings : List Text :=
  [Text.ofChars " Via Operating System".toList rfl, Text.ofChars "1224".toList rfl,
    Text.ofChars "BOOT 4.0".toList rfl, testName, testData, lolName, lolData, Text.empty,
    Text.empty, Text.empty]

theorem alikeBoot_devices : ∀ i < 4, (alikeBoot.devices i).reserved = 1 ∧
    (alikeBoot.devices i).type = 0 ∧ (alikeBoot.devices i).modelText = [] := by decide

theorem alikeBoot_prints : alikeBoot.printed = (List.range 4).flatMap fun i =>
    [⟨"%d:-\n", [.word (UInt32.ofNat i)]⟩,
      ⟨"  model: %s\n", [.chars (alikeBoot.devices i).model]⟩,
      ⟨"  type: %s\n", [.str (["ATA", "ATAPI"].getD (alikeBoot.devices i).type.toNat "")]⟩] := rfl

theorem summary_carried : List.Forall₂ Carries summaryFrames alikeBoot.printed := by
  rw [alikeBoot_prints]
  have lines : ∀ i < 4, List.Forall₂ Carries
      [counting (UInt32.ofNat i), pointedAt Text.empty, pointedAt (Text.ofChars "ATA".toList rfl)]
      [⟨"%d:-\n", [.word (UInt32.ofNat i)]⟩,
        ⟨"  model: %s\n", [.chars (alikeBoot.devices i).model]⟩,
        ⟨"  type: %s\n", [.str (["ATA", "ATAPI"].getD (alikeBoot.devices i).type.toNat "")]⟩] := by
    intro i inside
    obtain ⟨_, type, nameless⟩ := alikeBoot_devices i inside
    rw [type]
    exact .cons (counting_carries rfl) <|
      .cons (pointedAt_carries rfl (by decide) (congrArg some nameless)) <|
      .cons (pointedAt_carries rfl (by decide) rfl) .nil
  exact List.rel_append (lines 0 (by decide)) (List.rel_append (lines 1 (by decide))
    (List.rel_append (lines 2 (by decide)) (List.rel_append (lines 3 (by decide)) .nil)))

theorem enter_carried : List.Forall₂ Carries (summaryFrames ++ enterStrings.map pointedAt)
    (sessionCalls alikeBoot.printed id enterKeys) := by
  have calls : sessionCalls alikeBoot.printed id enterKeys = alikeBoot.printed ++
      (bootOutput ++ [⟨"\nUnrecognized command: %s\n", [.chars []]⟩, ⟨"> ", []⟩]) := by
    rw [sessionCalls, List.append_assoc]
    rfl
  rw [calls]
  refine List.rel_append summary_carried ?_
  exact .cons (pointedAt_carries rfl (by decide) rfl) <|
    .cons (pointedAt_carries rfl (by decide) rfl) <|
    .cons (pointedAt_carries rfl (by decide) rfl) <|
    .cons (pointedAt_carries rfl (by decide) rfl) <|
    .cons (pointedAt_carries rfl (by decide) rfl) <|
    .cons (pointedAt_carries rfl (by decide) rfl) <|
    .cons (pointedAt_carries rfl (by decide) rfl) <|
    .cons (pointedAt_literal rfl _) <|
    .cons (pointedAt_carries rfl (by decide) rfl) <|
    .cons (pointedAt_literal rfl _) .nil

/-- The terminal before anything was initialised. -/
def darkTerminal : Terminal :=
  { row := 0, column := 0, color := 0, buffer := 0, video := fun _ => 0, writes := [] }

end Shown

end VDK
