import VDK.PrintfOutput

/-!
# Text formats with length modifiers

Formats of ordinary characters and of conversions to `c`, `s`, `%` or a letter that
`printf` does not know, each behind any length modifier. A format may break off inside
its last conversion. `Prints` is the text such a format calls for.
-/
namespace VDK
open Atomic Fuel ByteMem

inductive LengthModifier where
  | none
  | h
  | hh
  | l
  | ll
  deriving DecidableEq, Repr

namespace LengthModifier

def bytes : LengthModifier → List UInt8
  | none => []
  | h => ['h'.toUInt8]
  | hh => ['h'.toUInt8, 'h'.toUInt8]
  | l => ['l'.toUInt8]
  | ll => ['l'.toUInt8, 'l'.toUInt8]

theorem bytes_nonzero (m : LengthModifier) : ∀ c ∈ m.bytes, c ≠ 0 := by
  cases m with
  | none => exact Piece.all_nonzero rfl
  | h => exact Piece.all_nonzero rfl
  | hh => exact Piece.all_nonzero rfl
  | l => exact Piece.all_nonzero rfl
  | ll => exact Piece.all_nonzero rfl

/-- A letter behind the modifier that does not make it a longer one. -/
def Closes (c : UInt8) : LengthModifier → Prop
  | none => c ≠ 'h'.toUInt8 ∧ c ≠ 'l'.toUInt8
  | h => c ≠ 'h'.toUInt8
  | hh => True
  | l => c ≠ 'l'.toUInt8
  | ll => True

theorem closes {c : UInt8} (other : c ≠ 'h'.toUInt8 ∧ c ≠ 'l'.toUInt8) (m : LengthModifier) :
    m.Closes c := by
  cases m with
  | none => exact other
  | h => exact other.1
  | hh => trivial
  | l => exact other.2
  | ll => trivial

/-- The variables of `printf` behind the percent sign and the modifier. -/
def vars (place : Nat) (argp : UInt32) : LengthModifier → PrintfVars
  | none => ⟨place, argp, .length, .default, 10, false⟩
  | h => ⟨place, argp, .lengthShort, .short, 10, false⟩
  | hh => ⟨place, argp, .spec, .shortShort, 10, false⟩
  | l => ⟨place, argp, .lengthLong, .long, 10, false⟩
  | ll => ⟨place, argp, .spec, .longLong, 10, false⟩

end LengthModifier

/-- The letters with a case of their own at `PRINTF_STATE_SPEC_`. -/
def convertedLetters : List UInt8 :=
  ['c', 's', '%', 'd', 'i', 'u', 'X', 'x', 'p', 'o'].map Char.toUInt8

inductive TextPiece where
  | plain (c : UInt8) (ordinary : c ≠ 0 ∧ c ≠ '%'.toUInt8)
  | char (m : LengthModifier)
  | string (m : LengthModifier)
  | percent (m : LengthModifier)
  | unknown (m : LengthModifier) (c : UInt8) (nonzero : c ≠ 0) (other : c ∉ convertedLetters)
      (closes : m.Closes c)

namespace TextPiece

def bytes : TextPiece → List UInt8
  | plain c _ => [c]
  | char m => '%'.toUInt8 :: (m.bytes ++ ['c'.toUInt8])
  | string m => '%'.toUInt8 :: (m.bytes ++ ['s'.toUInt8])
  | percent m => '%'.toUInt8 :: (m.bytes ++ ['%'.toUInt8])
  | unknown m c _ _ _ => '%'.toUInt8 :: (m.bytes ++ [c])

theorem conversion_nonzero (m : LengthModifier) {letter : UInt8} (nonzero : letter ≠ 0) :
    ∀ c ∈ '%'.toUInt8 :: (m.bytes ++ [letter]), c ≠ 0 := by
  intro c member
  rcases List.mem_cons.mp member with rfl | member
  · decide
  · rcases List.mem_append.mp member with modifier | last
    · exact m.bytes_nonzero c modifier
    · rw [List.mem_singleton.mp last]
      exact nonzero

theorem bytes_nonzero (p : TextPiece) : ∀ c ∈ p.bytes, c ≠ 0 := by
  cases p with
  | plain c ordinary =>
      intro b member
      rw [List.mem_singleton.mp member]
      exact ordinary.1
  | char m => exact conversion_nonzero m (by decide)
  | string m => exact conversion_nonzero m (by decide)
  | percent m => exact conversion_nonzero m (by decide)
  | unknown m c nonzero _ _ => exact conversion_nonzero m nonzero

/-- The conversions that take an argument. -/
def Takes : TextPiece → Bool
  | char _ => true
  | string _ => true
  | _ => false

end TextPiece

/-- A conversion without its letter, at the end of a format. -/
def unfinished : Option LengthModifier → List UInt8
  | some m => '%'.toUInt8 :: m.bytes
  | none => []

def spelledText (ps : List TextPiece) : List UInt8 := ps.flatMap TextPiece.bytes

def textFormat (ps : List TextPiece) (tail : Option LengthModifier) : Text where
  chars := spelledText ps ++ unfinished tail
  noNul c member := by
    rcases List.mem_append.mp member with inside | last
    · obtain ⟨p, _, here⟩ := List.mem_flatMap.mp inside
      exact p.bytes_nonzero c here
    · cases tail with
      | none => exact absurd last List.not_mem_nil
      | some m =>
          rcases List.mem_cons.mp last with rfl | modifier
          · decide
          · exact m.bytes_nonzero c modifier

section Reference

variable (mem : Mem)

/-- The text of the pieces over a list of arguments that matches them. -/
inductive Prints : List TextPiece → List UInt32 → List UInt8 → Prop
  | done : Prints [] [] []
  | plain {ps args out c ordinary} (rest : Prints ps args out) :
      Prints (.plain c ordinary :: ps) args (c :: out)
  | char {ps args out} (m : LengthModifier) (w : UInt32) (rest : Prints ps args out) :
      Prints (.char m :: ps) (w :: args) (w.toUInt8 :: out)
  | string {ps args out s} (m : LengthModifier) {w : UInt32} (holds : HoldsString (mem.view w) s)
      (rest : Prints ps args out) : Prints (.string m :: ps) (w :: args) (s ++ out)
  | percent {ps args out} (m : LengthModifier) (rest : Prints ps args out) :
      Prints (.percent m :: ps) args ('%'.toUInt8 :: out)
  | unknown {ps args out} (m : LengthModifier) (c : UInt8) {nonzero other closes}
      (rest : Prints ps args out) : Prints (.unknown m c nonzero other closes :: ps) args out

variable {mem}

theorem Prints.length {ps : List TextPiece} {args : List UInt32} {out : List UInt8}
    (h : Prints mem ps args out) : args.length = ps.countP TextPiece.Takes := by
  induction h with
  | done => rfl
  | plain _ ih => exact ih
  | char m w _ ih => exact (congrArg Nat.succ ih).trans (List.countP_cons_of_pos rfl).symm
  | string m _ _ ih => exact (congrArg Nat.succ ih).trans (List.countP_cons_of_pos rfl).symm
  | percent m _ ih => exact ih
  | unknown m c _ ih => exact ih

theorem Prints.front {ps qs : List TextPiece} {args : List UInt32} {out : List UInt8}
    (h : Prints mem (ps ++ qs) args out) : ∃ args₁ args₂ out₁ out₂, args = args₁ ++ args₂ ∧
      out = out₁ ++ out₂ ∧ Prints mem ps args₁ out₁ := by
  induction ps generalizing args out with
  | nil => exact ⟨[], args, [], out, rfl, rfl, .done⟩
  | cons p ps ih =>
      cases h with
      | plain rest =>
          obtain ⟨args₁, args₂, out₁, out₂, rfl, rfl, first⟩ := ih rest
          exact ⟨args₁, args₂, _, out₂, rfl, rfl, .plain first⟩
      | char m w rest =>
          obtain ⟨args₁, args₂, out₁, out₂, rfl, rfl, first⟩ := ih rest
          exact ⟨_, args₂, _, out₂, rfl, rfl, .char m w first⟩
      | string m holds rest =>
          obtain ⟨args₁, args₂, out₁, out₂, rfl, rfl, first⟩ := ih rest
          exact ⟨_, args₂, _, out₂, rfl, (List.append_assoc _ _ _).symm, .string m holds first⟩
      | percent m rest =>
          obtain ⟨args₁, args₂, out₁, out₂, rfl, rfl, first⟩ := ih rest
          exact ⟨args₁, args₂, _, out₂, rfl, rfl, .percent m first⟩
      | unknown m c rest =>
          obtain ⟨args₁, args₂, out₁, out₂, rfl, rfl, first⟩ := ih rest
          exact ⟨args₁, args₂, out₁, out₂, rfl, rfl, .unknown m c first⟩

end Reference

section Steps

variable {S : Type} (putchar : UInt8 → Prog S Unit) (frame : PrintfFrame)

/-- The percent sign and the modifier take the parser to the letter. -/
theorem printfLoop_modifier (m : LengthModifier) (rest : List UInt8) (place : Nat) (argp : UInt32) :
    printfLoop putchar frame ('%'.toUInt8 :: (m.bytes ++ rest)) (.between place argp) =
      printfLoop putchar frame rest (m.vars (place + 1 + m.bytes.length) argp) := by
  cases m with
  | none => rfl
  | h => rfl
  | hh => rfl
  | l => rfl
  | ll => rfl

theorem printfStep_letter {m : LengthModifier} {c : UInt8} (closes : m.Closes c) (place : Nat)
    (argp : UInt32) : printfStep putchar frame c (m.vars place argp) =
      printfSpec putchar frame c (m.vars place argp) := by
  cases m with
  | none => exact (if_neg closes.1).trans (if_neg closes.2)
  | h => exact if_neg closes
  | hh => rfl
  | l => exact if_neg closes
  | ll => rfl

/-- Where the format and the argument pointer stand does not depend on the modifier. -/
theorem vars_places (m : LengthModifier) (place : Nat) (argp : UInt32) :
    (m.vars place argp).argp = argp ∧
      ∀ argp', ((m.vars place argp).finish argp').next = .between (place + 1) argp' := by
  cases m with
  | none => exact ⟨rfl, fun _ => rfl⟩
  | h => exact ⟨rfl, fun _ => rfl⟩
  | hh => exact ⟨rfl, fun _ => rfl⟩
  | l => exact ⟨rfl, fun _ => rfl⟩
  | ll => exact ⟨rfl, fun _ => rfl⟩

/-- A whole conversion whose letter has the given effect and leaves the given pointer. -/
theorem printfLoop_letter {m : LengthModifier} {c : UInt8} (closes : m.Closes c)
    {effect : Prog S Unit} {argp argp' : UInt32}
    (spec : ∀ v : PrintfVars, v.argp = argp →
      printfSpec putchar frame c v = effect >>= fun _ => pure (v.finish argp'))
    (rest : List UInt8) (place : Nat) :
    printfLoop putchar frame (('%'.toUInt8 :: (m.bytes ++ [c])) ++ rest) (.between place argp) =
      effect >>= fun _ => printfLoop putchar frame rest
        (.between (place + ('%'.toUInt8 :: (m.bytes ++ [c])).length) argp') := by
  have length : place + ('%'.toUInt8 :: (m.bytes ++ [c])).length =
      place + 1 + m.bytes.length + 1 := by
    rw [List.length_cons, List.length_append, List.length_singleton]
    omega
  have bytes : ('%'.toUInt8 :: (m.bytes ++ [c])) ++ rest = '%'.toUInt8 :: (m.bytes ++ c :: rest) := by
    rw [List.cons_append, List.append_assoc]
    rfl
  obtain ⟨pointer, finish⟩ := vars_places m (place + 1 + m.bytes.length) argp
  rw [length, bytes, printfLoop_modifier, printfLoop, printfStep_letter putchar frame closes,
    spec _ pointer, bind_assoc]
  simp only [pure_bind, finish]

theorem printfSpec_unknown {c : UInt8} (other : c ∉ convertedLetters) (v : PrintfVars) :
    printfSpec putchar frame c v = pure (v.finish v.argp) := by
  simp only [convertedLetters, List.map_cons, List.map_nil, List.mem_cons, List.not_mem_nil,
    or_false, not_or] at other
  obtain ⟨c', s', percent, d, i, u, upperX, x, p, o⟩ := other
  rw [printfSpec, if_neg c', if_neg s', if_neg percent, if_neg (not_or.mpr ⟨d, i⟩), if_neg u,
    if_neg (not_or.mpr ⟨upperX, not_or.mpr ⟨x, p⟩⟩), if_neg o]

end Steps

section Walk

variable {S : Type} (putchar : UInt8 → Prog S Unit) {frame : PrintfFrame}

namespace TextPiece

/-- The characters a piece sends when its argument is at `argp`. -/
def Sends (frame : PrintfFrame) (argp : UInt32) (s : List UInt8) : TextPiece → Prop
  | plain c _ => s = [c]
  | char _ => s = [(frame.mem.load32 argp).toUInt8]
  | string _ => HoldsString (frame.mem.view (frame.mem.load32 argp)) s
  | percent _ => s = ['%'.toUInt8]
  | unknown _ _ _ _ _ => s = []

def argpAfter (argp : UInt32) (p : TextPiece) : UInt32 := if p.Takes then argp + 4 else argp

theorem Sends.loop {p : TextPiece} {argp : UInt32} {s : List UInt8} (sends : p.Sends frame argp s)
    {fuel : Nat} (enough : s.length < fuel) (rest : List UInt8) (place : Nat) :
    printfLoop putchar (frame.withFuel fuel) (p.bytes ++ rest) (.between place argp) =
      Prog.forEach putchar s >>= fun _ => printfLoop putchar (frame.withFuel fuel) rest
        (.between (place + p.bytes.length) (p.argpAfter argp)) := by
  cases p with
  | plain c ordinary =>
      cases sends
      rw [Prog.forEach_singleton]
      exact printfLoop_ordinary putchar _ ordinary.2 rest place argp
  | char m =>
      cases sends
      rw [Prog.forEach_singleton]
      refine printfLoop_letter putchar _ (m.closes (by decide)) (fun v pointer => ?_) rest place
      rw [printfSpec_char, pointer]
      rfl
  | string m =>
      have sent : writestring putchar fuel (frame.mem.view (frame.mem.load32 argp)) =
          Prog.forEach putchar s := by
        rw [writestring, strlen_holds sends enough]
        dsimp only
        rw [map_range_holds sends]
      rw [← sent]
      refine printfLoop_letter putchar _ (m.closes (by decide)) (fun v pointer => ?_) rest place
      rw [printfSpec_string, pointer]
      rfl
  | percent m =>
      cases sends
      rw [Prog.forEach_singleton]
      refine printfLoop_letter putchar _ (m.closes (by decide)) (fun v pointer => ?_) rest place
      rw [printfSpec_percent, pointer]
      rfl
  | unknown m c nonzero other closes =>
      cases sends
      refine printfLoop_letter putchar _ closes (fun v pointer => ?_) rest place
      rw [printfSpec_unknown putchar _ other, pointer]
      rfl

end TextPiece

/-- One piece that sends `s`, and the others behind it. -/
theorem printfLoop_cons {p : TextPiece} {ps : List TextPiece} {place : Nat} {argp argp' : UInt32}
    {s out : List UInt8} {fuel : Nat} (sends : p.Sends frame argp s) (enough : s.length < fuel)
    {rest : List UInt8}
    (later : printfLoop putchar (frame.withFuel fuel) (spelledText ps ++ rest)
        (.between (place + p.bytes.length) (p.argpAfter argp)) =
      Prog.forEach putchar out >>= fun _ => printfLoop putchar (frame.withFuel fuel) rest
        (.between (place + p.bytes.length + (spelledText ps).length) argp')) :
    printfLoop putchar (frame.withFuel fuel) (spelledText (p :: ps) ++ rest) (.between place argp) =
      Prog.forEach putchar (s ++ out) >>= fun _ => printfLoop putchar (frame.withFuel fuel) rest
        (.between (place + (spelledText (p :: ps)).length) argp') := by
  have split : spelledText (p :: ps) = p.bytes ++ spelledText ps := rfl
  rw [split, List.append_assoc, sends.loop putchar enough, later, List.length_append,
    Prog.forEach_append, bind_assoc, Nat.add_assoc]

/-- The parser sends the text of the pieces and is back in its initial state, with the
argument pointer behind the arguments they take. -/
theorem Prints.walk {ps : List TextPiece} {args : List UInt32} {out : List UInt8}
    (prints : Prints frame.mem ps args out) {argp : UInt32}
    (held : frame.mem.HoldsWords argp args) {fuel : Nat} (enough : out.length < fuel)
    (rest : List UInt8) (place : Nat) :
    printfLoop putchar (frame.withFuel fuel) (spelledText ps ++ rest) (.between place argp) =
      Prog.forEach putchar out >>= fun _ => printfLoop putchar (frame.withFuel fuel) rest
        (.between (place + (spelledText ps).length) (argp + UInt32.ofNat (4 * args.length))) := by
  induction prints generalizing place argp with
  | done => exact congrArg _ (congrArg _ (UInt32.add_zero argp).symm)
  | @plain ps args out c ordinary _ ih =>
      have sends : (TextPiece.plain c ordinary).Sends frame argp [c] := rfl
      have one : [c].length < fuel := Nat.lt_of_le_of_lt (Nat.succ_le_succ (Nat.zero_le _)) enough
      exact printfLoop_cons putchar sends one (ih held (Nat.lt_of_succ_lt enough) _)
  | @char ps args out m w _ ih =>
      have sends : (TextPiece.char m).Sends frame argp [w.toUInt8] :=
        congrArg (fun w : UInt32 => [w.toUInt8]) held.1.symm
      have one : [w.toUInt8].length < fuel :=
        Nat.lt_of_le_of_lt (Nat.succ_le_succ (Nat.zero_le _)) enough
      rw [List.length_cons, add_ofNat_succ]
      exact printfLoop_cons putchar sends one (ih held.2 (Nat.lt_of_succ_lt enough) _)
  | @string ps args out s m w holds _ ih =>
      have sends : (TextPiece.string m).Sends frame argp s :=
        show HoldsString _ _ from held.1.symm ▸ holds
      rw [List.length_append] at enough
      rw [List.length_cons, add_ofNat_succ]
      exact printfLoop_cons putchar sends (by omega) (ih held.2 (by omega) _)
  | @percent ps args out m _ ih =>
      have sends : (TextPiece.percent m).Sends frame argp ['%'.toUInt8] := rfl
      have one : ['%'.toUInt8].length < fuel :=
        Nat.lt_of_le_of_lt (Nat.succ_le_succ (Nat.zero_le _)) enough
      exact printfLoop_cons putchar sends one (ih held (Nat.lt_of_succ_lt enough) _)
  | @unknown ps args out m c nonzero other closes _ ih =>
      have sends : (TextPiece.unknown m c nonzero other closes).Sends frame argp [] := rfl
      exact printfLoop_cons putchar sends (Nat.zero_lt_of_lt enough) (ih held enough _)

theorem printfLoop_unfinished (tail : Option LengthModifier) (place : Nat) (argp : UInt32)
    (frame : PrintfFrame) :
    ∃ v, printfLoop putchar frame (unfinished tail) (.between place argp) = pure v := by
  cases tail with
  | none => exact ⟨_, rfl⟩
  | some m =>
      have modifier := printfLoop_modifier putchar frame m [] place argp
      rw [List.append_nil] at modifier
      exact ⟨_, modifier⟩

/-- `printf` sends the text its format calls for. Behind every piece it has sent the text
of the pieces so far, is in its initial state, and has moved past one argument for each
`c` and each `s`. -/
theorem printf_text_grammar {ps : List TextPiece} {args : List UInt32} {out : List UInt8}
    (tail : Option LengthModifier) (prints : Prints frame.mem ps args out)
    (held : frame.mem.HoldsWords frame.args args) {fuel : Nat} (enough : out.length < fuel) :
    printf putchar (frame.withFuel fuel) (textFormat ps tail) = Prog.forEach putchar out ∧
      ∀ front back, ps = front ++ back → ∃ args₁ args₂ sent later, args = args₁ ++ args₂ ∧
        out = sent ++ later ∧ Prints frame.mem front args₁ sent ∧
        args₁.length = front.countP TextPiece.Takes ∧
        printfLoop putchar (frame.withFuel fuel) (spelledText front)
            (PrintfFrame.start (frame.withFuel fuel)) =
          Prog.forEach putchar sent >>= fun _ => pure
            (.between (spelledText front).length (frame.args + UInt32.ofNat (4 * args₁.length))) := by
  constructor
  · have walk := prints.walk putchar held enough (unfinished tail) 0
    obtain ⟨v, broken⟩ := printfLoop_unfinished putchar tail (0 + (spelledText ps).length)
      (frame.args + UInt32.ofNat (4 * args.length)) (frame.withFuel fuel)
    rw [broken] at walk
    change printfLoop putchar (frame.withFuel fuel) (spelledText ps ++ unfinished tail)
      (.between 0 frame.args) >>= (fun _ => pure ()) = _
    rw [walk, bind_assoc]
    exact bind_pure _
  · rintro front back rfl
    obtain ⟨args₁, args₂, sent, later, rfl, rfl, first⟩ := prints.front
    have short : sent.length < fuel := by
      rw [List.length_append] at enough
      omega
    have walk := first.walk putchar held.append_inv.1 short [] 0
    rw [List.append_nil, Nat.zero_add] at walk
    exact ⟨args₁, args₂, sent, later, rfl, rfl, first, first.length, walk⟩

end Walk

section Sample

/-- Three argument words, the second the address of the string "abc". -/
def sampleArguments : Mem := fun a =>
  List.getD ([0x21, 0, 0, 0, 0x0C, 0, 0, 0, 0x3F, 0, 0, 0, 0x61, 0x62, 0x63] : List UInt8) a.toNat 0

def samplePieces : List TextPiece :=
  [.char .h, .percent .none, .string .ll, .unknown .l 0x71 (by decide) (by decide)
    (show (0x71 : UInt8) ≠ 'l'.toUInt8 by decide), .char .none]

/-- The call `printf("%hc%%%lls%lq%c%hh", '!', "abc", '?')`. -/
theorem printf_text_grammar_sample :
    printf record (PrintfFrame.withFuel ⟨sampleArguments, 0, fun _ _ => 0, 0⟩ 9)
        (textFormat samplePieces (some .hh)) =
      Prog.forEach record ("!%abc?".toList.map Char.toUInt8) := by
  have prints : Prints sampleArguments samplePieces [0x21, 0x0C, 0x3F]
      ("!%abc?".toList.map Char.toUInt8) :=
    .char .h 0x21 (.percent .none (.string (s := [0x61, 0x62, 0x63]) .ll
      (show HoldsString (sampleArguments.view 0x0C) _ by decide)
      (.unknown .l 0x71 (.char .none 0x3F .done))))
  exact (@printf_text_grammar _ record ⟨sampleArguments, 0, fun _ _ => 0, 0⟩ _ _ _ (some .hh) prints
    ⟨by decide, by decide, by decide, trivial⟩ 9 (by decide)).1

end Sample

end VDK
