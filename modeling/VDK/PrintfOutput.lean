import VDK.FormatPieces

/-!
# What `printf` sends

A call is run on a record of the characters sent. Over the pieces of a format the
code is a walk that moves the argument pointer at `%c` and `%s` only, and prints the
pointer itself, in decimal, at every numeric conversion.
-/
namespace VDK
open Atomic Fuel ByteMem

section Strings

theorem strlen_holds {p : Ptr} {s : List UInt8} (holds : HoldsString p s) {fuel : Nat}
    (enough : s.length < fuel) : strlen fuel p = some s.length := by
  induction s generalizing p fuel with
  | nil =>
      cases fuel with
      | zero => exact absurd enough (Nat.not_lt_zero _)
      | succ fuel => exact if_pos holds
  | cons c cs ih =>
      cases fuel with
      | zero => exact absurd enough (Nat.not_lt_zero _)
      | succ fuel =>
          rw [strlen, if_neg (by rw [holds.1]; exact holds.2.1),
            ih holds.2.2 (Nat.lt_of_succ_lt_succ enough)]
          rfl

theorem strlen_some {fuel : Nat} {p : Ptr} {n : Nat} (found : strlen fuel p = some n) :
    HoldsString p ((List.range n).map p) := by
  induction fuel generalizing p n with
  | zero => cases found
  | succ fuel ih =>
      rw [strlen] at found
      split at found
      · rename_i nul
        cases found
        exact nul
      · rename_i nonzero
        obtain ⟨m, rest, rfl⟩ := Option.map_eq_some_iff.mp found
        rw [List.range_succ_eq_map, List.map_cons, List.map_map]
        refine ⟨rfl, nonzero, ?_⟩
        have shifted : p ∘ Nat.succ = p.advance 1 := by
          funext i
          exact congrArg p (Nat.add_comm i 1)
        rw [shifted]
        exact ih rest

theorem map_range_holds {p : Ptr} {s : List UInt8} (holds : HoldsString p s) :
    (List.range s.length).map p = s :=
  (strlen_some (strlen_holds holds (Nat.lt_succ_self _))).unique holds

end Strings

section Walk

variable {S : Type} (putchar : UInt8 → Prog S Unit) (frame : PrintfFrame)

/-- The variables between two pieces. -/
def PrintfVars.between (place : Nat) (argp : UInt32) : PrintfVars :=
  ⟨place, argp, .normal, .default, 10, false⟩

namespace Piece

/-- What a piece does that starts at `place`. -/
def body (place : Nat) (argp : UInt32) : Piece → Prog S Unit
  | plain c _ => putchar c
  | percent => putchar '%'.toUInt8
  | char => putchar (frame.mem.load32 argp).toUInt8
  | string => writestring putchar frame.fuel (frame.mem.view (frame.mem.load32 argp))
  | number _ =>
      writestring putchar frame.fuel (intToStr (wrapInt argp.toNat) (frame.buffer (place + 1)))

def argpAfter (argp : UInt32) : Piece → UInt32
  | char => argp + 4
  | string => argp + 4
  | _ => argp

end Piece

theorem printfSpec_char (v : PrintfVars) : printfSpec putchar frame 'c'.toUInt8 v =
    putchar (frame.mem.load32 v.argp).toUInt8 >>= fun _ => pure (v.finish (v.argp + 4)) := rfl

theorem printfSpec_string (v : PrintfVars) : printfSpec putchar frame 's'.toUInt8 v =
    writestring putchar frame.fuel (frame.mem.view (frame.mem.load32 v.argp)) >>= fun _ =>
      pure (v.finish (v.argp + 4)) := rfl

theorem printfSpec_percent (v : PrintfVars) : printfSpec putchar frame '%'.toUInt8 v =
    putchar '%'.toUInt8 >>= fun _ => pure (v.finish v.argp) := rfl

theorem printfLoop_ordinary {c : UInt8} (ordinary : c ≠ '%'.toUInt8) (rest : List UInt8) (place : Nat)
    (argp : UInt32) : printfLoop putchar frame (c :: rest) (.between place argp) =
      putchar c >>= fun _ => printfLoop putchar frame rest (.between (place + 1) argp) := by
  have step : printfStep putchar frame c (.between place argp) =
      putchar c >>= fun _ => pure (.between place argp) := if_neg ordinary
  rw [printfLoop, step, bind_assoc]
  rfl

/-- A conversion of one letter, which is no length modifier. -/
theorem printfLoop_conversion (c : UInt8) (modifier : c ≠ 'h'.toUInt8 ∧ c ≠ 'l'.toUInt8)
    (rest : List UInt8) (place : Nat) (argp : UInt32) :
    printfLoop putchar frame ('%'.toUInt8 :: c :: rest) (.between place argp) =
      printfSpec putchar frame c ⟨place + 1, argp, .length, .default, 10, false⟩ >>= fun v =>
        printfLoop putchar frame rest v.next := by
  have mark : printfStep putchar frame '%'.toUInt8 (.between place argp) =
      pure ⟨place, argp, .length, .default, 10, false⟩ := rfl
  have letter : printfStep putchar frame c ⟨place + 1, argp, .length, .default, 10, false⟩ =
      printfSpec putchar frame c ⟨place + 1, argp, .length, .default, 10, false⟩ :=
    (if_neg modifier.1).trans (if_neg modifier.2)
  rw [← letter]
  change printfStep putchar frame '%'.toUInt8 _ >>= _ = _
  rw [mark, pure_bind]
  rfl

theorem printfSpec_number (k : Number) (place : Nat) (argp : UInt32) :
    printfSpec putchar frame k.letter ⟨place, argp, .length, .default, 10, false⟩ =
      writestring putchar frame.fuel (intToStr (wrapInt argp.toNat) (frame.buffer place)) >>=
        fun _ => pure (.between place argp) := by
  have spec : printfSpec putchar frame k.letter ⟨place, argp, .length, .default, 10, false⟩ =
      printfNumber putchar frame place argp .default true 10 >>= fun argp =>
        pure (.between place argp) := by
    cases k with
    | d => rfl
    | i => rfl
    | u => rfl
    | x => rfl
    | upperX => rfl
    | p => rfl
    | o => rfl
  rw [spec, printfNumber, bind_assoc]
  rfl

theorem printfLoop_piece (p : Piece) (rest : List UInt8) (place : Nat) (argp : UInt32) :
    printfLoop putchar frame (p.bytes ++ rest) (.between place argp) =
      p.body putchar frame place argp >>= fun _ =>
        printfLoop putchar frame rest (.between (place + p.bytes.length) (p.argpAfter argp)) := by
  cases p with
  | plain c ordinary => exact printfLoop_ordinary putchar frame ordinary.2 rest place argp
  | percent =>
      refine (printfLoop_conversion putchar frame _ (by decide) rest place argp).trans ?_
      rw [printfSpec_percent, bind_assoc]
      rfl
  | char =>
      refine (printfLoop_conversion putchar frame _ (by decide) rest place argp).trans ?_
      rw [printfSpec_char, bind_assoc]
      rfl
  | string =>
      refine (printfLoop_conversion putchar frame _ (by decide) rest place argp).trans ?_
      rw [printfSpec_string, bind_assoc]
      rfl
  | number k =>
      have modifier : k.letter ≠ 'h'.toUInt8 ∧ k.letter ≠ 'l'.toUInt8 := by
        cases k <;> decide
      refine (printfLoop_conversion putchar frame _ modifier rest place argp).trans ?_
      rw [printfSpec_number, bind_assoc]
      rfl

end Walk

section Record

/-- The `putchar` that only records. -/
def record (c : UInt8) : Prog (List UInt8) Unit := Prog.modify fun sent => sent ++ [c]

theorem run_forEach_record (s sent : List UInt8) :
    (Prog.forEach record s).run.run sent = (some (), sent ++ s) := by
  induction s generalizing sent with
  | nil => rw [List.append_nil]; rfl
  | cons c s ih =>
      have rest := ih (sent ++ [c])
      rw [List.append_assoc] at rest
      exact rest

variable (frame : PrintfFrame)

def PrintfFrame.withFuel (n : Nat) : PrintfFrame := { frame with fuel := n }

theorem writestring_returns {data : Ptr} {fuel : Nat} {sent t : List UInt8}
    (ran : (writestring record fuel data).run.run sent = (some (), t)) :
    ∃ s, HoldsString data s ∧ t = sent ++ s := by
  rw [writestring] at ran
  rcases found : strlen fuel data with _ | size
  · rw [found] at ran
    cases ran
  · rw [found] at ran
    dsimp only at ran
    rw [run_forEach_record] at ran
    cases ran
    exact ⟨_, strlen_some found, rfl⟩

/-- The characters a piece sends, when it sends any. -/
def Piece.Sends (place : Nat) (argp : UInt32) (s : List UInt8) : Piece → Prop
  | plain c _ => s = [c]
  | percent => s = ['%'.toUInt8]
  | char => s = [(frame.mem.load32 argp).toUInt8]
  | string => HoldsString (frame.mem.view (frame.mem.load32 argp)) s
  | number _ => HoldsString (intToStr (wrapInt argp.toNat) (frame.buffer (place + 1))) s

theorem Piece.Sends.body {S : Type} (putchar : UInt8 → Prog S Unit) {p : Piece} {place : Nat}
    {argp : UInt32} {s : List UInt8} (h : p.Sends frame place argp s) {fuel : Nat}
    (enough : s.length < fuel) :
    p.body putchar (frame.withFuel fuel) place argp = Prog.forEach putchar s := by
  have string : ∀ {data : Ptr}, HoldsString data s →
      writestring putchar fuel data = Prog.forEach putchar s := by
    intro data holds
    rw [writestring, strlen_holds holds enough]
    dsimp only
    rw [map_range_holds holds]
  cases p with
  | plain c ordinary => cases h; exact (Prog.forEach_singleton putchar c).symm
  | percent => cases h; exact (Prog.forEach_singleton putchar _).symm
  | char => cases h; exact (Prog.forEach_singleton putchar _).symm
  | string => exact string h
  | number k => exact string h

theorem Piece.body_returns {p : Piece} {place : Nat} {argp : UInt32} {fuel : Nat}
    {sent t : List UInt8}
    (ran : (p.body record (frame.withFuel fuel) place argp).run.run sent = (some (), t)) :
    ∃ s, p.Sends frame place argp s ∧ t = sent ++ s := by
  cases p with
  | plain c ordinary => cases ran; exact ⟨_, rfl, rfl⟩
  | percent => cases ran; exact ⟨_, rfl, rfl⟩
  | char => cases ran; exact ⟨_, rfl, rfl⟩
  | string => exact writestring_returns ran
  | number k => exact writestring_returns ran

theorem Piece.Sends.unique {p : Piece} {place : Nat} {argp : UInt32} {s t : List UInt8}
    (h : p.Sends frame place argp s) (k : p.Sends frame place argp t) : s = t := by
  cases p with
  | plain c ordinary => exact h.trans k.symm
  | percent => exact h.trans k.symm
  | char => exact h.trans k.symm
  | string => exact HoldsString.unique h k
  | number _ => exact HoldsString.unique h k

inductive SendsAll : List Piece → Nat → UInt32 → List UInt8 → Prop
  | done {place argp} : SendsAll [] place argp []
  | piece {p ps place argp s out} (first : p.Sends frame place argp s)
      (rest : SendsAll ps (place + p.bytes.length) (p.argpAfter argp) out) :
      SendsAll (p :: ps) place argp (s ++ out)

def argpBehind (argp : UInt32) (ps : List Piece) : UInt32 :=
  ps.foldl (fun a p => p.argpAfter a) argp

variable {frame}

theorem SendsAll.unique {ps : List Piece} {place : Nat} {argp : UInt32} {s t : List UInt8}
    (h : SendsAll frame ps place argp s) (k : SendsAll frame ps place argp t) : s = t := by
  induction h generalizing t with
  | done => cases k; rfl
  | piece first _ ih =>
      cases k with
      | piece first' rest' => rw [first.unique frame first', ih rest']

theorem sendsAll_append {ps qs : List Piece} {place : Nat} {argp : UInt32} {out : List UInt8} :
    SendsAll frame (ps ++ qs) place argp out ↔ ∃ out₁ out₂, out = out₁ ++ out₂ ∧
      SendsAll frame ps place argp out₁ ∧
      SendsAll frame qs (place + (spelled ps).length) (argpBehind argp ps) out₂ := by
  induction ps generalizing place argp out with
  | nil =>
      constructor
      · exact fun h => ⟨[], out, rfl, .done, h⟩
      · rintro ⟨_, out₂, rfl, ⟨⟩, h⟩
        exact h
  | cons p ps ih =>
      have length : place + (spelled (p :: ps)).length =
          place + p.bytes.length + (spelled ps).length := by
        rw [spelled, List.flatMap_cons, List.length_append, ← Nat.add_assoc]
        rfl
      constructor
      · intro h
        cases h with
        | piece first rest =>
            obtain ⟨out₁, out₂, rfl, before, behind⟩ := ih.mp rest
            refine ⟨_, out₂, (List.append_assoc _ _ _).symm, .piece first before, ?_⟩
            rw [length]
            exact behind
      · rintro ⟨_, out₂, rfl, before, behind⟩
        cases before with
        | piece first before =>
            rw [length] at behind
            rw [List.append_assoc]
            exact .piece first (ih.mpr ⟨_, out₂, rfl, before, behind⟩)

/-- With enough fuel the walk sends what its pieces send. -/
theorem SendsAll.walk {S : Type} (putchar : UInt8 → Prog S Unit) {ps : List Piece} {place : Nat}
    {argp : UInt32} {out : List UInt8} (h : SendsAll frame ps place argp out) {fuel : Nat}
    (enough : out.length < fuel) :
    printfLoop putchar (frame.withFuel fuel) (spelled ps) (.between place argp) =
      Prog.forEach putchar out >>= fun _ =>
        pure (.between (place + (spelled ps).length) (argpBehind argp ps)) := by
  induction h with
  | done => rfl
  | @piece p ps place argp s out first _ ih =>
      rw [List.length_append] at enough
      have split : spelled (p :: ps) = p.bytes ++ spelled ps := rfl
      rw [split, printfLoop_piece, first.body frame putchar (by omega), ih (by omega),
        List.length_append, Prog.forEach_append, bind_assoc, Nat.add_assoc]
      rfl

/-- A call of `printf` types its text on the terminal. -/
theorem printf_types {ps : List Piece} {out : List UInt8}
    (h : SendsAll frame ps 0 frame.args out) {fuel : Nat} (enough : out.length < fuel) :
    printf terminalPutchar (frame.withFuel fuel) (formatOf ps) = terminalWrite out := by
  have walk := h.walk terminalPutchar enough
  change printfLoop terminalPutchar (frame.withFuel fuel) (spelled ps) (.between 0 frame.args) >>=
    (fun _ => pure ()) = _
  rw [walk, bind_assoc]
  exact bind_pure _

theorem printfLoop_append {S : Type} (putchar : UInt8 → Prog S Unit) (frame : PrintfFrame)
    (fmt rest : List UInt8) (v : PrintfVars) : printfLoop putchar frame (fmt ++ rest) v =
      printfLoop putchar frame fmt v >>= fun v => printfLoop putchar frame rest v := by
  induction fmt generalizing v with
  | nil => rfl
  | cons c fmt ih =>
      rw [List.cons_append, printfLoop, printfLoop, bind_assoc]
      exact congrArg _ (funext fun v => ih v.next)

/-- A format whose only conversion is one `%s`. -/
theorem printf_string {S : Type} (putchar : UInt8 → Prog S Unit) (frame : PrintfFrame)
    {before after s : List UInt8} (plain : Plain before) (plain' : Plain after) {fmt : Text}
    (spells : fmt.chars = before ++ '%'.toUInt8 :: 's'.toUInt8 :: after) {fuel : Nat}
    (holds : HoldsString (frame.mem.view (frame.mem.load32 frame.args)) s)
    (enough : s.length < fuel) :
    printf putchar (frame.withFuel fuel) fmt = Prog.forEach putchar (before ++ (s ++ after)) := by
  have sends : Piece.string.Sends frame 0 frame.args s := holds
  have written : writestring putchar fuel (frame.mem.view (frame.mem.load32 frame.args)) =
      Prog.forEach putchar s := sends.body frame putchar enough
  have front : printfLoop putchar (frame.withFuel fuel) before (.between 0 frame.args) =
      Prog.forEach putchar before >>= fun _ => pure (.between (0 + before.length) frame.args) :=
    printfLoop_plain putchar _ plain rfl
  have middle : printfLoop putchar (frame.withFuel fuel) ('%'.toUInt8 :: 's'.toUInt8 :: after)
      (.between (0 + before.length) frame.args) = Prog.forEach putchar s >>= fun _ =>
        printfLoop putchar (frame.withFuel fuel) after
          (.between (0 + before.length + 2) (frame.args + 4)) := by
    rw [← written, printfLoop_conversion _ _ _ (by decide), printfSpec_string, bind_assoc]
    rfl
  have back : printfLoop putchar (frame.withFuel fuel) after
      (.between (0 + before.length + 2) (frame.args + 4)) = Prog.forEach putchar after >>= fun _ =>
        pure (.between (0 + before.length + 2 + after.length) (frame.args + 4)) :=
    printfLoop_plain putchar _ plain' rfl
  change printfLoop putchar (frame.withFuel fuel) fmt.chars (.between 0 frame.args) >>=
    (fun _ => pure ()) = _
  rw [spells, printfLoop_append, front, Prog.forEach_append, Prog.forEach_append]
  simp only [bind_assoc, pure_bind, middle, back]
  exact congrArg _ (funext fun _ => congrArg _ (funext fun _ => bind_pure _))

theorem SendsAll.run {ps : List Piece} {place : Nat} {argp : UInt32} {out : List UInt8}
    (h : SendsAll frame ps place argp out) {fuel : Nat} (enough : out.length < fuel)
    (sent : List UInt8) :
    (printfLoop record (frame.withFuel fuel) (spelled ps) (.between place argp)).run.run sent =
      (some (.between (place + (spelled ps).length) (argpBehind argp ps)), sent ++ out) := by
  rw [h.walk record enough, Prog.run_bind, Exec.run_bind, run_forEach_record]
  rfl

theorem walk_returns {ps : List Piece} {place : Nat} {argp : UInt32} {fuel : Nat}
    {v : PrintfVars} {sent t : List UInt8} (ran : (printfLoop record (frame.withFuel fuel)
      (spelled ps) (.between place argp)).run.run sent = (some v, t)) :
    v.argp = argpBehind argp ps ∧ ∃ out, SendsAll frame ps place argp out ∧ t = sent ++ out := by
  induction ps generalizing place argp sent with
  | nil =>
      cases ran
      exact ⟨rfl, [], .done, (List.append_nil _).symm⟩
  | cons p ps ih =>
      have split : spelled (p :: ps) = p.bytes ++ spelled ps := rfl
      rw [split, printfLoop_piece, Prog.run_bind] at ran
      obtain ⟨_, u, first, rest⟩ := Exec.bind_eq_some ran
      obtain ⟨s, sends, rfl⟩ := Piece.body_returns frame first
      obtain ⟨argp', out, later, rfl⟩ := ih rest
      exact ⟨argp', s ++ out, .piece sends later, List.append_assoc _ _ _⟩

end Record

section Arguments

variable {frame : PrintfFrame}

/-- The conversions at which the argument pointer moves. -/
def Piece.Moves (p : Piece) : Prop := p.Takes ∧ ¬p.IsNumber

instance : DecidablePred Piece.Moves := fun p =>
  inferInstanceAs (Decidable (p.Takes ∧ ¬p.IsNumber))

theorem argpBehind_eq (argp : UInt32) (ps : List Piece) :
    argpBehind argp ps = argp + UInt32.ofNat (4 * ps.countP (·.Moves)) := by
  induction ps generalizing argp with
  | nil => exact (UInt32.add_zero argp).symm
  | cons p ps ih =>
      change argpBehind (p.argpAfter argp) ps = _
      rw [ih, List.countP_cons]
      by_cases moves : p.Moves
      · have behind : p.argpAfter argp = argp + 4 := by
          cases p with
          | char => rfl
          | string => rfl
          | plain c ordinary => exact moves.1.elim
          | percent => exact moves.1.elim
          | number k => exact absurd trivial moves.2
        rw [behind, if_pos (decide_eq_true moves), Nat.mul_add, Nat.add_comm, UInt32.ofNat_add,
          ← UInt32.add_assoc]
        rfl
      · have behind : p.argpAfter argp = argp := by
          cases p with
          | char => exact absurd ⟨trivial, id⟩ moves
          | string => exact absurd ⟨trivial, id⟩ moves
          | plain c ordinary => rfl
          | percent => rfl
          | number k => rfl
        rw [behind, if_neg fun yes => moves (of_decide_eq_true yes), Nat.add_zero]

theorem countP_moves {ps : List Piece} (texts : ∀ p ∈ ps, ¬p.IsNumber) :
    ps.countP (·.Moves) = taken ps :=
  List.countP_congr fun p member => by
    simp only [decide_eq_true_eq]
    exact ⟨fun moves => moves.1, fun takes => ⟨takes, texts p member⟩⟩

/-- Without a numeric conversion the text is the prescribed one. -/
theorem Formats.sendsAll {ps : List Piece} {args : List UInt32} {out : List UInt8}
    (h : Formats frame.mem ps args out) (texts : ∀ p ∈ ps, ¬p.IsNumber) {argp : UInt32}
    (held : frame.mem.HoldsWords argp args) (place : Nat) : SendsAll frame ps place argp out := by
  induction h generalizing argp place with
  | done => exact .done
  | @plain ps args out c ordinary _ ih =>
      refine .piece (s := [c]) rfl ?_
      exact ih (fun p member => texts p (List.mem_cons_of_mem _ member)) held _
  | percent _ ih =>
      refine .piece (s := ['%'.toUInt8]) rfl ?_
      exact ih (fun p member => texts p (List.mem_cons_of_mem _ member)) held _
  | char w _ ih =>
      refine .piece (s := [w.toUInt8]) (congrArg (fun w => [UInt32.toUInt8 w]) held.1.symm) ?_
      exact ih (fun p member => texts p (List.mem_cons_of_mem _ member)) held.2 _
  | string holds _ ih =>
      refine .piece (show HoldsString _ _ from held.1.symm ▸ holds) ?_
      exact ih (fun p member => texts p (List.mem_cons_of_mem _ member)) held.2 _
  | number k w _ _ => exact absurd trivial (texts _ List.mem_cons_self)

/-- When a numeric conversion sends the text of its argument: by the address in the
argument pointer, which is what it prints. -/
theorem number_sends {k : Number} {place : Nat} {argp : UInt32} {w : UInt32} :
    (Piece.number k).Sends frame place argp (k.text w) ↔
      (0 < argp.toNat ∧ argp.toNat < 2 ^ 31 ∧ k.text w = decimal argp.toNat) ∨
      (argp = 0 ∧ k.text w = ['0'.toUInt8] ∧ frame.buffer (place + 1) 1 = 0) := by
  change HoldsString (intToStr (wrapInt argp.toNat) (frame.buffer (place + 1))) (k.text w) ↔ _
  have bound := argp.toNat_lt
  by_cases zero : argp = 0
  · subst zero
    have untouched : (frame.buffer (place + 1)).set 0 48 1 = frame.buffer (place + 1) 1 := by
      rw [Ptr.set_apply, if_neg Nat.one_ne_zero]
    have value : wrapInt (UInt32.toNat 0) = 0 := wrapInt_small (by decide) (by decide)
    rw [value, intToStr_zero]
    constructor
    · intro sends
      rcases text : k.text w with _ | ⟨c, cs⟩
      · exact absurd text (k.text_ne_nil w)
      · rw [text] at sends
        obtain ⟨first, _, rest⟩ := sends
        rw [Ptr.set_apply, if_pos rfl] at first
        rw [← first] at text
        have single := Number.text_leading text
        rw [single] at rest
        refine Or.inr ⟨rfl, ?_, untouched.symm.trans rest⟩
        rw [← first, single]
        rfl
    · rintro (⟨positive, _⟩ | ⟨_, text, terminator⟩)
      · exact absurd positive (Nat.lt_irrefl 0)
      · rw [text]
        exact ⟨by rw [Ptr.set_apply]; rfl, by decide, untouched.trans terminator⟩
  · have nonzero : argp.toNat ≠ 0 := fun same => zero (UInt32.toNat_inj.mp same)
    by_cases high : argp.toNat < 2 ^ 31
    · have value : wrapInt argp.toNat = argp.toNat := wrapInt_small (by omega) (by omega)
      have positive : 0 < (argp.toNat : Int) := by omega
      have writes := intToStr_positive positive (frame.buffer (place + 1))
      rw [value]
      constructor
      · exact fun sends => Or.inl ⟨by omega, high, sends.unique writes⟩
      · rintro (⟨_, _, same⟩ | ⟨same, _⟩)
        · rw [same]
          exact writes
        · exact absurd same zero
    · have value : wrapInt argp.toNat < 0 := by
        rw [wrapInt_large (by omega) (by omega)]
        omega
      constructor
      · exact fun sends => absurd (sends.unique (intToStr_negative value _)) (k.text_ne_nil w)
      · rintro (⟨_, low, _⟩ | ⟨same, _⟩)
        · exact absurd low high
        · exact absurd same zero

/-- What is called for: the text of the arguments is sent, and every conversion behind a
numeric one finds the argument pointer at its own argument. -/
structure PrintsInStep (frame : PrintfFrame) (pieces : List Piece) (out : List UInt8) : Prop where
  output : Settles (fun n => (printf record (frame.withFuel n) (formatOf pieces)).run) [] () out
  inStep : ∀ before conv after fuel v sent, pieces = before ++ conv :: after →
    (∃ p ∈ before, p.IsNumber) → conv.Takes →
    (printfLoop record (frame.withFuel fuel) (spelled before) frame.start).run.run [] =
      (some v, sent) → v.argp = frame.args + UInt32.ofNat (4 * taken before)

/-- One numeric conversion, nothing behind it that takes an argument, and an argument
whose text is what the address of its own slot prints as. -/
def PrintsOwnAddress (frame : PrintfFrame) (pieces : List Piece) (args : List UInt32) : Prop :=
  ∃ before k after first w, pieces = before ++ .number k :: after ∧ args = first ++ [w] ∧
    (∀ p ∈ before, ¬p.IsNumber) ∧ (∀ p ∈ after, ¬p.Takes) ∧
    let slot := frame.args + UInt32.ofNat (4 * first.length)
    (0 < slot.toNat ∧ slot.toNat < 2 ^ 31 ∧ k.text w = decimal slot.toNat) ∨
      (slot = 0 ∧ k.text w = ['0'.toUInt8] ∧ frame.buffer ((spelled before).length + 1) 1 = 0)

theorem exists_first {P : Piece → Prop} [DecidablePred P] {pieces : List Piece}
    (some : ∃ p ∈ pieces, P p) : ∃ before p after, pieces = before ++ p :: after ∧ P p ∧
      ∀ q ∈ before, ¬P q := by
  obtain ⟨p, member, holds⟩ := some
  have found : (pieces.find? fun q => decide (P q)).isSome = true :=
    List.find?_isSome.mpr ⟨p, member, decide_eq_true holds⟩
  obtain ⟨q, first⟩ := Option.isSome_iff_exists.mp found
  obtain ⟨kind, before, after, split, others⟩ := List.find?_eq_some_iff_append.mp first
  refine ⟨before, q, after, split, of_decide_eq_true kind, fun r member holds => ?_⟩
  have not := others r member
  rw [decide_eq_true holds] at not
  cases not

theorem mem_behind_first {P : Piece → Prop} {before after before' after' : List Piece}
    {p q : Piece} (split : before ++ p :: after = before' ++ q :: after')
    (none : ∀ r ∈ before, ¬P r) (earlier : ∃ r ∈ before', P r) : q ∈ after := by
  obtain ⟨r, member, holds⟩ := earlier
  rcases List.append_eq_append_iff.mp split with ⟨l, rfl, rest⟩ | ⟨l, rfl, _⟩
  · cases l with
    | nil =>
        rw [List.append_nil] at member
        exact absurd holds (none r member)
    | cons x l =>
        rw [(List.cons.inj rest).2]
        exact List.mem_append_right l List.mem_cons_self
  · exact absurd holds (none r (List.mem_append_left l member))

theorem first_unique {P : Piece → Prop} {before after before' after' : List Piece} {p q : Piece}
    (split : before ++ p :: after = before' ++ q :: after') (kind : P p) (kind' : P q)
    (none : ∀ r ∈ before, ¬P r) (none' : ∀ r ∈ before', ¬P r) :
    before = before' ∧ p = q ∧ after = after' := by
  rcases List.append_eq_append_iff.mp split with ⟨l, rfl, rest⟩ | ⟨l, rfl, rest⟩
  · cases l with
    | nil =>
        obtain ⟨rfl, rfl⟩ := List.cons.inj rest
        exact ⟨(List.append_nil _).symm, rfl, rfl⟩
    | cons x l =>
        rw [← (List.cons.inj rest).1] at none'
        exact absurd kind (none' p (List.mem_append_right before List.mem_cons_self))
  · cases l with
    | nil =>
        obtain ⟨rfl, rfl⟩ := List.cons.inj rest
        exact ⟨List.append_nil _, rfl, rfl⟩
    | cons x l =>
        rw [← (List.cons.inj rest).1] at none
        exact absurd kind' (none q (List.mem_append_right before' List.mem_cons_self))

theorem printf_settles_iff {pieces : List Piece} {out : List UInt8} :
    Settles (fun n => (printf record (frame.withFuel n) (formatOf pieces)).run) [] () out ↔
      SendsAll frame pieces 0 frame.args out := by
  constructor
  · rintro ⟨n, settled⟩
    have ran := settled n (Nat.le_refl n)
    dsimp only at ran
    rw [printf, Prog.run_bind] at ran
    obtain ⟨v, t, walked, done⟩ := Exec.bind_eq_some ran
    cases done
    obtain ⟨_, sent, sends, rfl⟩ := walk_returns walked
    exact sends
  · intro sends
    refine ⟨out.length + 1, fun n enough => ?_⟩
    dsimp only
    have walked := sends.run enough []
    rw [printf, Prog.run_bind, Exec.run_bind]
    change Exec.andThen ((printfLoop record (frame.withFuel n) (spelled pieces)
      (.between 0 frame.args)).run.run []) _ = _
    rw [walked]
    rfl

theorem Piece.IsNumber.takes {p : Piece} (h : p.IsNumber) : p.Takes := by
  cases p with
  | number k => trivial
  | plain c ordinary => exact h.elim
  | percent => exact h.elim
  | char => exact h.elim
  | string => exact h.elim

theorem taken_eq_zero {ps : List Piece} (none : ∀ p ∈ ps, ¬p.Takes) : taken ps = 0 :=
  List.countP_eq_zero.mpr fun p member takes => none p member (of_decide_eq_true takes)

/-- Behind a numeric conversion the pointer is one argument short, so nothing that takes an
argument stands there. -/
theorem PrintsInStep.none_behind {before after : List Piece} {k : Number} {out : List UInt8}
    (h : PrintsInStep frame (before ++ .number k :: after) out)
    (texts : ∀ p ∈ before, ¬p.IsNumber) : ∀ p ∈ after, ¬p.Takes := by
  intro q member takes
  obtain ⟨middle, conv, tail, rfl, takes, none⟩ := exists_first ⟨q, member, takes⟩
  have whole : before ++ .number k :: (middle ++ conv :: tail) =
      (before ++ .number k :: middle) ++ conv :: tail := by
    rw [List.append_assoc, List.cons_append]
  have sends := printf_settles_iff.mp h.output
  rw [whole] at sends
  obtain ⟨sent, _, _, walk, _⟩ := sendsAll_append.mp sends
  have place := h.inStep _ conv tail (sent.length + 1) _ _ whole
    ⟨.number k, List.mem_append_right _ List.mem_cons_self, trivial⟩ takes
    (walk.run (Nat.lt_succ_self _) [])
  have moved : (before ++ .number k :: middle).countP (·.Moves) = taken before := by
    have still : middle.countP (·.Moves) = 0 := List.countP_eq_zero.mpr fun r member moves =>
      none r member (of_decide_eq_true moves).1
    have number : (Piece.number k :: middle).countP (·.Moves) = middle.countP (·.Moves) :=
      List.countP_cons_of_neg fun moves => (of_decide_eq_true moves).2 trivial
    rw [List.countP_append, countP_moves texts, number, still]
    rfl
  have counted : taken (before ++ .number k :: middle) = taken before + 1 := by
    have number : taken (.number k :: middle) = taken middle + 1 := List.countP_cons_of_pos rfl
    rw [taken_eq_zero none] at number
    rw [taken, List.countP_append]
    exact congrArg (taken before + ·) number
  have behind : argpBehind frame.args (before ++ .number k :: middle) =
      frame.args + UInt32.ofNat (4 * taken before) := by
    rw [argpBehind_eq, moved]
  rw [counted, Nat.mul_add, UInt32.ofNat_add] at place
  have short := (UInt32.add_right_inj _).mp (behind.symm.trans place)
  have zero : (0 : UInt32) = 4 :=
    (UInt32.add_right_inj (UInt32.ofNat (4 * taken before))).mp ((UInt32.add_zero _).trans short)
  exact absurd zero (by decide)

/-- The text is right and the argument pointer in step if and only if the numeric
conversion happens to print its own address. -/
theorem prints_in_step_iff {pieces : List Piece} {args : List UInt32} {out : List UInt8}
    (held : frame.mem.HoldsWords frame.args args) (matching : Formats frame.mem pieces args out)
    (numeric : ∃ p ∈ pieces, p.IsNumber) :
    PrintsInStep frame pieces out ↔ PrintsOwnAddress frame pieces args := by
  obtain ⟨before, p, after, rfl, isNumber, texts⟩ := exists_first numeric
  obtain ⟨k, rfl⟩ : ∃ k, p = .number k := by
    cases p with
    | number k => exact ⟨k, rfl⟩
    | plain c ordinary => exact isNumber.elim
    | percent => exact isNumber.elim
    | char => exact isNumber.elim
    | string => exact isNumber.elim
  obtain ⟨args₁, args₂, out₁, out₂, rfl, rfl, first, second⟩ := matching.append_inv
  cases second with
  | @number _ args₃ out₃ _ w rest =>
      have sendsFirst := first.sendsAll texts held.append_inv.1 0
      have slot : argpBehind frame.args before =
          frame.args + UInt32.ofNat (4 * args₁.length) := by
        rw [argpBehind_eq, countP_moves texts, first.length]
      -- nothing behind the number takes an argument, on either side
      have alone : (∀ p ∈ after, ¬p.Takes) → args₃ = [] ∧ ∀ place argp,
          SendsAll frame after place argp out₃ := by
        intro none
        have empty : args₃ = [] := List.length_eq_zero_iff.mp (rest.length.trans (taken_eq_zero none))
        subst empty
        exact ⟨rfl, fun place argp => rest.sendsAll
          (fun p member number => none p member number.takes) trivial place⟩
      constructor
      · intro h
        have none := h.none_behind texts
        obtain ⟨rfl, later⟩ := alone none
        refine ⟨before, k, after, args₁, w, rfl, rfl, texts, none, ?_⟩
        obtain ⟨sent, _, output, walk, rest'⟩ := sendsAll_append.mp (printf_settles_iff.mp h.output)
        cases rest' with
        | piece number tail =>
            rw [walk.unique sendsFirst, tail.unique (later _ _)] at output
            have text := List.append_cancel_right (List.append_cancel_left output)
            rw [← text, slot] at number
            rw [← Nat.zero_add (spelled before).length]
            exact number_sends.mp number
      · rintro ⟨before', k', after', first', w', split, args, texts', none, prints⟩
        obtain ⟨rfl, same, rfl⟩ := first_unique (P := Piece.IsNumber) split trivial trivial texts texts'
        cases same
        obtain ⟨rfl, later⟩ := alone none
        obtain ⟨rfl, same⟩ := List.append_inj' args rfl
        cases same
        refine ⟨printf_settles_iff.mpr (sendsAll_append.mpr ⟨out₁, _, rfl, sendsFirst, ?_⟩), ?_⟩
        · rw [slot]
          refine .piece (number_sends.mpr ?_) (later _ _)
          rw [Nat.zero_add]
          exact prints
        · intro before' conv after' _ _ _ split earlier takes _
          exact absurd takes (none conv (mem_behind_first (P := Piece.IsNumber) split texts earlier))

end Arguments

section Calls

/-- A call whose arguments lie from `0x1000` on. -/
def callWith (args : List UInt32) : PrintfFrame where
  mem := Mem.write (fun _ => 0) 0x1000 (args.flatMap bytes32)
  args := 0x1000
  buffer _ _ := 0
  fuel := 0

/-- `printf("%d", 5)` does not print 5. -/
theorem number_prints_address : (callWith [5]).mem.HoldsWords (callWith [5]).args [5] ∧
    Formats (callWith [5]).mem [.number .d] [5] ['5'.toUInt8] ∧
    ¬PrintsInStep (callWith [5]) [.number .d] ['5'.toUInt8] := by
  have text : Number.text 5 .d ++ [] = ['5'.toUInt8] := by decide
  refine ⟨⟨by decide, trivial⟩, text ▸ .number .d 5 .done, fun h => ?_⟩
  have sends := printf_settles_iff.mp h.output
  generalize whole : ['5'.toUInt8] = out at sends
  cases sends with
  | piece number rest =>
      cases rest
      have value : wrapInt (UInt32.toNat 0x1000) = 0x1000 := wrapInt_small (by decide) (by decide)
      have writes := intToStr_positive (by decide : (0 : Int) < 0x1000) fun _ => 0
      rw [List.append_nil] at whole
      change HoldsString (intToStr (wrapInt (UInt32.toNat 0x1000)) fun _ => 0) _ at number
      rw [value] at number
      have printed := HoldsString.unique number writes
      rw [← whole] at printed
      exact absurd printed (by decide)

theorem prints_in_step_iff_slot :
    PrintsInStep (callWith [0x41, 0x1004]) [.char, .number .u] ("A4100".toList.map Char.toUInt8) := by
  have held : (callWith [0x41, 0x1004]).mem.HoldsWords (callWith [0x41, 0x1004]).args
      [0x41, 0x1004] := ⟨by decide, by decide, trivial⟩
  have matching : Formats (callWith [0x41, 0x1004]).mem [.char, .number .u] [0x41, 0x1004]
      ("A4100".toList.map Char.toUInt8) := .char 0x41 (.number .u 0x1004 .done)
  refine (prints_in_step_iff held matching
    ⟨.number .u, List.mem_cons_of_mem _ List.mem_cons_self, trivial⟩).mpr ?_
  refine ⟨[.char], .u, [], [0x41], 0x1004, rfl, rfl, fun p member number => ?_,
    List.forall_mem_nil _, Or.inl ⟨by decide, by decide, by decide⟩⟩
  rw [List.mem_singleton.mp member] at number
  exact number

end Calls

end VDK
