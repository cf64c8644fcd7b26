import VDK.Terminal
import VDK.ByteMemory

/-!
# `printf` (`libsa/stdio.c`)

The characters go to any `putchar`, so that a call can be run on the terminal or on
a record of what was sent. The format is a C string without its terminator. An
uninitialised local buffer holds whatever the stack held, one object for each
place of the format.
-/
namespace VDK
open Atomic Fuel ByteMem

/-- The `int` of 32 bits that agrees with `n` modulo `2 ^ 32`. -/
def wrapInt (n : Int) : Int := n.bmod (2 ^ 32)

theorem wrapInt_small {n : Int} (low : -2 ^ 31 ≤ n) (high : n < 2 ^ 31) : wrapInt n = n :=
  Int.bmod_eq_of_le low high

theorem wrapInt_large {n : Int} (low : 2 ^ 31 ≤ n) (high : n < 2 ^ 32) :
    wrapInt n = n - 2 ^ 32 := by
  have residue : n % (2 ^ 32 : Nat) = n := Int.emod_eq_of_lt (by omega) high
  rw [wrapInt, Int.bmod_def, residue, if_neg (by omega)]
  rfl

/-- `strlen`; `none` while no NUL was met. -/
def strlen : Nat → Ptr → Option Nat
  | 0, _ => none
  | fuel + 1, str => if str 0 = 0 then some 0 else (strlen fuel (str.advance 1)).map (· + 1)

section Numbers

/-- The first loop of `intToStr`, with the value of `i` after it. -/
def putDigits (num : Nat) (str : Ptr) (i : Nat) : Ptr × Nat :=
  if num > 0 then putDigits (num / 10) (str.set i (UInt8.ofNat (num % 10 + 48))) (i + 1)
  else (str, i)
termination_by num

def swapEnds (i : Nat) (str : Ptr) (j : Nat) : Ptr :=
  (str.set j (str (i - j - 1))).set (i - j - 1) (str j)

/-- `intToStr`: zero is the only number whose text is left without a terminator. -/
def intToStr (num : Int) (str : Ptr) : Ptr :=
  if num = 0 then str.set 0 48
  else
    let digits := putDigits num.toNat str 0
    (List.range (digits.2 / 2)).foldl (swapEnds digits.2) (digits.1.set digits.2 0)

end Numbers

inductive PrintfState where
  | normal
  | length
  | lengthShort
  | lengthLong
  | spec
  deriving DecidableEq, Repr

inductive PrintfLength where
  | default
  | shortShort
  | short
  | long
  | longLong
  deriving DecidableEq, Repr

/-- What a call finds: memory, the address behind `fmt`, the bytes in the buffer of
`printf_number` by the place in the format, and the fuel of `strlen`. -/
structure PrintfFrame where
  mem : Mem
  args : UInt32
  buffer : Nat → Ptr
  fuel : Nat

/-- The local variables; `fmt` counts the increments. -/
structure PrintfVars where
  fmt : Nat
  argp : UInt32
  state : PrintfState
  length : PrintfLength
  radix : Nat
  sign : Bool

namespace PrintfVars

/-- The end of the conversion, with the argument pointer it leaves. -/
def finish (v : PrintfVars) (argp : UInt32) : PrintfVars :=
  { v with argp := argp, state := .normal, length := .default, radix := 10, sign := false }

def next (v : PrintfVars) : PrintfVars := { v with fmt := v.fmt + 1 }

end PrintfVars

section Printf

variable {S : Type} (putchar : UInt8 → Prog S Unit) (frame : PrintfFrame)

def writestring (fuel : Nat) (data : Ptr) : Prog S Unit :=
  match strlen fuel data with
  | none => .stop
  | some size => Prog.forEach putchar ((List.range size).map data)

/-- `printf_number`: prints the pointer, and returns it as it is. -/
def printfNumber (place : Nat) (argp : UInt32) (_length : PrintfLength) (_sign : Bool)
    (_radix : Nat) : Prog S UInt32 := do
  writestring putchar frame.fuel (intToStr (wrapInt argp.toNat) (frame.buffer place))
  pure argp

/-- The switch at `PRINTF_STATE_SPEC_`, with the resets behind it. -/
def printfSpec (c : UInt8) (v : PrintfVars) : Prog S PrintfVars :=
  if c = 'c'.toUInt8 then do
    putchar (frame.mem.load32 v.argp).toUInt8
    pure (v.finish (v.argp + 4))
  else if c = 's'.toUInt8 then do
    writestring putchar frame.fuel (frame.mem.view (frame.mem.load32 v.argp))
    pure (v.finish (v.argp + 4))
  else if c = '%'.toUInt8 then do
    putchar '%'.toUInt8
    pure (v.finish v.argp)
  else if c = 'd'.toUInt8 ∨ c = 'i'.toUInt8 then do
    let argp ← printfNumber putchar frame v.fmt v.argp v.length true 10
    pure (v.finish argp)
  else if c = 'u'.toUInt8 then do
    let argp ← printfNumber putchar frame v.fmt v.argp v.length false 10
    pure (v.finish argp)
  else if c = 'X'.toUInt8 ∨ c = 'x'.toUInt8 ∨ c = 'p'.toUInt8 then do
    let argp ← printfNumber putchar frame v.fmt v.argp v.length false 16
    pure (v.finish argp)
  else if c = 'o'.toUInt8 then do
    let argp ← printfNumber putchar frame v.fmt v.argp v.length false 8
    pure (v.finish argp)
  else pure (v.finish v.argp)

/-- The switch on the state. Its two length cases are named by the length constants,
which have the values of the states. -/
def printfStep (c : UInt8) (v : PrintfVars) : Prog S PrintfVars :=
  match v.state with
  | .normal =>
      if c = '%'.toUInt8 then pure { v with state := .length }
      else do
        putchar c
        pure v
  | .length =>
      if c = 'h'.toUInt8 then pure { v with length := .short, state := .lengthShort }
      else if c = 'l'.toUInt8 then pure { v with length := .long, state := .lengthLong }
      else printfSpec putchar frame c v
  | .lengthShort =>
      if c = 'h'.toUInt8 then pure { v with length := .shortShort, state := .spec }
      else printfSpec putchar frame c v
  | .lengthLong =>
      if c = 'l'.toUInt8 then pure { v with length := .longLong, state := .spec }
      else printfSpec putchar frame c v
  | .spec => printfSpec putchar frame c v

def printfLoop : List UInt8 → PrintfVars → Prog S PrintfVars
  | [], v => pure v
  | c :: fmt, v => do
      let v ← printfStep putchar frame c v
      printfLoop fmt v.next

def PrintfFrame.start : PrintfVars := ⟨0, frame.args, .normal, .default, 10, false⟩

def printf (fmt : Text) : Prog S Unit := do
  let _ ← printfLoop putchar frame fmt.chars frame.start
  pure ()

end Printf

section Literals

def Plain (fmt : List UInt8) : Prop := ∀ c ∈ fmt, c ≠ '%'.toUInt8

instance (fmt : List UInt8) : Decidable (Plain fmt) :=
  List.decidableBAll (· ≠ '%'.toUInt8) fmt

variable {S : Type} (putchar : UInt8 → Prog S Unit)

theorem printfLoop_plain (frame : PrintfFrame) {fmt : List UInt8} (plain : Plain fmt)
    {v : PrintfVars} (normal : v.state = .normal) :
    printfLoop putchar frame fmt v =
      Prog.forEach putchar fmt >>= fun _ => pure { v with fmt := v.fmt + fmt.length } := by
  induction fmt generalizing v with
  | nil => rfl
  | cons c fmt ih =>
      have step : printfStep putchar frame c v = putchar c >>= fun _ => pure v := by
        unfold printfStep
        rw [normal]
        exact if_neg (plain c List.mem_cons_self)
      have rest := @ih (fun d member => plain d (List.mem_cons_of_mem c member)) v.next normal
      have count : v.next.fmt + fmt.length = v.fmt + (c :: fmt).length := by
        rw [List.length_cons, Nat.add_comm fmt.length 1, ← Nat.add_assoc]
        rfl
      rw [count] at rest
      rw [printfLoop, step, bind_assoc]
      simp only [pure_bind, rest]
      exact (bind_assoc (putchar c) (fun _ => Prog.forEach putchar fmt) _).symm

/-- A format without a conversion is sent as it stands. -/
theorem printf_plain (frame : PrintfFrame) {fmt : Text} (plain : Plain fmt.chars) :
    printf putchar frame fmt = Prog.forEach putchar fmt.chars := by
  rw [printf, printfLoop_plain putchar frame plain rfl, bind_assoc]
  exact bind_pure _

/-- A frame for the formats that never look at it. -/
def PrintfFrame.unread : PrintfFrame := ⟨fun _ => 0, 0, fun _ _ => 0, 0⟩

/-- A call of `printf` with such a format. -/
def printLiteral (fmt : Text) : Prog Terminal Unit := printf terminalPutchar .unread fmt

end Literals

end VDK
