import VDK.AtomicSteps
import Mathlib.Algebra.Group.Int.Defs
import Mathlib.Algebra.Group.Nat.Defs

/-!
# The text terminal (`libsa/stdio.c`)

One atomic step is one C statement on the terminal's globals or one cell store.
`terminal_buffer` is an address, and `video` is the memory behind such addresses
in 16-bit cells, so a store through a pointer that was never set is a store too;
every store is also recorded with the pointer and the index it used. `size_t` is
64 bits wide in this kernel and is modelled without a bound.
-/
namespace VDK
open Atomic Fuel

structure CellWrite where
  base : UInt32
  index : Nat
  value : UInt16
  deriving DecidableEq, Repr

/-- The globals of `stdio.c`, the memory behind `terminal_buffer`, and the cell
writes so far, oldest first. -/
structure Terminal where
  row : Nat
  column : Nat
  color : UInt8
  buffer : UInt32
  video : UInt32 → UInt16
  writes : List CellWrite

abbrev vgaWidth : Nat := 80
abbrev vgaHeight : Nat := 25

abbrev vgaColorBlack : UInt8 := 0
abbrev vgaColorBlue : UInt8 := 1
abbrev vgaColorLightGrey : UInt8 := 7
abbrev vgaColorWhite : UInt8 := 15

/-- `(uint16_t*) 0xB8000`. -/
abbrev vgaAddress : UInt32 := 0xB8000

abbrev newline : UInt8 := 10
abbrev blank : UInt8 := 32

def vgaEntryColor (fg bg : UInt8) : UInt8 := fg ||| bg <<< 4

def vgaEntry (uc color : UInt8) : UInt16 := uc.toUInt16 ||| color.toUInt16 <<< 8

namespace Terminal

/-- Where `terminal_buffer[index]` lies. -/
def address (t : Terminal) (index : Nat) : UInt32 := t.buffer + UInt32.ofNat (2 * index)

/-- `terminal_buffer[index]`. -/
def cell (t : Terminal) (index : Nat) : UInt16 := t.video (t.address index)

/-- `terminal_buffer[index] = value`. -/
def store (index : Nat) (value : UInt16) (t : Terminal) : Terminal :=
  { t with
    video := Function.update t.video (t.address index) value
    writes := t.writes ++ [⟨t.buffer, index, value⟩] }

def setRow (n : Nat) (t : Terminal) : Terminal := { t with row := n }

def setColumn (n : Nat) (t : Terminal) : Terminal := { t with column := n }

/-- `++terminal_column`, with its value. -/
def nextColumn (t : Terminal) : Nat × Terminal := (t.column + 1, t.setColumn (t.column + 1))

/-- `++terminal_row`, with its value. -/
def nextRow (t : Terminal) : Nat × Terminal := (t.row + 1, t.setRow (t.row + 1))

end Terminal

open Terminal

/-- `terminal_initialize` and `bsod_initialize` differ in the colours only. -/
def screenInitialize (fg bg : UInt8) : Prog Terminal Unit := do
  Prog.modify (setRow 0)
  Prog.modify (setColumn 0)
  Prog.modify fun t => { t with color := vgaEntryColor fg bg }
  Prog.modify fun t => { t with buffer := vgaAddress }
  Prog.forEach (fun y => Prog.forEach (fun x =>
    Prog.modify fun t => store (y * vgaWidth + x) (vgaEntry blank t.color) t)
      (List.range vgaWidth)) (List.range vgaHeight)

def terminalInitialize : Prog Terminal Unit := screenInitialize vgaColorLightGrey vgaColorBlack

def bsodInitialize : Prog Terminal Unit := screenInitialize vgaColorWhite vgaColorBlue

def terminalSetcolor (color : UInt8) : Prog Terminal Unit :=
  Prog.modify fun t => { t with color := color }

def terminalPutentryat (c color : UInt8) (x y : Nat) : Prog Terminal Unit :=
  Prog.modify (store (y * vgaWidth + x) (vgaEntry c color))

/-- Move all rows up by one and clear the last line, in place and in ascending order. -/
def terminalScroll : Prog Terminal Unit := do
  Prog.forEach (fun y => Prog.forEach (fun x =>
    Prog.modify fun t => store (y * vgaWidth + x) (t.cell ((y + 1) * vgaWidth + x)) t)
      (List.range vgaWidth)) (List.range (vgaHeight - 1))
  Prog.forEach (fun x =>
    Prog.modify fun t => store ((vgaHeight - 1) * vgaWidth + x) (vgaEntry blank t.color) t)
      (List.range vgaWidth)

/-- The common end of both branches of `terminal_putchar`: keep at the bottom row. -/
def keepAtBottom (row : Nat) : Prog Terminal Unit :=
  if row ≥ vgaHeight then do
    Prog.modify (setRow (vgaHeight - 1))
    terminalScroll
  else pure ()

def terminalPutchar (c : UInt8) : Prog Terminal Unit :=
  if c = newline then do
    let _ ← Prog.act nextRow
    Prog.modify (setColumn 0)
    let t ← Prog.get
    keepAtBottom t.row
  else do
    let t ← Prog.get
    terminalPutentryat c t.color t.column t.row
    let column ← Prog.act nextColumn
    if column = vgaWidth then do
      Prog.modify (setColumn 0)
      let row ← Prog.act nextRow
      keepAtBottom row
    else pure ()

/-- `terminal_write` of the given bytes. -/
def terminalWrite (data : List UInt8) : Prog Terminal Unit := Prog.forEach terminalPutchar data

end VDK
