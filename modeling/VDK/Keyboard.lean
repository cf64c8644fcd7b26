import VDK.Kernel

/-!
# The keyboard driver (`libkern/keyboard.c`)

`Keyboard.receive` is what `keyboard_handler` does with a scan code. The counter of
`get_scancode` is a signed 32-bit `int` that wraps, as the kernel is built without
optimisation.
-/
namespace VDK
open Atomic Fuel Kernel

abbrev keyboardDataPort : UInt16 := 0x60
abbrev keyboardStatusPort : UInt16 := 0x64

abbrev scanCodeKeyTab : UInt8 := 0x0F
abbrev scanCodeKeyEnter : UInt8 := 0x1C
abbrev scanCodeKeyLeftShift : UInt8 := 0x2A
abbrev scanCodeKeyRightShift : UInt8 := 0x36
abbrev scanCodeKeyCapsLock : UInt8 := 0x3A

/-- `g_scan_code_chars`; the entries that are not listed are zero. -/
def scanCodeTable : List Char :=
  ['\x00', '\x1b', '1', '2', '3', '4', '5', '6', '7', '8', '9', '0', '-', '=', '\x08',
    '\x09', 'q', 'w', 'e', 'r', 't', 'y', 'u', 'i', 'o', 'p', '[', ']', '\x0a',
    '\x00', 'a', 's', 'd', 'f', 'g', 'h', 'j', 'k', 'l', ';', '\x27', '\x60', '\x00',
    '\x5c', 'z', 'x', 'c', 'v', 'b', 'n', 'm', ',', '.', '/', '\x00', '*', '\x00', ' ',
    '\x00', '\x00', '\x00', '\x00', '\x00', '\x00', '\x00', '\x00', '\x00', '\x00', '\x00',
    '\x00', '\x00', '\x00', '\x00', '\x00', '-', '\x00', '\x00', '\x00', '+', '\x00', '\x00',
    '\x00', '\x00', '\x00', '\x00', '\x00', '\x00', '\x00', '\x00', '\x00']

def scanCodeChars (scancode : UInt8) : UInt8 :=
  (scanCodeTable.map Char.toUInt8).getD scancode.toNat 0

def isalpha (c : UInt8) : Bool := (0x41 ≤ c && c ≤ 0x5A) || (0x61 ≤ c && c ≤ 0x7A)

def upper (c : UInt8) : UInt8 := if 0x61 ≤ c ∧ c ≤ 0x7A then c - 32 else c

/-- The cases of `alternate_chars`. -/
def alternates : List (Char × Char) :=
  [('\x60', '~'), ('1', '!'), ('2', '@'), ('3', '#'), ('4', '$'), ('5', '%'), ('6', '^'),
    ('7', '&'), ('8', '*'), ('9', '('), ('0', ')'), ('-', '_'), ('=', '+'), ('[', '\x7b'),
    (']', '\x7d'), ('\x5c', '|'), (';', ':'), ('\x27', '\x22'), (',', '<'), ('.', '>'),
    ('/', '?')]

def alternateChars (ch : UInt8) : UInt8 :=
  (((alternates.map fun a => (a.1.toUInt8, a.2.toUInt8)).lookup ch).getD ch)

namespace Keyboard

/-- The `default` case of the switch. -/
def keyDown (scancode : UInt8) (k : Keyboard) : Keyboard :=
  let ch := scanCodeChars scancode
  if k.capsLock then
    if k.shiftPressed then { k with ch := alternateChars ch } else { k with ch := upper ch }
  else
    let ch :=
      if k.shiftPressed then (if isalpha ch then upper ch else alternateChars ch)
      else scanCodeChars scancode
    { k with ch := ch, shiftPressed := false }

/-- `keyboard_handler` after `get_scancode` has returned. -/
def receive (scancode : UInt8) (k : Keyboard) : Keyboard :=
  let k := { k with scanCode := scancode }
  if scancode &&& 0x80 ≠ 0 then k
  else if scancode = scanCodeKeyCapsLock then { k with capsLock := !k.capsLock }
  else if scancode = scanCodeKeyEnter then { k with ch := 10 }
  else if scancode = scanCodeKeyTab then { k with ch := 9 }
  else if scancode = scanCodeKeyLeftShift then { k with shiftPressed := true }
  else keyDown scancode k

def setCh (c : UInt8) (k : Keyboard) : Keyboard := { k with ch := c }

def setScanCode (c : UInt8) (k : Keyboard) : Keyboard := { k with scanCode := c }

end Keyboard

section Driver

variable {σ : Type} (hw : Bus σ)

/-- The polls of `get_scancode`; `n` are left before the counter wraps. -/
def pollScancode : Nat → Prog (Kernel σ) UInt8
  | 0 => pure 0
  | n + 1 => do
      let status ← inb hw keyboardStatusPort
      if status &&& 1 = 0 then pollScancode n else inb hw keyboardDataPort

/-- `get_scancode`: the counter starts at 1000 and counts up while it is positive. -/
def getScancode : Prog (Kernel σ) UInt8 := pollScancode hw (2 ^ 31 - 1000)

def keyboardHandler : Prog (Kernel σ) Unit := do
  Prog.modify (onKeyboard (Keyboard.setCh 0))
  let scancode ← getScancode hw
  Prog.modify (onKeyboard (Keyboard.receive scancode))

/-- `g_ch > 0`, a comparison of a signed `char`. -/
def positive (c : UInt8) : Bool := 0 < c && c < 0x80

def kbGetchar : Nat → Prog (Kernel σ) UInt8
  | 0 => .stop
  | fuel + 1 => do
      let s ← Prog.get
      if positive s.keyboard.ch then do
        let s ← Prog.get
        let c := s.keyboard.ch
        Prog.modify (onKeyboard (Keyboard.setCh 0))
        Prog.modify (onKeyboard (Keyboard.setScanCode 0))
        pure c
      else kbGetchar fuel

end Driver

end VDK
