import VDK.TableSlots

/-!
# The interrupt descriptor table of a 32-bit processor

A gate is eight bytes: the offset of the handler in two halves, a code segment selector,
an unused byte and the type byte, which holds the present bit, the privilege level that
may raise the interrupt and the kind of gate.
-/
namespace Ia32

open ByteMem

structure Gate where
  offset : UInt32
  selector : UInt16
  type : UInt8
  deriving DecidableEq, Repr

namespace Gate

def present (g : Gate) : Bool := g.type &&& 0x80 ≠ 0

/-- The least privileged level whose `int` the gate lets through. -/
def privilege (g : Gate) : UInt8 := (g.type &&& 0x60) >>> 5

def kind (g : Gate) : UInt8 := g.type &&& 0x1F

/-- The kind of a 32-bit gate that clears the interrupt flag. -/
abbrev interrupt32 : UInt8 := 0x0E

end Gate

def gateAddress (idt : UInt32) (v : Nat) : UInt32 := idt + UInt32.ofNat (8 * v)

/-- Gate `v` of the table at `idt`, as the processor reads it. -/
def gateAt (m : Mem) (idt : UInt32) (v : Nat) : Gate :=
  let gate := m.view (gateAddress idt v)
  { offset := word32 (gate 0) (gate 1) (gate 6) (gate 7)
    selector := word16 (gate 2) (gate 3)
    type := gate 5 }

/-- The register that `lidt` loads. -/
structure Idtr where
  limit : UInt16
  base : UInt32
  deriving DecidableEq, Repr

/-- A gate beyond the limit is none. -/
def Idtr.gate (r : Idtr) (m : Mem) (v : Nat) : Option Gate :=
  if 8 * v + 7 ≤ r.limit.toNat then some (gateAt m r.base v) else none

theorem gateAt_congr {m m' : Mem} {idt : UInt32} {v : Nat}
    (same : m.Agree m' (gateAddress idt v) 8) : gateAt m' idt v = gateAt m idt v := by
  have byte : ∀ i, i < 8 → m'.view (gateAddress idt v) i = m.view (gateAddress idt v) i := same
  simp only [gateAt, byte 0 (by decide), byte 1 (by decide), byte 2 (by decide),
    byte 3 (by decide), byte 5 (by decide), byte 6 (by decide), byte 7 (by decide)]

theorem gateAt_write (m : Mem) (idt : UInt32) (v : Nat) (o₀ o₁ s₀ s₁ unused type o₂ o₃ : UInt8) :
    gateAt (m.write (gateAddress idt v) [o₀, o₁, s₀, s₁, unused, type, o₂, o₃]) idt v =
      ⟨word32 o₀ o₁ o₂ o₃, word16 s₀ s₁, type⟩ := by
  have byte : ∀ i, i < 8 →
      (m.write (gateAddress idt v) [o₀, o₁, s₀, s₁, unused, type, o₂, o₃]).view
        (gateAddress idt v) i =
          [o₀, o₁, s₀, s₁, unused, type, o₂, o₃].getD i 0 :=
    fun i less => m.view_write_inside _ (by simp only [List.length_cons, List.length_nil]; decide) less
  simp only [gateAt, byte 0 (by decide), byte 1 (by decide), byte 2 (by decide),
    byte 3 (by decide), byte 5 (by decide), byte 6 (by decide), byte 7 (by decide)]
  rfl

/-- The gates do not overlap. -/
theorem agree_write_gate (m : Mem) (idt : UInt32) {v w : Nat} {bs : List UInt8}
    (length : bs.length = 8) (inside : v < 256) (inside' : w < 256) (other : w ≠ v) :
    m.Agree (m.write (gateAddress idt v) bs) (gateAddress idt w) 8 :=
  agree_write_slot m idt (Nat.le_of_eq length) (by decide : 8 * 256 ≤ 2 ^ 32) inside inside' other

end Ia32
