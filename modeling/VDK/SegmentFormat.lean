import VDK.TableSlots

/-!
# The descriptor table of a 32-bit processor

A segment descriptor is eight bytes: the low 16 bits of the limit, the base in three
pieces, the access byte, and a byte that holds the high four bits of the limit below the
four flags.
-/
namespace Ia32

open ByteMem

structure SegmentDescriptor where
  base : UInt32
  limit : UInt32
  access : UInt8
  flags : UInt8
  deriving DecidableEq, Repr

def descriptorAddress (gdt : UInt32) (v : Nat) : UInt32 := slotAddress gdt 8 v

/-- Descriptor `v` of the table at `gdt`, as the processor reads it. -/
def descriptorAt (m : Mem) (gdt : UInt32) (v : Nat) : SegmentDescriptor :=
  let descriptor := m.view (descriptorAddress gdt v)
  { base := word32 (descriptor 2) (descriptor 3) (descriptor 4) (descriptor 7)
    limit := word32 (descriptor 0) (descriptor 1) (descriptor 6 &&& 0x0F) 0
    access := descriptor 5
    flags := descriptor 6 >>> 4 }

namespace SegmentDescriptor

def present (d : SegmentDescriptor) : Bool := d.access &&& 0x80 ≠ 0

def privilege (d : SegmentDescriptor) : Nat := ((d.access &&& 0x60) >>> 5).toNat

/-- A code segment. -/
def isCode (d : SegmentDescriptor) : Bool := d.access &&& 0x18 = 0x18

/-- A data segment that grows upwards and can be written. -/
def isWritable (d : SegmentDescriptor) : Bool := d.access &&& 0x1E = 0x12

/-- The last offset inside the segment. With the granularity flag the limit counts pages. -/
def last (d : SegmentDescriptor) : Nat :=
  if d.flags &&& 8 ≠ 0 then d.limit.toNat * 4096 + 4095 else d.limit.toNat

/-- The linear address of an offset. -/
def linear (d : SegmentDescriptor) (offset : UInt32) : Option UInt32 :=
  if d.present ∧ offset.toNat ≤ d.last then some (d.base + offset) else none

/-- Offsets of 32 bits are linear addresses as they stand. -/
structure Flat (d : SegmentDescriptor) : Prop where
  linear : ∀ offset, d.linear offset = some offset
  wide : d.flags &&& 4 ≠ 0

theorem flat_of {d : SegmentDescriptor} (present : d.present = true) (base : d.base = 0)
    (last : d.last = 2 ^ 32 - 1) (wide : d.flags &&& 4 ≠ 0) : d.Flat := by
  refine ⟨fun offset => ?_, wide⟩
  have inside : offset.toNat ≤ d.last := by
    rw [last]
    exact Nat.le_pred_of_lt offset.toNat_lt
  rw [SegmentDescriptor.linear, if_pos ⟨present, inside⟩, base, UInt32.zero_add]

end SegmentDescriptor

/-- The register that `lgdt` loads. -/
structure Gdtr where
  limit : UInt16
  base : UInt32
  deriving DecidableEq, Repr

/-- A descriptor beyond the limit is none. -/
def Gdtr.descriptor (r : Gdtr) (m : Mem) (v : Nat) : Option SegmentDescriptor :=
  if 8 * v + 7 ≤ r.limit.toNat then some (descriptorAt m r.base v) else none

/-- The descriptor a selector of the global table stands for. -/
def Gdtr.select (r : Gdtr) (m : Mem) (selector : UInt16) : Option SegmentDescriptor :=
  if selector &&& 4 = 0 then r.descriptor m (selector.toNat / 8) else none

theorem descriptorAt_congr {m m' : Mem} {gdt : UInt32} {v : Nat}
    (same : m.Agree m' (descriptorAddress gdt v) 8) :
    descriptorAt m' gdt v = descriptorAt m gdt v := by
  have byte : ∀ i, i < 8 →
      m'.view (descriptorAddress gdt v) i = m.view (descriptorAddress gdt v) i := same
  simp only [descriptorAt, byte 0 (by decide), byte 1 (by decide), byte 2 (by decide),
    byte 3 (by decide), byte 4 (by decide), byte 5 (by decide), byte 6 (by decide),
    byte 7 (by decide)]

theorem view_write_descriptor (m : Mem) (gdt : UInt32) (v : Nat) {bs : List UInt8}
    (length : bs.length = 8) {i : Nat} (inside : i < 8) :
    (m.write (descriptorAddress gdt v) bs).view (descriptorAddress gdt v) i = bs.getD i 0 :=
  m.view_write_inside _ (by rw [length]; decide) (length.symm ▸ inside)

theorem descriptorAt_write (m : Mem) (gdt : UInt32) (v : Nat)
    (l₀ l₁ b₀ b₁ b₂ access granularity b₃ : UInt8) :
    descriptorAt
        (m.write (descriptorAddress gdt v) [l₀, l₁, b₀, b₁, b₂, access, granularity, b₃]) gdt v =
      ⟨word32 b₀ b₁ b₂ b₃, word32 l₀ l₁ (granularity &&& 0x0F) 0, access, granularity >>> 4⟩ := by
  have byte := fun i inside => @view_write_descriptor m gdt v
    [l₀, l₁, b₀, b₁, b₂, access, granularity, b₃] rfl i inside
  simp only [descriptorAt, byte 0 (by decide), byte 1 (by decide), byte 2 (by decide),
    byte 3 (by decide), byte 4 (by decide), byte 5 (by decide), byte 6 (by decide),
    byte 7 (by decide)]
  rfl

end Ia32
