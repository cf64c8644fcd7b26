import VDK.InterruptGates
import VDK.SegmentFormat

/-!
# The segment descriptors (`libkern/gdt.c`)

`gdt_set_entry` stores the fields of a packed record one after the other. The granularity
byte is stored twice, the second time with the flags beside the high bits of the limit.
-/
namespace VDK
open ByteMem Ia32

abbrev noGdtDescriptors : Nat := 8

section Table

variable (gGdt : UInt32)

def gdtSetEntry (index : Nat) (base limit : UInt32) (access gran : UInt8) (mem : Mem) : Mem :=
  let this := descriptorAddress gGdt index
  let mem := mem.write this (bytes16 (limit &&& 0xFFFF).toUInt16)
  let mem := mem.write (this + 2) (bytes16 (base &&& 0xFFFF).toUInt16)
  let mem := mem.set (this + 4) ((base >>> 16) &&& 0xFF).toUInt8
  let mem := mem.set (this + 5) access
  let mem := mem.set (this + 6) ((limit >>> 16) &&& 0x0F).toUInt8
  let mem := mem.set (this + 6) (mem (this + 6) ||| (gran &&& 0xF0))
  mem.set (this + 7) ((base >>> 24) &&& 0xFF).toUInt8

def gdtBytes (base limit : UInt32) (access gran : UInt8) : List UInt8 :=
  bytes16 (limit &&& 0xFFFF).toUInt16 ++ bytes16 (base &&& 0xFFFF).toUInt16 ++
    [((base >>> 16) &&& 0xFF).toUInt8, access,
      ((limit >>> 16) &&& 0x0F).toUInt8 ||| (gran &&& 0xF0), ((base >>> 24) &&& 0xFF).toUInt8]

/-- Nothing of the old record is left, whichever way the granularity byte is stored. -/
theorem gdtSetEntry_eq (index : Nat) (base limit : UInt32) (access gran : UInt8) (mem : Mem) :
    gdtSetEntry gGdt index base limit access gran mem =
      mem.write (descriptorAddress gGdt index) (gdtBytes base limit access gran) := by
  unfold gdtSetEntry gdtBytes bytes16
  generalize descriptorAddress gGdt index = this
  dsimp only
  rw [Mem.set_twice, Mem.set_self]
  simp only [List.cons_append, List.nil_append, Mem.write, UInt32.add_assoc]
  rfl

theorem shifted_byte_toNat (x : UInt32) : ((x >>> 16) &&& 0xFF).toUInt8.toNat = x.toNat / 65536 % 256 ∧
    ((x >>> 24) &&& 0xFF).toUInt8.toNat = x.toNat / 16777216 := by
  have bound := x.toNat_lt
  have top : (x >>> 24).toNat = x.toNat / 16777216 :=
    (UInt32.toNat_shiftRight _ _).trans (Nat.shiftRight_eq_div_pow x.toNat 24)
  have masked : ∀ y : UInt32, (y &&& 0xFF).toUInt8.toNat = y.toNat % 256 := by
    intro y
    have low : (y &&& 0xFF).toNat = y.toNat % 256 :=
      (UInt32.toNat_and _ _).trans (Nat.and_two_pow_sub_one_eq_mod y.toNat 8)
    rw [UInt32.toNat_toUInt8, low]
    exact Nat.mod_mod _ _
  rw [masked, masked, high16_toNat, top]
  omega

theorem word32_base (base : UInt32) :
    word32 (UInt8.ofNat (base &&& 0xFFFF).toUInt16.toNat)
      (UInt8.ofNat ((base &&& 0xFFFF).toUInt16.toNat / 256)) ((base >>> 16) &&& 0xFF).toUInt8
      ((base >>> 24) &&& 0xFF).toUInt8 = base := by
  obtain ⟨middle, top⟩ := shifted_byte_toNat base
  have bound := base.toNat_lt
  apply UInt32.toNat_inj.mp
  simp only [word32, UInt32.toNat_ofNat', UInt8.toNat_ofNat', low16_toNat, middle, top]
  omega

theorem limit_nibble (limit : UInt32) :
    ((limit >>> 16) &&& 0x0F).toUInt8.toNat = limit.toNat / 65536 % 16 := by
  have masked : ((limit >>> 16) &&& 0x0F).toNat = (limit >>> 16).toNat % 16 :=
    (UInt32.toNat_and _ _).trans (Nat.and_two_pow_sub_one_eq_mod _ 4)
  rw [UInt32.toNat_toUInt8, masked, high16_toNat]
  omega

/-- The low half of the granularity byte is the rest of the limit. -/
theorem granularity_low (limit : UInt32) (gran : UInt8) :
    ((((limit >>> 16) &&& 0x0F).toUInt8 ||| (gran &&& 0xF0)) &&& 0x0F).toNat =
      limit.toNat / 65536 % 16 := by
  have apart : ∀ x : BitVec 8, (x &&& 0xF0#8) &&& 0x0F#8 = 0#8 := by decide
  have flags : (gran &&& 0xF0) &&& 0x0F = 0 := UInt8.toBitVec_inj.mp (apart gran.toBitVec)
  have low : ∀ n : UInt8, (n &&& 0x0F).toNat = n.toNat % 16 :=
    fun n => (UInt8.toNat_and _ _).trans (Nat.and_two_pow_sub_one_eq_mod _ 4)
  rw [and_or_distrib, flags, UInt8.or_zero, low, limit_nibble]
  exact Nat.mod_mod _ _

theorem granularity_high (limit : UInt32) (gran : UInt8) :
    (((limit >>> 16) &&& 0x0F).toUInt8 ||| (gran &&& 0xF0)) >>> 4 = gran >>> 4 := by
  have kept : ∀ x : BitVec 8, (UInt8.ofBitVec x &&& 0xF0) >>> 4 = UInt8.ofBitVec x >>> 4 := by decide
  have small : ((limit >>> 16) &&& 0x0F).toUInt8 >>> 4 = 0 := by
    apply UInt8.toNat_inj.mp
    have shifted : (((limit >>> 16) &&& 0x0F).toUInt8 >>> 4).toNat =
        ((limit >>> 16) &&& 0x0F).toUInt8.toNat / 16 :=
      (UInt8.toNat_shiftRight _ _).trans (Nat.shiftRight_eq_div_pow _ 4)
    rw [shifted, limit_nibble]
    exact Nat.div_eq_of_lt (Nat.mod_lt _ (by decide))
  rw [UInt8.shiftRight_or, small, UInt8.zero_or]
  exact kept gran.toBitVec

theorem gdtSetEntry_descriptor (index : Nat) (base limit : UInt32) (access gran : UInt8)
    (mem : Mem) :
    descriptorAt (gdtSetEntry gGdt index base limit access gran mem) gGdt index =
      ⟨base, limit % 0x100000, access, gran >>> 4⟩ := by
  have pieces : word32 (UInt8.ofNat (limit &&& 0xFFFF).toUInt16.toNat)
      (UInt8.ofNat ((limit &&& 0xFFFF).toUInt16.toNat / 256))
      ((((limit >>> 16) &&& 0x0F).toUInt8 ||| (gran &&& 0xF0)) &&& 0x0F) 0 = limit % 0x100000 := by
    have bound := limit.toNat_lt
    have zero : (0 : UInt8).toNat = 0 := rfl
    have size : (0x100000 : UInt32).toNat = 0x100000 := rfl
    apply UInt32.toNat_inj.mp
    simp only [word32, UInt32.toNat_ofNat', UInt8.toNat_ofNat', UInt32.toNat_mod, low16_toNat,
      granularity_low, zero, size]
    omega
  rw [gdtSetEntry_eq]
  refine (descriptorAt_write mem gGdt index _ _ _ _ _ _ _ _).trans ?_
  rw [word32_base, pieces, granularity_high]

theorem gdtSetEntry_other {index other : Nat} (inside : index < noGdtDescriptors)
    (inside' : other < noGdtDescriptors) (differs : other ≠ index) (base limit : UInt32)
    (access gran : UInt8) (mem : Mem) :
    mem.Agree (gdtSetEntry gGdt index base limit access gran mem)
      (descriptorAddress gGdt other) 8 := by
  rw [gdtSetEntry_eq]
  exact agree_write_slot mem gGdt (Nat.le_refl 8) (by decide : 8 * noGdtDescriptors ≤ 2 ^ 32) inside
    inside' differs

/-- The arguments of a call of `gdt_set_entry`. -/
structure GdtEntry where
  index : Nat
  base : UInt32
  limit : UInt32
  access : UInt8
  gran : UInt8
  deriving DecidableEq, Repr

def GdtEntry.store (entry : GdtEntry) (mem : Mem) : Mem :=
  gdtSetEntry gGdt entry.index entry.base entry.limit entry.access entry.gran mem

/-- The calls that `gdt_init` makes. -/
def gdtEntries : List GdtEntry :=
  [⟨0, 0, 0, 0, 0⟩, ⟨1, 0, 0xFFFFFFFF, 0x9A, 0xCF⟩, ⟨2, 0, 0xFFFFFFFF, 0x92, 0xCF⟩,
    ⟨3, 0, 0xFFFFFFFF, 0xFA, 0xCF⟩, ⟨4, 0, 0xFFFFFFFF, 0xF2, 0xCF⟩]

/-- `g_gdt_ptr`, which `load_gdt` loads. -/
def gGdtPtr : Gdtr where
  limit := UInt16.ofNat (8 * noGdtDescriptors - 1)
  base := gGdt

/-- The table after `gdt_init`, and the register it has loaded. -/
def gdtInit (mem : Mem) : Gdtr × Mem :=
  (gGdtPtr gGdt, gdtEntries.foldl (fun mem entry => entry.store gGdt mem) mem)

theorem gdtInit_descriptors (mem : Mem) : ∀ entry ∈ gdtEntries,
    (gdtInit gGdt mem).1.descriptor (gdtInit gGdt mem).2 entry.index =
      some ⟨entry.base, entry.limit % 0x100000, entry.access, entry.gran >>> 4⟩ := by
  have below : ∀ entry ∈ gdtEntries, entry.index < noGdtDescriptors := by
    intro entry member
    have all : gdtEntries.all (fun entry => decide (entry.index < noGdtDescriptors)) = true := by
      decide
    exact of_decide_eq_true (List.all_eq_true.mp all entry member)
  have congr : ∀ (m m' : Mem) (e : GdtEntry), m.Agree m' (slotAddress gGdt 8 e.index) 8 →
      descriptorAt m gGdt e.index = ⟨e.base, e.limit % 0x100000, e.access, e.gran >>> 4⟩ →
      descriptorAt m' gGdt e.index = ⟨e.base, e.limit % 0x100000, e.access, e.gran >>> 4⟩ :=
    fun m m' e same held => (descriptorAt_congr same).trans held
  have others : ∀ (m : Mem) (e : GdtEntry) w, e.index < noGdtDescriptors → w < noGdtDescriptors →
      w ≠ e.index → m.Agree (e.store gGdt m) (slotAddress gGdt 8 w) 8 :=
    fun m e w inside inside' other => gdtSetEntry_other gGdt inside inside' other _ _ _ _ m
  have held := stores_hold others
    (fun mem e => gdtSetEntry_descriptor gGdt e.index e.base e.limit e.access e.gran mem) congr below
    (by decide) mem
  intro entry member
  have limit : 8 * entry.index + 7 ≤ (gGdtPtr gGdt).limit.toNat := by
    have bound := below entry member
    change _ ≤ 63
    unfold noGdtDescriptors at bound
    omega
  exact (if_pos limit).trans (congrArg some (held entry member))

/-- A stored descriptor is what was asked for, whatever the table held before, and no other
descriptor changes. -/
theorem descriptor_decodes (index : Nat) (inside : index < noGdtDescriptors) (base limit : UInt32)
    (access gran : UInt8) (mem : Mem) :
    descriptorAt (gdtSetEntry gGdt index base limit access gran mem) gGdt index =
        ⟨base, limit % 0x100000, access, gran >>> 4⟩ ∧
      (∀ mem' i, i < 8 →
        (gdtSetEntry gGdt index base limit access gran mem').view (descriptorAddress gGdt index) i =
          (gdtSetEntry gGdt index base limit access gran mem).view
            (descriptorAddress gGdt index) i) ∧
      ∀ other, other < noGdtDescriptors → other ≠ index →
        mem.Agree (gdtSetEntry gGdt index base limit access gran mem)
          (descriptorAddress gGdt other) 8 := by
  refine ⟨gdtSetEntry_descriptor gGdt index base limit access gran mem, fun mem' i less => ?_,
    fun other inside' differs => gdtSetEntry_other gGdt inside inside' differs base limit access gran
      mem⟩
  rw [gdtSetEntry_eq, gdtSetEntry_eq, view_write_descriptor _ _ _ rfl less,
    view_write_descriptor _ _ _ rfl less]

/-- A limit of 21 bits over a descriptor of ones. -/
theorem descriptor_decodes_ones :
    descriptorAt (gdtSetEntry 0x6000 3 0x12345678 0x1ABCDE 0x92 0xCF fun _ => 0xFF) 0x6000 3 =
      ⟨0x12345678, 0xABCDE, 0x92, 0x0C⟩ :=
  (descriptor_decodes 0x6000 3 (by decide) 0x12345678 0x1ABCDE 0x92 0xCF fun _ => 0xFF).1

end Table

end VDK
