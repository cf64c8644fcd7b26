import VDK.InterruptStubs
import VDK.GateFormat

/-!
# The gates of the interrupt table (`libkern/idt.c`)

`idt_set_entry` stores a packed record in `g_idt`. Whatever flags it is given, it sets
both bits of the privilege level in them.
-/
namespace VDK
open ByteMem Ia32

abbrev noIdtDescriptors : Nat := 256

/-- The packed record `IDT`. -/
structure Idt where
  baseLow : UInt16
  segmentSelector : UInt16
  zero : UInt8
  type : UInt8
  baseHigh : UInt16

def Idt.bytes (entry : Idt) : List UInt8 :=
  bytes16 entry.baseLow ++ bytes16 entry.segmentSelector ++ [entry.zero, entry.type] ++
    bytes16 entry.baseHigh

section Table

variable (gIdt : UInt32)

def idtSetEntry (index : Nat) (base : UInt32) (segSel : UInt16) (flags : UInt8) (mem : Mem) : Mem :=
  mem.write (gateAddress gIdt index) (Idt.bytes
    { baseLow := (base &&& 0xFFFF).toUInt16
      segmentSelector := segSel
      zero := 0
      type := flags ||| 0x60
      baseHigh := ((base >>> 16) &&& 0xFFFF).toUInt16 })

/-- `g_idt_ptr`, which `load_idt` loads. -/
def gIdtPtr : Idtr where
  limit := UInt16.ofNat (8 * noIdtDescriptors - 1)
  base := gIdt

/-- The calls of `idt_set_entry` that `idt_init` makes. -/
def setEntries (address : Stub → UInt32) (entries : List (UInt8 × Stub)) (mem : Mem) : Mem :=
  entries.foldl (fun mem entry => idtSetEntry gIdt entry.1.toNat (address entry.2) 0x08 0x8E mem) mem

/-- The gate is what the caller asked for, but for its privilege level. -/
structure UserGate (base : UInt32) (segSel : UInt16) (flags : UInt8) (gate : Gate) : Prop where
  offset : gate.offset = base
  selector : gate.selector = segSel
  type : gate.type = flags ||| 0x60
  present : gate.present = decide (flags &&& 0x80 ≠ 0)
  privilege : gate.privilege = 3
  kind : gate.kind = flags &&& 0x1F

theorem and_or_distrib (f g mask : UInt8) : (f ||| g) &&& mask = f &&& mask ||| g &&& mask :=
  UInt8.toBitVec_inj.mp BitVec.and_or_distrib_right

theorem or_privilege (flags : UInt8) : (flags ||| 0x60) &&& 0x60 = 0x60 := by
  have all : ∀ x : BitVec 8, (x ||| 0x60#8) &&& 0x60#8 = 0x60#8 := by decide
  exact UInt8.toBitVec_inj.mp (all flags.toBitVec)

/-- The two halves of the base, put together again. -/
theorem word32_halves (base : UInt32) {low high : UInt16} (below : low.toNat = base.toNat % 65536)
    (above : high.toNat = base.toNat / 65536) :
    word32 (UInt8.ofNat low.toNat) (UInt8.ofNat (low.toNat / 256)) (UInt8.ofNat high.toNat)
      (UInt8.ofNat (high.toNat / 256)) = base := by
  have bound := base.toNat_lt
  apply UInt32.toNat_inj.mp
  simp only [word32, UInt32.toNat_ofNat', UInt8.toNat_ofNat', below, above]
  omega

theorem low16_toNat (x : UInt32) : (x &&& 0xFFFF).toUInt16.toNat = x.toNat % 65536 := by
  have masked : (x &&& 0xFFFF).toNat = x.toNat % 65536 :=
    (UInt32.toNat_and _ _).trans (Nat.and_two_pow_sub_one_eq_mod x.toNat 16)
  rw [UInt32.toNat_toUInt16, masked]
  exact Nat.mod_mod _ _

theorem high16_toNat (x : UInt32) : (x >>> 16).toNat = x.toNat / 65536 :=
  (UInt32.toNat_shiftRight _ _).trans (Nat.shiftRight_eq_div_pow x.toNat 16)

theorem idtSetEntry_gate (index : Nat) (base : UInt32) (segSel : UInt16) (flags : UInt8)
    (mem : Mem) : gateAt (idtSetEntry gIdt index base segSel flags mem) gIdt index =
      ⟨base, segSel, flags ||| 0x60⟩ := by
  have high : ((base >>> 16) &&& 0xFFFF).toUInt16.toNat = base.toNat / 65536 := by
    have bound := base.toNat_lt
    rw [low16_toNat, high16_toNat]
    omega
  refine (gateAt_write mem gIdt index _ _ _ _ _ _ _ _).trans ?_
  rw [word32_halves base (low16_toNat base) high, word16_bytes16]

theorem idtSetEntry_userGate (index : Nat) (base : UInt32) (segSel : UInt16) (flags : UInt8)
    (mem : Mem) : UserGate base segSel flags
      (gateAt (idtSetEntry gIdt index base segSel flags mem) gIdt index) := by
  rw [idtSetEntry_gate]
  refine ⟨rfl, rfl, rfl, ?_, ?_, ?_⟩
  · have masked : (flags ||| 0x60) &&& 0x80 = flags &&& 0x80 :=
      (and_or_distrib flags 0x60 0x80).trans UInt8.or_zero
    unfold Gate.present
    rw [masked]
  · unfold Gate.privilege
    rw [or_privilege]
    rfl
  · exact (and_or_distrib flags 0x60 0x1F).trans UInt8.or_zero

theorem idtSetEntry_other {index other : Nat} (inside : index < noIdtDescriptors)
    (inside' : other < noIdtDescriptors) (differs : other ≠ index) (base : UInt32)
    (segSel : UInt16) (flags : UInt8) (mem : Mem) :
    mem.Agree (idtSetEntry gIdt index base segSel flags mem) (gateAddress gIdt other) 8 :=
  agree_write_gate mem gIdt rfl inside inside' differs

/-- One call of `idt_init`, and the index it is made with. -/
def storeGate (address : Stub → UInt32) (mem : Mem) (entry : UInt8 × Stub) : Mem :=
  idtSetEntry gIdt entry.1.toNat (address entry.2) 0x08 0x8E mem

def gateIndex (entry : UInt8 × Stub) : Nat := entry.1.toNat

theorem storeGate_other (address : Stub → UInt32) (mem : Mem) (entry : UInt8 × Stub) (v : Nat)
    (inside : gateIndex entry < noIdtDescriptors) (inside' : v < noIdtDescriptors)
    (other : v ≠ gateIndex entry) :
    mem.Agree (storeGate gIdt address mem entry) (slotAddress gIdt 8 v) 8 :=
  idtSetEntry_other gIdt inside inside' other _ _ _ mem

theorem setEntries_other {entries : List (UInt8 × Stub)} {v : Nat} (inside : v < noIdtDescriptors)
    (absent : ∀ entry ∈ entries, v ≠ entry.1.toNat) (address : Stub → UInt32) (mem : Mem) :
    mem.Agree (setEntries gIdt address entries mem) (gateAddress gIdt v) 8 :=
  @agree_stores _ (storeGate gIdt address) gateIndex gIdt 8 noIdtDescriptors
    (storeGate_other gIdt address) entries v (fun entry _ => entry.1.toNat_lt) inside absent mem

/-- The calls do not overwrite one another's gates. -/
theorem setEntries_gate {entries : List (UInt8 × Stub)} (once : (entries.map Prod.fst).Nodup)
    {entry : UInt8 × Stub} (member : entry ∈ entries) (address : Stub → UInt32) (mem : Mem) :
    UserGate (address entry.2) 0x08 0x8E
      (gateAt (setEntries gIdt address entries mem) gIdt entry.1.toNat) := by
  have indices : (entries.map gateIndex).Nodup := by
    have mapped := once.map (f := UInt8.toNat) fun _ _ same => UInt8.toNat_inj.mp same
    rw [List.map_map] at mapped
    exact mapped
  have congr : ∀ (m m' : Mem) (e : UInt8 × Stub),
      m.Agree m' (slotAddress gIdt 8 (gateIndex e)) 8 →
      UserGate (address e.2) 0x08 0x8E (gateAt m gIdt (gateIndex e)) →
      UserGate (address e.2) 0x08 0x8E (gateAt m' gIdt (gateIndex e)) := by
    intro m m' e same user
    rw [gateAt_congr same]
    exact user
  exact stores_hold (storeGate_other gIdt address)
    (fun mem e => idtSetEntry_userGate gIdt _ _ _ _ _) congr (fun e _ => e.1.toNat_lt) indices mem
    entry member

/-- The table after `idt_init`, and the register it has loaded. -/
def idtInitTable (address : Stub → UInt32) (mem : Mem) : Idtr × Mem :=
  (gIdtPtr gIdt, setEntries gIdt address idtEntries mem)

/-- Every gate that `idt_set_entry` stores is what was asked for but for the privilege
level, which is 3, and `idt_init` installs every stub in such a gate; other gates stay. -/
theorem gates_open_to_user :
    (∀ index base segSel flags mem, index < noIdtDescriptors →
      UserGate base segSel flags (gateAt (idtSetEntry gIdt index base segSel flags mem) gIdt index) ∧
      ∀ other, other < noIdtDescriptors → other ≠ index →
        mem.Agree (idtSetEntry gIdt index base segSel flags mem) (gateAddress gIdt other) 8) ∧
    ∀ address mem idtr table, idtInitTable gIdt address mem = (idtr, table) →
      (∀ entry ∈ idtEntries, ∃ gate, idtr.gate table entry.1.toNat = some gate ∧
        UserGate (address entry.2) 0x08 0x8E gate ∧ gate.present = true ∧
        gate.kind = Gate.interrupt32) ∧
      ∀ v, v < noIdtDescriptors → (∀ entry ∈ idtEntries, v ≠ entry.1.toNat) →
        mem.Agree table (gateAddress gIdt v) 8 := by
  constructor
  · intro index base segSel flags mem inside
    refine ⟨idtSetEntry_userGate gIdt index base segSel flags mem, fun other inside' differs => ?_⟩
    exact idtSetEntry_other gIdt inside inside' differs base segSel flags mem
  · rintro address mem _ _ ⟨⟩
    constructor
    · intro entry member
      have once : (idtEntries.map Prod.fst).Nodup := by decide
      have user := setEntries_gate gIdt once member address mem
      have limit : 8 * entry.1.toNat + 7 ≤ (gIdtPtr gIdt).limit.toNat := by
        have bound := entry.1.toNat_lt
        change _ ≤ 2047
        omega
      exact ⟨_, if_pos limit, user, user.present, user.kind⟩
    · exact fun v inside absent => setEntries_other gIdt inside absent address mem

end Table

/-- The flags 0x8E ask for privilege level 0. The stored type byte is 0xEE. -/
theorem kernel_gate_open_to_user :
    (gateAt (idtSetEntry 0x5000 0 0x100000 0x08 0x8E fun _ => 0) 0x5000 0).type = 0xEE ∧
    (gateAt (idtSetEntry 0x5000 0 0x100000 0x08 0x8E fun _ => 0) 0x5000 0).privilege = 3 ∧
    Gate.privilege ⟨0x100000, 0x08, 0x8E⟩ = 0 := by
  rw [idtSetEntry_gate]
  decide

end VDK
