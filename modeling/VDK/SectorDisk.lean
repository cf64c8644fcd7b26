import VDK.SectorRuns

/-!
# Disks of sectors

A disk is a map from sector numbers to sectors of exactly 512 bytes. `WorkingDrive`
says what a present drive does for one-sector transfers: reads deliver the sector
stored last, writes store the buffer, and both return 0. How the bus brings that
about is left to an instance.
-/
namespace VDK
open Fuel ByteMem

structure Sector where
  bytes : List UInt8
  full : bytes.length = 512

abbrev Disk := Nat → Sector

namespace Sector

@[ext] theorem ext {a b : Sector} (h : a.bytes = b.bytes) : a = b := by
  cases a
  cases b
  cases h
  rfl

def blank : Sector := ⟨List.replicate 512 0, List.length_replicate⟩

/-- The sector in memory from address `a` on. -/
def ofMem (m : Mem) (a : UInt32) : Sector := ⟨(List.range 512).map (m.view a), by simp⟩

def words (s : Sector) : List UInt16 := wordsOf s.bytes

def ofWords (words : List UInt16) (full : words.length = 256) : Sector :=
  ⟨words.flatMap bytes16, by
    have length : ∀ ws : List UInt16, (ws.flatMap bytes16).length = 2 * ws.length := by
      intro ws
      induction ws with
      | nil => rfl
      | cons w ws ih => simp only [List.flatMap_cons, List.length_append, ih, length_bytes16,
          List.length_cons, Nat.mul_succ, Nat.add_comm]
    rw [length, full]⟩

theorem flatMap_words (s : Sector) : s.words.flatMap bytes16 = s.bytes :=
  (flatMap_wordsOf 256 s.bytes s.full).1

@[simp] theorem length_words (s : Sector) : s.words.length = 256 :=
  (flatMap_wordsOf 256 s.bytes s.full).2

theorem ofWords_memWords (m : Mem) (a : UInt32) :
    ofWords (memWords m 256 a) (length_memWords m 256 a) = ofMem m a := by
  have bytes : (memWords m 256 a).flatMap bytes16 = (List.range 512).map (m.view a) := by
    rw [flatMap_memWords]
  simp only [ofWords, ofMem, bytes]

/-- A pointer to a buffer with the sector; what lies behind is not read. -/
def ptr (s : Sector) : Ptr := fun i => s.bytes.getD i 0

/-- Bytes at the start of an otherwise zero sector. -/
def padded (bytes : List UInt8) (fits : bytes.length ≤ 512) : Sector :=
  ⟨bytes ++ List.replicate (512 - bytes.length) 0, by
    rw [List.length_append, List.length_replicate]
    omega⟩

theorem padded_ptr (bytes : List UInt8) (fits : bytes.length ≤ 512) (i : Nat) :
    (padded bytes fits).ptr i = bytes.getD i 0 := by
  simp only [ptr, padded, List.getD_eq_getElem?_getD]
  by_cases h : i < bytes.length
  · rw [List.getElem?_append_left h]
  · rw [List.getElem?_append_right (Nat.not_lt.mp h), List.getElem?_eq_none (Nat.not_lt.mp h),
      List.getElem?_replicate]
    split
    · rfl
    · rfl

/-- A buffer that was filled with a sector holds it. -/
theorem view_write (s : Sector) (m : Mem) (a : UInt32) {i : Nat} (hi : i < 512) :
    (m.write a s.bytes).view a i = s.ptr i := by
  have full := s.full
  exact m.view_write_inside a (by omega) (by omega)

/-- Bytes written over a cleared buffer leave a padded sector in it. -/
theorem ofMem_padded (bytes : List UInt8) (fits : bytes.length ≤ 512) (m : Mem) (a : UInt32) :
    ofMem ((m.write a (List.replicate 512 0)).write a bytes) a = padded bytes fits := by
  ext1
  apply List.ext_getElem
  · rw [(ofMem _ a).full, (padded bytes fits).full]
  · intro i hi hj
    rw [(ofMem _ a).full] at hi
    have zeros : (List.replicate 512 (0 : UInt8)).length ≤ 2 ^ 32 := by
      rw [List.length_replicate]
      decide
    have padding := padded_ptr bytes fits i
    rw [ptr, List.getD_eq_getElem?_getD, List.getElem?_eq_getElem hj, Option.getD_some] at padding
    simp only [ofMem, List.getElem_map, List.getElem_range]
    rw [Mem.view_write _ _ _ (by omega) _ (by omega), Mem.view_write _ _ _ zeros _ (by omega),
      List.getElem?_replicate, if_pos hi, Option.getD_some, padding, List.getD_eq_getElem?_getD]

end Sector

/-- The `n` sectors in memory from address `a` on. -/
def Sector.run (m : Mem) : Nat → UInt32 → List Sector
  | 0, _ => []
  | n + 1, a => Sector.ofMem m a :: Sector.run m n (a + 512)

/-- The `n` sectors from `lba` on. -/
def Disk.load (D : Disk) : Nat → Nat → List Sector
  | _, 0 => []
  | lba, n + 1 => D lba :: Disk.load D (lba + 1) n

/-- Sectors stored one after the other from `lba` on. -/
def Disk.store (D : Disk) (lba : Nat) : List Sector → Disk
  | [] => D
  | x :: xs => Disk.store (Function.update D lba x) (lba + 1) xs

@[simp] theorem Disk.length_load (D : Disk) (lba n : Nat) : (D.load lba n).length = n := by
  induction n generalizing lba with
  | zero => rfl
  | succ n ih => rw [load, List.length_cons, ih]

/-- What a bounded read finds in a cleared buffer. -/
def Disk.get (D : Disk) (size lba : Nat) : Sector := if lba < size then D lba else Sector.blank

/-- A bounded write. -/
def Disk.put (D : Disk) (size lba : Nat) (x : Sector) : Disk :=
  if lba < size then Function.update D lba x else D

theorem Disk.get_put_self {D : Disk} {size lba : Nat} (h : lba < size) (x : Sector) :
    Disk.get (Disk.put D size lba x) size lba = x := by
  rw [Disk.get, if_pos h, Disk.put, if_pos h, Function.update_self]

theorem Disk.put_of_ne {D : Disk} {size lba lba' : Nat} (h : lba' ≠ lba) (x : Sector) :
    Disk.put D size lba x lba' = D lba' := by
  rw [Disk.put]
  split
  · exact Function.update_of_ne h x D
  · rfl

theorem Disk.get_put_of_ne {D : Disk} {size lba lba' : Nat} (h : lba' ≠ lba) (x : Sector) :
    Disk.get (Disk.put D size lba x) size lba' = Disk.get D size lba' := by
  rw [Disk.get, Disk.put_of_ne h, Disk.get]

/-- A drive on which one-sector transfers work, for states that represent a disk. -/
structure WorkingDrive {σ : Type} (hw : Bus σ) (drive : UInt8) (Rep : IdeState σ → Disk → Prop) :
    Prop where
  frame : ∀ s t D, Rep s D → t.bus = s.bus → t.channels = s.channels → t.devices = s.devices →
    Rep t D
  present : ∀ s D, Rep s D → drive.toNat < maximumIdeDevices ∧
    (s.devices drive.toNat).reserved ≠ 0 ∧ (s.devices drive.toNat).type = ideAta
  read : ∀ s D (lba buffer : UInt32), Rep s D → lba.toNat < (s.devices drive.toNat).size.toNat →
    ∃ t, Settles (fun fuel => ideAtaAccess hw fuel .read drive lba 1 buffer) s 0 t ∧ Rep t D ∧
      t.mem = s.mem.write buffer (D lba.toNat).bytes ∧ t.devices = s.devices
  write : ∀ s D (lba buffer : UInt32), Rep s D → lba.toNat < (s.devices drive.toNat).size.toNat →
    ∃ t, Settles (fun fuel => ideAtaAccess hw fuel .write drive lba 1 buffer) s 0 t ∧
      Rep t (Function.update D lba.toNat (Sector.ofMem s.mem buffer)) ∧
      t.mem = s.mem ∧ t.devices = s.devices

end VDK
