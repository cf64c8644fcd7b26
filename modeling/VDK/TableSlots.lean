import VDK.ByteMemory
import Mathlib.Data.List.Nodup

/-!
# Tables of equally long slots in memory

Writing one slot leaves the others alone. Of writes to different slots each one is found
behind the last.
-/
namespace ByteMem

def slotAddress (table : UInt32) (size v : Nat) : UInt32 := table + UInt32.ofNat (size * v)

/-- The slots of a table that does not run round the address space do not overlap. -/
theorem agree_write_slot (m : Mem) (table : UInt32) {size n v w : Nat} {bs : List UInt8}
    (fits : bs.length ≤ size) (room : size * n ≤ 2 ^ 32) (inside : v < n) (inside' : w < n)
    (other : w ≠ v) :
    m.Agree (m.write (slotAddress table size v) bs) (slotAddress table size w) size := by
  intro i less
  have slot : ∀ u, u < n → size * u + size ≤ 2 ^ 32 :=
    fun u below => Nat.le_trans (Nat.mul_le_mul_left size below) room
  have first := slot v inside
  have second := slot w inside'
  have apart : size * v + size ≤ size * w ∨ size * w + size ≤ size * v := by
    rcases Nat.lt_or_gt_of_ne other with before | behind
    · exact Or.inr (Nat.mul_le_mul_left size before)
    · exact Or.inl (Nat.mul_le_mul_left size behind)
  have beyond : bs.length ≤
      (slotAddress table size w + UInt32.ofNat i - slotAddress table size v).toNat := by
    have bound := table.toNat_lt
    simp only [slotAddress, UInt32.toNat_sub, UInt32.toNat_add, UInt32.toNat_ofNat']
    generalize size * v = a at first apart ⊢
    generalize size * w = b at second apart ⊢
    omega
  exact m.write_beyond (by omega) beyond

section Sequences

variable {E : Type} {store : Mem → E → Mem} {slot : E → Nat} {table : UInt32} {size n : Nat}

theorem agree_stores (others : ∀ (m : Mem) e w, slot e < n → w < n → w ≠ slot e →
      m.Agree (store m e) (slotAddress table size w) size)
    {es : List E} {w : Nat} (below : ∀ e ∈ es, slot e < n) (inside : w < n)
    (absent : ∀ e ∈ es, w ≠ slot e) (m : Mem) :
    m.Agree (es.foldl store m) (slotAddress table size w) size := by
  induction es generalizing m with
  | nil => exact fun _ _ => rfl
  | cons e es ih =>
      have first := others m e w (below e List.mem_cons_self) inside (absent e List.mem_cons_self)
      exact first.trans (ih (fun d member => below d (List.mem_cons_of_mem e member))
        (fun d member => absent d (List.mem_cons_of_mem e member)) _)

/-- Behind a sequence of stores to different slots each slot holds what was stored in it. -/
theorem stores_hold {holds : E → Mem → Prop}
    (others : ∀ (m : Mem) e w, slot e < n → w < n → w ≠ slot e →
      m.Agree (store m e) (slotAddress table size w) size)
    (stored : ∀ m e, holds e (store m e))
    (congr : ∀ (m m' : Mem) e, m.Agree m' (slotAddress table size (slot e)) size → holds e m → holds e m')
    {es : List E} (below : ∀ e ∈ es, slot e < n) (once : (es.map slot).Nodup) (m : Mem) :
    ∀ e ∈ es, holds e (es.foldl store m) := by
  induction es generalizing m with
  | nil => exact fun e none => absurd none List.not_mem_nil
  | cons first es ih =>
      rw [List.map_cons, List.nodup_cons] at once
      have below' : ∀ e ∈ es, slot e < n := fun e member => below e (List.mem_cons_of_mem first member)
      intro e member
      rcases List.mem_cons.mp member with rfl | later
      · have absent : ∀ d ∈ es, slot e ≠ slot d :=
          fun d inside same => once.1 (List.mem_map.mpr ⟨d, inside, same.symm⟩)
        exact congr _ _ e (agree_stores others below' (below e List.mem_cons_self) absent _)
          (stored m e)
      · exact ih below' once.2 _ e later

end Sequences

end ByteMem
