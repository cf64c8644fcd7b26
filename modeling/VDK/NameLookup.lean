import VDK.FileTable
import Mathlib.Data.List.GetD
import Mathlib.Data.List.OfFn
import Mathlib.Data.List.TakeWhile

/-!
# What a lookup by name reads

`strcmp` reads on behind a `Name` of eleven characters: through the other fields of the
entry, and then through the next names. `Spells` is the part of that comparison that the
names decide, the one part two tables with the same names share.
-/
namespace VDK
open ByteMem FirstFit VdEntry

def openedSlot (entries : Nat → VdEntry) (path : Text) : Option Nat :=
  firstIndex (fun i => strcmpText (namePtr entries i) path = some 0) maximumEntries

/-- The first slot whose name is the path. -/
def namedSlot (entries : Nat → VdEntry) (path : Text) : Option Nat :=
  firstIndex (fun i => (entries i).nameText = path) maximumEntries

def slotEntry (junk : VdEntry) (entries : Nat → VdEntry) : Option Nat → VdEntry
  | some i => entries i
  | none => notFoundEntry junk

/-- The tables agree on all names; what lies behind the table is the same memory. -/
structure SameNames (entries other : Nat → VdEntry) : Prop where
  names : ∀ i, i < maximumEntries → (other i).name = (entries i).name
  behind : ∀ i, maximumEntries ≤ i → other i = entries i

/-- The path opens the first entry of that name, and no other field has a say in it. -/
structure ByName (entries : Nat → VdEntry) (path : Text) : Prop where
  first : openedSlot entries path = namedSlot entries path
  returned : ∀ junk, vdOpen junk entries path = slotEntry junk entries (namedSlot entries path)
  blind : ∀ other, SameNames entries other → openedSlot other path = openedSlot entries path

/-- From slot `i` on, byte `k` belongs to a name, or lies behind the table. -/
def NameByte (i k : Nat) : Prop :=
  k % sizeofVdEntry < 11 ∨ maximumEntries ≤ i + k / sizeofVdEntry

/-- The name bytes from slot `i` on agree with the path and its terminator. -/
def Spells (entries : Nat → VdEntry) (path : Text) (i : Nat) : Prop :=
  ∀ k, k ≤ path.chars.length → NameByte i k → namePtr entries i k = path.ptr k

theorem vdOpen_slot (junk : VdEntry) (entries : Nat → VdEntry) (path : Text) :
    vdOpen junk entries path = slotEntry junk entries (openedSlot entries path) := by
  rw [vdOpen, openedSlot]
  split
  · rename_i i found
    rw [found]
    rfl
  · rename_i none
    rw [none]
    rfl

section Bytes

theorem byte_ofPtr (p : Ptr) {k : Nat} (inside : k < sizeofVdEntry) : (ofPtr p).byte k = p k := by
  have bound : k < 24 := inside
  unfold VdEntry.byte ofPtr
  split
  · rfl
  · split
    · rename_i here
      rw [here]
    · split
      · rename_i here
        rw [here]
      · split
        · rename_i low _ _ pad
          exact congrArg p (by dsimp only; omega)
        · split
          · rw [bytes32_word32]
            have cases : k = 16 ∨ k = 17 ∨ k = 18 ∨ k = 19 := by omega
            rcases cases with rfl | rfl | rfl | rfl <;> rfl
          · rw [bytes32_word32]
            have cases : k = 20 ∨ k = 21 ∨ k = 22 ∨ k = 23 := by omega
            rcases cases with rfl | rfl | rfl | rfl <;> rfl

theorem byte_renamed (e : VdEntry) (name : Fin 11 → UInt8) {k : Nat} (behind : 11 ≤ k) :
    ({ e with name := name } : VdEntry).byte k = e.byte k := by
  rw [VdEntry.byte, dif_neg (Nat.not_lt.mpr behind), VdEntry.byte, dif_neg (Nat.not_lt.mpr behind)]

variable {entries other : Nat → VdEntry} {path : Text} {i : Nat}

theorem SameNames.namePtr (same : SameNames entries other) {k : Nat} (here : NameByte i k) :
    namePtr other i k = namePtr entries i k := by
  unfold VDK.namePtr
  rcases Nat.lt_or_ge (i + k / sizeofVdEntry) maximumEntries with inside | behind
  · have name := here.resolve_right (Nat.not_le.mpr inside)
    rw [byte_name _ name, byte_name _ name, same.names _ inside]
  · rw [same.behind _ behind]

theorem SameNames.spells (same : SameNames entries other) :
    Spells other path i ↔ Spells entries path i := by
  constructor
  · intro spells k bound here
    rw [← same.namePtr here]
    exact spells k bound here
  · intro spells k bound here
    rw [same.namePtr here]
    exact spells k bound here

theorem SameNames.nameText (same : SameNames entries other) (inside : i < maximumEntries) :
    (other i).nameText = (entries i).nameText := by
  rw [VdEntry.nameText, VdEntry.nameText]
  simp only [same.names i inside]

theorem spells_of_equal (equal : strcmpText (namePtr entries i) path = some 0) :
    Spells entries path i := by
  rw [strcmpText_eq_zero, holdsString_iff_ptr] at equal
  exact fun k bound _ => equal k bound

/-- A name of eleven characters takes up its whole field. -/
theorem nameText_full {e : VdEntry} (full : path.chars.length = 11) :
    e.nameText = path ↔ List.ofFn e.name = path.chars := by
  have bound : e.nameText.chars <+: List.ofFn e.name := List.takeWhile_prefix _
  constructor
  · rintro rfl
    exact (bound.eq_of_length (full.trans List.length_ofFn.symm)).symm
  · intro whole
    apply Text.ext
    have all : path.chars.takeWhile (· ≠ 0) = path.chars :=
      List.takeWhile_eq_self_iff.mpr fun c member => decide_eq_true (path.noNul c member)
    exact (congrArg (List.takeWhile (· ≠ 0)) whole).trans all

/-- A path of eleven characters is spelled by the slots of that name. -/
theorem spells_full (inside : i < maximumEntries) (full : path.chars.length = 11) :
    Spells entries path i ↔ (entries i).nameText = path := by
  rw [nameText_full full]
  have ptr : ∀ k, ∀ h : k < path.chars.length, path.ptr k = path.chars[k] :=
    fun k h => List.getD_eq_getElem _ 0 h
  constructor
  · intro spells
    refine List.ext_getElem (List.length_ofFn.trans full.symm) fun k h h' => ?_
    have low : k < 11 := Nat.lt_of_lt_of_eq h' full
    have offset : k % sizeofVdEntry < 11 := by
      rw [Nat.mod_eq_of_lt (Nat.lt_trans low (by decide))]
      exact low
    have here := spells k (Nat.le_of_lt h') (Or.inl offset)
    rw [namePtr_name entries i low, ptr k h'] at here
    rw [List.getElem_ofFn]
    exact here
  · intro whole k bound here
    rw [full] at bound
    have slot : k / sizeofVdEntry = 0 := Nat.div_eq_of_lt (Nat.lt_of_le_of_lt bound (by decide))
    have offset : k % sizeofVdEntry = k := Nat.mod_eq_of_lt (Nat.lt_of_le_of_lt bound (by decide))
    have low : k < 11 := by
      rcases here with name | behind
      · rw [offset] at name
        exact name
      · rw [slot] at behind
        exact absurd inside (Nat.not_lt.mpr behind)
    have stored : (List.ofFn (entries i).name)[k]? = path.chars[k]? := by rw [whole]
    rw [List.getElem?_eq_getElem (by rw [List.length_ofFn]; exact low), List.getElem_ofFn,
      List.getElem?_eq_getElem (full ▸ low)] at stored
    rw [namePtr_name entries i low, ptr k (full ▸ low)]
    exact Option.some.inj stored

theorem nameText_short (e : VdEntry) : e.nameText.chars.length ≤ 11 := by
  have part : e.nameText.chars <+: List.ofFn e.name := List.takeWhile_prefix _
  exact Nat.le_trans part.length_le (Nat.le_of_eq List.length_ofFn)

end Bytes

section Others

/-- The table with every attribute byte set to 1. -/
def hiddenName (entries : Nat → VdEntry) (j : Nat) : VdEntry :=
  if j < maximumEntries then { entries j with attributes := 1 } else entries j

/-- The table whose other fields from slot `i` on spell the path. -/
def spilled (entries : Nat → VdEntry) (path : Text) (i j : Nat) : VdEntry :=
  if j < maximumEntries then
    { ofPtr (path.ptr.advance (sizeofVdEntry * (j - i))) with name := (entries j).name }
  else entries j

variable {entries : Nat → VdEntry} {path : Text} {i : Nat}

theorem marked_sameNames : SameNames entries (hiddenName entries) where
  names j inside := by rw [hiddenName, if_pos inside]
  behind j beyond := if_neg (Nat.not_lt.mpr beyond)

theorem spilled_sameNames : SameNames entries (spilled entries path i) where
  names j inside := by rw [spilled, if_pos inside]
  behind j beyond := if_neg (Nat.not_lt.mpr beyond)

theorem marked_differs (inside : i < maximumEntries) (full : path.chars.length = 11) :
    strcmpText (namePtr (hiddenName entries) i) path ≠ some 0 := by
  intro equal
  rw [strcmpText_eq_zero, holdsString_iff_ptr] at equal
  have behind := equal 11 (Nat.le_of_eq full.symm)
  have field : namePtr (hiddenName entries) i 11 = 1 := by
    change (hiddenName entries i).byte 11 = 1
    rw [hiddenName, if_pos inside]
    rfl
  rw [field, Text.ptr, List.getD_eq_default _ _ (Nat.le_of_eq full)] at behind
  exact absurd behind (by decide)

theorem spilled_equal (spells : Spells entries path i) :
    strcmpText (namePtr (spilled entries path i) i) path = some 0 := by
  rw [strcmpText_eq_zero, holdsString_iff_ptr]
  intro k bound
  by_cases here : NameByte i k
  · rw [spilled_sameNames.namePtr here]
    exact spells k bound here
  · have inside : i + k / sizeofVdEntry < maximumEntries :=
      Nat.lt_of_not_le fun beyond => here (Or.inr beyond)
    have behind : 11 ≤ k % sizeofVdEntry := Nat.le_of_not_lt fun name => here (Or.inl name)
    have place : sizeofVdEntry * (k / sizeofVdEntry) + k % sizeofVdEntry = k :=
      Nat.div_add_mod k sizeofVdEntry
    rw [VDK.namePtr, spilled, if_pos inside, byte_renamed _ _ behind,
      byte_ofPtr _ (Nat.mod_lt k (by decide)), Nat.add_sub_cancel_left, Ptr.advance, place]

end Others

section Lookup

variable {entries : Nat → VdEntry} {path : Text}

/-- Short paths are compared inside the name field. -/
theorem openedSlot_short (short : path.chars.length < 11) (entries : Nat → VdEntry) :
    openedSlot entries path = namedSlot entries path :=
  firstIndex_congr fun i _ => by
    rw [decide_eq_decide]
    exact namePtr_holds (Or.inr short)

theorem namedSlot_congr {other : Nat → VdEntry} (same : SameNames entries other) :
    namedSlot other path = namedSlot entries path :=
  firstIndex_congr fun i inside => by rw [same.nameText inside]

theorem openedSlot_none (none : ∀ i, i < maximumEntries → ¬Spells entries path i) :
    openedSlot entries path = .none :=
  firstIndex_eq_none.mpr fun i inside =>
    decide_eq_false fun equal => none i inside (spells_of_equal equal)

theorem namedSlot_none (long : ¬path.chars.length < 11)
    (none : ∀ i, i < maximumEntries → ¬Spells entries path i) :
    namedSlot entries path = .none := by
  refine firstIndex_eq_none.mpr fun i inside => decide_eq_false fun named => ?_
  have bound := nameText_short (entries i)
  rw [named] at bound
  have full : path.chars.length = 11 := by omega
  exact none i inside ((spells_full inside full).mpr named)

/-- A lookup depends on the names only if and only if the path has at most ten characters
or is spelled from no slot. -/
theorem lookup_by_name_iff (entries : Nat → VdEntry) (path : Text) :
    ByName entries path ↔
      path.chars.length < 11 ∨ ∀ i, i < maximumEntries → ¬Spells entries path i := by
  constructor
  · intro byName
    by_cases short : path.chars.length < 11
    · exact Or.inl short
    refine Or.inr fun i inside spells => ?_
    by_cases full : path.chars.length = 11
    · -- the eleven characters are a name, and another attribute byte hides it
      have hidden : openedSlot (hiddenName entries) path = none :=
        firstIndex_eq_none.mpr fun j below => decide_eq_false (marked_differs below full)
      have named := (spells_full inside full).mp spells
      rw [byName.blind _ marked_sameNames, byName.first] at hidden
      exact of_decide_eq_false (firstIndex_eq_none.mp hidden i inside) named
    · -- a longer path is no name, and other fields can make it one
      have none : namedSlot entries path = none := by
        refine firstIndex_eq_none.mpr fun j _ => decide_eq_false fun named => ?_
        have bound := nameText_short (entries j)
        rw [named] at bound
        omega
      have missed : openedSlot (spilled entries path i) path = .none :=
        (byName.blind _ spilled_sameNames).trans (byName.first.trans none)
      exact of_decide_eq_false (firstIndex_eq_none.mp missed i inside) (spilled_equal spells)
  · intro condition
    have everywhere : ∀ other, SameNames entries other →
        openedSlot other path = namedSlot entries path := by
      intro other same
      rw [← namedSlot_congr same]
      rcases condition with short | none
      · exact openedSlot_short short other
      · by_cases short : path.chars.length < 11
        · exact openedSlot_short short other
        · have unspelled : ∀ i, i < maximumEntries → ¬Spells other path i :=
            fun i inside spells => none i inside (same.spells.mp spells)
          rw [openedSlot_none unspelled, namedSlot_none short unspelled]
    have first := everywhere entries ⟨fun _ _ => rfl, fun _ _ => rfl⟩
    refine ⟨first, fun junk => ?_, fun other same => ?_⟩
    · rw [vdOpen_slot, first]
    · rw [first]
      exact everywhere other same

/-- A name of eleven characters is missed because of an attribute. -/
theorem attribute_hides_name :
    let entries : Nat → VdEntry := fun i =>
      if i = 0 then { namedEntry "README  TXT".toList 0 1 with attributes := 0x20 } else VdEntry.zero
    let path := Text.ofChars "README  TXT".toList rfl
    (entries 0).nameText = path ∧ openedSlot entries path = none ∧ ¬ByName entries path := by
  intro entries path
  have named : (entries 0).nameText = path := by decide
  have missed : openedSlot entries path = none := by decide
  refine ⟨named, missed, fun byName => ?_⟩
  have first : namedSlot entries path = none := byName.first.symm.trans missed
  exact of_decide_eq_false (firstIndex_eq_none.mp first 0 (by decide)) named

end Lookup

end VDK
