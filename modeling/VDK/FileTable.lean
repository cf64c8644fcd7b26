import VDK.FileCalls

/-!
# The file table over runs of `VD_Write`

A proper name is a non-empty string that ends inside its field. For proper names the
table is a first-fit table whose free slots are those with an empty name, and
`VD_Open` is its lookup. The run records the state before and after every call.
-/
namespace VDK
open Fuel ByteMem FirstFit

namespace VdEntry

variable {e : VdEntry}

/-- The string in `Name`, at most all eleven bytes of it. -/
def nameText (e : VdEntry) : Text :=
  ⟨(List.ofFn e.name).takeWhile (· ≠ 0), fun c h =>
    of_decide_eq_true (List.all_eq_true.mp List.all_takeWhile c h)⟩

def Terminated (e : VdEntry) : Prop := ∃ i, e.name i = 0

structure Proper (e : VdEntry) : Prop where
  terminated : e.Terminated
  named : e.nameText ≠ Text.empty

/-- Slots with an empty name have no key. -/
def fileKey (e : VdEntry) : Option Text :=
  if e.nameText = Text.empty then none else some e.nameText

theorem fileKey_eq_none : e.fileKey = none ↔ e.nameText = Text.empty := by
  simp [fileKey]

theorem fileKey_eq_some {t : Text} (named : t ≠ Text.empty) :
    e.fileKey = some t ↔ e.nameText = t := by
  rw [fileKey]
  split
  · rename_i empty
    rw [empty]
    exact iff_of_false (fun h => nomatch h) (Ne.symm named)
  · exact Option.some_inj

theorem Proper.key (h : e.Proper) : e.fileKey = some e.nameText := if_neg h.named

theorem Proper.keyed (h : e.Proper) : e.fileKey ≠ none := by
  rw [h.key]
  exact Option.some_ne_none _

/-- A terminated name has at most ten characters. -/
theorem Terminated.short (h : e.Terminated) : e.nameText.chars.length < 11 := by
  obtain ⟨i, nul⟩ := h
  have bound : e.nameText.chars.length ≤ (List.ofFn e.name).length :=
    (List.takeWhile_sublist _).length_le
  rw [List.length_ofFn] at bound
  apply Nat.lt_of_le_of_ne bound
  intro full
  have whole : e.nameText.chars = List.ofFn e.name :=
    (List.takeWhile_sublist _).eq_of_length (full.trans List.length_ofFn.symm)
  exact e.nameText.noNul (e.name i) (whole ▸ List.mem_ofFn.mpr ⟨i, rfl⟩) nul

theorem terminated_of_free (free : e.fileKey = none) : e.Terminated := by
  have empty := congrArg Text.chars (fileKey_eq_none.mp free)
  refine ⟨0, ?_⟩
  by_contra nonzero
  have first : List.ofFn e.name = e.name 0 :: List.ofFn fun i => e.name i.succ := List.ofFn_succ
  simp only [nameText, first, ne_eq, nonzero, not_false_eq_true, decide_true,
    List.takeWhile_cons_of_pos] at empty
  cases empty

theorem byte_name (e : VdEntry) {k : Nat} (h : k < 11) : e.byte k = e.name ⟨k, h⟩ := dif_pos h

theorem zero_free : VdEntry.zero.fileKey = none := by decide

end VdEntry

open VdEntry

section Names

variable {entries : Nat → VdEntry} {path : Text}

theorem namePtr_name (entries : Nat → VdEntry) (i : Nat) {k : Nat} (h : k < 11) :
    namePtr entries i k = (entries i).name ⟨k, h⟩ := by
  have slot : i + k / sizeofVdEntry = i := by
    rw [Nat.div_eq_of_lt (Nat.lt_trans h (by decide)), Nat.add_zero]
  have offset : k % sizeofVdEntry = k := Nat.mod_eq_of_lt (Nat.lt_trans h (by decide))
  rw [namePtr, slot, offset, byte_name _ h]

/-- A slot compares equal to the string in its name field. -/
theorem namePtr_holds {i : Nat} (ends : (entries i).Terminated ∨ path.chars.length < 11) :
    strcmpText (namePtr entries i) path = some 0 ↔ (entries i).nameText = path := by
  have same : ∀ k, ∀ h : k < (List.ofFn (entries i).name).length,
      namePtr entries i k = (List.ofFn (entries i).name)[k] := by
    intro k h
    rw [List.length_ofFn] at h
    rw [namePtr_name entries i h, List.getElem_ofFn]
  have inside : 0 ∈ List.ofFn (entries i).name ∨
      path.chars.length < (List.ofFn (entries i).name).length := by
    rw [List.length_ofFn]
    refine ends.imp_left ?_
    rintro ⟨k, nul⟩
    exact List.mem_ofFn.mpr ⟨k, nul⟩
  rw [strcmpText_eq_zero, holdsString_takeWhile same inside, Text.ext_iff]
  rfl

/-- The slots that compare equal to the empty string are those without a key. -/
theorem namePtr_empty (entries : Nat → VdEntry) :
    (fun i => decide (strcmpText (namePtr entries i) Text.empty = some 0)) =
      unused fileKey entries := by
  funext i
  have short : Text.empty.chars.length < 11 := by decide
  rw [Bool.eq_iff_iff, decide_eq_true_iff, namePtr_holds (Or.inr short), unused_eq_true,
    fileKey_eq_none]

/-- The loop of `VD_Write` looks for a slot without a key. -/
theorem storeEntry_entries {σ : Type} (file : VdEntry) (s : FsState σ) :
    (storeEntry file s).entries =
      place (unused fileKey s.entries) maximumEntries s.entries file := by
  rw [← namePtr_empty]
  rfl

/-- The empty path opens the first slot without a name. -/
theorem vdOpen_empty (junk : VdEntry) {i : Nat}
    (first : firstIndex (unused fileKey entries) maximumEntries = some i) :
    vdOpen junk entries Text.empty = entries i := by
  rw [vdOpen, namePtr_empty, first]

/-- The loop of `VD_Open` is a lookup. -/
theorem vdOpen_lookup (junk : VdEntry) (named : path ≠ Text.empty)
    (ends : ∀ i, i < maximumEntries → (entries i).Terminated ∨ path.chars.length < 11) :
    vdOpen junk entries path =
      (lookup fileKey maximumEntries entries path).getD (notFoundEntry junk) := by
  have same : firstIndex (fun i => strcmpText (namePtr entries i) path = some 0) maximumEntries =
      firstIndex (fun i => fileKey (entries i) = some path) maximumEntries := by
    refine firstIndex_congr fun i hi => decide_eq_decide.mpr ?_
    rw [namePtr_holds (ends i hi), fileKey_eq_some named]
  rw [vdOpen, same, lookup]
  cases firstIndex (fun i => fileKey (entries i) = some path) maximumEntries with
  | none => rfl
  | some i => rfl

end Names

section Tables

variable {σ : Type}

/-- What `VD_Write` does to the table does not depend on the drive. -/
theorem vdWrite_entries {hw : Bus σ} {fuel : Nat} {L : Locals} {file : VdEntry} {s t : FsState σ}
    {b : Bool} (returned : (vdWrite hw fuel L file).run s = (some b, t)) :
    t.entries = place (unused fileKey s.entries) maximumEntries s.entries file := by
  rw [vdWrite_run] at returned
  dsimp only at returned
  split at returned
  · cases returned
    exact storeEntry_entries file _
  · cases returned

theorem vdWriteData_entries {hw : Bus σ} {fuel : Nat} {L : Locals} {data : Text} {file : VdEntry}
    {s t : FsState σ} {b : Bool} (returned : (vdWriteData hw fuel L data file).run s = (some b, t)) :
    t.entries = s.entries := by
  rw [vdWriteData_run] at returned
  exact (congrArg (fun r => r.2.entries) returned).symm

/-- Slots filled with proper names, and free slots, are terminated. -/
theorem stored_terminated {files : List VdEntry} {entries : Nat → VdEntry}
    (stored : Stored fileKey maximumEntries files entries) (proper : ∀ e ∈ files, e.Proper)
    {i : Nat} (hi : i < maximumEntries) : (entries i).Terminated := by
  by_cases early : i < files.length
  · rw [stored.held i hi early]
    exact (proper _ (List.getElem_mem early)).terminated
  · exact terminated_of_free (stored.free i hi (Nat.not_lt.mp early))

/-- What `VD_Open` answers on a table of proper names. -/
theorem vdOpen_stored {files : List VdEntry} {entries : Nat → VdEntry}
    (stored : Stored fileKey maximumEntries files entries) (proper : ∀ e ∈ files, e.Proper)
    (junk : VdEntry) {path : Text} (named : path ≠ Text.empty) :
    vdOpen junk entries path = (answer fileKey maximumEntries files path).getD
      (notFoundEntry junk) := by
  rw [vdOpen_lookup junk named fun i hi => Or.inl (stored_terminated stored proper hi),
    stored.lookup]

theorem testTxt_proper : testTxt.Proper := ⟨⟨8, by decide⟩, by decide⟩

theorem lolTxt_proper : lolTxt.Proper := ⟨⟨7, by decide⟩, by decide⟩

end Tables

end VDK
