import VDK.MountedDrive

/-!
# Files seen from each other

Nothing in `fs.c` records or checks which sectors a file owns: the caller chooses
`FirstSector`. What a caller can see of a file is the entry at its first sector and
the string from its data sector. Both survive every later write that goes to
another sector, and a write to one of the two sectors need not leave them alone.
-/
namespace VDK
open Fuel ByteMem FirstFit VdEntry

inductive FileWrite where
  | entry (file : VdEntry)
  | data (text : Text) (file : VdEntry)

namespace FileWrite

def file : FileWrite → VdEntry
  | .entry file => file
  | .data _ file => file

def sector : FileWrite → UInt32
  | .entry file => file.firstSector
  | .data _ file => file.firstSector + 1

/-- In a drive too small for the wrap, no write goes to the sector at the wrap. -/
theorem plain {size : Nat} (small : size < 0xFFFFFFFF) {op : FileWrite}
    (inRange : op.file.firstSector.toNat < size) : op.sector ≠ 0xFFFFFFFF := by
  intro wrap
  have number := congrArg UInt32.toNat wrap
  have one : (1 : UInt32).toNat = 1 := rfl
  have top : (0xFFFFFFFF : UInt32).toNat = 4294967295 := rfl
  cases op with
  | entry file =>
      simp only [sector, top] at number
      exact absurd (show file.firstSector.toNat < size from inRange) (by omega)
  | data text file =>
      simp only [sector, UInt32.toNat_add, one, top] at number
      exact absurd (show file.firstSector.toNat < size from inRange) (by omega)

def registered : List FileWrite → List VdEntry
  | [] => []
  | .entry file :: ops => file :: registered ops
  | .data _ _ :: ops => registered ops

theorem mem_registered {ops : List FileWrite} {e : VdEntry} :
    e ∈ registered ops ↔ .entry e ∈ ops := by
  induction ops with
  | nil => simp [registered]
  | cons op ops ih =>
      cases op with
      | entry file => simp [registered, ih]
      | data text file => simp [registered, ih]

end FileWrite

open FileWrite

/-- Calls in order, each of which returned true. -/
inductive Writes {σ : Type} (hw : Bus σ) : FsState σ → List FileWrite → FsState σ → Prop
  | done {s : FsState σ} : Writes hw s [] s
  | entry {s t u : FsState σ} {L : Locals} {file : VdEntry} {ops : List FileWrite}
      (call : Settles (fun fuel => vdWrite hw fuel L file) s true t) (rest : Writes hw t ops u) :
      Writes hw s (.entry file :: ops) u
  | data {s t u : FsState σ} {L : Locals} {text : Text} {file : VdEntry} {ops : List FileWrite}
      (call : Settles (fun fuel => vdWriteData hw fuel L text file) s true t)
      (rest : Writes hw t ops u) : Writes hw s (.data text file :: ops) u

/-- A sector that no write names is kept by the first write and by the others. -/
theorem kept_behind {E D : Disk} {size : Nat} {ops : List FileWrite} {x : Sector} (op : FileWrite)
    (same : ∀ lba, (∀ o ∈ ops, lba ≠ o.sector.toNat) →
      Disk.get E size lba = Disk.get (D.put size op.sector.toNat x) size lba) (lba : Nat)
    (apart : ∀ o ∈ op :: ops, lba ≠ o.sector.toNat) : Disk.get E size lba = Disk.get D size lba := by
  rw [same lba fun o member => apart o (List.mem_cons_of_mem op member)]
  exact Disk.get_put_of_ne (apart op List.mem_cons_self) x

section Disk

variable {σ : Type} {hw : Bus σ} {drive : UInt8} {Rep : IdeState σ → Disk → Prop} {size : Nat}
  (W : WorkingDrive hw drive Rep) {s t : FsState σ} {D : Disk} {ops : List FileWrite}

include W

theorem Writes.disk (writes : Writes hw s ops t) (m : Mounted Rep drive size s D)
    (small : size < 0xFFFFFFFF) (inRange : ∀ op ∈ ops, op.file.firstSector.toNat < size) :
    ∃ E, Mounted Rep drive size t E ∧ ∀ lba, (∀ op ∈ ops, lba ≠ op.sector.toNat) →
      Disk.get E size lba = Disk.get D size lba := by
  induction writes generalizing D with
  | done => exact ⟨D, m, fun _ _ => rfl⟩
  | @entry s t u L file ops call rest ih =>
      have here := plain small (inRange _ List.mem_cons_self)
      obtain ⟨v, expected, there, _⟩ := m.settles_vdWrite W L here
      obtain ⟨_, rfl⟩ := call.unique expected
      obtain ⟨E, last, same⟩ := ih there fun op hop => inRange op (List.mem_cons_of_mem _ hop)
      exact ⟨E, last, kept_behind (.entry file) same⟩
  | @data s t u L text file ops call rest ih =>
      have here := plain small (inRange _ List.mem_cons_self)
      obtain ⟨v, expected, there, _⟩ := m.settles_vdWriteData W L here text
      obtain ⟨_, rfl⟩ := call.unique expected
      obtain ⟨E, last, same⟩ := ih there fun op hop => inRange op (List.mem_cons_of_mem _ hop)
      exact ⟨E, last, kept_behind (.data text file) same⟩

end Disk

section Table

variable {σ : Type} {hw : Bus σ} {s t : FsState σ} {ops : List FileWrite} {B : VdEntry}
  {files : List VdEntry}

theorem Writes.kept (writes : Writes hw s ops t) {i : Nat}
    (used : ∀ j, j ≤ i → fileKey (s.entries j) ≠ none) :
    ∀ j, j ≤ i → t.entries j = s.entries j := by
  induction writes with
  | done => exact fun _ _ => rfl
  | @entry s t u L file ops call rest ih =>
      obtain ⟨N, returned⟩ := call
      have same : ∀ j, j ≤ i → t.entries j = s.entries j := by
        intro j hj
        rw [vdWrite_entries (returned N (Nat.le_refl N))]
        exact place_keeps (fun k hk => used k (Nat.le_trans hk hj)) file
      intro j hj
      rw [ih (fun k hk => by rw [same k hk]; exact used k hk) j hj, same j hj]
  | @data s t u L text file ops call rest ih =>
      obtain ⟨N, returned⟩ := call
      have same := vdWriteData_entries (returned N (Nat.le_refl N))
      rw [← same] at used ⊢
      exact ih used

/-- Slots are zero or registered, and where `B` stands every earlier slot is used, under
another name. -/
structure Tabled (B : VdEntry) (files : List VdEntry) (entries : Nat → VdEntry) : Prop where
  known : ∀ i, i < maximumEntries → entries i = VdEntry.zero ∨ entries i ∈ files
  before : ∀ i, i < maximumEntries → entries i = B → ∀ j, j < i →
    fileKey (entries j) ≠ none ∧ fileKey (entries j) ≠ some B.nameText

theorem Tabled.place {entries : Nat → VdEntry} (h : Tabled B files entries) (proper : B.Proper)
    {file : VdEntry} (names : ∀ e ∈ files, e.nameText ≠ file.nameText) :
    Tabled B (files ++ [file])
      (place (unused fileKey entries) maximumEntries entries file) := by
  constructor
  · intro i hi
    rcases place_apply (unused fileKey entries) maximumEntries entries file i with same | new
    · rw [same]
      exact (h.known i hi).imp_right (List.mem_append_left _)
    · rw [new]
      exact Or.inr (List.mem_append_right _ (List.mem_singleton_self _))
  · intro i hi here j hj
    by_cases same : FirstFit.place (unused fileKey entries) maximumEntries entries file i = entries i
    · have there : entries i = B := same.symm.trans here
      have earlier := h.before i hi there j hj
      have used : ∀ k, k ≤ j → fileKey (entries k) ≠ none :=
        fun k hk => (h.before i hi there k (Nat.lt_of_le_of_lt hk hj)).1
      rw [place_keeps used file]
      exact earlier
    · obtain ⟨new, used⟩ := place_changed same
      obtain rfl : B = file := here.symm.trans new
      rw [place_keeps (fun k hk => used k (Nat.lt_of_le_of_lt hk hj)) B]
      refine ⟨used j hj, fun key => ?_⟩
      rcases h.known j (Nat.lt_trans hj hi) with zero | old
      · rw [zero, zero_free] at key
        cases key
      · exact names _ old ((fileKey_eq_some proper.named).mp key)

theorem Writes.tabled (writes : Writes hw s ops t) (h : Tabled B files s.entries)
    (proper : B.Proper)
    (names : (files ++ registered ops).Pairwise fun a b => a.nameText ≠ b.nameText) :
    Tabled B (files ++ registered ops) t.entries := by
  induction writes generalizing files with
  | done => simpa [registered] using h
  | @entry s t u L file ops call rest ih =>
      obtain ⟨N, returned⟩ := call
      have split : files ++ registered (.entry file :: ops) =
          files ++ [file] ++ registered ops := by simp [registered]
      rw [split] at names ⊢
      refine ih ?_ names
      rw [vdWrite_entries (returned N (Nat.le_refl N))]
      have fresh := (List.pairwise_append.mp (List.pairwise_append.mp names).1).2.2
      exact h.place proper fun e he => fresh e he file (List.mem_singleton_self file)
  | @data s t u L text file ops call rest ih =>
      obtain ⟨N, returned⟩ := call
      rw [← vdWriteData_entries (returned N (Nat.le_refl N))] at h
      exact ih h names

/-- A proper file in the table is what its name opens, now and after any later writes. -/
theorem Tabled.opens (h : Tabled B files s.entries) (proper : B.Proper) {i : Nat}
    (hi : i < maximumEntries) (here : s.entries i = B) (later : Writes hw s ops t)
    (junk : VdEntry) : vdOpen junk t.entries B.nameText = B := by
  have used : ∀ j, j ≤ i → fileKey (s.entries j) ≠ none := by
    intro j hj
    rcases Nat.lt_or_eq_of_le hj with lt | rfl
    · exact (h.before i hi here j lt).1
    · rw [here]
      exact proper.keyed
  have kept := later.kept used
  have own : fileKey (t.entries i) = some B.nameText := by
    rw [kept i (Nat.le_refl i), here]
    exact proper.key
  have before : ∀ j, j < i → fileKey (t.entries j) ≠ some B.nameText := by
    intro j hj
    rw [kept j (Nat.le_of_lt hj)]
    exact (h.before i hi here j hj).2
  rw [vdOpen_lookup junk proper.named fun _ _ => Or.inr proper.terminated.short,
    lookup_eq_some hi own before, Option.getD_some, kept i (Nat.le_refl i), here]

end Table

section Isolation

variable {σ : Type} {hw : Bus σ} {drive : UInt8} {Rep : IdeState σ → Disk → Prop} {size : Nat}
  (W : WorkingDrive hw drive Rep) {s₀ s t : FsState σ} {D : Disk} {ops more : List FileWrite}
  {B : VdEntry}

include W

end Isolation

section Sample

def overlapTxt : VdEntry := namedEntry ['L', 'O', 'L', '.', 'T', 'X', 'T'] 1 2

def namelessTxt : VdEntry := namedEntry [] 0 1

theorem qemu_registers {b : VdEntry} (hb : b.firstSector ≠ 0xFFFFFFFF) (proper : b.Proper) :
    ∃ s, Writes (ataDrive 0x1F0 0 fun _ _ => 3) (qemuState 8 fun _ => Sector.blank)
        [.entry testTxt, .entry b] s ∧
      (∃ D, Mounted (OnDrive 0x1F0 0 0) 0 8 s
        (Disk.put D 8 b.firstSector.toNat (Sector.ofEntry b))) ∧ s.entries 1 = b := by
  have first : testTxt.firstSector ≠ 0xFFFFFFFF := by decide
  obtain ⟨t, one, mounted, table⟩ := (qemu_mounted 8 fun _ => Sector.blank).settles_vdWrite
    qemu_working sampleLocals first
  obtain ⟨s, two, there, table'⟩ := mounted.settles_vdWrite qemu_working sampleLocals hb
  refine ⟨s, .entry one (.entry two .done), ⟨_, there⟩, ?_⟩
  have zeroed : Stored fileKey maximumEntries [] (qemuState 8 fun _ => Sector.blank).entries :=
    Stored.nil fun _ _ => zero_free
  have stored := (zeroed.place testTxt_proper.keyed).place proper.keyed
  rw [← table, ← table'] at stored
  exact stored.held 1 (by decide) (Nat.lt_succ_self 1)

/-- Writing to a file replaces the entry of another one that lies right behind it. -/
theorem vdWriteData_replaces_entry :
    ∃ s t u v e, Writes (ataDrive 0x1F0 0 fun _ _ => 3) (qemuState 8 fun _ => Sector.blank)
        [.entry testTxt, .entry overlapTxt] s ∧
      Writes (ataDrive 0x1F0 0 fun _ _ => 3) s [.data hello testTxt] t ∧
      Settles (fun fuel => vdRead (ataDrive 0x1F0 0 fun _ _ => 3) fuel sampleLocals 2) s overlapTxt u ∧
      Settles (fun fuel => vdRead (ataDrive 0x1F0 0 fun _ _ => 3) fuel sampleLocals 2) t e v ∧
      e ≠ overlapTxt := by
  have proper : overlapTxt.Proper := ⟨⟨7, by decide⟩, by decide⟩
  obtain ⟨s, earlier, ⟨D, mounted⟩, held⟩ := qemu_registers (by decide) proper
  have plain : testTxt.firstSector + 1 ≠ 0xFFFFFFFF := by decide
  have sector : (2 : UInt32) ≠ 0xFFFFFFFF := by decide
  obtain ⟨t, written, there, _⟩ :=
    mounted.settles_vdWriteData qemu_working sampleLocals plain hello
  obtain ⟨u, first, _⟩ := mounted.settles_vdRead qemu_working sampleLocals sector
  obtain ⟨v, second, _⟩ := there.settles_vdRead qemu_working sampleLocals sector
  have short : hello.chars.length < 512 := by decide
  have two : (2 : UInt32).toNat = 2 ∧ overlapTxt.firstSector.toNat = 2 ∧
      (testTxt.firstSector + 1).toNat = 2 := by decide
  rw [two.2.1, two.1, Disk.get_put_self (by decide), Sector.entry_ofEntry] at first
  rw [two.2.2, two.1, Disk.get_put_self (by decide), dataSector_short _ _ _ short] at second
  refine ⟨s, t, u, v, _, earlier, .data written .done, first, second, fun same => ?_⟩
  have byte : (Sector.ofText hello short).entry.name 0 = overlapTxt.name 0 := by rw [same]
  have read : (Sector.ofText hello short).entry.name 0 = (Sector.ofText hello short).ptr 0 := rfl
  rw [read, Sector.ofText, Sector.padded_ptr] at byte
  exact absurd byte (by decide)

/-- The slot of a file without a name is taken by the next file, and its string is lost. -/
theorem vdWrite_replaces_nameless :
    ∃ s t u v, Writes (ataDrive 0x1F0 0 fun _ _ => 3) (qemuState 8 fun _ => Sector.blank)
        [.entry namelessTxt, .data hello namelessTxt] s ∧
      Writes (ataDrive 0x1F0 0 fun _ _ => 3) s [.entry lolTxt] t ∧
      Settles (fun fuel => vdReadData (ataDrive 0x1F0 0 fun _ _ => 3) fuel sampleLocals Text.empty) s
        (hello.chars ++ [0]) u ∧
      Settles (fun fuel => vdReadData (ataDrive 0x1F0 0 fun _ _ => 3) fuel sampleLocals Text.empty) t
        [0] v := by
  have short : hello.chars.length < 512 := by decide
  have numbers : namelessTxt.firstSector.toNat = 1 ∧ (namelessTxt.firstSector + 1).toNat = 2 ∧
      lolTxt.firstSector.toNat = 3 ∧ (VdEntry.zero.firstSector + 1).toNat = 1 := by decide
  obtain ⟨r, one, mounted, table⟩ := (qemu_mounted 8 fun _ => Sector.blank).settles_vdWrite
    qemu_working sampleLocals (by decide : namelessTxt.firstSector ≠ 0xFFFFFFFF)
  obtain ⟨s, two, there, table'⟩ := mounted.settles_vdWriteData qemu_working sampleLocals
    (by decide : namelessTxt.firstSector + 1 ≠ 0xFFFFFFFF) hello
  obtain ⟨t, three, last, table''⟩ := there.settles_vdWrite qemu_working sampleLocals
    (by decide : lolTxt.firstSector ≠ 0xFFFFFFFF)
  -- Both entries go to slot 0, the second because the first left no name there.
  have free : firstIndex (unused fileKey (qemuState 8 fun _ => Sector.blank).entries)
      maximumEntries = some 0 :=
    firstIndex_eq_some.mpr ⟨by decide, by decide, fun _ h => nomatch h⟩
  have slots : s.entries = Function.update (fun _ => VdEntry.zero) 0 namelessTxt := by
    rw [table', table, place_some free]
    rfl
  have again : firstIndex (unused fileKey s.entries) maximumEntries = some 0 := by
    rw [slots]
    exact firstIndex_eq_some.mpr ⟨by decide, by decide, fun _ h => nomatch h⟩
  have slots' : t.entries = Function.update (fun _ => VdEntry.zero) 0 lolTxt := by
    rw [table'', place_some again, slots, Function.update_idem]
  have next : firstIndex (unused fileKey t.entries) maximumEntries = some 1 := by
    rw [slots']
    refine firstIndex_eq_some.mpr ⟨by decide, by decide, fun j hj => ?_⟩
    rw [Nat.lt_one_iff.mp hj]
    decide
  have opened : vdOpen sampleLocals.notFound s.entries Text.empty = namelessTxt := by
    rw [vdOpen_empty _ again, slots, Function.update_self]
  have reopened : vdOpen sampleLocals.notFound t.entries Text.empty = VdEntry.zero := by
    rw [vdOpen_empty _ next, slots']
    rfl
  have plain : (vdOpen sampleLocals.notFound s.entries Text.empty).firstSector + 1 ≠ 0xFFFFFFFF := by
    rw [opened]
    decide
  have plain' : (vdOpen sampleLocals.notFound t.entries Text.empty).firstSector + 1 ≠ 0xFFFFFFFF := by
    rw [reopened]
    decide
  obtain ⟨u, first⟩ := there.settles_vdReadData qemu_working sampleLocals plain (by
    rw [opened, numbers.2.1, Disk.get_put_self (by decide), dataSector_short _ _ _ short]
    exact Sector.ofText_holds hello short) short
  have nothing : ([] : List UInt8).length < 512 := by decide
  obtain ⟨v, second⟩ := last.settles_vdReadData qemu_working sampleLocals plain' (by
    rw [reopened, numbers.2.2.2, numbers.2.2.1, Disk.get_put_of_ne (by decide), numbers.2.1,
      Disk.get_put_of_ne (by decide), numbers.1, Disk.get_put_self (by decide)]
    rw [HoldsString, Sector.ofEntry, Sector.padded_ptr]
    decide) nothing
  exact ⟨s, t, u, v, .entry one (.data two .done), .entry three .done, first, second⟩

end Sample

end VDK
