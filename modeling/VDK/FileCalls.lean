import VDK.FileSystem
import VDK.SectorRuns

/-!
# One call of the file system at a time

Each of the four calls fills a buffer, makes one driver call and finishes without
looking at what the driver returned. The equations below say so once; whatever is
proved about the file system goes through them.
-/
namespace VDK
open Fuel ByteMem FirstFit

theorem strcpyText_eq (t : Text) : strcpyText t = t.chars ++ [0] := by
  rw [strcpyText, strcpy_holds t.holds (Nat.lt_succ_self _), Option.getD_some]

section Buffers

variable {σ : Type} (L : Locals)

/-- The driver's state with the entry in `buf`, as `VD_Write` leaves it for the driver. -/
def entryBuffered (file : VdEntry) (s : FsState σ) : IdeState σ :=
  (updateMem (fun m => memcpy m L.buf file.byte sizeofVdEntry) (clearBuffer L s)).ide

/-- The driver's state with the string in `buf`, as `VD_WriteData` leaves it. -/
def dataBuffered (data : Text) (s : FsState σ) : IdeState σ :=
  (updateMem (fun m => m.write L.buf (strcpyText data)) (clearBuffer L s)).ide

theorem updateMem_eq (f : Mem → Mem) (s : FsState σ) :
    updateMem f s = { s with ide := { s.ide with mem := f s.ide.mem } } := rfl

@[simp] theorem updateMem_entries (f : Mem → Mem) (s : FsState σ) :
    (updateMem f s).entries = s.entries := rfl

@[simp] theorem clearBuffer_entries (s : FsState σ) : (clearBuffer L s).entries = s.entries := by
  rw [clearBuffer, updateMem_entries]

@[simp] theorem updateMem_devices (f : Mem → Mem) (s : FsState σ) :
    (updateMem f s).ide.devices = s.ide.devices := rfl

@[simp] theorem clearBuffer_devices (s : FsState σ) :
    (clearBuffer L s).ide.devices = s.ide.devices := by
  rw [clearBuffer, updateMem_devices]

theorem clearBuffer_mem (s : FsState σ) :
    (clearBuffer L s).ide.mem = s.ide.mem.write L.buf (List.replicate ataSectorSize 0) := by
  rw [clearBuffer, updateMem_eq]
  dsimp only
  rw [memset_eq_write]

/-- Filling a buffer changes memory and nothing else. -/
theorem clearBuffer_ide (s : FsState σ) : ∃ m, (clearBuffer L s).ide = { s.ide with mem := m } :=
  ⟨_, by rw [clearBuffer, updateMem_eq]⟩

theorem dataBuffered_ide (data : Text) (s : FsState σ) :
    ∃ m, dataBuffered L data s = { s.ide with mem := m } := by
  obtain ⟨m, cleared⟩ := clearBuffer_ide L s
  exact ⟨_, by rw [dataBuffered, updateMem_eq, cleared]⟩

end Buffers

section Calls

variable {σ : Type} (hw : Bus σ) (fuel : Nat) (L : Locals) (s : FsState σ)

theorem onIde_run {α : Type} (c : Exec (IdeState σ) α) :
    (onIde c).run s = ((c.run s.ide).1, { s with ide := (c.run s.ide).2 }) := rfl

theorem vdWrite_run (file : VdEntry) :
    (vdWrite hw fuel L file).run s =
      let r := (ideWriteSectors hw fuel L.err (fsDrive s.ide.devices) 1 file.firstSector L.buf).run
        (entryBuffered L file s)
      match r.1 with
      | some _ => (some true, storeEntry file { s with ide := r.2 })
      | none => (none, { s with ide := r.2 }) := by
  simp only [vdWrite, Exec.run_bind, Exec.run_get, Exec.run_modify, Exec.andThen_some, onIde_run,
    UInt32.zero_add, updateMem_entries, clearBuffer_entries, entryBuffered]
  rcases (ideWriteSectors hw fuel L.err (fsDrive s.ide.devices) 1 file.firstSector L.buf).run
    (updateMem (fun m => memcpy m L.buf file.byte sizeofVdEntry) (clearBuffer L s)).ide
    with ⟨code | code, t⟩
  · rfl
  · rfl

theorem vdWriteData_run (data : Text) (file : VdEntry) :
    (vdWriteData hw fuel L data file).run s =
      let r := (ideWriteSectors hw fuel L.err (fsDrive s.ide.devices) 1 (file.firstSector + 1)
        L.buf).run (dataBuffered L data s)
      (r.1.map fun _ => true, { s with ide := r.2 }) := by
  simp only [vdWriteData, Exec.run_bind, Exec.run_get, Exec.run_modify, Exec.andThen_some,
    onIde_run, UInt32.zero_add, updateMem_entries, clearBuffer_entries, dataBuffered]
  rcases (ideWriteSectors hw fuel L.err (fsDrive s.ide.devices) 1 (file.firstSector + 1) L.buf).run
    (updateMem (fun m => m.write L.buf (strcpyText data)) (clearBuffer L s)).ide
    with ⟨code | code, t⟩
  · rfl
  · rfl

theorem vdRead_run (sector : UInt32) :
    (vdRead hw fuel L sector).run s =
      let r := (ideReadSectors hw fuel L.err (fsDrive s.ide.devices) 1 sector L.buf).run
        (clearBuffer L s).ide
      (r.1.map fun _ => VdEntry.ofPtr (r.2.mem.view L.buf), { s with ide := r.2 }) := by
  simp only [vdRead, Exec.run_bind, Exec.run_get, Exec.run_modify, Exec.andThen_some, onIde_run,
    UInt32.zero_add, clearBuffer_entries]
  rcases (ideReadSectors hw fuel L.err (fsDrive s.ide.devices) 1 sector L.buf).run
    (clearBuffer L s).ide with ⟨code | code, t⟩
  · rfl
  · rfl

theorem vdReadData_run (path : Text) :
    (vdReadData hw fuel L path).run s =
      let r := (ideReadSectors hw fuel L.err (fsDrive s.ide.devices) 1
        ((vdOpen L.notFound s.entries path).firstSector + 1) L.buf).run (clearBuffer L s).ide
      (r.1.bind fun _ => strcpy fuel (r.2.mem.view L.buf), { s with ide := r.2 }) := by
  simp only [vdReadData, Exec.run_bind, Exec.run_get, Exec.run_modify, Exec.andThen_some,
    onIde_run, UInt32.zero_add, clearBuffer_entries]
  rcases (ideReadSectors hw fuel L.err (fsDrive s.ide.devices) 1
      ((vdOpen L.notFound s.entries path).firstSector + 1) L.buf).run (clearBuffer L s).ide
    with ⟨code | code, t⟩
  · rfl
  · simp only [Exec.andThen_some, Exec.run_get, Exec.run_bind, Option.bind_some]
    cases copied : strcpy fuel (t.mem.view L.buf) with
    | none => rfl
    | some out => rfl

end Calls

section Failure

variable {σ : Type} (hw : Bus σ) (fuel : Nat) (L : Locals)

/-- How a write that did not happen should end. -/
def FailsCleanly (s : FsState σ) (r : Option Bool × FsState σ) : Prop :=
  r.1 = some false ∧ r.2.entries = s.entries

/-- Whatever code other than 0 the driver returns, both writes end as if they had been done. -/
theorem vdWrite_never_fails (file : VdEntry) (data : Text) (s : FsState σ) :
    (∀ code t, (ideWriteSectors hw fuel L.err (fsDrive s.ide.devices) 1 file.firstSector L.buf).run
        (entryBuffered L file s) = (some code, t) → code ≠ 0 →
      (vdWrite hw fuel L file).run s = (some true, storeEntry file { s with ide := t }) ∧
        ¬ FailsCleanly s ((vdWrite hw fuel L file).run s)) ∧
    (∀ code t, (ideWriteSectors hw fuel L.err (fsDrive s.ide.devices) 1 (file.firstSector + 1)
        L.buf).run (dataBuffered L data s) = (some code, t) → code ≠ 0 →
      (vdWriteData hw fuel L data file).run s = (some true, { s with ide := t }) ∧
        ¬ FailsCleanly s ((vdWriteData hw fuel L data file).run s)) := by
  constructor
  · intro code t failed _
    have run := vdWrite_run hw fuel L s file
    simp only [failed] at run
    refine ⟨run, ?_⟩
    rintro ⟨result, _⟩
    rw [run] at result
    cases result
  · intro code t failed _
    have run := vdWriteData_run hw fuel L s data file
    simp only [failed, Option.map_some] at run
    refine ⟨run, ?_⟩
    rintro ⟨result, _⟩
    rw [run] at result
    cases result

/-- An entry with the given name, written out with zero bytes. -/
def namedEntry (name : List Char) (position firstSector : UInt32) : VdEntry where
  name i := (name.map Char.toUInt8).getD i 0
  attributes := 0
  isDirectory := 0
  pad _ := 0
  position := position
  firstSector := firstSector

/-- The first entry of `kmain`. -/
def testTxt : VdEntry := namedEntry ['T', 'E', 'S', 'T', '.', 'T', 'X', 'T'] 0 1

/-- The second entry of `kmain`. -/
def lolTxt : VdEntry := namedEntry ['L', 'O', 'L', '.', 'T', 'X', 'T'] 1 3

def hello : Text := Text.ofChars ['H', 'e', 'l', 'l', 'o'] rfl

/-- The zeroed table on a machine without drives. -/
def driveless : FsState Unit where
  ide := foundState () noDevice
  entries _ := VdEntry.zero

def sampleLocals : Locals := ⟨0x1000, 0, VdEntry.zero⟩

theorem driveless_refuses (direction : Direction) (lba : UInt32) (s : IdeState Unit) :
    ∃ code t, code ≠ 0 ∧ t.mem = s.mem ∧ ∀ fuel,
      (ideSectors (steadyBus 0) fuel direction 0 (fsDrive driveless.ide.devices) 1 lba 0x1000).run
        s = (some code, t) := by
  have index : fsDrive driveless.ide.devices = 255 := by decide
  have refused : sectorCheck s.devices 255 1 lba ≠ .passed := by
    rw [sectorCheck, if_pos (Or.inl (by decide))]
    decide
  rw [index]
  obtain ⟨code, calls, negative, run⟩ := ideSectors_refused (steadyBus 0) direction refused
  exact ⟨code, { s with printed := s.printed ++ calls }, Int.ne_of_lt negative, rfl, run⟩

theorem vdWrite_never_fails_driveless :
    ∃ t, (vdWrite (steadyBus 0) 1 sampleLocals testTxt).run driveless =
      (some true, storeEntry testTxt { driveless with ide := t }) := by
  obtain ⟨code, t, nonzero, _, failed⟩ := driveless_refuses .write 1
    (entryBuffered sampleLocals testTxt driveless)
  exact ⟨t, ((vdWrite_never_fails (steadyBus 0) 1 sampleLocals testTxt Text.empty driveless).1 code t
    (failed 1) nonzero).1⟩

/-- Without a drive `VD_Write` returns true all the same, and the entry is in the table. -/
theorem vdWrite_hides_failure :
    ∃ code t u, (ideWriteSectors (steadyBus 0) 1 0 (fsDrive driveless.ide.devices) 1 1 0x1000).run
        (entryBuffered sampleLocals testTxt driveless) = (some code, t) ∧ code ≠ 0 ∧
      (vdWrite (steadyBus 0) 1 sampleLocals testTxt).run driveless = (some true, u) ∧
      u.entries 0 ≠ driveless.entries 0 := by
  obtain ⟨code, t, nonzero, _, refused⟩ := driveless_refuses .write 1
    (entryBuffered sampleLocals testTxt driveless)
  have failed : (ideWriteSectors (steadyBus 0) 1 0 (fsDrive driveless.ide.devices) 1 1 0x1000).run
      (entryBuffered sampleLocals testTxt driveless) = (some code, t) := refused 1
  have run := vdWrite_run (steadyBus 0) 1 sampleLocals driveless testTxt
  have sector : testTxt.firstSector = 1 := rfl
  have locals : sampleLocals.err = 0 ∧ sampleLocals.buf = 0x1000 := ⟨rfl, rfl⟩
  simp only [sector, locals.1, locals.2, failed] at run
  refine ⟨code, t, _, failed, nonzero, run, ?_⟩
  have stored : (storeEntry testTxt { driveless with ide := t }).entries 0 = testTxt := by
    have first : firstIndex (fun i => strcmpText (namePtr driveless.entries i) Text.empty = some 0)
        maximumEntries = some 0 := by decide
    rw [storeEntry]
    dsimp only
    rw [place_some first, Function.update_self]
  rw [stored]
  intro same
  have name := congrArg (fun e : VdEntry => e.name 0) same
  exact absurd name (by decide)

end Failure

end VDK
