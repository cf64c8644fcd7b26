import VDK.AccessSteps
import VDK.MountedDrive
import VDK.ShellArguments

/-!
# The copies through a sector buffer

`strcpy` goes on to the terminator of its source, whatever the sizes of the two objects
are. `VD_WriteData` copies a caller's string into a buffer of one sector, and
`VD_ReadData` copies whatever the sector holds out of one. What a copy stores shows in the
memory behind the buffer; what it reads shows in its result.
-/
namespace VDK
open Fuel ByteMem

section Copies

/-- The copy out of `src` reads nothing from index `n` on: however long it runs, bytes there
make no difference. -/
def CopyInside (n : Nat) (src : Ptr) : Prop :=
  ∀ fuel (p : Ptr), (∀ i, i < n → p i = src i) → strcpy fuel p = strcpy fuel src

theorem strcpy_congr {src p : Ptr} {k : Nat} (nul : src k = 0) (same : ∀ i, i ≤ k → p i = src i)
    (fuel : Nat) : strcpy fuel p = strcpy fuel src := by
  induction fuel generalizing src p k with
  | zero => rfl
  | succ fuel ih =>
      rw [strcpy, strcpy, same 0 (Nat.zero_le k)]
      split
      · rfl
      · rename_i nonzero
        cases k with
        | zero => exact absurd nul nonzero
        | succ k =>
            have next : (src.advance 1) k = 0 := by
              rw [Ptr.advance, Nat.add_comm]
              exact nul
            have agree : ∀ i, i ≤ k → (p.advance 1) i = (src.advance 1) i :=
              fun i inside => same (1 + i) (by omega)
            rw [ih next agree]

theorem strcpy_none {src : Ptr} {fuel : Nat} (nonzero : ∀ i, i < fuel → src i ≠ 0) :
    strcpy fuel src = none := by
  induction fuel generalizing src with
  | zero => rfl
  | succ fuel ih =>
      rw [strcpy, if_neg (nonzero 0 (Nat.succ_pos fuel)), ih, Option.map_none]
      intro i inside
      exact nonzero (1 + i) (by omega)

theorem copyInside_iff {n : Nat} {src : Ptr} : CopyInside n src ↔ ∃ k, k < n ∧ src k = 0 := by
  constructor
  · intro inside
    by_contra none
    have nonzero : ∀ i, i < n → src i ≠ 0 := fun i less nul => none ⟨i, less, nul⟩
    set filled : UInt8 → Ptr := fun c i => if i < n then src i else c with hfilled
    have agree : ∀ c i, i < n → filled c i = src i := fun c i less => if_pos less
    have behind : ∀ c, filled c n = c := fun c => if_neg (Nat.lt_irrefl n)
    -- a terminator behind the object ends the copy, another byte there does not
    have goes : strcpy (n + 1) (filled 1) = Option.none := strcpy_none fun i less => by
      rcases Nat.lt_succ_iff_lt_or_eq.mp less with before | rfl
      · rw [agree 1 i before]
        exact nonzero i before
      · rw [behind]
        decide
    obtain ⟨holds, short⟩ := heldText_holds (n := n + 1) (p := filled 0)
      ⟨n, Nat.lt_succ_self n, behind 0⟩
    have ends := strcpy_holds holds short
    rw [inside (n + 1) (filled 0) (agree 0), ← inside (n + 1) (filled 1) (agree 1), goes] at ends
    cases ends
  · rintro ⟨k, less, nul⟩ fuel p same
    exact strcpy_congr nul (fun i before => same i (Nat.lt_of_le_of_lt before less)) fuel

end Copies

section Memory

variable {σ : Type} (hw : Bus σ)

def Unstored (s t : IdeState σ) : Prop := t.mem = s.mem

instance : IsPreorder (IdeState σ) (Unstored (σ := σ)) where
  refl _ := rfl
  trans _ _ _ first second := second.trans first

theorem unstored_steps : StepsKeep hw .write Unstored where
  mask _ _ := rfl
  inb _ _ := rfl
  outb _ _ := rfl
  block _ _ s := by
    rw [Direction.block, onMachine_repOutsw]
    exact IdeState.after_mem _ _ _

theorem ideWriteSectors_mem (fuel : Nat) (err drive numSectors : UInt8) (lba buffer : UInt32)
    (s : IdeState σ) :
    ((ideWriteSectors hw fuel err drive numSectors lba buffer).run s).2.mem = s.mem := by
  have reported : ∀ e t, (idePrintError hw drive e t).2.mem = t.mem := by
    intro e t
    obtain ⟨b, tr, calls, same, _⟩ := idePrintError_reports hw drive e t
    rw [same]
    rfl
  rw [ideWriteSectors]
  by_cases passed : sectorCheck s.devices drive numSectors lba = .passed
  · by_cases ata : (s.devices drive.toNat).type = ideAta
    · have access : Unstored s ((ideAtaAccess hw fuel .write drive lba numSectors buffer).run s).2 :=
        (unstored_steps hw).access fuel drive lba numSectors buffer s
      rw [ideSectors_ata hw fuel .write passed ata]
      generalize (ideAtaAccess hw fuel .write drive lba numSectors buffer).run s = r at access ⊢
      rcases r with ⟨e | e, t⟩
      · exact access
      · exact (reported e t).trans access
    · rw [ideSectors_other hw fuel .write passed ata]
      exact reported err s
  · obtain ⟨code, calls, _, run⟩ := ideSectors_refused hw .write passed
    rw [run]

variable (fuel : Nat) (L : Locals) (data : Text) (file : VdEntry) (s : FsState σ)

/-- The memory behind `VD_WriteData`: the cleared buffer, and the string copied over it. -/
theorem vdWriteData_mem : ((vdWriteData hw fuel L data file).run s).2.ide.mem =
    (s.ide.mem.write L.buf (List.replicate ataSectorSize 0)).write L.buf (data.chars ++ [0]) := by
  rw [vdWriteData_run]
  refine (ideWriteSectors_mem hw fuel _ _ _ _ _ _).trans ?_
  rw [dataBuffered, updateMem_eq, strcpyText_eq]
  dsimp only
  rw [clearBuffer_mem]

/-- Whatever memory held, `VD_WriteData` has changed none of it behind its buffer. -/
def WritesBuffer : Prop :=
  ∀ (m : Mem) i, ataSectorSize ≤ i → i < 2 ^ 32 →
    ((vdWriteData hw fuel L data file).run (updateMem (fun _ => m) s)).2.ide.mem.view L.buf i =
      m.view L.buf i

theorem write_forgets {m m' : Mem} {a : UInt32} {bs : List UInt8} {i : Nat} (inside : i < bs.length) :
    m.write a bs (a + UInt32.ofNat i) = m'.write a bs (a + UInt32.ofNat i) := by
  have later : ∀ (bs : List UInt8) (m m' : Mem) (a x : UInt32), m x = m' x →
      m.write a bs x = m'.write a bs x := by
    intro bs
    induction bs with
    | nil => exact fun m m' a x same => same
    | cons b bs ih =>
        intro m m' a x same
        refine ih _ _ (a + 1) x ?_
        rw [Mem.set, Mem.set, same]
  induction bs generalizing m m' a i with
  | nil => exact absurd inside (Nat.not_lt_zero i)
  | cons b bs ih =>
      cases i with
      | zero =>
          refine later bs _ _ (a + 1) _ ?_
          rw [show UInt32.ofNat 0 = 0 from rfl, UInt32.add_zero, Mem.set_self, Mem.set_self]
      | succ i =>
          rw [show a + UInt32.ofNat (i + 1) = a + 1 + UInt32.ofNat i by
            rw [UInt32.add_assoc, Nat.add_comm, UInt32.ofNat_add]
            rfl]
          exact ih (Nat.lt_of_succ_lt_succ inside)

/-- `VD_WriteData` keeps to its buffer exactly for strings of at most 511 characters. -/
theorem writesBuffer_iff : WritesBuffer hw fuel L data file s ↔ data.chars.length ≤ 511 := by
  have length : (data.chars ++ [0]).length = data.chars.length + 1 := List.length_append
  have sector : (List.replicate ataSectorSize (0 : UInt8)).length = ataSectorSize :=
    List.length_replicate
  have size : ataSectorSize = 512 := rfl
  constructor
  · intro inside
    by_contra long
    have covered : ataSectorSize < (data.chars ++ [0]).length := by
      rw [length]
      omega
    -- two memories that differ behind the buffer end alike
    have kept := fun m => (congrFun (vdWriteData_mem hw fuel L data file (updateMem (fun _ => m) s))
      (L.buf + UInt32.ofNat ataSectorSize)).symm.trans
        (inside m ataSectorSize (Nat.le_refl _) (by decide))
    have same := (kept fun _ => 0).symm.trans ((write_forgets covered).trans (kept fun _ => 1))
    exact absurd (show (0 : UInt8) = 1 from same) (by decide)
  · intro short m i behind small
    rw [vdWriteData_mem, Mem.view_write_behind _ _ (by rw [length]; omega) small,
      Mem.view_write_behind _ _ (by rw [sector]; exact behind) small]
    rfl

end Memory

section Sector

variable {σ : Type} (hw : Bus σ) (fuel : Nat) (L : Locals) (s : FsState σ)

/-- The driver call of `VD_ReadData`, with the state in which it copies. -/
def sectorLoaded (path : Text) : Option Int × IdeState σ :=
  (ideReadSectors hw fuel L.err (fsDrive s.ide.devices) 1
    ((vdOpen L.notFound s.entries path).firstSector + 1) L.buf).run (clearBuffer L s).ide

/-- `VD_ReadData` delivers a terminated string of at most 511 characters. -/
def Delivers (path : Text) (t : IdeState σ) : Prop :=
  ∃ out : Text, out.chars.length ≤ 511 ∧
    (vdReadData hw fuel L path).run s = (some (out.chars ++ [0]), { s with ide := t })

/-- `VD_WriteData` stores in its buffer only, if and only if the string has at most 511
characters. The copy of `VD_ReadData` reads its buffer only, and what it delivers fits, if and
only if the sector holds a NUL. -/
theorem sector_copies_iff (data path : Text) (file : VdEntry) {code : Int} {t : IdeState σ}
    (enough : ataSectorSize ≤ fuel) (loaded : sectorLoaded hw fuel L s path = (some code, t)) :
    (WritesBuffer hw fuel L data file s ↔ data.chars.length ≤ 511) ∧
      (CopyInside ataSectorSize (t.mem.view L.buf) ↔
        0 ∈ (t.mem.view L.buf).slice 0 ataSectorSize) ∧
      (Delivers hw fuel L s path t ↔ 0 ∈ (t.mem.view L.buf).slice 0 ataSectorSize) := by
  have ends : 0 ∈ (t.mem.view L.buf).slice 0 ataSectorSize ↔
      ∃ k, k < ataSectorSize ∧ t.mem.view L.buf k = 0 := by
    simp only [Ptr.slice, Nat.zero_add, List.mem_map, List.mem_range]
  have run := vdReadData_run hw fuel L s path
  rw [sectorLoaded] at loaded
  simp only [loaded, Option.bind_some] at run
  refine ⟨writesBuffer_iff hw fuel L data file s, copyInside_iff.trans ends.symm, ?_⟩
  rw [ends, Delivers, run]
  constructor
  · rintro ⟨out, short, delivered⟩
    obtain ⟨text, same, holds⟩ := strcpy_some (congrArg Prod.fst delivered)
    have chars : out.chars = text := List.append_cancel_right same
    have ended := holds.agree (holdsString_getD holds.noNul) text.length (Nat.le_refl _)
    rw [List.getD_eq_default text 0 (Nat.le_refl _)] at ended
    refine ⟨text.length, ?_, ended⟩
    rw [chars] at short
    have size : ataSectorSize = 512 := rfl
    omega
  · intro nul
    obtain ⟨out, holds, short⟩ : ∃ out : Text, HoldsString (t.mem.view L.buf) out.chars ∧
        out.chars.length < ataSectorSize := ⟨_, heldText_holds nul⟩
    refine ⟨out, Nat.le_of_lt_succ short, ?_⟩
    rw [strcpy_holds holds (Nat.lt_of_lt_of_le short enough)]

def longText : Text :=
  ⟨List.replicate 600 0x41, fun _ member => List.eq_of_mem_replicate member ▸ by decide⟩

theorem long_string_overflows :
    ((vdWriteData (steadyBus 0) 1 sampleLocals longText testTxt).run driveless).2.ide.mem.view
        sampleLocals.buf 512 = 0x41 ∧
      ¬ WritesBuffer (steadyBus 0) 1 sampleLocals longText testTxt driveless := by
  have length : longText.chars.length = 600 := List.length_replicate
  constructor
  · rw [vdWriteData_mem, Mem.view_write_inside _ _ (by rw [List.length_append, length]; decide)
      (by rw [List.length_append, length]; decide), List.getD_eq_getElem?_getD,
      List.getElem?_append_left (by rw [length]; decide), longText, List.getElem?_replicate]
    rfl
  · rw [writesBuffer_iff, length]
    decide

/-- A file that was written to the disk of QEMU is read: its data sector holds a string. -/
theorem sector_copies_iff_hello : ∃ (s : FsState DriveState) (fuel : Nat) (t : IdeState DriveState),
    vdOpen VdEntry.zero s.entries testTxt.nameText = testTxt ∧
      s.ide.bus.sectors 2 = Sector.ofText hello (by decide) ∧
      WritesBuffer (ataDrive 0x1F0 0 fun _ _ => 3) fuel sampleLocals hello testTxt s ∧
      CopyInside ataSectorSize (t.mem.view sampleLocals.buf) ∧
      Delivers (ataDrive 0x1F0 0 fun _ _ => 3) fuel sampleLocals s testTxt.nameText t := by
  have plain : testTxt.firstSector + 1 ≠ 0xFFFFFFFF := by decide
  have short : hello.chars.length < 512 := by decide
  obtain ⟨r, _, mounted, table⟩ := (qemu_mounted 8 fun _ => Sector.blank).settles_vdWrite
    qemu_working sampleLocals (by decide : testTxt.firstSector ≠ 0xFFFFFFFF)
  obtain ⟨s, _, there, kept⟩ := mounted.settles_vdWriteData qemu_working sampleLocals plain hello
  have zeroed : FirstFit.Stored VdEntry.fileKey maximumEntries []
      (qemuState 8 fun _ => Sector.blank).entries := FirstFit.Stored.nil fun _ _ => VdEntry.zero_free
  have stored := zeroed.place testTxt_proper.keyed
  rw [← table, ← kept] at stored
  have opened : vdOpen VdEntry.zero s.entries testTxt.nameText = testTxt := by
    rw [vdOpen_stored stored (fun e member => List.mem_singleton.mp member ▸ testTxt_proper) _
      testTxt_proper.named]
    rfl
  have two : (testTxt.firstSector + 1).toNat = 2 := by decide
  have held : s.ide.bus.sectors 2 = Sector.ofText hello short := by
    rw [there.rep.sectors, two, dataSector_short _ _ _ short, Disk.put, if_pos (by decide),
      Function.update_self]
  obtain ⟨code, t, ⟨N, settled⟩, _, view⟩ := there.settles_fetch qemu_working sampleLocals plain
  have loaded : sectorLoaded (ataDrive 0x1F0 0 fun _ _ => 3) (max N ataSectorSize) sampleLocals s
      testTxt.nameText = (some code, t) := by
    rw [sectorLoaded, show sampleLocals.notFound = VdEntry.zero from rfl, opened]
    exact settled _ (Nat.le_max_left _ _)
  have ends : 0 ∈ (t.mem.view sampleLocals.buf).slice 0 ataSectorSize := by
    refine List.mem_map.mpr ⟨5, List.mem_range.mpr (by decide), ?_⟩
    rw [view _ (by decide), ← there.rep.sectors, two, Disk.get, if_pos (by decide), held,
      Sector.ofText, Sector.padded_ptr]
    decide
  obtain ⟨writes, reads, delivers⟩ := sector_copies_iff (ataDrive 0x1F0 0 fun _ _ => 3)
    (max N ataSectorSize) sampleLocals s hello testTxt.nameText testTxt (Nat.le_max_right _ _) loaded
  exact ⟨s, _, t, opened, held, writes.mpr (by decide), reads.mpr ends, delivers.mpr ends⟩

end Sector

end VDK
