import VDK.DriverReports
import VDK.FileMap
import VDK.LineShell

/-!
# The files that `kmain` writes (`libsa/main.c`)

Between `ata_init` and the command loop `kmain` writes two entries, opens each of them,
writes a string to it and prints what it reads back. On a working drive with room for
both files the run settles with the two files tracked.
-/
namespace VDK
open Fuel ByteMem FirstFit VdEntry

section Silence

theorem updateMem_printed {σ : Type} (f : Mem → Mem) (s : FsState σ) :
    (updateMem f s).ide.printed = s.ide.printed := rfl

theorem clearBuffer_printed {σ : Type} (L : Locals) (s : FsState σ) :
    (clearBuffer L s).ide.printed = s.ide.printed := updateMem_printed _ s

variable {σ : Type} {hw : Bus σ} {drive : UInt8} {Rep : IdeState σ → Disk → Prop}
  (W : WorkingDrive hw drive Rep) {size : Nat} {D : Disk}

include W

/-- A transfer inside a working drive prints nothing. -/
theorem WorkingDrive.silent {s : IdeState σ} {lba : UInt32} (rep : Rep s D)
    (inside : lba.toNat < (s.devices drive.toNat).size.toNat) (direction : Direction) (err : UInt8)
    (buffer : UInt32) :
    ∃ t, Settles (fun fuel => ideSectors hw fuel direction err drive 1 lba buffer) s 0 t ∧
      t.printed = s.printed := by
  have plain : lba ≠ 0xFFFFFFFF := by
    rintro rfl
    have bound := (s.devices drive.toNat).size.toNat_lt
    have top : (0xFFFFFFFF : UInt32).toNat = 4294967295 := rfl
    omega
  have passed := (W.check_one rep plain).mpr inside
  have access : ∃ t, Settles (fun fuel => ideAtaAccess hw fuel direction drive lba 1 buffer) s 0 t := by
    cases direction with
    | read =>
        obtain ⟨t, access, _⟩ := W.read s D lba buffer rep inside
        exact ⟨t, access⟩
    | write =>
        obtain ⟨t, access, _⟩ := W.write s D lba buffer rep inside
        exact ⟨t, access⟩
  obtain ⟨t, access⟩ := access
  obtain ⟨N, ran⟩ := W.settles_sectors rep err passed access
  obtain ⟨_, report, printed, reported⟩ := ideSectors_reported hw (ran N (Nat.le_refl N))
  rw [reported.empty_iff.mpr rfl, List.append_nil] at printed
  exact ⟨t, ⟨N, ran⟩, printed⟩

variable {s : FsState σ} (m : Mounted Rep drive size s D) {L : Locals}

include m

theorem Mounted.vdWrite_silent {file : VdEntry} (inside : file.firstSector.toNat < size) {b : Bool}
    {t : FsState σ} (settles : Settles (fun fuel => vdWrite hw fuel L file) s b t) :
    t.ide.printed = s.ide.printed := by
  have buffered := (m.cleared W L).updateMem W
    (fun mem => memcpy mem L.buf file.byte sizeofVdEntry)
  obtain ⟨u, ⟨M, ide⟩, quiet⟩ := W.silent buffered.rep (Nat.lt_of_lt_of_eq inside buffered.size.symm) .write
    L.err L.buf
  obtain ⟨N, ran⟩ := settles
  obtain ⟨n, enough, enough'⟩ : ∃ n, N ≤ n ∧ M ≤ n :=
    ⟨max N M, Nat.le_max_left N M, Nat.le_max_right N M⟩
  have both := ran n enough
  have sent : (ideWriteSectors hw n L.err (fsDrive s.ide.devices) 1 file.firstSector
      L.buf).run (entryBuffered L file s) = (some 0, u) := by
    rw [m.model]
    exact ide n enough'
  rw [vdWrite_run, sent] at both
  dsimp only at both
  rw [← (Prod.mk.inj both).2]
  exact quiet.trans ((updateMem_printed _ _).trans (clearBuffer_printed L s))

theorem Mounted.vdWriteData_silent {file : VdEntry} {data : Text}
    (inside : (file.firstSector + 1).toNat < size) {b : Bool} {t : FsState σ}
    (settles : Settles (fun fuel => vdWriteData hw fuel L data file) s b t) :
    t.ide.printed = s.ide.printed := by
  have buffered := (m.cleared W L).updateMem W (fun mem => mem.write L.buf (strcpyText data))
  obtain ⟨u, ⟨M, ide⟩, quiet⟩ := W.silent buffered.rep (Nat.lt_of_lt_of_eq inside buffered.size.symm) .write
    L.err L.buf
  obtain ⟨N, ran⟩ := settles
  obtain ⟨n, enough, enough'⟩ : ∃ n, N ≤ n ∧ M ≤ n :=
    ⟨max N M, Nat.le_max_left N M, Nat.le_max_right N M⟩
  have both := ran n enough
  have sent : (ideWriteSectors hw n L.err (fsDrive s.ide.devices) 1 (file.firstSector + 1)
      L.buf).run (dataBuffered L data s) = (some 0, u) := by
    rw [m.model]
    exact ide n enough'
  rw [vdWriteData_run, sent] at both
  dsimp only at both
  rw [← (Prod.mk.inj both).2]
  exact quiet.trans ((updateMem_printed _ _).trans (clearBuffer_printed L s))

theorem Mounted.vdReadData_silent {path : Text}
    (inside : ((vdOpen L.notFound s.entries path).firstSector + 1).toNat < size) {out : List UInt8}
    {t : FsState σ} (settles : Settles (fun fuel => vdReadData hw fuel L path) s out t) :
    t.ide.printed = s.ide.printed := by
  have cleared := m.cleared W L
  obtain ⟨u, ⟨M, ide⟩, quiet⟩ := W.silent cleared.rep (Nat.lt_of_lt_of_eq inside cleared.size.symm) .read
    L.err L.buf
  obtain ⟨N, ran⟩ := settles
  obtain ⟨n, enough, enough'⟩ : ∃ n, N ≤ n ∧ M ≤ n :=
    ⟨max N M, Nat.le_max_left N M, Nat.le_max_right N M⟩
  have both := ran n enough
  have sent : (ideReadSectors hw n L.err (fsDrive s.ide.devices) 1
      ((vdOpen L.notFound s.entries path).firstSector + 1) L.buf).run (clearBuffer L s).ide =
        (some 0, u) := by
    rw [m.model]
    exact ide n enough'
  rw [vdReadData_run, sent] at both
  dsimp only at both
  rw [← (Prod.mk.inj both).2]
  exact quiet.trans (clearBuffer_printed L s)

end Silence

section Entries

/-- `strcpy(e.Name, text)` for a text of at most ten characters. -/
def VdEntry.setName (e : VdEntry) (text : Text) : VdEntry :=
  { e with name := fun i => ((strcpyText text)[i.val]?).getD (e.name i) }

def testName : Text := Text.ofChars "TEST.TXT".toList rfl
def lolName : Text := Text.ofChars "LOL.TXT".toList rfl
def nullLiteral : Text := Text.ofChars "NULL".toList rfl
def testData : Text := Text.ofChars "Hello world from a file!!!!!".toList rfl
def lolData : Text := Text.ofChars "Another text file!!!!!!!!!!!!".toList rfl

/-- The first entry; `junk` are the bytes under `testE`. -/
def testEntry (junk : VdEntry) : VdEntry :=
  { junk.setName testName with attributes := 0, isDirectory := 0, position := 0, firstSector := 1 }

/-- The second entry, made out of the first. -/
def lolEntry (junk : VdEntry) : VdEntry :=
  { (testEntry junk).setName lolName with position := 1, firstSector := 3 }

/-- The string at `Name`. Behind a full name the attributes end it. -/
def VdEntry.nameString (e : VdEntry) : Text := heldText sizeofVdEntry e.byte

def fileFound (e : VdEntry) : PrintfCall := ⟨"\nFile found: %s\n", [.chars e.nameString.chars]⟩

/-- What is printed of a file that may not have been found. -/
def opened (name : Text) (e : VdEntry) : PrintfCall :=
  if strcmp 12 nullLiteral.ptr e.byte = some 0 ∧ e.position = 0xFFFFFFFF then
    ⟨"\nFile not found: %s\n", [.chars name.chars]⟩
  else fileFound e

variable {e : VdEntry} {text : Text}

theorem VdEntry.setName_holds (e : VdEntry) (short : text.chars.length < 11) :
    HoldsString (e.setName text).byte text.chars := by
  refine text.holds.congr fun i hi => ?_
  have inside : i < (text.chars ++ [0]).length := by
    rw [List.length_append, List.length_singleton]
    omega
  rw [byte_name _ (by omega), VdEntry.setName]
  dsimp only
  rw [strcpyText_eq, List.getElem?_eq_getElem inside, Option.getD_some, Text.ptr,
    List.getD_eq_getElem?_getD]
  by_cases within : i < text.chars.length
  · rw [List.getElem_append_left within, List.getElem?_eq_getElem within, Option.getD_some]
  · rw [List.getElem_append_right (Nat.not_lt.mp within), List.getElem_singleton,
      List.getElem?_eq_none (Nat.not_lt.mp within), Option.getD_none]

/-- A string at the start of the object is the name. -/
theorem VdEntry.nameText_of_holds (holds : HoldsString e.byte text.chars)
    (short : text.chars.length < 11) : e.nameText = text := by
  have same : ∀ i, ∀ inside : i < (List.ofFn e.name).length, e.byte i = (List.ofFn e.name)[i] := by
    intro i inside
    rw [List.length_ofFn] at inside
    rw [byte_name e inside, List.getElem_ofFn]
  have ends : 0 ∈ List.ofFn e.name ∨ text.chars.length < (List.ofFn e.name).length := by
    rw [List.length_ofFn]
    exact Or.inr short
  exact Text.ext ((holdsString_takeWhile same ends).mp holds)

theorem VdEntry.proper_of_holds (holds : HoldsString e.byte text.chars)
    (short : text.chars.length < 11) (named : text ≠ Text.empty) : e.Proper where
  terminated := by
    refine ⟨⟨text.chars.length, short⟩, ?_⟩
    have nul := (holdsString_iff_ptr text).mp holds text.chars.length (Nat.le_refl _)
    rw [byte_name e short] at nul
    rw [nul, Text.ptr, List.getD_eq_getElem?_getD, List.getElem?_eq_none (Nat.le_refl _),
      Option.getD_none]
  named := by
    rw [nameText_of_holds holds short]
    exact named

theorem VdEntry.nameString_of_holds (holds : HoldsString e.byte text.chars)
    (short : text.chars.length < 11) : e.nameString = text :=
  heldText_eq holds (Nat.lt_trans short (by decide))

variable (junk : VdEntry)

theorem testEntry_holds : HoldsString (testEntry junk).byte testName.chars := by
  have short : testName.chars.length < 11 := by decide
  refine (junk.setName_holds short).congr fun i hi => ?_
  rw [byte_name _ (by omega), byte_name _ (by omega)]
  rfl

theorem lolEntry_holds : HoldsString (lolEntry junk).byte lolName.chars := by
  have short : lolName.chars.length < 11 := by decide
  refine ((testEntry junk).setName_holds short).congr fun i hi => ?_
  rw [byte_name _ (by omega), byte_name _ (by omega)]
  rfl

theorem testEntry_proper : (testEntry junk).Proper :=
  proper_of_holds (testEntry_holds junk) (by decide) (by decide)

theorem lolEntry_proper : (lolEntry junk).Proper :=
  proper_of_holds (lolEntry_holds junk) (by decide) (by decide)

theorem testEntry_nameText : (testEntry junk).nameText = testName :=
  nameText_of_holds (testEntry_holds junk) (by decide)

theorem lolEntry_nameText : (lolEntry junk).nameText = lolName :=
  nameText_of_holds (lolEntry_holds junk) (by decide)

theorem entries_separate : (testEntry junk).Separate (lolEntry junk) where
  names := by
    rw [testEntry_nameText, lolEntry_nameText]
    decide
  sectors := by
    change ∀ x ∈ [1, 2], x ∉ [3, 4]
    decide

theorem fileFound_test : fileFound (testEntry junk) =
    ⟨"\nFile found: %s\n", [.chars testName.chars]⟩ := by
  rw [fileFound, nameString_of_holds (testEntry_holds junk) (by decide)]

theorem opened_lol : opened lolName (lolEntry junk) =
    ⟨"\nFile found: %s\n", [.chars lolName.chars]⟩ := by
  have position : (lolEntry junk).position ≠ 0xFFFFFFFF := by
    change (1 : UInt32) ≠ 0xFFFFFFFF
    decide
  rw [opened, if_neg fun both => position both.2, fileFound,
    nameString_of_holds (lolEntry_holds junk) (by decide)]

end Entries

section Kmain

variable {σ : Type} (hw : Bus σ) (fuel : Nat) (L : FsState σ → Locals)

/-- A call finds on the stack what the calls before it have left there. -/
def onStack {α : Type} (call : Locals → Exec (FsState σ) α) : Exec (FsState σ) α := do
  let s ← Exec.get
  call (L s)

/-- A file is opened, its string is written, and what is read back under its name printed. -/
def visitFile (found : VdEntry → PrintfCall) (data name : Text) : Exec (FsState σ) Unit := do
  let s ← Exec.get
  let file := vdOpen (L s).notFound s.entries name
  Exec.modify (say [found file])
  let _ ← onStack L fun L => vdWriteData hw fuel L data file
  let out ← onStack L fun L => vdReadData hw fuel L name
  Exec.modify (say [⟨"\nContents: %s\n", [.chars (out.takeWhile (· ≠ 0))]⟩])

def banner : List PrintfCall :=
  [⟨"%s\n", [.str " Via Operating System"]⟩, ⟨"Beta build %s\n", [.str "1224"]⟩,
    ⟨"OEM Manufacturer: %s\n", [.str "BOOT 4.0"]⟩]

/-- `kmain` between `ata_init` and the command loop. -/
def kmainFiles (junk : VdEntry) : Exec (FsState σ) Unit := do
  Exec.modify (say banner)
  let _ ← onStack L fun L => vdWrite hw fuel L (testEntry junk)
  let _ ← onStack L fun L => vdWrite hw fuel L (lolEntry junk)
  visitFile hw fuel L fileFound testData testName
  visitFile hw fuel L (opened lolName) lolData lolName
  Exec.modify (say [⟨"> ", []⟩])

/-- What `kmain` prints in front of the command loop. -/
def bootOutput : List PrintfCall :=
  banner ++ [⟨"\nFile found: %s\n", [.chars testName.chars]⟩,
    ⟨"\nContents: %s\n", [.chars testData.chars]⟩,
    ⟨"\nFile found: %s\n", [.chars lolName.chars]⟩,
    ⟨"\nContents: %s\n", [.chars lolData.chars]⟩, ⟨"> ", []⟩]

end Kmain

section Run

variable {σ : Type} {hw : Bus σ} {drive : UInt8} {Rep : IdeState σ → Disk → Prop} {size : Nat}
  {D : Disk} {s : FsState σ} {f : Files size} (L : FsState σ → Locals)

theorem Settles.onStack {α : Type} {call : Nat → Locals → Exec (FsState σ) α} {t : FsState σ}
    {a : α} (h : Settles (fun fuel => call fuel (L s)) s a t) :
    Settles (fun fuel => VDK.onStack L (call fuel)) s a t := h

variable (W : WorkingDrive hw drive Rep)

include W

theorem Mounted.say (m : Mounted Rep drive size s D) (calls : List PrintfCall) :
    Mounted Rep drive size (VDK.say calls s) D :=
  ⟨m.model, m.size, W.frame s.ide _ D m.rep rfl rfl rfl⟩

/-- Printing leaves the files alone. -/
theorem Tracks.say (k : Tracks Rep drive D s f) (calls : List PrintfCall) :
    Tracks Rep drive D (VDK.say calls s) f :=
  ⟨k.mounted.say W calls, k.table, k.entry, k.data⟩

theorem Tracks.settles_entry (k : Tracks Rep drive D s f) {e : VdEntry} (admits : f.Admits e) :
    ∃ t, Settles (fun fuel => VDK.onStack L fun L => vdWrite hw fuel L e) s true t ∧
      Tracks Rep drive (Disk.put D size e.firstSector.toNat (Sector.ofEntry e)) t
        (f.register e admits) ∧ t.ide.printed = s.ide.printed ∧
      ∀ i, f.entries.length < i → t.entries i = s.entries i := by
  obtain ⟨_, plain, _⟩ := k.sectors admits.inside
  obtain ⟨t, writes, there, table⟩ := k.mounted.settles_vdWrite W (L s) plain
  have silent := k.mounted.vdWrite_silent W (Nat.lt_of_succ_lt admits.inside) writes
  refine ⟨t, Settles.onStack L writes, k.registered admits there table, silent, fun i behind => ?_⟩
  rw [table, k.table.place_beyond e behind]

theorem Tracks.settles_visit (k : Tracks Rep drive D s f) {e : VdEntry} (he : e ∈ f.entries)
    {name data : Text} (own : e.nameText = name) (short : data.chars.length < ataSectorSize)
    (found : VdEntry → PrintfCall) :
    ∃ t, Settles (fun fuel => visitFile hw fuel L found data name) s () t ∧
      Tracks Rep drive (Disk.put D size (e.firstSector.toNat + 1) (Sector.ofText data short)) t
        (f.write name data (Files.registered_as he own) short) ∧
      t.ide.printed = s.ide.printed ++
        [found e, ⟨"\nContents: %s\n", [.chars data.chars]⟩] ∧ t.entries = s.entries := by
  subst own
  obtain ⟨next, _, plain⟩ := k.sectors (f.inside e he)
  have inside : (e.firstSector + 1).toNat < size := by
    rw [next]
    exact f.inside e he
  have said := k.say W [found e]
  obtain ⟨t, writes, there, table⟩ :=
    said.mounted.settles_vdWriteData W (L (VDK.say [found e] s)) plain data
  have silent := said.mounted.vdWriteData_silent W inside writes
  rw [dataSector_short _ _ data short, next] at there
  have written := said.written he short there table
  have content : (f.write e.nameText data (Files.registered he) short).content e.nameText =
      some data := by
    rw [Files.write_content, Function.update_self]
  obtain ⟨u, reads⟩ := written.settles_readData W he (L t) content
  have opens := k.opens he (L s).notFound
  have opens' := written.opens he (L t).notFound
  have kept := written.readData_keeps W he reads
  have silent' := written.mounted.vdReadData_silent W (by rw [opens']; exact inside) reads
  have table' := (written.mounted.vdReadData_settled W (L t) (by rw [opens']; exact plain)
    reads).2.1
  refine ⟨VDK.say [⟨"\nContents: %s\n", [.chars data.chars]⟩] u, Settles.get ?_, kept.say W _, ?_,
    table'.trans table⟩
  · rw [opens]
    refine Settles.modify (Settles.bind (Settles.onStack L writes)
      (Settles.bind (Settles.onStack L reads) (Settles.of_eq fun _ => ?_)))
    rw [Text.takeWhile_terminated]
    rfl
  · have printed : u.ide.printed = s.ide.printed ++ [found e] := silent'.trans silent
    change u.ide.printed ++ _ = _
    rw [printed, List.append_assoc]
    rfl

/-- On a working drive that has room for both files `kmain` reaches the command loop with
the two files in the table and on the disk, their strings under their names, and no
other sector changed. -/
theorem kmainFiles_settles (mounted : Mounted Rep drive size s D)
    (zeroed : ∀ i, i < maximumEntries → s.entries i = VdEntry.zero) (room : 4 < size)
    (junk : VdEntry) :
    ∃ t, Settles (fun fuel => kmainFiles hw fuel L junk) s () t ∧
      t.ide.printed = s.ide.printed ++ bootOutput ∧
      ∃ (E : Disk) (f : Files size), Tracks Rep drive E t f ∧
        f.entries = [testEntry junk, lolEntry junk] ∧ f.content testName = some testData ∧
        f.content lolName = some lolData ∧ (∀ n, n = 0 ∨ 4 < n → E n = D n) ∧
        ∀ i, 2 ≤ i → t.entries i = s.entries i := by
  have start : Tracks Rep drive D (VDK.say banner s) (Files.none : Files size) :=
    (Tracks.start mounted zeroed).say W banner
  have first : (Files.none : Files size).Admits (testEntry junk) :=
    ⟨Nat.zero_lt_succ 11, testEntry_proper junk, Nat.lt_trans (by decide : 2 < 4) room,
      fun _ h => nomatch h⟩
  obtain ⟨t₁, writes₁, one, printed₁, table₁⟩ := start.settles_entry L W first
  have second : ((Files.none : Files size).register (testEntry junk) first).Admits (lolEntry junk) := by
    refine ⟨Nat.succ_lt_succ (Nat.zero_lt_succ 10), lolEntry_proper junk, room, fun a ha => ?_⟩
    rw [List.mem_singleton.mp ha]
    exact entries_separate junk
  obtain ⟨t₂, writes₂, two, printed₂, table₂⟩ := one.settles_entry L W second
  have short : testData.chars.length < ataSectorSize := by decide
  have short' : lolData.chars.length < ataSectorSize := by decide
  obtain ⟨t₃, visits, three, printed₃, table₃⟩ := two.settles_visit L W List.mem_cons_self
    (testEntry_nameText junk) short fileFound
  obtain ⟨t₄, visits', four, printed₄, table₄⟩ := three.settles_visit L W
    (List.mem_cons_of_mem _ (List.mem_singleton_self _)) (lolEntry_nameText junk) short'
    (opened lolName)
  have names : testName ≠ lolName := by decide
  refine ⟨VDK.say [⟨"> ", []⟩] t₄, ?_, ?_, _, _, four.say W _, rfl, ?_, ?_, ?_, ?_⟩
  · exact Settles.modify (Settles.bind writes₁ (Settles.bind writes₂ (Settles.bind visits
      (Settles.bind visits' (Settles.of_eq fun _ => rfl)))))
  · change t₄.ide.printed ++ _ = _
    rw [printed₄, printed₃, printed₂, printed₁, fileFound_test, opened_lol, bootOutput]
    change s.ide.printed ++ banner ++ _ ++ _ ++ _ = _
    simp only [List.append_assoc, List.cons_append, List.nil_append]
  · rw [Files.write_content, Function.update_of_ne names, Files.write_content,
      Function.update_self]
  · rw [Files.write_content, Function.update_self]
  · intro n apart
    have one : (testEntry junk).firstSector.toNat = 1 := rfl
    have three : (lolEntry junk).firstSector.toNat = 3 := rfl
    rw [one, three, Disk.put_of_ne (by omega), Disk.put_of_ne (by omega),
      Disk.put_of_ne (by omega), Disk.put_of_ne (by omega)]
  · intro i behind
    change t₄.entries i = _
    rw [table₄, table₃]
    exact (table₂ i behind).trans (table₁ i (Nat.lt_of_lt_of_le (Nat.zero_lt_succ 1) behind))

end Run

end VDK
