import VDK.BootFiles

/-!
# A session at the keyboard

Behind the writing of its two files the kernel answers each character as a function of
the characters before it. `Session` is that function; it knows a file by what a read of
its name delivers. The command loop over the file system and the drive refines it, so
that a whole run, from `ata_init` on, prints what the session says.
-/
namespace VDK
open Fuel ByteMem FirstFit VdEntry

/-- The command that waits for an argument, and what was typed of the line. -/
structure Session where
  pending : Pending
  line : Text

namespace Session

def start : Session := ⟨.none, Text.empty⟩

/-- What the pending command prints once it has its argument. -/
def served (look : Text → Text) (argument : Text) : Pending → List PrintfCall
  | .none => []
  | .echo => [⟨"\n%s\n", [.chars argument.chars]⟩]
  | .read => [⟨"\nContents: %s\n", [.chars (look argument).chars]⟩]

def endLine (look : Text → Text) (a : Session) : List PrintfCall × Session :=
  let line := LineShell.shown a.line
  let reply := LineShell.answer line
  (served look line a.pending ++ (reply.1 ++ LineShell.prompt reply.2), ⟨reply.2, Text.empty⟩)

def typeKey (c : Key) (a : Session) : List PrintfCall × Session :=
  ([if a.line.chars.length < 99 then ⟨"%c", [.chars [c.val]]⟩
    else ⟨"\nBuffer overflow. Command too long.\n", []⟩],
   ⟨a.pending, a.line.push c.val c.nonzero⟩)

def key (look : Text → Text) (c : Key) (a : Session) : List PrintfCall × Session :=
  if c.val = '\n'.toUInt8 then a.endLine look else a.typeKey c

def run (look : Text → Text) : List Key → Session → List PrintfCall × Session
  | [], a => ([], a)
  | c :: keys, a =>
      let first := a.key look c
      let rest := run look keys first.2
      (first.1 ++ rest.1, rest.2)

end Session

section Refinement

variable {σ : Type} (hw : Bus σ) (L : FsState σ → Locals) (look : Text → Text)
  (Inv : FsState σ → Prop)

/-- While `Inv` holds a read delivers what the name stands for, prints nothing, and keeps
`Inv`. -/
structure ReadsAs : Prop where
  reads : ∀ name s, Inv s → ∃ t,
    Settles (fun fuel => vdReadData hw fuel (L s) name) s ((look name).chars ++ [0]) t ∧ Inv t ∧
      t.ide.printed = s.ide.printed
  prints : ∀ calls s, Inv s → Inv (say calls s)

/-- The shell and the session agree, and the session has printed `calls`. -/
structure Follows (calls : List PrintfCall) (s : FsState σ) (a : Session) (b : LineShell σ) :
    Prop where
  inv : Inv b.fs
  pending : b.pending = a.pending
  line : b.line = a.line
  printed : b.fs.ide.printed = s.ide.printed ++ calls

variable {hw L look Inv}

theorem say_printed (calls : List PrintfCall) (s : FsState σ) :
    (say calls s).ide.printed = s.ide.printed ++ calls := rfl

/-- A pending command is served as the session has it. -/
theorem ReadsAs.serves (R : ReadsAs hw L look Inv) (argument : Text) (p : Pending) {s : FsState σ}
    (inv : Inv s) :
    ∃ t N, (∀ fuel, N ≤ fuel → LineShell.serve (readFile hw fuel L) argument p s = some t) ∧ Inv t ∧
      t.ide.printed = s.ide.printed ++ Session.served look argument p := by
  cases p with
  | none => exact ⟨s, 0, fun _ _ => rfl, inv, (List.append_nil _).symm⟩
  | echo => exact ⟨_, 0, fun _ _ => rfl, R.prints _ s inv, rfl⟩
  | read =>
      obtain ⟨t, ⟨N, ran⟩, kept, silent⟩ := R.reads argument s inv
      refine ⟨say [⟨"\nContents: %s\n", [.chars (look argument).chars]⟩] t, N,
        fun fuel enough => ?_, R.prints _ t kept, ?_⟩
      · rw [LineShell.serve, readFile, ran fuel enough, Option.map_some, Text.takeWhile_terminated]
      · rw [say_printed, silent]
        rfl

theorem ReadsAs.key (R : ReadsAs hw L look Inv) {calls : List PrintfCall} {s : FsState σ}
    {a : Session} {b : LineShell σ} (h : Follows Inv calls s a b) (c : Key) :
    ∃ b' N, (∀ fuel, N ≤ fuel → b.key (readFile hw fuel L) c = some b') ∧
      Follows Inv (calls ++ (a.key look c).1) s (a.key look c).2 b' := by
  by_cases newline : c.val = '\n'.toUInt8
  · have ends : a.key look c = a.endLine look := if_pos newline
    obtain ⟨t, N, served, kept, printed⟩ := R.serves (LineShell.shown a.line) a.pending h.inv
    let reply := LineShell.answer (LineShell.shown a.line)
    refine ⟨⟨say (reply.1 ++ LineShell.prompt reply.2) t, reply.2, Text.empty⟩, N,
      fun fuel enough => ?_, R.prints _ t kept, ?_, ?_, ?_⟩
    · have same : b.key (readFile hw fuel L) c = b.endLine (readFile hw fuel L) := if_pos newline
      rw [same, LineShell.endLine, h.line, h.pending, served fuel enough]
      rfl
    · rw [ends]
      rfl
    · rw [ends]
      rfl
    · rw [say_printed, printed, h.printed, ends, List.append_assoc, List.append_assoc]
      rfl
  · have types : a.key look c = a.typeKey c := if_neg newline
    refine ⟨b.typeKey c, 0, fun fuel _ => if_neg newline, R.prints _ _ h.inv, ?_, ?_, ?_⟩
    · rw [types]
      exact h.pending
    · rw [types]
      exact congrArg (fun t : Text => t.push c.val c.nonzero) h.line
    · rw [types]
      change b.fs.ide.printed ++ _ = s.ide.printed ++ (calls ++ _)
      rw [h.printed, h.line, List.append_assoc]
      rfl

theorem ReadsAs.run (R : ReadsAs hw L look Inv) {calls : List PrintfCall} {s : FsState σ}
    {a : Session} {b : LineShell σ} (h : Follows Inv calls s a b) (keys : List Key) :
    ∃ b' N, (∀ fuel, N ≤ fuel → LineShell.run (readFile hw fuel L) keys b = some b') ∧
      Follows Inv (calls ++ (a.run look keys).1) s (a.run look keys).2 b' := by
  induction keys generalizing calls a b with
  | nil => exact ⟨b, 0, fun _ _ => rfl, h.inv, h.pending, h.line, by
      rw [Session.run, List.append_nil]
      exact h.printed⟩
  | cons c keys ih =>
      obtain ⟨b₁, N, first, follows⟩ := R.key h c
      obtain ⟨b₂, M, rest, follows'⟩ := ih follows
      refine ⟨b₂, max N M, fun fuel enough => ?_, ?_⟩
      · rw [LineShell.run, first fuel (Nat.le_trans (Nat.le_max_left N M) enough)]
        exact rest fuel (Nat.le_trans (Nat.le_max_right N M) enough)
      · rw [List.append_assoc] at follows'
        exact follows'

end Refinement

section Reads

variable {σ : Type} {hw : Bus σ} {drive : UInt8} {Rep : IdeState σ → Disk → Prop}
  (W : WorkingDrive hw drive Rep) {size : Nat} {D : Disk} {s : FsState σ}

include W in
/-- A read of a name delivers the string in the sector behind that of its entry. -/
theorem Mounted.reads_sector (m : Mounted Rep drive size s D) (L : Locals) {name text : Text}
    {n : Nat} (sector : ((vdOpen L.notFound s.entries name).firstSector + 1).toNat = n)
    (inside : n < size) (holds : HoldsString (D n).ptr text.chars)
    (short : text.chars.length < ataSectorSize) :
    ∃ t, Settles (fun fuel => vdReadData hw fuel L name) s (text.chars ++ [0]) t ∧
      Mounted Rep drive size t D ∧ t.entries = s.entries ∧ t.ide.printed = s.ide.printed := by
  subst sector
  have bound := (s.ide.devices drive.toNat).size.toNat_lt
  rw [m.size] at bound
  have plain : (vdOpen L.notFound s.entries name).firstSector + 1 ≠ 0xFFFFFFFF := by
    intro wrap
    have top : (0xFFFFFFFF : UInt32).toNat = 4294967295 := rfl
    rw [wrap] at inside
    omega
  obtain ⟨t, reads⟩ := m.settles_vdReadData W L plain
    (by rw [Disk.get, if_pos inside]; exact holds) short
  obtain ⟨there, table, _⟩ := m.vdReadData_settled W L plain reads
  exact ⟨t, reads, there, table, m.vdReadData_silent W inside reads⟩

theorem Sector.ofEntry_holds {e : VdEntry} {text : Text} (holds : HoldsString e.byte text.chars)
    (short : text.chars.length < sizeofVdEntry) : HoldsString (Sector.ofEntry e).ptr text.chars := by
  refine holds.congr fun i hi => ?_
  rw [Sector.ofEntry, Sector.padded_ptr, List.getD_eq_getElem?_getD, List.getElem?_map,
    List.getElem?_range (Nat.lt_of_le_of_lt hi short)]
  rfl

/-- What a read of `name` delivers behind `kmain`'s files, when sector 0 holds `boot`: a name
that is not found is read there, and the empty name in the sector of the first entry. -/
def bootLook (boot name : Text) : Text :=
  if name = testName then testData
  else if name = lolName then lolData
  else if name = Text.empty then testName
  else boot

/-- The two files are tracked, and sector 0 holds `boot`. -/
structure Booted (Rep : IdeState σ → Disk → Prop) (drive : UInt8) (junk : VdEntry) (boot : Text)
    (D : Disk) (f : Files size) (s : FsState σ) : Prop where
  tracks : Tracks Rep drive D s f
  listed : f.entries = [testEntry junk, lolEntry junk]
  test : f.content testName = some testData
  lol : f.content lolName = some lolData
  behind : s.entries 2 = VdEntry.zero
  boots : HoldsString (D 0).ptr boot.chars
  short : boot.chars.length < ataSectorSize

variable {junk : VdEntry} {boot : Text} {f : Files size}

theorem Booted.test_listed (b : Booted Rep drive junk boot D f s) : testEntry junk ∈ f.entries := by
  rw [b.listed]
  exact List.mem_cons_self

theorem Booted.lol_listed (b : Booted Rep drive junk boot D f s) : lolEntry junk ∈ f.entries := by
  rw [b.listed]
  exact List.mem_cons_of_mem _ (List.mem_singleton_self _)

theorem Booted.room (b : Booted Rep drive junk boot D f s) : 4 < size := f.inside _ b.lol_listed

/-- The first free slot is the third, which was never written. -/
theorem Booted.opens_empty (b : Booted Rep drive junk boot D f s) (under : VdEntry) :
    vdOpen under s.entries Text.empty = VdEntry.zero := by
  have stored := b.tracks.table
  rw [b.listed] at stored
  have third : firstIndex (unused fileKey s.entries) maximumEntries = some 2 := by
    refine firstIndex_eq_some.mpr ⟨by decide, ?_, fun j early => ?_⟩
    · rw [unused_eq_true, b.behind]
      exact zero_free
    · exact (stored.used_iff (Nat.lt_trans early (by decide))).mpr early
  rw [vdOpen_empty under third, b.behind]

theorem Booted.opens_other (b : Booted Rep drive junk boot D f s) (under : VdEntry) {name : Text}
    (named : name ≠ Text.empty) (test : name ≠ testName) (lol : name ≠ lolName) :
    vdOpen under s.entries name = notFoundEntry under := by
  have absent : answer fileKey maximumEntries f.entries name = none := by
    refine List.find?_eq_none.mpr fun e member => ?_
    have listed := List.mem_of_mem_take member
    rw [b.listed] at listed
    rw [decide_eq_true_iff]
    intro own
    rcases List.mem_cons.mp listed with rfl | last
    · rw [(testEntry_proper junk).key, testEntry_nameText] at own
      exact test (Option.some.inj own).symm
    · rw [List.mem_singleton.mp last, (lolEntry_proper junk).key, lolEntry_nameText] at own
      exact lol (Option.some.inj own).symm
  rw [vdOpen_stored b.tracks.table f.proper under named, absent, Option.getD_none]

/-- Every name is read from a sector that holds its string. -/
theorem Booted.finds (b : Booted Rep drive junk boot D f s) (L : Locals) (name : Text) :
    ((bootLook boot name).chars.length < ataSectorSize) ∧ ∃ n, n < size ∧
      ((vdOpen L.notFound s.entries name).firstSector + 1).toNat = n ∧
      HoldsString (D n).ptr (bootLook boot name).chars := by
  have room := b.room
  unfold bootLook
  by_cases test : name = testName
  · rw [if_pos test, test, ← testEntry_nameText junk, b.tracks.opens b.test_listed L.notFound]
    refine ⟨by decide, 2, by omega, rfl, b.tracks.data _ b.test_listed _ ?_⟩
    rw [testEntry_nameText]
    exact b.test
  rw [if_neg test]
  by_cases lol : name = lolName
  · rw [if_pos lol, lol, ← lolEntry_nameText junk, b.tracks.opens b.lol_listed L.notFound]
    refine ⟨by decide, 4, by omega, rfl, b.tracks.data _ b.lol_listed _ ?_⟩
    rw [lolEntry_nameText]
    exact b.lol
  rw [if_neg lol]
  by_cases unnamed : name = Text.empty
  · rw [if_pos unnamed, unnamed, b.opens_empty L.notFound]
    refine ⟨by decide, 1, by omega, rfl, ?_⟩
    have held : D 1 = Sector.ofEntry (testEntry junk) := b.tracks.entry _ b.test_listed
    rw [held]
    exact Sector.ofEntry_holds (testEntry_holds junk) (by decide)
  · rw [if_neg unnamed, b.opens_other L.notFound unnamed test lol]
    have wraps : ((notFoundEntry L.notFound).firstSector + 1).toNat = 0 := by
      change ((0xFFFFFFFF : UInt32) + 1).toNat = 0
      decide
    exact ⟨b.short, 0, by omega, wraps, b.boots⟩

include W in
/-- Behind `kmain`'s files reads deliver what `bootLook` says. -/
theorem booted_readsAs (L : FsState σ → Locals) (D : Disk) (f : Files size) :
    ReadsAs hw L (bootLook boot) fun s => Booted Rep drive junk boot D f s where
  reads name s b := by
    obtain ⟨short, n, inside, sector, holds⟩ := b.finds (L s) name
    obtain ⟨t, reads, there, table, silent⟩ :=
      b.tracks.mounted.reads_sector W (L s) sector inside holds short
    exact ⟨t, reads, ⟨⟨there, table ▸ b.tracks.table, b.tracks.entry, b.tracks.data⟩, b.listed,
      b.test, b.lol, table ▸ b.behind, b.boots, b.short⟩, silent⟩
  prints calls s b :=
    ⟨b.tracks.say W calls, b.listed, b.test, b.lol, b.behind, b.boots, b.short⟩

include W in
/-- On a working drive with room for `kmain`'s files, whose sector 0 holds a string, the kernel
returns to its loop after every character typed, and prints what the session says. The two
files keep their strings, and the other sectors what they held. -/
theorem kernel_session (L : FsState σ → Locals) (mounted : Mounted Rep drive size s D)
    (zeroed : ∀ i, i < maximumEntries → s.entries i = VdEntry.zero) (room : 4 < size)
    (boots : HoldsString (D 0).ptr boot.chars) (short : boot.chars.length < ataSectorSize)
    (junk : VdEntry) (stack : Ptr) (keys : List Key) :
    ∃ N, ∀ fuel, N ≤ fuel → ∃ t u, (kmainFiles hw fuel L junk).run s = (some (), t) ∧
      (commandLoop hw fuel L (keys.map Subtype.val)).run (Shell.start t stack) = (some (), u) ∧
      u.fs.ide.printed =
        s.ide.printed ++ bootOutput ++ (Session.start.run (bootLook boot) keys).1 ∧
      ∃ (E : Disk) (f : Files size), Booted Rep drive junk boot E f u.fs ∧
        ∀ n, n = 0 ∨ 4 < n → E n = D n := by
  obtain ⟨t, ⟨N, files⟩, printed, E, f, tracks, listed, test, lol, same, table⟩ :=
    kmainFiles_settles L W mounted zeroed room junk
  have booted : Booted Rep drive junk boot E f t :=
    ⟨tracks, listed, test, lol, (table 2 (Nat.le_refl 2)).trans (zeroed 2 (by decide)),
      same 0 (Or.inl rfl) ▸ boots, short⟩
  have start : Follows (fun s => Booted Rep drive junk boot E f s) [] t Session.start
      (LineShell.start t) := ⟨booted, rfl, rfl, (List.append_nil _).symm⟩
  obtain ⟨b, M, reached, follows⟩ := (booted_readsAs W L E f).run start keys
  refine ⟨max N M, fun fuel enough => ?_⟩
  have shell := reached fuel (Nat.le_trans (Nat.le_max_right N M) enough)
  rcases (Models.start t stack).run hw fuel L keys with ⟨nothing, _⟩ | ⟨b', u, shell', ran, models⟩
  · rw [nothing] at shell
    cases shell
  · rw [shell] at shell'
    cases shell'
    refine ⟨t, u, files fuel (Nat.le_trans (Nat.le_max_left N M) enough), ran, ?_, E, f, ?_, same⟩
    · rw [models.fs, follows.printed, printed]
      rfl
    · rw [models.fs]
      exact follows.inv

end Reads

/-- `read`, and `TEST.TXT` as its argument. -/
def readKeys : List Key :=
  ("read\nTEST.TXT\n".toList.map Char.toUInt8).filterMap fun c =>
    if h : positive c = true then some ⟨c, h⟩ else none

theorem kernel_session_qemu :
    ∃ N, ∀ fuel, N ≤ fuel → ∃ t u, (kmainFiles (ataDrive 0x1F0 0 fun _ _ => 3) fuel
        (fun _ => sampleLocals) VdEntry.zero).run (qemuState 8 fun _ => Sector.blank) =
          (some (), t) ∧
      (commandLoop (ataDrive 0x1F0 0 fun _ _ => 3) fuel (fun _ => sampleLocals)
        (readKeys.map Subtype.val)).run (Shell.start t fun _ => 0) = (some (), u) ∧
      u.fs.ide.printed = bootOutput ++ (Session.start.run (bootLook Text.empty) readKeys).1 := by
  have boots : HoldsString Sector.blank.ptr Text.empty.chars := by decide
  obtain ⟨N, session⟩ := kernel_session qemu_working (fun _ => sampleLocals)
    (qemu_mounted 8 fun _ => Sector.blank) (fun _ _ => rfl) (by decide) boots (by decide)
    VdEntry.zero (fun _ => 0) readKeys
  refine ⟨N, fun fuel enough => ?_⟩
  obtain ⟨t, u, files, loop, printed, _⟩ := session fuel enough
  exact ⟨t, u, files, loop, printed⟩

example : ⟨"\nContents: %s\n", [.chars testData.chars]⟩ ∈
    (Session.start.run (bootLook Text.empty) readKeys).1 := by decide

end VDK
