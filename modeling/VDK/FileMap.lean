import Mathlib.Data.List.Pairwise
import VDK.Contract
import VDK.MountedDrive

/-!
# The file system as a map from names to strings

`Files` is what the file system is for: a catalogue of entries that do not share
sectors, and the last string written under each name. `fileMap` is its service, and
the calls of `fs.c` on a working drive refine it: the table holds the catalogue, the
first sector of each file its entry and the second its string.
-/
namespace VDK
open Fuel ByteMem FirstFit Contract

/-- The metadata sector and the data sector. -/
def VdEntry.sectors (e : VdEntry) : List Nat := [e.firstSector.toNat, e.firstSector.toNat + 1]

/-- Two files whose names differ and whose sectors are disjoint. -/
structure VdEntry.Separate (a b : VdEntry) : Prop where
  names : a.nameText ≠ b.nameText
  sectors : ∀ x ∈ a.sectors, x ∉ b.sectors

instance : Std.Symm VdEntry.Separate where
  symm _ _ h := ⟨h.names.symm, fun x hb ha => h.sectors x ha hb⟩

/-- A catalogue for a drive of `size` sectors, with the string last written to each file. -/
structure Files (size : Nat) where
  entries : List VdEntry
  content : Text → Option Text
  few : entries.length ≤ maximumEntries
  proper : ∀ e ∈ entries, e.Proper
  inside : ∀ e ∈ entries, e.firstSector.toNat + 1 < size
  separate : entries.Pairwise VdEntry.Separate
  owned : ∀ n data, content n = some data → data.chars.length < ataSectorSize ∧
    ∃ e ∈ entries, e.nameText = n

namespace Files

variable {size : Nat}

def none : Files size where
  entries := []
  content _ := .none
  few := Nat.zero_le _
  proper _ h := nomatch h
  inside _ h := nomatch h
  separate := List.Pairwise.nil
  owned _ _ h := nomatch h

def Registered (f : Files size) (name : Text) : Prop := ∃ e ∈ f.entries, e.nameText = name

/-- An entry that may be added: room, a proper name, sectors inside the drive, and nothing
shared with the files already there. -/
structure Admits (f : Files size) (e : VdEntry) : Prop where
  room : f.entries.length < maximumEntries
  proper : e.Proper
  inside : e.firstSector.toNat + 1 < size
  separate : ∀ a ∈ f.entries, a.Separate e

def register (f : Files size) (e : VdEntry) (h : f.Admits e) : Files size where
  entries := f.entries ++ [e]
  content := f.content
  few := by
    rw [List.length_append, List.length_singleton]
    exact h.room
  proper a ha := by
    rcases List.mem_append.mp ha with old | new
    · exact f.proper a old
    · rw [List.mem_singleton.mp new]
      exact h.proper
  inside a ha := by
    rcases List.mem_append.mp ha with old | new
    · exact f.inside a old
    · rw [List.mem_singleton.mp new]
      exact h.inside
  separate := by
    refine List.pairwise_append.mpr ⟨f.separate, List.pairwise_singleton _ _, fun a ha b hb => ?_⟩
    rw [List.mem_singleton.mp hb]
    exact h.separate a ha
  owned n data written := by
    obtain ⟨short, a, ha, own⟩ := f.owned n data written
    exact ⟨short, a, List.mem_append_left _ ha, own⟩

def write (f : Files size) (name data : Text) (h : f.Registered name)
    (short : data.chars.length < ataSectorSize) : Files size where
  entries := f.entries
  content := Function.update f.content name (some data)
  few := f.few
  proper := f.proper
  inside := f.inside
  separate := f.separate
  owned n text written := by
    by_cases here : n = name
    · subst here
      rw [Function.update_self] at written
      cases written
      exact ⟨short, h⟩
    · rw [Function.update_of_ne here] at written
      exact f.owned n text written

theorem write_content (f : Files size) (name data : Text) (h : f.Registered name)
    (short : data.chars.length < ataSectorSize) :
    (f.write name data h short).content = Function.update f.content name (some data) := rfl

variable {f : Files size} {a b : VdEntry}

theorem registered (ha : a ∈ f.entries) : f.Registered a.nameText := ⟨a, ha, rfl⟩

theorem registered_as (ha : a ∈ f.entries) {name : Text} (own : a.nameText = name) :
    f.Registered name := ⟨a, ha, own⟩

theorem separate_of_ne (ha : a ∈ f.entries) (hb : b ∈ f.entries) (differ : a ≠ b) : a.Separate b :=
  f.separate.forall ha hb differ

theorem same_name (ha : a ∈ f.entries) (hb : b ∈ f.entries) (names : a.nameText = b.nameText) :
    a = b := by
  by_contra differ
  exact (separate_of_ne ha hb differ).names names

/-- A catalogue is a consistent run of the table. -/
theorem consistent (f : Files size) : Consistent VdEntry.fileKey maximumEntries f.entries := by
  constructor
  · intro a ha b hb keys
    rw [(f.proper a ha).key, (f.proper b hb).key] at keys
    exact same_name ha hb (Option.some.inj keys)
  · intro a ha
    rw [List.take_of_length_le f.few]
    exact ha

end Files

inductive FileOp where
  | register (e : VdEntry)
  | writeData (data name : Text)
  | readData (name : Text)
  | readEntry (sector : UInt32)

inductive FileAnswer where
  | flag (b : Bool)
  | bytes (out : List UInt8)
  | entry (e : VdEntry)

open Classical in
/-- The service: a read of a name answers with the string last written under it, a read
of a registered first sector with the entry. -/
noncomputable def fileMap (size : Nat) : Service (Files size) FileOp FileAnswer where
  allowed f
    | .register e => f.Admits e
    | .writeData data name => f.Registered name ∧ data.chars.length < ataSectorSize
    | .readData name => f.Registered name
    | .readEntry sector => ∃ e ∈ f.entries, e.firstSector = sector
  next f
    | .register e => if h : f.Admits e then f.register e h else f
    | .writeData data name =>
        if h : f.Registered name ∧ data.chars.length < ataSectorSize then f.write name data h.1 h.2
        else f
    | .readData _ => f
    | .readEntry _ => f
  answers f
    | .register _, out => out = .flag true
    | .writeData _ _, out => out = .flag true
    | .readData name, out => ∀ data, f.content name = some data → out = .bytes (data.chars ++ [0])
    | .readEntry sector, out => ∀ e ∈ f.entries, e.firstSector = sector → out = .entry e

section Next

variable {size : Nat} {f : Files size}

theorem fileMap_register {e : VdEntry} (h : f.Admits e) :
    (fileMap size).next f (.register e) = f.register e h := dif_pos h

theorem fileMap_writeData {data name : Text} (h : f.Registered name)
    (short : data.chars.length < ataSectorSize) :
    (fileMap size).next f (.writeData data name) = f.write name data h short := dif_pos ⟨h, short⟩

end Next

/-- The calls of `fs.c`, each with a stack frame of its own. `writeData` is
`VD_WriteData(data, VD_Open(name))`. -/
inductive Call {σ : Type} (hw : Bus σ) : FsState σ → FileOp → FileAnswer → FsState σ → Prop
  | register {s t : FsState σ} {L : Locals} {e : VdEntry} {b : Bool}
      (settles : Settles (fun fuel => vdWrite hw fuel L e) s b t) :
      Call hw s (.register e) (.flag b) t
  | writeData {s t : FsState σ} {L : Locals} {junk : VdEntry} {data name : Text} {b : Bool}
      (settles : Settles (fun fuel => vdWriteData hw fuel L data (vdOpen junk s.entries name))
        s b t) :
      Call hw s (.writeData data name) (.flag b) t
  | readData {s t : FsState σ} {L : Locals} {name : Text} {out : List UInt8}
      (settles : Settles (fun fuel => vdReadData hw fuel L name) s out t) :
      Call hw s (.readData name) (.bytes out) t
  | readEntry {s t : FsState σ} {L : Locals} {sector : UInt32} {e : VdEntry}
      (settles : Settles (fun fuel => vdRead hw fuel L sector) s e t) :
      Call hw s (.readEntry sector) (.entry e) t

/-- The table is the catalogue, and each file has its entry and its string on the disk. -/
structure Tracks {σ : Type} (Rep : IdeState σ → Disk → Prop) (drive : UInt8) {size : Nat}
    (D : Disk) (s : FsState σ) (f : Files size) : Prop where
  mounted : Mounted Rep drive size s D
  table : Stored VdEntry.fileKey maximumEntries f.entries s.entries
  entry : ∀ e ∈ f.entries, D e.firstSector.toNat = Sector.ofEntry e
  data : ∀ e ∈ f.entries, ∀ data, f.content e.nameText = some data →
    HoldsString (D (e.firstSector.toNat + 1)).ptr data.chars

section Refinement

variable {σ : Type} {hw : Bus σ} {drive : UInt8} {Rep : IdeState σ → Disk → Prop} {size : Nat}
  {D : Disk} {s : FsState σ} {f : Files size} {e : VdEntry}

/-- A registered name opens its entry. -/
theorem Tracks.opens (k : Tracks Rep drive D s f) (he : e ∈ f.entries) (junk : VdEntry) :
    vdOpen junk s.entries e.nameText = e := by
  rw [vdOpen_stored k.table f.proper junk (f.proper e he).named,
    f.consistent.answer he (f.proper e he).key, Option.getD_some]

theorem Tracks.bound (k : Tracks Rep drive D s f) : size < 2 ^ 32 := by
  rw [← k.mounted.size]
  exact UInt32.toNat_lt _

/-- The data sector comes right behind, and neither sector number is the one at the wrap. -/
theorem Tracks.sectors (k : Tracks Rep drive D s f) (inside : e.firstSector.toNat + 1 < size) :
    (e.firstSector + 1).toNat = e.firstSector.toNat + 1 ∧ e.firstSector ≠ 0xFFFFFFFF ∧
      e.firstSector + 1 ≠ 0xFFFFFFFF := by
  have bound := k.bound
  have next : (e.firstSector + 1).toNat = e.firstSector.toNat + 1 := by
    have one : (1 : UInt32).toNat = 1 := rfl
    rw [UInt32.toNat_add, one]
    omega
  have top : (0xFFFFFFFF : UInt32).toNat = 4294967295 := rfl
  refine ⟨next, fun wrap => ?_, fun wrap => ?_⟩
  · have number := congrArg UInt32.toNat wrap
    omega
  · have number := congrArg UInt32.toNat wrap
    omega

variable (W : WorkingDrive hw drive Rep)

include W

theorem Tracks.settles_readEntry (k : Tracks Rep drive D s f) (he : e ∈ f.entries) (L : Locals) :
    ∃ t, Settles (fun fuel => vdRead hw fuel L e.firstSector) s e t ∧ Tracks Rep drive D t f := by
  obtain ⟨next, plain, _⟩ := k.sectors (f.inside e he)
  have inside := f.inside e he
  obtain ⟨t, settles, there, table⟩ := k.mounted.settles_vdRead W L plain
  have decoded : (Disk.get D size e.firstSector.toNat).entry = e := by
    rw [Disk.get, if_pos (by omega), k.entry e he, Sector.entry_ofEntry]
  rw [decoded] at settles
  exact ⟨t, settles, there, table ▸ k.table, k.entry, k.data⟩

theorem Tracks.settles_readData (k : Tracks Rep drive D s f) (he : e ∈ f.entries) (L : Locals)
    {data : Text} (written : f.content e.nameText = some data) :
    ∃ t, Settles (fun fuel => vdReadData hw fuel L e.nameText) s (data.chars ++ [0]) t := by
  obtain ⟨next, _, plain⟩ := k.sectors (f.inside e he)
  have inside := f.inside e he
  have opened := k.opens he L.notFound
  refine k.mounted.settles_vdReadData W L (by rw [opened]; exact plain) ?_
    (f.owned _ _ written).1
  rw [opened, next, Disk.get, if_pos inside]
  exact k.data e he data written

theorem Tracks.readData_keeps (k : Tracks Rep drive D s f) (he : e ∈ f.entries) {L : Locals}
    {out : List UInt8} {t : FsState σ}
    (settles : Settles (fun fuel => vdReadData hw fuel L e.nameText) s out t) :
    Tracks Rep drive D t f := by
  obtain ⟨_, _, plain⟩ := k.sectors (f.inside e he)
  have opened := k.opens he L.notFound
  obtain ⟨there, table, _⟩ := k.mounted.vdReadData_settled W L (by rw [opened]; exact plain) settles
  exact ⟨there, table ▸ k.table, k.entry, k.data⟩

omit W in
/-- The metadata sector of an admitted entry is nobody else's. -/
theorem Tracks.registered (k : Tracks Rep drive D s f) (admits : f.Admits e) {t : FsState σ}
    (there : Mounted Rep drive size t (Disk.put D size e.firstSector.toNat (Sector.ofEntry e)))
    (table : t.entries = place (unused VdEntry.fileKey s.entries) maximumEntries s.entries e) :
    Tracks Rep drive (Disk.put D size e.firstSector.toNat (Sector.ofEntry e)) t
      (f.register e admits) := by
  have inside := admits.inside
  refine ⟨there, ?_, fun a ha => ?_, fun a ha data written => ?_⟩
  · rw [table]
    exact k.table.place admits.proper.keyed
  · rcases List.mem_append.mp ha with old | new
    · have apart := (admits.separate a old).sectors a.firstSector.toNat (by simp [VdEntry.sectors])
      rw [Disk.put_of_ne fun same => apart (by simp [VdEntry.sectors, same])]
      exact k.entry a old
    · rw [List.mem_singleton.mp new, Disk.put, if_pos (by omega), Function.update_self]
  · rcases List.mem_append.mp ha with old | new
    · have apart := (admits.separate a old).sectors (a.firstSector.toNat + 1)
        (by simp [VdEntry.sectors])
      rw [Disk.put_of_ne fun same => apart (by simp [VdEntry.sectors, same])]
      exact k.data a old data written
    · rw [List.mem_singleton.mp new] at written
      obtain ⟨_, b, hb, own⟩ := f.owned _ _ written
      exact absurd own (admits.separate b hb).names

theorem Tracks.settles_register (k : Tracks Rep drive D s f) (admits : f.Admits e) (L : Locals) :
    ∃ t, Settles (fun fuel => vdWrite hw fuel L e) s true t ∧
      ∃ E, Tracks Rep drive E t (f.register e admits) := by
  obtain ⟨_, plain, _⟩ := k.sectors admits.inside
  obtain ⟨t, settles, there, table⟩ := k.mounted.settles_vdWrite W L plain
  exact ⟨t, settles, _, k.registered admits there table⟩

omit W in
/-- The data sector of a file is nobody else's. -/
theorem Tracks.written (k : Tracks Rep drive D s f) (he : e ∈ f.entries) {data : Text}
    (short : data.chars.length < ataSectorSize) {t : FsState σ}
    (there : Mounted Rep drive size t
      (Disk.put D size (e.firstSector.toNat + 1) (Sector.ofText data short)))
    (table : t.entries = s.entries) :
    Tracks Rep drive (Disk.put D size (e.firstSector.toNat + 1) (Sector.ofText data short)) t
      (f.write e.nameText data (Files.registered he) short) := by
  have inside := f.inside e he
  refine ⟨there, table ▸ k.table, fun a ha => ?_, fun a ha text written => ?_⟩
  · rw [Disk.put_of_ne ?_]
    · exact k.entry a ha
    · by_cases same : a = e
      · rw [same]
        omega
      · have apart := (Files.separate_of_ne ha he same).sectors a.firstSector.toNat
          (by simp [VdEntry.sectors])
        exact fun here => apart (by simp [VdEntry.sectors, here])
  · by_cases same : a = e
    · subst same
      rw [Files.write_content, Function.update_self] at written
      cases written
      rw [Disk.put, if_pos inside, Function.update_self]
      exact Sector.ofText_holds data short
    · have apart := Files.separate_of_ne ha he same
      rw [Files.write_content, Function.update_of_ne apart.names] at written
      have sectors := apart.sectors (a.firstSector.toNat + 1) (by simp [VdEntry.sectors])
      rw [Disk.put_of_ne fun here => sectors (by simp [VdEntry.sectors, here])]
      exact k.data a ha text written

theorem Tracks.settles_writeData (k : Tracks Rep drive D s f) (he : e ∈ f.entries) (L : Locals)
    {data : Text} (short : data.chars.length < ataSectorSize) :
    ∃ t, Settles (fun fuel => vdWriteData hw fuel L data e) s true t ∧
      ∃ E, Tracks Rep drive E t (f.write e.nameText data (Files.registered he) short) := by
  obtain ⟨next, _, plain⟩ := k.sectors (f.inside e he)
  obtain ⟨t, settles, there, table⟩ := k.mounted.settles_vdWriteData W L plain data
  rw [dataSector_short L s data short, next] at there
  exact ⟨t, settles, _, k.written he short there table⟩

/-- The calls of `fs.c` refine the map. -/
theorem call_refines :
    Refines (Call hw) (fileMap size) fun s f => ∃ D, Tracks Rep drive D s f := by
  rintro s f op out t ⟨D, k⟩ allowed made
  cases made with
  | @register _ L e b settles =>
      obtain ⟨u, expected, there⟩ := k.settles_register W allowed L
      obtain ⟨rfl, rfl⟩ := settles.unique expected
      rw [fileMap_register allowed]
      exact ⟨rfl, there⟩
  | @writeData _ L junk data name b settles =>
      obtain ⟨⟨e, he, rfl⟩, short⟩ := allowed
      rw [k.opens he junk] at settles
      obtain ⟨u, expected, there⟩ := k.settles_writeData W he L short
      obtain ⟨rfl, rfl⟩ := settles.unique expected
      rw [fileMap_writeData (Files.registered he) short]
      exact ⟨rfl, there⟩
  | @readData _ L name out settles =>
      obtain ⟨e, he, rfl⟩ := allowed
      refine ⟨fun data written => ?_, D, k.readData_keeps W he settles⟩
      obtain ⟨u, expected⟩ := k.settles_readData W he L written
      rw [(settles.unique expected).1]
  | @readEntry _ L sector e settles =>
      obtain ⟨a, ha, rfl⟩ := allowed
      obtain ⟨u, expected, there⟩ := k.settles_readEntry W ha L
      obtain ⟨rfl, rfl⟩ := settles.unique expected
      refine ⟨fun b hb same => ?_, D, there⟩
      by_contra differ
      have apart := (Files.separate_of_ne hb ha fun h => differ (by rw [h])).sectors
        b.firstSector.toNat (by simp [VdEntry.sectors])
      exact apart (by simp [VdEntry.sectors, same])

omit W in
/-- A zeroed table is the empty catalogue, whatever the disk holds. -/
theorem Tracks.start (mounted : Mounted Rep drive size s D)
    (zeroed : ∀ i, i < maximumEntries → s.entries i = VdEntry.zero) :
    Tracks Rep drive D s (Files.none : Files size) where
  mounted := mounted
  table := Stored.nil fun i hi => by rw [zeroed i hi]; exact VdEntry.zero_free
  entry _ h := nomatch h
  data _ h := nomatch h

/-- In every run of allowed calls each call is answered as the map has it. At its end
`VD_Read` returns every registered entry, and `VD_ReadData` the string last written. -/
theorem fileCalls_explained {s₀ : FsState σ} (mounted : Mounted Rep drive size s₀ D)
    (zeroed : ∀ i, i < maximumEntries → s₀.entries i = VdEntry.zero)
    {calls : List (FileOp × FileAnswer)}
    (run : Run (Call hw) (fileMap size) s₀ Files.none calls s f) :
    (fileMap size).Explains Files.none calls ∧
      (∀ e ∈ f.entries, ∀ L, ∃ t, Settles (fun fuel => vdRead hw fuel L e.firstSector) s e t) ∧
      ∀ e ∈ f.entries, ∀ data, f.content e.nameText = some data → ∀ L, ∃ t,
        Settles (fun fuel => vdReadData hw fuel L e.nameText) s (data.chars ++ [0]) t := by
  obtain ⟨⟨E, k⟩, explained⟩ := (call_refines W).run run ⟨D, Tracks.start mounted zeroed⟩
  refine ⟨explained, fun e he L => ?_, fun e he data written L => k.settles_readData W he L written⟩
  obtain ⟨t, settles, _⟩ := k.settles_readEntry W he L
  exact ⟨t, settles⟩

end Refinement

section Sample

theorem fileCalls_explained_hello :
    ∃ s f, Run (Call (ataDrive 0x1F0 0 fun _ _ => 3)) (fileMap 8)
        (qemuState 8 fun _ => Sector.blank) Files.none
        [(.register testTxt, .flag true), (.writeData hello testTxt.nameText, .flag true)] s f ∧
      ∃ t, Settles (fun fuel => vdReadData (ataDrive 0x1F0 0 fun _ _ => 3) fuel sampleLocals
        testTxt.nameText) s (hello.chars ++ [0]) t := by
  have mounted := qemu_mounted 8 fun _ => Sector.blank
  have start : Tracks (OnDrive 0x1F0 0 0) 0 _ _ (Files.none : Files 8) :=
    Tracks.start mounted fun _ _ => rfl
  have admits : (Files.none : Files 8).Admits testTxt :=
    ⟨by decide, testTxt_proper, by decide, fun _ h => nomatch h⟩
  obtain ⟨s, registered, _, first⟩ := start.settles_register qemu_working admits sampleLocals
  have here : testTxt ∈ ((Files.none : Files 8).register testTxt admits).entries :=
    List.mem_singleton_self testTxt
  have short : hello.chars.length < ataSectorSize := by decide
  obtain ⟨t, written, _, second⟩ := first.settles_writeData qemu_working here sampleLocals short
  rw [← first.opens here VdEntry.zero] at written
  have one : Run (Call (ataDrive 0x1F0 0 fun _ _ => 3)) (fileMap 8) (qemuState 8 fun _ => Sector.blank)
      Files.none ([] ++ [(.register testTxt, .flag true)]) s (Files.none.register testTxt admits) := by
    rw [← fileMap_register admits]
    exact Run.start.call admits (.register registered)
  have allowed : (fileMap 8).allowed (Files.none.register testTxt admits)
      (.writeData hello testTxt.nameText) := ⟨Files.registered here, short⟩
  have two := one.call allowed (.writeData written)
  rw [fileMap_writeData (Files.registered here) short] at two
  obtain ⟨_, _, reads⟩ := fileCalls_explained qemu_working mounted (fun _ _ => rfl) two
  refine ⟨t, _, two, reads testTxt here hello ?_ sampleLocals⟩
  rw [Files.write_content, Function.update_self]

end Sample

end VDK
