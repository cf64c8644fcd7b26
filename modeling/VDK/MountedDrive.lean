import VDK.AtaDrive
import VDK.FileTable

/-!
# The file system on a working drive

With the expected drive present and working, every call settles: `VD_Read` and
`VD_ReadData` deliver what one sector holds, `VD_Write` and `VD_WriteData` replace
one sector, and a sector number at or beyond the size is refused. The one number
left out is 0xFFFFFFFF, where the driver's check wraps.
-/
namespace VDK
open Fuel ByteMem FirstFit

namespace VdEntry

/-- Only the 24 bytes of the object are copied. -/
theorem ofPtr_congr {p q : Ptr} (same : ∀ i, i < sizeofVdEntry → p i = q i) :
    ofPtr p = ofPtr q := by
  have copied : ∀ i, i < 24 → p i = q i := same
  simp only [ofPtr, mk.injEq]
  refine ⟨?_, copied 11 (by decide), copied 12 (by decide), ?_, ?_, ?_⟩
  · funext i
    exact copied i (Nat.lt_trans i.isLt (by decide))
  · funext i
    exact copied (13 + i) (by omega)
  · rw [copied 16 (by decide), copied 17 (by decide), copied 18 (by decide), copied 19 (by decide)]
  · rw [copied 20 (by decide), copied 21 (by decide), copied 22 (by decide), copied 23 (by decide)]

theorem ofPtr_byte (e : VdEntry) : ofPtr e.byte = e := by
  obtain ⟨name, attributes, isDirectory, pad, position, firstSector⟩ := e
  simp only [ofPtr, mk.injEq]
  refine ⟨?_, rfl, rfl, ?_, word32_bytes32 position, word32_bytes32 firstSector⟩
  · funext i
    exact byte_name _ i.isLt
  · funext i
    have high : ¬ (13 + i.val < 11) := by omega
    have apart : 13 + i.val ≠ 11 ∧ 13 + i.val ≠ 12 := by omega
    have low : 13 + i.val < 16 := by omega
    simp only [byte, dif_neg high, if_neg apart.1, if_neg apart.2, dif_pos low,
      Nat.add_sub_cancel_left]

end VdEntry

namespace Sector

def ofEntry (e : VdEntry) : Sector := padded ((List.range sizeofVdEntry).map e.byte) (by
  rw [List.length_map, List.length_range]
  decide)

def entry (x : Sector) : VdEntry := VdEntry.ofPtr x.ptr

def ofText (data : Text) (short : data.chars.length < 512) : Sector :=
  padded (data.chars ++ [0]) (by
    rw [List.length_append, List.length_singleton]
    omega)

theorem entry_ofEntry (e : VdEntry) : (ofEntry e).entry = e := by
  refine Eq.trans (VdEntry.ofPtr_congr fun i hi => ?_) (VdEntry.ofPtr_byte e)
  rw [ofEntry, padded_ptr, List.getD_eq_getElem?_getD, List.getElem?_map, List.getElem?_range hi]
  rfl

/-- The zero padding ends the string, whatever the sector held before. -/
theorem ofText_holds (data : Text) (short : data.chars.length < 512) :
    HoldsString (ofText data short).ptr data.chars := by
  apply data.holds.congr
  intro i _
  rw [ofText, padded_ptr, Text.ptr]
  simp only [List.getD_eq_getElem?_getD]
  by_cases h : i < data.chars.length
  · rw [List.getElem?_append_left h]
  · rw [List.getElem?_append_right (Nat.not_lt.mp h), List.getElem?_eq_none (Nat.not_lt.mp h),
      List.getElem?_singleton]
    split
    · rfl
    · rfl

end Sector

/-- The drive that the file system looks for is `drive`, of `size` sectors, and holds `D`. -/
structure Mounted {σ : Type} (Rep : IdeState σ → Disk → Prop) (drive : UInt8) (size : Nat)
    (s : FsState σ) (D : Disk) : Prop where
  model : fsDrive s.ide.devices = drive
  size : (s.ide.devices drive.toNat).size.toNat = size
  rep : Rep s.ide D

section Sectors

variable {σ : Type} {hw : Bus σ} {drive : UInt8} {Rep : IdeState σ → Disk → Prop}
  (W : WorkingDrive hw drive Rep) {s : IdeState σ} {D : Disk} {lba : UInt32}

include W

/-- Short of the wrap, the check of a one-sector request is exact. -/
theorem WorkingDrive.check_one (rep : Rep s D) (plain : lba ≠ 0xFFFFFFFF) :
    sectorCheck s.devices drive 1 lba = .passed ↔
      lba.toNat < (s.devices drive.toNat).size.toNat := by
  obtain ⟨index, present, ata⟩ := W.present s D rep
  have low : drive ≤ 5 := UInt8.le_iff_toNat_le.mpr (Nat.le_of_lt index)
  have bound := lba.toNat_lt
  have apart : lba.toNat ≠ 4294967295 := fun e => plain (UInt32.toNat_inj.mp e)
  have sum : (lba + (1 : UInt8).toUInt32).toNat = lba.toNat + 1 := by
    have one : ((1 : UInt8).toUInt32).toNat = 1 := rfl
    rw [UInt32.toNat_add, one]
    omega
  rw [sectorCheck_passed, UInt32.le_iff_toNat_le, sum]
  constructor
  · rintro ⟨_, _, fits⟩
    exact fits ata
  · intro inside
    exact ⟨low, present, fun _ => inside⟩

theorem WorkingDrive.settles_sectors (rep : Rep s D) {direction : Direction} {buffer : UInt32}
    (err : UInt8) (passed : sectorCheck s.devices drive 1 lba = .passed) {t : IdeState σ}
    (access : Settles (fun fuel => ideAtaAccess hw fuel direction drive lba 1 buffer) s 0 t) :
    Settles (fun fuel => ideSectors hw fuel direction err drive 1 lba buffer) s 0 t := by
  obtain ⟨N, settled⟩ := access
  refine ⟨N, fun fuel enough => ?_⟩
  rw [ideSectors_ata hw fuel direction passed (W.present s D rep).2.2, settled fuel enough,
    Exec.andThen_some]
  dsimp only
  rw [idePrintError_none]
  rfl

theorem WorkingDrive.settles_read (rep : Rep s D) (plain : lba ≠ 0xFFFFFFFF) (err : UInt8)
    (buffer : UInt32) :
    ∃ code t, Settles (fun fuel => ideReadSectors hw fuel err drive 1 lba buffer) s code t ∧
      Rep t D ∧ t.devices = s.devices ∧
      t.mem = if lba.toNat < (s.devices drive.toNat).size.toNat then
        s.mem.write buffer (D lba.toNat).bytes else s.mem := by
  by_cases inside : lba.toNat < (s.devices drive.toNat).size.toNat
  · obtain ⟨t, access, there, filled, devices⟩ := W.read s D lba buffer rep inside
    refine ⟨0, t, ?_, there, devices, by rw [if_pos inside, filled]⟩
    exact W.settles_sectors rep err ((W.check_one rep plain).mpr inside) access
  · obtain ⟨code, calls, _, run⟩ := ideSectors_refused hw .read
      (fun passed => inside ((W.check_one rep plain).mp passed))
    refine ⟨code, _, Settles.of_eq run, ?_, rfl, by rw [if_neg inside]⟩
    exact W.frame s _ D rep rfl rfl rfl

theorem WorkingDrive.settles_write (rep : Rep s D) (plain : lba ≠ 0xFFFFFFFF) (err : UInt8)
    (buffer : UInt32) :
    ∃ code t, Settles (fun fuel => ideWriteSectors hw fuel err drive 1 lba buffer) s code t ∧
      Rep t (Disk.put D (s.devices drive.toNat).size.toNat lba.toNat (Sector.ofMem s.mem buffer)) ∧
      t.devices = s.devices := by
  by_cases inside : lba.toNat < (s.devices drive.toNat).size.toNat
  · obtain ⟨t, access, there, _, devices⟩ := W.write s D lba buffer rep inside
    refine ⟨0, t, ?_, by rw [Disk.put, if_pos inside]; exact there, devices⟩
    exact W.settles_sectors rep err ((W.check_one rep plain).mpr inside) access
  · obtain ⟨code, calls, _, run⟩ := ideSectors_refused hw .write
      (fun passed => inside ((W.check_one rep plain).mp passed))
    refine ⟨code, _, Settles.of_eq run, ?_, rfl⟩
    rw [Disk.put, if_neg inside]
    exact W.frame s _ D rep rfl rfl rfl

end Sectors

section Calls

variable {σ : Type} {hw : Bus σ} {drive : UInt8} {Rep : IdeState σ → Disk → Prop} {size : Nat}
  (W : WorkingDrive hw drive Rep) {s : FsState σ} {D : Disk} (m : Mounted Rep drive size s D)
  (L : Locals)

include W m

theorem Mounted.updateMem (f : Mem → Mem) : Mounted Rep drive size (updateMem f s) D :=
  ⟨m.model, m.size, W.frame s.ide _ D m.rep rfl rfl rfl⟩

theorem Mounted.cleared : Mounted Rep drive size (clearBuffer L s) D := m.updateMem W _

theorem Mounted.settles_fetch {lba : UInt32} (plain : lba ≠ 0xFFFFFFFF) :
    ∃ code t, Settles (fun fuel => ideReadSectors hw fuel L.err (fsDrive s.ide.devices) 1 lba L.buf)
        (clearBuffer L s).ide code t ∧ Mounted Rep drive size { s with ide := t } D ∧
      ∀ i, i < 512 → t.mem.view L.buf i = (Disk.get D size lba.toNat).ptr i := by
  have cleared := m.cleared W L
  obtain ⟨code, t, settled, there, devices, filled⟩ := W.settles_read cleared.rep plain L.err L.buf
  have devices' : t.devices = s.ide.devices := devices.trans (clearBuffer_devices L s)
  rw [m.model]
  refine ⟨code, t, settled, ⟨by rw [devices']; exact m.model, by rw [devices']; exact m.size, there⟩,
    fun i hi => ?_⟩
  rw [cleared.size] at filled
  rw [filled, Disk.get]
  split
  · exact Sector.view_write _ _ _ hi
  · rw [clearBuffer_mem]
    exact Sector.view_write Sector.blank _ _ hi

theorem Mounted.settles_vdRead {sector : UInt32} (plain : sector ≠ 0xFFFFFFFF) :
    ∃ t, Settles (fun fuel => vdRead hw fuel L sector) s (Disk.get D size sector.toNat).entry t ∧
      Mounted Rep drive size t D ∧ t.entries = s.entries := by
  obtain ⟨code, t, ⟨N, settled⟩, there, view⟩ := m.settles_fetch W L plain
  refine ⟨_, ⟨N, fun fuel enough => ?_⟩, there, rfl⟩
  have decoded : VdEntry.ofPtr (t.mem.view L.buf) = (Disk.get D size sector.toNat).entry :=
    VdEntry.ofPtr_congr fun i hi => view i (Nat.lt_trans hi (by decide))
  rw [vdRead_run, settled fuel enough, ← decoded]
  rfl

/-- Once the sector is in the buffer, `VD_ReadData` is the `strcpy` out of it. -/
theorem Mounted.vdReadData_copies {path : Text}
    (plain : (vdOpen L.notFound s.entries path).firstSector + 1 ≠ 0xFFFFFFFF) :
    ∃ t view N, (∀ fuel, N ≤ fuel →
        (vdReadData hw fuel L path).run s = (strcpy fuel view, t)) ∧
      Mounted Rep drive size t D ∧ t.entries = s.entries ∧
      ∀ i, i < 512 → view i = (Disk.get D size
        ((vdOpen L.notFound s.entries path).firstSector + 1).toNat).ptr i := by
  obtain ⟨code, t, ⟨N, settled⟩, there, view⟩ := m.settles_fetch W L plain
  refine ⟨{ s with ide := t }, t.mem.view L.buf, N, fun fuel enough => ?_, there, rfl, view⟩
  rw [vdReadData_run, settled fuel enough]
  rfl

/-- A string that ends inside the sector is delivered with its terminator. -/
theorem Mounted.settles_vdReadData {path : Text}
    (plain : (vdOpen L.notFound s.entries path).firstSector + 1 ≠ 0xFFFFFFFF) {text : List UInt8}
    (holds : HoldsString (Disk.get D size
      ((vdOpen L.notFound s.entries path).firstSector + 1).toNat).ptr text)
    (short : text.length < 512) :
    ∃ t, Settles (fun fuel => vdReadData hw fuel L path) s (text ++ [0]) t := by
  obtain ⟨t, view, N, run, _, _, same⟩ := m.vdReadData_copies W L plain
  have buffered : HoldsString view text :=
    holds.congr fun i hi => same i (Nat.lt_of_le_of_lt hi short)
  refine ⟨t, max N (text.length + 1), fun fuel enough => ?_⟩
  rw [run fuel (Nat.le_trans (Nat.le_max_left _ _) enough), strcpy_holds buffered]
  exact Nat.le_trans (Nat.le_max_right _ _) enough

/-- Whatever `VD_ReadData` delivers from inside the buffer is the string of the sector,
and no call changes the disk or the table. -/
theorem Mounted.vdReadData_settled {path : Text}
    (plain : (vdOpen L.notFound s.entries path).firstSector + 1 ≠ 0xFFFFFFFF) {out : List UInt8}
    {u : FsState σ} (settles : Settles (fun fuel => vdReadData hw fuel L path) s out u) :
    Mounted Rep drive size u D ∧ u.entries = s.entries ∧
      (out.length ≤ 512 → ∃ text, out = text ++ [0] ∧ HoldsString (Disk.get D size
        ((vdOpen L.notFound s.entries path).firstSector + 1).toNat).ptr text) := by
  obtain ⟨t, view, N, run, there, table, same⟩ := m.vdReadData_copies W L plain
  obtain ⟨M, settled⟩ := settles
  have both := (run (max N M) (Nat.le_max_left N M)).symm.trans
    (settled (max N M) (Nat.le_max_right N M))
  obtain rfl : t = u := congrArg Prod.snd both
  refine ⟨there, table, fun short => ?_⟩
  obtain ⟨text, rfl, holds⟩ := strcpy_some (congrArg Prod.fst both)
  refine ⟨text, rfl, holds.congr fun i hi => (same i ?_).symm⟩
  simp only [List.length_append, List.length_singleton] at short
  omega

theorem Mounted.vdRead_iff {sector : UInt32} (plain : sector ≠ 0xFFFFFFFF) {e : VdEntry} :
    (∃ u, Settles (fun fuel => vdRead hw fuel L sector) s e u) ↔
      e = (Disk.get D size sector.toNat).entry := by
  obtain ⟨t, settles, _⟩ := m.settles_vdRead W L plain
  constructor
  · rintro ⟨u, other⟩
    exact (other.unique settles).1
  · rintro rfl
    exact ⟨t, settles⟩

/-- `VD_ReadData` delivers the string of the sector, as far as it ends inside the buffer. -/
theorem Mounted.vdReadData_iff {path : Text}
    (plain : (vdOpen L.notFound s.entries path).firstSector + 1 ≠ 0xFFFFFFFF) {out : List UInt8}
    (short : out.length ≤ 512) :
    (∃ u, Settles (fun fuel => vdReadData hw fuel L path) s out u) ↔
      ∃ text, out = text ++ [0] ∧ HoldsString (Disk.get D size
        ((vdOpen L.notFound s.entries path).firstSector + 1).toNat).ptr text := by
  constructor
  · rintro ⟨u, settles⟩
    exact (m.vdReadData_settled W L plain settles).2.2 short
  · rintro ⟨text, rfl, holds⟩
    rw [List.length_append, List.length_singleton] at short
    exact m.settles_vdReadData W L plain holds short

theorem Mounted.settles_store {lba : UInt32} (plain : lba ≠ 0xFFFFFFFF) :
    ∃ code t, Settles (fun fuel => ideWriteSectors hw fuel L.err (fsDrive s.ide.devices) 1 lba
        L.buf) s.ide code t ∧
      Mounted Rep drive size { s with ide := t }
        (Disk.put D size lba.toNat (Sector.ofMem s.ide.mem L.buf)) := by
  obtain ⟨code, t, settled, there, devices⟩ := W.settles_write m.rep plain L.err L.buf
  rw [m.size] at there
  rw [m.model]
  exact ⟨code, t, settled, by rw [devices]; exact m.model, by rw [devices]; exact m.size, there⟩

theorem Mounted.settles_vdWrite {file : VdEntry} (plain : file.firstSector ≠ 0xFFFFFFFF) :
    ∃ t, Settles (fun fuel => vdWrite hw fuel L file) s true t ∧
      Mounted Rep drive size t
        (Disk.put D size file.firstSector.toNat (Sector.ofEntry file)) ∧
      t.entries = place (unused VdEntry.fileKey s.entries) maximumEntries s.entries file := by
  have buffered := (m.cleared W L).updateMem W
    (fun mem => memcpy mem L.buf file.byte sizeofVdEntry)
  obtain ⟨code, t, ⟨N, settled⟩, there⟩ := buffered.settles_store W L plain
  have content : Sector.ofMem (entryBuffered L file s).mem L.buf = Sector.ofEntry file := by
    rw [entryBuffered, updateMem_eq]
    dsimp only
    rw [memcpy_eq_write, clearBuffer_mem]
    exact Sector.ofMem_padded _ _ _ _
  refine ⟨storeEntry file { s with ide := t }, ⟨N, fun fuel enough => ?_⟩, ?_,
    storeEntry_entries file _⟩
  · have run := settled fuel enough
    rw [updateMem_devices, clearBuffer_devices] at run
    rw [vdWrite_run, entryBuffered, run]
  · rw [← content]
    exact ⟨there.model, there.size, there.rep⟩

/-- The sector that `VD_WriteData` stores. -/
def dataSector (data : Text) (s : FsState σ) : Sector :=
  Sector.ofMem (dataBuffered L data s).mem L.buf

theorem Mounted.settles_vdWriteData {file : VdEntry} (plain : file.firstSector + 1 ≠ 0xFFFFFFFF)
    (data : Text) :
    ∃ t, Settles (fun fuel => vdWriteData hw fuel L data file) s true t ∧
      Mounted Rep drive size t
        (Disk.put D size (file.firstSector + 1).toNat (dataSector L data s)) ∧
      t.entries = s.entries := by
  have buffered := (m.cleared W L).updateMem W (fun mem => mem.write L.buf (strcpyText data))
  obtain ⟨code, t, ⟨N, settled⟩, there⟩ := buffered.settles_store W L plain
  refine ⟨{ s with ide := t }, ⟨N, fun fuel enough => ?_⟩, ?_, rfl⟩
  · have run := settled fuel enough
    rw [updateMem_devices, clearBuffer_devices] at run
    rw [vdWriteData_run, dataBuffered, run]
    rfl
  · exact ⟨there.model, there.size, there.rep⟩

end Calls

theorem dataSector_short {σ : Type} (L : Locals) (s : FsState σ) (data : Text)
    (short : data.chars.length < 512) : dataSector L data s = Sector.ofText data short := by
  rw [dataSector, dataBuffered, updateMem_eq]
  dsimp only
  rw [strcpyText_eq, clearBuffer_mem]
  exact Sector.ofMem_padded _ _ _ _

section QemuDisk

/-- A QEMU disk of `size` sectors behind the primary channel, holding `D`, under a zeroed table. -/
def qemuState (size : UInt32) (D : Disk) : FsState DriveState where
  ide := foundState
    { file := ⟨⟨0, 0⟩, ⟨0, 0⟩, ⟨0, 0⟩, ⟨0, 0⟩, 0⟩, phase := .idle, busy := 0, events := 0,
      sectors := D, medium := D, cached := [] }
    { primaryMaster size with model := qemuHarddisk.chars }
  entries _ := VdEntry.zero

theorem qemu_working : WorkingDrive (ataDrive 0x1F0 0 fun _ _ => 3) 0 (OnDrive 0x1F0 0 0) :=
  ataDrive_working 0x1F0 0 (fun _ _ => 3) 0

theorem qemu_mounted (size : UInt32) (D : Disk) :
    Mounted (OnDrive 0x1F0 0 0) 0 size.toNat (qemuState size D) D where
  model := by
    have found : ataGetDriveByModel (qemuState size D).ide.devices qemuHarddisk = 0 := by
      have slots : (fun i => decide (strcmpText ((qemuState size D).ide.devices i).modelPtr
          qemuHarddisk = some 0)) =
          fun i => decide (strcmpText ((qemuState 0 fun _ => Sector.blank).ide.devices i).modelPtr
            qemuHarddisk = some 0) := by
        funext i
        rcases i with _ | i
        · rfl
        · rfl
      rw [ataGetDriveByModel, slots]
      decide
    rw [fsDrive, found]
    rfl
  size := rfl
  rep :=
    { index := by decide
      present := (by decide : (1 : UInt8) ≠ 0)
      ata := rfl
      linear := (by decide : (0x200 : UInt16) &&& 0x200 ≠ 0)
      slave := Or.inl rfl
      selected := rfl
      ports := Or.inl ⟨rfl, rfl⟩
      block := rfl
      sectors := rfl }

end QemuDisk

end VDK
