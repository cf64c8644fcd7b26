import VDK.IdeRuns

/-!
# The sector functions around a transfer

`ide_print_error` prints and reads at most the error register. The sector
functions either refuse a request without an access or pass on what the transfer
returned, 0 only for 0.
-/
namespace VDK
open Fuel ByteMem

section PrintError

variable {σ : Type} (hw : Bus σ)

/-- `t` is `s` after printing and byte reads of one port. -/
def Reports (port : UInt16) (s t : IdeState σ) : Prop :=
  ∃ b tr calls, t = { s.after b tr with printed := s.printed ++ calls } ∧
    ∀ a ∈ tr, ∃ value, a = Access.inb port value

variable {port : UInt16} {s t : IdeState σ}

theorem Reports.refl (port : UInt16) (s : IdeState σ) : Reports port s s :=
  ⟨s.bus, [], [], by simp [IdeState.after], by simp⟩

theorem Reports.printf (h : Reports port s t) (fmt : String) (args : List PrintfArg) :
    Reports port s (t.printf fmt args) := by
  obtain ⟨b, tr, calls, rfl, reads⟩ := h
  exact ⟨b, tr, calls ++ [⟨fmt, args⟩], by simp [IdeState.printf], reads⟩

theorem Reports.read (h : Reports port s t) (b : σ) (value : UInt8) :
    Reports port s (t.after b [Access.inb port value]) := by
  obtain ⟨c, tr, calls, rfl, reads⟩ := h
  refine ⟨b, tr ++ [Access.inb port value], calls, by simp [IdeState.after], ?_⟩
  intro a member
  rcases List.mem_append.mp member with earlier | last
  · exact reads a earlier
  · exact ⟨value, List.mem_singleton.mp last⟩

theorem Reports.causes (h : Reports port s t) (st err : UInt8)
    (causes : List (UInt8 × String × UInt8)) :
    Reports port s (reportCauses st causes (err, t)).2 := by
  induction causes generalizing err t with
  | nil => exact h
  | cons c causes ih =>
      rw [reportCauses]
      split
      · exact ih (h.printf c.2.1 []) c.2.2
      · exact ih h err

/-- `ide_print_error` prints and reads at most the error register. -/
theorem idePrintError_reports (drive err : UInt8) (s : IdeState σ) :
    Reports ((s.channels (s.devices drive.toNat).channel.toNat).base + 1) s
      (idePrintError hw drive err s).2 := by
  unfold idePrintError
  by_cases none : err = 0
  · rw [if_pos none]
    exact Reports.refl _ s
  · rw [if_neg none]
    have opened := (Reports.refl ((s.channels (s.devices drive.toNat).channel.toNat).base + 1)
      s).printf "IDE:" []
    apply Reports.printf
    split
    · exact opened.printf _ _
    split
    · rw [ideReadRegister_low hw _ ataRegError (by decide) (s.printf "IDE:" []) rfl]
      exact (opened.read _ _).causes _ _ _
    split
    · exact opened.printf _ _
    split
    · exact opened.printf _ _
    · exact opened

theorem reportCauses_bus (st : UInt8) (causes : List (UInt8 × String × UInt8))
    (r : UInt8 × IdeState σ) : (reportCauses st causes r).2.bus = r.2.bus := by
  induction causes generalizing r with
  | nil => rfl
  | cons c causes ih =>
      rw [reportCauses, ih]
      split
      · rfl
      · rfl

/-- The bus sees one read of the error register or nothing. -/
theorem idePrintError_bus (drive err : UInt8) (s : IdeState σ) :
    (idePrintError hw drive err s).2.bus = s.bus ∨
      ∃ port, (idePrintError hw drive err s).2.bus = (hw.inb port s.bus).2 := by
  unfold idePrintError
  by_cases none : err = 0
  · rw [if_pos none]
    exact Or.inl rfl
  · rw [if_neg none]
    dsimp only
    split
    · exact Or.inl rfl
    split
    · rw [ideReadRegister_low hw _ ataRegError (by decide) (s.printf "IDE:" []) rfl]
      exact Or.inr ⟨_, reportCauses_bus _ _ _⟩
    split
    · exact Or.inl rfl
    split
    · exact Or.inl rfl
    · exact Or.inl rfl

theorem idePrintError_none (drive : UInt8) (s : IdeState σ) : idePrintError hw drive 0 s = (0, s) :=
  if_pos rfl

theorem reportCauses_code (st : UInt8) (causes : List (UInt8 × String × UInt8))
    (codes : ∀ c ∈ causes, c.2.2 ≠ 0) (r : UInt8 × IdeState σ) (nonzero : r.1 ≠ 0) :
    (reportCauses st causes r).1 ≠ 0 := by
  induction causes generalizing r with
  | nil => exact nonzero
  | cons c causes ih =>
      rw [reportCauses]
      apply ih fun d hd => codes d (List.mem_cons_of_mem c hd)
      split
      · exact codes c List.mem_cons_self
      · exact nonzero

/-- Only the code 0 is passed on as 0. -/
theorem idePrintError_zero (drive err : UInt8) (s : IdeState σ) :
    (idePrintError hw drive err s).1 = 0 ↔ err = 0 := by
  unfold idePrintError
  by_cases none : err = 0
  · simp [none]
  · rw [if_neg none]
    refine ⟨fun e => ?_, fun e => absurd e none⟩
    exfalso
    dsimp only at e
    split at e
    · cases e
    split at e
    · exact reportCauses_code _ errorCauses (by decide) _ none e
    split at e
    · cases e
    split at e
    · cases e
    · exact none e

end PrintError

section Sectors

variable {σ : Type} (hw : Bus σ) (fuel : Nat) (direction : Direction)
  {err drive numSectors : UInt8} {lba buffer : UInt32} {s : IdeState σ}

theorem sectorCheck_passed (devices : Nat → IdeDevice) (drive numSectors : UInt8) (lba : UInt32) :
    sectorCheck devices drive numSectors lba = .passed ↔
      drive ≤ 5 ∧ (devices drive.toNat).reserved ≠ 0 ∧
        ((devices drive.toNat).type = ideAta →
          lba + numSectors.toUInt32 ≤ (devices drive.toNat).size) := by
  unfold sectorCheck
  by_cases absent : drive > 5 ∨ (devices drive.toNat).reserved = 0
  · rw [if_pos absent]
    refine ⟨by simp, ?_⟩
    rintro ⟨index, present, _⟩
    rcases absent with beyond | gone
    · exact absurd index (UInt8.not_le.mpr beyond)
    · exact absurd gone present
  · rw [if_neg absent]
    obtain ⟨index, present⟩ := not_or.mp absent
    split
    · rename_i beyond
      refine ⟨by simp, ?_⟩
      rintro ⟨_, _, fits⟩
      exact absurd (fits beyond.2) (UInt32.not_le.mpr beyond.1)
    · rename_i within
      refine ⟨fun _ => ⟨UInt8.not_lt.mp index, present, fun ata => ?_⟩, fun _ => rfl⟩
      exact UInt32.not_lt.mp fun beyond => within ⟨beyond, ata⟩

/-- A refused request returns its code without an access. -/
theorem ideSectors_refused (refused : sectorCheck s.devices drive numSectors lba ≠ .passed) :
    ∃ code calls, code < 0 ∧ ∀ fuel,
      (ideSectors hw fuel direction err drive numSectors lba buffer).run s =
        (some code, { s with printed := s.printed ++ calls }) := by
  unfold ideSectors
  simp only [Exec.run_bind, Exec.run_get, Exec.andThen_some]
  cases h : sectorCheck s.devices drive numSectors lba with
  | driveNotFound => exact ⟨-1, _, by decide, fun _ => rfl⟩
  | outOfRange => exact ⟨-2, _, by decide, fun _ => rfl⟩
  | passed => exact absurd h refused

/-- An accepted request on an ATA drive returns the reported code of the transfer. -/
theorem ideSectors_ata (passed : sectorCheck s.devices drive numSectors lba = .passed)
    (ata : (s.devices drive.toNat).type = ideAta) :
    (ideSectors hw fuel direction err drive numSectors lba buffer).run s =
      Exec.andThen ((ideAtaAccess hw fuel direction drive lba numSectors buffer).run s) fun e =>
        ⟨fun t => (some ((idePrintError hw drive e t).1.toNat : Int),
          (idePrintError hw drive e t).2)⟩ := by
  unfold ideSectors
  simp only [Exec.run_bind, Exec.run_get, Exec.andThen_some, passed, if_pos ata]
  rfl

/-- On any other device the unassigned local is reported. -/
theorem ideSectors_other (passed : sectorCheck s.devices drive numSectors lba = .passed)
    (other : (s.devices drive.toNat).type ≠ ideAta) :
    (ideSectors hw fuel direction err drive numSectors lba buffer).run s =
      (some ((idePrintError hw drive err s).1.toNat : Int), (idePrintError hw drive err s).2) := by
  unfold ideSectors
  simp only [Exec.run_bind, Exec.run_get, Exec.andThen_some, passed, if_neg other, Exec.run_pure]
  rfl

end Sectors

section Examples

/-- Hardware that answers every read alike and ignores writes. -/
def steadyBus (status : UInt8) : Bus Unit where
  inb _ b := (status, b)
  inw _ b := (0, b)
  inl _ b := (0, b)
  outb _ _ b := b
  outw _ _ b := b

/-- An LBA drive with `size` sectors, the master of the primary channel. -/
def primaryMaster (size : UInt32) : IdeDevice :=
  { reserved := 1, channel := 0, drive := 0, type := ideAta, signature := 0, features := 0x200,
    commandSets := 0, size := size, model := List.replicate 41 0 }

def noDevice : IdeDevice :=
  { reserved := 0, channel := 0, drive := 0, type := ideAta, signature := 0, features := 0,
    commandSets := 0, size := 0, model := List.replicate 41 0 }

/-- The globals with the channels of `ata_init` and one device in slot 0. -/
def foundState {σ : Type} (b : σ) (device : IdeDevice) : IdeState σ where
  bus := b
  mem := fun _ => 0
  log := []
  channels i := if i = 0 then ⟨0x1F0, 0x3F6, 0, 0⟩ else ⟨0x170, 0x376, 0, 0⟩
  devices i := if i = 0 then device else noDevice
  ideIrqInvoked := 0
  printed := []

end Examples

end VDK
