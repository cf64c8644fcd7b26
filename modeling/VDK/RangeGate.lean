import VDK.SectorRuns
import VDK.IdePorts

/-!
# The range check of the sector functions

A request goes on to `ide_ata_access` when it makes a port write. The check uses
a 32-bit sum, a size cut to 32 bits and an index compared with `>`; the exact
condition under which it still decides `lba + num_sectors <= C` names all three.
-/
namespace VDK
open Fuel ByteMem

/-- The sectors an IDENTIFY block declares: words 100-103 with 48-bit addressing,
words 60-61 without. -/
def capacity (buf : Ptr) : Nat :=
  if dwordAt buf ataIdentCommandsets &&& ((1 : UInt32) <<< 26) ≠ 0 then
    (dwordAt buf ataIdentMaxLbaExt).toNat + 2 ^ 32 * (dwordAt buf (ataIdentMaxLbaExt + 4)).toNat
  else (dwordAt buf ataIdentMaxLba).toNat

theorem identifySize_toNat (buf : Ptr) : (identifySize buf).toNat = capacity buf % 2 ^ 32 := by
  unfold identifySize capacity
  split
  · have low := (dwordAt buf ataIdentMaxLbaExt).toNat_lt
    omega
  · have low := (dwordAt buf ataIdentMaxLba).toNat_lt
    omega

/-- Every ATA drive in the table has the size of its IDENTIFY block. -/
def SizesIdentified (devices : Nat → IdeDevice) (blocks : Nat → Ptr) : Prop :=
  ∀ i, i < maximumIdeDevices → (devices i).reserved ≠ 0 → (devices i).type = ideAta →
    (devices i).size = identifySize (blocks i)

section GoesOn

variable {σ : Type} (hw : Bus σ) {s t u : IdeState σ}

def WritesPort (s t : IdeState σ) : Prop :=
  ∃ tr port value, t.log = s.log ++ tr ∧ Access.outb port value ∈ tr

theorem WritesPort.extend (first : WritesPort s t) {tr : List Access} (log : u.log = t.log ++ tr) :
    WritesPort s u := by
  obtain ⟨ur, port, value, grown, member⟩ := first
  exact ⟨ur ++ tr, port, value, by rw [log, grown, List.append_assoc],
    List.mem_append_left tr member⟩

theorem not_writesPort {tr : List Access} (log : t.log = s.log ++ tr)
    (reads : ∀ a ∈ tr, ∃ port value, a = Access.inb port value) : ¬ WritesPort s t := by
  rintro ⟨ur, port, value, log', member⟩
  rw [List.append_cancel_left (log'.symm.trans log)] at member
  obtain ⟨p, v, e⟩ := reads _ member
  cases e

theorem ideAtaAccess_writesPort (fuel : Nat) (direction : Direction) (drive : UInt8)
    (lba : UInt32) (numSectors : UInt8) (buffer : UInt32) (s : IdeState σ) :
    WritesPort s ((ideAtaAccess hw fuel direction drive lba numSectors buffer).run s).2 := by
  obtain ⟨reads, t, channels, _, _, ⟨run, log⟩ | ⟨run, log⟩⟩ :=
    ideAtaAccess_cases hw fuel direction drive lba numSectors buffer s rfl rfl
  · rw [run]
    exact ⟨_, _, _, log, List.mem_cons_self⟩
  · obtain ⟨⟨rest, grown, _⟩, _⟩ := onChannel_transfer hw fuel direction _ numSectors buffer t
      (by rw [channels, maskInterrupts_base]) rfl
    rw [run]
    have started : WritesPort s t :=
      ⟨_, _, _, log, List.mem_append_left _ List.mem_cons_self⟩
    exact started.extend grown

theorem idePrintError_log (drive err : UInt8) (s : IdeState σ) :
    ∃ tr, (idePrintError hw drive err s).2.log = s.log ++ tr ∧
      ∀ a ∈ tr, ∃ port value, a = Access.inb port value := by
  obtain ⟨b, tr, calls, e, reads⟩ := idePrintError_reports hw drive err s
  exact ⟨tr, by rw [e]; rfl, fun a member => ⟨_, reads a member⟩⟩

/-- A sector function goes on to `ide_ata_access` exactly after both checks on an ATA drive. -/
theorem ideSectors_goes_on (fuel : Nat) (direction : Direction) (err drive numSectors : UInt8)
    (lba buffer : UInt32) (s : IdeState σ) :
    WritesPort s ((ideSectors hw fuel direction err drive numSectors lba buffer).run s).2 ↔
      sectorCheck s.devices drive numSectors lba = .passed ∧
        (s.devices drive.toNat).type = ideAta := by
  by_cases passed : sectorCheck s.devices drive numSectors lba = .passed
  · by_cases ata : (s.devices drive.toNat).type = ideAta
    · have started := ideAtaAccess_writesPort hw fuel direction drive lba numSectors buffer s
      rw [ideSectors_ata hw fuel direction passed ata]
      refine iff_of_true ?_ ⟨passed, ata⟩
      rcases h : (ideAtaAccess hw fuel direction drive lba numSectors buffer).run s
        with ⟨e | e, t⟩
      · rw [h] at started
        exact started
      · rw [h] at started
        obtain ⟨tr, log, _⟩ := idePrintError_log hw drive e t
        exact started.extend log
    · rw [ideSectors_other hw fuel direction passed ata]
      obtain ⟨tr, log, reads⟩ := idePrintError_log hw drive err s
      exact iff_of_false (not_writesPort log reads) fun both => ata both.2
  · obtain ⟨code, calls, _, e⟩ := ideSectors_refused hw direction passed
    rw [e]
    exact iff_of_false (not_writesPort (List.append_nil _).symm (by simp))
      fun both => passed both.1

end GoesOn

section Gate

variable {σ : Type} (hw : Bus σ)

/-- The condition under which the check is exact: the slot behind the table does not
pass for a drive, and for a drive of capacity `C` neither the cut of `C` to 32 bits
nor the wrap of the sum changes the verdict. -/
def GateCondition (devices : Nat → IdeDevice) (C : Nat) (drive numSectors : UInt8) (lba : UInt32) :
    Prop :=
  (drive.toNat = maximumIdeDevices →
      ¬ ((devices 5).reserved ≠ 0 ∧ (devices 5).type = ideAta ∧
        lba + numSectors.toUInt32 ≤ (devices 5).size)) ∧
    (drive.toNat < maximumIdeDevices → (devices drive.toNat).reserved ≠ 0 →
      (devices drive.toNat).type = ideAta →
      if lba.toNat + numSectors.toNat < 2 ^ 32 then
        ¬ (C % 2 ^ 32 < lba.toNat + numSectors.toNat ∧ lba.toNat + numSectors.toNat ≤ C)
      else
        ¬ (lba.toNat + numSectors.toNat - 2 ^ 32 ≤ C % 2 ^ 32 ∧
          C < lba.toNat + numSectors.toNat))

/-- The arithmetic of the gate: a sum and a capacity, both compared modulo `2 ^ 32`. -/
theorem modular_gate_iff {last C : Nat} (bound : last < 2 ^ 32 + 2 ^ 8) :
    ((last % 2 ^ 32 ≤ C % 2 ^ 32 → last ≤ C) ∧
        (last ≤ C → last < 2 ^ 32 → last % 2 ^ 32 ≤ C % 2 ^ 32)) ↔
      if last < 2 ^ 32 then ¬ (C % 2 ^ 32 < last ∧ last ≤ C)
      else ¬ (last - 2 ^ 32 ≤ C % 2 ^ 32 ∧ C < last) := by
  split
  · omega
  · omega

/-- The range check is exact for a request if and only if `GateCondition` holds of it. -/
theorem ideSectors_gate_iff (fuel : Nat) (direction : Direction) (err drive numSectors : UInt8)
    (lba buffer : UInt32) (s : IdeState σ) (blocks : Nat → Ptr)
    (sizes : SizesIdentified s.devices blocks) :
    ((WritesPort s ((ideSectors hw fuel direction err drive numSectors lba buffer).run s).2 →
          drive.toNat < maximumIdeDevices ∧ (s.devices drive.toNat).reserved ≠ 0 ∧
            lba.toNat + numSectors.toNat ≤ capacity (blocks drive.toNat)) ∧
        (drive.toNat < maximumIdeDevices → (s.devices drive.toNat).reserved ≠ 0 →
          (s.devices drive.toNat).type = ideAta →
          lba.toNat + numSectors.toNat ≤ capacity (blocks drive.toNat) →
          lba.toNat + numSectors.toNat < 2 ^ 32 →
          WritesPort s
            ((ideSectors hw fuel direction err drive numSectors lba buffer).run s).2)) ↔
      GateCondition s.devices (capacity (blocks drive.toNat)) drive numSectors lba := by
  rw [ideSectors_goes_on, sectorCheck_passed]
  have six : drive ≤ 5 ↔ drive.toNat ≤ maximumIdeDevices := UInt8.le_iff_toNat_le
  set C := capacity (blocks drive.toNat)
  set last := lba.toNat + numSectors.toNat with hlast
  have sum : (lba + numSectors.toUInt32).toNat = last % 2 ^ 32 := by
    rw [UInt32.toNat_add, UInt8.toNat_toUInt32]
  rcases Nat.lt_trichotomy drive.toNat maximumIdeDevices with inside | behind | beyond
  · by_cases drives : (s.devices drive.toNat).reserved ≠ 0 ∧ (s.devices drive.toNat).type = ideAta
    · obtain ⟨present, ata⟩ := drives
      have size := sizes drive.toNat inside present ata
      have fits : lba + numSectors.toUInt32 ≤ (s.devices drive.toNat).size ↔
          last % 2 ^ 32 ≤ C % 2 ^ 32 := by
        rw [UInt32.le_iff_toNat_le, sum, size, identifySize_toNat]
      have bound : last < 2 ^ 32 + 2 ^ 8 := by
        have word := lba.toNat_lt
        have byte := numSectors.toNat_lt
        omega
      simp only [GateCondition, six, fits, present, ata, inside, Nat.le_of_lt inside,
        Nat.ne_of_lt inside, ne_eq, not_false_eq_true, true_and, and_true, forall_const,
        false_implies]
      exact modular_gate_iff bound
    · refine iff_of_true ⟨?_, ?_⟩ ⟨?_, ?_⟩
      · rintro ⟨⟨_, present, _⟩, ata⟩
        exact absurd ⟨present, ata⟩ drives
      · intro _ present ata
        exact absurd ⟨present, ata⟩ drives
      · exact fun five => absurd five (Nat.ne_of_lt inside)
      · intro _ present ata
        exact absurd ⟨present, ata⟩ drives
  · have outside : ¬ drive.toNat < maximumIdeDevices := Nat.not_lt_of_le (Nat.le_of_eq behind.symm)
    have slot : s.devices 5 = s.devices drive.toNat := by rw [behind]
    constructor
    · rintro ⟨refuses, _⟩
      refine ⟨fun _ => ?_, fun inside => absurd inside outside⟩
      rintro ⟨present, ata, fits⟩
      rw [slot] at present ata fits
      exact outside (refuses ⟨⟨six.mpr (Nat.le_of_eq behind), present, fun _ => fits⟩, ata⟩).1
    · rintro ⟨empty, _⟩
      refine ⟨?_, fun inside => absurd inside outside⟩
      rintro ⟨⟨_, present, fits⟩, ata⟩
      rw [slot] at empty
      exact absurd ⟨present, ata, fits ata⟩ (empty behind)
  · have outside : ¬ drive.toNat < maximumIdeDevices := Nat.not_lt_of_lt beyond
    refine iff_of_true ⟨?_, ?_⟩ ⟨?_, ?_⟩
    · rintro ⟨⟨index, _⟩, _⟩
      exact absurd (six.mp index) (Nat.not_le_of_lt beyond)
    · exact fun inside => absurd inside outside
    · exact fun five => absurd five (Nat.ne_of_gt beyond)
    · exact fun inside => absurd inside outside

def thousandSectors : Ptr := fun i => if i = 120 then 0xE8 else if i = 121 then 0x03 else 0

theorem ideSectors_gate_iff_thousand :
    ((WritesPort (foundState () (identifyDevice thousandSectors 0 0 ideAta))
            ((ideSectors (steadyBus 0x58) 1 .read 0 0 1 999 0).run
              (foundState () (identifyDevice thousandSectors 0 0 ideAta))).2 →
          (0 : UInt8).toNat < maximumIdeDevices ∧ (1 : UInt8) ≠ 0 ∧
            999 + 1 ≤ capacity thousandSectors) ∧
        ((0 : UInt8).toNat < maximumIdeDevices → (1 : UInt8) ≠ 0 → ideAta = ideAta →
          999 + 1 ≤ capacity thousandSectors → 999 + 1 < 2 ^ 32 →
          WritesPort (foundState () (identifyDevice thousandSectors 0 0 ideAta))
            ((ideSectors (steadyBus 0x58) 1 .read 0 0 1 999 0).run
              (foundState () (identifyDevice thousandSectors 0 0 ideAta))).2)) ↔
      GateCondition (foundState () (identifyDevice thousandSectors 0 0 ideAta)).devices
        (capacity thousandSectors) 0 1 999 :=
  ideSectors_gate_iff (steadyBus 0x58) 1 .read 0 0 1 999 0
    (foundState () (identifyDevice thousandSectors 0 0 ideAta)) (fun _ => thousandSectors)
    (fun i _ present _ => by
      by_cases slot : i = 0
      · subst slot
        rfl
      · simp [foundState, slot, noDevice] at present)

/-- On a drive of 1000 sectors the request for sector `2 ^ 32 - 1` wraps and goes on. -/
theorem ideSectors_wraps :
    capacity thousandSectors = 1000 ∧
      WritesPort (foundState () (identifyDevice thousandSectors 0 0 ideAta))
        ((ideSectors (steadyBus 0x58) 1 .write 0 0 1 0xFFFFFFFF 0).run
          (foundState () (identifyDevice thousandSectors 0 0 ideAta))).2 ∧
      ¬ 0xFFFFFFFF + 1 ≤ capacity thousandSectors := by
  have declared : capacity thousandSectors = 1000 := by decide
  refine ⟨declared, ?_, by rw [declared]; decide⟩
  rw [ideSectors_goes_on]
  exact ⟨by decide, rfl⟩

end Gate

end VDK
