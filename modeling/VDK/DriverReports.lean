import Mathlib.Data.List.Forall2
import VDK.AccessSteps
import VDK.PortSafety

/-!
# What the driver prints

An access prints nothing. A sector function prints exactly when it does not return 0:
the reason of a refusal, or a report that ends with the device.
-/
namespace VDK
open Fuel

section Unprinted

variable {σ : Type}

/-- Nothing was printed, and no device was changed. -/
structure Unprinted (s t : IdeState σ) : Prop where
  printed : t.printed = s.printed
  devices : t.devices = s.devices

instance : IsPreorder (IdeState σ) Unprinted where
  refl _ := ⟨rfl, rfl⟩
  trans _ _ _ first second :=
    ⟨second.printed.trans first.printed, second.devices.trans first.devices⟩

theorem unprinted_steps (hw : Bus σ) (direction : Direction) :
    StepsKeep hw direction Unprinted where
  mask _ _ := ⟨rfl, rfl⟩
  inb _ _ := ⟨rfl, rfl⟩
  outb _ _ := ⟨rfl, rfl⟩
  block _ _ _ := ⟨rfl, rfl⟩

end Unprinted

section Reports

variable {σ : Type} (hw : Bus σ)

def deviceLine (d : IdeDevice) : PrintfCall where
  fmt := "- [%s %s] %s\n"
  args := [.str (["Primary", "Secondary"].getD d.channel.toNat ""),
    .str (["Master", "Slave"].getD d.drive.toNat ""), .chars d.model]

/-- The causes whose bit is set in the error register. -/
def setCauses (st : UInt8) (causes : List (UInt8 × String × UInt8)) : List (String × UInt8) :=
  (causes.filter fun c => st &&& c.1 ≠ 0).map Prod.snd

/-- What is said about the error code `err`, each text with the code it stands for; `st` is the
error register. -/
def errorLines (err st : UInt8) : List (String × UInt8) :=
  if err = 1 then [("- Device Fault\n", 19)]
  else if err = 2 then setCauses st errorCauses
  else if err = 3 then [("- Reads Nothing\n", 23)]
  else if err = 4 then [("- Write Protected\n", 8)]
  else []

def failureReport (device : IdeDevice) (err st : UInt8) : List PrintfCall :=
  ⟨"IDE:", []⟩ :: (errorLines err st).map (fun line => ⟨line.1, []⟩) ++ [deviceLine device]

def failureCode (err st : UInt8) : UInt8 := ((errorLines err st).getLast?.map Prod.snd).getD err

theorem setCauses_cons (st : UInt8) (c : UInt8 × String × UInt8)
    (causes : List (UInt8 × String × UInt8)) : setCauses st (c :: causes) =
      if st &&& c.1 ≠ 0 then c.2 :: setCauses st causes else setCauses st causes := by
  by_cases set : st &&& c.1 ≠ 0
  · rw [if_pos set, setCauses, setCauses, List.filter_cons, if_pos (decide_eq_true set),
      List.map_cons]
  · rw [if_neg set, setCauses, setCauses, List.filter_cons,
      if_neg fun passed => set (of_decide_eq_true passed)]

theorem reportCauses_eq (st : UInt8) (causes : List (UInt8 × String × UInt8))
    (r : UInt8 × IdeState σ) :
    (reportCauses st causes r).1 =
        ((setCauses st causes).getLast?.map Prod.snd).getD r.1 ∧
      (reportCauses st causes r).2.printed = r.2.printed ++
        (setCauses st causes).map fun line => ⟨line.1, []⟩ := by
  induction causes generalizing r with
  | nil => exact ⟨rfl, (List.append_nil _).symm⟩
  | cons c causes ih =>
      rw [reportCauses, setCauses_cons]
      by_cases set : st &&& c.1 ≠ 0
      · obtain ⟨code, printed⟩ := ih (c.2.2, r.2.printf c.2.1 [])
        rw [if_pos set, if_pos set, code, printed]
        refine ⟨?_, List.append_assoc _ _ _⟩
        rw [List.getLast?_cons, Option.map_some, Option.getD_some]
        cases (setCauses st causes).getLast? with
        | none => rfl
        | some last => rfl
      · rw [if_neg set, if_neg set]
        exact ih r

/-- An error is reported once: its causes and the device, and the code of the last cause. -/
theorem idePrintError_prints (drive : UInt8) {err : UInt8} (failed : err ≠ 0) (s : IdeState σ) :
    ∃ st, (idePrintError hw drive err s).1 = failureCode err st ∧
      (idePrintError hw drive err s).2.printed =
        s.printed ++ failureReport (s.devices drive.toNat) err st := by
  set device := s.devices drive.toNat with hdevice
  set read := ideReadRegister hw device.channel ataRegError (s.printf "IDE:" []) with hread
  have same : read.2.printed = s.printed ++ [⟨"IDE:", []⟩] :=
    ((unprinted_steps hw .read).read device.channel ataRegError (s.printf "IDE:" [])).printed
  have report : ∀ (r : UInt8 × IdeState σ) (lines : List (String × UInt8)),
      r.2.printed = s.printed ++ [⟨"IDE:", []⟩] ++ lines.map (fun line => ⟨line.1, []⟩) →
      (r.2.printf (deviceLine device).fmt (deviceLine device).args).printed = s.printed ++
        (⟨"IDE:", []⟩ :: lines.map (fun line => ⟨line.1, []⟩) ++ [deviceLine device]) := by
    intro r lines printed
    rw [IdeState.printf, printed]
    simp only [List.append_assoc, List.cons_append, List.nil_append]
  refine ⟨read.1, ?_⟩
  unfold idePrintError failureCode failureReport errorLines
  rw [if_neg failed]
  by_cases fault : err = 1
  · rw [fault]
    exact ⟨rfl, report (19, _) [("- Device Fault\n", 19)] rfl⟩
  by_cases error : err = 2
  · obtain ⟨code, printed⟩ := reportCauses_eq read.1 errorCauses (err, read.2)
    rw [same] at printed
    simp only [if_neg fault, if_pos error]
    exact ⟨code, report _ _ printed⟩
  by_cases nothing : err = 3
  · rw [nothing]
    exact ⟨rfl, report (23, _) [("- Reads Nothing\n", 23)] rfl⟩
  by_cases guarded : err = 4
  · rw [guarded]
    exact ⟨rfl, report (8, _) [("- Write Protected\n", 8)] rfl⟩
  · simp only [if_neg fault, if_neg error, if_neg nothing, if_neg guarded]
    exact ⟨rfl, report (err, _) [] (List.append_nil _).symm⟩

/-- What a call about sector `lba` of `device` prints, by what it returns: nothing, the line of
a refusal, or one report of a failure. -/
inductive Reported (device : IdeDevice) (lba : UInt32) : Int → List PrintfCall → Prop
  | silent : Reported device lba 0 []
  | driveNotFound : Reported device lba (-1) [⟨"IDE ERROR: Drive not found\n", []⟩]
  | outOfRange : Reported device lba (-2)
      [⟨"IDE ERROR: LBA address(0x%x) is greater than the available drive sectors(0x%x)\n",
        [.word lba, .word device.size]⟩]
  | failed {err : UInt8} (st : UInt8) (error : err ≠ 0) :
      Reported device lba (failureCode err st).toNat (failureReport device err st)

/-- Whatever the error register holds, a failure is not passed on as 0. -/
theorem failureCode_ne_zero {err : UInt8} (failed : err ≠ 0) (st : UInt8) :
    failureCode err st ≠ 0 := by
  have codes : ∀ line ∈ errorLines err st, line.2 ≠ 0 := by
    intro line member
    unfold errorLines at member
    split at member
    · rw [List.mem_singleton.mp member]
      decide
    split at member
    · obtain ⟨c, cause, rfl⟩ := List.mem_map.mp member
      have all : ∀ c ∈ errorCauses, c.2.2 ≠ 0 := by decide
      exact all c (List.mem_of_mem_filter cause)
    split at member
    · rw [List.mem_singleton.mp member]
      decide
    split at member
    · rw [List.mem_singleton.mp member]
      decide
    · exact absurd member List.not_mem_nil
  unfold failureCode
  cases last : (errorLines err st).getLast? with
  | none => exact failed
  | some line => exact codes line (List.mem_of_getLast? last)

theorem Reported.empty_iff {device : IdeDevice} {lba : UInt32} {code : Int}
    {report : List PrintfCall} (reported : Reported device lba code report) :
    report = [] ↔ code = 0 := by
  cases reported with
  | silent => exact iff_of_true rfl rfl
  | driveNotFound => exact iff_of_false (List.cons_ne_nil _ _) (by decide)
  | outOfRange => exact iff_of_false (List.cons_ne_nil _ _) (by decide)
  | failed st error =>
      refine iff_of_false (List.cons_ne_nil _ _) fun zero => failureCode_ne_zero error st ?_
      exact UInt8.toNat_inj.mp (Int.natCast_eq_zero.mp zero)

variable {fuel : Nat} {direction : Direction} {err drive numSectors : UInt8} {lba buffer : UInt32}
  {s t : IdeState σ} {code : Int}

theorem idePrintError_devices (e : UInt8) (s : IdeState σ) :
    (idePrintError hw drive e s).2.devices = s.devices := by
  obtain ⟨b, tr, calls, same, _⟩ := idePrintError_reports hw drive e s
  rw [same]
  rfl

theorem idePrintError_reported (e : UInt8) (lba : UInt32) (s : IdeState σ) :
    ∃ report, (idePrintError hw drive e s).2.printed = s.printed ++ report ∧
      Reported (s.devices drive.toNat) lba (idePrintError hw drive e s).1.toNat report := by
  by_cases none : e = 0
  · rw [none, idePrintError_none]
    exact ⟨[], (List.append_nil _).symm, .silent⟩
  · obtain ⟨st, code, printed⟩ := idePrintError_prints hw drive none s
    rw [code]
    exact ⟨_, printed, .failed st none⟩

/-- Whatever the hardware answers, a call that returns has reported its result. -/
theorem ideSectors_reported
    (ran : (ideSectors hw fuel direction err drive numSectors lba buffer).run s = (some code, t)) :
    t.devices = s.devices ∧ ∃ report, t.printed = s.printed ++ report ∧
      Reported (s.devices drive.toNat) lba code report := by
  by_cases passed : sectorCheck s.devices drive numSectors lba = .passed
  · by_cases ata : (s.devices drive.toNat).type = ideAta
    · rw [ideSectors_ata hw fuel direction passed ata] at ran
      have unprinted := (unprinted_steps hw direction).access fuel drive lba numSectors buffer s
      rcases access : (ideAtaAccess hw fuel direction drive lba numSectors buffer).run s
        with ⟨_ | e, u⟩
      · rw [access] at ran
        cases ran
      · rw [access] at ran unprinted
        cases ran
        have reported : ∃ report, (idePrintError hw drive e u).2.printed = u.printed ++ report ∧
            Reported (u.devices drive.toNat) lba (idePrintError hw drive e u).1.toNat report :=
          idePrintError_reported hw e lba u
        rw [unprinted.printed, unprinted.devices] at reported
        exact ⟨(idePrintError_devices hw e u).trans unprinted.devices, reported⟩
    · rw [ideSectors_other hw fuel direction passed ata] at ran
      cases ran
      exact ⟨idePrintError_devices hw err s, idePrintError_reported hw err lba s⟩
  · unfold ideSectors at ran
    simp only [Exec.run_bind, Exec.run_get, Exec.andThen_some] at ran
    cases check : sectorCheck s.devices drive numSectors lba with
    | passed => exact absurd check passed
    | driveNotFound =>
        rw [check] at ran
        cases ran
        exact ⟨rfl, _, rfl, .driveNotFound⟩
    | outOfRange =>
        rw [check] at ran
        cases ran
        exact ⟨rfl, _, rfl, .outOfRange⟩

end Reports

section Runs

variable {σ : Type} (hw : Bus σ)

inductive SectorCalls (s : IdeState σ) : List (SectorRequest × Int) → IdeState σ → Prop
  | start : SectorCalls s [] s
  | call {calls : List (SectorRequest × Int)} {t u : IdeState σ} {r : SectorRequest}
      {code : Int} (fuel : Nat) (earlier : SectorCalls s calls t)
      (ran : (ideSectors hw fuel r.direction r.err r.drive r.numSectors r.lba r.buffer).run t =
        (some code, u)) :
      SectorCalls s (calls ++ [(r, code)]) u

/-- A read of the second sector of the primary master, and one of a drive that was not found. -/
def secondSector : SectorRequest := ⟨.read, 0, 0, 1, 1, 0x1000⟩

def absentSector : SectorRequest := ⟨.read, 0, 255, 1, 1, 0x1000⟩

end Runs

end VDK
