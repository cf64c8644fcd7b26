import VDK.DeviceScan
import VDK.SectorRuns

/-!
# The device table over rescans

A scan writes slots from 0 on and never looks at the slots behind the devices it
found, where earlier scans may have left a mark and a model; the lookup by model reads
every slot, marked or not. `Exact` is what the table is for, `Covered` says when the
scans so far leave nothing behind that shows.
-/
namespace VDK
open Fuel ByteMem FirstFit

def IdeDevice.modelText (d : IdeDevice) : List UInt8 := d.model.takeWhile (· ≠ 0)

/-- The lowest of the first `n` slots whose model is `m`, or -1 when none is. -/
def LowestNamed (table : Nat → IdeDevice) (n : Nat) (m : Text) (result : Int) : Prop :=
  (∃ i, i < n ∧ result = i ∧ (table i).modelText = m.chars ∧
      ∀ j, j < i → (table j).modelText ≠ m.chars) ∨
    (result = -1 ∧ ∀ i, i < n → (table i).modelText ≠ m.chars)

/-- The devices that answered, in scan order. -/
def found (rs : List Response) : List IdeDevice := (answers scanPositions rs).filterMap id

/-- The last position, the slave of the secondary channel, did not answer. -/
def LastSilent (rs : List Response) : Prop := (answers scanPositions rs).getLast? = some none

instance (rs : List Response) : Decidable (LastSilent rs) :=
  inferInstanceAs (Decidable (_ = _))

/-- The table describes the devices that answered, and no others. -/
structure Exact (rs : List Response) (table : Nat → IdeDevice) : Prop where
  held : ∀ i, ∀ h : i < (found rs).length, table i = (found rs)[i]
  present : ∀ d ∈ found rs, d.reserved = 1
  order : ((found rs).map fun d => (d.channel, d.drive)).Sublist scanPositions
  apart : ((found rs).map fun d => (d.channel, d.drive)).Nodup
  absent : ∀ i, (found rs).length ≤ i → i < maximumIdeDevices → (table i).reserved = 0
  lookup : ∀ m : Text, LowestNamed table (found rs).length m (ataGetDriveByModel table m)

/-- The model earlier scans left in a slot: that of the last one that filled it. The scans
are listed newest first. -/
def modelLeft (older : List (List Response)) (i : Nat) : List UInt8 :=
  ((older.findSome? fun rs => (found rs)[i]?).map IdeDevice.modelText).getD []

/-- Whether earlier scans left a slot marked. -/
def markLeft : List (List Response) → Nat → Prop
  | [], _ => False
  | rs :: older, i =>
      i < (found rs).length ∨ ¬ (i = (found rs).length ∧ LastSilent rs) ∧ markLeft older i

/-- Behind the devices of `rs` the scans before it left no mark, except where `rs` takes it
away, and no model but those of devices of `rs`. -/
structure Covered (older : List (List Response)) (rs : List Response) : Prop where
  marks : ∀ i, (found rs).length ≤ i → i < maximumIdeDevices → markLeft older i →
    i = (found rs).length ∧ LastSilent rs
  models : ∀ i, (found rs).length ≤ i → i < maximumIdeDevices →
    ∃ d ∈ found rs, d.modelText = modelLeft older i

/-- Calls of `ide_init`, newest first, from the zeroed table; between two of them anything
but the table may change. -/
inductive ScanRun : List ScanCall → Prop
  | first (c : ScanCall) (zeroed : ∀ i, i < maximumIdeDevices → c.start.devices i = noDevice) :
      ScanRun [c]
  | again (c d : ScanCall) (calls : List ScanCall) (run : ScanRun (d :: calls))
      (kept : c.start.devices = d.finish.devices) : ScanRun (c :: d :: calls)

section Lookup

theorem modelPtr_holds (d : IdeDevice) (m : Text) :
    HoldsString d.modelPtr m.chars ↔ d.modelText = m.chars := by
  have terminated : (d.model ++ [0]).takeWhile (· ≠ 0) = d.modelText := by
    rw [List.takeWhile_append, IdeDevice.modelText]
    split
    · rename_i full
      have whole := (List.takeWhile_prefix (fun c : UInt8 => decide (c ≠ 0))).eq_of_length full
      rw [whole]
      simp
    · rfl
  rw [← terminated]
  refine holdsString_takeWhile ?_ (Or.inl (by simp))
  intro i hi
  rw [IdeDevice.modelPtr, List.getD_eq_getElem?_getD, List.getElem_append]
  split
  · rename_i inside
    rw [List.getElem?_eq_getElem inside]
    rfl
  · rename_i past
    rw [List.getElem?_eq_none (Nat.not_lt.mp past)]
    simp

theorem lookup_finds (table : Nat → IdeDevice) (m : Text) :
    LowestNamed table maximumIdeDevices m (ataGetDriveByModel table m) := by
  have named : ∀ i, decide (strcmpText (table i).modelPtr m = some 0) = true ↔
      (table i).modelText = m.chars := by
    intro i
    rw [decide_eq_true_iff, strcmpText_eq_zero, modelPtr_holds]
  unfold ataGetDriveByModel
  cases h : firstIndex (fun i => strcmpText (table i).modelPtr m = some 0) maximumIdeDevices with
  | none =>
      refine Or.inr ⟨rfl, fun i hi same => ?_⟩
      have unnamed := firstIndex_eq_none.mp h i hi
      rw [(named i).mpr same] at unnamed
      cases unnamed
  | some i =>
      obtain ⟨bound, here, before⟩ := firstIndex_eq_some.mp h
      refine Or.inl ⟨i, bound, rfl, (named i).mp here, fun j hj same => ?_⟩
      have unnamed := before j hj
      rw [(named j).mpr same] at unnamed
      cases unnamed

end Lookup

section Found

variable {rs : List Response}

theorem answer_position {channel drive : UInt8} {r : Response} {d : IdeDevice}
    (answered : r.answer channel drive = some d) :
    (d.channel, d.drive) = (channel, drive) ∧ d.reserved = 1 := by
  cases r with
  | silent => cases answered
  | waited status busy last reply =>
      cases reply with
      | unknown cl ch => cases answered
      | identify words =>
          cases answered
          exact ⟨rfl, rfl⟩
      | identifyPacket cl ch words =>
          cases answered
          exact ⟨rfl, rfl⟩

theorem answers_order (positions : List (UInt8 × UInt8)) (rs : List Response) :
    (((answers positions rs).filterMap id).map fun d => (d.channel, d.drive)).Sublist positions ∧
      ∀ d ∈ (answers positions rs).filterMap id, d.reserved = 1 := by
  induction positions generalizing rs with
  | nil => exact ⟨List.Sublist.refl [], fun d h => nomatch h⟩
  | cons p positions ih =>
      cases rs with
      | nil => exact ⟨List.nil_sublist _, fun d h => nomatch h⟩
      | cons r rs =>
          obtain ⟨order, present⟩ := ih rs
          rw [answers_cons]
          cases answered : r.answer p.1 p.2 with
          | none => exact ⟨order.cons p, present⟩
          | some d =>
              obtain ⟨position, mark⟩ := answer_position answered
              have kept : (some d :: answers positions rs).filterMap id =
                  d :: (answers positions rs).filterMap id := rfl
              rw [kept, List.map_cons, List.forall_mem_cons]
              refine ⟨?_, mark, present⟩
              rw [position]
              exact order.cons_cons p

theorem found_order : ((found rs).map fun d => (d.channel, d.drive)).Sublist scanPositions :=
  (answers_order scanPositions rs).1

theorem found_present : ∀ d ∈ found rs, d.reserved = 1 := (answers_order scanPositions rs).2

theorem found_apart : ((found rs).map fun d => (d.channel, d.drive)).Nodup :=
  found_order.nodup (by decide)

end Found

section Slots

variable {rs : List Response} {k : Nat} {d : IdeDevice}

theorem behind_model : (behind (answers scanPositions rs) k d).modelText = d.modelText := by
  unfold behind
  split
  · rfl
  · rfl

theorem behind_mark :
    (behind (answers scanPositions rs) k d).reserved ≠ 0 ↔
      ¬ (k = (found rs).length ∧ LastSilent rs) ∧ d.reserved ≠ 0 := by
  unfold behind
  split
  · rename_i last
    exact ⟨fun marked => absurd rfl marked, fun h => absurd last h.1⟩
  · rename_i other
    exact ⟨fun marked => ⟨other, marked⟩, fun h => h.2⟩

theorem ScanCall.slot (c : ScanCall) (i : Nat) :
    c.finish.devices i = (found c.responses)[i]?.getD
      (behind (answers scanPositions c.responses) i (c.start.devices i)) := by
  have recorded := @recordAnswers_at (answers scanPositions c.responses) 0 c.start.devices i
  rw [Nat.zero_add] at recorded
  rw [c.devices]
  exact recorded

theorem ScanCall.slot_held (c : ScanCall) {i : Nat} (h : i < (found c.responses).length) :
    c.finish.devices i = (found c.responses)[i] := by
  rw [c.slot, List.getElem?_eq_getElem h]
  rfl

theorem ScanCall.slot_behind (c : ScanCall) {i : Nat} (h : (found c.responses).length ≤ i) :
    c.finish.devices i = behind (answers scanPositions c.responses) i (c.start.devices i) := by
  rw [c.slot, List.getElem?_eq_none h]
  rfl

end Slots

/-- A table with the marks and the models that some scans leave. -/
structure LeftBy (older : List (List Response)) (table : Nat → IdeDevice) : Prop where
  mark : ∀ i, i < maximumIdeDevices → ((table i).reserved ≠ 0 ↔ markLeft older i)
  model : ∀ i, i < maximumIdeDevices → (table i).modelText = modelLeft older i

/-- One scan adds its own answers to what the earlier ones left. -/
theorem ScanCall.leaves {older : List (List Response)} (c : ScanCall)
    (left : LeftBy older c.start.devices) : LeftBy (c.responses :: older) c.finish.devices := by
  constructor
  · intro i hi
    rw [markLeft]
    by_cases h : i < (found c.responses).length
    · rw [c.slot_held h, found_present _ (List.getElem_mem h)]
      exact ⟨fun _ => Or.inl h, fun _ => by decide⟩
    · rw [c.slot_behind (Nat.not_lt.mp h), behind_mark, left.mark i hi]
      exact ⟨Or.inr, fun marked => marked.resolve_left h⟩
  · intro i hi
    rw [modelLeft, List.findSome?_cons]
    by_cases h : i < (found c.responses).length
    · rw [c.slot_held h, List.getElem?_eq_getElem h]
      rfl
    · rw [c.slot_behind (Nat.not_lt.mp h), List.getElem?_eq_none (Nat.not_lt.mp h), behind_model,
        left.model i hi]
      rfl

/-- Before each call of a run the table is what the calls before it left. -/
theorem ScanRun.left {c : ScanCall} {older : List ScanCall} (run : ScanRun (c :: older)) :
    LeftBy (older.map ScanCall.responses) c.start.devices := by
  induction older generalizing c with
  | nil =>
      cases run with
      | first _ zeroed =>
          constructor
          · intro i hi
            rw [zeroed i hi]
            exact ⟨fun marked => absurd rfl marked, False.elim⟩
          · intro i hi
            rw [zeroed i hi]
            rfl
  | cons d older ih =>
      cases run with
      | again _ _ _ run kept =>
          rw [kept]
          exact d.leaves (ih run)

/-- After one call the table is exact just when its answers cover what was there before. -/
theorem ScanCall.exact_iff {older : List (List Response)} (c : ScanCall)
    (left : LeftBy older c.start.devices) :
    Exact c.responses c.finish.devices ↔ Covered older c.responses := by
  constructor
  · intro exactly
    constructor
    · intro i late hi marked
      by_contra kept
      have absent := exactly.absent i late hi
      rw [c.slot_behind late] at absent
      exact behind_mark.mpr ⟨kept, (left.mark i hi).mpr marked⟩ absent
    · intro i late hi
      have model : (c.finish.devices i).modelText = modelLeft older i := by
        rw [c.slot_behind late, behind_model, left.model i hi]
      let m : Text := ⟨(c.finish.devices i).modelText, fun x hx => by
        simpa using List.all_eq_true.mp List.all_takeWhile x hx⟩
      have first := lookup_finds c.finish.devices m
      rcases exactly.lookup m with ⟨j, early, answer, named, _⟩ | ⟨answer, _⟩
      · refine ⟨_, List.getElem_mem early, ?_⟩
        rw [← c.slot_held early, named, ← model]
      · rcases first with ⟨j, _, same, _⟩ | ⟨_, none⟩
        · rw [answer] at same
          omega
        · exact absurd rfl (none i hi)
  · intro covered
    refine ⟨fun i h => c.slot_held h, found_present, found_order, found_apart, ?_, ?_⟩
    · intro i late hi
      rw [c.slot_behind late]
      by_contra marked
      obtain ⟨kept, old⟩ := behind_mark.mp marked
      exact kept (covered.marks i late hi ((left.mark i hi).mp old))
    · intro m
      have within : ∀ i, i < (found c.responses).length → i < maximumIdeDevices := by
        intro i h
        have short := (@found_order c.responses).length_le
        rw [List.length_map] at short
        exact Nat.lt_of_lt_of_le h (Nat.le_trans short (by decide))
      rcases lookup_finds c.finish.devices m with
        ⟨i, hi, answer, named, before⟩ | ⟨answer, none⟩
      · by_cases early : i < (found c.responses).length
        · exact Or.inl ⟨i, early, answer, named, before⟩
        · have late := Nat.not_lt.mp early
          obtain ⟨d, member, same⟩ := covered.models i late hi
          obtain ⟨j, hj, rfl⟩ := List.mem_iff_getElem.mp member
          rw [c.slot_behind late, behind_model, left.model i hi] at named
          rw [← c.slot_held hj] at same
          exact absurd (same.trans named) (before j (Nat.lt_of_lt_of_le hj late))
      · exact Or.inr ⟨answer, fun i h => none i (within i h)⟩

theorem ScanRun.suffix {calls run : List ScanCall} (h : ScanRun run) (part : calls <:+ run)
    (nonempty : calls ≠ []) : ScanRun calls := by
  induction h with
  | first c zeroed =>
      rcases List.suffix_cons_iff.mp part with rfl | rest
      · exact ScanRun.first c zeroed
      · exact absurd (List.suffix_nil.mp rest) nonempty
  | again c d calls' run kept ih =>
      rcases List.suffix_cons_iff.mp part with rfl | rest
      · exact ScanRun.again c d calls' run kept
      · exact ih rest

/-- In every run of rescans and after each of its calls, the table is exact just when the
call's answers cover what the calls before it left. -/
theorem rescans_exact_iff {run : List ScanCall} (scanned : ScanRun run) {c : ScanCall}
    {older : List ScanCall} (here : c :: older <:+ run) :
    Exact c.responses c.finish.devices ↔
      Covered (older.map ScanCall.responses) c.responses :=
  c.exact_iff (scanned.suffix here (List.cons_ne_nil c older)).left

/-- Hardware whose primary channel has two drives that send zero bytes, or none. -/
def primaryBus (status : UInt8) : Bus Unit where
  inb port b := (if port = 0x1F7 then status else 0, b)
  inw _ b := (0, b)
  inl _ b := (0, b)
  outb _ _ b := b
  outw _ _ b := b

def primaryScan (status : UInt8) (table : Nat → IdeDevice) : Option Unit × IdeState Unit :=
  (ataInit (primaryBus status) 1).run { foundState () noDevice with devices := table }

/-- A drive whose 512 identification bytes are 0. -/
def zeroDrive : Response := .waited 0x58 [] 0x58 (.identify (List.replicate 128 0))

theorem zeroDrive_valid : zeroDrive.Valid :=
  ⟨by decide, by simp, by decide, ⟨by decide, by decide⟩, List.length_replicate⟩

def bothAnswer : ScanCall where
  σ := Unit
  hw := primaryBus 0x58
  fuel := 1
  primBase := 0x1F0
  primControl := 0x3F6
  secBase := 0x170
  secControl := 0x376
  busMaster := 0
  start := { foundState () noDevice with devices := fun _ => noDevice }
  finish := (primaryScan 0x58 fun _ => noDevice).2
  returned := Prod.ext (by decide +kernel) rfl
  responses := [zeroDrive, zeroDrive, .silent, .silent]
  positions := rfl
  valid := by
    simp only [List.forall_mem_cons]
    exact ⟨zeroDrive_valid, zeroDrive_valid, trivial, trivial, by simp⟩
  log := by decide +kernel

def noneAnswers : ScanCall where
  σ := Unit
  hw := primaryBus 0
  fuel := 1
  primBase := 0x1F0
  primControl := 0x3F6
  secBase := 0x170
  secControl := 0x376
  busMaster := 0
  start := { foundState () noDevice with devices := bothAnswer.finish.devices }
  finish := (primaryScan 0 bothAnswer.finish.devices).2
  returned := Prod.ext (by decide +kernel) rfl
  responses := [.silent, .silent, .silent, .silent]
  positions := rfl
  valid := by
    simp only [List.forall_mem_cons]
    exact ⟨trivial, trivial, trivial, trivial, by simp⟩
  log := by decide +kernel

theorem both_then_none : ScanRun [noneAnswers, bothAnswer] := by
  have zeroed : ∀ i, i < maximumIdeDevices → bothAnswer.start.devices i = noDevice :=
    fun _ _ => rfl
  have kept : noneAnswers.start.devices = bothAnswer.finish.devices := by
    simp only [noneAnswers]
  exact ScanRun.again noneAnswers bothAnswer [] (ScanRun.first bothAnswer zeroed) kept

/-- Two drives without a model are what the first call finds, and the table is exact. -/
theorem rescans_exact_iff_both : Exact bothAnswer.responses bothAnswer.finish.devices := by
  refine (rescans_exact_iff both_then_none (List.suffix_cons noneAnswers [bothAnswer])).mpr ?_
  constructor
  · intro i _ _ marked
    exact marked.elim
  · intro i _ _
    have blank : ((found bothAnswer.responses).get ⟨0, by decide⟩).modelText = [] := by
      decide +kernel
    exact ⟨_, List.get_mem _ _, blank⟩

/-- When both are gone in the next call, slot 1 keeps its mark. -/
theorem rescan_keeps_mark :
    ScanRun [noneAnswers, bothAnswer] ∧ found noneAnswers.responses = [] ∧
      (noneAnswers.finish.devices 1).reserved = 1 ∧
        ¬ Exact noneAnswers.responses noneAnswers.finish.devices := by
  have marked : (noneAnswers.finish.devices 1).reserved = 1 := by decide +kernel
  refine ⟨both_then_none, rfl, marked, fun exactly => ?_⟩
  have absent := exactly.absent 1 (Nat.zero_le 1) (by decide)
  rw [marked] at absent
  cases absent

end VDK
