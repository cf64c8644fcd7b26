import VDK.DeviceTable
import Mathlib.Data.List.Basic
import Mathlib.Data.List.GetD
import Mathlib.Data.List.Induction

/-!
# The model string of a drive

The identification data holds the name with the bytes of each pair exchanged and
spaces up to 40 characters. `RightTrimmed` says what the name without its padding is;
the model field holds it with NULs in place of the padding.
-/
namespace VDK
open ByteMem

/-- The 40 model bytes of an identification block, each pair swapped. -/
def identifyName (block : Ptr) : List UInt8 :=
  (List.range 40).map fun k => block (ataIdentModel + if k % 2 = 0 then k + 1 else k - 1)

/-- `name` is `kept` with all its trailing spaces, `n` of them. -/
structure RightTrimmed (name kept : List UInt8) (n : Nat) : Prop where
  whole : name = kept ++ List.replicate n 0x20
  last : kept.getLast? ≠ some 0x20

theorem exists_rightTrimmed (name : List UInt8) : ∃ kept n, RightTrimmed name kept n := by
  induction name using List.reverseRecOn with
  | nil => exact ⟨[], 0, rfl, by decide⟩
  | append_singleton name c ih =>
      by_cases space : c = 0x20
      · obtain ⟨kept, n, whole, last⟩ := ih
        refine ⟨kept, n + 1, ?_, last⟩
        rw [space, List.replicate_succ', ← List.append_assoc, ← whole]
      · refine ⟨name ++ [c], 0, (List.append_nil _).symm, ?_⟩
        rw [List.getLast?_concat]
        exact fun same => space (Option.some.inj same)

section Strip

theorem stripTrailing_last {kept : List UInt8} (last : kept.getLast? ≠ some 0x20)
    (rest : List UInt8) : stripTrailing kept.length (kept ++ rest) = kept ++ rest := by
  rcases List.eq_nil_or_concat' kept with rfl | ⟨init, c, rfl⟩
  · rfl
  · rw [List.getLast?_concat] at last
    have stays : c ≠ 0x20 := fun same => last (congrArg some same)
    have here : (init ++ [c] ++ rest).getD init.length 0 = c := by
      rw [List.append_assoc, List.getD_append_right _ _ _ _ (Nat.le_refl _), Nat.sub_self]
      rfl
    rw [List.length_append, List.length_singleton, stripTrailing, here, if_neg stays]

/-- The strip loop puts a NUL over every trailing space, and stops at the first other byte. -/
theorem stripTrailing_spaces {kept : List UInt8} (last : kept.getLast? ≠ some 0x20) (n : Nat)
    (rest : List UInt8) :
    stripTrailing (kept.length + n) (kept ++ List.replicate n 0x20 ++ rest) =
      kept ++ List.replicate n 0 ++ rest := by
  induction n generalizing rest with
  | zero =>
      rw [List.replicate_zero, List.replicate_zero, List.append_nil]
      exact stripTrailing_last last rest
  | succ n ih =>
      have length : (kept ++ List.replicate n (0x20 : UInt8)).length = kept.length + n := by
        rw [List.length_append, List.length_replicate]
      have space : kept ++ List.replicate (n + 1) 0x20 ++ rest =
          kept ++ List.replicate n 0x20 ++ 0x20 :: rest := by
        rw [List.replicate_succ', ← List.append_assoc, List.append_assoc _ [0x20] rest]
        rfl
      have here : (kept ++ List.replicate n (0x20 : UInt8) ++ 0x20 :: rest).getD
          (kept.length + n) 0 = 0x20 := by
        rw [List.getD_append_right _ _ _ _ (Nat.le_of_eq length), length, Nat.sub_self]
        rfl
      have blank : (kept ++ List.replicate n (0x20 : UInt8) ++ 0x20 :: rest).set
          (kept.length + n) 0 = kept ++ List.replicate n 0x20 ++ 0 :: rest := by
        rw [List.set_append_right _ _ (Nat.le_of_eq length), length, Nat.sub_self]
        rfl
      rw [space, ← Nat.add_assoc, stripTrailing, here, if_pos rfl, blank, ih,
        List.replicate_succ', ← List.append_assoc, List.append_assoc _ [0] rest]
      rfl

theorem identifyModel_eq {block : Ptr} {kept : List UInt8} {n : Nat}
    (trimmed : RightTrimmed (identifyName block) kept n) :
    identifyModel block = kept ++ List.replicate n 0 ++ [0] := by
  have forty : kept.length + n = 40 := by
    have length := congrArg List.length trimmed.whole
    rw [List.length_append, List.length_replicate] at length
    exact length.symm.trans ((List.length_map _).trans List.length_range)
  have swapped : identifyModel block = stripTrailing 40 (identifyName block ++ [0]) := rfl
  rw [swapped, trimmed.whole, ← forty]
  exact stripTrailing_spaces trimmed.last n [0]

/-- A name without a NUL is the model as a string. -/
theorem takeWhile_padded {kept : List UInt8} (noNul : ∀ c ∈ kept, c ≠ 0) (n : Nat) :
    (kept ++ List.replicate n 0 ++ [0]).takeWhile (· ≠ 0) = kept := by
  have padding : List.replicate n (0 : UInt8) ++ [0] = 0 :: List.replicate n 0 :=
    List.replicate_succ'.symm
  rw [List.append_assoc, padding, List.takeWhile_append_of_pos fun c member =>
    decide_eq_true (noNul c member)]
  exact List.append_nil kept

end Strip

section Names

/-- The identification data a position sent, if it has a drive. -/
def Response.identification : Response → Option (List UInt32)
  | .silent => none
  | .waited _ _ _ (.unknown _ _) => none
  | .waited _ _ _ (.identify words) => some words
  | .waited _ _ _ (.identifyPacket _ _ words) => some words

/-- The identification data of the drives found, in scan order. -/
def identifications (rs : List Response) : List (List UInt32) :=
  rs.filterMap Response.identification

theorem answer_model (r : Response) (channel drive : UInt8) :
    (r.answer channel drive).map IdeDevice.model =
      r.identification.map fun words => identifyModel (identifyBytes words) := by
  cases r with
  | silent => rfl
  | waited status busy last reply =>
      cases reply with
      | unknown cl ch => rfl
      | identify words => rfl
      | identifyPacket cl ch words => rfl

theorem answers_models (positions : List (UInt8 × UInt8)) (rs : List Response)
    (length : rs.length = positions.length) :
    ((answers positions rs).filterMap id).map IdeDevice.model =
      (identifications rs).map fun words => identifyModel (identifyBytes words) := by
  induction positions generalizing rs with
  | nil =>
      rw [List.length_eq_zero_iff.mp length]
      rfl
  | cons p positions ih =>
      cases rs with
      | nil => cases length
      | cons r rs =>
          have rest := ih rs (Nat.succ.inj length)
          have first := answer_model r p.1 p.2
          rw [answers_cons, identifications]
          rcases data : r.identification with _ | words
          · rw [data] at first
            have silent : id (r.answer p.1 p.2) = none := Option.map_eq_none_iff.mp first
            rw [List.filterMap_cons_none silent, List.filterMap_cons_none data]
            exact rest
          · rw [data] at first
            obtain ⟨d, answered, model⟩ := Option.map_eq_some_iff.mp first
            have device : id (r.answer p.1 p.2) = some d := answered
            rw [List.filterMap_cons_some device, List.filterMap_cons_some data, List.map_cons,
              List.map_cons, model]
            exact congrArg _ rest

variable {c : ScanCall} {i : Nat} {words : List UInt32}

/-- The drive that sent the `i`-th identification data has slot `i`, and its model comes
from that data. -/
theorem ScanCall.model_slot (answered : (identifications c.responses)[i]? = some words) :
    i < (found c.responses).length ∧
      (c.finish.devices i).model = identifyModel (identifyBytes words) := by
  have models := answers_models scanPositions c.responses c.positions
  have here := congrArg (fun list => list[i]?) models
  rw [List.getElem?_map, List.getElem?_map, answered] at here
  obtain ⟨d, device, model⟩ := Option.map_eq_some_iff.mp here
  obtain ⟨less, same⟩ := List.getElem?_eq_some_iff.mp device
  refine ⟨less, ?_⟩
  rw [c.slot_held less]
  exact (congrArg IdeDevice.model same).trans model

/-- The model field of every drive found is its name with NULs over the trailing spaces,
and looking a name up gives its slot for exactly the trimmed name. -/
theorem model_names_drive (answered : (identifications c.responses)[i]? = some words) :
    ∃ kept n, RightTrimmed (identifyName (identifyBytes words)) kept n ∧
      (c.finish.devices i).model = kept ++ List.replicate n 0 ++ [0] ∧
      ((∀ b ∈ identifyName (identifyBytes words), b ≠ 0) → kept ≠ [] →
        (∀ j, j < i → (c.finish.devices j).modelText ≠ kept) →
        ∀ m : Text, ataGetDriveByModel c.finish.devices m = i ↔ m.chars = kept) := by
  obtain ⟨less, model⟩ := c.model_slot answered
  obtain ⟨kept, n, trimmed⟩ := exists_rightTrimmed (identifyName (identifyBytes words))
  have field := model.trans (identifyModel_eq trimmed)
  refine ⟨kept, n, trimmed, field, fun noNul _ lower m => ?_⟩
  have own : (c.finish.devices i).modelText = kept := by
    rw [IdeDevice.modelText, field]
    refine takeWhile_padded (fun b member => noNul b ?_) n
    rw [trimmed.whole]
    exact List.mem_append_left _ member
  have inside : i < maximumIdeDevices := by
    have few := (@found_order c.responses).length_le
    rw [List.length_map] at few
    exact Nat.lt_of_lt_of_le less (Nat.le_trans few (by decide))
  rcases lookup_finds c.finish.devices m with ⟨k, _, result, named, before⟩ | ⟨result, none⟩
  · rw [result, Int.natCast_inj]
    constructor
    · rintro rfl
      exact named.symm.trans own
    · intro same
      rw [same] at named before
      rcases Nat.lt_trichotomy k i with below | here | above
      · exact absurd named (lower k below)
      · exact here
      · exact absurd own (before i above)
  · rw [result]
    exact ⟨fun minus => absurd minus (by omega), fun same => absurd (own.trans same.symm) (none i inside)⟩

/-- Hardware whose primary drives send the name "A A ... A ". -/
def letterBus : Bus Unit where
  inb port b := (if port = 0x1F7 then 0x58 else 0, b)
  inw _ b := (0, b)
  inl _ b := (0x41204120, b)
  outb _ _ b := b
  outw _ _ b := b

def letterDrive : Response := .waited 0x58 [] 0x58 (.identify (List.replicate 128 0x41204120))

theorem letterDrive_valid : letterDrive.Valid :=
  ⟨by decide, by simp, by decide, ⟨by decide, by decide⟩, List.length_replicate⟩

def lettersFound : ScanCall where
  σ := Unit
  hw := letterBus
  fuel := 1
  primBase := 0x1F0
  primControl := 0x3F6
  secBase := 0x170
  secControl := 0x376
  busMaster := 0
  start := foundState () noDevice
  finish := ((ataInit letterBus 1).run (foundState () noDevice)).2
  returned := Prod.ext (by decide +kernel) rfl
  responses := [letterDrive, letterDrive, .silent, .silent]
  positions := rfl
  valid := by
    simp only [List.forall_mem_cons]
    exact ⟨letterDrive_valid, letterDrive_valid, trivial, trivial, by simp⟩
  log := by decide +kernel

theorem model_names_drive_letters : ∃ kept n,
    RightTrimmed (identifyName (identifyBytes (List.replicate 128 0x41204120))) kept n ∧
      (lettersFound.finish.devices 0).model = kept ++ List.replicate n 0 ++ [0] ∧
      ∀ m : Text, ataGetDriveByModel lettersFound.finish.devices m = (0 : Nat) ↔ m.chars = kept := by
  obtain ⟨kept, n, trimmed, field, names⟩ := @model_names_drive lettersFound 0 _ rfl
  have letter : 0x41 ∈ identifyName (identifyBytes (List.replicate 128 0x41204120)) := by
    decide +kernel
  have noNul : ∀ b ∈ identifyName (identifyBytes (List.replicate 128 0x41204120)), b ≠ 0 :=
    fun b member => of_decide_eq_true (List.all_eq_true.mp
      (show (identifyName (identifyBytes (List.replicate 128 0x41204120))).all (· ≠ 0) = true by
        decide +kernel) b member)
  refine ⟨kept, n, trimmed, field, names noNul ?_ fun j none => absurd none (Nat.not_lt_zero j)⟩
  rintro rfl
  rw [trimmed.whole] at letter
  exact absurd (List.eq_of_mem_replicate letter) (by decide)

end Names

end VDK
