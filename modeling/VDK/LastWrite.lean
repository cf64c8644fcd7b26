import VDK.MountedDrive

/-!
# The table over runs of `VD_Write`

A run records the state before and after every call. Since the table holds the first
twelve entries ever written, the last write wins throughout a run exactly when no
entry is a new version of an earlier one and none comes too late.
-/
namespace VDK
open Fuel ByteMem FirstFit VdEntry

section Runs

variable {σ : Type}

/-- A call of `VD_Write` that returned true. -/
structure WriteStep (σ : Type) where
  before : FsState σ
  file : VdEntry
  after : FsState σ

/-- Calls of `VD_Write` one after the other, from a zeroed table. -/
inductive WriteRun (hw : Bus σ) : List (WriteStep σ) → FsState σ → Prop
  | start {s : FsState σ} (zeroed : ∀ i, i < maximumEntries → s.entries i = VdEntry.zero) :
      WriteRun hw [] s
  | write {steps : List (WriteStep σ)} {s t : FsState σ} {fuel : Nat} {L : Locals}
      {file : VdEntry} (run : WriteRun hw steps s)
      (returned : (vdWrite hw fuel L file).run s = (some true, t)) :
      WriteRun hw (steps ++ [⟨s, file, t⟩]) t

theorem WriteRun.stored {hw : Bus σ} {steps : List (WriteStep σ)} {s : FsState σ}
    (run : WriteRun hw steps s) (proper : ∀ w ∈ steps, w.file.Proper) :
    Stored fileKey maximumEntries (steps.map WriteStep.file) s.entries := by
  induction run with
  | start zeroed =>
      apply Stored.nil
      intro i hi
      rw [zeroed i hi]
      exact zero_free
  | write run returned ih =>
      have earlier := ih fun w hw => proper w (List.mem_append_left _ hw)
      have last := proper _ (List.mem_append_right _ (List.mem_singleton_self _))
      rw [vdWrite_entries returned, List.map_append, List.map_singleton]
      exact earlier.place last.keyed

/-- After the call its entry answers for its name, and every other name answers as before. -/
def LastWins (junk : VdEntry) (w : WriteStep σ) : Prop :=
  vdOpen junk w.after.entries w.file.nameText = w.file ∧
    ∀ n, n ≠ Text.empty → n ≠ w.file.nameText →
      vdOpen junk w.after.entries n = vdOpen junk w.before.entries n

theorem lastWins_iff {files : List VdEntry} {file : VdEntry} {s t : FsState σ}
    (before : Stored fileKey maximumEntries files s.entries)
    (after : Stored fileKey maximumEntries (files ++ [file]) t.entries)
    (proper : ∀ e ∈ files ++ [file], e.Proper) (inRange : file.firstSector ≠ 0xFFFFFFFF)
    (junk : VdEntry) :
    LastWins junk ⟨s, file, t⟩ ↔
      answer fileKey maximumEntries (files ++ [file]) file.nameText = some file := by
  have own := proper file (List.mem_append_right _ (List.mem_singleton_self file))
  have older : ∀ e ∈ files, e.Proper := fun e he => proper e (List.mem_append_left _ he)
  have others : ∀ n, n ≠ Text.empty → n ≠ file.nameText →
      vdOpen junk t.entries n = vdOpen junk s.entries n := by
    intro n named other
    have differs : file.fileKey ≠ some n := by
      rw [own.key]
      exact fun e => other (Option.some.inj e).symm
    rw [vdOpen_stored after proper junk named, vdOpen_stored before older junk named,
      answer_other differs]
  have found : vdOpen junk t.entries file.nameText = file ↔
      answer fileKey maximumEntries (files ++ [file]) file.nameText = some file := by
    rw [vdOpen_stored after proper junk own.named]
    cases answer fileKey maximumEntries (files ++ [file]) file.nameText with
    | none =>
        refine iff_of_false (fun same => inRange ?_) (fun h => nomatch h)
        exact (congrArg VdEntry.firstSector same).symm
    | some e => exact Option.some_inj.symm
  exact (and_iff_left others).trans found

/-- In a run of `VD_Write` the last write wins at every call if and only if entries of
one name are equal and every entry is among the first twelve. -/
theorem vdWrite_last_wins_iff {hw : Bus σ} {steps : List (WriteStep σ)} {s : FsState σ}
    (run : WriteRun hw steps s) (proper : ∀ w ∈ steps, w.file.Proper)
    (inRange : ∀ w ∈ steps, w.file.firstSector ≠ 0xFFFFFFFF) (junk : VdEntry) :
    (∀ w ∈ steps, LastWins junk w) ↔
      Consistent fileKey maximumEntries (steps.map WriteStep.file) := by
  induction run with
  | start zeroed => simp [Consistent]
  | @write steps s t fuel L file run returned ih =>
      have earlier := fun w hw => proper w (List.mem_append_left _ hw)
      have older := ih earlier fun w hw => inRange w (List.mem_append_left _ hw)
      have before := run.stored earlier
      have after := (run.write returned).stored proper
      have member : (⟨s, file, t⟩ : WriteStep σ) ∈ steps ++ [⟨s, file, t⟩] :=
        List.mem_append_right _ (List.mem_singleton_self _)
      rw [List.map_append, List.map_singleton] at after ⊢
      have all : ∀ e ∈ steps.map WriteStep.file ++ [file], e.Proper := by
        intro e he
        rcases List.mem_append.mp he with old | new
        · obtain ⟨w, hw, rfl⟩ := List.mem_map.mp old
          exact earlier w hw
        · rw [List.mem_singleton.mp new]
          exact proper _ member
      have step := lastWins_iff before after all (inRange _ member) junk
      have key := (proper _ member).key
      constructor
      · intro wins
        have consistent := older.mp fun w hw => wins w (List.mem_append_left _ hw)
        exact (consistent.answer_iff key).mp (step.mp (wins _ member))
      · intro consistent w hw
        rcases List.mem_append.mp hw with old | new
        · exact older.mpr consistent.init w old
        · rw [List.mem_singleton.mp new]
          exact step.mpr ((consistent.init.answer_iff key).mpr consistent)

end Runs

section Sample

def movedTxt : VdEntry := namedEntry ['T', 'E', 'S', 'T', '.', 'T', 'X', 'T'] 0 5

theorem movedTxt_proper : movedTxt.Proper := ⟨⟨8, by decide⟩, by decide⟩

theorem mem_two {α : Type} {a b x : α} : x ∈ [a, b] ↔ x = a ∨ x = b := by simp

theorem qemu_writes {a b : VdEntry} (ha : a.firstSector ≠ 0xFFFFFFFF)
    (hb : b.firstSector ≠ 0xFFFFFFFF) :
    ∃ fuel t u, (vdWrite (ataDrive 0x1F0 0 fun _ _ => 3) fuel sampleLocals a).run
        (qemuState 8 fun _ => Sector.blank) = (some true, t) ∧
      (vdWrite (ataDrive 0x1F0 0 fun _ _ => 3) fuel sampleLocals b).run t = (some true, u) := by
  obtain ⟨t, ⟨N, first⟩, mounted, _⟩ :=
    (qemu_mounted 8 fun _ => Sector.blank).settles_vdWrite qemu_working sampleLocals ha
  obtain ⟨u, ⟨M, second⟩, _⟩ := mounted.settles_vdWrite qemu_working sampleLocals hb
  exact ⟨max N M, t, u, first _ (Nat.le_max_left N M), second _ (Nat.le_max_right N M)⟩

theorem vdWrite_last_wins_iff_kmain :
    ∃ steps s, WriteRun (ataDrive 0x1F0 0 fun _ _ => 3) steps s ∧
      steps.map WriteStep.file = [testTxt, lolTxt] ∧ ∀ w ∈ steps, LastWins VdEntry.zero w := by
  obtain ⟨fuel, t, u, first, second⟩ := qemu_writes (a := testTxt) (b := lolTxt) (by decide)
    (by decide)
  have run := ((WriteRun.start fun _ _ => rfl).write first).write second
  refine ⟨_, u, run, rfl, (vdWrite_last_wins_iff run ?_ ?_ VdEntry.zero).mpr ?_⟩
  · intro w hw
    rcases mem_two.mp hw with rfl | rfl
    · exact testTxt_proper
    · exact lolTxt_proper
  · intro w hw
    rcases mem_two.mp hw with rfl | rfl
    · exact (by decide : (1 : UInt32) ≠ 0xFFFFFFFF)
    · exact (by decide : (3 : UInt32) ≠ 0xFFFFFFFF)
  · have names : testTxt.fileKey ≠ lolTxt.fileKey := by decide
    refine ⟨fun x hx y hy keys => ?_, fun x hx => hx⟩
    rcases mem_two.mp hx with rfl | rfl
    · rcases mem_two.mp hy with rfl | rfl
      · rfl
      · exact absurd keys names
    · rcases mem_two.mp hy with rfl | rfl
      · exact absurd keys.symm names
      · rfl

/-- A second entry for the same name is written and never found. -/
theorem vdWrite_keeps_the_first :
    ∃ fuel t u, (vdWrite (ataDrive 0x1F0 0 fun _ _ => 3) fuel sampleLocals testTxt).run
        (qemuState 8 fun _ => Sector.blank) = (some true, t) ∧
      (vdWrite (ataDrive 0x1F0 0 fun _ _ => 3) fuel sampleLocals movedTxt).run
        t = (some true, u) ∧
      vdOpen VdEntry.zero u.entries movedTxt.nameText ≠ movedTxt := by
  obtain ⟨fuel, t, u, first, second⟩ := qemu_writes (a := testTxt) (b := movedTxt) (by decide)
    (by decide)
  refine ⟨fuel, t, u, first, second, ?_⟩
  have proper : ∀ e ∈ [testTxt, movedTxt], e.Proper := by
    intro e he
    rcases mem_two.mp he with rfl | rfl
    · exact testTxt_proper
    · exact movedTxt_proper
  have stored : Stored fileKey maximumEntries [testTxt, movedTxt]
      u.entries := by
    have zeroed : Stored fileKey maximumEntries []
        (qemuState 8 fun _ => Sector.blank).entries := Stored.nil fun _ _ => zero_free
    have one := zeroed.place testTxt_proper.keyed
    rw [← vdWrite_entries first] at one
    have two := one.place movedTxt_proper.keyed
    rwa [← vdWrite_entries second] at two
  have found : answer fileKey maximumEntries [testTxt, movedTxt]
      testTxt.nameText = some testTxt := List.find?_cons_of_pos (decide_eq_true testTxt_proper.key)
  have same : movedTxt.nameText = testTxt.nameText := rfl
  rw [same, vdOpen_stored stored proper VdEntry.zero testTxt_proper.named, found]
  intro same
  exact absurd (congrArg VdEntry.firstSector same) (by decide)

end Sample

end VDK
