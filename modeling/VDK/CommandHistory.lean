import VDK.ByteMemory
import VDK.LiveHeap

/-!
# The command history of the shell (`term/vSh/history.h`)

The table holds the pointers that `strdup` returned. `history` prints the table and frees
all of it, and the counter stays what it was.
-/
namespace VDK
open ByteMem LiveHeap

abbrev maxHistory : Nat := 100

/-- A line printed by `hist` with the string that lies behind its pointer, or a call of
`free` and whether a string was live there. -/
inductive HistoryEvent where
  | printed (number : Nat) (entry : Option Text)
  | freed (p : UInt32) (live : Bool)

/-- The heap of strings, `command_history`, `history_count`, and what has happened. -/
structure HistoryState where
  heap : Heap UInt32 Text
  commandHistory : Nat → UInt32
  historyCount : Nat
  events : List HistoryEvent

section Source

/-- `append_hist`; `strdup` returns any pointer behind which no string is live. -/
inductive AppendHist (command : Text) (s : HistoryState) : HistoryState → Prop
  | stored (room : s.historyCount < maxHistory) (p : UInt32) (nonnull : p ≠ 0)
      (fresh : ¬Live s.heap p) :
      AppendHist command s
        { s with
          heap := alloc p command s.heap
          commandHistory := Function.update s.commandHistory s.historyCount p
          historyCount := s.historyCount + 1 }
  | full (none : ¬s.historyCount < maxHistory) : AppendHist command s s

def printEntry (s : HistoryState) (i : Nat) : HistoryState :=
  { s with events := s.events ++ [.printed (i + 1) (s.heap (s.commandHistory i))] }

def hist (s : HistoryState) : HistoryState := (List.range s.historyCount).foldl printEntry s

def freeEntry (s : HistoryState) (i : Nat) : HistoryState :=
  { s with
    heap := release (s.commandHistory i) s.heap
    events := s.events ++ [.freed (s.commandHistory i) (s.heap (s.commandHistory i)).isSome] }

def history (s : HistoryState) : HistoryState :=
  (List.range (hist s).historyCount).foldl freeEntry (hist s)

inductive HistoryOp where
  | appendHist (command : Text)
  | hist
  | history

/-- A call of one of the three functions. -/
inductive HistoryStep : HistoryOp → HistoryState → HistoryState → Prop
  | appendHist {command : Text} {s t : HistoryState} (appended : AppendHist command s t) :
      HistoryStep (.appendHist command) s t
  | hist (s : HistoryState) : HistoryStep .hist s (hist s)
  | history (s : HistoryState) : HistoryStep .history s (history s)

end Source

section Loops

/-- The strings in the table. -/
def HistoryState.entries (s : HistoryState) : List UInt32 :=
  (List.range s.historyCount).map s.commandHistory

theorem printEntries_eq (is : List Nat) (s : HistoryState) :
    is.foldl printEntry s =
      { s with events := s.events ++
          is.map fun i => .printed (i + 1) (s.heap (s.commandHistory i)) } := by
  induction is generalizing s with
  | nil =>
      rw [List.map_nil, List.append_nil]
      rfl
  | cons i is ih =>
      rw [List.foldl_cons, ih, List.map_cons]
      simp only [printEntry, List.append_assoc, List.singleton_append]

theorem freeEntries_eq (is : List Nat) (s : HistoryState) :
    is.foldl freeEntry s =
      { s with
        heap := (releaseAll (is.map s.commandHistory) s.heap).1
        events := s.events ++
          (releaseAll (is.map s.commandHistory) s.heap).2.map fun r => .freed r.1 r.2 } := by
  induction is generalizing s with
  | nil =>
      rw [List.map_nil, releaseAll, List.map_nil, List.append_nil]
      rfl
  | cons i is ih =>
      rw [List.foldl_cons, ih, List.map_cons, releaseAll]
      simp only [freeEntry, List.append_assoc, List.singleton_append, List.map_cons]

theorem hist_eq (s : HistoryState) : hist s =
    { s with events := s.events ++
        (List.range s.historyCount).map fun i =>
          .printed (i + 1) (s.heap (s.commandHistory i)) } :=
  printEntries_eq _ s

theorem history_eq (s : HistoryState) : history s =
    { s with
      heap := (releaseAll s.entries s.heap).1
      events := (hist s).events ++
        (releaseAll s.entries s.heap).2.map fun r => .freed r.1 r.2 } := by
  rw [history, freeEntries_eq, hist_eq]
  rfl

end Loops

section Soundness

/-- The entries are live and fit into the table; every line printed showed a live string and
every call of `free` got one. -/
structure HistoryState.Sound (s : HistoryState) : Prop where
  live : ∀ i, i < s.historyCount → Live s.heap (s.commandHistory i)
  bound : s.historyCount ≤ maxHistory
  printed : ∀ n entry, .printed n entry ∈ s.events → entry ≠ none
  freed : ∀ p live, .freed p live ∈ s.events → live = true

/-- What appending and listing keep: a sound state whose entries are different strings. -/
structure HistoryState.Intact (s : HistoryState) : Prop extends s.Sound where
  apart : ∀ i j, i < s.historyCount → j < s.historyCount →
    s.commandHistory i = s.commandHistory j → i = j

namespace HistoryState.Intact

variable {s t : HistoryState}

theorem appendHist {command : Text} (intact : s.Intact) (appended : AppendHist command s t) :
    t.Intact := by
  cases appended with
  | full => exact intact
  | stored room p nonnull fresh =>
      have kept : ∀ i, i < s.historyCount →
          Function.update s.commandHistory s.historyCount p i = s.commandHistory i :=
        fun i less => Function.update_of_ne (Nat.ne_of_lt less) _ _
      have other : ∀ i, i < s.historyCount → s.commandHistory i ≠ p :=
        fun i less same => fresh (same ▸ intact.live i less)
      have last : Function.update s.commandHistory s.historyCount p s.historyCount = p :=
        Function.update_self ..
      refine ⟨⟨fun i less => ?_, room, intact.printed, intact.freed⟩,
        fun i j first second same => ?_⟩
      · change Live (alloc p command s.heap) (Function.update s.commandHistory s.historyCount p i)
        rw [live_alloc]
        rcases Nat.lt_succ_iff_lt_or_eq.mp less with old | rfl
        · rw [kept i old]
          exact Or.inr (intact.live i old)
        · exact Or.inl last
      · change Function.update s.commandHistory s.historyCount p i =
          Function.update s.commandHistory s.historyCount p j at same
        rcases Nat.lt_succ_iff_lt_or_eq.mp first with old | rfl
        · rcases Nat.lt_succ_iff_lt_or_eq.mp second with old' | rfl
          · rw [kept i old, kept j old'] at same
            exact intact.apart i j old old' same
          · rw [kept i old, last] at same
            exact absurd same (other i old)
        · rcases Nat.lt_succ_iff_lt_or_eq.mp second with old' | rfl
          · rw [kept j old', last] at same
            exact absurd same.symm (other j old')
          · rfl

theorem hist (intact : s.Intact) : (hist s).Intact := by
  rw [hist_eq]
  refine ⟨⟨intact.live, intact.bound, fun n entry member => ?_, fun p live member => ?_⟩,
    intact.apart⟩
  · rcases List.mem_append.mp member with old | new
    · exact intact.printed n entry old
    · obtain ⟨i, inside, line⟩ := List.mem_map.mp new
      cases line
      exact intact.live i (List.mem_range.mp inside)
  · rcases List.mem_append.mp member with old | new
    · exact intact.freed p live old
    · obtain ⟨i, _, line⟩ := List.mem_map.mp new
      cases line

/-- Every entry of an intact table is freed once. -/
theorem history_frees (intact : s.Intact) {p : UInt32} {live : Bool}
    (freed : .freed p live ∈ (history s).events) : live = true := by
  have once : s.entries.Nodup := by
    apply List.Nodup.map_on ?_ List.nodup_range
    intro i first j second same
    exact intact.apart i j (List.mem_range.mp first) (List.mem_range.mp second) same
  have found := (releaseAll_live_iff s.entries s.heap).mpr ⟨once, fun q member => by
    obtain ⟨i, inside, rfl⟩ := List.mem_map.mp member
    exact intact.live i (List.mem_range.mp inside)⟩
  rw [history_eq] at freed
  rcases List.mem_append.mp freed with old | new
  · exact intact.hist.freed p live old
  · obtain ⟨r, member, line⟩ := List.mem_map.mp new
    cases line
    exact found r member

end HistoryState.Intact

/-- An empty table is printed and freed without an effect. -/
theorem history_empty {s : HistoryState} (empty : s.historyCount = 0) : history s = s := by
  have listed : hist s = s := by
    rw [hist, empty]
    rfl
  rw [history, listed, empty]
  rfl

/-- A string that is in the table is in it behind `history` as well, and not live any more. -/
theorem history_not_sound {s : HistoryState} (some : 0 < s.historyCount) : ¬(history s).Sound := by
  intro sound
  have live : Live (history s).heap ((history s).commandHistory 0) := by
    apply sound.live
    rw [history_eq]
    exact some
  rw [history_eq, live_releaseAll] at live
  exact live.1 (List.mem_map_of_mem (List.mem_range.mpr some))

end Soundness

section Runs

/-- A call and the state behind it. -/
structure HistoryCall where
  op : HistoryOp
  after : HistoryState

inductive HistoryRun (s₀ : HistoryState) : List HistoryCall → HistoryState → Prop
  | start : HistoryRun s₀ [] s₀
  | call {calls : List HistoryCall} {op : HistoryOp} {s t : HistoryState}
      (run : HistoryRun s₀ calls s) (step : HistoryStep op s t) :
      HistoryRun s₀ (calls ++ [⟨op, t⟩]) t

/-- The state before the first call: whatever the heap holds, the table is empty. -/
structure HistoryState.Initial (s : HistoryState) : Prop where
  empty : s.historyCount = 0
  nothing : s.events = []

/-- Nothing was appended in the calls. -/
def NoneAppended (ops : List HistoryOp) : Prop := ∀ command, .appendHist command ∉ ops

/-- No call of `history` comes behind a call of `append_hist`. -/
def NeverReleases (ops : List HistoryOp) : Prop :=
  ∀ before after, ops = before ++ .history :: after → NoneAppended before

theorem neverReleases_nil : NeverReleases [] := by
  intro before after split
  cases before with
  | nil => cases split
  | cons op before => cases split

theorem neverReleases_append (ops : List HistoryOp) (op : HistoryOp) :
    NeverReleases (ops ++ [op]) ↔ NeverReleases ops ∧ (op = .history → NoneAppended ops) := by
  constructor
  · intro never
    constructor
    · intro before after split
      apply never before (after ++ [op])
      rw [split, List.append_assoc, List.cons_append]
    · rintro rfl
      exact never ops [] rfl
  · rintro ⟨earlier, last⟩ before after split
    rcases List.eq_nil_or_concat' after with rfl | ⟨init, e, rfl⟩
    · obtain ⟨rfl, same⟩ := List.append_inj' split rfl
      exact last (List.cons.inj same).1
    · rw [← List.cons_append, ← List.append_assoc] at split
      exact earlier before init (List.append_inj' split rfl).1

theorem noneAppended_append (ops : List HistoryOp) (op : HistoryOp) :
    NoneAppended (ops ++ [op]) ↔ NoneAppended ops ∧ ∀ command, op ≠ .appendHist command := by
  unfold NoneAppended
  simp only [List.mem_append, List.mem_singleton, not_or, forall_and, ne_eq, eq_comm]

theorem HistoryState.Initial.intact {s : HistoryState} (initial : s.Initial) : s.Intact where
  live i less := absurd less (initial.empty ▸ Nat.not_lt_zero i)
  bound := initial.empty ▸ Nat.zero_le _
  printed n entry member := by
    rw [initial.nothing] at member
    exact absurd member List.not_mem_nil
  freed p live member := by
    rw [initial.nothing] at member
    exact absurd member List.not_mem_nil
  apart i j less := absurd less (initial.empty ▸ Nat.not_lt_zero i)

/-- Only appending changes the counter, and the first append has room. -/
theorem HistoryStep.count {op : HistoryOp} {s t : HistoryState} (step : HistoryStep op s t) :
    t.historyCount = 0 ↔ s.historyCount = 0 ∧ ∀ command, op ≠ .appendHist command := by
  cases step with
  | appendHist appended =>
      have some : ¬t.historyCount = 0 := by
        cases appended with
        | stored => exact Nat.succ_ne_zero _
        | full none =>
            intro empty
            exact none (empty ▸ (by decide : 0 < maxHistory))
      exact ⟨fun empty => absurd empty some, fun both => absurd rfl (both.2 _)⟩
  | hist =>
      rw [hist_eq]
      exact ⟨fun empty => ⟨empty, fun _ other => by cases other⟩, fun both => both.1⟩
  | history =>
      rw [history_eq]
      exact ⟨fun empty => ⟨empty, fun _ other => by cases other⟩, fun both => both.1⟩

theorem HistoryStep.intact {op : HistoryOp} {s t : HistoryState} (step : HistoryStep op s t)
    (intact : s.Intact) (empty : op = .history → s.historyCount = 0) : t.Intact := by
  cases step with
  | appendHist appended => exact intact.appendHist appended
  | hist => exact intact.hist
  | history =>
      rw [history_empty (empty rfl)]
      exact intact

theorem HistoryStep.bounded {op : HistoryOp} {s t : HistoryState} (step : HistoryStep op s t)
    (room : s.historyCount ≤ maxHistory) : t.historyCount ≤ maxHistory := by
  cases step with
  | appendHist appended =>
      cases appended with
      | stored below => exact below
      | full => exact room
  | hist =>
      rw [hist_eq]
      exact room
  | history =>
      rw [history_eq]
      exact room

/-- The table is never left, whether or not a run is sound. -/
theorem HistoryRun.bounded {s₀ s : HistoryState} {calls : List HistoryCall}
    (run : HistoryRun s₀ calls s) (initial : s₀.Initial) : s.historyCount ≤ maxHistory := by
  induction run with
  | start => exact initial.intact.bound
  | call _ step ih => exact step.bounded ih

/-- What a run does to the counter, and which runs are sound. -/
theorem HistoryRun.sound {s₀ s : HistoryState} {calls : List HistoryCall}
    (run : HistoryRun s₀ calls s) (initial : s₀.Initial) :
    (s.historyCount = 0 ↔ NoneAppended (calls.map HistoryCall.op)) ∧
      (NeverReleases (calls.map HistoryCall.op) → s.Intact) ∧
      ((∀ c ∈ calls, c.after.Sound) ↔ NeverReleases (calls.map HistoryCall.op)) := by
  induction run with
  | start =>
      exact ⟨⟨fun _ _ => List.not_mem_nil, fun _ => initial.empty⟩, fun _ => initial.intact,
        ⟨fun _ => neverReleases_nil, fun _ c none => absurd none List.not_mem_nil⟩⟩
  | @call calls op s t _ step ih =>
      obtain ⟨counted, intact, earlier⟩ := ih
      rw [List.map_append, List.map_singleton, List.forall_mem_append, List.forall_mem_singleton,
        noneAppended_append, neverReleases_append, earlier, ← counted]
      refine ⟨step.count, fun ⟨before, empty⟩ => step.intact (intact before) empty, ?_⟩
      apply and_congr_right
      intro before
      constructor
      · rintro sound rfl
        -- a table with an entry would be printed and freed here, and then hold dead strings
        cases step
        by_contra some
        exact history_not_sound (Nat.pos_of_ne_zero some) sound
      · exact fun empty => (step.intact (intact before) empty).toSound

/-- Every state of a run is sound if and only if `history` is never called behind
`append_hist`. -/
theorem history_sound_iff {s₀ s : HistoryState} {calls : List HistoryCall}
    (initial : s₀.Initial) (run : HistoryRun s₀ calls s) :
    (∀ c ∈ calls, c.after.Sound) ↔ NeverReleases (calls.map HistoryCall.op) :=
  (run.sound initial).2.2

end Runs

section Release

def lsText : Text := Text.ofChars "ls".toList rfl

/-- The state before the first call, over an empty heap. -/
def noHistory : HistoryState := ⟨fun _ => none, fun _ => 0, 0, []⟩

/-- The command `ls` stored at an address. -/
def oneEntry : HistoryState :=
  { noHistory with
    heap := alloc 0x1000 lsText noHistory.heap
    commandHistory := Function.update noHistory.commandHistory 0 0x1000
    historyCount := 1 }

theorem oneEntry_appended : AppendHist lsText noHistory oneEntry :=
  .stored (by decide) 0x1000 (by decide) (fun live => live rfl)

/-- The second release prints a string that is gone and frees it again. -/
theorem second_release_frees_again :
    HistoryRun noHistory [⟨.appendHist lsText, oneEntry⟩, ⟨.history, history oneEntry⟩,
      ⟨.history, history (history oneEntry)⟩] (history (history oneEntry)) ∧
    (history (history oneEntry)).events = [.printed 1 (some lsText), .freed 0x1000 true,
      .printed 1 none, .freed 0x1000 false] ∧
    ¬(history oneEntry).Sound ∧ ¬(history (history oneEntry)).Sound := by
  refine ⟨((HistoryRun.start.call (.appendHist oneEntry_appended)).call (.history _)).call
    (.history _), rfl, history_not_sound (by decide), history_not_sound (by decide)⟩

theorem history_sound_iff_listed :
    noHistory.Sound ∧ oneEntry.Sound ∧ (hist oneEntry).Sound := by
  have emptied : HistoryStep .history noHistory noHistory := by
    have step := HistoryStep.history noHistory
    rw [history_empty rfl] at step
    exact step
  have first : NeverReleases [.history] :=
    (neverReleases_append [] .history).mpr ⟨neverReleases_nil, fun _ _ => List.not_mem_nil⟩
  have second : NeverReleases [.history, .appendHist lsText] :=
    (neverReleases_append [.history] _).mpr ⟨first, fun other => by cases other⟩
  have third : NeverReleases [.history, .appendHist lsText, .hist] :=
    (neverReleases_append [.history, .appendHist lsText] _).mpr
      ⟨second, fun other => by cases other⟩
  have sound := (history_sound_iff ⟨rfl, rfl⟩ (((HistoryRun.start.call emptied).call
    (.appendHist oneEntry_appended)).call (.hist _))).mpr third
  obtain ⟨released, rest⟩ := List.forall_mem_cons.mp sound
  obtain ⟨appended, listed⟩ := List.forall_mem_cons.mp rest
  exact ⟨released, appended, listed _ (List.mem_singleton_self _)⟩

end Release

end VDK
