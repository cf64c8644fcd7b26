import VDK.KeySlot

/-!
# Interrupts between the steps of `kb_getchar`

`kb_getchar` tests the slot, loads it and clears it in three accesses of their own. The
handler may run between any two of them, and rewrites the slot each time.
-/
namespace VDK
open Atomic Fuel Kernel

section Steps

variable {σ : Type} (hw : Bus σ)

/-- Whole runs of the handler, with the scan codes they fetched, and anything in between
that leaves the driver's globals alone. -/
inductive Handled (s : Kernel σ) : List UInt8 → Kernel σ → Prop
  | none : Handled s [] s
  | handler {codes : List UInt8} {t u : Kernel σ} (before : Handled s codes t)
      (handled : (keyboardHandler hw).run.run t = (some (), u)) :
      Handled s (codes ++ [u.keyboard.scanCode]) u
  | other {codes : List UInt8} {t u : Kernel σ} (before : Handled s codes t)
      (same : u.keyboard = t.keyboard) : Handled s codes u

/-- A call of `kb_getchar` that returned: its tests, the last of which succeeded, the load
of `g_ch`, the clearing of `g_ch` and that of `g_scan_code`. -/
structure ReadCall (σ : Type) where
  tests : List (Moment (Kernel σ) UInt8)
  load : Moment (Kernel σ) UInt8
  clear : Moment (Kernel σ) UInt8
  clearCode : Moment (Kernel σ) UInt8
  value : UInt8

def ReadCall.record (call : ReadCall σ) : List (Moment (Kernel σ) UInt8) :=
  call.tests ++ [call.load, call.clear, call.clearCode]

/-- Calls of `kb_getchar`, each interrupted anywhere. -/
inductive ReadRun (s₀ : Kernel σ) : List (ReadCall σ) → Kernel σ → Prop
  | start : ReadRun s₀ [] s₀
  | call {calls : List (ReadCall σ)} {s t : Kernel σ} {fuel : Nat} (run : ReadRun s₀ calls s)
      (call : ReadCall σ)
      (returned : Recorded (Handled hw) (kbGetchar fuel) s call.record call.value t) :
      ReadRun s₀ (calls ++ [call]) t

/-- A character is returned, and none is lost: the clearing finds nothing that a handler
run put in the slot after the load. -/
structure ReadOnce (call : ReadCall σ) : Prop where
  value : positive call.value = true
  kept : call.clear.arrived ≠ [] → call.clear.state.keyboard.ch = 0

/-- The last scan code between the test and the load, if there is one, brings a character,
and the last one between the load and the clearing brings none. -/
structure Undisturbed (call : ReadCall σ) : Prop where
  load : ∀ code ∈ call.load.arrived.getLast?, CharKey code
  clear : ∀ code ∈ call.clear.arrived.getLast?, ¬CharKey code

variable {hw}

theorem Handled.keyboard {s t : Kernel σ} {codes : List UInt8} (arrived : Handled hw s codes t) :
    t.keyboard = (codes.map KeyEvent.key).foldl Keyboard.after s.keyboard := by
  induction arrived with
  | none => rfl
  | handler _ handled ih =>
      rw [List.map_append, List.foldl_append, ← ih]
      exact keyboardHandler_after hw handled
  | other _ same ih => exact same.trans ih

theorem Handled.slot {s t : Kernel σ} {codes : List UInt8} (arrived : Handled hw s codes t)
    {code : UInt8} (last : code ∈ codes.getLast?) :
    (CharKey code → positive t.keyboard.ch = true) ∧ (¬CharKey code → t.keyboard.ch = 0) := by
  have keyboard := arrived.keyboard
  obtain ⟨init, rfl⟩ := List.getLast?_eq_some_iff.mp last
  rw [List.map_append, List.foldl_append] at keyboard
  rw [keyboard]
  exact ⟨fun char => receive_press char _, fun silent => receive_silent silent _⟩

/-- What the moments of a call have to do with each other. -/
structure ReadCall.InOrder (hw : Bus σ) (call : ReadCall σ) : Prop where
  test : ∃ earlier test, call.tests = earlier ++ [test] ∧
    positive test.state.keyboard.ch = true ∧ Handled hw test.state call.load.arrived call.load.state
  value : call.value = call.load.state.keyboard.ch
  clear : Handled hw call.load.state call.clear.arrived call.clear.state

theorem ReadCall.record_inj {call other : ReadCall σ} (record : call.record = other.record)
    (value : call.value = other.value) : call = other := by
  obtain ⟨tests, last⟩ := List.append_inj' record rfl
  cases call
  cases other
  cases tests
  cases last
  cases value
  rfl

/-- Every returning run is a call of that form. -/
theorem kbGetchar_recorded {fuel : Nat} {s t : Kernel σ} {c : UInt8}
    {record : List (Moment (Kernel σ) UInt8)}
    (returned : Recorded (Handled hw) (kbGetchar fuel) s record c t) :
    ∃ call : ReadCall σ, call.record = record ∧ call.value = c ∧ call.InOrder hw := by
  induction fuel generalizing s record with
  | zero => cases returned
  | succ fuel ih =>
      rw [kbGetchar] at returned
      obtain ⟨_, _, u, _, rfl, tested, after⟩ := returned.bind_inv
      obtain ⟨codes, rfl, rfl, _⟩ := tested.get_inv
      by_cases there : positive u.keyboard.ch = true
      · rw [if_pos there] at after
        obtain ⟨_, _, v, _, rfl, loaded, clearing⟩ := after.bind_inv
        obtain ⟨_, rfl, rfl, load⟩ := loaded.get_inv
        dsimp only at clearing
        obtain ⟨_, _, _, _, rfl, cleared, ending⟩ := clearing.bind_inv
        obtain ⟨_, _, rfl, rfl, clear⟩ := cleared.modify_inv
        obtain ⟨_, _, _, _, rfl, ended, value⟩ := ending.bind_inv
        obtain ⟨_, _, rfl, rfl, _⟩ := ended.modify_inv
        cases value
        exact ⟨⟨[⟨codes, u⟩], _, _, _, _⟩, rfl, rfl, ⟨[], _, rfl, there, load⟩, rfl, clear⟩
      · rw [if_neg there] at after
        obtain ⟨call, rfl, rfl, order⟩ := ih after
        obtain ⟨earlier, test, tests, there, load⟩ := order.test
        refine ⟨{ call with tests := ⟨codes, u⟩ :: call.tests }, rfl, rfl, ?_, order.value, order.clear⟩
        exact ⟨⟨codes, u⟩ :: earlier, test, congrArg (List.cons _) tests, there, load⟩

theorem ReadCall.InOrder.value_iff {call : ReadCall σ} (order : call.InOrder hw) :
    positive call.value = true ↔ ∀ code ∈ call.load.arrived.getLast?, CharKey code := by
  obtain ⟨_, test, _, there, load⟩ := order.test
  rw [order.value]
  cases last : call.load.arrived.getLast? with
  | none =>
      have quiet : call.load.arrived = [] := List.getLast?_eq_none_iff.mp last
      have keyboard := load.keyboard
      rw [quiet] at keyboard
      rw [show call.load.state.keyboard = test.state.keyboard from keyboard]
      exact iff_of_true there fun code none => absurd none (Option.not_mem_none code)
  | some code =>
      obtain ⟨press, silent⟩ := load.slot last
      constructor
      · rintro value _ ⟨⟩
        refine Classical.byContradiction fun other => ?_
        rw [silent other] at value
        exact absurd value Bool.false_ne_true
      · exact fun char => press (char code rfl)

theorem ReadCall.InOrder.kept_iff {call : ReadCall σ} (order : call.InOrder hw) :
    (call.clear.arrived ≠ [] → call.clear.state.keyboard.ch = 0) ↔
      ∀ code ∈ call.clear.arrived.getLast?, ¬CharKey code := by
  cases last : call.clear.arrived.getLast? with
  | none =>
      have quiet : call.clear.arrived = [] := List.getLast?_eq_none_iff.mp last
      exact iff_of_true (fun some => absurd quiet some)
        fun code none => absurd none (Option.not_mem_none code)
  | some code =>
      obtain ⟨press, silent⟩ := order.clear.slot last
      constructor
      · rintro kept _ ⟨⟩ char
        have arrived : call.clear.arrived ≠ [] := fun quiet => by
          rw [quiet] at last
          cases last
        have there := press char
        rw [kept arrived] at there
        exact absurd there Bool.false_ne_true
      · exact fun none _ => silent (none code rfl)

/-- A call returns what it should if and only if nothing disturbed it. -/
theorem ReadCall.InOrder.readOnce_iff {call : ReadCall σ} (order : call.InOrder hw) :
    ReadOnce call ↔ Undisturbed call := by
  constructor
  · exact fun once => ⟨order.value_iff.mp once.value, order.kept_iff.mp once.kept⟩
  · exact fun quiet => ⟨order.value_iff.mpr quiet.load, order.kept_iff.mpr quiet.clear⟩

theorem ReadRun.inOrder {s₀ s : Kernel σ} {calls : List (ReadCall σ)}
    (run : ReadRun hw s₀ calls s) : ∀ call ∈ calls, call.InOrder hw := by
  induction run with
  | start => exact fun call none => absurd none List.not_mem_nil
  | call _ call returned ih =>
      intro other member
      rcases List.mem_append.mp member with earlier | last
      · exact ih other earlier
      · obtain ⟨same, record, value, order⟩ := kbGetchar_recorded returned
        rw [List.mem_singleton.mp last, ← ReadCall.record_inj record value]
        exact order

/-- Along any run, every call returns a character and loses none if and only if none of
them was disturbed. -/
theorem reads_once_iff {s₀ s : Kernel σ} {calls : List (ReadCall σ)}
    (run : ReadRun hw s₀ calls s) :
    (∀ call ∈ calls, ReadOnce call) ↔ ∀ call ∈ calls, Undisturbed call :=
  forall₂_congr fun call member => (run.inOrder call member).readOnce_iff

end Steps

section Deliveries

theorem ReadRun.single {σ : Type} {hw : Bus σ} {s u v w : Kernel σ}
    {tested loaded cleared : List UInt8} (test : Handled hw s tested u)
    (there : positive u.keyboard.ch = true) (load : Handled hw u loaded v)
    (clear : Handled hw v cleared w) :
    ReadRun hw s [⟨[⟨tested, u⟩], ⟨loaded, v⟩, ⟨cleared, w⟩,
      ⟨[], onKeyboard (Keyboard.setCh 0) w⟩, v.keyboard.ch⟩]
      (onKeyboard (Keyboard.setScanCode 0) (onKeyboard (Keyboard.setCh 0) w)) := by
  have returned : Recorded (Handled hw) (kbGetchar 1) s
      [⟨tested, u⟩, ⟨loaded, v⟩, ⟨cleared, w⟩, ⟨[], onKeyboard (Keyboard.setCh 0) w⟩] v.keyboard.ch
      (onKeyboard (Keyboard.setScanCode 0) (onKeyboard (Keyboard.setCh 0) w)) := by
    refine .step test ?_
    change Recorded (Handled hw) (if positive u.keyboard.ch = true then _ else _) u _ _ _
    rw [if_pos there]
    exact .step load (.step clear (.step .none (.ret _ _)))
  exact ReadRun.start.call _ returned

theorem Handled.deliver {s t : Kernel (List UInt8)} {codes : List UInt8}
    (arrived : Handled byteQueue s codes t) {code : UInt8} {rest : List UInt8}
    (queue : t.machine.bus = code :: rest) :
    ∃ u, Handled byteQueue s (codes ++ [code]) u ∧ u.machine.bus = rest := by
  obtain ⟨u, handled, fetched, left⟩ := keyboardHandler_queue queue
  exact ⟨u, fetched ▸ arrived.handler handled, left⟩

theorem handled_after_a (code : UInt8) : ∃ u v, Handled byteQueue (zeroed [0x1E, code]) [0x1E] u ∧
    u.keyboard = ⟨false, false, 0x61, 0x1E⟩ ∧ Handled byteQueue u [code] v ∧
    v.keyboard = (u.keyboard.setCh 0).receive code := by
  have start : Handled byteQueue (zeroed [0x1E, code]) [] (zeroed [0x1E, code]) := .none
  obtain ⟨u, pressed, left⟩ := start.deliver rfl
  have again : Handled byteQueue u [] u := .none
  obtain ⟨v, second, _⟩ := again.deliver left
  exact ⟨u, v, pressed, pressed.keyboard.trans rfl, second, second.keyboard⟩

/-- The release of the key between the test and the load makes `kb_getchar` return a NUL,
and a key pressed between the load and the clearing is lost. -/
theorem interrupted_read_fails :
    (∃ call t, ReadRun byteQueue (zeroed [0x1E, 0x9E]) [call] t ∧ call.load.arrived = [0x9E] ∧
      call.value = 0 ∧ ¬ReadOnce call) ∧
    ∃ call t, ReadRun byteQueue (zeroed [0x1E, 0x30]) [call] t ∧ call.clear.arrived = [0x30] ∧
      call.clear.state.keyboard.ch = 0x62 ∧ t.keyboard.ch = 0 ∧ ¬ReadOnce call := by
  constructor
  · obtain ⟨u, v, pressed, typed, released, keyboard⟩ := handled_after_a 0x9E
    have there : positive u.keyboard.ch = true := typed.symm ▸ rfl
    have empty : v.keyboard.ch = 0 := by
      rw [keyboard, typed]
      rfl
    refine ⟨_, _, ReadRun.single pressed there released .none, rfl, empty, fun once => ?_⟩
    have value : positive v.keyboard.ch = true := once.value
    rw [empty] at value
    exact absurd value Bool.false_ne_true
  · obtain ⟨u, v, pressed, typed, second, keyboard⟩ := handled_after_a 0x30
    have there : positive u.keyboard.ch = true := typed.symm ▸ rfl
    have slot : v.keyboard.ch = 0x62 := by
      rw [keyboard, typed]
      rfl
    refine ⟨_, _, ReadRun.single pressed there .none second, rfl, slot, rfl, fun once => ?_⟩
    have kept : v.keyboard.ch = 0 := once.kept (List.cons_ne_nil _ _)
    rw [slot] at kept
    exact absurd kept (by decide)

theorem reads_once_iff_release : ∃ call t,
    ReadRun byteQueue (zeroed [0x1E, 0x9E]) [call] t ∧ call.value = 0x61 ∧
      call.clear.arrived = [0x9E] ∧ ∀ c ∈ [call], ReadOnce c := by
  obtain ⟨u, v, pressed, typed, released, _⟩ := handled_after_a 0x9E
  have there : positive u.keyboard.ch = true := typed.symm ▸ rfl
  have run := ReadRun.single pressed there .none released
  refine ⟨_, _, run, congrArg Keyboard.ch typed, rfl, (reads_once_iff run).mpr fun call member => ?_⟩
  cases List.mem_singleton.mp member
  refine ⟨fun code none => absurd none (Option.not_mem_none code), fun code last => ?_⟩
  cases last
  decide

end Deliveries

end VDK
