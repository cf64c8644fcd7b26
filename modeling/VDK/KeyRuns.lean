import VDK.Keyboard
import VDK.PastTime

/-!
# Runs of the keyboard driver

A run is any sequence of whole `keyboard_handler` and `kb_getchar` calls, with
anything in between that leaves the driver's globals alone. Whatever the ports
answer, the keyboard globals are a function of the events.
-/
namespace VDK
open Atomic Fuel Kernel

/-- A call of the handler with the scan code it fetched, or a call of `kb_getchar`
with the character it returned. -/
inductive KeyEvent where
  | key (scancode : UInt8)
  | getchar (c : UInt8)
  deriving DecidableEq, Repr

def Keyboard.after (k : Keyboard) : KeyEvent → Keyboard
  | .key scancode => (k.setCh 0).receive scancode
  | .getchar _ => (k.setCh 0).setScanCode 0

def scanCodes : List KeyEvent → List UInt8 :=
  List.filterMap fun
    | .key scancode => some scancode
    | .getchar _ => none

/-- The characters `kb_getchar` returned in a history. -/
def charsRead : List KeyEvent → List UInt8 :=
  List.filterMap fun
    | .key _ => none
    | .getchar c => some c

@[simp] theorem scanCodes_key (events : List KeyEvent) (scancode : UInt8) :
    scanCodes (events ++ [.key scancode]) = scanCodes events ++ [scancode] :=
  List.filterMap_append

@[simp] theorem scanCodes_getchar (events : List KeyEvent) (c : UInt8) :
    scanCodes (events ++ [.getchar c]) = scanCodes events := by
  rw [scanCodes, List.filterMap_append, List.filterMap_cons_none rfl, List.filterMap_nil,
    List.append_nil]

/-- A make code of a key that has a character. -/
def CharKey (scancode : UInt8) : Prop := scancode < 0x80 ∧ scanCodeChars scancode ≠ 0

instance (scancode : UInt8) : Decidable (CharKey scancode) :=
  inferInstanceAs (Decidable (scancode < 0x80 ∧ scanCodeChars scancode ≠ 0))

section Runs

variable {σ : Type} (hw : Bus σ)

inductive KeyRun (s₀ : Kernel σ) : List KeyEvent → Kernel σ → Prop
  | start : KeyRun s₀ [] s₀
  | key {events : List KeyEvent} {s t : Kernel σ} (run : KeyRun s₀ events s)
      (handled : (keyboardHandler hw).run.run s = (some (), t)) :
      KeyRun s₀ (events ++ [.key t.keyboard.scanCode]) t
  | getchar {events : List KeyEvent} {s t : Kernel σ} {c : UInt8} (run : KeyRun s₀ events s)
      (returned : (kbGetchar 1).run.run s = (some c, t)) : KeyRun s₀ (events ++ [.getchar c]) t
  | other {events : List KeyEvent} {s t : Kernel σ} (run : KeyRun s₀ events s)
      (same : t.keyboard = s.keyboard) : KeyRun s₀ events t

theorem receive_scanCode (k : Keyboard) (scancode : UInt8) :
    (k.receive scancode).scanCode = scancode := by
  unfold Keyboard.receive Keyboard.keyDown
  dsimp only
  split_ifs <;> rfl

theorem getScancode_reads : Ends Reads (getScancode hw) := by
  have polls : ∀ n, Ends Reads (pollScancode hw n) := by
    intro n
    induction n with
    | zero => exact Ends.pure 0
    | succ n ih =>
        apply Ends.bind (inb_reads hw _)
        intro status
        split
        · exact ih
        · exact inb_reads hw _
  exact polls _

theorem keyboardHandler_after {s t : Kernel σ}
    (handled : (keyboardHandler hw).run.run s = (some (), t)) :
    t.keyboard = s.keyboard.after (.key t.keyboard.scanCode) := by
  rw [keyboardHandler, Prog.run_bind] at handled
  obtain ⟨_, u, cleared, rest⟩ := Exec.bind_eq_some handled
  rw [Prog.run_bind] at rest
  obtain ⟨scancode, v, fetched, stored⟩ := Exec.bind_eq_some rest
  have reads := (getScancode_reads hw).steps.keeps u
  rw [fetched] at reads
  obtain ⟨m, _, rfl, _⟩ := reads
  cases cleared
  cases stored
  have final : ∀ w : Kernel σ, (onKeyboard (Keyboard.receive scancode) w).keyboard =
      w.keyboard.receive scancode := fun _ => rfl
  rw [final, receive_scanCode]
  rfl

/-- A whole `kb_getchar` call whose first test succeeds. -/
theorem kbGetchar_after {s t : Kernel σ} {c : UInt8}
    (returned : (kbGetchar 1).run.run s = (some c, t)) :
    positive s.keyboard.ch = true ∧ c = s.keyboard.ch ∧
      t.keyboard = s.keyboard.after (.getchar c) := by
  rw [kbGetchar, Prog.run_bind] at returned
  obtain ⟨_, u, read, rest⟩ := Exec.bind_eq_some returned
  cases read
  by_cases there : positive s.keyboard.ch = true
  · rw [if_pos there] at rest
    cases rest
    exact ⟨there, rfl, rfl⟩
  · rw [if_neg there] at rest
    cases rest

theorem kbGetchar_returns {s : Kernel σ} (there : positive s.keyboard.ch = true) :
    ∃ t, (kbGetchar 1).run.run s = (some s.keyboard.ch, t) ∧ t.machine = s.machine := by
  rw [kbGetchar, Prog.run_bind, Prog.run_get, Exec.run_bind, Exec.run_get, Exec.andThen_some,
    if_pos there]
  exact ⟨onKeyboard (Keyboard.setScanCode 0) (onKeyboard (Keyboard.setCh 0) s), rfl, rfl⟩

theorem KeyRun.keyboard {hw : Bus σ} {s₀ s : Kernel σ} {events : List KeyEvent}
    (run : KeyRun hw s₀ events s) : s.keyboard = events.foldl Keyboard.after s₀.keyboard := by
  induction run with
  | start => rfl
  | key _ handled ih =>
      rw [List.foldl_append, ← ih]
      exact keyboardHandler_after hw handled
  | getchar _ returned ih =>
      rw [List.foldl_append, ← ih]
      exact (kbGetchar_after returned).2.2
  | other _ same ih => rw [same, ih]

/-- A run has passed through every prefix of its events. -/
theorem KeyRun.before {hw : Bus σ} {s₀ s : Kernel σ} {events : List KeyEvent}
    (run : KeyRun hw s₀ events s) {first second : List KeyEvent}
    (split : events = first ++ second) : ∃ t, KeyRun hw s₀ first t := by
  induction run generalizing second with
  | start =>
      obtain ⟨rfl, _⟩ := List.append_eq_nil_iff.mp split.symm
      exact ⟨s₀, .start⟩
  | @key events s t run handled ih =>
      rcases List.eq_nil_or_concat' second with rfl | ⟨init, e, rfl⟩
      · rw [List.append_nil] at split
        exact ⟨t, split ▸ run.key handled⟩
      · rw [← List.append_assoc] at split
        exact ih (List.append_inj' split rfl).1
  | @getchar events s t c run returned ih =>
      rcases List.eq_nil_or_concat' second with rfl | ⟨init, e, rfl⟩
      · rw [List.append_nil] at split
        exact ⟨t, split ▸ run.getchar returned⟩
      · rw [← List.append_assoc] at split
        exact ih (List.append_inj' split rfl).1
  | other _ _ ih => exact ih split

theorem KeyRun.last {hw : Bus σ} {s₀ t : Kernel σ} {events : List KeyEvent} {e : KeyEvent}
    (run : KeyRun hw s₀ (events ++ [e]) t) :
    ∃ s, KeyRun hw s₀ events s ∧ t.keyboard = s.keyboard.after e ∧
      ∀ c, e = .getchar c → positive s.keyboard.ch = true ∧ c = s.keyboard.ch := by
  generalize whole : events ++ [e] = all at run
  induction run with
  | start => simp at whole
  | key run handled _ =>
      obtain ⟨rfl, last⟩ := List.append_inj' whole rfl
      cases last
      exact ⟨_, run, keyboardHandler_after hw handled, fun c other => nomatch other⟩
  | getchar run returned _ =>
      obtain ⟨rfl, last⟩ := List.append_inj' whole rfl
      cases last
      obtain ⟨there, value, effect⟩ := kbGetchar_after returned
      refine ⟨_, run, effect, fun c same => ?_⟩
      cases same
      exact ⟨there, value⟩
  | other _ same ih =>
      obtain ⟨s, run, effect, read⟩ := ih whole
      exact ⟨s, run, same.trans effect, read⟩

end Runs

section Queue

/-- A controller that always has the next byte of a list ready. -/
def byteQueue : Bus (List UInt8) where
  inb port queue := if port = 0x64 then (1, queue) else (queue.headD 0, queue.tail)
  inw _ queue := (0, queue)
  inl _ queue := (0, queue)
  outb _ _ queue := queue
  outw _ _ queue := queue

theorem getScancode_queue {s : Kernel (List UInt8)} {code : UInt8} {rest : List UInt8}
    (queue : s.machine.bus = code :: rest) :
    ∃ t, (getScancode byteQueue).run.run s = (some code, t) ∧ t.machine.bus = rest := by
  have polls : (2 ^ 31 - 1000 : Nat) = 2147482647 + 1 := rfl
  have data : ∀ m : Machine (List UInt8), (inportb byteQueue keyboardDataPort m).1 =
      m.bus.headD 0 ∧ (inportb byteQueue keyboardDataPort m).2.bus = m.bus.tail :=
    fun m => ⟨rfl, rfl⟩
  have status : ∀ m : Machine (List UInt8), (inportb byteQueue keyboardStatusPort m).1 = 1 ∧
      (inportb byteQueue keyboardStatusPort m).2.bus = m.bus := fun m => ⟨rfl, rfl⟩
  let m := (inportb byteQueue keyboardStatusPort s.machine).2
  have ready : ¬((1 : UInt8) &&& 1 = 0) := by decide
  refine ⟨s.setMachine (inportb byteQueue keyboardDataPort m).2, ?_, ?_⟩
  · rw [getScancode, polls, pollScancode, Prog.run_bind, Exec.run_bind, run_inb,
      Exec.andThen_some, (status _).1, if_neg ready, run_inb]
    have front : (inportb byteQueue keyboardDataPort m).1 = code := by
      rw [(data m).1, (status _).2, queue]
      rfl
    exact congrArg (fun c => (some c, s.setMachine (inportb byteQueue keyboardDataPort m).2)) front
  · exact ((data m).2.trans (congrArg List.tail ((status _).2.trans queue)))

theorem keyboardHandler_queue {s : Kernel (List UInt8)} {code : UInt8} {rest : List UInt8}
    (queue : s.machine.bus = code :: rest) :
    ∃ t, (keyboardHandler byteQueue).run.run s = (some (), t) ∧ t.keyboard.scanCode = code ∧
      t.machine.bus = rest := by
  obtain ⟨u, fetched, left⟩ :=
    getScancode_queue (s := onKeyboard (Keyboard.setCh 0) s) queue
  refine ⟨onKeyboard (Keyboard.receive code) u, ?_, receive_scanCode _ _, left⟩
  rw [keyboardHandler, Prog.run_bind, Prog.run_modify, Exec.run_bind, Exec.run_modify,
    Exec.andThen_some, Prog.run_bind, Exec.run_bind, fetched, Exec.andThen_some,
    Prog.run_modify, Exec.run_modify]

/-- The queued scan codes are delivered one per call. -/
theorem KeyRun.deliver {s₀ s : Kernel (List UInt8)} {events : List KeyEvent}
    (run : KeyRun byteQueue s₀ events s) {codes rest : List UInt8}
    (queue : s.machine.bus = codes ++ rest) :
    ∃ t, KeyRun byteQueue s₀ (events ++ codes.map .key) t ∧ t.machine.bus = rest := by
  induction codes generalizing s events with
  | nil =>
      rw [List.map_nil, List.append_nil]
      exact ⟨s, run, queue⟩
  | cons code codes ih =>
      obtain ⟨u, handled, fetched, left⟩ := keyboardHandler_queue queue
      obtain ⟨t, ran, done⟩ := ih (run.key handled) left
      rw [fetched, ← List.append_cons] at ran
      exact ⟨t, ran, done⟩

end Queue

end VDK
