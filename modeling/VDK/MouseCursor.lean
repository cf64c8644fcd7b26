import VDK.Mouse
import VDK.KeyRuns
import VDK.TerminalLog

/-!
# The mouse cursor and the edges of the screen

A call of `mouse_handler` is described by the state before it, the byte its ports
deliver, and the state after it. The position can reach the column and the row just
outside the screen, and nothing further.
-/
namespace VDK
open Atomic Fuel Kernel Terminal

/-- What a call does to the driver's globals when it reads `b`. -/
def Mouse.after (b : UInt8) (m : Mouse) : Mouse :=
  if m.cycle = 0 then { m with byte0 := b, status := getMouseStatus b, cycle := m.cycle + 1 }
  else if m.cycle = 1 then { m with byte1 := b, cycle := m.cycle + 1 }
  else if m.cycle = 2 then (m.setByte2 b).move.setCycle 0
  else m

section Calls

variable {σ : Type} (hw : Bus σ)

theorem mouseWait_reads (type : Bool) : Ends Reads (mouseWait hw type) := by
  have polls : ∀ n, Ends Reads (mouseWaitPolls hw type n) := by
    intro n
    induction n with
    | zero => exact Ends.pure ()
    | succ n ih =>
        apply Ends.bind (inb_reads hw _)
        intro status
        split
        · exact Ends.pure ()
        · exact ih
  exact polls 100000

theorem mouseRead_reads : Ends Reads (mouseRead hw) :=
  Ends.bind (mouseWait_reads hw false) fun _ => inb_reads hw _

theorem run_printLiteral {fmt : ByteMem.Text} (plain : Plain fmt.chars) (t : Terminal) :
    (printLiteral fmt).run.run t = (some (), fmt.chars.foldl (fun t c => typed c t) t) := by
  rw [printLiteral, printf_plain terminalPutchar _ plain]
  exact run_terminalWrite fmt.chars t

/-- Some text was typed, and nothing else changed. -/
def Types (s t : Kernel σ) : Prop :=
  ∃ cs : List UInt8, t = s.setTerminal (cs.foldl (fun t c => typed c t) s.terminal)

instance : IsPreorder (Kernel σ) Types where
  refl s := ⟨[], rfl⟩
  trans s _ _ := by
    rintro ⟨cs, rfl⟩ ⟨ds, rfl⟩
    refine ⟨cs ++ ds, ?_⟩
    rw [List.foldl_append]
    rfl

theorem printMouseInfo_types (s : Kernel σ) :
    Returns printMouseInfo.run s fun _ t => Types s t := by
  have click : ∀ (c : Prop) [Decidable c] (fmt : ByteMem.Text) (s : Kernel σ), Plain fmt.chars →
      Returns (Prog.when c (onTerminal (printLiteral fmt))).run s fun _ t => Types s t := by
    intro c _ fmt s plain
    rw [Returns, Prog.run_when]
    split
    · rw [run_onTerminal, run_printLiteral plain]
      exact ⟨(), _, rfl, fmt.chars, rfl⟩
    · exact ⟨(), s, rfl, refl_of Types s⟩
  simp only [printMouseInfo, Prog.run_bind, Prog.run_get]
  refine Returns.get ?_
  refine (click _ leftClicked s (by decide)).bind fun _ t left => ?_
  refine Returns.get ?_
  refine (click _ rightClicked t (by decide)).bind fun _ u right => ?_
  refine Returns.get ?_
  refine (click _ middleClicked u (by decide)).mono fun _ v middle => ?_
  exact trans_of Types left (trans_of Types right middle)

/-- The screen cleared, with the mark of the cursor at the driver's position. -/
def marked (s : Kernel σ) : Terminal :=
  store (toSize s.mouse.yPos * vgaWidth + toSize s.mouse.xPos) (vgaEntry 'X'.toUInt8 7)
    (cleared vgaColorLightGrey vgaColorBlack s.terminal)

theorem run_drawCursor (s : Kernel σ) :
    drawCursor.run.run s = (some (), s.setTerminal (marked s)) := by
  simp only [drawCursor, Prog.run_bind, Exec.run_bind, run_onTerminal, terminalInitialize,
    run_screenInitialize, Exec.andThen_some, Prog.run_get, Exec.run_get]
  unfold marked
  generalize cleared vgaColorLightGrey vgaColorBlack s.terminal = t
  rfl

/-- What a call of the handler does, with the byte that its ports deliver. -/
structure MouseEffect (b : UInt8) (s t : Kernel σ) : Prop where
  mouse : t.mouse = s.mouse.after b
  idle : s.mouse.cycle ≠ 2 → t.terminal = s.terminal
  draws : s.mouse.cycle = 2 → ∃ cs : List UInt8, t.terminal =
    cs.foldl (fun t c => typed c t) (marked { s with mouse := s.mouse.after b })

theorem mouseCycle_effect {s u : Kernel σ} {b : UInt8}
    (read : (mouseRead hw).run.run s = (some b, u)) :
    Returns (mouseCycle hw).run s fun _ t =>
      MouseEffect b s t ∧ (s.mouse.cycle < 3 → t.machine = u.machine) := by
  have reads := (mouseRead_reads hw).steps.keeps s
  rw [read] at reads
  obtain ⟨m, _, rfl, _⟩ := reads
  simp only [mouseCycle, Prog.run_bind, Prog.run_get]
  refine Returns.get ?_
  by_cases first : s.mouse.cycle = 0
  · rw [if_pos first]
    have idle : s.mouse.cycle ≠ 2 := by
      rw [first]
      decide
    simp only [Prog.run_bind, Prog.run_modify]
    refine Returns.after read (Returns.modify (Returns.modify
      ⟨(), _, rfl, ⟨?_, ?_, ?_⟩, fun _ => rfl⟩))
    · rw [Mouse.after, if_pos first]
      rfl
    · exact fun _ => rfl
    · exact fun draws => absurd draws idle
  · rw [if_neg first]
    by_cases second : s.mouse.cycle = 1
    · rw [if_pos second]
      have idle : s.mouse.cycle ≠ 2 := by
        rw [second]
        decide
      simp only [Prog.run_bind, Prog.run_modify]
      refine Returns.after read (Returns.modify ⟨(), _, rfl, ⟨?_, ?_, ?_⟩, fun _ => rfl⟩)
      · rw [Mouse.after, if_neg first, if_pos second]
        rfl
      · exact fun _ => rfl
      · exact fun draws => absurd draws idle
    · rw [if_neg second]
      by_cases third : s.mouse.cycle = 2
      · rw [if_pos third]
        simp only [Prog.run_bind, Prog.run_modify]
        refine Returns.after read (Returns.modify (Returns.modify ?_))
        refine Returns.after (run_drawCursor _) ?_
        refine (printMouseInfo_types _).bind fun _ t ⟨cs, typedText⟩ => ?_
        have effect : s.mouse.after b = ((s.mouse.setByte2 b).move).setCycle 0 := by
          rw [Mouse.after, if_neg first, if_neg second, if_pos third]
        subst typedText
        refine ⟨(), _, rfl, ⟨effect.symm, fun idle => absurd third idle, fun _ => ⟨cs, ?_⟩⟩,
          fun _ => rfl⟩
        rw [effect]
        rfl
      · rw [if_neg third]
        refine ⟨(), s, rfl, ⟨?_, fun _ => rfl, fun draws => absurd draws third⟩, fun early => ?_⟩
        · rw [Mouse.after, if_neg first, if_neg second, if_neg third]
        · have small := UInt8.lt_iff_toNat_lt.mp early
          have zero : s.mouse.cycle.toNat ≠ 0 := fun same => first (UInt8.toNat_inj.mp same)
          have one : s.mouse.cycle.toNat ≠ 1 := fun same => second (UInt8.toNat_inj.mp same)
          have two : s.mouse.cycle.toNat ≠ 2 := fun same => third (UInt8.toNat_inj.mp same)
          exact absurd small (by simp; omega)

theorem mouseHandler_returns {s u : Kernel σ} {b : UInt8}
    (read : (mouseRead hw).run.run s = (some b, u)) :
    Returns (mouseHandler hw).run s fun _ t => MouseEffect b s t ∧
      (s.mouse.cycle < 3 → t.machine = sendAll hw (eoiWrites 44) u.machine) := by
  rw [mouseHandler, Prog.run_bind]
  refine (mouseCycle_effect hw read).bind fun _ v ⟨effect, ports⟩ => ?_
  refine ⟨(), _, run_pic8259Eoi hw 44 v, ⟨effect.mouse, effect.idle, effect.draws⟩, fun early => ?_⟩
  rw [← ports early]
  rfl

theorem mouseHandler_effect {s t u : Kernel σ} {b : UInt8}
    (read : (mouseRead hw).run.run s = (some b, u))
    (handled : (mouseHandler hw).run.run s = (some (), t)) : MouseEffect b s t := by
  obtain ⟨_, v, ran, effect, _⟩ := mouseHandler_returns hw read
  rw [handled] at ran
  cases ran
  exact effect

end Calls

section Edges

/-- The two bounds of one coordinate. -/
def clamp (limit : Nat) (n : Int) : Int :=
  let n := if n < 0 then 0 else n
  if toSize n > limit then wrapInt (limit - 1 : Nat) else n

theorem signedChar_range (c : UInt8) : -128 ≤ signedChar c ∧ signedChar c < 128 :=
  ⟨Int.le_bmod (by decide), Int.bmod_lt (by decide)⟩

theorem clamp_eq {limit : Nat} (positive : 0 < limit) (small : limit < 2 ^ 31) {n : Int}
    (high : n < 2 ^ 31) :
    clamp limit n = if n < 0 then 0 else if (limit : Int) < n then (limit : Int) - 1 else n := by
  have last : wrapInt (limit - 1 : Nat) = limit - 1 := by
    rw [wrapInt_small (by omega) (by omega)]
    omega
  unfold clamp
  dsimp only
  rw [last]
  by_cases negative : n < 0
  · rw [if_pos negative, if_pos negative]
    exact if_neg (Nat.not_lt_zero limit)
  · have size : (toSize n : Int) = n := by
      unfold toSize
      omega
    rw [if_neg negative, if_neg negative]
    apply if_congr ?_ rfl rfl
    omega

/-- One past the limit is let through; everything else ends up below it. -/
theorem clamp_spec (limit : Nat) (positive : 0 < limit) (small : limit < 2 ^ 31) (n : Int)
    (high : n < 2 ^ 31) :
    0 ≤ clamp limit n ∧ clamp limit n ≤ limit ∧ (clamp limit n = limit ↔ n = limit) := by
  rw [clamp_eq positive small high]
  split
  · omega
  · split
    · omega
    · omega

/-- On the screen, or one past its right or lower edge. -/
structure Mouse.Near (m : Mouse) : Prop where
  x : 0 ≤ m.xPos ∧ m.xPos ≤ vgaWidth
  y : 0 ≤ m.yPos ∧ m.yPos ≤ vgaHeight

structure Mouse.OnScreen (m : Mouse) : Prop where
  x : 0 ≤ m.xPos ∧ m.xPos < vgaWidth
  y : 0 ≤ m.yPos ∧ m.yPos < vgaHeight

/-- The packet that `b` completes, if it completes one, does not end on an edge. -/
def Mouse.MissesEdges (m : Mouse) (b : UInt8) : Prop :=
  m.cycle = 2 →
    m.xPos + signedChar m.byte1 ≠ vgaWidth ∧ m.yPos - signedChar b ≠ vgaHeight

instance (m : Mouse) (b : UInt8) : Decidable (m.MissesEdges b) :=
  inferInstanceAs (Decidable (m.cycle = 2 →
    m.xPos + signedChar m.byte1 ≠ vgaWidth ∧ m.yPos - signedChar b ≠ vgaHeight))

theorem Mouse.Near.after {m : Mouse} (h : m.Near) (b : UInt8) : (m.after b).Near ∧
    (m.cycle ≠ 2 → (m.after b).xPos = m.xPos ∧ (m.after b).yPos = m.yPos) ∧
    (m.cycle = 2 → ((m.after b).OnScreen ↔ m.MissesEdges b)) := by
  have hx := h.x
  have hy := h.y
  unfold vgaWidth at hx
  unfold vgaHeight at hy
  by_cases completes : m.cycle = 2
  · have dx := signedChar_range m.byte1
    have dy := signedChar_range b
    have moved : m.after b = { m with
        byte2 := b
        xPos := clamp vgaWidth (wrapInt (m.xPos + signedChar m.byte1))
        yPos := clamp vgaHeight (wrapInt (m.yPos - signedChar b))
        cycle := 0 } := by
      rw [Mouse.after, if_neg (by rw [completes]; decide), if_neg (by rw [completes]; decide),
        if_pos completes]
      rfl
    rw [wrapInt_small (by omega) (by omega), wrapInt_small (by omega) (by omega)] at moved
    obtain ⟨x₀, x₁, edge⟩ := clamp_spec vgaWidth (by decide) (by decide)
      (m.xPos + signedChar m.byte1) (by omega)
    obtain ⟨y₀, y₁, edge'⟩ := clamp_spec vgaHeight (by decide) (by decide)
      (m.yPos - signedChar b) (by omega)
    rw [moved]
    refine ⟨⟨⟨x₀, x₁⟩, y₀, y₁⟩, fun other => absurd completes other, fun _ => ?_⟩
    constructor
    · rintro ⟨⟨_, x⟩, _, y⟩ _
      exact ⟨fun there => absurd (edge.mpr there) (Int.ne_of_lt x),
        fun there => absurd (edge'.mpr there) (Int.ne_of_lt y)⟩
    · intro misses
      obtain ⟨x, y⟩ := misses completes
      exact ⟨⟨x₀, Int.lt_iff_le_and_ne.mpr ⟨x₁, fun there => x (edge.mp there)⟩⟩,
        y₀, Int.lt_iff_le_and_ne.mpr ⟨y₁, fun there => y (edge'.mp there)⟩⟩
  · have still : (m.after b).xPos = m.xPos ∧ (m.after b).yPos = m.yPos := by
      unfold Mouse.after
      split
      · exact ⟨rfl, rfl⟩
      · split
        · exact ⟨rfl, rfl⟩
        · exact ⟨rfl, rfl⟩
    refine ⟨⟨?_, ?_⟩, fun _ => still, fun completed => absurd completed completes⟩
    · rw [still.1]
      exact h.x
    · rw [still.2]
      exact h.y

end Edges

section Runs

variable {σ : Type} (hw : Bus σ)

/-- A call of `mouse_handler`: the state before it, the byte it is sent, the state after it. -/
structure MouseCall (σ : Type) where
  before : Kernel σ
  byte : UInt8
  after : Kernel σ

/-- Calls of `mouse_handler`, with anything in between that leaves its globals alone. -/
inductive MouseRun (s₀ : Kernel σ) : List (MouseCall σ) → Kernel σ → Prop
  | start : MouseRun s₀ [] s₀
  | call {calls : List (MouseCall σ)} {s t u : Kernel σ} {b : UInt8} (run : MouseRun s₀ calls s)
      (read : (mouseRead hw).run.run s = (some b, u))
      (handled : (mouseHandler hw).run.run s = (some (), t)) : MouseRun s₀ (calls ++ [⟨s, b, t⟩]) t
  | other {calls : List (MouseCall σ)} {s t : Kernel σ} (run : MouseRun s₀ calls s)
      (same : t.mouse = s.mouse) : MouseRun s₀ calls t

/-- After the call the cursor is on the screen, and all cells stored by it are. -/
structure KeepsCursor (c : MouseCall σ) : Prop where
  cursor : c.after.mouse.OnScreen
  cells : ∃ ws, c.after.terminal.writes = c.before.terminal.writes ++ ws ∧
    ∀ w ∈ ws, w.index < vgaCells

theorem MouseRun.near {hw : Bus σ} {s₀ s : Kernel σ} {calls : List (MouseCall σ)}
    (run : MouseRun hw s₀ calls s) (start : s₀.mouse.Near) :
    s.mouse.Near ∧ ∀ c ∈ calls, c.before.mouse.Near ∧ MouseEffect c.byte c.before c.after := by
  induction run with
  | start => exact ⟨start, fun _ none => nomatch none⟩
  | call run read handled ih =>
      obtain ⟨near, earlier⟩ := ih
      have effect := mouseHandler_effect hw read handled
      refine ⟨?_, fun c member => ?_⟩
      · rw [effect.mouse]
        exact (near.after _).1
      · rcases List.mem_append.mp member with old | new
        · exact earlier c old
        · rw [List.mem_singleton.mp new]
          exact ⟨near, effect⟩
  | other _ same ih =>
      rw [same]
      exact ih

theorem toSize_lt {n : Int} {limit : Nat} (low : 0 ≤ n) (high : n < limit)
    (small : limit < 2 ^ 31) : toSize n < limit := by
  unfold toSize
  omega

/-- A cursor on the screen is marked there, and the clicks are typed inside it. -/
theorem MouseEffect.cells {s t : Kernel σ} {b : UInt8} (effect : MouseEffect b s t)
    (onScreen : t.mouse.OnScreen) : ∃ ws, t.terminal.writes = s.terminal.writes ++ ws ∧
      ∀ w ∈ ws, w.index < vgaCells := by
  by_cases completes : s.mouse.cycle = 2
  · obtain ⟨cs, drawn⟩ := effect.draws completes
    obtain ⟨_, painted⟩ := cleared_shows vgaColorLightGrey vgaColorBlack s.terminal
    rw [effect.mouse] at onScreen
    have place := cell_inside (toSize_lt onScreen.y.1 onScreen.y.2 (by decide))
      (toSize_lt onScreen.x.1 onScreen.x.2 (by decide))
    have stored := paints_store (cleared vgaColorLightGrey vgaColorBlack s.terminal) place
      (vgaEntry 'X'.toUInt8 7)
    have home : Inside (marked { s with mouse := s.mouse.after b }) :=
      (cleared_inside _ _ s.terminal).store _ _
    obtain ⟨_, typedText⟩ := write_inside home cs
    obtain ⟨ws, extended, inside⟩ := (painted.trans (stored.trans typedText)).writes
    rw [drawn]
    exact ⟨ws, extended, fun w member => (inside w member).2⟩
  · rw [effect.idle completes]
    exact ⟨[], (List.append_nil _).symm, fun _ none => nomatch none⟩

/-- As long as no packet ends on an edge, the cursor is on the screen. -/
theorem MouseRun.onScreen {hw : Bus σ} {s₀ s : Kernel σ} {calls : List (MouseCall σ)}
    (run : MouseRun hw s₀ calls s) (start : s₀.mouse.OnScreen)
    (misses : ∀ c ∈ calls, c.before.mouse.MissesEdges c.byte) :
    s.mouse.OnScreen ∧ ∀ c ∈ calls, KeepsCursor c := by
  induction run with
  | start => exact ⟨start, fun _ none => nomatch none⟩
  | @call calls s t u b run read handled ih =>
      obtain ⟨onScreen, earlier⟩ := ih fun c old => misses c (List.mem_append_left _ old)
      have near : s.mouse.Near :=
        ⟨⟨onScreen.x.1, Int.le_of_lt onScreen.x.2⟩, onScreen.y.1, Int.le_of_lt onScreen.y.2⟩
      have effect := mouseHandler_effect hw read handled
      have now : t.mouse.OnScreen := by
        rw [effect.mouse]
        obtain ⟨_, still, ends⟩ := near.after b
        by_cases completes : s.mouse.cycle = 2
        · exact (ends completes).mpr (misses _ (List.mem_append_right _ List.mem_cons_self))
        · constructor
          · rw [(still completes).1]
            exact onScreen.x
          · rw [(still completes).2]
            exact onScreen.y
      refine ⟨now, fun c member => ?_⟩
      rcases List.mem_append.mp member with old | new
      · exact earlier c old
      · rw [List.mem_singleton.mp new]
        exact ⟨now, effect.cells now⟩
  | other _ same ih =>
      rw [same]
      exact ih misses

/-- The cursor stays on the screen throughout a run if and only if no packet of the run
ends on one of the two edges. -/
theorem cursor_on_screen_iff {s₀ s : Kernel σ} {calls : List (MouseCall σ)}
    (x : s₀.mouse.xPos = 5) (y : s₀.mouse.yPos = 2) (run : MouseRun hw s₀ calls s) :
    (∀ c ∈ calls, KeepsCursor c) ↔ ∀ c ∈ calls, c.before.mouse.MissesEdges c.byte := by
  have start : s₀.mouse.OnScreen := ⟨by rw [x]; decide, by rw [y]; decide⟩
  constructor
  · intro keeps c member completes
    obtain ⟨near, effect⟩ := (run.near ⟨by rw [x]; decide, by rw [y]; decide⟩).2 c member
    have onScreen := (keeps c member).cursor
    rw [effect.mouse] at onScreen
    exact ((near.after c.byte).2.2 completes).mp onScreen completes
  · exact fun misses => (run.onScreen start misses).2

end Runs

section Queue

theorem mouseRead_queue {s : Kernel (List UInt8)} {b : UInt8} {rest : List UInt8}
    (queue : s.machine.bus = b :: rest) :
    ∃ u, (mouseRead byteQueue).run.run s = (some b, u) ∧ u.machine.bus = rest := by
  let m := (inportb byteQueue ps2CmdPort s.machine).2
  have polls : (100000 : Nat) = 99999 + 1 := rfl
  have status : (inportb byteQueue ps2CmdPort s.machine).1 = 1 := rfl
  have ready : mouseReady false 1 = true := by decide
  have ports : (inportb byteQueue mouseDataPort m).1 = m.bus.headD 0 ∧
    (inportb byteQueue mouseDataPort m).2.bus = m.bus.tail := ⟨rfl, rfl⟩
  have waiting : m.bus = b :: rest := queue
  rw [waiting] at ports
  refine ⟨s.setMachine (inportb byteQueue mouseDataPort m).2, ?_, ports.2⟩
  rw [mouseRead, mouseWait, polls, mouseWaitPolls, Prog.run_bind, Exec.run_bind, Prog.run_bind,
    Exec.run_bind, run_inb, Exec.andThen_some, status, if_pos ready, Prog.run_pure, Exec.run_pure,
    Exec.andThen_some, run_inb]
  exact congrArg (fun c => (some c, s.setMachine (inportb byteQueue mouseDataPort m).2)) ports.1

theorem MouseRun.next {s₀ s : Kernel (List UInt8)} {calls : List (MouseCall (List UInt8))}
    (run : MouseRun byteQueue s₀ calls s) (early : s.mouse.cycle < 3) {b : UInt8}
    {rest : List UInt8} (queue : s.machine.bus = b :: rest) :
    ∃ t, MouseRun byteQueue s₀ (calls ++ [⟨s, b, t⟩]) t ∧ t.mouse = s.mouse.after b ∧
      t.machine.bus = rest := by
  obtain ⟨u, read, left⟩ := mouseRead_queue queue
  obtain ⟨_, t, handled, effect, ports⟩ := mouseHandler_returns byteQueue read
  refine ⟨t, run.call read handled, effect.mouse, ?_⟩
  rw [ports early]
  exact left

/-- The state `mouse_init` leaves the position in, with bytes to come. -/
def centred (bytes : List UInt8) : Kernel (List UInt8) :=
  onMouse (fun m => { m with xPos := 5, yPos := 2 }) (zeroed bytes)

theorem packet_run (b₀ b₁ b₂ : UInt8) : ∃ t₁ t₂ t₃ : Kernel (List UInt8),
    MouseRun byteQueue (centred [b₀, b₁, b₂])
      [⟨centred [b₀, b₁, b₂], b₀, t₁⟩, ⟨t₁, b₁, t₂⟩, ⟨t₂, b₂, t₃⟩] t₃ ∧
    t₁.mouse = (centred []).mouse.after b₀ ∧ t₂.mouse = t₁.mouse.after b₁ ∧
    t₃.mouse = t₂.mouse.after b₂ := by
  have none : MouseRun byteQueue (centred [b₀, b₁, b₂]) [] (centred [b₀, b₁, b₂]) := .start
  obtain ⟨t₁, run₁, mouse₁, queue₁⟩ := none.next (by decide : (0 : UInt8) < 3) rfl
  have second : t₁.mouse.cycle < 3 := by
    rw [mouse₁]
    exact (by decide : (1 : UInt8) < 3)
  obtain ⟨t₂, run₂, mouse₂, queue₂⟩ := run₁.next second queue₁
  have third : t₂.mouse.cycle < 3 := by
    rw [mouse₂, mouse₁]
    exact (by decide : (2 : UInt8) < 3)
  obtain ⟨t₃, run₃, mouse₃, _⟩ := run₂.next third queue₂
  exact ⟨t₁, t₂, t₃, run₃, mouse₁, mouse₂, mouse₃⟩

/-- Moving right by 75 from column 5 leaves the cursor in column 80. -/
theorem cursor_leaves_screen : ∃ t₁ t₂ t₃ : Kernel (List UInt8),
    MouseRun byteQueue (centred [0x08, 75, 0])
      [⟨centred [0x08, 75, 0], 0x08, t₁⟩, ⟨t₁, 75, t₂⟩, ⟨t₂, 0, t₃⟩] t₃ ∧
    t₃.mouse.xPos = 80 ∧ ¬t₃.mouse.OnScreen := by
  obtain ⟨t₁, t₂, t₃, run, mouse₁, mouse₂, mouse₃⟩ := packet_run 0x08 75 0
  have edge : t₃.mouse.xPos = 80 := by
    rw [mouse₃, mouse₂, mouse₁]
    decide
  refine ⟨t₁, t₂, t₃, run, edge, fun onScreen => ?_⟩
  have inside := onScreen.x.2
  rw [edge] at inside
  exact absurd inside (by decide)

theorem cursor_on_screen_iff_packet : ∃ t₁ t₂ t₃ : Kernel (List UInt8),
    MouseRun byteQueue (centred [0x09, 74, 2])
      [⟨centred [0x09, 74, 2], 0x09, t₁⟩, ⟨t₁, 74, t₂⟩, ⟨t₂, 2, t₃⟩] t₃ ∧
    ∀ c ∈ [⟨centred [0x09, 74, 2], 0x09, t₁⟩, ⟨t₁, 74, t₂⟩, (⟨t₂, 2, t₃⟩ : MouseCall (List UInt8))],
      KeepsCursor c := by
  obtain ⟨t₁, t₂, t₃, run, mouse₁, mouse₂, mouse₃⟩ := packet_run 0x09 74 2
  refine ⟨t₁, t₂, t₃, run, (cursor_on_screen_iff byteQueue rfl rfl run).mpr ?_⟩
  intro c member
  rcases List.mem_cons.mp member with first | member
  · rw [first]
    exact (by decide : (centred [0x09, 74, 2]).mouse.MissesEdges 0x09)
  · rcases List.mem_cons.mp member with second | member
    · rw [second, mouse₁]
      exact (by decide : ((centred []).mouse.after 0x09).MissesEdges 74)
    · rw [List.mem_singleton.mp member, mouse₂, mouse₁]
      exact (by decide : (((centred []).mouse.after 0x09).after 74).MissesEdges 2)

end Queue

end VDK
