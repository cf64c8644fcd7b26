import VDK.TerminalLog

/-!
# Colours on the screen

The screen under any calls of the terminal functions: texts in the colour that was set when
they were written, and screens cleared in between. The blank places of a row keep the colour
in which the row came onto the screen.
-/
namespace VDK
open Atomic Fuel Terminal LineLog

/-- A character and the colour it was written in. -/
abbrev Glyph := UInt8 × UInt8

/-- What was written since the screen was cleared, the colour that is set, and the colour of
the blank places of each row on the screen. -/
structure Sheet where
  page : Page Glyph
  color : UInt8
  shades : Nat → UInt8

namespace Sheet

def clear (fg bg : UInt8) : Sheet :=
  ⟨Page.blank, vgaEntryColor fg bg, fun _ => vgaEntryColor fg bg⟩

/-- A new row; a full screen takes it in at the bottom, in the colour that is set. -/
def turn (s : Sheet) : Sheet where
  page := s.page.turn
  color := s.color
  shades :=
    if s.page.rows.length < vgaHeight then s.shades
    else fun y => if y + 1 < vgaHeight then s.shades (y + 1) else s.color

def extend (s : Sheet) (c : UInt8) : Sheet := { s with page := s.page.extend (c, s.color) }

def put (s : Sheet) (c : UInt8) : Sheet :=
  if c = newline then s.turn
  else if s.page.last.length + 1 = vgaWidth then (s.extend c).turn
  else s.extend c

/-- The cell of a place of row `y`. -/
def tint (s : Sheet) (y : Nat) : Option Glyph → UInt16
  | none => vgaEntry blank (s.shades y)
  | some g => vgaEntry g.1 g.2

end Sheet

inductive ScreenCall where
  | clear
  | bsod
  | setcolor (color : UInt8)
  | write (data : List UInt8)

namespace ScreenCall

def prog : ScreenCall → Prog Terminal Unit
  | clear => terminalInitialize
  | bsod => bsodInitialize
  | setcolor color => terminalSetcolor color
  | write data => terminalWrite data

def effect (t : Terminal) : ScreenCall → Terminal
  | clear => cleared vgaColorLightGrey vgaColorBlack t
  | bsod => cleared vgaColorWhite vgaColorBlue t
  | setcolor color => { t with color := color }
  | write data => data.foldl (fun t c => typed c t) t

theorem run_prog (call : ScreenCall) (t : Terminal) :
    call.prog.run.run t = (some (), call.effect t) := by
  cases call with
  | clear => exact run_screenInitialize _ _ t
  | bsod => exact run_screenInitialize _ _ t
  | setcolor color => rfl
  | write data => exact run_terminalWrite data t

/-- What the call does to the sheet. -/
def apply (s : Sheet) : ScreenCall → Sheet
  | clear => Sheet.clear vgaColorLightGrey vgaColorBlack
  | bsod => Sheet.clear vgaColorWhite vgaColorBlue
  | setcolor color => { s with color := color }
  | write data => data.foldl Sheet.put s

end ScreenCall

section Rendering

/-- The screen shows the sheet, and the cursor stands behind its last row. -/
structure ShowsSheet (t : Terminal) (s : Sheet) : Prop where
  window : Window s.tint t s.page
  column : t.column = s.page.last.length
  room : s.page.last.length < vgaWidth
  color : t.color = s.color

/-- Every store goes into the video memory. -/
structure OnScreen (t u : Terminal) : Prop where
  buffer : u.buffer = vgaAddress
  writes : ∃ ws, u.writes = t.writes ++ ws ∧ ∀ w ∈ ws, w.base = vgaAddress ∧ w.index < vgaCells

variable {t u v : Terminal} {s : Sheet}

theorem OnScreen.refl (shown : t.buffer = vgaAddress) : OnScreen t t :=
  ⟨shown, [], (List.append_nil _).symm, fun _ none => absurd none List.not_mem_nil⟩

theorem OnScreen.trans (h : OnScreen t u) (k : OnScreen u v) : OnScreen t v := by
  obtain ⟨ws, extended, inside⟩ := h.writes
  obtain ⟨vs, extended', inside'⟩ := k.writes
  refine ⟨k.buffer, ws ++ vs, by rw [extended', extended, List.append_assoc], fun w hw => ?_⟩
  rcases List.mem_append.mp hw with old | new
  · exact inside w old
  · exact inside' w new

theorem Paints.onScreen (h : Paints t u) (shown : t.buffer = vgaAddress) : OnScreen t u := by
  obtain ⟨ws, extended, inside⟩ := h.writes
  exact ⟨h.buffer.trans shown, ws, extended, fun w hw => shown ▸ inside w hw⟩

theorem ShowsSheet.inside (h : ShowsSheet t s) : Inside t :=
  ⟨h.window.bottom, by rw [h.column]; exact h.room⟩

/-- A clear screen shows the clear sheet. -/
theorem cleared_showsSheet (fg bg : UInt8) (t : Terminal) :
    ShowsSheet (cleared fg bg t) (Sheet.clear fg bg) ∧ OnScreen t (cleared fg bg t) := by
  obtain ⟨shown, painted⟩ := cleared_shows fg bg t
  have color : (cleared fg bg t).color = vgaEntryColor fg bg := painted.color
  have nothing : ∀ y x, (Page.blank : Page UInt8).glyph vgaHeight y x = none ∧
      (Page.blank : Page Glyph).glyph vgaHeight y x = none := by
    intro y x
    rw [Page.glyph_eq, Page.glyph_eq]
    cases y with
    | zero => exact ⟨rfl, rfl⟩
    | succ y => exact ⟨rfl, rfl⟩
  refine ⟨⟨⟨shown.row, fun y hy x hx => ?_⟩, shown.column, shown.room, color⟩, ?_⟩
  · rw [shown.cells y hy x hx, (nothing y x).1, color]
    refine Eq.trans ?_ (congrArg _ (nothing y x).2.symm)
    rfl
  · exact ⟨painted.buffer, painted.writes⟩

/-- A new row, in the colour of the row that scrolls in. -/
theorem ShowsSheet.turn (window : Window s.tint t s.page) (color : t.color = s.color)
    (start : t.column = 0) :
    ShowsSheet (keptAtBottom (t.row + 1) (setRow (t.row + 1) t)) s.turn := by
  obtain ⟨turned, column, kept⟩ := window.turn s.turn.tint
    (fun short => by
      unfold Sheet.turn Sheet.tint
      rw [if_pos short])
    (fun full y _ => by
      unfold Sheet.turn Sheet.tint
      rw [if_neg (Nat.not_lt.mpr full)]
      split
      · rename_i above
        simp only [if_pos above]
      · rename_i last
        simp only [if_neg last, color])
  exact ⟨turned, column.trans start, Nat.zero_lt_succ _, kept.trans color⟩

theorem ShowsSheet.typed (h : ShowsSheet t s) (c : UInt8) : ShowsSheet (typed c t) (s.put c) := by
  unfold VDK.typed Sheet.put
  by_cases ends : c = newline
  · rw [if_pos ends, if_pos ends]
    have moved : Window s.tint (setColumn 0 t) s.page := ⟨h.window.row, h.window.cells⟩
    have turned := ShowsSheet.turn moved h.color rfl
    exact turned
  · have extended := h.window.extend (c, s.color) (v := vgaEntry c t.color)
      (fun _ => by rw [h.color]; rfl) h.room
    rw [if_neg ends, if_neg ends]
    dsimp only
    rw [h.column]
    by_cases wraps : s.page.last.length + 1 = vgaWidth
    · have moved : Window (s.extend c).tint (setColumn 0 (setColumn (s.page.last.length + 1)
          (store (t.row * vgaWidth + s.page.last.length) (vgaEntry c t.color) t)))
          (s.extend c).page := ⟨extended.row, extended.cells⟩
      have turned := ShowsSheet.turn moved h.color rfl
      rw [if_pos wraps, if_pos wraps]
      exact turned
    · rw [if_neg wraps, if_neg wraps]
      have length : (s.extend c).page.last.length = s.page.last.length + 1 := by
        simp [Sheet.extend, Page.extend]
      have room := h.room
      exact ⟨⟨extended.row, extended.cells⟩, length.symm, by omega, h.color⟩

theorem ShowsSheet.write (h : ShowsSheet t s) (cs : List UInt8) :
    ShowsSheet (cs.foldl (fun t c => VDK.typed c t) t) (cs.foldl Sheet.put s) := by
  induction cs generalizing t s with
  | nil => exact h
  | cons c cs ih => exact ih (h.typed c)

/-- One call of the terminal functions. -/
theorem ShowsSheet.call (h : ShowsSheet t s) (shown : t.buffer = vgaAddress) (call : ScreenCall) :
    ShowsSheet (call.effect t) (call.apply s) ∧ OnScreen t (call.effect t) := by
  cases call with
  | clear => exact cleared_showsSheet _ _ t
  | bsod => exact cleared_showsSheet _ _ t
  | setcolor color =>
      exact ⟨⟨⟨h.window.row, h.window.cells⟩, h.column, h.room, rfl⟩, shown, [],
        (List.append_nil _).symm, fun _ none => absurd none List.not_mem_nil⟩
  | write data => exact ⟨h.write data, (write_inside h.inside data).2.onScreen shown⟩

theorem ShowsSheet.calls (h : ShowsSheet t s) (shown : t.buffer = vgaAddress) (calls : List ScreenCall) :
    ShowsSheet (calls.foldl ScreenCall.effect t) (calls.foldl ScreenCall.apply s) ∧
      OnScreen t (calls.foldl ScreenCall.effect t) := by
  induction calls generalizing t s with
  | nil => exact ⟨h, OnScreen.refl shown⟩
  | cons call calls ih =>
      obtain ⟨renders, drawn⟩ := h.call shown call
      obtain ⟨final, more⟩ := ih renders drawn.buffer
      exact ⟨final, drawn.trans more⟩

/-- Whatever is called after the screen was first cleared, the screen shows the sheet of the
calls, and nothing outside the video memory was stored to. -/
theorem screen_shows_sheet (t : Terminal) (calls : List ScreenCall) :
    ∃ u, (Prog.forEach ScreenCall.prog (.clear :: calls)).run.run t = (some (), u) ∧
      ShowsSheet u (calls.foldl ScreenCall.apply (Sheet.clear vgaColorLightGrey vgaColorBlack)) ∧
      OnScreen t u := by
  have ran := Prog.run_forEach ScreenCall.run_prog (.clear :: calls) t
  rw [List.foldl_cons] at ran
  obtain ⟨first, drawn⟩ : ShowsSheet (ScreenCall.effect t .clear)
      (Sheet.clear vgaColorLightGrey vgaColorBlack) ∧ OnScreen t (ScreenCall.effect t .clear) :=
    cleared_showsSheet vgaColorLightGrey vgaColorBlack t
  obtain ⟨final, more⟩ := first.calls drawn.buffer calls
  exact ⟨_, ran, final, drawn.trans more⟩

end Rendering

end VDK
