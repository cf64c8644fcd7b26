import VDK.Terminal
import VDK.LineLog

/-!
# The terminal as a scrolling page

`typed` is the effect of one `terminal_putchar`. A terminal shows a page when its
cells, row and column are those of a window of 25 rows of 80 places over it, and
every character typed keeps it so.
-/
namespace VDK
open Atomic Fuel Terminal LineLog

abbrev vgaCells : Nat := vgaHeight * vgaWidth

section Effects

/-- The first loop of `terminal_scroll`, `k` cells into it. -/
def copiedUp (k : Nat) (t : Terminal) : Terminal :=
  (List.range k).foldl (fun t i => store i (t.cell (i + vgaWidth)) t) t

/-- A loop that blanks `k` cells from `first` on. -/
def blanked (first k : Nat) (t : Terminal) : Terminal :=
  (List.range k).foldl (fun t i => store (first + i) (vgaEntry blank t.color) t) t

def scrolled (t : Terminal) : Terminal :=
  blanked ((vgaHeight - 1) * vgaWidth) vgaWidth (copiedUp ((vgaHeight - 1) * vgaWidth) t)

def keptAtBottom (row : Nat) (t : Terminal) : Terminal :=
  if row ≥ vgaHeight then scrolled (setRow (vgaHeight - 1) t) else t

def typed (c : UInt8) (t : Terminal) : Terminal :=
  if c = newline then keptAtBottom (t.row + 1) (setColumn 0 (setRow (t.row + 1) t))
  else
    let u := setColumn (t.column + 1)
      (store (t.row * vgaWidth + t.column) (vgaEntry c t.color) t)
    if t.column + 1 = vgaWidth then keptAtBottom (t.row + 1) (setRow (t.row + 1) (setColumn 0 u))
    else u

/-- A screen cleared in the given colours. -/
def cleared (fg bg : UInt8) (t : Terminal) : Terminal :=
  blanked 0 vgaCells
    { t with row := 0, column := 0, color := vgaEntryColor fg bg, buffer := vgaAddress }

theorem foldl_grid {S : Type} (g : S → Nat → S) (W n : Nat) (s : S) :
    (List.range n).foldl (fun s y => (List.range W).foldl (fun s x => g s (y * W + x)) s) s =
      (List.range (n * W)).foldl g s := by
  induction n with
  | zero => rw [Nat.zero_mul]; rfl
  | succ n ih =>
      rw [List.range_succ, List.foldl_append, ih, Nat.succ_mul, List.range_add,
        List.foldl_append, List.foldl_map]
      rfl

/-- A loop over the cells of `n` rows, each of whose rounds is one step. -/
theorem run_grid (g : Terminal → Nat → Terminal) (n : Nat) (t : Terminal) :
    (Prog.forEach (fun y => Prog.forEach (fun x =>
      Prog.modify fun t => g t (y * vgaWidth + x)) (List.range vgaWidth)) (List.range n)).run.run t =
      (some (), (List.range (n * vgaWidth)).foldl g t) := by
  have row : ∀ y t, (Prog.forEach (fun x => Prog.modify fun t => g t (y * vgaWidth + x))
      (List.range vgaWidth)).run.run t =
        (some (), (List.range vgaWidth).foldl (fun t x => g t (y * vgaWidth + x)) t) := by
    intro y t
    apply Prog.run_forEach
    intro x t
    rfl
  rw [Prog.run_forEach row, foldl_grid g]

theorem run_terminalScroll (t : Terminal) :
    terminalScroll.run.run t = (some (), scrolled t) := by
  have up : (Prog.forEach (fun y => Prog.forEach (fun x => Prog.modify fun t =>
      store (y * vgaWidth + x) (t.cell ((y + 1) * vgaWidth + x)) t) (List.range vgaWidth))
        (List.range (vgaHeight - 1))).run.run t =
      (some (), copiedUp ((vgaHeight - 1) * vgaWidth) t) := by
    have below : ∀ y x, (y + 1) * vgaWidth + x = y * vgaWidth + x + vgaWidth := by
      intro y x
      rw [Nat.succ_mul]
      omega
    simp only [below]
    exact run_grid (fun t i => store i (t.cell (i + vgaWidth)) t) _ t
  have clear : ∀ u, (Prog.forEach (fun x => Prog.modify fun t =>
      store ((vgaHeight - 1) * vgaWidth + x) (vgaEntry blank t.color) t)
        (List.range vgaWidth)).run.run u =
      (some (), blanked ((vgaHeight - 1) * vgaWidth) vgaWidth u) := by
    intro u
    apply Prog.run_forEach
    intro x u
    rfl
  rw [terminalScroll, Prog.run_bind, Exec.run_bind, up, Exec.andThen_some, clear]
  rfl

theorem run_keepAtBottom (row : Nat) (t : Terminal) :
    (keepAtBottom row).run.run t = (some (), keptAtBottom row t) := by
  unfold keepAtBottom keptAtBottom
  split
  · rw [Prog.run_bind, Exec.run_bind, Prog.run_modify, Exec.run_modify, Exec.andThen_some]
    exact run_terminalScroll _
  · rfl

theorem run_terminalPutchar (c : UInt8) (t : Terminal) :
    (terminalPutchar c).run.run t = (some (), typed c t) := by
  unfold terminalPutchar typed
  split
  · exact run_keepAtBottom _ _
  · simp only [Prog.run_bind, Prog.run_get, Prog.run_act, Exec.run_bind, Exec.run_get,
      Exec.andThen_some, terminalPutentryat, Prog.run_modify, Exec.run_modify, Exec.run_act]
    have column : (nextColumn (store (t.row * vgaWidth + t.column) (vgaEntry c t.color) t)).1 =
      t.column + 1 := rfl
    rw [column]
    split
    · exact run_keepAtBottom _ _
    · rfl

theorem run_terminalWrite (data : List UInt8) (t : Terminal) :
    (terminalWrite data).run.run t = (some (), data.foldl (fun t c => typed c t) t) :=
  Prog.run_forEach run_terminalPutchar data t

theorem run_screenInitialize (fg bg : UInt8) (t : Terminal) :
    (screenInitialize fg bg).run.run t = (some (), cleared fg bg t) := by
  have cells : ∀ u, blanked 0 vgaCells u =
      (List.range vgaCells).foldl (fun t i => store i (vgaEntry blank t.color) t) u := by
    intro u
    simp only [blanked, Nat.zero_add]
  unfold screenInitialize cleared
  rw [cells]
  simp only [Prog.run_bind, Exec.run_bind, Prog.run_modify, Exec.run_modify, Exec.andThen_some]
  exact run_grid (fun t i => store i (vgaEntry blank t.color) t) _ _

end Effects

section Cells

/-- The colour and the pointer stay, and every store is inside the screen. -/
structure Paints (t u : Terminal) : Prop where
  color : u.color = t.color
  buffer : u.buffer = t.buffer
  writes : ∃ ws, u.writes = t.writes ++ ws ∧ ∀ w ∈ ws, w.base = t.buffer ∧ w.index < vgaCells

theorem Paints.refl (t : Terminal) : Paints t t :=
  ⟨rfl, rfl, [], (List.append_nil _).symm, fun _ h => nomatch h⟩

theorem Paints.trans {t u v : Terminal} (h : Paints t u) (k : Paints u v) : Paints t v := by
  obtain ⟨ws, extended, inside⟩ := h.writes
  obtain ⟨vs, extended', inside'⟩ := k.writes
  refine ⟨k.color.trans h.color, k.buffer.trans h.buffer, ws ++ vs, ?_, fun w hw => ?_⟩
  · rw [extended', extended, List.append_assoc]
  · rcases List.mem_append.mp hw with old | new
    · exact inside w old
    · rw [← h.buffer]
      exact inside' w new

instance : IsPreorder Terminal Paints where
  refl := Paints.refl
  trans _ _ _ := Paints.trans

theorem paints_store (t : Terminal) {i : Nat} (hi : i < vgaCells) (v : UInt16) :
    Paints t (store i v t) := by
  refine ⟨rfl, rfl, [⟨t.buffer, i, v⟩], rfl, fun w hw => ?_⟩
  rw [List.mem_singleton.mp hw]
  exact ⟨rfl, hi⟩

/-- Stores inside the screen, and nothing else. -/
structure Repaints (t u : Terminal) : Prop extends Paints t u where
  row : u.row = t.row
  column : u.column = t.column

theorem Repaints.refl (t : Terminal) : Repaints t t := ⟨Paints.refl t, rfl, rfl⟩

theorem Repaints.store {t u : Terminal} (h : Repaints t u) {i : Nat} (hi : i < vgaCells)
    (v : UInt16) : Repaints t (Terminal.store i v u) :=
  ⟨h.toPaints.trans (paints_store u hi v), h.row, h.column⟩

theorem Repaints.trans {t u v : Terminal} (h : Repaints t u) (k : Repaints u v) :
    Repaints t v :=
  ⟨h.toPaints.trans k.toPaints, k.row.trans h.row, k.column.trans h.column⟩

theorem vgaCells_small : vgaCells < 2 ^ 31 := by decide

theorem cell_store (t : Terminal) (v : UInt16) {i j : Nat} (hi : i < 2 ^ 31) (hj : j < 2 ^ 31) :
    (store j v t).cell i = if i = j then v else t.cell i := by
  have same : t.address i = t.address j ↔ i = j := by
    constructor
    · intro equal
      have offsets := congrArg UInt32.toNat ((UInt32.add_right_inj _).mp equal)
      simp only [UInt32.toNat_ofNat'] at offsets
      omega
    · rintro rfl
      rfl
  have place : (store j v t).cell i =
      Function.update t.video (t.address j) v (t.address i) := rfl
  rw [place, Function.update_apply]
  simp only [same]
  rfl

/-- Copying up reads only cells that were not overwritten. -/
theorem copiedUp_spec (t : Terminal) {k : Nat} (hk : k + vgaWidth ≤ vgaCells) :
    Repaints t (copiedUp k t) ∧ ∀ i < vgaCells,
      (copiedUp k t).cell i = if i < k then t.cell (i + vgaWidth) else t.cell i := by
  have small := vgaCells_small
  induction k with
  | zero => exact ⟨Repaints.refl t, fun i _ => rfl⟩
  | succ k ih =>
      obtain ⟨frame, cells⟩ := ih (by omega)
      have last : copiedUp (k + 1) t =
          store k ((copiedUp k t).cell (k + vgaWidth)) (copiedUp k t) := by
        rw [copiedUp, List.range_succ, List.foldl_append]
        rfl
      have source : (copiedUp k t).cell (k + vgaWidth) = t.cell (k + vgaWidth) := by
        rw [cells _ (by omega), if_neg (by omega)]
      rw [last, source]
      refine ⟨frame.store (by omega) _, fun i hi => ?_⟩
      rw [cell_store _ _ (by omega) (by omega), cells i hi]
      by_cases here : i = k
      · rw [if_pos here, if_pos (by omega), here]
      · rw [if_neg here]
        congr 1
        exact propext ⟨fun h => by omega, fun h => by omega⟩

theorem blanked_spec (t : Terminal) {first k : Nat} (hk : first + k ≤ vgaCells) :
    Repaints t (blanked first k t) ∧ ∀ i < vgaCells, (blanked first k t).cell i =
      if first ≤ i ∧ i < first + k then vgaEntry blank t.color else t.cell i := by
  have small := vgaCells_small
  induction k with
  | zero =>
      refine ⟨Repaints.refl t, fun i _ => ?_⟩
      rw [if_neg (by omega)]
      rfl
  | succ k ih =>
      obtain ⟨frame, cells⟩ := ih (by omega)
      have last : blanked first (k + 1) t =
          store (first + k) (vgaEntry blank (blanked first k t).color) (blanked first k t) := by
        rw [blanked, List.range_succ, List.foldl_append]
        rfl
      rw [last, frame.color]
      refine ⟨frame.store (by omega) _, fun i hi => ?_⟩
      rw [cell_store _ _ (by omega) (by omega), cells i hi]
      by_cases here : i = first + k
      · rw [if_pos here, if_pos (by omega)]
      · rw [if_neg here]
        congr 1
        exact propext ⟨fun h => by omega, fun h => by omega⟩

theorem cell_inside {y x : Nat} (hy : y < vgaHeight) (hx : x < vgaWidth) :
    y * vgaWidth + x < vgaCells := by
  unfold vgaHeight at hy
  unfold vgaWidth at hx
  unfold vgaCells vgaHeight vgaWidth
  omega

theorem scrolled_spec (t : Terminal) :
    Repaints t (scrolled t) ∧ ∀ y < vgaHeight, ∀ x < vgaWidth,
      (scrolled t).cell (y * vgaWidth + x) =
        if y + 1 < vgaHeight then t.cell ((y + 1) * vgaWidth + x) else vgaEntry blank t.color := by
  have screen : (vgaHeight - 1) * vgaWidth + vgaWidth = vgaCells := rfl
  obtain ⟨up, moved⟩ := copiedUp_spec t (Nat.le_of_eq screen)
  obtain ⟨clear, cells⟩ := blanked_spec (copiedUp ((vgaHeight - 1) * vgaWidth) t)
    (Nat.le_of_eq screen)
  refine ⟨up.trans clear, fun y hy x hx => ?_⟩
  have place := cell_inside hy hx
  rw [scrolled, cells _ place, up.color]
  by_cases inside : y + 1 < vgaHeight
  · have above : y * vgaWidth + x < (vgaHeight - 1) * vgaWidth := by
      unfold vgaHeight at inside ⊢
      unfold vgaWidth at hx ⊢
      omega
    have next : (y + 1) * vgaWidth + x = y * vgaWidth + x + vgaWidth := by
      rw [Nat.succ_mul]
      omega
    rw [if_neg (by omega), if_pos inside, moved _ place, if_pos above, next]
  · have bottom : y = vgaHeight - 1 := by
      unfold vgaHeight at hy inside ⊢
      omega
    rw [if_pos ⟨by rw [bottom]; omega, by rw [bottom]; omega⟩, if_neg inside]

/-- The cursor is on the screen. -/
structure Inside (t : Terminal) : Prop where
  row : t.row < vgaHeight
  column : t.column < vgaWidth

theorem Inside.store {t : Terminal} (h : Inside t) (i : Nat) (v : UInt16) :
    Inside (Terminal.store i v t) := ⟨h.row, h.column⟩

theorem keptAtBottom_inside (row : Nat) (t : Terminal) (next : t.row = row)
    (start : t.column = 0) : Inside (keptAtBottom row t) ∧ Paints t (keptAtBottom row t) := by
  unfold keptAtBottom
  split
  · obtain ⟨frame, _⟩ := scrolled_spec (setRow (vgaHeight - 1) t)
    refine ⟨⟨?_, ?_⟩, frame.color, frame.buffer, frame.writes⟩
    · rw [frame.row]
      exact (by decide : vgaHeight - 1 < vgaHeight)
    · rw [frame.column]
      exact start ▸ (by decide : 0 < vgaWidth)
  · rename_i room
    refine ⟨⟨?_, start ▸ (by decide : 0 < vgaWidth)⟩, Paints.refl t⟩
    rw [next]
    exact Nat.lt_of_not_le room

theorem typed_inside {t : Terminal} (h : Inside t) (c : UInt8) :
    Inside (typed c t) ∧ Paints t (typed c t) := by
  unfold typed
  split
  · obtain ⟨inside, painted⟩ :=
      keptAtBottom_inside (t.row + 1) (setColumn 0 (setRow (t.row + 1) t)) rfl rfl
    exact ⟨inside, painted.color, painted.buffer, painted.writes⟩
  · have stored := paints_store t (cell_inside h.row h.column) (vgaEntry c t.color)
    dsimp only
    split
    · obtain ⟨inside, painted⟩ := keptAtBottom_inside (t.row + 1) (setRow (t.row + 1)
        (setColumn 0 (setColumn (t.column + 1)
          (store (t.row * vgaWidth + t.column) (vgaEntry c t.color) t)))) rfl rfl
      exact ⟨inside, stored.trans ⟨painted.color, painted.buffer, painted.writes⟩⟩
    · rename_i room
      have column := h.column
      refine ⟨⟨h.row, ?_⟩, stored.color, stored.buffer, stored.writes⟩
      exact Nat.lt_of_le_of_ne column room

theorem write_inside {t : Terminal} (h : Inside t) (cs : List UInt8) :
    Inside (cs.foldl (fun t c => typed c t) t) ∧
      Paints t (cs.foldl (fun t c => typed c t) t) := by
  induction cs generalizing t with
  | nil => exact ⟨h, Paints.refl t⟩
  | cons c cs ih =>
      obtain ⟨inside, painted⟩ := typed_inside h c
      obtain ⟨rest, painted'⟩ := ih inside
      exact ⟨rest, painted.trans painted'⟩

end Cells

section Pages

/-- The page of the characters typed so far. -/
abbrev pageOf (typed : List UInt8) : Page UInt8 := Page.cut vgaWidth (· = newline) typed

/-- The cell of a place of the window, blank when nothing stands there. -/
def shade (color : UInt8) (glyph : Option UInt8) : UInt16 := vgaEntry (glyph.getD blank) color

/-- The rows of a page are on the screen, the last one at the cursor's row; `tint` is the cell
of a place in a row of the screen. -/
structure Window {α : Type} (tint : Nat → Option α → UInt16) (t : Terminal) (p : Page α) :
    Prop where
  row : t.row = min p.rows.length vgaHeight - 1
  cells : ∀ y < vgaHeight, ∀ x < vgaWidth,
    t.cell (y * vgaWidth + x) = tint y (p.glyph vgaHeight y x)

/-- The rows of a page are on the screen, the last one at the cursor's row. -/
structure Displays (t : Terminal) (p : Page UInt8) : Prop where
  row : t.row = min p.rows.length vgaHeight - 1
  cells : ∀ y < vgaHeight, ∀ x < vgaWidth,
    t.cell (y * vgaWidth + x) = shade t.color (p.glyph vgaHeight y x)

/-- The terminal is a window over the page, and the cursor stands behind its last row. -/
structure Shows (t : Terminal) (p : Page UInt8) : Prop extends Displays t p where
  column : t.column = p.last.length
  room : p.last.length < vgaWidth

theorem cell_place {y x y' x' : Nat} (hx : x < vgaWidth) (hx' : x' < vgaWidth) :
    y * vgaWidth + x = y' * vgaWidth + x' ↔ y = y' ∧ x = x' := by
  unfold vgaWidth at *
  omega

theorem cleared_shows (fg bg : UInt8) (t : Terminal) :
    Shows (cleared fg bg t) Page.blank ∧
      Paints { t with color := vgaEntryColor fg bg, buffer := vgaAddress } (cleared fg bg t) := by
  have whole : 0 + vgaCells ≤ vgaCells := Nat.le_of_eq (Nat.zero_add _)
  obtain ⟨frame, cells⟩ := blanked_spec { t with
    row := 0, column := 0, color := vgaEntryColor fg bg, buffer := vgaAddress } whole
  refine ⟨⟨⟨frame.row, fun y hy x hx => ?_⟩, frame.column, Nat.zero_lt_succ _⟩,
    frame.color, frame.buffer, frame.writes⟩
  have inside := cell_inside hy hx
  rw [cleared, cells _ inside, if_pos ⟨Nat.zero_le _, by omega⟩, frame.color]
  have nothing : (Page.blank : Page UInt8).glyph vgaHeight y x = none := by
    rw [Page.glyph_eq]
    cases y with
    | zero => rfl
    | succ y => rfl
  rw [nothing]
  rfl

section Windows

variable {α : Type} {tint : Nat → Option α → UInt16} {t : Terminal} {p : Page α}

theorem Window.bottom (h : Window tint t p) : t.row < vgaHeight := by
  rw [h.row, Page.length_rows]
  unfold vgaHeight
  omega

theorem Window.extend (h : Window tint t p) (c : α) {v : UInt16} (value : ∀ y, tint y (some c) = v)
    (room : p.last.length < vgaWidth) :
    Window tint (store (t.row * vgaWidth + p.last.length) v t) (p.extend c) where
  row := by
    rw [Page.length_rows_extend]
    exact h.row
  cells y hy x hx := by
    have small := vgaCells_small
    have inside := cell_inside hy hx
    have cursor := cell_inside h.bottom room
    rw [cell_store _ _ (by omega) (by omega), Page.glyph_extend p c x hy, h.cells y hy x hx]
    simp only [cell_place hx room, h.row]
    split
    · exact (value y).symm
    · rfl

/-- A line break ends the last row, and scrolls when the window is full. -/
theorem Window.turn (tint' : Nat → Option α → UInt16) (h : Window tint t p)
    (same : p.rows.length < vgaHeight → tint' = tint)
    (moved : vgaHeight ≤ p.rows.length → ∀ y, y < vgaHeight →
      if y + 1 < vgaHeight then tint' y = tint (y + 1)
      else tint' y none = vgaEntry blank t.color) :
    Window tint' (keptAtBottom (t.row + 1) (setRow (t.row + 1) t)) p.turn ∧
      (keptAtBottom (t.row + 1) (setRow (t.row + 1) t)).column = t.column ∧
      (keptAtBottom (t.row + 1) (setRow (t.row + 1) t)).color = t.color := by
  have row := h.row
  have one := Page.length_rows p
  have next := Page.length_rows_turn p
  by_cases full : t.row + 1 ≥ vgaHeight
  · obtain ⟨frame, cells⟩ := scrolled_spec
      (setRow (vgaHeight - 1) (setRow (t.row + 1) t))
    have many : vgaHeight ≤ p.rows.length := by omega
    rw [keptAtBottom, if_pos full]
    refine ⟨⟨?_, fun y hy x hx => ?_⟩, frame.column, frame.color⟩
    · rw [frame.row, next, Nat.min_eq_right (by omega)]
      rfl
    · have tinted := moved many y hy
      rw [cells y hy x hx, Page.glyph_turn_of_le p x hy many]
      split
      · rename_i above
        rw [if_pos above] at tinted
        rw [tinted]
        exact h.cells (y + 1) above x hx
      · rename_i last
        rw [if_neg last] at tinted
        exact tinted.symm
  · rw [keptAtBottom, if_neg full]
    refine ⟨⟨?_, fun y hy x hx => ?_⟩, rfl, rfl⟩
    · rw [next, Nat.min_eq_left (by omega)]
      exact (by omega : t.row + 1 = p.rows.length + 1 - 1)
    · rw [Page.glyph_turn_of_lt p y x (by omega), same (by omega)]
      exact h.cells y hy x hx

end Windows

theorem Displays.window {t : Terminal} {p : Page UInt8} (h : Displays t p) :
    Window (fun _ => shade t.color) t p := ⟨h.row, h.cells⟩

theorem Displays.extend {t : Terminal} {p : Page UInt8} (h : Displays t p) (c : UInt8)
    (room : p.last.length < vgaWidth) :
    Displays (store (t.row * vgaWidth + p.last.length) (vgaEntry c t.color) t) (p.extend c) := by
  obtain ⟨row, cells⟩ := h.window.extend c (fun _ => rfl) room
  exact ⟨row, cells⟩

theorem Displays.turn {t : Terminal} {p : Page UInt8} (h : Displays t p) :
    Displays (keptAtBottom (t.row + 1) (setRow (t.row + 1) t)) p.turn ∧
      (keptAtBottom (t.row + 1) (setRow (t.row + 1) t)).column = t.column := by
  obtain ⟨⟨row, cells⟩, column, color⟩ := h.window.turn _ (fun _ => rfl) fun _ y _ => by
    split
    · rfl
    · rfl
  exact ⟨⟨row, color ▸ cells⟩, column⟩

theorem Shows.inside {t : Terminal} {p : Page UInt8} (h : Shows t p) : Inside t where
  row := h.window.bottom
  column := by
    rw [h.column]
    exact h.room

theorem cleared_inside (fg bg : UInt8) (t : Terminal) : Inside (cleared fg bg t) :=
  (cleared_shows fg bg t).1.inside

theorem Shows.typed {t : Terminal} {p : Page UInt8} (h : Shows t p) (c : UInt8) :
    Shows (typed c t) (p.put vgaWidth (· = newline) c) := by
  unfold VDK.typed Page.put
  by_cases ends : c = newline
  · have moved : Displays (setColumn 0 t) p := ⟨h.row, h.cells⟩
    obtain ⟨shown, column⟩ := moved.turn
    rw [if_pos ends, if_pos ends]
    exact ⟨shown, column, Nat.zero_lt_succ _⟩
  · have extended := h.toDisplays.extend c h.room
    rw [if_neg ends, if_neg ends]
    dsimp only
    rw [h.column]
    by_cases wraps : p.last.length + 1 = vgaWidth
    · have moved : Displays (setColumn 0 (setColumn (p.last.length + 1)
          (store (t.row * vgaWidth + p.last.length) (vgaEntry c t.color) t))) (p.extend c) :=
        ⟨extended.row, extended.cells⟩
      obtain ⟨shown, column⟩ := moved.turn
      rw [if_pos wraps, if_pos wraps]
      exact ⟨shown, column, Nat.zero_lt_succ _⟩
    · rw [if_neg wraps, if_neg wraps]
      have length : (p.extend c).last.length = p.last.length + 1 := by simp [Page.extend]
      have room := h.room
      exact ⟨⟨extended.row, extended.cells⟩, length.symm, by omega⟩

theorem Shows.write {t : Terminal} {p : Page UInt8} (h : Shows t p) (cs : List UInt8) :
    Shows (cs.foldl (fun t c => VDK.typed c t) t)
      (cs.foldl (Page.put vgaWidth (· = newline)) p) := by
  induction cs generalizing t p with
  | nil => exact h
  | cons c cs ih => exact ih (h.typed c)

/-- From a cleared screen on, the terminal shows the last rows of all that was typed. -/
theorem terminal_scrolls (t : Terminal) (cs : List UInt8) :
    ∃ u, (do terminalInitialize; terminalWrite cs).run.run t = (some (), u) ∧
      u.row = min (pageOf cs).rows.length vgaHeight - 1 ∧
      u.column = (pageOf cs).last.length ∧ u.column < vgaWidth ∧
      u.color = vgaEntryColor vgaColorLightGrey vgaColorBlack ∧
      (∀ y < vgaHeight, ∀ x < vgaWidth, u.cell (y * vgaWidth + x) =
        shade u.color ((pageOf cs).glyph vgaHeight y x)) ∧
      ∃ ws, u.writes = t.writes ++ ws ∧ ∀ w ∈ ws, w.base = vgaAddress ∧ w.index < vgaCells := by
  obtain ⟨shown, painted⟩ := cleared_shows vgaColorLightGrey vgaColorBlack t
  have final := shown.write cs
  have whole := painted.trans (write_inside shown.inside cs).2
  refine ⟨_, ?_, final.row, final.column, ?_, whole.color, final.cells, whole.writes⟩
  · rw [terminalInitialize, Prog.run_bind, Exec.run_bind, run_screenInitialize,
      Exec.andThen_some, run_terminalWrite]
  · rw [final.column]
    exact final.room

end Pages

end VDK
