import VDK.MouseCursor

/-!
# Mouse packets

Three calls of `mouse_handler` take one packet. What the packet means is a pair of
nine-bit displacements, with the sign bits in the first byte; what the handler adds are
the second and the third byte as signed `char`s.
-/
namespace VDK
open Atomic Fuel Kernel

/-- Three bytes, the first with its constant bit set and no overflow bit. -/
structure MousePacket where
  status : UInt8
  x : UInt8
  y : UInt8
  framed : status &&& 0xC8 = 0x08

/-- A byte and its sign bit, read in nine-bit two's complement. -/
def displacement (sign : Bool) (b : UInt8) : Int :=
  if sign then (b.toNat : Int) - 256 else b.toNat

/-- The coordinate on the screen that is nearest to `n`. -/
def nearest (limit : Nat) (n : Int) : Int := max 0 (min n (limit - 1))

namespace MousePacket

def xSign (p : MousePacket) : Bool := (getMouseStatus p.status).xSign

def ySign (p : MousePacket) : Bool := (getMouseStatus p.status).ySign

def dx (p : MousePacket) : Int := displacement p.xSign p.x

def dy (p : MousePacket) : Int := displacement p.ySign p.y

/-- The horizontal sign bit repeats the top bit of its byte and the sum is not the first
column off the screen, or the largest move to the left is made in the first column. -/
def FitsX (p : MousePacket) (m : Mouse) : Prop :=
  (p.xSign = decide (128 ≤ p.x) ∧ m.xPos + p.dx ≠ vgaWidth) ∨ (p.dx = -256 ∧ m.xPos = 0)

/-- The same for the vertical move, whose largest one downwards is made in the last row. -/
def FitsY (p : MousePacket) (m : Mouse) : Prop :=
  (p.ySign = decide (128 ≤ p.y) ∧ m.yPos - p.dy ≠ vgaHeight) ∨
    (p.dy = -256 ∧ m.yPos + 1 = vgaHeight)

instance (p : MousePacket) (m : Mouse) : Decidable (p.FitsX m) :=
  inferInstanceAs (Decidable (_ ∨ _))

instance (p : MousePacket) (m : Mouse) : Decidable (p.FitsY m) :=
  inferInstanceAs (Decidable (_ ∨ _))

/-- The move from `m` to `m'` is the one the packet means. -/
structure Moves (p : MousePacket) (m m' : Mouse) : Prop where
  x : m'.xPos = nearest vgaWidth (m.xPos + p.dx)
  y : m'.yPos = nearest vgaHeight (m.yPos - p.dy)

end MousePacket

section Coordinates

theorem signedChar_eq (c : UInt8) : signedChar c = displacement (decide (128 ≤ c)) c := by
  have small := c.toNat_lt
  unfold signedChar displacement
  by_cases high : 128 ≤ c
  · have top : 128 ≤ c.toNat := UInt8.le_iff_toNat_le.mp high
    rw [decide_eq_true high, if_pos rfl, Int.bmod_def]
    omega
  · have top : ¬128 ≤ c.toNat := fun le => high (UInt8.le_iff_toNat_le.mpr le)
    rw [decide_eq_false high, if_neg Bool.false_ne_true, Int.bmod_def]
    omega

theorem displacement_range (sign : Bool) (b : UInt8) :
    -256 ≤ displacement sign b ∧ displacement sign b < 256 := by
  have small := b.toNat_lt
  unfold displacement
  split
  · omega
  · omega

/-- The other sign bit moves the value by 256, past zero. -/
theorem displacement_flip {sign : Bool} {b : UInt8} (flipped : sign ≠ decide (128 ≤ b)) :
    (displacement sign b = signedChar b + 256 ∧ 128 ≤ displacement sign b) ∨
      (displacement sign b = signedChar b - 256 ∧ displacement sign b < -128) := by
  have small := b.toNat_lt
  rw [signedChar_eq]
  unfold displacement
  by_cases high : 128 ≤ b
  · have top : 128 ≤ b.toNat := UInt8.le_iff_toNat_le.mp high
    rw [decide_eq_true high] at flipped
    rw [decide_eq_true high, if_pos rfl, if_neg flipped]
    omega
  · have top : ¬128 ≤ b.toNat := fun le => high (UInt8.le_iff_toNat_le.mpr le)
    rw [decide_eq_false high] at flipped
    rw [decide_eq_false high, if_neg Bool.false_ne_true, if_pos (eq_true_of_ne_false flipped)]
    omega

/-- Only the first coordinate off the screen is clamped to another place than the nearest. -/
theorem clamp_nearest_iff {limit : Nat} (positive : 0 < limit) (small : limit < 2 ^ 31) {n : Int}
    (high : n < 2 ^ 31) : clamp limit n = nearest limit n ↔ n ≠ limit := by
  rw [clamp_eq positive small high]
  unfold nearest
  split
  · omega
  · split
    · omega
    · omega

theorem nearest_eq {limit : Nat} (positive : 0 < limit) (n : Int) :
    nearest limit n = if n < 0 then 0 else if (limit : Int) ≤ n then (limit : Int) - 1 else n := by
  unfold nearest
  split
  · omega
  · split
    · omega
    · omega

variable {limit : Nat} {pos : Int} {sign : Bool} {b : UInt8}

/-- A move made and the move meant, which agree or are 256 apart: where they are clamped to
the nearest place. -/
theorem clamp_moved_iff {made meant : Int} {agree : Prop} (wide : 1 < limit) (narrow : limit ≤ 128)
    (low : 0 ≤ pos) (high : pos < limit) (range : -128 ≤ made ∧ made ≤ 128)
    (same : agree → meant = made)
    (flip : ¬agree → (meant = made + 256 ∧ 128 ≤ meant ∧ meant ≤ 256) ∨
      (meant = made - 256 ∧ -256 ≤ meant ∧ meant ≤ -128)) :
    clamp limit (pos + made) = nearest limit (pos + meant) ↔
      (agree ∧ pos + meant ≠ limit) ∨ (meant = -256 ∧ pos = 0) ∨
        (meant = 256 ∧ pos + 1 = limit) := by
  by_cases right : agree
  · rw [same right, clamp_nearest_iff (by omega) (by omega) (by omega)]
    simp only [right, true_and]
    omega
  · have apart := flip right
    rw [clamp_eq (by omega) (by omega) (by omega), nearest_eq (by omega)]
    simp only [right, false_and, false_or]
    omega

theorem displacement_eq (agree : sign = decide (128 ≤ b)) : displacement sign b = signedChar b := by
  rw [signedChar_eq, agree]

theorem clamp_right_iff (wide : 1 < limit) (narrow : limit ≤ 128) (low : 0 ≤ pos)
    (high : pos < limit) :
    clamp limit (pos + signedChar b) = nearest limit (pos + displacement sign b) ↔
      (sign = decide (128 ≤ b) ∧ pos + displacement sign b ≠ limit) ∨
        (displacement sign b = -256 ∧ pos = 0) := by
  have range := signedChar_range b
  have bounds := displacement_range sign b
  have short : displacement sign b ≠ 256 := by omega
  have moved := clamp_moved_iff wide narrow low high ⟨by omega, by omega⟩
    (@displacement_eq sign b) (fun differ => by
      have flip := displacement_flip differ
      omega)
  rw [moved]
  simp only [short, false_and, or_false]

theorem clamp_down_iff (wide : 1 < limit) (narrow : limit ≤ 128) (low : 0 ≤ pos)
    (high : pos < limit) :
    clamp limit (pos - signedChar b) = nearest limit (pos - displacement sign b) ↔
      (sign = decide (128 ≤ b) ∧ pos - displacement sign b ≠ limit) ∨
        (displacement sign b = -256 ∧ pos + 1 = limit) := by
  have range := signedChar_range b
  have bounds := displacement_range sign b
  have moved := clamp_moved_iff wide narrow low high ⟨by omega, by omega⟩
    (fun agree => congrArg Neg.neg (@displacement_eq sign b agree)) (fun differ => by
      have flip := displacement_flip differ
      omega)
  have short : -displacement sign b ≠ -256 := by omega
  have least : -displacement sign b = 256 ↔ displacement sign b = -256 := by omega
  rw [Int.sub_eq_add_neg, Int.sub_eq_add_neg, moved]
  simp only [short, least, false_and, false_or]

theorem nearest_inside (positive : 0 < limit) (n : Int) :
    0 ≤ nearest limit n ∧ nearest limit n < limit := by
  unfold nearest
  omega

end Coordinates

section Packets

/-- What three calls leave when they start between two packets. -/
theorem Mouse.after_packet {m : Mouse} (idle : m.cycle = 0) (b₀ b₁ b₂ : UInt8) :
    ((m.after b₀).after b₁).after b₂ =
      ((({ m with byte0 := b₀, status := getMouseStatus b₀ } : Mouse).setByte1 b₁).setByte2
        b₂).move.setCycle 0 := by
  have first : m.after b₀ =
      { m with byte0 := b₀, status := getMouseStatus b₀, cycle := 1 } := by
    rw [Mouse.after, if_pos idle, idle]
    rfl
  rw [first]
  rfl

theorem Mouse.OnScreen.moves_iff {m : Mouse} (on : m.OnScreen) (idle : m.cycle = 0)
    (p : MousePacket) :
    p.Moves m (((m.after p.status).after p.x).after p.y) ↔ p.FitsX m ∧ p.FitsY m := by
  have x := on.x
  have y := on.y
  unfold vgaWidth at x
  unfold vgaHeight at y
  have dx := signedChar_range p.x
  have dy := signedChar_range p.y
  have moved : (((m.after p.status).after p.x).after p.y).xPos =
        clamp vgaWidth (wrapInt (m.xPos + signedChar p.x)) ∧
      (((m.after p.status).after p.x).after p.y).yPos =
        clamp vgaHeight (wrapInt (m.yPos - signedChar p.y)) := by
    rw [Mouse.after_packet idle]
    exact ⟨rfl, rfl⟩
  rw [wrapInt_small (by omega) (by omega), wrapInt_small (by omega) (by omega)] at moved
  have right : _ ↔ p.FitsX m := clamp_right_iff (by decide) (by decide) on.x.1 on.x.2
  have down : _ ↔ p.FitsY m := clamp_down_iff (by decide) (by decide) on.y.1 on.y.2
  rw [← right, ← down, ← moved.1, ← moved.2]
  exact ⟨fun moves => ⟨moves.x, moves.y⟩, fun ⟨x, y⟩ => ⟨x, y⟩⟩

theorem MousePacket.Moves.onScreen {p : MousePacket} {m m' : Mouse} (moves : p.Moves m m') :
    m'.OnScreen := by
  constructor
  · rw [moves.x]
    exact nearest_inside (by decide) _
  · rw [moves.y]
    exact nearest_inside (by decide) _

end Packets

section Runs

variable {σ : Type} (hw : Bus σ)

/-- The bytes of a run, sent one after the other to the driver's globals. -/
theorem MouseRun.mouse_eq {hw : Bus σ} {s₀ s : Kernel σ} {calls : List (MouseCall σ)}
    (run : MouseRun hw s₀ calls s) :
    s.mouse = calls.foldl (fun m c => m.after c.byte) s₀.mouse := by
  induction run with
  | start => rfl
  | call _ read handled ih =>
      rw [List.foldl_append, ← ih]
      exact (mouseHandler_effect hw read handled).mouse
  | other _ same ih => exact same.trans ih

/-- A packet with the states before its first and after its last byte. -/
structure PacketCall (σ : Type) where
  before : Kernel σ
  packet : MousePacket
  after : Kernel σ

/-- Packets, one byte for each call of `mouse_handler`. -/
inductive PacketRun (s₀ : Kernel σ) : List (PacketCall σ) → Kernel σ → Prop
  | start : PacketRun s₀ [] s₀
  | packet {packets : List (PacketCall σ)} {s t : Kernel σ} {p : MousePacket}
      {c₀ c₁ c₂ : MouseCall σ} (run : PacketRun s₀ packets s) (calls : MouseRun hw s [c₀, c₁, c₂] t)
      (status : c₀.byte = p.status) (x : c₁.byte = p.x) (y : c₂.byte = p.y) :
      PacketRun s₀ (packets ++ [⟨s, p, t⟩]) t

/-- The position after the packet is the decoded move of the position before it. -/
def PacketCall.Decoded (c : PacketCall σ) : Prop := c.packet.Moves c.before.mouse c.after.mouse

/-- Both moves of the packet fit the position it is sent at. -/
def PacketCall.Fits (c : PacketCall σ) : Prop :=
  c.packet.FitsX c.before.mouse ∧ c.packet.FitsY c.before.mouse

theorem PacketRun.decoded {hw : Bus σ} {s₀ s : Kernel σ} {packets : List (PacketCall σ)}
    (run : PacketRun hw s₀ packets s) (idle : s₀.mouse.cycle = 0) (on : s₀.mouse.OnScreen) :
    s.mouse.cycle = 0 ∧ ((∀ c ∈ packets, c.Decoded) → s.mouse.OnScreen) ∧
      ((∀ c ∈ packets, c.Decoded) ↔ ∀ c ∈ packets, c.Fits) := by
  induction run with
  | start =>
      refine ⟨idle, fun _ => on, ?_⟩
      simp only [List.not_mem_nil, false_implies, implies_true]
  | @packet packets s t p c₀ c₁ c₂ _ calls status x y ih =>
      obtain ⟨between, onScreen, earlier⟩ := ih
      have moved : t.mouse = ((s.mouse.after p.status).after p.x).after p.y := by
        rw [calls.mouse_eq, ← status, ← x, ← y]
        rfl
      refine ⟨?_, fun decoded => ?_, ?_⟩
      · rw [moved, Mouse.after_packet between]
        rfl
      · exact (decoded _ (List.mem_append_right _ List.mem_cons_self)).onScreen
      · rw [List.forall_mem_append, List.forall_mem_append, List.forall_mem_singleton,
          List.forall_mem_singleton, ← earlier]
        apply and_congr_right
        intro decoded
        rw [PacketCall.Decoded, PacketCall.Fits, moved]
        exact (onScreen decoded).moves_iff between p

/-- Every packet of a run is decoded if and only if every packet fits where it is sent. -/
theorem packets_decoded_iff {s₀ s : Kernel σ} {packets : List (PacketCall σ)}
    (idle : s₀.mouse.cycle = 0) (on : s₀.mouse.OnScreen) (run : PacketRun hw s₀ packets s) :
    (∀ c ∈ packets, c.Decoded) ↔ ∀ c ∈ packets, c.Fits :=
  (run.decoded idle on).2.2

end Runs

section Queue

/-- The packet `p`, alone, sent after `mouse_init`. -/
theorem MousePacket.run (p : MousePacket) : ∃ t : Kernel (List UInt8),
    PacketRun byteQueue (centred [p.status, p.x, p.y]) [⟨centred [p.status, p.x, p.y], p, t⟩] t ∧
    t.mouse = (((centred []).mouse.after p.status).after p.x).after p.y := by
  obtain ⟨t₁, t₂, t, run, mouse₁, mouse₂, mouse⟩ := packet_run p.status p.x p.y
  refine ⟨t, PacketRun.start.packet run rfl rfl rfl, ?_⟩
  rw [mouse, mouse₂, mouse₁]

def rightBy200 : MousePacket := ⟨0x08, 200, 0, by decide⟩

/-- Moving right by 200 from column 5 takes the cursor to column 0. -/
theorem long_move_reverses : ∃ t : Kernel (List UInt8),
    PacketRun byteQueue (centred [0x08, 200, 0]) [⟨centred [0x08, 200, 0], rightBy200, t⟩] t ∧
    rightBy200.dx = 200 ∧ t.mouse.xPos = 0 ∧
    ¬PacketCall.Decoded ⟨centred [0x08, 200, 0], rightBy200, t⟩ := by
  obtain ⟨t, run, mouse⟩ := rightBy200.run
  have left : t.mouse.xPos = 0 := by
    rw [mouse]
    decide
  have right : nearest vgaWidth (5 + rightBy200.dx) = 79 := by decide
  refine ⟨t, run, by decide, left, fun decoded => ?_⟩
  have ends : t.mouse.xPos = nearest vgaWidth (5 + rightBy200.dx) := decoded.x
  rw [left, right] at ends
  exact absurd ends (by decide)

def upAndLeft : MousePacket := ⟨0x18, 0xFD, 0x02, by decide⟩

theorem packets_decoded_iff_packet : ∃ t : Kernel (List UInt8),
    PacketRun byteQueue (centred [0x18, 0xFD, 0x02]) [⟨centred [0x18, 0xFD, 0x02], upAndLeft, t⟩] t ∧
    ∀ c ∈ [(⟨centred [0x18, 0xFD, 0x02], upAndLeft, t⟩ : PacketCall (List UInt8))], c.Decoded := by
  obtain ⟨t, run, _⟩ := upAndLeft.run
  have on : (centred [0x18, 0xFD, 0x02]).mouse.OnScreen := ⟨by decide, by decide⟩
  refine ⟨t, run, (packets_decoded_iff byteQueue rfl on run).mpr fun c only => ?_⟩
  rw [List.mem_singleton.mp only]
  exact ⟨(by decide : upAndLeft.FitsX (centred []).mouse),
    (by decide : upAndLeft.FitsY (centred []).mouse)⟩

end Queue

end VDK
