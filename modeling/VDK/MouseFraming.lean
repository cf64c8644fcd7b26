import VDK.MousePackets

/-!
# The marker bit of a mouse packet

Bit 3 of the first byte of a packet is always set. The handler decodes it and does not look
at it: which bytes it takes as first ones is decided by counting them in threes.
-/
namespace VDK
open Atomic Fuel Kernel

/-- Every `n`-th element of the list, from the first one on, satisfies `p`. -/
def EveryNth {α : Type} (n : Nat) (p : α → Prop) (l : List α) : Prop :=
  ∀ k a, l[n * k]? = some a → p a

theorem everyNth_append {α : Type} {n : Nat} {p : α → Prop} (l : List α) (a : α) :
    EveryNth n p (l ++ [a]) ↔ EveryNth n p l ∧ (l.length % n = 0 → p a) := by
  constructor
  · intro every
    constructor
    · intro k b found
      obtain ⟨inside, _⟩ := List.getElem?_eq_some_iff.mp found
      apply every k b
      rw [List.getElem?_append_left inside]
      exact found
    · intro multiple
      obtain ⟨k, length⟩ := Nat.dvd_of_mod_eq_zero multiple
      apply every k a
      rw [← length]
      exact List.getElem?_concat_length
  · rintro ⟨earlier, last⟩ k b found
    by_cases inside : n * k < l.length
    · rw [List.getElem?_append_left inside] at found
      exact earlier k b found
    · obtain ⟨bound, at_end⟩ := List.getElem?_eq_some_iff.mp found
      have length : n * k = l.length := by
        rw [List.length_append, List.length_singleton] at bound
        omega
      have same : b = a := by
        rw [length, List.getElem?_concat_length] at found
        exact (Option.some.inj found).symm
      rw [same]
      apply last
      rw [← length]
      exact Nat.mul_mod_right n k

section Marker

/-- The bit that the first byte of every packet has set. -/
def HasMarker (b : UInt8) : Prop := (getMouseStatus b).always1 = true

instance (b : UInt8) : Decidable (HasMarker b) :=
  inferInstanceAs (Decidable ((getMouseStatus b).always1 = true))

theorem MousePacket.hasMarker (p : MousePacket) : HasMarker p.status := by
  have bits : ∀ b : BitVec 8, b &&& 0xC8 = 0x08 → b &&& 0x08 ≠ 0 := by decide
  have marker := bits p.status.toBitVec (congrArg UInt8.toBitVec p.framed)
  exact decide_eq_true fun clear => marker (congrArg UInt8.toBitVec clear)

def MousePacket.bytes (p : MousePacket) : List UInt8 := [p.status, p.x, p.y]

/-- In a stream that lost nothing the marker stands where the handler counts it. -/
theorem everyNth_packets (packets : List MousePacket) :
    EveryNth 3 HasMarker (packets.flatMap MousePacket.bytes) := by
  induction packets with
  | nil =>
      intro k b found
      exact absurd found (by simp)
  | cons p packets ih =>
      intro k b found
      cases k with
      | zero =>
          rw [← Option.some.inj found]
          exact p.hasMarker
      | succ k => exact ih k b found

end Marker

section Runs

variable {σ : Type} (hw : Bus σ)

/-- The handler still waits for a first byte, and shows what it showed before. -/
structure StaysIdle (m m' : Mouse) : Prop where
  cycle : m'.cycle = 0
  x : m'.xPos = m.xPos
  y : m'.yPos = m.yPos
  status : m'.status = m.status

/-- A byte without the marker is not taken as the first one of a packet. -/
def MouseCall.Framed (c : MouseCall σ) : Prop :=
  c.before.mouse.cycle = 0 → ¬HasMarker c.byte → StaysIdle c.before.mouse c.after.mouse

theorem MouseEffect.framed_iff {s t : Kernel σ} {b : UInt8} (effect : MouseEffect b s t) :
    MouseCall.Framed ⟨s, b, t⟩ ↔ (s.mouse.cycle = 0 → HasMarker b) := by
  constructor
  · intro framed idle
    by_contra unmarked
    have stays := (framed idle unmarked).cycle
    rw [effect.mouse, Mouse.after, if_pos idle, idle] at stays
    exact absurd stays (by decide : (0 : UInt8) + 1 ≠ 0)
  · intro marker idle unmarked
    exact absurd (marker idle) unmarked

theorem Mouse.after_cycle {m : Mouse} {n : Nat} (counted : m.cycle.toNat = n % 3) (b : UInt8) :
    (m.after b).cycle.toNat = (n + 1) % 3 := by
  have third : n % 3 = 0 ∨ n % 3 = 1 ∨ n % 3 = 2 := by omega
  rcases third with first | second | last
  · have cycle : m.cycle = 0 := UInt8.toNat_inj.mp (counted.trans first)
    rw [Mouse.after, if_pos cycle, cycle, Nat.add_mod, first]
    rfl
  · have cycle : m.cycle = 1 := UInt8.toNat_inj.mp (counted.trans second)
    rw [Mouse.after, if_neg (by rw [cycle]; decide), if_pos cycle, cycle, Nat.add_mod, second]
    rfl
  · have cycle : m.cycle = 2 := UInt8.toNat_inj.mp (counted.trans last)
    rw [Mouse.after, if_neg (by rw [cycle]; decide), if_neg (by rw [cycle]; decide), if_pos cycle,
      Nat.add_mod, last]
    rfl

/-- The counter of the handler is the number of bytes taken so far, in threes. -/
theorem MouseRun.framed {hw : Bus σ} {s₀ s : Kernel σ} {calls : List (MouseCall σ)}
    (run : MouseRun hw s₀ calls s) (idle : s₀.mouse.cycle = 0) :
    s.mouse.cycle.toNat = calls.length % 3 ∧
      ((∀ c ∈ calls, c.Framed) ↔ EveryNth 3 HasMarker (calls.map MouseCall.byte)) := by
  induction run with
  | start =>
      rw [idle]
      refine ⟨rfl, fun _ k b found => ?_, fun _ c none => absurd none List.not_mem_nil⟩
      exact absurd found (by simp)
  | @call calls s t u b _ read handled ih =>
      obtain ⟨counted, earlier⟩ := ih
      have effect := mouseHandler_effect hw read handled
      constructor
      · rw [effect.mouse, List.length_append]
        exact Mouse.after_cycle counted b
      · have first : s.mouse.cycle = 0 ↔ (calls.map MouseCall.byte).length % 3 = 0 := by
          rw [List.length_map, ← counted, ← UInt8.toNat_inj]
          rfl
        rw [List.forall_mem_append, List.forall_mem_singleton, List.map_append, List.map_singleton,
          everyNth_append, earlier, effect.framed_iff, first]
  | other _ same ih =>
      rw [same]
      exact ih

/-- A stream of whole packets, however long, is framed. -/
theorem MouseRun.lossless {hw : Bus σ} {s₀ s : Kernel σ} {calls : List (MouseCall σ)}
    (run : MouseRun hw s₀ calls s) (idle : s₀.mouse.cycle = 0) {packets : List MousePacket}
    (sent : calls.map MouseCall.byte = packets.flatMap MousePacket.bytes) :
    ∀ c ∈ calls, c.Framed := by
  rw [(run.framed idle).2, sent]
  exact everyNth_packets packets

/-- No byte without the marker is taken as a first byte if and only if every third byte of
the stream, from its beginning on, has the marker. -/
theorem bytes_framed_iff {s₀ s : Kernel σ} {calls : List (MouseCall σ)}
    (idle : s₀.mouse.cycle = 0) (run : MouseRun hw s₀ calls s) :
    (∀ c ∈ calls, c.Framed) ↔ EveryNth 3 HasMarker (calls.map MouseCall.byte) :=
  (run.framed idle).2

end Runs

section Queue

def toTheRight : MousePacket := { rightBy200 with x := 0x01 }

/-- Two packets that move right by one. The byte in front was lost, so that the movement
byte is taken as a first one, for which the left button is down. -/
theorem lost_byte_shifts_packets : ∃ t₁ t₂ t₃ : Kernel (List UInt8),
    [toTheRight, toTheRight].flatMap MousePacket.bytes =
      0x08 :: [0x01, 0x00, 0x08] ++ [0x01, 0x00] ∧
    MouseRun byteQueue (centred [0x01, 0x00, 0x08])
      [⟨centred [0x01, 0x00, 0x08], 0x01, t₁⟩, ⟨t₁, 0x00, t₂⟩, ⟨t₂, 0x08, t₃⟩] t₃ ∧
    t₃.mouse.status.leftButton = true ∧ t₃.mouse.yPos = 0 ∧
    ¬MouseCall.Framed ⟨centred [0x01, 0x00, 0x08], 0x01, t₁⟩ := by
  obtain ⟨t₁, t₂, t₃, run, mouse₁, mouse₂, mouse₃⟩ := packet_run 0x01 0x00 0x08
  refine ⟨t₁, t₂, t₃, by decide, run, ?_, ?_, fun framed => ?_⟩
  · rw [mouse₃, mouse₂, mouse₁]
    decide
  · rw [mouse₃, mouse₂, mouse₁]
    decide
  · have stays := (framed rfl (by decide : ¬HasMarker 0x01)).cycle
    change t₁.mouse.cycle = 0 at stays
    rw [mouse₁] at stays
    exact absurd stays (by decide)

theorem bytes_framed_iff_packet : ∃ t₁ t₂ t₃ : Kernel (List UInt8),
    MouseRun byteQueue (centred [0x18, 0xFD, 0x02])
      [⟨centred [0x18, 0xFD, 0x02], 0x18, t₁⟩, ⟨t₁, 0xFD, t₂⟩, ⟨t₂, 0x02, t₃⟩] t₃ ∧
    ∀ c ∈ [⟨centred [0x18, 0xFD, 0x02], 0x18, t₁⟩, ⟨t₁, 0xFD, t₂⟩,
      (⟨t₂, 0x02, t₃⟩ : MouseCall (List UInt8))], c.Framed := by
  obtain ⟨t₁, t₂, t₃, run, _⟩ := packet_run 0x18 0xFD 0x02
  exact ⟨t₁, t₂, t₃, run, (bytes_framed_iff byteQueue rfl run).mpr (everyNth_packets [upAndLeft])⟩

end Queue

end VDK
