import VDK.FuelExec
import VDK.ByteMemory

/-!
# The processor's view of ports and memory

`Bus` is the hardware behind the ports: any deterministic state machine, so that
quantifying over buses and their states covers every stream of answers. Each
access is logged with the value that crossed the port. `repInsw` and `repOutsw`
are the string instructions with the direction flag clear.
-/
namespace VDK
open ByteMem

inductive Access where
  | inb (port : UInt16) (value : UInt8)
  | inw (port value : UInt16)
  | inl (port : UInt16) (value : UInt32)
  | outb (port : UInt16) (value : UInt8)
  | outw (port value : UInt16)
  deriving DecidableEq, Repr

def Access.port : Access → UInt16
  | .inb p _ | .inw p _ | .inl p _ | .outb p _ | .outw p _ => p

structure Bus (σ : Type) where
  inb : UInt16 → σ → UInt8 × σ
  inw : UInt16 → σ → UInt16 × σ
  inl : UInt16 → σ → UInt32 × σ
  outb : UInt16 → UInt8 → σ → σ
  outw : UInt16 → UInt16 → σ → σ

/-- Hardware state, memory and the accesses so far, oldest first. -/
structure Machine (σ : Type) where
  bus : σ
  mem : Mem
  log : List Access

section Instructions

variable {σ : Type} (hw : Bus σ)

def inportb (port : UInt16) (m : Machine σ) : UInt8 × Machine σ :=
  ((hw.inb port m.bus).1,
    { m with bus := (hw.inb port m.bus).2, log := m.log ++ [.inb port (hw.inb port m.bus).1] })

def inportl (port : UInt16) (m : Machine σ) : UInt32 × Machine σ :=
  ((hw.inl port m.bus).1,
    { m with bus := (hw.inl port m.bus).2, log := m.log ++ [.inl port (hw.inl port m.bus).1] })

def outportb (port : UInt16) (value : UInt8) (m : Machine σ) : Machine σ :=
  { m with bus := hw.outb port value m.bus, log := m.log ++ [.outb port value] }

/-- `rep insw` with `ecx = n`, `dx = port`, `edi = dst`. -/
def repInsw (port : UInt16) : Nat → UInt32 → Machine σ → Machine σ
  | 0, _, m => m
  | n + 1, dst, m =>
      let w := (hw.inw port m.bus).1
      repInsw port n (dst + 2)
        { bus := (hw.inw port m.bus).2
          mem := m.mem.write dst (bytes16 w)
          log := m.log ++ [.inw port w] }

/-- `rep outsw` with `ecx = n`, `dx = port`, `esi = src`. -/
def repOutsw (port : UInt16) : Nat → UInt32 → Machine σ → Machine σ
  | 0, _, m => m
  | n + 1, src, m =>
      let w := word16 (m.mem src) (m.mem (src + 1))
      repOutsw port n (src + 2)
        { m with bus := hw.outw port w m.bus, log := m.log ++ [.outw port w] }

/-- A run of byte writes. -/
def sendAll (writes : List (UInt16 × UInt8)) (m : Machine σ) : Machine σ :=
  writes.foldl (fun m w => outportb hw w.1 w.2 m) m

/-- `insl`: the long words a port delivers, in order. -/
def insl (port : UInt16) : Nat → Machine σ → List UInt32 × Machine σ
  | 0, m => ([], m)
  | n + 1, m =>
      let r := inportl hw port m
      let rest := insl port n r.2
      (r.1 :: rest.1, rest.2)

end Instructions

section Words

variable {σ : Type} (hw : Bus σ)

/-- The next `n` words of a port, and the hardware after them. -/
def readWords (port : UInt16) : Nat → σ → List UInt16 × σ
  | 0, b => ([], b)
  | n + 1, b =>
      let r := hw.inw port b
      let rest := readWords port n r.2
      (r.1 :: rest.1, rest.2)

def writeWords (port : UInt16) : List UInt16 → σ → σ
  | [], b => b
  | w :: ws, b => writeWords port ws (hw.outw port w b)

/-- The `n` words stored in memory from `src` on. -/
def memWords (m : Mem) : Nat → UInt32 → List UInt16
  | 0, _ => []
  | n + 1, src => word16 (m src) (m (src + 1)) :: memWords m n (src + 2)

@[simp] theorem length_readWords (port : UInt16) (n : Nat) (b : σ) :
    (readWords hw port n b).1.length = n := by
  induction n generalizing b with
  | zero => rfl
  | succ n ih => simp only [readWords, List.length_cons, ih]

@[simp] theorem length_memWords (m : Mem) (n : Nat) (src : UInt32) :
    (memWords m n src).length = n := by
  induction n generalizing src with
  | zero => rfl
  | succ n ih => simp only [memWords, List.length_cons, ih]

/-- The stored words are the bytes from `src` on, in order. -/
theorem flatMap_memWords (m : Mem) (n : Nat) (src : UInt32) :
    (memWords m n src).flatMap bytes16 = (List.range (2 * n)).map (m.view src) := by
  induction n generalizing src with
  | zero => rfl
  | succ n ih =>
      have tail : (m.view src ∘ fun i => 2 + i) = m.view (src + 2) := by
        funext i
        simp only [Function.comp_apply, Mem.view, UInt32.ofNat_add, ← UInt32.add_assoc]
        rfl
      rw [memWords, List.flatMap_cons, bytes16_word16, ih, Nat.mul_succ, Nat.add_comm,
        List.range_add, List.map_append, List.map_map, tail]
      congr 1
      simp [Mem.view, List.range_succ]

theorem sendAll_eq (writes : List (UInt16 × UInt8)) (m : Machine σ) :
    sendAll hw writes m =
      { m with
        bus := writes.foldl (fun b w => hw.outb w.1 w.2 b) m.bus
        log := m.log ++ writes.map fun w => Access.outb w.1 w.2 } := by
  induction writes generalizing m with
  | nil => simp [sendAll]
  | cons w writes ih =>
      rw [sendAll, List.foldl_cons, ← sendAll, ih]
      simp [outportb]

@[simp] theorem sendAll_append (first second : List (UInt16 × UInt8)) (m : Machine σ) :
    sendAll hw second (sendAll hw first m) = sendAll hw (first ++ second) m := by
  simp only [sendAll, List.foldl_append]

theorem repInsw_eq (port : UInt16) (n : Nat) (dst : UInt32) (m : Machine σ) :
    repInsw hw port n dst m =
      { bus := (readWords hw port n m.bus).2
        mem := m.mem.write dst ((readWords hw port n m.bus).1.flatMap bytes16)
        log := m.log ++ (readWords hw port n m.bus).1.map (Access.inw port) } := by
  induction n generalizing dst m with
  | zero => simp [repInsw, readWords]
  | succ n ih =>
      rw [repInsw, ih]
      simp only [readWords, List.flatMap_cons, List.map_cons, List.append_assoc,
        List.singleton_append, Mem.write_append, length_bytes16]
      rfl

theorem repOutsw_eq (port : UInt16) (n : Nat) (src : UInt32) (m : Machine σ) :
    repOutsw hw port n src m =
      { m with
        bus := writeWords hw port (memWords m.mem n src) m.bus
        log := m.log ++ (memWords m.mem n src).map (Access.outw port) } := by
  induction n generalizing src m with
  | zero => simp [repOutsw, memWords, writeWords]
  | succ n ih =>
      rw [repOutsw, ih]
      simp only [memWords, writeWords, List.map_cons, List.append_assoc, List.singleton_append]

theorem insl_frame (port : UInt16) (n : Nat) (m : Machine σ) :
    (insl hw port n m).2.mem = m.mem ∧
      (insl hw port n m).2.log = m.log ++ (insl hw port n m).1.map (Access.inl port) := by
  induction n generalizing m with
  | zero => simp [insl]
  | succ n ih =>
      obtain ⟨memory, history⟩ := ih (inportl hw port m).2
      simp only [insl, memory, history, List.map_cons]
      exact ⟨rfl, by simp [inportl]⟩

theorem insl_eq (port : UInt16) (n : Nat) (m : Machine σ) :
    (insl hw port n m).1.length = n ∧ ∃ b, (insl hw port n m).2 =
      { m with bus := b, log := m.log ++ (insl hw port n m).1.map (Access.inl port) } := by
  constructor
  · induction n generalizing m with
    | zero => rfl
    | succ n ih => simp only [insl, List.length_cons, ih]
  · obtain ⟨memory, history⟩ := insl_frame hw port n m
    exact ⟨(insl hw port n m).2.bus, by rw [← history, ← memory]⟩

end Words

end VDK
