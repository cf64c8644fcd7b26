import VDK.WriteReport

/-!
# What a read reports

The device is a stream of status bytes and a stream of data words. A block is judged by the
status byte that is read next after the first one without BSY, and its words follow.
-/
namespace VDK
open Fuel ByteMem

section Stream

/-- The first byte without BSY from position `p` on stands at `q`. -/
def FirstQuiet (st : Nat → UInt8) (p q : Nat) : Prop :=
  p ≤ q ∧ Quiet (st q) ∧ ∀ l, p ≤ l → l < q → ¬Quiet (st l)

/-- The status byte that judges block `k` of those polled from position `p` on. -/
inductive BlockStatus (st : Nat → UInt8) : Nat → Nat → UInt8 → Prop
  | here {p q : Nat} (wait : FirstQuiet st p q) : BlockStatus st p 0 (st (q + 1))
  | later {p q k : Nat} {v : UInt8} (wait : FirstQuiet st p q) (rest : BlockStatus st (q + 2) k v) :
      BlockStatus st p (k + 1) v

/-- The byte that judges block `k` has DRQ set and neither ERR nor DF. -/
def BlockReady (st : Nat → UInt8) (p k : Nat) : Prop := ∃ v, BlockStatus st p k v ∧ Ready v

/-- The wait for every block up to the first that is not ready ends. -/
def WaitsEnd (st : Nat → UInt8) (p n : Nat) : Prop :=
  ∀ k, k < n → (∀ j, j < k → BlockReady st p j) → ∃ v, BlockStatus st p k v

variable {st : Nat → UInt8} {p q : Nat}

theorem FirstQuiet.unique {r : Nat} (first : FirstQuiet st p q) (other : FirstQuiet st p r) :
    q = r := by
  obtain ⟨low, quiet, before⟩ := first
  obtain ⟨low', quiet', before'⟩ := other
  rcases Nat.lt_trichotomy q r with less | same | more
  · exact absurd quiet (before' q low less)
  · exact same
  · exact absurd quiet' (before r low' more)

theorem blockReady_zero (wait : FirstQuiet st p q) : BlockReady st p 0 ↔ Ready (st (q + 1)) := by
  constructor
  · rintro ⟨v, status, ready⟩
    cases status with
    | here other =>
        rw [wait.unique other]
        exact ready
  · exact fun ready => ⟨_, .here wait, ready⟩

theorem blockReady_succ (wait : FirstQuiet st p q) (k : Nat) :
    BlockReady st p (k + 1) ↔ BlockReady st (q + 2) k := by
  constructor
  · rintro ⟨v, status, ready⟩
    cases status with
    | later other rest =>
        rw [wait.unique other]
        exact ⟨v, rest, ready⟩
  · rintro ⟨v, rest, ready⟩
    exact ⟨v, .later wait rest, ready⟩

theorem WaitsEnd.first {n : Nat} (waits : WaitsEnd st p (n + 1)) : ∃ q, FirstQuiet st p q := by
  obtain ⟨v, status⟩ := waits 0 (Nat.succ_pos n) fun j none => absurd none (Nat.not_lt_zero j)
  cases status with
  | here wait => exact ⟨_, wait⟩

theorem WaitsEnd.rest {n : Nat} (waits : WaitsEnd st p (n + 1)) (wait : FirstQuiet st p q)
    (ready : Ready (st (q + 1))) : WaitsEnd st (q + 2) n := by
  intro k less earlier
  obtain ⟨v, status⟩ := waits (k + 1) (Nat.succ_lt_succ less) fun j before => by
    cases j with
    | zero => exact (blockReady_zero wait).mpr ready
    | succ j => exact (blockReady_succ wait j).mpr (earlier j (Nat.lt_of_succ_lt_succ before))
  cases status with
  | later other rest =>
      rw [wait.unique other]
      exact ⟨v, rest⟩

theorem statusError_zero_iff (v : UInt8) : statusError v = 0 ↔ Ready v := by
  unfold statusError Ready
  split
  · rename_i error
    exact ⟨fun two => absurd two (by decide), fun ready => absurd ready.2.1 error⟩
  · rename_i clear
    split
    · rename_i fault
      exact ⟨fun one => absurd one (by decide), fun ready => absurd ready.2.2 fault⟩
    · rename_i sound
      split
      · rename_i idle
        exact ⟨fun three => absurd three (by decide), fun ready => absurd idle ready.1⟩
      · rename_i asks
        exact ⟨fun _ => ⟨asks, not_not.mp clear, not_not.mp sound⟩, fun _ => rfl⟩

end Stream

section Drive

variable {σ : Type}

/-- Status bytes behind the command block at `base`, and data words on its first port; `taken`
counts the words given so far. -/
structure DriveStream (hw : Bus σ) (base : UInt16) (st : Nat → UInt8) (pos : σ → Nat)
    (data : Nat → UInt16) (taken : σ → Nat) : Prop extends StatusStream hw (base + 7) st pos where
  inw : ∀ p b, pos (hw.inw p b).2 = pos b
  word : ∀ b, (hw.inw base b).1 = data (taken b)
  take : ∀ b, taken (hw.inw base b).2 = taken b + 1
  keepIn : ∀ p b, taken (hw.inb p b).2 = taken b
  keepOut : ∀ p v b, taken (hw.outb p v b) = taken b

/-- The `n` words from position `d` on. -/
def deliveredWords (data : Nat → UInt16) (d n : Nat) : List UInt16 :=
  (List.range n).map fun i => data (d + i)

theorem deliveredWords_add (data : Nat → UInt16) (d m n : Nat) :
    deliveredWords data d (m + n) = deliveredWords data d m ++ deliveredWords data (d + m) n := by
  simp only [deliveredWords, List.range_add, List.map_append, List.map_map]
  congr 1
  apply List.map_congr_left
  intro i _
  rw [Function.comp_apply, Nat.add_assoc]

theorem length_deliveredBytes (data : Nat → UInt16) (d n : Nat) :
    ((deliveredWords data d n).flatMap bytes16).length = 2 * n := by
  induction n with
  | zero => rfl
  | succ n ih =>
      rw [deliveredWords_add, List.flatMap_append, List.length_append, ih]
      rfl

variable {hw : Bus σ} {base : UInt16} {st : Nat → UInt8} {pos : σ → Nat} {data : Nat → UInt16}
  {taken : σ → Nat}

theorem taken_busyReads (stream : DriveStream hw base st pos data taken) (port : UInt16)
    (fuel : Nat) (b : σ) : taken (busyReads hw port fuel b).2.2 = taken b := by
  induction fuel generalizing b with
  | zero => rfl
  | succ fuel ih =>
      rw [busyReads]
      dsimp only
      split
      · exact (ih _).trans (stream.keepIn port b)
      · exact stream.keepIn port b

theorem taken_readMany (stream : DriveStream hw base st pos data taken) (port : UInt16)
    (n : Nat) (b : σ) : taken (readMany hw port n b).2 = taken b := by
  induction n generalizing b with
  | zero => rfl
  | succ n ih => exact (ih (hw.inb port b).2).trans (stream.keepIn port b)

theorem taken_sendBus (stream : DriveStream hw base st pos data taken)
    (writes : List (UInt16 × UInt8)) (b : σ) : taken (sendBus hw writes b) = taken b := by
  induction writes generalizing b with
  | nil => rfl
  | cons w writes ih => exact (ih (hw.outb w.1 w.2 b)).trans (stream.keepOut w.1 w.2 b)

theorem readWords_stream (stream : DriveStream hw base st pos data taken) (n : Nat) (b : σ) :
    (readWords hw base n b).1 = deliveredWords data (taken b) n ∧
      taken (readWords hw base n b).2 = taken b + n ∧
      pos (readWords hw base n b).2 = pos b := by
  induction n generalizing b with
  | zero => exact ⟨rfl, rfl, rfl⟩
  | succ n ih =>
      obtain ⟨words, count, still⟩ := ih (hw.inw base b).2
      rw [stream.take] at words count
      refine ⟨?_, ?_, still.trans (stream.inw base b)⟩
      · rw [readWords, Nat.add_comm n 1, deliveredWords_add]
        dsimp only
        rw [words, stream.word]
        rfl
      · rw [readWords]
        dsimp only
        rw [count]
        omega

/-- What `rep insw` stores are the next words of the stream. -/
theorem repInsw_stream (stream : DriveStream hw base st pos data taken) (n : Nat) (buffer : UInt32)
    (u : IdeState σ) : pos (u.onMachine (repInsw hw base n buffer)).bus = pos u.bus ∧
      taken (u.onMachine (repInsw hw base n buffer)).bus = taken u.bus + n ∧
      (u.onMachine (repInsw hw base n buffer)).mem =
        u.mem.write buffer ((deliveredWords data (taken u.bus) n).flatMap bytes16) := by
  obtain ⟨words, count, still⟩ := readWords_stream stream n u.bus
  rw [onMachine_repInsw, words]
  exact ⟨still, count, rfl⟩

/-- Between the states only byte ports were used, and `p` status bytes have been read. -/
structure StatusTaken (pos taken : σ → Nat) (t u : IdeState σ) (p : Nat) : Prop where
  pos : pos u.bus = p
  taken : taken u.bus = taken t.bus
  mem : u.mem = t.mem
  channels : u.channels = t.channels

/-- A busy wait ends on the first byte without BSY. -/
theorem busyReads_first (stream : DriveStream hw base st pos data taken) {fuel p q : Nat} {b : σ}
    (start : pos b = p) (wait : FirstQuiet st p q) (enough : q < fuel) :
    (busyReads hw (base + 7) fuel b).1 = true ∧
      pos (busyReads hw (base + 7) fuel b).2.2 = q + 1 := by
  obtain ⟨i, busy, low, before, quiet, _, ended, _, next⟩ :=
    busyReads_stream stream.toStatusStream fuel b wait.2.1 (start ▸ wait.1)
      (Nat.lt_add_left _ enough)
  rw [start] at low before
  rw [wait.unique ⟨low, quiet, before⟩]
  exact ⟨ended, next⟩

theorem waitWhileBusy_first (stream : DriveStream hw base st pos data taken) {fuel p q : Nat}
    {channel : UInt8} {t : IdeState σ} (hb : (t.channels channel.toNat).base = base)
    (start : pos t.bus = p) (wait : FirstQuiet st p q) (enough : q < fuel) :
    Returns (waitWhileBusy hw channel fuel) t fun _ u => StatusTaken pos taken t u (q + 1) := by
  obtain ⟨ended, next⟩ := busyReads_first stream start wait enough
  have run := waitWhileBusy_run hw channel fuel t (congrArg (· + 7) hb)
  rw [ended, if_pos rfl] at run
  exact ⟨(), _, run, next, taken_busyReads stream _ fuel t.bus, rfl, rfl⟩

/-- The verdict of a checked poll is that of the byte read next. -/
theorem idePolling_judges (stream : DriveStream hw base st pos data taken) {fuel p q : Nat}
    {channel : UInt8} {t : IdeState σ} (hb : (t.channels channel.toNat).base = base)
    (apart : (t.channels channel.toNat).control + 2 ≠ base + 7)
    (start : pos t.bus = p) (wait : FirstQuiet st p q) (enough : q < fuel) :
    Returns (idePolling hw fuel channel 1) t fun e u =>
      e = statusError (st (q + 1)) ∧ StatusTaken pos taken t u (q + 2) := by
  have still : pos (readMany hw ((t.channels channel.toNat).control + 2) 4 t.bus).2 = p :=
    (pos_readMany stream.toStatusStream apart 4 t.bus).trans start
  obtain ⟨ended, next⟩ := busyReads_first stream still wait enough
  have run := idePolling_checked hw (congrArg (· + 7) hb) rfl ended
  have count : pos (polled hw (base + 7) ((t.channels channel.toNat).control + 2) fuel t).bus =
      q + 1 := next
  have words : taken (polled hw (base + 7) ((t.channels channel.toNat).control + 2) fuel t).bus =
      taken t.bus := (taken_busyReads stream _ _ _).trans (taken_readMany stream _ _ _)
  refine ⟨_, _, run, ?_, ?_, (stream.keepIn _ _).trans words, rfl, rfl⟩
  · rw [stream.answer, count]
  · exact (stream.next _).trans (congrArg (· + 1) count)

/-- The loop of the read stops in front of the first block that is not ready, with the words
of the blocks before it stored one behind the other. -/
structure ReadResult (st : Nat → UInt8) (p : Nat) (data : Nat → UInt16) (d : Nat) (n : Nat)
    (buffer : UInt32) (t : IdeState σ) (e : UInt8) (u : IdeState σ) (k : Nat) : Prop where
  few : k ≤ n
  ready : ∀ j, j < k → BlockReady st p j
  stops : k < n → ¬BlockReady st p k
  code : e = 0 ↔ k = n
  mem : u.mem = t.mem.write buffer ((deliveredWords data d (256 * k)).flatMap bytes16)

theorem ReadResult.next {n k d : Nat} {buffer : UInt32} {t u v : IdeState σ} {e : UInt8}
    (wait : FirstQuiet st p q) (ready : Ready (st (q + 1)))
    (stored : u.mem = t.mem.write buffer ((deliveredWords data d 256).flatMap bytes16))
    (rest : ReadResult st (q + 2) data (d + 256) n (buffer + 512) u e v k) :
    ReadResult st p data d (n + 1) buffer t e v (k + 1) := by
  refine ⟨Nat.succ_le_succ rest.few, fun j before => ?_, fun less => ?_, ?_, ?_⟩
  · cases j with
    | zero => exact (blockReady_zero wait).mpr ready
    | succ j => exact (blockReady_succ wait j).mpr (rest.ready j (Nat.lt_of_succ_lt_succ before))
  · rw [blockReady_succ wait]
    exact rest.stops (Nat.lt_of_succ_lt_succ less)
  · rw [rest.code]
    omega
  · have block : UInt32.ofNat (2 * 256) = 512 := by decide
    rw [rest.mem, stored, Nat.mul_succ, Nat.add_comm (256 * k), deliveredWords_add, List.flatMap_append,
      Mem.write_append, length_deliveredBytes, block]

/-- With fuel for the waits, the loop returns from every state at position `p` of the status. -/
theorem idePioRead_result (stream : DriveStream hw base st pos data taken) (n : Nat)
    (waits : WaitsEnd st p n) : ∃ N, ∀ fuel, N ≤ fuel → ∀ (channel : UInt8) (buffer : UInt32)
      (t : IdeState σ), (t.channels channel.toNat).base = base →
      (t.channels channel.toNat).control + 2 ≠ base + 7 → pos t.bus = p →
      Returns (idePioRead hw fuel channel base n buffer) t fun e u =>
        ∃ k, ReadResult st p data (taken t.bus) n buffer t e u k := by
  induction n generalizing p with
  | zero =>
      refine ⟨0, fun fuel _ channel buffer t _ _ _ => Returns.pure ⟨0, Nat.le_refl 0, ?_, ?_, ?_, rfl⟩⟩
      · exact fun j none => absurd none (Nat.not_lt_zero j)
      · exact fun none => absurd none (Nat.lt_irrefl 0)
      · exact ⟨fun _ => rfl, fun _ => rfl⟩
  | succ n ih =>
      obtain ⟨q, wait⟩ := waits.first
      have judge : ∀ fuel, q < fuel → ∀ (channel : UInt8) (t : IdeState σ),
          (t.channels channel.toNat).base = base →
          (t.channels channel.toNat).control + 2 ≠ base + 7 → pos t.bus = p →
          Returns (idePolling hw fuel channel 1) t fun e u =>
            e = statusError (st (q + 1)) ∧ StatusTaken pos taken t u (q + 2) :=
        fun fuel enough channel t hb apart start =>
          idePolling_judges stream hb apart start wait enough
      by_cases ready : Ready (st (q + 1))
      · obtain ⟨N, later⟩ := ih (waits.rest wait ready)
        refine ⟨max N (q + 1), fun fuel enough channel buffer t hb apart start => ?_⟩
        refine (judge fuel (by omega) channel t hb apart start).bind ?_
        rintro e u ⟨rfl, polled⟩
        rw [if_neg (not_not.mpr ((statusError_zero_iff _).mpr ready))]
        obtain ⟨still, count, stored⟩ := repInsw_stream stream 256 buffer u
        refine Returns.modify ((later fuel (by omega) channel (buffer + 512) _ ?_ ?_ ?_).mono ?_)
        · rw [onMachine_channels, polled.channels]
          exact hb
        · rw [onMachine_channels, polled.channels]
          exact apart
        · exact still.trans polled.pos
        · rintro e v ⟨k, result⟩
          rw [count, polled.taken] at result
          rw [polled.taken, polled.mem] at stored
          exact ⟨k + 1, result.next wait ready stored⟩
      · refine ⟨q + 1, fun fuel enough channel buffer t hb apart start => ?_⟩
        refine (judge fuel enough channel t hb apart start).bind ?_
        rintro e u ⟨rfl, polled⟩
        have error : statusError (st (q + 1)) ≠ 0 := fun zero =>
          ready ((statusError_zero_iff _).mp zero)
        rw [if_pos error]
        refine Returns.pure ⟨0, Nat.zero_le _, ?_, ?_, ?_, polled.mem⟩
        · exact fun j none => absurd none (Nat.not_lt_zero j)
        · exact fun _ block => ready ((blockReady_zero wait).mp block)
        · exact ⟨fun zero => absurd zero error, fun none => absurd none (Nat.succ_ne_zero n).symm⟩

end Drive

section Report

variable {σ : Type} {hw : Bus σ} {st : Nat → UInt8} {pos : σ → Nat} {data : Nat → UInt16}
  {taken : σ → Nat} {ch : IdeChannel} {q : Nat} {s : IdeState σ} {device : IdeDevice}

/-- The bytes from `buffer` on are the words of `k` blocks, and what follows is unchanged. -/
structure BufferHolds (data : Nat → UInt16) (d k : Nat) (buffer : UInt32) (s t : IdeState σ) :
    Prop where
  words : (List.range (512 * k)).map (t.mem.view buffer) =
    (deliveredWords data d (256 * k)).flatMap bytes16
  kept : ∀ i, 512 * k ≤ i → i < 2 ^ 32 → t.mem.view buffer i = s.mem.view buffer i

theorem bufferHolds_of_write {d k : Nat} {buffer : UInt32} {t : IdeState σ} (few : k < 256)
    (stored : t.mem = s.mem.write buffer ((deliveredWords data d (256 * k)).flatMap bytes16)) :
    BufferHolds data d k buffer s t := by
  have length : ((deliveredWords data d (256 * k)).flatMap bytes16).length = 512 * k := by
    rw [length_deliveredBytes]
    omega
  constructor
  · rw [stored, ← length]
    exact Mem.map_view_write _ _ (by omega)
  · intro i behind small
    rw [stored]
    exact Mem.view_write_behind _ _ (by omega) small

theorem ideAtaAccess_reads (stream : DriveStream hw ch.base st pos data taken)
    (apart : ch.control + 2 ≠ ch.base + 7) {drive numSectors : UInt8} (lba buffer : UInt32)
    (found : s.devices drive.toNat = device) (here : s.channels device.channel.toNat = ch)
    (first : FirstQuiet st (pos s.bus) q) (waits : WaitsEnd st (q + 1) numSectors.toNat) :
    ∃ N, ∀ fuel, N ≤ fuel →
      Returns (ideAtaAccess hw fuel .read drive lba numSectors buffer) s fun e t =>
        ∃ k, ReadResult st (q + 1) data (taken s.bus) numSectors.toNat buffer s e t k := by
  obtain ⟨N, loop⟩ := idePioRead_result stream numSectors.toNat waits
  refine ⟨max N (q + 1), fun fuel enough => ?_⟩
  have started := accessStarted_eq hw device.channel s here
  have channel := accessStarted_channel hw device.channel s here
  have wait : Returns (waitWhileBusy hw device.channel fuel) (accessStarted hw device.channel s)
      fun _ u => StatusTaken pos taken (accessStarted hw device.channel s) u (q + 1) :=
    waitWhileBusy_first stream (by rw [channel])
      (by rw [started, IdeState.after_bus, stream.outb]) first (by omega)
  obtain ⟨_, t, ran, waited⟩ := wait
  have own : t.channels device.channel.toNat = { ch with noIntr := 2 } := by
    rw [waited.channels, channel]
  obtain ⟨e, u, transferred, k, result⟩ := loop fuel (by omega) device.channel buffer
    (commanded hw device .read lba numSectors t)
    (by rw [commanded, IdeState.after_channels, own])
    (by rw [commanded, IdeState.after_channels, own]; exact apart)
    ((pos_sendBus stream.toStatusStream _ _).trans waited.pos)
  refine ⟨e, u, ?_, k, ?_⟩
  · have run := ideAtaAccess_run hw fuel .read drive lba numSectors buffer s
    simp only [found, here, ran, Exec.andThen_some] at run
    rw [run]
    exact transferred
  · have words : taken (commanded hw device .read lba numSectors t).bus = taken s.bus := by
      rw [commanded, IdeState.after_bus, taken_sendBus stream, waited.taken, started,
        IdeState.after_bus, stream.keepOut]
    have memory : (commanded hw device .read lba numSectors t).mem = s.mem := by
      rw [commanded, IdeState.after_mem, waited.mem, started]
      rfl
    rw [words] at result
    exact ⟨result.few, result.ready, result.stops, result.code, memory ▸ result.mem⟩

/-- A read of an ATA drive returns 0 exactly when every block was ready, with all its words in
the buffer; otherwise the buffer holds the blocks before the first that was not, and nothing
behind them is changed. -/
theorem ideReadSectors_exact (stream : DriveStream hw ch.base st pos data taken)
    (apart : ch.control + 2 ≠ ch.base + 7) {drive numSectors : UInt8} {lba buffer : UInt32}
    (found : s.devices drive.toNat = device) (here : s.channels device.channel.toNat = ch)
    (passed : sectorCheck s.devices drive numSectors lba = .passed) (ata : device.type = ideAta)
    (first : FirstQuiet st (pos s.bus) q) (waits : WaitsEnd st (q + 1) numSectors.toNat)
    (err : UInt8) :
    ∃ N, ∀ fuel, N ≤ fuel → ∃ code t,
      (ideReadSectors hw fuel err drive numSectors lba buffer).run s = (some code, t) ∧
      (code = 0 ↔ ∀ k, k < numSectors.toNat → BlockReady st (q + 1) k) ∧
      (code = 0 → BufferHolds data (taken s.bus) numSectors.toNat buffer s t) ∧
      ∀ k, k < numSectors.toNat → (∀ j, j < k → BlockReady st (q + 1) j) →
        ¬BlockReady st (q + 1) k → code ≠ 0 ∧ BufferHolds data (taken s.bus) k buffer s t := by
  obtain ⟨N, access⟩ := ideAtaAccess_reads stream apart lba buffer found here first waits
  refine ⟨N, fun fuel enough => ?_⟩
  obtain ⟨e, u, ran, k, result⟩ := access fuel enough
  obtain ⟨b, tr, calls, printed, _⟩ := idePrintError_reports hw drive e u
  have small := numSectors.toNat_lt
  have few := result.few
  have zero : ((idePrintError hw drive e u).1.toNat : Int) = 0 ↔ k = numSectors.toNat := by
    rw [← result.code, ← idePrintError_zero hw drive e u, Int.natCast_eq_zero]
    exact UInt8.toNat_inj (b := 0)
  have memory : (idePrintError hw drive e u).2.mem = s.mem.write buffer
      ((deliveredWords data (taken s.bus) (256 * k)).flatMap bytes16) := by
    rw [printed]
    exact result.mem
  have holds := bufferHolds_of_write (by omega) memory
  refine ⟨(idePrintError hw drive e u).1.toNat, (idePrintError hw drive e u).2, ?_,
    zero.trans ⟨?_, ?_⟩, fun success => ?_, ?_⟩
  · rw [ideReadSectors, ideSectors_ata hw fuel .read passed (found ▸ ata), ran]
    rfl
  · rintro rfl j less
    exact result.ready j less
  · intro all
    by_contra stopped
    exact result.stops (by omega) (all k (by omega))
  · rw [← zero.mp success]
    exact holds
  · intro j less before stopped
    have same : j = k := by
      rcases Nat.lt_trichotomy j k with early | same | late
      · exact absurd (result.ready j early) stopped
      · exact same
      · exact absurd (before k late) (result.stops (by omega))
    rw [same]
    exact ⟨fun success => by have := zero.mp success; omega, holds⟩

end Report

section Streams

/-- A drive that answers `st` on its status port and `data` on its data port. -/
def streamDrive (base : UInt16) (st : Nat → UInt8) (data : Nat → UInt16) : Bus (Nat × Nat) where
  inb p b := if p = base + 7 then (st b.1, (b.1 + 1, b.2)) else (0, b)
  inw p b := if p = base then (data b.2, (b.1, b.2 + 1)) else (0, b)
  inl _ b := (0, b)
  outb _ _ b := b
  outw _ _ b := b

/-- Every pair of streams is one some drive delivers. -/
theorem streamDrive_stream (base : UInt16) (st : Nat → UInt8) (data : Nat → UInt16) :
    DriveStream (streamDrive base st data) base st Prod.fst data Prod.snd where
  answer b := by simp [streamDrive]
  next b := by simp [streamDrive]
  inb p b apart := by simp [streamDrive, apart]
  outb _ _ _ := rfl
  outw _ _ _ := rfl
  inw p b := by by_cases here : p = base <;> simp [streamDrive, here]
  word b := by simp [streamDrive]
  take b := by simp [streamDrive]
  keepIn p b := by by_cases here : p = base + 7 <;> simp [streamDrive, here]
  keepOut _ _ _ := rfl

theorem steady_blocks {v : UInt8} (quiet : Quiet v) (p k : Nat) :
    BlockStatus (fun _ => v) p k v := by
  have wait : ∀ p, FirstQuiet (fun _ => v) p p := fun p =>
    ⟨Nat.le_refl p, quiet, fun l low high => absurd high (Nat.not_lt_of_le low)⟩
  induction k generalizing p with
  | zero => exact .here (wait p)
  | succ k ih => exact .later (wait p) (ih (p + 2))

/-- A drive that is always ready delivers all blocks of a request. -/
theorem ideReadSectors_exact_ready : ∃ N, ∀ fuel, N ≤ fuel → ∃ code t,
    (ideReadSectors (streamDrive 0x1F0 (fun _ => 0x58) fun i => UInt16.ofNat i) fuel 0 0 2 0
        0x2000).run (foundState (0, 0) (primaryMaster 8)) = (some code, t) ∧
      (code = 0 ↔ ∀ k, k < 2 → BlockReady (fun _ => 0x58) 1 k) ∧
      (code = 0 → BufferHolds (fun i => UInt16.ofNat i) 0 2 0x2000
        (foundState (0, 0) (primaryMaster 8)) t) ∧
      ∀ k, k < 2 → (∀ j, j < k → BlockReady (fun _ => 0x58) 1 j) →
        ¬BlockReady (fun _ => 0x58) 1 k → code ≠ 0 ∧ BufferHolds (fun i => UInt16.ofNat i) 0 k
          0x2000 (foundState (0, 0) (primaryMaster 8)) t :=
  @ideReadSectors_exact _ _ _ _ _ _ ⟨0x1F0, 0x3F6, 0, 0⟩ 0 _ (primaryMaster 8)
    (streamDrive_stream 0x1F0 (fun _ => 0x58) fun i => UInt16.ofNat i) (by decide) _ _ _ _ rfl rfl
    (by decide) rfl ⟨Nat.le_refl 0, by decide, fun l _ none => absurd none (Nat.not_lt_zero l)⟩
    (fun k _ _ => ⟨0x58, steady_blocks (by decide) 1 k⟩) 0

end Streams

end VDK
