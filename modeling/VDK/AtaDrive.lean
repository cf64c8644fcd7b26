import VDK.SectorDisk
import VDK.LbaCommands

/-!
# An ATA drive behind its command block

The drive decodes its task file at each command and moves sectors a word at a time. Behind
every command and every sector it is busy for a while of its own choosing, and then only
answers reads of its status. What it receives stays in a write cache until a flush has ended.
It stands for the hardware: nothing here is driver code. `ataDrive_working` connects it to
`WorkingDrive` through the driver's own accesses.
-/
namespace VDK
open Fuel ByteMem

/-- `dataIn` holds the words still to be delivered, `dataOut` the sector being
received, the sectors left and the words received so far. -/
inductive DrivePhase where
  | idle
  | dataIn (words : List UInt16)
  | dataOut (lba left : Nat) (received : List UInt16)
  | flushing
  | failed

/-- What a drive is busy with: a command, or a sector with this many sectors behind it. -/
inductive DriveEvent where
  | command (code : UInt8)
  | sector (left : Nat)

/-- `sectors` is what reads deliver. Without power the drive keeps `medium`; `cached` are the
sectors received since the last flush, the oldest first. -/
structure DriveState where
  file : TaskFile
  phase : DrivePhase
  busy : Nat
  events : Nat
  sectors : Disk
  medium : Disk
  cached : List (Nat × Sector)

def DrivePhase.reading : List UInt16 → DrivePhase
  | [] => .idle
  | w :: words => .dataIn (w :: words)

/-- A write with this many whole sectors left. -/
def DrivePhase.writing (lba : Nat) : Nat → DrivePhase
  | 0 => .idle
  | left + 1 => .dataOut lba (left + 1) []

namespace DriveState

def status (d : DriveState) : UInt8 :=
  if d.busy ≠ 0 then 0x80
  else match d.phase with
    | .dataIn _ => 0x58
    | .dataOut _ _ _ => 0x58
    | .failed => 0x51
    | _ => 0x50

def pause (delay : DriveEvent → Nat → Nat) (event : DriveEvent) (d : DriveState) : DriveState :=
  { d with busy := delay event d.events, events := d.events + 1 }

/-- A flush ends when it is found to have ended. -/
def settled (d : DriveState) : DriveState :=
  match d.phase with
  | .flushing => { d with phase := .idle, medium := d.sectors, cached := [] }
  | _ => d

def tick (d : DriveState) : DriveState :=
  if d.busy = 0 then d.settled else { d with busy := d.busy - 1 }

/-- When it is no longer busy. -/
def rested (d : DriveState) : DriveState := { d with busy := 0 }.settled

/-- The phase a command leads to. CHS addresses and sectors that the command cannot count up to
are refused. -/
def decode (d : DriveState) (code : UInt8) : DrivePhase :=
  if code = 0xE7 ∨ code = 0xEA then .flushing
  else if d.file.lbaSelected = true ∧
      d.file.start code + d.file.count code ≤ TaskFile.space code then
    if code = 0x20 ∨ code = 0x24 then
      .reading ((d.sectors.load (d.file.start code) (d.file.count code)).flatMap Sector.words)
    else if code = 0x30 ∨ code = 0x34 then .writing (d.file.start code) (d.file.count code)
    else .failed
  else .failed

/-- A byte written to a port. A busy drive takes none, and a command may be another drive's. -/
def write (delay : DriveEvent → Nat → Nat) (base : UInt16) (position : Nat) (port : UInt16)
    (v : UInt8) (d : DriveState) : DriveState :=
  if d.busy ≠ 0 then d
  else if port = base + 7 then
    if d.file.driveSelected = position then
      { d with phase := d.decode v }.pause delay (.command v)
    else d
  else { d with file := d.file.write base port v }

/-- A word of a write; the 256th stores the sector. -/
def receive (delay : DriveEvent → Nat → Nat) (d : DriveState) (w : UInt16) : DriveState :=
  if d.busy ≠ 0 then d
  else match d.phase with
    | .dataOut lba left received =>
        if full : (received ++ [w]).length = 256 then
          let x := Sector.ofWords (received ++ [w]) full
          { d with
            sectors := Function.update d.sectors lba x
            cached := d.cached ++ [(lba, x)]
            phase := .writing (lba + 1) (left - 1) }.pause delay (.sector (left - 1))
        else { d with phase := .dataOut lba left (received ++ [w]) }
    | _ => d

def deliver (delay : DriveEvent → Nat → Nat) (d : DriveState) : UInt16 × DriveState :=
  if d.busy ≠ 0 then (0, d)
  else match d.phase with
    | .dataIn (w :: words) =>
        let e := { d with phase := .reading words }
        (w, if words.length % 256 = 0 then e.pause delay (.sector (words.length / 256)) else e)
    | _ => (0, d)

/-- Nothing is lost with the power. -/
structure Synced (d : DriveState) : Prop where
  medium : d.medium = d.sectors
  cached : d.cached = []

end DriveState

/-- The bus of one drive with its command block at `base`; its `n`th event keeps it busy for
as many status reads as `delay` says. -/
def ataDrive (base : UInt16) (position : Nat) (delay : DriveEvent → Nat → Nat) :
    Bus DriveState where
  inb p d := if p = base + 7 then (d.status, d.tick) else (0, d)
  inw p d := if p = base then d.deliver delay else (0, d)
  inl _ d := (0, d)
  outb p v d := d.write delay base position p v
  outw p w d := if p = base then d.receive delay w else d

section Kept

/-- From `d` to `e` no sector was stored, and nothing flushed or everything. -/
structure Kept (d e : DriveState) : Prop where
  sectors : e.sectors = d.sectors
  flushed : e.medium = d.medium ∧ e.cached = d.cached ∨ e.medium = d.sectors ∧ e.cached = []

instance : IsPreorder DriveState Kept where
  refl _ := ⟨rfl, Or.inl ⟨rfl, rfl⟩⟩
  trans _ _ _ := by
    rintro ⟨sectors, flushed⟩ ⟨sectors', ⟨medium, cached⟩ | ⟨medium, cached⟩⟩
    · rw [← medium, ← cached] at flushed
      exact ⟨sectors'.trans sectors, flushed⟩
    · exact ⟨sectors'.trans sectors, Or.inr ⟨medium.trans sectors, cached⟩⟩

variable {base : UInt16} {position : Nat} {delay : DriveEvent → Nat → Nat}

theorem kept_of_same {d e : DriveState} (sectors : e.sectors = d.sectors)
    (medium : e.medium = d.medium) (cached : e.cached = d.cached) : Kept d e :=
  ⟨sectors, Or.inl ⟨medium, cached⟩⟩

theorem DriveState.Synced.kept {d e : DriveState} (h : d.Synced) (kept : Kept d e) : e.Synced := by
  obtain ⟨sectors, ⟨medium, cached⟩ | ⟨medium, cached⟩⟩ := kept
  · exact ⟨by rw [medium, sectors, h.medium], by rw [cached, h.cached]⟩
  · exact ⟨by rw [medium, sectors], cached⟩

theorem settled_kept (d : DriveState) : Kept d d.settled := by
  unfold DriveState.settled
  split
  · exact ⟨rfl, Or.inr ⟨rfl, rfl⟩⟩
  · exact refl_of Kept d

theorem rested_kept (d : DriveState) : Kept d d.rested := by
  have idle : Kept d { d with busy := 0 } := kept_of_same rfl rfl rfl
  exact trans_of Kept idle (settled_kept { d with busy := 0 })

theorem tick_kept (d : DriveState) : Kept d d.tick := by
  unfold DriveState.tick
  split
  · exact settled_kept d
  · exact kept_of_same rfl rfl rfl

theorem write_kept (port : UInt16) (v : UInt8) (d : DriveState) :
    Kept d (d.write delay base position port v) := by
  unfold DriveState.write
  split
  · exact refl_of Kept d
  split
  · split
    · exact kept_of_same rfl rfl rfl
    · exact refl_of Kept d
  · exact kept_of_same rfl rfl rfl

theorem deliver_kept (d : DriveState) : Kept d (d.deliver delay).2 := by
  unfold DriveState.deliver
  split
  · exact refl_of Kept d
  split
  · dsimp only
    split
    · exact kept_of_same rfl rfl rfl
    · exact kept_of_same rfl rfl rfl
  · exact refl_of Kept d

end Kept

section Drive

variable {base : UInt16} {position : Nat} {delay : DriveEvent → Nat → Nat}

theorem writing_apart (lba n : Nat) : DrivePhase.writing lba n ≠ .flushing := by
  cases n with
  | zero => exact DrivePhase.noConfusion
  | succ n => exact DrivePhase.noConfusion

theorem settled_apart {d : DriveState} (apart : d.phase ≠ .flushing) : d.settled = d := by
  unfold DriveState.settled
  split
  · exact absurd ‹_› apart
  · rfl

theorem rested_apart {d : DriveState} (apart : d.phase ≠ .flushing) :
    d.rested = { d with busy := 0 } := settled_apart apart

theorem rested_busy (d : DriveState) : d.rested.busy = 0 := by
  unfold DriveState.rested DriveState.settled
  split
  · rfl
  · rfl

theorem status_quiet {d : DriveState} (h : d.busy = 0) : d.status &&& ataSrBsy = 0 := by
  have resting : (0x50 : UInt8) &&& ataSrBsy = 0 := by decide
  have moving : (0x58 : UInt8) &&& ataSrBsy = 0 := by decide
  have refusing : (0x51 : UInt8) &&& ataSrBsy = 0 := by decide
  rw [DriveState.status, if_neg (not_not.mpr h)]
  cases d.phase with
  | idle => exact resting
  | dataIn words => exact moving
  | dataOut lba left received => exact moving
  | flushing => exact resting
  | failed => exact refusing

/-- A wait runs the busy count down and nothing else, when the fuel lasts. -/
theorem busyReads_drive (fuel : Nat) (d : DriveState) (enough : d.busy < fuel) :
    busyReads (ataDrive base position delay) (base + 7) fuel d =
      (true, List.replicate d.busy 0x80 ++ [{ d with busy := 0 }.status], d.rested) := by
  induction fuel generalizing d with
  | zero => exact absurd enough (Nat.not_lt_zero _)
  | succ fuel ih =>
      have read : (ataDrive base position delay).inb (base + 7) d = (d.status, d.tick) := if_pos rfl
      rw [busyReads, read]
      cases hb : d.busy with
      | zero =>
          have same : { d with busy := 0 } = d := by rw [← hb]
          have rests : d.tick = d.rested := by rw [DriveState.tick, if_pos hb, DriveState.rested, same]
          simp only [status_quiet hb, ne_eq, not_true_eq_false, if_false, rests, same]
          rfl
      | succ k =>
          have busy : d.status = 0x80 := by rw [DriveState.status, if_pos (by omega)]
          have ticks : d.tick = { d with busy := k } := by
            rw [DriveState.tick, if_neg (by omega), hb]
            rfl
          have more := ih { d with busy := k } (by dsimp only; omega)
          have loud : (0x80 : UInt8) &&& ataSrBsy ≠ 0 := by decide
          simp only [busy, if_pos loud, ticks, more]
          rfl

theorem busyReads_endless (fuel : Nat) (d : DriveState) (short : fuel ≤ d.busy) :
    (busyReads (ataDrive base position delay) (base + 7) fuel d).1 = false := by
  induction fuel generalizing d with
  | zero => rfl
  | succ fuel ih =>
      have read : (ataDrive base position delay).inb (base + 7) d = (d.status, d.tick) := if_pos rfl
      have busy : d.status = 0x80 := by rw [DriveState.status, if_pos (by omega)]
      have ticks : d.tick = { d with busy := d.busy - 1 } := if_neg (by omega)
      have loud : (0x80 : UInt8) &&& ataSrBsy ≠ 0 := by decide
      rw [busyReads, read]
      simp only [busy, if_pos loud, ticks]
      exact ih _ (by dsimp only; omega)

theorem busyReads_ended {fuel : Nat} {d : DriveState}
    (ended : (busyReads (ataDrive base position delay) (base + 7) fuel d).1 = true) :
    (busyReads (ataDrive base position delay) (base + 7) fuel d).2.2 = d.rested := by
  by_cases enough : d.busy < fuel
  · rw [busyReads_drive fuel d enough]
  · rw [busyReads_endless fuel d (Nat.not_lt.mp enough)] at ended
    cases ended

theorem readMany_elsewhere {port : UInt16} (apart : port ≠ base + 7) (n : Nat) (d : DriveState) :
    (readMany (ataDrive base position delay) port n d).2 = d := by
  induction n generalizing d with
  | zero => rfl
  | succ n ih =>
      have read : (ataDrive base position delay).inb port d = (0, d) := if_neg apart
      rw [readMany, read]
      exact ih d

theorem sendBus_parameters {writes : List (UInt16 × UInt8)}
    (none : ∀ w ∈ writes, w.1 ≠ base + 7) (d : DriveState) (idle : d.busy = 0) :
    sendBus (ataDrive base position delay) writes d =
      { d with file := writeAll base writes d.file } := by
  induction writes generalizing d with
  | nil => rfl
  | cons w writes ih =>
      have step : (ataDrive base position delay).outb w.1 w.2 d =
          { d with file := d.file.write base w.1 w.2 } :=
        (if_neg (not_not.mpr idle)).trans (if_neg (none w List.mem_cons_self))
      rw [sendBus, List.foldl_cons, step]
      exact ih (fun x hx => none x (List.mem_cons_of_mem w hx)) _ idle

theorem sendBus_append {σ : Type} (hw : Bus σ) (first second : List (UInt16 × UInt8)) (b : σ) :
    sendBus hw (first ++ second) b = sendBus hw second (sendBus hw first b) :=
  List.foldl_append

theorem deliver_dataIn {d : DriveState} {w : UInt16} {words : List UInt16} (idle : d.busy = 0)
    (phase : d.phase = .dataIn (w :: words)) :
    d.deliver delay = (w, if words.length % 256 = 0 then
      { d with phase := .reading words }.pause delay (.sector (words.length / 256))
      else { d with phase := .reading words }) := by
  rw [DriveState.deliver, if_neg (not_not.mpr idle), phase]

theorem readWords_drive (words rest : List UInt16) (nonempty : words ≠ [])
    (short : words.length ≤ 256) (whole : rest.length % 256 = 0) (d : DriveState)
    (idle : d.busy = 0) (phase : d.phase = .reading (words ++ rest)) :
    readWords (ataDrive base position delay) base words.length d =
      (words, { d with phase := .reading rest }.pause delay (.sector (rest.length / 256))) := by
  induction words generalizing d with
  | nil => exact absurd rfl nonempty
  | cons w words ih =>
      have read : (ataDrive base position delay).inw base d = d.deliver delay := if_pos rfl
      have first : d.deliver delay = (w, if (words ++ rest).length % 256 = 0 then
          { d with phase := .reading (words ++ rest) }.pause delay
            (.sector ((words ++ rest).length / 256))
          else { d with phase := .reading (words ++ rest) }) := deliver_dataIn idle phase
      rw [List.length_cons, readWords, read, first]
      cases words with
      | nil =>
          rw [List.nil_append, if_pos whole]
          rfl
      | cons x words =>
          have inside : ¬ ((x :: words) ++ rest).length % 256 = 0 := by
            rw [List.length_append, List.length_cons]
            rw [List.length_cons, List.length_cons] at short
            omega
          dsimp only
          rw [if_neg inside, ih (List.cons_ne_nil _ _) (Nat.le_of_succ_le short)
            { d with phase := .reading ((x :: words) ++ rest) } idle rfl]

theorem length_flatMap_words (sectors : List Sector) :
    (sectors.flatMap Sector.words).length % 256 = 0 := by
  induction sectors with
  | nil => rfl
  | cons x xs ih =>
      rw [List.flatMap_cons, List.length_append, x.length_words]
      omega

theorem writeWords_drive (words received : List UInt16) (nonempty : words ≠ []) (lba left : Nat)
    (full : (received ++ words).length = 256) (d : DriveState) (idle : d.busy = 0)
    (phase : d.phase = .dataOut lba (left + 1) received) :
    writeWords (ataDrive base position delay) base words d =
      { d with
        phase := .writing (lba + 1) left
        sectors := Function.update d.sectors lba (Sector.ofWords (received ++ words) full)
        cached := d.cached ++ [(lba, Sector.ofWords (received ++ words) full)] }.pause delay
          (.sector left) := by
  induction words generalizing d received with
  | nil => exact absurd rfl nonempty
  | cons w words ih =>
      have step : (ataDrive base position delay).outw base w d = d.receive delay w := if_pos rfl
      rw [writeWords, step]
      cases words with
      | nil =>
          rw [DriveState.receive, if_neg (not_not.mpr idle), phase]
          dsimp only
          rw [dif_pos full]
          rfl
      | cons x words =>
          have short : (received ++ [w]).length ≠ 256 := by
            simp only [List.length_append, List.length_cons, List.length_nil] at full ⊢
            omega
          have whole : received ++ [w] ++ x :: words = received ++ w :: x :: words := by simp
          have rest := ih (received ++ [w]) (by simp) (whole ▸ full)
            { d with phase := .dataOut lba (left + 1) (received ++ [w]) } idle rfl
          have more : d.receive delay w =
              { d with phase := .dataOut lba (left + 1) (received ++ [w]) } := by
            rw [DriveState.receive, if_neg (not_not.mpr idle), phase]
            dsimp only
            rw [dif_neg short]
          rw [more, rest]
          simp only [whole]

end Drive

section Settling

variable {base control : UInt16} (position : Nat) (delay : DriveEvent → Nat → Nat)
  {channel : UInt8} {s : IdeState DriveState}

/-- From `s` to `t` the drive came to rest, and the log grew. -/
structure Waited (s t : IdeState DriveState) : Prop where
  bus : t.bus = s.bus.rested
  mem : t.mem = s.mem
  channels : t.channels = s.channels
  devices : t.devices = s.devices

theorem settles_wait (hb : (s.channels channel.toNat).base = base) :
    ∃ t, Settles (fun fuel => waitWhileBusy (ataDrive base position delay) channel fuel) s () t ∧
      Waited s t := by
  refine ⟨s.after s.bus.rested ((List.replicate s.bus.busy 0x80 ++
    [{ s.bus with busy := 0 }.status]).map (Access.inb (base + 7))),
    ⟨s.bus.busy + 1, fun fuel enough => ?_⟩, rfl, rfl, rfl, rfl⟩
  rw [waitWhileBusy_run _ channel fuel s (congrArg (· + 7) hb),
    busyReads_drive fuel s.bus enough, if_pos rfl]

variable (hb : (s.channels channel.toNat).base = base)
  (hc : (s.channels channel.toNat).control + 2 = control) (apart : control ≠ base + 7)

section

include apart

theorem pollReads_drive {fuel : Nat} (enough : s.bus.busy < fuel) :
    pollReads (ataDrive base position delay) (base + 7) control fuel s.bus =
      (true, List.replicate s.bus.busy 0x80 ++ [{ s.bus with busy := 0 }.status],
        s.bus.rested) := by
  rw [pollReads, readMany_elsewhere apart, busyReads_drive fuel s.bus enough]

theorem polled_drive {fuel : Nat} (enough : s.bus.busy < fuel) :
    polled (ataDrive base position delay) (base + 7) control fuel s =
      s.after s.bus.rested
        (pollTrace (ataDrive base position delay) (base + 7) control (s.bus.busy + 1) s.bus) := by
  rw [polled, pollTrace, pollTrace, pollReads_drive position delay apart enough,
    pollReads_drive position delay apart (Nat.lt_succ_self _)]

end

include hb hc apart

theorem settles_poll :
    ∃ t, Settles (fun fuel => idePolling (ataDrive base position delay) fuel channel 0) s 0 t ∧
      Waited s t := by
  refine ⟨s.after s.bus.rested (pollTrace (ataDrive base position delay) (base + 7)
    control (s.bus.busy + 1) s.bus), ⟨s.bus.busy + 1, fun fuel enough => ?_⟩, rfl, rfl, rfl, rfl⟩
  rw [idePolling_plain _ (congrArg (· + 7) hb) hc
    (by rw [pollReads_drive position delay apart enough]), polled_drive position delay apart enough]

theorem settles_check {words : List UInt16} (phase : s.bus.phase = .dataIn words) :
    ∃ t, Settles (fun fuel => idePolling (ataDrive base position delay) fuel channel 1) s 0 t ∧
      Waited s t := by
  have reading : s.bus.rested = { s.bus with busy := 0 } :=
    rested_apart (by rw [phase]; exact DrivePhase.noConfusion)
  have read : (ataDrive base position delay).inb (base + 7) s.bus.rested =
      (0x58, s.bus.rested) := by
    have ready : ({ s.bus with busy := 0 } : DriveState).status = 0x58 := by
      rw [DriveState.status, if_neg (not_not.mpr rfl), phase]
    have still : ({ s.bus with busy := 0 } : DriveState).tick = { s.bus with busy := 0 } :=
      (if_pos rfl).trans (settled_apart (by rw [phase]; exact DrivePhase.noConfusion))
    rw [reading]
    exact (if_pos rfl).trans (Prod.ext ready still)
  refine ⟨(s.after s.bus.rested (pollTrace (ataDrive base position delay) (base + 7)
    control (s.bus.busy + 1) s.bus)).after s.bus.rested [.inb (base + 7) 0x58],
    ⟨s.bus.busy + 1, fun fuel enough => ?_⟩, rfl, rfl, rfl, rfl⟩
  rw [idePolling_checked _ (congrArg (· + 7) hb) hc
      (by rw [pollReads_drive position delay apart enough]),
    polled_drive position delay apart enough, IdeState.after_bus, read]
  have clean : statusError 0x58 = 0 := by decide
  dsimp only
  rw [clean]

theorem settles_sectorRead (sector : Sector) (rest : List UInt16) (whole : rest.length % 256 = 0)
    (phase : s.bus.phase = .reading (sector.words ++ rest)) (buffer : UInt32) :
    ∃ t u, Settles (fun fuel => idePolling (ataDrive base position delay) fuel channel 1) s 0 t ∧
      t.onMachine (repInsw (ataDrive base position delay) base 256 buffer) = u ∧
      u.bus.phase = .reading rest ∧ u.bus.sectors = s.bus.sectors ∧
      u.mem = s.mem.write buffer sector.bytes ∧ u.channels = s.channels ∧
      u.devices = s.devices := by
  have length := sector.length_words
  have nonempty : sector.words ≠ [] := by
    intro none
    rw [none] at length
    cases length
  have active : s.bus.phase = .dataIn (sector.words ++ rest) := by
    rw [phase]
    cases words : sector.words with
    | nil => exact absurd words nonempty
    | cons w words => rfl
  obtain ⟨t, poll, waited⟩ := settles_check position delay hb hc apart active
  have still : s.bus.rested = { s.bus with busy := 0 } :=
    rested_apart (by rw [active]; exact DrivePhase.noConfusion)
  have words : readWords (ataDrive base position delay) base sector.words.length t.bus =
      (sector.words, { t.bus with phase := .reading rest }.pause delay
        (.sector (rest.length / 256))) := by
    refine readWords_drive sector.words rest nonempty (Nat.le_of_eq length) whole t.bus ?_ ?_
    · rw [waited.bus, rested_busy]
    · rw [waited.bus, still, phase]
  rw [length] at words
  refine ⟨t, _, poll, rfl, ?_⟩
  rw [onMachine_repInsw, words]
  refine ⟨rfl, ?_, ?_, waited.channels, waited.devices⟩
  · change t.bus.sectors = _
    rw [waited.bus, (rested_kept s.bus).sectors]
  · rw [sector.flatMap_words, waited.mem]

/-- The unchecked wait only returns from a drive at rest. -/
theorem idePolling_waited {fuel : Nat} {v : UInt8} {t : IdeState DriveState}
    (ran : (idePolling (ataDrive base position delay) fuel channel 0).run s = (some v, t)) :
    Waited s t := by
  by_cases enough : s.bus.busy < fuel
  · rw [idePolling_plain _ (congrArg (· + 7) hb) hc
      (by rw [pollReads_drive position delay apart enough]),
      polled_drive position delay apart enough] at ran
    cases ran
    exact ⟨rfl, rfl, rfl, rfl⟩
  · have endless : (pollReads (ataDrive base position delay) (base + 7) control fuel s.bus).1 =
        false := by
      rw [pollReads, readMany_elsewhere apart]
      exact busyReads_endless fuel s.bus (Nat.not_lt.mp enough)
    simp only [idePolling, Exec.run_bind, Exec.run_modify, Exec.andThen_some,
      pollWait_run _ (congrArg (· + 7) hb) hc, endless, Bool.false_eq_true, if_false] at ran
    cases ran

omit hb hc apart in
/-- The words of a buffer, sent to a drive at rest that was told to receive. -/
theorem repOutsw_drive (lba left : Nat) (idle : s.bus.busy = 0)
    (phase : s.bus.phase = .writing lba (left + 1)) (buffer : UInt32) :
    s.onMachine (repOutsw (ataDrive base position delay) base 256 buffer) =
      s.after ({ s.bus with
        phase := .writing (lba + 1) left
        sectors := Function.update s.bus.sectors lba (Sector.ofMem s.mem buffer)
        cached := s.bus.cached ++ [(lba, Sector.ofMem s.mem buffer)] }.pause delay (.sector left))
        ((memWords s.mem 256 buffer).map (Access.outw base)) := by
  have full : ([] ++ memWords s.mem 256 buffer).length = 256 := length_memWords _ _ _
  have nonempty : memWords s.mem 256 buffer ≠ [] := by
    intro e
    rw [e] at full
    cases full
  rw [onMachine_repOutsw, writeWords_drive (memWords s.mem 256 buffer) [] nonempty lba left full
    s.bus idle phase, ← Sector.ofWords_memWords s.mem buffer]
  rfl

theorem settles_sectorWrite (lba left : Nat) (phase : s.bus.phase = .writing lba (left + 1))
    (buffer : UInt32) :
    ∃ t u, Settles (fun fuel => idePolling (ataDrive base position delay) fuel channel 0) s 0 t ∧
      t.onMachine (repOutsw (ataDrive base position delay) base 256 buffer) = u ∧
      u.bus = { s.bus with
        phase := .writing (lba + 1) left
        busy := 0
        sectors := Function.update s.bus.sectors lba (Sector.ofMem s.mem buffer)
        cached := s.bus.cached ++ [(lba, Sector.ofMem s.mem buffer)] }.pause delay
          (.sector left) ∧
      u.mem = s.mem ∧ u.channels = s.channels ∧ u.devices = s.devices := by
  obtain ⟨t, poll, waited⟩ := settles_poll position delay hb hc apart
  have still : s.bus.rested = { s.bus with busy := 0 } :=
    rested_apart (phase ▸ writing_apart lba (left + 1))
  refine ⟨t, _, poll, repOutsw_drive position delay lba left (by rw [waited.bus, rested_busy])
    (by rw [waited.bus, still, phase]) buffer, ?_, waited.mem, waited.channels, waited.devices⟩
  rw [IdeState.after_bus, waited.mem, waited.bus, still]

theorem settles_pioRead (sectors : List Sector)
    (phase : s.bus.phase = .reading (sectors.flatMap Sector.words)) (buffer : UInt32) :
    ∃ t, Settles (fun fuel => idePioRead (ataDrive base position delay) fuel channel base
        sectors.length buffer) s 0 t ∧
      t.bus.sectors = s.bus.sectors ∧ t.mem = s.mem.write buffer (sectors.flatMap Sector.bytes) ∧
      t.channels = s.channels ∧ t.devices = s.devices := by
  induction sectors generalizing s buffer with
  | nil => exact ⟨s, Settles.of_eq fun _ => rfl, rfl, rfl, rfl, rfl⟩
  | cons x xs ih =>
      obtain ⟨t, u, poll, moved, rest, kept, mem, channels, devices⟩ :=
        settles_sectorRead position delay hb hc apart x _ (length_flatMap_words xs) phase buffer
      obtain ⟨v, more, vkept, vmem, vchannels, vdevices⟩ := ih (by rw [channels]; exact hb)
        (by rw [channels]; exact hc) rest (buffer + 512)
      refine ⟨v, Settles.bind poll (Settles.modify (moved ▸ more)), vkept.trans kept, ?_,
        vchannels.trans channels, vdevices.trans devices⟩
      rw [vmem, mem, List.flatMap_cons, Mem.write_append, x.full]
      rfl

/-- From `s` to `t` the `n` sectors of the buffer were stored from `lba` on. -/
structure Wrote (delay : DriveEvent → Nat → Nat) (s t : IdeState DriveState) (lba n : Nat)
    (buffer : UInt32) : Prop where
  none : n = 0 → t = s
  sectors : t.bus.sectors = Disk.store s.bus.sectors lba (Sector.run s.mem n buffer)
  medium : t.bus.medium = s.bus.medium
  file : t.bus.file = s.bus.file
  phase : t.bus.phase = .idle
  busy : n ≠ 0 → ∃ k, t.bus.busy = delay (.sector 0) k
  mem : t.mem = s.mem
  channels : t.channels = s.channels
  devices : t.devices = s.devices

theorem settles_pioWrite (n lba : Nat) (phase : s.bus.phase = .writing lba n) (buffer : UInt32) :
    ∃ t, Settles (fun fuel => idePioWrite (ataDrive base position delay) fuel channel base n
        buffer) s () t ∧ Wrote delay s t lba n buffer := by
  induction n generalizing s lba buffer with
  | zero => exact ⟨s, Settles.of_eq fun _ => rfl, fun _ => rfl, rfl, rfl, rfl, phase,
      fun some => absurd rfl some, rfl, rfl, rfl⟩
  | succ n ih =>
      obtain ⟨t, u, poll, moved, bus, mem, channels, devices⟩ :=
        settles_sectorWrite position delay hb hc apart lba n phase buffer
      obtain ⟨v, more, wrote⟩ := ih (by rw [channels]; exact hb) (by rw [channels]; exact hc)
        (lba + 1) (by rw [bus]; rfl) (buffer + 512)
      refine ⟨v, Settles.bind poll (Settles.modify (moved ▸ more)),
        fun none => absurd none (Nat.succ_ne_zero n), ?_, ?_, ?_, wrote.phase, fun _ => ?_,
        wrote.mem.trans mem, wrote.channels.trans channels, wrote.devices.trans devices⟩
      · rw [wrote.sectors, bus, mem]
        rfl
      · rw [wrote.medium, bus]
        rfl
      · rw [wrote.file, bus]
        rfl
      · by_cases last : n = 0
        · subst last
          rw [wrote.none rfl, bus]
          exact ⟨_, rfl⟩
        · exact wrote.busy last

end Settling

section Commands

variable {base : UInt16} {position : Nat} (delay : DriveEvent → Nat → Nat)

/-- The phase in which `n` sectors are moved. -/
def transferPhase (sectors : Disk) (lba n : Nat) : Direction → DrivePhase
  | .read => .reading ((sectors.load lba n).flatMap Sector.words)
  | .write => .writing lba n

/-- One command can count up to the last of `n` sectors from `lba` on. -/
def Countable (lba : UInt32) (n : Nat) : Prop := 2 ^ 28 ≤ lba.toNat ∨ lba.toNat + n ≤ 2 ^ 28

theorem ideCommand_decodes (mode : LbaMode) (direction : Direction) :
    ¬ (ideCommand mode direction = 0xE7 ∨ ideCommand mode direction = 0xEA) ∧
      ((ideCommand mode direction = 0x20 ∨ ideCommand mode direction = 0x24) ↔
        direction = .read) ∧
      ((ideCommand mode direction = 0x30 ∨ ideCommand mode direction = 0x34) ↔
        direction = .write) := by
  cases mode <;> cases direction <;> decide

theorem decode_transfer {d : DriveState} {lba : UInt32} {slavebit : UInt8} {mode : LbaMode}
    {direction : Direction} {n : Nat}
    (decodes : d.file.Decodes lba slavebit (ideCommand mode direction))
    (count : d.file.count (ideCommand mode direction) = n)
    (space : lba.toNat + n ≤ TaskFile.space (ideCommand mode direction)) :
    d.decode (ideCommand mode direction) = transferPhase d.sectors lba.toNat n direction := by
  obtain ⟨noFlush, reads, writes⟩ := ideCommand_decodes mode direction
  rw [DriveState.decode, if_neg noFlush, decodes.sector, count, if_pos ⟨decodes.linear, space⟩]
  cases direction with
  | read => rw [if_pos (reads.mpr rfl), transferPhase]
  | write =>
      have other : Direction.write ≠ .read := Direction.noConfusion
      rw [if_neg fun read => other (reads.mp read), if_pos (writes.mpr rfl), transferPhase]

theorem Countable.space {lba : UInt32} {features : UInt16} {n : UInt8}
    (countable : Countable lba n.toNat) (linear : features &&& 0x200 ≠ 0) (direction : Direction) :
    lba.toNat + n.toNat ≤
      TaskFile.space (ideCommand (ideSelectMode features lba).mode direction) := by
  have bound := lba.toNat_lt
  have few := n.toNat_lt
  have top : (0x10000000 : UInt32).toNat = 2 ^ 28 := rfl
  rw [TaskFile.space, extCommand_ideCommand]
  by_cases high : 0x10000000 ≤ lba
  · rw [ideSelectMode_lba48 features high, decide_eq_true rfl, if_pos rfl]
    omega
  · have low : lba.toNat < 2 ^ 28 := by
      rw [UInt32.le_iff_toNat_le, top] at high
      omega
    rw [ideSelectMode_lba28 high linear]
    exact countable.resolve_left (by omega)

/-- From `d` to `e` a command led to a phase. -/
structure Commanded (position : Nat) (phase : DrivePhase) (d e : DriveState) : Prop where
  phase : e.phase = phase
  sectors : e.sectors = d.sectors
  medium : e.medium = d.medium
  selected : e.file.driveSelected = position

/-- The driver's command writes, on a drive at rest that supports LBA. -/
theorem sendBus_commandWrites {ch : IdeChannel} (ports : AtaPorts ch) (own : ch.base = base)
    {device : IdeDevice} (slave : device.drive = 0 ∨ device.drive = 1)
    (here : device.drive.toNat = position) (linear : device.features &&& 0x200 ≠ 0)
    (direction : Direction) {lba : UInt32} {numSectors : UInt8} (nonzero : numSectors ≠ 0)
    (countable : Countable lba numSectors.toNat) (d : DriveState) (idle : d.busy = 0) :
    Commanded position (transferPhase d.sectors lba.toNat numSectors.toNat direction) d
      (sendBus (ataDrive base position delay) (commandWrites ch device direction lba numSectors)
        d) := by
  subst own
  set addr := ideSelectMode device.features lba with haddr
  have none := parameterWrites_ne_command ports device.drive numSectors addr
  have file := writeAll_parameters ports device.drive numSectors addr d.file
  have decodes : (fileAfter device.drive numSectors addr d.file).Decodes lba device.drive
      (ideCommand addr.mode direction) :=
    fileAfter_decodes device.drive numSectors d.file direction slave (Or.inr linear)
  have selected := decodes.selected.trans here
  have step : ∀ e : DriveState, e.busy = 0 → e.file.driveSelected = position → ∀ v,
      (ataDrive ch.base position delay).outb (ch.base + 7) v e =
        { e with phase := e.decode v }.pause delay (.command v) :=
    fun e idle selected v => (if_neg (not_not.mpr idle)).trans ((if_pos rfl).trans (if_pos selected))
  have command : ch.base + ataRegCommand.toUInt16 = ch.base + 7 := rfl
  rw [commandWrites, sendBus_append, sendBus_parameters none d idle, file,
    registerWrites_low ch (by decide), command, sendBus, List.foldl_cons, List.foldl_nil,
    step { d with file := fileAfter device.drive numSectors addr d.file } idle selected]
  have count : (fileAfter device.drive numSectors addr d.file).count
      (ideCommand addr.mode direction) = numSectors.toNat := by
    rw [fileAfter_count, if_neg nonzero]
  exact ⟨decode_transfer decodes count (countable.space linear direction), rfl, rfl, selected⟩

theorem flush_synced {d : DriveState} (idle : d.busy = 0) (selected : d.file.driveSelected = position)
    (mode : LbaMode) :
    ((ataDrive base position delay).outb (base + 7) (cacheFlushCommand mode) d).rested.Synced := by
  have flush : d.decode (cacheFlushCommand mode) = .flushing := by
    have code : cacheFlushCommand mode = 0xE7 ∨ cacheFlushCommand mode = 0xEA := by
      cases mode <;> decide
    exact if_pos code
  have step : (ataDrive base position delay).outb (base + 7) (cacheFlushCommand mode) d =
      { d with phase := d.decode (cacheFlushCommand mode) }.pause delay
        (.command (cacheFlushCommand mode)) :=
    (if_neg (not_not.mpr idle)).trans ((if_pos rfl).trans (if_pos selected))
  rw [step, flush]
  exact ⟨rfl, rfl⟩

end Commands

section Working

/-- A present LBA drive behind `ataDrive`, with the sectors `D`. -/
structure OnDrive (base : UInt16) (position : Nat) (drive : UInt8) (s : IdeState DriveState)
    (D : Disk) : Prop where
  index : drive.toNat < maximumIdeDevices
  present : (s.devices drive.toNat).reserved ≠ 0
  ata : (s.devices drive.toNat).type = ideAta
  linear : (s.devices drive.toNat).features &&& 0x200 ≠ 0
  slave : (s.devices drive.toNat).drive = 0 ∨ (s.devices drive.toNat).drive = 1
  selected : (s.devices drive.toNat).drive.toNat = position
  ports : AtaPorts (s.channels (s.devices drive.toNat).channel.toNat)
  block : (s.channels (s.devices drive.toNat).channel.toNat).base = base
  sectors : s.bus.sectors = D

variable {base : UInt16} {position : Nat} {delay : DriveEvent → Nat → Nat} {drive : UInt8}
  {s : IdeState DriveState} {D : Disk}

theorem OnDrive.keep {t : IdeState DriveState} {E : Disk} (on : OnDrive base position drive s D)
    (channels : ∀ i, (t.channels i).base = (s.channels i).base ∧
      (t.channels i).control = (s.channels i).control)
    (devices : t.devices = s.devices) (sectors : t.bus.sectors = E) :
    OnDrive base position drive t E := by
  obtain ⟨index, present, ata, linear, slave, selected, ports, block, _⟩ := on
  constructor
  all_goals rw [devices] at *
  · exact index
  · exact present
  · exact ata
  · exact linear
  · exact slave
  · exact selected
  · rw [AtaPorts, (channels _).1, (channels _).2]
    exact ports
  · rw [(channels _).1]
    exact block
  · exact sectors

/-- Every access on such a drive reaches the transfer with the phase that serves it. -/
theorem settles_commanded (delay : DriveEvent → Nat → Nat) (on : OnDrive base position drive s D)
    (direction : Direction) {lba : UInt32} (buffer : UInt32) {numSectors : UInt8}
    (nonzero : numSectors ≠ 0) (countable : Countable lba numSectors.toNat) :
    ∃ t N, (∀ fuel, N ≤ fuel →
        (ideAtaAccess (ataDrive base position delay) fuel direction drive lba numSectors buffer).run
            s =
          (ideTransfer (ataDrive base position delay) fuel direction
            (s.devices drive.toNat).channel base
            (ideSelectMode (s.devices drive.toNat).features lba).mode numSectors buffer).run t) ∧
      OnDrive base position drive t D ∧
      t.bus.phase = transferPhase D lba.toNat numSectors.toNat direction ∧
      t.bus.file.driveSelected = position ∧ (s.bus.Synced → t.bus.medium = D) ∧ t.mem = s.mem ∧
      t.devices = s.devices := by
  set device := s.devices drive.toNat with hdevice
  set ch := s.channels device.channel.toNat with hch
  have started := accessStarted_eq (ataDrive base position delay) device.channel s hch.symm
  have own := accessStarted_channel (ataDrive base position delay) device.channel s hch.symm
  have block : ((accessStarted (ataDrive base position delay) device.channel s).channels
      device.channel.toNat).base = base := by
    rw [own]
    exact on.block
  obtain ⟨u, ⟨N, wait⟩, waited⟩ := settles_wait position delay block
  have ports : AtaPorts { ch with noIntr := 2 } := on.ports
  have idle : u.bus.busy = 0 := by rw [waited.bus, rested_busy]
  obtain ⟨phase, sectors, medium, selected⟩ := sendBus_commandWrites delay ports on.block on.slave
    on.selected on.linear direction nonzero countable u.bus idle
  have kept : Kept s.bus u.bus := by
    rw [waited.bus, started, IdeState.after_bus]
    exact trans_of Kept (write_kept _ 2 s.bus) (rested_kept _)
  have before : u.bus.sectors = D := kept.sectors.trans on.sectors
  have channels : u.channels = (maskInterrupts device.channel s).channels := by
    rw [waited.channels, started, IdeState.after_channels]
  have masked : u.channels device.channel.toNat = { ch with noIntr := 2 } := by
    rw [waited.channels, own]
  have devices : u.devices = s.devices := by
    rw [waited.devices, started]
    rfl
  have sent : (commanded (ataDrive base position delay) device direction lba numSectors u).bus =
      sendBus (ataDrive base position delay)
        (commandWrites { ch with noIntr := 2 } device direction lba numSectors) u.bus := by
    rw [commanded, masked, IdeState.after_bus]
  refine ⟨commanded (ataDrive base position delay) device direction lba numSectors u, N, ?_, ?_, ?_,
    ?_, fun synced => ?_, ?_, ?_⟩
  · intro fuel enough
    rw [ideAtaAccess_run]
    simp only [← hdevice, ← hch, wait fuel enough, Exec.andThen_some]
    rw [on.block]
  · refine on.keep ?_ ?_ ?_
    · intro i
      rw [commanded, IdeState.after_channels, channels]
      exact ⟨maskInterrupts_base device.channel s i, maskInterrupts_control device.channel s i⟩
    · exact devices
    · rw [sent, sectors, before]
  · rw [sent, phase, before]
  · rw [sent, selected]
  · rw [sent, medium, (synced.kept kept).medium, before]
  · rw [commanded, IdeState.after_mem, waited.mem, started]
    rfl
  · exact devices

theorem ataDrive_read (on : OnDrive base position drive s D) {lba : UInt32} (buffer : UInt32)
    {numSectors : UInt8} (nonzero : numSectors ≠ 0) (countable : Countable lba numSectors.toNat) :
    ∃ t, Settles (fun fuel => ideAtaAccess (ataDrive base position delay) fuel .read drive lba
        numSectors buffer) s 0 t ∧
      OnDrive base position drive t D ∧
      t.mem = s.mem.write buffer ((D.load lba.toNat numSectors.toNat).flatMap Sector.bytes) ∧
      t.devices = s.devices := by
  obtain ⟨t, N, reach, there, phase, _, _, mem, devices⟩ :=
    settles_commanded delay on .read buffer nonzero countable
  have apart := there.block ▸ there.ports.control_ne_command
  rw [devices] at apart
  obtain ⟨u, ⟨M, read⟩, stored, filled, channels, kept⟩ := settles_pioRead position delay
    (devices ▸ there.block) rfl apart (D.load lba.toNat numSectors.toNat) phase buffer
  rw [Disk.length_load] at read
  refine ⟨u, ⟨max N M, fun fuel enough => ?_⟩, ?_, by rw [filled, mem], kept.trans devices⟩
  · rw [reach fuel (Nat.le_trans (Nat.le_max_left N M) enough)]
    exact read fuel (Nat.le_trans (Nat.le_max_right N M) enough)
  · refine there.keep (fun i => by rw [channels]; exact ⟨rfl, rfl⟩) kept ?_
    rw [stored]
    exact there.sectors

/-- The driver does not wait before it sends the flush. A drive that is not busy behind the last
sector has nothing left to lose then; one that is busy takes no flush. -/
theorem ataDrive_write (on : OnDrive base position drive s D) {lba : UInt32} (buffer : UInt32)
    {numSectors : UInt8} (nonzero : numSectors ≠ 0) (countable : Countable lba numSectors.toNat) :
    ∃ t, Settles (fun fuel => ideAtaAccess (ataDrive base position delay) fuel .write drive lba
        numSectors buffer) s 0 t ∧
      OnDrive base position drive t
        (D.store lba.toNat (Sector.run s.mem numSectors.toNat buffer)) ∧
      t.mem = s.mem ∧ t.devices = s.devices ∧
      ((∀ k, delay (.sector 0) k = 0) → t.bus.Synced) ∧
      (s.bus.Synced → (∀ k, delay (.sector 0) k ≠ 0) → t.bus.medium = D) := by
  obtain ⟨t, N, reach, there, phase, selected, medium, mem, devices⟩ :=
    settles_commanded delay on .write buffer nonzero countable
  have apart := there.block ▸ there.ports.control_ne_command
  rw [devices] at apart
  have block := there.block
  rw [devices] at block
  obtain ⟨u, written, wrote⟩ := settles_pioWrite position delay
    block rfl apart numSectors.toNat lba.toNat phase buffer
  set channel := (s.devices drive.toNat).channel
  set mode := (ideSelectMode (s.devices drive.toNat).features lba).mode
  set w := ideWriteRegister (ataDrive base position delay) channel ataRegCommand
    (cacheFlushCommand mode) u with hw
  have own : (u.channels channel.toNat).base = base := by
    rw [wrote.channels]
    exact block
  have flushed : w.channels = u.channels ∧ w.devices = u.devices ∧ w.mem = u.mem ∧ w.bus =
      (ataDrive base position delay).outb (base + 7) (cacheFlushCommand mode) u.bus := by
    rw [hw, ideWriteRegister_after, registerWrites_low _ (by decide), own]
    exact ⟨rfl, rfl, rfl, rfl⟩
  obtain ⟨wc, wd, wm, wbus⟩ := flushed
  obtain ⟨v, polled, waited⟩ := settles_poll position delay (s := w) (wc ▸ own) rfl
    (by rw [wc, wrote.channels]; exact apart)
  have transfer : Settles (fun fuel => ideTransfer (ataDrive base position delay) fuel .write channel
      base mode numSectors buffer) t 0 v := by
    refine Settles.bind written (Settles.modify ?_)
    exact Settles.bind polled (Settles.of_eq fun _ => rfl)
  obtain ⟨M, settled⟩ := transfer
  have some : numSectors.toNat ≠ 0 := fun e => nonzero (UInt8.toNat_inj.mp e)
  obtain ⟨k, busy⟩ := wrote.busy some
  refine ⟨v, ⟨max N M, fun fuel enough => ?_⟩, ?_, ?_, ?_, fun prompt => ?_, fun synced late => ?_⟩
  · rw [reach fuel (Nat.le_trans (Nat.le_max_left N M) enough)]
    exact settled fuel (Nat.le_trans (Nat.le_max_right N M) enough)
  · refine there.keep (fun i => ?_) ?_ ?_
    · rw [waited.channels, wc, wrote.channels]
      exact ⟨rfl, rfl⟩
    · rw [waited.devices, wd, wrote.devices]
    · rw [waited.bus, (rested_kept w.bus).sectors, wbus, ← mem, ← there.sectors, ← wrote.sectors]
      exact (write_kept (base + 7) (cacheFlushCommand mode) u.bus).sectors
  · rw [waited.mem, wm, wrote.mem, mem]
  · rw [waited.devices, wd, wrote.devices, devices]
  · rw [waited.bus, wbus]
    exact flush_synced delay (busy.trans (prompt k)) (by rw [wrote.file, selected]) mode
  · have ignored : w.bus = u.bus := wbus.trans (if_pos (busy.symm ▸ late k))
    rw [waited.bus, ignored, rested_apart (by rw [wrote.phase]; exact DrivePhase.noConfusion)]
    exact wrote.medium.trans (medium synced)

theorem countable_one (lba : UInt32) : Countable lba (1 : UInt8).toNat := by
  rw [Countable, UInt8.toNat_one]
  omega

/-- The drive automaton is a working drive under the driver, whatever its delays. -/
theorem ataDrive_working (base : UInt16) (position : Nat) (delay : DriveEvent → Nat → Nat)
    (drive : UInt8) :
    WorkingDrive (ataDrive base position delay) drive (OnDrive base position drive) where
  frame s t D on bus channels devices :=
    on.keep (fun i => by rw [channels]; exact ⟨rfl, rfl⟩) devices (by rw [bus]; exact on.sectors)
  present s D on := ⟨on.index, on.present, on.ata⟩
  read s D lba buffer on _ := by
    have one : (1 : UInt8) ≠ 0 := by decide
    obtain ⟨t, settles, there, mem, devices⟩ := ataDrive_read on buffer one (countable_one lba)
    refine ⟨t, settles, there, ?_, devices⟩
    rw [mem, UInt8.toNat_one, Disk.load, Disk.load, List.flatMap_singleton]
  write s D lba buffer on _ := by
    obtain ⟨t, settles, there, mem, devices, _⟩ :=
      ataDrive_write on buffer (by decide) (countable_one lba)
    exact ⟨t, settles, there, mem, devices⟩

end Working

end VDK
