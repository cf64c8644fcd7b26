import VDK.AccessSteps
import VDK.BlockDevice

/-!
# Transfers that are cut off

The accesses of a transfer are replayed on the drive up to any of them, as if the power
failed there. The medium keeps what was flushed, and of the cache any sectors. Whatever is
left was written there as a whole: the array of sectors holds it, or held it once. Only a
drive that takes the flush, being no longer busy behind the last sector, has forgotten the
values that the array no longer holds.
-/
namespace VDK
open Fuel ByteMem Contract

section Replay

variable {σ : Type} (hw : Bus σ)

/-- What an access does to the hardware. -/
def Access.apply : Access → σ → σ
  | .inb port _, b => (hw.inb port b).2
  | .inw port _, b => (hw.inw port b).2
  | .inl port _, b => (hw.inl port b).2
  | .outb port value, b => hw.outb port value b
  | .outw port value, b => hw.outw port value b

def replay (tr : List Access) (b : σ) : σ := tr.foldl (fun b a => a.apply hw b) b

theorem replay_append (tr ur : List Access) (b : σ) :
    replay hw (tr ++ ur) b = replay hw ur (replay hw tr b) := List.foldl_append

theorem replay_sendBus (writes : List (UInt16 × UInt8)) (b : σ) :
    replay hw (outAccesses writes) b = sendBus hw writes b := List.foldl_map

theorem replay_readWords (port : UInt16) (n : Nat) (b : σ) :
    replay hw ((readWords hw port n b).1.map (Access.inw port)) b = (readWords hw port n b).2 := by
  induction n generalizing b with
  | zero => rfl
  | succ n ih => exact ih (hw.inw port b).2

theorem replay_writeWords (port : UInt16) (words : List UInt16) (b : σ) :
    replay hw (words.map (Access.outw port)) b = writeWords hw port words b := by
  induction words generalizing b with
  | nil => rfl
  | cons w words ih => exact ih (hw.outw port w b)

theorem replay_busyReads (port : UInt16) (fuel : Nat) (b : σ) :
    replay hw ((busyReads hw port fuel b).2.1.map (Access.inb port)) b =
      (busyReads hw port fuel b).2.2 := by
  induction fuel generalizing b with
  | zero => rfl
  | succ fuel ih =>
      rw [busyReads]
      dsimp only
      split
      · exact ih (hw.inb port b).2
      · rfl

/-- From `s` to `t` the hardware followed the accesses, and `Q` holds of it wherever they are
cut off. -/
def Cuts (Q : σ → Prop) (s t : IdeState σ) : Prop :=
  ∃ tr, t.log = s.log ++ tr ∧ t.bus = replay hw tr s.bus ∧ ∀ cut, cut <+: tr → Q (replay hw cut s.bus)

variable {hw} {Q R : σ → Prop} {s t u : IdeState σ}

/-- A prefix ends in the first part or reaches into the second. -/
theorem prefix_append_cases {α : Type} {cut first second : List α} (cuts : cut <+: first ++ second) :
    cut <+: first ∨ ∃ rest, cut = first ++ rest ∧ rest <+: second := by
  rcases List.prefix_or_prefix_of_prefix cuts (List.prefix_append first second) with
    inside | ⟨rest, rfl⟩
  · exact Or.inl inside
  · exact Or.inr ⟨rest, rfl, (List.prefix_append_right_inj first).mp cuts⟩

theorem Cuts.trans (first : Cuts hw Q s t) (second : Cuts hw Q t u) : Cuts hw Q s u := by
  obtain ⟨tr, log, bus, cuts⟩ := first
  obtain ⟨ur, log', bus', cuts'⟩ := second
  refine ⟨tr ++ ur, by rw [log', log, List.append_assoc], by rw [bus', bus, replay_append], ?_⟩
  intro cut inside
  rcases prefix_append_cases inside with early | ⟨rest, rfl, late⟩
  · exact cuts cut early
  · rw [replay_append, ← bus]
    exact cuts' rest late

theorem Cuts.mono (h : Cuts hw Q s t) (imp : ∀ b, Q b → R b) : Cuts hw R s t := by
  obtain ⟨tr, log, bus, cuts⟩ := h
  exact ⟨tr, log, bus, fun cut inside => imp _ (cuts cut inside)⟩

theorem Cuts.final (h : Cuts hw Q s t) : Q t.bus := by
  obtain ⟨tr, _, bus, cuts⟩ := h
  rw [bus]
  exact cuts tr (List.prefix_refl tr)

/-- Single accesses that keep a relation keep it wherever they are cut off. -/
theorem replay_cut {r : σ → σ → Prop} [IsPreorder σ r] {tr : List Access}
    (each : ∀ a ∈ tr, ∀ b, r b (a.apply hw b)) (b : σ) {cut : List Access} (cuts : cut <+: tr) :
    r b (replay hw cut b) := by
  induction tr generalizing b cut with
  | nil =>
      rw [List.prefix_nil.mp cuts]
      exact refl_of r b
  | cons a tr ih =>
      cases cut with
      | nil => exact refl_of r b
      | cons c cut =>
          obtain ⟨rfl, rest⟩ := List.cons_prefix_cons.mp cuts
          exact trans_of r (each c List.mem_cons_self b)
            (ih (fun x member => each x (List.mem_cons_of_mem c member)) _ rest)

end Replay

section Cache

/-- Every value the drive holds for a sector, stored, flushed or cached, is one that `P` allows. -/
structure Backed (P : Nat → Sector → Prop) (d : DriveState) : Prop where
  sectors : ∀ i, P i (d.sectors i)
  medium : ∀ i, P i (d.medium i)
  cached : ∀ w ∈ d.cached, P w.1 w.2

/-- What may be found when the power comes back: of the cache any sectors were still stored. -/
def DriveState.Survives (d : DriveState) (E : Disk) : Prop :=
  ∀ i, E i = d.medium i ∨ (i, E i) ∈ d.cached

variable {P Q : Nat → Sector → Prop} {d e : DriveState}

theorem Backed.mono (h : Backed P d) (imp : ∀ i x, P i x → Q i x) : Backed Q d :=
  ⟨fun i => imp i _ (h.sectors i), fun i => imp i _ (h.medium i),
    fun w member => imp w.1 w.2 (h.cached w member)⟩

theorem Backed.and (h : Backed P d) {c : Prop} (k : c → Backed Q d) :
    Backed (fun i x => P i x ∧ (c → Q i x)) d :=
  ⟨fun i => ⟨h.sectors i, fun given => (k given).sectors i⟩,
    fun i => ⟨h.medium i, fun given => (k given).medium i⟩,
    fun w member => ⟨h.cached w member, fun given => (k given).cached w member⟩⟩

theorem Backed.kept (h : Backed P d) (kept : Kept d e) : Backed P e := by
  obtain ⟨sectors, ⟨medium, cached⟩ | ⟨medium, cached⟩⟩ := kept
  · exact ⟨sectors ▸ h.sectors, medium ▸ h.medium, cached ▸ h.cached⟩
  · exact ⟨sectors ▸ h.sectors, medium ▸ h.sectors, fun w member => by
      rw [cached] at member
      exact absurd member List.not_mem_nil⟩

theorem Backed.survives (h : Backed P d) {E : Disk} (left : d.Survives E) (i : Nat) : P i (E i) := by
  rcases left i with flushed | cached
  · rw [flushed]
    exact h.medium i
  · exact h.cached _ cached

theorem DriveState.Synced.backed (h : d.Synced) (each : ∀ i, P i (d.sectors i)) : Backed P d :=
  ⟨each, h.medium ▸ each, fun w member => by
    rw [h.cached] at member
    exact absurd member List.not_mem_nil⟩

end Cache

section Drive

variable {base : UInt16} {position : Nat} {delay : DriveEvent → Nat → Nat}
  {P : Nat → Sector → Prop} {s : IdeState DriveState}

/-- Only words of a write store sectors. -/
theorem apply_kept {a : Access} (unsent : ∀ p w, a ≠ .outw p w) (d : DriveState) :
    Kept d (a.apply (ataDrive base position delay) d) := by
  cases a with
  | inb port v =>
      simp only [Access.apply, ataDrive]
      split
      · exact tick_kept d
      · exact refl_of Kept d
  | inw port v =>
      simp only [Access.apply, ataDrive]
      split
      · exact deliver_kept d
      · exact refl_of Kept d
  | inl port v => exact refl_of Kept d
  | outb port v => exact write_kept port v d
  | outw port w => exact absurd rfl (unsent port w)

/-- From `s` to `t` no sector was stored, wherever the accesses are cut off. -/
def Spares (base : UInt16) (position : Nat) (delay : DriveEvent → Nat → Nat)
    (s t : IdeState DriveState) : Prop := Cuts (ataDrive base position delay) (Kept s.bus) s t

theorem spares_of {t : IdeState DriveState} {tr : List Access} (log : t.log = s.log ++ tr)
    (bus : t.bus = replay (ataDrive base position delay) tr s.bus)
    (unsent : ∀ a ∈ tr, ∀ p w, a ≠ .outw p w) : Spares base position delay s t :=
  ⟨tr, log, bus, fun _ cuts => replay_cut (fun a member d => apply_kept (unsent a member) d) _ cuts⟩

instance : IsPreorder (IdeState DriveState) (Spares base position delay) where
  refl _ := spares_of (List.append_nil _).symm rfl fun _ none => absurd none List.not_mem_nil
  trans _ _ _ first second :=
    first.trans (second.mono fun _ kept => trans_of Kept first.final kept)

theorem outAccesses_unsent (writes : List (UInt16 × UInt8)) :
    ∀ a ∈ outAccesses writes, ∀ p w, a ≠ .outw p w := by
  intro a member p w same
  obtain ⟨x, _, rfl⟩ := List.mem_map.mp member
  cases same

theorem spares_steps : StepsKeep (ataDrive base position delay) .read (Spares base position delay)
    where
  mask _ _ := refl_of (Spares base position delay) _
  inb port s := by
    have unsent : ∀ a ∈ [Access.inb port ((ataDrive base position delay).inb port s.bus).1],
        ∀ p w, a ≠ .outw p w := by
      intro a member p w same
      rw [List.mem_singleton.mp member] at same
      cases same
    exact spares_of rfl rfl unsent
  outb writes s := spares_of rfl (replay_sendBus _ writes s.bus).symm (outAccesses_unsent writes)
  block port buffer s := by
    have read := replay_readWords (ataDrive base position delay) port 256 s.bus
    rw [Direction.block, onMachine_repInsw]
    generalize readWords (ataDrive base position delay) port 256 s.bus = r at read ⊢
    refine spares_of rfl read.symm fun a member p w same => ?_
    obtain ⟨x, _, rfl⟩ := List.mem_map.mp member
    cases same

theorem Spares.cuts {t : IdeState DriveState} (h : Spares base position delay s t)
    (backed : Backed P s.bus) : Cuts (ataDrive base position delay) (Backed P) s t :=
  h.mono fun _ kept => backed.kept kept

/-- Fewer words than a sector has are not stored. -/
theorem writeWords_short (words received : List UInt16) (lba left : Nat)
    (short : received.length + words.length < 256) (d : DriveState)
    (phase : d.phase = .dataOut lba left received) :
    Kept d (writeWords (ataDrive base position delay) base words d) := by
  induction words generalizing d received with
  | nil => exact refl_of Kept d
  | cons w words ih =>
      have step : (ataDrive base position delay).outw base w d = d.receive delay w := if_pos rfl
      rw [List.length_cons] at short
      have incomplete : (received ++ [w]).length ≠ 256 := by
        rw [List.length_append, List.length_singleton]
        omega
      rw [writeWords, step, DriveState.receive]
      by_cases idle : d.busy = 0
      · rw [if_neg (not_not.mpr idle), phase]
        dsimp only
        rw [dif_neg incomplete]
        have first : Kept d { d with phase := .dataOut lba left (received ++ [w]) } :=
          kept_of_same rfl rfl rfl
        refine trans_of Kept first (ih (received ++ [w]) ?_ _ rfl)
        rw [List.length_append, List.length_singleton]
        omega
      · rw [if_pos idle]
        exact ih received (by omega) d phase

/-- The words of a sector, cut off anywhere: it is stored as a whole or not at all. -/
theorem block_cuts {lba left : Nat} {buffer : UInt32} (idle : s.bus.busy = 0)
    (phase : s.bus.phase = .writing lba (left + 1)) (backed : Backed P s.bus)
    (new : P lba (Sector.ofMem s.mem buffer)) :
    Cuts (ataDrive base position delay) (Backed P) s
      (s.onMachine (repOutsw (ataDrive base position delay) base 256 buffer)) := by
  have sent := onMachine_repOutsw (ataDrive base position delay) base 256 buffer s
  refine ⟨(memWords s.mem 256 buffer).map (Access.outw base), by rw [sent, IdeState.after_log],
    ?_, ?_⟩
  · rw [sent, replay_writeWords, IdeState.after_bus]
  intro cut cuts
  by_cases whole : cut = (memWords s.mem 256 buffer).map (Access.outw base)
  · have stored : s.onMachine (repOutsw (ataDrive base position delay) base 256 buffer) = _ :=
      repOutsw_drive position delay lba left idle phase buffer
    rw [sent] at stored
    have bus := congrArg (fun t : IdeState DriveState => t.bus) stored
    rw [IdeState.after_bus, IdeState.after_bus] at bus
    rw [whole, replay_writeWords, bus]
    refine ⟨fun i => ?_, backed.medium, fun w member => ?_⟩
    · change P i (Function.update s.bus.sectors lba _ i)
      by_cases here : i = lba
      · rw [here, Function.update_self]
        exact new
      · rw [Function.update_of_ne here]
        exact backed.sectors i
    · rcases List.mem_append.mp member with old | last
      · exact backed.cached w old
      · rw [List.mem_singleton.mp last]
        exact new
  · obtain ⟨words, first, rfl⟩ := List.prefix_map_iff.mp cuts
    have short : words.length < 256 := by
      have bound := first.length_le
      rw [length_memWords] at bound
      refine Nat.lt_of_le_of_ne bound fun full => whole ?_
      rw [first.eq_of_length (full.trans (length_memWords _ _ _).symm)]
    rw [replay_writeWords]
    exact backed.kept (writeWords_short words [] lba (left + 1) (by simpa using short) _ phase)

/-- The loop of a write, whatever its fuel. -/
theorem pioWrite_cuts (fuel : Nat) {channel : UInt8} {control : UInt16}
    (hb : (s.channels channel.toNat).base = base)
    (hc : (s.channels channel.toNat).control + 2 = control) (apart : control ≠ base + 7)
    (n : Nat) {lba : Nat} {buffer : UInt32} (phase : s.bus.phase = .writing lba n)
    (backed : Backed P s.bus)
    (new : ∀ k x, (Sector.run s.mem n buffer)[k]? = some x → P (lba + k) x) :
    Cuts (ataDrive base position delay) (Backed P) s
      ((idePioWrite (ataDrive base position delay) fuel channel base n buffer).run s).2 := by
  induction n generalizing s lba buffer with
  | zero => exact (refl_of (Spares base position delay) s).cuts backed
  | succ n ih =>
      have polls : Spares base position delay s
          ((idePolling (ataDrive base position delay) fuel channel 0).run s).2 :=
        spares_steps.polling channel fuel 0 s
      rw [idePioWrite, Exec.run_bind]
      rcases poll : (idePolling (ataDrive base position delay) fuel channel 0).run s with ⟨_ | v, t⟩
      · rw [poll] at polls
        exact polls.cuts backed
      · rw [poll] at polls
        obtain ⟨bus, mem, channels, _⟩ := idePolling_waited position delay hb hc apart poll
        have still : s.bus.rested = { s.bus with busy := 0 } :=
          rested_apart (phase ▸ writing_apart lba (n + 1))
        have idle : t.bus.busy = 0 := by rw [bus, rested_busy]
        have told : t.bus.phase = .writing lba (n + 1) := by rw [bus, still, phase]
        have held : Backed P t.bus := (polls.cuts backed).final
        have first : P lba (Sector.ofMem t.mem buffer) := mem ▸ new 0 _ rfl
        have block : Cuts (ataDrive base position delay) (Backed P) t
            (t.onMachine (repOutsw (ataDrive base position delay) base 256 buffer)) :=
          block_cuts idle told held first
        have stored : t.onMachine (repOutsw (ataDrive base position delay) base 256 buffer) = _ :=
          repOutsw_drive position delay lba n idle told buffer
        refine (polls.cuts backed).trans (block.trans ?_)
        rw [Exec.andThen_some, Exec.run_bind, Exec.run_modify, Exec.andThen_some]
        have next : (t.onMachine (repOutsw (ataDrive base position delay) base 256
            buffer)).bus.phase = .writing (lba + 1) n := by
          rw [stored]
          rfl
        refine ih ?_ ?_ next block.final ?_
        · rw [stored, IdeState.after_channels, channels]
          exact hb
        · rw [stored, IdeState.after_channels, channels]
          exact hc
        · intro k x found
          rw [stored, IdeState.after_mem, mem] at found
          rw [Nat.add_assoc, Nat.add_comm 1 k]
          exact new (k + 1) x found

/-- Up to the command nothing is stored. -/
theorem spares_waited (device : IdeDevice) (ch : IdeChannel) (fuel : Nat)
    (s : IdeState DriveState) : Spares base position delay s
      (waited (ataDrive base position delay) device ch fuel s) := by
  have unsent : ∀ a ∈ Access.outb (ch.control + 2) 2 ::
      (firstWait (ataDrive base position delay) ch fuel s.bus).2.1.map (Access.inb (ch.base + 7)),
      ∀ p w, a ≠ .outw p w := by
    intro a member p w same
    rcases List.mem_cons.mp member with rfl | read
    · cases same
    · obtain ⟨v, _, rfl⟩ := List.mem_map.mp read
      cases same
  exact spares_of rfl (replay_busyReads _ (ch.base + 7) fuel _).symm unsent

/-- The loop of a write, with the flush and the wait for its end, which store nothing. -/
theorem writeTransfer_cuts (fuel : Nat) {channel : UInt8} (mode : LbaMode)
    (hb : (s.channels channel.toNat).base = base)
    (apart : (s.channels channel.toNat).control + 2 ≠ base + 7) {numSectors : UInt8} {lba : Nat}
    {buffer : UInt32} (phase : s.bus.phase = .writing lba numSectors.toNat)
    (backed : Backed P s.bus)
    (new : ∀ k x, (Sector.run s.mem numSectors.toNat buffer)[k]? = some x → P (lba + k) x) :
    Cuts (ataDrive base position delay) (Backed P) s
      ((ideTransfer (ataDrive base position delay) fuel .write channel base mode numSectors
        buffer).run s).2 := by
  have loop : Cuts (ataDrive base position delay) (Backed P) s _ :=
    pioWrite_cuts fuel hb rfl apart numSectors.toNat phase backed new
  rw [ideTransfer, Exec.run_bind]
  rcases run : (idePioWrite (ataDrive base position delay) fuel channel base numSectors.toNat
    buffer).run s with ⟨_ | _, t⟩
  · rw [run] at loop
    exact loop
  · rw [run] at loop
    have flush : Keeps (Spares base position delay) (Exec.modify (ideWriteRegister
        (ataDrive base position delay) channel ataRegCommand (cacheFlushCommand mode)) >>= fun _ =>
          idePolling (ataDrive base position delay) fuel channel 0 >>= fun _ => pure (0 : UInt8)) :=
      Keeps.bind (Keeps.modify (spares_steps.write _ _ _)) fun _ =>
        Keeps.bind (spares_steps.polling _ fuel 0) fun _ => Keeps.pure 0
    exact loop.trans ((flush t : Spares base position delay t _).cuts loop.final)

/-- A transfer, cut off behind any of its accesses, stores whole sectors of its buffer at most. -/
theorem OnDrive.access_cuts (delay : DriveEvent → Nat → Nat) {drive : UInt8} {D : Disk}
    (on : OnDrive base position drive s D) (direction : Direction) (fuel : Nat)
    {lba buffer : UInt32} {numSectors : UInt8}
    (nonzero : numSectors ≠ 0) (countable : Countable lba numSectors.toNat)
    (backed : Backed P s.bus) (new : direction = .write →
      ∀ k x, (Sector.run s.mem numSectors.toNat buffer)[k]? = some x → P (lba.toNat + k) x) :
    Cuts (ataDrive base position delay) (Backed P) s
      ((ideAtaAccess (ataDrive base position delay) fuel direction drive lba numSectors
        buffer).run s).2 := by
  cases direction with
  | read =>
      have spared : Spares base position delay s _ :=
        spares_steps.access fuel drive lba numSectors buffer s
      exact spared.cuts backed
  | write =>
      set hw := ataDrive base position delay with hhw
      set device := s.devices drive.toNat with hdevice
      set ch := s.channels device.channel.toNat with hch
      have waiting : Spares base position delay s (waited hw device ch fuel s) :=
        spares_waited device ch fuel s
      rw [ideAtaAccess_waited hw fuel .write drive lba numSectors buffer s hdevice.symm hch.symm]
      cases ended : (firstWait hw ch fuel s.bus).1 with
      | false =>
          rw [if_neg Bool.false_ne_true]
          exact waiting.cuts backed
      | true =>
          rw [if_pos rfl]
          set t := waited hw device ch fuel s with ht
          set u := commanded hw device .write lba numSectors t with hu
          have masked := waited_channel hw device fuel s hch.symm
          have idle : t.bus.busy = 0 := by
            rw [firstWait, on.block] at ended
            have bus : t.bus = (busyReads hw (ch.base + 7) fuel
              (hw.outb (ch.control + 2) 2 s.bus)).2.2 := rfl
            rw [bus, on.block, busyReads_ended ended, rested_busy]
          have sends : Spares base position delay t u :=
            spares_of rfl (replay_sendBus hw _ t.bus).symm (outAccesses_unsent _)
          have ports : AtaPorts { ch with noIntr := 2 } := on.ports
          have command := sendBus_commandWrites delay ports on.block on.slave on.selected on.linear
            .write nonzero countable t.bus idle
          have channels : u.channels device.channel.toNat = { ch with noIntr := 2 } := masked
          have phase : u.bus.phase = .writing lba.toNat numSectors.toNat := by
            rw [hu, commanded, masked, IdeState.after_bus, command.phase]
            rfl
          have held := waiting.cuts backed |>.trans (sends.cuts (waiting.cuts backed).final)
          have block : (u.channels device.channel.toNat).base = base := channels ▸ on.block
          have apart : (u.channels device.channel.toNat).control + 2 ≠ base + 7 := by
            rw [channels, ← on.block]
            exact on.ports.control_ne_command
          refine held.trans ?_
          rw [on.block]
          exact writeTransfer_cuts fuel _ block apart phase held.final (new rfl)

end Drive

section Runs

variable {base : UInt16} {position : Nat} {delay : DriveEvent → Nat → Nat} {drive : UInt8}
  {size : Nat} {s t : IdeState DriveState} {a b : BlockState}

/-- A value that the array of sectors has had during some calls. -/
def Seen (size : Nat) (a : BlockState) (calls : List (BlockOp × Int)) (i : Nat) (x : Sector) : Prop :=
  ∃ earlier, earlier <+: calls ∧ x = ((blockDevice size).after a earlier).sectors i

theorem Seen.more {calls : List (BlockOp × Int)} {i : Nat} {x : Sector}
    (h : Seen size a calls i x) (call : BlockOp × Int) : Seen size a (calls ++ [call]) i x := by
  obtain ⟨earlier, early, value⟩ := h
  exact ⟨earlier, early.trans (List.prefix_append calls [call]), value⟩

theorem Disk.store_outside (D : Disk) {lba i : Nat} (before : i < lba) (xs : List Sector) :
    D.store lba xs i = D i := by
  induction xs generalizing D lba with
  | nil => rfl
  | cons x xs ih =>
      rw [Disk.store, ih _ (Nat.lt_succ_of_lt before), Function.update_of_ne (Nat.ne_of_lt before)]

theorem Disk.store_inside (D : Disk) (lba : Nat) {xs : List Sector} {k : Nat} {x : Sector}
    (found : xs[k]? = some x) : D.store lba xs (lba + k) = x := by
  induction xs generalizing D lba k with
  | nil => cases found
  | cons y xs ih =>
      cases k with
      | zero =>
          cases found
          exact (Disk.store_outside _ (Nat.lt_succ_self lba) xs).trans (Function.update_self lba x D)
      | succ k =>
          rw [Disk.store, ← Nat.add_assoc, Nat.add_right_comm]
          exact ih _ _ found

/-- What a write sends is what the array has afterwards. -/
theorem Holds.new_values (holds : Holds base position drive size s a) {direction : Direction}
    {lba buffer : UInt32} {n : Nat} (write : direction = .write) (k : Nat) (x : Sector)
    (found : (Sector.run s.mem n buffer)[k]? = some x) :
    x = (a.move lba.toNat n buffer direction).sectors (lba.toNat + k) := by
  subst write
  rw [holds.mem] at found
  exact (Disk.store_inside a.sectors lba.toNat found).symm

/-- A transfer inside the drive that returned went through one access. -/
theorem Holds.returned (holds : Holds base position drive size s a) {direction : Direction}
    {err : UInt8} {lba buffer : UInt32} {numSectors : UInt8} (nonzero : numSectors ≠ 0)
    (plain : lba.toNat + numSectors.toNat < 2 ^ 32) (countable : Countable lba numSectors.toNat)
    (fits : lba.toNat + numSectors.toNat ≤ size) {code : Int}
    (ran : Settles (fun fuel => ideSectors (ataDrive base position delay) fuel direction err drive
      numSectors lba buffer) s code t) :
    Settles (fun fuel => ideAtaAccess (ataDrive base position delay) fuel direction drive lba
      numSectors buffer) s 0 t := by
  obtain ⟨u, access, _⟩ := holds.settles_access delay direction buffer nonzero countable
  obtain ⟨_, rfl⟩ := ran.unique (holds.settles_inside err plain fits access)
  exact access

theorem Holds.refused (holds : Holds base position drive size s a) {direction : Direction}
    {err : UInt8} {lba buffer : UInt32} {numSectors : UInt8}
    (plain : lba.toNat + numSectors.toNat < 2 ^ 32) (beyond : ¬ lba.toNat + numSectors.toNat ≤ size)
    {code : Int} (ran : Settles (fun fuel => ideSectors (ataDrive base position delay) fuel
      direction err drive numSectors lba buffer) s code t) : t.bus = s.bus := by
  obtain ⟨_, rfl⟩ := ran.unique (holds.settles_outside direction err buffer plain beyond)
  rfl

/-- However transfers follow one another, the drive holds values that the array has had. -/
theorem run_backed (holds : Holds base position drive size s a) (synced : s.bus.Synced)
    {calls : List (BlockOp × Int)}
    (run : Run (BlockCall (ataDrive base position delay) drive) (blockDevice size) s a calls t b) :
    Backed (Seen size a calls) t.bus := by
  induction run with
  | start => exact synced.backed fun i => ⟨[], List.prefix_refl _, by rw [holds.drive.sectors]; rfl⟩
  | @call calls t u b op out run allowed made ih =>
      obtain ⟨there, _⟩ := blockCall_refines.run run holds
      have held : Backed (Seen size a (calls ++ [(op, out)])) t.bus :=
        ih.mono fun i x seen => seen.more _
      have last : (blockDevice size).after a (calls ++ [(op, out)]) = (blockDevice size).next b op :=
        (run.call allowed made).after
      cases made with
      | store mem => exact held
      | @sectors direction lba buffer numSectors code v err ran =>
          obtain ⟨nonzero, plain, countable⟩ := allowed
          by_cases fits : lba.toNat + numSectors.toNat ≤ size
          · obtain ⟨N, access⟩ := there.returned nonzero plain countable fits ran
            have cuts := there.drive.access_cuts delay direction N nonzero countable held
              fun write k x found => ⟨_, List.prefix_refl _, by
                rw [last]
                dsimp only [blockDevice]
                rw [if_pos fits]
                exact there.new_values write k x found⟩
            rw [access N (Nat.le_refl N)] at cuts
            exact cuts.final
          · rw [there.refused plain fits ran]
            exact held

/-- On a drive that is not busy behind the last sector, every flush is taken. -/
theorem run_synced (holds : Holds base position drive size s a) (synced : s.bus.Synced)
    (prompt : ∀ k, delay (.sector 0) k = 0) {calls : List (BlockOp × Int)}
    (run : Run (BlockCall (ataDrive base position delay) drive) (blockDevice size) s a calls t b) :
    t.bus.Synced := by
  induction run with
  | start => exact synced
  | @call calls t u b op out run allowed made ih =>
      obtain ⟨there, _⟩ := blockCall_refines.run run holds
      cases made with
      | store mem => exact ih
      | @sectors direction lba buffer numSectors code v err ran =>
          obtain ⟨nonzero, plain, countable⟩ := allowed
          by_cases fits : lba.toNat + numSectors.toNat ≤ size
          · have access := there.returned nonzero plain countable fits ran
            cases direction with
            | read =>
                obtain ⟨N, access⟩ := access
                have spared : Spares base position delay t _ :=
                  spares_steps.access N drive lba numSectors buffer t
                rw [access N (Nat.le_refl N)] at spared
                exact ih.kept spared.final
            | write =>
                obtain ⟨w, written, _, _, _, flushed, _⟩ :=
                  ataDrive_write there.drive buffer nonzero countable
                obtain ⟨_, rfl⟩ := access.unique written
                exact flushed prompt
          · rw [there.refused plain fits ran]
            exact ih

/-- From a drive with nothing in its cache, after any transfers, let the next one be cut off
behind any of its accesses, whether or not it would ever have returned. Whatever the drive still
has when the power comes back, each sector is the array's, with the transfer or without it, or one
that the array had earlier; and it is not an earlier one where the drive takes its flushes. -/
theorem transfer_cut_off (holds : Holds base position drive size s a) (synced : s.bus.Synced)
    {calls : List (BlockOp × Int)}
    (run : Run (BlockCall (ataDrive base position delay) drive) (blockDevice size) s a calls t b)
    (direction : Direction) (fuel : Nat) {lba : UInt32} (buffer : UInt32) {numSectors : UInt8}
    (allowed : (blockDevice size).allowed b (.sectors direction lba numSectors buffer)) :
    ∃ tr, ((ideAtaAccess (ataDrive base position delay) fuel direction drive lba numSectors
        buffer).run t).2.log = t.log ++ tr ∧
      ((ideAtaAccess (ataDrive base position delay) fuel direction drive lba numSectors
        buffer).run t).2.bus = replay (ataDrive base position delay) tr t.bus ∧
      ∀ cut, cut <+: tr → ∀ E : Disk,
        (replay (ataDrive base position delay) cut t.bus).Survives E → ∀ i,
          (E i = (b.move lba.toNat numSectors.toNat buffer direction).sectors i ∨
            Seen size a calls i (E i)) ∧
          ((∀ k, delay (.sector 0) k = 0) →
            E i = (b.move lba.toNat numSectors.toNat buffer direction).sectors i ∨
              E i = b.sectors i) := by
  obtain ⟨there, _⟩ := blockCall_refines.run run holds
  obtain ⟨nonzero, _, countable⟩ := allowed
  set after := (b.move lba.toNat numSectors.toNat buffer direction).sectors
  have new : direction = .write → ∀ k x,
      (Sector.run t.mem numSectors.toNat buffer)[k]? = some x → x = after (lba.toNat + k) :=
    fun write k x found => there.new_values write k x found
  have seen : Backed (fun i x => x = after i ∨ Seen size a calls i x) t.bus :=
    (run_backed holds synced run).mono fun i x old => Or.inr old
  have backed := seen.and fun prompt =>
    show Backed (fun i x => x = after i ∨ x = b.sectors i) t.bus from
      (run_synced holds synced prompt run).backed fun i => Or.inr (congrFun there.drive.sectors i)
  obtain ⟨tr, log, bus, cuts⟩ := there.drive.access_cuts delay direction fuel nonzero countable
    backed fun write k x found => ⟨Or.inl (new write k x found), fun _ => Or.inl (new write k x found)⟩
  exact ⟨tr, log, bus, fun cut inside E left i => (cuts cut inside).survives left i⟩

/-- Where the drive is still busy behind the last sector, a write that returned 0 may be lost as a
whole. -/
theorem returned_write_lost (holds : Holds base position drive size s a) (synced : s.bus.Synced)
    (late : ∀ k, delay (.sector 0) k ≠ 0) {lba : UInt32} (buffer : UInt32) {numSectors : UInt8}
    (allowed : (blockDevice size).allowed a (.sectors .write lba numSectors buffer))
    (fits : lba.toNat + numSectors.toNat ≤ size) (err : UInt8) :
    ∃ t, Settles (fun fuel => ideSectors (ataDrive base position delay) fuel .write err drive
        numSectors lba buffer) s 0 t ∧
      t.bus.sectors = (a.move lba.toNat numSectors.toNat buffer .write).sectors ∧
      t.bus.Survives a.sectors := by
  obtain ⟨nonzero, plain, countable⟩ := allowed
  obtain ⟨t, written, there, _, _, _, lost⟩ := ataDrive_write holds.drive buffer nonzero countable
  refine ⟨t, holds.settles_inside err plain fits written, ?_, fun i => Or.inl ?_⟩
  · rw [there.sectors, holds.mem]
    rfl
  · rw [lost synced late]

/-- A drive that is busy three times behind everything but the last sector. -/
def promptDelay : DriveEvent → Nat → Nat
  | .sector 0, _ => 0
  | _, _ => 3

/-- A sector written to the disk of QEMU, and then two. -/
theorem transfer_cut_off_qemu :
    ∃ (t : IdeState DriveState) (b : BlockState) (tr : List Access),
      b = blankState.move 3 1 0x1000 .write ∧ t.bus.sectors = b.sectors ∧
      ((ideAtaAccess (ataDrive 0x1F0 0 promptDelay) 5 .write 0 3 2 0x1000).run t).2.log =
        t.log ++ tr ∧
      ((ideAtaAccess (ataDrive 0x1F0 0 promptDelay) 5 .write 0 3 2 0x1000).run t).2.bus =
        replay (ataDrive 0x1F0 0 promptDelay) tr t.bus ∧
      ∀ cut, cut <+: tr → ∀ E : Disk,
        (replay (ataDrive 0x1F0 0 promptDelay) cut t.bus).Survives E → ∀ i,
          (E i = (b.move 3 2 0x1000 .write).sectors i ∨
            Seen 8 blankState [(.sectors .write 3 1 0x1000, 0)] i (E i)) ∧
          ((∀ k, promptDelay (.sector 0) k = 0) →
            E i = (b.move 3 2 0x1000 .write).sectors i ∨ E i = b.sectors i) := by
  have holds : Holds 0x1F0 0 0 8 (qemuState 8 fun _ => Sector.blank).ide blankState :=
    ⟨rfl, rfl, (qemu_mounted 8 fun _ => Sector.blank).rep⟩
  have one : (blockDevice 8).allowed blankState (.sectors .write 3 1 0x1000) :=
    ⟨by decide, by decide, Or.inr (by decide)⟩
  obtain ⟨t, written, there⟩ : ∃ t, Settles (fun fuel => ideSectors
      (ataDrive 0x1F0 0 promptDelay) fuel .write 0 0 1 3 0x1000) _ 0 t ∧ _ :=
    holds.settles_sectors .write 0 one.1 one.2.1 one.2.2
  have run : Run (BlockCall (ataDrive 0x1F0 0 promptDelay) 0) (blockDevice 8) _ blankState
      ([] ++ [(.sectors .write 3 1 0x1000, 0)]) t _ := .call .start one (.sectors 0 written)
  obtain ⟨tr, log, bus, cuts⟩ := transfer_cut_off holds ⟨rfl, rfl⟩ run .write 5 0x1000
    (⟨by decide, by decide, Or.inr (by decide)⟩ :
      (blockDevice 8).allowed _ (.sectors .write 3 2 0x1000))
  exact ⟨t, _, tr, rfl, there.drive.sectors, log, bus, cuts⟩

end Runs

end VDK
