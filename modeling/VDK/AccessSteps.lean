import VDK.IdeRuns

/-!
# What every step of an access keeps, the access keeps

An access is made of byte reads, byte writes and blocks of words, with a change of the
interrupt mask before them. A preorder that each of these respects holds between the
start of an access and every state it reaches, also when it never returns.
-/
namespace VDK
open Fuel ByteMem

/-- The string instruction that moves `n` words of a transfer. -/
def Direction.block {σ : Type} (hw : Bus σ) (direction : Direction) (port : UInt16) (n : Nat)
    (buffer : UInt32) : Machine σ → Machine σ :=
  match direction with
  | .read => repInsw hw port n buffer
  | .write => repOutsw hw port n buffer

/-- The relation holds across each step a transfer is made of. -/
structure StepsKeep {σ : Type} (hw : Bus σ) (direction : Direction)
    (R : IdeState σ → IdeState σ → Prop) : Prop where
  mask : ∀ channel s, R s (maskInterrupts channel s)
  inb : ∀ port s, R s (s.after (hw.inb port s.bus).2 [.inb port (hw.inb port s.bus).1])
  outb : ∀ writes s, R s (s.after (sendBus hw writes s.bus) (outAccesses writes))
  block : ∀ port buffer s, R s (s.onMachine (direction.block hw port 256 buffer))

namespace StepsKeep

variable {σ : Type} {hw : Bus σ} {direction : Direction} {R : IdeState σ → IdeState σ → Prop}
  [IsPreorder (IdeState σ) R] (steps : StepsKeep hw direction R) (channel : UInt8)

include steps

omit [IsPreorder (IdeState σ) R] in
theorem write (reg data : UInt8) (s : IdeState σ) :
    R s (ideWriteRegister hw channel reg data s) := by
  rw [ideWriteRegister_after]
  exact steps.outb _ s

theorem inRegister (reg : UInt8) (s : IdeState σ) : R s (inRegister hw channel reg s).2 := by
  unfold VDK.inRegister
  split
  · exact steps.inb _ s
  · exact refl_of R s

theorem read (reg : UInt8) (s : IdeState σ) : R s (ideReadRegister hw channel reg s).2 := by
  unfold ideReadRegister
  split
  · have opened := steps.write channel ataRegControl
      (0x80 ||| (s.channels channel.toNat).noIntr).toUInt8 s
    dsimp only
    exact trans_of R opened
      (trans_of R (steps.inRegister channel reg _) (steps.write channel _ _ _))
  · exact steps.inRegister channel reg s

theorem delay (n : Nat) (s : IdeState σ) : R s (altStatusDelay hw channel n s) := by
  induction n generalizing s with
  | zero => exact refl_of R s
  | succ n ih => exact trans_of R (steps.read channel ataRegAltstatus s) (ih _)

theorem wait (fuel : Nat) : Keeps R (waitWhileBusy hw channel fuel) := by
  induction fuel with
  | zero => exact Keeps.stop
  | succ fuel ih =>
      refine Keeps.bind (Keeps.act (steps.read channel ataRegStatus)) ?_
      intro status
      split
      · exact ih
      · exact Keeps.pure ()

theorem polling (fuel : Nat) (advancedCheck : UInt8) :
    Keeps R (idePolling hw fuel channel advancedCheck) := by
  apply Keeps.bind (Keeps.modify (steps.delay channel 4))
  intro _
  apply Keeps.bind (steps.wait channel fuel)
  intro _
  split
  · exact Keeps.bind (Keeps.act (steps.read channel ataRegStatus)) fun _ => Keeps.pure _
  · exact Keeps.pure _

theorem transfer (fuel : Nat) (port : UInt16) (mode : LbaMode) (numSectors : UInt8)
    (buffer : UInt32) :
    Keeps R (ideTransfer hw fuel direction channel port mode numSectors buffer) := by
  cases direction with
  | read =>
      rw [ideTransfer]
      generalize numSectors.toNat = n
      induction n generalizing buffer with
      | zero => exact Keeps.pure 0
      | succ n ih =>
          apply Keeps.bind (steps.polling channel fuel 1)
          intro err
          split
          · exact Keeps.pure err
          · exact Keeps.bind (Keeps.modify (steps.block port buffer)) fun _ => ih (buffer + 512)
  | write =>
      have blocks : ∀ n, Keeps R (idePioWrite hw fuel channel port n buffer) := by
        intro n
        induction n generalizing buffer with
        | zero => exact Keeps.pure ()
        | succ n ih =>
            apply Keeps.bind (steps.polling channel fuel 0)
            intro _
            exact Keeps.bind (Keeps.modify (steps.block port buffer)) fun _ => ih (buffer + 512)
      apply Keeps.bind (blocks numSectors.toNat)
      intro _
      refine Keeps.bind (Keeps.modify (steps.write channel _ _)) fun _ => ?_
      exact Keeps.bind (steps.polling channel fuel 0) fun _ => Keeps.pure 0

/-- Whether or not the access ends. -/
theorem access (fuel : Nat) (drive : UInt8) (lba : UInt32) (numSectors : UInt8)
    (buffer : UInt32) :
    Keeps R (ideAtaAccess hw fuel direction drive lba numSectors buffer) := by
  refine Keeps.bind (R := R) Keeps.get fun s => ?_
  refine Keeps.bind (Keeps.modify (steps.mask _)) fun _ => ?_
  refine Keeps.bind (Keeps.modify (steps.write _ _ _)) fun _ => ?_
  refine Keeps.bind (steps.wait _ fuel) fun _ => ?_
  have parameters : ∀ t : IdeState σ, R t (ideSendParameters hw
      (s.devices drive.toNat).channel (s.devices drive.toNat).drive numSectors
      (ideSelectMode (s.devices drive.toNat).features lba) t) := by
    intro t
    rw [ideSendParameters_eq, onMachine_sendAll]
    exact steps.outb _ t
  refine Keeps.bind (Keeps.modify parameters) fun _ => ?_
  exact Keeps.bind (Keeps.modify (steps.write _ _ _)) fun _ =>
    steps.transfer _ fuel _ _ numSectors buffer

end StepsKeep

end VDK
