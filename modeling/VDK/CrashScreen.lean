import VDK.InterruptFrame
import VDK.Dispatch
import VDK.PrintfOutput

/-!
# The crash screen (`isr_exception_handler` of `libkern/isr.c`)

An exception ends on a blue page that names it, and the handler never returns. The
vector it prints the name of is the one its stub has pushed, also where the record is
shifted by a second error code.
-/
namespace VDK
open Atomic Fuel Kernel ByteMem Ia32 LineLog

/-- `exception_messages`. -/
def exceptionMessages : List String :=
  ["DIV_BY_ZERO", "DEBUG", "NON_MASKABLE_INT", "BREAKPOINT", "OVERFLOW", "BOUND_RANGE_EXCEED",
    "UNKNOWN_OPCODE", "DEVICE_NOT_AVAILABLE", "DOUBLE_FAULT", "COPROCESSOR_SEG_OVERRUN",
    "INVALID_TSS", "SEG_NOT_PRESENT", "STACK_SEG_FAULT", "GENERAL_PROTECTION", "PAGE_FAULT",
    "UNKNOWN_INTERRUPT (INTEL_RESERVED)", "FPU_ERROR", "ALIGNMENT_CHECK", "MACHINE_CHECK",
    "SIMD_FP_EXCEPTION", "VIRT_EXCEPTION", "RESERVED", "RESERVED", "RESERVED", "RESERVED",
    "RESERVED", "RESERVED", "RESERVED", "RESERVED", "RESERVED", "RESERVED", "RESERVED"]

/-- The characters behind `exception_messages[no]`. -/
def exceptionMessage (no : UInt32) : List UInt8 :=
  (exceptionMessages.getD no.toNat "").toList.map Char.toUInt8

def crashSentences : List Text :=
  [Text.ofChars "YOUR SYSTEM HAS CRASHED BECAUSE OF A INVALID INSTRUCTION OR ".toList rfl,
    Text.ofChars "EXCEPTION. PLEASE RESTART YOUR SYSTEM. ".toList rfl,
    Text.ofChars "FOR FURTHER INFORMATION, CONTACT VIA OPERATING ".toList rfl,
    Text.ofChars "AND PROVIDE THEM THE EXCEPTION OR ERROR CODE.\n\n".toList rfl]

def systemCrashed : Text := Text.concat crashSentences

def exceptionNamed : Text := Text.ofChars "EXCEPTION: %s\n".toList rfl

def systemBusy : Text := Text.ofChars "\nSYSTEM IS BUSY...\n".toList rfl

section Handler

variable {σ : Type} (hw : Bus σ)

/-- `for (;;) ;` -/
def spin : Nat → Prog (Kernel σ) Unit
  | 0 => .stop
  | fuel + 1 => do
      Prog.modify id
      spin fuel

/-- `isr_exception_handler`: `messages` are the pointers of `exception_messages`, and
`call w` is what `printf` finds when it is called with the argument `w`. -/
def isrExceptionHandler (messages : UInt32 → UInt32) (call : UInt32 → PrintfFrame) (fuel : Nat)
    (intNo : UInt32) : Prog (Kernel σ) Unit :=
  if intNo < 32 then do
    onTerminal bsodInitialize
    onTerminal (printLiteral systemCrashed)
    onTerminal (printf terminalPutchar ((call (messages intNo)).withFuel fuel) exceptionNamed)
    onTerminal (printLiteral systemBusy)
    spin fuel
  else do
    let s ← Prog.get
    callHandler hw (s.handlers intNo.toNat)

/-- The name of every exception lies behind its pointer, and the calls pass it on. -/
structure Named (messages : UInt32 → UInt32) (call : UInt32 → PrintfFrame) : Prop where
  passed : ∀ no < 32, (call (messages no)).mem.HoldsWords (call (messages no)).args [messages no]
  held : ∀ no < 32, HoldsString ((call (messages no)).mem.view (messages no)) (exceptionMessage no)

def exceptionPrefix : List UInt8 := "EXCEPTION: ".toList.map Char.toUInt8

/-- Everything that is printed for an exception. -/
def crashText (no : UInt32) : List UInt8 :=
  systemCrashed.chars ++ ((exceptionPrefix ++ (exceptionMessage no ++ [newline])) ++ systemBusy.chars)

theorem run_spin (fuel : Nat) (s : Kernel σ) : (spin fuel).run.run s = (none, s) := by
  induction fuel with
  | zero => rfl
  | succ fuel ih => exact ih

/-- What holds of every name in the table holds of every message. -/
theorem exceptionMessage_all {P : List UInt8 → Prop} (nothing : P [])
    (names : ∀ m ∈ exceptionMessages, P (m.toList.map Char.toUInt8)) (no : UInt32) :
    P (exceptionMessage no) := by
  rw [exceptionMessage, List.getD_eq_getElem?_getD]
  cases found : exceptionMessages[no.toNat]? with
  | none => exact nothing
  | some m => exact names m (List.mem_of_getElem? found)

theorem exceptionMessage_short (no : UInt32) : (exceptionMessage no).length ≤ 34 := by
  have short : ∀ m ∈ exceptionMessages, decide ((m.toList.map Char.toUInt8).length ≤ 34) = true :=
    List.all_eq_true.mp (by decide)
  exact exceptionMessage_all (P := fun m => m.length ≤ 34) (Nat.zero_le 34)
    (fun m listed => of_decide_eq_true (short m listed)) no

theorem exceptionMessage_noNul (no : UInt32) : ∀ c ∈ exceptionMessage no, c ≠ 0 := by
  have printable : ∀ m ∈ exceptionMessages, ((m.toList.map Char.toUInt8).all (· ≠ 0)) = true :=
    List.all_eq_true.mp (by decide)
  exact exceptionMessage_all (P := fun m => ∀ c ∈ m, c ≠ 0) (fun _ none => absurd none List.not_mem_nil)
    (fun m listed c inside => of_decide_eq_true
      (List.all_eq_true.mp (printable m listed) c inside)) no

theorem systemCrashed_plain : Plain systemCrashed.chars := by
  have sentences : ∀ t ∈ crashSentences, decide (Plain t.chars) = true :=
    List.all_eq_true.mp (by decide)
  intro c member
  obtain ⟨t, listed, inside⟩ := List.mem_flatMap.mp member
  exact of_decide_eq_true (sentences t listed) c inside

/-- The terminal behind an exception: cleared in white on blue, and everything typed on it. -/
def crashed (no : UInt32) (t : Terminal) : Terminal :=
  (crashText no).foldl (fun t c => typed c t) (cleared vgaColorWhite vgaColorBlue t)

variable {messages : UInt32 → UInt32} {call : UInt32 → PrintfFrame}

theorem run_typing (cs : List UInt8) (s : Kernel σ) :
    (onTerminal (Prog.forEach terminalPutchar cs)).run.run s =
      (some (), setTerminal (cs.foldl (fun t c => typed c t) s.terminal) s) := by
  have wrote : (Prog.forEach terminalPutchar cs).run.run s.terminal = _ :=
    run_terminalWrite cs s.terminal
  rw [run_onTerminal, wrote]

/-- The screen is cleared, three texts are typed, and that is all. -/
theorem run_crash (first second third : List UInt8) (fuel : Nat) (s : Kernel σ) :
    (do
      onTerminal bsodInitialize
      onTerminal (Prog.forEach terminalPutchar first)
      onTerminal (Prog.forEach terminalPutchar second)
      onTerminal (Prog.forEach terminalPutchar third)
      spin fuel : Prog (Kernel σ) Unit).run.run s =
      (none, setTerminal ((first ++ (second ++ third)).foldl (fun t c => typed c t)
        (cleared vgaColorWhite vgaColorBlue s.terminal)) s) := by
  rw [Prog.run_bind, Exec.run_bind, run_onTerminal, bsodInitialize, run_screenInitialize,
    Exec.andThen_some, Prog.run_bind, Exec.run_bind, run_typing, Exec.andThen_some, Prog.run_bind,
    Exec.run_bind, run_typing, Exec.andThen_some, Prog.run_bind, Exec.run_bind, run_typing,
    Exec.andThen_some, run_spin, List.foldl_append, List.foldl_append]
  generalize cleared vgaColorWhite vgaColorBlue s.terminal = screen
  rfl

/-- However long it runs, the handler of an exception does not return, and with enough
fuel for the name it gets to its loop. -/
theorem run_isrExceptionHandler (named : Named messages call) {no : UInt32} (low : no < 32)
    {fuel : Nat} (enough : (exceptionMessage no).length < fuel) (s : Kernel σ) :
    (isrExceptionHandler hw messages call fuel no).run.run s =
      (none, setTerminal (crashed no s.terminal) s) := by
  have ptr := (named.passed no low).1
  have name : printf terminalPutchar ((call (messages no)).withFuel fuel) exceptionNamed =
      Prog.forEach terminalPutchar (exceptionPrefix ++ (exceptionMessage no ++ [newline])) :=
    printf_string terminalPutchar (call (messages no)) (by decide) (by decide) rfl
      (by rw [ptr]; exact named.held no low) enough
  have literal : ∀ {fmt : Text}, Plain fmt.chars →
      printLiteral fmt = Prog.forEach terminalPutchar fmt.chars :=
    fun plain => printf_plain terminalPutchar .unread plain
  rw [isrExceptionHandler, if_pos low, literal systemCrashed_plain, name, literal (by decide)]
  exact run_crash _ _ _ fuel s

theorem isrExceptionHandler_diverges (messages : UInt32 → UInt32) (call : UInt32 → PrintfFrame)
    (fuel : Nat) {no : UInt32} (low : no < 32) :
    Diverges (isrExceptionHandler hw messages call fuel no).run := by
  rw [isrExceptionHandler, if_pos low]
  simp only [Prog.run_bind]
  refine Diverges.after fun _ => Diverges.after fun _ => Diverges.after fun _ =>
    Diverges.after fun _ => ?_
  exact fun s => congrArg Prod.fst (run_spin fuel s)

/-- Whatever an exception interrupts, its stub has pushed its vector, with or without an
error code of the processor. -/
theorem stub_intNo {v : UInt8} {stub : Stub} (entry : (v, stub) ∈ idtEntries) (s : Cpu)
    (code : Option UInt32) (base handler back : UInt32) :
    (stub.registers s base code handler back).intNo = v.toUInt32 := by
  have read : ∀ vs : List UInt32, vs.length ≤ 1 → stub.own = .cli :: (vs ++ [v.toUInt32]).map .pushImm →
      (stub.registers s base code handler back).intNo = v.toUInt32 := by
    rintro vs short own
    obtain ⟨mem, p, sp, held, words⟩ := registers_hold s base handler back (vs ++ [v.toUInt32])
      stub.jmp code (by rw [List.length_append]; exact Nat.succ_le_succ short)
    rw [← own] at held
    rw [held]
    rw [List.reverse_append, List.reverse_singleton] at words
    exact words.get (i := 9) rfl
  rcases idtEntries_own (v, stub) entry with own | own
  · exact read [] (Nat.zero_le 1) own
  · exact read [0] (Nat.le_refl 1) own

/-- The page an exception leaves. -/
structure CrashPage (no : UInt32) (t : Terminal) : Prop where
  color : t.color = vgaEntryColor vgaColorWhite vgaColorBlue
  buffer : t.buffer = vgaAddress
  cells : ∀ y < vgaHeight, ∀ x < vgaWidth, t.cell (y * vgaWidth + x) =
    shade t.color ((pageOf (crashText no)).glyph vgaHeight y x)

theorem crashed_page (no : UInt32) (t : Terminal) : CrashPage no (crashed no t) := by
  obtain ⟨shown, painted⟩ := cleared_shows vgaColorWhite vgaColorBlue t
  have whole := painted.trans (write_inside shown.inside (crashText no)).2
  exact ⟨whole.color, whole.buffer, (shown.write (crashText no)).cells⟩

/-- Every exception the table has a gate for ends on the page that names it, whatever was
interrupted: the handler never returns, and changes nothing but the terminal. -/
theorem exceptions_crash (named : Named messages call) {v : UInt8} {stub : Stub}
    (entry : (v, stub) ∈ idtEntries) (low : v < 32) (s : Cpu) (code : Option UInt32)
    (base handler back : UInt32) (k : Kernel σ) :
    let no := (stub.registers s base code handler back).intNo
    (∀ fuel, ((isrExceptionHandler hw messages call fuel no).run.run k).1 = none) ∧
      ∃ t, CrashPage v.toUInt32 t ∧ ∀ fuel, 35 ≤ fuel →
        (isrExceptionHandler hw messages call fuel no).run.run k = (none, setTerminal t k) := by
  have low' : v.toUInt32 < 32 := low
  rw [stub_intNo entry]
  refine ⟨fun fuel => isrExceptionHandler_diverges hw messages call fuel low' k, _,
    crashed_page v.toUInt32 k.terminal, fun fuel enough => ?_⟩
  have short := exceptionMessage_short v.toUInt32
  exact run_isrExceptionHandler hw named low' (by omega) k

/-- A memory that holds the names of the exceptions, 64 bytes for each. -/
def namesFrom : Mem := fun a =>
  (exceptionMessage ((a - 0x100000) / 64)).getD ((a - 0x100000) % 64).toNat 0

/-- A call of `printf` whose argument lies at `0x1000`. -/
def namingCall (w : UInt32) : PrintfFrame where
  mem := namesFrom.write 0x1000 (bytes32 w)
  args := 0x1000
  buffer _ _ := 0
  fuel := 0

theorem namingCall_named : Named (fun no => 0x100000 + 64 * no) namingCall where
  passed no _ := ⟨Mem.load32_write _ _ _, trivial⟩
  held no low := by
    have short := exceptionMessage_short no
    have bound := UInt32.lt_iff_toNat_lt.mp low
    change no.toNat < 32 at bound
    refine (holdsString_getD (exceptionMessage_noNul no)).congr fun i inside => ?_
    have place : (0x100000 + 64 * no + UInt32.ofNat i).toNat = 0x100000 + 64 * no.toNat + i := by
      simp only [UInt32.toNat_add, UInt32.toNat_mul, UInt32.toNat_ofNat', UInt32.reduceToNat]
      omega
    generalize at' : 0x100000 + 64 * no + UInt32.ofNat i = x at place
    have behind : (x - 0x1000).toNat = 0xFF000 + 64 * no.toNat + i := by
      simp only [UInt32.toNat_sub, UInt32.reduceToNat, place]
      omega
    have offset : (x - 0x100000).toNat = 64 * no.toNat + i := by
      simp only [UInt32.toNat_sub, UInt32.reduceToNat, place]
      omega
    have slot : (x - 0x100000) / 64 = no := by
      apply UInt32.toNat_inj.mp
      simp only [UInt32.toNat_div, offset, UInt32.reduceToNat]
      omega
    have index : ((x - 0x100000) % 64).toNat = i := by
      simp only [UInt32.toNat_mod, offset, UInt32.reduceToNat]
      omega
    have kept : (namingCall (0x100000 + 64 * no)).mem x = namesFrom x :=
      Mem.write_beyond _ (fits_bytes32 _) (by rw [behind]; change 4 ≤ _; omega)
    change (namingCall (0x100000 + 64 * no)).mem (0x100000 + 64 * no + UInt32.ofNat i) = _
    rw [at', kept, namesFrom, slot, index]

theorem exceptions_crash_page_fault : ∃ t, CrashPage 14 t ∧
    (isrExceptionHandler byteQueue (fun no => 0x100000 + 64 * no) namingCall 35
      (exception14.registers kernelCpu 0x100000 (some 2) 0x102000 0x100020).intNo).run.run
        (zeroed []) = (none, setTerminal t (zeroed [])) := by
  obtain ⟨_, t, page, ends⟩ := exceptions_crash byteQueue namingCall_named
    (show (14, exception14) ∈ idtEntries by decide) (by decide) kernelCpu (some 2) 0x100000
    0x102000 0x100020 (zeroed [])
  exact ⟨t, page, ends 35 (Nat.le_refl 35)⟩

end Handler

end VDK
