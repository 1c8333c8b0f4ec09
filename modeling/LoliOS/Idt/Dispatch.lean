import LoliOS.Lib

/-!
# The trap dispatcher

`idt_handle_interrupt` of `idt.c` classifies the vector of a register snapshot
and runs the exception, IRQ or syscall path, then drains the pending signals of
the executing process when the trap came from user code. Its calls into the
process, signal, IRQ and syscall subsystems, and its console output, are the
`Effect`s it produces in order; `loop()` is a call that never returns.

The vector numbers and segment selectors come from `idt.h` and `x86_desc.h`,
which are not among the sources.
-/

namespace LoliOS
namespace Idt

/-- `NUM_EXC`: twenty, the length of `exception_names`, whose entries are the
exception vectors from `EXC_DE` up. -/
def numExc : BitVec 32 := 0x14

/-- `EXC_DE`, vector 0: the divide error, first entry of `exception_names`. -/
def excDE : BitVec 32 := 0x00

/-- `INT_IRQ0`: 0x20, the first vector past the 32 that x86 reserves for
exceptions, where the PIC is conventionally remapped; the sixteen lines have
consecutive vectors. -/
def intIrq0 : BitVec 32 := 0x20

/-- `INT_IRQ15`, the last of the sixteen consecutive IRQ vectors. -/
def intIrq15 : BitVec 32 := 0x2F

/-- `INT_SYSCALL`: 0x80, the system call vector of the `int $0x80` convention,
outside the exception and IRQ ranges. -/
def intSyscall : BitVec 32 := 0x80

/-- `USER_CS`: 0x23, the selector of GDT entry 4 at privilege level 3, the user
code segment of the usual x86 GDT layout. -/
def userCs : BitVec 32 := 0x23

/-- `exception_names` -/
def exceptionNames : List String :=
  ["Divide error exception", "Debug exception", "Nonmaskable interrupt",
   "Breakpoint exception", "Overflow exception", "Bound range exceeded exception",
   "Invalid opcode exception", "Device not available exception", "Double fault exception",
   "Coprocessor segment overrun", "Invalid TSS exception", "Segment not present",
   "Stack fault exception", "General protection exception", "Page-fault exception",
   "Entry reserved", "Floating-point error", "Alignment check exception",
   "Machine-check exception", "SIMD floating-point exception"]

/-- `int_regs_t`: the registers `dump_registers` prints. -/
structure IntRegs where
  intNum : BitVec 32
  errorCode : BitVec 32
  eax : BitVec 32
  ebx : BitVec 32
  ecx : BitVec 32
  edx : BitVec 32
  esi : BitVec 32
  edi : BitVec 32
  ebp : BitVec 32
  esp : BitVec 32
  eip : BitVec 32
  eflags : BitVec 32
  cs : BitVec 32
  ds : BitVec 32
  es : BitVec 32
  fs : BitVec 32
  gs : BitVec 32
  ss : BitVec 32
  cr0 : BitVec 32
  cr2 : BitVec 32
  cr3 : BitVec 32
  cr4 : BitVec 32
deriving DecidableEq, Repr

/-- `SIG_DIV_ZERO` and `SIG_SEGFAULT` of `signal.h`, which is not among the
sources: the two signals exceptions are turned into. -/
inductive Signal
  | divZero
  | segfault
deriving DecidableEq, Repr

/-- A call the dispatcher makes, in program order. `printName` is a `printf` or
`debugf` of `exception_names[index]`. `callback` (a registered IRQ callback,
named by its address) and `sendEoi` are made by the earlier dispatcher of
`_projects`, which runs IRQ callbacks itself. -/
inductive Effect
  | log (format : String) (arg : BitVec 32)
  | printName (format : String) (index : Nat)
  | print (text : String)
  | clearScreen
  | dumpRegisters (regs : IntRegs)
  | signalRaise (pid : Nat) (signal : Signal)
  | irqHandleInterrupt (irqNum : BitVec 32)
  | syscallHandle (ebx ecx edx : BitVec 32) (regs : IntRegs) (eax : BitVec 32)
  | signalHandleAll (regs : IntRegs)
  | callback (address : Nat)
  | sendEoi (irqNum : BitVec 32)
deriving DecidableEq, Repr

/-- How a call ends: it returns with the snapshot as it left it, or it never
returns (`loop()`). -/
inductive Outcome
  | returns (regs : IntRegs)
  | loops
deriving DecidableEq, Repr

def banner : String := "****************************************\n"

section Collaborators

-- `get_executing_pcb()->pid` and `syscall_handle`, outside the core
variable (pid : Nat) (syscallHandle : BitVec 32 -> BitVec 32 -> BitVec 32 -> IntRegs -> BitVec 32 -> BitVec 32)

def handleUserException (intNum : BitVec 32) : List Effect :=
  [.printName "Userspace exception: %s\n" intNum.toNat,
   .signalRaise pid (if intNum = excDE then .divZero else .segfault)]

def handleException (regs : IntRegs) : List Effect × Outcome :=
  if regs.cs = userCs then (handleUserException pid regs.intNum, .returns regs)
  else
    ([.clearScreen, .print banner, .printName "Exception: %s\n" regs.intNum.toNat, .print banner,
      .dumpRegisters regs], .loops)

def handleIrq (regs : IntRegs) : List Effect :=
  [.irqHandleInterrupt (regs.intNum - intIrq0)]

def handleSyscall (regs : IntRegs) : List Effect × IntRegs :=
  let eax := syscallHandle regs.ebx regs.ecx regs.edx regs regs.eax
  ([.log "Syscall: %d\n" regs.eax, .syscallHandle regs.ebx regs.ecx regs.edx regs regs.eax,
    .log "Return value: 0x%#x\n" eax], { regs with eax := eax })

/-- The classification chain of `idt_handle_interrupt`. -/
def dispatchPath (regs : IntRegs) : List Effect × Outcome :=
  if regs.intNum < numExc then handleException pid regs
  else if intIrq0 ≤ regs.intNum ∧ regs.intNum ≤ intIrq15 then (handleIrq regs, .returns regs)
  else if regs.intNum = intSyscall then
    let r := handleSyscall syscallHandle regs
    (r.1, .returns r.2)
  else ([.log "Unknown interrupt: %d\n" regs.intNum], .returns regs)

/-- The tail of `idt_handle_interrupt`: `signal_handle_all` when the trapped
context was user code. -/
def signalTail : List Effect × Outcome -> List Effect × Outcome
  | (effects, .loops) => (effects, .loops)
  | (effects, .returns regs) =>
      if regs.cs = userCs then (effects ++ [.signalHandleAll regs], .returns regs)
      else (effects, .returns regs)

def idtHandleInterrupt (regs : IntRegs) : List Effect × Outcome :=
  signalTail (dispatchPath pid syscallHandle regs)

/-!
# The five paths
-/

theorem dispatchPath_exception (regs : IntRegs) (h : regs.intNum < numExc) :
    dispatchPath pid syscallHandle regs = handleException pid regs := by
  simp [dispatchPath, h]

theorem dispatchPath_irq (regs : IntRegs) (h0 : intIrq0 ≤ regs.intNum) (h15 : regs.intNum ≤ intIrq15) :
    dispatchPath pid syscallHandle regs = (handleIrq regs, .returns regs) := by
  have hexc : ¬regs.intNum < numExc := by simp only [intIrq0, numExc] at *; bv_omega
  simp [dispatchPath, hexc, h0, h15]

theorem dispatchPath_syscall (regs : IntRegs) (h : regs.intNum = intSyscall) :
    dispatchPath pid syscallHandle regs =
      ((handleSyscall syscallHandle regs).1, .returns (handleSyscall syscallHandle regs).2) := by
  have hexc : ¬regs.intNum < numExc := by rw [h]; decide
  have hirq : ¬(intIrq0 ≤ regs.intNum ∧ regs.intNum ≤ intIrq15) := by rw [h]; decide
  rw [dispatchPath, if_neg hexc, if_neg hirq, if_pos h]

theorem dispatchPath_unknown (regs : IntRegs) (hexc : ¬regs.intNum < numExc)
    (hirq : ¬(intIrq0 ≤ regs.intNum ∧ regs.intNum ≤ intIrq15)) (hsys : regs.intNum ≠ intSyscall) :
    dispatchPath pid syscallHandle regs =
      ([.log "Unknown interrupt: %d\n" regs.intNum], .returns regs) := by
  rw [dispatchPath, if_neg hexc, if_neg hirq, if_neg hsys]

/-- `idt_handle_interrupt` on any snapshot takes the one path its vector selects
and does exactly that path's calls, followed by `signal_handle_all` on the
snapshot the path returns when the trap came from user code. Only the syscall
path changes the snapshot, and every `exception_names` lookup is in bounds. -/
theorem idtHandleInterrupt_paths (regs : IntRegs) :
    (regs.intNum < numExc → regs.cs = userCs →
      idtHandleInterrupt pid syscallHandle regs =
        ([.printName "Userspace exception: %s\n" regs.intNum.toNat,
          .signalRaise pid (if regs.intNum = excDE then .divZero else .segfault),
          .signalHandleAll regs], .returns regs)) ∧
    (regs.intNum < numExc → regs.cs ≠ userCs →
      idtHandleInterrupt pid syscallHandle regs =
        ([.clearScreen, .print banner, .printName "Exception: %s\n" regs.intNum.toNat,
          .print banner, .dumpRegisters regs], .loops)) ∧
    (intIrq0 ≤ regs.intNum → regs.intNum ≤ intIrq15 →
      (regs.intNum - intIrq0).toNat < 16 ∧
      idtHandleInterrupt pid syscallHandle regs =
        (.irqHandleInterrupt (regs.intNum - intIrq0) ::
          (if regs.cs = userCs then [.signalHandleAll regs] else []), .returns regs)) ∧
    (regs.intNum = intSyscall →
      let regs' := { regs with eax := syscallHandle regs.ebx regs.ecx regs.edx regs regs.eax }
      idtHandleInterrupt pid syscallHandle regs =
        ([.log "Syscall: %d\n" regs.eax, .syscallHandle regs.ebx regs.ecx regs.edx regs regs.eax,
          .log "Return value: 0x%#x\n" regs'.eax] ++
          (if regs.cs = userCs then [.signalHandleAll regs'] else []), .returns regs')) ∧
    (¬regs.intNum < numExc → ¬(intIrq0 ≤ regs.intNum ∧ regs.intNum ≤ intIrq15) →
      regs.intNum ≠ intSyscall →
      idtHandleInterrupt pid syscallHandle regs =
        (.log "Unknown interrupt: %d\n" regs.intNum ::
          (if regs.cs = userCs then [.signalHandleAll regs] else []), .returns regs)) ∧
    (regs.intNum < numExc → regs.intNum.toNat < exceptionNames.length) := by
  refine ⟨fun h1 h2 => ?_, fun h1 h2 => ?_, fun h0 h15 => ⟨?_, ?_⟩, fun h => ?_, fun h1 h2 h3 => ?_,
    fun h => BitVec.lt_def.mp h⟩
  · -- exception from user code
    rw [idtHandleInterrupt, dispatchPath_exception _ _ _ h1, handleException, if_pos h2]
    simp [signalTail, handleUserException, h2]
  · -- exception from the kernel
    rw [idtHandleInterrupt, dispatchPath_exception _ _ _ h1, handleException, if_neg h2]
    rfl
  · simp only [intIrq0, intIrq15] at *; bv_omega
  · rw [idtHandleInterrupt, dispatchPath_irq _ _ _ h0 h15]
    by_cases hcs : regs.cs = userCs <;> simp [signalTail, handleIrq, hcs]
  · rw [idtHandleInterrupt, dispatchPath_syscall _ _ _ h]
    by_cases hcs : regs.cs = userCs <;> simp [signalTail, handleSyscall, hcs]
  · rw [idtHandleInterrupt, dispatchPath_unknown _ _ _ h1 h2 h3]
    by_cases hcs : regs.cs = userCs <;> simp [signalTail, hcs]

end Collaborators

end Idt
end LoliOS
