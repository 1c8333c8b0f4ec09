import LoliOS.Idt.Dispatch
import Mathlib.Data.List.Basic

/-!
# The IRQ handler registry

The `idt.c` of `_projects` is an earlier dispatcher: it keeps one callback per
IRQ line in `irq_handlers`, and its `handle_interrupt` calls the callback of the
line a trap came in on, then acknowledges the line at the PIC. Drivers register
and unregister callbacks; registering unmasks the line and unregistering masks
it. `enable_irq`, `disable_irq` and `send_eoi` belong to `i8259.c`, which is not
among the sources: the PIC is modelled by its mask, one flag per line, and the
acknowledgement by an `Effect`.

Over every run of registrations, unregistrations and traps, the slot and the
mask of a line are what the last operation on that line left, whatever happened
on the other lines, and a trap on the line calls that slot's callback and then
acknowledges the line once.
-/

namespace LoliOS
namespace Idt
namespace Projects

/-- `irq_handlers` and the PIC mask: the callback of each line (`none` for
`NULL`, callbacks named by their address) and whether the line is unmasked. -/
structure IrqState where
  irqHandlers : Fin 16 -> Option Nat
  enabled : Fin 16 -> Bool

/-- Modelled from the spec: `i8259_init` is not among the sources. At boot
`irq_handlers` is zero (a static array) and every line is masked, so that a
line is unmasked only by `register_irq_handler`. -/
def IrqState.init : IrqState := ⟨fun _ => none, fun _ => false⟩

/-- Modelled from the spec: `i8259.c` is not among the sources. `enable_irq`
unmasks one line. -/
def enableIrq (s : IrqState) (irqNum : Fin 16) : IrqState :=
  { s with enabled := Function.update s.enabled irqNum true }

/-- Modelled from the spec: `i8259.c` is not among the sources. `disable_irq`
masks one line. -/
def disableIrq (s : IrqState) (irqNum : Fin 16) : IrqState :=
  { s with enabled := Function.update s.enabled irqNum false }

/-- `register_irq_handler`; its `ASSERT(irq_num >= 0 && irq_num < 16)` is the
type of `irqNum`. -/
def registerIrqHandler (s : IrqState) (irqNum : Fin 16) (callback : Option Nat) : IrqState :=
  enableIrq { s with irqHandlers := Function.update s.irqHandlers irqNum callback } irqNum

def unregisterIrqHandler (s : IrqState) (irqNum : Fin 16) : IrqState :=
  let s := disableIrq s irqNum
  { s with irqHandlers := Function.update s.irqHandlers irqNum none }

/-- The line of an IRQ vector, in range on the one path that computes it. -/
def irqLine (regs : IntRegs) (h : intIrq0 ≤ regs.intNum ∧ regs.intNum ≤ intIrq15) : Fin 16 :=
  ⟨(regs.intNum - intIrq0).toNat, by simp only [intIrq0, intIrq15] at h ⊢; bv_omega⟩

/-- `handle_exception`; `exc_info_table` holds the strings of `exception_names`.
Modelled from the spec: `halt()` is in `lib.c`, not among the sources, and stops
the system for good. -/
def handleException (regs : IntRegs) : List Effect × Outcome :=
  ([.clearScreen, .print banner, .printName "Exception: %s\n" regs.intNum.toNat, .print banner,
    .dumpRegisters regs], .loops)

def handleIrq (s : IrqState) (regs : IntRegs) (h : intIrq0 ≤ regs.intNum ∧ regs.intNum ≤ intIrq15) :
    List Effect :=
  let irqNum := regs.intNum - intIrq0
  let handler := s.irqHandlers (irqLine regs h)
  [.log "IRQ interrupt: %d\n" irqNum] ++
    (match handler with
     | some callback => [.callback callback]
     | none => []) ++
    [.sendEoi irqNum]

/-- `handle_syscall`: its `switch` on `eax` has no case yet. -/
def handleSyscall (regs : IntRegs) : List Effect :=
  [.log "Syscall: %d\n" regs.eax]

def handleInterrupt (s : IrqState) (regs : IntRegs) : List Effect × Outcome :=
  if regs.intNum < numExc then handleException regs
  else if h : intIrq0 ≤ regs.intNum ∧ regs.intNum ≤ intIrq15 then (handleIrq s regs h, .returns regs)
  else if regs.intNum = intSyscall then (handleSyscall regs, .returns regs)
  else ([.log "Unknown interrupt: %d\n" regs.intNum], .returns regs)

/-!
# Runs of registrations and traps
-/

/-- A driver's registration or unregistration, or a trap. `handle_interrupt`
writes neither `irq_handlers` nor the mask, so a trap leaves both as they were. -/
inductive IrqOp
  | register (irqNum : Fin 16) (callback : Option Nat)
  | unregister (irqNum : Fin 16)
  | trap (regs : IntRegs)

def irqStep (s : IrqState) : IrqOp -> IrqState
  | .register irqNum callback => registerIrqHandler s irqNum callback
  | .unregister irqNum => unregisterIrqHandler s irqNum
  | .trap _ => s

def irqRun (s : IrqState) (ops : List IrqOp) : IrqState :=
  ops.foldl irqStep s

def IrqOp.line? : IrqOp -> Option (Fin 16)
  | .register irqNum _ => some irqNum
  | .unregister irqNum => some irqNum
  | .trap _ => none

def IrqOp.slot : IrqOp -> Option Nat
  | .register _ callback => callback
  | _ => none

def IrqOp.unmasks : IrqOp -> Bool
  | .register .. => true
  | _ => false

def lastOp? (l : Fin 16) (ops : List IrqOp) : Option IrqOp :=
  (ops.filter fun op => op.line? = some l).getLast?

/-- The callback most recently registered on line `l`: `none` when the line was
never registered, or registered with `NULL`, or unregistered since. -/
def lastCallback (l : Fin 16) (ops : List IrqOp) : Option Nat :=
  (lastOp? l ops).bind IrqOp.slot

theorem irqStep_irqHandlers (s : IrqState) (op : IrqOp) (l : Fin 16) :
    (irqStep s op).irqHandlers l = if op.line? = some l then op.slot else s.irqHandlers l := by
  cases op <;>
    simp [irqStep, registerIrqHandler, unregisterIrqHandler, enableIrq, disableIrq,
      Function.update_apply, IrqOp.line?, IrqOp.slot, eq_comm]

theorem irqStep_enabled (s : IrqState) (op : IrqOp) (l : Fin 16) :
    (irqStep s op).enabled l = if op.line? = some l then op.unmasks else s.enabled l := by
  cases op <;>
    simp [irqStep, registerIrqHandler, unregisterIrqHandler, enableIrq, disableIrq,
      Function.update_apply, IrqOp.line?, IrqOp.unmasks, eq_comm]

theorem lastOp?_snoc (l : Fin 16) (ops : List IrqOp) (op : IrqOp) :
    lastOp? l (ops ++ [op]) = if op.line? = some l then some op else lastOp? l ops := by
  by_cases h : op.line? = some l <;> simp [lastOp?, h]

theorem irqRun_snoc (s : IrqState) (ops : List IrqOp) (op : IrqOp) :
    irqRun s (ops ++ [op]) = irqStep (irqRun s ops) op := by
  simp [irqRun]

theorem irqRun_irqHandlers (s : IrqState) (ops : List IrqOp) (l : Fin 16) :
    (irqRun s ops).irqHandlers l =
      match lastOp? l ops with
      | some op => op.slot
      | none => s.irqHandlers l := by
  induction ops using List.reverseRecOn with
  | nil => rfl
  | append_singleton ops op ih =>
      rw [irqRun_snoc, irqStep_irqHandlers, lastOp?_snoc, ih]
      split_ifs <;> rfl

theorem irqRun_enabled (s : IrqState) (ops : List IrqOp) (l : Fin 16) :
    (irqRun s ops).enabled l =
      match lastOp? l ops with
      | some op => op.unmasks
      | none => s.enabled l := by
  induction ops using List.reverseRecOn with
  | nil => rfl
  | append_singleton ops op ih =>
      rw [irqRun_snoc, irqStep_enabled, lastOp?_snoc, ih]
      split_ifs <;> rfl

theorem line?_of_mem_lastOp? {l : Fin 16} {ops : List IrqOp} {op : IrqOp}
    (h : lastOp? l ops = some op) : op.line? = some l := by
  have hmem := List.mem_of_getLast?_eq_some h
  simpa using (List.mem_filter.mp hmem).2

/-!
# A trap on an IRQ vector
-/

theorem irqVector_toNat (l : Fin 16) : (intIrq0 + BitVec.ofNat 32 l).toNat = 0x20 + l := by
  have h0 : intIrq0.toNat = 0x20 := rfl
  have := l.isLt
  rw [BitVec.toNat_add, h0, BitVec.toNat_ofNat]
  omega

theorem irqLine_irqVector (regs : IntRegs) (l : Fin 16) (h) :
    irqLine { regs with intNum := intIrq0 + BitVec.ofNat 32 l } h = l := by
  have h0 : intIrq0.toNat = 0x20 := rfl
  have := irqVector_toNat l
  ext
  simp only [irqLine, BitVec.toNat_sub, h0] at *
  omega

theorem handleInterrupt_irqVector (s : IrqState) (regs : IntRegs) (l : Fin 16) :
    handleInterrupt s { regs with intNum := intIrq0 + BitVec.ofNat 32 l } =
      ([.log "IRQ interrupt: %d\n" (BitVec.ofNat 32 l)] ++
        (s.irqHandlers l).toList.map Effect.callback ++ [.sendEoi (BitVec.ofNat 32 l)],
       .returns { regs with intNum := intIrq0 + BitVec.ofNat 32 l }) := by
  have hv := irqVector_toNat l
  have hexc : ¬intIrq0 + BitVec.ofNat 32 l < numExc := by
    rw [BitVec.lt_def, hv]; exact fun h => absurd h (by show ¬(_ < 20); omega)
  have hirq : intIrq0 ≤ intIrq0 + BitVec.ofNat 32 l ∧ intIrq0 + BitVec.ofNat 32 l ≤ intIrq15 := by
    have := l.isLt
    simp only [BitVec.le_def, hv]; exact ⟨by show 0x20 ≤ _; omega, by show _ ≤ 0x2F; omega⟩
  have hsub : intIrq0 + BitVec.ofNat 32 l - intIrq0 = BitVec.ofNat 32 l := by
    rw [BitVec.add_comm, BitVec.add_sub_cancel]
  simp only [handleInterrupt, if_neg hexc, dif_pos hirq, handleIrq, irqLine_irqVector, hsub]
  cases s.irqHandlers l <;> rfl

/-- Every run of registrations, unregistrations and traps from boot: a trap on
the vector of line `l` calls the callback most recently registered there, then
acknowledges `l` once; `l` is unmasked exactly when its last operation was a
registration; and an operation on `l` leaves every other line as it was. -/
theorem irqRun_registry (ops : List IrqOp) (l : Fin 16) (regs : IntRegs) :
    let s := irqRun IrqState.init ops
    let trapRegs := { regs with intNum := intIrq0 + BitVec.ofNat 32 l }
    handleInterrupt s trapRegs =
      ([.log "IRQ interrupt: %d\n" (BitVec.ofNat 32 l)] ++
        (lastCallback l ops).toList.map Effect.callback ++ [.sendEoi (BitVec.ofNat 32 l)],
       .returns trapRegs) ∧
    (s.enabled l = true ↔ ∃ callback, lastOp? l ops = some (.register l callback)) ∧
    (∀ s' op, op.line? = some l → ∀ l', l' ≠ l →
      (irqStep s' op).irqHandlers l' = s'.irqHandlers l' ∧
      (irqStep s' op).enabled l' = s'.enabled l') := by
  refine ⟨?_, ?_, fun s' op hop l' hl' => ?_⟩
  · rw [handleInterrupt_irqVector, irqRun_irqHandlers, lastCallback]
    cases lastOp? l ops <;> rfl
  · rw [irqRun_enabled]
    rcases hlast : lastOp? l ops with _ | op
    · simp [IrqState.init]
    · have hline := line?_of_mem_lastOp? hlast
      cases op <;> simp_all [IrqOp.unmasks, IrqOp.line?]
  · have hne : op.line? ≠ some l' := by rw [hop]; simpa using hl'.symm
    simp [irqStep_irqHandlers, irqStep_enabled, hne]

end Projects
end Idt
end LoliOS
