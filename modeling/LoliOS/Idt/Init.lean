import LoliOS.Idt.Dispatch

/-!
# The interrupt descriptor table

`idt_init` of `idt.c` fills the table from one template descriptor: the
exception vectors, then every other vector with the unknown-interrupt stub, the
sixteen IRQ vectors with their stubs, and last the syscall vector, whose
privilege level is raised to 3. Every descriptor it writes has `reserved3 = 0`,
which makes it an interrupt gate: the processor clears `IF` when it enters the
handler through it.

The descriptor layout and `NUM_VEC` come from `x86_desc.h` and `idt.h`, which
are not among the sources. A descriptor is modelled by the fields `idt_init`
writes; the two offset halves together are the entry stub `SET_IDT_ENTRY`
points them at.
-/

namespace LoliOS
namespace Idt

/-- `NUM_VEC`: 256, the number of gates an x86 interrupt descriptor table holds. -/
def numVec : Nat := 256

/-- `KERNEL_CS`: 0x10, the selector of GDT entry 2 at privilege level 0, the
kernel code segment of the usual x86 GDT layout. -/
def kernelCs : BitVec 16 := 0x10

/-- The entry stub a descriptor's offset points at: none (offset `0`), one of
`idt_handle_exc_de` ... `idt_handle_exc_xf`, `idt_handle_int_unknown`,
`idt_handle_int_irq0` ... `idt_handle_int_irq15`, or `idt_handle_int_syscall`. -/
inductive IdtHandler
  | none
  | exc (num : Nat)
  | intUnknown
  | irq (line : Nat)
  | syscall
deriving DecidableEq, Repr

/-- `idt_desc_t`, a gate descriptor; its one-bit and two-bit fields are naturals. -/
structure IdtDesc where
  offset : IdtHandler
  segSelector : BitVec 16
  reserved4 : Nat
  reserved3 : Nat
  reserved2 : Nat
  reserved1 : Nat
  size : Nat
  reserved0 : Nat
  dpl : Nat
  present : Nat
deriving DecidableEq, Repr

/-- Whether entering a handler through `desc` clears `IF`: an interrupt gate
(`reserved3 = 0`) does, a trap gate (`reserved3 = 1`) does not. -/
def IdtDesc.clearsIf (desc : IdtDesc) : Bool := desc.reserved3 = 0

/-- The template descriptor `idt_init` starts from. -/
def descTemplate : IdtDesc :=
  { present := 1, dpl := 0, reserved0 := 0, size := 1, reserved1 := 1, reserved2 := 1,
    reserved3 := 1, reserved4 := 0, segSelector := kernelCs, offset := .none }

/-- `SET_IDT_ENTRY(idt[i], handler)` -/
def setIdtEntry (idt : Nat -> IdtDesc) (i : Nat) (handler : IdtHandler) : Nat -> IdtDesc :=
  Function.update idt i { idt i with offset := handler }

/-- `idt_init` on the table `idt` as the boot image left it. The twenty
`WRITE_IDT_ENTRY` lines of the exceptions write vector `EXC_*` = `i` with the
stub of exception `i`, and those of the IRQs vector `INT_IRQ0 + l` with the
stub of line `l`. -/
def idtInit (idt : Nat -> IdtDesc) : Nat -> IdtDesc :=
  let desc := { descTemplate with dpl := 0, reserved3 := 0 }
  let idt := (List.range numExc.toNat).foldl (fun idt i => Function.update idt i desc) idt
  let idt := (List.range numExc.toNat).foldl (fun idt i => setIdtEntry idt i (.exc i)) idt
  let desc := { desc with dpl := 0, reserved3 := 0 }
  let idt := (List.range' numExc.toNat (numVec - numExc.toNat)).foldl
    (fun idt i => setIdtEntry (Function.update idt i desc) i .intUnknown) idt
  let idt := (List.range 16).foldl (fun idt l => setIdtEntry idt (intIrq0.toNat + l) (.irq l)) idt
  let idt := Function.update idt intSyscall.toNat { idt intSyscall.toNat with dpl := 3 }
  setIdtEntry idt intSyscall.toNat .syscall

/-!
# Every gate is an interrupt gate
-/

theorem setIdtEntry_reserved3 (idt : Nat -> IdtDesc) (i : Nat) (handler : IdtHandler) (v : Nat) :
    (setIdtEntry idt i handler v).reserved3 = (idt v).reserved3 := by
  by_cases h : v = i
  · subst h; simp [setIdtEntry]
  · simp [setIdtEntry, Function.update_noteq h]

theorem foldl_setIdtEntry_reserved3 (xs : List Nat) (slot : Nat -> Nat)
    (handler : Nat -> IdtHandler) (idt : Nat -> IdtDesc) (v : Nat) :
    (xs.foldl (fun idt i => setIdtEntry idt (slot i) (handler i)) idt v).reserved3 =
      (idt v).reserved3 := by
  induction xs generalizing idt with
  | nil => rfl
  | cons x xs ih => rw [List.foldl_cons, ih, setIdtEntry_reserved3]

theorem foldl_fill_reserved3 (xs : List Nat) (desc : IdtDesc)
    (f : (Nat -> IdtDesc) -> Nat -> Nat -> IdtDesc)
    (hf : ∀ idt i v, (f idt i v).reserved3 = (idt v).reserved3) (idt : Nat -> IdtDesc) (v : Nat) :
    (xs.foldl (fun idt i => f (Function.update idt i desc) i) idt v).reserved3 =
      if v ∈ xs then desc.reserved3 else (idt v).reserved3 := by
  induction xs generalizing idt with
  | nil => rfl
  | cons x xs ih =>
      rw [List.foldl_cons, ih, hf]
      by_cases hx : v = x
      · subst hx; simp
      · simp [hx, Function.update_noteq hx]

/-- After `idt_init`, every one of the `NUM_VEC` gates is an interrupt gate, the
syscall gate included. -/
theorem idtInit_clearsIf (idt : Nat -> IdtDesc) {v : Nat} (hv : v < numVec) :
    (idtInit idt v).clearsIf = true := by
  have hsys : intSyscall.toNat = 0x80 := rfl
  have hunknown := fun xs desc => foldl_fill_reserved3 xs desc
    (fun idt i => setIdtEntry idt i .intUnknown) (fun _ _ _ => setIdtEntry_reserved3 ..)
  simp only [IdtDesc.clearsIf, idtInit, decide_eq_true_eq]
  rw [setIdtEntry_reserved3]
  by_cases hs : v = intSyscall.toNat
  · subst hs
    simp only [Function.update_same]
    rw [foldl_setIdtEntry_reserved3, hunknown, if_pos (by simp [numExc, numVec, hsys])]
  · rw [Function.update_noteq hs, foldl_setIdtEntry_reserved3, hunknown]
    split_ifs with hr
    · rfl
    · have hexc : v < numExc.toNat := by
        simp only [List.mem_range'_1, numVec] at hr hv
        omega
      rw [foldl_setIdtEntry_reserved3, foldl_fill_reserved3 _ _ (fun idt _ => idt) (fun _ _ _ => rfl),
        if_pos (List.mem_range.mpr hexc)]

end Idt
end LoliOS
