import LoliOS.Idt.Init
import LoliOS.Terminal.Input

/-!
# The blocking read against the keyboard interrupt

`terminal_read` runs as a syscall: it enters through the syscall gate, tests the
input buffer in the loop of `wait_until_readable`, and when there is nothing to
deliver yet executes `sti; hlt; cli` and tests again. The keyboard interrupt
handler appends to the same buffer. This module runs the two together on an
x86 processor: `IF` gates the interrupts, `sti` holds them off for one more
instruction, `hlt` stops the reader until an interrupt arrives, and entering a
handler through an interrupt gate clears `IF` (every gate `idt_init` writes is
one, `idtInit_clearsIf`).

A state is the reader's position, the interrupt flag with the `sti` shadow, the
interrupts the devices have raised and not yet delivered, and the input buffer.
The handler of a delivered interrupt runs in one step: it is entered through an
interrupt gate and does not enable interrupts. A keyboard interrupt whose packet
decodes to a character runs `handle_char_input` on it; any other interrupt
leaves the buffer alone.

Over every interleaving, the handler runs only while the reader is outside
`terminal_read` or inside `sti; hlt; cli`, and the reader is never halted while
its exit test would succeed.
-/

namespace LoliOS
namespace Terminal

open Idt

/-- Where the reader is: in user code, or before an instruction of
`terminal_read`. `scan i` is the `for` loop of `wait_until_readable` at `i`,
`copy i` the copy loop of `terminal_read` at `i`; `halted` is stopped in `hlt`. -/
inductive ReaderPc
  | user
  | loopTest
  | scan (i : Nat)
  | sti
  | hlt
  | halted
  | cli
  | copy (i : Nat)
  | shift (i : Nat)
  | decCount (i : Nat)
  | ret (i : Nat)
deriving DecidableEq, Repr

/-- The processor and the executing terminal's input buffer. `nbytes` is the
local of `terminal_read`, `out` the bytes copied to the user buffer so far, and
`pending` the interrupts raised and not yet delivered: `some c` a keystroke that
decodes to the character `c`, `none` any other interrupt. -/
structure Cpu where
  pc : ReaderPc
  ifFlag : Bool
  shadow : Bool
  pending : List (Option UInt8)
  input : InputBuf
  nbytes : Int
  out : List UInt8

/-- What can happen next: a device raises an interrupt, the processor delivers
the oldest pending one, the reader executes its next instruction, or user code
calls `read` with `nbytes`. -/
inductive CpuAction
  | raise (irq : Option UInt8)
  | interrupt
  | exec
  | syscall (nbytes : Int)

/-- The boot state: user code running with interrupts enabled. -/
def Cpu.init (input : InputBuf) : Cpu :=
  ⟨.user, true, false, [], input, 0, []⟩

/-- The sixteen IRQ gates of the table `idt_init` builds clear `IF` on entry. -/
def IrqGatesClearIf (idt : Nat -> IdtDesc) : Prop :=
  ∀ l < 16, (idtInit idt (intIrq0.toNat + l)).clearsIf = true

theorem irqGates_clearIf (idt : Nat -> IdtDesc) : IrqGatesClearIf idt := fun _ hl =>
  idtInit_clearsIf idt (by have : intIrq0.toNat = 32 := rfl; simp only [numVec]; omega)

-- decided by the theorem: every gate `idt_init` writes is an interrupt gate
instance (idt : Nat -> IdtDesc) : Decidable (IrqGatesClearIf idt) := isTrue (irqGates_clearIf idt)

section Machine

variable (terminalBufSize : Nat) (idt : Nat -> IdtDesc)

/-- One instruction of `terminal_read` and `wait_until_readable`. -/
def readerStep (s : Cpu) : Option Cpu :=
  match s.pc with
  | .user => none
  | .loopTest => some { s with pc := if s.input.count < s.nbytes then .scan 0 else .copy 0 }
  | .scan i =>
      some <|
        if (i : Int) < s.input.count then
          if s.input.buf i = newlineByte then { s with pc := .copy 0, nbytes := i + 1 }
          else { s with pc := .scan (i + 1) }
        else { s with pc := .sti }
  | .sti => some { s with pc := .hlt, ifFlag := true, shadow := true }
  | .hlt => some { s with pc := .halted, shadow := false }
  | .halted => none
  | .cli => some { s with pc := .loopTest, ifFlag := false }
  | .copy i =>
      some <|
        if (i : Int) < s.nbytes then { s with pc := .copy (i + 1), out := s.out ++ [s.input.buf i] }
        else { s with pc := .shift i }
  | .shift i => some { s with pc := .decCount i, input := { s.input with buf := memmove s.input.buf 0 i i } }
  | .decCount i => some { s with pc := .ret i, input := { s.input with count := s.input.count - i } }
  | .ret _ => some { s with pc := .user, ifFlag := true }

/-- `n` instructions of the reader with no interrupt in between. -/
def readerRun : Nat -> Cpu -> Option Cpu
  | 0, s => some s
  | n + 1, s => (readerStep s).bind (readerRun n)

/-- Delivery of the oldest pending interrupt when `IF` is set and no `sti` shadow
is in force. The handler is entered through an IRQ gate; since that gate clears
`IF`, nothing interrupts it, and it runs in one step to the `iret`, which restores
`IF`. A reader stopped in `hlt` resumes after it, at the `cli`. -/
def deliverInterrupt (s : Cpu) : Option Cpu :=
  match s.pending with
  | [] => none
  | irq :: rest =>
      if s.ifFlag ∧ ¬s.shadow ∧ IrqGatesClearIf idt then
        some { s with
          pending := rest
          input := match irq with
            | some c => bufferChar terminalBufSize s.input c
            | none => s.input
          pc := if s.pc = .halted then .cli else s.pc }
      else none

/-- `read(nbytes)` from user code: the trap through the syscall gate, and the
clamp of `nbytes` to `TERMINAL_BUF_SIZE` at the top of `terminal_read`. -/
def syscallEntry (s : Cpu) (nbytes : Int) : Option Cpu :=
  if s.pc = .user then
    some { s with
      pc := .loopTest
      ifFlag := if (idtInit idt intSyscall.toNat).clearsIf then false else s.ifFlag
      nbytes := if (terminalBufSize : Int) < nbytes then terminalBufSize else nbytes
      out := [] }
  else none

def cpuStep (s : Cpu) : CpuAction -> Option Cpu
  | .raise irq => some { s with pending := s.pending ++ [irq] }
  | .interrupt => deliverInterrupt terminalBufSize idt s
  | .exec => readerStep s
  | .syscall nbytes => syscallEntry terminalBufSize idt s nbytes

/-- The states reachable from boot, `idt` being the table `idt_init` started from. -/
inductive Reachable : Cpu -> Prop
  | init (input : InputBuf) : Reachable (Cpu.init input)
  | step {s s' : Cpu} (a : CpuAction) : Reachable s -> cpuStep terminalBufSize idt s a = some s' ->
      Reachable s'

/-!
# The invariant
-/

/-- The exit test of the wait loop succeeds: `count >= nbytes`, or a newline
among the live bytes. -/
def ExitCond (s : Cpu) : Prop :=
  s.nbytes ≤ s.input.count ∨ ∃ i : Nat, (i : Int) < s.input.count ∧ s.input.buf i = newlineByte

/-- What every reachable state satisfies: interrupts are enabled only in user
code and in `sti; hlt; cli`, the `sti` shadow covers exactly the `hlt`, the scan
has passed no newline, and while the reader waits its exit test fails. -/
structure ProtocolInv (s : Cpu) : Prop where
  window : s.ifFlag = true → s.pc = .user ∨ s.pc = .hlt ∨ s.pc = .halted ∨ s.pc = .cli
  shadow : s.shadow = true ↔ s.pc = .hlt
  scan : ∀ i, s.pc = .scan i →
    s.input.count < s.nbytes ∧ ∀ j : Nat, j < i → s.input.buf j ≠ newlineByte
  waiting : s.pc = .sti ∨ s.pc = .hlt ∨ s.pc = .halted → ¬ExitCond s

theorem protocolInv_init (input : InputBuf) : ProtocolInv (Cpu.init input) where
  window _ := .inl rfl
  shadow := by simp [Cpu.init]
  scan _ h := by cases h
  waiting h := by simp [Cpu.init] at h

theorem ProtocolInv.ifFlag_eq_false {s : Cpu} (hi : ProtocolInv s)
    (hpc : ¬(s.pc = .user ∨ s.pc = .hlt ∨ s.pc = .halted ∨ s.pc = .cli)) : s.ifFlag = false := by
  by_contra h
  exact hpc (hi.window (by simpa using h))

theorem ProtocolInv.of_busy {s : Cpu} (hif : s.ifFlag = false) (hsh : s.shadow = false)
    (hscan : ∀ i, s.pc ≠ .scan i) (hw : ¬(s.pc = .sti ∨ s.pc = .hlt ∨ s.pc = .halted)) :
    ProtocolInv s where
  window h := absurd h (by simp [hif])
  shadow := by simpa [hsh] using fun h => hw (.inr (.inl h))
  scan i h := absurd h (hscan i)
  waiting h := absurd h hw

theorem ProtocolInv.readerStep {s s' : Cpu} (hi : ProtocolInv s) (h : readerStep s = some s') :
    ProtocolInv s' := by
  have hsh : s.pc ≠ .hlt → s.shadow = false := fun h => by simpa [h] using hi.shadow
  unfold Terminal.readerStep at h
  split at h <;> rename_i hpc <;> (try cases h)
  · -- loopTest
    have hif := hi.ifFlag_eq_false (by simp [hpc])
    split_ifs with hlt
    · exact ⟨fun h => absurd h (by simp [hif]), by simp [hsh, hpc], fun i h => by
        cases h; exact ⟨hlt, fun j hj => absurd hj (Nat.not_lt_zero j)⟩, fun h => by simp at h⟩
    · exact .of_busy hif (hsh (by simp [hpc])) (by simp) (by simp)
  · -- scan
    have hif := hi.ifFlag_eq_false (by simp [hpc])
    obtain ⟨hlt, hnl⟩ := hi.scan _ hpc
    split_ifs with hi1 hi2
    · exact .of_busy hif (hsh (by simp [hpc])) (by simp) (by simp)
    · refine ⟨fun h => (by simp [hif] at h), (by simp [hsh, hpc]), fun j hj => ?_,
        fun h => (by simp at h)⟩
      cases hj
      refine ⟨hlt, fun k hk => ?_⟩
      rcases Nat.lt_succ_iff_lt_or_eq.mp hk with hk | rfl
      · exact hnl k hk
      · exact hi2
    · refine ⟨fun h => (by simp [hif] at h), (by simp [hsh, hpc]), fun _ h => (by cases h),
        fun _ => ?_⟩
      rintro (hge | ⟨j, hj, hbuf⟩)
      · exact absurd hge (not_le.mpr hlt)
      · dsimp only at hj hbuf
        exact hnl j (by omega) hbuf
  · -- sti
    exact ⟨fun _ => (by simp), (by simp), fun _ h => (by cases h), fun _ => hi.waiting (by simp [hpc])⟩
  · -- hlt
    exact ⟨fun _ => (by simp), (by simp), fun _ h => (by cases h), fun _ => hi.waiting (by simp [hpc])⟩
  · -- cli
    exact .of_busy rfl (hsh (by simp [hpc])) (by simp) (by simp)
  · -- copy
    split_ifs <;>
      exact .of_busy (hi.ifFlag_eq_false (by simp [hpc])) (hsh (by simp [hpc])) (by simp) (by simp)
  · -- shift
    exact .of_busy (hi.ifFlag_eq_false (by simp [hpc])) (hsh (by simp [hpc])) (by simp) (by simp)
  · -- decCount
    exact .of_busy (hi.ifFlag_eq_false (by simp [hpc])) (hsh (by simp [hpc])) (by simp) (by simp)
  · -- ret
    exact ⟨fun _ => .inl rfl, (by simp [hsh, hpc]), fun _ h => (by cases h), fun h => (by simp at h)⟩

theorem deliverInterrupt_eq_some {s s' : Cpu} (h : deliverInterrupt terminalBufSize idt s = some s') :
    ∃ irq rest, s.pending = irq :: rest ∧ s.ifFlag = true ∧ s.shadow = false ∧
      s' = { s with
        pending := rest
        input := match irq with
          | some c => bufferChar terminalBufSize s.input c
          | none => s.input
        pc := if s.pc = .halted then .cli else s.pc } := by
  unfold deliverInterrupt at h
  split at h
  · cases h
  · rename_i irq rest hp
    by_cases hen : s.ifFlag ∧ ¬s.shadow ∧ IrqGatesClearIf idt
    · rw [if_pos hen] at h
      cases h
      exact ⟨irq, rest, hp, by simpa using hen.1, by simpa using hen.2.1, rfl⟩
    · rw [if_neg hen] at h
      cases h

theorem ProtocolInv.deliverInterrupt {s s' : Cpu} (hi : ProtocolInv s)
    (h : deliverInterrupt terminalBufSize idt s = some s') : ProtocolInv s' := by
  obtain ⟨irq, rest, -, hif, hsh, rfl⟩ := deliverInterrupt_eq_some terminalBufSize idt h
  have hpc : s.pc = .user ∨ s.pc = .halted ∨ s.pc = .cli := by
    have := hi.window hif
    have hne : s.pc ≠ .hlt := fun e => by simp [hi.shadow.mpr e] at hsh
    tauto
  rcases hpc with hpc | hpc | hpc <;>
    exact ⟨fun _ => (by simp [hpc]), (by simp [hsh, hpc]), fun _ h => (by simp [hpc] at h),
      fun h => (by simp [hpc] at h)⟩

theorem syscallEntry_eq_some {s s' : Cpu} {nbytes : Int}
    (h : syscallEntry terminalBufSize idt s nbytes = some s') :
    s.pc = .user ∧ s' = { s with
      pc := .loopTest
      ifFlag := false
      nbytes := if (terminalBufSize : Int) < nbytes then terminalBufSize else nbytes
      out := [] } := by
  have hgate : (idtInit idt intSyscall.toNat).clearsIf = true := idtInit_clearsIf idt (by decide)
  unfold syscallEntry at h
  by_cases hpc : s.pc = .user
  · rw [if_pos hpc] at h
    cases h
    simp [hpc, hgate]
  · rw [if_neg hpc] at h
    cases h

theorem ProtocolInv.syscallEntry {s s' : Cpu} {nbytes : Int} (hi : ProtocolInv s)
    (h : syscallEntry terminalBufSize idt s nbytes = some s') : ProtocolInv s' := by
  obtain ⟨hpc, rfl⟩ := syscallEntry_eq_some terminalBufSize idt h
  have hsh : s.shadow = false := by
    by_contra hs
    simp [hi.shadow.mp (by simpa using hs)] at hpc
  exact ⟨fun h => (by simp at h), (by simp [hsh]), fun _ h => (by cases h), fun h => (by simp at h)⟩

theorem ProtocolInv.cpuStep {s s' : Cpu} (hi : ProtocolInv s) {a : CpuAction}
    (h : cpuStep terminalBufSize idt s a = some s') : ProtocolInv s' := by
  cases a with
  | raise irq =>
      cases h
      exact ⟨hi.window, hi.shadow, hi.scan, hi.waiting⟩
  | interrupt => exact hi.deliverInterrupt terminalBufSize idt h
  | exec => exact hi.readerStep h
  | syscall nbytes => exact hi.syscallEntry terminalBufSize idt h

theorem Reachable.protocolInv {s : Cpu} (hs : Reachable terminalBufSize idt s) : ProtocolInv s := by
  induction hs with
  | init input => exact protocolInv_init input
  | step _ _ h ih => exact ih.cpuStep terminalBufSize idt h

/-- A one-byte read of an empty buffer: the reader halts in `hlt`, and a keystroke
is raised. -/
theorem reachable_halted_keystroke :
    Reachable 128 (fun _ => descTemplate) ⟨.halted, true, false, [some 0x61], ⟨fun _ => 0, 0⟩, 1, []⟩ :=
  have r1 := @Reachable.step 128 (fun _ => descTemplate) _ _ (.syscall 1) (.init ⟨fun _ => 0, 0⟩) rfl
  .step (.raise (some 0x61))
    (.step .exec (.step .exec (.step .exec (.step .exec r1 rfl) rfl) rfl) rfl) rfl

/-!
# No update inside the read, no lost wakeup
-/

/-- In every reachable state: an interrupt, and with it `handle_char_input`, is
delivered only while the reader is in user code, stopped in the `hlt` of
`wait_until_readable`, or about to execute the `cli` after it; never while it
tests, copies or compacts the buffer. And the reader is never stopped in `hlt`
while its exit test would let it return. -/
theorem terminalRead_interrupt_window (s : Cpu) (hs : Reachable terminalBufSize idt s) :
    (∀ s', cpuStep terminalBufSize idt s .interrupt = some s' →
      s.pc = .user ∨ s.pc = .halted ∨ s.pc = .cli) ∧
    (s.pc = .halted → ¬ExitCond s) := by
  have hi := hs.protocolInv
  refine ⟨fun s' h => ?_, fun hpc => hi.waiting (.inr (.inr hpc))⟩
  obtain ⟨-, -, -, hif, hsh, -⟩ := deliverInterrupt_eq_some terminalBufSize idt h
  have hne : s.pc ≠ .hlt := fun e => by simp [hi.shadow.mpr e] at hsh
  have := hi.window hif
  tauto

/-- Inside the read: the reader halted in `hlt`, its buffer empty, a keystroke
pending. The keystroke is delivered, and it is delivered there. -/
theorem terminalRead_interrupt_window_halted :
    let s : Cpu := ⟨.halted, true, false, [some 0x61], ⟨fun _ => 0, 0⟩, 1, []⟩
    Reachable 128 (fun _ => descTemplate) s ∧
      (∃ s', cpuStep 128 (fun _ => descTemplate) s .interrupt = some s') ∧
      (∀ s', cpuStep 128 (fun _ => descTemplate) s .interrupt = some s' →
        s.pc = .user ∨ s.pc = .halted ∨ s.pc = .cli) ∧
      (s.pc = .halted → ¬ExitCond s) := by
  intro s
  exact ⟨reachable_halted_keystroke, ⟨_, rfl⟩,
    terminalRead_interrupt_window 128 _ s reachable_halted_keystroke⟩

/-!
# The read refines the atomic `terminal_read`

From the loop test on, with interrupts off, the reader alone either reaches the
`sti` with the buffer as it was, exactly when one pass of `wait_until_readable`
would wait, or returns with the bytes and the buffer of `readOut`: the wait loop
and the copy of `terminal_read` behave as the atomic `terminalRead`.
-/

theorem readerRun_succ (n : Nat) (s s' : Cpu) (h : readerStep s = some s') :
    readerRun (n + 1) s = readerRun n s' := by
  simp [readerRun, h]

theorem readerRun_scan_sti (s : Cpu) (i n : Nat) (hn : s.input.count = i + n)
    (hno : ∀ j : Nat, i ≤ j → j < i + n → s.input.buf j ≠ newlineByte) :
    readerRun (n + 1) { s with pc := .scan i } = some { s with pc := .sti } := by
  induction n generalizing i with
  | zero =>
      rw [readerRun_succ 0 _ { s with pc := .sti }]
      · rfl
      · simp [readerStep, hn]
  | succ n ih =>
      rw [readerRun_succ _ _ { s with pc := .scan (i + 1) }]
      · exact ih (i + 1) (by omega) fun j hj hj' => hno j (by omega) (by omega)
      · have hbuf := hno i le_rfl (by omega)
        simp [readerStep, hn, hbuf]

theorem readerRun_scan_found (s : Cpu) (i n : Nat) (hlt : ((i + n : Nat) : Int) < s.input.count)
    (hnl : s.input.buf (i + n : Nat) = newlineByte)
    (hno : ∀ j : Nat, i ≤ j → j < i + n → s.input.buf j ≠ newlineByte) :
    readerRun (n + 1) { s with pc := .scan i } =
      some { s with pc := .copy 0, nbytes := ((i + n : Nat) : Int) + 1 } := by
  induction n generalizing i with
  | zero =>
      rw [readerRun_succ 0 _ { s with pc := .copy 0, nbytes := ((i + 0 : Nat) : Int) + 1 }]
      · rfl
      · simp only [Nat.add_zero] at hlt hnl
        simp [readerStep, hlt, hnl]
  | succ n ih =>
      rw [readerRun_succ _ _ { s with pc := .scan (i + 1) }]
      · rw [show i + (n + 1) = i + 1 + n by omega] at hlt hnl ⊢
        exact ih (i + 1) hlt hnl fun j hj hj' => hno j (by omega) (by omega)
      · have hbuf := hno i le_rfl (by omega)
        simp [readerStep, hbuf]
        omega

theorem readerRun_add (m n : Nat) (s : Cpu) :
    readerRun (m + n) s = (readerRun m s).bind (readerRun n) := by
  induction m generalizing s with
  | zero => simp [readerRun]
  | succ m ih =>
      rw [show m + 1 + n = m + n + 1 by omega]
      cases h : readerStep s with
      | none => simp [readerRun, h]
      | some s' => rw [readerRun_succ _ _ _ h, readerRun_succ _ _ _ h, ih]

theorem readerRun_one {s s' : Cpu} (h : readerStep s = some s') : readerRun 1 s = some s' := by
  rw [readerRun_succ 0 _ _ h]
  rfl

theorem readerRun_copy (s : Cpu) (i n : Nat) (hpc : s.pc = .copy i)
    (hn : max s.nbytes 0 = ((i + n : Nat) : Int)) :
    readerRun (n + 1) s =
      some { s with
        pc := .shift (i + n)
        out := s.out ++ (List.range' i n).map fun j : Nat => s.input.buf j } := by
  induction n generalizing i s with
  | zero =>
      have : ¬(i : Int) < s.nbytes := by omega
      rw [@readerRun_one _ { s with pc := .shift i } (by simp [readerStep, hpc, this])]
      simp
  | succ n ih =>
      have : (i : Int) < s.nbytes := by omega
      rw [readerRun_succ _ _ { s with pc := .copy (i + 1), out := s.out ++ [s.input.buf i] }
        (by simp [readerStep, hpc, this]), ih _ (i + 1) rfl (by simp only; omega)]
      simp [List.range'_succ, show i + 1 + n = i + (n + 1) by omega]

theorem readerRun_copy_ret (s : Cpu) (hpc : s.pc = .copy 0) :
    readerRun ((max s.nbytes 0).toNat + 1 + 2) s =
      some { s with
        pc := .ret (max s.nbytes 0).toNat
        out := s.out ++ (readOut s.input s.nbytes).1
        input := (readOut s.input s.nbytes).2 } := by
  have hk : ((max s.nbytes 0).toNat : Int) = max s.nbytes 0 := Int.toNat_of_nonneg (le_max_right _ _)
  rw [readerRun_add, readerRun_copy s 0 _ hpc (by simp [hk])]
  simp [readerRun, readerStep, readOut, hk, List.range_eq_range']

theorem readerRun_loopTest (s : Cpu) (hpc : s.pc = .loopTest) :
    match waitUntilReadableStep s.input s.nbytes with
    | none => ∃ n, readerRun n s = some { s with pc := .sti }
    | some k => ∃ n, readerRun n s =
        some { s with
          pc := .ret (max k 0).toNat
          nbytes := k
          out := s.out ++ (readOut s.input k).1
          input := (readOut s.input k).2 } := by
  have htest : readerStep s =
      some { s with pc := if s.input.count < s.nbytes then .scan 0 else .copy 0 } := by
    simp [readerStep, hpc]
  unfold waitUntilReadableStep
  by_cases hlt : s.input.count < s.nbytes
  · rw [if_pos hlt] at htest ⊢
    cases hscan : newlineScan s.input with
    | none =>
        have hno := newlineScan_eq_none.mp hscan
        refine ⟨s.input.count.toNat + 2, ?_⟩
        rw [readerRun_succ _ _ _ htest]
        by_cases h0 : 0 ≤ s.input.count
        · exact readerRun_scan_sti s 0 _ (by omega) fun j _ hj => hno j (by omega)
        · rw [show s.input.count.toNat = 0 by omega,
            @readerRun_one _ { s with pc := .sti } (by simp [readerStep]; omega)]
    | some k =>
        obtain ⟨p, rfl, hp, hnl, hbefore⟩ := newlineScan_eq_some.mp hscan
        refine ⟨1 + (p + 1) + ((max ((p : Int) + 1) 0).toNat + 1 + 2), ?_⟩
        rw [readerRun_add, readerRun_add, readerRun_one htest, Option.some_bind,
          readerRun_scan_found s 0 p (by simp; omega) (by simpa using hnl)
            fun j _ hj => hbefore j (by omega), Option.some_bind, Nat.zero_add]
        exact readerRun_copy_ret { s with pc := .copy 0, nbytes := (p : Int) + 1 } rfl
  · rw [if_neg hlt] at htest ⊢
    refine ⟨1 + ((max s.nbytes 0).toNat + 1 + 2), ?_⟩
    rw [readerRun_add, readerRun_one htest, Option.some_bind]
    exact readerRun_copy_ret { s with pc := .copy 0 } rfl

/-- A `read` from user code: after the syscall entry, the reader alone either
stops at the `sti` with the buffer as it was, when `terminalRead` would block, or
returns the bytes and leaves the buffer that `terminalRead` computes. -/
theorem syscallEntry_terminalRead {s s₁ : Cpu} {nbytes : Int}
    (h : syscallEntry terminalBufSize idt s nbytes = some s₁) :
    match terminalRead terminalBufSize s.input nbytes with
    | none => ∃ n, readerRun n s₁ = some { s₁ with pc := .sti }
    | some (bytes, input) => ∃ n s₂, readerRun n s₁ = some s₂ ∧
        (∃ i, s₂.pc = .ret i) ∧ s₂.out = bytes ∧ s₂.input = input := by
  obtain ⟨-, rfl⟩ := syscallEntry_eq_some terminalBufSize idt h
  have hrun := readerRun_loopTest
    { s with
      pc := .loopTest
      ifFlag := false
      nbytes := if (terminalBufSize : Int) < nbytes then terminalBufSize else nbytes
      out := [] } rfl
  simp only [Terminal.terminalRead]
  split at hrun
  · rename_i hw
    simpa [hw] using hrun
  · rename_i k hw
    obtain ⟨n, hn⟩ := hrun
    simp only [hw, Option.map_some']
    exact ⟨n, _, hn, ⟨_, rfl⟩, by simp, rfl⟩

/-- A read of five bytes from a buffer holding `a` and a newline: the reader
alone scans to the newline and returns both bytes, as `terminalRead` does. -/
theorem syscallEntry_terminalRead_line :
    let input : InputBuf := ⟨fun i => if i = 0 then 0x61 else newlineByte, 2⟩
    let s₁ : Cpu := ⟨.loopTest, false, false, [], input, 5, []⟩
    syscallEntry 128 (fun _ => descTemplate) (Cpu.init input) 5 = some s₁ ∧
      ∃ n s₂, readerRun n s₁ = some s₂ ∧ (∃ i, s₂.pc = .ret i) ∧
        s₂.out = [0x61, newlineByte] ∧ s₂.input = (readOut input 2).2 := by
  intro input s₁
  have h : syscallEntry 128 (fun _ => descTemplate) (Cpu.init input) 5 = some s₁ := by
    rw [syscallEntry, idtInit_clearsIf _ (by decide)]
    rfl
  exact ⟨h, syscallEntry_terminalRead 128 (fun _ => descTemplate) h⟩

/-!
# No lost wakeup

The reader reaches `hlt` only through the `sti`, and nothing between them or in
`hlt` clears `IF`; so a halted reader can always be woken, and the first
interrupt a device raises is delivered to it.
-/

/-- A reader at the `hlt` or stopped in it has interrupts enabled. -/
def SleepInv (s : Cpu) : Prop := s.pc = .hlt ∨ s.pc = .halted → s.ifFlag = true

theorem SleepInv.readerStep {s s' : Cpu} (hi : SleepInv s) (h : readerStep s = some s') :
    SleepInv s' := by
  unfold Terminal.readerStep at h
  split at h <;> rename_i hpc <;> cases h <;> intro hp
  all_goals first
    | rfl
    | exact hi (.inl hpc)
    | (simp at hp; done)
    | (split_ifs at hp <;> simp at hp)

theorem SleepInv.cpuStep {s s' : Cpu} (hi : SleepInv s) {a : CpuAction}
    (h : cpuStep terminalBufSize idt s a = some s') : SleepInv s' := by
  cases a with
  | raise irq => cases h; exact hi
  | interrupt =>
      obtain ⟨-, -, -, hif, -, rfl⟩ := deliverInterrupt_eq_some terminalBufSize idt h
      exact fun _ => hif
  | exec => exact hi.readerStep h
  | syscall nbytes =>
      obtain ⟨-, rfl⟩ := syscallEntry_eq_some terminalBufSize idt h
      intro hp
      simp at hp

theorem Reachable.sleepInv {s : Cpu} (hs : Reachable terminalBufSize idt s) : SleepInv s := by
  induction hs with
  | init input => intro hp; simp [Cpu.init] at hp
  | step _ _ h ih => exact ih.cpuStep terminalBufSize idt h

/-- A halted reader is woken by the oldest pending interrupt: it is delivered,
its character, if it has one, goes through `handle_char_input`, and the reader
resumes at the `cli` to test the buffer again. -/
theorem Reachable.halted_wakes {s : Cpu} (hs : Reachable terminalBufSize idt s)
    (hpc : s.pc = .halted) {irq : Option UInt8} {rest : List (Option UInt8)}
    (hp : s.pending = irq :: rest) :
    ∃ s', cpuStep terminalBufSize idt s .interrupt = some s' ∧ s'.pc = .cli ∧
      s'.pending = rest ∧ s'.input = irq.elim s.input (bufferChar terminalBufSize s.input) := by
  have hif : s.ifFlag = true := hs.sleepInv terminalBufSize idt (.inr hpc)
  have hsh : s.shadow = false := by
    simpa [hpc] using (hs.protocolInv terminalBufSize idt).shadow
  refine ⟨{ s with
      pending := rest
      input := irq.elim s.input (bufferChar terminalBufSize s.input)
      pc := .cli }, ?_, rfl, rfl, rfl⟩
  cases irq <;> simp [cpuStep, deliverInterrupt, hp, hif, hsh, hpc, irqGates_clearIf]

end Machine

theorem Reachable.halted_wakes_on_keystroke :
    let s : Cpu := ⟨.halted, true, false, [some 0x61], ⟨fun _ => 0, 0⟩, 1, []⟩
    Reachable 128 (fun _ => descTemplate) s ∧ s.pc = .halted ∧ s.pending = [some 0x61] ∧
      ∃ s', cpuStep 128 (fun _ => descTemplate) s .interrupt = some s' ∧ s'.pc = .cli ∧
        s'.pending = [] ∧ s'.input = bufferChar 128 s.input 0x61 := by
  intro s
  exact ⟨reachable_halted_keystroke, rfl, rfl,
    Reachable.halted_wakes 128 _ reachable_halted_keystroke rfl rfl⟩

/-- `handle_char_input` does run inside `terminal_read` with the reader not
halted: a one-byte read of an empty buffer stops in `hlt`, two keystrokes are
raised, the first wakes the reader, and the second is delivered at the `cli`,
before the reader disables interrupts again. -/
theorem terminalRead_interrupt_before_cli :
    ¬ ∀ s : Cpu, Reachable 128 (fun _ => descTemplate) s → s.pc ≠ .user →
      ∀ c s', s.pending.head? = some (some c) →
        cpuStep 128 (fun _ => descTemplate) s .interrupt = some s' → s.pc = .halted := by
  intro h
  have r7 := Reachable.step (.raise (some 0x62)) reachable_halted_keystroke rfl
  have r8 := Reachable.step .interrupt r7 rfl
  exact absurd (h _ r8 (by decide) 0x62 _ rfl rfl) (by decide)

end Terminal
end LoliOS
