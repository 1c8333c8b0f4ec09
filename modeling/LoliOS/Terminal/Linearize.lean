import LoliOS.Terminal.Read

/-!
# The read protocol is linearizable

`LoliOS.Terminal.ReadProtocol` runs `terminal_read` instruction by instruction
against the keyboard interrupt. This module matches every run of that machine
with a run of the atomic model of `LoliOS.Terminal.Input`, where a keystroke is
one call of `handle_char_input` and a read one call of `terminalRead` on the
buffer as it stands. A keystroke takes effect where the processor delivers it; a
read where its wait loop leaves for the copy, at the loop test or at the newline
its scan found. The atomic run of those operations, in the order the machine
performed them, is enabled at every read, leaves the buffer the machine leaves,
and returns the bytes each read returned to user code.

A state of the machine stands for a state of the atomic model through
`absInput`: once the wait loop has exited, the buffer is the one the read will
leave, and `inFlight` holds the bytes the read will return.
-/

namespace LoliOS
namespace Terminal

open Idt

/-- An operation of the atomic model: `handle_char_input c`, or a
`terminal_read` of `nbytes` taken whole at the pass of its wait loop that finds
the buffer readable. -/
inductive AtomicOp
  | key (c : UInt8)
  | read (nbytes : Int)
deriving DecidableEq, Repr

section BufSize

variable (terminalBufSize : Nat)

/-- One atomic operation on the buffer and the byte strings the reads returned
so far; `none` for a read that would block. -/
def atomicStep (a : InputBuf × List (List UInt8)) : AtomicOp -> Option (InputBuf × List (List UInt8))
  | .key c => some (bufferChar terminalBufSize a.1 c, a.2)
  | .read nbytes => (terminalRead terminalBufSize a.1 nbytes).map fun r => (r.2, a.2 ++ [r.1])

def atomicRun (a : InputBuf × List (List UInt8)) : List AtomicOp -> Option (InputBuf × List (List UInt8))
  | [] => some a
  | op :: ops => (atomicStep terminalBufSize a op).bind fun a' => atomicRun a' ops

theorem atomicRun_append (a : InputBuf × List (List UInt8)) (ops ops' : List AtomicOp) :
    atomicRun terminalBufSize a (ops ++ ops') =
      (atomicRun terminalBufSize a ops).bind fun a' => atomicRun terminalBufSize a' ops' := by
  induction ops generalizing a with
  | nil => rfl
  | cons op ops ih =>
      rw [List.cons_append]
      simp only [atomicRun, ih, Option.bind_assoc]

theorem atomicRun_read {input : InputBuf} {nbytes k : Int} (outs : List (List UInt8))
    (hn : nbytes ≤ terminalBufSize) (hk : waitUntilReadableStep input nbytes = some k) :
    atomicRun terminalBufSize (input, outs) [.read nbytes] =
      some ((readOut input k).2, outs ++ [(readOut input k).1]) := by
  simp [atomicRun, atomicStep, terminalRead_eq, min_eq_left hn, hk]

end BufSize

/-!
# Linearization points
-/

/-- The atomic operation a move of the machine performs: the delivery of a
keystroke, or the reader's instruction that leaves the wait loop for the copy,
with the request it waited on. No other move performs one. -/
def linOp (s : Cpu) : CpuAction -> Option AtomicOp
  | .interrupt =>
      match s.pending with
      | some c :: _ => some (.key c)
      | _ => none
  | .exec =>
      match s.pc with
      | .loopTest => if s.input.count < s.nbytes then none else some (.read s.nbytes)
      | .scan i =>
          if (i : Int) < s.input.count ∧ s.input.buf i = newlineByte then some (.read s.nbytes)
          else none
      | _ => none
  | _ => none

/-- What a move returns to user code: the bytes of a read, at its `ret`. -/
def cpuOut (s : Cpu) : CpuAction -> List (List UInt8)
  | .exec =>
      match s.pc with
      | .ret _ => [s.out]
      | _ => []
  | _ => []

/-- The buffer of the atomic model a state stands for: past the exit of the
wait loop, the buffer the read will leave. -/
def absInput (s : Cpu) : InputBuf :=
  match s.pc with
  | .copy _ | .shift _ => (readOut s.input s.nbytes).2
  | .decCount i => { s.input with count := s.input.count - i }
  | _ => s.input

/-- The bytes of a read past its linearization point and not yet returned. -/
def inFlight (s : Cpu) : List (List UInt8) :=
  match s.pc with
  | .copy _ | .shift _ => [(readOut s.input s.nbytes).1]
  | .decCount _ | .ret _ => [s.out]
  | _ => []

def ReaderPc.waits : ReaderPc -> Bool
  | .loopTest | .scan _ | .sti | .hlt | .halted | .cli => true
  | _ => false

section Machine

variable (terminalBufSize : Nat) (idt : Nat -> IdtDesc)

/-- A run of the machine: the state it ends in, the atomic operations its moves
performed, and the bytes its reads returned, in order; `none` if a move is not
enabled. -/
def cpuRun (s : Cpu) : List CpuAction -> Option (Cpu × List AtomicOp × List (List UInt8))
  | [] => some (s, [], [])
  | a :: acts =>
      (cpuStep terminalBufSize idt s a).bind fun s' =>
        (cpuRun s' acts).map fun r => (r.1, (linOp s a).toList ++ r.2.1, cpuOut s a ++ r.2.2)

/-- What the simulation needs of a state: the protocol invariant; in the wait
loop, a clamped request and nothing copied yet; in the copy loop, the bytes
copied so far; at the `memmove`, the bytes of the whole read. -/
structure LinInv (s : Cpu) : Prop where
  protocol : ProtocolInv s
  waits : s.pc.waits → s.nbytes ≤ terminalBufSize ∧ s.out = []
  copy : ∀ i, s.pc = .copy i →
    (i : Int) ≤ max s.nbytes 0 ∧ s.out = (List.range i).map fun j : Nat => s.input.buf j
  shift : ∀ i, s.pc = .shift i → (i : Int) = max s.nbytes 0 ∧ s.out = (readOut s.input s.nbytes).1

theorem linInv_init (input : InputBuf) : LinInv terminalBufSize (Cpu.init input) where
  protocol := protocolInv_init input
  waits h := by simp [Cpu.init, ReaderPc.waits] at h
  copy _ h := by cases h
  shift _ h := by cases h

/-!
# One move is a stutter or one atomic operation
-/

theorem absInput_of_waits {s : Cpu} (h : s.pc.waits) : absInput s = s.input := by
  unfold absInput
  split <;> simp_all [ReaderPc.waits]

theorem inFlight_of_waits {s : Cpu} (h : s.pc.waits) : inFlight s = [] := by
  unfold inFlight
  split <;> simp_all [ReaderPc.waits]

theorem sim_stutter {s s' : Cpu} {a : CpuAction} (outs : List (List UInt8))
    (hop : linOp s a = none) (hout : cpuOut s a = []) (habs : absInput s' = absInput s)
    (hfl : inFlight s' = inFlight s) :
    atomicRun terminalBufSize (absInput s, outs ++ inFlight s) (linOp s a).toList =
      some (absInput s', outs ++ cpuOut s a ++ inFlight s') := by
  simp [hop, hout, habs, hfl, atomicRun]

theorem LinInv.waits_step {s s' : Cpu} (hi : LinInv terminalBufSize s) (hp : ProtocolInv s')
    (hw : s.pc.waits) (hw' : s'.pc.waits) (hin : s'.input = s.input) (hn : s'.nbytes = s.nbytes)
    (ho : s'.out = s.out) {a : CpuAction} (hop : linOp s a = none) (hout : cpuOut s a = [])
    (outs : List (List UInt8)) :
    LinInv terminalBufSize s' ∧
      atomicRun terminalBufSize (absInput s, outs ++ inFlight s) (linOp s a).toList =
        some (absInput s', outs ++ cpuOut s a ++ inFlight s') := by
  have hpc : ∀ i, s'.pc ≠ .copy i ∧ s'.pc ≠ .shift i := fun i => by
    constructor <;> intro h <;> simp [h, ReaderPc.waits] at hw'
  refine ⟨⟨hp, fun _ => by rw [hn, ho]; exact hi.waits hw, fun i h => absurd h (hpc i).1,
    fun i h => absurd h (hpc i).2⟩, sim_stutter terminalBufSize outs hop hout ?_ ?_⟩
  · rw [absInput_of_waits hw, absInput_of_waits hw', hin]
  · rw [inFlight_of_waits hw, inFlight_of_waits hw']

theorem LinInv.readerStep {s s' : Cpu} (hi : LinInv terminalBufSize s)
    (h : readerStep s = some s') (outs : List (List UInt8)) :
    LinInv terminalBufSize s' ∧
      atomicRun terminalBufSize (absInput s, outs ++ inFlight s) (linOp s .exec).toList =
        some (absInput s', outs ++ cpuOut s .exec ++ inFlight s') := by
  have hp := hi.protocol.readerStep h
  unfold Terminal.readerStep at h
  split at h <;> rename_i hpc <;> (try cases h)
  · -- loopTest: on to the scan, or out of the wait loop with the whole request
    have hw : s.pc.waits := by simp [hpc, ReaderPc.waits]
    obtain ⟨hn, hout⟩ := hi.waits hw
    by_cases hlt : s.input.count < s.nbytes
    · simp only [hlt, if_true] at hp ⊢
      exact hi.waits_step terminalBufSize hp hw rfl rfl rfl rfl
        (by simp [linOp, hpc, hlt]) (by simp [cpuOut, hpc]) outs
    · simp only [hlt, if_false] at hp ⊢
      refine ⟨⟨hp, fun h => (by simp [ReaderPc.waits] at h), fun i h => ?_, fun _ h => (by cases h)⟩, ?_⟩
      · cases h
        simp [hout]
      · simp only [linOp, hpc, hlt, if_false, Option.toList_some, absInput, inFlight, cpuOut,
          List.append_nil]
        exact atomicRun_read terminalBufSize _ hn (waitUntilReadableStep_of_le (not_lt.mp hlt))
  · -- scan: a newline ends the wait loop, otherwise the scan goes on or gives up
    rename_i i
    have hw : s.pc.waits := by simp [hpc, ReaderPc.waits]
    obtain ⟨hn, hout⟩ := hi.waits hw
    obtain ⟨hlt, hnl⟩ := hi.protocol.scan i hpc
    split_ifs at hp ⊢ with h1 h2
    · refine ⟨⟨hp, fun h => (by simp [ReaderPc.waits] at h), fun j h => ?_, fun _ h => (by cases h)⟩, ?_⟩
      · cases h
        simp [hout]
      · simp only [linOp, hpc, h1, h2, and_self, if_true, Option.toList_some, absInput, inFlight,
          cpuOut, List.append_nil]
        exact atomicRun_read terminalBufSize _ hn
          (waitUntilReadableStep_of_newline hlt (by omega) h2 hnl)
    · exact hi.waits_step terminalBufSize hp hw rfl rfl rfl rfl
        (by simp [linOp, hpc, h2]) (by simp [cpuOut, hpc]) outs
    · exact hi.waits_step terminalBufSize hp hw rfl rfl rfl rfl
        (by simp [linOp, hpc, h1]) (by simp [cpuOut, hpc]) outs
  -- sti, hlt and cli: on through the wait loop
  iterate 3
    exact hi.waits_step terminalBufSize hp (by simp [hpc, ReaderPc.waits]) rfl rfl rfl rfl
      (by simp [linOp, hpc]) (by simp [cpuOut, hpc]) outs
  · -- copy: one more byte, or on to the `memmove` with all of them
    rename_i i
    obtain ⟨hle, hout⟩ := hi.copy i hpc
    split_ifs at hp ⊢ with hlt
    · refine ⟨⟨hp, fun h => (by simp [ReaderPc.waits] at h), fun j h => ?_, fun _ h => (by cases h)⟩,
        sim_stutter terminalBufSize outs (by simp [linOp, hpc]) (by simp [cpuOut, hpc])
          (by simp [absInput, hpc]) (by simp [inFlight, hpc])⟩
      cases h
      dsimp only
      exact ⟨by omega, by simp [hout, List.range_succ]⟩
    · have hi' : (i : Int) = max s.nbytes 0 := by omega
      refine ⟨⟨hp, fun h => (by simp [ReaderPc.waits] at h), fun _ h => (by cases h), fun j h => ?_⟩,
        sim_stutter terminalBufSize outs (by simp [linOp, hpc]) (by simp [cpuOut, hpc])
          (by simp [absInput, hpc]) (by simp [inFlight, hpc])⟩
      cases h
      refine ⟨hi', ?_⟩
      rw [hout, readOut, show (max s.nbytes 0).toNat = i by omega]
  · -- shift: the `memmove` of `terminal_read`
    rename_i i
    obtain ⟨hi', hout⟩ := hi.shift i hpc
    refine ⟨⟨hp, fun h => (by simp [ReaderPc.waits] at h), fun _ h => (by cases h),
      fun _ h => (by cases h)⟩,
      sim_stutter terminalBufSize outs (by simp [linOp, hpc]) (by simp [cpuOut, hpc]) ?_ ?_⟩
    · simp [absInput, hpc, readOut, ← hi']
    · simp [inFlight, hpc, hout]
  · -- decCount: `count -= i`
    exact ⟨⟨hp, fun h => (by simp [ReaderPc.waits] at h), fun _ h => (by cases h),
      fun _ h => (by cases h)⟩,
      sim_stutter terminalBufSize outs (by simp [linOp, hpc]) (by simp [cpuOut, hpc])
        (by simp [absInput, hpc]) (by simp [inFlight, hpc])⟩
  · -- ret: the read returns its bytes to user code
    refine ⟨⟨hp, fun h => (by simp [ReaderPc.waits] at h), fun _ h => (by cases h),
      fun _ h => (by cases h)⟩, ?_⟩
    simp [linOp, cpuOut, absInput, inFlight, hpc, atomicRun]

theorem LinInv.cpuStep {s s' : Cpu} {a : CpuAction} (hi : LinInv terminalBufSize s)
    (h : cpuStep terminalBufSize idt s a = some s') (outs : List (List UInt8)) :
    LinInv terminalBufSize s' ∧
      atomicRun terminalBufSize (absInput s, outs ++ inFlight s) (linOp s a).toList =
        some (absInput s', outs ++ cpuOut s a ++ inFlight s') := by
  have hp := hi.protocol.cpuStep terminalBufSize idt h
  cases a with
  | raise irq =>
      cases h
      exact ⟨⟨hp, hi.waits, hi.copy, hi.shift⟩, sim_stutter terminalBufSize outs rfl rfl rfl rfl⟩
  | interrupt =>
      -- delivered in user code, in `hlt` or before the `cli`: the keystroke is the operation
      obtain ⟨irq, rest, hpend, hif, hsh, rfl⟩ := deliverInterrupt_eq_some terminalBufSize idt h
      have hne : s.pc ≠ .hlt := fun e => by simp [hi.protocol.shadow.mpr e] at hsh
      have hpc : s.pc = .user ∨ s.pc = .halted ∨ s.pc = .cli := by
        have := hi.protocol.window hif
        tauto
      refine ⟨⟨hp, fun hw => hi.waits ?_, fun i h => ?_, fun i h => ?_⟩, ?_⟩
      · rcases hpc with hpc | hpc | hpc <;> simp_all [ReaderPc.waits]
      · rcases hpc with hpc | hpc | hpc <;> simp [hpc] at h
      · rcases hpc with hpc | hpc | hpc <;> simp [hpc] at h
      · rcases irq with _ | c <;> rcases hpc with hpc | hpc | hpc <;>
          simp [linOp, cpuOut, absInput, inFlight, hpend, hpc, atomicRun, atomicStep]
  | exec => exact hi.readerStep terminalBufSize h outs
  | syscall nbytes =>
      obtain ⟨hpc, rfl⟩ := syscallEntry_eq_some terminalBufSize idt h
      refine ⟨⟨hp, fun _ => ⟨?_, rfl⟩, fun _ h => (by cases h), fun _ h => (by cases h)⟩,
        sim_stutter terminalBufSize outs rfl rfl ?_ ?_⟩
      · dsimp only
        split_ifs <;> omega
      · simp [absInput, hpc]
      · simp [inFlight, hpc]

theorem LinInv.cpuRun {s s' : Cpu} {acts : List CpuAction} {ops : List AtomicOp}
    {couts : List (List UInt8)} (hi : LinInv terminalBufSize s)
    (h : cpuRun terminalBufSize idt s acts = some (s', ops, couts)) (outs : List (List UInt8)) :
    LinInv terminalBufSize s' ∧
      atomicRun terminalBufSize (absInput s, outs ++ inFlight s) ops =
        some (absInput s', outs ++ couts ++ inFlight s') := by
  induction acts generalizing s outs ops couts with
  | nil =>
      cases h
      exact ⟨hi, by simp [atomicRun]⟩
  | cons a acts ih =>
      obtain ⟨s₁, hstep, hrest⟩ := Option.bind_eq_some.mp h
      obtain ⟨⟨s₂, ops₁, couts₁⟩, hrun, heq⟩ := Option.map_eq_some'.mp hrest
      cases heq
      obtain ⟨hi₁, hsim⟩ := hi.cpuStep terminalBufSize idt hstep outs
      obtain ⟨hi₂, hrun₂⟩ := ih hi₁ hrun (outs ++ cpuOut s a)
      refine ⟨hi₂, ?_⟩
      rw [atomicRun_append, hsim, Option.some_bind, hrun₂]
      simp only [List.append_assoc]

/-- Every run of the read protocol from boot is linearizable. The atomic run of
the keystrokes it delivered and of the reads it let out of their wait loop, in
the order it did so, is enabled at every read; it leaves the buffer the final
state stands for (its own buffer whenever user code runs), and it returns the
bytes each read returned to user code, followed by those of a read that is past
its linearization point and has not returned yet. -/
theorem cpuRun_linearizable (input : InputBuf) (acts : List CpuAction) {s : Cpu}
    {ops : List AtomicOp} {outs : List (List UInt8)}
    (h : cpuRun terminalBufSize idt (Cpu.init input) acts = some (s, ops, outs)) :
    atomicRun terminalBufSize (input, []) ops = some (absInput s, outs ++ inFlight s) :=
  ((linInv_init terminalBufSize input).cpuRun terminalBufSize idt h []).2

end Machine

/-- A one-byte read of an empty buffer blocks in `hlt`; a keystroke `a` wakes it
and it returns `a`: the keystroke, then the read. -/
theorem cpuRun_linearizable_blocked_read :
    let acts : List CpuAction :=
      [.syscall 1, .exec, .exec, .exec, .exec, .raise (some 0x61), .interrupt] ++ List.replicate 7 .exec
    ∃ s, cpuRun 128 (fun _ => descTemplate) (Cpu.init ⟨fun _ => 0, 0⟩) acts =
        some (s, [.key 0x61, .read 1], [[0x61]]) ∧
      atomicRun 128 (⟨fun _ => 0, 0⟩, []) [.key 0x61, .read 1] =
        some (absInput s, [[0x61]] ++ inFlight s) := by
  intro acts
  exact ⟨_, rfl, cpuRun_linearizable 128 (fun _ => descTemplate) _ acts rfl⟩

end Terminal
end LoliOS
