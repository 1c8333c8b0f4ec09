import LoliOS.Terminal.State
import Mathlib.Data.List.Range
import Mathlib.Tactic.Ring

/-!
# The input buffer: keystrokes in, reads out

`handle_char_input` appends a keystroke to the executing terminal's input
buffer (or drops the last byte on a backspace) and echoes it through
`terminal_putc`; `terminal_read` waits until a line or `nbytes` bytes are
buffered, copies them out and shifts the rest to the front.

`TERMINAL_BUF_SIZE` is defined in a header that is not among the sources, so it
is a parameter of every definition that reads it. The wait loop of
`wait_until_readable` is modelled here by one pass of its test, taken with
interrupts disabled: `terminalRead` returns `none` when that pass would put the
processor to sleep. The interleaving of those passes with the keyboard interrupt
is the subject of `LoliOS.Terminal.ReadProtocol`.
-/

namespace LoliOS
namespace Terminal

/-- The live bytes `buf[0, count)` in order. -/
def InputBuf.live (input : InputBuf) : List UInt8 :=
  (List.range input.count.toNat).map fun i : Nat => input.buf i

section BufSize

variable (terminalBufSize : Nat)

def handleCharInput (term : TerminalState) (c : UInt8) : TerminalState :=
  if c = backspaceByte ∧ 0 < term.input.count then
    terminalPutc { term with input := { term.input with count := term.input.count - 1 } } c
  else if c ≠ backspaceByte ∧ term.input.count < terminalBufSize then
    terminalPutc
      { term with
        input := { buf := Function.update term.input.buf term.input.count c,
                   count := term.input.count + 1 } } c
  else term

/-- The input-buffer half of `handle_char_input`. -/
def bufferChar (input : InputBuf) (c : UInt8) : InputBuf :=
  if c = backspaceByte ∧ 0 < input.count then { input with count := input.count - 1 }
  else if c ≠ backspaceByte ∧ input.count < terminalBufSize then
    { buf := Function.update input.buf input.count c, count := input.count + 1 }
  else input

theorem handleCharInput_input (term : TerminalState) (c : UInt8) :
    (handleCharInput terminalBufSize term c).input = bufferChar terminalBufSize term.input c := by
  unfold handleCharInput bufferChar
  split_ifs <;> simp

/-- The `for` loop of `wait_until_readable`: one past the index of the first
newline among the live bytes, if there is one. -/
def newlineScan (input : InputBuf) : Option Int :=
  ((List.range input.count.toNat).find? fun i : Nat => input.buf i = newlineByte).map
    fun i : Nat => (i + 1 : Int)

/-- One pass of the `while` loop of `wait_until_readable` with interrupts
disabled: `some k` when it returns `k`, `none` when it goes on to `sti; hlt`. -/
def waitUntilReadableStep (input : InputBuf) (nbytes : Int) : Option Int :=
  if input.count < nbytes then newlineScan input else some nbytes

/-- What `terminal_read` does once `wait_until_readable` returned `nbytes`: the
copy loop (whose counter ends at `max nbytes 0`), the `memmove` of `i` bytes from
`buf[i]` to `buf[0]`, and `count -= i`. Returns the delivered bytes. -/
def readOut (input : InputBuf) (nbytes : Int) : List UInt8 × InputBuf :=
  let i := max nbytes 0
  ((List.range i.toNat).map fun j : Nat => input.buf j,
    { buf := memmove input.buf 0 i i, count := input.count - i })

/-- `terminal_read` at the pass of its wait loop that finds the buffer readable;
`none` while it would block. -/
def terminalRead (input : InputBuf) (nbytes : Int) : Option (List UInt8 × InputBuf) :=
  let nbytes := if (terminalBufSize : Int) < nbytes then (terminalBufSize : Int) else nbytes
  (waitUntilReadableStep input nbytes).map (readOut input)

end BufSize

/-!
# Buffer contents
-/

theorem live_length (input : InputBuf) : input.live.length = input.count.toNat := by
  simp [InputBuf.live]

theorem live_append (input : InputBuf) (c : UInt8) (h : 0 ≤ input.count) :
    InputBuf.live { buf := Function.update input.buf input.count c, count := input.count + 1 } =
      input.live ++ [c] := by
  have hn : (input.count + 1).toNat = input.count.toNat + 1 := by omega
  simp only [InputBuf.live, hn, List.range_succ, List.map_append, List.map_cons, List.map_nil]
  congr 1
  · refine List.map_congr_left fun i hi => ?_
    have : (i : Int) ≠ input.count := by simp at hi; omega
    simp [Function.update_noteq this]
  · rw [Int.toNat_of_nonneg h, Function.update_same]

theorem live_pred (input : InputBuf) :
    InputBuf.live { input with count := input.count - 1 } = input.live.dropLast := by
  simp only [InputBuf.live]
  rw [← List.map_dropLast]
  congr 1
  rcases Int.lt_or_le 0 input.count with h | h
  · rw [show input.count.toNat = (input.count - 1).toNat + 1 by omega, List.range_succ,
      List.dropLast_concat]
  · rw [show input.count.toNat = 0 by omega, show (input.count - 1).toNat = 0 by omega]
    rfl

section BufSize

variable (terminalBufSize : Nat)

theorem bufferChar_count (input : InputBuf) (c : UInt8) :
    (bufferChar terminalBufSize input c).count =
      if c = backspaceByte ∧ 0 < input.count then input.count - 1
      else if c ≠ backspaceByte ∧ input.count < terminalBufSize then input.count + 1
      else input.count := by
  unfold bufferChar
  split_ifs <;> rfl

theorem bufferChar_count_bounds (input : InputBuf) (c : UInt8)
    (h : 0 ≤ input.count ∧ input.count ≤ terminalBufSize) :
    0 ≤ (bufferChar terminalBufSize input c).count ∧
      (bufferChar terminalBufSize input c).count ≤ terminalBufSize := by
  rw [bufferChar_count]
  split_ifs <;> omega

/-- A backspace drops the last live byte (none when the buffer is empty); any
other byte is appended when there is room and dropped otherwise. -/
theorem live_bufferChar (input : InputBuf) (c : UInt8) (h : 0 ≤ input.count) :
    (bufferChar terminalBufSize input c).live =
      if c = backspaceByte then input.live.dropLast
      else if input.count < terminalBufSize then input.live ++ [c] else input.live := by
  unfold bufferChar
  by_cases hc : c = backspaceByte
  · by_cases hpos : 0 < input.count
    · simp [hc, hpos, live_pred]
    · have hzero : input.count.toNat = 0 := by omega
      simp [hc, hpos, InputBuf.live, hzero]
  · by_cases hlt : input.count < terminalBufSize <;> simp [hc, hlt, live_append _ _ h]

end BufSize

/-!
# Reads
-/

theorem newlineScan_eq_some {input : InputBuf} {k : Int} :
    newlineScan input = some k ↔
      ∃ i : Nat, k = i + 1 ∧ i < input.count.toNat ∧ input.buf i = newlineByte ∧
        ∀ j : Nat, j < i → input.buf j ≠ newlineByte := by
  simp only [newlineScan, Option.map_eq_some', List.find?_range_eq_some, List.mem_range,
    decide_eq_true_eq, Bool.not_eq_true', decide_eq_false_iff_not]
  constructor
  · rintro ⟨i, ⟨hi, hlt, hbefore⟩, rfl⟩
    exact ⟨i, rfl, hlt, hi, hbefore⟩
  · rintro ⟨i, rfl, hlt, hi, hbefore⟩
    exact ⟨i, ⟨hi, hlt, hbefore⟩, rfl⟩

theorem newlineScan_eq_none {input : InputBuf} :
    newlineScan input = none ↔ ∀ i : Nat, i < input.count.toNat → input.buf i ≠ newlineByte := by
  rw [newlineScan, Option.map_eq_none', List.find?_range_eq_none]
  simp

theorem waitUntilReadableStep_le {input : InputBuf} {nbytes k : Int} (h0 : 0 ≤ input.count)
    (h : waitUntilReadableStep input nbytes = some k) : max k 0 ≤ input.count := by
  unfold waitUntilReadableStep at h
  split_ifs at h
  · obtain ⟨i, rfl, hi, -⟩ := newlineScan_eq_some.mp h
    omega
  · cases h; omega

theorem readOut_fst (input : InputBuf) (k : Int) (hk : max k 0 ≤ input.count) :
    (readOut input k).1 = input.live.take (max k 0).toNat := by
  simp only [readOut, InputBuf.live, ← List.map_take, List.take_range]
  congr 2
  omega

theorem readOut_count (input : InputBuf) (k : Int) :
    (readOut input k).2.count = input.count - max k 0 := rfl

/-- The compaction of `terminal_read` moves `i` bytes, not `count - i`: live byte
`j` of the result is old byte `i + j` only below `i`, and the old byte `j` above. -/
theorem live_readOut (input : InputBuf) (k : Int) :
    (readOut input k).2.live =
      (List.range (input.count - max k 0).toNat).map fun j : Nat =>
        if (j : Int) < max k 0 then input.buf (max k 0 + j) else input.buf j := by
  simp only [readOut, InputBuf.live, memmove_apply]
  refine List.map_congr_left fun j _ => ?_
  by_cases hj : (j : Int) < max k 0
  · rw [if_pos ⟨by omega, by omega⟩, if_pos hj, sub_zero]
  · rw [if_neg (by omega), if_neg hj]

theorem mem_live {input : InputBuf} {x : UInt8} :
    x ∈ input.live ↔ ∃ n : Nat, n < input.count.toNat ∧ input.buf n = x := by
  simp [InputBuf.live]

theorem live_readOut_subset (input : InputBuf) (k : Int) :
    (readOut input k).2.live ⊆ input.live := by
  intro x hx
  obtain ⟨j, hj, rfl⟩ := List.mem_map.mp ((live_readOut input k) ▸ hx)
  rw [List.mem_range] at hj
  rw [mem_live]
  split_ifs with hlt
  · exact ⟨(max k 0).toNat + j, by omega, by congr 1; omega⟩
  · exact ⟨j, by omega, rfl⟩

/-- Type-ahead `abc` and a one-byte read: the read delivers `a`, but the
compaction moves one byte where two are left, so the buffer holds `bb` where the
unread input is `bc`. -/
theorem terminalRead_compaction_stale (terminalBufSize : Nat) (h : 3 ≤ terminalBufSize)
    (input : InputBuf) (hempty : input.count = 0) :
    (terminalRead terminalBufSize
        ([0x61, 0x62, 0x63].foldl (bufferChar terminalBufSize) input) 1).map
      (fun r => (r.1, r.2.live)) = some ([0x61], [0x62, 0x62]) := by
  obtain ⟨buf, count⟩ := input
  subst hempty
  have h1 : (0 : Int) < terminalBufSize := by omega
  have h2 : (1 : Int) < terminalBufSize := by omega
  have h3 : (2 : Int) < terminalBufSize := by omega
  have h4 : ¬ ((terminalBufSize : Int) < 1) := by omega
  simp [bufferChar, h1, h2, h3, h4, terminalRead, waitUntilReadableStep, readOut, InputBuf.live,
    memmove_apply, Function.update_apply, backspaceByte, List.range_succ]

theorem terminalRead_compaction_stale_at_128 :
    3 ≤ 128 ∧
      (terminalRead 128 ([0x61, 0x62, 0x63].foldl (bufferChar 128) ⟨fun _ => 0, 0⟩) 1).map
        (fun r => (r.1, r.2.live)) = some ([0x61], [0x62, 0x62]) :=
  ⟨by decide, terminalRead_compaction_stale 128 (by decide) _ rfl⟩

/-!
# Echo

`handle_char_input` echoes exactly the keystrokes it buffers; its backspace test
(`count > 0`) and the one of `terminal_putc` (`logical_x > 0`) are separate. They
agree as long as no backspace meets a buffered line break: such a backspace drops
the line break from the buffer, while its echo, at logical column 0, erases
nothing.
-/

theorem handleCharInput_cursor (terminalBufSize : Nat) (term : TerminalState) (c : UInt8) :
    (handleCharInput terminalBufSize term c).cursor =
      if (c = backspaceByte ∧ 0 < term.input.count) ∨
          (c ≠ backspaceByte ∧ term.input.count < terminalBufSize) then
        cursorPutc term.cursor c
      else term.cursor := by
  unfold handleCharInput
  by_cases h1 : c = backspaceByte ∧ 0 < term.input.count
  · rw [if_pos h1, if_pos (Or.inl h1), terminalPutc_cursor]
  · by_cases h2 : c ≠ backspaceByte ∧ term.input.count < terminalBufSize
    · rw [if_neg h1, if_pos h2, if_pos (Or.inr h2), terminalPutc_cursor]
    · rw [if_neg h1, if_neg h2, if_neg (by tauto)]

/-- A newline typed before any read is still buffered, and a backspace after it
removes it from the buffer while the echoed backspace, at logical column 0, erases
nothing: the buffer is left with one byte of an unterminated line and the cursor
at logical column 0, wherever it started. -/
theorem handleCharInput_backspace_erases_newline (terminalBufSize : Nat)
    (h : 2 ≤ terminalBufSize) (term : TerminalState) (hempty : term.input.count = 0) :
    let t := [0x61, newlineByte, backspaceByte].foldl (handleCharInput terminalBufSize) term
    t.input.live = [0x61] ∧ t.cursor.logicalX = 0 := by
  have h1 : (0 : Int) < terminalBufSize := by omega
  have h2 : (1 : Int) < terminalBufSize := by omega
  have hbs : (0x61 : UInt8) ≠ backspaceByte := by decide
  refine ⟨?_, ?_⟩
  · simp only [List.foldl_cons, List.foldl_nil, handleCharInput_input]
    rw [live_bufferChar _ _ _ (by simp [bufferChar_count, hempty, hbs]; split_ifs <;> omega),
      live_bufferChar _ _ _ (by simp [bufferChar_count, hempty, hbs]; split_ifs <;> omega),
      live_bufferChar _ _ _ (by omega)]
    simp [InputBuf.live, hempty, bufferChar_count, h1, h2, hbs]
  · simp [handleCharInput_cursor, handleCharInput_input, bufferChar_count, hempty, h1, h2, hbs,
      cursorPutc_logicalX]

/-- The number of bytes after the last line break of `bytes`, if it holds one. -/
def lineTail (bytes : List UInt8) : Option Nat :=
  bytes.reverse.findIdx? fun b => b = newlineByte ∨ b = returnByte

theorem lineTail_append_singleton (bytes : List UInt8) (b : UInt8) :
    lineTail (bytes ++ [b]) =
      if b = newlineByte ∨ b = returnByte then some 0 else (lineTail bytes).map (· + 1) := by
  simp [lineTail, List.findIdx?_cons]

theorem lineTail_lt_length {bytes : List UInt8} {k : Nat} (h : lineTail bytes = some k) :
    k < bytes.length := by
  induction bytes using List.reverseRecOn generalizing k with
  | nil => simp [lineTail] at h
  | append_singleton bytes b ih =>
      rw [lineTail_append_singleton] at h
      split_ifs at h
      · cases h
        simp
      · obtain ⟨k', hk', rfl⟩ := Option.map_eq_some'.mp h
        have := ih hk'
        simp only [List.length_append, List.length_singleton]
        omega

section BufSize

variable (terminalBufSize : Nat)

/-- The echo in step with the buffer, for a line that starts at logical column
`p`: the cursor's logical column is `p` plus the buffered bytes while no line
break is buffered, and the number of bytes after the last one otherwise. -/
structure EchoInv (p : Int) (term : TerminalState) : Prop where
  count_nonneg : 0 ≤ term.input.count
  count_le : term.input.count ≤ terminalBufSize
  unbroken : lineTail term.input.live = none → term.cursor.logicalX = p + term.input.count
  broken : ∀ k, lineTail term.input.live = some k → term.cursor.logicalX = k

/-- No backspace arrives while the last buffered byte is a line break. -/
def breakKept (term : TerminalState) : List UInt8 -> Bool
  | [] => true
  | c :: cs =>
      (c ≠ backspaceByte || term.input.live.getLast?.all fun b => !(b = newlineByte ∨ b = returnByte)) &&
        breakKept (handleCharInput terminalBufSize term c) cs

variable {terminalBufSize}

theorem lineTail_of_last {input : InputBuf} (hpos : 0 < input.count)
    (hlast : ∀ b ∈ input.live.getLast?, ¬(b = newlineByte ∨ b = returnByte)) :
    lineTail input.live = (lineTail input.live.dropLast).map (· + 1) := by
  rcases List.eq_nil_or_concat input.live with hnil | ⟨L, b, hL⟩
  · have := live_length input
    rw [hnil] at this
    simp at this
    omega
  rw [List.concat_eq_append] at hL
  rw [hL, lineTail_append_singleton, if_neg (hlast b (by simp [hL])), List.dropLast_concat]

theorem EchoInv.logicalX_pos {p : Int} {term : TerminalState} (hp : 0 ≤ p)
    (hi : EchoInv terminalBufSize p term) (hpos : 0 < term.input.count)
    (hlast : ∀ b ∈ term.input.live.getLast?, ¬(b = newlineByte ∨ b = returnByte)) :
    0 < term.cursor.logicalX := by
  have hk := lineTail_of_last hpos hlast
  cases hk' : lineTail term.input.live.dropLast <;>
    simp only [hk', Option.map_none', Option.map_some'] at hk
  · rw [hi.unbroken hk]; omega
  · rw [hi.broken _ hk]; omega

/-- One keystroke: a byte appended with its echo, a backspace over a byte that
is no line break with its echo, or nothing. -/
theorem EchoInv.keystroke {p : Int} {term : TerminalState} (hp : 0 ≤ p)
    (hi : EchoInv terminalBufSize p term) (c : UInt8)
    (hc : c = backspaceByte → ∀ b ∈ term.input.live.getLast?, ¬(b = newlineByte ∨ b = returnByte)) :
    EchoInv terminalBufSize p (handleCharInput terminalBufSize term c) := by
  obtain ⟨h0, hle⟩ :=
    bufferChar_count_bounds terminalBufSize term.input c ⟨hi.count_nonneg, hi.count_le⟩
  have hlive := live_bufferChar terminalBufSize term.input c hi.count_nonneg
  have hcount := bufferChar_count terminalBufSize term.input c
  have hcur := congrArg CursorPos.logicalX (handleCharInput_cursor terminalBufSize term c)
  rw [← handleCharInput_input] at h0 hle hlive hcount
  by_cases h1 : c = backspaceByte ∧ 0 < term.input.count
  · -- a backspace drops the last byte, and its echo steps back over it
    obtain ⟨rfl, hpos⟩ := h1
    have hx0 := hi.logicalX_pos hp hpos (hc rfl)
    have hk := lineTail_of_last hpos (hc rfl)
    simp only [eq_self_iff_true, hpos, and_self, true_or, if_true, cursorPutc_logicalX,
      backspaceByte_ne_newlineByte, backspaceByte_ne_returnByte, or_self, if_false, hx0]
      at hlive hcount hcur
    refine ⟨h0, hle, fun hk' => ?_, fun k hk' => ?_⟩ <;>
      rw [hlive] at hk' <;> simp only [hk', Option.map_none', Option.map_some'] at hk <;>
      simp only [hcur, hcount]
    · rw [hi.unbroken hk]; omega
    · rw [hi.broken _ hk]; push_cast; omega
  by_cases h2 : c ≠ backspaceByte ∧ term.input.count < terminalBufSize
  · -- any other byte is appended and echoed
    obtain ⟨hbs, hroom⟩ := h2
    simp only [hbs, false_and, false_or, ne_eq, not_false_eq_true, true_and, hroom, if_true,
      if_false, cursorPutc_logicalX] at hlive hcount hcur
    refine ⟨h0, hle, fun hk' => ?_, fun k hk' => ?_⟩ <;>
      rw [hlive, lineTail_append_singleton] at hk' <;> simp only [hcur, hcount]
    · by_cases hnl : c = newlineByte ∨ c = returnByte
      · simp [hnl] at hk'
      · rw [if_neg hnl, Option.map_eq_none'] at hk'
        rw [if_neg hnl, hi.unbroken hk']
        omega
    · by_cases hnl : c = newlineByte ∨ c = returnByte
      · simp only [hnl, if_true, Option.some.injEq] at hk' ⊢
        simp [← hk']
      · rw [if_neg hnl] at hk' ⊢
        obtain ⟨k', hk'', rfl⟩ := Option.map_eq_some'.mp hk'
        rw [hi.broken _ hk'']
        push_cast
        ring
  -- a backspace on an empty buffer, or a byte on a full one, changes nothing
  rw [handleCharInput, if_neg h1, if_neg h2]
  exact hi

theorem EchoInv.foldl {p : Int} (hp : 0 ≤ p) (events : List UInt8) {term : TerminalState}
    (hi : EchoInv terminalBufSize p term) (hk : breakKept terminalBufSize term events = true) :
    EchoInv terminalBufSize p (events.foldl (handleCharInput terminalBufSize) term) := by
  induction events generalizing term with
  | nil => exact hi
  | cons c events ih =>
      simp only [breakKept, Bool.and_eq_true, Bool.or_eq_true, decide_eq_true_eq] at hk
      refine ih (hi.keystroke hp c fun hbs b hb => ?_) hk.2
      have h := hk.1.resolve_left (· hbs)
      rw [hb] at h
      simpa using h

variable (terminalBufSize)

/-- From an empty buffer at logical column `p >= 0`, over every sequence of
keystrokes in which no backspace meets a buffered line break, the echo stays in
step with the buffer: a backspace drops a buffered byte exactly when its echo
steps the cursor back, and `logical_x` stays within `int32_t` when `p` leaves
room for a full buffer. -/
theorem handleCharInput_echo_in_step (term : TerminalState) (events : List UInt8)
    (hempty : term.input.count = 0) (hp : 0 ≤ term.cursor.logicalX)
    (hbound : term.cursor.logicalX + terminalBufSize ≤ int32Max)
    (hkept : breakKept terminalBufSize term events = true) :
    let t := events.foldl (handleCharInput terminalBufSize) term
    EchoInv terminalBufSize term.cursor.logicalX t ∧
      ((∀ b ∈ t.input.live.getLast?, ¬(b = newlineByte ∨ b = returnByte)) →
        ((handleCharInput terminalBufSize t backspaceByte).input.count < t.input.count ↔
          (handleCharInput terminalBufSize t backspaceByte).cursor.logicalX < t.cursor.logicalX)) ∧
      t.cursor.logicalX ≤ int32Max := by
  intro t
  have hnil : term.input.live = [] := by simp [InputBuf.live, hempty]
  have h0 : EchoInv terminalBufSize term.cursor.logicalX term :=
    ⟨by omega, by omega, fun _ => by omega, fun k hk => by simp [hnil, lineTail] at hk⟩
  have hi : EchoInv terminalBufSize term.cursor.logicalX t := h0.foldl hp events hkept
  refine ⟨hi, fun hlast => ?_, ?_⟩
  · rw [handleCharInput_input, bufferChar_count, handleCharInput_cursor]
    by_cases hpos : 0 < t.input.count
    · have hx0 := hi.logicalX_pos hp hpos hlast
      simp [hpos, cursorPutc_logicalX, backspaceByte_ne_newlineByte, backspaceByte_ne_returnByte, hx0]
    · simp [hpos]
  · have hle := hi.count_le
    cases hk : lineTail t.input.live with
    | none => rw [hi.unbroken hk]; omega
    | some k =>
        have hlt := lineTail_lt_length hk
        rw [live_length] at hlt
        rw [hi.broken _ hk]
        omega

theorem handleCharInput_echo_in_step_ab :
    let term : TerminalState := ⟨⟨fun _ => 0, 0⟩, ⟨0, 0, 0⟩, fun _ => 0⟩
    let events : List UInt8 := [0x61, 0x62, backspaceByte, newlineByte, 0x63, backspaceByte]
    term.input.count = 0 ∧ 0 ≤ term.cursor.logicalX ∧
      term.cursor.logicalX + (128 : Nat) ≤ int32Max ∧ breakKept 128 term events = true ∧
      let t := events.foldl (handleCharInput 128) term
      EchoInv 128 term.cursor.logicalX t ∧
        ((∀ b ∈ t.input.live.getLast?, ¬(b = newlineByte ∨ b = returnByte)) →
          ((handleCharInput 128 t backspaceByte).input.count < t.input.count ↔
            (handleCharInput 128 t backspaceByte).cursor.logicalX < t.cursor.logicalX)) ∧
        t.cursor.logicalX ≤ int32Max := by
  intro term events
  have hk : breakKept 128 term events = true := by decide
  exact ⟨rfl, le_rfl, by decide, hk,
    handleCharInput_echo_in_step 128 term events rfl le_rfl (by decide) hk⟩

end BufSize

/-- Without its condition on backspaces the invariant fails: after `a`, a newline
and a backspace the buffer holds `a` and no newline, but `logical_x` is `0`, not
`p + 1`. -/
theorem handleCharInput_newline_backspace_desync :
    ¬ ∀ term : TerminalState, term.input.count = 0 → 0 ≤ term.cursor.logicalX →
      let t := [0x61, newlineByte, backspaceByte].foldl (handleCharInput 128) term
      newlineByte ∉ t.input.live → t.cursor.logicalX = term.cursor.logicalX + t.input.count := by
  intro h
  obtain ⟨hlive, hx⟩ := handleCharInput_backspace_erases_newline 128 (by decide)
    ⟨⟨fun _ => 0, 0⟩, ⟨0, 0, 0⟩, fun _ => 0⟩ rfl
  have hcount := live_length ([0x61, newlineByte, backspaceByte].foldl (handleCharInput 128)
    ⟨⟨fun _ => 0, 0⟩, ⟨0, 0, 0⟩, fun _ => 0⟩).input
  have key := h ⟨⟨fun _ => 0, 0⟩, ⟨0, 0, 0⟩, fun _ => 0⟩ rfl le_rfl
  dsimp only at key
  rw [hlive, hx] at key
  rw [hlive, List.length_singleton] at hcount
  have := key (by decide)
  omega

end Terminal
end LoliOS
