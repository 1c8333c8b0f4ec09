import LoliOS.Terminal.ReadProtocol

/-!
# What `terminal_read` delivers, and where it touches the buffer

`wait_until_readable` tests the count before it looks for a line break: once
`nbytes` bytes are buffered it returns `nbytes`, whatever line breaks they hold,
and only a shorter buffer is cut after its first `'\n'`. The law is stated for
the atomic read of `LoliOS.Terminal.Input`; every test of the interleaved reader
(`readerRun_loopTest`) is such a read of the buffer as it stands at that test,
whichever keystrokes arrived before it and in whatever batches.

The copy loop reads `buf[0, i)`, and the compaction
`memmove(&buf[0], &buf[i], i)` reads `buf[i, 2 i)`: past the end of the array
as soon as a read takes more than half of it.
-/

namespace LoliOS
namespace Terminal

section BufSize

variable (terminalBufSize : Nat)

/-!
# The read law
-/

theorem clamp_eq_min (nbytes : Int) :
    (if (terminalBufSize : Int) < nbytes then (terminalBufSize : Int) else nbytes) =
      min nbytes terminalBufSize := by
  split_ifs <;> omega

theorem terminalRead_eq (input : InputBuf) (nbytes : Int) :
    terminalRead terminalBufSize input nbytes =
      (waitUntilReadableStep input (min nbytes terminalBufSize)).map (readOut input) := by
  simp only [terminalRead, clamp_eq_min]

theorem waitUntilReadableStep_of_le {input : InputBuf} {n : Int} (h : n ≤ input.count) :
    waitUntilReadableStep input n = some n := by
  rw [waitUntilReadableStep, if_neg (not_lt.mpr h)]

theorem waitUntilReadableStep_of_newline {input : InputBuf} {n : Int} (h : input.count < n)
    {j : Nat} (hj : j < input.count.toNat) (hnl : input.buf j = newlineByte)
    (hfirst : ∀ i : Nat, i < j → input.buf i ≠ newlineByte) :
    waitUntilReadableStep input n = some ((j : Int) + 1) := by
  rw [waitUntilReadableStep, if_pos h]
  exact newlineScan_eq_some.mpr ⟨j, rfl, hj, hnl, hfirst⟩

theorem length_readOut_fst (input : InputBuf) (k : Int) :
    (readOut input k).1.length = (max k 0).toNat := by
  simp [readOut]

/-- Once `min nbytes TERMINAL_BUF_SIZE` bytes are buffered, `terminal_read`
delivers exactly that many, line breaks among them or not. -/
theorem terminalRead_full_ignores_newline (input : InputBuf) (nbytes : Int)
    (h0 : 0 ≤ input.count) (hle : min nbytes terminalBufSize ≤ input.count) :
    (terminalRead terminalBufSize input nbytes).map Prod.fst =
      some (input.live.take (min nbytes terminalBufSize).toNat) := by
  rw [terminalRead_eq, waitUntilReadableStep_of_le hle, Option.map_some', Option.map_some',
    readOut_fst _ _ (by omega)]
  congr 2
  omega

end BufSize

theorem terminalRead_full_ignores_newline_at_128 :
    (0 : Int) ≤ 2 ∧ min 2 ((128 : Nat) : Int) ≤ 2 ∧
      (terminalRead 128 ⟨fun i => if i = 0 then newlineByte else 0x61, 2⟩ 2).map Prod.fst =
        some [newlineByte, 0x61] :=
  ⟨by decide, by decide,
    (terminalRead_full_ignores_newline 128 ⟨fun i => if i = 0 then newlineByte else 0x61, 2⟩ 2
      (by decide) (by decide)).trans (by decide)⟩

/-!
# The buffer a read leaves
-/

theorem drop_live (input : InputBuf) (m : Nat) :
    input.live.drop m =
      (List.range (input.count.toNat - m)).map fun j : Nat => input.buf ((m + j : Nat) : Int) := by
  apply List.ext_getElem
  · simp [InputBuf.live]
  · intro j h1 h2
    simp [InputBuf.live]

section BufSize

variable (terminalBufSize : Nat)

/-- A read leaves exactly the bytes it did not deliver, in order, if and only if
each live byte at an index `j` in `[k, count - k)` equals the byte `k` places
after it, `k` being the number of bytes delivered: the compaction copies
`buf[k, 2 k)` to the front where the unread bytes are `buf[k, count)`. So it
keeps the order whenever `count ≤ 2 k`, and otherwise only by coincidence. -/
theorem terminalRead_fifo_iff (input : InputBuf) (nbytes : Int) {bytes : List UInt8}
    {input' : InputBuf} (h0 : 0 ≤ input.count)
    (hr : terminalRead terminalBufSize input nbytes = some (bytes, input')) :
    input'.live = input.live.drop bytes.length ↔
      ∀ j : Nat, bytes.length ≤ j → j + bytes.length < input.count.toNat →
        input.buf j = input.buf (j + bytes.length : Nat) := by
  rw [terminalRead_eq, Option.map_eq_some'] at hr
  obtain ⟨k, hk, hout⟩ := hr
  have hle := waitUntilReadableStep_le h0 hk
  have hlen : bytes.length = (max k 0).toNat := by
    rw [← length_readOut_fst input k, hout]
  have hlive : input'.live = (readOut input k).2.live := by rw [hout]
  rw [hlive, live_readOut, drop_live, hlen,
    show (input.count - max k 0).toNat = input.count.toNat - (max k 0).toNat by omega,
    List.map_inj_left]
  constructor
  · intro h j hj hjc
    have := h j (List.mem_range.mpr (by omega))
    rw [if_neg (by omega)] at this
    rw [this]
    congr 1
    omega
  · intro h j hj
    rw [List.mem_range] at hj
    by_cases hjk : (j : Int) < max k 0
    · rw [if_pos hjk]
      congr 1
      omega
    · rw [if_neg hjk, h j (by omega) (by omega)]
      congr 1
      omega

end BufSize

/-- Type-ahead `abc` and a one-byte read: the buffer left is the unread `bc`
exactly when the byte at `1` equals the one at `2`. -/
theorem terminalRead_fifo_iff_abc :
    let input : InputBuf := ⟨fun i => if i = 0 then 0x61 else if i = 1 then 0x62 else 0x63, 3⟩
    0 ≤ input.count ∧ terminalRead 128 input 1 = some ([0x61], (readOut input 1).2) ∧
      ((readOut input 1).2.live = input.live.drop 1 ↔
        ∀ j : Nat, 1 ≤ j → j + 1 < input.count.toNat → input.buf j = input.buf (j + 1 : Nat)) := by
  intro input
  exact ⟨by decide, rfl, terminalRead_fifo_iff 128 input 1 (by decide) rfl⟩

/-!
# Where a read touches the buffer
-/

/-- The accesses of `terminal_read` to `input_buf->buf` once `wait_until_readable`
returned `nbytes`: the copy loop reads `buf[0, i)`, where it stops at
`i = max nbytes 0`, then `memmove(&buf[0], &buf[i], i)`. -/
def readOutAccesses (nbytes : Int) : List Access :=
  let i := max nbytes 0
  (List.range i.toNat).map (fun j : Nat => .read j) ++ memmoveAccesses 0 i i

theorem offset_of_mem_readOutAccesses {k : Int} {a : Access} (ha : a ∈ readOutAccesses k) :
    0 ≤ a.offset ∧ a.offset < 2 * max k 0 := by
  simp only [readOutAccesses, memmoveAccesses, List.mem_append, List.mem_map, List.mem_range] at ha
  rcases ha with (⟨j, hj, rfl⟩ | ⟨j, hj, rfl⟩ | ⟨j, hj, rfl⟩) <;> simp only [Access.offset] <;> omega

theorem read_mem_readOutAccesses {k : Int} (hk : 0 < k) :
    Access.read (2 * k - 1) ∈ readOutAccesses k := by
  simp only [readOutAccesses, memmoveAccesses, List.mem_append, List.mem_map, List.mem_range]
  exact .inr (.inl ⟨(k - 1).toNat, by omega, by congr 1; omega⟩)

section BufSize

variable (terminalBufSize : Nat)

/-- The accesses of `terminal_read`'s copy loop and compaction to `input_buf->buf`,
when it gets past `wait_until_readable`. -/
def terminalReadAccesses (input : InputBuf) (nbytes : Int) : Option (List Access) :=
  let nbytes := if (terminalBufSize : Int) < nbytes then (terminalBufSize : Int) else nbytes
  (waitUntilReadableStep input nbytes).map readOutAccesses

theorem terminalReadAccesses_eq (input : InputBuf) (nbytes : Int) :
    terminalReadAccesses terminalBufSize input nbytes =
      (waitUntilReadableStep input (min nbytes terminalBufSize)).map readOutAccesses := by
  simp only [terminalReadAccesses, clamp_eq_min]

/-- From any buffer state, a read that gets past the wait keeps its copy loop and
compaction inside `buf` exactly when it delivers at most half of
`TERMINAL_BUF_SIZE` bytes. -/
theorem terminalReadAccesses_in_bounds_iff (input : InputBuf) (nbytes : Int) (acc : List Access)
    (ha : terminalReadAccesses terminalBufSize input nbytes = some acc) :
    ∃ bytes input', terminalRead terminalBufSize input nbytes = some (bytes, input') ∧
      ((∀ a ∈ acc, 0 ≤ a.offset ∧ a.offset < terminalBufSize) ↔
        2 * bytes.length ≤ terminalBufSize) := by
  rw [terminalReadAccesses_eq] at ha
  obtain ⟨k, hk, rfl⟩ := Option.map_eq_some'.mp ha
  refine ⟨(readOut input k).1, (readOut input k).2, by rw [terminalRead_eq, hk]; rfl, ?_⟩
  rw [length_readOut_fst]
  constructor
  · intro hall
    by_cases hpos : 0 < k
    · have := hall _ (read_mem_readOutAccesses hpos)
      simp only [Access.offset] at this
      omega
    · omega
  · intro h a ha
    have := offset_of_mem_readOutAccesses ha
    omega

end BufSize

/-- A full buffer of `TERMINAL_BUF_SIZE = 128` bytes read whole: the compaction
reads `buf[128, 256)`, outside the array. -/
theorem terminalReadAccesses_full_buffer :
    terminalReadAccesses 128 ⟨fun _ => 0, 128⟩ 128 = some (readOutAccesses 128) ∧
      ¬ ∀ a ∈ readOutAccesses 128, 0 ≤ a.offset ∧ a.offset < ((128 : Nat) : Int) := by
  have hacc : terminalReadAccesses 128 ⟨fun _ => 0, 128⟩ 128 = some (readOutAccesses 128) := by
    rw [terminalReadAccesses_eq, waitUntilReadableStep_of_le (by decide)]
    rfl
  obtain ⟨bytes, input', hr, hiff⟩ :=
    terminalReadAccesses_in_bounds_iff 128 ⟨fun _ => 0, 128⟩ 128 _ hacc
  rw [terminalRead_eq, waitUntilReadableStep_of_le (by decide), Option.map_some',
    Option.some.injEq] at hr
  have hb : (readOut ⟨fun _ => 0, 128⟩ (min 128 ((128 : Nat) : Int))).1 = bytes :=
    congrArg Prod.fst hr
  refine ⟨hacc, fun hall => ?_⟩
  have hlen := hiff.mp hall
  rw [← hb, length_readOut_fst] at hlen
  exact absurd hlen (by decide)

end Terminal
end LoliOS
