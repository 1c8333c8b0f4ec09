import LoliOS.Lib

/-!
# Terminal state and the write path

The executing terminal of `terminal.c`: its input buffer, its cursor and the
video memory it draws into, with the write path `terminal_putc` and the
routines it calls. `get_executing_terminal` always returns
`terminal_states[0]`, so every operation here takes that one terminal state
and returns it updated. The C `int32_t` cursor fields are integers. `logical_x`
can leave the `int32_t` range, so a statement of what the code does carries the
bound under which it stays inside.
-/

namespace LoliOS
namespace Terminal

def numCols : Int := 80

def numRows : Int := 25

def attrib : UInt8 := 0x7

/-- `cursor_pos_t`. Its `int32_t` fields are integers here: they are the code's
values as long as they stay within `int32_t`, which `screen_x` and `screen_y` do
and `logical_x` need not. -/
structure CursorPos where
  logicalX : Int
  screenX : Int
  screenY : Int
deriving DecidableEq, Repr

/-- `INT32_MAX`, the largest `int32_t`: `2^31 - 1`. -/
def int32Max : Int := 2147483647

/-- `input_buf_t`: the keyboard line buffer and the number of live bytes. -/
structure InputBuf where
  buf : Int -> UInt8
  count : Int

/-- The fields of `terminal_state_t` that `terminal.c` reads and writes. -/
structure TerminalState where
  input : InputBuf
  cursor : CursorPos
  videoMem : Int -> UInt8

/-!
# Drawing primitives
-/

/-- Byte offset of the character cell at column `x` of row `y`
(`(y * NUM_COLS + x) << 1`). -/
def cellOffset (x y : Int) : Int :=
  (y * numCols + x) * 2

def terminalWriteChar (term : TerminalState) (c : UInt8) : TerminalState :=
  let off := cellOffset term.cursor.screenX term.cursor.screenY
  { term with
    videoMem := Function.update (Function.update term.videoMem (off + 0) c) (off + 1) attrib }

def terminalScrollDown (term : TerminalState) : TerminalState :=
  let bytesPerRow := numCols * 2
  let shiftCount := numCols * numRows * 2 - bytesPerRow
  { term with
    videoMem := memset (memmove term.videoMem 0 bytesPerRow shiftCount) shiftCount 0 bytesPerRow }

/-!
# `terminal_putc`

One definition per branch of `terminal_putc`; the scroll at the bottom of the
screen, written twice in the source, is `scrollIfBottom`.
-/

/-- `if (screen_y >= NUM_ROWS) { terminal_scroll_down(); screen_y--; }` -/
def scrollIfBottom (term : TerminalState) : TerminalState :=
  if numRows ≤ term.cursor.screenY then
    let term := terminalScrollDown term
    { term with cursor := { term.cursor with screenY := term.cursor.screenY - 1 } }
  else term

def putNewline (term : TerminalState) : TerminalState :=
  scrollIfBottom
    { term with cursor := { logicalX := 0, screenX := 0, screenY := term.cursor.screenY + 1 } }

def putBackspace (term : TerminalState) : TerminalState :=
  if 0 < term.cursor.logicalX then
    let cur : CursorPos :=
      { term.cursor with
        logicalX := term.cursor.logicalX - 1, screenX := term.cursor.screenX - 1 }
    let cur : CursorPos :=
      if cur.screenX < 0 then
        { cur with screenY := cur.screenY - 1, screenX := cur.screenX + numCols }
      else cur
    terminalWriteChar { term with cursor := cur } spaceByte
  else term

def putPrintable (term : TerminalState) (c : UInt8) : TerminalState :=
  let term := terminalWriteChar term c
  let cur : CursorPos :=
    { term.cursor with
      logicalX := term.cursor.logicalX + 1, screenX := term.cursor.screenX + 1 }
  let cur : CursorPos :=
    if numCols ≤ cur.screenX then
      { cur with screenY := cur.screenY + 1, screenX := cur.screenX - numCols }
    else cur
  scrollIfBottom { term with cursor := cur }

def terminalPutc (term : TerminalState) (c : UInt8) : TerminalState :=
  if c = newlineByte ∨ c = returnByte then putNewline term
  else if c = backspaceByte then putBackspace term
  else putPrintable term c

/-- The loop of `terminal_clear` over its first `n` cells. -/
def clearCells (mem : Int -> UInt8) : Nat -> Int -> UInt8
  | 0 => mem
  | i + 1 =>
      let mem := clearCells mem i
      Function.update (Function.update mem (i * 2 + 0) spaceByte) (i * 2 + 1) attrib

def terminalClear (term : TerminalState) : TerminalState :=
  { term with
    videoMem := clearCells term.videoMem (numRows * numCols).toNat
    cursor := { logicalX := 0, screenX := 0, screenY := 0 } }

/-- `terminal_write`: every byte of the user buffer goes through `terminal_putc`,
and the call returns `nbytes`. -/
def terminalWrite (term : TerminalState) (bytes : List UInt8) : TerminalState × Int :=
  (bytes.foldl terminalPutc term, bytes.length)

/-!
# Frame lemmas

The write path never touches the input buffer, and its cursor arithmetic does
not read video memory: `cursorPutc` is the cursor half of `terminal_putc` on its
own.
-/

/-- The cursor update of `terminal_putc`. -/
def cursorPutc (cur : CursorPos) (c : UInt8) : CursorPos :=
  if c = newlineByte ∨ c = returnByte then
    { logicalX := 0, screenX := 0,
      screenY := if numRows ≤ cur.screenY + 1 then cur.screenY else cur.screenY + 1 }
  else if c = backspaceByte then
    if 0 < cur.logicalX then
      if cur.screenX - 1 < 0 then
        { logicalX := cur.logicalX - 1, screenX := cur.screenX - 1 + numCols,
          screenY := cur.screenY - 1 }
      else { cur with logicalX := cur.logicalX - 1, screenX := cur.screenX - 1 }
    else cur
  else
    let y := if numCols ≤ cur.screenX + 1 then cur.screenY + 1 else cur.screenY
    { logicalX := cur.logicalX + 1,
      screenX := if numCols ≤ cur.screenX + 1 then cur.screenX + 1 - numCols else cur.screenX + 1,
      screenY := if numRows ≤ y then y - 1 else y }

theorem cursorPutc_logicalX (cur : CursorPos) (c : UInt8) :
    (cursorPutc cur c).logicalX =
      if c = newlineByte ∨ c = returnByte then 0
      else if c = backspaceByte then (if 0 < cur.logicalX then cur.logicalX - 1 else cur.logicalX)
      else cur.logicalX + 1 := by
  unfold cursorPutc
  split_ifs <;> rfl

@[simp] theorem terminalWriteChar_cursor (term : TerminalState) (c : UInt8) :
    (terminalWriteChar term c).cursor = term.cursor := rfl

@[simp] theorem terminalWriteChar_input (term : TerminalState) (c : UInt8) :
    (terminalWriteChar term c).input = term.input := rfl

@[simp] theorem terminalScrollDown_cursor (term : TerminalState) :
    (terminalScrollDown term).cursor = term.cursor := rfl

@[simp] theorem terminalScrollDown_input (term : TerminalState) :
    (terminalScrollDown term).input = term.input := rfl

@[simp] theorem scrollIfBottom_input (term : TerminalState) :
    (scrollIfBottom term).input = term.input := by
  unfold scrollIfBottom; split_ifs <;> rfl

theorem scrollIfBottom_cursor (term : TerminalState) :
    (scrollIfBottom term).cursor =
      if numRows ≤ term.cursor.screenY then
        { term.cursor with screenY := term.cursor.screenY - 1 }
      else term.cursor := by
  unfold scrollIfBottom; split_ifs <;> rfl

@[simp] theorem terminalPutc_input (term : TerminalState) (c : UInt8) :
    (terminalPutc term c).input = term.input := by
  unfold terminalPutc putNewline putBackspace putPrintable
  split_ifs <;> simp

theorem terminalPutc_cursor (term : TerminalState) (c : UInt8) :
    (terminalPutc term c).cursor = cursorPutc term.cursor c := by
  unfold terminalPutc cursorPutc
  by_cases hnl : c = newlineByte ∨ c = returnByte
  · rw [if_pos hnl, if_pos hnl, putNewline, scrollIfBottom_cursor]
    split_ifs <;> simp
  rw [if_neg hnl, if_neg hnl]
  by_cases hbs : c = backspaceByte
  · rw [if_pos hbs, if_pos hbs, putBackspace]
    split_ifs <;> simp [*]
  · rw [if_neg hbs, if_neg hbs, putPrintable, scrollIfBottom_cursor]
    simp only [terminalWriteChar_cursor]
    split_ifs <;> simp

@[simp] theorem terminalClear_input (term : TerminalState) :
    (terminalClear term).input = term.input := rfl

@[simp] theorem terminalClear_cursor (term : TerminalState) :
    (terminalClear term).cursor = { logicalX := 0, screenX := 0, screenY := 0 } := rfl

end Terminal
end LoliOS
