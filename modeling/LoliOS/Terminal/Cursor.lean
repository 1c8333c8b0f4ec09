import LoliOS.Terminal.State
import Mathlib.Tactic.Ring

/-!
# Cursor arithmetic of the write path

Closed forms for the cursor after a run of printable bytes and after a run of
backspaces. A backspace may climb back over every row its logical line covers,
and nothing in `terminal_putc` stops it at the top of the screen: after scrolling,
a long enough line puts the cursor on row `-1`, and the next erase is stored in
front of video memory.
-/

namespace LoliOS
namespace Terminal

theorem foldl_terminalPutc_cursor (term : TerminalState) (s : List UInt8) :
    (s.foldl terminalPutc term).cursor = s.foldl cursorPutc term.cursor := by
  induction s generalizing term with
  | nil => rfl
  | cons c s ih => simp [ih, terminalPutc_cursor]

/-- A byte that `terminal_putc` draws: neither a line break nor a backspace. -/
def Printable (c : UInt8) : Prop :=
  c ≠ newlineByte ∧ c ≠ returnByte ∧ c ≠ backspaceByte

instance (c : UInt8) : Decidable (Printable c) :=
  inferInstanceAs (Decidable (_ ∧ _ ∧ _))

theorem cursorPutc_printable {c : UInt8} (hc : Printable c) (cur : CursorPos) :
    cursorPutc cur c =
      let y := if numCols ≤ cur.screenX + 1 then cur.screenY + 1 else cur.screenY
      { logicalX := cur.logicalX + 1,
        screenX := if numCols ≤ cur.screenX + 1 then cur.screenX + 1 - numCols else cur.screenX + 1,
        screenY := if numRows ≤ y then y - 1 else y } := by
  obtain ⟨h1, h2, h3⟩ := hc
  simp [cursorPutc, h1, h2, h3]

theorem cursorPutc_backspace (cur : CursorPos) :
    cursorPutc cur backspaceByte =
      if 0 < cur.logicalX then
        if cur.screenX - 1 < 0 then
          { logicalX := cur.logicalX - 1, screenX := cur.screenX - 1 + numCols,
            screenY := cur.screenY - 1 }
        else { cur with logicalX := cur.logicalX - 1, screenX := cur.screenX - 1 }
      else cur := by
  simp [cursorPutc]

/-- `n` printable bytes from an on-screen cursor: the logical column advances by
`n`, the cursor moves `n` cells in reading order, and rows past the bottom are
scrolled away. -/
theorem foldl_cursorPutc_printable {c : UInt8} (hc : Printable c) (n : Nat) (cur : CursorPos)
    (hx : 0 ≤ cur.screenX ∧ cur.screenX < numCols)
    (hy : 0 ≤ cur.screenY ∧ cur.screenY < numRows) :
    (List.replicate n c).foldl cursorPutc cur =
      { logicalX := cur.logicalX + n, screenX := (cur.screenX + n) % numCols,
        screenY := min (cur.screenY + (cur.screenX + n) / numCols) (numRows - 1) } := by
  simp only [numCols, numRows] at *
  induction n generalizing cur with
  | zero =>
      obtain ⟨lx, sx, sy⟩ := cur
      simp only [List.replicate, List.foldl, CursorPos.mk.injEq, Nat.cast_zero, add_zero,
        sub_zero, true_and] at *
      omega
  | succ n ih =>
      rw [List.replicate_succ, List.foldl_cons, cursorPutc_printable hc]
      simp only [numCols, numRows]
      rw [ih] <;> simp only [CursorPos.mk.injEq] <;> split_ifs <;> omega

/-- `m` backspaces, all within the logical line, move the cursor back `m` cells
in reading order, row by row, with no lower bound on the row. -/
theorem foldl_cursorPutc_backspace (m : Nat) (cur : CursorPos)
    (hx : 0 ≤ cur.screenX ∧ cur.screenX < numCols) (hm : m ≤ cur.logicalX) :
    (List.replicate m backspaceByte).foldl cursorPutc cur =
      { logicalX := cur.logicalX - m, screenX := (cur.screenX - m) % numCols,
        screenY := cur.screenY + (cur.screenX - m) / numCols } := by
  simp only [numCols] at *
  induction m generalizing cur with
  | zero =>
      obtain ⟨lx, sx, sy⟩ := cur
      simp only [List.replicate, List.foldl, CursorPos.mk.injEq, Nat.cast_zero, add_zero,
        sub_zero, true_and] at *
      omega
  | succ m ih =>
      rw [List.replicate_succ, List.foldl_cons, cursorPutc_backspace]
      simp only [numCols]
      rw [if_pos (by omega)]
      split_ifs <;> rw [ih] <;> simp only [CursorPos.mk.injEq] <;> omega

/-- A backspace from the top-left cell with bytes of the logical line left moves
the cursor to row `-1` and stores its blank at byte offsets `-2` and `-1`. -/
theorem terminalPutc_backspace_from_origin (term : TerminalState) (lx : Int)
    (hcur : term.cursor = { logicalX := lx, screenX := 0, screenY := 0 }) (hlx : 0 < lx) :
    (terminalPutc term backspaceByte).cursor = { logicalX := lx - 1, screenX := 79, screenY := -1 } ∧
      (terminalPutc term backspaceByte).videoMem =
        Function.update (Function.update term.videoMem (-2) spaceByte) (-1) attrib := by
  constructor
  · rw [terminalPutc_cursor, hcur, cursorPutc_backspace]
    simp [hlx, numCols]
  · simp [terminalPutc, putBackspace, terminalWriteChar, hcur, hlx, cellOffset, numCols]

/-- From a cleared screen, 2000 printable bytes fill the screen and scroll it by
one row; 1920 backspaces then bring the cursor back to the top-left cell with 80
bytes of the logical line still above it. -/
theorem terminalWrite_fill_erase_cursor (term : TerminalState) :
    (terminalWrite (terminalClear term)
      (List.replicate 2000 0x61 ++ List.replicate 1920 backspaceByte)).1.cursor =
      { logicalX := 80, screenX := 0, screenY := 0 } := by
  have hprint : Printable 0x61 := by decide
  simp only [terminalWrite, foldl_terminalPutc_cursor, List.foldl_append, terminalClear_cursor]
  rw [foldl_cursorPutc_printable hprint _ _ (by simp [numCols]) (by simp [numRows])]
  rw [foldl_cursorPutc_backspace _ _ (by simp [numCols]) (by simp)]
  simp [numCols, numRows]

theorem terminalPutc_backspace_above_screen (term : TerminalState) :
    let t := (terminalWrite (terminalClear term)
      (List.replicate 2000 0x61 ++ List.replicate 1920 backspaceByte)).1
    t.cursor = { logicalX := 80, screenX := 0, screenY := 0 } ∧
      (terminalPutc t backspaceByte).cursor = { logicalX := 79, screenX := 79, screenY := -1 } ∧
      (terminalPutc t backspaceByte).videoMem =
        Function.update (Function.update t.videoMem (-2) spaceByte) (-1) attrib :=
  ⟨terminalWrite_fill_erase_cursor term,
    terminalPutc_backspace_from_origin _ 80 (terminalWrite_fill_erase_cursor term) (by decide)⟩

/-!
# The logical column is unbounded

`logical_x` counts the bytes of the current logical line with no cap, so a line
of `2^31` printable bytes takes the `int32_t` field past `INT32_MAX`.
-/

/-- `n` printable bytes written from a cleared screen leave `logical_x = n`. -/
theorem terminalWrite_logicalX_unbounded (term : TerminalState) {c : UInt8} (hc : Printable c)
    (n : Nat) : (terminalWrite (terminalClear term) (List.replicate n c)).1.cursor.logicalX = n := by
  simp only [terminalWrite, foldl_terminalPutc_cursor, terminalClear_cursor]
  rw [foldl_cursorPutc_printable hc _ _ (by simp [numCols]) (by simp [numRows])]
  simp

/-- A line of `2^31` bytes `'a'`: the last increment takes `logical_x` from
`INT32_MAX` to `INT32_MAX + 1`. -/
theorem terminalWrite_logicalX_past_int32Max :
    Printable 0x61 ∧
      (terminalWrite (terminalClear ⟨⟨fun _ => 0, 0⟩, ⟨0, 0, 0⟩, fun _ => 0⟩)
        (List.replicate (2 ^ 31) 0x61)).1.cursor.logicalX = int32Max + 1 :=
  ⟨by decide, (terminalWrite_logicalX_unbounded _ (by decide) _).trans (by simp [int32Max])⟩

/-!
# The column invariant

With `logical_x` taken as an integer, the two columns stay in step over every
run of `terminal_putc` and `terminal_clear`: `screen_x` is `logical_x` modulo
`NUM_COLS`, and a backspace moves back only while `logical_x > 0`.
-/

/-- `0 ≤ screen_x < NUM_COLS`, `logical_x ≥ 0` and `screen_x = logical_x mod NUM_COLS`. -/
structure CursorInv (cur : CursorPos) : Prop where
  screenX_nonneg : 0 ≤ cur.screenX
  screenX_lt : cur.screenX < numCols
  logicalX_nonneg : 0 ≤ cur.logicalX
  screenX_eq : cur.screenX = cur.logicalX % numCols

theorem cursorInv_zero : CursorInv ⟨0, 0, 0⟩ :=
  ⟨le_rfl, by decide, le_rfl, rfl⟩

theorem cursorInv_iff (cur : CursorPos) :
    CursorInv cur ↔
      0 ≤ cur.screenX ∧ cur.screenX < 80 ∧ 0 ≤ cur.logicalX ∧ cur.screenX = cur.logicalX % 80 :=
  ⟨fun ⟨h0, hlt, hl, heq⟩ => ⟨h0, hlt, hl, heq⟩, fun ⟨h0, hlt, hl, heq⟩ => ⟨h0, hlt, hl, heq⟩⟩

theorem CursorInv.cursorPutc {cur : CursorPos} (h : CursorInv cur) (c : UInt8) :
    CursorInv (cursorPutc cur c) := by
  rw [cursorInv_iff] at h ⊢
  obtain ⟨h0, hlt, hl, heq⟩ := h
  by_cases hnl : c = newlineByte ∨ c = returnByte
  · -- line break: both columns back to 0
    rw [Terminal.cursorPutc, if_pos hnl]
    dsimp only
    exact ⟨le_rfl, by decide, le_rfl, rfl⟩
  by_cases hbs : c = backspaceByte
  · -- backspace: one cell back while `logical_x > 0`, up a row from column 0
    subst hbs
    rw [cursorPutc_backspace]
    by_cases hpos : 0 < cur.logicalX
    · rw [if_pos hpos]
      split_ifs
      · dsimp only; simp only [numCols]; exact ⟨by omega, by omega, by omega, by omega⟩
      · dsimp only; exact ⟨by omega, by omega, by omega, by omega⟩
    · rw [if_neg hpos]
      exact ⟨h0, hlt, hl, heq⟩
  · -- any other byte: one cell on, down a row past the last column
    rw [cursorPutc_printable ⟨fun h => hnl (.inl h), fun h => hnl (.inr h), hbs⟩]
    dsimp only
    simp only [numCols]
    split_ifs <;> exact ⟨by omega, by omega, by omega, by omega⟩

/-- A call on the executing terminal: `terminal_putc(c)` or `terminal_clear()`. -/
inductive TermOp
  | putc (c : UInt8)
  | clear

def termStep (term : TerminalState) : TermOp -> TerminalState
  | .putc c => terminalPutc term c
  | .clear => terminalClear term

def termRun (term : TerminalState) (ops : List TermOp) : TerminalState :=
  ops.foldl termStep term

/-- `terminal_states[0]` as its static initializer leaves it; video memory holds
whatever the screen showed at boot. -/
def terminalStatesInit (videoMem : Int -> UInt8) : TerminalState :=
  ⟨⟨fun _ => 0, 0⟩, ⟨0, 0, 0⟩, videoMem⟩

theorem CursorInv.termStep {term : TerminalState} (h : CursorInv term.cursor) (op : TermOp) :
    CursorInv (termStep term op).cursor := by
  cases op with
  | putc c => rw [Terminal.termStep, terminalPutc_cursor]; exact h.cursorPutc c
  | clear => rw [Terminal.termStep, terminalClear_cursor]; exact cursorInv_zero

theorem CursorInv.termRun {term : TerminalState} (h : CursorInv term.cursor) (ops : List TermOp) :
    CursorInv (termRun term ops).cursor := by
  induction ops generalizing term with
  | nil => exact h
  | cons op ops ih => exact ih (h.termStep op)

/-- From the boot state of `terminal_states[0]`, or from any `terminal_clear`,
every sequence of `terminal_putc` and `terminal_clear` calls keeps the columns in
step. -/
theorem termRun_cursorInv (videoMem : Int -> UInt8) (term : TerminalState) (ops : List TermOp) :
    CursorInv (termRun (terminalStatesInit videoMem) ops).cursor ∧
      CursorInv (termRun (terminalClear term) ops).cursor :=
  ⟨CursorInv.termRun cursorInv_zero ops,
    CursorInv.termRun (by rw [terminalClear_cursor]; exact cursorInv_zero) ops⟩

/-!
# Typing a character and erasing it
-/

theorem terminalWriteChar_twice (term : TerminalState) (c d : UInt8) :
    terminalWriteChar (terminalWriteChar term c) d = terminalWriteChar term d := by
  have hne : cellOffset term.cursor.screenX term.cursor.screenY + 0 ≠
      cellOffset term.cursor.screenX term.cursor.screenY + 1 := by omega
  simp only [terminalWriteChar, terminalWriteChar_cursor, Function.update_comm hne,
    Function.update_idem]

theorem terminalPutc_backspace_eq (term : TerminalState) :
    terminalPutc term backspaceByte = putBackspace term := by
  simp [terminalPutc]

theorem terminalPutc_printable_eq {c : UInt8} (hc : Printable c) (term : TerminalState) :
    terminalPutc term c = putPrintable term c := by
  simp [terminalPutc, hc.1, hc.2.1, hc.2.2]

/-- On a cursor in step with its logical column and on the screen, a printable
byte followed by a backspace leaves the terminal as if a space had been written
at the cursor. When the byte filled the last cell of the screen, which scrolls
it, the space lands one row up on the scrolled screen instead. Below `INT32_MAX`
the byte's increment of `logical_x` stays within `int32_t`. -/
theorem terminalPutc_printable_backspace (term : TerminalState) {c : UInt8} (hc : Printable c)
    (hinv : CursorInv term.cursor) (hy : term.cursor.screenY < numRows)
    (hlx : term.cursor.logicalX < int32Max) :
    (terminalPutc term c).cursor.logicalX ≤ int32Max ∧
    terminalPutc (terminalPutc term c) backspaceByte =
      if term.cursor.screenX + 1 < numCols ∨ term.cursor.screenY + 1 < numRows then
        terminalWriteChar term spaceByte
      else
        terminalWriteChar
          { terminalScrollDown (terminalWriteChar term c) with
            cursor := { term.cursor with screenY := term.cursor.screenY - 1 } } spaceByte := by
  refine ⟨by rw [terminalPutc_cursor, cursorPutc_printable hc]; exact hlx, ?_⟩
  obtain ⟨h0, hlt, hl, -⟩ := (cursorInv_iff _).mp hinv
  obtain ⟨input, ⟨lx, x, y⟩, mem⟩ := term
  simp only [numCols, numRows] at hy hlt h0 hl ⊢
  rw [terminalPutc_printable_eq hc, terminalPutc_backspace_eq]
  have hpos : (0 : Int) < lx + 1 := by omega
  rcases (show x + 1 < 80 ∨ (x = 79 ∧ y + 1 < 25) ∨ (x = 79 ∧ y = 24) by omega) with
    hx | ⟨rfl, hy'⟩ | ⟨rfl, rfl⟩
  · -- the cursor moves right on its row, and back
    have h1 : ¬(80 : Int) ≤ x + 1 := by omega
    have h2 : ¬(25 : Int) ≤ y := by omega
    have h3 : ¬x < 0 := by omega
    rw [if_pos (.inl hx)]
    simp only [putPrintable, putBackspace, scrollIfBottom, terminalWriteChar_cursor, numCols,
      numRows, h1, h2, h3, hpos, if_false, if_true, add_sub_cancel_right]
    exact terminalWriteChar_twice ⟨input, ⟨lx, x, y⟩, mem⟩ c spaceByte
  · -- the cursor wraps to the next row, and climbs back
    have h2 : ¬(25 : Int) ≤ y + 1 := by omega
    rw [if_pos (.inr hy')]
    simp [putPrintable, putBackspace, scrollIfBottom, numCols, numRows, h2, hpos]
    exact terminalWriteChar_twice ⟨input, ⟨lx, 79, y⟩, mem⟩ c spaceByte
  · -- the last cell of the screen: the write scrolls, the erase lands a row up
    rw [if_neg (by norm_num)]
    simp [putPrintable, putBackspace, scrollIfBottom, numCols, numRows, hpos]
    rfl

theorem terminalPutc_printable_backspace_last_cell :
    let term : TerminalState := ⟨⟨fun _ => 0, 0⟩, ⟨79, 79, 24⟩, fun _ => 0⟩
    Printable 0x61 ∧ CursorInv term.cursor ∧ term.cursor.screenY < numRows ∧
      term.cursor.logicalX < int32Max ∧
      (terminalPutc term 0x61).cursor.logicalX ≤ int32Max ∧
      terminalPutc (terminalPutc term 0x61) backspaceByte =
        if term.cursor.screenX + 1 < numCols ∨ term.cursor.screenY + 1 < numRows then
          terminalWriteChar term spaceByte
        else
          terminalWriteChar
            { terminalScrollDown (terminalWriteChar term 0x61) with
              cursor := { term.cursor with screenY := term.cursor.screenY - 1 } } spaceByte := by
  intro term
  have hinv : CursorInv term.cursor := (cursorInv_iff _).mpr ⟨by decide, by decide, by decide, by decide⟩
  have hlx : term.cursor.logicalX < int32Max := by simp only [int32Max]; decide
  exact ⟨by decide, hinv, by decide, hlx,
    terminalPutc_printable_backspace term (by decide) hinv (by decide) hlx⟩

end Terminal
end LoliOS
