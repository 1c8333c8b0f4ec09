import LoliOS.Terminal.State
import Mathlib.Data.List.Basic

/-!
# The screen as a layout of lines

From a cleared screen, writing a byte string without backspaces draws a layout
that can be stated without running `terminal_putc`: split the string into
logical lines at `'\n'` and `'\r'`, cut each line into rows of `NUM_COLS`
cells (a line of length `k` takes `k / NUM_COLS + 1` rows), and show the last
`NUM_ROWS` rows of the result. Every cell outside the text is blank: `' '` as
`terminal_clear` left it, or `NUL` as the scroll fills the bottom row.

The proof follows the string one byte at a time. A line break appends an empty
row; any other byte is appended to the last row, and a row that fills up is
followed by an empty one. On the screen, appending a row either shows it below
the others or scrolls them up one row.
-/

namespace LoliOS
namespace Terminal

theorem numCols_toNat : numCols.toNat = 80 := rfl

theorem numRows_toNat : numRows.toNat = 25 := rfl

/-!
# The declarative layout
-/

/-- `'\n'` and `'\r'`, the bytes at which `terminal_putc` starts a new line. -/
def isLineBreak (c : UInt8) : Bool := c = newlineByte || c = returnByte

def logicalLines (s : List UInt8) : List (List UInt8) := s.splitOnP isLineBreak

def lastLine (s : List UInt8) : List UInt8 := (logicalLines s).getLastD []

/-- A line cut into `length / NUM_COLS + 1` rows of at most `NUM_COLS` cells. -/
def lineRows (line : List UInt8) : List (List UInt8) :=
  (List.range (line.length / numCols.toNat + 1)).map fun j =>
    (line.drop (numCols.toNat * j)).take numCols.toNat

def layoutRows (s : List UInt8) : List (List UInt8) := (logicalLines s).flatMap lineRows

/-- The row of the current line that the cursor is in. -/
def lastRow (s : List UInt8) : List UInt8 :=
  (lastLine s).drop (numCols.toNat * ((lastLine s).length / numCols.toNat))

theorem splitOnP_append_singleton {α : Type} (p : α -> Bool) (xs : List α) (c : α) :
    (xs ++ [c]).splitOnP p =
      if p c then xs.splitOnP p ++ [[]]
      else (xs.splitOnP p).dropLast ++ [(xs.splitOnP p).getLastD [] ++ [c]] := by
  induction xs with
  | nil => by_cases h : p c <;> simp [List.splitOnP_cons, List.splitOnP_nil, h]
  | cons x xs ih =>
      obtain ⟨S, l, hS⟩ : ∃ S l, xs.splitOnP p = S ++ [l] := by
        rcases List.eq_nil_or_concat (xs.splitOnP p) with h | ⟨S, l, h⟩
        · exact absurd h (List.splitOnP_ne_nil _ _)
        · exact ⟨S, l, by simpa using h⟩
      rw [List.cons_append, List.splitOnP_cons, ih, List.splitOnP_cons, hS]
      by_cases hc : p c <;> by_cases hx : p x <;>
        simp only [hc, hx, if_true, if_false, Bool.false_eq_true, List.dropLast_concat,
          List.getLastD_concat]
      · rfl
      · cases S <;> rfl
      · simp only [← List.cons_append, List.dropLast_concat, List.getLastD_concat]
      · cases S with
        | nil => rfl
        | cons a S =>
            show ((x :: a) :: S) ++ [l ++ [c]] =
              (((x :: a) :: S) ++ [l]).dropLast ++ [(((x :: a) :: S) ++ [l]).getLastD [] ++ [c]]
            rw [List.dropLast_concat, List.getLastD_concat]

theorem logicalLines_eq (s : List UInt8) :
    logicalLines s = (logicalLines s).dropLast ++ [lastLine s] := by
  have hne : logicalLines s ≠ [] := List.splitOnP_ne_nil isLineBreak s
  rw [lastLine, List.getLastD_eq_getLast?, List.getLast?_eq_getLast _ hne, Option.getD_some,
    List.dropLast_concat_getLast hne]

theorem logicalLines_snoc (s : List UInt8) (c : UInt8) :
    logicalLines (s ++ [c]) =
      if isLineBreak c then logicalLines s ++ [[]]
      else (logicalLines s).dropLast ++ [lastLine s ++ [c]] :=
  splitOnP_append_singleton isLineBreak s c

theorem lastLine_snoc (s : List UInt8) (c : UInt8) :
    lastLine (s ++ [c]) = if isLineBreak c then [] else lastLine s ++ [c] := by
  rw [lastLine, logicalLines_snoc]
  split_ifs <;> simp

theorem lineRows_eq (line : List UInt8) :
    lineRows line =
      (List.range (line.length / 80)).map (fun j => (line.drop (80 * j)).take 80) ++
        [line.drop (80 * (line.length / 80))] := by
  rw [lineRows, numCols_toNat, List.range_succ, List.map_append, List.map_singleton,
    List.take_of_length_le (by simp; omega)]

theorem lineRows_append_singleton (line : List UInt8) (c : UInt8) :
    lineRows (line ++ [c]) =
      (lineRows line).dropLast ++ [(lineRows line).getLastD [] ++ [c]] ++
        if (line.length + 1) % 80 = 0 then [[]] else [] := by
  have hrow : ∀ j ∈ List.range (line.length / 80),
      ((line ++ [c]).drop (80 * j)).take 80 = (line.drop (80 * j)).take 80 := by
    intro j hj
    rw [List.mem_range] at hj
    rw [List.drop_append_of_le_length (by omega), List.take_append_of_le_length (by simp; omega)]
  have hlast : ((line ++ [c]).drop (80 * (line.length / 80))).take 80 =
      line.drop (80 * (line.length / 80)) ++ [c] := by
    rw [List.drop_append_of_le_length (by omega), List.take_of_length_le (by simp; omega)]
  rw [lineRows_eq line, List.dropLast_concat, List.getLastD_concat, lineRows, numCols_toNat,
    List.length_append, List.length_singleton]
  split_ifs with hwrap
  · have hq : (line.length + 1) / 80 + 1 = line.length / 80 + 1 + 1 := by omega
    have hnil : (line ++ [c]).drop (80 * (line.length / 80 + 1)) = [] :=
      List.drop_eq_nil_of_le (by simp; omega)
    rw [hq, List.range_succ, List.range_succ, List.map_append, List.map_append,
      List.map_congr_left hrow, List.map_singleton, List.map_singleton, hlast, hnil]
    simp
  · have hq : (line.length + 1) / 80 = line.length / 80 := by omega
    rw [hq, List.range_succ, List.map_append, List.map_congr_left hrow, List.map_singleton, hlast]
    simp

theorem layoutRows_split (s : List UInt8) :
    layoutRows s =
      ((logicalLines s).dropLast.flatMap lineRows ++
        (List.range ((lastLine s).length / 80)).map
          (fun j => ((lastLine s).drop (80 * j)).take 80)) ++ [lastRow s] := by
  rw [layoutRows, logicalLines_eq s, List.flatMap_append, List.flatMap_singleton, lineRows_eq,
    ← logicalLines_eq, List.append_assoc, lastRow, numCols_toNat]

theorem layoutRows_eq (s : List UInt8) :
    layoutRows s = (layoutRows s).dropLast ++ [lastRow s] := by
  rw [layoutRows_split s, List.dropLast_concat]

theorem layoutRows_snoc (s : List UInt8) (c : UInt8) :
    layoutRows (s ++ [c]) =
      if isLineBreak c then layoutRows s ++ [[]]
      else (layoutRows s).dropLast ++ [lastRow s ++ [c]] ++
        if ((lastLine s).length + 1) % 80 = 0 then [[]] else [] := by
  rw [layoutRows, logicalLines_snoc]
  by_cases hc : isLineBreak c
  · rw [if_pos hc, if_pos hc, List.flatMap_append, List.flatMap_singleton]
    rfl
  · rw [if_neg hc, if_neg hc, List.flatMap_append, List.flatMap_singleton,
      lineRows_append_singleton, lineRows_eq (lastLine s), List.dropLast_concat,
      List.getLastD_concat, layoutRows_split s, List.dropLast_concat, lastRow, numCols_toNat]
    simp only [List.append_assoc]

theorem length_layoutRows_snoc (s : List UInt8) (c : UInt8) :
    (layoutRows (s ++ [c])).length =
      (layoutRows s).length +
        if isLineBreak c then 1 else if ((lastLine s).length + 1) % 80 = 0 then 1 else 0 := by
  have hlen : (layoutRows s).dropLast.length + 1 = (layoutRows s).length := by
    conv_rhs => rw [layoutRows_eq s]
    simp
  rw [layoutRows_snoc]
  by_cases hc : isLineBreak c
  · simp [hc]
  · rw [if_neg hc, if_neg hc, ← hlen]
    split_ifs <;> simp

theorem length_lastRow (s : List UInt8) : (lastRow s).length = (lastLine s).length % 80 := by
  simp only [lastRow, numCols_toNat, List.length_drop]
  omega

theorem layoutRows_nil : layoutRows [] = [[]] := rfl

example : layoutRows [0x61, newlineByte, 0x62] = [[0x61], [0x62]] := by decide

theorem lastLine_nil : lastLine [] = [] := rfl

theorem lastLine_mem (s : List UInt8) : lastLine s ∈ logicalLines s := by
  rw [logicalLines_eq s]
  exact List.mem_append_right _ (List.mem_singleton_self _)

theorem logicalLines_append_prefix (u w : List UInt8) :
    ∀ l ∈ logicalLines u, ∃ l' ∈ logicalLines (u ++ w), l <+: l' := by
  induction w generalizing u with
  | nil => exact fun l hl => ⟨l, by rwa [List.append_nil], List.prefix_refl l⟩
  | cons c w ih =>
      intro l hl
      have hstep : ∃ l₁ ∈ logicalLines (u ++ [c]), l <+: l₁ := by
        rw [logicalLines_snoc]
        split_ifs
        · exact ⟨l, List.mem_append_left _ hl, List.prefix_refl l⟩
        · rw [logicalLines_eq u, List.mem_append, List.mem_singleton] at hl
          rcases hl with hl | rfl
          · exact ⟨l, List.mem_append_left _ hl, List.prefix_refl l⟩
          · exact ⟨_, List.mem_append_right _ (List.mem_singleton_self _), List.prefix_append _ _⟩
      obtain ⟨l₁, h₁, hp₁⟩ := hstep
      obtain ⟨l₂, h₂, hp₂⟩ := ih (u ++ [c]) l₁ h₁
      exact ⟨l₂, by rwa [List.append_assoc, List.singleton_append] at h₂, hp₁.trans hp₂⟩

theorem lastLine_replicate {c : UInt8} (hc : isLineBreak c = false) (n : Nat) :
    lastLine (List.replicate n c) = List.replicate n c := by
  induction n with
  | zero => rfl
  | succ n ih => rw [List.replicate_succ', lastLine_snoc, hc, if_neg Bool.false_ne_true, ih]

/-!
# Cells of the screen
-/

/-- The character and attribute bytes of the cell at column `x` of screen row `r`. -/
def cellAt (mem : Int -> UInt8) (r x : Nat) : UInt8 × UInt8 :=
  (mem (cellOffset x r), mem (cellOffset x r + 1))

/-- A cell without text: `' '` as `terminal_clear` writes it, or the zero bytes
that `terminal_scroll_down` writes into the bottom row. -/
def Blank (cell : UInt8 × UInt8) : Prop := cell = (spaceByte, attrib) ∨ cell = (0, 0)

theorem cellAt_terminalWriteChar (term : TerminalState) (c : UInt8) {r x : Nat} (hx : x < 80)
    (h0 : 0 ≤ term.cursor.screenX) (h80 : term.cursor.screenX < numCols) :
    cellAt (terminalWriteChar term c).videoMem r x =
      if (r : Int) = term.cursor.screenY ∧ (x : Int) = term.cursor.screenX then (c, attrib)
      else cellAt term.videoMem r x := by
  simp only [numCols] at h80
  by_cases hcell : (r : Int) = term.cursor.screenY ∧ (x : Int) = term.cursor.screenX
  · rw [if_pos hcell]
    simp (disch := omega) only [cellAt, terminalWriteChar, cellOffset, numCols,
      Function.update_apply, if_pos, if_neg]
  · rw [if_neg hcell]
    simp (disch := omega) only [cellAt, terminalWriteChar, cellOffset, numCols,
      Function.update_apply, if_neg]

theorem clearCells_apply (mem : Int -> UInt8) (n : Nat) (a : Int) :
    clearCells mem n a =
      if 0 ≤ a ∧ a < 2 * n then (if a % 2 = 0 then spaceByte else attrib) else mem a := by
  induction n with
  | zero => rw [clearCells, if_neg (by omega)]
  | succ n ih =>
      rw [clearCells, Function.update_apply, Function.update_apply, ih]
      by_cases h1 : a = n * 2 + 1
      · rw [if_pos h1, if_pos (by omega), if_neg (by omega)]
      by_cases h0 : a = n * 2 + 0
      · rw [if_neg h1, if_pos h0, if_pos (by omega), if_pos (by omega)]
      rw [if_neg h1, if_neg h0]
      by_cases hin : 0 ≤ a ∧ a < 2 * n
      · rw [if_pos hin, if_pos (show 0 ≤ a ∧ a < 2 * ((n + 1 : Nat) : Int) by omega)]
      · rw [if_neg hin, if_neg (show ¬(0 ≤ a ∧ a < 2 * ((n + 1 : Nat) : Int)) by omega)]

theorem cellAt_terminalClear (term : TerminalState) {r x : Nat} (hr : r < 25) (hx : x < 80) :
    cellAt (terminalClear term).videoMem r x = (spaceByte, attrib) := by
  simp (disch := omega) only [cellAt, terminalClear, clearCells_apply, cellOffset, numCols, numRows,
    if_pos, if_neg]

theorem cellAt_terminalScrollDown (term : TerminalState) {r x : Nat} (hr : r < 25) (hx : x < 80) :
    cellAt (terminalScrollDown term).videoMem r x =
      if r + 1 < 25 then cellAt term.videoMem (r + 1) x else (0, 0) := by
  by_cases hbot : r + 1 < 25 <;>
    simp (disch := omega) only [cellAt, terminalScrollDown, memset_apply, memmove_apply, cellOffset,
      numCols, numRows, if_pos, if_neg]
  congr 2 <;> omega

/-!
# The screen shows the layout
-/

/-- What the layout puts at column `x` of screen row `r`: of the `n` rows laid
out, the screen shows the last `v = min n NUM_ROWS`, so screen row `r < v` is
row `n - v + r`. -/
def layoutCell (rows : List (List UInt8)) (r x : Nat) : Option UInt8 :=
  let v := min rows.length numRows.toNat
  if r < v then rows[rows.length - v + r]?.bind fun row => row[x]? else none

/-- Every cell of the screen shows the layout: its text with `ATTRIB`, or blank. -/
def GridShows (rows : List (List UInt8)) (mem : Int -> UInt8) : Prop :=
  ∀ r x, r < numRows.toNat → x < numCols.toNat →
    match layoutCell rows r x with
    | some c => cellAt mem r x = (c, attrib)
    | none => Blank (cellAt mem r x)

theorem getElem?_append_singleton_of_ne (l : List UInt8) (c : UInt8) {x : Nat}
    (h : x ≠ l.length) : (l ++ [c])[x]? = l[x]? := by
  rcases Nat.lt_or_gt_of_ne h with h | h
  · exact List.getElem?_append_left h
  · rw [List.getElem?_eq_none (by simp; omega), List.getElem?_eq_none (by omega)]

theorem layoutCell_appendChar (S : List (List UInt8)) (l : List UInt8) (c : UInt8) (r x : Nat) :
    layoutCell (S ++ [l ++ [c]]) r x =
      if r + 1 = min (S.length + 1) 25 ∧ x = l.length then some c
      else layoutCell (S ++ [l]) r x := by
  simp only [layoutCell, numRows_toNat, List.length_append, List.length_singleton]
  by_cases hr : r < min (S.length + 1) 25
  · rw [if_pos hr, if_pos hr]
    by_cases hrow : r + 1 = min (S.length + 1) 25
    · have hi : S.length + 1 - min (S.length + 1) 25 + r = S.length := by omega
      rw [hi, List.getElem?_append_right le_rfl, List.getElem?_append_right le_rfl, Nat.sub_self]
      by_cases hx : x = l.length
      · simp [hrow, hx]
      · simp [hx, getElem?_append_singleton_of_ne l c hx]
    · rw [if_neg (fun h => hrow h.1), List.getElem?_append_left (by omega),
        List.getElem?_append_left (by omega)]
  · rw [if_neg hr, if_neg hr, if_neg (by omega)]

theorem layoutCell_newRow_of_lt (R : List (List UInt8)) (h : R.length < 25) (r x : Nat) :
    layoutCell (R ++ [[]]) r x = if r < R.length then layoutCell R r x else none := by
  have hv : min (R.length + 1) 25 = R.length + 1 := Nat.min_eq_left h
  simp only [layoutCell, numRows_toNat, List.length_append, List.length_singleton, hv,
    Nat.min_eq_left h.le, Nat.sub_self, Nat.zero_add, Nat.add_sub_cancel_left]
  by_cases hr : r < R.length
  · rw [if_pos hr, if_pos (by omega), if_pos hr, List.getElem?_append_left hr]
  · rw [if_neg hr]
    split_ifs with h'
    · rw [List.getElem?_append_right (by omega), show r - R.length = 0 by omega]
      rfl
    · rfl

theorem layoutCell_newRow_of_ge (R : List (List UInt8)) (h : 25 ≤ R.length) {r : Nat} (hr : r < 25)
    (x : Nat) :
    layoutCell (R ++ [[]]) r x = if r + 1 < 25 then layoutCell R (r + 1) x else none := by
  have hv : min (R.length + 1) 25 = 25 := Nat.min_eq_right (by omega)
  simp only [layoutCell, numRows_toNat, List.length_append, List.length_singleton, hv,
    Nat.min_eq_right h, if_pos hr]
  by_cases h' : r + 1 < 25
  · rw [if_pos h', if_pos h', List.getElem?_append_left (by omega),
      show R.length + 1 - 25 + r = R.length - 25 + (r + 1) by omega]
  · rw [if_neg h', List.getElem?_append_right (by omega),
      show R.length + 1 - 25 + r - R.length = 0 by omega]
    rfl

theorem GridShows.appendChar {S : List (List UInt8)} {l : List UInt8} {term : TerminalState}
    (h : GridShows (S ++ [l]) term.videoMem) (c : UInt8) (hl : l.length < 80)
    (hx : term.cursor.screenX = l.length)
    (hy : term.cursor.screenY = min ((S.length : Int) + 1) numRows - 1) :
    GridShows (S ++ [l ++ [c]]) (terminalWriteChar term c).videoMem := by
  intro r x hr hx'
  simp only [numRows_toNat, numCols_toNat, numRows] at hr hx' hy
  rw [layoutCell_appendChar, cellAt_terminalWriteChar term c hx' (by omega) (by simp [numCols]; omega)]
  by_cases hcell : r + 1 = min (S.length + 1) 25 ∧ x = l.length
  · rw [if_pos hcell, if_pos ⟨by omega, by omega⟩]
  · rw [if_neg hcell, if_neg (fun h' => hcell ⟨by omega, by omega⟩)]
    exact h r x hr hx'

theorem GridShows.newRow_of_lt {R : List (List UInt8)} {mem : Int -> UInt8} (h : GridShows R mem)
    (hR : R.length < 25) : GridShows (R ++ [[]]) mem := by
  intro r x hr hx
  rw [layoutCell_newRow_of_lt R hR]
  split_ifs with hr'
  · exact h r x hr hx
  · have hnone : layoutCell R r x = none := by
      simp only [layoutCell, numRows_toNat]
      rw [if_neg (by omega)]
    simpa [hnone] using h r x hr hx

theorem GridShows.newRow_scroll {R : List (List UInt8)} {term : TerminalState}
    (h : GridShows R term.videoMem) (hR : 25 ≤ R.length) :
    GridShows (R ++ [[]]) (terminalScrollDown term).videoMem := by
  intro r x hr hx
  rw [numRows_toNat] at hr
  rw [numCols_toNat] at hx
  rw [layoutCell_newRow_of_ge R hR hr, cellAt_terminalScrollDown term hr hx]
  split_ifs with hr'
  · exact h (r + 1) x (by rw [numRows_toNat]; omega) (by rw [numCols_toNat]; omega)
  · exact Or.inr rfl

theorem gridShows_terminalClear (term : TerminalState) :
    GridShows [[]] (terminalClear term).videoMem := by
  intro r x hr hx
  rw [numRows_toNat] at hr
  rw [numCols_toNat] at hx
  have hnone : layoutCell [[]] r x = none := by
    simp only [layoutCell, numRows_toNat]
    split_ifs with h0
    · rw [show [([] : List UInt8)].length - min [([] : List UInt8)].length 25 + r = 0 by
        simp at h0 ⊢; omega]
      rfl
    · rfl
  rw [hnone, cellAt_terminalClear term hr hx]
  exact Or.inl rfl

/-!
# `terminal_putc` on the screen
-/

theorem putNewline_videoMem (term : TerminalState) :
    (putNewline term).videoMem =
      if numRows ≤ term.cursor.screenY + 1 then (terminalScrollDown term).videoMem
      else term.videoMem := by
  simp only [putNewline, scrollIfBottom]
  split_ifs <;> rfl

theorem putPrintable_videoMem (term : TerminalState) (c : UInt8) :
    (putPrintable term c).videoMem =
      if numRows ≤ (if numCols ≤ term.cursor.screenX + 1 then term.cursor.screenY + 1
          else term.cursor.screenY) then
        (terminalScrollDown (terminalWriteChar term c)).videoMem
      else (terminalWriteChar term c).videoMem := by
  simp only [putPrintable, scrollIfBottom, terminalWriteChar_cursor]
  split_ifs <;> rfl

/-- The cursor that `terminal_putc` leaves after a byte that is not a line break,
from the cursor of a current line of `L` bytes at the bottom of `M` rows: the
layout wraps after every `NUM_COLS` bytes, and the screen shows `NUM_ROWS` rows. -/
theorem cursorPutc_layout_printable {c : UInt8} (hnl : ¬(c = newlineByte ∨ c = returnByte))
    (hc : c ≠ backspaceByte) {L M : Nat} (hM : 0 < M) :
    cursorPutc ⟨L, L % numCols, min (M : Int) numRows - 1⟩ c =
      ⟨(L + 1 : Nat), ((L + 1 : Nat) : Int) % numCols,
        min ((M + if (L + 1) % 80 = 0 then 1 else 0 : Nat) : Int) numRows - 1⟩ := by
  have hwrap : numCols ≤ (L : Int) % numCols + 1 ↔ (L + 1) % 80 = 0 := by
    simp only [numCols]; omega
  rw [cursorPutc, if_neg hnl, if_neg hc]
  simp only [hwrap, CursorPos.mk.injEq]
  by_cases hw : (L + 1) % 80 = 0
  · simp only [hw, if_true, numCols, numRows]
    refine ⟨by omega, by omega, ?_⟩
    split_ifs <;> omega
  · simp only [hw, if_false, numCols, numRows]
    refine ⟨by omega, by omega, ?_⟩
    split_ifs <;> omega

theorem cursorPutc_layout_lineBreak {c : UInt8} (hnl : c = newlineByte ∨ c = returnByte)
    {L M : Nat} (hM : 0 < M) :
    cursorPutc ⟨L, L % numCols, min (M : Int) numRows - 1⟩ c =
      ⟨(0 : Nat), ((0 : Nat) : Int) % numCols, min ((M + 1 : Nat) : Int) numRows - 1⟩ := by
  rw [cursorPutc, if_pos hnl]
  simp only [CursorPos.mk.injEq, numCols, numRows]
  omega

/-- `term` shows the layout of `s`: every cell as `GridShows` says, and the
cursor just after the text of the current line, on the bottom row of the layout. -/
structure Shows (s : List UInt8) (term : TerminalState) : Prop where
  grid : GridShows (layoutRows s) term.videoMem
  cursor : term.cursor =
    ⟨(lastLine s).length, (lastLine s).length % numCols,
      min ((layoutRows s).length : Int) numRows - 1⟩

theorem Shows.putc {s : List UInt8} {term : TerminalState} (h : Shows s term) {c : UInt8}
    (hc : c ≠ backspaceByte) : Shows (s ++ [c]) (terminalPutc term c) := by
  have hcur := h.cursor
  have hlen : (layoutRows s).dropLast.length + 1 = (layoutRows s).length := by
    conv_rhs => rw [layoutRows_eq s]
    simp
  have hbot : numRows ≤ term.cursor.screenY + 1 ↔ 25 ≤ (layoutRows s).length := by
    rw [hcur]; simp only [numRows]; omega
  by_cases hbr : isLineBreak c
  · have hnl : c = newlineByte ∨ c = returnByte := by simpa [isLineBreak] using hbr
    constructor
    · rw [layoutRows_snoc, if_pos hbr, terminalPutc, if_pos hnl, putNewline_videoMem]
      split_ifs with hb
      · exact h.grid.newRow_scroll (hbot.mp hb)
      · exact h.grid.newRow_of_lt (by rw [hbot] at hb; omega)
    · rw [terminalPutc_cursor, hcur, cursorPutc_layout_lineBreak hnl (by omega), lastLine_snoc,
        if_pos hbr, length_layoutRows_snoc, if_pos hbr]
      rfl
  · have hnl : ¬(c = newlineByte ∨ c = returnByte) := by simpa [isLineBreak] using hbr
    have hx : term.cursor.screenX = (lastRow s).length := by
      rw [hcur, length_lastRow]; simp only [numCols]; omega
    have hwrap : numCols ≤ term.cursor.screenX + 1 ↔ ((lastLine s).length + 1) % 80 = 0 := by
      rw [hx, length_lastRow]; simp only [numCols]; omega
    have hg : GridShows ((layoutRows s).dropLast ++ [lastRow s]) term.videoMem := by
      rw [← layoutRows_eq]; exact h.grid
    have hg1 := hg.appendChar c (by rw [length_lastRow]; omega) hx
      (by rw [hcur, ← hlen]; push_cast; rfl)
    constructor
    · rw [layoutRows_snoc, if_neg hbr, terminalPutc, if_neg hnl, if_neg hc, putPrintable_videoMem]
      by_cases hw : ((lastLine s).length + 1) % 80 = 0
      · rw [if_pos hw, if_pos (hwrap.mpr hw)]
        by_cases hb : 25 ≤ (layoutRows s).length
        · rw [if_pos (hbot.mpr hb)]
          exact hg1.newRow_scroll (by simp; omega)
        · rw [if_neg (mt hbot.mp hb)]
          exact hg1.newRow_of_lt (by simp; omega)
      · rw [if_neg hw, List.append_nil, if_neg (mt hwrap.mp hw),
          if_neg (show ¬numRows ≤ term.cursor.screenY by rw [hcur]; simp only [numRows]; omega)]
        exact hg1
    · rw [terminalPutc_cursor, hcur, cursorPutc_layout_printable hnl hc (by omega), lastLine_snoc,
        if_neg hbr, length_layoutRows_snoc, if_neg hbr, List.length_append, List.length_singleton]

theorem shows_terminalClear (term : TerminalState) : Shows [] (terminalClear term) :=
  ⟨by rw [layoutRows_nil]; exact gridShows_terminalClear term,
    by rw [terminalClear_cursor, lastLine_nil, layoutRows_nil]; rfl⟩

theorem Shows.putcs {s : List UInt8} {term : TerminalState} (h : Shows s term) (w : List UInt8)
    (hw : backspaceByte ∉ w) : Shows (s ++ w) (w.foldl terminalPutc term) := by
  induction w generalizing s term with
  | nil => simpa using h
  | cons c w ih =>
      rw [List.mem_cons, not_or] at hw
      rw [List.foldl_cons, ← List.singleton_append, ← List.append_assoc]
      exact ih (h.putc (Ne.symm hw.1)) hw.2

/-- `terminal_write` of a byte string without backspaces, from the screen that
`terminal_clear` leaves: the screen shows the last `NUM_ROWS` rows of the
string's layout, and the cursor stands after the current line's text, in its
last row. With every logical line shorter than `2^31` bytes, `logical_x` stays
within `int32_t` at every byte of the write, so the integers of the model are
the code's values throughout. -/
theorem terminalWrite_layout (term : TerminalState) (s : List UInt8) (hs : backspaceByte ∉ s)
    (hlines : ∀ l ∈ logicalLines s, (l.length : Int) ≤ int32Max) :
    (∀ k, ((s.take k).foldl terminalPutc (terminalClear term)).cursor.logicalX ≤ int32Max) ∧
      let t := (terminalWrite (terminalClear term) s).1
      GridShows (layoutRows s) t.videoMem ∧
        t.cursor =
          ⟨(lastLine s).length, (lastLine s).length % numCols,
            min ((layoutRows s).length : Int) numRows - 1⟩ := by
  have h := (shows_terminalClear term).putcs s hs
  refine ⟨fun k => ?_, h.grid, h.cursor⟩
  rw [((shows_terminalClear term).putcs _ fun hm => hs (List.mem_of_mem_take hm)).cursor]
  obtain ⟨l, hl, hp⟩ := logicalLines_append_prefix (s.take k) (s.drop k) _ (lastLine_mem _)
  rw [List.take_append_drop] at hl
  exact Int.le_trans (Int.ofNat_le.mpr hp.length_le) (hlines l hl)

theorem terminalWrite_layout_two_lines :
    backspaceByte ∉ [0x61, newlineByte, 0x62] ∧
      (∀ l ∈ logicalLines [0x61, newlineByte, 0x62], (l.length : Int) ≤ int32Max) ∧
      (∀ k, (([0x61, newlineByte, 0x62].take k).foldl terminalPutc
          (terminalClear ⟨⟨fun _ => 0, 0⟩, ⟨0, 0, 0⟩, fun _ => 0⟩)).cursor.logicalX ≤ int32Max) ∧
      let t := (terminalWrite (terminalClear ⟨⟨fun _ => 0, 0⟩, ⟨0, 0, 0⟩, fun _ => 0⟩)
        [0x61, newlineByte, 0x62]).1
      GridShows (layoutRows [0x61, newlineByte, 0x62]) t.videoMem ∧
        t.cursor =
          ⟨(lastLine [0x61, newlineByte, 0x62]).length,
            (lastLine [0x61, newlineByte, 0x62]).length % numCols,
            min ((layoutRows [0x61, newlineByte, 0x62]).length : Int) numRows - 1⟩ :=
  have hlines : ∀ l ∈ logicalLines [0x61, newlineByte, 0x62], (l.length : Int) ≤ int32Max := by
    decide
  ⟨by decide, hlines, terminalWrite_layout _ _ (by decide) hlines⟩

/-- A line of `2^31` bytes takes `logical_x` past `INT32_MAX`: the code's
`int32_t` cannot hold the length of the current line. -/
theorem terminalWrite_logicalX_leaves_int32 :
    ¬ ∀ (term : TerminalState) (s : List UInt8), backspaceByte ∉ s →
      (terminalWrite (terminalClear term) s).1.cursor.logicalX ≤ int32Max := by
  intro h
  let t0 : TerminalState := ⟨⟨fun _ => 0, 0⟩, ⟨0, 0, 0⟩, fun _ => 0⟩
  have hs : backspaceByte ∉ List.replicate (2 ^ 31) (0x61 : UInt8) :=
    fun hm => absurd (List.eq_of_mem_replicate hm) (by decide)
  have hx : (terminalWrite (terminalClear t0) (List.replicate (2 ^ 31) 0x61)).1.cursor.logicalX =
      2 ^ 31 := by
    rw [terminalWrite, ((shows_terminalClear t0).putcs _ hs).cursor]
    show ((lastLine ([] ++ List.replicate (2 ^ 31) 0x61)).length : Int) = 2 ^ 31
    rw [List.nil_append, lastLine_replicate (by decide), List.length_replicate]
    rfl
  have key := h t0 _ hs
  rw [hx, int32Max] at key
  omega

end Terminal
end LoliOS
