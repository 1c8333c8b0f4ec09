import LoliOS.Terminal.Input
import LoliOS.Keyboard.Decoder

/-!
# Keystrokes into the input buffer

`handle_keyboard_irq` reads a packet, decodes it with `process_packet` and hands
the event to `terminal_handle_input`, which buffers and echoes a character or
runs a control sequence. Together with the reads of `terminal_read` this is the
producer and the consumer of the input buffer.

Over every run of packets and reads, the live bytes never hold a backspace, and
a read leaves only bytes that were live before it. A `NUL` byte does get in:
`keycode_map` has `'\0'` entries, and `keycode_to_input` turns a press of such a
key (Escape, for one) into a character event.
-/

namespace LoliOS
namespace Terminal

open Keyboard

/-- The executing terminal (`terminal_states[0]`, what `get_executing_terminal`
returns) and `display_terminal`. -/
structure Console where
  term : TerminalState
  displayTerminal : Int

/-- `set_display_terminal`; only `0` is ever passed, inside its `ASSERT`. -/
def setDisplayTerminal (c : Console) (index : Int) : Console :=
  { c with displayTerminal := index }

def handleCtrlInput (c : Console) : KbdInputCtrl -> Console
  | .clear => { c with term := terminalClear c.term }
  | .term1 => setDisplayTerminal c 0
  | _ => c

/-- A layout with the modifier keycodes of scan code set 1 (Ctrl `0x1D`, Shift
`0x2A` and `0x36`, Alt `0x38`, Caps Lock `0x3A`; the right Ctrl and Alt keys,
which set 1 sends behind an `0xE0` prefix, on `0x61` and `0x64`), one bit each,
and `NUM_KEYS` the length of the rows of `keycode_map`. -/
def setOneLayout : KbdLayout where
  keycode
    | .lctrl => 0x1D | .rctrl => 0x61 | .lshift => 0x2A | .rshift => 0x36
    | .lalt => 0x38 | .ralt => 0x64 | .capsLock => 0x3A
  kcL := 0x26
  numKeys := 0x3A
  bit
    | .lctrl => 0 | .rctrl => 1 | .lshift => 2 | .rshift => 3
    | .lalt => 4 | .ralt => 5 | .capsLock => 6
  keycode_injective := by
    intro a b h
    cases a <;> cases b <;> first | rfl | exact absurd h (by decide)
  keycode_lt := by intro m; cases m <;> decide
  bit_injective := by
    intro a b h
    cases a <;> cases b <;> first | rfl | exact absurd h (by decide)
  bit_lt := by intro m; cases m <;> decide

section BufSize

variable (terminalBufSize : Nat)

def terminalHandleInput (c : Console) : KbdInput -> Console
  | .char character => { c with term := handleCharInput terminalBufSize c.term character }
  | .ctrl control => handleCtrlInput c control
  | .none => c

theorem terminalHandleInput_input (c : Console) (input : KbdInput) :
    (terminalHandleInput terminalBufSize c input).term.input =
      match input with
      | .char character => bufferChar terminalBufSize c.term.input character
      | _ => c.term.input := by
  rcases input with _ | _ | (_ | _ | _ | _ | _) <;>
    simp [terminalHandleInput, handleCtrlInput, setDisplayTerminal, handleCharInput_input]

/-- The keyboard driver and the terminal: the console and the modifier bitset
of `keyboard.c`. -/
structure KbdSystem where
  console : Console
  modifiers : BitVec 32

variable (L : KbdLayout)

/-- `handle_keyboard_irq` on the packet read from the keyboard port. -/
def handleKeyboardIrq (s : KbdSystem) (packet : BitVec 8) : KbdSystem :=
  let r := processPacket L s.modifiers packet
  { console := terminalHandleInput terminalBufSize s.console r.1, modifiers := r.2 }

/-- A keyboard interrupt with its packet, or a `terminal_read` of `nbytes`. -/
inductive KbdEvent
  | packet (p : BitVec 8)
  | read (nbytes : Int)

/-- One event. A read changes the buffer at the pass of its wait loop that finds
it readable; the passes before that change nothing. -/
def kbdStep (s : KbdSystem) : KbdEvent -> KbdSystem
  | .packet p => handleKeyboardIrq terminalBufSize L s p
  | .read nbytes =>
      match terminalRead terminalBufSize s.console.term.input nbytes with
      | some (_, input) => { s with console.term.input := input }
      | none => s

def kbdRun (s : KbdSystem) (events : List KbdEvent) : KbdSystem :=
  events.foldl (kbdStep terminalBufSize L) s

/-!
# The buffer over a run
-/

/-- What every run keeps of the input buffer: `0 <= count <= TERMINAL_BUF_SIZE`,
and no backspace among the live bytes. -/
structure InputInv (input : InputBuf) : Prop where
  count_nonneg : 0 ≤ input.count
  count_le : input.count ≤ terminalBufSize
  no_backspace : backspaceByte ∉ input.live

theorem InputInv.bufferChar {input : InputBuf} (h : InputInv terminalBufSize input) (c : UInt8) :
    InputInv terminalBufSize (bufferChar terminalBufSize input c) := by
  obtain ⟨h0, hle⟩ := bufferChar_count_bounds terminalBufSize input c ⟨h.count_nonneg, h.count_le⟩
  refine ⟨h0, hle, ?_⟩
  rw [live_bufferChar _ _ _ h.count_nonneg]
  split_ifs with hc
  · exact fun hm => h.no_backspace (List.dropLast_subset _ hm)
  · simpa [eq_comm, hc] using h.no_backspace
  · exact h.no_backspace

theorem InputInv.terminalRead {input input' : InputBuf} {nbytes : Int} {out : List UInt8}
    (h : InputInv terminalBufSize input)
    (hr : terminalRead terminalBufSize input nbytes = some (out, input')) :
    InputInv terminalBufSize input' := by
  simp only [Terminal.terminalRead, Option.map_eq_some'] at hr
  obtain ⟨k, hk, hout⟩ := hr
  have hle := waitUntilReadableStep_le h.count_nonneg hk
  have hcount : input'.count = input.count - max k 0 := by rw [← readOut_count, hout]
  have hsub : input'.live ⊆ input.live := by
    have := live_readOut_subset input k
    rwa [hout] at this
  exact ⟨by omega, by have := h.count_le; omega, fun hm => h.no_backspace (hsub hm)⟩

theorem kbdStep_inv (s : KbdSystem) (e : KbdEvent) (h : InputInv terminalBufSize s.console.term.input) :
    InputInv terminalBufSize (kbdStep terminalBufSize L s e).console.term.input := by
  cases e with
  | packet p =>
      simp only [kbdStep, handleKeyboardIrq, terminalHandleInput_input]
      split
      · exact h.bufferChar _ _
      · exact h
  | read nbytes =>
      simp only [kbdStep]
      split
      · next hr => exact h.terminalRead _ hr
      · exact h

theorem kbdRun_inv (s : KbdSystem) (events : List KbdEvent)
    (h : InputInv terminalBufSize s.console.term.input) :
    InputInv terminalBufSize (kbdRun terminalBufSize L s events).console.term.input := by
  induction events generalizing s with
  | nil => exact h
  | cons e events ih => exact ih _ (kbdStep_inv terminalBufSize L s e h)

/-- From an empty buffer: `a` typed, erased, a newline typed, and a read. -/
theorem kbdRun_inv_type_erase_read :
    let s : KbdSystem := ⟨⟨⟨⟨fun _ => 0, 0⟩, ⟨0, 0, 0⟩, fun _ => 0⟩, 0⟩, kmodNone⟩
    InputInv 128 s.console.term.input ∧
      InputInv 128 (kbdRun 128 setOneLayout s
        [.packet 0x1E, .packet 0x0E, .packet 0x1C, .read 4]).console.term.input := by
  intro s
  have h : InputInv 128 s.console.term.input := ⟨le_rfl, by decide, by decide⟩
  exact ⟨h, kbdRun_inv 128 setOneLayout s _ h⟩

/-!
# A `NUL` keystroke
-/

theorem getModifiers_kmodNone : getModifiers L kmodNone = kmodNone := by
  simp [getModifiers, kmodNone]

/-- A press of keycode `0x01` (Escape in scan code set 1) with no modifier held:
`process_packet` reports the character `'\0'` of `keycode_map[0][1]`, and
`handle_char_input` appends it to the live bytes. -/
theorem handleKeyboardIrq_escape_nul (hL : ∀ m, L.keycode m ≠ 0x01)
    (hk : 1 < L.numKeys) (s : KbdSystem) (hmods : s.modifiers = kmodNone)
    (h0 : 0 ≤ s.console.term.input.count) (hroom : s.console.term.input.count < terminalBufSize) :
    (processPacket L s.modifiers 0x01).1 = .char 0 ∧
      (handleKeyboardIrq terminalBufSize L s 0x01).console.term.input.live =
        s.console.term.input.live ++ [0] := by
  have hkc : packetKeycode 0x01 = 0x01 := rfl
  have hev : processPacket L s.modifiers 0x01 = (.char 0, s.modifiers) := by
    rw [processPacket_of_not_modifier L (fun m h => hL m (hkc ▸ h).symm), hkc, hmods]
    have hkey : ¬L.numKeys ≤ (0x01 : BitVec 8).toNat := by simpa using hk
    simp only [keycodeToInput, if_neg hkey, getModifiers_kmodNone, if_true]
    rfl
  refine ⟨by rw [hev], ?_⟩
  simp only [handleKeyboardIrq, hev, terminalHandleInput_input]
  rw [live_bufferChar _ _ _ h0, if_neg (by decide), if_pos hroom]

end BufSize

theorem handleKeyboardIrq_escape_nul_at_setOne :
    (∀ m, setOneLayout.keycode m ≠ 0x01) ∧ 1 < setOneLayout.numKeys ∧
      let s : KbdSystem := ⟨⟨⟨⟨fun _ => 0, 0⟩, ⟨0, 0, 0⟩, fun _ => 0⟩, 0⟩, kmodNone⟩
      (processPacket setOneLayout s.modifiers 0x01).1 = .char 0 ∧
        (handleKeyboardIrq 128 setOneLayout s 0x01).console.term.input.live =
          s.console.term.input.live ++ [0] :=
  ⟨fun m => by cases m <;> decide, by decide,
    handleKeyboardIrq_escape_nul 128 setOneLayout (fun m => by cases m <;> decide) (by decide) _ rfl
      (by decide) (by decide)⟩

end Terminal
end LoliOS
