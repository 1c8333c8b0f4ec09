import LoliOS.Lib
import Mathlib.Logic.Function.Basic
import Mathlib.Tactic.FinCases

/-!
# The keyboard decoder

`process_packet` of `keyboard.c`: the high bit of a scancode packet tells a
release from a press, the low seven bits are the keycode. Modifier keys update
the modifier bitset; a press of any other key is looked up in `keycode_map`
under the consolidated modifier state.

The keycodes, the key count and the modifier bits come from `keyboard.h`, which is
not among the sources; they are the fields of a `KbdLayout`. The bitset
`kbd_modifiers_t` is a 32-bit value, packets and keycodes are bytes.
-/

namespace LoliOS
namespace Keyboard

/-- Modelled from the spec: `keyboard.h` is not among the sources. The control
sequences `KCTL_NONE`, `KCTL_CLEAR`, `KCTL_TERM1`, `KCTL_TERM2`, `KCTL_TERM3`. -/
inductive KbdInputCtrl
  | none
  | clear
  | term1
  | term2
  | term3
deriving DecidableEq, Repr

/-- Modelled from the spec: `keyboard.h` is not among the sources. `kbd_input_t`,
its `type` tag (`KTYP_NONE`, `KTYP_CHAR`, `KTYP_CTRL`) together with the member
of the `value` union that the tag selects. -/
inductive KbdInput
  | none
  | char (character : UInt8)
  | ctrl (control : KbdInputCtrl)
deriving DecidableEq, Repr

/-- The seven modifier keys, named after their `KC_*` and `KMOD_*` constants. -/
inductive ModKey
  | lctrl
  | rctrl
  | lshift
  | rshift
  | lalt
  | ralt
  | capsLock
deriving DecidableEq, Repr

/-- Modelled from the spec: `keyboard.h` is not among the sources, so its
constants are parameters. What the code fixes about them is kept as fields: the
modifier keycodes label the cases of one `switch` in `keycode_to_modifier`, so
they differ, and they are seven-bit keycodes; each modifier owns one bit of the
modifier bitset (the spec's "bitset of currently-held/toggled modifiers"). -/
structure KbdLayout where
  /-- `KC_LCTRL`, ..., `KC_CAPS_LOCK` -/
  keycode : ModKey -> BitVec 8
  /-- `KC_L` -/
  kcL : BitVec 8
  /-- `NUM_KEYS` -/
  numKeys : Nat
  /-- the bit of `KMOD_LCTRL`, ..., `KMOD_CAPS` -/
  bit : ModKey -> Nat
  keycode_injective : Function.Injective keycode
  keycode_lt : ∀ m, (keycode m).toNat < 0x80
  bit_injective : Function.Injective bit
  bit_lt : ∀ m, bit m < 32

/-- `KMOD_NONE`, the empty bitset. -/
def kmodNone : BitVec 32 := 0

namespace KbdLayout

variable (L : KbdLayout)

/-- `KMOD_LCTRL`, ..., `KMOD_CAPS` -/
def kmod (m : ModKey) : BitVec 32 := BitVec.twoPow 32 (L.bit m)

/-- `KMOD_CTRL`: the two Ctrl bits, as the comment of `get_modifiers` uses it. -/
def kmodCtrl : BitVec 32 := L.kmod .lctrl ||| L.kmod .rctrl

def kmodShift : BitVec 32 := L.kmod .lshift ||| L.kmod .rshift

def kmodAlt : BitVec 32 := L.kmod .lalt ||| L.kmod .ralt

end KbdLayout

/-!
# `keyboard.c`
-/

/-- `keycode_map`, one list per modifier combination; entries past the
initializers are `'\0'`. -/
def keycodeMapRows : List (List Char) :=
  [['\x00', '\x00', '1', '2', '3', '4', '5', '6', '7', '8', '9', '0', '-', '=',
    '\x08', '\t', 'q', 'w', 'e', 'r', 't', 'y', 'u', 'i', 'o', 'p', '[', ']',
    '\n', '\x00', 'a', 's', 'd', 'f', 'g', 'h', 'j', 'k', 'l', ';', '\x27', '\x60',
    '\x00', '\\', 'z', 'x', 'c', 'v', 'b', 'n', 'm', ',', '.', '/', '\x00', '*',
    '\x00', ' '],
   ['\x00', '\x00', '!', '@', '#', '$', '%', '^', '&', '*', '(', ')', '_', '+',
    '\x08', '\t', 'Q', 'W', 'E', 'R', 'T', 'Y', 'U', 'I', 'O', 'P', '\x7b', '\x7d',
    '\n', '\x00', 'A', 'S', 'D', 'F', 'G', 'H', 'J', 'K', 'L', ':', '\x22', '~',
    '\x00', '|', 'Z', 'X', 'C', 'V', 'B', 'N', 'M', '<', '>', '?', '\x00', '*',
    '\x00', ' '],
   ['\x00', '\x00', '1', '2', '3', '4', '5', '6', '7', '8', '9', '0', '-', '=',
    '\x08', '\t', 'Q', 'W', 'E', 'R', 'T', 'Y', 'U', 'I', 'O', 'P', '[', ']',
    '\n', '\x00', 'A', 'S', 'D', 'F', 'G', 'H', 'J', 'K', 'L', ';', '\x27', '\x60',
    '\x00', '\\', 'Z', 'X', 'C', 'V', 'B', 'N', 'M', ',', '.', '/', '\x00', '*',
    '\x00', ' '],
   ['\x00', '\x00', '!', '@', '#', '$', '%', '^', '&', '*', '(', ')', '_', '+',
    '\x08', '\t', 'q', 'w', 'e', 'r', 't', 'y', 'u', 'i', 'o', 'p', '\x7b', '\x7d',
    '\n', '\x00', 'a', 's', 'd', 'f', 'g', 'h', 'j', 'k', 'l', ':', '\x22', '~',
    '\x00', '|', 'z', 'x', 'c', 'v', 'b', 'n', 'm', '<', '>', '?', '\x00', '*',
    '\x00', ' ']]

/-- `keycode_map[row][keycode]` -/
def keycodeMap (row : Nat) (keycode : BitVec 8) : UInt8 :=
  ((keycodeMapRows.getD row []).getD keycode.toNat '\x00').toUInt8

section Layout

variable (L : KbdLayout)

def setModifierBit (modifiers : BitVec 32) (bit : UInt8) (mask : BitVec 32) : BitVec 32 :=
  if bit ≠ 0 then modifiers ||| mask else modifiers &&& ~~~mask

def toggleModifierBit (modifiers mask : BitVec 32) : BitVec 32 :=
  modifiers ^^^ mask

def keycodeToModifier (keycode : BitVec 8) : BitVec 32 :=
  if keycode = L.keycode .lctrl then L.kmod .lctrl
  else if keycode = L.keycode .rctrl then L.kmod .rctrl
  else if keycode = L.keycode .lshift then L.kmod .lshift
  else if keycode = L.keycode .rshift then L.kmod .rshift
  else if keycode = L.keycode .lalt then L.kmod .lalt
  else if keycode = L.keycode .ralt then L.kmod .ralt
  else if keycode = L.keycode .capsLock then L.kmod .capsLock
  else kmodNone

def keycodeToCtrl (keycode : BitVec 8) : KbdInputCtrl :=
  if keycode = L.kcL then .clear else .none

def getModifiers (modifiers : BitVec 32) : BitVec 32 :=
  let mod := modifiers
  let mod := if mod &&& L.kmodCtrl ≠ 0 then mod ||| L.kmodCtrl else mod
  let mod := if mod &&& L.kmodShift ≠ 0 then mod ||| L.kmodShift else mod
  if mod &&& L.kmodAlt ≠ 0 then mod ||| L.kmodAlt else mod

def keycodeToInput (modifiers : BitVec 32) (keycode : BitVec 8) : KbdInput :=
  if L.numKeys ≤ keycode.toNat then .none
  else
    let mod := getModifiers L modifiers
    if mod = kmodNone then .char (keycodeMap 0 keycode)
    else if mod = L.kmodShift then .char (keycodeMap 1 keycode)
    else if mod = L.kmod .capsLock then .char (keycodeMap 2 keycode)
    else if mod = L.kmod .capsLock ||| L.kmodShift then .char (keycodeMap 3 keycode)
    else if mod = L.kmodCtrl ∨ mod = L.kmod .capsLock ||| L.kmodCtrl then
      .ctrl (keycodeToCtrl L keycode)
    else .none

/-- `status` of `process_packet`: `1` for a press, `0` for a release. -/
def packetStatus (packet : BitVec 8) : UInt8 :=
  if packet &&& 0x80#8 = 0 then 1 else 0

/-- `keycode` of `process_packet`: the low seven bits. -/
def packetKeycode (packet : BitVec 8) : BitVec 8 :=
  packet &&& 0x7F#8

/-- `process_packet`: the input event and the modifier bitset after it. -/
def processPacket (modifiers : BitVec 32) (packet : BitVec 8) : KbdInput × BitVec 32 :=
  let status := packetStatus packet
  let keycode := packetKeycode packet
  let mod := keycodeToModifier L keycode
  if mod ≠ kmodNone then
    if mod = L.kmod .capsLock then
      if status = 1 then (.none, toggleModifierBit modifiers mod) else (.none, modifiers)
    else (.none, setModifierBit modifiers status mod)
  else if status = 1 then (keycodeToInput L modifiers keycode, modifiers)
  else (.none, modifiers)

/-- `process_packet` over a packet stream: the events in order and the final
modifier bitset. -/
def processPackets (modifiers : BitVec 32) : List (BitVec 8) -> List KbdInput × BitVec 32
  | [] => ([], modifiers)
  | p :: ps =>
      let r := processPacket L modifiers p
      let rest := processPackets r.2 ps
      (r.1 :: rest.1, rest.2)

end Layout

/-!
# Spec lemmas

Each modifier mask has exactly its own bit; `process_packet` either updates
that bit for a modifier key or hands the keycode to `keycode_to_input`.
-/

namespace KbdLayout

variable (L : KbdLayout)

theorem getLsbD_kmod (m : ModKey) (i : Nat) : (L.kmod m).getLsbD i = decide (L.bit m = i) := by
  simp [kmod, L.bit_lt m]

theorem kmod_ne_none (m : ModKey) : L.kmod m ≠ kmodNone := by
  intro h
  have := congrArg (fun x => x.getLsbD (L.bit m)) h
  simp [getLsbD_kmod, kmodNone] at this

theorem kmod_inj {m m' : ModKey} : L.kmod m = L.kmod m' ↔ m = m' := by
  refine ⟨fun h => ?_, fun h => h ▸ rfl⟩
  have := congrArg (fun x => x.getLsbD (L.bit m)) h
  simpa [getLsbD_kmod, L.bit_injective.eq_iff, eq_comm] using this

end KbdLayout

section Layout

variable (L : KbdLayout)

theorem keycodeToModifier_keycode (m : ModKey) :
    keycodeToModifier L (L.keycode m) = L.kmod m := by
  cases m <;> simp [keycodeToModifier, L.keycode_injective.eq_iff]

theorem keycodeToModifier_of_not_modifier {k : BitVec 8} (h : ∀ m, k ≠ L.keycode m) :
    keycodeToModifier L k = kmodNone := by
  simp [keycodeToModifier, h]

theorem packetStatus_eq (p : BitVec 8) : packetStatus p = if p.getLsbD 7 then 0 else 1 := by
  have hzero : (p &&& 0x80#8 = 0) ↔ p.getLsbD 7 = false := by
    constructor
    · intro h
      simpa using congrArg (fun x => x.getLsbD 7) h
    · intro h
      ext i
      fin_cases i <;> simp [h]
  unfold packetStatus
  by_cases h7 : p.getLsbD 7 = true
  · rw [if_pos h7, if_neg (by rw [hzero, h7]; decide)]
  · rw [if_neg h7, if_pos (hzero.mpr (by simpa using h7))]

theorem processPacket_of_modifier {mods : BitVec 32} {p : BitVec 8} {m : ModKey}
    (h : packetKeycode p = L.keycode m) :
    processPacket L mods p =
      (.none, if m = .capsLock then
                (if packetStatus p = 1 then toggleModifierBit mods (L.kmod m) else mods)
              else setModifierBit mods (packetStatus p) (L.kmod m)) := by
  simp only [processPacket, h, keycodeToModifier_keycode, ne_eq, L.kmod_ne_none,
    not_false_eq_true, if_true, L.kmod_inj]
  split_ifs <;> rfl

theorem processPacket_of_not_modifier {mods : BitVec 32} {p : BitVec 8}
    (h : ∀ m, packetKeycode p ≠ L.keycode m) :
    processPacket L mods p =
      (if packetStatus p = 1 then keycodeToInput L mods (packetKeycode p) else .none, mods) := by
  simp only [processPacket, keycodeToModifier_of_not_modifier L h, ne_eq, not_true_eq_false,
    if_false]
  split_ifs <;> rfl

theorem getLsbD_setModifierBit (mods : BitVec 32) (s : UInt8) (m : ModKey) (i : Nat) :
    (setModifierBit mods s (L.kmod m)).getLsbD i =
      if i = L.bit m then decide (s ≠ 0) else mods.getLsbD i := by
  have hm := L.bit_lt m
  by_cases hi : i < 32
  · unfold setModifierBit
    by_cases him : i = L.bit m <;> split_ifs <;> simp_all [KbdLayout.getLsbD_kmod, eq_comm]
  · have hne : i ≠ L.bit m := by omega
    simp [hne, BitVec.getLsbD_ge _ _ (show 32 ≤ i by omega)]

theorem getLsbD_toggleModifierBit (mods : BitVec 32) (m : ModKey) (i : Nat) :
    (toggleModifierBit mods (L.kmod m)).getLsbD i =
      if i = L.bit m then !mods.getLsbD i else mods.getLsbD i := by
  by_cases him : i = L.bit m <;> simp [toggleModifierBit, KbdLayout.getLsbD_kmod, him, eq_comm]

theorem processPackets_append (mods : BitVec 32) (a b : List (BitVec 8)) :
    processPackets L mods (a ++ b) =
      ((processPackets L mods a).1 ++ (processPackets L (processPackets L mods a).2 b).1,
        (processPackets L (processPackets L mods a).2 b).2) := by
  induction a generalizing mods with
  | nil => rfl
  | cons p a ih => simp [processPackets, ih]

end Layout

end Keyboard
end LoliOS
