import LoliOS.Keyboard.Modifiers

/-!
# Left and right modifiers are interchangeable

Renaming every packet's keycode by the left/right mirror of the modifier keys
(the release bit kept) changes nothing in the event stream, and leaves the
modifier bitset mirrored. The invariant relating the two runs is that their
bitsets are mirror images; `get_modifiers` ORs each left/right pair together,
so mirror images consolidate to the same value and select the same table row.
-/

namespace LoliOS
namespace Keyboard

/-- The left/right mirror of a modifier key; Caps Lock is its own mirror. -/
def ModKey.swap : ModKey -> ModKey
  | .lctrl => .rctrl
  | .rctrl => .lctrl
  | .lshift => .rshift
  | .rshift => .lshift
  | .lalt => .ralt
  | .ralt => .lalt
  | .capsLock => .capsLock

@[simp] theorem ModKey.swap_swap (m : ModKey) : m.swap.swap = m := by
  cases m <;> rfl

theorem ModKey.swap_inj {m m' : ModKey} : m.swap = m'.swap ↔ m = m' := by
  constructor
  · intro h
    simpa using congrArg ModKey.swap h
  · intro h
    rw [h]

def ModKey.all : List ModKey := [.lctrl, .rctrl, .lshift, .rshift, .lalt, .ralt, .capsLock]

theorem ModKey.mem_all (m : ModKey) : m ∈ ModKey.all := by
  cases m <;> simp [ModKey.all]

section Layout

variable (L : KbdLayout)

def modKeyOf (k : BitVec 8) : Option ModKey :=
  ModKey.all.find? fun m => L.keycode m = k

/-- The keycode renaming: a modifier keycode goes to the keycode of its mirror,
every other keycode to itself. -/
def swapKeycode (k : BitVec 8) : BitVec 8 :=
  match modKeyOf L k with
  | some m => L.keycode m.swap
  | none => k

/-- The packet renaming: the release bit is kept, the keycode renamed. -/
def swapPacket (p : BitVec 8) : BitVec 8 :=
  (p &&& 0x80#8) ||| swapKeycode L (packetKeycode p)

def ModifiersSwapped (a b : BitVec 32) : Prop :=
  (∀ m, b.getLsbD (L.bit m.swap) = a.getLsbD (L.bit m)) ∧
    ∀ i, (∀ m, i ≠ L.bit m) → b.getLsbD i = a.getLsbD i

theorem modKeyOf_keycode (m : ModKey) : modKeyOf L (L.keycode m) = some m := by
  cases m <;> simp [modKeyOf, ModKey.all, L.keycode_injective.eq_iff]

theorem modKeyOf_eq_none {k : BitVec 8} : modKeyOf L k = none ↔ ∀ m, k ≠ L.keycode m := by
  simp only [modKeyOf, List.find?_eq_none, decide_eq_true_eq]
  exact ⟨fun h m hk => h m (ModKey.mem_all m) hk.symm, fun h m _ hk => h m hk.symm⟩

/-!
# Packet bits
-/

theorem packetKeycode_lt (p : BitVec 8) : (packetKeycode p).toNat < 0x80 := by
  rw [packetKeycode, BitVec.toNat_and]
  exact Nat.lt_of_le_of_lt Nat.and_le_right (by decide)

theorem packetKeycode_or {k : BitVec 8} (hk : k.toNat < 0x80) (p : BitVec 8) :
    packetKeycode ((p &&& 0x80#8) ||| k) = k := by
  have h7 : k.getLsbD 7 = false := Nat.testBit_lt_two_pow (by simpa using hk)
  ext i
  fin_cases i <;> simp [packetKeycode, h7]

theorem getLsbD_or_seven {k : BitVec 8} (hk : k.toNat < 0x80) (p : BitVec 8) :
    ((p &&& 0x80#8) ||| k).getLsbD 7 = p.getLsbD 7 := by
  have h7 : k.getLsbD 7 = false := Nat.testBit_lt_two_pow (by simpa using hk)
  simp [h7]

theorem swapKeycode_lt (k : BitVec 8) (hk : k.toNat < 0x80) : (swapKeycode L k).toNat < 0x80 := by
  unfold swapKeycode
  split
  · exact L.keycode_lt _
  · exact hk

theorem packetKeycode_swapPacket (p : BitVec 8) :
    packetKeycode (swapPacket L p) = swapKeycode L (packetKeycode p) :=
  packetKeycode_or (swapKeycode_lt L _ (packetKeycode_lt p)) p

theorem packetStatus_swapPacket (p : BitVec 8) : packetStatus (swapPacket L p) = packetStatus p := by
  rw [packetStatus_eq, packetStatus_eq, swapPacket,
    getLsbD_or_seven (swapKeycode_lt L _ (packetKeycode_lt p))]

/-!
# Consolidation in `get_modifiers`
-/

theorem and_kmod_pair_ne_zero (x : BitVec 32) (a b : ModKey) :
    x &&& (L.kmod a ||| L.kmod b) ≠ 0 ↔ (x.getLsbD (L.bit a) || x.getLsbD (L.bit b)) = true := by
  constructor
  · intro h
    by_contra hab
    apply h
    ext i
    simp only [Bool.or_eq_true, not_or, Bool.not_eq_true] at hab
    by_cases ha : i.val = L.bit a
    · simp [KbdLayout.getLsbD_kmod, ha, hab.1]
    · by_cases hb : i.val = L.bit b
      · simp [KbdLayout.getLsbD_kmod, hb, hab.2]
      · simp [KbdLayout.getLsbD_kmod, Ne.symm ha, Ne.symm hb]
  · intro h hzero
    have hbits := congrArg (fun y => y.getLsbD (L.bit a) || y.getLsbD (L.bit b)) hzero
    simp only [BitVec.getLsbD_and, BitVec.getLsbD_or, KbdLayout.getLsbD_kmod, BitVec.getLsbD_zero] at hbits
    revert h hbits
    cases x.getLsbD (L.bit a) <;> cases x.getLsbD (L.bit b) <;> simp

/-- One `if (mod & PAIR) mod |= PAIR;` line of `get_modifiers`, bit by bit. -/
theorem getLsbD_consolidate (x : BitVec 32) (a b : ModKey) (i : Nat) :
    (if x &&& (L.kmod a ||| L.kmod b) ≠ 0 then x ||| (L.kmod a ||| L.kmod b) else x).getLsbD i =
      if i = L.bit a ∨ i = L.bit b then x.getLsbD (L.bit a) || x.getLsbD (L.bit b)
      else x.getLsbD i := by
  by_cases hc : x &&& (L.kmod a ||| L.kmod b) ≠ 0
  · rw [if_pos hc]
    have hab := (and_kmod_pair_ne_zero L x a b).mp hc
    by_cases hia : i = L.bit a
    · subst hia; simpa [KbdLayout.getLsbD_kmod] using hab
    · by_cases hib : i = L.bit b
      · subst hib; simpa [KbdLayout.getLsbD_kmod] using hab
      · simp [KbdLayout.getLsbD_kmod, hia, hib, Ne.symm hia, Ne.symm hib]
  · rw [if_neg hc]
    have hab : ¬(x.getLsbD (L.bit a) || x.getLsbD (L.bit b)) = true :=
      fun h' => hc ((and_kmod_pair_ne_zero L x a b).mpr h')
    simp only [Bool.or_eq_true, not_or, Bool.not_eq_true] at hab
    split_ifs with hi
    · rcases hi with rfl | rfl <;> simp [hab]
    · rfl

theorem getModifiers_eq_of_swapped {a b : BitVec 32} (h : ModifiersSwapped L a b) :
    getModifiers L b = getModifiers L a := by
  obtain ⟨hmod, hother⟩ := h
  have h1 := hmod .lctrl
  have h2 := hmod .rctrl
  have h3 := hmod .lshift
  have h4 := hmod .rshift
  have h5 := hmod .lalt
  have h6 := hmod .ralt
  have h7 := hmod .capsLock
  simp only [ModKey.swap] at h1 h2 h3 h4 h5 h6 h7
  ext i
  simp only [getModifiers, KbdLayout.kmodCtrl, KbdLayout.kmodShift, KbdLayout.kmodAlt,
    getLsbD_consolidate]
  by_cases hi : ∃ m, i.val = L.bit m
  · obtain ⟨m, hm⟩ := hi
    rw [hm]
    cases m <;> simp [L.bit_injective.eq_iff, h1, h2, h3, h4, h5, h6, h7, Bool.or_comm]
  · push_neg at hi
    simp [hi, hother i hi]

/-!
# The two runs
-/

theorem swapKeycode_keycode (m : ModKey) : swapKeycode L (L.keycode m) = L.keycode m.swap := by
  simp [swapKeycode, modKeyOf_keycode]

theorem swapKeycode_of_not_modifier {k : BitVec 8} (h : ∀ m, k ≠ L.keycode m) :
    swapKeycode L k = k := by
  simp [swapKeycode, (modKeyOf_eq_none L).mpr h]

theorem modifiersSwapped_set {a b : BitVec 32} (h : ModifiersSwapped L a b) (s : UInt8)
    (m : ModKey) :
    ModifiersSwapped L (setModifierBit a s (L.kmod m)) (setModifierBit b s (L.kmod m.swap)) := by
  refine ⟨fun m' => ?_, fun i hi => ?_⟩
  · simp only [getLsbD_setModifierBit, L.bit_injective.eq_iff, ModKey.swap_inj, h.1 m']
  · simp only [getLsbD_setModifierBit, hi, if_false, h.2 i hi]

theorem modifiersSwapped_toggle {a b : BitVec 32} (h : ModifiersSwapped L a b) :
    ModifiersSwapped L (toggleModifierBit a (L.kmod .capsLock))
      (toggleModifierBit b (L.kmod .capsLock)) := by
  refine ⟨fun m' => ?_, fun i hi => ?_⟩
  · have hs : m'.swap = .capsLock ↔ m' = .capsLock := by
      cases m' <;> decide
    simp only [getLsbD_toggleModifierBit, L.bit_injective.eq_iff, hs, h.1 m']
  · simp only [getLsbD_toggleModifierBit, hi, if_false, h.2 i hi]

theorem processPacket_swap {a b : BitVec 32} (h : ModifiersSwapped L a b) (p : BitVec 8) :
    (processPacket L b (swapPacket L p)).1 = (processPacket L a p).1 ∧
      ModifiersSwapped L (processPacket L a p).2 (processPacket L b (swapPacket L p)).2 := by
  by_cases hmod : ∃ m, packetKeycode p = L.keycode m
  · obtain ⟨m, hm⟩ := hmod
    have hsw : packetKeycode (swapPacket L p) = L.keycode m.swap := by
      rw [packetKeycode_swapPacket, hm, swapKeycode_keycode]
    rw [processPacket_of_modifier L hm, processPacket_of_modifier L hsw, packetStatus_swapPacket]
    refine ⟨rfl, ?_⟩
    by_cases hc : m = .capsLock
    · subst hc
      simp only [ModKey.swap, if_true]
      split_ifs
      · exact modifiersSwapped_toggle L h
      · exact h
    · have hc' : m.swap ≠ .capsLock := fun e => hc (by simpa using congrArg ModKey.swap e)
      simp only [hc, hc', if_false]
      exact modifiersSwapped_set L h _ m
  · push_neg at hmod
    have hsw : packetKeycode (swapPacket L p) = packetKeycode p := by
      rw [packetKeycode_swapPacket, swapKeycode_of_not_modifier L hmod]
    rw [processPacket_of_not_modifier L hmod, processPacket_of_not_modifier L (hsw ▸ hmod),
      packetStatus_swapPacket, hsw]
    refine ⟨?_, h⟩
    simp only [keycodeToInput, getModifiers_eq_of_swapped L h]

theorem processPackets_swap {a b : BitVec 32} (h : ModifiersSwapped L a b) (ps : List (BitVec 8)) :
    (processPackets L b (ps.map (swapPacket L))).1 = (processPackets L a ps).1 ∧
      ModifiersSwapped L (processPackets L a ps).2 (processPackets L b (ps.map (swapPacket L))).2 := by
  induction ps generalizing a b with
  | nil => exact ⟨rfl, h⟩
  | cons p ps ih =>
      obtain ⟨hev, hrel⟩ := processPacket_swap L h p
      obtain ⟨hevs, hrels⟩ := ih hrel
      exact ⟨by simp [processPackets, hev, hevs], hrels⟩

/-- Processing a stream and its left/right mirror from `KMOD_NONE` gives the same
events and mirrored final bitsets. -/
theorem processPackets_swap_sides (ps : List (BitVec 8)) :
    (processPackets L kmodNone (ps.map (swapPacket L))).1 = (processPackets L kmodNone ps).1 ∧
      ModifiersSwapped L (processPackets L kmodNone ps).2
        (processPackets L kmodNone (ps.map (swapPacket L))).2 :=
  processPackets_swap L ⟨fun _ => by simp [kmodNone], fun _ _ => rfl⟩ ps

end Layout

end Keyboard
end LoliOS
