import LoliOS.Keyboard.Decoder

/-!
# The modifier bitset over a packet stream

From `KMOD_NONE`, the bitset after any packet stream is a function of the stream
alone: a hold modifier (Ctrl, Shift, Alt, either side) is set exactly when the
last packet of its key was a press, Caps Lock is set exactly when its key was
pressed an odd number of times, and no other bit is ever set. The proof follows
one packet at a time: `process_packet` changes at most the bit of the modifier
key in the packet.
-/

namespace LoliOS
namespace Keyboard

def lastPacket? (kc : BitVec 8) (ps : List (BitVec 8)) : Option (BitVec 8) :=
  (ps.filter fun p => packetKeycode p = kc).getLast?

/-- Whether the last packet of `ps` with keycode `kc` is a press (bit 7 clear);
`false` when there is none. -/
def lastPress (kc : BitVec 8) (ps : List (BitVec 8)) : Bool :=
  match lastPacket? kc ps with
  | some p => !p.getLsbD 7
  | none => false

def pressCount (kc : BitVec 8) (ps : List (BitVec 8)) : Nat :=
  (ps.filter fun p => packetKeycode p = kc ∧ p.getLsbD 7 = false).length

theorem lastPacket?_snoc (kc : BitVec 8) (ps : List (BitVec 8)) (p : BitVec 8) :
    lastPacket? kc (ps ++ [p]) = if packetKeycode p = kc then some p else lastPacket? kc ps := by
  by_cases h : packetKeycode p = kc <;> simp [lastPacket?, h]

theorem pressCount_snoc (kc : BitVec 8) (ps : List (BitVec 8)) (p : BitVec 8) :
    pressCount kc (ps ++ [p]) =
      pressCount kc ps + if packetKeycode p = kc ∧ p.getLsbD 7 = false then 1 else 0 := by
  by_cases h : packetKeycode p = kc ∧ p.getLsbD 7 = false <;> simp_all [pressCount]

section Layout

variable (L : KbdLayout)

theorem processPackets_snoc_snd (mods : BitVec 32) (ps : List (BitVec 8)) (p : BitVec 8) :
    (processPackets L mods (ps ++ [p])).2 = (processPacket L (processPackets L mods ps).2 p).2 := by
  simp [processPackets_append, processPackets]

/-!
# One packet
-/

theorem getLsbD_processPacket_hold (mods : BitVec 32) (p : BitVec 8) {m : ModKey}
    (hm : m ≠ .capsLock) :
    (processPacket L mods p).2.getLsbD (L.bit m) =
      if packetKeycode p = L.keycode m then !p.getLsbD 7 else mods.getLsbD (L.bit m) := by
  by_cases hmod : ∃ m', packetKeycode p = L.keycode m'
  · obtain ⟨m', h'⟩ := hmod
    rw [processPacket_of_modifier L h', h']
    simp only [L.keycode_injective.eq_iff]
    by_cases hmm : m' = m
    · subst hmm
      by_cases h7 : p.getLsbD 7 <;> simp [hm, getLsbD_setModifierBit, packetStatus_eq, h7]
    · have hbit : L.bit m ≠ L.bit m' := fun h => hmm (L.bit_injective h).symm
      split_ifs <;> simp [getLsbD_setModifierBit, getLsbD_toggleModifierBit, hbit, hmm]
  · push_neg at hmod
    rw [processPacket_of_not_modifier L hmod, if_neg (hmod m)]

theorem getLsbD_processPacket_caps (mods : BitVec 32) (p : BitVec 8) :
    (processPacket L mods p).2.getLsbD (L.bit .capsLock) =
      xor (mods.getLsbD (L.bit .capsLock))
        (decide (packetKeycode p = L.keycode .capsLock ∧ p.getLsbD 7 = false)) := by
  by_cases hmod : ∃ m', packetKeycode p = L.keycode m'
  · obtain ⟨m', h'⟩ := hmod
    rw [processPacket_of_modifier L h', h']
    simp only [L.keycode_injective.eq_iff]
    by_cases hmm : m' = .capsLock
    · subst hmm
      by_cases h7 : p.getLsbD 7 <;> simp [getLsbD_toggleModifierBit, packetStatus_eq, h7]
    · have hbit : L.bit .capsLock ≠ L.bit m' := fun h => hmm (L.bit_injective h).symm
      simp [getLsbD_setModifierBit, hbit, hmm]
  · push_neg at hmod
    rw [processPacket_of_not_modifier L hmod]
    simp [hmod]

theorem getLsbD_processPacket_other (mods : BitVec 32) (p : BitVec 8) {i : Nat}
    (hi : ∀ m, i ≠ L.bit m) :
    (processPacket L mods p).2.getLsbD i = mods.getLsbD i := by
  by_cases hmod : ∃ m', packetKeycode p = L.keycode m'
  · obtain ⟨m', h'⟩ := hmod
    rw [processPacket_of_modifier L h']
    split_ifs <;> simp [getLsbD_setModifierBit, getLsbD_toggleModifierBit, hi m']
  · push_neg at hmod
    rw [processPacket_of_not_modifier L hmod]

/-!
# A whole stream
-/

theorem getLsbD_processPackets_hold (mods : BitVec 32) (ps : List (BitVec 8)) {m : ModKey}
    (hm : m ≠ .capsLock) :
    (processPackets L mods ps).2.getLsbD (L.bit m) =
      match lastPacket? (L.keycode m) ps with
      | some p => !p.getLsbD 7
      | none => mods.getLsbD (L.bit m) := by
  induction ps using List.reverseRecOn with
  | nil => rfl
  | append_singleton ps p ih =>
      rw [processPackets_snoc_snd, getLsbD_processPacket_hold L _ _ hm, lastPacket?_snoc, ih]
      split_ifs <;> rfl

theorem getLsbD_processPackets_caps (mods : BitVec 32) (ps : List (BitVec 8)) :
    (processPackets L mods ps).2.getLsbD (L.bit .capsLock) =
      xor (mods.getLsbD (L.bit .capsLock))
        (decide (pressCount (L.keycode .capsLock) ps % 2 = 1)) := by
  induction ps using List.reverseRecOn with
  | nil => simp [processPackets, pressCount]
  | append_singleton ps p ih =>
      rw [processPackets_snoc_snd, getLsbD_processPacket_caps, ih, pressCount_snoc]
      have hpar : ∀ n : Nat, decide ((n + 1) % 2 = 1) = !decide (n % 2 = 1) := by
        intro n; by_cases h : n % 2 = 1 <;> simp [h] <;> omega
      split_ifs with h <;> simp [h, hpar, Bool.xor_assoc]

theorem getLsbD_processPackets_other (mods : BitVec 32) (ps : List (BitVec 8)) {i : Nat}
    (hi : ∀ m, i ≠ L.bit m) :
    (processPackets L mods ps).2.getLsbD i = mods.getLsbD i := by
  induction ps using List.reverseRecOn with
  | nil => rfl
  | append_singleton ps p ih =>
      rw [processPackets_snoc_snd, getLsbD_processPacket_other L _ _ hi, ih]

/-- The modifier bitset after any packet stream processed from `KMOD_NONE`. -/
theorem processPackets_modifiers (ps : List (BitVec 8)) :
    (∀ m, m ≠ .capsLock →
      (processPackets L kmodNone ps).2.getLsbD (L.bit m) = lastPress (L.keycode m) ps) ∧
    (processPackets L kmodNone ps).2.getLsbD (L.bit .capsLock) =
      decide (pressCount (L.keycode .capsLock) ps % 2 = 1) ∧
    (∀ i, (∀ m, i ≠ L.bit m) → (processPackets L kmodNone ps).2.getLsbD i = false) ∧
    (∀ mods p, (∀ m, packetKeycode p ≠ L.keycode m) → (processPacket L mods p).2 = mods) := by
  refine ⟨fun m hm => ?_, ?_, fun i hi => ?_, fun mods p hp => ?_⟩
  · rw [getLsbD_processPackets_hold L _ _ hm, lastPress]
    split <;> simp [kmodNone]
  · simp [getLsbD_processPackets_caps, kmodNone]
  · simp [getLsbD_processPackets_other L _ _ hi, kmodNone]
  · rw [processPacket_of_not_modifier L hp]

end Layout

end Keyboard
end LoliOS
