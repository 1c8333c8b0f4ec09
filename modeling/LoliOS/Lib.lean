import Mathlib.Logic.Function.Basic
import Mathlib.Tactic.SplitIfs

/-!
# Memory and byte primitives

The terminal code works on raw byte regions through pointer arithmetic, so a
region is modelled as a map from byte offsets (relative to the region's base
pointer, negative offsets included) to bytes. The library routines it calls on
those regions are `memmove` and `memset`, declared in `lib.h`.
-/

namespace LoliOS

/-- Modelled from the spec: `lib.c` is not among the sources. `memmove(dest,
src, n)` is the C library block move, which copies `n` bytes as if through a
temporary buffer (the spec's "byte-for-byte block move"). -/
def memmove (mem : Int -> UInt8) (dest src n : Int) : Int -> UInt8 :=
  fun a => if dest ≤ a ∧ a < dest + n then mem (src + (a - dest)) else mem a

/-- Modelled from the spec: `lib.c` is not among the sources. `memset(s, c, n)`
stores the byte `c` at the `n` offsets from `s` on. -/
def memset (mem : Int -> UInt8) (s : Int) (c : UInt8) (n : Int) : Int -> UInt8 :=
  fun a => if s ≤ a ∧ a < s + n then c else mem a

theorem memmove_apply (mem : Int -> UInt8) (dest src n a : Int) :
    memmove mem dest src n a =
      if dest ≤ a ∧ a < dest + n then mem (src + (a - dest)) else mem a := rfl

theorem memset_apply (mem : Int -> UInt8) (s : Int) (c : UInt8) (n a : Int) :
    memset mem s c n a = if s ≤ a ∧ a < s + n then c else mem a := rfl

/-- A byte access to a region, by offset from its base. -/
inductive Access
  | read (offset : Int)
  | write (offset : Int)
deriving DecidableEq, Repr

def Access.offset : Access -> Int
  | .read a => a
  | .write a => a

/-- Modelled from the spec: `lib.c` is not among the sources. The bytes
`memmove(dest, src, n)` touches: it reads `src[0, n)` and writes `dest[0, n)`, in
an order of the library's choosing. -/
def memmoveAccesses (dest src n : Int) : List Access :=
  (List.range n.toNat).map (fun j : Nat => .read (src + j)) ++
    (List.range n.toNat).map (fun j : Nat => .write (dest + j))

/-!
# Character bytes

The byte values of the C character literals the terminal tests against.
-/

/-- `'\n'` -/
def newlineByte : UInt8 := 0x0A

/-- `'\r'` -/
def returnByte : UInt8 := 0x0D

/-- `'\b'` -/
def backspaceByte : UInt8 := 0x08

/-- `' '` -/
def spaceByte : UInt8 := 0x20

@[simp] theorem backspaceByte_ne_newlineByte : backspaceByte ≠ newlineByte := by decide

@[simp] theorem backspaceByte_ne_returnByte : backspaceByte ≠ returnByte := by decide

@[simp] theorem newlineByte_ne_backspaceByte : newlineByte ≠ backspaceByte := by decide

@[simp] theorem returnByte_ne_backspaceByte : returnByte ≠ backspaceByte := by decide

end LoliOS
