import Mathlib.Algebra.GroupWithZero.Nat
import Mathlib.Logic.Function.Basic

/-!
# Constants and C strings

The constants of `structs.h`, `globals.h`, `file_desc.h`, `terminal.h` and `paging.h` that more than one module reads, the
three terminals, and the C strings the kernel passes around. A pointer to bytes is what it points at: the byte at every offset.
-/

namespace ThreeTermOS

/-- A terminal, one of `NUM_TERMS`. -/
abbrev Term : Type := Fin 3

-- the numerals of terminals and of descriptors
instance neZero_three : NeZero 3 := ⟨by decide⟩

instance neZero_eight : NeZero 8 := ⟨by decide⟩

/-- `MAX_PROGS`. -/
def maxProgs : Nat := 6

/-- `FILE_NAME_CHARMAX`. -/
def fileNameCharmax : Nat := 32

/-- `LINE_BUFFER_SIZE`. -/
def lineBufferSize : Nat := 128

/-- `MAX_FD`. -/
def maxFd : Nat := 8

/-- `BYTES_PER_BLOCK`. -/
def bytesPerBlock : Nat := 0x1000

/-- `MEM4MB`. -/
def mem4MB : Nat := 0x400000

/-- `HEX4KB`, which `SIZE4KB` equals. -/
def hex4KB : Nat := 0x1000

/-- `_8MB`. -/
def mb8 : Nat := 2 * mem4MB

/-- `_8KB`. -/
def kb8 : Nat := 2 * hex4KB

/-- `_128MB`. -/
def mb128 : Nat := 0x8000000

/-- `PROG_OFF`, where a program is loaded within its page. -/
def progOff : Nat := 0x48000

/-- An entry of a page table or directory: the address of the frame, whose low bits are zero, and the flags in those bits. -/
structure PageEntry where
  base : Nat
  flags : Nat
  deriving DecidableEq, Repr

/-- What a character pointer points at: the byte at each offset. -/
abbrev CPtr : Type := Nat → UInt8

/-- The pointer to a string whose bytes before the terminator are listed. -/
def cstr (l : List UInt8) : CPtr := fun i => l.getD i 0

/-- The bytes of a string literal of the source. -/
def ascii (s : String) : List UInt8 := s.toList.map (fun c => c.toNat.toUInt8)

/-- The number of addresses of the machine: no loop over a string runs longer. -/
def addressSpace : Nat := 2 ^ 32

/-- A little-endian 32-bit word. -/
def le32 (p : CPtr) (a : Nat) : Nat :=
  (p a).toNat + 256 * (p (a + 1)).toNat + 65536 * (p (a + 2)).toNat + 16777216 * (p (a + 3)).toNat

theorem cstr_of_lt {l : List UInt8} {i : Nat} (h : i < l.length) : cstr l i = l[i] := by
  simp [cstr, h]

theorem cstr_of_le {l : List UInt8} {i : Nat} (h : l.length ≤ i) : cstr l i = 0 := by
  simp [cstr, h]

end ThreeTermOS
