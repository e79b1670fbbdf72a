import Mathlib.Algebra.GroupWithZero.Nat

/-!
# Two-level paging

The translation of addresses by a page directory and its tables, as a processor with 32-bit entries makes it: pages of 4 KB and, where
they are enabled, of 4 MB, for a program or for the kernel, to read or to write. What a processor keeps of earlier translations is left
out.
-/

/-- The control registers and the double words of physical memory. -/
structure Mmu where
  cr0 : BitVec 32
  cr3 : BitVec 32
  cr4 : BitVec 32
  read : Nat → BitVec 32

namespace Mmu

/-- Whose access it is, and whether it writes. -/
structure Access where
  user : Bool
  write : Bool
  deriving DecidableEq

/-- The sizes of the two kinds of pages. -/
def small : Nat := 4096

/-- Paging is on, the kernel's writes are checked, and large pages are enabled. -/
def pg (m : Mmu) : Bool := m.cr0.getLsbD 31

/-- An entry with a frame and flags. -/
def pack (base flags : Nat) : BitVec 32 := BitVec.ofNat 32 (base ||| flags)

section Rules

variable {m : Mmu} {a : Access} {v base flags : Nat}

end Rules

end Mmu
