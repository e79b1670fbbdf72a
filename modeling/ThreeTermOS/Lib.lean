import ThreeTermOS.Basic
import ThreeTermOS.Library.Bytes

/-!
# lib.c

The string functions, `itoa` and the memory functions the rest of the kernel uses. `memcpy` is its assembly: byte moves until
the destination is aligned to four, double word moves, and the bytes that are left. A loop over a string is bounded by the
address space, which a counter of 32 bits cannot outrun.
-/

namespace ThreeTermOS

open Bytes

/-- The loop of `strlen`. -/
def strlenFrom (s : CPtr) : Nat → Nat → Nat
  | 0, len => len
  | fuel + 1, len => if s len = 0 then len else strlenFrom s fuel (len + 1)

/-- `strlen`. -/
def strlen (s : CPtr) : Nat := strlenFrom s addressSpace 0

/-- The loop of `strncmp`, with the characters left to compare and the index reached. -/
def strncmpFrom (s1 s2 : CPtr) : Nat → Nat → Int
  | 0, _ => 0
  | n + 1, i =>
    if s1 i ≠ s2 i ∨ s1 i = 0 then (s1 i).toInt8.toInt - (s2 i).toInt8.toInt else strncmpFrom s1 s2 n (i + 1)

/-- `strncmp`. -/
def strncmp (s1 s2 : CPtr) (n : Nat) : Int := strncmpFrom s1 s2 n 0

/-- The bytes `strcpy` stores before the terminator: the source up to its own. -/
def strcpyBytes (src : CPtr) : List UInt8 := slice src 0 (strlen src)

/-- The table of digits of `itoa`. -/
def lookup : List UInt8 := ascii "0123456789ABCDEFGHIJKLMNOPQRSTUVWXYZ"

/-- The loop of `itoa`: the digits of a value, lowest first. A value of 32 bits has at most 32 digits. -/
def itoaLoop (radix : Nat) : Nat → Nat → List UInt8
  | 0, _ => []
  | fuel + 1, newval => if newval > 0 then lookup.getD (newval % radix) 0 :: itoaLoop radix fuel (newval / radix) else []

/-- The loop of `strrev`, swapping the ends inward. -/
def strrevLoop : Nat → Nat → Nat → List UInt8 → List UInt8
  | 0, _, _, s => s
  | fuel + 1, beg, fin, s =>
    if beg < fin then strrevLoop fuel (beg + 1) (fin - 1) ((s.set fin (s.getD beg 0)).set beg (s.getD fin 0)) else s

/-- `strrev`. -/
def strrev (s : List UInt8) : List UInt8 := strrevLoop s.length 0 (s.length - 1) s

/-- `itoa`: the string it leaves in the buffer. -/
def itoa (value radix : Nat) : List UInt8 := if value = 0 then ascii "0" else strrev (itoaLoop radix 32 value)

/-! ## Memory -/

/-- One `movb (%esi), %al; movb %al, (%edi)`. -/
def movsb (m : CPtr) (edi esi : Nat) : CPtr := set m edi (m esi)

/-- One step of `rep movsl`: the double word is read before it is written. -/
def movsl (m : CPtr) (edi esi : Nat) : CPtr :=
  set (set (set (set m edi (m esi)) (edi + 1) (m (esi + 1))) (edi + 2) (m (esi + 2))) (edi + 3) (m (esi + 3))

/-- `rep movsl`. -/
def repMovsl (m : CPtr) (edi esi : Nat) : Nat → CPtr
  | 0 => m
  | ecx + 1 => repMovsl (movsl m edi esi) (edi + 4) (esi + 4) ecx

/-- `.memcpy_bottom`: the bytes left after the double words. -/
def memcpyBottom (m : CPtr) (edi esi : Nat) : Nat → CPtr
  | 0 => m
  | edx + 1 => memcpyBottom (movsb m edi esi) (edi + 1) (esi + 1) edx

/-- `.memcpy_aligned`. -/
def memcpyAligned (m : CPtr) (edi esi ecx : Nat) : CPtr :=
  memcpyBottom (repMovsl m edi esi (ecx / 4)) (edi + 4 * (ecx / 4)) (esi + 4 * (ecx / 4)) (ecx % 4)

/-- `memcpy`, from `.memcpy_top`. -/
def memcpy (m : CPtr) (edi esi : Nat) : Nat → CPtr
  | 0 => m
  | ecx + 1 =>
    if edi % 4 = 0 then memcpyAligned m edi esi (ecx + 1) else memcpy (movsb m edi esi) (edi + 1) (esi + 1) ecx

/-- `memset_word`: `rep stosw`. -/
def memsetWord (m : CPtr) (edi c : Nat) : Nat → CPtr
  | 0 => m
  | ecx + 1 => memsetWord (set (set m edi (c % 256).toUInt8) (edi + 1) (c / 256 % 256).toUInt8) (edi + 2) c ecx

end ThreeTermOS
