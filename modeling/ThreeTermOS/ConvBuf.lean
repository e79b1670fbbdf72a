import ThreeTermOS.Lib

/-!
# itoa and the conversions in their buffers

`itoa` of `ThreeTermOS.Lib` is the string left in the buffer. Here it is run in the memory of the caller: the digits are stored lowest
first, terminated, and reversed in place, and `%#x` puts zeros in front of them in the buffer it has left room in.
-/

namespace ThreeTermOS

open Bytes

/-- The string at an address. -/
def stringAt (m : CPtr) (p : Nat) : CPtr := fun i => m (p + i)

/-- The loop of `strrev` over the string at `s`. -/
def strrevSwaps (s : Nat) : Nat → CPtr → Nat → Nat → CPtr
  | 0, m, _, _ => m
  | fuel + 1, m, beg, fin =>
    if beg < fin then
      let tmp := m (s + fin)
      let m := set m (s + fin) (m (s + beg))
      let m := set m (s + beg) tmp
      strrevSwaps s fuel m (beg + 1) (fin - 1)
    else m

/-- `strrev` of the string at `s`. -/
def strrevAt (m : CPtr) (s : Nat) : CPtr :=
  let len := strlen (stringAt m s)
  strrevSwaps s len m 0 (len - 1)

/-- The division loop of `itoa`: the memory and `newbuf` after it. A value of 32 bits has at most 32 digits. -/
def itoaDigits (radix : Nat) : Nat → CPtr → Nat → Nat → CPtr × Nat
  | 0, m, newbuf, _ => (m, newbuf)
  | fuel + 1, m, newbuf, newval =>
    if newval > 0 then itoaDigits radix fuel (set m newbuf (lookup.getD (newval % radix) 0)) (newbuf + 1) (newval / radix)
    else (m, newbuf)

/-- `itoa` into the buffer at `buf`. -/
def itoaAt (m : CPtr) (value buf radix : Nat) : CPtr :=
  if value = 0 then set (set m buf 0x30) (buf + 1) 0
  else
    let out := itoaDigits radix 32 m buf value
    strrevAt (set out.1 out.2 0) buf

/-- The loop of `%#x` that stores zeros from index `i` on. -/
def zeroPad (convBuf : Nat) : Nat → CPtr → Nat → CPtr
  | 0, m, _ => m
  | fuel + 1, m, i => if i < 8 then zeroPad convBuf fuel (set m (convBuf + i) 0x30) (i + 1) else m

/-- `%#x` in its buffer: the memory, and the address given to `terminal_puts`. -/
def convAlternate (m : CPtr) (convBuf value : Nat) : CPtr × Nat :=
  let m := itoaAt m value (convBuf + 8) 16
  let startingIndex := strlen (stringAt m (convBuf + 8))
  (zeroPad convBuf 8 m startingIndex, convBuf + startingIndex)

end ThreeTermOS
