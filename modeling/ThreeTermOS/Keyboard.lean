import ThreeTermOS.Terminal

/-!
# PS_2.c

The keyboard interrupt: the modifier flags, the table from scan codes to characters, and what a key does to the console. The
switch of terminals that `get_c_keyboard` ends with belongs to the kernel.
-/

namespace ThreeTermOS

/-- The flags of `PS_2.c`. -/
structure Keys where
  ctrl : Bool
  lShift : Bool
  rShift : Bool
  caps : Bool
  alt : Bool
  fn : Nat
  deriving DecidableEq, Repr

/-- `SCANCODE_SIZE`. -/
def scancodeSize : UInt8 := 0x3A

/-- `scan_to_ascii[LOWER_CASE]`. -/
def scanLower : List UInt8 :=
  [0, 0] ++ ascii "1234567890-=" ++ [0x08, 0] ++ ascii "qwertyuiop[]" ++ [0x0A, 0] ++ ascii "asdfghjkl;" ++
    [0x27, 0x60, 0, 0x5C] ++ ascii "zxcvbnm,./" ++ [0, 0, 0, 0x20]

/-- `scan_to_ascii[UPPER_CASE]`. -/
def scanUpper : List UInt8 :=
  [0, 0] ++ ascii "!@#$%^&*()_+" ++ [0x08, 0] ++ ascii "QWERTYUIOP" ++ [0x7B, 0x7D, 0x0A, 0] ++ ascii "ASDFGHJKL:" ++
    [0x22, 0x7E, 0, 0x7C] ++ ascii "ZXCVBNM<>?" ++ [0, 0, 0, 0x20]

/-- `scan_to_ascii`. -/
def scanToAscii (upper : Bool) (c : UInt8) : UInt8 := (if upper then scanUpper else scanLower).getD c.toNat 0

/-- The control keys, as `get_c_keyboard` tells them apart. -/
def Keys.update (f : Keys) (c : UInt8) : Keys :=
  if c = 0x1D then { f with ctrl := true }
  else if c = 0x9D then { f with ctrl := false }
  else if c = 0x2A then { f with lShift := true }
  else if c = 0xAA then { f with lShift := false }
  else if c = 0x36 then { f with rShift := true }
  else if c = 0xB6 then { f with rShift := false }
  else if c = 0x3A then { f with caps := !f.caps }
  -- the left and right arrows move nothing
  else if c = 0x4B then f
  else if c = 0x4D then f
  else if c = 0x38 then { f with alt := true }
  else if c = 0xB8 then { f with alt := false }
  else if c = 0x3B then { f with fn := 1 }
  else if c = 0x3C then { f with fn := 2 }
  else if c = 0x3D then { f with fn := 3 }
  else if c = 0xBB ∨ c = 0xBC ∨ c = 0xBD then { f with fn := 0 }
  else f

/-- The scan codes that show something or clear the screen. -/
def responds (c : UInt8) : Bool :=
  decide (c > 0 ∧ c < scancodeSize ∧ c ≠ 0x3A ∧ c ≠ 0x1D ∧ c ≠ 0x2A ∧ c ≠ 0x36 ∧ c ≠ 0x4B ∧ c ≠ 0x4D ∧ c ≠ 0x38 ∧ c ≠ 0x3B ∧
    c ≠ 0x3C ∧ c ≠ 0x3D)

/-- The character a key shows: with a shift key held, caps lock turns it back. -/
def displayChar (f : Keys) (c : UInt8) : UInt8 :=
  if f.lShift || f.rShift then scanToAscii (!f.caps) c else scanToAscii f.caps c

/-- The response of `get_c_keyboard` to a scan code, with the flags it has just updated. -/
def Console.respond (k : Console) (f : Keys) (c : UInt8) : Console :=
  if responds c then
    if f.ctrl then
      if scanToAscii false c = 0x6C then terminalClear k else k
    else if displayChar f c ≠ 0 then terminalPutc k (displayChar f c)
    else k
  else k

/-- `get_c_keyboard`, up to its switch of terminals: `f` holds the updated flags. -/
def Console.key (k : Console) (f : Keys) (c : UInt8) : Console :=
  { ({ k with charFromKB := true } : Console).respond f c with charFromKB := false }

example : scanLower.length = 58 ∧ scanUpper.length = 58 := by decide

end ThreeTermOS
