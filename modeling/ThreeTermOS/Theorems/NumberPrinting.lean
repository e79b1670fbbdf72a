import ThreeTermOS.Lemmas.ConvBuf
import ThreeTermOS.Lemmas.Output

/-!
# The numbers itoa prints

A number is printed as the digits it is read back from, in `itoa` of every radix and in `%#x`, which always prints eight of them.
-/

namespace ThreeTermOS

open Numerals

/-- A character that is a digit of the radix. -/
def IsDigit (radix : Nat) (c : UInt8) : Prop := (0x30 ≤ c ∧ c ≤ 0x39 ∨ 0x41 ≤ c ∧ c ≤ 0x5A) ∧ digitVal c < radix

/-- The string at `buf` is the value in digits of the radix, the most significant one first. Nothing else is stored. -/
structure LeavesDigits (m m' : CPtr) (buf radix value : Nat) : Prop where
  terminated : m' (buf + (strcpyBytes (stringAt m' buf)).length) = 0
  digits : ∀ c ∈ strcpyBytes (stringAt m' buf), IsDigit radix c
  zero : value = 0 → strcpyBytes (stringAt m' buf) = [0x30]
  leading : value ≠ 0 → (strcpyBytes (stringAt m' buf)).head? ≠ some 0x30
  reads : read radix digitVal (strcpyBytes (stringAt m' buf)) = value
  frame : ∀ a, ¬(buf ≤ a ∧ a ≤ buf + (strcpyBytes (stringAt m' buf)).length) → m' a = m a

/-- A string of eight hexadecimal digits that reads back to the value. -/
structure EightDigits (s : List UInt8) (value : Nat) : Prop where
  length : s.length = 8
  digits : ∀ c ∈ s, IsDigit 16 c
  reads : read 16 digitVal s = value

/-- What `%#x` of an argument does: the string it builds in the 64 bytes of its buffer is the one its turn of the loop of
`terminal_printf` gives to `terminal_puts`, wherever the conversion stands and however many `#` lead to it, and it is all that
the conversion on its own prints. -/
structure EmitsString (arg : PrintfArg) (s : List UInt8) : Prop where
  built : ∀ m convBuf, strcpyBytes (stringAt (convAlternate m convBuf arg.word).1 (convAlternate m convBuf arg.word).2) = s
  frame : ∀ m convBuf a, ¬(convBuf ≤ a ∧ a < convBuf + 64) → (convAlternate m convBuf arg.word).1 a = m a
  turn : ∀ format args fuel k buf esp, args esp = arg → format buf = 0x78 →
    terminalPrintfLoop format args (fuel + 1) k (some true) buf esp =
      terminalPrintfLoop format args fuel (terminalPuts k s) none (buf + 1) (esp + 1)
  prints : ∀ k args, args 0 = arg → Ready k → Prints k (terminalPrintf k (cstr (ascii "%#x")) args).1 s

namespace NumberPrintingAux

open Bytes ConvBufAux OutputAux

variable {radix value : Nat}

theorem isDigit_digitChar (h36 : radix ≤ 36) {d : Nat} (hd : d < radix) : IsDigit radix (digitChar d) := by
  have hall : ∀ d < 36, 0x30 ≤ digitChar d ∧ digitChar d ≤ 0x39 ∨ 0x41 ≤ digitChar d ∧ digitChar d ≤ 0x5A := by decide +kernel
  refine ⟨hall d (by omega), ?_⟩
  rwa [legible_of_le h36 d hd]

theorem isDigit_numeral (h2 : 2 ≤ radix) (h36 : radix ≤ 36) : ∀ c ∈ numeral radix digitChar value, IsDigit radix c := by
  intro c hc
  obtain ⟨d, hd, rfl⟩ := mem_numeral h2 hc
  exact isDigit_digitChar h36 hd

theorem leavesDigits (m : CPtr) (hv : value < 2 ^ 32) (h2 : 2 ≤ radix) (h36 : radix ≤ 36) (buf : Nat) :
    LeavesDigits m (itoaAt m value buf radix) buf radix value := by
  have hlen : (numeral radix digitChar value).length < addressSpace := Nat.lt_of_le_of_lt (numeral_length h2 hv) (by decide)
  have hstring := (string_stored (numeral_ne_zero h2 h36 value) hlen m buf).1
  have hlegible := legible_of_le h36
  rw [itoaAt_eq m h2 h36 hv buf]
  constructor
  case terminated => rw [hstring, stored_end]
  case digits => rw [hstring]; exact isDigit_numeral h2 h36
  case zero => rintro rfl; rw [hstring, numeral_zero]; rfl
  case leading => intro hne; rw [hstring]; exact head_numeral h2 hlegible hne
  case reads => rw [hstring, read_numeral h2 hlegible]
  case frame => rw [hstring]; exact fun a ha => stored_other m ha

theorem eightDigits (hv : value < 2 ^ 32) :
    EightDigits (List.replicate (8 - (numeral 16 digitChar value).length) 0x30 ++ numeral 16 digitChar value) value := by
  constructor
  case length => rw [List.length_append, List.length_replicate, Nat.sub_add_cancel (hex_length hv)]
  case digits =>
    intro c hc
    rcases List.mem_append.mp hc with hzero | hdigit
    · rw [List.eq_of_mem_replicate hzero]
      exact ⟨Or.inl (by decide), by decide⟩
    · exact isDigit_numeral (by decide) (by decide) c hdigit
  case reads => rw [read_zeros 16 (by decide), read_numeral (by decide) (legible_of_le (by decide))]

theorem convert_alternate {arg : PrintfArg} (hv : arg.word < 2 ^ 32) : convert true 0x78 arg =
    List.replicate (8 - (numeral 16 digitChar arg.word).length) 0x30 ++ numeral 16 digitChar arg.word := by
  unfold convert
  rw [if_pos rfl, if_pos rfl, itoa_eq_numeral (by decide) hv]

theorem frame_convAlternate (hv : value < 2 ^ 32) (m : CPtr) {convBuf a : Nat} (ha : ¬(convBuf ≤ a ∧ a < convBuf + 64)) :
    (convAlternate m convBuf value).1 a = m a := by
  have hlen := hex_length hv
  have hspace : (numeral 16 digitChar value).length < addressSpace := Nat.lt_of_le_of_lt hlen (by decide)
  have hstring := string_stored (numeral_ne_zero (by decide) (by decide) value) hspace m (convBuf + 8)
  have hitoa : itoaAt m value (convBuf + 8) 16 = _ := itoaAt_eq m (by decide) (by decide) hv (convBuf + 8)
  unfold convAlternate
  rw [hitoa]
  dsimp only
  rw [hstring.2, zeroPad_eq convBuf 8 _ _ (Nat.sub_le 8 _), fill_of_not_mem _ _ (by omega), stored_other m (by omega)]

/-- The bytes `%#x` prints are those of its conversion. -/
theorem printfBytes_alternate (args : Nat → PrintfArg) :
    printfBytes (cstr (ascii "%#x")) args addressSpace none 0 0 = convert true 0x78 (args 0) := by
  have hfuel : addressSpace = addressSpace - 4 + 1 + 1 + 1 + 1 := by decide
  rw [hfuel, printfBytes, if_neg (by decide), if_pos (by decide), printfBytes, if_neg (by decide), if_pos (by decide), printfBytes,
    if_neg (by decide), if_neg (by decide), if_pos (by decide), printfBytes, if_pos (by decide), List.append_nil]
  rfl

theorem emitsString {arg : PrintfArg} (hv : arg.word < 2 ^ 32) : EmitsString arg (convert true 0x78 arg) := by
  constructor
  case built => exact fun m convBuf => (string_convAlternate m convBuf hv).trans (convert_alternate hv).symm
  case frame => exact fun m convBuf a ha => frame_convAlternate hv m ha
  case turn =>
    intro format args fuel k buf esp harg hx
    rw [terminalPrintfLoop, hx, harg, if_neg (by decide), if_neg (by decide), if_pos (by decide)]
  case prints =>
    intro k args harg hready
    have hprints := prints_printf hready (cstr (ascii "%#x")) args
    rwa [printfBytes_alternate, harg] at hprints

end NumberPrintingAux

open NumberPrintingAux in
/-- Every value of 32 bits is read back from what `itoa` leaves of it in a buffer, in every radix, and from the eight digits `%#x`
prints of it. -/
theorem numbers_read_back {m : CPtr} {value buf radix : Nat} (hv : value < 2 ^ 32) (h2 : 2 ≤ radix) (h36 : radix ≤ 36) :
    LeavesDigits m (itoaAt m value buf radix) buf radix value ∧
      ∀ arg : PrintfArg, arg.word = value → ∃ s, EightDigits s value ∧ EmitsString arg s := by
  refine ⟨leavesDigits m hv h2 h36 buf, ?_⟩
  rintro arg rfl
  refine ⟨convert true 0x78 arg, ?_, emitsString hv⟩
  rw [convert_alternate hv]
  exact eightDigits hv

/-- A number with fewer than eight digits. -/
theorem numbers_read_back_videoAddress :
    (0xB8000 : Nat) < 2 ^ 32 ∧ LeavesDigits (fun _ => 0) (itoaAt (fun _ => 0) 0xB8000 16 36) 16 36 0xB8000 ∧
      ∃ s, EightDigits s 0xB8000 ∧ EmitsString ⟨0xB8000, fun _ => 0⟩ s :=
  have hboth := @numbers_read_back (fun _ => 0) 0xB8000 16 36 (by decide) (by decide) (by decide)
  ⟨by decide, hboth.1, hboth.2 ⟨0xB8000, fun _ => 0⟩ rfl⟩

end ThreeTermOS
