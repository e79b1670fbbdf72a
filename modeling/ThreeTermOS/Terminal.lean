import ThreeTermOS.Lib

/-!
# terminal.c

The screens and input lines of the three terminals. The video memory of the displayed terminal and the buffers of all three are
ranges of one memory, and the lines being typed are one array, so that an index past its row lands where it lands in the source.
A loop that stores at each index of a range is written as the range it fills.
-/

namespace ThreeTermOS

open Bytes

/-- `VIDEO`. -/
def video : Nat := 0xB8000

/-- `NUM_COLS`. -/
def numCols : Nat := 80

/-- `NUM_ROWS`. -/
def numRows : Nat := 25

/-- `ATTRIB`. -/
def attrib : UInt8 := 0x7

/-- `Backspace_ASCII`. -/
def backspaceASCII : UInt8 := 0x08

/-- `CURR_LINE`. -/
def currLine : Nat := 0

/-- `ENTERED_LINE`. -/
def enteredLine : Nat := 1

/-- `VidMemidx`. -/
def vidMemidx : Nat := 184

/-- `page_table[i]`, as `init_paging` sets it: the identity mapping of the first four megabytes. -/
def pageTable (i : Nat) : PageEntry := { base := i * hex4KB, flags := 3 }

/-- `video_buffer[t]`, as `init_paging` sets it: the page after the video memory's own for terminal 0, and so on. -/
def videoBuffer (t : Term) : Nat := (pageTable (vidMemidx + (t.val + 1))).base

/-- The globals of `terminal.c`, with the memory it writes, the two terminal numbers and the position of the hardware cursor. -/
structure Console where
  mem : CPtr
  inputBuffer : CPtr
  currIdx : Term → Nat
  termX : Term → Nat
  termY : Term → Nat
  readFlag : Term → Bool
  writeFlag : Term → Bool
  enterFlag : Term → Bool
  charFromKB : Bool
  currTerm : Term
  dispTerm : Term
  cursor : Nat

/-- The index of `input_buffer[t][line][i]` in the array. -/
def inputIndex (t : Term) (line i : Nat) : Nat := 2 * lineBufferSize * t.val + lineBufferSize * line + i

/-- `update_coords_back`. -/
def updateCoordsBack (x y : Nat) : Nat × Nat := if x = 0 then (numCols - 1, if y > 0 then y - 1 else 0) else (x - 1, y)

/-- `update_coords_forward`. -/
def updateCoordsForward (x y : Nat) : Nat × Nat := if x + 1 ≥ numCols then ((x + 1) % numCols, y + 1) else (x + 1, y)

/-- The two stores of a character cell: the character and its attribute. -/
def putCell (m : CPtr) (base x y : Nat) (c : UInt8) : CPtr :=
  set (set m (base + 2 * (numCols * y + x)) c) (base + 2 * (numCols * y + x) + 1) attrib

/-- A screen scrolled down by one line, as the two `terminal_scroll_down` functions do it. -/
def scrollDown (m : CPtr) (base : Nat) : CPtr :=
  let newSize := 2 * ((numRows - 1) * numCols)
  let emptyChar := 0x20 ||| attrib.toNat <<< 8
  memsetWord (memcpy m base (base + 2 * numCols) newSize) (base + newSize) emptyChar numCols

/-- The loop that clears a screen. -/
def clearCells (m : CPtr) (base : Nat) : CPtr := fill m base (2 * (numRows * numCols)) (fun i => if i % 2 = 0 then 0x20 else attrib)

/-- `terminal_scroll_down_curr`. -/
def terminalScrollDownCurr (k : Console) : Console := { k with mem := scrollDown k.mem (videoBuffer k.currTerm) }

/-- `terminal_scroll_down_disp`: the buffer first, then the video memory. -/
def terminalScrollDownDisp (k : Console) : Console :=
  { k with mem := scrollDown (scrollDown k.mem (videoBuffer k.dispTerm)) video }

/-- `terminal_update_cursor`. -/
def terminalUpdateCursor (k : Console) : Console :=
  { k with cursor := (k.termY k.dispTerm * numCols + k.termX k.dispTerm) % 2 ^ 16 }

/-- `terminal_reset_buffer`. -/
def terminalResetBuffer (k : Console) : Console :=
  let t := k.currTerm
  { k with
    inputBuffer := fill (fill k.inputBuffer (inputIndex t currLine 0) lineBufferSize (fun _ => 0))
      (inputIndex t enteredLine 0) lineBufferSize (fun _ => 0)
    currIdx := Function.update k.currIdx t 0 }

/-- `terminal_clear`. -/
def terminalClear (k : Console) : Console :=
  let k := terminalResetBuffer k
  let d := k.dispTerm
  let k := { k with
    mem := clearCells (clearCells k.mem video) (videoBuffer d)
    termX := Function.update k.termX d 0
    termY := Function.update k.termY d 0 }
  let k := terminalUpdateCursor k
  { k with enterFlag := Function.update k.enterFlag d false }

/-- The coordinates of a terminal set. -/
def Console.setCoords (k : Console) (t : Term) (xy : Nat × Nat) : Console :=
  { k with termX := Function.update k.termX t xy.1, termY := Function.update k.termY t xy.2 }

/-- A character appended to the line being typed. -/
def Console.appendChar (k : Console) (t : Term) (c : UInt8) : Console :=
  { k with
    inputBuffer := set k.inputBuffer (inputIndex t currLine (k.currIdx t)) c
    currIdx := Function.update k.currIdx t (k.currIdx t + 1) }

/-- `all_char`. -/
def allChar (k : Console) (c : UInt8) : Nat → Console
  | 1 =>
    let d := k.dispTerm
    let k := { k with mem := putCell (putCell k.mem video (k.termX d) (k.termY d) c) (videoBuffer d) (k.termX d) (k.termY d) c }
    let k := k.setCoords d (updateCoordsForward (k.termX d) (k.termY d))
    let k := if k.termY d ≥ numRows then
        { terminalScrollDownDisp k with termY := Function.update k.termY d (numRows - 1) }
      else k
    (terminalUpdateCursor k).appendChar d c
  | 2 =>
    let t := k.currTerm
    let k := { k with mem := putCell k.mem (videoBuffer t) (k.termX t) (k.termY t) c }
    let k := k.setCoords t (updateCoordsForward (k.termX t) (k.termY t))
    let k := if k.termY t ≥ numRows then
        { terminalScrollDownCurr k with termY := Function.update k.termY t (numRows - 1) }
      else k
    k.appendChar t c
  | _ => k

/-- The line feed appended to the line being typed, and the line moved to `ENTERED_LINE`. -/
def Console.enterLine (k : Console) (t : Term) : Console :=
  let buf := set k.inputBuffer (inputIndex t currLine (k.currIdx t)) 0x0A
  { k with
    inputBuffer := fill (fill buf (inputIndex t enteredLine 0) lineBufferSize
        (fun i => if i ≤ k.currIdx t then buf (inputIndex t currLine i) else 0))
      (inputIndex t currLine 0) lineBufferSize (fun _ => 0) }

/-- `new_line_char`. -/
def newLineChar (k : Console) : Nat → Console
  | 1 =>
    let d := k.dispTerm
    let k := (k.enterLine d).setCoords d (0, k.termY d + 1)
    let k := if k.termY d ≥ numRows then
        { terminalScrollDownDisp k with termY := Function.update k.termY d (numRows - 1) }
      else k
    let k := terminalUpdateCursor { k with currIdx := Function.update k.currIdx d 0 }
    if k.readFlag d then { k with enterFlag := Function.update k.enterFlag d true } else k
  | 2 =>
    let t := k.currTerm
    let k := (k.enterLine t).setCoords t (0, k.termY t + 1)
    let k := if k.termY t ≥ numRows then
        { terminalScrollDownCurr k with termY := Function.update k.termY t (numRows - 1) }
      else k
    { k with currIdx := Function.update k.currIdx t 0 }
  | _ => k

/-- `backspace_char`. -/
def backspaceChar (k : Console) : Console :=
  let d := k.dispTerm
  if k.readFlag d = true ∧ k.currIdx d > 0 then
    let k := k.setCoords d (updateCoordsBack (k.termX d) (k.termY d))
    let k := { k with
      mem := putCell (putCell k.mem video (k.termX d) (k.termY d) 0x20) (videoBuffer d) (k.termX d) (k.termY d) 0x20
      currIdx := Function.update k.currIdx d (k.currIdx d - 1) }
    terminalUpdateCursor { k with inputBuffer := set k.inputBuffer (inputIndex d currLine (k.currIdx d)) 0 }
  else k

/-! ## Routing -/

/-- `bmap_val`: the five flags as the bits of a number. -/
def bmapVal (readDisp writeDisp readCurr writeCurr fromKB : Bool) : Nat :=
  readDisp.toNat <<< 4 ||| writeDisp.toNat <<< 3 ||| readCurr.toNat <<< 2 ||| writeCurr.toNat <<< 1 ||| fromKB.toNat

/-- `bitmap`: the number in binary, padded on the left to `STRING_LENGTH` digits. -/
def bitmap (bmapVal : Nat) : List UInt8 :=
  let bitmapTemp := itoa bmapVal 2
  let l := bitmapTemp.length
  (List.range 5).map (fun i => if i < 5 - l then 0x30 else bitmapTemp.getD (i + l - 5) 0)

/-- `strncmp(bitmap, s, n) == 0`. -/
def bitmapIs (bitmap : List UInt8) (s : String) (n : Nat) : Bool := decide (strncmp (cstr bitmap) (cstr (ascii s)) n = 0)

/-- The comparisons of `terminal_putc` with the bitmap, in order. -/
def bitmapFlag (b : List UInt8) : Nat :=
  if bitmapIs b "10000" 5 || bitmapIs b "01001" 5 || bitmapIs b "01000" 5 || bitmapIs b "00101" 5 || bitmapIs b "00100" 5 ||
      bitmapIs b "00011" 5 || bitmapIs b "10100" 5 || bitmapIs b "01101" 5 || bitmapIs b "01100" 5 || bitmapIs b "01011" 5 then 0
  else if bitmapIs b "10001" 5 then 1
  else if bitmapIs b "10101" 5 then 1
  else if bitmapIs b "10011" 5 then 1
  else if bitmapIs b "10010" 5 then 2
  else if bitmapIs b "01010" 5 || bitmapIs b "1010" 4 then 2
  else if bitmapIs b "00010" 5 || bitmapIs b "10" 2 then 2
  else 0

/-- `write_flag`, as `terminal_putc` decides it. -/
def Console.putcFlag (k : Console) : Nat :=
  let writeFlag := bitmapFlag (bitmap (bmapVal (k.readFlag k.dispTerm) (k.writeFlag k.dispTerm) (k.readFlag k.currTerm)
    (k.writeFlag k.currTerm) k.charFromKB))
  if k.dispTerm ≠ k.currTerm ∧ k.writeFlag k.dispTerm = true ∧ k.writeFlag k.currTerm = true ∧ k.charFromKB = false then 2
  else writeFlag

/-- What `terminal_putc` does with a character once its flag is decided. -/
def Console.putcAs (k : Console) (c : UInt8) (flag : Nat) : Console :=
  if c = 0x0A ∨ c = 0x0D then newLineChar k flag
  else if c = backspaceASCII ∧ k.charFromKB = true ∧ k.readFlag k.dispTerm = true then backspaceChar k
  else allChar k c flag

/-- `terminal_putc`. -/
def terminalPutc (k : Console) (c : UInt8) : Console :=
  let writeFlag := k.putcFlag
  let k :=
    if k.currTerm = k.dispTerm then
      if k.readFlag k.currTerm || k.writeFlag k.currTerm then k.putcAs c 1 else k
    else if writeFlag = 1 ∨ writeFlag = 2 then k.putcAs c writeFlag
    else k
  { k with charFromKB := false }

/-! ## Output -/

/-- The flags of the running terminal. -/
def Console.setFlags (k : Console) (read write : Bool) : Console :=
  { k with readFlag := Function.update k.readFlag k.currTerm read, writeFlag := Function.update k.writeFlag k.currTerm write }

/-- The loop of `terminal_write`. -/
def terminalWriteLoop (k : Console) : List UInt8 → Console
  | [] => k
  | c :: bytes =>
    let k := if k.currIdx k.currTerm % lineBufferSize = lineBufferSize - 1 then terminalResetBuffer k else k
    terminalWriteLoop (terminalPutc k c) bytes

/-- `terminal_write` of the bytes of a buffer that is not null. It returns their number. -/
def terminalWrite (k : Console) (bytes : List UInt8) : Console :=
  let k := terminalResetBuffer (terminalWriteLoop (k.setFlags false true) bytes)
  { k with writeFlag := Function.update k.writeFlag k.currTerm false }

/-- The loop of `terminal_puts`. -/
def terminalPutsLoop (k : Console) : List UInt8 → Nat → Console
  | [], _ => k
  | c :: s, index =>
    let k := if index % lineBufferSize = lineBufferSize - 1 then terminalResetBuffer k else k
    terminalPutsLoop (terminalPutc k c) s (index + 1)

/-- `terminal_puts` of a string, given by the bytes before its terminator. -/
def terminalPuts (k : Console) (s : List UInt8) : Console :=
  let read := k.readFlag k.currTerm
  let write := k.writeFlag k.currTerm
  (terminalResetBuffer (terminalPutsLoop (k.setFlags false true) s 0)).setFlags read write

/-- An argument of `terminal_printf`: the word on the stack, and the string it points at when it is used as a pointer. -/
structure PrintfArg where
  word : Nat
  str : CPtr

/-- The characters a conversion of `terminal_printf` prints with `terminal_puts`. -/
def convert (alternate : Bool) (spec : UInt8) (arg : PrintfArg) : List UInt8 :=
  if spec = 0x78 then
    if alternate then List.replicate (8 - (itoa arg.word 16).length) 0x30 ++ itoa arg.word 16 else itoa arg.word 16
  else if spec = 0x75 then itoa arg.word 10
  else if spec = 0x64 then
    if arg.word ≥ 2 ^ 31 then 0x2D :: itoa (2 ^ 32 - arg.word) 10 else itoa arg.word 10
  else strcpyBytes arg.str

/-- The loop of `terminal_printf`: `conv` is none between conversions and holds `alternate` within one, `buf` is the offset
reached in the format and `esp` the number of the next argument. It yields the offset where the loop ends. -/
def terminalPrintfLoop (format : CPtr) (args : Nat → PrintfArg) : Nat → Console → Option Bool → Nat → Nat → Console × Nat
  | 0, k, _, buf, _ => (k, buf)
  | fuel + 1, k, none, buf, esp =>
    if format buf = 0 then (k, buf)
    else
      let k := if buf % lineBufferSize = lineBufferSize - 1 then terminalResetBuffer k else k
      if format buf = 0x25 then terminalPrintfLoop format args fuel k (some false) (buf + 1) esp
      else terminalPrintfLoop format args fuel (terminalPutc k (format buf)) none (buf + 1) esp
  | fuel + 1, k, some alternate, buf, esp =>
    let spec := format buf
    if spec = 0x25 then terminalPrintfLoop format args fuel (terminalPutc k 0x25) none (buf + 1) esp
    else if spec = 0x23 then terminalPrintfLoop format args fuel k (some true) (buf + 1) esp
    else if spec = 0x78 ∨ spec = 0x75 ∨ spec = 0x64 ∨ spec = 0x73 then
      terminalPrintfLoop format args fuel (terminalPuts k (convert alternate spec (args esp))) none (buf + 1) (esp + 1)
    else if spec = 0x63 then
      terminalPrintfLoop format args fuel (terminalPutc k ((args esp).word % 256).toUInt8) none (buf + 1) (esp + 1)
    else terminalPrintfLoop format args fuel k none (buf + 1) esp

/-- `terminal_printf`. -/
def terminalPrintf (k : Console) (format : CPtr) (args : Nat → PrintfArg) : Console × Int :=
  let read := k.readFlag k.currTerm
  let write := k.writeFlag k.currTerm
  let out := terminalPrintfLoop format args addressSpace (k.setFlags false true) none 0 0
  ((terminalResetBuffer out.1).setFlags read write, out.2)

/-- `terminal_printf` of a string literal without conversions, as the kernel prints its messages. -/
def printMessage (k : Console) (s : String) : Console := (terminalPrintf k (cstr (ascii s)) (fun _ => ⟨0, fun _ => 0⟩)).1

/-! ## Input -/

/-- `terminal_read` up to its waiting loop. -/
def terminalReadBegin (k : Console) : Console :=
  terminalResetBuffer { k.setFlags true false with enterFlag := Function.update k.enterFlag k.currTerm false }

/-- The condition that ends the waiting loop of `terminal_read`. -/
def Console.readPoll (k : Console) : Bool := k.enterFlag k.currTerm && decide (k.dispTerm = k.currTerm)

/-- The copying loop of `terminal_read`, with the bytes still wanted and the index reached. -/
def terminalReadLoop (k : Console) : Nat → Nat → List UInt8
  | 0, _ => []
  | n + 1, i =>
    let entered := k.inputBuffer (inputIndex k.dispTerm enteredLine i)
    let curr := k.inputBuffer (inputIndex k.dispTerm currLine i)
    if ¬(entered = 0 ∧ curr = 0) ∧ i < lineBufferSize then entered :: terminalReadLoop k n (i + 1) else []

/-- `terminal_read` after its waiting loop: the bytes copied, whose number it returns. -/
def terminalReadCopy (k : Console) (nbytes : Nat) : List UInt8 × Console :=
  let bytes := terminalReadLoop k nbytes 0
  let k := terminalResetBuffer k
  (bytes, { k with
    enterFlag := Function.update k.enterFlag k.dispTerm false
    readFlag := Function.update k.readFlag k.currTerm false })

end ThreeTermOS
