import ThreeTermOS.Kernel

/-!
# get_args_fname, store by store

`getArgsFname` says what the two arrays hold afterwards. Here the same function is followed through its loops, with every store it
makes: the arrays of `execute_func` have 32 and 128 bytes, and the loops stop where the arrays end, the terminators do not.
-/

namespace ThreeTermOS

open Bytes

/-- A loop that copies the characters of a command while `goes` and the index is below the limit: the stores, each a byte with its
index, and the command that is left. The terminator is the end of the list. -/
def storeWhile (goes : UInt8 → Bool) (limit : Nat) : List UInt8 → Nat → List (UInt8 × Nat) × List UInt8
  | [], _ => ([], [])
  | c :: command, j =>
    if goes c && decide (j < limit) then
      let rest := storeWhile goes limit command (j + 1)
      ((c, j) :: rest.1, rest.2)
    else ([], c :: command)

/-- The stores of `get_args_fname` in `file_name` and in `args`. -/
structure ArgsStores where
  fileName : List (UInt8 × Nat)
  args : List (UInt8 × Nat)

/-- `get_args_fname`, by its stores. -/
def getArgsFnameStores (command : CPtr) : ArgsStores :=
  let command := (strcpyBytes command).dropWhile (fun c => c = 0x20)
  let word := storeWhile (fun c => !endsWord c) fileNameCharmax command 0
  let j := word.1.length
  let terminator := if j < fileNameCharmax then [((0 : UInt8), j)] else []
  let command := word.2.dropWhile (fun c => c = 0x20)
  let text := storeWhile (fun c => !(c = 0x0A || c = 0x0D)) lineBufferSize command 0
  { fileName := word.1 ++ terminator, args := text.1 ++ [(0, text.1.length)] }

/-- An array after stores. -/
def applyStores (m : CPtr) (stores : List (UInt8 × Nat)) : CPtr := stores.foldl (fun m st => set m st.2 st.1) m

end ThreeTermOS
