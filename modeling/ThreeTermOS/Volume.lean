import ThreeTermOS.FileDesc

/-!
# What the file system is for

A volume is a directory: names, and what each stands for. An open descriptor is what is left to read from it. There are no blocks,
no inodes and no positions here: this is what a program may think of its file system calls, and what the calls on an image are
compared with.
-/

namespace ThreeTermOS

open Bytes Runs

/-- What an entry of the directory stands for. A file may have no content, and then no read of it succeeds. -/
inductive Node where
  | rtc
  | dir
  | file (content : Option (List UInt8))
  deriving DecidableEq, Repr

/-- The entries of the directory, in order. -/
structure Volume where
  entries : List (List UInt8 × Node)

/-- An open descriptor: a device, or what is left to read. -/
inductive Handle where
  | stdin
  | stdout
  | rtc
  | dir (rest : List (List UInt8))
  | file (rest : Option (List UInt8))
  deriving DecidableEq, Repr

/-- The descriptors of a process. -/
abbrev Handles : Type := Fin 8 → Option Handle

/-- The descriptors a process starts with. -/
def Handles.start : Handles
  | 0 => some .stdin
  | 1 => some .stdout
  | _ => none

/-- The lowest closed descriptor of those a process may open. -/
def Handles.closed (h : Handles) : Option (Fin 8) := openSlots.find? (fun i => (h i).isNone)

/-- What a call tells the program: the value it returns and the bytes it stores. -/
structure Reply where
  ret : Int
  bytes : List UInt8
  deriving DecidableEq, Repr

def Reply.fail : Reply := { ret := -1, bytes := [] }

namespace Volume

variable {σ : Type}

/-- The first entry with a name. -/
def find (v : Volume) (name : List UInt8) : Option Node := (v.entries.find? (fun e => decide (e.1 = name))).map Prod.snd

/-- The names a directory gives, from the second one on, and an empty one at its end. -/
def names (v : Volume) : List (List UInt8) := (v.entries.map Prod.fst ++ [[]]).tail

/-- A descriptor opened for an entry. -/
def handle (v : Volume) : Node → Handle
  | .rtc => .rtc
  | .dir => .dir v.names
  | .file content => .file content

/-- Opening a name. -/
def opens (v : Volume) (dev : Devices σ) (h : Handles) (s : σ) (name : List UInt8) : Reply × Handles × σ :=
  match h.closed with
  | none => (.fail, h, dev.printf s (ascii "Cannot Open More Files\n"))
  | some i =>
    match v.find name with
    | none => (.fail, h, dev.printf s (ascii "File Does not exist\n"))
    | some node =>
      ({ ret := i.val, bytes := [] }, Function.update h i (some (v.handle node)), if node = .rtc then dev.rtcOpen s else s)

/-- Closing a descriptor: only what was opened can be closed. -/
def closes (h : Handles) (s : σ) (fd : Nat) : Reply × Handles × σ :=
  match fdIndex fd with
  | none => (.fail, h, s)
  | some i => if 2 ≤ i.val ∧ h i ≠ none then ({ ret := 0, bytes := [] }, Function.update h i none, s) else (.fail, h, s)

/-- Reading on in a directory: its next name with a zero behind it. -/
def readNames (h : Handles) (s : σ) (i : Fin 8) : List (List UInt8) → Reply × Handles × σ
  | [] => ({ ret := 0, bytes := [] }, h, s)
  | name :: rest => ({ ret := name.length, bytes := name ++ [0] }, Function.update h i (some (.dir rest)), s)

/-- Reading on in a file: its next bytes. -/
def readBytes (h : Handles) (s : σ) (i : Fin 8) (len : Nat) : Option (List UInt8) → Reply × Handles × σ
  | none => (.fail, h, s)
  | some rest =>
    ({ ret := (rest.take len).length, bytes := rest.take len }, Function.update h i (some (.file (some (rest.drop len)))), s)

/-- Reading. -/
def reads (dev : Devices σ) (h : Handles) (s : σ) (fd : Int) (buf : Bool) (nbytes : Int32) : Reply × Handles × σ :=
  if nbytes.toInt ≤ 0 ∨ buf = false then (.fail, h, s)
  else
    match fdIndex fd with
    | none => (.fail, h, s)
    | some i =>
      match h i with
      | none => (.fail, h, s)
      | some .stdin =>
        let out := dev.terminalRead s nbytes
        ({ ret := out.1, bytes := out.2.1 }, h, out.2.2)
      | some .stdout => (.fail, h, s)
      | some .rtc =>
        let out := dev.rtcRead s
        ({ ret := out.1, bytes := [] }, h, out.2)
      | some (.dir names) => readNames h s i names
      | some (.file rest) => readBytes h s i nbytes.toInt.toNat rest

/-- Writing: only to the terminal and to the clock. -/
def writes (dev : Devices σ) (h : Handles) (s : σ) (fd : Int) (buf : Option (List UInt8)) (nbytes : Int32) :
    Reply × Handles × σ :=
  match buf with
  | none => (.fail, h, s)
  | some bytes =>
    if nbytes.toInt ≤ 0 then (.fail, h, s)
    else
      match (fdIndex fd).bind h with
      | some .stdout =>
        let out := dev.terminalWrite s bytes nbytes
        ({ ret := out.1, bytes := [] }, h, out.2)
      | some .rtc =>
        let out := dev.rtcWrite s bytes nbytes
        ({ ret := out.1, bytes := [] }, h, out.2)
      | _ => (.fail, h, s)

/-- A call on a volume. -/
def call (v : Volume) (dev : Devices σ) (h : Handles) (s : σ) : Call → Reply × Handles × σ
  | .open filename => v.opens dev h s (strcpyBytes filename)
  | .close fd => closes h s fd
  | .read fd buf nbytes => reads dev h s fd buf nbytes
  | .write fd buf nbytes => writes dev h s fd buf nbytes

/-- A program that makes calls on a volume; every one has an outcome. -/
def callStep (v : Volume) (dev : Devices σ) (k : Handles × σ) (c : Call) : Outcome Unit (Handles × σ) :=
  .ok (v.call dev k.1 k.2 c).2

/-- What a call on a volume tells the program. -/
def replies (v : Volume) (dev : Devices σ) (k : Handles × σ) (c : Call) : List Reply := [(v.call dev k.1 k.2 c).1]

end Volume

/-- What a call on an image tells the program. -/
def replies {σ : Type} (img : Image) (dev : Devices σ) (k : PCB × σ) (c : Call) : List Reply :=
  match c.out img dev k.2 k.1 with
  | none => []
  | some out => [{ ret := out.ret, bytes := out.bytes }]

end ThreeTermOS
