import ThreeTermOS.FileSys
import ThreeTermOS.Library.Runs

/-!
# file_desc.c and the file system calls of syscalls.c

The process control block, its descriptor table, and `open_func`, `read_func`, `write_func` and `close_func`. The terminal and
the RTC sit behind the operation tables; what they do is a parameter here (`Devices`), because they never touch the descriptor
table. A buffer is the caller's own, a file name is a C string. Where the source would follow a null table or use the slot it
never found, the call has no outcome.
-/

namespace ThreeTermOS

open Bytes Runs

/-- The address of a process control block; a null pointer is `none`. -/
abbrev Addr : Type := Nat

/-- The functions an operation table can hold, one type for each field. -/
inductive OpenFn where
  | invalidFunc | rtcOpen | fileOpen
  deriving DecidableEq, Repr

inductive ReadFn where
  | invalidFunc | terminalRead | rtcRead | readDir | readDataFile
  deriving DecidableEq, Repr

inductive WriteFn where
  | invalidFunc | terminalWrite | rtcWrite | fileWrite
  deriving DecidableEq, Repr

inductive CloseFn where
  | invalidFunc | rtcClose | fileClose
  deriving DecidableEq, Repr

/-- The operation tables: `stdin_fops`, `stdout_fops`, `rtc_fops`, `dir_fops`, `file_fops`. -/
inductive Fops where
  | stdin | stdout | rtc | dir | file
  deriving DecidableEq, Repr

def Fops.open : Fops → Option OpenFn
  | .stdin => some .invalidFunc
  | .stdout => some .invalidFunc
  | .rtc => some .rtcOpen
  | .dir => some .fileOpen
  | .file => some .fileOpen

def Fops.read : Fops → Option ReadFn
  | .stdin => some .terminalRead
  | .stdout => some .invalidFunc
  | .rtc => some .rtcRead
  | .dir => some .readDir
  | .file => some .readDataFile

def Fops.write : Fops → Option WriteFn
  | .stdin => some .invalidFunc
  | .stdout => some .terminalWrite
  | .rtc => some .rtcWrite
  | .dir => some .invalidFunc
  | .file => some .fileWrite

def Fops.close : Fops → Option CloseFn
  | .stdin => some .invalidFunc
  | .stdout => some .invalidFunc
  | .rtc => some .rtcClose
  | .dir => some .fileClose
  | .file => some .fileClose

/-- `fd_t`. A null table marks a closed descriptor. -/
structure Fd where
  fopsPtr : Option Fops
  inodeNum : Nat
  pos : Nat
  flags : Nat
  deriving DecidableEq, Repr

/-- `PCB_t`, but for the stack pointers a context switch saves. The entry point is the four bytes read from the file. -/
structure PCB where
  pId : Nat
  parentPId : Nat
  parent : Option Addr
  child : Option Addr
  fdA : Fin 8 → Fd
  args : List UInt8
  esp0 : Nat
  progEntry : CPtr
  fdTotalOpen : Nat
  shellFlag : Nat
  termNum : Term

/-- `IN_USE`. -/
def inUse : Nat := 1

/-- `-1` stored in a `uint32_t`. -/
def minusOne : Nat := 0xFFFFFFFF

/-- `fd_A_init`. -/
def fdAInit : Fin 8 → Fd
  | 0 => { fopsPtr := some .stdin, inodeNum := minusOne, pos := 0, flags := 0 }
  | 1 => { fopsPtr := some .stdout, inodeNum := minusOne, pos := 0, flags := 0 }
  | _ => { fopsPtr := none, inodeNum := minusOne, pos := 0, flags := 0 }

/-- What the terminal and the RTC do when a call reaches them, on a state `σ` of their own: the value returned, the bytes
stored in the buffer, the state after. `rtc_open` and `rtc_close` return 0, `printf` is `terminal_printf`. -/
structure Devices (σ : Type) where
  terminalRead : σ → Int32 → Int × List UInt8 × σ
  terminalWrite : σ → List UInt8 → Int32 → Int × σ
  rtcOpen : σ → σ
  rtcRead : σ → Int × σ
  rtcWrite : σ → List UInt8 → Int32 → Int × σ
  printf : σ → List UInt8 → σ

/-- The outcome of a call: the value returned, the bytes stored in the caller's buffer, the process and the devices after. -/
structure CallOut (σ : Type) where
  ret : Int
  bytes : List UInt8
  pcb : PCB
  dev : σ

/-- A call that returns -1 and stores nothing. -/
def CallOut.fail {σ : Type} (p : PCB) (s : σ) : CallOut σ := { ret := -1, bytes := [], pcb := p, dev := s }

/-- One descriptor replaced. -/
def PCB.setFd (p : PCB) (i : Fin 8) (f : Fd) : PCB := { p with fdA := Function.update p.fdA i f }

/-- The descriptor a number names, if it is one of the table. -/
def fdIndex (fd : Int) : Option (Fin 8) := if h : 0 ≤ fd ∧ fd < 8 then some ⟨fd.toNat, by omega⟩ else none

/-- `read_dir`, its entry pointer taken to designate valid storage. The name is stored with its terminator. -/
def readDir {σ : Type} (img : Image) (p : PCB) (s : σ) (i : Fin 8) : CallOut σ :=
  match readDentryByIndex img (p.fdA i).pos with
  | none => { ret := 0, bytes := [], pcb := p, dev := s }
  | some d =>
    let name := strcpyBytes d.filename
    { ret := name.length, bytes := name ++ [0], pcb := p.setFd i { p.fdA i with pos := (p.fdA i).pos + 1 }, dev := s }

/-- `read_data_file`. -/
def readDataFile {σ : Type} (img : Image) (p : PCB) (s : σ) (i : Fin 8) (length : Nat) : CallOut σ :=
  let out := readData img (p.fdA i).inodeNum (p.fdA i).pos length
  if out.ret ≤ 0 then { ret := out.ret, bytes := out.bytes, pcb := p, dev := s }
  else
    { ret := out.ret, bytes := out.bytes, dev := s
      pcb := p.setFd i { p.fdA i with pos := (p.fdA i).pos + out.ret.toNat } }

/-- `read_func`. `buf` says whether the buffer pointer is not null. -/
def readFunc {σ : Type} (img : Image) (dev : Devices σ) (s : σ) (p : PCB) (fd : Int) (buf : Bool) (nbytes : Int32) :
    CallOut σ :=
  match fdIndex fd with
  | none => CallOut.fail p s
  | some i =>
    match (p.fdA i).fopsPtr with
    | none => CallOut.fail p s
    | some fops =>
      if nbytes.toInt ≤ 0 ∨ buf = false ∨ (p.fdA i).flags = inUse then CallOut.fail p s
      else
        match fops.read with
        | none => CallOut.fail p s
        | some .invalidFunc => CallOut.fail p s
        | some .terminalRead =>
          let out := dev.terminalRead s nbytes
          { ret := out.1, bytes := out.2.1, pcb := p, dev := out.2.2 }
        | some .rtcRead =>
          let out := dev.rtcRead s
          { ret := out.1, bytes := [], pcb := p, dev := out.2 }
        | some .readDir => readDir img p s i
        | some .readDataFile => readDataFile img p s i nbytes.toInt.toNat

/-- `write_func`. The buffer is `none` for a null pointer. -/
def writeFunc {σ : Type} (dev : Devices σ) (s : σ) (p : PCB) (fd : Int) (buf : Option (List UInt8)) (nbytes : Int32) :
    CallOut σ :=
  match fdIndex fd with
  | none => CallOut.fail p s
  | some i =>
    match (p.fdA i).fopsPtr, buf with
    | some fops, some bs =>
      if nbytes.toInt ≤ 0 ∨ (p.fdA i).flags = inUse then CallOut.fail p s
      else
        match fops.write with
        | none => CallOut.fail p s
        | some .invalidFunc => CallOut.fail p s
        | some .terminalWrite =>
          let out := dev.terminalWrite s bs nbytes
          { ret := out.1, bytes := [], pcb := p, dev := out.2 }
        | some .rtcWrite =>
          let out := dev.rtcWrite s bs nbytes
          { ret := out.1, bytes := [], pcb := p, dev := out.2 }
        | some .fileWrite => { ret := fileWrite, bytes := [], pcb := p, dev := s }
    | _, _ => CallOut.fail p s

/-- The descriptors `open_func` looks through, in its order. -/
def openSlots : List (Fin 8) := [2, 3, 4, 5, 6, 7]

/-- The search of `open_func` for a closed descriptor. -/
def findClosed (fdA : Fin 8 → Fd) : Option (Fin 8) := openSlots.find? (fun i => (fdA i).fopsPtr.isNone)

/-- The descriptor `open_func` fills in for an entry: an entry of any other type leaves it as it was. -/
def openedFd (d : Dentry) (old : Fd) : Fd :=
  match d.fileType with
  | 0 => { fopsPtr := some .rtc, inodeNum := minusOne, pos := 0, flags := 0 }
  -- reading a directory begins with its second entry
  | 1 => { fopsPtr := some .dir, inodeNum := minusOne, pos := 1, flags := 0 }
  | 2 => { fopsPtr := some .file, inodeNum := d.inodeNum, pos := 0, flags := 0 }
  | _ => old

/-- `open_func`. There is no outcome when the search leaves `new_fd` unset or the table it would follow is null. -/
def openFunc {σ : Type} (img : Image) (dev : Devices σ) (s : σ) (p : PCB) (filename : CPtr) : Option (CallOut σ) :=
  if p.fdTotalOpen ≥ maxFd - 1 then
    some (CallOut.fail p (dev.printf s (ascii "Cannot Open More Files\n")))
  else
    match readDentryByName img filename with
    | none => some (CallOut.fail p (dev.printf s (ascii "File Does not exist\n")))
    | some d =>
      let p := { p with fdTotalOpen := p.fdTotalOpen + 1 }
      match findClosed p.fdA with
      | none => none
      | some newFd =>
        let p := p.setFd newFd (openedFd d (p.fdA newFd))
        match (p.fdA newFd).fopsPtr with
        | none => none
        | some fops =>
          match fops.open with
          | none => some (CallOut.fail p (dev.printf s (ascii "No Valid Function for Open Defined\n")))
          | some .invalidFunc => some (CallOut.fail p s)
          | some .rtcOpen => some { ret := newFd.val, bytes := [], pcb := p, dev := dev.rtcOpen s }
          | some .fileOpen =>
            if fileOpen = -1 then some (CallOut.fail p s)
            else some { ret := newFd.val, bytes := [], pcb := p, dev := s }

/-- A cleared descriptor, as `close_func` leaves it. -/
def closedFd : Fd := { fopsPtr := none, inodeNum := 0, pos := 0, flags := 0 }

/-- `close_func`. -/
def closeFunc {σ : Type} (dev : Devices σ) (s : σ) (p : PCB) (fd : Nat) : CallOut σ :=
  if fd ≤ 1 then CallOut.fail p s
  else
    match fdIndex fd with
    | none => CallOut.fail p s
    | some i =>
      match (p.fdA i).fopsPtr with
      | none => CallOut.fail p s
      | some fops =>
        match fops.close with
        | none => CallOut.fail p (dev.printf s (ascii "No Valid Function for Close Defined\n"))
        | some f =>
          let p := { p.setFd i closedFd with fdTotalOpen := p.fdTotalOpen - 1 }
          match f with
          | .invalidFunc => CallOut.fail p s
          | .rtcClose => { ret := 0, bytes := [], pcb := p, dev := s }
          | .fileClose => { ret := fileClose, bytes := [], pcb := p, dev := s }

/-- A file system call of a process, with its arguments. -/
inductive Call where
  | open (filename : CPtr)
  | close (fd : Nat)
  | read (fd : Int) (buf : Bool) (nbytes : Int32)
  | write (fd : Int) (buf : Option (List UInt8)) (nbytes : Int32)

/-- The outcome of a call. -/
def Call.out {σ : Type} (img : Image) (dev : Devices σ) (s : σ) (p : PCB) : Call → Option (CallOut σ)
  | .open filename => openFunc img dev s p filename
  | .close fd => some (closeFunc dev s p fd)
  | .read fd buf nbytes => some (readFunc img dev s p fd buf nbytes)
  | .write fd buf nbytes => some (writeFunc dev s p fd buf nbytes)

/-- A process makes a call: the machine whose runs are the sequences of its calls. It stops where a call has no outcome. -/
def callStep {σ : Type} (img : Image) (dev : Devices σ) (k : PCB × σ) (c : Call) : Outcome Unit (PCB × σ) :=
  match c.out img dev k.2 k.1 with
  | none => .stop () k
  | some out => .ok (out.pcb, out.dev)

end ThreeTermOS
