import ThreeTermOS.Kernel

/-!
# Reads and the addresses they store at

`read_func` looks at its buffer only for `NULL` and stores with the rights of the kernel. Here a read comes with the address of its
buffer, and what it stores into the process control block of the process that reads is followed, as far as that is its descriptors
and their number.
-/

namespace ThreeTermOS

open Bytes Runs

/-- The offset of `fd_A` in a `PCB_t`, which is packed. -/
def fdAOffset : Nat := 16

/-- The offset of `fd_total_open` in a `PCB_t`. -/
def fdTotalOpenOffset : Nat := 296

/-- The bytes of an `fd_t`. -/
def fdSize : Nat := 16

/-- The end of the pages a program has: its own large page and the video pages behind it. -/
def programEnd : Nat := mb128 + mem4MB + 3 * hex4KB

/-- A word with its byte `i` replaced. -/
def setByte (w i : Nat) (b : UInt8) : Nat := w - w / 256 ^ i % 256 * 256 ^ i + b.toNat * 256 ^ i

/-- A descriptor with one of its bytes replaced. Its table is known by name, not by address: a store there is not followed. -/
def Fd.store (f : Fd) (off : Nat) (b : UInt8) : Option Fd :=
  if off < 4 then none
  else if off < 8 then some { f with inodeNum := setByte f.inodeNum (off - 4) b }
  else if off < 12 then some { f with pos := setByte f.pos (off - 8) b }
  else some { f with flags := setByte f.flags (off - 12) b }

/-- A byte stored by the kernel, for the process whose block is at `a`. The pages of the program begin at 128MB and hold nothing of the
kernel; a store behind them faults. Of what lies below, the descriptors of the process and their number are followed. -/
def PCB.store (a : Addr) (p : PCB) (v : Nat) (b : UInt8) : Option PCB :=
  if mb128 ≤ v then
    if v < programEnd then some p else none
  else if a + fdAOffset ≤ v ∧ v < a + fdAOffset + maxFd * fdSize then
    let off := v - (a + fdAOffset)
    (fdIndex ((off / fdSize : Nat) : Int)).bind (fun i => ((p.fdA i).store (off % fdSize) b).map (p.setFd i))
  else if a + fdTotalOpenOffset ≤ v ∧ v < a + fdTotalOpenOffset + 4 then
    some { p with fdTotalOpen := setByte p.fdTotalOpen (v - (a + fdTotalOpenOffset)) b }
  else none

/-- Bytes stored from an address on. -/
def PCB.storeAll (a : Addr) (p : PCB) (v : Nat) : List UInt8 → Option PCB
  | [] => some p
  | b :: bs => (p.store a v b).bind (fun p => p.storeAll a (v + 1) bs)

/-- `read_dir`: the position moves on before the name is stored. -/
def readDirAt {σ : Type} (img : Image) (s : σ) (a : Addr) (p : PCB) (i : Fin 8) (buf : Nat) : Option (CallOut σ) :=
  match readDentryByIndex img (p.fdA i).pos with
  | none => some { ret := 0, bytes := [], pcb := p, dev := s }
  | some d =>
    let name := strcpyBytes d.filename
    let p := p.setFd i { p.fdA i with pos := (p.fdA i).pos + 1 }
    (p.storeAll a buf (name ++ [0])).map (fun p => { ret := name.length, bytes := name ++ [0], pcb := p, dev := s })

/-- `read_data_file`: the position moves on after the bytes are stored. -/
def readDataFileAt {σ : Type} (img : Image) (s : σ) (a : Addr) (p : PCB) (i : Fin 8) (buf length : Nat) : Option (CallOut σ) :=
  let out := readData img (p.fdA i).inodeNum (p.fdA i).pos length
  (p.storeAll a buf out.bytes).map (fun p =>
    if out.ret ≤ 0 then { ret := out.ret, bytes := out.bytes, pcb := p, dev := s }
    else
      { ret := out.ret, bytes := out.bytes, dev := s
        pcb := p.setFd i { p.fdA i with pos := (p.fdA i).pos + out.ret.toNat } })

/-- `read_func` with the address of the buffer. -/
def readFuncAt {σ : Type} (img : Image) (dev : Devices σ) (s : σ) (a : Addr) (p : PCB) (fd : Int) (buf : Nat) (nbytes : Int32) :
    Option (CallOut σ) :=
  match fdIndex fd with
  | none => some (CallOut.fail p s)
  | some i =>
    match (p.fdA i).fopsPtr with
    | none => some (CallOut.fail p s)
    | some fops =>
      if nbytes.toInt ≤ 0 ∨ buf = 0 ∨ (p.fdA i).flags = inUse then some (CallOut.fail p s)
      else
        match fops.read with
        | none => some (CallOut.fail p s)
        | some .invalidFunc => some (CallOut.fail p s)
        | some .terminalRead =>
          let out := dev.terminalRead s nbytes
          (p.storeAll a buf out.2.1).map (fun p => { ret := out.1, bytes := out.2.1, pcb := p, dev := out.2.2 })
        | some .rtcRead =>
          let out := dev.rtcRead s
          some { ret := out.1, bytes := [], pcb := p, dev := out.2 }
        | some .readDir => readDirAt img s a p i buf
        | some .readDataFile => readDataFileAt img s a p i buf nbytes.toInt.toNat

/-- A file system call of a process, a read with the address of its buffer. -/
inductive BufferCall where
  | open (filename : CPtr)
  | close (fd : Nat)
  | read (fd : Int) (buf : Nat) (nbytes : Int32)
  | write (fd : Int) (buf : Option (List UInt8)) (nbytes : Int32)

/-- The outcome of a call of the process whose block is at `a`: none where a store faults or is not followed. -/
def BufferCall.out {σ : Type} (img : Image) (dev : Devices σ) (s : σ) (a : Addr) (p : PCB) : BufferCall → Option (CallOut σ)
  | .open filename => openFunc img dev s p filename
  | .close fd => some (closeFunc dev s p fd)
  | .read fd buf nbytes => readFuncAt img dev s a p fd buf nbytes
  | .write fd buf nbytes => some (writeFunc dev s p fd buf nbytes)

/-- The process whose block is at `a` makes a call. -/
def bufferStep {σ : Type} (img : Image) (dev : Devices σ) (a : Addr) (k : PCB × σ) (c : BufferCall) : Outcome Unit (PCB × σ) :=
  match c.out img dev k.2 a k.1 with
  | none => .stop () k
  | some out => .ok (out.pcb, out.dev)

end ThreeTermOS
