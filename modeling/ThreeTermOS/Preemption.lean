import ThreeTermOS.Kernel

/-!
# execute_func, step by step

System calls run through a trap gate, so an interrupt may come between any two steps of `execute_func`. Here a call of it is a
sequence of steps, one for each store the rest of the kernel can see (`++` and `--` are one store each), and each terminal may have
one under way. A tick in between saves the place reached with the terminal's stack, and a later tick resumes there. A `halt_func`
that has counted out the last process of its terminal and has not had the check for the shell in its place passed yet is such a
place too. The launch of a shell inside `do_switch` and the other calls are one step each, the windows that `flush_tlb` and the
output functions open in them left out.
-/

namespace ThreeTermOS

open Bytes Runs

/-- The next step of an `execute_func` whose checks have passed, with the local variables that later steps use: the virtual
address reached and the bytes left to load, the new process control block, the bottom of the new kernel stack. At `restart` the
checks are still to come: the call is the one of the loop in `halt_func`. -/
inductive Point where
  | restart
  | mapProgPage
  | load (v : Nat) (bytes : List UInt8)
  | pcbInit
  | setShellFlag (pcbProg : Addr)
  | setCurrPcb (pcbProg : Addr) (kstackBottom : Nat)
  | incrNextPId (kstackBottom : Nat)
  | setActive (kstackBottom : Nat)
  | incrTotal (kstackBottom : Nat)
  | setESP0 (kstackBottom : Nat)
  | setTss (kstackBottom : Nat)
  | clearRetval
  | iret
  deriving DecidableEq

/-- An `execute_func` under way: the name and the arguments it has parsed, the entry it has found, and the next step. -/
structure Exec where
  fileName : CPtr
  args : List UInt8
  fileEntry : Dentry
  point : Point

/-- The kernel, with the `execute_func` under way on each terminal. -/
structure Machine where
  kernel : Kernel
  execs : Term → Option Exec

/-- What happens next: the running terminal's `execute_func` takes a step, the loop of its `halt_func` a turn, or an event. -/
inductive Move where
  | advance
  | restart (r : Residue)
  | event (e : Event)

/-- The calls of the running program, which make none while it waits in `execute_func`. -/
def Event.isCall : Event → Bool
  | .schedule _ _ => false
  | .switchTerminals _ _ => false
  | .key _ _ => false
  | .lock _ => false
  | _ => true

/-- The running terminal's `execute_func` goes on to a point, with the kernel it leaves. -/
def Machine.goto (s : Machine) (x : Exec) (k : Kernel) (p : Point) : Machine :=
  { kernel := k, execs := Function.update s.execs s.kernel.currTerm (some { x with point := p }) }

/-- One step of `execute_func`. -/
def advance (img : Image) (s : Machine) (x : Exec) : Outcome Stop Machine :=
  let k := s.kernel
  match x.point with
  | .restart => .ok (s.goto x k .restart)
  | .mapProgPage => .ok (s.goto x (mapProgPage k) (.load loadAddr (loadBytes img x.fileEntry)))
  | .load _ [] => .ok (s.goto x k .pcbInit)
  | .load v (b :: bytes) =>
    match k.translate v with
    | none => .stop .pageFault s
    | some a => .ok (s.goto x { k with mem := set k.mem a b } (.load (v + 1) bytes))
  | .pcbInit =>
    let pcbProg := pidToPCBAddr (k.nextPId k.currTerm) k.currTerm
    .ok (s.goto x (pcbInit img k pcbProg x.args x.fileEntry) (.setShellFlag pcbProg))
  | .setShellFlag pcbProg =>
    let kstackBottom := pidToKstackBottom (k.nextPId k.currTerm) k.currTerm
    .ok (s.goto x (setShellFlag k pcbProg x.fileName) (.setCurrPcb pcbProg kstackBottom))
  | .setCurrPcb pcbProg kstackBottom => .ok (s.goto x (setCurrPcb k pcbProg) (.incrNextPId kstackBottom))
  | .incrNextPId kstackBottom => .ok (s.goto x (incrNextPId k) (.setActive kstackBottom))
  | .setActive kstackBottom => .ok (s.goto x (setActive k) (.incrTotal kstackBottom))
  | .incrTotal kstackBottom => .ok (s.goto x (incrTotal k) (.setESP0 kstackBottom))
  | .setESP0 kstackBottom => .ok (s.goto x (setESP0 k kstackBottom) (.setTss kstackBottom))
  | .setTss kstackBottom => .ok (s.goto x (setTss k kstackBottom) .clearRetval)
  | .clearRetval => .ok (s.goto x (clearRetval k) .iret)
  | .iret => .ok { s with execs := Function.update s.execs k.currTerm none }

/-- `execute_func` up to the end of its checks. -/
def beginExecute (img : Image) (s : Machine) (command : CPtr) (r : Residue) (onRefused : Machine → Outcome Stop Machine) :
    Outcome Stop Machine :=
  let parsed := getArgsFname command r
  match checkExecute img s.kernel parsed.1 r with
  | .error message => onRefused { s with kernel := s.kernel.print message }
  | .ok d =>
    let x : Exec := { fileName := parsed.1, args := parsed.2, fileEntry := d, point := .mapProgPage }
    .ok { s with execs := Function.update s.execs s.kernel.currTerm (some x) }

/-- An event that is one step of the kernel. -/
def kernelStep (img : Image) (s : Machine) (e : Event) : Outcome Stop Machine :=
  (step img s.kernel e).map (fun k => { s with kernel := k })

/-- `halt_func`. A process without a parent is counted out, and its terminal is left in the loop that starts a shell in its place,
with nothing parsed and no entry found. -/
def haltStep (img : Image) (s : Machine) (status : UInt8) (r : Residue) : Outcome Stop Machine :=
  let k := s.kernel
  match k.currPcbPtr with
  | none => kernelStep img s (.halt status r)
  | some a =>
    if (k.pcbs a).parent = none then
      let x : Exec := { fileName := fun _ => 0, args := [], fileEntry := { byte := fun _ => 0 }, point := .restart }
      .ok {
        kernel := { k with
          totalProgs := k.totalProgs - 1, nextPId := Function.update k.nextPId k.currTerm (k.nextPId k.currTerm - 1) }
        execs := Function.update s.execs k.currTerm (some x) }
    else kernelStep img s (.halt status r)

/-- A turn of the loop of `halt_func`: refused the shell, the loop goes on. -/
def restartStep (img : Image) (s : Machine) (r : Residue) : Outcome Stop Machine :=
  beginExecute img { s with kernel := s.kernel.print "\nRestart the shell.\n" } shellCommand r .ok

/-- One step of the machine. -/
def moveStep (img : Image) (s : Machine) : Move → Outcome Stop Machine
  | .advance =>
    match s.execs s.kernel.currTerm with
    | none => .ok s
    | some x => advance img s x
  | .restart r =>
    match s.execs s.kernel.currTerm with
    | none => .ok s
    | some x => if x.point = .restart then restartStep img s r else .ok s
  | .event e =>
    if e.isCall = true ∧ (s.execs s.kernel.currTerm).isSome then .ok s
    else
      match e with
      | .execute command r => beginExecute img s command r .ok
      | .halt status r => haltStep img s status r
      | e => kernelStep img s e

/-- The machine at boot: no call under way. -/
def Machine.boot (m : CPtr) (p : Addr → PCB) : Machine := { kernel := ThreeTermOS.boot m p, execs := fun _ => none }

end ThreeTermOS
