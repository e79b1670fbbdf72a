import ThreeTermOS.Preemption

/-!
# syscalls_linkage.S

`syscall_handler`, instruction by instruction as far as another program can tell, and the way back from a process that ends to the
`execute_func` that started it. The gate of system calls leaves interrupts enabled, so a tick may come between any two steps. A
terminal has one process that is not waiting for another to end; where that one has got to is the terminal's phase.
-/

namespace ThreeTermOS

open Bytes Runs

/-- `MAX_SYSCALL_NUM`. -/
def maxSyscallNum : Int32 := 10

/-- `MIN_SYSCALL_NUM`. -/
def minSyscallNum : Int32 := 1

/-- `SYS_HALT`. -/
def sysHalt : Int32 := 1

/-- The entry of `execute_func` in `syscall_jump_table`. -/
def sysExecute : Int32 := 2

/-- `EBX_MASK`. -/
def ebxMask : Int32 := 0xFF

/-- `EXCEPTION_RET`. -/
def exceptionRet : Nat := 256

/-- How a process ends: by `halt`, or through an exception. -/
inductive Ending where
  | halted (status : UInt8)
  | faulted
  deriving DecidableEq, Repr

/-- A process that has ended: the call of `execute_func` its stack pointers lead back to, the call that started it, and its end. -/
structure Ended where
  call : Nat
  startedBy : Nat
  ending : Ending
  deriving DecidableEq, Repr

/-- Where a terminal's process has got to: in its program, in an `execute_func` the kernel calls itself, or at a step of
`syscall_handler`, of `squash_user_prog`, or of `execute_func` after its child. `own` is what the handler function returned. -/
inductive SysPhase where
  | user
  | inKernel
  | entered (eax ebx : Int32)
  | calling (eax ebx : Int32)
  | store (own : Int32)
  | popping (own : Int32)
  | reload (own : Int32)
  | leaving (own eax : Int32)
  | faulting
  | returnHere (e : Ended)
  | clearing (e : Ended) (oldRetval : Nat)
  deriving DecidableEq, Repr

/-- A system call that is back in its program: what its function returned and what `EAX` holds. -/
structure Result where
  term : Term
  own : Int32
  eax : Int32
  deriving DecidableEq, Repr

/-- A call of `execute_func` that returned after a child: the process that ended, the value, and the process that goes on. -/
structure Return where
  ended : Ended
  value : Nat
  process : Option Addr
  deriving DecidableEq, Repr

/-- The machine with `TEMP`, the phases and, for each process control block, the call of `execute_func` that its `ESP` and `EBP`
lead back to. The rest is no part of the kernel: the number of each terminal's last call of `execute_func`, the process that made
each call, the call that started each process, and what system calls and `execute_func` have returned so far. -/
structure SysMachine where
  machine : Machine
  temp : Int32
  phase : Term → SysPhase
  frame : Addr → Nat
  calls : Nat
  call : Term → Nat
  caller : Nat → Option Addr
  startedBy : Term → Nat → Nat
  results : List Result
  returns : List Return

/-- The running terminal's process goes on to a phase. -/
def SysMachine.goto (c : SysMachine) (p : SysPhase) : SysMachine :=
  { c with phase := Function.update c.phase c.machine.kernel.currTerm p }

/-- The next instruction of `syscall_handler`, or of `execute_func` after its child. -/
def handlerStep (c : SysMachine) : SysMachine :=
  let t := c.machine.kernel.currTerm
  match c.phase t with
  | .entered eax ebx =>
    if maxSyscallNum < eax ∨ eax < minSyscallNum then c.goto (.store (-1))
    else c.goto (.calling eax (if eax = sysHalt then ebx &&& ebxMask else ebx))
  | .store own => { c.goto (.popping own) with temp := own }
  | .popping own => c.goto (.reload own)
  | .reload own => c.goto (.leaving own c.temp)
  | .leaving own eax => { c.goto .user with results := { term := t, own := own, eax := eax } :: c.results }
  | .returnHere e => c.goto (.clearing e (c.machine.kernel.haltRetval t))
  | .clearing e oldRetval =>
    { c.goto (.store (Int32.ofNat oldRetval)) with
      machine := { c.machine with kernel := clearRetval c.machine.kernel }
      returns := { ended := e, value := oldRetval, process := c.machine.kernel.currPcbPtr } :: c.returns }
  | _ => c

/-- `execute_func` up to the end of its checks: a call that passes them gets the next number, any other returns -1. The call in the
loop of `halt_func` has its number from the halt on. -/
def SysMachine.begun (c : SysMachine) (s : Machine) : SysMachine :=
  let t := c.machine.kernel.currTerm
  if (s.execs t).isSome then
    { c with
      machine := s
      calls := c.calls + 1
      call := Function.update c.call t c.calls
      caller := Function.update c.caller c.calls c.machine.kernel.currPcbPtr }
  else
    match c.phase t with
    | .calling _ _ => { c.goto (.store (-1)) with machine := s }
    | _ => { c with machine := s }

/-- A step of `execute_func`. The last one, `push_stack_iret`, saves the stack pointers in the new process control block and enters
the program. -/
def SysMachine.advanced (c : SysMachine) (s : Machine) : SysMachine :=
  let t := c.machine.kernel.currTerm
  match c.machine.execs t, c.machine.kernel.currPcbPtr with
  | some x, some a =>
    if x.point = .iret then
      { c.goto .user with
        machine := s
        frame := Function.update c.frame a (c.call t)
        startedBy := Function.update c.startedBy t (Function.update (c.startedBy t) (c.machine.kernel.nextPId t - 1) (c.call t)) }
    else { c with machine := s }
  | _, _ => { c with machine := s }

/-- `halt_func` of a process with a parent, up to its jump to `RETURN_HERE`. -/
def haltToParent (k : Kernel) (a parent : Addr) : Kernel :=
  let k := { k with totalProgs := k.totalProgs - 1, nextPId := Function.update k.nextPId k.currTerm (k.nextPId k.currTerm - 1) }
  let k := rtcDefaultRate (getParentPCB k a parent)
  let k := k.modifyPCB parent (fun p => { p with child := none })
  setTss k (k.pcbs parent).esp0

/-- `halt_func`. The status is not looked at. -/
def endProcess (img : Image) (c : SysMachine) (ending : Ending) (r : Residue) : Outcome Stop SysMachine :=
  let k := c.machine.kernel
  let t := k.currTerm
  match k.currPcbPtr with
  | none => .stop .nullDeref c
  | some a =>
    match (k.pcbs a).parent with
    | none => (moveStep img c.machine (.event (.halt 0 r))).map (c.goto .inKernel).begun
    | some parent =>
      let e : Ended := { call := c.frame a, startedBy := c.startedBy t (k.nextPId t - 1), ending := ending }
      .ok { c.goto (.returnHere e) with machine := { c.machine with kernel := haltToParent k a parent } }

/-- What happens next: the running program's system call, a step of the handler, the return of a function other than `halt_func`
and `execute_func`, these two, an exception, a step of `execute_func`, a turn of the loop of `halt_func`, any other event. -/
inductive SysEvent where
  | int80 (eax ebx : Int32)
  | handler
  | ret (v : Int32)
  | execute (command : CPtr) (r : Residue)
  | halt (r : Residue)
  | fault
  | haltFaulted (r : Residue)
  | advance
  | restart (r : Residue)
  | event (e : Event)

/-- The process is in its program, or in a function other than `halt_func` and `execute_func`. -/
def SysPhase.mayFault : SysPhase → Bool
  | .user => true
  | .calling eax _ => decide (sysExecute < eax)
  | _ => false

/-- The function that `execute_func` is, or one that calls it. -/
def SysPhase.mayExecute : SysPhase → Bool
  | .inKernel => true
  | .calling eax _ => decide (eax = sysExecute)
  | _ => false

/-- One step. A step that the running terminal's phase does not allow is none. -/
def sysStep (img : Image) (c : SysMachine) : SysEvent → Outcome Stop SysMachine
  | .int80 eax ebx =>
    if c.phase c.machine.kernel.currTerm = .user ∧ c.machine.kernel.currPcbPtr.isSome then .ok (c.goto (.entered eax ebx))
    else .ok c
  | .handler => .ok (handlerStep c)
  | .ret v =>
    match c.phase c.machine.kernel.currTerm with
    | .calling eax _ => if sysExecute < eax then .ok (c.goto (.store v)) else .ok c
    | _ => .ok c
  | .execute command r =>
    if (c.phase c.machine.kernel.currTerm).mayExecute = true ∧ c.machine.execs c.machine.kernel.currTerm = none then
      (moveStep img c.machine (.event (.execute command r))).map c.begun
    else .ok c
  | .halt r =>
    match c.phase c.machine.kernel.currTerm with
    | .calling eax ebx => if eax = sysHalt then endProcess img c (.halted ebx.toUInt32.toUInt8) r else .ok c
    | _ => .ok c
  | .fault =>
    if (c.phase c.machine.kernel.currTerm).mayFault = true ∧ c.machine.kernel.currPcbPtr.isSome then
      let k := c.machine.kernel
      .ok { c.goto .faulting with
        machine := { c.machine with kernel := { k with haltRetval := Function.update k.haltRetval k.currTerm exceptionRet } } }
    else .ok c
  | .haltFaulted r =>
    match c.phase c.machine.kernel.currTerm with
    | .faulting => endProcess img c .faulted r
    | _ => .ok c
  | .advance => (moveStep img c.machine .advance).map c.advanced
  | .restart r => (moveStep img c.machine (.restart r)).map (fun s => { c with machine := s })
  | .event e =>
    match e with
    | .execute _ _ => .ok c
    | .halt _ _ => .ok c
    | e => (moveStep img c.machine (.event e)).map (fun s => { c with machine := s })

/-- The machine at boot, where `entry` is about to call `execute_func`. -/
def SysMachine.boot (m : CPtr) (p : Addr → PCB) : SysMachine :=
  { machine := Machine.boot m p
    temp := 0
    phase := fun t => if t = 0 then .inKernel else .user
    frame := fun _ => 0
    calls := 0
    call := fun _ => 0
    caller := fun _ => none
    startedBy := fun _ _ => 0
    results := []
    returns := [] }

end ThreeTermOS
