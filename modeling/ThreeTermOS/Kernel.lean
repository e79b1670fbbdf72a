import ThreeTermOS.FileDesc
import ThreeTermOS.Keyboard

/-!
# schedule.c, paging.c and the process calls of syscalls.c

The state of the kernel and what changes it: `execute_func`, `halt_func`, `schedule`, `switch_terminals`, `vidmap_func`, the
keyboard and the terminal calls. A step that would follow a null `curr_pcb_ptr` stops the machine in the state it has reached.
The stack pointers a switch saves and loads are left out: which process goes on is `curr_pcb_ptr`.
-/

namespace ThreeTermOS

open Bytes Runs

/-- `PD_ENTRY_PROG`. -/
def pdEntryProg : Nat := 32

/-- `VM_VIDEO_IDX`. -/
def vmVideoIdx : Nat := 33

/-- `PAGESIZE4MB_PROG`. -/
def pagesize4MBProg : Nat := 0x87

/-- `STACK_PTR_OFF`. -/
def stackPtrOff : Nat := 4

/-- `REGULAR_FILE_TYPE`. -/
def regularFileType : Nat := 2

/-- `DEFAULT_FREQ`. -/
def defaultFreq : Nat := 512

/-- The globals of the kernel. `pdProg` is `page_directory[PD_ENTRY_PROG]`; the other entries stay as `init_paging` leaves them,
and `page_directory[VM_VIDEO_IDX]` points at `video_table`. `polled` says of each terminal that its `terminal_read` has left
the waiting loop. -/
structure Kernel extends Console where
  currPcbPtr : Option Addr
  pcbs : Addr → PCB
  activeProgs : Term → Option Addr
  totalProgs : Nat
  nextPId : Term → Nat
  haltRetval : Term → Nat
  pdProg : PageEntry
  videoTable : Nat → PageEntry
  tssEsp0 : Nat
  switchLock : Bool
  rtcFreq : Term → Nat
  rtcCounter : Term → Nat
  keys : Keys
  polled : Term → Bool

/-- Why the machine stops: a null `curr_pcb_ptr` is followed, a store finds no page, the restart loop of `halt_func` is refused
its shell. -/
inductive Stop where
  | nullDeref | pageFault | spins
  deriving DecidableEq, Repr

/-- `pid_to_PCB_addr`, on terminal `t`. -/
@[irreducible] def pidToPCBAddr (pId : Nat) (t : Term) : Nat := mb8 - kb8 * ((pId + t.val * maxProgs) + 1)

/-- `pid_to_kstack_bottom`, on terminal `t`. -/
@[irreducible] def pidToKstackBottom (pId : Nat) (t : Term) : Nat := mb8 - kb8 * (pId + t.val * maxProgs) - stackPtrOff

/-- The entry of the page directory for a process of terminal `t`. -/
def progEntry (pId : Nat) (t : Term) : PageEntry :=
  { base := mem4MB * ((pId + t.val * maxProgs) + 2), flags := pagesize4MBProg }

/-- `swap_pages`. -/
def swapPages (k : Kernel) (pIdNew : Nat) : Kernel := { k with pdProg := progEntry pIdNew k.currTerm }

/-- The store of a field of the process control block at an address. -/
def Kernel.modifyPCB (k : Kernel) (a : Addr) (f : PCB → PCB) : Kernel :=
  { k with pcbs := Function.update k.pcbs a (f (k.pcbs a)) }

/-- `terminal_printf` of a message. -/
def Kernel.print (k : Kernel) (s : String) : Kernel := { k with toConsole := printMessage k.toConsole s }

/-! ## Virtual memory -/

/-- The physical address of a virtual one in the program page or behind `video_table`, if it is mapped. -/
def Kernel.translate (k : Kernel) (v : Nat) : Option Nat :=
  if v / mem4MB = pdEntryProg then
    if k.pdProg.flags % 2 = 1 then some (k.pdProg.base + v % mem4MB) else none
  else if v / mem4MB = vmVideoIdx then
    let entry := k.videoTable (v % mem4MB / hex4KB)
    if entry.flags % 2 = 1 then some (entry.base + v % hex4KB) else none
  else none

/-- The stores of the bytes of a list, one after the other from a virtual address on. -/
def storeBytes (k : Kernel) (v : Nat) : List UInt8 → Outcome Stop Kernel
  | [] => .ok k
  | b :: bs =>
    match k.translate v with
    | none => .stop .pageFault k
    | some a => storeBytes { k with mem := set k.mem a b } (v + 1) bs

/-! ## execute_func -/

/-- What the stack held where `execute_func` puts the arrays it does not fill. -/
structure Residue where
  fileName : CPtr
  execCheck : CPtr

/-- The characters that end the first word of a command, but for the terminator. -/
def endsWord (c : UInt8) : Bool := c = 0x20 || c = 0x0A || c = 0x0D

/-- `get_args_fname`: what `file_name` points at, and the bytes stored in `args` before its terminator. The compiler puts `args`
right below `file_name` in the frame of `execute_func` (`args` at 0xb8 and `file_name` at 0x38 below EBP), so the terminator of a text
that fills `args` is stored in the first byte of `file_name`. -/
def getArgsFname (command : CPtr) (r : Residue) : CPtr × List UInt8 :=
  let command := (strcpyBytes command).dropWhile (fun c => c = 0x20)
  let name := (command.takeWhile (fun c => !endsWord c)).take fileNameCharmax
  let command := (command.drop name.length).dropWhile (fun c => c = 0x20)
  let args := (command.takeWhile (fun c => !(c = 0x0A || c = 0x0D))).take lineBufferSize
  (fun i => if i = 0 ∧ args.length = lineBufferSize then 0
    else if i < name.length then name.getD i 0
    else if i = name.length ∧ name.length < fileNameCharmax then 0 else r.fileName i, args)

/-- `exec_check` after its `read_data`. -/
def execCheck (img : Image) (d : Dentry) (r : Residue) : CPtr :=
  fun i => (readData img d.inodeNum 0 4).bytes.getD i (r.execCheck i)

/-- The test of `execute_func` on the first bytes of a file. -/
def notExecutable (b : CPtr) : Bool := decide (b 0 ≠ 0x7F ∧ b 1 ≠ 0x45 ∧ b 2 ≠ 0x4C ∧ b 3 ≠ 0x46)

/-- The checks of `execute_func` on the file: the entry to load, or the message printed before -1 is returned. -/
def checkFile (img : Image) (fileName : CPtr) (r : Residue) : Except String Dentry :=
  match readDentryByName img fileName with
  | none => .error "File Not Found\n"
  | some d =>
    if d.fileType ≠ regularFileType then .error "Not a valid File\n"
    else if notExecutable (execCheck img d r) then .error "Not an executable\n"
    else .ok d

/-- The checks of `execute_func`, in order. -/
def checkExecute (img : Image) (k : Kernel) (fileName : CPtr) (r : Residue) : Except String Dentry :=
  if k.totalProgs ≥ maxProgs then .error "Cannot Execute more programs.\n" else checkFile img fileName r

/-- `fd_A_init`, the arguments, the terminal, the entry point and the counter of open descriptors: what `PCB_init` sets whatever
the process. -/
def PCB.init (p : PCB) (img : Image) (strArgs : List UInt8) (fileEntry : Dentry) (t : Term) : PCB :=
  { p with
    fdA := fdAInit
    args := strArgs
    termNum := t
    progEntry := fun i => (readData img fileEntry.inodeNum 24 4).bytes.getD i (p.progEntry i)
    fdTotalOpen := 1 }

/-- `PCB_init`. -/
def pcbInit (img : Image) (k : Kernel) (pcbPtr : Addr) (strArgs : List UInt8) (fileEntry : Dentry) : Kernel :=
  let n := k.nextPId k.currTerm
  let k :=
    match k.currPcbPtr with
    | some cur =>
      if n ≠ 0 then
        let k := k.modifyPCB pcbPtr (fun p => { p with pId := n, parentPId := n - 1 })
        let k := k.modifyPCB cur (fun p => { p with child := some pcbPtr })
        k.modifyPCB pcbPtr (fun p => { p with parent := some cur, child := none })
      else k.modifyPCB pcbPtr (fun p => { p with pId := 0, parentPId := 0, parent := none, child := none })
    | none => k.modifyPCB pcbPtr (fun p => { p with pId := 0, parentPId := 0, parent := none, child := none })
  k.modifyPCB pcbPtr (fun p => p.init img strArgs fileEntry k.currTerm)

/-- `page_directory[PD_ENTRY_PROG] = ...`, before the load. -/
def mapProgPage (k : Kernel) : Kernel := { k with pdProg := progEntry (k.nextPId k.currTerm) k.currTerm }

/-- `curr_pcb_ptr = pcb_prog`. -/
def setCurrPcb (k : Kernel) (pcbProg : Addr) : Kernel := { k with currPcbPtr := some pcbProg }

/-- `next_p_id[curr_term]++`. -/
def incrNextPId (k : Kernel) : Kernel := { k with nextPId := Function.update k.nextPId k.currTerm (k.nextPId k.currTerm + 1) }

/-- `active_progs[curr_term] = curr_pcb_ptr`. -/
def setActive (k : Kernel) : Kernel := { k with activeProgs := Function.update k.activeProgs k.currTerm k.currPcbPtr }

/-- `total_progs++`. -/
def incrTotal (k : Kernel) : Kernel := { k with totalProgs := k.totalProgs + 1 }

/-- `curr_pcb_ptr->ESP0 = prog_kstack_bottom`. -/
def setESP0 (k : Kernel) (kstackBottom : Nat) : Kernel :=
  match k.currPcbPtr with
  | none => k
  | some a => k.modifyPCB a (fun p => { p with esp0 := kstackBottom })

/-- `tss.esp0 = ...`. -/
def setTss (k : Kernel) (esp0 : Nat) : Kernel := { k with tssEsp0 := esp0 }

/-- `halt_retval[curr_term] = 0`. -/
def clearRetval (k : Kernel) : Kernel := { k with haltRetval := Function.update k.haltRetval k.currTerm 0 }

/-- The value of `shell_flag` for a file name. -/
def shellFlagOf (fileName : CPtr) : Nat :=
  if strncmp fileName (cstr (ascii "shell")) (strlen (cstr (ascii "shell"))) = 0 then 1 else 0

/-- The shell flag of `execute_func`. -/
def setShellFlag (k : Kernel) (pcbProg : Addr) (fileName : CPtr) : Kernel :=
  k.modifyPCB pcbProg (fun p => { p with shellFlag := shellFlagOf fileName })

/-- `execute_func` from the shell flag to the `iret` into the program. -/
def commitProgram (k : Kernel) (pcbProg : Addr) (fileName : CPtr) : Kernel :=
  let k := setShellFlag k pcbProg fileName
  let kstackBottom := pidToKstackBottom (k.nextPId k.currTerm) k.currTerm
  let k := incrTotal (setActive (incrNextPId (setCurrPcb k pcbProg)))
  clearRetval (setTss (setESP0 k kstackBottom) kstackBottom)

/-- `execute_func` from `PCB_init` to the `iret` into the program. -/
def startProgram (img : Image) (k : Kernel) (fileName : CPtr) (args : List UInt8) (d : Dentry) : Kernel :=
  let pcbProg := pidToPCBAddr (k.nextPId k.currTerm) k.currTerm
  commitProgram (pcbInit img k pcbProg args d) pcbProg fileName

/-- How `execute_func` ends: it returns -1, the program runs, or the load faults. -/
inductive ExecOut where
  | refused (k : Kernel)
  | started (k : Kernel)
  | fault (k : Kernel)

/-- Where the machine goes from a call of `execute_func`: on with the program started, or as the caller goes on from -1. -/
def ExecOut.outcome (onRefused : Kernel → Outcome Stop Kernel) : ExecOut → Outcome Stop Kernel
  | .refused k => onRefused k
  | .started k => .ok k
  | .fault k => .stop .pageFault k

/-- The bytes `execute_func` loads, and the virtual address it loads them at. -/
def loadBytes (img : Image) (d : Dentry) : List UInt8 := (readData img d.inodeNum 0 (getFileSize img d)).bytes

def loadAddr : Nat := mb128 + progOff

/-- `execute_func`. -/
def executeFunc (img : Image) (k : Kernel) (command : CPtr) (r : Residue) : ExecOut :=
  let parsed := getArgsFname command r
  match checkExecute img k parsed.1 r with
  | .error message => .refused (k.print message)
  | .ok d =>
    match storeBytes (mapProgPage k) loadAddr (loadBytes img d) with
    | .stop _ k => .fault k
    | .ok k => .started (startProgram img k parsed.1 parsed.2 d)

/-- The command of the shells the kernel starts itself. -/
def shellCommand : CPtr := cstr (ascii "shell")

/-! ## halt_func -/

/-- `get_parent_PCB`, for a process with a parent. -/
def getParentPCB (k : Kernel) (a parent : Addr) : Kernel :=
  let k := swapPages k (k.pcbs a).parentPId
  let k := { k with currPcbPtr := some parent }
  { k with activeProgs := Function.update k.activeProgs k.currTerm k.currPcbPtr }

/-- `rtc_default_rate`. -/
def rtcDefaultRate (k : Kernel) : Kernel :=
  { k with
    rtcFreq := Function.update k.rtcFreq k.currTerm defaultFreq
    rtcCounter := Function.update k.rtcCounter k.currTerm 0 }

/-- `halt_func`. The status is not looked at. A process without a parent starts a shell again in its place; any other goes back
to the `execute_func` of its parent, which returns `halt_retval` and clears it. -/
def haltFunc (img : Image) (k : Kernel) (_status : UInt8) (r : Residue) : Outcome Stop Kernel :=
  let k := { k with totalProgs := k.totalProgs - 1, nextPId := Function.update k.nextPId k.currTerm (k.nextPId k.currTerm - 1) }
  match k.currPcbPtr with
  | none => .stop .nullDeref k
  | some a =>
    match (k.pcbs a).parent with
    | none =>
      -- refused once, the loop is refused for ever
      (executeFunc img (k.print "\nRestart the shell.\n") shellCommand r).outcome (.stop .spins)
    | some parent =>
      let k := rtcDefaultRate (getParentPCB k a parent)
      let k := k.modifyPCB parent (fun p => { p with child := none })
      .ok (clearRetval (setTss k (k.pcbs parent).esp0))

/-! ## schedule.c -/

/-- The end of `do_switch`: the process at the address goes on. -/
def resume (k : Kernel) (a : Addr) : Kernel :=
  let k := { k with toConsole := terminalUpdateCursor k.toConsole }
  swapPages (setTss k (k.pcbs a).esp0) (k.pcbs a).pId

/-- `do_switch`. On a terminal without a program it starts a shell, and what follows waits on the stack left behind; when the
shell is refused, `terminal_update_cursor` is called and the null pointer followed. -/
def doSwitch (img : Image) (k : Kernel) (dest : Term) (r : Residue) : Outcome Stop Kernel :=
  match k.currPcbPtr with
  | none => .stop .nullDeref k
  | some a =>
    let k := { k with activeProgs := Function.update k.activeProgs k.currTerm (some a) }
    let k := { k with currPcbPtr := k.activeProgs dest, currTerm := dest }
    match k.currPcbPtr with
    | some b => .ok (resume k b)
    | none =>
      (executeFunc img { k with switchLock := false } shellCommand r).outcome
        (fun k => .stop .nullDeref { k with toConsole := terminalUpdateCursor k.toConsole })

/-- `switch_vidmem`. -/
def switchVidmem (k : Kernel) (dest : Term) : Kernel :=
  let size := numRows * numCols * 2
  { k with mem := memcpy (memcpy k.mem (videoBuffer k.dispTerm) video size) video (videoBuffer dest) size }

/-- `switch_vidmap`. -/
def switchVidmap (k : Kernel) (dest : Term) : Kernel :=
  let table := Function.update k.videoTable k.dispTerm.val { base := videoBuffer k.dispTerm, flags := 0x7 }
  { k with videoTable := Function.update table dest.val { base := video, flags := 0x7 } }

/-- `switch_terminals`. The lock is taken, and given back at the end or by the shell's launch. -/
def switchTerminals (img : Image) (k : Kernel) (dest : Nat) (r : Residue) : Outcome Stop Kernel :=
  if k.dispTerm.val = dest then .ok k
  else if h : dest < 3 then
    if k.switchLock then .ok k
    else
      let dest : Term := ⟨dest, h⟩
      let k := switchVidmap (switchVidmem { k with switchLock := true } dest) dest
      let k := { k with dispTerm := dest }
      (if k.activeProgs dest = none then doSwitch img k dest r else .ok k).andThen
        (fun k => .ok { k with switchLock := false })
  else .ok k

/-- `schedule`, which `pit_handler` calls with each terminal in turn. -/
def schedule (img : Image) (k : Kernel) (newTerm : Term) (r : Residue) : Outcome Stop Kernel :=
  if k.activeProgs newTerm ≠ none then
    if k.switchLock then .ok k
    else
      (doSwitch img { k with switchLock := true } newTerm r).andThen (fun k => .ok { k with switchLock := false })
  else .ok k

/-! ## The other calls -/

/-- `get_c_keyboard`. -/
def getCKeyboard (img : Image) (k : Kernel) (c : UInt8) (r : Residue) : Outcome Stop Kernel :=
  let k := { k with keys := k.keys.update c }
  let k := { k with toConsole := k.toConsole.key k.keys c }
  if k.keys.fn ≠ 0 ∧ k.keys.alt = true then switchTerminals img k (k.keys.fn - 1) r else .ok k

/-- The address `vidmap_func` hands out on terminal `t`. -/
def vidmapAddr (t : Term) : Nat := mb128 + mem4MB + t.val * hex4KB

/-- The bytes of a little-endian word. -/
def wordBytes (w : Nat) : List UInt8 := [(w % 256).toUInt8, (w / 256 % 256).toUInt8, (w / 65536 % 256).toUInt8,
  (w / 16777216 % 256).toUInt8]

/-- `vidmap_func`: the value returned is 0 exactly when the pointer was stored. -/
def vidmapFunc (k : Kernel) (screenStart : Nat) : Int × Outcome Stop Kernel :=
  if screenStart > mb128 + mem4MB ∨ screenStart < mb128 then (-1, .ok k)
  else
    let entry := k.videoTable k.currTerm.val
    let k := { k with videoTable := Function.update k.videoTable k.currTerm.val { entry with flags := entry.flags ||| 4 } }
    (0, storeBytes k screenStart (wordBytes (vidmapAddr k.currTerm)))

/-! ## The machine -/

/-- What happens next: a call of the running program, a timer interrupt, a key. `lock` stands for a switch interrupted while it
holds `switch_lock`, or going on. -/
inductive Event where
  | execute (command : CPtr) (r : Residue)
  | halt (status : UInt8) (r : Residue)
  | schedule (newTerm : Term) (r : Residue)
  | switchTerminals (dest : Nat) (r : Residue)
  | key (scancode : UInt8) (r : Residue)
  | write (bytes : List UInt8)
  | puts (s : CPtr)
  | printf (format : CPtr) (args : Nat → PrintfArg)
  | readBegin
  | readPoll
  | readCopy (nbytes : Nat)
  | vidmap (screenStart : Nat)
  | lock (held : Bool)

/-- One step of the kernel. -/
def step (img : Image) (k : Kernel) : Event → Outcome Stop Kernel
  | .execute command r => (executeFunc img k command r).outcome .ok
  | .halt status r => haltFunc img k status r
  | .schedule newTerm r => schedule img k newTerm r
  | .switchTerminals dest r => switchTerminals img k dest r
  | .key scancode r => getCKeyboard img k scancode r
  | .write bytes => .ok { k with toConsole := terminalWrite k.toConsole bytes }
  | .puts s => .ok { k with toConsole := terminalPuts k.toConsole (strcpyBytes s) }
  | .printf format args => .ok { k with toConsole := (terminalPrintf k.toConsole format args).1 }
  | .readBegin =>
    .ok { k with toConsole := terminalReadBegin k.toConsole, polled := Function.update k.polled k.currTerm false }
  | .readPoll => .ok { k with polled := Function.update k.polled k.currTerm (k.polled k.currTerm || k.toConsole.readPoll) }
  | .readCopy nbytes =>
    if k.polled k.currTerm then
      .ok { k with
        toConsole := (terminalReadCopy k.toConsole nbytes).2
        polled := Function.update k.polled k.currTerm false }
    else .ok k
  | .vidmap screenStart => (vidmapFunc k screenStart).2
  | .lock held => .ok { k with switchLock := held }

/-- The state `entry` hands to the first `execute_func`: what `terminal_open`, `init_paging` and `init_terminals` leave, over
whatever the memory and the process control blocks held. -/
def boot (m : CPtr) (p : Addr → PCB) : Kernel :=
  { mem := clearCells (clearCells (clearCells (clearCells m video) (videoBuffer 0)) (videoBuffer 1)) (videoBuffer 2)
    inputBuffer := fun _ => 0
    currIdx := fun _ => 0
    termX := fun _ => 0
    termY := fun _ => 0
    readFlag := fun _ => false
    writeFlag := fun _ => false
    enterFlag := fun _ => false
    charFromKB := false
    currTerm := 0
    dispTerm := 0
    cursor := 0
    currPcbPtr := none
    pcbs := p
    activeProgs := fun _ => none
    totalProgs := 0
    nextPId := fun _ => 0
    haltRetval := fun _ => 0
    pdProg := { base := 0, flags := 2 }
    videoTable := fun i => if i < 3 then { base := video, flags := 0x7 } else { base := 0, flags := 0 }
    tssEsp0 := 0x800000
    switchLock := false
    rtcFreq := fun _ => defaultFreq
    rtcCounter := fun _ => 0
    keys := { ctrl := false, lShift := false, rShift := false, caps := false, alt := false, fn := 0 }
    polled := fun _ => false }

end ThreeTermOS
