import ThreeTermOS.Library.X86
import ThreeTermOS.Linkage

/-!
# interrupt_handler.S, syscalls_linkage.S and syscaller.S

The assembly around the functions written in C: the handlers of the three interrupts, `syscall_handler`, the library's system calls
and the instructions with which `push_stack_iret` enters a program. `ThreeTermOS.Linkage` has of `syscall_handler` what another
program can tell. An address counts instructions, and a jump is to the address its label stands for.
-/

namespace ThreeTermOS

open X86

/-! ## x86_desc.S -/

/-- The segment selectors of `x86_desc.h`. -/
def kernelCS : BitVec 16 := 0x0010

def kernelDS : BitVec 16 := 0x0018

def userCS : BitVec 16 := 0x0023

def userDS : BitVec 16 := 0x002B

/-- The entries of `gdt` that the text of `x86_desc.S` fills in: two that are not used, and the segments of the selectors above. -/
def gdtSegments : List (BitVec 64) := [0, 0, 0x00CF9A000000FFFF, 0x00CF92000000FFFF, 0x00CFFA000000FFFF, 0x00CFF2000000FFFF]

/-- The functions the assembly calls. -/
inductive CFunction where
  | rtcIrqHandler | pitHandler | getCKeyboard
  | haltFunc | executeFunc | readFunc | writeFunc | openFunc | closeFunc | getargsFunc | vidmapFunc | setHandlerFunc | sigreturnFunc
  deriving DecidableEq, Repr

/-! ## interrupt_handler.S -/

/-- `intr_jump_table`. -/
def intrJumpTable : List (Option CFunction) := [some .rtcIrqHandler, some .pitHandler, some .getCKeyboard]

/-- `RTC`, `PIT` and `KB`. -/
inductive Intr where
  | rtc | pit | kb
  deriving DecidableEq, Repr

def Intr.number : Intr → Nat
  | .rtc => 0
  | .pit => 1
  | .kb => 2

/-- The text of `interrupt_handler.S`. -/
def interruptHandlers (base : Nat) : List (Insn CFunction) := [
  -- RTC_handler
  .op .pushal,
  .op (.movlImm 0 .eax),
  .jmp (base + 9),
  -- PIT_handler
  .op .pushal,
  .op (.movlImm 1 .eax),
  .jmp (base + 9),
  -- KB_handler
  .op .pushal,
  .op (.movlImm 2 .eax),
  .jmp (base + 9),
  -- INTR_HANDLER
  .callTable intrJumpTable,
  .op .popal,
  .iret]

/-- Where the handler of an interrupt begins. -/
def Intr.offset : Intr → Nat
  | .rtc => 0
  | .pit => 3
  | .kb => 6

/-- The function an interrupt is for. -/
def Intr.fn : Intr → CFunction
  | .rtc => .rtcIrqHandler
  | .pit => .pitHandler
  | .kb => .getCKeyboard

/-! ## syscalls_linkage.S -/

/-- `syscall_jump_table`. -/
def syscallJumpTable : List (Option CFunction) := [none, some .haltFunc, some .executeFunc, some .readFunc, some .writeFunc,
  some .openFunc, some .closeFunc, some .getargsFunc, some .vidmapFunc, some .setHandlerFunc, some .sigreturnFunc]

/-- The text of `syscall_handler`; `temp` is the address of `TEMP`. -/
def syscallHandler (base temp : Nat) : List (Insn CFunction) := [
  .op .pushfl,
  .op .pushal,
  .op (.cmplImm maxSyscallNum.toBitVec .eax),
  .jg (base + 6),
  .op (.cmplImm minSyscallNum.toBitVec .eax),
  .jnl (base + 8),
  -- invalid
  .op (.movlImmMem (-1) temp),
  .jmp (base + 19),
  -- valid
  .op (.cmplImm sysHalt.toBitVec .eax),
  .jne (base + 11),
  .op (.andlImm ebxMask.toBitVec .ebx),
  -- not_halt
  .op (.pushl .edx),
  .op (.pushl .ecx),
  .op (.pushl .ebx),
  .op (.movwImm kernelDS .esi),
  .op (.movwToSeg .esi .ds),
  .callTable syscallJumpTable,
  .op (.movlToMem .eax temp),
  .op (.addlEsp 12),
  -- end
  .op .popal,
  .op .popfl,
  .op (.movlFromMem temp .eax),
  .iret]

/-! ## syscaller.S -/

/-- `DO_CALL`. -/
def doCall (number : Word) : List (Insn CFunction) := [
  .op (.pushl .ebx),
  .op (.movlImm number .eax),
  .op (.movlStack 8 .ebx),
  .op (.movlStack 12 .ecx),
  .op (.movlStack 16 .edx),
  .int 0x80,
  .op (.popl .ebx),
  .ret]

/-! ## push_stack_iret -/

/-- The last instructions of `push_stack_iret`, with the registers that hold its operands: the data segment, the code segment, the
entry point and the bottom of the stack. -/
def pushStackIret (ds cs entry bottom : Gpr) : List (Insn CFunction) := [
  .op .cli,
  .op (.xorl .eax .eax),
  .op (.movw ds .eax),
  .op (.movwToSeg .eax .ds),
  .op (.movwToSeg .eax .es),
  .op (.movwToSeg .eax .fs),
  .op (.movwToSeg .eax .gs),
  .op (.pushl .eax),
  .op (.movl bottom .eax),
  .op (.pushl .eax),
  .op .pushfl,
  .op (.popl .eax),
  .op (.orlImm 0x200 .eax),
  .op (.pushl .eax),
  .op (.xorl .eax .eax),
  .op (.movw cs .eax),
  .op (.pushl .eax),
  .op (.movl entry .eax),
  .op (.pushl .eax),
  .iret]

end ThreeTermOS
