import ThreeTermOS.Kernel
import ThreeTermOS.Library.Mmu

/-!
# paging.c

The page directory and the page tables as the arrays of double words that the processor walks: what `init_paging` leaves in them, and the
stores of `swap_pages`, `execute_func`, `switch_vidmap` and `vidmap_func`. `Kernel` keeps of them the two parts that these change. Every
one of these functions loads `cr3` again before it returns, so no program runs on an earlier translation.
-/

namespace ThreeTermOS

open Bytes Runs

/-- `SIZE1KB`. -/
def size1KB : Nat := 1024

/-- `PAGESIZE4MB`. -/
def pagesize4MB : Nat := 0x83

/-- Where the three arrays are: each on a page of its own, in the memory of the kernel. -/
structure PagingLayout where
  pageDirectory : Nat
  pageTable : Nat
  videoTable : Nat
  aligned : Mmu.small ∣ pageDirectory ∧ Mmu.small ∣ pageTable ∧ Mmu.small ∣ videoTable
  apart : pageDirectory ≠ pageTable ∧ pageDirectory ≠ videoTable ∧ pageTable ≠ videoTable
  below : pageDirectory < mb8 ∧ pageTable < mb8 ∧ videoTable < mb8

/-- The arrays of `paging.h`, `video_buffer` and the control registers. -/
structure Paging where
  pageDirectory : Nat → BitVec 32
  pageTable : Nat → BitVec 32
  videoTable : Nat → BitVec 32
  videoBuffer : Nat → BitVec 32
  cr0 : BitVec 32
  cr3 : BitVec 32
  cr4 : BitVec 32

/-- A turn of the first loop of `init_paging`. -/
def initEntry (p : Paging) (i : Nat) : Paging :=
  { p with
    pageDirectory := Function.update p.pageDirectory i 0x2
    pageTable := Function.update p.pageTable i (BitVec.ofNat 32 (i * hex4KB ||| 3))
    videoTable := Function.update p.videoTable i 0 }

/-- A turn of the second. -/
def initVideo (p : Paging) (i : Nat) : Paging :=
  let entry := p.pageTable (vidMemidx + i) ||| 0x1
  { p with
    pageTable := Function.update p.pageTable (vidMemidx + i) entry
    videoBuffer := Function.update p.videoBuffer (i - 1) (entry &&& 0xFFFFF000)
    videoTable := Function.update p.videoTable (i - 1) (BitVec.ofNat 32 (video ||| 0x7)) }

/-- `enable_paging`. -/
def enablePaging (p : Paging) : Paging := { p with cr4 := p.cr4 ||| 0x00000010, cr0 := p.cr0 ||| 0x80000000 }

/-- `init_paging`. -/
def initPaging (l : PagingLayout) (p : Paging) : Paging :=
  let p := (List.range size1KB).foldl initEntry p
  let p := { p with pageTable := Function.update p.pageTable vidMemidx (p.pageTable vidMemidx ||| 0x1) }
  let p := [1, 2, 3].foldl initVideo p
  let p := { p with pageDirectory := Function.update p.pageDirectory 0 (BitVec.ofNat 32 (l.pageTable ||| 3)) }
  let p := { p with pageDirectory := Function.update p.pageDirectory 1 (BitVec.ofNat 32 (mem4MB ||| pagesize4MB)) }
  let p := { p with pageDirectory := Function.update p.pageDirectory vmVideoIdx (BitVec.ofNat 32 (l.videoTable ||| 7)) }
  enablePaging { p with cr3 := BitVec.ofNat 32 l.pageDirectory }

/-- The store of `swap_pages` and of `execute_func`, for process `pId` of terminal `t`. -/
def Paging.mapProgram (p : Paging) (pId : Nat) (t : Term) : Paging :=
  { p with
    pageDirectory := Function.update p.pageDirectory pdEntryProg
      (BitVec.ofNat 32 (mem4MB * ((pId + t.val * maxProgs) + 2) ||| pagesize4MBProg)) }

/-- The stores of `switch_vidmap`, from terminal `disp` to terminal `dest`. -/
def Paging.switchVidmap (p : Paging) (disp dest : Term) : Paging :=
  let p := { p with videoTable := Function.update p.videoTable disp.val (p.videoBuffer disp.val ||| 0x7) }
  { p with videoTable := Function.update p.videoTable dest.val (BitVec.ofNat 32 (video ||| 0x7)) }

/-- The store of `vidmap_func` in `video_table`. -/
def Paging.openVideo (p : Paging) (t : Term) : Paging :=
  { p with videoTable := Function.update p.videoTable t.val (p.videoTable t.val ||| 4) }

/-- What the processor walks: the entries are at the addresses of the arrays. -/
def Paging.mmu (l : PagingLayout) (p : Paging) : Mmu where
  cr0 := p.cr0
  cr3 := p.cr3
  cr4 := p.cr4
  read a :=
    let i := a % Mmu.small / 4
    if a / Mmu.small = l.pageDirectory / Mmu.small then p.pageDirectory i
    else if a / Mmu.small = l.pageTable / Mmu.small then p.pageTable i
    else if a / Mmu.small = l.videoTable / Mmu.small then p.videoTable i
    else 0

/-- An entry as it is stored. -/
def PageEntry.word (e : PageEntry) : BitVec 32 := Mmu.pack e.base e.flags

/-- The arrays in a state of the kernel that has booted from the registers and arrays `p`. -/
def Kernel.paging (l : PagingLayout) (p : Paging) (k : Kernel) : Paging :=
  { initPaging l p with
    pageDirectory := Function.update (initPaging l p).pageDirectory pdEntryProg k.pdProg.word
    videoTable := fun i => (k.videoTable i).word }

/-! ## Programs -/

end ThreeTermOS
