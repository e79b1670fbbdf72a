import ThreeTermOS.Lib

/-!
# file_sys.c

The read-only file system. The image is the memory from `bootaddr` on: the boot block with the counts and the directory entries,
the inodes, the data blocks. Every field is read from the bytes where the source reads it, so a name without a terminator runs
on into the words after it, as in memory. Addresses are offsets from `bootaddr` and do not wrap.
-/

namespace ThreeTermOS

open Bytes

/-- The file system image: the byte at each offset from `bootaddr`. -/
structure Image where
  byte : CPtr

/-- `fs_stats`, which `init_fs` copies from the start of the image: the numbers of directory entries, inodes and data blocks. -/
def Image.fsStats (img : Image) (i : Nat) : Nat := le32 img.byte (4 * i)

/-- `dentry_t`: the bytes of the structure, the name first, the type at 32 and the inode number at 36. -/
structure Dentry where
  byte : CPtr

/-- The `filename` field, as the pointer the string functions get. -/
def Dentry.filename (d : Dentry) : CPtr := d.byte

def Dentry.fileType (d : Dentry) : Nat := le32 d.byte 32

def Dentry.inodeNum (d : Dentry) : Nat := le32 d.byte 36

/-- The copy `*dentry = ...` makes: the 64 bytes of the structure. -/
def Dentry.copy (d : Dentry) : Dentry := { byte := fun j => if j < 64 then d.byte j else 0 }

/-- `calculate_dentries_start`: `STAT_SIZE` bytes into the image. -/
def calculateDentriesStart : Nat := 64

/-- `calculate_inode_start`. -/
def calculateInodeStart : Nat := bytesPerBlock

/-- `dentries_array[i]`, in place. -/
def Image.dentry (img : Image) (i : Nat) : Dentry := { byte := fun j => img.byte (calculateDentriesStart + 64 * i + j) }

/-- `inodes_start[n].val[j]`. -/
def Image.val (img : Image) (n j : Nat) : Nat := le32 img.byte (calculateInodeStart + bytesPerBlock * n + 4 * j)

/-- `data_start`. -/
def Image.dataStart (img : Image) : Nat := img.fsStats 1 * bytesPerBlock + bytesPerBlock

/-- The test `read_dentry_by_name` makes on one entry. -/
def Image.nameMatches (img : Image) (fname : CPtr) (i : Nat) : Bool :=
  let len := strlen fname
  let name := (img.dentry i).filename
  if len > strlen name then
    decide (strlen name = len) && decide (strncmp name fname len = 0)
  else
    decide (strncmp name fname (strlen name) = 0)

/-- The loop of `read_dentry_by_name`, with the entries left and the index reached. -/
def Image.findDentry (img : Image) (fname : CPtr) : Nat → Nat → Option Nat
  | 0, _ => none
  | n + 1, i => if img.nameMatches fname i then some i else img.findDentry fname n (i + 1)

/-- `read_dentry_by_name`: the entry it copies, or none where it returns -1. -/
def readDentryByName (img : Image) (fname : CPtr) : Option Dentry :=
  (img.findDentry fname (img.fsStats 0) 0).map (fun i => (img.dentry i).copy)

/-- `read_dentry_by_index`: the entry it copies, or none where it returns -1. -/
def readDentryByIndex (img : Image) (index : Nat) : Option Dentry :=
  if index > img.fsStats 0 then none else some (img.dentry index).copy

/-- What a read yields: the value returned and the bytes stored in the buffer, from its start on. -/
structure ReadOut where
  ret : Int
  bytes : List UInt8
  deriving DecidableEq, Repr

/-- The loop of `read_data`. Each turn copies at least one byte, so `length` turns are enough. -/
def Image.readDataLoop (img : Image) (inodeNum length : Nat) : Nat → Nat → Nat → Nat → Nat → ReadOut
  | 0, _, _, _, _ => { ret := length, bytes := [] }
  | fuel + 1, count, dataIndex, dataPtr, dataToCopy =>
    if count < length then
      let bytes := slice img.byte dataPtr dataToCopy
      let count' := count + dataToCopy
      -- the number of the next block is checked even where no byte of that block is wanted
      if img.val inodeNum dataIndex > img.fsStats 2 then { ret := -1, bytes := bytes }
      else
        let rest := img.readDataLoop inodeNum length fuel count' (dataIndex + 1)
          (img.dataStart + img.val inodeNum dataIndex * bytesPerBlock)
          (if length - count' > bytesPerBlock then bytesPerBlock else length - count')
        { ret := rest.ret, bytes := bytes ++ rest.bytes }
    else { ret := length, bytes := [] }

/-- `read_data`. -/
def readData (img : Image) (inodeNum offset length : Nat) : ReadOut :=
  if inodeNum ≥ img.fsStats 1 then { ret := -1, bytes := [] }
  else
    let fileSize := img.val inodeNum 0
    if offset ≥ fileSize then { ret := 0, bytes := [] }
    else
      let length := if (length + offset) % 2 ^ 32 > fileSize then fileSize - offset else length
      let dataIndex := offset / bytesPerBlock + 1
      if img.val inodeNum dataIndex > img.fsStats 2 then { ret := -1, bytes := [] }
      else
        let dataPtr := img.dataStart + img.val inodeNum dataIndex * bytesPerBlock + offset % bytesPerBlock
        let dataToCopy :=
          if length + offset % bytesPerBlock > bytesPerBlock then bytesPerBlock - offset % bytesPerBlock else length
        img.readDataLoop inodeNum length length 0 (dataIndex + 1) dataPtr dataToCopy

/-- What `read_data` looks at: a slot of the inode, or a range of bytes that it copies. -/
inductive Access where
  | slot (index : Nat)
  | copy (dataPtr dataToCopy : Nat)
  deriving DecidableEq, Repr

/-- The loop of `read_data`, as far as what it looks at. -/
def Image.readDataLoopTrace (img : Image) (inodeNum length : Nat) : Nat → Nat → Nat → Nat → Nat → List Access
  | 0, _, _, _, _ => []
  | fuel + 1, count, dataIndex, dataPtr, dataToCopy =>
    if count < length then
      let count' := count + dataToCopy
      .copy dataPtr dataToCopy :: .slot dataIndex ::
        if img.val inodeNum dataIndex > img.fsStats 2 then []
        else
          img.readDataLoopTrace inodeNum length fuel count' (dataIndex + 1)
            (img.dataStart + img.val inodeNum dataIndex * bytesPerBlock)
            (if length - count' > bytesPerBlock then bytesPerBlock else length - count')
    else []

/-- What `read_data` looks at, in order: the size, the slot of the first block, and the loop. -/
def readDataTrace (img : Image) (inodeNum offset length : Nat) : List Access :=
  if inodeNum ≥ img.fsStats 1 then []
  else
    let fileSize := img.val inodeNum 0
    .slot 0 ::
      if offset ≥ fileSize then []
      else
        let length := if (length + offset) % 2 ^ 32 > fileSize then fileSize - offset else length
        let dataIndex := offset / bytesPerBlock + 1
        .slot dataIndex ::
          if img.val inodeNum dataIndex > img.fsStats 2 then []
          else
            let dataPtr := img.dataStart + img.val inodeNum dataIndex * bytesPerBlock + offset % bytesPerBlock
            let dataToCopy :=
              if length + offset % bytesPerBlock > bytesPerBlock then bytesPerBlock - offset % bytesPerBlock else length
            img.readDataLoopTrace inodeNum length length 0 (dataIndex + 1) dataPtr dataToCopy

/-- `get_file_size`. -/
def getFileSize (img : Image) (d : Dentry) : Nat := img.val d.inodeNum 0

/-- `file_open`. -/
def fileOpen : Int := 0

/-- `file_close`. -/
def fileClose : Int := 0

/-- `file_write`: the file system is read only. -/
def fileWrite : Int := -1

end ThreeTermOS
