import ZohoOs.Fs.Drive
import ZohoOs.Lib.CopyRuns

/-!
# Reading ext2 files

`ext2_read` of `ext2.c`: the inode is read from the table of its group, the range is clamped to the file
in 32-bit arithmetic, and copied block by block.

## Main definitions

* `Ext2`, `readBlock`, `readInode`, `ext2Read`
* `Ext2.inode`, `Ext2Inode.byte`: the inodes and the files on the drive
* `ReadsFile`: what a read is to return and to store
* `WrapsIntoFile`: the range that is not clamped

## Main results

* `readBlock_apply`, `readInode_eq`: blocks and inodes are read from where they stand
* `ext2ReadLoop_reads`: the loop copies the bytes of the file
* `ext2ReadLoop_stops`: where it stops in any case
* `ext2Read_reads_iff`: which reads are exact
-/

namespace ZohoOs

open CopyRuns

/-! ## The driver -/

/-- What the driver works on: the drive, whose commands may fail, and what it keeps of the superblock. -/
structure Ext2 where
  ready : BitVec 32 → Bool
  disk : Disk
  blockSize : BitVec 32
  inodesPerGroup : BitVec 32

/-- What `ext2_read` uses of `ext2_inode_t`. -/
@[ext] structure Ext2Inode where
  size : BitVec 32
  block : Fin 15 → BitVec 32

/-- An `ext2_inode_t` in memory. -/
def ext2InodeAt (mem : Buffer) (pos : Nat) : Ext2Inode where
  size := le32 mem (pos + 4)
  block i := le32 mem (pos + 40 + 4 * i)

/-- `ata_read_sector` into a buffer, at a position. -/
def readSectorAt (fs : Ext2) (lba : BitVec 32) (pos : Nat) (buffer : Buffer) : Buffer :=
  let sector := ataReadSector (fs.ready lba) fs.disk lba fun j => buffer (pos + j)
  CopyRun.apply buffer ⟨pos, 512, fun j => sector (Fin.ofNat 512 j)⟩

/-- `read_block`. -/
def readBlock (fs : Ext2) (block : BitVec 32) (buffer : Buffer) : Buffer :=
  let sectorsPerBlock := fs.blockSize / 512#32
  (List.range sectorsPerBlock.toNat).foldl
    (fun buffer i =>
      let i := BitVec.ofNat 32 i
      readSectorAt fs (block * sectorsPerBlock + i) (i * 512#32).toNat buffer)
    buffer

/-- `read_inode`. The buffers are what `kmalloc` returned. -/
def readInode (fs : Ext2) (inodeNum : BitVec 32) (bgdtBuf blockBuf : Buffer) : Ext2Inode :=
  let group := (inodeNum - 1#32) / fs.inodesPerGroup
  let index := (inodeNum - 1#32) % fs.inodesPerGroup
  let bgdtBlock := if fs.blockSize = 1024#32 then 2#32 else 1#32
  let bgdtBuf := readBlock fs bgdtBlock bgdtBuf
  -- `inode_table` of the descriptor, of 32 bytes
  let inodeTableBlock := le32 bgdtBuf (32 * group.toNat + 8)
  let offset := index * 128#32
  let block := inodeTableBlock + offset / fs.blockSize
  let blockOffset := offset % fs.blockSize
  let blockBuf := readBlock fs block blockBuf
  ext2InodeAt blockBuf blockOffset.toNat

/-- The loop of `ext2_read`, with a bound on its rounds; `none` where it is reached. -/
def ext2ReadLoop (fs : Ext2) (inode : Ext2Inode) (offset size : BitVec 32) :
    Nat → BitVec 32 → Buffer → Buffer → Option (BitVec 32 × Buffer)
  | 0, _, _, _ => none
  | fuel + 1, bytesRead, blockBuf, buffer =>
    if bytesRead < size then
      let blockIdx := (offset + bytesRead) / fs.blockSize
      let blockOff := (offset + bytesRead) % fs.blockSize
      let toRead := fs.blockSize - blockOff
      let toRead := if toRead > size - bytesRead then size - bytesRead else toRead
      if h : blockIdx.toNat < 12 then
        let physicalBlock := inode.block ⟨blockIdx.toNat, by omega⟩
        if physicalBlock = 0#32 then
          let buffer := CopyRun.apply buffer ⟨bytesRead.toNat, toRead.toNat, fun _ => 0#8⟩
          ext2ReadLoop fs inode offset size fuel (bytesRead + toRead) blockBuf buffer
        else
          let blockBuf := readBlock fs physicalBlock blockBuf
          let buffer := CopyRun.apply buffer
            ⟨bytesRead.toNat, toRead.toNat, fun j => blockBuf (blockOff.toNat + j)⟩
          ext2ReadLoop fs inode offset size fuel (bytesRead + toRead) blockBuf buffer
      -- the indirect blocks are not supported
      else some (bytesRead, buffer)
    else some (bytesRead, buffer)

/-- `ext2_read`, after it has read the inode. -/
def ext2ReadFrom (fs : Ext2) (inode : Ext2Inode) (fuel : Nat) (blockBuf : Buffer)
    (offset size : BitVec 32) (buffer : Buffer) : Option (BitVec 32 × Buffer) :=
  if offset ≥ inode.size then some (0#32, buffer)
  else
    let size := if offset + size > inode.size then inode.size - offset else size
    ext2ReadLoop fs inode offset size fuel 0#32 blockBuf buffer

/-- `ext2_read`: what it returns, and the buffer after it. The buffers `read_inode` and the loop work
with are what `kmalloc` returned. -/
def ext2Read (fs : Ext2) (node : BitVec 32) (fuel : Nat) (bgdtBuf inodeBuf blockBuf : Buffer)
    (offset size : BitVec 32) (buffer : Buffer) : Option (BitVec 32 × Buffer) :=
  ext2ReadFrom fs (readInode fs node bgdtBuf inodeBuf) fuel blockBuf offset size buffer

/-! ## Files -/

/-- The inode of a file with direct blocks only, in blocks of `1024 << k` bytes, whose blocks lie on the
drive. The driver passes on 28 bits of a sector's number. -/
structure Ext2Inode.Direct (inode : Ext2Inode) (blockSize : BitVec 32) : Prop where
  shift : ∃ k, blockSize.toNat = 1024 * 2 ^ k
  size : inode.size.toNat ≤ 12 * blockSize.toNat
  onDrive : ∀ i, (inode.block i).toNat * blockSize.toNat + blockSize.toNat ≤ 2 ^ 28 * 512

/-- A byte of the file: that of its block, and 0 in a hole. -/
def Ext2Inode.byte (inode : Ext2Inode) (fs : Ext2) (pos : Nat) : Byte :=
  let block := inode.block (Fin.ofNat 15 (pos / fs.blockSize.toNat))
  if block = 0#32 then 0#8
  else fs.disk (block.toNat * fs.blockSize.toNat + pos % fs.blockSize.toNat)

/-- The number of bytes that are to be read. -/
def Ext2Inode.count (inode : Ext2Inode) (offset size : BitVec 32) : Nat :=
  min size.toNat (inode.size.toNat - offset.toNat)

/-- **An exact read**: it returns the number of bytes that are to be read, stores them, and changes no
other byte of the buffer. -/
structure ReadsFile (fs : Ext2) (inode : Ext2Inode) (offset size : BitVec 32) (buffer : Buffer)
    (out : BitVec 32 × Buffer) : Prop where
  returns : out.1.toNat = inode.count offset size
  stores : ∀ p, out.2 p = if p < inode.count offset size then inode.byte fs (offset.toNat + p)
    else buffer p

/-- The end of the range wraps around to a place in the file, and the file ends before its last direct
block does. -/
def WrapsIntoFile (fs : Ext2) (inode : Ext2Inode) (offset size : BitVec 32) : Prop :=
  offset < inode.size ∧ 2 ^ 32 ≤ offset.toNat + size.toNat ∧ offset + size ≤ inode.size ∧
    inode.size.toNat ≠ 12 * fs.blockSize.toNat

/-! ## Blocks -/

section Block

variable {fs : Ext2} {inode : Ext2Inode} {blockSize : BitVec 32}

theorem Ext2Inode.Direct.dvd (h : inode.Direct blockSize) : 512 ∣ blockSize.toNat := by
  obtain ⟨k, hk⟩ := h.shift
  exact ⟨2 * 2 ^ k, by omega⟩

theorem Ext2Inode.Direct.pos (h : inode.Direct blockSize) : 0 < blockSize.toNat := by
  obtain ⟨k, hk⟩ := h.shift
  have hpow := Nat.two_pow_pos k
  omega

/-- **`read_block`** fills the buffer with the bytes of the block. -/
theorem readBlock_apply (hready : ∀ lba, fs.ready lba = true) (hdvd : 512 ∣ fs.blockSize.toNat)
    {block : BitVec 32}
    (hdrive : block.toNat * fs.blockSize.toNat + fs.blockSize.toNat ≤ 2 ^ 28 * 512)
    (buffer : Buffer) (p : Nat) : readBlock fs block buffer p =
      if p < fs.blockSize.toNat then fs.disk (block.toNat * fs.blockSize.toNat + p) else buffer p := by
  obtain ⟨s, hs⟩ := hdvd
  have hlt := fs.blockSize.isLt
  have hsectors : (fs.blockSize / 512#32).toNat = s := by
    rw [BitVec.toNat_udiv, hs]
    exact Nat.mul_div_cancel_left s (by decide)
  have hblock : block.toNat * fs.blockSize.toNat = 512 * (block.toNat * s) := by
    rw [hs, Nat.mul_left_comm]
  let run (i : Nat) : CopyRun Byte := ⟨(BitVec.ofNat 32 i * 512#32).toNat, 512, fun j =>
    fs.disk.sector (block * (fs.blockSize / 512#32) + BitVec.ofNat 32 i) (Fin.ofNat 512 j)⟩
  have hdst : ∀ i < s, (run i).dst = 512 * i := by
    intro i hi
    simp only [run, BitVec.toNat_mul, BitVec.toNat_ofNat]
    omega
  -- no sector's number wraps around or has more than 28 bits
  have hlba : ∀ i < s, (block * (fs.blockSize / 512#32) + BitVec.ofNat 32 i).toNat =
      block.toNat * s + i := by
    intro i hi
    rw [BitVec.toNat_add, BitVec.toNat_mul, hsectors, BitVec.toNat_ofNat]
    omega
  have hagrees : ∀ r ∈ (List.range s).map run,
      r.Agrees fun p => fs.disk (block.toNat * fs.blockSize.toNat + p) := by
    simp only [List.mem_map, List.mem_range]
    rintro r ⟨i, hi, rfl⟩ j (hj : j < 512)
    change fs.disk (sectorStart _ + j % 512) = fs.disk _
    rw [sectorStart, hlba i hi, hdst i hi, Nat.mod_eq_of_lt (by omega), Nat.mod_eq_of_lt hj, hblock]
    congr 1
    omega
  -- the sectors, one behind the other
  have hcopy : readBlock fs block buffer = copyAll buffer ((List.range s).map run) := by
    simp only [readBlock, hsectors, readSectorAt, hready, ataReadSector, if_true, copyAll,
      List.foldl_map, run]
  rw [hcopy, copyAll_apply hagrees]
  refine if_congr ?_ rfl rfl
  simp only [List.mem_map, List.mem_range]
  constructor
  · rintro ⟨r, ⟨i, hi, rfl⟩, -, hend⟩
    have hn : (run i).n = 512 := rfl
    rw [hdst i hi, hn] at hend
    omega
  · intro hp
    have hi : p / 512 < s := by omega
    refine ⟨run (p / 512), ⟨p / 512, hi, rfl⟩, ?_, ?_⟩
    · rw [hdst _ hi]
      omega
    · have hn : (run (p / 512)).n = 512 := rfl
      rw [hdst _ hi, hn]
      omega

end Block

/-! ## Inodes -/

section Inode

variable {fs : Ext2}

theorem le32_congr {mem mem' : Buffer} {pos pos' : Nat} (h : ∀ k < 4, mem (pos + k) = mem' (pos' + k)) :
    le32 mem pos = le32 mem' pos' := by
  have h0 := h 0 (by decide)
  rw [Nat.add_zero, Nat.add_zero] at h0
  rw [le32, le32, h0, h 1 (by decide), h 2 (by decide), h 3 (by decide)]

theorem ext2InodeAt_congr {mem mem' : Buffer} {pos pos' : Nat}
    (h : ∀ k < 128, mem (pos + k) = mem' (pos' + k)) : ext2InodeAt mem pos = ext2InodeAt mem' pos' := by
  refine Ext2Inode.ext ?_ (funext fun i => ?_)
  · refine le32_congr fun k hk => ?_
    rw [Nat.add_assoc, Nat.add_assoc]
    exact h (4 + k) (by omega)
  · refine le32_congr fun k hk => ?_
    rw [Nat.add_assoc, Nat.add_assoc, Nat.add_assoc, Nat.add_assoc]
    exact h (40 + (4 * i + k)) (by omega)

/-- The position of the table of inodes an inode is in, as the descriptor of its group has it. -/
def Ext2.inodeTable (fs : Ext2) (inodeNum : BitVec 32) : BitVec 32 :=
  let group := (inodeNum - 1#32) / fs.inodesPerGroup
  let bgdtBlock := if fs.blockSize = 1024#32 then 2 else 1
  le32 fs.disk (bgdtBlock * fs.blockSize.toNat + (32 * group.toNat + 8))

/-- The position of an inode in the table of its group. -/
def Ext2.inodeOffset (fs : Ext2) (inodeNum : BitVec 32) : Nat :=
  128 * ((inodeNum - 1#32) % fs.inodesPerGroup).toNat

/-- An inode on the drive. -/
def Ext2.inode (fs : Ext2) (inodeNum : BitVec 32) : Ext2Inode :=
  ext2InodeAt fs.disk ((fs.inodeTable inodeNum).toNat * fs.blockSize.toNat + fs.inodeOffset inodeNum)

/-- The number of the block the table of descriptors starts in. -/
def Ext2.bgdtBlock (fs : Ext2) : BitVec 32 := if fs.blockSize = 1024#32 then 2#32 else 1#32

/-- The 128 bytes `read_inode` copies. The buffers are what `kmalloc` returned. -/
def readInodeRecord (fs : Ext2) (inodeNum : BitVec 32) (bgdtBuf blockBuf : Buffer) : Fin 128 → Byte :=
  let group := (inodeNum - 1#32) / fs.inodesPerGroup
  let index := (inodeNum - 1#32) % fs.inodesPerGroup
  let bgdtBuf := readBlock fs fs.bgdtBlock bgdtBuf
  let inodeTableBlock := le32 bgdtBuf (32 * group.toNat + 8)
  let offset := index * 128#32
  let blockBuf := readBlock fs (inodeTableBlock + offset / fs.blockSize) blockBuf
  fun j => blockBuf ((offset % fs.blockSize).toNat + j)

/-- **Where the bytes are read**: behind the start of the table, as many bytes as the offset, a number of
32 bits, says, where the descriptor is in the block that is read. -/
theorem readInodeRecord_apply (hready : ∀ lba, fs.ready lba = true)
    (hsize : ∃ k, fs.blockSize.toNat = 1024 * 2 ^ k) {inodeNum : BitVec 32}
    (hdrive : fs.bgdtBlock.toNat * fs.blockSize.toNat + fs.blockSize.toNat ≤ 2 ^ 28 * 512)
    (hgroup : 32 * ((inodeNum - 1#32) / fs.inodesPerGroup).toNat + 32 ≤ fs.blockSize.toNat)
    {offset : Nat} (hoffset : fs.inodeOffset inodeNum % 2 ^ 32 = offset)
    (htable : ((fs.inodeTable inodeNum).toNat + offset / fs.blockSize.toNat + 1) * fs.blockSize.toNat ≤
      2 ^ 28 * 512) (bgdtBuf blockBuf : Buffer) (j : Fin 128) :
    readInodeRecord fs inodeNum bgdtBuf blockBuf j =
      fs.disk ((fs.inodeTable inodeNum).toNat * fs.blockSize.toNat + offset + j) := by
  obtain ⟨k, hk⟩ := hsize
  have hpow := Nat.two_pow_pos k
  have hpos : 0 < fs.blockSize.toNat := by omega
  have hdvd : 512 ∣ fs.blockSize.toNat := ⟨2 * 2 ^ k, by omega⟩
  -- the descriptor's `inode_table`
  have hread : le32 (readBlock fs fs.bgdtBlock bgdtBuf)
      (32 * ((inodeNum - 1#32) / fs.inodesPerGroup).toNat + 8) = fs.inodeTable inodeNum := by
    refine le32_congr fun j hj => ?_
    rw [readBlock_apply hready hdvd hdrive, if_pos (by omega), Ext2.bgdtBlock]
    split <;> simp only [BitVec.toNat_ofNat] <;> congr 1 <;> omega
  have hindex : ((inodeNum - 1#32) % fs.inodesPerGroup * 128#32).toNat = offset := by
    rw [← hoffset, Ext2.inodeOffset, BitVec.toNat_mul, BitVec.toNat_ofNat]
    omega
  simp only [readInodeRecord, hread, BitVec.toNat_umod, hindex]
  generalize hbs : fs.blockSize.toNat = bs at *
  have hdivmod := Nat.div_add_mod offset bs
  have hmul : bs * (offset / bs) = offset / bs * bs := Nat.mul_comm ..
  -- the inode does not cross the end of a block
  have hin : offset % bs + 128 ≤ bs := by
    have hmod := Nat.mod_lt offset hpos
    have hoff : 128 ∣ offset := by
      rw [← hoffset, Ext2.inodeOffset]
      omega
    have h128 : 128 ∣ offset % bs := (Nat.dvd_mod_iff ⟨8 * 2 ^ k, by omega⟩).mpr hoff
    omega
  have hblock : (fs.inodeTable inodeNum + (inodeNum - 1#32) % fs.inodesPerGroup * 128#32 /
      fs.blockSize).toNat = (fs.inodeTable inodeNum).toNat + offset / bs := by
    have hle : ((fs.inodeTable inodeNum).toNat + offset / bs + 1) * 1024 ≤ 2 ^ 28 * 512 :=
      (Nat.mul_le_mul_left _ (by omega)).trans htable
    have hlt : (fs.inodeTable inodeNum).toNat + offset / bs < 2 ^ 32 := by omega
    rw [BitVec.toNat_add, BitVec.toNat_udiv, hindex, hbs, Nat.mod_eq_of_lt hlt]
  have hj := j.isLt
  rw [Nat.add_mul, Nat.add_mul, Nat.one_mul] at htable
  rw [readBlock_apply hready (by rwa [hbs]), hbs, hblock, if_pos (by omega), Nat.add_mul]
  · congr 1
    omega
  · rwa [hbs, hblock, Nat.add_mul]

/-- **`read_inode`** reads the inode from the drive, where the descriptor of its group is in the block
that is read, and the table lies on the drive. -/
theorem readInode_eq (hready : ∀ lba, fs.ready lba = true)
    (hsize : ∃ k, fs.blockSize.toNat = 1024 * 2 ^ k) {inodeNum : BitVec 32}
    (hdrive : 3 * fs.blockSize.toNat ≤ 2 ^ 28 * 512)
    (hgroup : 32 * ((inodeNum - 1#32) / fs.inodesPerGroup).toNat + 32 ≤ fs.blockSize.toNat)
    (hoffset : fs.inodeOffset inodeNum < 2 ^ 32)
    (htable : (fs.inodeTable inodeNum).toNat * fs.blockSize.toNat + fs.inodeOffset inodeNum +
      fs.blockSize.toNat ≤ 2 ^ 28 * 512) (bgdtBuf blockBuf : Buffer) :
    readInode fs inodeNum bgdtBuf blockBuf = fs.inode inodeNum := by
  have hbgdt : fs.bgdtBlock.toNat * fs.blockSize.toNat + fs.blockSize.toNat ≤ 2 ^ 28 * 512 := by
    refine le_trans ?_ hdrive
    rw [Ext2.bgdtBlock]
    split <;> simp only [BitVec.toNat_ofNat] <;> omega
  have hblock : ((fs.inodeTable inodeNum).toNat + fs.inodeOffset inodeNum / fs.blockSize.toNat + 1) *
      fs.blockSize.toNat ≤ 2 ^ 28 * 512 := by
    have hle := Nat.div_mul_le_self (fs.inodeOffset inodeNum) fs.blockSize.toNat
    rw [Nat.add_mul, Nat.add_mul, Nat.one_mul]
    omega
  refine ext2InodeAt_congr fun j hj => ?_
  exact readInodeRecord_apply hready hsize hbgdt hgroup (Nat.mod_eq_of_lt hoffset) hblock bgdtBuf
    blockBuf ⟨j, hj⟩

end Inode

/-! ## The loop -/

section Loop

variable {fs : Ext2} {inode : Ext2Inode} {offset size bytesRead : BitVec 32} {blockBuf buffer : Buffer}

/-- How far a round of the loop goes: to the end of the block, or to that of the range. -/
theorem ext2_toRead (hpos : 0 < fs.blockSize.toNat) (hlt : bytesRead < size) {n : Nat}
    (hn : n = min (fs.blockSize.toNat - (offset + bytesRead).toNat % fs.blockSize.toNat)
      (size.toNat - bytesRead.toNat)) :
    (if fs.blockSize - (offset + bytesRead) % fs.blockSize > size - bytesRead then size - bytesRead
      else fs.blockSize - (offset + bytesRead) % fs.blockSize) = BitVec.ofNat 32 n := by
  have hsize := size.isLt
  have hmod := Nat.mod_lt (offset + bytesRead).toNat hpos
  have hoff : (fs.blockSize - (offset + bytesRead) % fs.blockSize).toNat =
      fs.blockSize.toNat - (offset + bytesRead).toNat % fs.blockSize.toNat := by
    rw [BitVec.toNat_sub_of_le (by rw [BitVec.le_def, BitVec.toNat_umod]; omega), BitVec.toNat_umod]
  have hrest : (size - bytesRead).toNat = size.toNat - bytesRead.toNat :=
    BitVec.toNat_sub_of_le (BitVec.le_of_lt hlt)
  refine BitVec.eq_of_toNat_eq ?_
  rw [BitVec.toNat_ofNat, Nat.mod_eq_of_lt (by omega)]
  split
  · rename_i h
    rw [gt_iff_lt, BitVec.lt_def, hoff, hrest] at h
    rw [hrest]
    omega
  · rename_i h
    rw [gt_iff_lt, BitVec.lt_def, hoff, hrest] at h
    rw [hoff]
    omega

/-- The bytes of the file behind one in a block, up to the block's end. -/
theorem Ext2Inode.byte_add {pos j : Nat} (hj : pos % fs.blockSize.toNat + j < fs.blockSize.toNat) :
    inode.byte fs (pos + j) =
      let block := inode.block (Fin.ofNat 15 (pos / fs.blockSize.toNat))
      if block = 0#32 then 0#8
      else fs.disk (block.toNat * fs.blockSize.toNat + (pos % fs.blockSize.toNat + j)) := by
  have hpos : 0 < fs.blockSize.toNat := by omega
  have hsplit : pos + j = fs.blockSize.toNat * (pos / fs.blockSize.toNat) +
      (pos % fs.blockSize.toNat + j) := by
    rw [← Nat.add_assoc, Nat.div_add_mod]
  have hdiv : (pos + j) / fs.blockSize.toNat = pos / fs.blockSize.toNat := by
    rw [hsplit, Nat.mul_add_div hpos, Nat.div_eq_of_lt hj, Nat.add_zero]
  have hmod : (pos + j) % fs.blockSize.toNat = pos % fs.blockSize.toNat + j := by
    rw [hsplit, Nat.mul_add_mod, Nat.mod_eq_of_lt hj]
  rw [Ext2Inode.byte, hdiv, hmod]

/-- **A round of the loop** in the direct blocks copies a part of the file. -/
theorem ext2ReadLoop_round (hready : ∀ lba, fs.ready lba = true) (hdirect : inode.Direct fs.blockSize)
    {n : Nat} (hlt : bytesRead < size) (hwrap : offset.toNat + bytesRead.toNat < 2 ^ 32)
    (hidx : offset.toNat + bytesRead.toNat < 12 * fs.blockSize.toNat)
    (hn : n = min (fs.blockSize.toNat - (offset.toNat + bytesRead.toNat) % fs.blockSize.toNat)
      (size.toNat - bytesRead.toNat)) (fuel : Nat) (blockBuf buffer : Buffer) :
    ∃ blockBuf' src,
      CopyRun.Agrees (fun p => inode.byte fs (offset.toNat + p)) ⟨bytesRead.toNat, n, src⟩ ∧
      ext2ReadLoop fs inode offset size (fuel + 1) bytesRead blockBuf buffer =
        ext2ReadLoop fs inode offset size fuel (bytesRead + BitVec.ofNat 32 n) blockBuf'
          (CopyRun.apply buffer ⟨bytesRead.toNat, n, src⟩) := by
  have hpos := hdirect.pos
  have hat : (offset + bytesRead).toNat = offset.toNat + bytesRead.toNat := by
    rw [BitVec.toNat_add, Nat.mod_eq_of_lt hwrap]
  have hblock : ((offset + bytesRead) / fs.blockSize).toNat =
      (offset.toNat + bytesRead.toNat) / fs.blockSize.toNat := by
    rw [BitVec.toNat_udiv, hat]
  have hoff : ((offset + bytesRead) % fs.blockSize).toNat =
      (offset.toNat + bytesRead.toNat) % fs.blockSize.toNat := by
    rw [BitVec.toNat_umod, hat]
  have hblockIdx : ((offset + bytesRead) / fs.blockSize).toNat < 12 := by
    rw [hblock, Nat.div_lt_iff_lt_mul hpos]
    exact hidx
  have hentry : inode.block ⟨((offset + bytesRead) / fs.blockSize).toNat, by omega⟩ =
      inode.block (Fin.ofNat 15 ((offset.toNat + bytesRead.toNat) / fs.blockSize.toNat)) := by
    congr 1
    refine Fin.ext ?_
    rw [Fin.val_ofNat, ← hblock, Nat.mod_eq_of_lt (by omega)]
  have htoRead := ext2_toRead hpos hlt (hat ▸ hn)
  have hsize := size.isLt
  have hnat : (BitVec.ofNat 32 n).toNat = n := by
    rw [BitVec.toNat_ofNat, Nat.mod_eq_of_lt (by omega)]
  have hmod := Nat.mod_lt (offset.toNat + bytesRead.toNat) hpos
  -- the bytes of the round are in one block
  have hbyte : ∀ j < n, inode.byte fs (offset.toNat + (bytesRead.toNat + j)) = _ := fun j hj => by
    rw [← Nat.add_assoc, Ext2Inode.byte_add (by omega)]
  simp only [ext2ReadLoop, if_pos hlt, htoRead, dif_pos hblockIdx, hentry, hoff, hnat]
  split
  · rename_i hhole
    -- a hole: zeros, and the block buffer stays as it is
    refine ⟨blockBuf, _, fun j hj => Eq.trans ?_ (hbyte j hj).symm, rfl⟩
    simp only [hhole, if_true]
  · rename_i hentry
    refine ⟨_, _, fun j (hj : j < n) => Eq.trans ?_ (hbyte j hj).symm, rfl⟩
    simp only [if_neg hentry]
    rw [readBlock_apply hready hdirect.dvd (hdirect.onDrive _), if_pos (by omega)]

/-- The end of the block a position is in, where the position is in the first `k` blocks. -/
theorem blockEnd_le {bs pos k : Nat} (h : pos < k * bs) : pos + (bs - pos % bs) ≤ k * bs := by
  have hpos : 0 < bs := Nat.pos_of_ne_zero fun h0 => by simp [h0] at h
  have hmod := Nat.mod_lt pos hpos
  have hsplit := Nat.div_add_mod pos bs
  have hblock : (pos / bs + 1) * bs ≤ k * bs :=
    Nat.mul_le_mul_right _ ((Nat.div_lt_iff_lt_mul hpos).mpr h)
  rw [Nat.add_mul, Nat.one_mul, Nat.mul_comm _ bs] at hblock
  omega

/-- The loop stops at the end of the direct blocks. -/
theorem ext2ReadLoop_indirect (h : 12 * fs.blockSize.toNat ≤ (offset + bytesRead).toNat)
    (hpos : 0 < fs.blockSize.toNat) (fuel : Nat) :
    ext2ReadLoop fs inode offset size (fuel + 1) bytesRead blockBuf buffer = some (bytesRead, buffer) := by
  have hidx : ¬ ((offset + bytesRead) / fs.blockSize).toNat < 12 := by
    rw [BitVec.toNat_udiv, Nat.div_lt_iff_lt_mul hpos]
    omega
  simp only [ext2ReadLoop, dif_neg hidx, ite_self]

/-- **The loop copies the bytes of the file** up to the end of the range, or to that of the direct
blocks. -/
theorem ext2ReadLoop_reads (hready : ∀ lba, fs.ready lba = true) (hdirect : inode.Direct fs.blockSize)
    {m : Nat} (hm : m ≤ size.toNat) (hwrap : offset.toNat + m < 2 ^ 32)
    (hidx : offset.toNat + m ≤ 12 * fs.blockSize.toNat)
    (hend : m = size.toNat ∨ offset.toNat + m = 12 * fs.blockSize.toNat) (fuel : Nat) :
    ∀ (bytesRead : BitVec 32) (blockBuf buffer : Buffer), bytesRead.toNat ≤ m →
      m - bytesRead.toNat < fuel →
      ∃ out, ext2ReadLoop fs inode offset size fuel bytesRead blockBuf buffer = some out ∧
        out.1.toNat = m ∧ ∀ p, out.2 p = if bytesRead.toNat ≤ p ∧ p < m then
          inode.byte fs (offset.toNat + p) else buffer p := by
  induction fuel with
  | zero => intro bytesRead blockBuf buffer _ hfuel; omega
  | succ fuel ih =>
    intro bytesRead blockBuf buffer hle hfuel
    have hpos := hdirect.pos
    by_cases hstop : bytesRead.toNat = m
    -- all is read; the loop ends with the range or for want of blocks
    · refine ⟨(bytesRead, buffer), ?_, hstop, fun p => by rw [if_neg (by omega)]⟩
      rcases hend with hend | hend
      · rw [ext2ReadLoop, if_neg (by rw [BitVec.lt_def]; omega)]
      · exact ext2ReadLoop_indirect (by rw [BitVec.toNat_add]; omega) hpos fuel
    · obtain ⟨n, hn⟩ : ∃ n, n = min (fs.blockSize.toNat -
        (offset.toNat + bytesRead.toNat) % fs.blockSize.toNat) (size.toNat - bytesRead.toNat) := ⟨_, rfl⟩
      obtain ⟨blockBuf', src, hagrees, hround⟩ := ext2ReadLoop_round hready hdirect
        (BitVec.lt_def.mpr (by omega)) (by omega) (by omega) hn fuel blockBuf buffer
      have hmod := Nat.mod_lt (offset.toNat + bytesRead.toNat) hpos
      have hblock : _ ≤ 12 * fs.blockSize.toNat :=
        blockEnd_le (show offset.toNat + bytesRead.toNat < _ by omega)
      have hsize := size.isLt
      have hnext : (bytesRead + BitVec.ofNat 32 n).toNat = bytesRead.toNat + n := by
        rw [BitVec.toNat_add, BitVec.toNat_ofNat]
        omega
      obtain ⟨out, hout, hreturns, hstores⟩ := ih (bytesRead + BitVec.ofNat 32 n) blockBuf'
        (CopyRun.apply buffer ⟨bytesRead.toNat, n, src⟩) (by omega) (by omega)
      refine ⟨out, hround.trans hout, hreturns, fun p => ?_⟩
      rw [hstores p, hagrees.apply, hnext]
      have hcovers : CopyRun.Covers ⟨bytesRead.toNat, n, src⟩ p ↔
          bytesRead.toNat ≤ p ∧ p < bytesRead.toNat + n := Iff.rfl
      rcases lt_or_ge p (bytesRead.toNat + n) with hp | hp
      · rw [if_neg (by omega)]
        exact if_congr (hcovers.trans (by omega)) rfl rfl
      · exact if_congr (by omega) rfl (if_neg fun h => by have := hcovers.mp h; omega)

/-- **Where the loop stops**, for any file: at the end of the range, or behind the direct blocks. -/
theorem ext2ReadLoop_stops (hpos : 0 < fs.blockSize.toNat) (fuel : Nat) :
    ∀ (bytesRead : BitVec 32) (blockBuf buffer : Buffer), bytesRead ≤ size →
      size.toNat - bytesRead.toNat < fuel →
      ∃ out, ext2ReadLoop fs inode offset size fuel bytesRead blockBuf buffer = some out ∧
        (out.1 = size ∨ 12 ≤ ((offset + out.1) / fs.blockSize).toNat) := by
  induction fuel with
  | zero => intro bytesRead blockBuf buffer _ hfuel; omega
  | succ fuel ih =>
    intro bytesRead blockBuf buffer hle hfuel
    by_cases hlt : bytesRead < size
    · have hsize := size.isLt
      have hmod := Nat.mod_lt (offset + bytesRead).toNat hpos
      obtain ⟨n, hn⟩ : ∃ n, n = min (fs.blockSize.toNat -
        (offset + bytesRead).toNat % fs.blockSize.toNat) (size.toNat - bytesRead.toNat) := ⟨_, rfl⟩
      -- a round reads up to the end of the block, or of what was asked for
      have hnat := BitVec.lt_def.mp hlt
      have hnext : (bytesRead + BitVec.ofNat 32 n).toNat = bytesRead.toNat + n := by
        rw [BitVec.toNat_add, BitVec.toNat_ofNat]
        omega
      have hle' : bytesRead + BitVec.ofNat 32 n ≤ size := by
        rw [BitVec.le_def, hnext]
        omega
      simp only [ext2ReadLoop, if_pos hlt, ext2_toRead hpos hlt hn]
      split
      · split
        · exact ih _ _ _ hle' (by omega)
        · exact ih _ _ _ hle' (by omega)
      -- behind the direct blocks the loop breaks off
      · rename_i hidx
        exact ⟨_, rfl, .inr (Nat.not_lt.mp hidx)⟩
    · refine ⟨(bytesRead, buffer), ?_, .inl ?_⟩
      · rw [ext2ReadLoop, if_neg hlt]
      · exact BitVec.le_antisymm hle (BitVec.not_lt.mp hlt)

end Loop

/-! ## Reads -/

section Read

variable {fs : Ext2} {inode : Ext2Inode} {offset size : BitVec 32}

/-- A read whose range ends before it wraps, or behind the file, is clamped to the file. -/
theorem ext2_clamp (hin : offset < inode.size)
    (h : offset.toNat + size.toNat < 2 ^ 32 ∨ inode.size < offset + size) :
    (if offset + size > inode.size then inode.size - offset else size).toNat =
      inode.count offset size := by
  have hsize := size.isLt
  have hnat := BitVec.lt_def.mp hin
  have hrest : (inode.size - offset).toNat = inode.size.toNat - offset.toNat :=
    BitVec.toNat_sub_of_le (BitVec.le_of_lt hin)
  have hsum := BitVec.toNat_add offset size
  rw [Ext2Inode.count]
  simp only [BitVec.lt_def, gt_iff_lt] at h ⊢
  split
  · rw [hrest]
    omega
  · omega

/-- The range the loop gets ends with the file, or the loop ends there for want of blocks. -/
theorem ext2_range (hin : offset < inode.size) (hwraps : ¬ WrapsIntoFile fs inode offset size)
    {clamped : BitVec 32}
    (hclamped : clamped = if offset + size > inode.size then inode.size - offset else size) :
    inode.count offset size ≤ clamped.toNat ∧ clamped.toNat ≤ size.toNat ∧
      (inode.count offset size = clamped.toNat ∨
        offset.toNat + inode.count offset size = 12 * fs.blockSize.toNat) := by
  by_cases hclamp : offset.toNat + size.toNat < 2 ^ 32 ∨ inode.size < offset + size
  · have heq : clamped.toNat = inode.count offset size := hclamped ▸ ext2_clamp hin hclamp
    exact ⟨heq.ge, heq.trans_le (Nat.min_le_left ..), .inl heq.symm⟩
  · obtain ⟨hwrap, hlt⟩ := not_or.mp hclamp
    -- the range wraps into a file that fills its direct blocks
    have hfull : inode.size.toNat = 12 * fs.blockSize.toNat := by
      by_contra hne
      exact hwraps ⟨hin, Nat.not_lt.mp hwrap, BitVec.not_lt.mp hlt, hne⟩
    have hsize := inode.size.isLt
    have hnat := BitVec.lt_def.mp hin
    have hcount : inode.count offset size = inode.size.toNat - offset.toNat :=
      Nat.min_eq_right (by omega)
    rw [hclamped, if_neg hlt]
    exact ⟨by omega, le_rfl, .inr (by omega)⟩

/-- **A read that is not exact**: the range wraps into the file, and the loop goes on behind its end. -/
theorem ext2ReadFrom_wraps (hpos : 0 < fs.blockSize.toNat)
    (hdirect : inode.size.toNat ≤ 12 * fs.blockSize.toNat)
    (hwraps : WrapsIntoFile fs inode offset size) {fuel : Nat} (hfuel : size.toNat < fuel)
    (blockBuf buffer : Buffer) :
    ∃ out, ext2ReadFrom fs inode fuel blockBuf offset size buffer = some out ∧
      out.1.toNat ≠ inode.count offset size := by
  obtain ⟨hin, hwrap, hle, hne⟩ := hwraps
  obtain ⟨out, hout, hstop⟩ : ∃ out,
      ext2ReadLoop fs inode offset size fuel 0#32 blockBuf buffer = some out ∧
        (out.1 = size ∨ 12 ≤ ((offset + out.1) / fs.blockSize).toNat) :=
    ext2ReadLoop_stops hpos fuel 0#32 blockBuf buffer (BitVec.le_def.mpr (Nat.zero_le _))
      (by rw [BitVec.toNat_zero]; omega)
  refine ⟨out, ?_, fun hcount => ?_⟩
  · rw [ext2ReadFrom, if_neg (by rw [ge_iff_le, BitVec.not_le]; exact hin)]
    simp only [if_neg (BitVec.not_lt.mpr hle)]
    exact hout
  · have hsize := inode.size.isLt
    have hnat := BitVec.lt_def.mp hin
    rw [Ext2Inode.count] at hcount
    rcases hstop with hstop | hstop
    -- the whole range: more than the file has
    · rw [hstop] at hcount
      omega
    -- all direct blocks, and the file ends before them
    · rw [BitVec.toNat_udiv, Nat.le_div_iff_mul_le hpos, BitVec.toNat_add] at hstop
      omega

/-- **The reads that are exact.** -/
theorem ext2ReadFrom_reads (hready : ∀ lba, fs.ready lba = true) (hdirect : inode.Direct fs.blockSize)
    (hwraps : ¬ WrapsIntoFile fs inode offset size) {fuel : Nat} (hfuel : size.toNat < fuel)
    (blockBuf buffer : Buffer) :
    ∃ out, ext2ReadFrom fs inode fuel blockBuf offset size buffer = some out ∧
      ReadsFile fs inode offset size buffer out := by
  have hsize := inode.size.isLt
  have hdirectSize := hdirect.size
  rw [ext2ReadFrom]
  split
  · rename_i hbehind
    have hcount : inode.count offset size = 0 := by
      rw [Ext2Inode.count, Nat.sub_eq_zero_of_le (BitVec.le_def.mp hbehind), Nat.min_zero]
    refine ⟨_, rfl, ?_, fun p => ?_⟩
    · rw [hcount, BitVec.toNat_zero]
    · rw [hcount, if_neg (Nat.not_lt_zero p)]
  · rename_i hbehind
    have hin : offset < inode.size := BitVec.not_le.mp hbehind
    have hnat := BitVec.lt_def.mp hin
    have hle : inode.count offset size ≤ inode.size.toNat - offset.toNat := Nat.min_le_right ..
    obtain ⟨hm, hsz, hend⟩ := ext2_range hin hwraps rfl
    obtain ⟨out, hout, hreturns, hstores⟩ := ext2ReadLoop_reads hready hdirect hm (by omega) (by omega)
      hend fuel 0#32 blockBuf buffer (Nat.zero_le _) (by rw [BitVec.toNat_zero]; omega)
    refine ⟨out, hout, hreturns, fun p => ?_⟩
    rw [hstores p, BitVec.toNat_zero]
    exact if_congr (and_iff_right (Nat.zero_le p)) rfl rfl

/-- **The reads of files that are exact**: with a drive that carries out the commands, these are the ones
whose range does not wrap into the file. -/
theorem ext2Read_reads_iff (hready : ∀ lba, fs.ready lba = true) {node : BitVec 32}
    {bgdtBuf inodeBuf : Buffer} (hdirect : (readInode fs node bgdtBuf inodeBuf).Direct fs.blockSize)
    (offset size : BitVec 32) {fuel : Nat} (hfuel : size.toNat < fuel) (blockBuf buffer : Buffer) :
    ∃ out, ext2Read fs node fuel bgdtBuf inodeBuf blockBuf offset size buffer = some out ∧
      (ReadsFile fs (readInode fs node bgdtBuf inodeBuf) offset size buffer out ↔
        ¬ WrapsIntoFile fs (readInode fs node bgdtBuf inodeBuf) offset size) := by
  by_cases hwraps : WrapsIntoFile fs (readInode fs node bgdtBuf inodeBuf) offset size
  · obtain ⟨out, hout, hne⟩ := ext2ReadFrom_wraps hdirect.pos hdirect.size hwraps hfuel blockBuf buffer
    exact ⟨out, hout, iff_of_false (fun h => hne h.returns) (not_not_intro hwraps)⟩
  · obtain ⟨out, hout, hreads⟩ := ext2ReadFrom_reads hready hdirect hwraps hfuel blockBuf buffer
    exact ⟨out, hout, iff_of_true hreads hwraps⟩

/-- A drive with a file of 100 bytes in block 20: the table of inodes is in block 5, and the file's inode
is the twelfth of its group. -/
def ext2Small : Ext2 where
  ready _ := true
  disk pos := if pos = 2056 then 5#8 else if pos = 6532 then 100#8 else if pos = 6568 then 20#8 else 0#8
  blockSize := 1024#32
  inodesPerGroup := 128#32

theorem ext2Small_inode (bgdtBuf inodeBuf : Buffer) : readInode ext2Small 12#32 bgdtBuf inodeBuf =
    ⟨100#32, fun i => if i = 0 then 20#32 else 0#32⟩ := by
  have hinode : ext2Small.inode 12#32 = ⟨100#32, fun i => if i = 0 then 20#32 else 0#32⟩ :=
    Ext2Inode.ext (by decide) (funext (by decide))
  rw [← hinode]
  exact readInode_eq (fun _ => rfl) ⟨0, rfl⟩ (by decide) (by decide) (by decide) (by decide) bgdtBuf
    inodeBuf

theorem ext2Small_direct (bgdtBuf inodeBuf : Buffer) :
    (readInode ext2Small 12#32 bgdtBuf inodeBuf).Direct ext2Small.blockSize := by
  rw [ext2Small_inode]
  exact ⟨⟨0, rfl⟩, by decide, by decide⟩

/-- A read of 100 bytes from byte 40 on, of which the file has 60. -/
theorem ext2Read_reads_small : ∃ out, ext2Read ext2Small 12#32 101 (fun _ => 0) (fun _ => 0)
      (fun _ => 0) 40#32 100#32 (fun _ => 0) = some out ∧
    ReadsFile ext2Small (readInode ext2Small 12#32 (fun _ => 0) fun _ => 0) 40#32 100#32 (fun _ => 0)
      out := by
  obtain ⟨out, hout, hiff⟩ := ext2Read_reads_iff (fun _ => rfl)
    (ext2Small_direct (fun _ => 0) fun _ => 0) 40#32 100#32 (show _ < 101 by decide) (fun _ => 0) fun _ => 0
  refine ⟨out, hout, hiff.mpr ?_⟩
  rintro ⟨-, hwraps, -⟩
  exact absurd hwraps (by decide)

/-- A read from byte 50 on whose range wraps to the byte before it: the file has 50 bytes more. -/
theorem ext2Read_not_exact :
    (readInode ext2Small 12#32 (fun _ => 0) fun _ => 0).Direct ext2Small.blockSize ∧
    ∃ out, ext2Read ext2Small 12#32 (2 ^ 32) (fun _ => 0) (fun _ => 0) (fun _ => 0) 50#32 0xFFFFFFFF#32
        (fun _ => 0) = some out ∧
      ¬ ReadsFile ext2Small (readInode ext2Small 12#32 (fun _ => 0) fun _ => 0) 50#32 0xFFFFFFFF#32
        (fun _ => 0) out := by
  have hdirect := ext2Small_direct (fun _ => 0) fun _ => 0
  have hwraps : WrapsIntoFile ext2Small (readInode ext2Small 12#32 (fun _ => 0) fun _ => 0) 50#32
      0xFFFFFFFF#32 := by
    rw [ext2Small_inode]
    exact ⟨by decide, by decide, by decide, by decide⟩
  obtain ⟨out, hout, hne⟩ := ext2ReadFrom_wraps hdirect.pos hdirect.size hwraps
    (show _ < 2 ^ 32 by decide) (fun _ => 0) fun _ => 0
  exact ⟨hdirect, out, hout, fun h => hne h.returns⟩

end Read

end ZohoOs
