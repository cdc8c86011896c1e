import ZohoOs.Fs.Ext2Read

/-!
# The inodes of a volume

`read_inode` of `ext2.c` on volumes with any number of groups. The table of descriptors has 32 bytes for
each group, and one block of it is read, whichever the group is; what the driver finds behind that block
is what the heap holds.

## Main definitions

* `Ext2.WellFormed`: the volumes
* `Ext2.slot`: the record of an inode, where it is stored
* `blockSource`, `descriptorReads`: where the bytes of a descriptor come from
* `Ext2.LooksUp`: an inode the driver finds, whatever the volume holds

## Main results

* `readBlock_source`: the buffer after `read_block`
* `readInodeRecord_reads`: which bytes of the drive are read for an inode
* `looksUp_iff`: the inodes the driver finds
-/

namespace ZohoOs

/-! ## Volumes -/

/-- The position of the table of descriptors. -/
def Ext2.bgdt (fs : Ext2) : Nat := fs.bgdtBlock.toNat * fs.blockSize.toNat

/-- The block the table of inodes of a group starts in, as its descriptor has it. -/
def Ext2.groupTable (fs : Ext2) (group : Nat) : BitVec 32 := le32 fs.disk (fs.bgdt + (32 * group + 8))

/-- How many blocks that many bytes take. -/
def Ext2.blocksFor (fs : Ext2) (n : Nat) : Nat := (n + (fs.blockSize.toNat - 1)) / fs.blockSize.toNat

/-- A well-formed volume with inodes of 128 bytes: the groups have room for the inodes, and the table of
descriptors and behind it the tables of inodes lie on the drive. The driver passes on 28 bits of a sector's
number. -/
structure Ext2.WellFormed (fs : Ext2) (inodesCount : BitVec 32) (groups : Nat) : Prop where
  shift : ∃ k, fs.blockSize.toNat = 1024 * 2 ^ k
  inodes : inodesCount.toNat ≤ groups * fs.inodesPerGroup.toNat
  descriptors : (fs.bgdtBlock.toNat + fs.blocksFor (32 * groups)) * fs.blockSize.toNat ≤ 2 ^ 28 * 512
  tables : ∀ group < groups, ((fs.groupTable group).toNat +
    fs.blocksFor (128 * fs.inodesPerGroup.toNat)) * fs.blockSize.toNat ≤ 2 ^ 28 * 512
  behind : ∀ group < groups, fs.bgdt + 32 * groups ≤ (fs.groupTable group).toNat * fs.blockSize.toNat

/-- The group of an inode; they are numbered from 1 on. -/
def Ext2.groupOf (fs : Ext2) (inodeNum : BitVec 32) : Nat :=
  (inodeNum.toNat - 1) / fs.inodesPerGroup.toNat

/-- The place of an inode in its group. -/
def Ext2.indexOf (fs : Ext2) (inodeNum : BitVec 32) : Nat :=
  (inodeNum.toNat - 1) % fs.inodesPerGroup.toNat

/-- The record of an inode, in its slot of the table of its group. -/
def Ext2.slot (fs : Ext2) (inodeNum : BitVec 32) : Fin 128 → Byte := fun j =>
  fs.disk ((fs.groupTable (fs.groupOf inodeNum)).toNat * fs.blockSize.toNat +
    128 * fs.indexOf inodeNum + j)

/-- A byte of the table of descriptors. -/
def Ext2.InBgdt (fs : Ext2) (groups p : Nat) : Prop := fs.bgdt ≤ p ∧ p < fs.bgdt + 32 * groups

/-- Where a byte of a buffer comes from after `read_block`: a byte of the drive, or what the buffer had. -/
def blockSource (fs : Ext2) (block : BitVec 32) (q : Nat) : Option Nat :=
  if q < fs.blockSize.toNat then some (block.toNat * fs.blockSize.toNat + q) else none

/-- The bytes of its buffer `read_inode` reads for `inode_table`. -/
def descriptorReads (fs : Ext2) (inodeNum : BitVec 32) : List Nat :=
  List.range' (32 * ((inodeNum - 1#32) / fs.inodesPerGroup).toNat + 8) 4

/-- **An inode the driver finds**: with anything on the drive outside the table of descriptors, and anything
on the heap, it gets the record of the inode, and what it reads of the descriptor is from that table. -/
structure Ext2.LooksUp (fs : Ext2) (groups : Nat) (inodeNum : BitVec 32) : Prop where
  record : ∀ disk, (∀ p, fs.InBgdt groups p → disk p = fs.disk p) → ∀ bgdtBuf blockBuf,
    readInodeRecord { fs with disk } inodeNum bgdtBuf blockBuf = Ext2.slot { fs with disk } inodeNum
  descriptor : ∀ q ∈ descriptorReads fs inodeNum, ∃ p, blockSource fs fs.bgdtBlock q = some p ∧
    fs.InBgdt groups p

/-! ## Positions -/

section Positions

variable {fs : Ext2} {inodesCount inodeNum : BitVec 32} {groups : Nat}

theorem Ext2.WellFormed.blockSize_pos (h : fs.WellFormed inodesCount groups) :
    0 < fs.blockSize.toNat := by
  obtain ⟨k, hk⟩ := h.shift
  have hpow := Nat.two_pow_pos k
  omega

/-- The block of a byte is among those the bytes up to it take. -/
theorem Ext2.div_lt_blocksFor (hpos : 0 < fs.blockSize.toNat) {q n : Nat} (h : q < n) :
    q / fs.blockSize.toNat < fs.blocksFor n := by
  have hle := Nat.div_mul_le_self q fs.blockSize.toNat
  rw [blocksFor, Nat.lt_iff_add_one_le, Nat.le_div_iff_mul_le hpos, Nat.add_mul, Nat.one_mul]
  omega

/-- What `read_block` leaves in the buffer. -/
theorem readBlock_source (hready : ∀ lba, fs.ready lba = true) (hdvd : 512 ∣ fs.blockSize.toNat)
    {block : BitVec 32}
    (hdrive : block.toNat * fs.blockSize.toNat + fs.blockSize.toNat ≤ 2 ^ 28 * 512)
    (buffer : Buffer) (q : Nat) :
    readBlock fs block buffer q = ((blockSource fs block q).map fs.disk).getD (buffer q) := by
  rw [readBlock_apply hready hdvd hdrive, blockSource]
  split <;> rfl

section Number

variable (hnum : 1 ≤ inodeNum.toNat)
include hnum

theorem toNat_sub_one : (inodeNum - 1#32).toNat = inodeNum.toNat - 1 :=
  BitVec.toNat_sub_of_le (BitVec.le_def.mpr hnum)

theorem groupOf_eq : ((inodeNum - 1#32) / fs.inodesPerGroup).toNat = fs.groupOf inodeNum := by
  rw [BitVec.toNat_udiv, toNat_sub_one hnum, Ext2.groupOf]

theorem inodeOffset_eq : fs.inodeOffset inodeNum = 128 * fs.indexOf inodeNum := by
  rw [Ext2.inodeOffset, BitVec.toNat_umod, toNat_sub_one hnum, Ext2.indexOf]

theorem inodeTable_eq : fs.inodeTable inodeNum = fs.groupTable (fs.groupOf inodeNum) := by
  have hbgdt : (if fs.blockSize = 1024#32 then 2 else 1) = fs.bgdtBlock.toNat := by
    rw [Ext2.bgdtBlock]
    split <;> rfl
  rw [Ext2.inodeTable, Ext2.groupTable, Ext2.bgdt, groupOf_eq hnum, hbgdt]

end Number

/-- The groups of the inodes of a volume, which have inodes. -/
theorem Ext2.WellFormed.groupOf_lt (h : fs.WellFormed inodesCount groups) (hnum : 1 ≤ inodeNum.toNat)
    (hle : inodeNum ≤ inodesCount) :
    fs.groupOf inodeNum < groups ∧ fs.indexOf inodeNum < fs.inodesPerGroup.toNat := by
  have hcount := BitVec.le_def.mp hle
  have hinodes := h.inodes
  have hpos : 0 < fs.inodesPerGroup.toNat := by
    rw [Nat.pos_iff_ne_zero]
    intro hzero
    rw [hzero, Nat.mul_zero] at hinodes
    omega
  refine ⟨?_, Nat.mod_lt _ hpos⟩
  rw [groupOf, Nat.div_lt_iff_lt_mul hpos]
  omega

end Positions

/-! ## Lookup -/

section Lookup

variable {fs : Ext2} {inodesCount inodeNum : BitVec 32} {groups : Nat}

/-- The tables of inodes where they are on other contents of the drive. -/
theorem Ext2.groupTable_congr {disk : Disk} (hagree : ∀ p, fs.InBgdt groups p → disk p = fs.disk p)
    {group : Nat} (hgroup : group < groups) :
    Ext2.groupTable { fs with disk } group = fs.groupTable group := by
  refine le32_congr fun j hj => hagree _ ⟨?_, ?_⟩
  · exact Nat.le_add_right_of_le (Nat.le_add_right ..)
  · change fs.bgdt + (32 * group + 8) + j < _
    omega

theorem Ext2.slot_eq {disk : Disk} (hagree : ∀ p, fs.InBgdt groups p → disk p = fs.disk p)
    (hgroup : fs.groupOf inodeNum < groups) (j : Fin 128) :
    Ext2.slot { fs with disk } inodeNum j =
      disk ((fs.groupTable (fs.groupOf inodeNum)).toNat * fs.blockSize.toNat +
        128 * fs.indexOf inodeNum + j) := by
  rw [← groupTable_congr hagree hgroup]
  rfl

/-- **Which bytes are read**: those behind the start of the inode's table, as far as a number of 32 bits
goes, where the block of descriptors that is read has that of the group. -/
theorem readInodeRecord_reads (hready : ∀ lba, fs.ready lba = true)
    (hwf : fs.WellFormed inodesCount groups) (hnum : 1 ≤ inodeNum.toNat) (hle : inodeNum ≤ inodesCount)
    (hgroup : 32 * fs.groupOf inodeNum + 32 ≤ fs.blockSize.toNat) {disk : Disk}
    (hagree : ∀ p, fs.InBgdt groups p → disk p = fs.disk p) (bgdtBuf blockBuf : Buffer) (j : Fin 128) :
    readInodeRecord { fs with disk } inodeNum bgdtBuf blockBuf j =
      disk ((fs.groupTable (fs.groupOf inodeNum)).toNat * fs.blockSize.toNat +
        128 * fs.indexOf inodeNum % 2 ^ 32 + j) := by
  obtain ⟨hgroups, hindex⟩ := hwf.groupOf_lt hnum hle
  have hpos := hwf.blockSize_pos
  -- the tables are those of the volume
  have htable : Ext2.inodeTable { fs with disk } inodeNum = fs.groupTable (fs.groupOf inodeNum) := by
    rw [inodeTable_eq hnum]
    exact Ext2.groupTable_congr hagree hgroups
  rw [← htable]
  refine @readInodeRecord_apply { fs with disk } hready hwf.shift _ ?_ ?_ _ ?_ ?_ bgdtBuf blockBuf j
  · have hblock : 0 < fs.blocksFor (32 * groups) :=
      (Nat.zero_le _).trans_lt (fs.div_lt_blocksFor hpos (show 0 < 32 * groups by omega))
    have hdrive := (Nat.mul_le_mul_right fs.blockSize.toNat
      (show fs.bgdtBlock.toNat + 1 ≤ _ by omega)).trans hwf.descriptors
    rwa [Nat.add_mul, Nat.one_mul] at hdrive
  · rw [groupOf_eq hnum]
    exact hgroup
  · rw [inodeOffset_eq hnum]
    rfl
  · rw [htable]
    refine (Nat.mul_le_mul_right _ ?_).trans (hwf.tables _ hgroups)
    rw [Nat.add_assoc]
    exact Nat.add_le_add_left (fs.div_lt_blocksFor hpos (by omega)) _

/-- The descriptor of a group further on than the first block of descriptors is read from the heap. -/
theorem blockSource_eq_none (hwf : fs.WellFormed inodesCount groups) (hnum : 1 ≤ inodeNum.toNat)
    (hgroup : fs.blockSize.toNat < 32 * fs.groupOf inodeNum + 32) :
    ∃ q ∈ descriptorReads fs inodeNum, blockSource fs fs.bgdtBlock q = none := by
  obtain ⟨k, hk⟩ := hwf.shift
  refine ⟨32 * fs.groupOf inodeNum + 8, ?_, if_neg (by omega)⟩
  rw [descriptorReads, groupOf_eq hnum, List.mem_range'_1]
  omega

/-- An inode that far behind the start of its table that the offset wraps around: its record is read from
somewhere else. -/
theorem readInodeRecord_wraps (hready : ∀ lba, fs.ready lba = true)
    (hwf : fs.WellFormed inodesCount groups) (hnum : 1 ≤ inodeNum.toNat) (hle : inodeNum ≤ inodesCount)
    (hgroup : 32 * fs.groupOf inodeNum + 32 ≤ fs.blockSize.toNat)
    (hindex : 2 ^ 32 ≤ 128 * fs.indexOf inodeNum) (bgdtBuf blockBuf : Buffer) :
    ∃ disk, (∀ p, fs.InBgdt groups p → disk p = fs.disk p) ∧
      readInodeRecord { fs with disk } inodeNum bgdtBuf blockBuf ≠ Ext2.slot { fs with disk } inodeNum := by
  obtain ⟨hgroups, -⟩ := hwf.groupOf_lt hnum hle
  have hbehind := hwf.behind _ hgroups
  let table := (fs.groupTable (fs.groupOf inodeNum)).toNat * fs.blockSize.toNat
  let read := table + 128 * fs.indexOf inodeNum % 2 ^ 32
  let stored := table + 128 * fs.indexOf inodeNum
  have hne : read ≠ stored := by omega
  -- the first byte of the record is another one than that which is read
  let disk : Disk := Function.update fs.disk stored (fs.disk read + 1)
  have hagree : ∀ p, fs.InBgdt groups p → disk p = fs.disk p := by
    rintro p ⟨-, hp⟩
    exact Function.update_of_ne (show p ≠ stored by omega) _ _
  refine ⟨disk, hagree, fun h => ?_⟩
  have hbyte := congrFun h 0
  rw [readInodeRecord_reads hready hwf hnum hle hgroup hagree, Ext2.slot_eq hagree hgroups] at hbyte
  -- what is read is the old byte, and what is stored another one
  have hread : disk (read + 0) = fs.disk read := Function.update_of_ne hne _ _
  have hstored : disk (stored + 0) = fs.disk read + 1 := Function.update_self _ _ _
  have hself : fs.disk read = fs.disk read + 1 := hread.symm.trans (hbyte.trans hstored)
  bv_omega

/-- **The inodes the driver finds** are those of the groups whose descriptors are in the first block of the
table, that far into the table of their group that the position is a number of 32 bits. -/
theorem looksUp_iff (hready : ∀ lba, fs.ready lba = true) (hwf : fs.WellFormed inodesCount groups)
    (hnum : 1 ≤ inodeNum.toNat) (hle : inodeNum ≤ inodesCount) :
    fs.LooksUp groups inodeNum ↔
      32 * fs.groupOf inodeNum + 32 ≤ fs.blockSize.toNat ∧ 128 * fs.indexOf inodeNum < 2 ^ 32 := by
  obtain ⟨hgroups, hindex⟩ := hwf.groupOf_lt hnum hle
  constructor
  · rintro ⟨hrecord, hdescriptor⟩
    have hgroup : 32 * fs.groupOf inodeNum + 32 ≤ fs.blockSize.toNat := by
      by_contra hout
      obtain ⟨q, hq, hnone⟩ := blockSource_eq_none hwf hnum (Nat.not_le.mp hout)
      obtain ⟨p, hsome, -⟩ := hdescriptor q hq
      exact absurd (hnone.symm.trans hsome) (Option.some_ne_none p).symm
    refine ⟨hgroup, ?_⟩
    -- an offset that wraps reads the byte of another place
    by_contra hwraps
    obtain ⟨disk, hagree, hne⟩ := readInodeRecord_wraps hready hwf hnum hle hgroup
      (Nat.not_lt.mp hwraps) (fun _ => 0) fun _ => 0
    exact hne (hrecord disk hagree _ _)
  · rintro ⟨hgroup, hoffset⟩
    refine ⟨fun disk hagree bgdtBuf blockBuf => funext fun j => ?_, fun q hq => ?_⟩
    · rw [readInodeRecord_reads hready hwf hnum hle hgroup hagree, Nat.mod_eq_of_lt hoffset,
        Ext2.slot_eq hagree hgroups]
    · rw [descriptorReads, groupOf_eq hnum, List.mem_range'_1] at hq
      refine ⟨_, if_pos (by omega), ?_, ?_⟩ <;> rw [Ext2.bgdt] <;> omega

/-- A volume of 33 groups with eight inodes each: one more than a block has descriptors. The tables of
inodes are in the blocks from 40 on. -/
def ext2Groups : Ext2 where
  ready _ := true
  disk pos :=
    if 2048 ≤ pos ∧ pos < 3104 ∧ pos % 32 = 8 then BitVec.ofNat 8 (40 + (pos - 2048) / 32)
    else if pos = 73728 then 7#8 else 0#8
  blockSize := 1024#32
  inodesPerGroup := 8#32

theorem ext2Groups_wellFormed : ext2Groups.WellFormed 264#32 33 where
  shift := ⟨0, rfl⟩
  inodes := by decide
  descriptors := by decide
  tables := by decide
  behind := by decide

/-- An inode of the second group is found. -/
theorem looksUp_second : ext2Groups.LooksUp 33 12#32 :=
  (looksUp_iff (fun _ => rfl) ext2Groups_wellFormed (by decide) (by decide)).mpr ⟨by decide, by decide⟩

/-- The first inode of the last group: its descriptor is in the second block, and with zeros on the heap the
first block of the volume is taken for its table. -/
theorem ext2Groups_not_looksUp : ext2Groups.WellFormed 264#32 33 ∧
    1 ≤ (257#32).toNat ∧ 257#32 ≤ 264#32 ∧
    readInodeRecord ext2Groups 257#32 (fun _ => 0) (fun _ => 0) 0 = 0 ∧
    ext2Groups.slot 257#32 0 = 7 ∧ ¬ ext2Groups.LooksUp 33 257#32 := by
  refine ⟨ext2Groups_wellFormed, by decide, by decide, by decide, by decide, fun h => ?_⟩
  obtain ⟨q, hq, hnone⟩ := blockSource_eq_none ext2Groups_wellFormed
    (show 1 ≤ (257#32).toNat by decide) (by decide)
  obtain ⟨p, hsome, -⟩ := h.descriptor q hq
  exact absurd (hnone.symm.trans hsome) (Option.some_ne_none p).symm

end Lookup

end ZohoOs
