import ZohoOs.Fs.Ext2Dir

/-!
# What a search in a directory reads

The loops of `ext2_finddir` on any contents of the blocks of a directory. The lengths of the records and of
their names are taken as they are read.

## Main definitions

* `Scanned`: the contents of the buffer that are searched
* `BlockSound`: the contents a search gets through
* `SearchSurvives`: a search that ends and stays in its buffer

## Main results

* `dirScan_sound_iff`: the scan of a block
* `ext2Finddir_survives_iff`: which searches survive
-/

namespace ZohoOs

open RecordWalk

/-- The record is one the scan of a block comes to. -/
def EntryReached (block : Buffer) (blockSize : Nat) (name : List Byte) (entry : Nat) : Prop :=
  Visited (entryNext block) (entryMatches block name) blockSize 0 entry

/-- **A sound block**: of every record the scan comes to, what is read lies in the block, and it has a length
or is the one that is looked for. -/
def BlockSound (block : Buffer) (blockSize : Nat) (name : List Byte) : Prop :=
  ∀ entry, EntryReached block blockSize name entry →
    (∀ i ∈ roundReads block name entry, i < blockSize) ∧
      (entryMatches block name entry = false → entryRecLen block entry ≠ 0)

/-- What is searched: the blocks up to one that has a record of the name, as the buffer has them. -/
inductive Scanned (fs : Ext2) (name : List Byte) : List (BitVec 32) → Buffer → Buffer → Prop
  | first {block : BitVec 32} {blocks : List (BitVec 32)} {buffer : Buffer} : block ≠ 0#32 →
      Scanned fs name (block :: blocks) buffer (readBlock fs block buffer)
  | hole {blocks : List (BitVec 32)} {buffer scanned : Buffer} : Scanned fs name blocks buffer scanned →
      Scanned fs name (0#32 :: blocks) buffer scanned
  | later {block : BitVec 32} {blocks : List (BitVec 32)} {buffer scanned : Buffer} : block ≠ 0#32 →
      (∀ entry, EntryReached (readBlock fs block buffer) fs.blockSize.toNat name entry →
        entryMatches (readBlock fs block buffer) name entry = false) →
      Scanned fs name blocks (readBlock fs block buffer) scanned →
      Scanned fs name (block :: blocks) buffer scanned

/-- **A search that survives**: it ends, and the bytes it reads of its buffer are in the block. -/
def SearchSurvives (fs : Ext2) (node : BitVec 32) (name : List Byte)
    (bgdtBuf inodeBuf blockBuf : Buffer) : Prop :=
  ∃ fuel out, ext2Finddir fs node name fuel bgdtBuf inodeBuf blockBuf = some out ∧
    ∀ i ∈ out.2, i < fs.blockSize.toNat

/-! ## A block -/

section Block

variable {block : Buffer} {blockSize fuel : Nat} {name : List Byte}

/-- A scan that ended has found a record of the name just if it came to one. -/
theorem dirScan_none_iff {reads : List Nat} {found : Option Nat}
    (h : dirScan block blockSize name fuel 0 = some (found, reads)) : found = none ↔
      ∀ entry, EntryReached block blockSize name entry → entryMatches block name entry = false := by
  rw [dirScan_eq_walk, Option.map_eq_some_iff] at h
  obtain ⟨w, hw, hout⟩ := h
  obtain ⟨rfl, -⟩ := Prod.mk.inj hout
  constructor
  · intro hnone entry hentry
    by_contra hmatch
    rw [Bool.not_eq_false] at hmatch
    rw [(walk_stops_iff hw).mpr ⟨hentry, hmatch⟩] at hnone
    cases hnone
  · intro hnot
    rw [Option.eq_none_iff_forall_ne_some]
    intro entry hentry
    obtain ⟨hvisited, hmatch⟩ := (walk_stops_iff hw).mp hentry
    rw [hnot entry hvisited] at hmatch
    cases hmatch

/-- A scan that ended has read what the rounds at the records it came to read. -/
theorem mem_dirScan {out : Option Nat × List Nat} (h : dirScan block blockSize name fuel 0 = some out)
    {i : Nat} :
    i ∈ out.2 ↔ ∃ entry, EntryReached block blockSize name entry ∧ i ∈ roundReads block name entry := by
  rw [dirScan_eq_walk, Option.map_eq_some_iff] at h
  obtain ⟨w, hw, rfl⟩ := h
  rw [List.mem_flatMap]
  exact exists_congr fun entry => and_congr_left' (mem_walk_iff hw)

/-- **A sound block** is scanned to its end, and what is read is in it. -/
theorem BlockSound.dirScan (h : BlockSound block blockSize name) :
    ∃ out, dirScan block blockSize name (blockSize + 1) 0 = some out ∧ ∀ i ∈ out.2, i < blockSize := by
  obtain ⟨w, hw⟩ : ∃ w, walk (entryNext block) (entryMatches block name) blockSize (blockSize + 1) 0 =
      some w := by
    refine walk_ends (fun _ => Nat.le_add_right ..) (fun entry hentry hmatch => ?_) (by omega)
    have hrecLen := (h entry hentry).2 hmatch
    rw [entryNext]
    omega
  -- what is read is what the rounds read
  have hout : ZohoOs.dirScan block blockSize name (blockSize + 1) 0 =
      some (w.2, w.1.flatMap (roundReads block name)) := by
    rw [dirScan_eq_walk, hw, Option.map_some]
  refine ⟨_, hout, fun i hi => ?_⟩
  obtain ⟨entry, hentry, hreads⟩ := (mem_dirScan hout).mp hi
  exact (h entry hentry).1 i hreads

/-- **A block that is scanned to its end**, with all that is read in it, is sound. -/
theorem blockSound_of_dirScan {out : Option Nat × List Nat}
    (h : dirScan block blockSize name fuel 0 = some out) (hreads : ∀ i ∈ out.2, i < blockSize) :
    BlockSound block blockSize name := by
  intro entry hentry
  refine ⟨fun i hi => hreads i ((mem_dirScan h).mpr ⟨entry, hentry, hi⟩), fun hmatch hzero => ?_⟩
  rw [dirScan_eq_walk, Option.map_eq_some_iff] at h
  obtain ⟨w, hw, -⟩ := h
  -- from a record without a length the walk does not get any further
  have hstuck : entryNext block entry = entry := by rw [entryNext, hzero, Nat.add_zero]
  rw [walk_stuck hentry hmatch hstuck] at hw
  cases hw

end Block

/-! ## The blocks -/

section Blocks

variable {fs : Ext2} {name : List Byte} {fuel : Nat} {blocks : List (BitVec 32)} {buffer scanned : Buffer}

/-- The blocks behind one that has no record of the name. -/
theorem finddirBlocks_later {block : BitVec 32} (hblock : block ≠ 0#32) {reads : List Nat}
    (hscan : dirScan (readBlock fs block buffer) fs.blockSize.toNat name fuel 0 = some (none, reads)) :
    finddirBlocks fs name fuel (block :: blocks) buffer =
      (finddirBlocks fs name fuel blocks (readBlock fs block buffer)).map fun later =>
        (later.1, reads ++ later.2) := by
  rw [finddirBlocks, if_neg hblock]
  simp only [hscan]

/-- The search ends at a block that has one. -/
theorem finddirBlocks_found {block : BitVec 32} (hblock : block ≠ 0#32) {entry : Nat} {reads : List Nat}
    (hscan : dirScan (readBlock fs block buffer) fs.blockSize.toNat name fuel 0 =
      some (some entry, reads)) :
    finddirBlocks fs name fuel (block :: blocks) buffer =
      some (some (ext2Node (readBlock fs block buffer) entry), reads) := by
  rw [finddirBlocks, if_neg hblock]
  simp only [hscan]

/-- **Sound blocks** are searched to the end. -/
theorem finddirBlocks_sound
    (h : ∀ scanned, Scanned fs name blocks buffer scanned → BlockSound scanned fs.blockSize.toNat name) :
    ∃ out, finddirBlocks fs name (fs.blockSize.toNat + 1) blocks buffer = some out ∧
      ∀ i ∈ out.2, i < fs.blockSize.toNat := by
  induction blocks generalizing buffer with
  | nil => exact ⟨(none, []), rfl, fun i hi => absurd hi List.not_mem_nil⟩
  | cons block blocks ih =>
    by_cases hblock : block = 0#32
    · subst hblock
      rw [finddirBlocks, if_pos rfl]
      exact ih fun scanned hscanned => h scanned hscanned.hole
    · obtain ⟨⟨found, reads⟩, hscan, hreads⟩ := (h _ (.first hblock)).dirScan
      cases found with
      | some entry => exact ⟨_, finddirBlocks_found hblock hscan, hreads⟩
      | none =>
        obtain ⟨later, hlater, hin⟩ := ih fun scanned hscanned =>
          h scanned (.later hblock ((dirScan_none_iff hscan).mp rfl) hscanned)
        refine ⟨_, by rw [finddirBlocks_later hblock hscan, hlater, Option.map_some], fun i hi => ?_⟩
        exact (List.mem_append.mp hi).elim (hreads i) (hin i)

/-- **Blocks that are searched to the end** are sound. -/
theorem blockSound_of_finddirBlocks {out : Option Ext2Node × List Nat}
    (h : finddirBlocks fs name fuel blocks buffer = some out)
    (hreads : ∀ i ∈ out.2, i < fs.blockSize.toNat) (hscanned : Scanned fs name blocks buffer scanned) :
    BlockSound scanned fs.blockSize.toNat name := by
  induction hscanned generalizing out with
  -- the first block: it is read whether or not the name is in it
  | first hblock =>
    rename_i block blocks buffer
    cases hscan : dirScan (readBlock fs block buffer) fs.blockSize.toNat name fuel 0 with
    | none =>
      rw [finddirBlocks, if_neg hblock] at h
      simp only [hscan] at h
      cases h
    | some result =>
      obtain ⟨found, reads⟩ := result
      refine blockSound_of_dirScan hscan fun i hi => hreads i ?_
      cases found with
      | some entry =>
        rw [finddirBlocks_found hblock hscan, Option.some.injEq] at h
        exact h ▸ hi
      | none =>
        rw [finddirBlocks_later hblock hscan, Option.map_eq_some_iff] at h
        obtain ⟨later, -, rfl⟩ := h
        exact List.mem_append_left _ hi
  | hole _ ih =>
    rw [finddirBlocks, if_pos rfl] at h
    exact ih h hreads
  -- a later block: the search got there as the name was not in this one
  | later hblock hnot _ ih =>
    rename_i block blocks buffer scanned _
    cases hscan : dirScan (readBlock fs block buffer) fs.blockSize.toNat name fuel 0 with
    | none =>
      rw [finddirBlocks, if_neg hblock] at h
      simp only [hscan] at h
      cases h
    | some result =>
      obtain ⟨found, reads⟩ := result
      obtain rfl := (dirScan_none_iff hscan).mpr hnot
      rw [finddirBlocks_later hblock hscan, Option.map_eq_some_iff] at h
      obtain ⟨later, hlater, rfl⟩ := h
      exact ih hlater fun i hi => hreads i (List.mem_append_right _ hi)

/-- **The searches that survive** on any contents of the blocks: those in which every block that is searched
is sound. -/
theorem ext2Finddir_survives_iff (fs : Ext2) (node : BitVec 32) (name : List Byte)
    (bgdtBuf inodeBuf blockBuf : Buffer) : SearchSurvives fs node name bgdtBuf inodeBuf blockBuf ↔
      (inodeMode (readInodeRecord fs node bgdtBuf inodeBuf) &&& 0x4000#16 ≠ 0 →
        ∀ scanned, Scanned fs name (readInode fs node bgdtBuf inodeBuf).direct blockBuf scanned →
          BlockSound scanned fs.blockSize.toNat name) := by
  rw [SearchSurvives]
  by_cases hmode : inodeMode (readInodeRecord fs node bgdtBuf inodeBuf) &&& 0x4000#16 = 0
  · refine iff_of_true ⟨0, (none, []), ?_, fun i hi => absurd hi List.not_mem_nil⟩ fun h => absurd hmode h
    rw [ext2Finddir, if_pos hmode]
  · simp only [ext2Finddir, if_neg hmode]
    constructor
    · rintro ⟨fuel, out, hout, hreads⟩ - scanned hscanned
      exact blockSound_of_finddirBlocks hout hreads hscanned
    · intro h
      exact ⟨_, finddirBlocks_sound (h hmode)⟩

/-- The root directory again, its block filled with zeros. -/
def ext2Blank : Ext2 := { ext2Root with disk := fun pos => if pos < 20480 then ext2Root.disk pos else 0#8 }

theorem ext2Blank_mode (bgdtBuf inodeBuf : Buffer) :
    inodeMode (readInodeRecord ext2Blank 2#32 bgdtBuf inodeBuf) &&& 0x4000#16 ≠ 0 := by
  have hrecord : ∀ j, readInodeRecord ext2Blank 2#32 bgdtBuf inodeBuf j = ext2Blank.disk (5248 + j) :=
    readInodeRecord_apply (fun _ => rfl) ⟨0, rfl⟩ (by decide) (by decide) (show _ = 128 by decide)
      (by decide) bgdtBuf inodeBuf
  rw [inodeMode, hrecord, hrecord]
  decide

/-- In a block of zeros the first record has no length, and the search does not end. -/
theorem ext2Finddir_stuck :
    (∀ fuel, ext2Finddir ext2Blank 2#32 [0x61] fuel (fun _ => 0) (fun _ => 0) (fun _ => 0) = none) ∧
    ¬ SearchSurvives ext2Blank 2#32 [0x61] (fun _ => 0) (fun _ => 0) (fun _ => 0) := by
  have hdirect : (readInode ext2Blank 2#32 (fun _ => 0) fun _ => 0).direct = ext2RootBlocks := by
    rw [readInode_eq (fun _ => rfl) ⟨0, rfl⟩ (by decide) (by decide) (by decide) (by decide)]
    decide
  have hstuck : ∀ fuel, ext2Finddir ext2Blank 2#32 [0x61] fuel (fun _ => 0) (fun _ => 0) (fun _ => 0) =
      none := by
    intro fuel
    -- the first record already is one that cannot be left
    have hscan : dirScan (readBlock ext2Blank 20#32 fun _ => 0) 1024 [0x61] fuel 0 = none := by
      rw [dirScan_eq_walk, walk_stuck (.start (by decide)) (by decide) (by decide)]
      rfl
    rw [ext2Finddir, if_neg (ext2Blank_mode _ _), hdirect, ext2RootBlocks, finddirBlocks,
      if_neg (by decide)]
    simp only [show ext2Blank.blockSize.toNat = 1024 from rfl, hscan]
  refine ⟨hstuck, ?_⟩
  rintro ⟨fuel, out, hout, -⟩
  rw [hstuck fuel] at hout
  cases hout

end Blocks

end ZohoOs
