import ZohoOs.Fs.Vfs

/-!
# What the calls read

On a drive whose commands are carried out and that is not written to, each request for a sector has one
answer, whatever other requests come in between. What `vfs_read` copies is then a function of the range
it has reserved.

## Main definitions

* `fileByte`: the bytes of the drive from an address on, as the loops of `vfs.c` find them
* `diskAnswer`: the answers of a drive that is not written to
* `Vfs.Coherent`: the cache holds the sector it is tagged with
* `bufferAfter`, `readRange`: what `vfs_read` does with a range it has reserved
* `StandsAt`: a descriptor stands at an offset of a file

## Main results

* `Vfs.serve_coherent`: the cache stays coherent while commands are carried out
* `readLoop_eval`, `readRange_eval`: what `vfs_read` copies
* `readSection_entry`: what the critical section of `vfs_read` reserves
-/

namespace ZohoOs

open Program

/-- The byte at an offset of a file that starts at an address. -/
def fileByte (disk : Disk) (startLba : BitVec 32) (offset : Nat) : Byte :=
  disk (sectorStart (startLba + BitVec.ofNat 32 (offset / 512)) + offset % 512)

/-- The answers of a drive with these bytes. -/
def diskAnswer (disk : Disk) : (r : VfsRequest) → VfsAnswer r
  | .readSector lba _ => disk.sector lba
  | .cachedRead lba => disk.sector lba
  | .cachedWrite .. => ()
  | .openSection .. => (-1 : Int)
  | .readSection .. => .error (-1)
  | .writeSection .. => .error (-1)
  | .sizeSection _ => (0 : BitVec 32)
  | .closeSection _ => ()

/-- The request reads a sector. -/
def VfsRequest.IsRead : VfsRequest → Prop
  | .readSector .. => True
  | .cachedRead .. => True
  | _ => False

/-- The request reads a sector around the cache. -/
def VfsRequest.IsDirect : VfsRequest → Prop
  | .readSector .. => True
  | _ => False

theorem VfsRequest.IsDirect.isRead {r : VfsRequest} (h : r.IsDirect) : r.IsRead := by
  cases r with
  | readSector => trivial
  | _ => exact h.elim

/-- **The cache is coherent**: if it is valid it holds the sector it is tagged with. -/
def Vfs.Coherent (s : Vfs) : Prop :=
  s.cache.valid = true → s.cache.data = s.disk.sector s.cache.lba

section Coherence

variable {s : Vfs} {lba : BitVec 32} {buffer : Sector}

theorem Sector.byte_lt {sector : Sector} {i : Nat} (h : i < 512) : sector.byte i = sector ⟨i, h⟩ :=
  dif_pos h

theorem Disk.byte_sector (disk : Disk) (lba : BitVec 32) {i : Nat} (h : i < 512) :
    (disk.sector lba).byte i = disk (sectorStart lba + i) :=
  Sector.byte_lt h

/-- A sector that was written reads as it was written. -/
theorem sector_ataWriteSector (disk : Disk) (lba : BitVec 32) (buffer : Sector) :
    (ataWriteSector true disk lba buffer).sector lba = buffer := by
  funext i
  have hi := i.isLt
  simp only [ataWriteSector, Disk.sector, if_true]
  rw [dif_pos (by omega)]
  congr
  exact Nat.add_sub_cancel_left _ _

theorem cachedReadSector_coherent (h : s.Coherent) (lba : BitVec 32) :
    (cachedReadSector true s lba).1 = s.disk.sector lba ∧
      (cachedReadSector true s lba).2.Coherent := by
  unfold cachedReadSector
  by_cases hhit : s.cache.valid ∧ s.cache.lba = lba
  · rw [if_pos hhit]
    exact ⟨hhit.2 ▸ h hhit.1, h⟩
  · rw [if_neg hhit]
    exact ⟨rfl, fun _ => rfl⟩

theorem cachedReadSector_disk (ok : Bool) (s : Vfs) (lba : BitVec 32) :
    (cachedReadSector ok s lba).2.disk = s.disk ∧
      (cachedReadSector ok s lba).2.fdTable = s.fdTable := by
  unfold cachedReadSector
  split
  · exact ⟨rfl, rfl⟩
  · exact ⟨rfl, rfl⟩

theorem cachedWriteSector_coherent (s : Vfs) (lba : BitVec 32) (buffer : Sector) :
    (cachedWriteSector true s lba buffer).Coherent :=
  fun _ => (sector_ataWriteSector s.disk lba buffer).symm

/-- **While commands are carried out, the cache stays coherent.** -/
theorem Vfs.serve_coherent (h : s.Coherent) (r : VfsRequest) : (Vfs.serve true r s).2.Coherent := by
  cases r with
  | cachedRead lba => exact (cachedReadSector_coherent h lba).2
  | cachedWrite lba buffer => exact cachedWriteSector_coherent s lba buffer
  | readSector => exact h
  | openSection => exact h
  | readSection => exact h
  | writeSection => exact h
  | sizeSection => exact h
  | closeSection => exact h

/-- A read is answered by the drive, and leaves it and the descriptors as they are. -/
theorem Vfs.serve_read (h : s.Coherent) {r : VfsRequest} (hr : r.IsRead) :
    (Vfs.serve true r s).1 = diskAnswer s.disk r ∧ (Vfs.serve true r s).2.disk = s.disk ∧
      (Vfs.serve true r s).2.fdTable = s.fdTable := by
  cases r with
  | readSector lba buffer => exact ⟨rfl, rfl, rfl⟩
  | cachedRead lba =>
    exact ⟨(cachedReadSector_coherent h lba).1, cachedReadSector_disk true s lba⟩
  | _ => exact hr.elim

/-- **A program that only reads**: its result is determined by the drive. -/
theorem Vfs.run_reads {α : Type} {p : VfsProg α} (hp : p.Asks VfsRequest.IsRead) (h : s.Coherent) :
    (p.run Vfs.serve true s).1 = p.eval (diskAnswer s.disk) ∧
      (p.run Vfs.serve true s).2.Coherent ∧ (p.run Vfs.serve true s).2.disk = s.disk ∧
        (p.run Vfs.serve true s).2.fdTable = s.fdTable := by
  refine Prog.run_eq_eval
    (I := fun t : Vfs => t.Coherent ∧ t.disk = s.disk ∧ t.fdTable = s.fdTable) ?_ hp ⟨h, rfl, rfl⟩
  rintro r t hr ⟨hcoh, hdisk, htable⟩
  obtain ⟨hanswer, hdisk', htable'⟩ := Vfs.serve_read hcoh hr
  exact ⟨by rw [hanswer, hdisk], Vfs.serve_coherent hcoh r, hdisk'.trans hdisk, htable'.trans htable⟩

/-- **A program that reads around the cache** leaves everything as it is. -/
theorem Vfs.run_direct {α : Type} {p : VfsProg α} (hp : p.Asks VfsRequest.IsDirect) (s : Vfs) :
    p.run Vfs.serve true s = (p.eval (diskAnswer s.disk), s) := by
  have hserve : ∀ (r : VfsRequest) (t : Vfs), r.IsDirect → t = s →
      (Vfs.serve true r t).1 = diskAnswer s.disk r ∧ (Vfs.serve true r t).2 = s := by
    rintro r t hr rfl
    cases r with
    | readSector lba buffer => exact ⟨rfl, rfl⟩
    | _ => exact hr.elim
  obtain ⟨hresult, hstate⟩ := Prog.run_eq_eval (I := fun t : Vfs => t = s) hserve hp rfl
  exact Prod.ext hresult hstate

end Coherence

/-! ## The loop of `vfs_read` -/

section Loop

variable {startLba count offset bytesRead : BitVec 32}

theorem chunkSize_toNat {done : BitVec 32} (h : done < count) : (chunkSize offset count done).toNat =
    min (512 - offset.toNat % 512) (count.toNat - done.toNat) := by
  rw [BitVec.lt_def] at h
  have hcount := count.isLt
  have hsub : (count - done).toNat = count.toNat - done.toNat := by
    rw [BitVec.toNat_sub]
    omega
  have hchunk : (512 - offset % 512).toNat = 512 - offset.toNat % 512 := by
    rw [BitVec.toNat_sub, BitVec.toNat_umod, show (512 : BitVec 32).toNat = 512 from rfl]
    omega
  unfold chunkSize
  simp only [gt_iff_lt, BitVec.lt_def, hsub, hchunk]
  split
  · rw [hsub]
    omega
  · rw [hchunk]
    omega

theorem readLoop_asks (startLba count : BitVec 32) (fuel : Nat) (bytesRead offset : BitVec 32)
    (sectorBuf : Sector) (buffer : Buffer) :
    (readLoop startLba count fuel bytesRead offset sectorBuf buffer).Asks VfsRequest.IsDirect := by
  induction fuel generalizing bytesRead offset sectorBuf buffer with
  | zero => trivial
  | succ fuel ih =>
    unfold readLoop
    split
    · dsimp only
      split
      · exact ⟨trivial, fun data => ih _ _ _ _⟩
      · exact ⟨trivial, fun data => ih _ _ _ _⟩
    · trivial

/-- A chunk lies in one sector, the one of its first byte. -/
theorem fileByte_chunk (disk : Disk) (startLba offset : BitVec 32) {i : Nat}
    (h : offset.toNat % 512 + i < 512) :
    (disk.sector (startLba + offset / 512)).byte (offset.toNat % 512 + i) =
      fileByte disk startLba (offset.toNat + i) := by
  have hdiv : offset / 512 = BitVec.ofNat 32 ((offset.toNat + i) / 512) := by
    apply BitVec.eq_of_toNat_eq
    have := offset.isLt
    rw [BitVec.toNat_udiv, BitVec.toNat_ofNat, show (512 : BitVec 32).toNat = 512 from rfl]
    omega
  rw [Disk.byte_sector disk _ h, fileByte, hdiv]
  congr 2
  omega

/-- Where the next round of the loop of `vfs_read` starts. -/
theorem chunk_next {count bytesRead offset : BitVec 32} {first : Nat} (hlt : bytesRead < count)
    (hoffset : offset.toNat = first + bytesRead.toNat) (hend : first + count.toNat < 2 ^ 32) :
    (bytesRead + chunkSize offset count bytesRead).toNat =
        bytesRead.toNat + (chunkSize offset count bytesRead).toNat ∧
      (offset + chunkSize offset count bytesRead).toNat =
        first + (bytesRead + chunkSize offset count bytesRead).toNat := by
  have hchunk : (chunkSize offset count bytesRead).toNat =
      min (512 - offset.toNat % 512) (count.toNat - bytesRead.toNat) := chunkSize_toNat hlt
  rw [BitVec.lt_def] at hlt
  have hbytes : (bytesRead + chunkSize offset count bytesRead).toNat =
      bytesRead.toNat + (chunkSize offset count bytesRead).toNat := by
    rw [BitVec.toNat_add]
    omega
  refine ⟨hbytes, ?_⟩
  rw [hbytes, BitVec.toNat_add]
  omega

/-- **What the loop of `vfs_read` copies**: the bytes of the file, from the offset where it starts. -/
theorem readLoop_eval (disk : Disk) (startLba count : BitVec 32) {first fuel : Nat}
    {bytesRead offset : BitVec 32} (hoffset : offset.toNat = first + bytesRead.toNat)
    (hle : bytesRead.toNat ≤ count.toNat) (hend : first + count.toNat < 2 ^ 32)
    (hfuel : count.toNat ≤ bytesRead.toNat + fuel) (sectorBuf : Sector) (buffer : Buffer) :
    (readLoop startLba count fuel bytesRead offset sectorBuf buffer).eval (diskAnswer disk) =
      (count, fun i => if bytesRead.toNat ≤ i ∧ i < count.toNat then
        fileByte disk startLba (first + i) else buffer i) := by
  induction fuel generalizing bytesRead offset sectorBuf buffer with
  | zero =>
    have heq : bytesRead = count := BitVec.eq_of_toNat_eq (by omega)
    subst heq
    exact Prod.ext rfl (funext fun i => (if_neg (by omega)).symm)
  | succ fuel ih =>
    unfold readLoop
    split
    · next hlt =>
      have hchunk : (chunkSize offset count bytesRead).toNat =
          min (512 - offset.toNat % 512) (count.toNat - bytesRead.toNat) := chunkSize_toNat hlt
      obtain ⟨hbytes, hnext⟩ := chunk_next hlt hoffset hend
      rw [BitVec.lt_def] at hlt
      -- both branches copy the chunk out of its sector
      have hcopy : ∀ sectorBuf' : Sector,
          (readLoop startLba count fuel (bytesRead + chunkSize offset count bytesRead)
            (offset + chunkSize offset count bytesRead) sectorBuf'
            (copyInto buffer bytesRead.toNat
              (fun i => (disk.sector (startLba + offset / 512)).byte ((offset % 512).toNat + i))
              (chunkSize offset count bytesRead).toNat)).eval (diskAnswer disk) =
          (count, fun i => if bytesRead.toNat ≤ i ∧ i < count.toNat then
            fileByte disk startLba (first + i) else buffer i) := by
        intro sectorBuf'
        rw [ih hnext (by omega) (by omega)]
        refine Prod.ext rfl (funext fun i => ?_)
        have hmod : (offset % 512).toNat = offset.toNat % 512 := by
          rw [BitVec.toNat_umod, show (512 : BitVec 32).toNat = 512 from rfl]
        simp only [copyInto, hbytes, hmod]
        by_cases hlater : bytesRead.toNat + (chunkSize offset count bytesRead).toNat ≤ i ∧
            i < count.toNat
        · rw [if_pos hlater, if_pos (by omega)]
        · rw [if_neg hlater]
          by_cases hnow : bytesRead.toNat ≤ i ∧
              i < bytesRead.toNat + (chunkSize offset count bytesRead).toNat
          · have hi : first + bytesRead.toNat + (i - bytesRead.toNat) = first + i := by omega
            rw [if_pos hnow, if_pos (by omega), fileByte_chunk disk startLba offset (by omega),
              hoffset, hi]
          · rw [if_neg hnow, if_neg (by omega)]
      dsimp only
      split
      · next hfull =>
        have hdata : (disk.sector (startLba + offset / 512)).byte =
            fun i => (disk.sector (startLba + offset / 512)).byte ((offset % 512).toNat + i) := by
          rw [hfull.1]
          funext i
          exact congrArg _ (Nat.zero_add i).symm
        have h512 : (512 : Nat) = (chunkSize offset count bytesRead).toNat := by
          rw [hfull.2]
          rfl
        refine Eq.trans ?_ (hcopy sectorBuf)
        rw [← hdata, ← h512]
        rfl
      · exact hcopy _
    · next hge =>
      have heq : bytesRead = count := by
        rw [BitVec.lt_def] at hge
        exact BitVec.eq_of_toNat_eq (by omega)
      subst heq
      exact Prod.ext rfl (funext fun i => (if_neg (by omega)).symm)

/-- A buffer after bytes of a file were copied to its start. -/
def bufferAfter (disk : Disk) (lba : BitVec 32) (offset n : Nat) (buffer : Buffer) : Buffer :=
  fun i => if i < n then fileByte disk lba (offset + i) else buffer i

theorem bufferAfter_zero (disk : Disk) (lba : BitVec 32) (offset : Nat) (buffer : Buffer) :
    bufferAfter disk lba offset 0 buffer = buffer :=
  funext fun i => if_neg (Nat.not_lt_zero i)

/-- What `vfs_read` does with a range it has reserved. -/
def readRange (stack : Sector) (buffer : Buffer) (range : Reservation) : VfsProg (Int × Buffer) := do
  let (bytesRead, buffer) ←
    readLoop range.startLba range.count range.count.toNat 0 range.offset stack buffer
  pure (bytesRead.toInt, buffer)

/-- `vfs_read` reserves a range, and copies it. -/
theorem vfsRead_eq (stack : Sector) (fd : Int) (buffer : Buffer) (count : BitVec 32) :
    vfsRead stack fd buffer count =
      .ask (.readSection fd count) fun reserved : Except Int Reservation =>
        match reserved with
        | .error result => .done (result, buffer)
        | .ok range => readRange stack buffer range :=
  rfl

theorem readRange_asks (stack : Sector) (buffer : Buffer) (range : Reservation) :
    (readRange stack buffer range).Asks VfsRequest.IsDirect :=
  (readLoop_asks ..).bind fun _ => trivial

/-- **The bytes of a range are copied.** -/
theorem readRange_eval (disk : Disk) (stack : Sector) (buffer : Buffer) {range : Reservation}
    (hend : range.offset.toNat + range.count.toNat < 2 ^ 32) (hsmall : range.count.toNat < 2 ^ 31) :
    (readRange stack buffer range).eval (diskAnswer disk) = ((range.count.toNat : Int),
      bufferAfter disk range.startLba range.offset.toNat range.count.toNat buffer) := by
  have hstart : range.offset.toNat = range.offset.toNat + (0 : BitVec 32).toNat := rfl
  have hfuel : range.count.toNat ≤ (0 : BitVec 32).toNat + range.count.toNat := Nat.le_add_left _ _
  have hloop := readLoop_eval disk range.startLba range.count hstart (Nat.zero_le _) hend hfuel
    stack buffer
  have hint : range.count.toInt = range.count.toNat := by
    rw [BitVec.toInt_eq_toNat_cond, if_pos (by omega)]
  rw [readRange, Prog.eval_bind, hloop]
  refine Prod.ext hint (funext fun i => ?_)
  show (if (0 : BitVec 32).toNat ≤ i ∧ i < range.count.toNat then _ else _) = _
  simp only [show (0 : BitVec 32).toNat = 0 from rfl, Nat.zero_le, true_and]
  rfl

end Loop

/-! ## Descriptors -/

/-- **A descriptor stands at an offset of a file**: of this size, from this address on. -/
structure StandsAt (table : FdTable) (fd : Int) (lba : BitVec 32) (size offset : Nat) : Prop where
  index : ∃ i, table.index fd = some i ∧ (table i).startLba = lba ∧
    (table i).size.toNat = size ∧ (table i).offset.toNat = offset
  le : offset ≤ size

section Descriptors

variable {table : FdTable} {fd : Int} {lba : BitVec 32} {size offset : Nat} {i : Fin 16}

theorem FdTable.index_val (h : (table i).inUse = true) : table.index i.val = some i := by
  have hlt := i.isLt
  unfold FdTable.index
  rw [dif_pos (by omega)]
  have hi : (⟨(i.val : Int).toNat, by omega⟩ : Fin 16) = i := Fin.ext (Int.toNat_natCast _)
  simp only [hi, h, if_true]

/-- The entry of a descriptor is in use. -/
theorem FdTable.index_some (h : table.index fd = some i) : fd = i.val ∧ (table i).inUse = true := by
  unfold FdTable.index at h
  split at h
  · next hfd =>
    dsimp only at h
    split at h
    · next huse =>
      obtain rfl := Option.some.inj h
      exact ⟨(Int.toNat_of_nonneg hfd.1).symm, huse⟩
    · cases h
  · cases h

/-- A descriptor stays open while its entry is in use. -/
theorem FdTable.index_update {f : Fd} (h : table.index fd = some i) (hf : f.inUse = true) :
    FdTable.index (Function.update table i f) fd = some i := by
  rw [(FdTable.index_some h).1]
  apply FdTable.index_val
  rw [Function.update_self]
  exact hf

/-- What is left of a file. -/
def Fd.left (f : Fd) : Nat := f.size.toNat - f.offset.toNat

/-- A descriptor that has moved on. -/
def Fd.advance (f : Fd) (n : Nat) : Fd := { f with offset := f.offset + BitVec.ofNat 32 n }

/-- **The critical section of `vfs_read`**: the next bytes of the file, as many as are asked for and
left. -/
theorem readSection_entry (hindex : table.index fd = some i) (count : BitVec 32) {n : Nat}
    (hn : n = min count.toNat (table i).left) :
    readSection table fd count =
      if (table i).offset.toNat < (table i).size.toNat then
        (.ok ⟨(table i).startLba, (table i).offset, BitVec.ofNat 32 n⟩,
          Function.update table i ((table i).advance n))
      else (.error 0, table) := by
  unfold ZohoOs.readSection
  simp only [hindex]
  by_cases hend : (table i).offset ≥ (table i).size
  · rw [if_pos hend, if_neg (Nat.not_lt.mpr (BitVec.le_def.mp hend))]
  · have hlt := Nat.lt_of_not_le fun hle => hend (BitVec.le_def.mpr hle)
    -- what is left does not go below zero, as the offset is within the file
    have hsub : ((table i).size - (table i).offset).toNat = (table i).left := by
      have := (table i).size.isLt
      rw [BitVec.toNat_sub, Fd.left]
      omega
    have hclip : (if count > (table i).size - (table i).offset then
        (table i).size - (table i).offset else count) = BitVec.ofNat 32 n := by
      apply BitVec.eq_of_toNat_eq
      have := count.isLt
      rw [BitVec.toNat_ofNat, Nat.mod_eq_of_lt (by omega), hn]
      simp only [gt_iff_lt, BitVec.lt_def, hsub]
      split
      · rw [hsub]
        omega
      · omega
    rw [if_neg hend, if_pos hlt, hclip]
    rfl

/-- What is reserved of a file that the descriptor stands in. -/
theorem StandsAt.readSection (h : StandsAt table fd lba size offset) (count : BitVec 32) :
    (offset = size ∧ ZohoOs.readSection table fd count = (.error 0, table)) ∨
    (offset < size ∧ ∃ range table', ZohoOs.readSection table fd count = (.ok range, table') ∧
      range.startLba = lba ∧ range.offset.toNat = offset ∧
      range.count.toNat = min count.toNat (size - offset) ∧
      StandsAt table' fd lba size (offset + range.count.toNat)) := by
  obtain ⟨⟨i, hindex, hlba, hsize, hoffset⟩, hle⟩ := h
  have hleft : (table i).left = size - offset := by
    rw [Fd.left, hsize, hoffset]
  rw [readSection_entry hindex count rfl, hleft, hsize, hoffset]
  by_cases hend : offset < size
  · right
    -- what is reserved is within the file, so the offset does not wrap
    have hlt := (table i).size.isLt
    generalize hn : min count.toNat (size - offset) = n
    have hcount : (BitVec.ofNat 32 n).toNat = n := by
      rw [BitVec.toNat_ofNat]
      omega
    have hnext : ((table i).offset + BitVec.ofNat 32 n).toNat = offset + n := by
      rw [BitVec.toNat_add, hoffset, hcount]
      omega
    rw [if_pos hend]
    refine ⟨hend, ⟨(table i).startLba, (table i).offset, BitVec.ofNat 32 n⟩, _, rfl, hlba, hoffset,
      hcount, ⟨i, ?_, ?_, ?_, ?_⟩, ?_⟩
    · exact FdTable.index_update hindex (FdTable.index_some hindex).2
    · rw [Function.update_self]
      exact hlba
    · rw [Function.update_self]
      exact hsize
    · rw [Function.update_self, hcount]
      exact hnext
    · rw [hcount]
      omega
  · left
    rw [if_neg hend]
    exact ⟨Nat.le_antisymm hle (Nat.le_of_not_lt hend), rfl⟩

end Descriptors

end ZohoOs
