import ZohoOs.Fs.ChunkedReads
import ZohoOs.Fs.Writers

/-!
# Writes within a file

`vfs_write` is to write no more than what is left of the file. It compares the end of the write with the
size in 32 bits; where the sum wraps, the count is left as it is, and the loop goes on behind the file.

## Main definitions

* `Fd.writeCount`: what the critical section makes of a count
* `OffsetsWithin`: no descriptor stands behind the end of its file
* `WritesInside`: what a call is to do

## Main results

* `vfsRun_offsetsWithin`: the offsets that can be reached
* `writeRest_run`: the loop writes just its range
* `vfsWrite_inside_iff`: when a write stays inside the file
-/

namespace ZohoOs

open Program TransitionSystem

/-! ## The critical section -/

/-- What `vfs_write` makes of a count: the sum is taken in 32 bits. -/
def Fd.writeCount (f : Fd) (count : BitVec 32) : BitVec 32 :=
  if f.offset + count > f.size then f.size - f.offset else count

/-- No descriptor stands behind the end of its file. -/
def OffsetsWithin (table : FdTable) : Prop := ∀ i, (table i).offset.toNat ≤ (table i).size.toNat

/-- `fd_table` after the boot. -/
def bootTable : FdTable := fun _ => ⟨0, 0, 0, false⟩

/-- The state after a request; the command to the drive may fail. -/
def vfsStep (e : Bool × VfsRequest) (s : Vfs) : Vfs := (Vfs.serve e.1 e.2 s).2

/-- Runs of requests, in any order. -/
abbrev VfsRun : Vfs → List (Bool × VfsRequest) → Vfs → Prop := Run (Apply vfsStep)

section Section

variable {table : FdTable} {fd : Int} {i : Fin 16} {f : Fd} {count : BitVec 32}

theorem writeSection_entry (hindex : table.index fd = some i) (count : BitVec 32) :
    writeSection table fd count =
      (.ok ⟨(table i).startLba, (table i).offset, (table i).writeCount count⟩,
        Function.update table i ((table i).advance ((table i).writeCount count).toNat)) := by
  unfold writeSection Fd.advance
  simp only [hindex, BitVec.ofNat_toNat, BitVec.setWidth_eq]
  rfl

/-- The offset after a write is again within the file. -/
theorem writeCount_within (f : Fd) (count : BitVec 32) :
    (f.advance (f.writeCount count).toNat).offset.toNat ≤ f.size.toNat := by
  have hoffset : (f.advance (f.writeCount count).toNat).offset = f.offset + f.writeCount count := by
    rw [Fd.advance, BitVec.ofNat_toNat, BitVec.setWidth_eq]
  rw [hoffset, Fd.writeCount]
  split
  · rw [BitVec.add_comm, BitVec.sub_add_cancel]
  · next hle => exact BitVec.le_def.mp (BitVec.not_lt.mp hle)

/-- **What the count becomes**: as much as is left, but where the sum wraps around to a number within
the file. -/
theorem writeCount_eq_iff (hle : f.offset.toNat ≤ f.size.toNat) :
    (f.writeCount count).toNat = min count.toNat f.left ↔
      f.offset.toNat + count.toNat < 2 ^ 32 ∨
        f.size.toNat < f.offset.toNat + count.toNat - 2 ^ 32 := by
  have hsize := f.size.isLt
  have hcount := count.isLt
  have hsub : (f.size - f.offset).toNat = f.left := by
    rw [BitVec.toNat_sub, Fd.left]
    omega
  unfold Fd.writeCount Fd.left at *
  simp only [gt_iff_lt, BitVec.lt_def, BitVec.toNat_add]
  split
  · rw [hsub]
    omega
  · omega

end Section

/-! ## Offsets that can be reached -/

section Reach

variable {s s' : Vfs} {table : FdTable}

theorem OffsetsWithin.update (h : OffsetsWithin table) {i : Fin 16} {f : Fd}
    (hf : f.offset.toNat ≤ f.size.toNat) : OffsetsWithin (Function.update table i f) := by
  intro j
  rcases eq_or_ne j i with rfl | hne
  · rwa [Function.update_self]
  · rw [Function.update_of_ne hne]
    exact h j

theorem Fd.advance_within {f : Fd} {n : Nat} (hle : f.offset.toNat ≤ f.size.toNat)
    (hn : n ≤ f.left) : (f.advance n).offset.toNat ≤ (f.advance n).size.toNat := by
  have hsize := f.size.isLt
  unfold Fd.left at hn
  rw [Fd.advance]
  dsimp only
  rw [BitVec.toNat_add, BitVec.toNat_ofNat]
  omega

/-- A request keeps the offsets within the files. -/
theorem vfsStep_offsetsWithin (h : OffsetsWithin s.fdTable) (e : Bool × VfsRequest) :
    OffsetsWithin (vfsStep e s).fdTable := by
  -- only the sections of the table can move an offset
  obtain ⟨ok, r⟩ := e
  cases r with
  | readSector => exact h
  | cachedRead lba =>
    show OffsetsWithin (cachedReadSector ok s lba).2.fdTable
    rwa [(cachedReadSector_disk ok s lba).2]
  | cachedWrite => exact h
  | sizeSection => exact h
  | openSection lba size =>
    show OffsetsWithin (openSection s.fdTable lba size).2
    unfold openSection
    split
    · exact h.update (Nat.zero_le _)
    · exact h
  | readSection fd count =>
    show OffsetsWithin (readSection s.fdTable fd count).2
    cases hindex : s.fdTable.index fd with
    | none =>
      unfold readSection
      simp only [hindex]
      exact h
    | some i =>
      rw [readSection_entry hindex count rfl]
      split
      · exact h.update (Fd.advance_within (h i) (Nat.min_le_right _ _))
      · exact h
  | writeSection fd count =>
    show OffsetsWithin (writeSection s.fdTable fd count).2
    cases hindex : s.fdTable.index fd with
    | none =>
      unfold writeSection
      simp only [hindex]
      exact h
    | some i =>
      rw [writeSection_entry hindex]
      exact h.update (writeCount_within _ count)
  | closeSection fd =>
    show OffsetsWithin (closeSection s.fdTable fd)
    unfold closeSection
    split
    · exact h.update (h _)
    · exact h

/-- **The offsets that can be reached** lie within the files. -/
theorem vfsRun_offsetsWithin {es : List (Bool × VfsRequest)} (h : VfsRun s es s')
    (hboot : s.fdTable = bootTable) : OffsetsWithin s'.fdTable := by
  refine Run.invariant (I := fun t : Vfs => OffsetsWithin t.fdTable) ?_ h ?_
  · rintro t e u ht rfl
    exact vfsStep_offsetsWithin ht e
  · rw [hboot]
    exact fun _ => Nat.le_refl 0

end Reach

/-! ## The loop -/

section Loop

variable {buffer : Buffer} {range : Reservation}

/-- **The loop of `vfs_write`** writes the bytes of its range that are left, and no others. -/
theorem writeRest_run {fuel : Nat} {done : BitVec 32} (hle : done.toNat ≤ range.count.toNat)
    (hfuel : range.count.toNat ≤ done.toNat + fuel) (sectorBuf : Sector) (s : Vfs) :
    ∃ s' : Vfs, (writeRest buffer range fuel done sectorBuf).run Vfs.serve true s =
        (range.count.toInt, s') ∧ s'.fdTable = s.fdTable ∧
      (∀ k, done.toNat ≤ k → k < range.count.toNat → s'.disk (rangePos range k) = buffer k) ∧
      ∀ pos, (∀ k, done.toNat ≤ k → k < range.count.toNat → rangePos range k ≠ pos) →
        s'.disk pos = s.disk pos := by
  have hcount := range.count.isLt
  induction fuel generalizing done sectorBuf s with
  | zero =>
    have hdone : done = range.count := BitVec.eq_of_toNat_eq (by omega)
    rw [writeRest_done (by rw [BitVec.lt_def]; omega), hdone]
    exact ⟨s, rfl, rfl, fun k h₁ h₂ => by omega, fun _ _ => rfl⟩
  | succ fuel ih =>
    by_cases hlt : done < range.count
    · have hlen := chunkLen_toNat hlt
      rw [BitVec.lt_def] at hlt
      have hnext : (done + chunkLen range done).toNat =
          done.toNat + (chunkLen range done).toNat := by
        rw [BitVec.toNat_add]
        omega
      -- the state after this round
      let t : Vfs := cachedWriteSector true s (chunkLba range done)
        (chunkPatch buffer range done (s.disk.sector (chunkLba range done)))
      have hle' : (done + chunkLen range done).toNat ≤ range.count.toNat := by omega
      obtain ⟨s', hrun, htable, hbytes, hothers⟩ := ih hle' (by omega)
        (chunkPatch buffer range done (s.disk.sector (chunkLba range done))) t
      rw [hnext] at hbytes hothers
      have hchunk := chunk_written buffer s.disk (BitVec.lt_def.mpr hlt)
      refine ⟨s', ?_, htable, ?_, ?_⟩
      · rw [writeRest_succ (BitVec.lt_def.mpr hlt), ← hrun]
        rfl
      · intro k hk hend
        by_cases hlater : done.toNat + (chunkLen range done).toNat ≤ k
        · exact hbytes k hlater hend
        · have hkeep : s'.disk (rangePos range k) = t.disk (rangePos range k) := by
            apply hothers
            intro k' hk' hend' hpos
            have heq := rangePos_inj (by omega) (by omega) hpos
            omega
          rw [hkeep]
          rcases hchunk (rangePos range k) with ⟨j, hj, hpos, hbyte⟩ | ⟨hmiss, -⟩
          · obtain rfl := rangePos_inj (by omega) (by omega) hpos
            exact hbyte
          · exact absurd (by rw [Nat.add_sub_cancel' hk]) (hmiss (k - done.toNat) (by omega))
      · intro pos hpos
        have hkeep : s'.disk pos = t.disk pos := hothers pos fun k hk => hpos k (by omega)
        rw [hkeep]
        rcases hchunk pos with ⟨j, hj, hhit, -⟩ | ⟨-, hbyte⟩
        · exact absurd hhit (hpos _ (by omega) (by omega))
        · exact hbyte
    · have hdone : done = range.count := by
        rw [BitVec.lt_def] at hlt
        exact BitVec.eq_of_toNat_eq (by omega)
      rw [writeRest_done hlt, hdone]
      exact ⟨s, rfl, rfl, fun k h₁ h₂ => by omega, fun _ _ => rfl⟩

/-- Where the bytes of a range lie, if it does not wrap. -/
theorem rangePos_linear {k : Nat} (hk : range.offset.toNat + k < 2 ^ 32) : rangePos range k =
    (512 * range.startLba.toNat + range.offset.toNat + k) % 2 ^ 37 := by
  have hoffset : (range.offset + BitVec.ofNat 32 k).toNat = range.offset.toNat + k := by
    rw [BitVec.toNat_add, BitVec.toNat_ofNat]
    omega
  rw [rangePos, filePos, sectorStart_linear, hoffset, Nat.add_assoc]

end Loop

/-! ## Calls -/

/-- **What `vfs_write` is to do**: as many bytes of the buffer as are left in the file are written from
the offset on, the drive is otherwise as it was, and the descriptor moves on by as many as the call
returns. -/
structure WritesInside (s : Vfs) (i : Fin 16) (buffer : Buffer) (count : BitVec 32)
    (result : Int × Vfs) : Prop where
  returns : result.1 = (min count.toNat (s.fdTable i).left : Nat)
  bytes : ∀ k < min count.toNat (s.fdTable i).left,
    result.2.disk ((512 * (s.fdTable i).startLba.toNat + (s.fdTable i).offset.toNat + k) % 2 ^ 37) =
      buffer k
  others : ∀ pos, (∀ k < min count.toNat (s.fdTable i).left,
    (512 * (s.fdTable i).startLba.toNat + (s.fdTable i).offset.toNat + k) % 2 ^ 37 ≠ pos) →
      result.2.disk pos = s.disk pos
  advances : (result.2.fdTable i).offset.toNat =
    (s.fdTable i).offset.toNat + min count.toNat (s.fdTable i).left

section Calls

variable {s₀ s : Vfs} {es : List (Bool × VfsRequest)} {fd : Int} {i : Fin 16}

/-- **One call of `vfs_write`**: its range is what the critical section makes of the count. -/
theorem vfsWrite_run (hindex : s.fdTable.index fd = some i) (stack : Sector) (buffer : Buffer)
    (count : BitVec 32) : ∃ s' : Vfs,
      (vfsWrite stack fd buffer count).run Vfs.serve true s =
        (((s.fdTable i).writeCount count).toInt, s') ∧
      s'.fdTable i = (s.fdTable i).advance ((s.fdTable i).writeCount count).toNat ∧
      (∀ k < ((s.fdTable i).writeCount count).toNat, s'.disk (rangePos ⟨(s.fdTable i).startLba,
        (s.fdTable i).offset, (s.fdTable i).writeCount count⟩ k) = buffer k) ∧
      ∀ pos, (∀ k < ((s.fdTable i).writeCount count).toNat, rangePos ⟨(s.fdTable i).startLba,
        (s.fdTable i).offset, (s.fdTable i).writeCount count⟩ k ≠ pos) → s'.disk pos = s.disk pos := by
  have hsec := writeSection_entry hindex count
  generalize (s.fdTable i).writeCount count = n at *
  let range : Reservation := ⟨(s.fdTable i).startLba, (s.fdTable i).offset, n⟩
  let t : Vfs := { s with
    fdTable := Function.update s.fdTable i ((s.fdTable i).advance n.toNat) }
  have hle : (0 : BitVec 32).toNat ≤ range.count.toNat := Nat.zero_le _
  have hfuel : range.count.toNat ≤ (0 : BitVec 32).toNat + range.count.toNat :=
    Nat.le_add_left _ _
  obtain ⟨s', hrun, htable, hbytes, hothers⟩ :=
    @writeRest_run buffer range _ _ hle hfuel stack t
  refine ⟨s', ?_, ?_, ?_, ?_⟩
  · rw [vfsWrite_eq, Prog.run]
    simp only [Vfs.serve, hsec]
    exact hrun
  · rw [htable]
    exact Function.update_self i _ s.fdTable
  · exact fun k hk => hbytes k (Nat.zero_le k) hk
  · exact fun pos hpos => hothers pos fun k _ hk => hpos k hk

/-- **When a write stays inside the file.** On a descriptor that can be reached, `vfs_write` does what
it is to do just if the sum of offset and count does not wrap around to a number within the file, and
the number written fits what the call returns. -/
theorem vfsWrite_inside_iff (hboot : s₀.fdTable = bootTable) (hreach : VfsRun s₀ es s)
    (hindex : s.fdTable.index fd = some i) (stack : Sector) (buffer : Buffer) (count : BitVec 32) :
    WritesInside s i buffer count ((vfsWrite stack fd buffer count).run Vfs.serve true s) ↔
      ((s.fdTable i).offset.toNat + count.toNat < 2 ^ 32 ∨
        (s.fdTable i).size.toNat < (s.fdTable i).offset.toNat + count.toNat - 2 ^ 32) ∧
      min count.toNat (s.fdTable i).left < 2 ^ 31 := by
  have hle := vfsRun_offsetsWithin hreach hboot i
  have hcount := count.isLt
  have hsize := (s.fdTable i).size.isLt
  have hclamp : ((s.fdTable i).writeCount count).toNat = min count.toNat (s.fdTable i).left ↔
      _ := writeCount_eq_iff hle
  obtain ⟨s', hrun, hentry, hbytes, hothers⟩ := vfsWrite_run hindex stack buffer count
  rw [hrun, ← hclamp]
  have hint := BitVec.toInt_eq_toNat_cond ((s.fdTable i).writeCount count)
  have hoffset : (s'.fdTable i).offset.toNat =
      ((s.fdTable i).offset.toNat + ((s.fdTable i).writeCount count).toNat) % 2 ^ 32 := by
    rw [hentry, Fd.advance, BitVec.ofNat_toNat, BitVec.setWidth_eq, BitVec.toNat_add]
  have hleft : (s.fdTable i).left = (s.fdTable i).size.toNat - (s.fdTable i).offset.toNat := rfl
  constructor
  · intro h
    have hreturns := h.returns
    have hadvances := h.advances
    -- a count that is left as it is moves the offset back
    have hwritten : ((s.fdTable i).writeCount count).toNat = min count.toNat (s.fdTable i).left := by
      have hlt := ((s.fdTable i).writeCount count).isLt
      dsimp only at hadvances
      omega
    refine ⟨hwritten, ?_⟩
    dsimp only at hreturns
    rw [hint, hwritten] at hreturns
    split at hreturns
    · omega
    · omega
  · rintro ⟨hwritten, hsmall⟩
    have hlinear : ∀ k < min count.toNat (s.fdTable i).left,
        rangePos ⟨(s.fdTable i).startLba, (s.fdTable i).offset, (s.fdTable i).writeCount count⟩ k =
          (512 * (s.fdTable i).startLba.toNat + (s.fdTable i).offset.toNat + k) % 2 ^ 37 := by
      intro k hk
      apply rangePos_linear
      show (s.fdTable i).offset.toNat + k < 2 ^ 32
      omega
    rw [hwritten] at hbytes hothers
    refine ⟨?_, ?_, ?_, ?_⟩
    · dsimp only
      rw [hint, hwritten, if_pos (by omega)]
    · intro k hk
      rw [← hlinear k hk]
      exact hbytes k hk
    · intro pos hpos
      apply hothers
      intro k hk
      rw [hlinear k hk]
      exact hpos k hk
    · dsimp only
      rw [hoffset, hwritten]
      omega

end Calls

/-! ## A sum that wraps -/

/-- A drive of zeros after the boot. -/
def bootVfs : Vfs := ⟨fun _ => 0, ⟨0, fun _ => 0, false⟩, bootTable⟩

/-- A file of 100 bytes is opened, and its first byte is read. -/
def hundredBytes : Vfs :=
  vfsStep (true, .readSection 0 1) (vfsStep (true, .openSection 1 100) bootVfs)

theorem hundredBytes_reached :
    VfsRun bootVfs [(true, .openSection 1 100), (true, .readSection 0 1)] hundredBytes :=
  (Run.single rfl).snoc rfl

theorem hundredBytes_index : hundredBytes.fdTable.index 0 = some 0 := by decide

theorem hundredBytes_entry : hundredBytes.fdTable 0 = ⟨1, 100, 1, true⟩ := rfl

/-- A sector and a buffer of ones. -/
def onesSector : Sector := fun _ => 1

def onesBuffer : Buffer := fun _ => 1

/-- Five bytes behind the first. -/
theorem vfsWrite_inside_five : WritesInside hundredBytes 0 onesBuffer 5
    ((vfsWrite onesSector 0 onesBuffer 5).run Vfs.serve true hundredBytes) :=
  (vfsWrite_inside_iff rfl hundredBytes_reached hundredBytes_index onesSector onesBuffer 5).mpr
    (by decide)

/-- **A count that is not cut.** Offset 1 and a count of `2 ^ 32 - 1` add up to 0, which is within the
file: the call is to write 99 bytes, and moves the descriptor back to the start. -/
theorem vfsWrite_wraps :
    VfsRun bootVfs [(true, .openSection 1 100), (true, .readSection 0 1)] hundredBytes ∧
    ¬ WritesInside hundredBytes 0 onesBuffer 0xFFFFFFFF
      ((vfsWrite onesSector 0 onesBuffer 0xFFFFFFFF).run Vfs.serve true hundredBytes) := by
  refine ⟨hundredBytes_reached, fun h => ?_⟩
  obtain ⟨s', hrun, hentry, -⟩ :=
    vfsWrite_run hundredBytes_index onesSector onesBuffer 0xFFFFFFFF
  have hadvances := h.advances
  rw [hrun] at hadvances
  dsimp only at hadvances
  rw [hentry, hundredBytes_entry] at hadvances
  exact absurd hadvances (by decide)

end ZohoOs
