import ZohoOs.Fs.Readers

/-!
# Reading in chunks

One call of `vfs_read` after the other on a descriptor, with any counts: together they return the bytes
of one range of the drive, and leave the descriptor where a single call for all of them would.

## Main definitions

* `Disk.range`: a range of the drive
* `Vfs.advance`: a descriptor moves on
* `readCalls`: calls of `vfs_read`, one after the other

## Main results

* `vfsRead_entry`: what one call returns, and what it leaves
* `readCalls_eq`: what a list of calls returns, and what it leaves
* `readCalls_chunks`: reads are chunk-independent
-/

namespace ZohoOs

open Program

/-! ## Ranges -/

/-- A range of the drive. The driver passes on 28 bits of a sector's number, so that the drive has
`2 ^ 37` bytes. -/
def Disk.range (disk : Disk) (start n : Nat) : List Byte :=
  (List.range n).map fun k => disk ((start + k) % 2 ^ 37)

/-- The bytes of a file lie behind each other. -/
theorem sectorStart_linear (startLba : BitVec 32) (offset : Nat) :
    sectorStart (startLba + BitVec.ofNat 32 (offset / 512)) + offset % 512 =
      (512 * startLba.toNat + offset) % 2 ^ 37 := by
  rw [sectorStart, BitVec.toNat_add, BitVec.toNat_ofNat]
  omega

theorem fileBytes_eq_range (disk : Disk) (lba : BitVec 32) (offset n : Nat) :
    fileBytes disk lba offset n = disk.range (512 * lba.toNat + offset) n := by
  unfold fileBytes Disk.range
  apply List.map_congr_left
  intro k _
  rw [fileByte, sectorStart_linear, Nat.add_assoc]

/-! ## Descriptors that move on -/

/-- A descriptor moves on by `n` bytes. -/
def Vfs.advance (s : Vfs) (i : Fin 16) (n : Nat) : Vfs :=
  { s with fdTable := Function.update s.fdTable i ((s.fdTable i).advance n) }

section Advance

variable {s : Vfs} {fd : Int} {i : Fin 16} {m n : Nat}

theorem Fd.advance_zero (f : Fd) : f.advance 0 = f := by
  have hoffset : f.offset + BitVec.ofNat 32 0 = f.offset := BitVec.add_zero f.offset
  rw [Fd.advance, hoffset]

theorem Fd.advance_advance (f : Fd) : (f.advance m).advance n = f.advance (m + n) := by
  unfold Fd.advance
  dsimp only
  rw [BitVec.add_assoc, ← BitVec.ofNat_add]

theorem Vfs.advance_entry : (s.advance i n).fdTable i = (s.fdTable i).advance n :=
  Function.update_self i _ s.fdTable

theorem Vfs.advance_zero : s.advance i 0 = s := by
  rw [Vfs.advance, Fd.advance_zero, Function.update_eq_self]

theorem Vfs.advance_advance : (s.advance i m).advance i n = s.advance i (m + n) := by
  rw [Vfs.advance, Vfs.advance_entry, Fd.advance_advance, Vfs.advance, Function.update_idem]
  rfl

theorem Vfs.advance_index (h : s.fdTable.index fd = some i) :
    (s.advance i n).fdTable.index fd = some i :=
  FdTable.index_update (f := (s.fdTable i).advance n) h (FdTable.index_some h).2

/-- The offset stays within the range of its type while there is as much left. -/
theorem Vfs.advance_offset (hn : n ≤ (s.fdTable i).left) :
    ((s.advance i n).fdTable i).offset.toNat = (s.fdTable i).offset.toNat + n := by
  have hsize := (s.fdTable i).size.isLt
  have hoffset := (s.fdTable i).offset.isLt
  unfold Fd.left at hn
  rw [Vfs.advance_entry, Fd.advance]
  dsimp only
  rw [BitVec.toNat_add, BitVec.toNat_ofNat]
  omega

theorem Vfs.advance_left (hn : n ≤ (s.fdTable i).left) :
    ((s.advance i n).fdTable i).left = (s.fdTable i).left - n := by
  have hoffset := Vfs.advance_offset hn
  have hsize : ((s.advance i n).fdTable i).size = (s.fdTable i).size := by
    rw [Vfs.advance_entry, Fd.advance]
  rw [Fd.left, hoffset, hsize, Fd.left, Nat.sub_sub]

end Advance

/-! ## Calls -/

/-- Calls of `vfs_read` on a descriptor, one after the other. -/
def readCalls (fd : Int) : List ReadCall → VfsProg (List (Int × Buffer))
  | [] => pure []
  | call :: calls => do
    let result ← vfsRead call.stack fd call.buffer call.count
    let results ← readCalls fd calls
    pure (result :: results)

/-- The bytes a call has returned. -/
def returnedBytes (result : Int × Buffer) : List Byte := (List.range result.1.toNat).map result.2

/-- The bytes a list of calls asks for. -/
def totalCount (calls : List ReadCall) : Nat := (calls.map fun call => call.count.toNat).sum

/-- A call returns a number and has stored no byte behind so many. -/
def StoresReturned (call : ReadCall) (result : Int × Buffer) : Prop :=
  ∃ n : Nat, result.1 = n ∧ ∀ k, n ≤ k → result.2 k = call.buffer k

section Calls

variable {s : Vfs} {fd : Int} {i : Fin 16}

theorem returnedBytes_bufferAfter (disk : Disk) (lba : BitVec 32) (offset n : Nat)
    (buffer : Buffer) : returnedBytes ((n : Int), bufferAfter disk lba offset n buffer) =
      fileBytes disk lba offset n := by
  rw [returnedBytes, Int.toNat_natCast]
  apply List.map_congr_left
  intro k hk
  exact if_pos (List.mem_range.mp hk)

/-- **One call of `vfs_read`**, whatever the descriptor holds: the next bytes of the file, as many as
are asked for and left. The descriptor moves on by as many. -/
theorem vfsRead_entry (hindex : s.fdTable.index fd = some i) (stack : Sector) (buffer : Buffer)
    (count : BitVec 32) {n : Nat} (hn : n = min count.toNat (s.fdTable i).left)
    (hsmall : n < 2 ^ 31) :
    (vfsRead stack fd buffer count).run Vfs.serve true s =
      (((n : Int), bufferAfter s.disk (s.fdTable i).startLba (s.fdTable i).offset.toNat n buffer),
        s.advance i n) := by
  have hsec := readSection_entry hindex count hn
  rw [vfsRead_eq, Prog.run]
  simp only [Vfs.serve, hsec]
  by_cases hend : (s.fdTable i).offset.toNat < (s.fdTable i).size.toNat
  -- within the file: what is reserved is read
  · simp only [if_pos hend]
    rw [Vfs.run_direct (readRange_asks stack buffer _)]
    have hsize := (s.fdTable i).size.isLt
    have hcount : (BitVec.ofNat 32 n).toNat = n := by
      rw [BitVec.toNat_ofNat]
      omega
    unfold Fd.left at hn
    let range : Reservation := ⟨(s.fdTable i).startLba, (s.fdTable i).offset, BitVec.ofNat 32 n⟩
    have hrange : range.count.toNat = n := hcount
    have hends : range.offset.toNat + range.count.toNat < 2 ^ 32 := by
      show (s.fdTable i).offset.toNat + _ < _
      omega
    have heval := readRange_eval s.disk stack buffer hends (by omega)
    rw [hrange] at heval
    exact Prod.ext heval rfl
  · -- at the end of the file
    obtain rfl : n = 0 := by
      rw [hn, Fd.left]
      omega
    simp only [if_neg hend]
    rw [Vfs.advance_zero, bufferAfter_zero]
    rfl

/-- **A list of calls**: what is returned, and what is left. -/
theorem readCalls_eq (hindex : s.fdTable.index fd = some i) (calls : List ReadCall)
    (htotal : totalCount calls < 2 ^ 31) : ∃ results : List (Int × Buffer),
      (readCalls fd calls).run Vfs.serve true s =
        (results, s.advance i (min (totalCount calls) (s.fdTable i).left)) ∧
      List.Forall₂ StoresReturned calls results ∧
      results.flatMap returnedBytes = fileBytes s.disk (s.fdTable i).startLba
        (s.fdTable i).offset.toNat (min (totalCount calls) (s.fdTable i).left) := by
  induction calls generalizing s with
  | nil =>
    refine ⟨[], ?_, List.Forall₂.nil, ?_⟩
    · rw [totalCount, List.map_nil, List.sum_nil, Nat.zero_min, Vfs.advance_zero]
      rfl
    · rw [totalCount, List.map_nil, List.sum_nil, Nat.zero_min]
      rfl
  | cons call calls ih =>
    have hsum : totalCount (call :: calls) = call.count.toNat + totalCount calls := by
      rw [totalCount, List.map_cons, List.sum_cons, totalCount]
    generalize hn : min call.count.toNat (s.fdTable i).left = n
    have hcall := vfsRead_entry hindex call.stack call.buffer call.count hn.symm (by omega)
    have hle : n ≤ (s.fdTable i).left := by omega
    -- the others go on where this one has left the descriptor
    obtain ⟨results, hrun, hstored, hbytes⟩ := ih (Vfs.advance_index hindex) (by omega)
    rw [Vfs.advance_left hle] at hrun hbytes
    rw [Vfs.advance_offset hle, Vfs.advance_entry] at hbytes
    have hmin : min (totalCount (call :: calls)) (s.fdTable i).left =
        n + min (totalCount calls) ((s.fdTable i).left - n) := by
      omega
    rw [hmin]
    have hfirst : StoresReturned call ((n : Int), bufferAfter s.disk (s.fdTable i).startLba
        (s.fdTable i).offset.toNat n call.buffer) :=
      ⟨n, rfl, fun k hk => if_neg (Nat.not_lt.mpr hk)⟩
    refine ⟨_ :: results, ?_, List.Forall₂.cons hfirst hstored, ?_⟩
    · rw [readCalls, Prog.run_bind, hcall, Prog.run_bind, hrun, Vfs.advance_advance]
      rfl
    · rw [List.flatMap_cons, hbytes, returnedBytes_bufferAfter]
      exact fileBytes_append _ _ _ _ _

/-- **Reads are chunk-independent.** Calls with any counts return, one behind the other, the bytes of
one range of the drive. Each returns how many bytes it has stored, and together they leave what a
single call for all of them leaves. -/
theorem readCalls_chunks (hindex : s.fdTable.index fd = some i) (calls : List ReadCall)
    (htotal : totalCount calls < 2 ^ 31) : ∃ (results : List (Int × Buffer)) (s' : Vfs),
      (readCalls fd calls).run Vfs.serve true s = (results, s') ∧
      results.flatMap returnedBytes =
        s.disk.range (512 * (s.fdTable i).startLba.toNat + (s.fdTable i).offset.toNat)
          (min (totalCount calls) ((s.fdTable i).size.toNat - (s.fdTable i).offset.toNat)) ∧
      List.Forall₂ StoresReturned calls results ∧
      ∀ (stack : Sector) (buffer : Buffer),
        ((vfsRead stack fd buffer (BitVec.ofNat 32 (totalCount calls))).run Vfs.serve true s).2 =
          s' := by
  obtain ⟨results, hrun, hstored, hbytes⟩ := readCalls_eq hindex calls htotal
  rw [fileBytes_eq_range] at hbytes
  refine ⟨results, _, hrun, hbytes, hstored, ?_⟩
  intro stack buffer
  have hcount : (BitVec.ofNat 32 (totalCount calls)).toNat = totalCount calls := by
    rw [BitVec.toNat_ofNat]
    omega
  rw [vfsRead_entry hindex stack buffer _ rfl (by omega), hcount]

end Calls

/-- Three reads of a file of seven bytes that is open at its third. -/
def sevenBytes : Vfs where
  disk := fun pos => BitVec.ofNat 8 pos
  cache := ⟨0, fun _ => 0, false⟩
  fdTable := Function.update (fun _ => ⟨0, 0, 0, false⟩) 3 ⟨1, 7, 2, true⟩

theorem readCalls_chunks_seven : ∃ results s',
    (readCalls 3 [⟨fun _ => 0, fun _ => 0, 1⟩, ⟨fun _ => 0, fun _ => 0, 0⟩,
      ⟨fun _ => 0, fun _ => 0, 9⟩]).run Vfs.serve true sevenBytes = (results, s') ∧
    results.flatMap returnedBytes = [2, 3, 4, 5, 6] := by
  have hindex : sevenBytes.fdTable.index 3 = some 3 := by decide
  obtain ⟨results, s', hrun, hbytes, -⟩ := readCalls_chunks hindex
    [⟨fun _ => 0, fun _ => 0, 1⟩, ⟨fun _ => 0, fun _ => 0, 0⟩, ⟨fun _ => 0, fun _ => 0, 9⟩]
    (by decide)
  exact ⟨results, s', hrun, hbytes.trans (by decide)⟩

end ZohoOs
