import ZohoOs.Fs.Archive

/-!
# An archive read through the file system

The calls of `vfs.c` on an archive on the drive: a file opens if a member has its name, its size and
its bytes are those of the first such member, and the directory lists the members in order.

## Main definitions

* `readChunks`: one `vfs_read` after the other

## Main results

* `vfsRead_run`: what one call of `vfs_read` returns
* `archive_mounts`: the archive read back through the calls
-/

namespace ZohoOs

open Program

/-! ## Entries -/

section Entries

variable {disk : Disk} {start lba : BitVec 32} {ms : List Member} {off idx : Nat} {path : List Byte}

/-- The bytes of a member are behind its header. -/
structure Entry.Stored (disk : Disk) (e : Entry) : Prop where
  holds : HoldsAt disk (e.lba.toNat + 1) e.member.contents
  fits : e.lba.toNat + e.member.sectors < 2 ^ 28
  short : e.member.sectors < 20000

theorem entries_stored (hholds : HoldsAt disk lba.toNat (archive ms))
    (hshort : archiveSectors ms ≤ 20000) (hfits : lba.toNat + archiveSectors ms ≤ 2 ^ 28) :
    ∀ e ∈ entries idx lba ms, e.Stored disk := by
  induction ms generalizing lba idx with
  | nil => exact fun e he => absurd he List.not_mem_nil
  | cons m ms ih =>
    obtain ⟨hbytes, hsectors, hlength⟩ := archive_cons m ms
    have hpos := archiveSectors_pos ms
    rw [hsectors] at hshort hfits
    rw [hbytes] at hholds
    have hnext : (lba + BitVec.ofNat 32 m.sectors).toNat = lba.toNat + m.sectors := by
      rw [BitVec.toNat_add, BitVec.toNat_ofNat]
      omega
    intro e he
    rcases List.mem_cons.mp he with rfl | he
    · refine ⟨?_, ?_, ?_⟩
      · exact (hholds.left.right (n := 1) m.header_length).left
      · show lba.toNat + m.sectors < 2 ^ 28
        omega
      · show m.sectors < 20000
        omega
    · apply ih _ (by omega) (by omega) e he
      rw [hnext]
      exact hholds.right hlength

/-- The first entry with a name is that of the first member with it. -/
theorem find_entries (idx : Nat) (lba : BitVec 32) (ms : List Member) (path : List Byte) :
    ((entries idx lba ms).find? fun e => e.member.name = path).map Entry.member =
      ms.find? fun m => m.name = path := by
  induction ms generalizing idx lba with
  | nil => rfl
  | cons m ms ih =>
    rw [entries]
    by_cases hm : m.name = path
    · rw [List.find?_cons_of_pos (by simpa using hm), List.find?_cons_of_pos (by simpa using hm)]
      rfl
    · rw [List.find?_cons_of_neg (by simpa using hm), List.find?_cons_of_neg (by simpa using hm), ih]

/-- The walk of `tar_find_file`. -/
theorem findSome_name (hpath : ∀ c ∈ path, c ≠ 0) :
    ((entries idx lba ms).findSome? fun e =>
      if strcmp e.member.headerSector.byte path 0 = 0 then
        some (e.lba + 1, headerSize e.member.headerSector) else none) =
      ((entries idx lba ms).find? fun e => e.member.name = path).map fun e =>
        (e.lba + 1, BitVec.ofNat 32 e.member.contents.length) := by
  induction entries idx lba ms with
  | nil => rfl
  | cons e es ih =>
    rw [List.findSome?_cons]
    by_cases he : e.member.name = path
    · rw [if_pos ((strcmp_name _ hpath).mpr he.symm), List.find?_cons_of_pos (by simpa using he),
        octalToInt_digits]
      rfl
    · rw [if_neg fun h => he ((strcmp_name _ hpath).mp h).symm,
        List.find?_cons_of_neg (by simpa using he)]
      exact ih

/-- The walk of `tar_get_file_by_index`. -/
theorem findSome_index (idx : Nat) (lba : BitVec 32) (ms : List Member) (index : Nat) :
    ((entries idx lba ms).findSome? fun e =>
      if (e.idx : Int) = ((idx + index : Nat) : Int) then some (headerName e.member.headerSector)
      else none) = ms[index]?.map Member.name := by
  induction ms generalizing idx lba index with
  | nil => rfl
  | cons m ms ih =>
    rw [entries, List.findSome?_cons]
    cases index with
    | zero =>
      rw [if_pos (by rw [Nat.add_zero]), headerName_headerSector]
      rfl
    | succ index =>
      rw [if_neg (by dsimp only; omega), List.getElem?_cons_succ]
      have hih := ih (idx + 1) (lba + BitVec.ofNat 32 m.sectors) index
      rw [show idx + 1 + index = idx + (index + 1) by omega] at hih
      exact hih

/-- The bytes of a file are the contents of its member. -/
theorem Entry.Stored.fileByte {e : Entry} (h : e.Stored disk) {i : Nat}
    (hi : i < e.member.contents.length) :
    ZohoOs.fileByte disk (e.lba + 1) i = e.member.contents.getD i 0 := by
  have hfits := h.fits
  have haddr : (e.lba + 1 + BitVec.ofNat 32 (i / 512)).toNat = e.lba.toNat + 1 + i / 512 := by
    unfold Member.sectors Member.dataSectors at hfits
    rw [BitVec.toNat_add, BitVec.toNat_add, BitVec.toNat_ofNat,
      show (1 : BitVec 32).toNat = 1 from rfl]
    omega
  have hlt : e.lba.toNat + 1 + i / 512 < 2 ^ 28 := by
    unfold Member.sectors Member.dataSectors at hfits
    omega
  have hread := h.holds i _ (List.getElem?_eq_getElem hi)
  rw [ZohoOs.fileByte, sectorStart, haddr, Nat.mod_eq_of_lt hlt, List.getD_eq_getElem _ _ hi,
    ← hread]
  congr 1
  omega

end Entries

/-! ## Calls -/

section Calls

variable {s : Vfs} {fd : Int} {lba : BitVec 32} {size offset : Nat} {start : BitVec 32}
  {ms : List Member} {path : List Byte}

/-- **One call of `vfs_read`** copies the next bytes of the file, as many as it is asked for and the
file has left. -/
theorem vfsRead_run (h : StandsAt s.fdTable fd lba size offset) (hcoherent : s.Coherent)
    (hsize : size < 2 ^ 31) (stack : Sector) (buffer : Buffer) (count : BitVec 32) {n : Nat}
    (hn : n = min count.toNat (size - offset)) :
    ∃ s' : Vfs, (vfsRead stack fd buffer count).run Vfs.serve true s =
        (((n : Int), bufferAfter s.disk lba offset n buffer), s') ∧
      StandsAt s'.fdTable fd lba size (offset + n) ∧ s'.Coherent ∧ s'.disk = s.disk := by
  rcases h.readSection count with ⟨heq, hsec⟩ | ⟨hlt, range, table, hsec, hlba, hoff, hcount, hstands⟩
  · -- at the end of the file
    obtain rfl : n = 0 := by omega
    refine ⟨s, ?_, by rwa [Nat.add_zero], hcoherent, rfl⟩
    simp only [vfsRead, vfsAsk, Prog.request_bind, Prog.run, Vfs.serve, hsec, Prog.pure_eq]
    rw [bufferAfter_zero]
    rfl
  · rw [← hn] at hcount
    obtain ⟨hresult, hcoherent', hdisk, htable⟩ := Vfs.run_reads (s := { s with fdTable := table })
      ((readRange_asks stack buffer range).mono fun r hr => hr.isRead) hcoherent
    rw [readRange_eval s.disk stack buffer (by omega) (by omega), hlba, hoff, hcount] at hresult
    have hrun : (vfsRead stack fd buffer count).run Vfs.serve true s =
        (readRange stack buffer range).run Vfs.serve true { s with fdTable := table } := by
      rw [vfsRead_eq, Prog.run]
      simp only [Vfs.serve, hsec]
    refine ⟨_, hrun.trans (Prod.ext hresult rfl), ?_, hcoherent', hdisk⟩
    rw [htable]
    rwa [hcount] at hstands

/-- One `vfs_read` after the other on a descriptor: the bytes they return. -/
def readChunks (stack : Sector) (fd : Int) : List (BitVec 32) → VfsProg (List Byte)
  | [] => pure []
  | count :: counts => do
    let (n, buffer) ← vfsRead stack fd (fun _ => 0) count
    let rest ← readChunks stack fd counts
    pure ((List.range n.toNat).map buffer ++ rest)

/-- The bytes of a file, from an offset on. -/
def fileBytes (disk : Disk) (lba : BitVec 32) (offset n : Nat) : List Byte :=
  (List.range n).map fun i => fileByte disk lba (offset + i)

theorem fileBytes_append (disk : Disk) (lba : BitVec 32) (offset m n : Nat) :
    fileBytes disk lba offset m ++ fileBytes disk lba (offset + m) n =
      fileBytes disk lba offset (m + n) := by
  unfold fileBytes
  rw [List.range_add, List.map_append, List.map_map]
  congr 2
  funext i
  rw [Function.comp, Nat.add_assoc]

/-- Reading in chunks returns the bytes of the file in order. -/
theorem readChunks_run (h : StandsAt s.fdTable fd lba size offset) (hcoherent : s.Coherent)
    (hsize : size < 2 ^ 31) (stack : Sector) (counts : List (BitVec 32)) :
    ((readChunks stack fd counts).run Vfs.serve true s).1 =
      fileBytes s.disk lba offset (min (counts.map BitVec.toNat).sum (size - offset)) := by
  induction counts generalizing s offset with
  | nil =>
    rw [List.map_nil, List.sum_nil, Nat.zero_min]
    rfl
  | cons count counts ih =>
    obtain ⟨s', hrun, hstands, hcoherent', hdisk⟩ :=
      vfsRead_run h hcoherent hsize stack (fun _ => 0) count rfl
    have hle := h.le
    rw [readChunks, Prog.run_bind, hrun, Prog.run_bind]
    simp only [Prog.pure_eq, Prog.run]
    rw [ih hstands hcoherent', hdisk, List.map_cons, List.sum_cons]
    generalize hn : min count.toNat (size - offset) = n
    have hcopied : (List.range (n : Int).toNat).map (bufferAfter s.disk lba offset n fun _ => 0) =
        fileBytes s.disk lba offset n := by
      rw [Int.toNat_natCast]
      apply List.map_congr_left
      intro i hi
      rw [bufferAfter, if_pos (List.mem_range.mp hi)]
    rw [hcopied, fileBytes_append]
    congr 1
    omega

/-- A descriptor that was opened stands at the start of the file. -/
theorem StandsAt.opened (table : FdTable) (i : Fin 16) (lba size : BitVec 32) :
    StandsAt (Function.update table i ⟨lba, size, 0, true⟩) i.val lba size.toNat 0 := by
  have hself : (Function.update table i ⟨lba, size, 0, true⟩ : FdTable) i = ⟨lba, size, 0, true⟩ :=
    Function.update_self _ _ _
  refine ⟨⟨i, FdTable.index_val ?_, ?_, ?_, ?_⟩, Nat.zero_le _⟩
  · rw [hself]
  · rw [hself]
  · rw [hself]
  · rw [hself]
    rfl

/-- The critical section of `vfs_open`, while a descriptor is free. -/
theorem openSection_free {table : FdTable} (hfree : ∃ i, (table i).inUse = false)
    (lba size : BitVec 32) : ∃ (i : Fin 16) (table' : FdTable),
      openSection table lba size = ((i.val : Int), table') ∧
        StandsAt table' i.val lba size.toNat 0 := by
  obtain ⟨j, hj⟩ := hfree
  have hfind : ((List.finRange 16).find? fun i => !(table i).inUse).isSome := by
    rw [List.find?_isSome]
    exact ⟨j, List.mem_finRange j, by rw [hj]; rfl⟩
  obtain ⟨i, hi⟩ := Option.isSome_iff_exists.mp hfind
  exact ⟨i, _, by rw [openSection, hi], StandsAt.opened table i lba size⟩

/-- The file `tar_find_file` finds. -/
theorem tarFindFile_eval (h : OnDisk s.disk start ms) (hpath : ∀ c ∈ path, c ≠ 0) :
    (tarFindFile start path).eval (diskAnswer s.disk) =
      some (((entries 0 start ms).find? fun e => e.member.name = path).map fun e =>
        (e.lba + 1, BitVec.ofNat 32 e.member.contents.length)) := by
  have hpos := archiveSectors_pos ms
  have hshort := h.short
  have hwalk := @tarWalk_eval _ s.disk start start ms 0 0 tarFuel
    (fun _ lba header =>
      if strcmp header.byte path 0 = 0 then some (lba + 1, headerSize header) else none)
    h.holds (by omega) h.fits rfl (show ms.length < 20001 by omega)
  rw [tarFindFile, hwalk, findSome_name hpath]

/-- **One call of `vfs_open`**: the descriptor stands at the start of the first member with the
name. -/
theorem vfsOpen_run (h : OnDisk s.disk start ms) (hcoherent : s.Coherent)
    (hfree : ∃ i, (s.fdTable i).inUse = false) (hpath : ∀ c ∈ path, c ≠ 0) :
    ((ms.find? fun m => m.name = path) = none ∧
      ∃ s', (vfsOpen start path).run Vfs.serve true s = (some (-1), s')) ∨
    (∃ e ∈ entries 0 start ms, (ms.find? fun m => m.name = path) = some e.member ∧
      ∃ (fd : Int) (s' : Vfs), (vfsOpen start path).run Vfs.serve true s = (some fd, s') ∧ 0 ≤ fd ∧
        StandsAt s'.fdTable fd (e.lba + 1) e.member.contents.length 0 ∧ s'.Coherent ∧
          s'.disk = s.disk) := by
  -- the walk reads only, and ends as it does on the archive alone
  have hasks : (tarFindFile start path).Asks VfsRequest.IsRead := tarWalk_asks _ _ _ _ _
  obtain ⟨hresult, hcoherent', hdisk, htable⟩ := Vfs.run_reads hasks hcoherent
  rw [tarFindFile_eval h hpath] at hresult
  have hfind := find_entries 0 start ms path
  rw [vfsOpen, Prog.run_bind, hresult]
  cases he : (entries 0 start ms).find? fun e => e.member.name = path with
  | none =>
    rw [he] at hfind
    exact Or.inl ⟨hfind.symm, _, rfl⟩
  | some e =>
    rw [he] at hfind
    have hmem := List.mem_of_find?_eq_some he
    -- the size is a number of the header, so it is not cut off
    have hshort := (entries_stored h.holds h.short h.fits e hmem).short
    rw [← htable] at hfree
    obtain ⟨i, table', hopen, hstands⟩ := openSection_free hfree (e.lba + 1)
      (BitVec.ofNat 32 e.member.contents.length)
    have hsize : (BitVec.ofNat 32 e.member.contents.length).toNat = e.member.contents.length := by
      unfold Member.sectors Member.dataSectors at hshort
      rw [BitVec.toNat_ofNat]
      omega
    rw [hsize] at hstands
    generalize (tarFindFile start path).run Vfs.serve true s = found at *
    refine Or.inr ⟨e, hmem, hfind.symm, i.val, { found.2 with fdTable := table' }, ?_,
      Int.natCast_nonneg _, hstands, ?_, ?_⟩
    · simp only [Option.map_some, vfsAsk, Prog.request_bind, Prog.run, Vfs.serve, hopen,
        Prog.pure_eq]
    · exact hcoherent'
    · exact hdisk

/-- What `vfs_readdir` is to return for a number. -/
def dirEntry (ms : List Member) (index : Nat) : Int × Option (List Byte) :=
  match ms[index]? with
  | some m => (0, some m.name)
  | none => (-1, none)

/-- The file system shows the members of an archive. `vfs_open` returns a descriptor for the names of
members and -1 for others; the size and bytes of the file are those of the first member with the name;
`vfs_readdir` lists the names. -/
structure Mounted (s : Vfs) (start : BitVec 32) (ms : List Member) : Prop where
  opens : ∀ path : List Byte, (∀ c ∈ path, c ≠ 0) → (∃ i, (s.fdTable i).inUse = false) →
    ∃ (fd : Int) (s' : Vfs), (vfsOpen start path).run Vfs.serve true s = (some fd, s') ∧
      ((0 ≤ fd ↔ ∃ m ∈ ms, m.name = path) ∧ (fd < 0 → fd = -1)) ∧
      ∀ m, (ms.find? fun m => m.name = path) = some m →
        ((vfsSize fd).run Vfs.serve true s').1.toNat = m.contents.length ∧
        ∀ (stack : Sector) (counts : List (BitVec 32)),
          ((readChunks stack fd counts).run Vfs.serve true s').1 =
            m.contents.take (counts.map BitVec.toNat).sum
  lists : ∀ index : Nat,
    ((vfsReaddir start index).run Vfs.serve true s).1 = some (dirEntry ms index)

/-- **The archive on the drive is read back through the calls.** -/
theorem archive_mounts (h : OnDisk s.disk start ms) (hcoherent : s.Coherent) :
    Mounted s start ms := by
  refine ⟨fun path hpath hfree => ?_, fun index => ?_⟩
  · rcases vfsOpen_run h hcoherent hfree hpath with ⟨hnone, s', hrun⟩ |
      ⟨e, hmem, hfind, fd, s', hrun, hfd, hstands, hcoherent', hdisk⟩
    · refine ⟨-1, s', hrun, ⟨⟨fun hneg => absurd hneg (by decide), ?_⟩, fun _ => rfl⟩, ?_⟩
      · rintro ⟨m, hm, hname⟩
        have := List.find?_eq_none.mp hnone m hm
        simp [hname] at this
      · intro m hm
        rw [hnone] at hm
        cases hm
    · have hstored := entries_stored h.holds h.short h.fits e hmem
      have hshort := hstored.short
      unfold Member.sectors Member.dataSectors at hshort
      have hname := List.find?_some hfind
      refine ⟨fd, s', hrun, ⟨⟨fun _ => ?_, fun _ => hfd⟩, fun hneg => absurd hfd (by omega)⟩, ?_⟩
      · exact ⟨e.member, List.mem_of_find?_eq_some hfind, by simpa using hname⟩
      · intro m hm
        obtain rfl := Option.some.inj (hfind.symm.trans hm)
        constructor
        · obtain ⟨i, hindex, -, hsize, -⟩ := hstands.index
          show (sizeSection s'.fdTable fd).toNat = _
          rw [sizeSection, hindex]
          exact hsize
        · intro stack counts
          rw [readChunks_run hstands hcoherent' (by omega), hdisk, Nat.sub_zero]
          -- the bytes of the file are the contents
          unfold fileBytes
          apply List.ext_getElem
          · rw [List.length_map, List.length_range, List.length_take]
          · intro i hi hi'
            rw [List.length_map, List.length_range] at hi
            rw [List.getElem_map, List.getElem_range, List.getElem_take, Nat.zero_add,
              hstored.fileByte (by omega), List.getD_eq_getElem]
  · have hpos := archiveSectors_pos ms
    have hshort := h.short
    have hwalk := @tarWalk_eval _ s.disk start start ms 0 0 tarFuel
      (fun idx _ header =>
        if (idx : Int) = ((index : Nat) : Int) then some (headerName header) else none)
      h.holds (by omega) h.fits rfl (show ms.length < 20001 by omega)
    have hindex := findSome_index 0 start ms index
    rw [Nat.zero_add] at hindex
    rw [vfsReaddir, tarGetFileByIndex, Prog.run_bind, (Vfs.run_reads (tarWalk_asks start _ tarFuel start 0)
      hcoherent).1, hwalk, hindex, dirEntry]
    cases ms[index]? with
    | none => rfl
    | some m => rfl

/-- A drive with these bytes at an address, and zeros behind them. -/
def diskWith (bytes : List Byte) (lba : Nat) : Disk := fun pos => bytes.getD (pos - 512 * lba) 0

theorem holdsAt_diskWith (bytes : List Byte) (lba : Nat) :
    HoldsAt (diskWith bytes lba) lba bytes := by
  intro i b hb
  obtain ⟨hi, heq⟩ := List.getElem?_eq_some_iff.mp hb
  rw [diskWith, Nat.add_sub_cancel_left, List.getD_eq_getElem _ _ hi, heq]

/-- A file `a`. -/
def memberA (data : List Byte) (h : data.length < 8 ^ 11) : Member :=
  ⟨[0x61#8], data, List.replicate 24 0, List.replicate 377 0, by decide, by decide, by decide, h,
    List.length_replicate .., List.length_replicate ..⟩

/-- A file `a` with three bytes, and one `b` that is empty. -/
def sampleMembers : List Member :=
  [memberA [1#8, 2#8, 3#8] (by decide),
    ⟨[0x62#8], [], List.replicate 24 0, List.replicate 377 0, by decide, by decide, by decide,
      by decide, List.length_replicate .., List.length_replicate ..⟩]

/-- The state after the boot, with the archive at the sector `kernel_main` passes to
`tar_init_disk`. -/
def sampleVfs : Vfs where
  disk := diskWith (archive sampleMembers) (2048 : BitVec 32).toNat
  cache := ⟨0, fun _ => 0, false⟩
  fdTable := fun _ => ⟨0, 0, 0, false⟩

/-- The file `a` is open. -/
def openedVfs : Vfs :=
  { sampleVfs with fdTable := Function.update sampleVfs.fdTable 0 ⟨2049, 3, 0, true⟩ }

theorem sampleVfs_onDisk : OnDisk sampleVfs.disk 2048 sampleMembers where
  holds := by
    unfold sampleVfs
    dsimp only
    exact holdsAt_diskWith _ _
  short := by decide
  fits := by decide

theorem archive_mounts_sample : Mounted sampleVfs 2048 sampleMembers :=
  archive_mounts sampleVfs_onDisk fun hvalid => Bool.noConfusion hvalid

end Calls

end ZohoOs
