import ZohoOs.Fs.FileStore

/-!
# The calls refine the store

The drive, the cache of `tar.c` and the table of descriptors stand for a store of named files, and each
call of `vfs.c` keeps it so: it answers as the store does, whatever calls came before.

## Main definitions

* `StandsFor`: the state of the file system stands for a store
* `bootStore`: the store of an archive at the boot

## Main results

* `StandsFor.call`: a call of `vfs.c` answers as the store does
* `fileCalls_refine`: so does any sequence of calls after the boot
-/

namespace ZohoOs

open Program

/-! ## The file system stands for a store -/

/-- The entry of a descriptor of the store. -/
structure StandsIn (start : BitVec 32) (ms : List Member) (fd : Fd) (f : OpenFile) : Prop where
  inUse : fd.inUse = true
  file : ∃ m, ms[f.file]? = some m ∧
    fd.startLba = start + BitVec.ofNat 32 (sectorsBefore ms f.file) + 1 ∧
      fd.size.toNat = m.contents.length
  offset : fd.offset.toNat = f.offset
  within : f.offset ≤ fd.size.toNat

/-- **The file system stands for a store**: the drive holds its files as an archive, the cache is
coherent, and the descriptors are where the store has them. -/
structure StandsFor (start : BitVec 32) (ms : List Member) (s : Vfs) (store : FileStore) : Prop where
  onDisk : OnDisk s.disk start ms
  coherent : s.Coherent
  files : store.files = ms.map fun m => (m.name, m.contents)
  free : ∀ i, store.opened i = none → (s.fdTable i).inUse = false
  stands : ∀ i f, store.opened i = some f → StandsIn start ms (s.fdTable i) f

section Calls

variable {start : BitVec 32} {ms : List Member} {s : Vfs} {store : FileStore} {fd : Int}
  {i : Fin 16} {f : OpenFile} {m : Member}

theorem StandsFor.contents (h : StandsFor start ms s store) {k : Nat} (hm : ms[k]? = some m) :
    store.contents k = m.contents := by
  rw [FileStore.contents, h.files, List.getD_eq_getElem?_getD, List.getElem?_map, hm]
  rfl

/-- The same descriptors are open. -/
theorem StandsFor.index (h : StandsFor start ms s store) (fd : Int) :
    s.fdTable.index fd = (store.descriptor fd).map Prod.fst := by
  unfold FdTable.index FileStore.descriptor
  split
  · next hfd =>
    dsimp only
    cases hopen : store.opened ⟨fd.toNat, by omega⟩ with
    | none => rw [if_neg (by rw [h.free _ hopen]; decide)]; rfl
    | some f => rw [if_pos (h.stands _ _ hopen).inUse]; rfl
  · rfl

theorem StandsFor.index_some (h : StandsFor start ms s store) (hfd : store.descriptor fd = some (i, f)) :
    s.fdTable.index fd = some i ∧ StandsIn start ms (s.fdTable i) f := by
  refine ⟨by rw [h.index, hfd]; rfl, h.stands i f ?_⟩
  unfold FileStore.descriptor at hfd
  split at hfd
  · obtain ⟨g, hg, hpair⟩ := Option.map_eq_some_iff.mp hfd
    obtain ⟨rfl, rfl⟩ := Prod.mk.inj hpair
    exact hg
  · cases hfd

/-- A descriptor is moved. -/
theorem StandsFor.setOpened (h : StandsFor start ms s store) {entry : Fd}
    (hentry : StandsIn start ms entry f) :
    StandsFor start ms { s with fdTable := Function.update s.fdTable i entry }
      (store.setOpened i (some f)) where
  onDisk := h.onDisk
  coherent := h.coherent
  files := h.files
  free j hj := by
    by_cases hji : j = i
    · simp only [hji, FileStore.setOpened, Function.update_self] at hj
      cases hj
    · simp only [FileStore.setOpened, Function.update_of_ne hji] at hj ⊢
      exact h.free j hj
  stands j g hj := by
    by_cases hji : j = i
    · subst hji
      simp only [FileStore.setOpened, Function.update_self] at hj ⊢
      exact Option.some.inj hj ▸ hentry
    · simp only [FileStore.setOpened, Function.update_of_ne hji] at hj ⊢
      exact h.stands j g hj

/-- The files of an archive on a drive are small. -/
theorem StandsFor.size_lt (h : StandsFor start ms s store) {k : Nat} (hm : ms[k]? = some m) :
    m.contents.length < 2 ^ 24 ∧ start.toNat + sectorsBefore ms k + 1 + m.dataSectors < 2 ^ 28 := by
  have hlt := sectorsBefore_lt hm
  have hshort := h.onDisk.short
  have hfits := h.onDisk.fits
  unfold Member.sectors at hlt
  have hsectors : m.contents.length ≤ 512 * m.dataSectors := by
    unfold Member.dataSectors
    omega
  omega

/-- The sector of a member's first byte. -/
theorem StandsFor.startLba_toNat (h : StandsFor start ms s store) {k : Nat} (hm : ms[k]? = some m) :
    (start + BitVec.ofNat 32 (sectorsBefore ms k) + 1).toNat =
      start.toNat + sectorsBefore ms k + 1 := by
  have hlt := (h.size_lt hm).2
  rw [BitVec.toNat_add, BitVec.toNat_add, BitVec.toNat_ofNat, show (1 : BitVec 32).toNat = 1 from rfl]
  omega

/-! ## Opening -/

theorem map_member_entries (idx : Nat) (lba : BitVec 32) (ms : List Member) :
    (entries idx lba ms).map Entry.member = ms := by
  induction ms generalizing idx lba with
  | nil => rfl
  | cons m ms ih => rw [entries, List.map_cons, ih]

/-- The file that is opened is the first one with the name. -/
theorem find_entries_findIdx (start : BitVec 32) (ms : List Member) (path : List Byte) :
    ((entries 0 start ms).find? fun e => e.member.name = path) =
      ((ms.map fun m => (m.name, m.contents)).findIdx? fun f => f.1 = path).bind fun k =>
        (entries 0 start ms)[k]? := by
  have hidx : ((entries 0 start ms).findIdx? fun e => e.member.name = path) =
      (ms.map fun m => (m.name, m.contents)).findIdx? fun f => f.1 = path := by
    conv_rhs => rw [← map_member_entries 0 start ms]
    rw [List.map_map, List.findIdx?_map]
    rfl
  rw [List.find?_eq_bind_findIdx?_getElem?, hidx]

/-- **One call of `vfs_open`**, whether or not there is a file or a descriptor for it. -/
theorem vfsOpen_entry (h : OnDisk s.disk start ms) (hcoherent : s.Coherent) {path : List Byte}
    (hpath : ∀ c ∈ path, c ≠ 0) : ∃ s' : Vfs, s'.Coherent ∧ s'.disk = s.disk ∧ s'.fdTable = s.fdTable ∧
      (vfsOpen start path).run Vfs.serve true s =
        match (entries 0 start ms).find? fun e => e.member.name = path with
        | none => (some (-1), s')
        | some e =>
          let opened := openSection s.fdTable (e.lba + 1) (BitVec.ofNat 32 e.member.contents.length)
          (some opened.1, { s' with fdTable := opened.2 }) := by
  have hasks : (tarFindFile start path).Asks VfsRequest.IsRead := tarWalk_asks _ _ _ _ _
  obtain ⟨hresult, hcoherent', hdisk, htable⟩ := Vfs.run_reads hasks hcoherent
  rw [tarFindFile_eval h hpath] at hresult
  refine ⟨_, hcoherent', hdisk, htable, ?_⟩
  rw [vfsOpen, Prog.run_bind, hresult]
  generalize (tarFindFile start path).run Vfs.serve true s = found at *
  cases (entries 0 start ms).find? fun e => e.member.name = path with
  | none => rfl
  | some e =>
    simp only [Option.map_some, vfsAsk, Prog.request_bind, Prog.run, Vfs.serve, htable, Prog.pure_eq]

theorem StandsFor.openFile (h : StandsFor start ms s store) {path : List Byte}
    (hpath : ∀ c ∈ path, c ≠ 0) : ∃ s', (vfsOpen start path).run Vfs.serve true s =
      (some (store.openFile path).1, s') ∧ StandsFor start ms s' (store.openFile path).2 := by
  obtain ⟨s', hcoherent, hdisk, htable, hrun⟩ := vfsOpen_entry h.onDisk h.coherent hpath
  -- the walk has changed the cache only
  have hwalked : StandsFor start ms s' store :=
    ⟨hdisk ▸ h.onDisk, hcoherent, h.files, htable ▸ h.free, htable ▸ h.stands⟩
  rw [find_entries_findIdx, ← h.files] at hrun
  rw [hrun, FileStore.openFile]
  cases hfile : store.files.findIdx? fun f => f.1 = path with
  | none => exact ⟨s', rfl, hwalked⟩
  | some k =>
    have hk : k < ms.length := by
      have hlt := (List.findIdx?_eq_some_iff_getElem.mp hfile).1
      rwa [h.files, List.length_map] at hlt
    have hm := List.getElem?_eq_getElem hk
    simp only [Option.bind_some, entries_getElem?, hm, Option.map_some]
    have hfind : ((List.finRange 16).find? fun i => (store.opened i).isNone) =
        (List.finRange 16).find? fun i => !(s.fdTable i).inUse := by
      congr 1
      funext i
      cases hopen : store.opened i with
      | none => rw [h.free i hopen]; rfl
      | some f => rw [(h.stands i f hopen).inUse]; rfl
    rw [openSection, hfind]
    cases (List.finRange 16).find? fun i => !(s.fdTable i).inUse with
    | none => exact ⟨_, rfl, htable ▸ hwalked⟩
    | some i =>
      have hsmall := (h.size_lt hm).1
      refine ⟨_, rfl, ?_⟩
      rw [← htable]
      apply hwalked.setOpened
      refine ⟨rfl, ⟨_, hm, rfl, ?_⟩, rfl, Nat.zero_le _⟩
      rw [BitVec.toNat_ofNat]
      omega

/-! ## Reading -/

/-- The entry of a descriptor that has moved on within its file. -/
theorem StandsIn.advance {entry : Fd} (h : StandsIn start ms entry f) {n : Nat} (hn : n ≤ entry.left) :
    StandsIn start ms (entry.advance n) { f with offset := f.offset + n } := by
  have hoffset := h.offset
  have hwithin := h.within
  have hsize := entry.size.isLt
  unfold Fd.left at hn
  have hnext : (entry.offset + BitVec.ofNat 32 n).toNat = f.offset + n := by
    rw [BitVec.toNat_add, BitVec.toNat_ofNat]
    omega
  exact ⟨h.inUse, h.file, hnext, by show f.offset + n ≤ entry.size.toNat; omega⟩

/-- What is left of a file. -/
theorem StandsIn.left_eq {entry : Fd} (h : StandsIn start ms entry f) (hm : ms[f.file]? = some m) :
    entry.startLba = start + BitVec.ofNat 32 (sectorsBefore ms f.file) + 1 ∧
      entry.size.toNat = m.contents.length ∧ entry.left = m.contents.length - f.offset := by
  obtain ⟨m', hm', hlba, hsize⟩ := h.file
  obtain rfl := Option.some.inj (hm'.symm.trans hm)
  exact ⟨hlba, hsize, by rw [Fd.left, hsize, h.offset]⟩

/-- The bytes of a file are the contents of the store. -/
theorem StandsFor.bufferAfter_eq (h : StandsFor start ms s store) {k : Nat} (hm : ms[k]? = some m)
    {offset n : Nat} (hn : offset + n ≤ m.contents.length ∨ n = 0) (buffer : Buffer) :
    bufferAfter s.disk (start + BitVec.ofNat 32 (sectorsBefore ms k) + 1) offset n buffer =
      fillBuffer m.contents offset n buffer := by
  have hentry : (entries 0 start ms)[k]? =
      some ⟨0 + k, start + BitVec.ofNat 32 (sectorsBefore ms k), m⟩ := by
    rw [entries_getElem?, hm]
    rfl
  have hstored := entries_stored h.onDisk.holds h.onDisk.short h.onDisk.fits _
    (List.mem_of_getElem? hentry)
  funext i
  unfold bufferAfter fillBuffer
  split
  · exact hstored.fileByte (i := offset + i) (by dsimp only; omega)
  · rfl

theorem StandsFor.read (h : StandsFor start ms s store) (stack : Sector) (fd : Int) (buffer : Buffer)
    (count : BitVec 32) : ∃ s', (vfsRead stack fd buffer count).run Vfs.serve true s =
      ((store.read fd buffer count.toNat).1, s') ∧
        StandsFor start ms s' (store.read fd buffer count.toNat).2 := by
  unfold FileStore.read
  cases hfd : store.descriptor fd with
  | none =>
    have hindex : s.fdTable.index fd = none := by rw [h.index, hfd]; rfl
    refine ⟨s, ?_, h⟩
    rw [vfsRead_eq, Prog.run]
    simp only [Vfs.serve, readSection, hindex]
    rfl
  | some x =>
    obtain ⟨i, f⟩ := x
    obtain ⟨hindex, hstands⟩ := h.index_some hfd
    obtain ⟨m, hm, -⟩ := hstands.file
    obtain ⟨hlba, hsize, hleft⟩ := hstands.left_eq hm
    have hsmall := (h.size_lt hm).1
    dsimp only
    rw [h.contents hm]
    generalize hn : min count.toNat (m.contents.length - f.offset) = n
    have hcall := vfsRead_entry hindex stack buffer count (by rw [hleft, hn]) (by omega)
    rw [hcall, hlba, hstands.offset, h.bufferAfter_eq hm (by omega)]
    exact ⟨_, rfl, h.setOpened (hstands.advance (by omega))⟩

/-! ## Writing -/

/-- **One call of `vfs_write`**, with all that it leaves. -/
theorem vfsWrite_entry (hcoherent : s.Coherent) (hindex : s.fdTable.index fd = some i) (stack : Sector)
    (buffer : Buffer) (count : BitVec 32) {n : BitVec 32} (hn : (s.fdTable i).writeCount count = n) :
    ∃ s' : Vfs, (vfsWrite stack fd buffer count).run Vfs.serve true s = (n.toInt, s') ∧
      s'.fdTable = Function.update s.fdTable i ((s.fdTable i).advance n.toNat) ∧ s'.Coherent ∧
      (∀ k < n.toNat, s'.disk (rangePos ⟨(s.fdTable i).startLba, (s.fdTable i).offset, n⟩ k) =
        buffer k) ∧
      ∀ pos, (∀ k < n.toNat,
        rangePos ⟨(s.fdTable i).startLba, (s.fdTable i).offset, n⟩ k ≠ pos) →
          s'.disk pos = s.disk pos := by
  have hsec := writeSection_entry hindex count
  rw [hn] at hsec
  have hle : (0 : BitVec 32).toNat ≤ n.toNat := Nat.zero_le _
  have hfuel : n.toNat ≤ (0 : BitVec 32).toNat + n.toNat := Nat.le_add_left _ _
  have hkeeps : ((vfsWrite stack fd buffer count).run Vfs.serve true s).2.Coherent :=
    Prog.run_keeps (P := fun _ => True) (I := Vfs.Coherent)
      (fun r t _ ht => Vfs.serve_coherent ht r) (Prog.asks_of_forall (fun _ => trivial) _) hcoherent
  obtain ⟨s', hrun, htable, hbytes, hothers⟩ :=
    @writeRest_run buffer ⟨(s.fdTable i).startLba, (s.fdTable i).offset, n⟩ _ _ hle hfuel stack
      { s with fdTable := Function.update s.fdTable i ((s.fdTable i).advance n.toNat) }
  have hcall : (vfsWrite stack fd buffer count).run Vfs.serve true s = (n.toInt, s') := by
    rw [vfsWrite_eq, Prog.run]
    simp only [Vfs.serve, hsec]
    exact hrun
  rw [hcall] at hkeeps
  exact ⟨s', hcall, htable, hkeeps, fun k hk => hbytes k (Nat.zero_le k) hk,
    fun pos hpos => hothers pos fun k _ hk => hpos k hk⟩

theorem sectorsBefore_set {k : Nat} (hm : ms[k]? = some m) (offset n : Nat) (buffer : Buffer) (j : Nat) :
    sectorsBefore (ms.set k (m.splice offset n buffer)) j = sectorsBefore ms j := by
  rw [sectorsBefore, List.map_take, map_sectors_set hm, ← List.map_take, sectorsBefore]

/-- A write changes no descriptor's place. -/
theorem StandsIn.set {entry : Fd} {k : Nat} (h : StandsIn start ms entry f) (hm : ms[k]? = some m)
    (offset n : Nat) (buffer : Buffer) :
    StandsIn start (ms.set k (m.splice offset n buffer)) entry f := by
  obtain ⟨m', hm', hlba, hsize⟩ := h.file
  refine ⟨h.inUse, ?_, h.offset, h.within⟩
  rw [sectorsBefore_set hm]
  by_cases hk : k = f.file
  · subst hk
    obtain rfl := Option.some.inj (hm'.symm.trans hm)
    refine ⟨_, List.getElem?_set_self (List.getElem?_eq_some_iff.mp hm).1, hlba, ?_⟩
    rw [Member.splice_contents_length]
    exact hsize
  · exact ⟨m', by rwa [List.getElem?_set_ne hk], hlba, hsize⟩

theorem StandsFor.write (h : StandsFor start ms s store) (stack : Sector) (fd : Int) (buffer : Buffer)
    {count : BitVec 32} (hcount : count.toNat < 2 ^ 31) : ∃ ms' s',
      (vfsWrite stack fd buffer count).run Vfs.serve true s =
        ((store.write fd buffer count.toNat).1, s') ∧
          StandsFor start ms' s' (store.write fd buffer count.toNat).2 := by
  unfold FileStore.write
  cases hfd : store.descriptor fd with
  | none =>
    have hindex : s.fdTable.index fd = none := by rw [h.index, hfd]; rfl
    refine ⟨ms, s, ?_, h⟩
    rw [vfsWrite_eq, Prog.run]
    simp only [Vfs.serve, writeSection, hindex]
    rfl
  | some x =>
    obtain ⟨i, f⟩ := x
    obtain ⟨hindex, hstands⟩ := h.index_some hfd
    obtain ⟨m, hm, -⟩ := hstands.file
    obtain ⟨hlba, hsize, hleft⟩ := hstands.left_eq hm
    have hsmall := h.size_lt hm
    have hoffset := hstands.offset
    have hwithin := hstands.within
    dsimp only
    rw [h.contents hm]
    generalize hn : min count.toNat (m.contents.length - f.offset) = n
    -- the sum of offset and count does not wrap, as files are small
    have hwrite : ((s.fdTable i).writeCount count).toNat = n := by
      rw [← hn, ← hleft]
      exact (writeCount_eq_iff (by omega)).mpr (Or.inl (by omega))
    obtain ⟨s', hrun, htable, hcoherent, hbytes, hothers⟩ :=
      vfsWrite_entry h.coherent hindex stack buffer count rfl
    rw [hwrite] at htable hbytes hothers
    have hint : ((s.fdTable i).writeCount count).toInt = (n : Int) := by
      rw [BitVec.toInt_eq_toNat_cond, hwrite, if_pos (by omega)]
    have hpos : ∀ k < n, rangePos
        ⟨(s.fdTable i).startLba, (s.fdTable i).offset, (s.fdTable i).writeCount count⟩ k =
          512 * (start.toNat + sectorsBefore ms f.file + 1) + f.offset + k := by
      intro k hk
      have hsectors : m.contents.length ≤ 512 * m.dataSectors := by
        unfold Member.dataSectors
        omega
      rw [rangePos_linear (by dsimp only; omega)]
      dsimp only
      rw [hlba, h.startLba_toNat hm, hoffset]
      omega
    refine ⟨ms.set f.file (m.splice f.offset n buffer), s', by rw [hrun, hint], ?_, hcoherent, ?_, ?_, ?_⟩
    · refine ⟨h.onDisk.holds.writeMember hm (by omega) ?_ ?_, ?_, ?_⟩
      · exact fun j hj => hpos j hj ▸ hbytes j hj
      · exact fun pos hne => hothers pos fun k hk heq => hne k hk (hpos k hk ▸ heq)
      · rw [archiveSectors_set hm]
        exact h.onDisk.short
      · rw [archiveSectors_set hm]
        exact h.onDisk.fits
    · show store.files.modify f.file _ = _
      rw [h.files, List.map_set]
      apply List.ext_getElem?
      intro j
      rw [List.getElem?_modify, List.getElem?_set', List.getElem?_map]
      by_cases hj : f.file = j
      · subst hj
        simp only [if_pos, hm]
        rfl
      · simp only [if_neg hj, id_map']
    · have hopened := (h.setOpened (i := i) (hstands.advance (n := n) (by omega))).free
      rw [htable]
      exact hopened
    · have hopened := (h.setOpened (i := i) (hstands.advance (n := n) (by omega))).stands
      rw [htable]
      exact fun j g hj => (hopened j g hj).set hm f.offset n buffer

/-! ## The other calls -/

theorem StandsFor.size (h : StandsFor start ms s store) (fd : Int) :
    sizeSection s.fdTable fd = BitVec.ofNat 32 (store.size fd) := by
  unfold sizeSection FileStore.size
  cases hfd : store.descriptor fd with
  | none =>
    rw [h.index, hfd]
    rfl
  | some x =>
    obtain ⟨i, f⟩ := x
    obtain ⟨hindex, hstands⟩ := h.index_some hfd
    obtain ⟨m, hm, -, hsize⟩ := hstands.file
    rw [hindex]
    dsimp only
    rw [h.contents hm, ← hsize, BitVec.ofNat_toNat, BitVec.setWidth_eq]

theorem StandsFor.close (h : StandsFor start ms s store) (fd : Int) :
    StandsFor start ms { s with fdTable := closeSection s.fdTable fd } (store.close fd) := by
  unfold closeSection FileStore.close
  split
  · next hfd =>
    refine ⟨h.onDisk, h.coherent, h.files, fun j hj => ?_, fun j g hj => ?_⟩
    · by_cases hji : j = ⟨fd.toNat, by omega⟩
      · simp only [hji, Function.update_self]
      · simp only [FileStore.setOpened, Function.update_of_ne hji] at hj ⊢
        exact h.free j hj
    · by_cases hji : j = ⟨fd.toNat, by omega⟩
      · simp only [hji, FileStore.setOpened, Function.update_self] at hj
        cases hj
      · simp only [FileStore.setOpened, Function.update_of_ne hji] at hj ⊢
        exact h.stands j g hj
  · exact h

/-- No header has a negative number. -/
theorem findSome_negative (es : List Entry) {index : Int} (hneg : index < 0) :
    (es.findSome? fun e => if (e.idx : Int) = index then some (headerName e.member.headerSector)
      else none) = none := by
  rw [List.findSome?_eq_none_iff]
  exact fun e _ => if_neg (by omega)

theorem StandsFor.readdir (h : StandsFor start ms s store) (index : Int) : ∃ s',
    (vfsReaddir start index).run Vfs.serve true s = (some (store.readdir index), s') ∧
      StandsFor start ms s' store := by
  have hpos := archiveSectors_pos ms
  have hshort := h.onDisk.short
  have hwalk := @tarWalk_eval _ s.disk start start ms 0 0 tarFuel
    (fun idx _ header => if (idx : Int) = index then some (headerName header) else none)
    h.onDisk.holds (by omega) h.onDisk.fits rfl (show ms.length < 20001 by omega)
  obtain ⟨hresult, hcoherent, hdisk, htable⟩ := Vfs.run_reads (tarWalk_asks start
    (fun idx _ header => if (idx : Int) = index then some (headerName header) else none)
    tarFuel start 0) h.coherent
  rw [hwalk] at hresult
  refine ⟨_, ?_, hdisk ▸ h.onDisk, hcoherent, h.files, htable ▸ h.free, htable ▸ h.stands⟩
  rw [vfsReaddir, tarGetFileByIndex, Prog.run_bind, hresult, FileStore.readdir, h.files,
    List.getElem?_map]
  by_cases hneg : index < 0
  · rw [findSome_negative _ hneg]
    cases ms[index.toNat]? with
    | none => rfl
    | some m =>
      simp only [Option.map_some, if_pos hneg]
      rfl
  · have hnat : ((0 + index.toNat : Nat) : Int) = index := by omega
    have hindex := findSome_index 0 start ms index.toNat
    rw [hnat] at hindex
    rw [hindex]
    cases ms[index.toNat]? with
    | none => rfl
    | some m =>
      simp only [Option.map_some, if_neg hneg]
      rfl

/-! ## Sequences of calls -/

/-- **A call of `vfs.c` answers as the store does**, and leaves what stands for the store after it. -/
theorem StandsFor.call (h : StandsFor start ms s store) {c : FileCall} (hvalid : c.Valid) :
    ∃ ms' s', (c.prog start).run Vfs.serve true s = (some (store.call c).1, s') ∧
      StandsFor start ms' s' (store.call c).2 := by
  cases c with
  | openFile path =>
    obtain ⟨s', hrun, hstands⟩ := h.openFile hvalid
    exact ⟨ms, s', by rw [FileCall.prog, Prog.run_bind, hrun]; rfl, hstands⟩
  | read stack fd buffer count =>
    obtain ⟨s', hrun, hstands⟩ := h.read stack fd buffer count
    exact ⟨ms, s', by rw [FileCall.prog, Prog.run_bind, hrun]; rfl, hstands⟩
  | write stack fd buffer count =>
    obtain ⟨ms', s', hrun, hstands⟩ := h.write stack fd buffer hvalid
    exact ⟨ms', s', by rw [FileCall.prog, Prog.run_bind, hrun]; rfl, hstands⟩
  | size fd =>
    refine ⟨ms, s, ?_, h⟩
    show (some (FileAnswer.size (sizeSection s.fdTable fd)), s) = _
    rw [h.size]
    rfl
  | close fd => exact ⟨ms, _, rfl, h.close fd⟩
  | readdir index =>
    obtain ⟨s', hrun, hstands⟩ := h.readdir index
    exact ⟨ms, s', by rw [FileCall.prog, Prog.run_bind, hrun]; rfl, hstands⟩

theorem StandsFor.calls (h : StandsFor start ms s store) {cs : List FileCall}
    (hvalid : ∀ c ∈ cs, c.Valid) : ∃ ms' s',
      (fileCalls start cs).run Vfs.serve true s = ((FileStore.calls cs store).1.map some, s') ∧
        StandsFor start ms' s' (FileStore.calls cs store).2 := by
  induction cs generalizing ms s store with
  | nil => exact ⟨ms, s, rfl, h⟩
  | cons c cs ih =>
    obtain ⟨ms₁, s₁, hrun, hstands⟩ := h.call (hvalid c List.mem_cons_self)
    obtain ⟨ms₂, s₂, hruns, hstands₂⟩ := ih hstands fun d hd => hvalid d (List.mem_cons_of_mem _ hd)
    refine ⟨ms₂, s₂, ?_, hstands₂⟩
    rw [fileCalls, Prog.run_bind, hrun, Prog.run_bind, hruns]
    rfl

/-- The store that an archive holds at the boot: no descriptor is open. -/
def bootStore (ms : List Member) : FileStore := ⟨ms.map fun m => (m.name, m.contents), fun _ => none⟩

/-- The state after `vfs_init`, with this drive. -/
def bootVfsOn (disk : Disk) : Vfs := ⟨disk, ⟨0, fun _ => 0, false⟩, bootTable⟩

theorem standsFor_boot {disk : Disk} (h : OnDisk disk start ms) :
    StandsFor start ms (bootVfsOn disk) (bootStore ms) :=
  ⟨h, fun hvalid => Bool.noConfusion hvalid, rfl, fun _ _ => rfl, fun _ _ hopen => by cases hopen⟩

/-- **The file system refines the store.** On a drive with an archive, any sequence of calls after the boot
answers as the store does, and leaves an archive of the files that the store has in the end. -/
theorem fileCalls_refine {disk : Disk} (h : OnDisk disk start ms) {cs : List FileCall}
    (hvalid : ∀ c ∈ cs, c.Valid) : ∃ ms' s',
      (fileCalls start cs).run Vfs.serve true (bootVfsOn disk) =
        ((FileStore.calls cs (bootStore ms)).1.map some, s') ∧
      OnDisk s'.disk start ms' ∧
      ms'.map (fun m => (m.name, m.contents)) = (FileStore.calls cs (bootStore ms)).2.files := by
  obtain ⟨ms', s', hrun, hstands⟩ := (standsFor_boot h).calls hvalid
  exact ⟨ms', s', hrun, hstands.onDisk, hstands.files.symm⟩

/-- A file is opened, its first two bytes are written, and the file is listed. -/
def sampleFileCalls : List FileCall :=
  [.openFile [0x61#8], .write onesSector 0 onesBuffer 2, .readdir 0]

theorem fileCalls_refine_sample : (∀ c ∈ sampleFileCalls, c.Valid) ∧ ∃ ms' s',
    (fileCalls 2048 sampleFileCalls).run Vfs.serve true (bootVfsOn sampleVfs.disk) =
      ((FileStore.calls sampleFileCalls (bootStore sampleMembers)).1.map some, s') ∧
    OnDisk s'.disk 2048 ms' ∧
    ms'.map (fun m => (m.name, m.contents)) =
      (FileStore.calls sampleFileCalls (bootStore sampleMembers)).2.files := by
  have hvalid : ∀ c ∈ sampleFileCalls, c.Valid := by
    intro c hc
    simp only [sampleFileCalls, List.mem_cons, List.not_mem_nil, or_false] at hc
    obtain rfl | rfl | rfl := hc
    · exact fun c hc => by rw [List.mem_singleton.mp hc]; decide
    · show (2 : BitVec 32).toNat < 2 ^ 31
      decide
    · trivial
  exact ⟨hvalid, fileCalls_refine sampleVfs_onDisk hvalid⟩

end Calls

end ZohoOs
