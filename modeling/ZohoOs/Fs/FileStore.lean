import ZohoOs.Fs.WriteClamp

/-!
# The file system as a store

What the calls of `vfs.c` are for: named files of fixed sizes, and descriptors that move over them. The
store knows of no sectors, headers or caches.

## Main definitions

* `FileStore`, `FileStore.call`: the files and the descriptors, and what a call does to them
* `FileCall.prog`: the same call of `vfs.c`
* `Member.splice`: a member some of whose bytes are written

## Main results

* `HoldsAt.writeMember`: a write within the contents of a member leaves an archive
-/

namespace ZohoOs

open Program

/-! ## The store -/

/-- A descriptor: the number of its file, and where in the file it stands. -/
structure OpenFile where
  file : Nat
  offset : Nat
  deriving DecidableEq

/-- Files with their names and contents, in the order of the directory, and 16 descriptors. -/
structure FileStore where
  files : List (List Byte × List Byte)
  opened : Fin 16 → Option OpenFile

/-- The calls of `vfs.c`, with what is on the stack. -/
inductive FileCall
  | openFile (path : List Byte)
  | read (stack : Sector) (fd : Int) (buffer : Buffer) (count : BitVec 32)
  | write (stack : Sector) (fd : Int) (buffer : Buffer) (count : BitVec 32)
  | size (fd : Int)
  | close (fd : Int)
  | readdir (index : Int)

/-- What a call returns, and the buffer it fills. -/
inductive FileAnswer
  | fd (fd : Int)
  | read (n : Int) (buffer : Buffer)
  | written (n : Int)
  | size (size : BitVec 32)
  | closed
  | entry (result : Int) (name : Option (List Byte))

/-- `n` bytes of a buffer, put at an offset of a file. -/
def splice (contents : List Byte) (offset n : Nat) (buffer : Buffer) : List Byte :=
  contents.mapIdx fun i b => if offset ≤ i ∧ i < offset + n then buffer (i - offset) else b

/-- A buffer whose first `n` bytes come from an offset of a file. -/
def fillBuffer (contents : List Byte) (offset n : Nat) (buffer : Buffer) : Buffer :=
  fun i => if i < n then contents.getD (offset + i) 0 else buffer i

/-- A number of a descriptor. -/
theorem fd_lt {fd : Int} (h : 0 ≤ fd ∧ fd < 16) : fd.toNat < 16 := by omega

namespace FileStore

variable (store : FileStore)

/-- The descriptor a number stands for. -/
def descriptor (fd : Int) : Option (Fin 16 × OpenFile) :=
  if h : 0 ≤ fd ∧ fd < 16 then
    let i : Fin 16 := ⟨fd.toNat, fd_lt h⟩
    (store.opened i).map fun f => (i, f)
  else none

def contents (file : Nat) : List Byte := (store.files.getD file ([], [])).2

def setOpened (i : Fin 16) (f : Option OpenFile) : FileStore :=
  { store with opened := Function.update store.opened i f }

/-- The first file with a name gets the first descriptor that is free. -/
def openFile (path : List Byte) : Int × FileStore :=
  match store.files.findIdx? fun f => f.1 = path with
  | none => (-1, store)
  | some file =>
    match (List.finRange 16).find? fun i => (store.opened i).isNone with
    | none => (-1, store)
    | some i => (i.val, store.setOpened i (some ⟨file, 0⟩))

/-- As many bytes as are asked for and left. -/
def read (fd : Int) (buffer : Buffer) (count : Nat) : (Int × Buffer) × FileStore :=
  match store.descriptor fd with
  | none => ((-1, buffer), store)
  | some (i, f) =>
    let n := min count ((store.contents f.file).length - f.offset)
    ((n, fillBuffer (store.contents f.file) f.offset n buffer),
      store.setOpened i (some { f with offset := f.offset + n }))

/-- As many bytes as there is room for. -/
def write (fd : Int) (buffer : Buffer) (count : Nat) : Int × FileStore :=
  match store.descriptor fd with
  | none => (-1, store)
  | some (i, f) =>
    let n := min count ((store.contents f.file).length - f.offset)
    (n, { store.setOpened i (some { f with offset := f.offset + n }) with
      files := store.files.modify f.file fun file => (file.1, splice file.2 f.offset n buffer) })

def size (fd : Int) : Nat :=
  match store.descriptor fd with
  | none => 0
  | some (_, f) => (store.contents f.file).length

def close (fd : Int) : FileStore :=
  if h : 0 ≤ fd ∧ fd < 16 then store.setOpened ⟨fd.toNat, fd_lt h⟩ none else store

def readdir (index : Int) : Int × Option (List Byte) :=
  match store.files[index.toNat]? with
  | some file => if index < 0 then (-1, none) else (0, some file.1)
  | none => (-1, none)

/-- **What a call does to a store.** -/
def call : FileCall → FileAnswer × FileStore
  | .openFile path =>
    let (fd, store) := store.openFile path
    (.fd fd, store)
  | .read _ fd buffer count =>
    let ((n, buffer), store) := store.read fd buffer count.toNat
    (.read n buffer, store)
  | .write _ fd buffer count =>
    let (n, store) := store.write fd buffer count.toNat
    (.written n, store)
  | .size fd => (.size (BitVec.ofNat 32 (store.size fd)), store)
  | .close fd => (.closed, store.close fd)
  | .readdir index =>
    let (result, name) := store.readdir index
    (.entry result name, store)

/-- One call after the other: the answers, and the store in the end. -/
def calls : List FileCall → FileStore → List FileAnswer × FileStore
  | [], store => ([], store)
  | c :: cs, store =>
    let (answer, store) := store.call c
    let (answers, store) := calls cs store
    (answer :: answers, store)

end FileStore

/-- The call of `vfs.c`. -/
def FileCall.prog (start : BitVec 32) : FileCall → VfsProg (Option FileAnswer)
  | .openFile path => do
    let fd ← vfsOpen start path
    pure (fd.map .fd)
  | .read stack fd buffer count => do
    let (n, buffer) ← vfsRead stack fd buffer count
    pure (some (.read n buffer))
  | .write stack fd buffer count => do
    let n ← vfsWrite stack fd buffer count
    pure (some (.written n))
  | .size fd => do
    let size ← vfsSize fd
    pure (some (.size size))
  | .close fd => do
    vfsClose fd
    pure (some .closed)
  | .readdir index => do
    let entry ← vfsReaddir start index
    pure (entry.map fun e => .entry e.1 e.2)

/-- One call of `vfs.c` after the other. -/
def fileCalls (start : BitVec 32) : List FileCall → VfsProg (List (Option FileAnswer))
  | [] => pure []
  | c :: cs => do
    let answer ← c.prog start
    let answers ← fileCalls start cs
    pure (answer :: answers)

/-- The arguments of a call: a path is a string, and the count of a write can be returned as an `int`. -/
def FileCall.Valid : FileCall → Prop
  | .openFile path => ∀ c ∈ path, c ≠ 0
  | .write _ _ _ count => count.toNat < 2 ^ 31
  | _ => True

/-! ## A write within a member -/

section Members

variable {disk disk' : Disk} {lba : Nat} {ms : List Member} {m : Member} {k offset n : Nat}
  {buffer : Buffer}

@[simp] theorem length_splice (contents : List Byte) (offset n : Nat) (buffer : Buffer) :
    (splice contents offset n buffer).length = contents.length :=
  List.length_mapIdx

/-- A member some of whose bytes are written. Its header stays as it is. -/
def Member.splice (m : Member) (offset n : Nat) (buffer : Buffer) : Member where
  name := m.name
  contents := ZohoOs.splice m.contents offset n buffer
  owner := m.owner
  rest := m.rest
  name_pos := m.name_pos
  name_lt := m.name_lt
  name_ne := m.name_ne
  size_lt := by rw [length_splice]; exact m.size_lt
  owner_length := m.owner_length
  rest_length := m.rest_length

theorem Member.splice_contents_length (m : Member) (offset n : Nat) (buffer : Buffer) :
    (m.splice offset n buffer).contents.length = m.contents.length := length_splice ..

theorem Member.splice_header (m : Member) (offset n : Nat) (buffer : Buffer) :
    (m.splice offset n buffer).header = m.header := by
  simp only [Member.header, Member.splice_contents_length]
  rfl

theorem Member.splice_sectors (m : Member) (offset n : Nat) (buffer : Buffer) :
    (m.splice offset n buffer).sectors = m.sectors := by
  simp only [Member.sectors, Member.dataSectors, Member.splice_contents_length]

/-- The sectors of an archive before a member. -/
def sectorsBefore (ms : List Member) (k : Nat) : Nat := ((ms.take k).map Member.sectors).sum

theorem sectorsBefore_zero (ms : List Member) : sectorsBefore ms 0 = 0 := rfl

theorem sectorsBefore_cons (m : Member) (ms : List Member) (k : Nat) :
    sectorsBefore (m :: ms) (k + 1) = m.sectors + sectorsBefore ms k := by
  rw [sectorsBefore, List.take_succ_cons, List.map_cons, List.sum_cons, sectorsBefore]

/-- A member is within its archive. -/
theorem sectorsBefore_lt (hm : ms[k]? = some m) :
    sectorsBefore ms k + m.sectors < archiveSectors ms := by
  induction ms generalizing k with
  | nil => cases hm
  | cons m' ms ih =>
    rw [(archive_cons m' ms).2.1]
    cases k with
    | zero =>
      obtain rfl := Option.some.inj hm
      have hpos := archiveSectors_pos ms
      rw [sectorsBefore_zero]
      omega
    | succ k =>
      have := ih hm
      rw [sectorsBefore_cons]
      omega

/-- What the drive holds elsewhere is not changed. -/
theorem HoldsAt.frame {bytes : List Byte} (h : HoldsAt disk lba bytes)
    (hsame : ∀ i < bytes.length, disk' (512 * lba + i) = disk (512 * lba + i)) :
    HoldsAt disk' lba bytes := by
  intro i b hb
  rw [hsame i (List.getElem?_eq_some_iff.mp hb).1]
  exact h i b hb

theorem HoldsAt.append {a b : List Byte} (sectors : Nat) (ha : HoldsAt disk lba a)
    (hb : HoldsAt disk (lba + sectors) b) (hlen : a.length = 512 * sectors) :
    HoldsAt disk lba (a ++ b) := by
  intro i c hc
  rcases Nat.lt_or_ge i a.length with hi | hi
  · rw [List.getElem?_append_left hi] at hc
    exact ha i c hc
  · rw [List.getElem?_append_right hi] at hc
    have hread := hb _ c hc
    rwa [show 512 * (lba + sectors) + (i - a.length) = 512 * lba + i by omega] at hread

/-- The contents of a member are written, and what pads them is not. -/
theorem HoldsAt.spliced (h : HoldsAt disk lba m.padded) (hfit : offset + n ≤ m.contents.length)
    (hbytes : ∀ j < n, disk' (512 * lba + offset + j) = buffer j)
    (hothers : ∀ pos, (∀ j < n, 512 * lba + offset + j ≠ pos) → disk' pos = disk pos) :
    HoldsAt disk' lba (m.splice offset n buffer).padded := by
  intro i b hb
  have hpad : (m.splice offset n buffer).padded = splice m.contents offset n buffer ++
      List.replicate (512 * m.dataSectors - m.contents.length) 0 := by
    simp only [Member.padded, Member.dataSectors, Member.splice_contents_length]
    rfl
  rw [hpad] at hb
  by_cases hin : offset ≤ i ∧ i < offset + n
  · -- a byte that is written
    have hi : i < m.contents.length := by omega
    rw [List.getElem?_append_left (by rw [length_splice]; exact hi), splice, List.getElem?_mapIdx,
      List.getElem?_eq_getElem hi, Option.map_some, if_pos hin] at hb
    obtain rfl := Option.some.inj hb
    rw [← hbytes (i - offset) (by omega)]
    congr 1
    omega
  · rw [hothers _ fun j hj heq => hin (by omega)]
    refine h i b ?_
    rw [Member.padded]
    rcases Nat.lt_or_ge i m.contents.length with hi | hi
    · rw [List.getElem?_append_left (by rw [length_splice]; exact hi), splice, List.getElem?_mapIdx,
        List.getElem?_eq_getElem hi, Option.map_some, if_neg hin] at hb
      rw [List.getElem?_append_left hi, List.getElem?_eq_getElem hi]
      exact hb
    · rw [List.getElem?_append_right (by rw [length_splice]; exact hi), length_splice] at hb
      rw [List.getElem?_append_right hi]
      exact hb

/-- **A write within the contents of a member** leaves an archive, with that member changed. -/
theorem HoldsAt.writeMember (h : HoldsAt disk lba (archive ms)) (hm : ms[k]? = some m)
    (hfit : offset + n ≤ m.contents.length)
    (hbytes : ∀ j < n, disk' (512 * (lba + sectorsBefore ms k + 1) + offset + j) = buffer j)
    (hothers : ∀ pos, (∀ j < n, 512 * (lba + sectorsBefore ms k + 1) + offset + j ≠ pos) →
      disk' pos = disk pos) :
    HoldsAt disk' lba (archive (ms.set k (m.splice offset n buffer))) := by
  induction ms generalizing lba k with
  | nil => cases hm
  | cons m' ms ih =>
    obtain ⟨hcons, -, hlen⟩ := archive_cons m' ms
    rw [hcons] at h
    have hcontents : m.contents.length ≤ 512 * m.dataSectors := by
      unfold Member.dataSectors
      omega
    cases k with
    | zero =>
      obtain rfl := Option.some.inj hm
      rw [sectorsBefore_zero, Nat.add_zero] at hbytes hothers
      rw [List.set_cons_zero, (archive_cons _ ms).1, Member.splice_header]
      refine HoldsAt.append m'.sectors ?_ ?_ ?_
      · refine HoldsAt.append 1 ?_ ?_ m'.header_length
        · refine h.left.left.frame fun i hi => hothers _ fun j _ heq => ?_
          rw [m'.header_length] at hi
          omega
        · exact (h.left.right m'.header_length).spliced hfit hbytes hothers
      · -- the members behind it
        refine (h.right hlen).frame fun i _ => hothers _ fun j hj heq => ?_
        unfold Member.sectors at heq
        omega
      · rw [List.length_append, m'.header_length, Member.padded_length]
        simp only [Member.sectors, Member.dataSectors, Member.splice_contents_length]
        omega
    | succ k =>
      rw [List.set_cons_succ, (archive_cons m' _).1]
      rw [sectorsBefore_cons, ← Nat.add_assoc] at hbytes hothers
      refine HoldsAt.append _ ?_ (ih (h.right hlen) hm hbytes hothers) hlen
      refine h.left.frame fun i hi => hothers _ fun j _ heq => ?_
      rw [hlen] at hi
      omega

theorem map_sectors_set (hm : ms[k]? = some m) :
    (ms.set k (m.splice offset n buffer)).map Member.sectors = ms.map Member.sectors := by
  obtain ⟨hk, rfl⟩ := List.getElem?_eq_some_iff.mp hm
  have hlen : k < (ms.map Member.sectors).length := by rwa [List.length_map]
  rw [List.map_set, Member.splice_sectors, ← List.getElem_map Member.sectors (h := hlen),
    List.set_getElem_self]

theorem archiveSectors_set (hm : ms[k]? = some m) :
    archiveSectors (ms.set k (m.splice offset n buffer)) = archiveSectors ms := by
  rw [archiveSectors, map_sectors_set hm, archiveSectors]

/-- The entry of a member. -/
theorem entries_getElem? (idx : Nat) (lba : BitVec 32) (ms : List Member) (k : Nat) :
    (entries idx lba ms)[k]? = ms[k]?.map fun m =>
      ⟨idx + k, lba + BitVec.ofNat 32 (sectorsBefore ms k), m⟩ := by
  induction ms generalizing idx lba k with
  | nil => rfl
  | cons m ms ih =>
    cases k with
    | zero =>
      rw [entries, List.getElem?_cons_zero, List.getElem?_cons_zero, sectorsBefore_zero]
      exact congrArg (fun a => some (Entry.mk idx a m)) (BitVec.add_zero lba).symm
    | succ k =>
      rw [entries, List.getElem?_cons_succ, List.getElem?_cons_succ, ih, sectorsBefore_cons,
        BitVec.ofNat_add, ← BitVec.add_assoc, Nat.add_assoc, Nat.add_comm 1 k]

end Members

end ZohoOs
