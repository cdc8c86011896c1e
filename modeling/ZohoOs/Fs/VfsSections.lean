import ZohoOs.Fs.StoreRefinement
import ZohoOs.Sync.SpinLock

/-!
# The critical sections of `vfs.c`

Each call of `vfs.c` takes `vfs_lock` for its work on `fd_table`, and reads and writes the fields of the
entries one by one. Here the sections are programs of these loads and stores, which any number of CPUs carry
out under the spinlock of `lock.c`. The calls behave as if each section were one step.

## Main definitions

* `FdAccess`: the loads and stores of a section
* `openBody`, `readBody`, `writeBody`, `sizeBody`, `closeBody`: the sections
* `vfsLocking`: the calls under `vfs_lock`

## Main results

* `vfsLocking_serve`: a section without others is the step it is taken for
* `vfsRun_serialises`: the calls of many CPUs are calls whose sections are single steps
-/

namespace ZohoOs

open Program TransitionSystem CriticalSections

/-! ## Loads and stores -/

/-- A load or a store of one field of an entry. -/
inductive FdAccess
  | loadInUse (i : Fin 16)
  | loadStartLba (i : Fin 16)
  | loadSize (i : Fin 16)
  | loadOffset (i : Fin 16)
  | storeInUse (i : Fin 16) (inUse : Bool)
  | storeStartLba (i : Fin 16) (startLba : BitVec 32)
  | storeSize (i : Fin 16) (size : BitVec 32)
  | storeOffset (i : Fin 16) (offset : BitVec 32)

@[reducible] def FdLoaded : FdAccess → Type
  | .loadInUse _ => Bool
  | .loadStartLba _ => BitVec 32
  | .loadSize _ => BitVec 32
  | .loadOffset _ => BitVec 32
  | _ => Unit

/-- What an access does to the table. -/
def fdAccess : Server Unit FdAccess FdLoaded FdTable
  | _, .loadInUse i, table => ((table i).inUse, table)
  | _, .loadStartLba i, table => ((table i).startLba, table)
  | _, .loadSize i, table => ((table i).size, table)
  | _, .loadOffset i, table => ((table i).offset, table)
  | _, .storeInUse i inUse, table => ((), Function.update table i { table i with inUse })
  | _, .storeStartLba i startLba, table => ((), Function.update table i { table i with startLba })
  | _, .storeSize i size, table => ((), Function.update table i { table i with size })
  | _, .storeOffset i offset, table => ((), Function.update table i { table i with offset })

/-- The critical sections, as they work on the table. -/
abbrev FdProg := Prog FdAccess FdLoaded

abbrev fdAsk (a : FdAccess) : FdProg (FdLoaded a) := Prog.request a

/-! ## The sections -/

/-- The loop of `vfs_open` over the entries. -/
def openBody (lba size : BitVec 32) : List (Fin 16) → FdProg Int
  | [] => pure (-1)
  | i :: is => do
    let inUse : Bool ← fdAsk (.loadInUse i)
    if inUse then openBody lba size is
    else
      fdAsk (.storeInUse i true)
      fdAsk (.storeStartLba i lba)
      fdAsk (.storeSize i size)
      fdAsk (.storeOffset i 0)
      pure i.val

/-- `fd < 0 || fd >= MAX_FDS || !fd_table[fd].in_use`: the entry, if it is in use. -/
def entryBody (fd : Int) : FdProg (Option (Fin 16)) :=
  if h : 0 ≤ fd ∧ fd < 16 then do
    let i : Fin 16 := ⟨fd.toNat, fd_lt h⟩
    let inUse : Bool ← fdAsk (.loadInUse i)
    pure (if inUse then some i else none)
  else pure none

/-- The section of `vfs_read`, in front of the end of the file. -/
def reserveBody (i : Fin 16) (count : BitVec 32) : FdProg (Except Int Reservation) := do
  let size : BitVec 32 ← fdAsk (.loadSize i)
  let offset : BitVec 32 ← fdAsk (.loadOffset i)
  let count := if count > size - offset then size - offset else count
  let startLba : BitVec 32 ← fdAsk (.loadStartLba i)
  let start : BitVec 32 ← fdAsk (.loadOffset i)
  let offset : BitVec 32 ← fdAsk (.loadOffset i)
  fdAsk (.storeOffset i (offset + count))
  pure (.ok ⟨startLba, start, count⟩)

/-- The section of `vfs_read`. -/
def readBody (fd : Int) (count : BitVec 32) : FdProg (Except Int Reservation) := do
  match ← entryBody fd with
  | none => pure (.error (-1))
  | some i =>
    let offset : BitVec 32 ← fdAsk (.loadOffset i)
    let size : BitVec 32 ← fdAsk (.loadSize i)
    if offset ≥ size then pure (.error 0) else reserveBody i count

/-- The section of `vfs_write`. -/
def writeBody (fd : Int) (count : BitVec 32) : FdProg (Except Int Reservation) := do
  match ← entryBody fd with
  | none => pure (.error (-1))
  | some i =>
    let offset : BitVec 32 ← fdAsk (.loadOffset i)
    let size : BitVec 32 ← fdAsk (.loadSize i)
    let count := if offset + count > size then size - offset else count
    let startLba : BitVec 32 ← fdAsk (.loadStartLba i)
    let start : BitVec 32 ← fdAsk (.loadOffset i)
    let offset : BitVec 32 ← fdAsk (.loadOffset i)
    fdAsk (.storeOffset i (offset + count))
    pure (.ok ⟨startLba, start, count⟩)

/-- The section of `vfs_size`. -/
def sizeBody (fd : Int) : FdProg (BitVec 32) := do
  match ← entryBody fd with
  | none => pure 0
  | some i => fdAsk (.loadSize i)

/-- The section of `vfs_close`. -/
def closeBody (fd : Int) : FdProg Unit :=
  if h : 0 ≤ fd ∧ fd < 16 then fdAsk (.storeInUse ⟨fd.toNat, fd_lt h⟩ false) else pure ()

/-- The critical section of a request, if it has one. -/
def vfsBody : (r : VfsRequest) → Option (FdProg (VfsAnswer r))
  | .openSection lba size => some (openBody lba size (List.finRange 16))
  | .readSection fd count => some (readBody fd count)
  | .writeSection fd count => some (writeBody fd count)
  | .sizeSection fd => some (sizeBody fd)
  | .closeSection fd => some (closeBody fd)
  | _ => none

/-- The drive and the cache, which `vfs_lock` does not guard. -/
structure Drive where
  disk : Disk
  cache : SectorCache

/-- The requests without a section. -/
def unguardedServe : Server Bool VfsRequest VfsAnswer Drive := fun ok r t =>
  let (answer, s) := Vfs.serve ok r ⟨t.disk, t.cache, bootTable⟩
  (answer, ⟨s.disk, s.cache⟩)

/-- **The calls of `vfs.c` under `vfs_lock`**, a spinlock of `lock.c`. -/
def vfsLocking : Discipline Bool VfsRequest FdAccess VfsAnswer FdLoaded FdTable Drive SpinCounts where
  access := fdAccess
  body := vfsBody
  other := unguardedServe
  book := spinBook

/-! ## A section without others -/

section Sections

variable {table : FdTable} {fd : Int} {i : Fin 16}

theorem entryBody_run (fd : Int) (table : FdTable) :
    (entryBody fd).run fdAccess () table = (table.index fd, table) := by
  unfold entryBody FdTable.index
  split <;> rfl

theorem openBody_run (lba size : BitVec 32) (is : List (Fin 16)) (table : FdTable) :
    (openBody lba size is).run fdAccess () table =
      match is.find? fun i => !(table i).inUse with
      | some i => (i.val, Function.update table i ⟨lba, size, 0, true⟩)
      | none => (-1, table) := by
  induction is with
  | nil => rfl
  | cons i is ih =>
    rw [openBody, Prog.request_bind, Prog.run]
    cases hi : (table i).inUse with
    | true =>
      rw [List.find?_cons_of_neg (by simp [hi]), ← ih]
      simp only [fdAccess, hi, if_true]
    | false =>
      rw [List.find?_cons_of_pos (by simp [hi])]
      simp [fdAccess, hi, Prog.run, Function.update_idem]

theorem readBody_run (fd : Int) (count : BitVec 32) (table : FdTable) :
    (readBody fd count).run fdAccess () table = readSection table fd count := by
  rw [readBody, Prog.run_bind, entryBody_run, readSection]
  cases table.index fd with
  | none => rfl
  | some i =>
    show (if (table i).offset ≥ (table i).size then pure (.error 0) else reserveBody i count : FdProg _).run
      fdAccess () table = _
    by_cases hend : (table i).offset ≥ (table i).size
    · rw [if_pos hend]
      exact (if_pos hend).symm
    · rw [if_neg hend]
      exact (if_neg hend).symm

theorem writeBody_run (fd : Int) (count : BitVec 32) (table : FdTable) :
    (writeBody fd count).run fdAccess () table = writeSection table fd count := by
  rw [writeBody, Prog.run_bind, entryBody_run, writeSection]
  cases table.index fd <;> rfl

theorem sizeBody_run (fd : Int) (table : FdTable) :
    (sizeBody fd).run fdAccess () table = (sizeSection table fd, table) := by
  rw [sizeBody, Prog.run_bind, entryBody_run, sizeSection]
  cases table.index fd <;> rfl

theorem closeBody_run (fd : Int) (table : FdTable) :
    (closeBody fd).run fdAccess () table = ((), closeSection table fd) := by
  unfold closeBody closeSection
  split <;> rfl

theorem vfsLocking_section {r : VfsRequest} {b : FdProg (VfsAnswer r)} (hb : vfsBody r = some b)
    (ok : Bool) (table : FdTable) (t : Drive) : vfsLocking.serve ok r (table, t) =
      ((b.run fdAccess () table).1, ((b.run fdAccess () table).2, t)) :=
  serve_body (d := vfsLocking) hb ok (table, t)

/-- **A section without others** is the step it is taken for. -/
theorem vfsLocking_serve (ok : Bool) (r : VfsRequest) (s : Vfs) :
    vfsLocking.serve ok r (s.fdTable, ⟨s.disk, s.cache⟩) =
      ((Vfs.serve ok r s).1, (Vfs.serve ok r s).2.fdTable,
        ⟨(Vfs.serve ok r s).2.disk, (Vfs.serve ok r s).2.cache⟩) := by
  cases r with
  | openSection lba size =>
    have hsection := vfsLocking_section (r := .openSection lba size) rfl ok s.fdTable ⟨s.disk, s.cache⟩
    rw [openBody_run] at hsection
    exact hsection
  | readSection fd count =>
    have hsection := vfsLocking_section (r := .readSection fd count) rfl ok s.fdTable ⟨s.disk, s.cache⟩
    rw [readBody_run] at hsection
    exact hsection
  | writeSection fd count =>
    rw [vfsLocking_section rfl, writeBody_run]
    rfl
  | sizeSection fd =>
    rw [vfsLocking_section rfl, sizeBody_run]
    rfl
  | closeSection fd =>
    rw [vfsLocking_section rfl, closeBody_run]
    rfl
  | readSector lba buffer => rfl
  | cachedRead lba =>
    show ((unguardedServe ok (.cachedRead lba) ⟨s.disk, s.cache⟩).1, s.fdTable,
      (unguardedServe ok (.cachedRead lba) ⟨s.disk, s.cache⟩).2) = _
    simp only [unguardedServe, Vfs.serve, cachedReadSector]
    split <;> rfl
  | cachedWrite lba buffer => rfl

/-! ## Many CPUs -/

variable {ι α : Type} [DecidableEq ι]

/-- **The calls of many CPUs.** Under `vfs_lock`, any programs of calls that load and store field by field,
in any interleaving, do what they do with sections of one step: the calls that have returned have the same
answers, and the drive, the cache and, while the lock is free, the table are the same. One CPU is within a
section at most, and as long as a call has not returned some CPU goes on. -/
theorem vfsRun_serialises {progs : ι → VfsProg α} {c₀ : SpinCounts} {s : Vfs}
    {ls : List (Label ι Bool VfsRequest VfsAnswer)}
    {m : LockMachine ι VfsRequest FdAccess VfsAnswer FdLoaded α FdTable Drive SpinCounts}
    (h : Run (Step vfsLocking) (LockMachine.start progs c₀ s.fdTable ⟨s.disk, s.cache⟩) ls m) :
    ∃ s', Run (Pool.Step Vfs.serve) (progs, s) (ls.filterMap Label.event)
        (fun i => (m.threads i).prog, s') ∧
      s'.disk = m.rest.disk ∧ s'.cache = m.rest.cache ∧ (m.locked = false → s'.fdTable = m.data) ∧
      (∀ i j, (m.threads i).Holds → (m.threads j).Holds → i = j) ∧
      ∀ i, (∀ n a, m.threads i ≠ .waits n (.done a)) →
        ∃ l m', Step vfsLocking m l m' ∧ ∀ j, l ≠ .fails j := by
  obtain ⟨p, hpool, hp⟩ := run_serialises h
  obtain ⟨s', hrun, hs'⟩ := Pool.run_map (f := fun s : Vfs => (s.fdTable, (⟨s.disk, s.cache⟩ : Drive)))
    vfsLocking_serve hpool
  have hprogs : p.1 = fun i => (m.threads i).prog := funext hp.threads
  have hrest : (⟨s'.disk, s'.cache⟩ : Drive) = m.rest := by
    rw [← hp.rest, hs']
  refine ⟨s', hprogs ▸ hrun, congrArg Drive.disk hrest, congrArg Drive.cache hrest, fun hfree => ?_,
    fun i j hi hj => ((run_exclusive h hj).2 i hi), fun i hi => hp.progress true hi⟩
  rw [← (hp.free hfree).1, hs']

/-- A CPU asks for the size of a file that is not open, while another one spins. -/
def sampleVfsLabels : List (Label Bool Bool VfsRequest VfsAnswer) :=
  [.acquires false 0, .fails true, .counts false, .accesses false,
    .releases ⟨false, true, .sizeSection 0, (0 : BitVec 32)⟩]

theorem vfsRun_serialises_sample : ∃ m, Run (Step vfsLocking) (LockMachine.start (fun _ : Bool => vfsSize 0)
    ⟨0, 0, 0⟩ sampleVfs.fdTable ⟨sampleVfs.disk, sampleVfs.cache⟩) sampleVfsLabels m ∧
    ∃ s', Run (Pool.Step Vfs.serve) (fun _ : Bool => vfsSize 0, sampleVfs)
        (sampleVfsLabels.filterMap Label.event) (fun i => (m.threads i).prog, s') ∧
      s'.disk = m.rest.disk ∧ s'.cache = m.rest.cache ∧ (m.locked = false → s'.fdTable = m.data) ∧
      (∀ i j, (m.threads i).Holds → (m.threads j).Holds → i = j) ∧
      ∀ i, (∀ n a, m.threads i ≠ .waits n (.done a)) →
        ∃ l m', Step vfsLocking m l m' ∧ ∀ j, l ≠ .fails j := by
  have hrun : ∃ m, Run (Step vfsLocking) (LockMachine.start (fun _ : Bool => vfsSize 0)
      ⟨0, 0, 0⟩ sampleVfs.fdTable ⟨sampleVfs.disk, sampleVfs.cache⟩) sampleVfsLabels m :=
    ⟨_, Run.snoc (Run.snoc (Run.snoc (Run.snoc (Run.single
      (.acquires (i := false) (r := VfsRequest.sizeSection 0) (b := sizeBody 0) rfl rfl rfl))
      (.fails (i := true) (r := VfsRequest.sizeSection 0) (b := sizeBody 0) rfl rfl rfl))
      (.counts (i := false) rfl)) (.accesses (i := false) rfl)) (.releases (i := false) true rfl)⟩
  obtain ⟨m, hm⟩ := hrun
  exact ⟨m, hm, vfsRun_serialises hm⟩

end Sections

end ZohoOs
