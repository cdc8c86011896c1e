import ZohoOs.Lib.BlockTiling
import ZohoOs.Fs.Mount

/-!
# Readers of one file

Tasks call `vfs_read` on one descriptor. Each call reserves its range in one critical section, and
copies it afterwards, while the others go on. The ranges follow one another from the start of the file
to the offset of the descriptor, and each call returns the bytes of its own.

## Main definitions

* `reservations`: the ranges that were reserved in a run, with whose they are
* `ReadCall`, `ReaderRun`: calls of `vfs_read`, and their runs
* `Partitioned`: what the calls have made of the file

## Main results

* `readerRun_partitioned`: at any moment, the ranges partition the file up to the offset
-/

namespace ZohoOs

open Program TransitionSystem BlockTiling

variable {ι κ : Type}

/-! ## Reservations -/

/-- The range a critical section has reserved. -/
def reserved : Event ι κ VfsRequest VfsAnswer → Option (ι × Reservation)
  | ⟨who, _, .readSection .., .ok range⟩ => some (who, range)
  | ⟨who, _, .writeSection .., .ok range⟩ => some (who, range)
  | _ => none

/-- The ranges reserved in a run, in order, with whose they are. -/
def reservations (es : List (Event ι κ VfsRequest VfsAnswer)) : List (ι × Reservation) :=
  es.filterMap reserved

theorem reservations_concat (es : List (Event ι κ VfsRequest VfsAnswer))
    (e : Event ι κ VfsRequest VfsAnswer) :
    reservations (es ++ [e]) = reservations es ++ (reserved e).toList := by
  rw [reservations, List.filterMap_append]
  cases h : reserved e with
  | none => rw [List.filterMap_cons_none h]; rfl
  | some x => rw [List.filterMap_cons_some h]; rfl

/-- The bytes of a reservation, by its offset and its length. -/
def spanOf (x : ι × Reservation) : Nat × Nat := (x.2.offset.toNat, x.2.count.toNat)

/-! ## Calls -/

/-- The arguments of `vfs_read`, and what its stack holds. -/
structure ReadCall where
  stack : Sector
  buffer : Buffer
  count : BitVec 32

/-- The ideal drive: every command is carried out. -/
def idealServe : Server Unit VfsRequest VfsAnswer Vfs := fun _ => Vfs.serve true

/-- **Runs of calls** of `vfs_read` on one descriptor, their requests in any order. -/
def ReaderRun [DecidableEq ι] (calls : ι → ReadCall) (fd : Int) (s : Vfs)
    (es : List (Event ι Unit VfsRequest VfsAnswer))
    (p : Pool ι VfsRequest VfsAnswer (Int × Buffer) Vfs) : Prop :=
  Run (Pool.Step idealServe)
    (fun i => vfsRead (calls i).stack fd (calls i).buffer (calls i).count, s) es p

/-- What a call is to return: the bytes of its range, or nothing at the end of the file. -/
def Delivers (disk : Disk) (lba : BitVec 32) (calls : ι → ReadCall)
    (es : List (Event ι Unit VfsRequest VfsAnswer)) (i : ι) (result : Int × Buffer) : Prop :=
  (∃ range, (i, range) ∈ reservations es ∧ result = ((range.count.toNat : Int),
      bufferAfter disk lba range.offset.toNat range.count.toNat (calls i).buffer)) ∨
    ((∀ x ∈ reservations es, x.1 ≠ i) ∧ result = (0, (calls i).buffer))

/-- **The calls partition the file.** The offset is within the file and the ranges cover the file up to
it; a call has one range at most, and the ranges of two calls are disjoint; a call that has returned
has delivered the bytes of its range. -/
structure Partitioned (disk : Disk) (lba : BitVec 32) (size : Nat) (calls : ι → ReadCall) (fd : Int)
    (es : List (Event ι Unit VfsRequest VfsAnswer))
    (p : Pool ι VfsRequest VfsAnswer (Int × Buffer) Vfs) : Prop where
  covers : ∃ offset, StandsAt p.2.fdTable fd lba size offset ∧ offset ≤ size ∧
    ∀ i, i < offset ↔ ∃ x ∈ reservations es,
      x.2.offset.toNat ≤ i ∧ i < x.2.offset.toNat + x.2.count.toNat
  disjoint : (reservations es).Pairwise fun x y => x.1 ≠ y.1 ∧
    ∀ i, ¬ ((x.2.offset.toNat ≤ i ∧ i < x.2.offset.toNat + x.2.count.toNat) ∧
      y.2.offset.toNat ≤ i ∧ i < y.2.offset.toNat + y.2.count.toNat)
  delivers : ∀ i result, p.1 i = .done result → Delivers disk lba calls es i result

section Reading

variable {disk : Disk} {lba : BitVec 32} {size : Nat} {calls : ι → ReadCall} {fd : Int}
  {es : List (Event ι Unit VfsRequest VfsAnswer)}
  {p p' : Pool ι VfsRequest VfsAnswer (Int × Buffer) Vfs} {e : Event ι Unit VfsRequest VfsAnswer}
  {i : ι}

/-- A call that has not begun. -/
def Waiting (calls : ι → ReadCall) (fd : Int) (es : List (Event ι Unit VfsRequest VfsAnswer))
    (p : Pool ι VfsRequest VfsAnswer (Int × Buffer) Vfs) (i : ι) : Prop :=
  p.1 i = vfsRead (calls i).stack fd (calls i).buffer (calls i).count ∧
    ∀ x ∈ reservations es, x.1 ≠ i

/-- A call that is past its critical section: the rest of it reads the drive only, and is bound to
deliver the bytes of its range. -/
def Copying (disk : Disk) (lba : BitVec 32) (calls : ι → ReadCall)
    (es : List (Event ι Unit VfsRequest VfsAnswer))
    (p : Pool ι VfsRequest VfsAnswer (Int × Buffer) Vfs) (i : ι) : Prop :=
  (p.1 i).Asks VfsRequest.IsDirect ∧ Delivers disk lba calls es i ((p.1 i).eval (diskAnswer disk))

/-- The invariant of the readers. -/
structure Reading (disk : Disk) (lba : BitVec 32) (size : Nat) (calls : ι → ReadCall) (fd : Int)
    (es : List (Event ι Unit VfsRequest VfsAnswer))
    (p : Pool ι VfsRequest VfsAnswer (Int × Buffer) Vfs) : Prop where
  disk_eq : p.2.disk = disk
  stands : ∃ offset, StandsAt p.2.fdTable fd lba size offset ∧
    Consecutive 0 ((reservations es).map spanOf) offset
  single : (reservations es).Pairwise fun x y => x.1 ≠ y.1
  phase : ∀ i, Waiting calls fd es p i ∨ Copying disk lba calls es p i

theorem Reading.partitioned (h : Reading disk lba size calls fd es p) :
    Partitioned disk lba size calls fd es p := by
  obtain ⟨offset, hstands, hconsecutive⟩ := h.stands
  refine ⟨⟨offset, hstands, hstands.le, fun i => ?_⟩, ?_, fun i result hdone => ?_⟩
  · have hmem := hconsecutive.mem_iff i
    simp only [List.mem_map, exists_exists_and_eq_and, spanOf, Nat.zero_le, true_and] at hmem
    exact hmem
  · have hapart := hconsecutive.pairwise
    rw [List.pairwise_map] at hapart
    refine (h.single.and hapart).imp fun hxy => ⟨hxy.1, fun i hi => ?_⟩
    have hle := hxy.2
    simp only [spanOf] at hle
    omega
  · rcases h.phase i with ⟨hwait, -⟩ | ⟨-, hdelivers⟩
    · rw [hdone] at hwait
      cases hwait
    · rw [hdone] at hdelivers
      exact hdelivers

/-- What a step leaves of the other calls. -/
theorem phase_other {es' : List (Event ι Unit VfsRequest VfsAnswer)} {l : List (ι × Reservation)}
    (hother : p'.1 i = p.1 i) (hres : reservations es' = reservations es ++ l)
    (hl : ∀ x ∈ l, x.1 ≠ i)
    (h : Waiting calls fd es p i ∨ Copying disk lba calls es p i) :
    Waiting calls fd es' p' i ∨ Copying disk lba calls es' p' i := by
  have hnone : (∀ x ∈ reservations es, x.1 ≠ i) → ∀ x ∈ reservations es', x.1 ≠ i := by
    intro hold x hx
    rw [hres] at hx
    rcases List.mem_append.mp hx with hx | hx
    · exact hold x hx
    · exact hl x hx
  rcases h with ⟨hwait, hfresh⟩ | ⟨hasks, hdelivers⟩
  · exact Or.inl ⟨hother.trans hwait, hnone hfresh⟩
  · refine Or.inr ⟨hother ▸ hasks, ?_⟩
    rw [hother]
    rcases hdelivers with ⟨range, hmem, hresult⟩ | ⟨hfresh, hresult⟩
    · refine Or.inl ⟨range, ?_, hresult⟩
      rw [hres]
      exact List.mem_append_left _ hmem
    · exact Or.inr ⟨hnone hfresh, hresult⟩

/-- **What a step keeps**: a call that begins takes the bytes behind the ranges there are, the others
go on with theirs. -/
theorem Reading.step [DecidableEq ι] (hsmall : ∀ i, (calls i).count.toNat < 2 ^ 31)
    (h : Reading disk lba size calls fd es p) (hstep : Pool.Step idealServe p e p') :
    Reading disk lba size calls fd (es ++ [e]) p' := by
  obtain ⟨next, hask, hserve, hnext, hother⟩ := hstep.cases
  obtain ⟨who, u, r, a⟩ := e
  obtain ⟨offset, hstands, hconsecutive⟩ := h.stands
  dsimp only at hask hserve hnext hother
  -- the caller waits for its range, or copies one that it has
  rcases h.phase who with ⟨hwait, hfresh⟩ | ⟨hasks, hdelivers⟩
  · -- the critical section
    rw [hwait, vfsRead_eq] at hask
    cases hask
    rcases hstands.readSection (calls who).count with ⟨-, hsec⟩ |
      ⟨hlt, range, table, hsec, hlba, hoff, hcount, hstands'⟩
    · -- at the end of the file nothing is reserved
      simp only [idealServe, Vfs.serve, hsec, Prod.mk.injEq] at hserve
      obtain ⟨rfl, hstate⟩ := hserve
      have hres := reservations_concat es
        ⟨who, u, .readSection fd (calls who).count, Except.error 0⟩
      simp only [reserved, Option.toList_none, List.append_nil] at hres
      -- the disk, the offset in the table, the reserved ranges, and where each of the callers is
      refine ⟨?_, ⟨offset, ?_, ?_⟩, ?_, fun i => ?_⟩
      · rw [← hstate]
        exact h.disk_eq
      · rw [← hstate]
        exact hstands
      · rw [hres]
        exact hconsecutive
      · rw [hres]
        exact h.single
      · by_cases hi : i = who
        · subst hi
          right
          rw [Copying, hnext]
          exact ⟨trivial, Or.inr ⟨by rwa [hres], rfl⟩⟩
        · apply phase_other (hother i hi) (hres.trans (List.append_nil _).symm) _ (h.phase i)
          exact fun x hx => absurd hx List.not_mem_nil
    · simp only [idealServe, Vfs.serve, hsec, Prod.mk.injEq] at hserve
      obtain ⟨rfl, hstate⟩ := hserve
      have hres := reservations_concat es
        ⟨who, u, .readSection fd (calls who).count, Except.ok range⟩
      simp only [reserved, Option.toList_some] at hres
      -- a range ends within the file, so its numbers do not wrap
      have hle := hstands'.le
      have hsize : size < 2 ^ 32 := by
        obtain ⟨⟨j, -, -, hsize, -⟩, -⟩ := hstands
        rw [← hsize]
        exact BitVec.isLt _
      have hend : range.offset.toNat + range.count.toNat < 2 ^ 32 := by omega
      have hshort : range.count.toNat < 2 ^ 31 := by
        have := hsmall who
        omega
      have hcopies := readRange_eval disk (calls who).stack (calls who).buffer hend hshort
      rw [hlba] at hcopies
      refine ⟨?_, ⟨offset + range.count.toNat, ?_, ?_⟩, ?_, fun i => ?_⟩
      · rw [← hstate]
        exact h.disk_eq
      · rw [← hstate]
        exact hstands'
      · rw [hres, List.map_append, List.map_singleton, spanOf, hoff]
        exact hconsecutive.concat _
      · rw [hres, List.pairwise_append]
        refine ⟨h.single, List.pairwise_singleton _ _, fun x hx y hy => ?_⟩
        obtain rfl := List.mem_singleton.mp hy
        exact hfresh x hx
      -- from now on the caller asks for the sectors of its range; the others go on as before
      · by_cases hi : i = who
        · subst hi
          right
          rw [Copying, hnext]
          refine ⟨readRange_asks _ _ range, Or.inl ⟨range, ?_, hcopies⟩⟩
          rw [hres]
          exact List.mem_append_right _ (List.mem_singleton_self _)
        · apply phase_other (hother i hi) hres _ (h.phase i)
          intro x hx
          obtain rfl := List.mem_singleton.mp hx
          exact fun heq => hi heq.symm
  · -- a read of the drive
    rw [hask] at hasks hdelivers
    cases r with
    | readSector sector buffer =>
      -- the table and the reservations are as they were
      simp only [idealServe, Vfs.serve, ataReadSector, if_true, Prod.mk.injEq] at hserve
      obtain ⟨rfl, hstate⟩ := hserve
      have hres := reservations_concat es
        ⟨who, u, .readSector sector buffer, p.2.disk.sector sector⟩
      simp only [reserved, Option.toList_none, List.append_nil] at hres
      refine ⟨?_, ⟨offset, ?_, ?_⟩, ?_, fun i => ?_⟩
      · rw [← hstate]
        exact h.disk_eq
      · rw [← hstate]
        exact hstands
      · rw [hres]
        exact hconsecutive
      · rw [hres]
        exact h.single
      · by_cases hi : i = who
        · subst hi
          right
          rw [Copying, hnext]
          refine ⟨hasks.2 _, ?_⟩
          rw [Delivers, hres, h.disk_eq]
          exact hdelivers
        · apply phase_other (hother i hi) (hres.trans (List.append_nil _).symm) _ (h.phase i)
          exact fun x hx => absurd hx List.not_mem_nil
    | _ => exact hasks.1.elim

/-- **Readers partition the file.** After any steps of any number of calls on a descriptor that was
opened, each for less than 2 GiB, on a drive that is not written to. -/
theorem readerRun_partitioned [DecidableEq ι] {s : Vfs}
    (hstands : StandsAt s.fdTable fd lba size 0) (hsmall : ∀ i, (calls i).count.toNat < 2 ^ 31)
    (h : ReaderRun calls fd s es p) : Partitioned s.disk lba size calls fd es p := by
  apply Reading.partitioned
  unfold ReaderRun at h
  generalize hstart : (((fun i => vfsRead (calls i).stack fd (calls i).buffer (calls i).count), s) :
    Pool ι VfsRequest VfsAnswer (Int × Buffer) Vfs) = start at h
  induction h with
  | nil =>
    subst hstart
    refine ⟨rfl, ⟨0, hstands, rfl⟩, List.Pairwise.nil, fun i => Or.inl ⟨rfl, ?_⟩⟩
    exact fun x hx => absurd hx List.not_mem_nil
  | snoc _ hstep ih => exact ih.step hsmall hstep

end Reading

/-- Two calls for two bytes each. -/
def sampleCalls (_ : Fin 2) : ReadCall := ⟨fun _ => 0, fun _ => 0, 2⟩

/-- Both calls have reserved their ranges: two bytes, and the one that is left. -/
theorem readerRun_partitioned_sample : ∃ es p, ReaderRun sampleCalls 0 openedVfs es p ∧
    (reservations es).map spanOf = [(0, 2), (2, 1)] ∧
      Partitioned openedVfs.disk 2049 3 sampleCalls 0 es p := by
  have hstands : StandsAt openedVfs.fdTable 0 2049 3 0 := StandsAt.opened sampleVfs.fdTable 0 2049 3
  have hfirst : ReaderRun sampleCalls 0 openedVfs [⟨0, (), .readSection 0 2, _⟩] _ :=
    Run.single (Pool.Step.serve () (vfsRead_eq _ _ _ _))
  have hboth : ReaderRun sampleCalls 0 openedVfs
      [⟨0, (), .readSection 0 2, _⟩, ⟨1, (), .readSection 0 2, _⟩] _ :=
    hfirst.snoc (Pool.Step.serve (i := 1) () (vfsRead_eq _ _ _ _))
  have hsmall : ∀ i, (sampleCalls i).count.toNat < 2 ^ 31 :=
    fun _ => show (2 : BitVec 32).toNat < 2 ^ 31 by decide
  exact ⟨_, _, hboth, rfl, readerRun_partitioned hstands hsmall hboth⟩

end ZohoOs
