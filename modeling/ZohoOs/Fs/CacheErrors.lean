import ZohoOs.Fs.Mount

/-!
# The cache where reads fail

`ata_read_sector` returns nothing: where the drive does not answer, or reports an error, the buffer
stays as it is. `cached_read_sector` cannot tell, and marks its buffer as the sector it has asked for.
The cache is coherent throughout a run of calls just if no such read leaves other bytes behind.

## Main definitions

* `VfsCall`, `callSequence`: calls, one after the other
* `CacheRun`: their runs, where each read may fail
* `Spoils`: a read that fails behind the cache's back

## Main results

* `cacheRun_coherent_iff`: the cache is coherent just if no read spoils it
* `cacheRun_spoiled`: the first read fails
-/

namespace ZohoOs

open Program TransitionSystem

/-- A call that reads or writes sectors. -/
inductive VfsCall
  | findFile (name : List Byte)
  | getFileByIndex (index : Int)
  | read (stack : Sector) (fd : Int) (buffer : Buffer) (count : BitVec 32)
  | write (stack : Sector) (fd : Int) (buffer : Buffer) (count : BitVec 32)

/-- What a call does. Its result is not needed here. -/
def VfsCall.prog (start : BitVec 32) : VfsCall → VfsProg Unit
  | .findFile name => do
    let _ ← tarFindFile start name
    pure ()
  | .getFileByIndex index => do
    let _ ← tarGetFileByIndex start index
    pure ()
  | .read stack fd buffer count => do
    let _ ← vfsRead stack fd buffer count
    pure ()
  | .write stack fd buffer count => do
    let _ ← vfsWrite stack fd buffer count
    pure ()

/-- Calls, one after the other. -/
def callSequence (start : BitVec 32) : List VfsCall → VfsProg Unit
  | [] => pure ()
  | call :: calls => do
    call.prog start
    callSequence start calls

/-- A request that was served, with the outcome of its command to the drive. -/
abbrev DriveEvent := Event Unit Bool VfsRequest VfsAnswer

/-- Commands that fail are reads. -/
def ReadsFail (_ : Pool Unit VfsRequest VfsAnswer Unit Vfs) (e : DriveEvent) : Prop :=
  e.choice = false → e.req.IsRead

/-- **Runs of calls**, where each read of a sector may fail. -/
def CacheRun (start : BitVec 32) (calls : List VfsCall) (s : Vfs) (es : List DriveEvent)
    (p : Pool Unit VfsRequest VfsAnswer Unit Vfs) : Prop :=
  Run (Restrict ReadsFail (Pool.Step Vfs.serve)) (fun _ => callSequence start calls, s) es p

/-- A read through the cache returned the bytes of its sector. -/
def ReadsSector (disk : Disk) : DriveEvent → Prop
  | ⟨_, _, .cachedRead lba, data⟩ => data = disk.sector lba
  | _ => True

/-- **A read that spoils the cache**: the sector is not in the cache, the command fails, and the buffer
of the cache does not happen to hold the bytes of the sector. -/
def Spoils (s : Vfs) (e : DriveEvent) : Prop :=
  e.choice = false ∧ ∃ lba, e.req = .cachedRead lba ∧ ¬ (s.cache.valid ∧ s.cache.lba = lba) ∧
    s.cache.data ≠ s.disk.sector lba

section Steps

variable {s : Vfs} {p p' : Pool Unit VfsRequest VfsAnswer Unit Vfs} {e : DriveEvent}

/-- A request that does not spoil the cache is answered by the drive. -/
theorem cachedReadSector_keeps (h : s.Coherent) {ok : Bool} {lba : BitVec 32}
    (hspoil : ok = false → ¬ (s.cache.valid ∧ s.cache.lba = lba) →
      s.cache.data = s.disk.sector lba) :
    (cachedReadSector ok s lba).1 = s.disk.sector lba ∧ (cachedReadSector ok s lba).2.Coherent := by
  cases ok with
  | true => exact cachedReadSector_coherent h lba
  | false =>
    unfold cachedReadSector
    by_cases hhit : s.cache.valid ∧ s.cache.lba = lba
    · rw [if_pos hhit]
      exact ⟨hhit.2 ▸ h hhit.1, h⟩
    · -- the buffer is as it was before the read
      have hdata := hspoil rfl hhit
      rw [if_neg hhit]
      exact ⟨hdata, fun _ => hdata⟩

/-- What a step keeps. -/
theorem step_keeps (h : p.2.Coherent) (hstep : Restrict ReadsFail (Pool.Step Vfs.serve) p e p')
    (hspoil : ¬ Spoils p.2 e) : p'.2.Coherent ∧ ReadsSector p.2.disk e := by
  obtain ⟨hfail, hstep⟩ := hstep
  obtain ⟨next, -, hserve, -, -⟩ := hstep.cases
  obtain ⟨who, ok, r, a⟩ := e
  dsimp only at hserve
  cases r with
  | cachedRead lba =>
    have hkeeps : (cachedReadSector ok p.2 lba).1 = p.2.disk.sector lba ∧
        (cachedReadSector ok p.2 lba).2.Coherent := by
      apply cachedReadSector_keeps h
      intro hok hmiss
      by_contra hdata
      exact hspoil ⟨hok, lba, rfl, hmiss, hdata⟩
    rw [show cachedReadSector ok p.2 lba = (a, p'.2) from hserve] at hkeeps
    exact ⟨hkeeps.2, hkeeps.1⟩
  | cachedWrite lba buffer =>
    cases ok with
    | false => exact (hfail rfl).elim
    | true =>
      have hkeeps := cachedWriteSector_coherent p.2 lba buffer
      rw [show cachedWriteSector true p.2 lba buffer = p'.2 from congrArg Prod.snd hserve] at hkeeps
      exact ⟨hkeeps, trivial⟩
  | _ =>
    -- the other requests leave the drive and the cache alone
    refine ⟨?_, trivial⟩
    rw [← congrArg Prod.snd hserve]
    exact h

/-- A read that spoils the cache leaves it with the wrong tag. -/
theorem step_spoils (hstep : Restrict ReadsFail (Pool.Step Vfs.serve) p e p')
    (hspoil : Spoils p.2 e) : ¬ p'.2.Coherent := by
  obtain ⟨-, hstep⟩ := hstep
  obtain ⟨next, -, hserve, -, -⟩ := hstep.cases
  obtain ⟨who, ok, r, a⟩ := e
  obtain ⟨rfl, lba, rfl, hmiss, hdata⟩ := hspoil
  have hread : cachedReadSector false p.2 lba = (a, p'.2) := hserve
  intro hcoherent
  rw [cachedReadSector, if_neg hmiss] at hread
  rw [← (Prod.mk.inj hread).2] at hcoherent
  exact hdata (hcoherent rfl)

end Steps

/-- **The cache under failing reads.** From a coherent cache, the cache is coherent in every state of a
run and each read through it returns the bytes of its sector, just if no read of the run spoils it. -/
theorem cacheRun_coherent_iff {start : BitVec 32} {calls : List VfsCall} {s : Vfs}
    {es : List DriveEvent} {p : Pool Unit VfsRequest VfsAnswer Unit Vfs} (hs : s.Coherent)
    (h : CacheRun start calls s es p) :
    ((∀ pre q, pre <+: es → CacheRun start calls s pre q → q.2.Coherent) ∧
      ∀ pre q e, pre ++ [e] <+: es → CacheRun start calls s pre q → ReadsSector q.2.disk e) ↔
      ∀ pre q e, pre ++ [e] <+: es → CacheRun start calls s pre q → ¬ Spoils q.2 e := by
  have hdet : ∀ q (e : DriveEvent) t t', Restrict ReadsFail (Pool.Step Vfs.serve) q e t →
      Restrict ReadsFail (Pool.Step Vfs.serve) q e t' → t = t' :=
    fun q e t t' ht ht' => ht.2.unique ht'.2
  have hiff := @Run.always_iff _ _ (Restrict ReadsFail (Pool.Step Vfs.serve))
    (fun q => q.2.Coherent) (fun q => q.2.Coherent) (fun q e => Spoils q.2 e) hdet
    (fun q hq => hq) (fun q e t hq hstep hspoil => (step_keeps hq hstep hspoil).1)
    (fun q e t _ hstep hspoil => step_spoils hstep hspoil) _ _ _ hs h
  constructor
  · intro hgood
    exact hiff.mp hgood.1
  · intro hnone
    have hgood := hiff.mpr hnone
    refine ⟨hgood, fun pre q e hpre hq => ?_⟩
    -- the step after the prefix is part of the run
    obtain ⟨post, rfl⟩ := hpre
    obtain ⟨t, ht, -⟩ := Run.of_append (pre ++ [e]) post h
    obtain ⟨q', hq', hlast⟩ := Run.of_append pre [e] ht
    obtain rfl := hq.unique hdet hq'
    have hcoherent := hgood pre q ((List.prefix_append _ _).trans (List.prefix_append _ _)) hq
    exact (step_keeps hcoherent hlast.of_single
      (hnone pre q e (List.prefix_append _ _) hq)).2

/-- The first step of `tar_find_file`, where its read of the first header goes this way. -/
theorem findFile_step (ok : Bool) : ∃ p, CacheRun 2048 [.findFile [0x61#8]] sampleVfs
    [⟨(), ok, .cachedRead 2048, (cachedReadSector ok sampleVfs 2048).1⟩] p ∧
      p.2 = (cachedReadSector ok sampleVfs 2048).2 := by
  refine ⟨_, Run.single ⟨fun _ => trivial, Pool.Step.serve ok rfl⟩, rfl⟩

/-- A file is looked up, read, and looked up again. -/
def sampleCacheCalls : List VfsCall :=
  [.findFile [0x61#8], .read (fun _ => 0) 0 (fun _ => 0) 3, .findFile [0x61#8]]

/-- The sector a request reads. -/
def VfsRequest.sectorRead : VfsRequest → Option (BitVec 32)
  | .readSector lba _ => some lba
  | .cachedRead lba => some lba
  | _ => none

instance VfsRequest.decidableIsDirect : (r : VfsRequest) → Decidable r.IsDirect
  | .readSector .. => isTrue trivial
  | .cachedRead _ | .cachedWrite .. | .openSection .. | .readSection .. | .writeSection ..
  | .sizeSection _ | .closeSection _ => isFalse id

/-- The header is read, the read of the file's sector fails, and the cache has the header still. -/
theorem cacheRun_coherent_sample : ∃ es p, CacheRun 2048 sampleCacheCalls openedVfs es p ∧
    es.map (fun e => (e.choice, e.req.sectorRead)) =
      [(true, some 2048), (true, none), (false, some 2049), (true, some 2048)] ∧
    (∀ pre q, pre <+: es → CacheRun 2048 sampleCacheCalls openedVfs pre q → q.2.Coherent) ∧
    ∀ pre q e, pre ++ [e] <+: es → CacheRun 2048 sampleCacheCalls openedVfs pre q →
      ReadsSector q.2.disk e := by
  have hserved := Pool.run_serveEach Vfs.serve [true, true, false, true] (callSequence 2048 sampleCacheCalls)
    openedVfs
  -- what fails goes around the cache
  have hdirect : ∀ e ∈ (Prog.serveEach Vfs.serve [true, true, false, true]
      (callSequence 2048 sampleCacheCalls) openedVfs).1, e.choice = false → e.req.IsDirect := by
    decide +kernel
  have hrun : CacheRun 2048 sampleCacheCalls openedVfs _ _ :=
    hserved.restrict fun e he hfail => (hdirect e he hfail).isRead
  refine ⟨_, _, hrun, by decide +kernel,
    (cacheRun_coherent_iff (fun hvalid => Bool.noConfusion hvalid) hrun).mpr ?_⟩
  rintro pre q e ⟨post, hpost⟩ - ⟨hfail, lba, hreq, -⟩
  have hmem : e ∈ pre ++ [e] ++ post := by simp
  rw [hpost] at hmem
  have hnot := hdirect e hmem hfail
  rw [hreq] at hnot
  exact hnot

/-- **The first read fails**: the cache then passes zeros off as the first header. -/
theorem cacheRun_spoiled : ∃ es p, CacheRun 2048 [.findFile [0x61#8]] sampleVfs es p ∧
    p.2.cache.valid = true ∧ p.2.cache.lba = 2048 ∧ p.2.cache.data 0 = 0 ∧
      p.2.disk.sector 2048 0 = 0x61#8 ∧ ¬ p.2.Coherent := by
  obtain ⟨p, hrun, hp⟩ := findFile_step false
  have hdisk : p.2.disk = sampleVfs.disk := by
    rw [hp]
    exact (cachedReadSector_disk false sampleVfs 2048).1
  have hfirst : p.2.disk.sector 2048 0 = 0x61#8 := by
    rw [hdisk]
    exact sampleVfs_onDisk.holds 0 _ rfl
  have hmiss : ¬ (sampleVfs.cache.valid ∧ sampleVfs.cache.lba = 2048) :=
    fun hhit => Bool.noConfusion hhit.1
  -- the cache takes its buffer as it was
  have hcache : p.2.cache = ⟨2048, sampleVfs.cache.data, true⟩ := by
    rw [hp, cachedReadSector, if_neg hmiss]
    rfl
  refine ⟨_, p, hrun, ?_, ?_, ?_, hfirst, ?_⟩
  · rw [hcache]
  · rw [hcache]
  · rw [hcache]
    rfl
  · intro hcoherent
    have hdata := congrFun (hcoherent (by rw [hcache])) 0
    rw [hcache] at hdata
    rw [hfirst] at hdata
    exact absurd hdata (by decide)

end ZohoOs
