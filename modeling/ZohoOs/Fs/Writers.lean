import ZohoOs.Fs.Readers

/-!
# Writers that share sectors

`vfs_write` reserves its range in a critical section, and then reads, patches and writes one sector
after the other without a lock. Calls with disjoint ranges may share a sector: where one of them writes
it while another holds a copy, the second puts the old bytes back. Where no sector is written while
another call is about to write it, all calls together write just their ranges.

## Main definitions

* `rangePos`: the position on the drive of a byte of a range
* `WriteCall`, `WriterRun`: calls of `vfs_write`, and their runs
* `TakesTurns`: no sector is written while another call is about to write it
* `Written`: the ranges hold what was written, and the rest of the drive is as it was

## Main results

* `writerRun_written`: calls that take turns lose no byte
* `writerRun_loses`: two calls that do not
-/

namespace ZohoOs

open Program TransitionSystem

variable {ι : Type}

/-! ## Positions -/

/-- The position of a byte of a file on the drive. -/
def filePos (startLba : BitVec 32) (offset : Nat) : Nat :=
  sectorStart (startLba + BitVec.ofNat 32 (offset / 512)) + offset % 512

/-- The position of a byte of a range on the drive. -/
def rangePos (range : Reservation) (k : Nat) : Nat :=
  filePos range.startLba (range.offset + BitVec.ofNat 32 k).toNat

section Positions

variable {range : Reservation} {disk : Disk} {lba lba' : BitVec 32} {sector : Sector}

/-- The bytes of a range are at different positions. -/
theorem rangePos_inj {k k' : Nat} (hk : k < 2 ^ 32) (hk' : k' < 2 ^ 32)
    (h : rangePos range k = rangePos range k') : k = k' := by
  simp only [rangePos, filePos, sectorStart, BitVec.toNat_add, BitVec.toNat_ofNat] at h
  have hoffset := range.offset.isLt
  have hlba := range.startLba.isLt
  omega

/-- A sector is written over by a copy of it with some bytes changed. -/
theorem ataWriteSector_patch (disk : Disk) (lba : BitVec 32) {dst n : Nat} (src : Nat → Byte)
    (hn : dst + n ≤ 512) (pos : Nat) :
    ataWriteSector true disk lba ((disk.sector lba).patch dst src n) pos =
      if sectorStart lba + dst ≤ pos ∧ pos < sectorStart lba + dst + n then
        src (pos - (sectorStart lba + dst)) else disk pos := by
  simp only [ataWriteSector, Sector.patch, Disk.sector, if_true]
  by_cases hsector : sectorStart lba ≤ pos ∧ pos < sectorStart lba + 512
  · rw [dif_pos hsector]
    by_cases hin : sectorStart lba + dst ≤ pos ∧ pos < sectorStart lba + dst + n
    · rw [if_pos hin, if_pos (by omega), Nat.sub_sub]
    · rw [if_neg hin, if_neg (by omega), Nat.add_sub_cancel' hsector.1]
  · rw [dif_neg hsector, if_neg (by omega)]

/-- Writing a sector leaves the others. -/
theorem sector_ataWriteSector_ne (disk : Disk) (buffer : Sector)
    (hne : sectorStart lba' ≠ sectorStart lba) :
    (ataWriteSector true disk lba buffer).sector lba' = disk.sector lba' := by
  funext i
  have hi := i.isLt
  simp only [ataWriteSector, Disk.sector, if_true]
  unfold sectorStart at *
  rw [dif_neg (by omega)]

/-- The bytes of a chunk are next to each other, in the sector of its first byte. -/
theorem rangePos_chunk (range : Reservation) {w t : Nat} {offset : BitVec 32}
    (hoffset : offset = range.offset + BitVec.ofNat 32 w) (ht : offset.toNat % 512 + t < 512) :
    rangePos range (w + t) = sectorStart (range.startLba + offset / 512) + offset.toNat % 512 + t := by
  have hnext : (range.offset + BitVec.ofNat 32 (w + t)).toNat = offset.toNat + t := by
    rw [BitVec.ofNat_add, ← BitVec.add_assoc, ← hoffset, BitVec.toNat_add, BitVec.toNat_ofNat]
    have := offset.isLt
    omega
  have hdiv : BitVec.ofNat 32 ((offset.toNat + t) / 512) = offset / 512 := by
    apply BitVec.eq_of_toNat_eq
    have := offset.isLt
    rw [BitVec.toNat_udiv, BitVec.toNat_ofNat, show (512 : BitVec 32).toNat = 512 from rfl]
    omega
  rw [rangePos, filePos, hnext, hdiv]
  omega

end Positions

/-! ## Calls -/

/-- The arguments of `vfs_write`, and what its stack holds. -/
structure WriteCall where
  stack : Sector
  fd : Int
  buffer : Buffer
  count : BitVec 32

/-- Tasks that are at calls of `vfs_write`. -/
abbrev Writers (ι : Type) := Pool ι VfsRequest VfsAnswer Int Vfs

/-- A request of a call of `vfs_write`, served. -/
abbrev WriteEvent (ι : Type) := Event ι Unit VfsRequest VfsAnswer

/-- The calls before their first requests. -/
def startWrites (calls : ι → WriteCall) (s : Vfs) : Writers ι :=
  (fun i => vfsWrite (calls i).stack (calls i).fd (calls i).buffer (calls i).count, s)

/-- **Calls take turns**: no sector is written while another call is about to write it. -/
def TakesTurns (p : Writers ι) (e : WriteEvent ι) : Prop :=
  ∀ lba buffer, e.req = .cachedWrite lba buffer → ∀ i, i ≠ e.who → ∀ lba' buffer' next,
    p.1 i = .ask (.cachedWrite lba' buffer') next → sectorStart lba' ≠ sectorStart lba

/-- **Runs of calls** of `vfs_write`, their requests in any order. -/
def WriterRun [DecidableEq ι] (calls : ι → WriteCall) (s : Vfs) (es : List (WriteEvent ι))
    (p : Writers ι) : Prop :=
  Run (Pool.Step idealServe) (startWrites calls s) es p

/-- The ranges of two calls have no byte in common. -/
def RangesDisjoint (es : List (WriteEvent ι)) : Prop :=
  ∀ x ∈ reservations es, ∀ y ∈ reservations es, x.1 ≠ y.1 → ∀ k < x.2.count.toNat,
    ∀ k' < y.2.count.toNat, rangePos x.2 k ≠ rangePos y.2 k'

/-- The first `done` bytes of each range hold what its call was to write, and the rest of the drive is
as it was. -/
structure WrittenUpTo (disk : Disk) (calls : ι → WriteCall) (es : List (WriteEvent ι))
    (done : ι × Reservation → Nat) (disk' : Disk) : Prop where
  bytes : ∀ x ∈ reservations es, ∀ k < done x, disk' (rangePos x.2 k) = (calls x.1).buffer k
  others : ∀ pos, (∀ x ∈ reservations es, ∀ k < done x, rangePos x.2 k ≠ pos) → disk' pos = disk pos

/-- **What was written**: every byte of every range, and no other byte. -/
def Written (disk : Disk) (calls : ι → WriteCall) (es : List (WriteEvent ι)) (disk' : Disk) : Prop :=
  WrittenUpTo disk calls es (fun x => x.2.count.toNat) disk'

/-! ## Progress -/

section Progress

/-- The rest of `vfs_write` after some rounds of its loop. -/
def writeRest (buffer : Buffer) (range : Reservation) (fuel : Nat) (bytesWritten : BitVec 32)
    (sectorBuf : Sector) : VfsProg Int :=
  writeLoop range.startLba range.count buffer fuel bytesWritten (range.offset + bytesWritten)
    sectorBuf >>= fun n => pure n.toInt

theorem vfsWrite_eq (stack : Sector) (fd : Int) (buffer : Buffer) (count : BitVec 32) :
    vfsWrite stack fd buffer count =
      .ask (.writeSection fd count) fun reserved : Except Int Reservation =>
        match reserved with
        | .error result => .done result
        | .ok range => writeRest buffer range range.count.toNat 0 stack := by
  have hzero : ∀ range : Reservation, range.offset + 0 = range.offset :=
    fun range => BitVec.add_zero _
  simp only [writeRest, hzero]
  rfl

/-- The sector of the next chunk. -/
def chunkLba (range : Reservation) (bytesWritten : BitVec 32) : BitVec 32 :=
  range.startLba + (range.offset + bytesWritten) / 512

/-- The length of the next chunk. -/
def chunkLen (range : Reservation) (bytesWritten : BitVec 32) : BitVec 32 :=
  chunkSize (range.offset + bytesWritten) range.count bytesWritten

/-- A sector with the next chunk in it. -/
def chunkPatch (buffer : Buffer) (range : Reservation) (bytesWritten : BitVec 32) (sector : Sector) :
    Sector :=
  sector.patch ((range.offset + bytesWritten) % 512).toNat
    (fun i => buffer (bytesWritten.toNat + i)) (chunkLen range bytesWritten).toNat

variable {buffer : Buffer} {range : Reservation} {fuel : Nat} {bytesWritten : BitVec 32}
  {sectorBuf : Sector}

theorem writeRest_succ (h : bytesWritten < range.count) :
    writeRest buffer range (fuel + 1) bytesWritten sectorBuf =
      .ask (.readSector (chunkLba range bytesWritten) sectorBuf) fun sector : Sector =>
        .ask (.cachedWrite (chunkLba range bytesWritten)
          (chunkPatch buffer range bytesWritten sector)) fun _ =>
          writeRest buffer range fuel (bytesWritten + chunkLen range bytesWritten)
            (chunkPatch buffer range bytesWritten sector) := by
  unfold writeRest
  rw [← BitVec.add_assoc, writeLoop, if_pos h]
  rfl

theorem writeRest_done (h : ¬ bytesWritten < range.count) :
    writeRest buffer range fuel bytesWritten sectorBuf = .done bytesWritten.toInt := by
  unfold writeRest
  cases fuel with
  | zero => rfl
  | succ fuel =>
    rw [writeLoop, if_neg h]
    rfl

/-- A chunk ends within its sector, and within the range. -/
theorem chunkLen_toNat (h : bytesWritten < range.count) :
    (chunkLen range bytesWritten).toNat = min (512 - (range.offset + bytesWritten).toNat % 512)
      (range.count.toNat - bytesWritten.toNat) :=
  chunkSize_toNat h

/-- **What a round writes**: the next bytes of the range, where the copy of the sector is as the drive
has it. -/
theorem chunk_written (buffer : Buffer) (disk : Disk) (h : bytesWritten < range.count) (pos : Nat) :
    (∃ t, t < (chunkLen range bytesWritten).toNat ∧
        rangePos range (bytesWritten.toNat + t) = pos ∧
      ataWriteSector true disk (chunkLba range bytesWritten) (chunkPatch buffer range bytesWritten
        (disk.sector (chunkLba range bytesWritten))) pos = buffer (bytesWritten.toNat + t)) ∨
    ((∀ t < (chunkLen range bytesWritten).toNat, rangePos range (bytesWritten.toNat + t) ≠ pos) ∧
      ataWriteSector true disk (chunkLba range bytesWritten) (chunkPatch buffer range bytesWritten
        (disk.sector (chunkLba range bytesWritten))) pos = disk pos) := by
  have hlen := chunkLen_toNat h
  have hmod : ((range.offset + bytesWritten) % 512).toNat =
      (range.offset + bytesWritten).toNat % 512 := by
    rw [BitVec.toNat_umod, show (512 : BitVec 32).toNat = 512 from rfl]
  have hoffset : range.offset + bytesWritten =
      range.offset + BitVec.ofNat 32 bytesWritten.toNat := by
    rw [BitVec.ofNat_toNat, BitVec.setWidth_eq]
  have hpos : ∀ t < (chunkLen range bytesWritten).toNat, rangePos range (bytesWritten.toNat + t) =
      sectorStart (chunkLba range bytesWritten) + (range.offset + bytesWritten).toNat % 512 + t :=
    fun t ht => rangePos_chunk range hoffset (by omega)
  -- a chunk ends with its sector at the latest
  have hfits : ((range.offset + bytesWritten) % 512).toNat + (chunkLen range bytesWritten).toNat ≤
      512 := by
    omega
  rw [chunkPatch, ataWriteSector_patch disk _ _ hfits, hmod]
  -- the byte at `pos` is of the chunk, or of no byte of it
  by_cases hin : sectorStart (chunkLba range bytesWritten) +
      (range.offset + bytesWritten).toNat % 512 ≤ pos ∧
      pos < sectorStart (chunkLba range bytesWritten) +
        (range.offset + bytesWritten).toNat % 512 + (chunkLen range bytesWritten).toNat
  · left
    refine ⟨pos - (sectorStart (chunkLba range bytesWritten) +
      (range.offset + bytesWritten).toNat % 512), by omega, ?_, if_pos hin⟩
    rw [hpos _ (by omega)]
    omega
  · right
    refine ⟨fun t ht => ?_, if_neg hin⟩
    rw [hpos t ht]
    omega

end Progress

/-! ## The invariant -/

section Invariant

variable {disk : Disk} {calls : ι → WriteCall} {es es' : List (WriteEvent ι)} {p p' : Writers ι}
  {e : WriteEvent ι} {i : ι} {range : Reservation} {done : BitVec 32}

/-- A call that is to go on after `done` bytes of its range. -/
def Looping (buffer : Buffer) (range : Reservation) (done : BitVec 32) (prog : VfsProg Int) : Prop :=
  ∃ fuel sectorBuf, prog = writeRest buffer range fuel done sectorBuf ∧
    range.count.toNat ≤ done.toNat + fuel

/-- A call that is about to write a sector, of which it has a copy as the drive has it. -/
def Patching (disk : Disk) (buffer : Buffer) (range : Reservation) (done : BitVec 32)
    (prog : VfsProg Int) : Prop :=
  done < range.count ∧ ∃ fuel,
    (prog = .ask (.cachedWrite (chunkLba range done)
      (chunkPatch buffer range done (disk.sector (chunkLba range done)))) fun _ =>
        writeRest buffer range fuel (done + chunkLen range done)
          (chunkPatch buffer range done (disk.sector (chunkLba range done)))) ∧
      range.count.toNat ≤ done.toNat + (fuel + 1)

/-- Where a call is: before its critical section, refused by it, or in its loop. -/
inductive WritePhase (calls : ι → WriteCall) (es : List (WriteEvent ι)) (p : Writers ι) (i : ι)
    (done : BitVec 32) : Prop
  | waiting : p.1 i = vfsWrite (calls i).stack (calls i).fd (calls i).buffer (calls i).count →
      (∀ x ∈ reservations es, x.1 ≠ i) → WritePhase calls es p i done
  | refused (result : Int) : p.1 i = .done result → (∀ x ∈ reservations es, x.1 ≠ i) →
      WritePhase calls es p i done
  | going (range : Reservation) : (i, range) ∈ reservations es → done.toNat ≤ range.count.toNat →
      Looping (calls i).buffer range done (p.1 i) ∨
        Patching p.2.disk (calls i).buffer range done (p.1 i) → WritePhase calls es p i done

/-- The invariant of the writers. -/
structure Writing (disk : Disk) (calls : ι → WriteCall) (es : List (WriteEvent ι)) (p : Writers ι)
    (done : ι → BitVec 32) : Prop where
  single : ∀ x ∈ reservations es, ∀ y ∈ reservations es, x.1 = y.1 → x = y
  phase : ∀ i, WritePhase calls es p i (done i)
  written : WrittenUpTo disk calls es (fun x => (done x.1).toNat) p.2.disk

/-- What a step leaves of the other calls. -/
theorem WritePhase.other {l : List (ι × Reservation)} (h : WritePhase calls es p i done)
    (hother : p'.1 i = p.1 i) (hres : reservations es' = reservations es ++ l)
    (hl : ∀ x ∈ l, x.1 ≠ i) (hsector : ∀ lba buffer next, p.1 i = .ask (.cachedWrite lba buffer) next →
      p'.2.disk.sector lba = p.2.disk.sector lba) : WritePhase calls es' p' i done := by
  have hnone : (∀ x ∈ reservations es, x.1 ≠ i) → ∀ x ∈ reservations es', x.1 ≠ i := by
    intro hold x hx
    rw [hres] at hx
    rcases List.mem_append.mp hx with hx | hx
    · exact hold x hx
    · exact hl x hx
  cases h with
  | waiting hwait hfresh => exact .waiting (hother.trans hwait) (hnone hfresh)
  | refused result hdone hfresh => exact .refused result (hother.trans hdone) (hnone hfresh)
  | going range hmem hle hgoing =>
    refine .going range ?_ hle ?_
    · rw [hres]
      exact List.mem_append_left _ hmem
    · rw [hother]
      rcases hgoing with hloop | ⟨hlt, fuel, hprog, hfuel⟩
      · exact Or.inl hloop
      · -- the copy stays as the drive has it
        refine Or.inr ⟨hlt, fuel, ?_, hfuel⟩
        rw [hsector _ _ _ hprog]
        exact hprog

theorem RangesDisjoint.of_append (h : RangesDisjoint (es ++ [e])) : RangesDisjoint es := by
  intro x hx y hy
  have hmem : ∀ z ∈ reservations es, z ∈ reservations (es ++ [e]) := by
    intro z hz
    rw [reservations_concat]
    exact List.mem_append_left _ hz
  exact h x (hmem x hx) y (hmem y hy)

/-- **A call that is about to write writes its next chunk**, and nothing else. -/
theorem WrittenUpTo.chunk {done : ι → BitVec 32} [DecidableEq ι]
    (h : Writing disk calls es p done) (hdisjoint : RangesDisjoint es)
    (hmem : (i, range) ∈ reservations es) (hlt : done i < range.count) {disk' : Disk}
    (hdisk : disk' = ataWriteSector true p.2.disk (chunkLba range (done i))
      (chunkPatch (calls i).buffer range (done i) (p.2.disk.sector (chunkLba range (done i))))) :
    WrittenUpTo disk calls es
      (fun x => (Function.update done i (done i + chunkLen range (done i)) x.1).toNat) disk' := by
  have hlen := chunkLen_toNat hlt
  rw [BitVec.lt_def] at hlt
  -- the sum is within the range, and does not wrap
  have hnext : (done i + chunkLen range (done i)).toNat =
      (done i).toNat + (chunkLen range (done i)).toNat := by
    rw [BitVec.toNat_add]
    have := range.count.isLt
    omega
  -- no call has written more than its range
  have hle : ∀ x ∈ reservations es, (done x.1).toNat ≤ x.2.count.toNat := by
    intro x hx
    cases h.phase x.1 with
    | waiting _ hfresh => exact absurd rfl (hfresh x hx)
    | refused _ _ hfresh => exact absurd rfl (hfresh x hx)
    | going range' hmem' hle _ =>
      obtain rfl := (Prod.mk.inj (h.single x hx (x.1, range') hmem' rfl)).2
      exact hle
  have hsize := range.count.isLt
  have hself : (Function.update done i (done i + chunkLen range (done i)) i).toNat =
      (done i).toNat + (chunkLen range (done i)).toNat := by
    rw [Function.update_self, hnext]
  have hother : ∀ x : ι × Reservation, x.1 ≠ i →
      Function.update done i (done i + chunkLen range (done i)) x.1 = done x.1 :=
    fun x hx => Function.update_of_ne hx _ _
  subst hdisk
  -- first the bytes that the calls have written, then those of no call
  refine ⟨fun x hx k hk => ?_, fun pos hpos => ?_⟩
  · rcases chunk_written (calls i).buffer p.2.disk (BitVec.lt_def.mpr hlt)
      (rangePos x.2 k) with ⟨t, ht, heq, hval⟩ | ⟨hne, hval⟩
    · -- the byte is in the chunk, so that it is a byte of this call
      rw [hval]
      by_cases hi : x.1 = i
      · obtain rfl := h.single x hx (i, range) hmem hi
        dsimp only at hk heq ⊢
        rw [hself] at hk
        rw [rangePos_inj (by omega) (by omega) heq]
      · rw [hother x hi] at hk
        have hlex := hle x hx
        exact absurd heq.symm (hdisjoint x hx (i, range) hmem hi k (by omega) _ (by
          dsimp only
          omega))
    -- outside of the chunk, the bytes written are those of before
    · rw [hval]
      apply h.written.bytes x hx k
      by_cases hi : x.1 = i
      · obtain rfl := h.single x hx (i, range) hmem hi
        dsimp only at hk hne ⊢
        rw [hself] at hk
        by_contra hge
        refine hne (k - (done i).toNat) (by omega) ?_
        rw [Nat.add_sub_cancel' (by omega)]
      · rwa [hother x hi] at hk
  -- a byte of no call is in no chunk
  · rcases chunk_written (calls i).buffer p.2.disk (BitVec.lt_def.mpr hlt) pos with
      ⟨t, ht, heq, -⟩ | ⟨-, hval⟩
    · refine absurd heq (hpos (i, range) hmem _ ?_)
      rw [hself]
      exact Nat.add_lt_add_left ht _
    · rw [hval]
      apply h.written.others
      intro x hx k hk
      refine hpos x hx k ?_
      by_cases hi : x.1 = i
      · obtain rfl := h.single x hx (i, range) hmem hi
        dsimp only at hk ⊢
        rw [hself]
        omega
      · rwa [hother x hi]

/-- A range that is reserved changes nothing on the drive. -/
theorem WrittenUpTo.reserve {done done' : ι × Reservation → Nat} {disk' : Disk} {x : ι × Reservation}
    (h : WrittenUpTo disk calls es done disk') (hres : reservations es' = reservations es ++ [x])
    (hold : ∀ y ∈ reservations es, done' y = done y) (hnew : done' x = 0) :
    WrittenUpTo disk calls es' done' disk' := by
  refine ⟨fun y hy k hk => ?_, fun pos hpos => ?_⟩
  · rw [hres] at hy
    rcases List.mem_append.mp hy with hy | hy
    · rw [hold y hy] at hk
      exact h.bytes y hy k hk
    · obtain rfl := List.mem_singleton.mp hy
      rw [hnew] at hk
      exact absurd hk (Nat.not_lt_zero _)
  · apply h.others
    intro y hy k hk
    refine hpos y ?_ k ?_
    · rw [hres]
      exact List.mem_append_left _ hy
    · rwa [hold y hy]

/-- A step that reserves no range and leaves the drive. -/
theorem Writing.keep {done : ι → BitVec 32} {who : ι} (h : Writing disk calls es p done)
    (hres : reservations es' = reservations es) (hdisk : p'.2.disk = p.2.disk)
    (hother : ∀ i, i ≠ who → p'.1 i = p.1 i) (hwho : WritePhase calls es' p' who (done who)) :
    Writing disk calls es' p' done := by
  refine ⟨?_, fun i => ?_, ?_⟩
  · rw [hres]
    exact h.single
  · by_cases hi : i = who
    · rwa [hi]
    · apply (h.phase i).other (hother i hi) (hres.trans (List.append_nil _).symm)
      · exact fun x hx => absurd hx List.not_mem_nil
      · intro lba buffer next _
        rw [hdisk]
  · rw [hdisk]
    exact ⟨by rw [hres]; exact h.written.bytes, by rw [hres]; exact h.written.others⟩

/-- A step that reserves a range. -/
theorem Writing.begin [DecidableEq ι] {done : ι → BitVec 32} {who : ι}
    (h : Writing disk calls es p done) (hfresh : ∀ x ∈ reservations es, x.1 ≠ who)
    (hres : reservations es' = reservations es ++ [(who, range)]) (hdisk : p'.2.disk = p.2.disk)
    (hother : ∀ i, i ≠ who → p'.1 i = p.1 i)
    (hwho : p'.1 who =
      writeRest (calls who).buffer range range.count.toNat 0 (calls who).stack) :
    Writing disk calls es' p' (Function.update done who 0) := by
  refine ⟨?_, fun i => ?_, ?_⟩
  · rw [hres]
    -- the caller had no range before, and has this one now
    intro x hx y hy hxy
    rcases List.mem_append.mp hx with hx | hx
    · rcases List.mem_append.mp hy with hy | hy
      · exact h.single x hx y hy hxy
      · obtain rfl := List.mem_singleton.mp hy
        exact absurd hxy (hfresh x hx)
    · obtain rfl := List.mem_singleton.mp hx
      rcases List.mem_append.mp hy with hy | hy
      · exact absurd hxy.symm (hfresh y hy)
      · exact (List.mem_singleton.mp hy).symm
  · by_cases hi : i = who
    · subst hi
      rw [Function.update_self]
      refine .going range ?_ (Nat.zero_le _) (Or.inl ⟨_, _, hwho, Nat.le_add_left _ _⟩)
      rw [hres]
      exact List.mem_append_right _ (List.mem_singleton_self _)
    · rw [Function.update_of_ne hi]
      apply (h.phase i).other (hother i hi) hres
      · intro x hx
        obtain rfl := List.mem_singleton.mp hx
        exact fun heq => hi heq.symm
      · intro lba buffer next _
        rw [hdisk]
  -- of the new range nothing is written yet
  · rw [hdisk]
    apply h.written.reserve hres
    · intro y hy
      rw [Function.update_of_ne (hfresh y hy)]
    · rw [Function.update_self]
      rfl

/-- A step that writes a sector no other call is about to write. -/
theorem Writing.write [DecidableEq ι] {done : ι → BitVec 32} {who : ι} {fuel : Nat}
    {sectorBuf : Sector} (h : Writing disk calls es p done) (hdisjoint : RangesDisjoint es)
    (hmem : (who, range) ∈ reservations es) (hlt : done who < range.count)
    (hres : reservations es' = reservations es)
    (hdisk : p'.2.disk = ataWriteSector true p.2.disk (chunkLba range (done who))
      (chunkPatch (calls who).buffer range (done who)
        (p.2.disk.sector (chunkLba range (done who)))))
    (hother : ∀ i, i ≠ who → p'.1 i = p.1 i)
    (hapart : ∀ i, i ≠ who → ∀ lba buffer next, p.1 i = .ask (.cachedWrite lba buffer) next →
      sectorStart lba ≠ sectorStart (chunkLba range (done who)))
    (hwho : p'.1 who = writeRest (calls who).buffer range fuel
      (done who + chunkLen range (done who)) sectorBuf)
    (hfuel : range.count.toNat ≤ (done who).toNat + (fuel + 1)) :
    Writing disk calls es' p'
      (Function.update done who (done who + chunkLen range (done who))) := by
  have hlen := chunkLen_toNat hlt
  have hmod := Nat.mod_lt (range.offset + done who).toNat (show 512 > 0 by decide)
  have hwritten := WrittenUpTo.chunk h hdisjoint hmem hlt hdisk
  rw [BitVec.lt_def] at hlt
  -- the bytes written stay within the range
  have hsum : (done who + chunkLen range (done who)).toNat =
      (done who).toNat + (chunkLen range (done who)).toNat := by
    rw [BitVec.toNat_add]
    have := range.count.isLt
    omega
  refine ⟨?_, fun i => ?_, ?_⟩
  · rw [hres]
    exact h.single
  · by_cases hi : i = who
    · subst hi
      rw [Function.update_self]
      exact .going range (by rwa [hres]) (by omega) (Or.inl ⟨fuel, sectorBuf, hwho, by omega⟩)
    -- the others wait, or hold sectors of their own
    · rw [Function.update_of_ne hi]
      apply (h.phase i).other (hother i hi) (hres.trans (List.append_nil _).symm)
      · exact fun x hx => absurd hx List.not_mem_nil
      · intro lba buffer next hprog
        rw [hdisk]
        exact sector_ataWriteSector_ne _ _ (hapart i hi lba buffer next hprog)
  · exact ⟨by rw [hres]; exact hwritten.bytes, by rw [hres]; exact hwritten.others⟩

/-- **What a step keeps**, by where the call is that takes it. -/
theorem Writing.step [DecidableEq ι] {done : ι → BitVec 32} (h : Writing disk calls es p done)
    (hdisjoint : RangesDisjoint (es ++ [e])) (hturns : TakesTurns p e)
    (hstep : Pool.Step idealServe p e p') : ∃ done', Writing disk calls (es ++ [e]) p' done' := by
  obtain ⟨next, hask, hserve, hnext, hother⟩ := hstep.cases
  obtain ⟨who, u, r, a⟩ := e
  have hres := reservations_concat es ⟨who, u, r, a⟩
  have hstate : p'.2 = (idealServe u r p.2).2 := (congrArg Prod.snd hserve).symm
  have hans : a = (idealServe u r p.2).1 := (congrArg Prod.fst hserve).symm
  dsimp only at hask hnext hother hstate hans
  cases h.phase who with
  | refused result hdone _ =>
    rw [hdone] at hask
    cases hask
  | waiting hwait hfresh =>
    rw [hwait, vfsWrite_eq] at hask
    cases hask
    have hdisk : p'.2.disk = p.2.disk := by rw [hstate]; rfl
    rcases hsec : (writeSection p.2.fdTable (calls who).fd (calls who).count).1 with result | range
    · -- the descriptor is not open
      obtain rfl : a = Except.error result := hans.trans hsec
      simp only [reserved, Option.toList_none, List.append_nil] at hres
      exact ⟨done, h.keep hres hdisk hother (.refused result hnext (by rwa [hres]))⟩
    · obtain rfl : a = Except.ok range := hans.trans hsec
      exact ⟨_, h.begin hfresh hres hdisk hother hnext⟩
  | going range hmem hle hgoing =>
    rcases hgoing with ⟨fuel, sectorBuf, hprog, hfuel⟩ | ⟨hlt, fuel, hprog, hfuel⟩
    · by_cases hlt : done who < range.count
      · cases fuel with
        | zero =>
          rw [BitVec.lt_def] at hlt
          omega
        | succ fuel =>
          -- the next sector is read
          rw [hprog, writeRest_succ hlt] at hask
          cases hask
          have hdisk : p'.2.disk = p.2.disk := by rw [hstate]; rfl
          obtain rfl : a = p.2.disk.sector (chunkLba range (done who)) := hans
          simp only [reserved, Option.toList_none, List.append_nil] at hres
          refine ⟨done, h.keep hres hdisk hother
            (.going range (by rwa [hres]) hle (Or.inr ⟨hlt, fuel, ?_, hfuel⟩))⟩
          rw [hnext, hdisk]
      · rw [hprog, writeRest_done hlt] at hask
        cases hask
    · -- the sector is written
      rw [hprog] at hask
      cases hask
      simp only [reserved, Option.toList_none, List.append_nil] at hres
      have hdisk := congrArg Vfs.disk hstate
      exact ⟨_, h.write hdisjoint.of_append hmem hlt hres hdisk hother
        (fun i hi lba buffer next hprog' => hturns _ _ rfl i hi lba buffer next hprog') hnext hfuel⟩

theorem writerRun_writing [DecidableEq ι] {s : Vfs}
    (h : Run (Restrict TakesTurns (Pool.Step idealServe)) (startWrites calls s) es p)
    (hdisjoint : RangesDisjoint es) : ∃ done, Writing s.disk calls es p done := by
  generalize hstart : startWrites calls s = start at h
  induction h with
  | nil =>
    subst hstart
    refine ⟨fun _ => 0, fun x hx => absurd hx List.not_mem_nil, fun i => .waiting rfl ?_, ?_, ?_⟩
    · exact fun x hx => absurd hx List.not_mem_nil
    · exact fun x hx => absurd hx List.not_mem_nil
    · exact fun pos _ => rfl
  | snoc _ hstep ih =>
    obtain ⟨done, hwriting⟩ := ih hdisjoint.of_append
    exact hwriting.step hdisjoint hstep.1 hstep.2

/-- **Calls that take turns lose no byte.** When all calls have returned, the drive holds every byte of
every range as its call wrote it, and is otherwise as it was. -/
theorem writerRun_written [DecidableEq ι] {s : Vfs}
    (h : Run (Restrict TakesTurns (Pool.Step idealServe)) (startWrites calls s) es p)
    (hdisjoint : RangesDisjoint es) (hdone : ∀ i, ∃ result, p.1 i = .done result) :
    Written s.disk calls es p.2.disk := by
  obtain ⟨done, hwriting⟩ := writerRun_writing h hdisjoint
  -- a call that has returned is at the end of its range
  have hall : ∀ x ∈ reservations es, (done x.1).toNat = x.2.count.toNat := by
    rintro ⟨i, range'⟩ hx
    obtain ⟨result, hresult⟩ := hdone i
    cases hwriting.phase i with
    | waiting _ hfresh => exact absurd rfl (hfresh _ hx)
    | refused _ _ hfresh => exact absurd rfl (hfresh _ hx)
    | going range hmem hle hgoing =>
      obtain rfl := (Prod.mk.inj (hwriting.single _ hx _ hmem rfl)).2
      apply Nat.le_antisymm hle
      apply Nat.le_of_not_lt
      intro hlt
      rcases hgoing with ⟨fuel, sectorBuf, hprog, hfuel⟩ | ⟨-, fuel, hprog, -⟩
      · cases fuel with
        | zero => omega
        | succ fuel =>
          rw [hprog, writeRest_succ (BitVec.lt_def.mpr hlt)] at hresult
          cases hresult
      · rw [hprog] at hresult
        cases hresult
  refine ⟨fun x hx k hk => ?_, fun pos hpos => ?_⟩
  · apply hwriting.written.bytes x hx k
    rwa [hall x hx]
  · apply hwriting.written.others
    intro x hx k hk
    apply hpos x hx k
    rwa [hall x hx] at hk

end Invariant

/-! ## Two calls in one sector -/

/-- A file of two bytes on a drive of zeros, open as descriptor 0. -/
def twoBytes : Vfs where
  disk := fun _ => 0
  cache := ⟨0, fun _ => 0, false⟩
  fdTable := Function.update (fun _ => ⟨0, 0, 0, false⟩) 0 ⟨0, 2, 0, true⟩

/-- Each of two calls writes a byte. -/
def oneByteEach (i : Fin 2) : WriteCall := ⟨fun _ => 0, 0, fun _ => if i = 0 then 1 else 2, 1⟩

theorem oneByteEach_disjoint {es : List (WriteEvent (Fin 2))}
    (hres : reservations es = [(0, ⟨0, 0, 1⟩), (1, ⟨0, 1, 1⟩)]) : RangesDisjoint es := by
  unfold RangesDisjoint
  rw [hres]
  decide

/-- One call after the other, once both have reserved their ranges. -/
theorem writerRun_written_sample : ∃ es p,
    Run (Restrict TakesTurns (Pool.Step idealServe)) (startWrites oneByteEach twoBytes) es p ∧
      reservations es = [(0, ⟨0, 0, 1⟩), (1, ⟨0, 1, 1⟩)] ∧
        Written twoBytes.disk oneByteEach es p.2.disk := by
  have h0 : Run (Restrict TakesTurns (Pool.Step idealServe)) (startWrites oneByteEach twoBytes) _ _ :=
    Run.nil _
  have h1 := h0.snoc ⟨(by intro _ _ h; cases h), Pool.Step.serve (i := 0) () rfl⟩
  have h2 := h1.snoc ⟨(by intro _ _ h; cases h), Pool.Step.serve (i := 1) () rfl⟩
  have h3 := h2.snoc ⟨(by intro _ _ h; cases h), Pool.Step.serve (i := 0) () rfl⟩
  have h4 := h3.snoc ⟨(by
    -- the other call is about to read
    intro _ _ _ i hi _ _ _ hprog
    match i with
    | 0 => exact absurd rfl hi
    | 1 => cases hprog), Pool.Step.serve (i := 0) () rfl⟩
  have h5 := h4.snoc ⟨(by intro _ _ h; cases h), Pool.Step.serve (i := 1) () rfl⟩
  have h6 := h5.snoc ⟨(by
    -- the other call has returned
    intro _ _ _ i hi _ _ _ hprog
    match i with
    | 0 => cases hprog
    | 1 => exact absurd rfl hi), Pool.Step.serve (i := 1) () rfl⟩
  refine ⟨_, _, h6, rfl, writerRun_written h6 ?_ ?_⟩
  · exact oneByteEach_disjoint rfl
  · intro i
    match i with
    | 0 => exact ⟨1, rfl⟩
    | 1 => exact ⟨1, rfl⟩

/-- Both calls read the sector before either writes it. -/
theorem oneByteEach_run : ∃ es p, WriterRun oneByteEach twoBytes es p ∧
    reservations es = [(0, ⟨0, 0, 1⟩), (1, ⟨0, 1, 1⟩)] ∧
      p.1 0 = .done 1 ∧ p.1 1 = .done 1 ∧ p.2.disk 0 = 0 := by
  have h0 : WriterRun oneByteEach twoBytes _ _ := Run.nil _
  have h1 := h0.snoc (Pool.Step.serve (i := 0) () rfl)
  have h2 := h1.snoc (Pool.Step.serve (i := 1) () rfl)
  have h3 := h2.snoc (Pool.Step.serve (i := 0) () rfl)
  have h4 := h3.snoc (Pool.Step.serve (i := 1) () rfl)
  have h5 := h4.snoc (Pool.Step.serve (i := 0) () rfl)
  have h6 := h5.snoc (Pool.Step.serve (i := 1) () rfl)
  exact ⟨_, _, h6, rfl, rfl, rfl, rfl⟩

/-- **A lost byte**: the second call puts back the byte the first has written. -/
theorem writerRun_loses : ∃ es p, WriterRun oneByteEach twoBytes es p ∧ RangesDisjoint es ∧
    (∀ i, ∃ result, p.1 i = .done result) ∧ p.2.disk 0 = 0 ∧
      ¬ Written twoBytes.disk oneByteEach es p.2.disk := by
  obtain ⟨es, p, hrun, hres, hfirst, hsecond, hbyte⟩ := oneByteEach_run
  refine ⟨es, p, hrun, oneByteEach_disjoint hres, ?_, hbyte, ?_⟩
  · intro i
    match i with
    | 0 => exact ⟨1, hfirst⟩
    | 1 => exact ⟨1, hsecond⟩
  · intro hwritten
    have hmem : ((0 : Fin 2), (⟨0, 0, 1⟩ : Reservation)) ∈ reservations es := by
      rw [hres]
      exact List.mem_cons_self
    have hshould := hwritten.bytes _ hmem 0 (show 0 < 1 by decide)
    rw [show rangePos ⟨0, 0, 1⟩ 0 = 0 from rfl, hbyte] at hshould
    exact absurd hshould (by decide)

end ZohoOs
