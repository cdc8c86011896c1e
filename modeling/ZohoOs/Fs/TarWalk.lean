import ZohoOs.Fs.Archive

/-!
# The walk over the headers

The loops of `tar_find_file` and `tar_get_file_by_index` on any drive. The step from a header to the next is
taken from what is read, and so is the name that is copied to the caller.

## Main definitions

* `headerStep`, `nextHeader`: the step to the next header
* `Visits`, `WalkEnds`: the headers that are read, and a walk that ends
* `strcpyStores`, `tarCopyName`: the bytes `strcpy` stores for `tar_get_file_by_index`
* `HeaderAt`: the headers on the drive

## Main results

* `nextHeader_toNat`: the address goes on by one sector or more, and does not wrap
* `tarWalk_ends`: both walks end
* `tarCopyName_within_iff`: when the copy of the name stays in its 100 bytes
-/

namespace ZohoOs

open Program

/-- How many sectors a header and its file take, in the 32 bits of the source. -/
def headerStep (header : Sector) : BitVec 32 := 1 + (headerSize header + 511) / 512

/-- The address the loops go on at. -/
def nextHeader (lba : BitVec 32) (header : Sector) : BitVec 32 := lba + headerStep header

/-! ## Steps -/

section Steps

variable {lba : BitVec 32} (header : Sector)

/-- The step is not 0 for any size, and takes 24 bits at most: the sum is divided after it has wrapped. -/
theorem headerStep_toNat :
    (headerStep header).toNat = 1 + (headerSize header + 511).toNat / 512 := by
  have hdiv : ((headerSize header + 511) / 512).toNat = (headerSize header + 511).toNat / 512 :=
    BitVec.toNat_udiv
  have hlt := (headerSize header + 511).isLt
  have hone : (1 : BitVec 32).toNat = 1 := rfl
  rw [headerStep, BitVec.toNat_add, hdiv, hone]
  omega

/-- **Progress.** Far enough below the largest address the walk gets further on, and does not wrap. -/
theorem nextHeader_toNat (hlba : lba.toNat < 2 ^ 32 - 2 ^ 24) :
    (nextHeader lba header).toNat = lba.toNat + (headerStep header).toNat ∧
      lba.toNat < (nextHeader lba header).toNat := by
  have hstep := headerStep_toNat header
  have hlt := (headerSize header + 511).isLt
  have hnext : (nextHeader lba header).toNat = lba.toNat + (headerStep header).toNat := by
    rw [nextHeader, BitVec.toNat_add]
    omega
  exact ⟨hnext, by omega⟩

end Steps

/-! ## Walks -/

/-- A header that is read, and the address it is read from. -/
abbrev HeaderRead := BitVec 32 × Sector

/-- The request for a header, and its answer. -/
def readHeader (h : HeaderRead) : (r : VfsRequest) × VfsAnswer r := ⟨.cachedRead h.1, h.2⟩

/-- Headers that are read one after the other, from an address on. -/
inductive Visits : BitVec 32 → List HeaderRead → Prop
  | last (lba : BitVec 32) (header : Sector) : Visits lba [(lba, header)]
  | next {lba : BitVec 32} {header : Sector} {later : List HeaderRead} :
      Visits (nextHeader lba header) later → Visits lba ((lba, header) :: later)

/-- **A walk that ends**: after at most 20001 headers, each further on than the last, and no address
wraps. -/
structure WalkEnds {α : Type} (start : BitVec 32) (result : Option α)
    (transcript : List ((r : VfsRequest) × VfsAnswer r)) : Prop where
  returns : result ≠ none
  reads : ∃ headers : List HeaderRead, transcript = headers.map readHeader ∧ headers.length ≤ 20001 ∧
    Visits start headers ∧ ∀ h ∈ headers,
      (nextHeader h.1 h.2).toNat = h.1.toNat + (headerStep h.2).toNat ∧
        h.1.toNat < (nextHeader h.1 h.2).toNat

section Walks

variable {κ σ α : Type} {start lba : BitVec 32} {idx fuel : Nat}

/-- **The walk over the headers ends**, whatever is read. By induction on the rounds that are left, each of
which goes on by a sector or more. -/
theorem tarWalk_visits (serve : Server κ VfsRequest VfsAnswer σ) (k : κ)
    (hit : Nat → BitVec 32 → Sector → Option α) (hstart : start.toNat < 2 ^ 31)
    (hlba : lba.toNat ≤ start.toNat + 20000) (hfuel : start.toNat + 20001 ≤ lba.toNat + fuel) (s : σ) :
    ((tarWalk start hit fuel lba idx).run serve k s).1 ≠ none ∧ ∃ headers : List HeaderRead,
      (tarWalk start hit fuel lba idx).transcript serve k s = headers.map readHeader ∧
      headers.length ≤ start.toNat + 20001 - lba.toNat ∧ Visits lba headers ∧
      ∀ h ∈ headers, h.1.toNat ≤ start.toNat + 20000 := by
  induction fuel generalizing lba idx s with
  | zero => omega
  | succ fuel ih =>
    rw [tarWalk_succ]
    simp only [Prog.run, Prog.transcript]
    generalize (serve k (.cachedRead lba) s).1 = header
    generalize (serve k (.cachedRead lba) s).2 = t
    -- the loop is left: the header is the last one
    have hlast : ∃ headers : List HeaderRead,
        [⟨.cachedRead lba, header⟩] = headers.map readHeader ∧
        headers.length ≤ start.toNat + 20001 - lba.toNat ∧ Visits lba headers ∧
        ∀ h ∈ headers, h.1.toNat ≤ start.toNat + 20000 := by
      refine ⟨[(lba, header)], rfl, ?_, .last lba header, ?_⟩
      · rw [List.length_singleton]
        omega
      · intro h hh
        rw [List.mem_singleton.mp hh]
        exact hlba
    split
    · exact ⟨Option.some_ne_none _, hlast⟩
    · cases hit idx lba header with
      | some a => exact ⟨Option.some_ne_none _, hlast⟩
      | none =>
        dsimp only
        split
        · exact ⟨Option.some_ne_none _, hlast⟩
        · next hgt =>
          have hlimit : (start + 20000).toNat = start.toNat + 20000 := by
            have hsteps : (20000 : BitVec 32).toNat = 20000 := rfl
            rw [BitVec.toNat_add, hsteps]
            omega
          -- below the limit the addresses do not wrap, and the next one is larger
          obtain ⟨-, hlt⟩ := nextHeader_toNat header (show lba.toNat < 2 ^ 32 - 2 ^ 24 by omega)
          change ¬ nextHeader lba header > start + 20000 at hgt
          rw [gt_iff_lt, BitVec.lt_def, not_lt, hlimit] at hgt
          obtain ⟨hsome, headers, htranscript, hlength, hvisits, hbelow⟩ :=
            @ih (nextHeader lba header) (idx + 1) hgt (by omega) t
          refine ⟨hsome, (lba, header) :: headers, ?_, ?_, .next hvisits, ?_⟩
          · exact congrArg (List.cons _) htranscript
          · rw [List.length_cons]
            omega
          · intro h hh
            rcases List.mem_cons.mp hh with rfl | hh
            · exact hlba
            · exact hbelow h hh

/-- The walk from the start on. -/
theorem tarWalk_ends_from (serve : Server κ VfsRequest VfsAnswer σ) (k : κ)
    (hit : Nat → BitVec 32 → Sector → Option α) (hstart : start.toNat < 2 ^ 31) (s : σ) :
    WalkEnds start ((tarWalk start hit tarFuel start 0).run serve k s).1
      ((tarWalk start hit tarFuel start 0).transcript serve k s) := by
  obtain ⟨hsome, headers, htranscript, hlength, hvisits, hbelow⟩ :=
    @tarWalk_visits κ σ α start start 0 tarFuel serve k hit hstart (by omega) (by rw [tarFuel]) s
  refine ⟨hsome, headers, htranscript, by omega, hvisits, fun h hh => ?_⟩
  have hle := hbelow h hh
  exact nextHeader_toNat h.2 (by omega)

/-- **The walks end**, for every drive, name and index, with the archive at its address: whatever answers the
requests for the headers. -/
theorem tarWalk_ends (serve : Server κ VfsRequest VfsAnswer σ) (k : κ) (s : σ) (name : List Byte)
    (index : Int) :
    WalkEnds 2048#32 ((tarFindFile 2048#32 name).run serve k s).1
        ((tarFindFile 2048#32 name).transcript serve k s) ∧
      WalkEnds 2048#32 ((tarGetFileByIndex 2048#32 index).run serve k s).1
        ((tarGetFileByIndex 2048#32 index).transcript serve k s) := by
  have hstart : (2048#32).toNat < 2 ^ 31 := by decide
  refine ⟨tarWalk_ends_from serve k _ hstart s, ?_⟩
  obtain ⟨hsome, headers, htranscript, hreads⟩ := tarWalk_ends_from serve k
    (fun idx _ header => if (idx : Int) = index then some (headerName header) else none) hstart s
  rw [tarGetFileByIndex, Prog.run_bind, Prog.transcript_bind]
  generalize (tarWalk 2048#32 _ tarFuel 2048#32 0).run serve k s = found at hsome ⊢
  obtain ⟨result, t⟩ := found
  -- what comes behind the walk makes no requests
  cases result with
  | none => exact absurd rfl hsome
  | some result =>
    cases result with
    | none => exact ⟨Option.some_ne_none _, headers, by rw [htranscript]; exact List.append_nil _, hreads⟩
    | some name =>
      exact ⟨Option.some_ne_none _, headers, by rw [htranscript]; exact List.append_nil _, hreads⟩

end Walks

/-! ## The name that is copied -/

/-- `strcpy`: the bytes it stores at the destination, the first `fuel` of them. -/
def strcpyStores (src : Nat → Byte) : Nat → Nat → List (Nat × Byte)
  | 0, _ => []
  | fuel + 1, i => (i, src i) :: if src i = 0 then [] else strcpyStores src fuel (i + 1)

/-- The buffer of 512 bytes the header is read into, and what the stack holds behind it. -/
def bufferOnStack (header : Sector) (stack : Nat → Byte) (i : Nat) : Byte :=
  if h : i < 512 then header ⟨i, h⟩ else stack (i - 512)

/-- `tar_get_file_by_index` with what it stores into `out_name`. Both of its loops, that over the headers and
that of `strcpy`, take `fuel` rounds at most. -/
def tarCopyName (start : BitVec 32) (index : Int) (stack : Nat → Byte) (fuel : Nat) :
    VfsProg (Option (Int × List (Nat × Byte))) := do
  let found ← tarWalk start (fun idx _ header => if (idx : Int) = index then some header else none)
    fuel start 0
  match found with
  | none => pure none
  | some none => pure (some (-1, []))
  | some (some header) => pure (some (0, strcpyStores (bufferOnStack header stack) fuel 0))

/-- The address of a header on the drive, counted from the one at `lba` on; there is none behind the end of
the archive, or a place the loops do not go to. -/
def headerAt (disk : Disk) (limit : BitVec 32) : Nat → BitVec 32 → Option (BitVec 32)
  | 0, lba => some lba
  | n + 1, lba =>
    if disk.sector lba 0 = 0 ∨ nextHeader lba (disk.sector lba) > limit then none
    else headerAt disk limit n (nextHeader lba (disk.sector lba))

/-- What is stored stays in the 100 bytes of the caller. -/
def CopyStaysWithin (s : Vfs) (start : BitVec 32) (index : Int) (stack : Nat → Byte) : Prop :=
  ∀ fuel result stores,
    ((tarCopyName start index stack fuel).run Vfs.serve true s).1 = some (result, stores) →
      ∀ st ∈ stores, st.1 < 100

section Copy

variable {disk : Disk} {start lba l : BitVec 32} {index : Int} {fuel idx n : Nat} {header : Sector}
  {src : Nat → Byte}

/-- **Where `strcpy` stores**: up to the first NUL. -/
theorem mem_strcpyStores {i o : Nat} : (∃ c, (o, c) ∈ strcpyStores src fuel i) ↔
    i ≤ o ∧ o < i + fuel ∧ ∀ j, i ≤ j → j < o → src j ≠ 0 := by
  induction fuel generalizing i with
  | zero =>
    refine iff_of_false (fun h => List.not_mem_nil h.choose_spec) fun h => ?_
    omega
  | succ fuel ih =>
    rw [strcpyStores]
    by_cases hoi : o = i
    · subst hoi
      refine iff_of_true ⟨_, List.mem_cons_self⟩ ⟨le_rfl, by omega, fun j hj hlt => ?_⟩
      omega
    -- a later byte is stored if this one does not end the string
    · have hlater : (∃ c, (o, c) ∈ (i, src i) :: if src i = 0 then [] else
          strcpyStores src fuel (i + 1)) ↔ src i ≠ 0 ∧ ∃ c, (o, c) ∈ strcpyStores src fuel (i + 1) := by
        by_cases hnul : src i = 0 <;> simp [hnul, hoi]
      rw [hlater, ih]
      constructor
      · rintro ⟨hi, hle, hlt, hbefore⟩
        refine ⟨by omega, by omega, fun j hj hjo => ?_⟩
        rcases Nat.eq_or_lt_of_le hj with rfl | hj
        · exact hi
        · exact hbefore j hj hjo
      · rintro ⟨hle, hlt, hbefore⟩
        exact ⟨hbefore i le_rfl (by omega), by omega, by omega, fun j hj => hbefore j (by omega)⟩

/-- One round of a walk over a drive that is not written to. -/
theorem tarWalk_eval_succ {α : Type} (hit : Nat → BitVec 32 → Sector → Option α) :
    (tarWalk start hit (fuel + 1) lba idx).eval (diskAnswer disk) =
      if disk.sector lba 0 = 0 then some none
      else
        match hit idx lba (disk.sector lba) with
        | some a => some (some a)
        | none =>
          if nextHeader lba (disk.sector lba) > start + 20000 then some none
          else (tarWalk start hit fuel (nextHeader lba (disk.sector lba)) (idx + 1)).eval
            (diskAnswer disk) := by
  rw [tarWalk_succ, Prog.eval]
  change Prog.eval _ (if disk.sector lba 0 = 0 then _ else _) = _
  by_cases hend : disk.sector lba 0 = 0
  · rw [if_pos hend, if_pos hend]
    rfl
  · rw [if_neg hend, if_neg hend]
    change Prog.eval _ (match hit idx lba (disk.sector lba) with | some a => _ | none => _) = _
    cases hit idx lba (disk.sector lba) with
    | some a => rfl
    | none =>
      change Prog.eval _ (if nextHeader lba (disk.sector lba) > start + 20000 then _ else _) =
        if nextHeader lba (disk.sector lba) > start + 20000 then _ else _
      split <;> rfl

/-- The header a walk finds by its number is one on the drive. -/
theorem tarWalk_found (h : (tarWalk start (fun idx _ header => if (idx : Int) = index then some header
      else none) fuel lba idx).eval (diskAnswer disk) = some (some header)) :
    ∃ n l, ((idx + n : Nat) : Int) = index ∧ headerAt disk (start + 20000) n lba = some l ∧
      disk.sector l = header ∧ header 0 ≠ 0 := by
  induction fuel generalizing lba idx with
  | zero => cases h
  | succ fuel ih =>
    rw [tarWalk_eval_succ] at h
    by_cases hend : disk.sector lba 0 = 0
    · rw [if_pos hend] at h
      cases h
    · rw [if_neg hend] at h
      -- the header with the number, or one in front of it
      by_cases hidx : (idx : Int) = index
      · simp only [if_pos hidx] at h
        obtain rfl : disk.sector lba = header := Option.some.inj (Option.some.inj h)
        exact ⟨0, lba, hidx, rfl, rfl, hend⟩
      · simp only [if_neg hidx] at h
        by_cases hlimit : nextHeader lba (disk.sector lba) > start + 20000
        · rw [if_pos hlimit] at h
          cases h
        · rw [if_neg hlimit] at h
          obtain ⟨n, l, hn, hl, hheader⟩ := ih h
          refine ⟨n + 1, l, by omega, ?_, hheader⟩
          rw [headerAt, if_neg (not_or.mpr ⟨hend, hlimit⟩)]
          exact hl

/-- A header on the drive is found by its number. -/
theorem tarWalk_reaches (hl : headerAt disk (start + 20000) n lba = some l) (hl0 : disk.sector l 0 ≠ 0)
    (hindex : ((idx + n : Nat) : Int) = index) (hfuel : n < fuel) :
    (tarWalk start (fun idx _ header => if (idx : Int) = index then some header else none) fuel lba
      idx).eval (diskAnswer disk) = some (some (disk.sector l)) := by
  induction n generalizing lba idx fuel with
  | zero =>
    obtain ⟨fuel, rfl⟩ : ∃ m, fuel = m + 1 := ⟨fuel - 1, by omega⟩
    obtain rfl : lba = l := Option.some.inj hl
    rw [tarWalk_eval_succ, if_neg hl0]
    simp only [if_pos (show (idx : Int) = index from hindex)]
  | succ n ih =>
    obtain ⟨fuel, rfl⟩ : ∃ m, fuel = m + 1 := ⟨fuel - 1, by omega⟩
    rw [headerAt] at hl
    split at hl
    · cases hl
    · rename_i hgo
      obtain ⟨hend, hlimit⟩ := not_or.mp hgo
      rw [tarWalk_eval_succ, if_neg hend]
      simp only [if_neg (show ¬ (idx : Int) = index by omega), if_neg hlimit]
      exact ih hl (by omega) (by omega)

theorem tarCopyName_asks (start : BitVec 32) (index : Int) (stack : Nat → Byte) (fuel : Nat) :
    (tarCopyName start index stack fuel).Asks VfsRequest.IsRead := by
  refine (tarWalk_asks ..).bind fun found => ?_
  cases found with
  | none => trivial
  | some found => cases found <;> trivial

/-- What is stored for a header that is found. -/
theorem tarCopyName_eval_found {stack : Nat → Byte}
    (h : (tarWalk start (fun idx _ header => if (idx : Int) = index then some header else none) fuel start
      0).eval (diskAnswer disk) = some (some header)) :
    (tarCopyName start index stack fuel).eval (diskAnswer disk) =
      some (0, strcpyStores (bufferOnStack header stack) fuel 0) := by
  rw [tarCopyName, Prog.eval_bind, h]
  rfl

/-- Whatever is stored is stored for a header that is found. -/
theorem tarCopyName_eval_stores {stack : Nat → Byte} {result : Int} {stores : List (Nat × Byte)}
    (h : (tarCopyName start index stack fuel).eval (diskAnswer disk) = some (result, stores)) :
    stores = [] ∨ ∃ header, stores = strcpyStores (bufferOnStack header stack) fuel 0 ∧
      (tarWalk start (fun idx _ header => if (idx : Int) = index then some header else none) fuel start
        0).eval (diskAnswer disk) = some (some header) := by
  rw [tarCopyName, Prog.eval_bind] at h
  revert h
  cases (tarWalk start (fun idx _ header => if (idx : Int) = index then some header else none) fuel start
    0).eval (diskAnswer disk) with
  | none => exact fun h => by cases h
  | some found =>
    cases found with
    | none =>
      intro h
      exact Or.inl (Prod.mk.inj (Option.some.inj h)).2.symm
    | some header =>
      intro h
      exact Or.inr ⟨header, (Prod.mk.inj (Option.some.inj h)).2.symm, rfl⟩

/-- **When the copy stays in the caller's bytes**: the name field of the header with that number on the drive,
if there is one, has a NUL. -/
theorem tarCopyName_within_iff {s : Vfs} (hcoherent : s.Coherent) (start : BitVec 32) (index : Int)
    (stack : Nat → Byte) : CopyStaysWithin s start index stack ↔
      ∀ (n : Nat) l, n = index → headerAt s.disk (start + 20000) n start = some l →
        s.disk.sector l 0 ≠ 0 → ∃ j : Fin 512, j.val < 100 ∧ s.disk.sector l j = 0 := by
  have hrun : ∀ fuel, ((tarCopyName start index stack fuel).run Vfs.serve true s).1 =
      (tarCopyName start index stack fuel).eval (diskAnswer s.disk) := fun fuel =>
    (Vfs.run_reads (tarCopyName_asks start index stack fuel) hcoherent).1
  have hfield : ∀ (header : Sector) {j : Nat}, j < 100 →
      bufferOnStack header stack j = header (Fin.ofNat 512 j) := by
    intro header j hj
    rw [bufferOnStack, dif_pos (by omega)]
    congr 1
    exact Fin.ext (Nat.mod_eq_of_lt (by omega)).symm
  simp only [CopyStaysWithin, hrun]
  constructor
  · intro hwithin n l hn hl hl0
    by_contra hnone
    -- without a NUL in the field, the byte behind it is stored
    have hfound : (tarWalk start (fun idx _ header => if (idx : Int) = index then some header else none)
        (n + 101) start 0).eval (diskAnswer s.disk) = some (some (s.disk.sector l)) :=
      tarWalk_reaches hl hl0 (by rw [Nat.zero_add]; exact hn) (by omega)
    obtain ⟨c, hc⟩ : ∃ c, (100, c) ∈
        strcpyStores (bufferOnStack (s.disk.sector l) stack) (n + 101) 0 := by
      refine mem_strcpyStores.mpr ⟨by omega, by omega, fun j _ hj hzero => hnone ?_⟩
      rw [hfield _ hj] at hzero
      exact ⟨Fin.ofNat 512 j, (Nat.mod_le ..).trans_lt hj, hzero⟩
    have hlt : 100 < 100 := hwithin (n + 101) 0 _ (tarCopyName_eval_found hfound) _ hc
    exact absurd hlt (lt_irrefl _)
  · intro hnul fuel result stores hstores
    rcases tarCopyName_eval_stores hstores with rfl | ⟨header, rfl, hfound⟩
    · exact fun st hst => absurd hst List.not_mem_nil
    · rintro ⟨o, c⟩ hst
      obtain ⟨n, l, hn, hl, rfl, hl0⟩ := tarWalk_found hfound
      obtain ⟨j, hj, hzero⟩ := hnul n l (by rw [← hn, Nat.zero_add]) hl hl0
      obtain ⟨-, -, hbefore⟩ := mem_strcpyStores.mp ⟨c, hst⟩
      -- had it stored behind the field, it would have passed the NUL
      by_contra hout
      refine hbefore j (Nat.zero_le _) (lt_of_lt_of_le hj (not_lt.mp hout)) ?_
      rw [hfield _ hj, ← hzero]
      congr 1
      exact Fin.ext (Nat.mod_eq_of_lt j.isLt)

/-- A drive with one header at 2048, with so many letters from its first byte on. -/
def headerOf (letters : Nat) : Vfs where
  disk pos := if 1048576 ≤ pos ∧ pos < 1048576 + letters then 0x61#8 else 0#8
  cache := ⟨0, fun _ => 0, false⟩
  fdTable := fun _ => ⟨0, 0, 0, false⟩

/-- An entry with a name of five letters. -/
theorem tarCopyName_within_short : headerAt (headerOf 5).disk (2048#32 + 20000) 0 2048#32 = some 2048#32 ∧
    (headerOf 5).disk.sector 2048#32 0 ≠ 0 ∧ CopyStaysWithin (headerOf 5) 2048#32 0 fun _ => 0 := by
  refine ⟨rfl, by decide, ?_⟩
  refine (tarCopyName_within_iff (fun hvalid => Bool.noConfusion hvalid) 2048#32 0 fun _ => 0).mpr ?_
  intro n l hn hl _
  obtain rfl : n = 0 := Int.ofNat_eq_zero.mp hn
  obtain rfl := Option.some.inj hl
  exact ⟨5, by decide, by decide⟩

/-- A name of 100 bytes, which fills its field, and the mode. -/
def fullName : Vfs := headerOf 107

/-- The first entry: the byte behind the caller's 100 is stored. -/
theorem tarCopyName_overruns : ¬ CopyStaysWithin fullName 2048#32 0 fun _ => 0 := by
  intro h
  have hcoherent : fullName.Coherent := fun hvalid => Bool.noConfusion hvalid
  have hfound : (tarWalk 2048#32 (fun idx _ header => if (idx : Int) = 0 then some header else none) 101
      2048#32 0).eval (diskAnswer fullName.disk) = some (some (fullName.disk.sector 2048#32)) :=
    @tarWalk_reaches fullName.disk 2048#32 2048#32 2048#32 0 101 0 0 rfl (by decide) rfl (by decide)
  have hrun : ((tarCopyName 2048#32 0 (fun _ => 0) 101).run Vfs.serve true fullName).1 = _ :=
    (Vfs.run_reads (tarCopyName_asks ..) hcoherent).1.trans (tarCopyName_eval_found hfound)
  obtain ⟨c, hc⟩ : ∃ c, (100, c) ∈
      strcpyStores (bufferOnStack (fullName.disk.sector 2048#32) fun _ => 0) 101 0 :=
    mem_strcpyStores.mpr ⟨by decide, by decide, fun j _ hj => by revert j; decide⟩
  exact absurd (h 101 0 _ hrun _ hc) (lt_irrefl _)

end Copy

end ZohoOs
