import ZohoOs.Fs.Reads
import Mathlib.Data.List.GetD

/-!
# Archives

An archive is a list of members, each a header of one sector and its contents, padded to whole
sectors, and a block of zeros at the end. The walk over the headers of an archive on the drive visits
its members in order, and ends at the block of zeros.

## Main definitions

* `Member`: a file of an archive
* `archive`: the bytes of a list of members
* `HoldsAt`: the drive holds these bytes from an address on
* `Entry`, `entries`: the members with their numbers and addresses

## Main results

* `octalToInt_digits`: the size in a header reads as it was written
* `strcmp_name`: a name compares equal to itself only
* `tarWalk_eval`: the walk over an archive takes the first entry that is hit
-/

namespace ZohoOs

open Program

/-! ## Layout -/

/-- A file of an archive: a name of 1 to 99 bytes, its contents, and the other fields of its header. -/
structure Member where
  name : List Byte
  contents : List Byte
  /-- `mode`, `uid` and `gid`. -/
  owner : List Byte
  /-- The last byte of `size`, and the fields behind it. -/
  rest : List Byte
  name_pos : 0 < name.length
  name_lt : name.length < 100
  name_ne : ∀ c ∈ name, c ≠ 0
  size_lt : contents.length < 8 ^ 11
  owner_length : owner.length = 24
  rest_length : rest.length = 377

/-- A number in 11 octal digits. -/
def octalDigits (n : Nat) : List Byte :=
  (List.range 11).map fun i => BitVec.ofNat 8 (0x30 + n / 8 ^ (10 - i) % 8)

theorem octalDigits_length (n : Nat) : (octalDigits n).length = 11 := by
  rw [octalDigits, List.length_map, List.length_range]

namespace Member

variable (m : Member)

/-- `tar_header_t`. -/
def header : List Byte :=
  m.name ++ List.replicate (100 - m.name.length) 0 ++ m.owner ++
    octalDigits m.contents.length ++ m.rest

/-- The sectors of the contents. -/
def dataSectors : Nat := (m.contents.length + 511) / 512

/-- The contents, padded with zeros. -/
def padded : List Byte :=
  m.contents ++ List.replicate (512 * m.dataSectors - m.contents.length) 0

/-- The sectors of the member. -/
def sectors : Nat := 1 + m.dataSectors

/-- The header, as it is read. -/
def headerSector : Sector := fun i => m.header.getD i 0

theorem header_length : m.header.length = 512 := by
  have hname := m.name_lt
  rw [header, List.length_append, List.length_append, List.length_append, List.length_append,
    List.length_replicate, m.owner_length, m.rest_length, octalDigits_length]
  omega

theorem padded_length : m.padded.length = 512 * m.dataSectors := by
  have hle : m.contents.length ≤ 512 * m.dataSectors := by
    unfold dataSectors
    omega
  rw [padded, List.length_append, List.length_replicate]
  omega

end Member

/-- The bytes of an archive. -/
def archive : List Member → List Byte
  | [] => List.replicate 512 0
  | m :: ms => m.header ++ m.padded ++ archive ms

/-- The sectors of an archive. -/
def archiveSectors (ms : List Member) : Nat := (ms.map Member.sectors).sum + 1

/-- The drive holds these bytes from a sector on. -/
def HoldsAt (disk : Disk) (lba : Nat) (bytes : List Byte) : Prop :=
  ∀ i b, bytes[i]? = some b → disk (512 * lba + i) = b

/-- **An archive on the drive**: it has at most 20000 sectors, which the driver can address. -/
structure OnDisk (disk : Disk) (start : BitVec 32) (ms : List Member) : Prop where
  holds : HoldsAt disk start.toNat (archive ms)
  short : archiveSectors ms ≤ 20000
  fits : start.toNat + archiveSectors ms ≤ 2 ^ 28

section Layout

variable {disk : Disk} {lba : Nat} {a b : List Byte}

theorem HoldsAt.left (h : HoldsAt disk lba (a ++ b)) : HoldsAt disk lba a := by
  intro i c hc
  refine h i c ?_
  rw [List.getElem?_append_left (List.getElem?_eq_some_iff.mp hc).1]
  exact hc

theorem HoldsAt.right {n : Nat} (h : HoldsAt disk lba (a ++ b)) (ha : a.length = 512 * n) :
    HoldsAt disk (lba + n) b := by
  intro i c hc
  have hread := h (a.length + i) c (by
    rw [List.getElem?_append_right (Nat.le_add_right _ _), Nat.add_sub_cancel_left]
    exact hc)
  rw [ha] at hread
  rwa [Nat.mul_add, Nat.add_assoc]

/-- The sector at an address that is in range. -/
theorem HoldsAt.sector {addr : BitVec 32} (h : HoldsAt disk lba a) (haddr : addr.toNat = lba)
    (hlt : lba < 2 ^ 28) (hlen : a.length = 512) :
    disk.sector addr = fun i : Fin 512 => a.getD i 0 := by
  funext i
  have hi : i.val < a.length := lt_of_lt_of_eq i.isLt hlen.symm
  rw [Disk.sector, sectorStart, haddr, Nat.mod_eq_of_lt hlt, List.getD_eq_getElem _ _ hi]
  exact h i _ (List.getElem?_eq_getElem hi)

end Layout

/-! ## Fields -/

section Fields

variable {m : Member} {path : List Byte}

theorem Member.byte_headerSector {i : Nat} (h : i < 512) :
    m.headerSector.byte i = m.header.getD i 0 :=
  Sector.byte_lt h

theorem Member.byte_name {i : Nat} (h : i < m.name.length) :
    m.headerSector.byte i = m.name.getD i 0 := by
  have hname := m.name_lt
  rw [Member.byte_headerSector (by omega), Member.header]
  simp only [List.append_assoc]
  exact List.getD_append _ _ _ _ h

theorem Member.byte_pad {i : Nat} (hlo : m.name.length ≤ i) (hhi : i < 100) :
    m.headerSector.byte i = 0 := by
  rw [Member.byte_headerSector (by omega), Member.header]
  simp only [List.append_assoc]
  rw [List.getD_append_right _ _ _ _ hlo, List.getD_append _ _ _ _ (by
    rw [List.length_replicate]
    omega)]
  exact List.getD_replicate _ (by omega)

theorem Member.byte_size {i : Nat} (h : i < 11) :
    m.headerSector.byte (124 + i) = (octalDigits m.contents.length).getD i 0 := by
  have hname := m.name_lt
  have hlen : (m.name ++ List.replicate (100 - m.name.length) 0 ++ m.owner).length = 124 := by
    rw [List.length_append, List.length_append, List.length_replicate, m.owner_length]
    omega
  rw [Member.byte_headerSector (by omega), Member.header, List.append_assoc _ (octalDigits _),
    List.getD_append_right _ _ _ _ (by omega), hlen, Nat.add_sub_cancel_left]
  exact List.getD_append _ _ _ _ (by rw [octalDigits_length]; exact h)

/-- A digit is added below the others. -/
theorem octal_step (a d : Nat) (hd : d < 8) : BitVec.ofNat 32 a <<< 3 |||
    ((BitVec.ofNat 8 (0x30 + d)).setWidth 32 - 0x30#32) = BitVec.ofNat 32 (a * 8 + d) := by
  apply BitVec.eq_of_toNat_eq
  have hdigit : ((BitVec.ofNat 8 (0x30 + d)).setWidth 32 - 0x30#32).toNat = d := by
    rw [BitVec.toNat_sub, BitVec.toNat_setWidth, BitVec.toNat_ofNat, BitVec.toNat_ofNat]
    omega
  have hshift : (BitVec.ofNat 32 a <<< 3).toNat = 2 ^ 3 * (a % 2 ^ 29) := by
    rw [BitVec.toNat_shiftLeft, BitVec.toNat_ofNat, Nat.shiftLeft_eq]
    omega
  rw [BitVec.toNat_or, hshift, hdigit, ← Nat.two_pow_add_eq_or_of_lt (by omega), BitVec.toNat_ofNat]
  omega

theorem octalLoop_digits {oct : Nat → Byte} {n left i : Nat}
    (h : ∀ j < left, oct (i + j) = BitVec.ofNat 8 (0x30 + n / 8 ^ (left - 1 - j) % 8)) :
    octalLoop oct left i (BitVec.ofNat 32 (n / 8 ^ left)) = BitVec.ofNat 32 n := by
  induction left generalizing i with
  | zero => rw [octalLoop, Nat.pow_zero, Nat.div_one]
  | succ left ih =>
    have hfirst := h 0 (Nat.succ_pos _)
    rw [Nat.add_zero, Nat.sub_zero, Nat.add_sub_cancel] at hfirst
    have hdigit : n / 8 ^ left % 8 < 8 := Nat.mod_lt _ (by decide)
    have hchar : (BitVec.ofNat 8 (0x30 + n / 8 ^ left % 8)).toNat = 0x30 + n / 8 ^ left % 8 := by
      rw [BitVec.toNat_ofNat]
      omega
    have hquot : n / 8 ^ (left + 1) * 8 + n / 8 ^ left % 8 = n / 8 ^ left := by
      rw [Nat.pow_succ, ← Nat.div_div_eq_div_mul]
      omega
    rw [octalLoop, hfirst, if_neg (by rw [hchar]; omega), octal_step _ _ hdigit, hquot]
    apply ih
    intro j hj
    rw [Nat.add_assoc, Nat.add_comm 1 j, h (j + 1) (by omega),
      show left + 1 - 1 - (j + 1) = left - 1 - j by omega]

/-- **The size in a header reads as it was written.** -/
theorem octalToInt_digits (m : Member) :
    headerSize m.headerSector = BitVec.ofNat 32 m.contents.length := by
  have hloop := @octalLoop_digits (fun i => m.headerSector.byte (124 + i)) m.contents.length 11 0
    fun j hj => by
      rw [Nat.zero_add, Member.byte_size hj, octalDigits, List.getD_eq_getElem?_getD,
        List.getElem?_map, List.getElem?_range hj]
      rfl
  rwa [Nat.div_eq_of_lt m.size_lt] at hloop

/-- Strings compare equal where they are the same. -/
theorem strcmp_eq_zero_iff {mem : Nat → Byte} {name : List Byte} {i : Nat}
    (hname : ∀ k < name.length, mem (i + k) = name.getD k 0) (hend : mem (i + name.length) = 0)
    (hne : ∀ c ∈ name, c ≠ 0) (hpath : ∀ c ∈ path, c ≠ 0) :
    strcmp mem path i = 0 ↔ path = name := by
  -- The difference of two bytes is taken in `int`, where it is zero only for equal bytes.
  have htoNat : ∀ c : Byte, (c.toNat : Int) = 0 ↔ c = 0 := by
    intro c
    constructor
    · intro h
      exact BitVec.eq_of_toNat_eq (by simpa using h)
    · rintro rfl
      rfl
  induction path generalizing name i with
  | nil =>
    rw [strcmp, htoNat]
    cases name with
    | nil => simpa using hend
    | cons d name =>
      have hd := hname 0 (Nat.succ_pos _)
      rw [Nat.add_zero, List.getD_cons_zero] at hd
      simpa [hd] using hne d List.mem_cons_self
  | cons c path ih =>
    have hc := hpath c List.mem_cons_self
    cases name with
    | nil =>
      rw [List.length_nil, Nat.add_zero] at hend
      rw [strcmp, if_neg fun h => h.1 hend, hend]
      constructor
      · intro h
        exact absurd ((htoNat c).mp (by simpa using h)) hc
      · intro h
        cases h
    | cons d name =>
      have hd := hname 0 (Nat.succ_pos _)
      rw [Nat.add_zero, List.getD_cons_zero] at hd
      rw [strcmp, hd]
      by_cases hsame : d = c
      · subst hsame
        rw [if_pos ⟨hc, rfl⟩, List.cons.injEq, eq_self_iff_true, true_and]
        apply ih
        · intro k hk
          rw [Nat.add_assoc, Nat.add_comm 1 k, hname (k + 1) (Nat.succ_lt_succ hk),
            List.getD_cons_succ]
        · rw [Nat.add_assoc, Nat.add_comm 1 name.length]
          exact hend
        · exact fun c hc => hne c (List.mem_cons_of_mem _ hc)
        · exact fun c hc => hpath c (List.mem_cons_of_mem _ hc)
      · rw [if_neg fun h => hsame h.2]
        constructor
        · intro h
          have heq : d.toNat = c.toNat := by omega
          exact absurd (BitVec.eq_of_toNat_eq heq) hsame
        · intro h
          exact absurd (List.cons.inj h).1.symm hsame

/-- **A name compares equal to itself only.** -/
theorem strcmp_name (m : Member) (hpath : ∀ c ∈ path, c ≠ 0) :
    strcmp m.headerSector.byte path 0 = 0 ↔ path = m.name := by
  apply strcmp_eq_zero_iff
  · intro k hk
    rw [Nat.zero_add]
    exact Member.byte_name hk
  · rw [Nat.zero_add]
    exact Member.byte_pad (Nat.le_refl _) m.name_lt
  · exact m.name_ne
  · exact hpath

/-- The name is copied without what pads it. -/
theorem headerName_headerSector (m : Member) : headerName m.headerSector = m.name := by
  have hlist : List.ofFn m.headerSector = m.header := by
    apply List.ext_getElem
    · rw [List.length_ofFn, m.header_length]
    · intro i hi hi'
      rw [List.getElem_ofFn, Member.headerSector, List.getD_eq_getElem _ _ hi']
  have hlt := m.name_lt
  have hpad : List.replicate (100 - m.name.length) (0 : Byte) =
      0 :: List.replicate (99 - m.name.length) 0 := by
    rw [show 100 - m.name.length = 99 - m.name.length + 1 by omega, List.replicate_succ]
  rw [headerName, hlist, Member.header, hpad]
  simp only [List.append_assoc]
  rw [List.takeWhile_append_of_pos, List.cons_append, List.takeWhile_cons_of_neg (by decide),
    List.append_nil]
  intro c hc
  simpa using m.name_ne c hc

end Fields

/-! ## The walk -/

/-- A member with its number and the address of its header. -/
structure Entry where
  idx : Nat
  lba : BitVec 32
  member : Member

/-- The entries of an archive, from a number and an address on. -/
def entries (idx : Nat) (lba : BitVec 32) : List Member → List Entry
  | [] => []
  | m :: ms => ⟨idx, lba, m⟩ :: entries (idx + 1) (lba + BitVec.ofNat 32 m.sectors) ms

section Walk

variable {α : Type} {disk : Disk} {start lba : BitVec 32} {ms : List Member} {off idx fuel : Nat}
  {hit : Nat → BitVec 32 → Sector → Option α}

/-- One round of the walk. -/
theorem tarWalk_succ (start : BitVec 32) (hit : Nat → BitVec 32 → Sector → Option α) (fuel : Nat)
    (lba : BitVec 32) (idx : Nat) : tarWalk start hit (fuel + 1) lba idx =
      .ask (.cachedRead lba) fun header : Sector =>
        if header 0 = 0 then .done (some none)
        else
          match hit idx lba header with
          | some a => .done (some (some a))
          | none =>
            if lba + (1 + (headerSize header + 511) / 512) > start + 20000 then .done (some none)
            else tarWalk start hit fuel (lba + (1 + (headerSize header + 511) / 512)) (idx + 1) :=
  rfl

theorem tarWalk_asks (start : BitVec 32) (hit : Nat → BitVec 32 → Sector → Option α) (fuel : Nat)
    (lba : BitVec 32) (idx : Nat) : (tarWalk start hit fuel lba idx).Asks VfsRequest.IsRead := by
  induction fuel generalizing lba idx with
  | zero => trivial
  | succ fuel ih =>
    rw [tarWalk_succ]
    refine ⟨trivial, fun header => ?_⟩
    dsimp only
    split
    · trivial
    · split
      · trivial
      · split
        · trivial
        · exact ih _ _

/-- What is left after the block of an archive's first member. -/
theorem archive_cons (m : Member) (ms : List Member) :
    archive (m :: ms) = (m.header ++ m.padded) ++ archive ms ∧
      archiveSectors (m :: ms) = m.sectors + archiveSectors ms ∧
      (m.header ++ m.padded).length = 512 * m.sectors := by
  refine ⟨rfl, ?_, ?_⟩
  · rw [archiveSectors, archiveSectors, List.map_cons, List.sum_cons, Nat.add_assoc]
  · rw [List.length_append, m.header_length, m.padded_length, Member.sectors]
    omega

theorem archiveSectors_pos (ms : List Member) : ms.length < archiveSectors ms := by
  induction ms with
  | nil => exact Nat.succ_pos 0
  | cons m ms ih =>
    rw [(archive_cons m ms).2.1, List.length_cons, Member.sectors]
    omega

/-- The address of the next header. -/
theorem next_header (m : Member) (hsmall : m.sectors ≤ 20000) (lba : BitVec 32) :
    lba + (1 + (headerSize m.headerSector + 511) / 512) = lba + BitVec.ofNat 32 m.sectors := by
  have hstep : 1 + (headerSize m.headerSector + 511) / 512 = BitVec.ofNat 32 m.sectors := by
    apply BitVec.eq_of_toNat_eq
    unfold Member.sectors Member.dataSectors at *
    rw [octalToInt_digits, BitVec.toNat_add, BitVec.toNat_udiv, BitVec.toNat_add,
      BitVec.toNat_ofNat, BitVec.toNat_ofNat, show (1 : BitVec 32).toNat = 1 from rfl,
      show (511 : BitVec 32).toNat = 511 from rfl, show (512 : BitVec 32).toNat = 512 from rfl]
    omega
  rw [hstep]

/-- **The walk over an archive** takes the first entry that is hit. -/
theorem tarWalk_eval (hholds : HoldsAt disk (start.toNat + off) (archive ms))
    (hshort : off + archiveSectors ms ≤ 20000)
    (hfits : start.toNat + off + archiveSectors ms ≤ 2 ^ 28)
    (hlba : lba.toNat = start.toNat + off) (hfuel : ms.length < fuel) :
    (tarWalk start hit fuel lba idx).eval (diskAnswer disk) =
      some ((entries idx lba ms).findSome? fun e => hit e.idx e.lba e.member.headerSector) := by
  induction ms generalizing off idx lba fuel with
  | nil =>
    cases fuel with
    | zero => exact absurd hfuel (Nat.not_lt_zero _)
    | succ fuel =>
      -- the block of zeros
      have hpos : 0 < archiveSectors [] := archiveSectors_pos []
      have hsector := hholds.sector hlba (by omega) (List.length_replicate ..)
      rw [tarWalk_succ, Prog.eval]
      simp only [diskAnswer, hsector]
      rw [if_pos (by rfl)]
      rfl
  | cons m ms ih =>
    cases fuel with
    | zero => exact absurd hfuel (Nat.not_lt_zero _)
    | succ fuel =>
      obtain ⟨hbytes, hsectors, hlength⟩ := archive_cons m ms
      have hpos := archiveSectors_pos ms
      rw [hsectors] at hshort hfits
      have hsector : disk.sector lba = m.headerSector := by
        rw [hbytes] at hholds
        exact hholds.left.left.sector hlba (by omega) m.header_length
      have hfirst : ¬ m.headerSector 0 = 0 := by
        have hbyte := Member.byte_name (m := m) m.name_pos
        rw [Sector.byte_lt (by decide)] at hbyte
        have hmem : m.name.getD 0 0 ∈ m.name := by
          rw [List.getD_eq_getElem _ _ m.name_pos]
          exact List.getElem_mem _
        intro hzero
        exact m.name_ne _ hmem (hbyte.symm.trans hzero)
      rw [tarWalk_succ, Prog.eval]
      simp only [diskAnswer, hsector]
      rw [if_neg hfirst, entries, List.findSome?_cons]
      cases hhit : hit idx lba m.headerSector with
      | some a => rfl
      | none =>
        have hnext : (lba + BitVec.ofNat 32 m.sectors).toNat = start.toNat + (off + m.sectors) := by
          rw [BitVec.toNat_add, BitVec.toNat_ofNat, hlba]
          omega
        have hstop : ¬ lba + BitVec.ofNat 32 m.sectors > start + 20000 := by
          rw [gt_iff_lt, BitVec.lt_def, hnext, BitVec.toNat_add,
            show (20000 : BitVec 32).toNat = 20000 from rfl]
          omega
        dsimp only
        rw [next_header m (by omega), if_neg hstop]
        apply ih
        · rw [hbytes] at hholds
          rw [← Nat.add_assoc]
          exact hholds.right hlength
        · omega
        · omega
        · exact hnext
        · exact Nat.lt_of_succ_lt_succ hfuel

end Walk

end ZohoOs
