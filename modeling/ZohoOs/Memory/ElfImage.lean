import ZohoOs.Memory.ElfLoad
import Mathlib.Data.List.Pairwise

/-!
# What a loaded program reads

`elf_load` maps every page of every segment to a frame of its own. Where two segments share a page,
the second one takes the page over: the bytes of the first are gone, and so are its flags.

## Main definitions

* `Image.WellFormed`: the images a linker writes
* `Image.Correct`: each address of a segment reads its byte of the file, or zero
* `Image.lastOver`: the last segment over a page
* `Image.Intact`: no segment loses a byte or its flags to a later one

## Main results

* `ElfPhdr.byte_copyPage`: the bytes of one page of a segment
* `elfLoad_correct_iff`: the load is correct just for the images that are intact
-/

namespace ZohoOs

open LastWrite

/-! ## Pages of addresses -/

theorem and_page_toNat (x : BitVec 64) : (x &&& ~~~0xFFF#64).toNat = x.toNat / 4096 * 4096 := by
  have hshift : x &&& ~~~0xFFF#64 = x >>> 12 <<< 12 := by
    refine BitVec.eq_of_getLsbD_eq fun i hi => ?_
    simp only [BitVec.getLsbD_and, BitVec.getLsbD_not, BitVec.getLsbD_shiftLeft,
      BitVec.getLsbD_ushiftRight, hi, decide_true, Bool.true_and]
    by_cases hlow : i < 12
    · have hmask : (0xFFF#64).getLsbD i = true := by
        have : i = 0 ∨ i = 1 ∨ i = 2 ∨ i = 3 ∨ i = 4 ∨ i = 5 ∨ i = 6 ∨ i = 7 ∨ i = 8 ∨ i = 9 ∨
          i = 10 ∨ i = 11 := by omega
        rcases this with rfl | rfl | rfl | rfl | rfl | rfl | rfl | rfl | rfl | rfl | rfl | rfl <;>
          decide
      simp [hmask, hlow]
    · have hmask : (0xFFF#64).getLsbD i = false := by
        rw [BitVec.getLsbD_ofNat]
        simp only [Bool.and_eq_false_imp, decide_eq_true_eq]
        intro _
        exact Nat.testBit_lt_two_pow
          (lt_of_lt_of_le (by decide : 0xFFF < 2 ^ 12) (Nat.pow_le_pow_right (by decide) (by omega)))
      simp [hmask, hlow, show 12 + (i - 12) = i by omega]
  rw [hshift, BitVec.toNat_shiftLeft, BitVec.toNat_ushiftRight, Nat.shiftRight_eq_div_pow,
    Nat.shiftLeft_eq]
  have := x.isLt
  omega

theorem and_offset_toNat (x : BitVec 64) : (x &&& 0xFFF#64).toNat = x.toNat % 4096 := by
  rw [BitVec.toNat_and, show (0xFFF#64).toNat = 2 ^ 12 - 1 by decide,
    Nat.and_two_pow_sub_one_eq_mod]

/-- A canonical address outside the slot of the kernel. -/
def UserHalf (a : BitVec 64) : Prop :=
  pml4Index a ≠ 0 ∧ (a.toNat < 2 ^ 47 ∨ 2 ^ 64 - 2 ^ 47 ≤ a.toNat)

theorem UserHalf.ge {a : BitVec 64} (h : UserHalf a) : 2 ^ 39 ≤ a.toNat := by
  by_contra hlt
  refine h.1 (Fin.ext ?_)
  rw [pml4Index, index_val, Nat.div_eq_of_lt (not_le.mp hlt)]
  rfl

/-- Addresses of one 4 KiB page. -/
theorem UserHalf.of_page {a b : BitVec 64} (h : UserHalf a) (hpage : b.toNat / 4096 = a.toNat / 4096) :
    UserHalf b := by
  refine ⟨fun hzero => h.1 ?_, ?_⟩
  · refine Fin.ext ?_
    rw [← hzero, pml4Index, pml4Index, index_val, index_val]
    omega
  · have := h.2
    omega

/-- Canonical addresses with the same indices are of one page. -/
theorem UserHalf.pageNumber_eq_iff {a b : BitVec 64} (ha : UserHalf a) (hb : UserHalf b) :
    pageNumber a = pageNumber b ↔ a.toNat / 4096 = b.toNat / 4096 := by
  have ha' := ha.2
  have hb' := hb.2
  have := a.isLt
  have := b.isLt
  rw [ZohoOs.pageNumber_eq_iff, pageIndex, pageIndex]
  omega

/-! ## Segments -/

/-- The byte a segment gives an address. -/
def ElfPhdr.byteAt (image : Image) (seg : ElfPhdr) (x : Nat) : BitVec 8 :=
  if seg.vaddr.toNat ≤ x ∧ x < seg.vaddr.toNat + seg.filesz.toNat then
    image (seg.offset + BitVec.ofNat 64 (x - seg.vaddr.toNat))
  else 0

/-- The addresses of a segment. -/
def ElfPhdr.Contains (seg : ElfPhdr) (x : Nat) : Prop :=
  seg.vaddr.toNat ≤ x ∧ x < seg.vaddr.toNat + seg.memsz.toNat

/-- A segment that lies in the file and in the user half. -/
structure ElfPhdr.Valid (size : Nat) (seg : ElfPhdr) : Prop where
  filesz_le : seg.filesz.toNat ≤ seg.memsz.toNat
  inFile : seg.offset.toNat + seg.filesz.toNat ≤ size
  noWrap : seg.vaddr.toNat + seg.memsz.toNat ≤ 2 ^ 64
  user : UserHalf seg.vaddr
  userAll : ∀ k < seg.memsz.toNat, UserHalf (seg.vaddr + BitVec.ofNat 64 k)

section Segment

variable {size : Nat} {seg : ElfPhdr}

theorem toNat_4095 : (4095 : BitVec 64).toNat = 4095 := rfl

theorem toNat_4096 : (4096 : BitVec 64).toNat = 4096 := rfl

/-- The number of a segment's pages. -/
theorem ElfPhdr.Valid.numPages (h : seg.Valid size) : seg.numPages.toNat =
    (seg.vaddr.toNat + seg.memsz.toNat + 4095) / 4096 - seg.vaddr.toNat / 4096 := by
  have hwrap := h.noWrap
  have hge := h.user.ge
  have := seg.vaddr.isLt
  have := seg.memsz.isLt
  simp only [ElfPhdr.numPages, BitVec.toNat_udiv, BitVec.toNat_sub, and_page_toNat,
    BitVec.toNat_add, toNat_4095, toNat_4096]
  omega

/-- The pages of a segment follow one another. -/
theorem ElfPhdr.Valid.vpage (h : seg.Valid size) {p : Nat} (hp : p < seg.numPages.toNat) :
    (seg.vpage p).toNat = (seg.vaddr.toNat / 4096 + p) * 4096 := by
  have hwrap := h.noWrap
  have := seg.vaddr.isLt
  rw [h.numPages] at hp
  simp only [ElfPhdr.vpage, BitVec.toNat_add, and_page_toNat, BitVec.toNat_mul, BitVec.toNat_ofNat,
    toNat_4096]
  omega

/-- Each page of a segment in the user half is in the user half. -/
theorem ElfPhdr.Valid.vpage_user (h : seg.Valid size) {p : Nat} (hp : p < seg.numPages.toNat) :
    UserHalf (seg.vpage p) := by
  have hwrap := h.noWrap
  have hvpage := h.vpage hp
  rw [h.numPages] at hp
  cases p with
  | zero => exact h.user.of_page (by omega)
  | succ p =>
    -- the first address of a later page is one of the segment
    have hk : (seg.vaddr.toNat / 4096 + (p + 1)) * 4096 - seg.vaddr.toNat < seg.memsz.toNat := by
      omega
    refine (h.userAll _ hk).of_page ?_
    have := (seg.vpage (p + 1)).isLt
    rw [BitVec.toNat_add, BitVec.toNat_ofNat]
    omega

/-- A segment of canonical addresses is in one half. -/
theorem ElfPhdr.Valid.memsz_le (h : seg.Valid size) : seg.memsz.toNat ≤ 2 ^ 47 := by
  have huser := h.user.2
  have hwrap := h.noWrap
  by_contra hlt
  rcases huser with hlow | hhigh
  · have hgap := (h.userAll (2 ^ 47 - seg.vaddr.toNat) (by omega)).2
    rw [BitVec.toNat_add, BitVec.toNat_ofNat] at hgap
    omega
  · omega

/-- Where the copy into a page of the segment starts in the page. -/
def ElfPhdr.copyStart (seg : ElfPhdr) (p : Nat) : Nat := if p = 0 then seg.vaddr.toNat % 4096 else 0

/-- How far into the segment it starts. -/
def ElfPhdr.copyFrom (seg : ElfPhdr) (p : Nat) : Nat := p * 4096 - seg.vaddr.toNat % 4096

/-- The lesser of two words. -/
theorem toNat_clamp (a b : BitVec 64) :
    (if a > b then b else a).toNat = min a.toNat b.toNat := by
  split
  · next h =>
    rw [gt_iff_lt, BitVec.lt_def] at h
    exact (min_eq_right h.le).symm
  · next h =>
    rw [gt_iff_lt, BitVec.lt_def] at h
    exact (min_eq_left (not_lt.mp h)).symm

theorem ElfPhdr.copyStart_toNat (seg : ElfPhdr) (p : Nat) :
    (if p = 0 then seg.vaddr &&& 0xFFF else 0).toNat = seg.copyStart p := by
  unfold ElfPhdr.copyStart
  split
  · exact and_offset_toNat _
  · rfl

theorem ElfPhdr.copySize_toNat (seg : ElfPhdr) (p : Nat) :
    (if p = 0 then 4096 - (if p = 0 then seg.vaddr &&& 0xFFF else 0)
      else (4096 : BitVec 64)).toNat = 4096 - seg.copyStart p := by
  have hoff : (seg.vaddr &&& 0xFFF).toNat = seg.vaddr.toNat % 4096 := and_offset_toNat _
  unfold ElfPhdr.copyStart
  split
  · rw [BitVec.toNat_sub, hoff, toNat_4096]
    omega
  · rfl

theorem ElfPhdr.copySource_eq (seg : ElfPhdr) {p : Nat} (hp : p < 2 ^ 51) :
    (if p = 0 then seg.offset + BitVec.ofNat 64 p * 4096
      else seg.offset + BitVec.ofNat 64 p * 4096 - (seg.vaddr &&& 0xFFF)) =
        seg.offset + BitVec.ofNat 64 (seg.copyFrom p) := by
  have hoff : (seg.vaddr &&& 0xFFF).toNat = seg.vaddr.toNat % 4096 := and_offset_toNat _
  refine BitVec.eq_of_toNat_eq ?_
  unfold ElfPhdr.copyFrom
  split
  · next hzero =>
    subst hzero
    simp
  · have := seg.offset.isLt
    simp only [BitVec.toNat_sub, BitVec.toNat_add, BitVec.toNat_mul, BitVec.toNat_ofNat, hoff,
      toNat_4096]
    omega

/-- What `elf_load` copies into a page, as numbers. -/
theorem ElfPhdr.Valid.copyPage (h : seg.Valid size) (hsize : size ≤ 2 ^ 63) (image : Image)
    {p : Nat} (hp : p < seg.numPages.toNat) (page : Page) :
    seg.copyPage image p page = page.copyBytes (seg.copyStart p)
      (fun i => image (seg.offset + BitVec.ofNat 64 (seg.copyFrom p + i)))
      (min (seg.filesz.toNat - seg.copyFrom p) (4096 - seg.copyStart p)) := by
  have hmem := h.memsz_le
  have hfile := h.inFile
  have hle := h.filesz_le
  have := seg.vaddr.isLt
  rw [h.numPages] at hp
  -- none of the sums of the loader wraps
  have hfrom : seg.copyFrom p ≤ 2 ^ 48 := by
    unfold ElfPhdr.copyFrom
    omega
  have hsrcNat : (seg.offset + BitVec.ofNat 64 (seg.copyFrom p)).toNat =
      seg.offset.toNat + seg.copyFrom p := by
    rw [BitVec.toNat_add, BitVec.toNat_ofNat]
    omega
  have hend : (seg.offset + seg.filesz).toNat = seg.offset.toNat + seg.filesz.toNat := by
    rw [BitVec.toNat_add]
    omega
  have hbytes : (fun i => image (seg.offset + BitVec.ofNat 64 (seg.copyFrom p) +
      BitVec.ofNat 64 i)) = fun i => image (seg.offset + BitVec.ofNat 64 (seg.copyFrom p + i)) := by
    funext i
    rw [BitVec.add_assoc, BitVec.ofNat_add]
  simp only [ElfPhdr.copyPage, seg.copySource_eq (show p < 2 ^ 51 by omega), hbytes, toNat_clamp,
    seg.copyStart_toNat, seg.copySize_toNat]
  -- the page has bytes of the file, or is behind all of them
  by_cases hlt : seg.copyFrom p < seg.filesz.toNat
  · have hrest : (seg.offset + seg.filesz -
        (seg.offset + BitVec.ofNat 64 (seg.copyFrom p))).toNat =
          seg.filesz.toNat - seg.copyFrom p := by
      rw [BitVec.toNat_sub, hsrcNat, hend]
      omega
    rw [if_pos (by rw [BitVec.lt_def, hsrcNat, hend]; omega), hrest]
  · rw [if_neg (by rw [BitVec.lt_def, hsrcNat, hend]; omega),
      show min (seg.filesz.toNat - seg.copyFrom p) (4096 - seg.copyStart p) = 0 by omega]
    rfl

/-- **The bytes of one page of a segment.** -/
theorem ElfPhdr.Valid.byte_copyPage (h : seg.Valid size) (hsize : size ≤ 2 ^ 63) (image : Image)
    {p : Nat} (hp : p < seg.numPages.toNat) {off : Nat} (hoff : off < 4096) :
    (seg.copyPage image p fun _ => 0#64).byte off =
      seg.byteAt image ((seg.vaddr.toNat / 4096 + p) * 4096 + off) := by
  have hstart : seg.copyStart p ≤ 4096 := by
    unfold ElfPhdr.copyStart
    split <;> omega
  rw [h.copyPage hsize image hp, Page.byte_copyBytes _ _ (by omega) hoff, Page.byte_zero,
    ElfPhdr.byteAt]
  have hiff : (seg.copyStart p ≤ off ∧ off < seg.copyStart p +
      min (seg.filesz.toNat - seg.copyFrom p) (4096 - seg.copyStart p)) ↔
        seg.vaddr.toNat ≤ (seg.vaddr.toNat / 4096 + p) * 4096 + off ∧
          (seg.vaddr.toNat / 4096 + p) * 4096 + off < seg.vaddr.toNat + seg.filesz.toNat := by
    unfold ElfPhdr.copyStart ElfPhdr.copyFrom
    split <;> omega
  simp only [hiff]
  split
  · next hin =>
    congr 3
    unfold ElfPhdr.copyStart ElfPhdr.copyFrom
    split <;> omega
  · rfl

/-! ## The last segment over a page -/

/-- `elf_load` maps this page for the segment. -/
def ElfPhdr.Covers (seg : ElfPhdr) (n : Nat) : Prop :=
  seg.vaddr.toNat / 4096 ≤ n ∧ n < (seg.vaddr.toNat + seg.memsz.toNat + 4095) / 4096

instance ElfPhdr.decidableCovers (seg : ElfPhdr) (n : Nat) : Decidable (seg.Covers n) :=
  inferInstanceAs (Decidable (_ ∧ _))

/-- The last segment for which `elf_load` maps the page. -/
def Image.lastOver (image : Image) (n : Nat) : Option ElfPhdr :=
  (image.segments.filter fun seg => seg.Covers n).getLast?

theorem ElfPhdr.Valid.lastWrite_pages (h : seg.Valid size) {x : BitVec 64} (hx : UserHalf x)
    {count : Nat} (hcount : count ≤ seg.numPages.toNat) :
    lastWrite loadKey ((List.range count).map (seg, ·)) (pageNumber x) =
      if seg.vaddr.toNat / 4096 ≤ x.toNat / 4096 ∧
          x.toNat / 4096 < seg.vaddr.toNat / 4096 + count then
        some (seg, x.toNat / 4096 - seg.vaddr.toNat / 4096)
      else none := by
  induction count with
  | zero => rw [if_neg (by omega)]; rfl
  | succ count ih =>
    rw [List.range_succ, List.map_append, List.map_cons, List.map_nil, lastWrite_concat,
      ih (by omega)]
    have hkey : loadKey (seg, count) = pageNumber x ↔
        seg.vaddr.toNat / 4096 + count = x.toNat / 4096 := by
      have hp : count < seg.numPages.toNat := hcount
      rw [loadKey, (h.vpage_user hp).pageNumber_eq_iff hx, h.vpage hp,
        Nat.mul_div_cancel _ (by decide)]
    by_cases hat : seg.vaddr.toNat / 4096 + count = x.toNat / 4096
    · rw [if_pos (hkey.mpr hat), if_pos (by omega), ← hat, Nat.add_sub_cancel_left]
    · rw [if_neg fun hk => hat (hkey.mp hk)]
      by_cases hin : seg.vaddr.toNat / 4096 ≤ x.toNat / 4096 ∧
          x.toNat / 4096 < seg.vaddr.toNat / 4096 + count
      · rw [if_pos hin, if_pos (by omega)]
      · rw [if_neg hin, if_neg (by omega)]

/-- What is loaded last into a page is loaded for the last segment over it. -/
theorem lastWrite_segments {segs : List ElfPhdr} (hvalid : ∀ seg ∈ segs, seg.Valid size)
    {x : BitVec 64} (hx : UserHalf x) :
    lastWrite loadKey
      (segs.flatMap fun seg => (List.range seg.numPages.toNat).map (seg, ·)) (pageNumber x) =
      ((segs.filter fun seg => seg.Covers (x.toNat / 4096)).getLast?).map fun seg =>
        (seg, x.toNat / 4096 - seg.vaddr.toNat / 4096) := by
  induction segs using List.reverseRecOn with
  | nil => rfl
  | append_singleton segs seg ih =>
    have hseg := hvalid seg (by simp)
    have hpages := hseg.lastWrite_pages hx le_rfl
    have hcovers : (seg.vaddr.toNat / 4096 ≤ x.toNat / 4096 ∧
        x.toNat / 4096 < seg.vaddr.toNat / 4096 + seg.numPages.toNat) ↔
          seg.Covers (x.toNat / 4096) := by
      rw [hseg.numPages, ElfPhdr.Covers]
      omega
    simp only [hcovers] at hpages
    rw [List.flatMap_append, List.flatMap_singleton, lastWrite_append, hpages,
      ih fun s hs => hvalid s (by simp [hs]), List.filter_append]
    by_cases hc : seg.Covers (x.toNat / 4096)
    · rw [if_pos hc, List.filter_cons_of_pos (by simpa using hc), List.filter_nil,
        List.getLast?_concat]
      rfl
    · rw [if_neg hc, List.filter_cons_of_neg (by simpa using hc), List.filter_nil,
        List.append_nil]
      rfl

end Segment

/-! ## The images -/

/-- The byte of a segment at a distance from its start: from the file, or zero. -/
def ElfPhdr.fileByte (image : Image) (seg : ElfPhdr) (k : Nat) : BitVec 8 :=
  if k < seg.filesz.toNat then image (seg.offset + BitVec.ofNat 64 k) else 0

/-- **The images a linker writes**, in a file of `size` bytes: the magic number, and segments that
lie in the file and in the user half, no two of them over one address. -/
structure Image.WellFormed (size : Nat) (image : Image) : Prop where
  magic : image.header.magic = elfMagic
  size_le : size ≤ 2 ^ 63
  valid : ∀ seg ∈ image.segments, seg.Valid size
  disjoint : image.segments.Pairwise fun a b => ∀ x, ¬ (a.Contains x ∧ b.Contains x)

/-- **The space holds the program**: each address of a segment reads its byte of the file, or zero
past its end, and takes stores if the segment is writable. -/
def Image.Correct (image : Image) (r : Nat) (s : Vmm) : Prop :=
  ∀ seg ∈ image.segments, ∀ k < seg.memsz.toNat,
    readByte s r (seg.vaddr + BitVec.ofNat 64 k) = some (seg.fileByte image k) ∧
      (seg.flags &&& 2 ≠ 0 →
        hasFlag (vmmGetFlags s r (seg.vaddr + BitVec.ofNat 64 k)) pageWritable = true)

/-- **No segment loses anything to a later one**: the last segment over a page that holds an address
of a segment is that segment, or the byte there is zero and the flag is kept. -/
def Image.Intact (image : Image) : Prop :=
  ∀ seg ∈ image.segments, ∀ k < seg.memsz.toNat, ∀ last,
    image.lastOver ((seg.vaddr.toNat + k) / 4096) = some last → last = seg ∨
      (seg.fileByte image k = 0 ∧ (seg.flags &&& 2 ≠ 0 → last.flags &&& 2 ≠ 0))

theorem ElfPhdr.pageFlags_writable (seg : ElfPhdr) :
    hasFlag seg.pageFlags pageWritable = true ↔ seg.flags &&& 2 ≠ 0 := by
  unfold ElfPhdr.pageFlags
  split
  · next h => exact ⟨fun _ => h, fun _ => by decide⟩
  · next h => exact ⟨fun hc => absurd hc (by decide), fun hc => absurd hc h⟩

namespace Image.WellFormed

variable {image : Image} {size : Nat} {seg last : ElfPhdr} {k : Nat}

/-- The address of a byte of a segment. -/
theorem toNat_add (h : image.WellFormed size) (hseg : seg ∈ image.segments)
    (hk : k < seg.memsz.toNat) :
    (seg.vaddr + BitVec.ofNat 64 k).toNat = seg.vaddr.toNat + k := by
  have hwrap := (h.valid seg hseg).noWrap
  rw [BitVec.toNat_add, BitVec.toNat_ofNat]
  omega

/-- Some segment is the last one over the page of an address. -/
theorem exists_lastOver (hseg : seg ∈ image.segments) (hk : k < seg.memsz.toNat) :
    ∃ last, image.lastOver ((seg.vaddr.toNat + k) / 4096) = some last := by
  have hcovers : seg.Covers ((seg.vaddr.toNat + k) / 4096) := by
    unfold ElfPhdr.Covers
    omega
  have hmem : seg ∈ image.segments.filter fun other =>
      other.Covers ((seg.vaddr.toNat + k) / 4096) := by
    simpa using ⟨hseg, hcovers⟩
  unfold Image.lastOver
  exact ⟨_, List.getLast?_eq_some_getLast (List.ne_nil_of_mem hmem)⟩

/-- What the last segment over a page puts at an address of another is zero. -/
theorem byteAt_last (h : image.WellFormed size) (hseg : seg ∈ image.segments)
    (hk : k < seg.memsz.toNat) (hlast : last ∈ image.segments) :
    last.byteAt image (seg.vaddr.toNat + k) = if last = seg then seg.fileByte image k else 0 := by
  unfold ElfPhdr.byteAt ElfPhdr.fileByte
  by_cases heq : last = seg
  · subst heq
    rw [if_pos rfl, Nat.add_sub_cancel_left]
    by_cases hfile : k < last.filesz.toNat
    · rw [if_pos (by omega), if_pos hfile]
    · rw [if_neg (by omega), if_neg hfile]
  · rw [if_neg heq, if_neg]
    rintro ⟨hlo, hhi⟩
    have hdisjoint : ∀ x, ¬ (last.Contains x ∧ seg.Contains x) := by
      have hsymm : Std.Symm fun a b : ElfPhdr => ∀ x, ¬ (a.Contains x ∧ b.Contains x) :=
        ⟨fun a b hab x hx => hab x hx.symm⟩
      exact h.disjoint.forall hlast hseg heq
    have hle := (h.valid last hlast).filesz_le
    exact hdisjoint _ ⟨⟨hlo, by omega⟩, by omega, by omega⟩

/-- **What the loaded space reads at an address of a segment**: the byte of the last segment over its
page. -/
theorem reads (h : image.WellFormed size) {r : Nat} {live : Finset Nat} {s : Vmm}
    (hload : Loaded live r image.contents s) (hseg : seg ∈ image.segments)
    (hk : k < seg.memsz.toNat) (hlast : image.lastOver ((seg.vaddr.toNat + k) / 4096) = some last) :
    readByte s r (seg.vaddr + BitVec.ofNat 64 k) =
        some (if last = seg then seg.fileByte image k else 0) ∧
      (hasFlag (vmmGetFlags s r (seg.vaddr + BitVec.ofNat 64 k)) pageWritable = true ↔
        last.flags &&& 2 ≠ 0) := by
  -- the page is in the user's half, and its last segment is the one whose bytes are there
  have huser := (h.valid seg hseg).userAll k hk
  have haddr := h.toNat_add hseg hk
  have hmem := List.mem_of_getLast? hlast
  rw [List.mem_filter] at hmem
  obtain ⟨hlastMem, hcovers⟩ := hmem
  have hcovers : last.Covers ((seg.vaddr.toNat + k) / 4096) := by simpa using hcovers
  have hvalid := h.valid last hlastMem
  have hwrite := lastWrite_segments h.valid huser
  rw [haddr, ← Image.lastOver, hlast, Option.map_some] at hwrite
  -- what was loaded last is a copy of that segment's page
  have hcontents : image.contents (pageNumber (seg.vaddr + BitVec.ofNat 64 k)) =
      some (last.copyPage image ((seg.vaddr.toNat + k) / 4096 - last.vaddr.toNat / 4096)
        fun _ => 0#64, last.pageFlags) := by
    rw [Image.contents, writeAll_apply, Image.loads, hwrite]
    rfl
  obtain ⟨hread, hflags⟩ := hload.reads huser.1 last.pageFlags_low hcontents
  have hpage : (seg.vaddr.toNat + k) / 4096 - last.vaddr.toNat / 4096 < last.numPages.toNat := by
    rw [hvalid.numPages]
    unfold ElfPhdr.Covers at hcovers
    omega
  have hoffset : pageOffset (seg.vaddr + BitVec.ofNat 64 k) = (seg.vaddr.toNat + k) % 4096 := by
    rw [← haddr]
    exact and_offset_toNat _
  -- the byte is the segment's own, or a zero behind it
  constructor
  · rw [hread, hoffset, hvalid.byte_copyPage h.size_le image hpage (Nat.mod_lt _ (by decide)),
      ← h.byteAt_last hseg hk hlastMem]
    congr 2
    unfold ElfPhdr.Covers at hcovers
    omega
  · rw [hflags, ElfPhdr.pageFlags_writable]

/-- No page of a segment is in the kernel's slot. -/
theorem loads_slot (h : image.WellFormed size) : ∀ x ∈ image.loads, (loadKey x).1 ≠ 0 := by
  intro x hx
  simp only [Image.loads, List.mem_flatMap, List.mem_map, List.mem_range] at hx
  obtain ⟨seg, hseg, p, hp, rfl⟩ := hx
  exact ((h.valid seg hseg).vpage_user hp).1

end Image.WellFormed

/-- **The load is correct just for the images that are intact.** -/
theorem elfLoad_correct_iff {s s' : Vmm} {live : Finset Nat} {image : Image} {size r : Nat}
    {entry : BitVec 64} (hwf : Wf s live) (himage : image.WellFormed size)
    (hframes : EnoughFrames image s) (hload : elfLoad image s = (some (entry, r), s')) :
    image.Correct r s' ↔ image.Intact := by
  obtain ⟨r₁, s₁, heq, hloaded⟩ := elfLoad_loaded hwf himage.magic himage.loads_slot hframes
  rw [hload, Prod.mk.injEq, Option.some.injEq, Prod.mk.injEq] at heq
  obtain ⟨⟨-, rfl⟩, rfl⟩ := heq
  constructor
  · intro hcorrect seg hseg k hk last hlast
    obtain ⟨hread, hwritable⟩ := himage.reads hloaded hseg hk hlast
    obtain ⟨hbyte, hflag⟩ := hcorrect seg hseg k hk
    by_cases hsame : last = seg
    · exact Or.inl hsame
    · rw [hread, if_neg hsame, Option.some.injEq] at hbyte
      exact Or.inr ⟨hbyte.symm, fun h => hwritable.mp (hflag h)⟩
  · intro hintact seg hseg k hk
    obtain ⟨last, hlast⟩ := Image.WellFormed.exists_lastOver hseg hk
    obtain ⟨hread, hwritable⟩ := himage.reads hloaded hseg hk hlast
    rcases hintact seg hseg k hk last hlast with rfl | ⟨hzero, hflag⟩
    · exact ⟨by rw [hread, if_pos rfl], hwritable.mpr⟩
    · refine ⟨?_, fun h => hwritable.mpr (hflag h)⟩
      rw [hread, hzero, ite_self]

/-! ## A packed image -/

/-- A file of 178 bytes with program headers for two segments of one byte each in one page: code at
`0x8000000000`, and data at `0x8000000800`. The first `phnum` headers count. -/
def packedImage (phnum : BitVec 8) : Image := fun off =>
  match off.toNat with
  | 0 => 0x7F
  | 1 => 0x45
  | 2 => 0x4C
  | 3 => 0x46
  | 28 => 0x80
  | 32 => 64
  | 54 => 56
  | 56 => phnum
  | 64 => 1
  | 68 => 5
  | 72 => 176
  | 84 => 0x80
  | 96 => 1
  | 104 => 1
  | 120 => 1
  | 124 => 6
  | 128 => 177
  | 137 => 0x08
  | 140 => 0x80
  | 152 => 1
  | 160 => 1
  | 176 => 0xAA
  | 177 => 0xBB
  | _ => 0

/-- The segment of the code. -/
def codeSegment : ElfPhdr := ⟨1, 5, 176, 0x8000000000, 1, 1⟩

/-- The segment of the data. -/
def dataSegment : ElfPhdr := ⟨1, 6, 177, 0x8000000800, 1, 1⟩

theorem codeSegment_valid : codeSegment.Valid 178 := by
  refine ⟨by decide, by decide, by decide, ?_, ?_⟩
  · unfold UserHalf
    decide
  · unfold UserHalf
    decide

theorem dataSegment_valid : dataSegment.Valid 178 := by
  refine ⟨by decide, by decide, by decide, ?_, ?_⟩
  · unfold UserHalf
    decide
  · unfold UserHalf
    decide

theorem packedImage_one : (packedImage 1).WellFormed 178 := by
  have hsegments : (packedImage 1).segments = [codeSegment] := by decide +kernel
  refine ⟨by decide +kernel, by decide, ?_, ?_⟩
  · rw [hsegments]
    simpa using codeSegment_valid
  · rw [hsegments]
    exact List.pairwise_singleton _ _

theorem packedImage_two : (packedImage 2).WellFormed 178 := by
  have hsegments : (packedImage 2).segments = [codeSegment, dataSegment] := by decide +kernel
  refine ⟨by decide +kernel, by decide, ?_, ?_⟩
  · rw [hsegments]
    simpa using ⟨codeSegment_valid, dataSegment_valid⟩
  · rw [hsegments, List.pairwise_pair]
    rintro x ⟨⟨hlo, hhi⟩, hlo', -⟩
    simp only [codeSegment, dataSegment] at hhi hlo'
    exact absurd (lt_of_le_of_lt hlo' hhi) (by decide)

/-- The machine at boot has the frames for either. -/
theorem packedImage_frames {pmm : Pmm} (hwf : Wf (bootWorld pmm).vmm ∅)
    (hstack : pmm.freeStack = bootFrames) :
    EnoughFrames (packedImage 1) (bootWorld pmm).vmm ∧
      EnoughFrames (packedImage 2) (bootWorld pmm).vmm := by
  have hav : (bootWorld pmm).vmm.pmm.Available 8 := by
    rw [Pmm.Available, show (bootWorld pmm).vmm.pmm.freeStack = bootFrames from hstack]
    decide
  have hone : (packedImage 1).loads = [(codeSegment, 0)] := by decide +kernel
  have htwo : (packedImage 2).loads = [(codeSegment, 0), (dataSegment, 0)] := by decide +kernel
  have hcreate := vmmCreateAddressSpace_available hav
  have hloaded := loaded_create hwf (hav.mono (by decide))
  have hfirst := hcreate.mono (show (vmmCreateAddressSpace (bootWorld pmm).vmm).2.mapNeeds
    (vmmCreateAddressSpace (bootWorld pmm).vmm).1 (loadKey (codeSegment, 0)) + 1 ≤ 7 from
      Nat.succ_le_succ ((Vmm.mapNeeds_le _ _ _).trans (by decide)))
  refine ⟨⟨hav.mono (by decide), ?_⟩, hav.mono (by decide), ?_⟩
  · rw [hone]
    exact ⟨hfirst, trivial⟩
  · rw [htwo]
    refine ⟨hfirst, ?_, trivial⟩
    -- the tables over the page are there by now
    have hpage := hloaded.loadPage (packedImage 2) codeSegment 0 (by decide) hfirst
    have htable := hpage.table_ne_none (Function.update_self _ _ _)
    obtain ⟨pt, hpt⟩ := Option.ne_none_iff_exists'.mp htable
    have hneeds := Vmm.mapNeeds_of_table hpt
    have hkey : pageNumber (codeSegment.vpage 0) = loadKey (dataSegment, 0) := by decide +kernel
    rw [hkey] at hneeds
    refine (elfLoadPage_available (n := 3) hcreate _ _ _ _).mono ?_
    rw [hneeds]
    decide

/-- A file with one segment of one byte is loaded at boot. -/
theorem elfLoad_correct_iff_boot : ∃ pmm r s', pmmInit bootMachine 0x106000 = some pmm ∧
    elfLoad (packedImage 1) (bootWorld pmm).vmm = (some (0x8000000000, r), s') ∧
    (packedImage 1).Correct r s' := by
  obtain ⟨pmm, h, hstack⟩ := pmmInit_bootMachine
  have hwf := bootWorld_wf h hstack
  have hmagic := packedImage_one.magic
  have hsegments : (packedImage 1).segments = [codeSegment] := by decide +kernel
  have hload := elfLoad_eq hmagic (bootWorld pmm).vmm
  refine ⟨pmm, _, _, h, hload, ?_⟩
  refine (elfLoad_correct_iff hwf packedImage_one (packedImage_frames hwf hstack).1 hload).mpr ?_
  intro seg hseg k _ last hlast
  have hmem := (List.mem_filter.mp (List.mem_of_getLast? hlast)).1
  rw [hsegments, List.mem_singleton] at hseg hmem
  exact Or.inl (hmem.trans hseg.symm)

/-- **The second segment of a page takes it over.** The code of the packed image reads zero. -/
theorem elfLoad_loses : ∃ pmm r s', pmmInit bootMachine 0x106000 = some pmm ∧
    Wf (bootWorld pmm).vmm (bootWorld pmm).live ∧ (packedImage 2).WellFormed 178 ∧
    EnoughFrames (packedImage 2) (bootWorld pmm).vmm ∧
    elfLoad (packedImage 2) (bootWorld pmm).vmm = (some (0x8000000000, r), s') ∧
    codeSegment ∈ (packedImage 2).segments ∧ codeSegment.fileByte (packedImage 2) 0 = 0xAA ∧
    readByte s' r codeSegment.vaddr = some 0 ∧ ¬ (packedImage 2).Correct r s' := by
  obtain ⟨pmm, h, hstack⟩ := pmmInit_bootMachine
  have hwf := bootWorld_wf h hstack
  have hframes := (packedImage_frames hwf hstack).2
  have hsegments : (packedImage 2).segments = [codeSegment, dataSegment] := by decide +kernel
  have hcode : codeSegment ∈ (packedImage 2).segments := by
    rw [hsegments]
    exact List.mem_cons_self
  have hbyte : codeSegment.fileByte (packedImage 2) 0 = 0xAA := by decide +kernel
  have hlast : (packedImage 2).lastOver ((codeSegment.vaddr.toNat + 0) / 4096) =
      some dataSegment := by
    rw [Image.lastOver, hsegments]
    decide +kernel
  obtain ⟨r, s', hload, hloaded⟩ :=
    elfLoad_loaded hwf packedImage_two.magic packedImage_two.loads_slot hframes
  obtain ⟨hread, -⟩ := packedImage_two.reads hloaded hcode (by decide) hlast
  rw [if_neg (by decide)] at hread
  refine ⟨pmm, r, s', h, hwf, packedImage_two, hframes, ?_, hcode, hbyte, hread, fun hcorrect => ?_⟩
  · exact hload
  · have hbyte' := (hcorrect codeSegment hcode 0 (by decide)).1
    rw [hread, hbyte] at hbyte'
    exact absurd hbyte' (by decide)

end ZohoOs
