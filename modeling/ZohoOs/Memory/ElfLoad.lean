import ZohoOs.Lib.LastWrite
import ZohoOs.Memory.PageMap

/-!
# The ELF loader

`elf_load` maps each page of each loadable segment to a fresh frame, zeroes it, and copies the bytes
of the file that fall into it. The file is read where the caller has put it, by the offset of each
byte; it lies in no frame the loader is given.

## Main definitions

* `Image`, `ElfHeader`, `ElfPhdr`: the file and its headers
* `elfLoadPage`, `elfLoad`: the loader
* `Loaded`: a space whose pages have certain contents and flags

## Main results

* `Page.byte_copyBytes`: the bytes of a page after `memcpy`
* `Loaded.loadPage`: loading a page sets its contents and flags
* `elfLoad_loaded`: the pages after `elf_load`
-/

namespace ZohoOs

open LastWrite TransitionSystem

/-! ## The file -/

/-- The bytes at `elf_data`, by their offset. -/
abbrev Image := BitVec 64 → BitVec 8

def Image.u16 (image : Image) (off : BitVec 64) : BitVec 16 := image (off + 1) ++ image off

def Image.u32 (image : Image) (off : BitVec 64) : BitVec 32 := image.u16 (off + 2) ++ image.u16 off

def Image.u64 (image : Image) (off : BitVec 64) : BitVec 64 := image.u32 (off + 4) ++ image.u32 off

/-- `ELF_MAGIC`. -/
abbrev elfMagic : BitVec 32 := 0x464C457F

/-- `PT_LOAD`. -/
abbrev ptLoad : BitVec 32 := 1

/-- The fields of `elf_header_t` that `elf_load` reads. -/
structure ElfHeader where
  magic : BitVec 32
  entry : BitVec 64
  phoff : BitVec 64
  phentsize : BitVec 16
  phnum : BitVec 16

/-- The fields of `elf_phdr_t` that `elf_load` reads. -/
structure ElfPhdr where
  type : BitVec 32
  flags : BitVec 32
  offset : BitVec 64
  vaddr : BitVec 64
  filesz : BitVec 64
  memsz : BitVec 64
  deriving DecidableEq

def Image.header (image : Image) : ElfHeader where
  magic := image.u32 0
  entry := image.u64 24
  phoff := image.u64 32
  phentsize := image.u16 54
  phnum := image.u16 56

/-- The program header at an offset. -/
def Image.phdrAt (image : Image) (off : BitVec 64) : ElfPhdr where
  type := image.u32 off
  flags := image.u32 (off + 4)
  offset := image.u64 (off + 8)
  vaddr := image.u64 (off + 16)
  filesz := image.u64 (off + 32)
  memsz := image.u64 (off + 40)

/-- The `i`-th program header. -/
def Image.phdr (image : Image) (i : Nat) : ElfPhdr :=
  image.phdrAt (image.header.phoff + BitVec.ofNat 64 (i * image.header.phentsize.toNat))

/-! ## The loader -/

/-- `memcpy` into a page, of the first `count` bytes of `src`. -/
def Page.copyBytes (page : Page) (dst : Nat) (src : Nat → BitVec 8) : Nat → Page
  | 0 => page
  | count + 1 => (page.copyBytes dst src count).setByte (dst + count) (src count)

/-- The flags of a segment's pages. -/
def ElfPhdr.pageFlags (phdr : ElfPhdr) : BitVec 64 :=
  if phdr.flags &&& 2 ≠ 0 then pageUser ||| pageWritable else pageUser

/-- `num_pages`. -/
def ElfPhdr.numPages (phdr : ElfPhdr) : BitVec 64 :=
  let vaddrEnd := phdr.vaddr + phdr.memsz
  let pageStart := phdr.vaddr &&& ~~~0xFFF#64
  let pageEnd := (vaddrEnd + 4095) &&& ~~~0xFFF#64
  (pageEnd - pageStart) / 4096

/-- `current_vpage`. -/
def ElfPhdr.vpage (phdr : ElfPhdr) (p : Nat) : BitVec 64 :=
  (phdr.vaddr &&& ~~~0xFFF#64) + BitVec.ofNat 64 p * 4096

/-- What `elf_load` copies from the file into the `p`-th page of a segment. -/
def ElfPhdr.copyPage (image : Image) (phdr : ElfPhdr) (p : Nat) (page : Page) : Page :=
  let copyOffsetInPage := if p = 0 then phdr.vaddr &&& 0xFFF else 0
  let copySize := if p = 0 then 4096 - copyOffsetInPage else 4096
  let copySrcOffset := phdr.offset + BitVec.ofNat 64 p * 4096
  let copySrcOffset := if p = 0 then copySrcOffset else copySrcOffset - (phdr.vaddr &&& 0xFFF)
  if copySrcOffset < phdr.offset + phdr.filesz then
    let bytesFromFile := phdr.offset + phdr.filesz - copySrcOffset
    let bytesFromFile := if bytesFromFile > copySize then copySize else bytesFromFile
    page.copyBytes copyOffsetInPage.toNat (fun i => image (copySrcOffset + BitVec.ofNat 64 i))
      bytesFromFile.toNat
  else page

/-- The body of the loop over the pages of a segment. -/
def elfLoadPage (image : Image) (pml4 : Nat) (phdr : ElfPhdr) (s : Vmm) (p : Nat) : Vmm :=
  let (frame, pmm) := pmmAllocFrame s.pmm
  let s := vmmMap { s with pmm } pml4 (phdr.vpage p) (BitVec.ofNat 64 frame) phdr.pageFlags
  let s := s.fill frame fun _ => 0#64
  s.fill frame (phdr.copyPage image p (s.mem frame))

/-- The body of the loop over the program headers. -/
def elfLoadPhdr (image : Image) (pml4 : Nat) (s : Vmm) (phdr : ElfPhdr) : Vmm :=
  if phdr.type = ptLoad then
    (List.range phdr.numPages.toNat).foldl (elfLoadPage image pml4 phdr) s
  else s

/-- `elf_load`: the entry point and the new space, or `none` where it returns false. -/
def elfLoad (image : Image) (s : Vmm) : Option (BitVec 64 × Nat) × Vmm :=
  if image.header.magic ≠ elfMagic then (none, s)
  else
    let (pml4, s) := vmmCreateAddressSpace s
    (some (image.header.entry, pml4),
      (List.range image.header.phnum.toNat).foldl
        (fun s i => elfLoadPhdr image pml4 s (image.phdr i)) s)

/-! ## Bytes of a page -/

/-- **The bytes of a page after `memcpy`.** -/
theorem Page.byte_copyBytes (page : Page) {dst count : Nat} (src : Nat → BitVec 8)
    (hfit : dst + count ≤ 4096) {off : Nat} (hoff : off < 4096) :
    (page.copyBytes dst src count).byte off =
      if dst ≤ off ∧ off < dst + count then src (off - dst) else page.byte off := by
  induction count with
  | zero => rw [Page.copyBytes, if_neg (by omega)]
  | succ count ih =>
    rw [Page.copyBytes, Page.byte_setByte _ (by omega) hoff, ih (by omega)]
    by_cases hlast : off = dst + count
    · subst hlast
      rw [if_pos rfl, if_pos (by omega), Nat.add_sub_cancel_left]
    · rw [if_neg hlast]
      by_cases hin : dst ≤ off ∧ off < dst + count
      · rw [if_pos hin, if_pos (by omega)]
      · rw [if_neg hin, if_neg (by omega)]

@[simp] theorem Page.byte_zero (off : Nat) : Page.byte (fun _ => 0#64) off = 0#8 := by
  simp [Page.byte]

/-! ## Loaded pages -/

/-- The pages of a space, with their contents and flags. -/
abbrev PageContents := PageNumber → Option (Page × BitVec 64)

/-- **The space `r` has these pages**, each on a frame of its own, which is in use. -/
structure Loaded (live : Finset Nat) (r : Nat) (m : PageContents) (s : Vmm) : Prop where
  wf : Wf s live
  root : r ∈ live
  pde : ∀ q, hasFlag (s.pde r q) pageHuge = false
  page : ∀ q page flags, m q = some (page, flags) → ∃ frame, InUse s live frame ∧
    s.mem frame = page ∧ frame % pageSize = 0 ∧ frame < 2 ^ 64 ∧
      s.pte r q = pageEntry (BitVec.ofNat 64 frame) flags

section Loading

variable {s s' : Vmm} {live : Finset Nat} {r : Nat} {virt phys flags : BitVec 64}
  {m : PageContents}

/-- A walk of `vmmMap` that has the frames it needs ends in a write to the page table. -/
theorem vmmMap_page (h : Wf s live) (hr : r ∈ live) (hslot : pml4Index virt ≠ 0)
    (hpde : ∀ q, hasFlag (s.pde r q) pageHuge = false) (hsmall : hasFlag flags pageHuge = false)
    (hav : s.pmm.Available (s.mapNeeds r (pageNumber virt))) (phys : BitVec 64) :
    ∃ s₁ pt, LinkSteps live r s s₁ ∧ s₁.table r (pageNumber virt).path = some pt ∧
      vmmMap s r virt phys flags = s₁.write pt (pageNumber virt).2.2.2 (pageEntry phys flags) := by
  exact (vmmMap_result h hr hslot hpde phys flags).of_available hav hsmall

/-- A page that is in use stays so, and keeps its contents, when another is mapped. -/
theorem InUse.write {a pt : Nat} {q : PageNumber} {e : BitVec 64} (h : InUse s live a)
    (hwf : Wf s live) (hr : r ∈ live) (hpt : s.table r q.path = some pt) :
    InUse (s.write pt q.2.2.2 e) live a ∧ (s.write pt q.2.2.2 e).mem a = s.mem a := by
  have hroot := Vmm.mem_roots (s := s) hr
  have hset := (WriteLeaf.of_page hwf hroot hpt e).pteSet
  refine ⟨⟨h.notFree, fun ht => h.notTable ((hset.isTable a).mp ht)⟩, ?_⟩
  refine Vmm.write_mem_of_table_ne _ _ _ _ ?_
  rintro rfl
  exact h.notTable ⟨r, hroot, _, hpt⟩

/-- A page that is in use is not the one an allocation takes, and stays in use. -/
theorem InUse.alloc {a : Nat} (h : InUse s live a) (hwf : Wf s live)
    (hne : (pmmAllocFrame s.pmm).1 ≠ 0) :
    InUse { s with pmm := (pmmAllocFrame s.pmm).2 } live a ∧ a ≠ (pmmAllocFrame s.pmm).1 := by
  refine ⟨⟨fun hmem => h.notFree ?_, h.notTable⟩, ?_⟩
  · rw [freeStack_alloc] at hmem
    exact List.mem_of_mem_tail hmem
  · rintro rfl
    exact h.notFree (hwf.freshPage hne).free

/-- **A page is mapped to a fresh frame, which is then filled.** -/
theorem Loaded.mapFilled (h : Loaded live r m s) (hslot : pml4Index virt ≠ 0)
    (hsmall : hasFlag flags pageHuge = false)
    (hav : s.pmm.Available (s.mapNeeds r (pageNumber virt) + 1)) (page : Page) :
    Loaded live r (Function.update m (pageNumber virt) (some (page, flags)))
      ((vmmMap { s with pmm := (pmmAllocFrame s.pmm).2 } r virt
        (BitVec.ofNat 64 (pmmAllocFrame s.pmm).1) flags).fill (pmmAllocFrame s.pmm).1 page) := by
  obtain ⟨hne, hav₁⟩ := Pmm.available_succ hav
  have hfresh := h.wf.freshPage hne
  have hroot := h.root
  obtain ⟨s₁, pt, hsteps, hpt, heq⟩ :=
    vmmMap_page h.wf.alloc hroot hslot h.pde hsmall hav₁ (BitVec.ofNat 64 (pmmAllocFrame s.pmm).1)
  rw [heq]
  have hset := EntrySet.of_write (e := pageEntry (BitVec.ofNat 64 (pmmAllocFrame s.pmm).1) flags)
    h.wf.alloc hroot h.pde hsteps hpt
  have hwf₁ := hsteps.wf h.wf.alloc
  generalize hs₂ : s₁.write pt (pageNumber virt).2.2.2
    (pageEntry (BitVec.ofNat 64 (pmmAllocFrame s.pmm).1) flags) = s₂ at hset ⊢
  -- the walk and its write leave what is in use alone
  have hkeep : ∀ a, InUse { s with pmm := (pmmAllocFrame s.pmm).2 } live a →
      InUse s₂ live a ∧ s₂.mem a = s.mem a := by
    intro a ha
    obtain ⟨huse₁, hmem₁⟩ := ha.links hsteps
    obtain ⟨huse₂, hmem₂⟩ := huse₁.write (e := pageEntry _ flags) hwf₁ hroot hpt
    rw [hs₂] at huse₂ hmem₂
    exact ⟨huse₂, hmem₂.trans hmem₁⟩
  have hnew : InUse s₂ live (pmmAllocFrame s.pmm).1 :=
    (hkeep _ ⟨hfresh.taken, hfresh.notTable⟩).1
  have hmem := fun r hr => Vmm.fill_mem_table (r := r) hnew.notTable page hr
  have hpte : ∀ q, (s₂.fill (pmmAllocFrame s.pmm).1 page).pte r q = s₂.pte r q :=
    fun q => Vmm.fill_pte hnew.notTable page hroot q
  refine ⟨?_, hroot, fun q => ?_, fun q page' flags' hq => ?_⟩
  · refine hset.wf.frame rfl (fun t ht => Function.update_of_ne ?_ _ _) hset.wf.stack hset.wf.used
    rintro rfl
    exact hnew.notTable ht
  · have hkr : (s₂.fill (pmmAllocFrame s.pmm).1 page).currentPml4 = s₂.currentPml4 := rfl
    rw [Vmm.pde, Vmm.entry_frame hkr (hmem r hroot)]
    exact hset.pde q
  · rw [Function.update_apply] at hq
    split at hq
    · next hat =>
      obtain ⟨rfl, rfl⟩ := Prod.mk.inj (Option.some.inj hq)
      refine ⟨_, hnew.fill hnew.notTable page, Function.update_self _ _ _, hfresh.aligned,
        lt_trans hfresh.lt (by decide), ?_⟩
      rw [hpte, hset.pte, if_pos hat]
    · next hat =>
      obtain ⟨a, huse, hpage, haligned, hlt, hentry⟩ := h.page q page' flags' hq
      obtain ⟨huse₀, hother⟩ := huse.alloc h.wf hne
      obtain ⟨huse₂, hmem₂⟩ := hkeep a huse₀
      refine ⟨a, huse₂.fill hnew.notTable page, ?_, haligned, hlt, ?_⟩
      · exact (Function.update_of_ne hother _ _).trans (hmem₂.trans hpage)
      · rw [hpte, hset.pte, if_neg hat]
        exact hentry

theorem ElfPhdr.pageFlags_low (phdr : ElfPhdr) : phdr.pageFlags &&& ~~~0xFFF#64 = 0#64 := by
  unfold pageFlags
  split <;> decide

theorem ElfPhdr.pageFlags_small (phdr : ElfPhdr) : hasFlag phdr.pageFlags pageHuge = false := by
  unfold pageFlags
  split <;> decide

/-- Loading a page sets its contents and flags. -/
theorem Loaded.loadPage (h : Loaded live r m s) (image : Image) (phdr : ElfPhdr) (p : Nat)
    (hslot : pml4Index (phdr.vpage p) ≠ 0)
    (hav : s.pmm.Available (s.mapNeeds r (pageNumber (phdr.vpage p)) + 1)) :
    Loaded live r (Function.update m (pageNumber (phdr.vpage p))
      (some (phdr.copyPage image p fun _ => 0#64, phdr.pageFlags)))
      (elfLoadPage image r phdr s p) := by
  have hfill : elfLoadPage image r phdr s p =
      (vmmMap { s with pmm := (pmmAllocFrame s.pmm).2 } r (phdr.vpage p)
        (BitVec.ofNat 64 (pmmAllocFrame s.pmm).1) phdr.pageFlags).fill (pmmAllocFrame s.pmm).1
          (phdr.copyPage image p fun _ => 0#64) := by
    simp only [elfLoadPage, Vmm.fill, Function.update_self, Function.update_idem]
  rw [hfill]
  exact h.mapFilled hslot phdr.pageFlags_small hav _

/-- A page that is there has a page table over it. -/
theorem Loaded.table_ne_none (h : Loaded live r m s) {q : PageNumber} {page : Page}
    (hm : m q = some (page, flags)) : s.table r q.path ≠ none := by
  obtain ⟨frame, -, -, -, -, hpte⟩ := h.page _ _ _ hm
  intro hnone
  have hpres := pageEntry_present (BitVec.ofNat 64 frame) flags
  rw [Vmm.pte, Vmm.entry_of_none hnone] at hpte
  rw [← hpte, zero_hasFlag] at hpres
  cases hpres

/-- **What a space with these pages reads**, and whether a store goes through. -/
theorem Loaded.reads (h : Loaded live r m s) (hslot : pml4Index virt ≠ 0) {page : Page}
    (hlow : flags &&& ~~~0xFFF#64 = 0#64) (hm : m (pageNumber virt) = some (page, flags)) :
    readByte s r virt = some (page.byte (pageOffset virt)) ∧
      hasFlag (vmmGetFlags s r virt) pageWritable = hasFlag flags pageWritable := by
  obtain ⟨frame, -, hmem, haligned, hlt, hpte⟩ := h.page _ _ _ hm
  have howner : s.owner r (pml4Index virt) = r := if_neg hslot
  have hget := vmmGetFlags_eq h.wf (Vmm.mem_roots h.root) howner rfl
  have hphys := vmmGetPhys_eq h.wf (Vmm.mem_roots h.root) howner rfl
  rw [h.pde, if_neg (by simp), hpte] at hget hphys
  have hpres := pageEntry_present (BitVec.ofNat 64 frame) flags
  rw [if_neg (h.table_ne_none hm)] at hphys
  have hpage : physPage s r virt = frame := by
    have hclear : (pageEntry (BitVec.ofNat 64 frame) flags &&& ~~~0xFFF#64 |||
        virt &&& 0xFFF#64) &&& ~~~0xFFF#64 =
          pageEntry (BitVec.ofNat 64 frame) flags &&& ~~~0xFFF#64 := by
      rw [BitVec.and_or_distrib_right, BitVec.and_assoc, BitVec.and_self, BitVec.and_assoc,
        show 0xFFF#64 &&& ~~~0xFFF#64 = 0#64 by decide, BitVec.and_zero, BitVec.or_zero]
    rw [physPage, hphys, hclear, ← pageOf, pageOf_pageEntry hlow, pageOf_ofNat haligned hlt]
  constructor
  · rw [readByte, hget, hasFlag_low _ (by decide), if_pos hpres, hpage, hmem]
  · rw [hget, hasFlag_low _ (by decide), hasFlag_pageEntry (by decide) (by decide)]

end Loading

/-! ## The whole load -/

/-- The loadable segments, in the order of their headers. -/
def Image.segments (image : Image) : List ElfPhdr :=
  ((List.range image.header.phnum.toNat).map image.phdr).filter (·.type = ptLoad)

/-- The pages `elf_load` maps, in order: each a segment and the number of one of its pages. -/
def Image.loads (image : Image) : List (ElfPhdr × Nat) :=
  image.segments.flatMap fun seg => (List.range seg.numPages.toNat).map (seg, ·)

/-- The page of the address space that a load maps. -/
def loadKey (x : ElfPhdr × Nat) : PageNumber := pageNumber (x.1.vpage x.2)

/-- What it puts there. -/
def loadValue (image : Image) (x : ElfPhdr × Nat) : Option (Page × BitVec 64) :=
  some (x.1.copyPage image x.2 fun _ => 0#64, x.1.pageFlags)

/-- The pages of the space after the load. -/
def Image.contents (image : Image) : PageContents :=
  writeAll loadKey (loadValue image) (fun _ => none) image.loads

/-- Enough frames: each page finds one for itself and those for the tables over it. -/
def EnoughFrames (image : Image) (s : Vmm) : Prop :=
  s.pmm.Available 1 ∧
    Allowed (fun t x => t.pmm.Available (t.mapNeeds (vmmCreateAddressSpace s).1 (loadKey x) + 1))
      (fun x t => elfLoadPage image (vmmCreateAddressSpace s).1 x.1 t x.2)
      (vmmCreateAddressSpace s).2 image.loads

theorem elfLoad_eq {image : Image} (hmagic : image.header.magic = elfMagic) (s : Vmm) :
    elfLoad image s = (some (image.header.entry, (vmmCreateAddressSpace s).1),
      image.loads.foldl (fun t x => elfLoadPage image (vmmCreateAddressSpace s).1 x.1 t x.2)
        (vmmCreateAddressSpace s).2) := by
  have hphdr : ∀ (r : Nat) (t : Vmm) (seg : ElfPhdr), seg.type = ptLoad →
      elfLoadPhdr image r t seg = ((List.range seg.numPages.toNat).map (seg, ·)).foldl
        (fun t x => elfLoadPage image r x.1 t x.2) t := by
    intro r t seg hseg
    rw [elfLoadPhdr, if_pos hseg, List.foldl_map]
  have hfold : ∀ (r : Nat) (l : List ElfPhdr) (t : Vmm), l.foldl (elfLoadPhdr image r) t =
      ((l.filter (·.type = ptLoad)).flatMap fun seg =>
        (List.range seg.numPages.toNat).map (seg, ·)).foldl
          (fun t x => elfLoadPage image r x.1 t x.2) t := by
    intro r l
    induction l with
    | nil => exact fun _ => rfl
    | cons seg l ih =>
      intro t
      rw [List.foldl_cons, ih, List.filter_cons]
      by_cases hseg : seg.type = ptLoad
      · rw [if_pos (by simpa using hseg), List.flatMap_cons, List.foldl_append, hphdr r t seg hseg]
      · rw [if_neg (by simpa using hseg), elfLoadPhdr, if_neg hseg]
  simp only [elfLoad, hmagic, ne_eq, not_true, if_false]
  rw [Image.loads, Image.segments, ← hfold, List.foldl_map]

/-- Loading a page takes at most four. -/
theorem elfLoadPage_available {s : Vmm} {n : Nat} (h : s.pmm.Available (n + 4)) (image : Image)
    (r : Nat) (phdr : ElfPhdr) (p : Nat) : (elfLoadPage image r phdr s p).pmm.Available n :=
  vmmMap_available (s := { s with pmm := (pmmAllocFrame s.pmm).2 }) (Pmm.available_succ h).2 r _ _ _

theorem vmmCreateAddressSpace_available {s : Vmm} {n : Nat} (h : s.pmm.Available (n + 1)) :
    (vmmCreateAddressSpace s).2.pmm.Available n := by
  obtain ⟨hne, hav⟩ := Pmm.available_succ h
  simp only [vmmCreateAddressSpace, allocZeroedTable, if_neg hne]
  exact hav

theorem Loaded.foldl {s : Vmm} {live : Finset Nat} {r : Nat} {m : PageContents} {image : Image}
    {l : List (ElfPhdr × Nat)} (h : Loaded live r m s) (hslot : ∀ x ∈ l, (loadKey x).1 ≠ 0)
    (hav : Allowed (fun t x => t.pmm.Available (t.mapNeeds r (loadKey x) + 1))
      (fun x t => elfLoadPage image r x.1 t x.2) s l) :
    Loaded live r (writeAll loadKey (loadValue image) m l)
      (l.foldl (fun t x => elfLoadPage image r x.1 t x.2) s) := by
  induction l generalizing s m with
  | nil => exact h
  | cons x l ih =>
    have hpage := h.loadPage image x.1 x.2 (hslot x List.mem_cons_self) hav.1
    exact ih hpage (fun y hy => hslot y (List.mem_cons_of_mem _ hy)) hav.2

/-- A space just created has no pages. -/
theorem loaded_create {s : Vmm} {live : Finset Nat} (h : Wf s live) (hav : s.pmm.Available 1) :
    Loaded (insert (vmmCreateAddressSpace s).1 live) (vmmCreateAddressSpace s).1 (fun _ => none)
      (vmmCreateAddressSpace s).2 := by
  rcases vmmCreateAddressSpace_cases h with ⟨hzero, -⟩ | ⟨hne, heq⟩
  · exact absurd hzero (Pmm.available_succ hav).1
  · have hcreated := h.create hne
    rw [heq]
    refine ⟨hcreated.wf, Finset.mem_insert_self _ _, fun q => ?_, fun _ _ _ hq => by cases hq⟩
    rw [Vmm.pde, hcreated.entry_new (by simp), zero_hasFlag]

/-- **The pages after `elf_load`**: each holds what the last load of it has put there. -/
theorem elfLoad_loaded {s : Vmm} {live : Finset Nat} {image : Image} (h : Wf s live)
    (hmagic : image.header.magic = elfMagic) (hslot : ∀ x ∈ image.loads, (loadKey x).1 ≠ 0)
    (hav : EnoughFrames image s) : ∃ r s', elfLoad image s = (some (image.header.entry, r), s') ∧
      Loaded (insert r live) r image.contents s' := by
  exact ⟨_, _, elfLoad_eq hmagic s, (loaded_create h hav.1).foldl hslot hav.2⟩

end ZohoOs
