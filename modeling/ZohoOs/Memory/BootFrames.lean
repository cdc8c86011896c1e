import ZohoOs.Memory.Pmm
import Mathlib.Data.List.Nodup

/-!
# The frames that are free after boot

`pmm_init` steps through each region in pages, from the first byte of the region on, which need not
be the first byte of a page. What the steps reach is compared with the frames that are safe to hand
out: those that lie in available memory and hold no byte of the kernel or of the Multiboot2 block.

## Main definitions

* `MultibootInfo.SafeFrame`: a frame that is safe to hand out
* `MmapEntry.Partial`: the pages of a region that its loop frees, and that are not all in it
* `MultibootInfo.MissesLast`: the loop that reserves the block does not come to its last page
* `RoundsSafely`: where the pages at the ends of regions do no harm

## Main results

* `SafeFrame.freeAtBoot`: every safe frame is free
* `pmmInit_safe_iff`: when the free stack holds the safe frames, and no others
-/

namespace ZohoOs

variable {mbInfo : MultibootInfo} {entry : MmapEntry} {kernelEnd f a : Nat}

/-- The byte at an address is one of the frame's. -/
def InFrame (f a : Nat) : Prop := f * pageSize ≤ a ∧ a < (f + 1) * pageSize

/-- The byte at an address lies in an available region. -/
def MultibootInfo.Available (mbInfo : MultibootInfo) (a : Nat) : Prop :=
  ∃ tag ∈ mbInfo.tags, ∃ entry ∈ tag.entries,
    entry.type = 1 ∧ entry.addr ≤ a ∧ a < entry.addr + entry.len

/-- The byte at an address is one of the block's. -/
def MultibootInfo.InBlock (mbInfo : MultibootInfo) (a : Nat) : Prop :=
  mbInfo.address ≤ a ∧ a < mbInfo.address + mbInfo.totalSize

/-- **A frame that is safe to hand out**: below 4 GiB, all of it available, and with no byte of the
kernel or of the block. -/
def MultibootInfo.SafeFrame (mbInfo : MultibootInfo) (kernelEnd f : Nat) : Prop :=
  f < maxFrames ∧ ∀ a, InFrame f a → mbInfo.Available a ∧ kernelEnd ≤ a ∧ ¬ mbInfo.InBlock a

/-- Regions and the block end at addresses of 64 bits. -/
structure MultibootInfo.WellFormed (mbInfo : MultibootInfo) : Prop where
  regions : ∀ tag ∈ mbInfo.tags, ∀ entry ∈ tag.entries, entry.addr + entry.len < 2 ^ 64
  block : mbInfo.address + mbInfo.totalSize < 2 ^ 64

/-- A page that the loop over a region comes to, and that is not all in the region: that of its first
byte, or that behind its last whole page. -/
def MmapEntry.Partial (entry : MmapEntry) (f : Nat) : Prop :=
  0 < entry.len ∧
    (entry.addr % pageSize ≠ 0 ∧ f = entry.addr / pageSize ∨
      entry.addr % pageSize < (entry.addr + entry.len) % pageSize ∧
        f = (entry.addr + entry.len) / pageSize)

/-- The page behind the last whole page of the block. -/
def MultibootInfo.lastPage (mbInfo : MultibootInfo) : Nat :=
  (mbInfo.address + mbInfo.totalSize) / pageSize

/-- The loop that reserves the block stops before the page the block ends in. -/
def MultibootInfo.MissesLast (mbInfo : MultibootInfo) : Prop :=
  0 < mbInfo.totalSize ∧ 0 < (mbInfo.address + mbInfo.totalSize) % pageSize ∧
    (mbInfo.address + mbInfo.totalSize) % pageSize ≤ mbInfo.address % pageSize

/-- **Where the ends of regions do no harm.** -/
structure RoundsSafely (mbInfo : MultibootInfo) (kernelEnd : Nat) : Prop where
  /-- The loops over the regions end. -/
  ends : ∀ tag ∈ mbInfo.tags, ∀ entry ∈ tag.entries, entry.Ends
  /-- What is reserved lies below 4 GiB. -/
  kernel : kernelEnd ≤ maxFrames * pageSize
  block : ∀ x, mbInfo.InBlock x → x % pageSize = mbInfo.address % pageSize →
    x < maxFrames * pageSize
  /-- A page that is not all in its region is in other available regions for the rest, or it is
  reserved. -/
  partials : ∀ tag ∈ mbInfo.tags, ∀ entry ∈ tag.entries, entry.type = 1 → ∀ f < maxFrames,
    entry.Partial f → (∀ a, InFrame f a → mbInfo.Available a) ∨ f * pageSize < kernelEnd ∨
      visits mbInfo.address (mbInfo.address + mbInfo.totalSize) f
  /-- A last page of the block that is missed is not available, or under the kernel. -/
  lastPage : mbInfo.MissesLast → mbInfo.lastPage < maxFrames →
    mbInfo.covers mbInfo.lastPage = false ∨ mbInfo.lastPage * pageSize < kernelEnd

/-! ## The pages the loops come to -/

theorem visits_iff {start stop f : Nat} : visits start stop f = true ↔
    start ≤ f * pageSize + start % pageSize ∧ f * pageSize + start % pageSize < stop := by
  rw [visits, decide_eq_true_eq]

/-- The loop over the kernel comes to the pages that hold a byte of it. -/
theorem visits_kernel : visits 0 kernelEnd f = true ↔ f * pageSize < kernelEnd := by
  rw [visits_iff, Nat.zero_mod, Nat.add_zero]
  exact and_iff_right (Nat.zero_le _)

/-- **What the loop over a region comes to**: pages that are all in it, and partial ones. -/
theorem visits_region : visits entry.addr (entry.addr + entry.len) f = true ↔
    entry.Partial f ∨
      entry.addr ≤ f * pageSize ∧ (f + 1) * pageSize ≤ entry.addr + entry.len := by
  rw [visits_iff, MmapEntry.Partial]
  simp only [pageSize]
  omega

/-- The loop over the block comes to all of its pages, where it does not miss the last. -/
theorem visits_block : (∃ a, InFrame f a ∧ mbInfo.InBlock a) ↔
    visits mbInfo.address (mbInfo.address + mbInfo.totalSize) f = true ∨
      mbInfo.MissesLast ∧ f = mbInfo.lastPage := by
  rw [visits_iff, MultibootInfo.MissesLast, MultibootInfo.lastPage]
  simp only [InFrame, MultibootInfo.InBlock, pageSize]
  constructor
  · rintro ⟨a, ⟨hlo, hhi⟩, hin⟩
    omega
  · intro h
    refine ⟨max (f * 4096) mbInfo.address, ?_, ?_⟩ <;> omega

theorem MultibootInfo.covers_iff (hwf : mbInfo.WellFormed) : mbInfo.covers f = true ↔
    ∃ tag ∈ mbInfo.tags, ∃ entry ∈ tag.entries, entry.type = 1 ∧
      visits entry.addr (entry.addr + entry.len) f = true := by
  simp only [MultibootInfo.covers, MultibootTag.covers, MmapEntry.covers, List.any_eq_true,
    Bool.and_eq_true, beq_iff_eq]
  constructor
  · rintro ⟨tag, ht, entry, he, htype, hvisit⟩
    rw [Nat.mod_eq_of_lt (hwf.regions tag ht entry he)] at hvisit
    exact ⟨tag, ht, entry, he, htype, hvisit⟩
  · rintro ⟨tag, ht, entry, he, htype, hvisit⟩
    refine ⟨tag, ht, entry, he, htype, ?_⟩
    rwa [Nat.mod_eq_of_lt (hwf.regions tag ht entry he)]

theorem freeAtBoot_iff (hwf : mbInfo.WellFormed) : freeAtBoot mbInfo kernelEnd f = true ↔
    f < maxFrames ∧ mbInfo.covers f = true ∧ kernelEnd ≤ f * pageSize ∧
      visits mbInfo.address (mbInfo.address + mbInfo.totalSize) f = false := by
  rw [freeAtBoot, Nat.mod_eq_of_lt hwf.block]
  simp only [Bool.and_eq_true, decide_eq_true_eq, Bool.not_eq_true', and_assoc]
  rw [← Nat.not_lt, ← visits_kernel, Bool.not_eq_true]

/-- **Every safe frame is free**: the region of its last byte comes to it. -/
theorem SafeFrame.freeAtBoot (hwf : mbInfo.WellFormed) (h : mbInfo.SafeFrame kernelEnd f) :
    freeAtBoot mbInfo kernelEnd f = true := by
  obtain ⟨hlt, hbytes⟩ := h
  have hfirst : InFrame f (f * pageSize) := by
    simp only [InFrame, pageSize]
    omega
  have hlast : InFrame f (f * pageSize + (pageSize - 1)) := by
    simp only [InFrame, pageSize]
    omega
  rw [freeAtBoot_iff hwf]
  refine ⟨hlt, ?_, (hbytes _ hfirst).2.1, ?_⟩
  · obtain ⟨tag, ht, entry, he, htype, hle, hlt'⟩ := (hbytes _ hlast).1
    rw [MultibootInfo.covers_iff hwf]
    refine ⟨tag, ht, entry, he, htype, ?_⟩
    rw [visits_iff]
    simp only [pageSize] at hle hlt' ⊢
    omega
  · rw [Bool.eq_false_iff]
    intro hvisit
    obtain ⟨a, hframe, hblock⟩ := visits_block.mpr (Or.inl hvisit)
    exact (hbytes a hframe).2.2 hblock

/-! ## The free stack -/

/-- The free stack holds the safe frames, once each, and nothing else. -/
def FreeStackSafe (mbInfo : MultibootInfo) (kernelEnd : Nat) : Prop :=
  ∃ s, pmmInit mbInfo kernelEnd = some s ∧ s.freeStack.Nodup ∧
    ∀ addr, addr ∈ s.freeStack ↔ ∃ f, mbInfo.SafeFrame kernelEnd f ∧ addr = f * pageSize

/-- The free stack is that of the frames that are free at boot. -/
theorem freeStackSafe_iff : FreeStackSafe mbInfo kernelEnd ↔
    (pmmInit mbInfo kernelEnd).isSome ∧
      ∀ f, freeAtBoot mbInfo kernelEnd f = true ↔ mbInfo.SafeFrame kernelEnd f := by
  -- a frame is known by its address
  have hinj : ∀ f g : Nat, f * pageSize = g * pageSize → f = g := fun f g h => by
    simp only [pageSize] at h
    omega
  have hmem : ∀ {s}, pmmInit mbInfo kernelEnd = some s →
      ∀ f, f * pageSize ∈ s.freeStack ↔ freeAtBoot mbInfo kernelEnd f = true := by
    intro s hs f
    rw [(pmmInit_spec hs).1]
    simp only [List.mem_map, List.mem_reverse, List.mem_filter, List.mem_range]
    constructor
    · rintro ⟨g, ⟨-, hg⟩, heq⟩
      rwa [← hinj g f heq]
    · intro hf
      refine ⟨f, ⟨?_, hf⟩, rfl⟩
      simp only [freeAtBoot, Bool.and_eq_true, decide_eq_true_eq] at hf
      exact hf.1.1.1
  constructor
  -- on the stack are the frames that are free at boot, so both sides speak of the same ones
  · rintro ⟨s, hs, -, hiff⟩
    refine ⟨Option.isSome_iff_exists.mpr ⟨s, hs⟩, fun f => ?_⟩
    rw [← hmem hs f, hiff]
    constructor
    · rintro ⟨g, hg, heq⟩
      rwa [hinj f g heq]
    · exact fun hf => ⟨f, hf, rfl⟩
  · rintro ⟨hsome, hiff⟩
    obtain ⟨s, hs⟩ := Option.isSome_iff_exists.mp hsome
    refine ⟨s, hs, ?_, fun addr => ?_⟩
    -- no frame is pushed twice
    · rw [(pmmInit_spec hs).1]
      refine List.Nodup.map hinj (List.nodup_reverse.mpr ?_)
      exact List.nodup_range.filter _
    · constructor
      · intro haddr
        have haddr' := haddr
        rw [(pmmInit_spec hs).1] at haddr'
        obtain ⟨f, -, rfl⟩ := List.mem_map.mp haddr'
        exact ⟨f, (hiff f).mp ((hmem hs f).mp haddr), rfl⟩
      · rintro ⟨f, hf, rfl⟩
        exact (hmem hs f).mpr ((hiff f).mpr hf)

/-- **The free stack is safe** just if the pages at the ends of the regions and of the block do no
harm. -/
theorem pmmInit_safe_iff (hwf : mbInfo.WellFormed) :
    FreeStackSafe mbInfo kernelEnd ↔ RoundsSafely mbInfo kernelEnd := by
  rw [freeStackSafe_iff, pmmInit_isSome_iff, Nat.mod_eq_of_lt hwf.block]
  constructor
  · rintro ⟨⟨hends, hkernel, hblock⟩, hsafe⟩
    refine ⟨hends, ?_, fun x hx hmod => hblock x hx.1 hx.2 hmod, ?_, ?_⟩
    · by_contra hlt
      exact Nat.lt_irrefl _ (hkernel (maxFrames * pageSize) (by omega) (by decide))
    · intro tag ht entry he htype f hf hpartial
      by_contra hnot
      obtain ⟨havail, hkern, hvisit⟩ := not_or.mp hnot |>.imp_right not_or.mp
      -- nothing reserves the page, so it is free, and all of it is available
      apply havail
      have hfree : freeAtBoot mbInfo kernelEnd f = true := by
        rw [freeAtBoot_iff hwf, MultibootInfo.covers_iff hwf]
        refine ⟨hf, ⟨tag, ht, entry, he, htype, visits_region.mpr (Or.inl hpartial)⟩, ?_, ?_⟩
        · exact Nat.not_lt.mp hkern
        · exact Bool.eq_false_iff.mpr hvisit
      exact fun a ha => (((hsafe f).mp hfree).2 a ha).1
    · intro hmiss hf
      by_contra hnot
      obtain ⟨hcov, hkern⟩ := not_or.mp hnot
      -- the loop stops before the page, so it is free, and holds a byte of the block
      obtain ⟨a, hframe, hin⟩ := visits_block.mpr (Or.inr ⟨hmiss, rfl⟩)
      have hfree : freeAtBoot mbInfo kernelEnd mbInfo.lastPage = true := by
        rw [freeAtBoot_iff hwf]
        refine ⟨hf, by simpa using hcov, Nat.not_lt.mp hkern, ?_⟩
        rw [Bool.eq_false_iff, ne_eq, visits_iff]
        rw [MultibootInfo.MissesLast] at hmiss
        simp only [MultibootInfo.lastPage, pageSize] at hmiss ⊢
        omega
      exact (((hsafe _).mp hfree).2 a hframe).2.2 hin
  · rintro ⟨hends, hkernel, hblock, hpartials, hlast⟩
    refine ⟨⟨hends, fun x hx _ => by omega, fun x hlo hhi hmod => hblock x ⟨hlo, hhi⟩ hmod⟩,
      fun f => ⟨fun hfree => ?_, SafeFrame.freeAtBoot hwf⟩⟩
    obtain ⟨hf, hcov, hkern, hvisit⟩ := (freeAtBoot_iff hwf).mp hfree
    have havail : ∀ a, InFrame f a → mbInfo.Available a := by
      obtain ⟨tag, ht, entry, he, htype, hregion⟩ := (MultibootInfo.covers_iff hwf).mp hcov
      rcases visits_region.mp hregion with hpartial | ⟨hlo, hhi⟩
      · rcases hpartials tag ht entry he htype f hf hpartial with havail | hlt | hreserved
        · exact havail
        · omega
        · rw [hvisit] at hreserved
          cases hreserved
      · exact fun a ha =>
          ⟨tag, ht, entry, he, htype, Nat.le_trans hlo ha.1, Nat.lt_of_lt_of_le ha.2 hhi⟩
    refine ⟨hf, fun a ha => ⟨havail a ha, Nat.le_trans hkern ha.1, fun hin => ?_⟩⟩
    rcases visits_block.mp ⟨a, ha, hin⟩ with hreserved | ⟨hmiss, rfl⟩
    · rw [hvisit] at hreserved
      cases hreserved
    · rcases hlast hmiss hf with hnone | hlt
      · rw [hcov] at hnone
        cases hnone
      · omega

/-- A map of whole pages, and a block in one page. -/
theorem pmmInit_safe_smallMachine : FreeStackSafe smallMachine 0x102000 := by
  have hregions : ∀ tag ∈ smallMachine.tags, ∀ entry ∈ tag.entries,
      entry.addr % pageSize = 0 ∧ (entry.addr + entry.len) % pageSize = 0 ∧
        entry.addr + entry.len < 2 ^ 32 := by decide
  have hwf : smallMachine.WellFormed := ⟨by decide, by decide⟩
  refine (pmmInit_safe_iff hwf).mpr ⟨fun tag ht entry he _ x _ hx _ => ?_, by decide,
    fun x hx _ => ?_, fun tag ht entry he _ f _ hpartial => ?_, fun hmiss => ?_⟩
  · obtain ⟨-, -, hlt⟩ := hregions tag ht entry he
    simp only [pageSize]
    omega
  · have hlt : x < 0x103000 + 0x100 := hx.2
    simp only [maxFrames, pageSize]
    omega
  · obtain ⟨hstart, hend, -⟩ := hregions tag ht entry he
    rcases hpartial.2 with ⟨hne, -⟩ | ⟨hlt, -⟩ <;> omega
  · exact absurd hmiss.2.2 (by decide)

/-- A block that starts in the second half of a page and ends in the first half of the next. -/
def unalignedMachine : MultibootInfo where
  address := 0x103800
  totalSize := 0xA00
  tags := [.mmap [⟨0x100000, 0x8000, 1⟩]]

/-- The page that block ends in is free. -/
theorem pmmInit_frees_block : ¬ FreeStackSafe unalignedMachine 0x102000 ∧
    ∃ s, pmmInit unalignedMachine 0x102000 = some s ∧ 0x104000 ∈ s.freeStack ∧
      unalignedMachine.InBlock 0x104000 := by
  have hsome : (pmmInit unalignedMachine 0x102000).isSome :=
    pmmInit_isSome (by decide) (by decide) (by decide)
  obtain ⟨s, hs⟩ := Option.isSome_iff_exists.mp hsome
  have hin : unalignedMachine.InBlock 0x104000 := ⟨by decide, by decide⟩
  have hmem : 0x104000 ∈ s.freeStack := by
    rw [(pmmInit_spec hs).1]
    refine List.mem_map.mpr ⟨0x104, List.mem_reverse.mpr (List.mem_filter.mpr ⟨?_, ?_⟩), rfl⟩
    · exact List.mem_range.mpr (by decide)
    · decide
  refine ⟨?_, s, hs, hmem, hin⟩
  rintro ⟨s', hs', -, hiff⟩
  obtain rfl := Option.some.inj (hs.symm.trans hs')
  obtain ⟨f, hf, heq⟩ := (hiff _).mp hmem
  refine (hf.2 0x104000 ⟨?_, ?_⟩).2.2 hin <;> simp only [pageSize] at heq ⊢ <;> omega

end ZohoOs
