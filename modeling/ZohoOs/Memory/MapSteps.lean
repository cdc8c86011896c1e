import ZohoOs.Lib.LastWrite
import ZohoOs.Memory.MapCalls
import ZohoOs.Memory.PageMap

/-!
# What the steps of `vmm_map` do to tables and frames

The calls of `vmm_map` change the tables in two ways: a new table is linked where no entry is present, and a
leaf is stored in a page table. A frame goes from the free stack to a call, and from there into the tables
or back.

## Main definitions

* `translate`: what an address is mapped to
* `TablesKept`, `FramesKept`: what each step keeps of the tables and of the frames

## Main results

* `TablesKept.link`, `TablesKept.store`: the two writes
* `FramesKept.alloc`, `FramesKept.link`, `FramesKept.release`: the ways of a frame
* `TablesKept.translate_eq`, `FramesKept.count`: the translations and the free frames after the steps
-/

namespace ZohoOs

open Forest LastWrite TransitionSystem

/-! ## Translations -/

/-- What an address is mapped to: the physical address and the flags, where its page is present. -/
def translate (s : Vmm) (space : Nat) (virt : BitVec 64) : Option (BitVec 64 × BitVec 64) :=
  if hasFlag (vmmGetFlags s space virt) pagePresent then
    some (vmmGetPhys s space virt, vmmGetFlags s space virt)
  else none

/-- The same, from the two entries over the page. -/
def translation (pde pte virt : BitVec 64) : Option (BitVec 64 × BitVec 64) :=
  if hasFlag pde pageHuge then
    if hasFlag pde pagePresent then
      some (pde &&& ~~~0x1FFFFF#64 ||| virt &&& 0x1FFFFF#64, pde &&& 0xFFF#64)
    else none
  else if hasFlag pte pagePresent then
    some (pte &&& ~~~0xFFF#64 ||| virt &&& 0xFFF#64, pte &&& 0xFFF#64)
  else none

/-- The page of an address in a space, by the owner of its slot. -/
def Vmm.pageKey (s : Vmm) (space : Nat) (virt : BitVec 64) : Nat × PageNumber :=
  (s.owner space (pml4Index virt), pageNumber virt)

section Translate

variable {s : Vmm} {live : Finset Nat} {b : Nat}

theorem translate_eq (h : Wf s live) (hb : b ∈ s.roots live) (virt : BitVec 64) :
    translate s b virt = translation (s.pde (s.pageKey b virt).1 (s.pageKey b virt).2)
      (s.pte (s.pageKey b virt).1 (s.pageKey b virt).2) virt := by
  have hlow : ∀ e, hasFlag (e &&& 0xFFF#64) pagePresent = hasFlag e pagePresent := by
    intro e
    rw [hasFlag_and]
    rfl
  rw [translate, vmmGetFlags_eq h hb rfl rfl, vmmGetPhys_eq h hb rfl rfl, translation, Vmm.pageKey]
  dsimp only
  by_cases hhuge : hasFlag (s.pde (s.owner b (pml4Index virt)) (pageNumber virt)) pageHuge = true
  · simp only [if_pos hhuge, hlow]
  · simp only [if_neg hhuge, hlow]
    split
    · rename_i hpres
      -- a page that is present has a page table
      rw [if_neg]
      intro hnone
      rw [Vmm.pte, Vmm.entry_of_none hnone, zero_hasFlag] at hpres
      cases hpres
    · rfl

end Translate

/-- The leaf a call stores. -/
def MapArgs.leaf (a : MapArgs) : BitVec 64 := pageEntry a.phys a.flags

/-! ## The tables -/

/-- **What each step keeps of the tables**: they are a forest that has grown; a directory entry is as it
was, or linked since; and the leaves are those of the last stores. -/
structure TablesKept (live : Finset Nat) (space : Nat) (s₀ : Vmm) (stores : List MapArgs) (s : Vmm) :
    Prop where
  wf : Wf s live
  root : space ∈ s₀.roots live
  kernel : s.currentPml4 = s₀.currentPml4
  table : ∀ r ∈ s₀.roots live, ∀ p t, s₀.table r p = some t → s.table r p = some t
  pde : ∀ r ∈ s₀.roots live, ∀ q, s.pde r q = s₀.pde r q ∨
    hasFlag (s₀.pde r q) pagePresent = false ∧ hasFlag (s.pde r q) pageHuge = false
  pte : ∀ r ∈ s₀.roots live, ∀ q, s.pte r q = writeAll (fun a => s₀.pageKey space a.virt)
    MapArgs.leaf (fun x => s₀.pte x.1 x.2) stores (r, q)
  stored : ∀ a ∈ stores, ∃ t,
    s.table (s₀.owner space (pml4Index a.virt)) (pageNumber a.virt).path = some t

section Tables

variable {live : Finset Nat} {space : Nat} {s₀ s s' : Vmm} {stores : List MapArgs} {r t x : Nat}
  {p : List (Fin 512)} {i : Fin 512}

theorem TablesKept.start (h : Wf s₀ live) (hspace : space ∈ s₀.roots live) :
    TablesKept live space s₀ [] s₀ where
  wf := h
  root := hspace
  kernel := rfl
  table _ _ _ _ ht := ht
  pde _ _ _ := Or.inl rfl
  pte _ _ _ := rfl
  stored _ ha := absurd ha List.not_mem_nil

theorem TablesKept.roots (h : TablesKept live space s₀ stores s) : s.roots live = s₀.roots live :=
  Vmm.roots_congr h.kernel

/-- The root below which a call works. -/
theorem TablesKept.owner (h : TablesKept live space s₀ stores s) (virt : BitVec 64) :
    s₀.owner space (pml4Index virt) ∈ s₀.roots live := Vmm.owner_mem_roots h.root

/-- With the same paths, the same pages are tables. -/
theorem TablesKept.isTable (h : TablesKept live space s₀ stores s) {stores' : List MapArgs}
    (h' : TablesKept live space s₀ stores' s')
    (htable : ∀ r ∈ s₀.roots live, ∀ p, s'.table r p = s.table r p) (t : Nat) :
    s'.IsTable live t ↔ s.IsTable live t := by
  unfold Vmm.IsTable
  rw [h.roots, h'.roots]
  refine exists_congr fun r => and_congr_right fun hr => exists_congr fun p => ?_
  rw [htable r hr]

/-- A change outside the tables. -/
theorem TablesKept.frame (h : TablesKept live space s₀ stores s) (s' : Vmm)
    (hkr : s'.currentPml4 = s.currentPml4) (hmem : ∀ t, s.IsTable live t → s'.mem t = s.mem t)
    (hstack : StackInv s'.pmm) (hused : ∀ t, s.IsTable live t → t ∉ s'.pmm.freeStack) :
    TablesKept live space s₀ stores s' ∧
      ∀ r ∈ s₀.roots live, ∀ p, s'.table r p = s.table r p := by
  have hroot : ∀ r ∈ s₀.roots live, ∀ p t, s.table r p = some t → s'.mem t = s.mem t :=
    fun r hr p t ht => hmem t ⟨r, h.roots ▸ hr, p, ht⟩
  have htable : ∀ r ∈ s₀.roots live, ∀ p, s'.table r p = s.table r p :=
    fun r hr p => Vmm.table_frame hkr (hroot r hr) p
  have hentry : ∀ r ∈ s₀.roots live, ∀ p i, s'.entry r p i = s.entry r p i :=
    fun r hr p i => Vmm.entry_frame hkr (hroot r hr) p i
  refine ⟨⟨h.wf.frame hkr hmem hstack hused, h.root, hkr.trans h.kernel, ?_, ?_, ?_, ?_⟩, htable⟩
  · intro r hr p t ht
    rw [htable r hr]
    exact h.table r hr p t ht
  · intro r hr q
    rw [Vmm.pde, hentry r hr]
    exact h.pde r hr q
  · intro r hr q
    rw [Vmm.pte, hentry r hr]
    exact h.pte r hr q
  · intro a ha
    rw [htable _ (h.owner a.virt)]
    exact h.stored a ha

/-- **Linking a table** where no entry is present. -/
theorem TablesKept.link (h : TablesKept live space s₀ stores s) (hlink : Linkable s live r p t i x)
    (habsent : hasFlag (s.mem t i) pagePresent = false) :
    TablesKept live space s₀ stores (s.write t i (linkEntry x)) := by
  have hroots : ∀ {r'}, r' ∈ s₀.roots live → r' ∈ s.roots live := fun hr => h.roots ▸ hr
  refine ⟨hlink.wf_write, h.root, h.kernel, ?_, ?_, ?_, ?_⟩
  -- a table that was linked stays where it is
  · intro r' hr' p' t' ht'
    exact hlink.table_mono (hroots hr') (h.table r' hr' p' t' ht')
  · intro r' hr' q
    rw [Vmm.pde, hlink.write_entry (hroots hr')]
    split
    · -- the entry over the page is the one that is written
      rename_i hc
      obtain ⟨rfl, hp, rfl⟩ := hc
      have hold : s.pde r' q = s.mem t q.2.2.1 := by
        rw [Vmm.pde, hp, Vmm.entry_of_table hlink.table]
      refine Or.inr ⟨?_, linkEntry_not_huge hlink.aligned hlink.lt⟩
      rcases h.pde r' hr' q with heq | ⟨hpres, -⟩
      · rw [← heq, hold]
        exact habsent
      · exact hpres
    · exact h.pde r' hr' q
  -- the entry is of a directory, not of a page table
  · intro r' hr' q
    rw [Vmm.pte, hlink.write_entry (hroots hr'), if_neg]
    · exact h.pte r' hr' q
    · rintro ⟨-, hp, -⟩
      have := hlink.depth
      simp [← hp] at this
  · intro a ha
    obtain ⟨t', ht'⟩ := h.stored a ha
    exact ⟨t', hlink.table_mono (hroots (h.owner a.virt)) ht'⟩

/-- **Storing a leaf.** -/
theorem TablesKept.store (h : TablesKept live space s₀ stores s) {a : MapArgs} {pt : Nat}
    (hpt : s.table (s₀.owner space (pml4Index a.virt)) (pageNumber a.virt).path = some pt) :
    TablesKept live space s₀ (stores ++ [a]) (s.write pt (ptIndex a.virt) a.leaf) ∧
      ∀ r ∈ s₀.roots live, ∀ p, (s.write pt (ptIndex a.virt) a.leaf).table r p = s.table r p := by
  -- a leaf is written, so the tables stay where they are
  have hroots : ∀ {r'}, r' ∈ s₀.roots live → r' ∈ s.roots live := fun hr => h.roots ▸ hr
  have hwrite := WriteLeaf.of_page h.wf (hroots (h.owner a.virt)) hpt a.leaf
  have htable : ∀ r ∈ s₀.roots live, ∀ p,
      (s.write pt (ptIndex a.virt) a.leaf).table r p = s.table r p :=
    fun r hr p => hwrite.write_table (hroots hr) p
  refine ⟨⟨hwrite.wf_write (by simp), h.root, h.kernel, ?_, ?_, ?_, ?_⟩, htable⟩
  · intro r hr p t ht
    rw [htable r hr]
    exact h.table r hr p t ht
  · intro r hr q
    have hentry := hwrite.write_entry (hroots hr) [q.2.1, q.1] q.2.2.1
    rw [if_neg fun hc => by simpa using congrArg List.length hc.2.1] at hentry
    rw [Vmm.pde, show (s.write pt (ptIndex a.virt) a.leaf).entry r [q.2.1, q.1] q.2.2.1 = _ from hentry]
    exact h.pde r hr q
  -- the page table entry of the page is the new one
  · intro r hr q
    have hentry := hwrite.write_entry (hroots hr) q.path q.2.2.2
    rw [Vmm.pte, show (s.write pt (ptIndex a.virt) a.leaf).entry r q.path q.2.2.2 = _ from hentry,
      writeAll_concat, Function.update_apply]
    refine if_congr ?_ rfl (h.pte r hr q)
    constructor
    · rintro ⟨rfl, hp, hi⟩
      have hq : q = pageNumber a.virt :=
        PageNumber.full_inj (by rw [PageNumber.full, PageNumber.full, hp, hi])
      rw [hq]
      rfl
    · intro hq
      obtain ⟨rfl, rfl⟩ := Prod.mk.inj hq
      exact ⟨rfl, rfl, rfl⟩
  · intro b hb
    rw [htable _ (h.owner b.virt)]
    rcases List.mem_append.mp hb with hb | hb
    · exact h.stored b hb
    · rw [List.mem_singleton.mp hb]
      exact ⟨pt, hpt⟩

end Tables

/-! ## The frames -/

/-- **What each step keeps of the frames**: of those that were free, each is free, or held by one call, or
a table that was linked since. -/
structure FramesKept {κ : Type} (live : Finset Nat) (s₀ s : Vmm) (held : κ → Option Nat) : Prop where
  fresh : ∀ k x, held k = some x → x ≠ 0 ∧ x ∈ s₀.pmm.freeStack ∧ x ∉ s.pmm.freeStack ∧
    ¬ s.IsTable live x ∧ s.pmm.refCounts (x / pageSize) = 1
  once : ∀ k k' x, held k = some x → held k' = some x → k = k'
  frames : ∀ x, x ∈ s₀.pmm.freeStack ↔ x ∈ s.pmm.freeStack ∨ (∃ k, held k = some x) ∨
    (s.IsTable live x ∧ ¬ s₀.IsTable live x)

section Frames

variable {κ : Type} {live : Finset Nat} {s₀ s s' : Vmm} {held : κ → Option Nat} {k : κ} {x : Nat}

theorem FramesKept.start (s : Vmm) (hnone : ∀ k, held k = none) : FramesKept live s s held where
  fresh k x hx := by
    rw [hnone] at hx
    cases hx
  once k k' x hx := by
    rw [hnone] at hx
    cases hx
  frames x := by
    refine ⟨Or.inl, ?_⟩
    rintro (hx | ⟨k, hk⟩ | ⟨ht, hnot⟩)
    · exact hx
    · rw [hnone] at hk
      cases hk
    · exact absurd ht hnot

/-- The tables are the same, and the allocator. -/
theorem FramesKept.same (h : FramesKept live s₀ s held) (hpmm : s'.pmm = s.pmm)
    (htables : ∀ t, s'.IsTable live t ↔ s.IsTable live t) : FramesKept live s₀ s' held where
  fresh k x hx := by
    rw [hpmm, htables]
    exact h.fresh k x hx
  once := h.once
  frames x := by
    rw [hpmm, htables]
    exact h.frames x

/-- The calls other than `k` hold other frames. -/
theorem FramesKept.other (h : FramesKept live s₀ s held) (h₀ : StackInv s₀.pmm) (hk : held k = some x)
    {k' : κ} (hne : k' ≠ k) {y : Nat} (hy : held k' = some y) :
    y ≠ x ∧ y / pageSize ≠ x / pageSize := by
  have hyx : y ≠ x := by
    rintro rfl
    exact hne (h.once k' k y hy hk)
  have hxfree := (h.fresh k x hk).2.1
  have hyfree := (h.fresh k' y hy).2.1
  exact ⟨hyx, fun he => hyx (div_pageSize_inj (h₀.aligned y hyfree) (h₀.aligned x hxfree) he)⟩

variable [DecidableEq κ]

/-- Of all calls, one is `k`. -/
theorem exists_iff_or_ne (P : κ → Prop) (k : κ) : (∃ k', P k') ↔ P k ∨ ∃ k', k' ≠ k ∧ P k' := by
  constructor
  · rintro ⟨k', h⟩
    by_cases hk : k' = k
    · exact Or.inl (hk ▸ h)
    · exact Or.inr ⟨k', hk, h⟩
  · rintro (h | ⟨k', -, h⟩)
    · exact ⟨k, h⟩
    · exact ⟨k', h⟩

/-- What the calls hold, once `k` holds something else. -/
theorem exists_held (held : κ → Option Nat) (k : κ) (v : Option Nat) (y : Nat) :
    (∃ k', Function.update held k v k' = some y) ↔ v = some y ∨ ∃ k', k' ≠ k ∧ held k' = some y :=
  Function.exists_update_iff held fun _ v => v = some y

/-- One call goes on without its frame, the others keep theirs. -/
theorem update_none_eq {k' : κ} {y : Nat} (h : Function.update held k none k' = some y) :
    k' ≠ k ∧ held k' = some y := by
  by_cases hk : k' = k
  · rw [hk, Function.update_self] at h
    cases h
  · exact ⟨hk, by rwa [Function.update_of_ne hk] at h⟩

/-- **A call takes a frame.** -/
theorem FramesKept.alloc (h : FramesKept live s₀ s held) (hwf : Wf s live) (h₀ : StackInv s₀.pmm)
    (hne : (pmmAllocFrame s.pmm).1 ≠ 0) (hk : held k = none) :
    FramesKept live s₀ { s with pmm := (pmmAllocFrame s.pmm).2 }
      (Function.update held k (some (pmmAllocFrame s.pmm).1)) := by
  have hpage := hwf.freshPage hne
  obtain ⟨-, hstack, hout⟩ := hwf.stack.alloc_spec hne
  have hcounts := refCounts_alloc hne
  have hfree₀ := (h.frames _).mpr (Or.inl hpage.free)
  have hfree : ∀ y, y ∈ s.pmm.freeStack ↔
      y = (pmmAllocFrame s.pmm).1 ∨ y ∈ (pmmAllocFrame s.pmm).2.freeStack := by
    intro y
    conv_lhs => rw [hstack]
    exact List.mem_cons
  -- what the others hold is another frame
  have hother : ∀ k' y, held k' = some y → y ≠ (pmmAllocFrame s.pmm).1 := by
    rintro k' y hy rfl
    exact (h.fresh k' _ hy).2.2.1 hpage.free
  refine ⟨fun k' y hy => ?_, fun k₁ k₂ y h₁ h₂ => ?_, fun y => ?_⟩
  · rw [Function.update_apply] at hy
    split at hy
    · obtain rfl := Option.some.inj hy
      exact ⟨hne, hfree₀, hout, hpage.notTable, by rw [hcounts, Function.update_self]⟩
    · obtain ⟨hy0, hyfree₀, hyfree, hytable, hyref⟩ := h.fresh k' y hy
      refine ⟨hy0, hyfree₀, fun hc => hyfree ((hfree y).mpr (Or.inr hc)), hytable, ?_⟩
      rw [hcounts, Function.update_of_ne, hyref]
      intro he
      exact hother k' y hy
        (div_pageSize_inj (h₀.aligned y hyfree₀) (h₀.aligned _ hfree₀) he)
  · rw [Function.update_apply] at h₁ h₂
    split at h₁
    · rename_i hk₁
      split at h₂
      · rename_i hk₂
        rw [hk₁, hk₂]
      · exact absurd (Option.some.inj h₁).symm (hother k₂ y h₂)
    · split at h₂
      · exact absurd (Option.some.inj h₂).symm (hother k₁ y h₁)
      · exact h.once k₁ k₂ y h₁ h₂
  · have hall := exists_iff_or_ne (fun k' => held k' = some y) k
    rw [hk] at hall
    rw [exists_held, h.frames y, hfree y, hall, Option.some_inj, eq_comm]
    simp only [reduceCtorEq, false_or, or_assoc]
    exact or_left_comm

/-- **A call links its frame.** -/
theorem FramesKept.link (h : FramesKept live s₀ s held) (h₀ : Wf s₀ live) (hk : held k = some x)
    (hpmm : s'.pmm = s.pmm) (htables : ∀ t, s'.IsTable live t ↔ s.IsTable live t ∨ t = x) :
    FramesKept live s₀ s' (Function.update held k none) := by
  obtain ⟨-, hfree₀, -, -, -⟩ := h.fresh k x hk
  refine ⟨fun k' y hy => ?_, fun k₁ k₂ y h₁ h₂ => ?_, fun y => ?_⟩
  · obtain ⟨hne, hy⟩ := update_none_eq hy
    obtain ⟨hy0, hyfree₀, hyfree, hytable, hyref⟩ := h.fresh k' y hy
    rw [hpmm, htables]
    refine ⟨hy0, hyfree₀, hyfree, ?_, hyref⟩
    exact not_or.mpr ⟨hytable, (h.other h₀.stack hk hne hy).1⟩
  · exact h.once k₁ k₂ y (update_none_eq h₁).2 (update_none_eq h₂).2
  · have hall := exists_iff_or_ne (fun k' => held k' = some y) k
    rw [hk, Option.some_inj] at hall
    have hx : y = x → ¬ s₀.IsTable live y := by
      rintro rfl
      exact h₀.notTable_of_free hfree₀
    rw [exists_held, h.frames y, hall, hpmm, htables, or_and_right, and_iff_left_of_imp hx,
      eq_comm (a := x)]
    simp only [reduceCtorEq, false_or]
    refine or_congr Iff.rfl ?_
    rw [or_assoc, or_comm, or_assoc]

/-- **A call gives its frame back.** -/
theorem FramesKept.release (h : FramesKept live s₀ s held) (h₀ : StackInv s₀.pmm)
    (hstack : StackInv s.pmm) (hk : held k = some x) :
    (pmmFreeFrame s.pmm x).freeStack = x :: s.pmm.freeStack ∧
    FramesKept live s₀ { s with pmm := pmmFreeFrame s.pmm x } (Function.update held k none) := by
  obtain ⟨-, hfree₀, hnot, htable, href⟩ := h.fresh k x hk
  have hbit : bitmapTest s.pmm.frameBitmap (x / pageSize) = true := by
    rw [← Bool.not_eq_false, ← hstack.mem_iff_addr (h₀.aligned x hfree₀)]
    exact hnot
  have hlast := pmmFreeFrame_last (h₀.lt_max x hfree₀) href hbit
  refine ⟨by rw [hlast], fun k' y hy => ?_, fun k₁ k₂ y h₁ h₂ => ?_, fun y => ?_⟩
  · obtain ⟨hne, hy⟩ := update_none_eq hy
    obtain ⟨hy0, hyfree₀, hyfree, hytable, hyref⟩ := h.fresh k' y hy
    obtain ⟨hyx, hdiv⟩ := h.other h₀ hk hne hy
    rw [hlast]
    refine ⟨hy0, hyfree₀, ?_, hytable, ?_⟩
    · exact fun hc => (List.mem_cons.mp hc).elim hyx hyfree
    · exact (Function.update_of_ne hdiv _ _).trans hyref
  · exact h.once k₁ k₂ y (update_none_eq h₁).2 (update_none_eq h₂).2
  · have hall := exists_iff_or_ne (fun k' => held k' = some y) k
    rw [hk, Option.some_inj] at hall
    rw [exists_held, h.frames y, hall, hlast, eq_comm (a := x)]
    show _ ↔ y ∈ x :: s.pmm.freeStack ∨ _ ∨ s.IsTable live y ∧ ¬ s₀.IsTable live y
    simp only [reduceCtorEq, false_or, List.mem_cons, or_assoc]
    exact or_left_comm

end Frames

/-! ## After the steps -/

section Returned

variable {κ : Type} {live : Finset Nat} {space : Nat} {stores : List MapArgs} {s₀ s : Vmm}

/-- **The translations**, from the leaves of the last stores. -/
theorem TablesKept.translate_eq (h : TablesKept live space s₀ stores s) (h₀ : Wf s₀ live) {b : Nat}
    (hb : b ∈ s₀.roots live) (virt : BitVec 64) : translate s b virt =
      (lastWrite (fun a => s₀.pageKey space a.virt) stores (s₀.pageKey b virt)).elim
        (translate s₀ b virt)
        fun a => some (a.leaf &&& ~~~0xFFF#64 ||| virt &&& 0xFFF#64, a.leaf &&& 0xFFF#64) := by
  have hkey : s.pageKey b virt = s₀.pageKey b virt := by
    rw [Vmm.pageKey, Vmm.owner, h.kernel]
    rfl
  have hr : (s₀.pageKey b virt).1 ∈ s₀.roots live := Vmm.owner_mem_roots hb
  rw [ZohoOs.translate_eq h.wf (h.roots ▸ hb), ZohoOs.translate_eq h₀ hb, hkey]
  generalize s₀.pageKey b virt = x at hr ⊢
  obtain ⟨r, q⟩ := x
  dsimp only at hr ⊢
  rw [h.pte r hr q, writeAll_apply]
  cases hlast : lastWrite (fun a => s₀.pageKey space a.virt) stores (r, q) with
  | none =>
    rcases h.pde r hr q with heq | ⟨hpres, hsmall⟩
    · rw [heq]
      rfl
    · -- a directory entry that was linked since: no page below it was mapped
      have hzero : s₀.pte r q = 0#64 := by
        apply Vmm.entry_of_none
        by_contra hne
        obtain ⟨x, hx⟩ := Option.ne_none_iff_exists'.mp hne
        have htrue := (Vmm.pde_of_table hx).1
        rw [hpres] at htrue
        cases htrue
      simp only [Option.elim_none, translation, hsmall, hpres, hzero, zero_hasFlag,
        Bool.false_eq_true, if_false, ite_self]
  | some a =>
    -- a page that was stored to has a page table
    obtain ⟨hmem, hkey⟩ := lastWrite_key hlast
    obtain ⟨rfl, rfl⟩ := Prod.mk.inj hkey
    obtain ⟨t, ht⟩ := h.stored a hmem
    have hsmall := (Vmm.pde_of_table ht).2
    have hpres : hasFlag a.leaf pagePresent = true := pageEntry_present a.phys a.flags
    simp only [Option.elim_some, translation, hsmall, hpres, Bool.false_eq_true, if_false, if_true]

/-- **The frames** that are no longer free are the new tables, where no call holds one. -/
theorem FramesKept.count {held : κ → Option Nat} (h : FramesKept live s₀ s held) (h₀ : Wf s₀ live)
    (hwf : Wf s live) (hnone : ∀ k, held k = none) : ∃ new : Finset Nat,
      (∀ t, t ∈ new ↔ s.IsTable live t ∧ ¬ s₀.IsTable live t) ∧
        pmmGetFreeCount s.pmm + new.card = pmmGetFreeCount s₀.pmm := by
  have hfree : ∀ t, t ∈ s₀.pmm.freeStack ↔
      t ∈ s.pmm.freeStack ∨ (s.IsTable live t ∧ ¬ s₀.IsTable live t) := by
    intro t
    have hno : ¬ ∃ k, held k = some t := by
      rintro ⟨k, hk⟩
      rw [hnone] at hk
      cases hk
    rw [h.frames t, or_iff_right hno]
  refine ⟨s₀.pmm.freeStack.toFinset \ s.pmm.freeStack.toFinset, fun t => ?_, ?_⟩
  · rw [Finset.mem_sdiff, List.mem_toFinset, List.mem_toFinset, hfree t]
    constructor
    · rintro ⟨hin, hout⟩
      exact hin.resolve_left hout
    · exact fun hnew => ⟨Or.inr hnew, hwf.used t hnew.1⟩
  · have hsub : s.pmm.freeStack.toFinset ⊆ s₀.pmm.freeStack.toFinset := by
      intro t ht
      rw [List.mem_toFinset] at ht ⊢
      exact (hfree t).mpr (Or.inl ht)
    have hcard := Finset.card_sdiff_add_card_eq_card hsub
    rw [List.toFinset_card_of_nodup hwf.stack.nodup, List.toFinset_card_of_nodup h₀.stack.nodup] at hcard
    rw [pmmGetFreeCount_eq, pmmGetFreeCount_eq, Nat.add_comm]
    exact hcard

end Returned

end ZohoOs
