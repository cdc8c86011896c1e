import ZohoOs.Lib.Stride
import ZohoOs.Memory.PageRange
import ZohoOs.Memory.Unmapped

/-!
# Unmapping a range

`vmm_unmap_range` unmaps an address space, and looks into the directory of another for its stride: that
of the root `vmm_init` has captured. It goes on by 2 MiB where that root has a 2 MiB leaf, and leaves
the 4 KiB pages out that the space has there.

## Main definitions

* `vmmUnmapRange`: the function
* `Reached`: the pages of the range it stops at, in terms of the state before
* `RangeUnmapped`: what the function is for

## Main results

* `vmmUnmapRange_eq`: the loop unmaps the pages of a walk with two strides
* `vmmUnmapRange_exact_iff`: when a range is unmapped and nothing else
-/

namespace ZohoOs

open Forest Relation Stride TransitionSystem

/-! ## The function -/

/-- The test of `vmm_unmap_range`: the captured root has `PAGE_HUGE` in its directory entry over
`addr`. -/
def currentHuge (s : Vmm) (addr : BitVec 64) : Bool :=
  let pdpt := getExistingTable s s.currentPml4 (pml4Index addr)
  let pd := if pdpt ≠ 0 then getExistingTable s pdpt (pdptIndex addr) else 0
  decide (pd ≠ 0) && hasFlag (s.mem pd (pdIndex addr)) pageHuge

/-- The loop of `vmm_unmap_range`, from the offset `i`. -/
def vmmUnmapRangeFrom (pml4 : Nat) (virt size : BitVec 64) : Nat → Vmm → BitVec 64 → Option Vmm
  | 0, _, _ => none
  | fuel + 1, s, i =>
    if i < size then
      if currentHuge s (virt + i) then
        vmmUnmapRangeFrom pml4 virt size fuel (vmmUnmap s pml4 (virt + i)) (i + 0x200000#64)
      else
        vmmUnmapRangeFrom pml4 virt size fuel (vmmUnmap s pml4 (virt + i)) (i + 0x1000#64)
    else some s

/-- `vmm_unmap_range`. -/
def vmmUnmapRange (fuel : Nat) (s : Vmm) (pml4 : Nat) (virt size : BitVec 64) : Option Vmm :=
  vmmUnmapRangeFrom pml4 virt size fuel s 0#64

/-! ## The loop -/

/-- The captured root has `PAGE_HUGE` over the 2 MiB block `m` of addresses. -/
def blockHuge (s : Vmm) (m : Nat) : Bool := currentHuge s (BitVec.ofNat 64 (0x200000 * m))

section Loop

variable {s : Vmm} {live : Finset Nat} {b : Nat}

theorem Vmm.owner_kernel (s : Vmm) (i : Fin 512) : s.owner s.currentPml4 i = s.currentPml4 :=
  ite_self _

/-- The test reads the directory entry of the captured root. -/
theorem currentHuge_eq (h : Wf s live) (addr : BitVec 64) :
    currentHuge s addr = hasFlag (s.pde s.currentPml4 (pageNumber addr)) pageHuge := by
  rcases h.walk_cases (s.kernel_mem_roots live) (s.owner_kernel _) rfl rfl rfl rfl with
    ⟨hzero, hpde, -⟩ | ⟨hne₁, hne₂, hpde, -⟩
  · rw [hpde, zero_hasFlag, currentHuge]
    split
    · next hne => simp [hzero.resolve_left hne]
    · simp
  · rw [currentHuge, if_pos hne₁, hpde, decide_eq_true hne₂, Bool.true_and]

/-- The test for an address is that for its block. -/
theorem currentHuge_block (h : Wf s live) (v : BitVec 64) :
    currentHuge s v = blockHuge s (v.toNat / 0x200000) := by
  have hdirectory : (pageNumber v).directory =
      (pageNumber (BitVec.ofNat 64 (0x200000 * (v.toNat / 0x200000)))).directory := by
    rw [directory_eq_iff_block, BitVec.toNat_ofNat]
    omega
  rw [blockHuge, currentHuge_eq h, currentHuge_eq h, Vmm.pde_congr hdirectory]

theorem currentHuge_pageAddr (h : Wf s live) {n : Nat} (hn : n < 2 ^ 36) :
    currentHuge s (pageAddr n) = blockHuge s (n / 512) := by
  rw [currentHuge_block h, pageAddr_toNat hn, show 0x1000 * n / 0x200000 = n / 512 by omega]

/-- What is unmapped at a stop of the loop changes no test ahead of it. -/
theorem blockHuge_unmap (h : Wf s live) (hb : b ∈ s.roots live) {a n : Nat} (hn : n < 2 ^ 36)
    (hnext : a + stride (fun n => blockHuge s (n / 512)) 512 a ≤ n) :
    blockHuge (vmmUnmap s b (pageAddr a)) (n / 512) = blockHuge s (n / 512) := by
  have hclear := vmmUnmap_cleared h hb (pageAddr a)
  have hpos : 0 < stride (fun n => blockHuge s (n / 512)) 512 a := stride_pos (by decide) a
  rw [← currentHuge_pageAddr h hn, ← currentHuge_pageAddr hclear.wf hn, currentHuge_eq h,
    currentHuge_eq hclear.wf, hclear.currentPml4, hclear.pde _ (s.kernel_mem_roots live), if_neg]
  rintro ⟨hhuge, -, hmem⟩
  rw [List.map_singleton, List.mem_singleton, directory_pageAddr (by omega)
    (by rw [pageAddr_toNat hn]; omega), pageAddr_toNat hn] at hmem
  -- a leaf of the captured root that is cleared is jumped over
  have hbig : blockHuge s (a / 512) = true := by
    rw [← currentHuge_pageAddr h (by omega), currentHuge_eq h, ← hhuge]
    congr 1
    apply Vmm.pde_congr
    rw [directory_pageAddr hn (by rw [pageAddr_toNat (by omega)]; omega),
      pageAddr_toNat (by omega)]
    omega
  have hstride : stride (fun n => blockHuge s (n / 512)) 512 a = 512 := if_pos hbig
  omega

/-- **The loop unmaps the pages of a walk with two strides**, and the tests of the walk are those
of the state it starts from. -/
theorem vmmUnmapRangeFrom_eq {virt size : BitVec 64} (hvirt : virt.toNat % 0x1000 = 0)
    (hsize : size.toNat % 0x1000 = 0) (hrange : virt.toNat + size.toNat ≤ 2 ^ 48) (fuel : Nat)
    {i : BitVec 64} (h : Wf s live) (hb : b ∈ s.roots live) (hi : i.toNat % 0x1000 = 0)
    (hfuel : size.toNat ≤ i.toNat + 0x1000 * fuel) :
    vmmUnmapRangeFrom b virt size (fuel + 1) s i =
      some ((Stride.visits (fun n => blockHuge s (n / 512)) 512 fuel ((virt.toNat + i.toNat) / 0x1000)
        ((virt.toNat + size.toNat) / 0x1000)).foldl (fun s n => vmmUnmap s b (pageAddr n)) s) := by
  induction fuel generalizing s i with
  | zero =>
    have hend : ¬ i < size := by
      rw [BitVec.lt_def]
      omega
    rw [vmmUnmapRangeFrom, if_neg hend]
    rfl
  | succ fuel ih =>
    rw [vmmUnmapRangeFrom]
    by_cases hlt : i < size
    · have hlt' := BitVec.lt_def.mp hlt
      generalize hA : (virt.toNat + i.toNat) / 0x1000 = a
      generalize hB : (virt.toNat + size.toNat) / 0x1000 = b'
      have haddr : virt + i = pageAddr a := by
        apply BitVec.eq_of_toNat_eq
        rw [BitVec.toNat_add, pageAddr_toNat (by omega)]
        omega
      have hclear := vmmUnmap_cleared h hb (pageAddr a)
      have hb₁ : b ∈ (vmmUnmap s b (pageAddr a)).roots live :=
        Vmm.roots_congr hclear.currentPml4 ▸ hb
      -- the tests ahead are those of the state before
      have hnext : ∀ j : BitVec 64, (virt.toNat + j.toNat) / 0x1000 =
            a + stride (fun n => blockHuge s (n / 512)) 512 a → j.toNat % 0x1000 = 0 →
          size.toNat ≤ j.toNat + 0x1000 * fuel →
          vmmUnmapRangeFrom b virt size (fuel + 1) (vmmUnmap s b (pageAddr a)) j =
            some ((Stride.visits (fun n => blockHuge s (n / 512)) 512 (fuel + 1) a b').foldl
              (fun s n => vmmUnmap s b (pageAddr n)) s) := by
        intro j hj hj0 hjf
        rw [ih hclear.wf hb₁ hj0 hjf, hj, hB, visits_succ (by omega), List.foldl_cons]
        congr 2
        refine visits_congr fun n hn hnb => blockHuge_unmap h hb (by omega) hn
      have htest : currentHuge s (pageAddr a) = blockHuge s (a / 512) :=
        currentHuge_pageAddr h (by omega)
      rw [if_pos hlt, haddr, htest]
      cases hbig : blockHuge s (a / 512) with
      | true =>
        have hstride : stride (fun n => blockHuge s (n / 512)) 512 a = 512 := if_pos hbig
        have hj : (i + 0x200000#64).toNat = i.toNat + 0x200000 := by
          rw [BitVec.toNat_add]
          exact Nat.mod_eq_of_lt (by simp only [BitVec.toNat_ofNat]; omega)
        rw [if_pos rfl]
        apply hnext <;> omega
      | false =>
        have hstride : stride (fun n => blockHuge s (n / 512)) 512 a = 1 :=
          if_neg (by simp [hbig])
        have hj : (i + 0x1000#64).toNat = i.toNat + 0x1000 := by
          rw [BitVec.toNat_add]
          exact Nat.mod_eq_of_lt (by simp only [BitVec.toNat_ofNat]; omega)
        rw [if_neg (by simp)]
        apply hnext <;> omega
    · rw [BitVec.lt_def] at hlt
      rw [if_neg (by rwa [BitVec.lt_def]), visits_nil (by omega)]
      rfl

/-- The pages unmapped one after another. -/
theorem unmapPages_cleared (l : List Nat) (h : Wf s live) (hb : b ∈ s.roots live) :
    Cleared live b (l.map fun n => pageNumber (pageAddr n)) s
      (l.foldl (fun s n => vmmUnmap s b (pageAddr n)) s) := by
  induction l generalizing s with
  | nil => exact Cleared.refl h
  | cons n l ih =>
    have hclear := vmmUnmap_cleared h hb (pageAddr n)
    exact hclear.trans (ih hclear.wf (Vmm.roots_congr hclear.currentPml4 ▸ hb))

end Loop

/-! ## Ranges -/

/-- The range contains each 2 MiB leaf of the space either wholly or not at all. -/
def WholeLeaves (s : Vmm) (b : Nat) (virt size : BitVec 64) : Prop :=
  ∀ v v', s.Large b v → v.toNat / 0x200000 = v'.toNat / 0x200000 → InRange virt size v →
    InRange virt size v'

/-- The loop stops at the page of `v`. It does so in a block over which the captured root has no
2 MiB leaf from the offset on that it enters the block at, and in the others at that offset only. The
offset is that of `virt` in its block, up to the first block without a leaf; then it is 0. -/
def Reached (s : Vmm) (virt v : BitVec 64) : Prop :=
  Visited (blockHuge s) 512 (virt.toNat / 0x1000) (v.toNat / 0x1000)

/-- **What the function is for**: no page of the range is present, and every translation outside it
is as it was. -/
structure RangeUnmapped (s s' : Vmm) (b : Nat) (virt size : BitVec 64) : Prop where
  gone : ∀ v, InRange virt size v → hasFlag (vmmGetFlags s' b v) pagePresent = false
  kept : ∀ v : BitVec 64, v.toNat < 2 ^ 48 → ¬ InRange virt size v →
    vmmGetPhys s' b v = vmmGetPhys s b v ∧ vmmGetFlags s' b v = vmmGetFlags s b v

section Ranges

variable {s s' : Vmm} {live : Finset Nat} {b : Nat} {virt size v v' : BitVec 64} {l : List Nat}

theorem mem_pages (hl : ∀ n ∈ l, n < 2 ^ 36) (hv : v.toNat < 2 ^ 48) :
    pageNumber v ∈ l.map (fun n => pageNumber (pageAddr n)) ↔ v.toNat / 0x1000 ∈ l := by
  rw [List.mem_map]
  constructor
  · rintro ⟨n, hn, heq⟩
    rwa [(pageNumber_pageAddr (hl n hn) hv).mp heq.symm]
  · intro hn
    exact ⟨_, hn, ((pageNumber_pageAddr (hl _ hn) hv).mpr rfl).symm⟩

theorem mem_directories (hl : ∀ n ∈ l, n < 2 ^ 36) (hv : v.toNat < 2 ^ 48) :
    (pageNumber v).directory ∈ (l.map fun n => pageNumber (pageAddr n)).map PageNumber.directory ↔
      ∃ n ∈ l, v.toNat / 0x200000 = n / 512 := by
  simp only [List.mem_map, exists_exists_and_eq_and]
  constructor
  · rintro ⟨n, hn, heq⟩
    exact ⟨n, hn, (directory_pageAddr (hl n hn) hv).mp heq.symm⟩
  · rintro ⟨n, hn, heq⟩
    exact ⟨n, hn, ((directory_pageAddr (hl n hn) hv).mpr heq).symm⟩

section After

variable (h : Cleared live b (l.map fun n => pageNumber (pageAddr n)) s s')
  (hb : b ∈ s.roots live) (hl : ∀ n ∈ l, n < 2 ^ 36) (hv : v.toNat < 2 ^ 48)

include h hb hl hv

/-- The directory entry over an address, once pages are unmapped. -/
theorem Cleared.pde_at : s'.pde (s.owner b (pml4Index v)) (pageNumber v) =
    if hasFlag (s.pde (s.owner b (pml4Index v)) (pageNumber v)) pageHuge = true ∧
      ∃ n ∈ l, v.toNat / 0x200000 = n / 512 then 0#64
    else s.pde (s.owner b (pml4Index v)) (pageNumber v) := by
  rw [h.pde _ (Vmm.owner_mem_roots hb)]
  refine if_congr (and_congr_right fun _ => ?_) rfl rfl
  rw [mem_directories hl hv]
  exact and_iff_right rfl

/-- The entry of an address, once pages are unmapped. -/
theorem Cleared.pte_at : s'.pte (s.owner b (pml4Index v)) (pageNumber v) =
    if v.toNat / 0x1000 ∈ l then 0#64 else s.pte (s.owner b (pml4Index v)) (pageNumber v) := by
  rw [h.pte _ (Vmm.owner_mem_roots hb)]
  refine if_congr ?_ rfl rfl
  rw [mem_pages hl hv]
  exact and_iff_right rfl

omit hl hv in
theorem Cleared.getFlags_at : vmmGetFlags s' b v =
    if hasFlag (s'.pde (s.owner b (pml4Index v)) (pageNumber v)) pageHuge then
      s'.pde (s.owner b (pml4Index v)) (pageNumber v) &&& 0xFFF#64
    else s'.pte (s.owner b (pml4Index v)) (pageNumber v) &&& 0xFFF#64 := by
  refine vmmGetFlags_eq h.wf (Vmm.roots_congr h.currentPml4 ▸ hb) ?_ rfl
  rw [Vmm.owner, h.currentPml4, Vmm.owner]

/-- Under a leaf with an unmapped page, nothing is mapped any more. -/
theorem Cleared.getFlags_leaf (hlarge : s.Large b v) {n : Nat} (hn : n ∈ l)
    (hblock : v.toNat / 0x200000 = n / 512) : vmmGetFlags s' b v = 0#64 := by
  have hhuge : hasFlag (s.pde (s.owner b (pml4Index v)) (pageNumber v)) pageHuge = true := hlarge.2
  have hpde := h.pde_at hb hl hv
  rw [if_pos ⟨hhuge, n, hn, hblock⟩] at hpde
  rw [h.getFlags_at hb, hpde, zero_hasFlag, if_neg (by simp), h.pte_at hb hl hv,
    Vmm.pte_of_huge hhuge, ite_self, BitVec.zero_and]

/-- Outside the leaves, an unmapped page has no flags. -/
theorem Cleared.getFlags_page (hclean : Clean s live) (hsmall : ¬ s.Large b v)
    (hn : v.toNat / 0x1000 ∈ l) : vmmGetFlags s' b v = 0#64 := by
  rw [hclean.large_iff hb] at hsmall
  have hpde := h.pde_at hb hl hv
  rw [if_neg fun hc => hsmall hc.1] at hpde
  rw [h.getFlags_at hb, hpde, if_neg hsmall, h.pte_at hb hl hv, if_pos hn, BitVec.zero_and]

/-- Every other address is translated as before. -/
theorem Cleared.translation (hwf : Wf s live) (hclean : Clean s live)
    (hleaf : s.Large b v → ∀ n ∈ l, v.toNat / 0x200000 ≠ n / 512)
    (hpage : ¬ s.Large b v → v.toNat / 0x1000 ∉ l) :
    vmmGetPhys s' b v = vmmGetPhys s b v ∧ vmmGetFlags s' b v = vmmGetFlags s b v := by
  have hb' : b ∈ s'.roots live := Vmm.roots_congr h.currentPml4 ▸ hb
  have howner : s'.owner b (pml4Index v) = s.owner b (pml4Index v) := by
    rw [Vmm.owner, h.currentPml4, Vmm.owner]
  have htable := h.table _ (Vmm.owner_mem_roots (i := pml4Index v) hb) (pageNumber v).path
  have hpde : s'.pde (s.owner b (pml4Index v)) (pageNumber v) =
      s.pde (s.owner b (pml4Index v)) (pageNumber v) := by
    rw [h.pde_at hb hl hv, if_neg]
    rintro ⟨hhuge, n, hn, hblock⟩
    exact hleaf ((hclean.large_iff hb).mpr hhuge) n hn hblock
  have hpte : s'.pte (s.owner b (pml4Index v)) (pageNumber v) =
      s.pte (s.owner b (pml4Index v)) (pageNumber v) := by
    rw [h.pte_at hb hl hv]
    by_cases hlarge : s.Large b v
    · have hhuge := (hclean.large_iff hb).mp hlarge
      rw [Vmm.pte_of_huge hhuge, ite_self]
    · rw [if_neg (hpage hlarge)]
  rw [vmmGetPhys_eq h.wf hb' howner rfl, vmmGetPhys_eq hwf hb rfl rfl,
    vmmGetFlags_eq h.wf hb' howner rfl, vmmGetFlags_eq hwf hb rfl rfl, hpde, hpte, htable]
  exact ⟨rfl, rfl⟩

end After

/-- The pages of a range at which the loop stops. -/
def rangeStops (s : Vmm) (virt size : BitVec 64) (fuel : Nat) : List Nat :=
  Stride.visits (fun n => blockHuge s (n / 512)) 512 fuel (virt.toNat / 0x1000)
    ((virt.toNat + size.toNat) / 0x1000)

section Stops

variable (hrange : PageRange virt size) {fuel : Nat} (hfuel : size.toNat ≤ 0x1000 * fuel)

include hrange

theorem rangeStops_lt : ∀ n ∈ rangeStops s virt size fuel, n < 2 ^ 36 := by
  intro n hn
  have hbounds := visits_bounds hn
  have hbound := hrange.bound
  omega

include hfuel

theorem mem_rangeStops (hv : InRange virt size v) :
    v.toNat / 0x1000 ∈ rangeStops s virt size fuel ↔ Reached s virt v := by
  have hbounds := (inRange_iff hrange).mp hv
  have h₁ := hrange.virt_aligned
  have h₂ := hrange.size_aligned
  rw [rangeStops, mem_visits (by decide) (by omega), Reached]
  exact ⟨fun hc => hc.2.2, fun hc => ⟨hbounds.1, hbounds.2, hc⟩⟩

/-- A leaf in the range is not left out. -/
theorem exists_stop (hleaves : WholeLeaves s b virt size) (hv : InRange virt size v)
    (hlarge : s.Large b v) :
    ∃ n ∈ rangeStops s virt size fuel, v.toNat / 0x200000 = n / 512 := by
  have hlt := hv.lt hrange
  have hmem : ∀ x, x / 0x200000 = v.toNat / 0x200000 → InRange virt size (BitVec.ofNat 64 x) := by
    intro x hx
    refine hleaves v _ hlarge ?_ hv
    rw [BitVec.toNat_ofNat, Nat.mod_eq_of_lt (by omega), hx]
  -- the first page of the block and the last one are in the range
  have hfirst := (hmem (v.toNat / 0x200000 * 0x200000) (by omega)).1
  have hlast := (hmem (v.toNat / 0x200000 * 0x200000 + 0x1FFFFF) (by omega)).2
  have h₁ := hrange.virt_aligned
  have h₂ := hrange.size_aligned
  rw [BitVec.toNat_ofNat, Nat.mod_eq_of_lt (by omega)] at hfirst hlast
  have hend : (virt.toNat + size.toNat) / 0x1000 ≤ virt.toNat / 0x1000 + fuel := by omega
  have hblock : ∃ n ∈ rangeStops s virt size fuel, n / 512 = v.toNat / 0x200000 :=
    exists_visit (by decide) hend (by omega) (by omega)
  obtain ⟨n, hn, hn'⟩ := hblock
  exact ⟨n, hn, hn'.symm⟩

end Stops

/-- Where the captured root has its leaves over the range where the space has them, the loop stops at
every page outside the leaves. -/
theorem reached_of_agree (h : Wf s live) (hleaves : WholeLeaves s b virt size)
    (hagree : ∀ v, InRange virt size v → (currentHuge s v = true ↔ s.Large b v))
    (hv : InRange virt size v) (hsmall : ¬ s.Large b v) : Reached s virt v := by
  have hle := hv.1
  have htest : blockHuge s (v.toNat / 0x1000 / 512) = false := by
    rw [show v.toNat / 0x1000 / 512 = v.toNat / 0x200000 by omega, ← currentHuge_block h]
    simpa using mt (hagree v hv).mp hsmall
  rw [Reached, Visited, htest, if_neg (by simp)]
  by_cases hblock : virt.toNat / 0x1000 / 512 = v.toNat / 0x1000 / 512
  · rw [← hblock, entry_self]
    omega
  · unfold entry
    split
    · next hall =>
      -- the range begins with a leaf, so at the first page of the leaf
      have hvirt : InRange virt size virt := ⟨le_rfl, lt_of_le_of_lt hle hv.2⟩
      have hhuge := hall (virt.toNat / 0x1000 / 512) (by omega) le_rfl
      rw [show virt.toNat / 0x1000 / 512 = virt.toNat / 0x200000 by omega,
        ← currentHuge_block h, hagree virt hvirt] at hhuge
      have hstart := (hleaves virt (BitVec.ofNat 64 (virt.toNat / 0x200000 * 0x200000)) hhuge
        (by rw [BitVec.toNat_ofNat]; omega) hvirt).1
      rw [BitVec.toNat_ofNat] at hstart
      omega
    · exact Nat.zero_le _

/-- **When a range is unmapped and nothing else.** In any address space, for every range of pages that
contains each 2 MiB leaf wholly or not at all: the call ends, what is mapped outside the range is as it
was, and the range is unmapped iff the loop stops at each 4 KiB page of it that is present. So it is
where the captured root has its leaves over the range where the space has them. -/
theorem vmmUnmapRange_exact_iff (h : Wf s live) (hclean : Clean s live) (hb : b ∈ s.roots live)
    (hrange : PageRange virt size) (hleaves : WholeLeaves s b virt size) :
    ∃ s', (∀ fuel, size.toNat / 0x1000 < fuel → vmmUnmapRange fuel s b virt size = some s') ∧
      (∀ v : BitVec 64, v.toNat < 2 ^ 48 → ¬ InRange virt size v →
        vmmGetPhys s' b v = vmmGetPhys s b v ∧ vmmGetFlags s' b v = vmmGetFlags s b v) ∧
      (RangeUnmapped s s' b virt size ↔ ∀ v, InRange virt size v →
        hasFlag (vmmGetFlags s b v) pagePresent = true → ¬ s.Large b v → Reached s virt v) ∧
      ((∀ v, InRange virt size v → (currentHuge s v = true ↔ s.Large b v)) →
        RangeUnmapped s s' b virt size) := by
  have hloop : ∀ fuel, size.toNat ≤ 0x1000 * fuel → vmmUnmapRange (fuel + 1) s b virt size =
      some ((rangeStops s virt size fuel).foldl (fun s n => vmmUnmap s b (pageAddr n)) s) := by
    intro fuel hfuel
    exact vmmUnmapRangeFrom_eq hrange.virt_aligned hrange.size_aligned hrange.bound fuel h hb rfl
      (by simpa using hfuel)
  -- the loop takes one round for each page at most
  have hfuel : size.toNat ≤ 0x1000 * (size.toNat / 0x1000) := by
    have := hrange.size_aligned
    omega
  have hstops : ∀ fuel, size.toNat ≤ 0x1000 * fuel →
      rangeStops s virt size fuel = rangeStops s virt size (size.toNat / 0x1000) := by
    intro fuel hfuel'
    have := hrange.virt_aligned
    exact visits_fuel (by decide) (by omega) (by omega)
  have hclear := unmapPages_cleared (rangeStops s virt size (size.toNat / 0x1000)) h hb
  generalize hs' : (rangeStops s virt size (size.toNat / 0x1000)).foldl
    (fun s n => vmmUnmap s b (pageAddr n)) s = s' at hclear
  have hlt : ∀ n ∈ rangeStops s virt size (size.toNat / 0x1000), n < 2 ^ 36 :=
    rangeStops_lt hrange
  have hkept : ∀ v : BitVec 64, v.toNat < 2 ^ 48 → ¬ InRange virt size v →
      vmmGetPhys s' b v = vmmGetPhys s b v ∧ vmmGetFlags s' b v = vmmGetFlags s b v := by
    intro v hv hout
    refine hclear.translation hb hlt hv h hclean (fun hlarge n hn hblock => ?_) fun _ hn => ?_
    · -- a leaf with a page of the range in it is in the range
      have hbounds := visits_bounds hn
      have hn' := hlt n hn
      have hnum := pageAddr_toNat hn'
      have hin : InRange virt size (pageAddr n) := by
        rw [inRange_iff hrange, hnum]
        omega
      have hsame : (pageNumber (pageAddr n)).directory = (pageNumber v).directory :=
        ((directory_pageAddr hn' hv).mpr hblock).symm
      exact hout (hleaves _ v ((Vmm.large_congr hsame).mpr hlarge) (by omega) hin)
    · have hbounds := visits_bounds hn
      exact hout ((inRange_iff hrange).mpr hbounds)
  have hdone : (∀ v, InRange virt size v → hasFlag (vmmGetFlags s b v) pagePresent = true →
      ¬ s.Large b v → Reached s virt v) → RangeUnmapped s s' b virt size := by
    refine fun hreach => ⟨fun v hv => ?_, hkept⟩
    by_cases hlarge : s.Large b v
    · obtain ⟨n, hn, hblock⟩ := exists_stop hrange hfuel hleaves hv hlarge
      rw [hclear.getFlags_leaf hb hlt (hv.lt hrange) hlarge hn hblock, zero_hasFlag]
    · by_cases hstop : v.toNat / 0x1000 ∈ rangeStops s virt size (size.toNat / 0x1000)
      · rw [hclear.getFlags_page hb hlt (hv.lt hrange) hclean hlarge hstop, zero_hasFlag]
      · -- a page the loop does not stop at was not present
        rw [(hclear.translation hb hlt (hv.lt hrange) h hclean (fun hc => absurd hc hlarge)
          fun _ => hstop).2]
        by_contra hpres
        rw [mem_rangeStops hrange hfuel hv] at hstop
        exact hstop (hreach v hv (by simpa using hpres) hlarge)
  refine ⟨s', fun fuel hlt => ?_, hkept, ⟨fun hdone v hv hpres hsmall => ?_, hdone⟩, fun hagree => ?_⟩
  · cases fuel with
    | zero => omega
    | succ fuel => rw [hloop fuel (by omega), hstops fuel (by omega), hs']
  · by_contra hnot
    have hflags := hdone.gone v hv
    rw [(hclear.translation hb hlt (hv.lt hrange) h hclean (fun hlarge => absurd hlarge hsmall)
      fun _ => by rwa [mem_rangeStops hrange hfuel hv]).2, hpres] at hflags
    cases hflags
  · exact hdone fun v hv _ hsmall => reached_of_agree h hleaves hagree hv hsmall

end Ranges

/-! ## Two spaces at boot -/

/-- Below the captured root a 2 MiB leaf is mapped over a page that another space maps by itself. -/
theorem bootWorld_leaf : ∃ pmm w, pmmInit bootMachine 0x106000 = some pmm ∧
    Run vmmStep (bootWorld pmm) [.create, .map 0x100000 0x8000000000#64 0x200000#64 0x83#64,
      .map 0x10D000 0x8000001000#64 0x300000#64 0x7#64] w ∧
    Wf w.vmm w.live ∧ Clean w.vmm w.live ∧ 0x10D000 ∈ w.live ∧
    currentHuge w.vmm 0x8000000000#64 = true ∧
    (∀ q, hasFlag (w.vmm.pde 0x10D000 q) pageHuge = false) ∧
    w.vmm.pte 0x10D000 (pageNumber 0x8000001000#64) = pageEntry 0x300000#64 0x7#64 := by
  obtain ⟨pmm, h, hstack⟩ := pmmInit_bootMachine
  have hwf := bootWorld_wf h hstack
  obtain ⟨s₁, hstep₁, hc₁, hl₁⟩ := vmmStep_create hwf hstack (by decide)
  have hk₁ : s₁.unread.currentPml4 = 0x100000 := hc₁.currentPml4
  have hwf₁ : Wf s₁.unread (insert 0x10D000 ∅) := hc₁.wf.unread
  have hav₁ : s₁.unread.pmm.Available 6 := by
    rw [Pmm.Available, show s₁.unread.pmm.freeStack = _ from hl₁]
    decide
  have ha : 0x10D000 ∈ (insert 0x10D000 ∅ : Finset Nat) := by simp
  have hkernel : 0x100000 ∈ s₁.unread.roots (insert 0x10D000 ∅) :=
    hk₁ ▸ s₁.unread.kernel_mem_roots _
  -- the leaf of the captured root
  have hmap₂ := vmmMap_spec hwf₁ hkernel 0x8000000000#64 0x200000#64 0x83#64 (Or.inl (by decide))
  have hav₂ := vmmMap_available (n := 3) hav₁ 0x100000 0x8000000000#64 0x200000#64 0x83#64
  rw [Vmm.owner, if_neg (by decide)] at hmap₂
  have hstep₂ : vmmStep ⟨s₁, insert 0x10D000 ∅⟩
      (.map 0x100000 0x8000000000#64 0x200000#64 0x83#64) ⟨_, insert 0x10D000 ∅⟩ :=
    ⟨⟨hkernel, Or.inl (by decide)⟩, rfl⟩
  generalize vmmMap s₁.unread 0x100000 0x8000000000#64 0x200000#64 0x83#64 = s₂ at *
  have hwf₂ : Wf s₂ (insert 0x10D000 ∅) := hmap₂.wf hwf₁ hkernel
  have hk₂ : s₂.unread.currentPml4 = 0x100000 := hmap₂.currentPml4.trans hk₁
  have hpde₂ : hasFlag (s₂.pde 0x100000 (pageNumber 0x8000000000#64)) pageHuge = true := by
    obtain ⟨t, pd, hsteps, hpd, -, rfl⟩ :=
      hmap₂.huge_of_available (hav₁.mono ((Vmm.mapNeeds_le _ _ _).trans (by decide))) (by decide)
    rw [Vmm.pde, (hsteps.wf hwf₁).writeHuge_entry (hsteps.roots ▸ hkernel) rfl hpd (by decide)
      (hsteps.roots ▸ hkernel), if_neg (by simp), if_pos ⟨rfl, rfl, rfl⟩]
    decide
  -- the other space has no table but its root
  have hroot : 0x10D000 ∈ s₁.unread.roots (insert 0x10D000 ∅) := Vmm.mem_roots ha
  have hnone : ∀ p, p ≠ [] → s₂.unread.table 0x10D000 p = none := by
    intro p hp
    have hsame : s₂.table 0x10D000 p = s₁.unread.table 0x10D000 p :=
      Vmm.table_frame hmap₂.currentPml4
        (fun p t ht => hmap₂.mem_of_ne hwf₁ hkernel hroot (by decide) ht) p
    by_contra hne
    obtain ⟨t, ht⟩ := Option.ne_none_iff_exists'.mp hne
    exact hp (hc₁.table_new (hsame.symm.trans ht)).1
  have hpde : ∀ q, hasFlag (s₂.unread.pde 0x10D000 q) pageHuge = false := by
    intro q
    rw [Vmm.pde, Vmm.entry_of_none (hnone _ (by simp)), zero_hasFlag]
  have hset : EntrySet (insert 0x10D000 ∅) 0x10D000 (pageNumber 0x8000001000#64) _ s₂.unread
      (vmmMap s₂.unread 0x10D000 0x8000001000#64 0x300000#64 0x7#64) :=
    vmmMap_entrySet hwf₂.unread ha (by decide) hpde (by decide) _
  have hav₃ : s₂.unread.pmm.Available 3 := hav₂
  rw [if_pos (hav₃.mono (Vmm.mapNeeds_le _ _ _))] at hset
  have hmap₃ := vmmMap_result hwf₂.unread ha (by decide : pml4Index 0x8000001000#64 ≠ 0) hpde
    0x300000#64 0x7#64
  have hstep₃ : vmmStep ⟨s₂, insert 0x10D000 ∅⟩
      (.map 0x10D000 0x8000001000#64 0x300000#64 0x7#64)
      ⟨vmmMap s₂.unread 0x10D000 0x8000001000#64 0x300000#64 0x7#64, insert 0x10D000 ∅⟩ := by
    refine ⟨⟨Vmm.mem_roots ha, Or.inr ?_⟩, rfl⟩
    rintro ⟨hhuge, -⟩
    rw [Vmm.owner, if_neg (by decide)] at hhuge
    have hbit : hasFlag (s₂.unread.pde 0x10D000 (pageNumber 0x8000001000#64)) pageHuge = true :=
      hhuge.2
    rw [hpde] at hbit
    cases hbit
  have hrun := Run.cons hstep₁ (Run.cons hstep₂ (Run.single hstep₃))
  refine ⟨pmm, _, h, hrun, hset.wf, ?_, ha, ?_, hset.pde, ?_⟩
  · have hinv : _ ∧ _ :=
      hrun.invariant (I := fun w : World => Wf w.vmm w.live ∧ Clean w.vmm w.live)
        (fun _ _ _ h hstep => ⟨h.1.step hstep, h.2.step h.1 hstep⟩) ⟨hwf, bootWorld_clean pmm⟩
    exact hinv.2
  · -- the tables of the captured root are as before the last call
    have hroots₂ : 0x100000 ∈ s₂.unread.roots (insert 0x10D000 ∅) :=
      hk₂ ▸ s₂.unread.kernel_mem_roots _
    rw [currentHuge_eq hset.wf, hmap₃.currentPml4, hk₂, Vmm.pde,
      Vmm.entry_frame hmap₃.currentPml4 fun p t ht =>
        hmap₃.mem_of_ne hwf₂.unread (Vmm.mem_roots ha) hroots₂ (by decide) ht]
    exact hpde₂
  · rw [hset.pte, if_pos rfl]

/-- Outside slot 0 a space without leaves of its own has none. -/
theorem wholeLeaves_of_slot {s : Vmm} {b : Nat} {virt size : BitVec 64}
    (hpde : ∀ q, hasFlag (s.pde b q) pageHuge = false) (hrange : PageRange virt size)
    (hslot : 0x8000000000 ≤ virt.toNat) : WholeLeaves s b virt size := by
  intro v v' hlarge _ hv
  have hlt := hv.lt hrange
  have hle := hv.1
  have hne : pml4Index v ≠ 0 := by
    rw [ne_eq, Fin.ext_iff, pml4Index, index_val, Fin.val_zero]
    omega
  have hhuge : hasFlag (s.pde (s.owner b (pml4Index v)) (pageNumber v)) pageHuge = true := hlarge.2
  rw [Vmm.owner, if_neg hne, hpde] at hhuge
  cases hhuge

/-- At boot: the page is unmapped by a range of its own, which the captured root has a leaf over. -/
theorem vmmUnmapRange_exact_boot : ∃ pmm w s', pmmInit bootMachine 0x106000 = some pmm ∧
    Run vmmStep (bootWorld pmm) [.create, .map 0x100000 0x8000000000#64 0x200000#64 0x83#64,
      .map 0x10D000 0x8000001000#64 0x300000#64 0x7#64] w ∧
    (∀ fuel, 1 < fuel →
      vmmUnmapRange fuel w.vmm 0x10D000 0x8000001000#64 0x1000#64 = some s') ∧
    RangeUnmapped w.vmm s' 0x10D000 0x8000001000#64 0x1000#64 := by
  obtain ⟨pmm, w, h, hrun, hwf, hclean, ha, -, hpde, -⟩ := bootWorld_leaf
  have hrange : PageRange 0x8000001000#64 0x1000#64 := ⟨by decide, by decide, by decide⟩
  obtain ⟨s', hends, -, hiff, -⟩ := vmmUnmapRange_exact_iff hwf hclean (Vmm.mem_roots ha) hrange
    (wholeLeaves_of_slot hpde hrange (by decide))
  refine ⟨pmm, w, s', h, hrun, hends, hiff.mpr fun v hv _ _ => ?_⟩
  -- the one page of the range is where the loop starts
  have hpage : v.toNat / 0x1000 = (0x8000001000#64 : BitVec 64).toNat / 0x1000 := by
    have hpages := (inRange_iff hrange).mp hv
    simp only [BitVec.toNat_ofNat] at hpages ⊢
    omega
  rw [Reached, hpage]
  exact visited_self

/-- **A page is left out.** The range has a page that is present and no leaf. The captured root has a
leaf over it, so the loop goes on behind the range at once. -/
theorem vmmUnmapRange_leaves : ∃ pmm w s', pmmInit bootMachine 0x106000 = some pmm ∧
    Run vmmStep (bootWorld pmm) [.create, .map 0x100000 0x8000000000#64 0x200000#64 0x83#64,
      .map 0x10D000 0x8000001000#64 0x300000#64 0x7#64] w ∧ 0x10D000 ∈ w.live ∧
    PageRange 0x8000000000#64 0x2000#64 ∧ WholeLeaves w.vmm 0x10D000 0x8000000000#64 0x2000#64 ∧
    (∀ fuel, 2 ≤ fuel →
      vmmUnmapRange fuel w.vmm 0x10D000 0x8000000000#64 0x2000#64 = some s') ∧
    InRange 0x8000000000#64 0x2000#64 0x8000001000#64 ∧
    vmmGetFlags s' 0x10D000 0x8000001000#64 = 0x7#64 := by
  obtain ⟨pmm, w, h, hrun, hwf, -, ha, hhuge, hpde, hpte⟩ := bootWorld_leaf
  have hroot : 0x10D000 ∈ w.vmm.roots w.live := Vmm.mem_roots ha
  have hclear := vmmUnmap_cleared hwf hroot 0x8000000000#64
  have hrange : PageRange 0x8000000000#64 0x2000#64 := ⟨by decide, by decide, by decide⟩
  refine ⟨pmm, w, vmmUnmap w.vmm 0x10D000 0x8000000000#64, h, hrun, ha, hrange,
    wholeLeaves_of_slot hpde hrange (by decide), fun fuel hfuel => ?_, ?_, ?_⟩
  -- the first block is large, so the loop is behind the range after it
  · obtain ⟨fuel, rfl⟩ := Nat.exists_eq_add_of_le' hfuel
    have hfirst : (0x8000000000#64 + 0#64 : BitVec 64) = 0x8000000000#64 := by decide
    rw [vmmUnmapRange, vmmUnmapRangeFrom, if_pos (by decide), hfirst, if_pos hhuge,
      vmmUnmapRangeFrom, if_neg (by decide)]
  · exact ⟨by decide, by decide⟩
  -- the second page is mapped by a page table, and is not cleared
  · have howner : (vmmUnmap w.vmm 0x10D000 0x8000000000#64).owner 0x10D000
        (pml4Index 0x8000001000#64) = 0x10D000 := if_neg (by decide)
    have hpde' := hclear.pde _ hroot (pageNumber 0x8000001000#64)
    have hpte' := hclear.pte _ hroot (pageNumber 0x8000001000#64)
    rw [if_neg fun hc => by rw [hpde] at hc; cases hc.1] at hpde'
    have hother : pageNumber 0x8000001000#64 ∉ [pageNumber 0x8000000000#64] := by decide
    rw [if_neg fun hc => hother hc.2, hpte] at hpte'
    rw [vmmGetFlags_eq hclear.wf (Vmm.roots_congr hclear.currentPml4 ▸ hroot) howner rfl, hpde',
      hpde, if_neg (by simp), hpte']
    decide

end ZohoOs
