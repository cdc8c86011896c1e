import ZohoOs.Memory.CowSpaces

/-!
# The calls under copy on write

What each call of a run does to the invariant, and to the pages each space sees: their contents,
and whether a store to them goes through.

## Main definitions

* `Vmm.view`: a page as a space sees it

## Main results

* `CowInv.mapFresh`, `CowInv.fault`, `CowInv.store`, `CowInv.clone`: the calls, in these terms
-/

namespace ZohoOs

open Forest Relation

/-- A store to the page goes through, after a fault if need be. -/
def storable (e : BitVec 64) : Bool := hasFlag e pageWritable || hasFlag e pageCow

/-- A page as a space sees it: its contents, and whether it can be stored to. -/
def Vmm.view (s : Vmm) (r : Nat) (q : PageNumber) : Option (Page × Bool) :=
  if hasFlag (s.pte r q) pagePresent then some (s.mem (pageOf (s.pte r q)), storable (s.pte r q))
  else none

section Address

variable {frames : Set Nat} {live : Finset Nat} {extra : Nat → Nat} {s : Vmm} {r : Nat}
  {virt : BitVec 64}

theorem shift_and_page (x : BitVec 64) {k : Nat} (hk : 12 ≤ k) :
    (x &&& ~~~0xFFF#64) >>> k = x >>> k := by
  refine BitVec.eq_of_getLsbD_eq fun i hi => ?_
  simp only [BitVec.getLsbD_ushiftRight, BitVec.getLsbD_and, BitVec.getLsbD_not]
  have hmask : (0xFFF#64).getLsbD (k + i) = false := by
    rw [BitVec.getLsbD_ofNat]
    simp only [Bool.and_eq_false_imp, decide_eq_true_eq]
    intro _
    exact Nat.testBit_lt_two_pow
      (lt_of_lt_of_le (by decide : 0xFFF < 2 ^ 12) (Nat.pow_le_pow_right (by decide) (by omega)))
  by_cases hlt : k + i < 64
  · rw [hmask]
    simp [hlt]
  · rw [BitVec.getLsbD_of_ge x _ (by omega), Bool.false_and]

/-- The page of an address does not depend on its offset. -/
theorem pageNumber_and_page (virt : BitVec 64) :
    pageNumber (virt &&& ~~~0xFFF#64) = pageNumber virt := by
  simp only [pageNumber, pml4Index, pdptIndex, pdIndex, ptIndex,
    shift_and_page virt (show 12 ≤ 39 by decide), shift_and_page virt (show 12 ≤ 30 by decide),
    shift_and_page virt (show 12 ≤ 21 by decide), shift_and_page virt (show 12 ≤ 12 by decide)]

/-- `vmmGetFlags` reads the page-table entry. -/
theorem CowInv.getFlags (h : CowInv frames live extra s) (hr : r ∈ live)
    (hslot : pml4Index virt ≠ 0) :
    vmmGetFlags s r virt = s.pte r (pageNumber virt) &&& 0xFFF#64 := by
  rw [vmmGetFlags_eq h.wf (Vmm.mem_roots hr) (if_neg hslot) rfl, h.pde r hr, if_neg (by simp)]

/-- `vmmGetPhys` finds the page that is mapped. -/
theorem CowInv.getPhys (h : CowInv frames live extra s) (hr : r ∈ live)
    (hslot : pml4Index virt ≠ 0) :
    vmmGetPhys s r virt &&& ~~~0xFFF#64 = s.pte r (pageNumber virt) &&& ~~~0xFFF#64 := by
  rw [vmmGetPhys_eq h.wf (Vmm.mem_roots hr) (if_neg hslot) rfl, h.pde r hr, if_neg (by simp)]
  split
  · next hnone =>
    rw [Vmm.pte, Vmm.entry_of_none hnone]
  · ext i hi
    simp only [BitVec.getElem_and, BitVec.getElem_or, BitVec.getElem_not]
    cases (0xFFF#64)[i] <;> simp

theorem CowInv.physPage_eq (h : CowInv frames live extra s) (hr : r ∈ live)
    (hslot : pml4Index virt ≠ 0) : physPage s r virt = pageOf (s.pte r (pageNumber virt)) := by
  rw [physPage, h.getPhys hr hslot, pageOf]

/-- The low bits hold the flags. -/
theorem hasFlag_low (e : BitVec 64) {flag : BitVec 64} (hflag : 0xFFF#64 &&& flag = flag) :
    hasFlag (e &&& 0xFFF#64) flag = hasFlag e flag := by
  rw [hasFlag_and, hflag]

/-- A load reads the page as the space sees it. -/
theorem CowInv.readByte_eq (h : CowInv frames live extra s) (hr : r ∈ live)
    (hslot : pml4Index virt ≠ 0) : readByte s r virt =
      (s.view r (pageNumber virt)).map fun page => page.1.byte (pageOffset virt) := by
  rw [readByte, h.getFlags hr hslot, hasFlag_low _ (by decide), h.physPage_eq hr hslot, Vmm.view]
  split <;> rfl

end Address

/-! ## Views -/

section View

variable {frames : Set Nat} {live : Finset Nat} {extra : Nat → Nat} {s s' : Vmm} {r : Nat}
  {q : PageNumber}

theorem Vmm.view_congr (hpte : s'.pte r q = s.pte r q)
    (hmem : hasFlag (s.pte r q) pagePresent = true →
      s'.mem (pageOf (s.pte r q)) = s.mem (pageOf (s.pte r q))) : s'.view r q = s.view r q := by
  rw [Vmm.view, hpte, Vmm.view]
  split
  · next hpres => rw [hmem hpres]
  · rfl

/-- A page that is mapped is in use. -/
theorem CowInv.inUse (h : CowInv frames live extra s) (hr : r ∈ live) {a : Nat}
    (hm : s.Maps r q a) : InUse s live a where
  notFree := by
    rw [h.acct.free]
    rintro ⟨-, hzero⟩
    have := CowInv.held_pos_of_maps hr hm
    omega
  notTable ht := h.tables a ht r hr q hm

theorem CowInv.view_links (h : CowInv frames live extra s) {r' : Nat} (hr' : r' ∈ live)
    (hsteps : LinkSteps live r s s') (q : PageNumber) : s'.view r' q = s.view r' q :=
  Vmm.view_congr (hsteps.pte_eq (Vmm.mem_roots hr') q) fun hpres =>
    ((h.inUse hr' ⟨hpres, rfl⟩).links hsteps).2

/-- Setting an entry changes one page of one space. -/
theorem CowInv.view_setPte (h : CowInv frames live extra s) {e : BitVec 64} (hr : r ∈ live)
    (hset : PteSet live r q e s s') (hmem : ∀ a, ¬ s.IsTable live a → s'.mem a = s.mem a)
    (hpres : hasFlag e pagePresent = true) (htable : ¬ s.IsTable live (pageOf e)) {r' : Nat}
    (hr' : r' ∈ live) (q' : PageNumber) : s'.view r' q' =
      if r' = r ∧ q' = q then some (s.mem (pageOf e), storable e) else s.view r' q' := by
  split
  · next hat =>
    obtain ⟨rfl, rfl⟩ := hat
    rw [Vmm.view, hset.pte_self hr, if_pos hpres, hmem _ htable]
  · next hat =>
    refine Vmm.view_congr (hset.pte_other hr' hat) fun hpres' => hmem _ fun ht => ?_
    exact h.tables _ ht r' hr' q' ⟨hpres', rfl⟩

/-- The contents of a page that is no table. -/
def Vmm.fill (s : Vmm) (a : Nat) (page : Page) : Vmm :=
  { s with mem := Function.update s.mem a page }

theorem CowInv.fill (h : CowInv frames live extra s) {a : Nat} (ha : ¬ s.IsTable live a)
    (page : Page) : CowInv frames live extra (s.fill a page) := by
  refine h.frame rfl rfl fun t ht => Function.update_of_ne ?_ _ _
  rintro rfl
  exact ha ht

section Fill

variable {a : Nat} (ha : ¬ s.IsTable live a) (page : Page)

include ha

theorem Vmm.fill_mem_table (hr : r ∈ live) (p : List (Fin 512)) (t : Nat)
    (ht : s.table r p = some t) : (s.fill a page).mem t = s.mem t := by
  refine Function.update_of_ne ?_ _ _
  rintro rfl
  exact ha ⟨r, Vmm.mem_roots hr, p, ht⟩

theorem Vmm.fill_table (hr : r ∈ live) (p : List (Fin 512)) :
    (s.fill a page).table r p = s.table r p :=
  have hkr : (s.fill a page).currentPml4 = s.currentPml4 := rfl
  Vmm.table_frame hkr (Vmm.fill_mem_table ha page hr) p

theorem Vmm.fill_pte (hr : r ∈ live) (q : PageNumber) : (s.fill a page).pte r q = s.pte r q :=
  have hkr : (s.fill a page).currentPml4 = s.currentPml4 := rfl
  Vmm.entry_frame hkr (Vmm.fill_mem_table ha page hr) _ _

theorem InUse.fill {b : Nat} (huse : InUse s live b) : InUse (s.fill a page) live b := by
  have hkr : (s.fill a page).currentPml4 = s.currentPml4 := rfl
  refine ⟨huse.notFree, fun hb => huse.notTable ?_⟩
  refine (Vmm.isTable_frame hkr (fun t ht => ?_) b).mp hb
  refine Function.update_of_ne ?_ _ _
  rintro rfl
  exact ha ht

end Fill

end View

/-! ## Mapping -/

section Map

variable {frames : Set Nat} {live : Finset Nat} {extra : Nat → Nat} {s : Vmm} {r : Nat}
  {virt phys flags : BitVec 64}

/-- The entry `vmmMap` writes. -/
def pageEntry (phys flags : BitVec 64) : BitVec 64 := phys &&& ~~~0xFFF#64 ||| flags ||| pagePresent

theorem pageEntry_present (phys flags : BitVec 64) :
    hasFlag (pageEntry phys flags) pagePresent = true := by
  simp [pageEntry, show hasFlag pagePresent pagePresent = true by decide]

/-- A flag other than `PAGE_PRESENT` is that of the flags. -/
theorem hasFlag_pageEntry {flag : BitVec 64} (hflag : ~~~0xFFF#64 &&& flag = 0#64)
    (hpres : hasFlag pagePresent flag = false) :
    hasFlag (pageEntry phys flags) flag = hasFlag flags flag := by
  rw [pageEntry, hasFlag_or, hasFlag_or, hasFlag_and, hflag, hasFlag_zero, hpres, Bool.or_false,
    Bool.false_or]

theorem pageOf_pageEntry (hlow : flags &&& ~~~0xFFF#64 = 0#64) :
    pageOf (pageEntry phys flags) = pageOf phys := by
  rw [pageEntry, pageOf_or (by decide), pageOf_or hlow, pageOf_and_page]

/-- **Mapping a page that is in use**, at an address of the user slots and with enough frames for
the tables. The call gives up what the page gains as a holder, and keeps what the old page loses. -/
theorem CowInv.mapPage {extra' : Nat → Nat} {a : Nat} {s' : Vmm} {q : PageNumber}
    (h : CowInv frames live extra s) (hr : r ∈ live) (hslot : pml4Index virt ≠ 0)
    (hq : pageNumber virt = q) (hlow : flags &&& ~~~0xFFF#64 = 0#64)
    (hsmall : hasFlag flags pageHuge = false) (hav : s.pmm.Available (s.mapNeeds r q))
    (hs' : s' = vmmMap s r virt phys flags) (ha : pageOf phys = a) (huse : InUse s live a)
    (hshare : ∀ r' ∈ live, ∀ q', s.Maps r' q' a → ¬ (r' = r ∧ q' = q) →
      q' = q ∧ hasFlag flags pageWritable = false ∧ hasFlag (s.pte r' q') pageWritable = false)
    (hextra : ∀ b, extra' b + (if a = b then 1 else 0) =
      extra b + (if s.Maps r q b then 1 else 0)) :
    CowInv frames live extra' s' ∧ s'.pte r q = pageEntry phys flags ∧
    (∀ b, InUse s live b → ¬ s'.IsTable live b) ∧
    ∀ r' ∈ live, ∀ q', s'.view r' q' = if r' = r ∧ q' = q then
      some (s.mem a, storable flags) else s.view r' q' := by
  subst hq
  have hroot := Vmm.mem_roots (s := s) hr
  have howner : s.owner r (pml4Index virt) = r := if_neg hslot
  have hmap := vmmMap_spec h.wf hroot virt phys flags <| Or.inr fun hunder => by
    have hpde := h.pde r hr (pageNumber virt)
    rw [howner] at hunder
    rw [Vmm.pde, hunder.1.2] at hpde
    exact absurd hpde (by simp)
  have hwf := hmap.wf h.wf (Vmm.owner_mem_roots hroot)
  rw [howner] at hmap
  obtain ⟨s₁, pt, hsteps, hpt, heq⟩ := hmap.of_available hav hsmall
  rw [← hs'] at hwf heq
  change s' = s₁.write pt (pageNumber virt).2.2.2 (pageEntry phys flags) at heq
  -- the state at the end of the walk, where only tables are new
  have h₁ := h.links hr hsteps
  have hpte : ∀ r' ∈ live, ∀ q', s₁.pte r' q' = s.pte r' q' :=
    fun r' hr' q' => hsteps.pte_eq (Vmm.mem_roots hr') q'
  have hmaps : ∀ r' ∈ live, ∀ q' b, s₁.Maps r' q' b ↔ s.Maps r' q' b := by
    intro r' hr' q' b
    rw [Vmm.Maps, hpte r' hr', Vmm.Maps]
  obtain ⟨huse₁, hmem₁⟩ := huse.links hsteps
  -- the entry that is written
  have hwrite := WriteLeaf.of_page (hsteps.wf h.wf) (hsteps.roots ▸ hroot) hpt (pageEntry phys flags)
  have hset := hwrite.pteSet
  rw [← heq] at hset
  have hself := hset.pte_self hr
  have hpage : pageOf (pageEntry phys flags) = a := (pageOf_pageEntry hlow).trans ha
  have hpres := pageEntry_present phys flags
  have hnew : ∀ b, s'.Maps r (pageNumber virt) b ↔ a = b := by
    intro b
    simp only [Vmm.Maps, hself, hpage, hpres, true_and]
  have hw : hasFlag (pageEntry phys flags) pageWritable = hasFlag flags pageWritable :=
    hasFlag_pageEntry (by decide) (by decide)
  have htable : ¬ s₁.IsTable live (pageOf (pageEntry phys flags)) := by
    rw [hpage]
    exact huse₁.notTable
  have hpmm : s'.pmm = s₁.pmm := by
    rw [heq]
    rfl
  have hmem : ∀ b, ¬ s₁.IsTable live b → s'.mem b = s₁.mem b := by
    intro b hb
    rw [heq]
    refine Vmm.write_mem_of_table_ne _ _ _ _ ?_
    rintro rfl
    exact hb ⟨r, hsteps.roots ▸ hroot, _, hpt⟩
  refine ⟨?_, hself, fun b hb ht => (hb.links hsteps).1.notTable ((hset.isTable b).mp ht),
    fun r' hr' q' => ?_⟩
  · refine h₁.setPte hr hset hwf ?_ hpres ?_ htable fun r' hr' q' hm hne => ?_
    · rw [hpmm]
      refine h₁.acct.congr fun b => ?_
      have hheld := hset.held hr b
      have hb := hextra b
      simp only [hmaps r hr, hnew] at hheld
      omega
    · rw [hasFlag_pageEntry (by decide) (by decide), hsmall]
    · rw [hpage, hmaps r' hr'] at hm
      rw [hw, hpte r' hr']
      exact hshare r' hr' q' hm hne
  · rw [h₁.view_setPte hr hset hmem hpres htable hr', hpage, hmem₁, h.view_links hr' hsteps,
      storable, hw, hasFlag_pageEntry (by decide) (by decide), storable]

/-- A frame on hand fills an empty entry. -/
theorem onHand_swap {x : Nat} {q : PageNumber} (hempty : ∀ b, ¬ s.Maps r q b) (b : Nat) :
    0 + (if x = b then 1 else 0) = onHand x b + (if s.Maps r q b then 1 else 0) := by
  rw [if_neg (hempty b), onHand]
  simp only [eq_comm, Nat.zero_add, Nat.add_zero]

theorem Vmm.mapNeeds_of_table {q : PageNumber} {pt : Nat} (hpt : s.table r q.path = some pt) :
    s.mapNeeds r q = 0 := by
  obtain ⟨pd, hpd, -⟩ := Vmm.table_cons_eq_some.mp hpt
  obtain ⟨pdpt, hpdpt, -⟩ := Vmm.table_cons_eq_some.mp hpd
  simp [Vmm.mapNeeds, Vmm.missing, hpt, hpd, hpdpt]

/-- A call takes a frame off the stack. -/
theorem CowInv.take (h : CowInv frames live (fun _ => 0) s) (hne : (pmmAllocFrame s.pmm).1 ≠ 0) :
    CowInv frames live (onHand (pmmAllocFrame s.pmm).1) { s with pmm := (pmmAllocFrame s.pmm).2 } ∧
    InUse { s with pmm := (pmmAllocFrame s.pmm).2 } live (pmmAllocFrame s.pmm).1 ∧
    s.held live (pmmAllocFrame s.pmm).1 = 0 := by
  obtain ⟨hzero, -, hacct⟩ := h.acct.alloc hne
  have hfresh := h.wf.freshPage hne
  have hheld : ∀ a, ({ s with pmm := (pmmAllocFrame s.pmm).2 } : Vmm).held live a = s.held live a :=
    fun a => Vmm.held_congr fun _ _ => Vmm.holds_congr (fun _ => rfl) fun _ => rfl
  refine ⟨⟨h.wf.alloc, hacct.congr fun a => ?_, h.pte, h.pde, h.share, h.tables⟩,
    ⟨hfresh.taken, hfresh.notTable⟩, hzero⟩
  rw [hheld, onHand]
  rcases eq_or_ne a (pmmAllocFrame s.pmm).1 with rfl | hna
  · rw [Function.update_self, if_pos rfl]
    omega
  · rw [Function.update_of_ne hna, if_neg hna]

/-- A call frees a frame it has on hand. -/
theorem CowInv.release {a : Nat} (h : CowInv frames live (onHand a) s)
    (ha : ¬ s.IsTable live a) :
    CowInv frames live (fun _ => 0) { s with pmm := pmmFreeFrame s.pmm a } := by
  have hone : onHand a a = 1 := if_pos rfl
  have hacct := h.acct.freeOne (a := a) (by omega)
  have hheld : ∀ b, ({ s with pmm := pmmFreeFrame s.pmm a } : Vmm).held live b = s.held live b :=
    fun b => Vmm.held_congr fun _ _ => Vmm.holds_congr (fun _ => rfl) fun _ => rfl
  refine ⟨?_, hacct.congr fun b => ?_, h.pte, h.pde, h.share, h.tables⟩
  · refine h.wf.frame rfl (fun _ _ => rfl) hacct.stack fun t ht hmem => ?_
    rcases mem_freeStack_free hmem with hmem | rfl
    · exact h.wf.used t ht hmem
    · exact ha ht
  · rw [hheld]
    rcases eq_or_ne b a with rfl | hne
    · rw [Function.update_self]
      omega
    · rw [Function.update_of_ne hne, onHand, if_neg hne]

/-- **Mapping a fresh frame.** -/
theorem CowInv.mapFresh (h : CowInv frames live (fun _ => 0) s) (hr : r ∈ live)
    (hslot : pml4Index virt ≠ 0) (hlow : flags &&& ~~~0xFFF#64 = 0#64)
    (hcow : hasFlag flags pageCow = false) (hsmall : hasFlag flags pageHuge = false)
    (hgone : hasFlag (vmmGetFlags s r virt) pagePresent = false)
    (hav : s.pmm.Available (s.mapNeeds r (pageNumber virt) + 1)) {s' : Vmm}
    (hs' : s' = vmmMap { s with pmm := (pmmAllocFrame s.pmm).2 } r virt
      (BitVec.ofNat 64 (pmmAllocFrame s.pmm).1) flags) :
    CowInv frames live (fun _ => 0) s' ∧ ∀ r' ∈ live, ∀ q', s'.view r' q' =
      if r' = r ∧ q' = pageNumber virt then
        some (s.mem (pmmAllocFrame s.pmm).1, hasFlag flags pageWritable)
      else s.view r' q' := by
  obtain ⟨hne, hav₁⟩ := Pmm.available_succ hav
  have hfresh := h.wf.freshPage hne
  rw [h.getFlags hr hslot, hasFlag_low _ (by decide)] at hgone
  obtain ⟨htaken, huse, hzero⟩ := h.take hne
  have hnone : ∀ r' ∈ live, ∀ q', ¬ s.Maps r' q' (pmmAllocFrame s.pmm).1 :=
    fun r' hr' q' => CowInv.not_maps_of_held hzero hr'
  have hempty : ∀ b, ¬ ({ s with pmm := (pmmAllocFrame s.pmm).2 } : Vmm).Maps r (pageNumber virt) b :=
    fun b hm => absurd (hgone.symm.trans hm.1) (by simp)
  obtain ⟨hinv, -, -, hview⟩ := htaken.mapPage hr hslot rfl hlow hsmall hav₁ hs'
    (pageOf_ofNat hfresh.aligned (lt_trans hfresh.lt (by decide))) huse
    (fun r' hr' q' hm => absurd hm (hnone r' hr' q')) (onHand_swap hempty)
  refine ⟨hinv, fun r' hr' q' => ?_⟩
  rw [hview r' hr' q', storable, hcow, Bool.or_false]
  rfl

end Map

/-! ## Faults -/

section Fault

variable {frames : Set Nat} {live : Finset Nat} {s : Vmm} {r : Nat} {virt : BitVec 64}

/-- The flags of a page after its fault. -/
def faultFlags (flags : BitVec 64) : BitVec 64 := flags &&& ~~~pageCow ||| pageWritable

/-- The handler on a copy-on-write page. -/
theorem handlePageFault_cow (hcow : hasFlag (vmmGetFlags s r virt) pageCow = true) :
    (handlePageFault s (some r) virt 0x7#64 0x1B#64).2 =
      if pmmGetRef s.pmm (physPage s r virt) > 1 then
        let s₁ := ({ s with pmm := (pmmAllocFrame s.pmm).2 } : Vmm).fill (pmmAllocFrame s.pmm).1
          (s.mem (physPage s r virt))
        let s₂ := vmmMap s₁ r (virt &&& ~~~0xFFF#64) (BitVec.ofNat 64 (pmmAllocFrame s.pmm).1)
          (faultFlags (vmmGetFlags s r virt))
        { s₂ with pmm := pmmFreeFrame s₂.pmm (physPage s r virt) }
      else vmmMap s r (virt &&& ~~~0xFFF#64) (vmmGetPhys s r virt &&& ~~~0xFFF#64)
        (faultFlags (vmmGetFlags s r virt)) := by
  have hif : hasFlag 0x7#64 2#64 = true ∧ hasFlag (vmmGetFlags s r virt) pageCow = true :=
    ⟨by decide, hcow⟩
  simp only [handlePageFault, if_pos hif]
  unfold physPage
  split <;> rfl

theorem faultFlags_low (e : BitVec 64) : faultFlags (e &&& 0xFFF#64) &&& ~~~0xFFF#64 = 0#64 := by
  rw [faultFlags]
  ext i hi
  simp only [BitVec.getElem_and, BitVec.getElem_or, BitVec.getElem_not, BitVec.getElem_zero]
  have hw : (pageWritable)[i] = true → (0xFFF#64)[i] = true := by
    have hall : pageWritable &&& 0xFFF#64 = pageWritable := by decide
    intro hbit
    have := congrArg (·[i]) hall
    simp only [BitVec.getElem_and, hbit, Bool.true_and] at this
    exact this
  cases he : (0xFFF#64)[i] with
  | true => simp
  | false =>
    cases hp : (pageWritable)[i] with
    | true => exact absurd (hw hp) (by simp [he])
    | false => simp

theorem faultFlags_small {e : BitVec 64} (h : hasFlag e pageHuge = false) :
    hasFlag (faultFlags (e &&& 0xFFF#64)) pageHuge = false := by
  rw [faultFlags, hasFlag_or, hasFlag_and, hasFlag_and,
    show 0xFFF#64 &&& (~~~pageCow &&& pageHuge) = pageHuge by decide, h,
    show hasFlag pageWritable pageHuge = false by decide]
  rfl

theorem faultFlags_writable (flags : BitVec 64) :
    hasFlag (faultFlags flags) pageWritable = true := by
  rw [faultFlags, hasFlag_or, show hasFlag pageWritable pageWritable = true by decide, Bool.or_true]

/-- A frame with one holder is mapped once. -/
theorem CowInv.maps_unique {extra : Nat → Nat} (h : CowInv frames live extra s) {r' a : Nat}
    {q q' : PageNumber} (hheld : s.held live a ≤ 1) (hr : r ∈ live) (hr' : r' ∈ live)
    (hm : s.Maps r q a) (hm' : s.Maps r' q' a) : r' = r ∧ q' = q := by
  obtain ⟨rfl, -⟩ := h.share r' hr' r hr q' q a hm' hm
  refine ⟨?_, rfl⟩
  by_contra hne
  have hpair : s.holds r' a + s.holds r a ≤ s.held live a := by
    rw [Vmm.held, ← Finset.sum_pair hne (f := fun r => s.holds r a)]
    exact Finset.sum_le_sum_of_subset (by simp [Finset.insert_subset_iff, hr, hr'])
  have h₁ := Vmm.holds_pos_of_maps hm
  have h₂ := Vmm.holds_pos_of_maps hm'
  omega

/-- The pieces of a fault: the page's entry, and what the walks find. -/
structure CowFault (s : Vmm) (live : Finset Nat) (r : Nat) (virt : BitVec 64) : Prop where
  space : r ∈ live
  slot : pml4Index virt ≠ 0
  cow : hasFlag (s.pte r (pageNumber virt)) pageCow = true
  present : hasFlag (s.pte r (pageNumber virt)) pagePresent = true
  small : hasFlag (s.pte r (pageNumber virt)) pageHuge = false
  table : ∃ pt, s.table r (pageNumber virt).path = some pt
  physPage : physPage s r virt = pageOf (s.pte r (pageNumber virt))
  flags : vmmGetFlags s r virt = s.pte r (pageNumber virt) &&& 0xFFF#64

theorem CowInv.cowFault {extra : Nat → Nat} (h : CowInv frames live extra s) (hr : r ∈ live)
    (hslot : pml4Index virt ≠ 0) (hcow : hasFlag (vmmGetFlags s r virt) pageCow = true) :
    CowFault s live r virt := by
  rw [h.getFlags hr hslot, hasFlag_low _ (by decide)] at hcow
  have hleaf : hasFlag (s.pte r (pageNumber virt)) pagePresent = true ∧
      hasFlag (s.pte r (pageNumber virt)) pageHuge = false := by
    rcases h.pte r hr (pageNumber virt) with hzero | hleaf
    · rw [hzero, zero_hasFlag] at hcow
      exact absurd hcow (by simp)
    · exact hleaf
  refine ⟨hr, hslot, hcow, hleaf.1, hleaf.2, ?_, h.physPage_eq hr hslot, h.getFlags hr hslot⟩
  refine Option.ne_none_iff_exists'.mp fun hnone => ?_
  rw [Vmm.pte, Vmm.entry_of_none hnone, zero_hasFlag] at hcow
  exact absurd hcow (by simp)

theorem pml4Index_and_page (virt : BitVec 64) :
    pml4Index (virt &&& ~~~0xFFF#64) = pml4Index virt :=
  congrArg Prod.fst (pageNumber_and_page virt)

/-- **The last owner** gets the page back. -/
theorem CowInv.rearm (h : CowInv frames live (fun _ => 0) s) (hf : CowFault s live r virt)
    (href : pmmGetRef s.pmm (physPage s r virt) ≤ 1) {s' : Vmm}
    (hs' : s' = vmmMap s r (virt &&& ~~~0xFFF#64) (vmmGetPhys s r virt &&& ~~~0xFFF#64)
      (faultFlags (vmmGetFlags s r virt))) :
    CowInv frames live (fun _ => 0) s' ∧ (∀ r' ∈ live, ∀ q, s'.view r' q = s.view r' q) ∧
      hasFlag (s'.pte r (pageNumber virt)) pageWritable = true := by
  obtain ⟨hr, hslot, hcow, hpres, hsmall, ⟨pt, hpt⟩, hphys, hflags⟩ := hf
  have hmaps : s.Maps r (pageNumber virt) (pageOf (s.pte r (pageNumber virt))) := ⟨hpres, rfl⟩
  have hheld : s.held live (pageOf (s.pte r (pageNumber virt))) ≤ 1 := by
    rw [hphys, h.acct.getRef (h.acct.owned _
      (Nat.lt_of_lt_of_le (CowInv.held_pos_of_maps hr hmaps) (Nat.le_add_right _ _)))] at href
    exact href
  rw [hflags, h.getPhys hr hslot] at hs'
  have hav : s.pmm.Available (s.mapNeeds r (pageNumber virt)) := by
    rw [Vmm.mapNeeds_of_table hpt]
    exact Pmm.available_zero _
  -- The page stays where it is, so the counts do not change.
  have hsame : ∀ b, 0 + (if pageOf (s.pte r (pageNumber virt)) = b then 1 else 0) =
      0 + if s.Maps r (pageNumber virt) b then 1 else 0 := by
    intro b
    simp only [Vmm.Maps, hpres, true_and]
  obtain ⟨hinv, hpte, -, hview⟩ := h.mapPage hr (by rwa [pml4Index_and_page])
    (pageNumber_and_page virt) (faultFlags_low _) (faultFlags_small hsmall) hav hs'
    (pageOf_and_page _) (h.inUse hr hmaps)
    (fun r' hr' q' hm hne => absurd (h.maps_unique hheld hr hr' hmaps hm) hne) hsame
  refine ⟨hinv, fun r' hr' q => ?_, ?_⟩
  · rw [hview r' hr' q]
    split
    · next hat =>
      obtain ⟨rfl, rfl⟩ := hat
      rw [Vmm.view, if_pos hpres, storable, faultFlags_writable, storable, hcow, Bool.or_true,
        Bool.true_or]
    · rfl
  · rw [hpte, hasFlag_pageEntry (by decide) (by decide), faultFlags_writable]

/-- **A page that is shared** is copied to a frame of its own. -/
theorem CowInv.split (h : CowInv frames live (fun _ => 0) s) (hf : CowFault s live r virt)
    (hne : (pmmAllocFrame s.pmm).1 ≠ 0) {s₁ s₂ s' : Vmm}
    (hs₁ : s₁ = ({ s with pmm := (pmmAllocFrame s.pmm).2 } : Vmm).fill (pmmAllocFrame s.pmm).1
      (s.mem (physPage s r virt)))
    (hs₂ : s₂ = vmmMap s₁ r (virt &&& ~~~0xFFF#64) (BitVec.ofNat 64 (pmmAllocFrame s.pmm).1)
      (faultFlags (vmmGetFlags s r virt)))
    (hs' : s' = { s₂ with pmm := pmmFreeFrame s₂.pmm (physPage s r virt) }) :
    CowInv frames live (fun _ => 0) s' ∧ (∀ r' ∈ live, ∀ q, s'.view r' q = s.view r' q) ∧
      hasFlag (s'.pte r (pageNumber virt)) pageWritable = true := by
  obtain ⟨hr, hslot, hcow, hpres, hsmall, ⟨pt, hpt⟩, hphys, hflags⟩ := hf
  have hfresh := h.wf.freshPage hne
  obtain ⟨htaken, huse, hzero⟩ := h.take hne
  have huse₀ := h.inUse hr (a := pageOf (s.pte r (pageNumber virt))) ⟨hpres, rfl⟩
  have hold : InUse { s with pmm := (pmmAllocFrame s.pmm).2 } live
      (pageOf (s.pte r (pageNumber virt))) := by
    refine ⟨fun hmem => huse₀.notFree ?_, huse₀.notTable⟩
    rw [freeStack_alloc] at hmem
    exact List.mem_of_mem_tail hmem
  rw [hflags] at hs₂
  rw [hphys] at hs₁ hs'
  generalize (pmmAllocFrame s.pmm).1 = x at *
  -- the copy is made; the entries are as they were
  have hinv₁ := htaken.fill huse.notTable (s.mem (pageOf (s.pte r (pageNumber virt))))
  have huse₁ := huse.fill huse.notTable (s.mem (pageOf (s.pte r (pageNumber virt))))
  have hold₁ := hold.fill huse.notTable (s.mem (pageOf (s.pte r (pageNumber virt))))
  have hpt₁ := (Vmm.fill_table huse.notTable (s.mem (pageOf (s.pte r (pageNumber virt)))) hr
    (pageNumber virt).path).trans hpt
  have hpte₁ : ∀ r' ∈ live, ∀ q, s₁.pte r' q = s.pte r' q := by
    intro r' hr' q
    rw [hs₁]
    exact Vmm.fill_pte huse.notTable _ hr' q
  rw [← hs₁] at hinv₁ huse₁ hold₁ hpt₁
  have hmem₁ : s₁.mem x = s.mem (pageOf (s.pte r (pageNumber virt))) := by
    rw [hs₁]
    exact Function.update_self _ _ _
  have hnone : ∀ r' ∈ live, ∀ q, ¬ s.Maps r' q x :=
    fun r' hr' q => CowInv.not_maps_of_held hzero hr'
  have hview₁ : ∀ r' ∈ live, ∀ q, s₁.view r' q = s.view r' q := by
    intro r' hr' q
    refine Vmm.view_congr (hpte₁ r' hr' q) fun hpres' => ?_
    rw [hs₁]
    exact Function.update_of_ne (fun he => hnone r' hr' q ⟨hpres', he⟩) _ _
  -- the new frame takes the place of the old
  have hav : s₁.pmm.Available (s₁.mapNeeds r (pageNumber virt)) := by
    rw [Vmm.mapNeeds_of_table hpt₁]
    exact Pmm.available_zero _
  have hswap : ∀ b, onHand (pageOf (s.pte r (pageNumber virt))) b + (if x = b then 1 else 0) =
      onHand x b + if s₁.Maps r (pageNumber virt) b then 1 else 0 := by
    intro b
    simp only [Vmm.Maps, hpte₁ r hr, hpres, true_and, onHand, eq_comm, Nat.add_comm]
  obtain ⟨hinv₂, hpte, hkeep, hview⟩ := hinv₁.mapPage hr (by rwa [pml4Index_and_page])
    (pageNumber_and_page virt) (faultFlags_low _) (faultFlags_small hsmall) hav hs₂
    (pageOf_ofNat hfresh.aligned (lt_trans hfresh.lt (by decide))) huse₁
    (fun r' hr' q' hm => absurd (by rwa [Vmm.Maps, hpte₁ r' hr'] at hm) (hnone r' hr' q')) hswap
  have hinv := hinv₂.release (hkeep _ hold₁)
  rw [← hs'] at hinv
  refine ⟨hinv, fun r' hr' q => ?_, ?_⟩
  · rw [show s'.view r' q = s₂.view r' q by rw [hs']; rfl, hview r' hr' q, hview₁ r' hr' q]
    split
    · next hat =>
      obtain ⟨rfl, rfl⟩ := hat
      rw [Vmm.view, if_pos hpres, hmem₁, storable, faultFlags_writable, storable, hcow, Bool.or_true,
        Bool.true_or]
    · rfl
  · rw [show s'.pte r (pageNumber virt) = s₂.pte r (pageNumber virt) by rw [hs']; rfl, hpte,
      hasFlag_pageEntry (by decide) (by decide), faultFlags_writable]

/-- **A copy-on-write fault** changes no page as any space sees it, and makes the page writable. -/
theorem CowInv.fault (h : CowInv frames live (fun _ => 0) s) (hr : r ∈ live)
    (hslot : pml4Index virt ≠ 0) (hcow : hasFlag (vmmGetFlags s r virt) pageCow = true)
    (hav : FaultFrames s r virt) {s' : Vmm}
    (hs' : s' = (handlePageFault s (some r) virt 0x7#64 0x1B#64).2) :
    CowInv frames live (fun _ => 0) s' ∧ (∀ r' ∈ live, ∀ q, s'.view r' q = s.view r' q) ∧
      hasFlag (s'.pte r (pageNumber virt)) pageWritable = true := by
  have hf := h.cowFault hr hslot hcow
  rw [handlePageFault_cow hcow] at hs'
  by_cases href : pmmGetRef s.pmm (physPage s r virt) > 1
  · rw [if_pos href] at hs'
    exact h.split hf (Pmm.available_succ (hav href)).1 rfl rfl hs'
  · rw [if_neg href] at hs'
    exact h.rearm hf (Nat.not_lt.mp href) hs'

end Fault

/-! ## Stores -/

section Store

variable {frames : Set Nat} {live : Finset Nat} {s : Vmm} {r : Nat} {virt : BitVec 64}

/-- The page a space sees after a store. -/
def storedPage (virt : BitVec 64) (b : BitVec 8) (page : Page × Bool) : Page × Bool :=
  (page.1.setByte (pageOffset virt) b, page.2)

/-- **A store to a writable page** changes it for this space only. -/
theorem CowInv.store (h : CowInv frames live (fun _ => 0) s) (hr : r ∈ live)
    (hslot : pml4Index virt ≠ 0) (hpres : hasFlag (s.pte r (pageNumber virt)) pagePresent = true)
    (hw : hasFlag (s.pte r (pageNumber virt)) pageWritable = true) (b : BitVec 8) :
    CowInv frames live (fun _ => 0) (storeByte s r virt b) ∧ ∀ r' ∈ live, ∀ q',
      (storeByte s r virt b).view r' q' = if r' = r ∧ q' = pageNumber virt then
        (s.view r' q').map (storedPage virt b) else s.view r' q' := by
  have hphys := h.physPage_eq hr hslot
  have hmaps : s.Maps r (pageNumber virt) (physPage s r virt) := ⟨hpres, hphys.symm⟩
  have huse := h.inUse hr hmaps
  have hstore : storeByte s r virt b = s.fill (physPage s r virt)
      (Page.setByte (s.mem (physPage s r virt)) (pageOffset virt) b) := rfl
  rw [hstore]
  refine ⟨h.fill huse.notTable _, fun r' hr' q' => ?_⟩
  have hpte := Vmm.fill_pte huse.notTable
    (Page.setByte (s.mem (physPage s r virt)) (pageOffset virt) b) hr' q'
  split
  · next hat =>
    obtain ⟨rfl, rfl⟩ := hat
    rw [Vmm.view, hpte, if_pos hpres, Vmm.view, if_pos hpres, ← hphys, Option.map_some]
    simp only [Vmm.fill, Function.update_self, storedPage]
  · next hat =>
    refine Vmm.view_congr hpte fun hpres' => Function.update_of_ne (fun he => hat ?_) _ _
    -- a writable page is mapped once
    obtain ⟨hq, hself⟩ := h.share r hr r' hr' _ q' _ hmaps ⟨hpres', he⟩
    exact ⟨(hself hw).symm, hq.symm⟩

/-- **A store**, after a fault if the page is not writable. -/
theorem CowInv.write (h : CowInv frames live (fun _ => 0) s) (hr : r ∈ live)
    (hslot : pml4Index virt ≠ 0) (hpres : hasFlag (vmmGetFlags s r virt) pagePresent = true)
    (hok : hasFlag (vmmGetFlags s r virt) pageWritable = true ∨
      hasFlag (vmmGetFlags s r virt) pageCow = true ∧ FaultFrames s r virt) (b : BitVec 8) :
    CowInv frames live (fun _ => 0) (writeByte s r virt b) ∧ ∀ r' ∈ live, ∀ q',
      (writeByte s r virt b).view r' q' = if r' = r ∧ q' = pageNumber virt then
        (s.view r' q').map (storedPage virt b) else s.view r' q' := by
  by_cases hw : hasFlag (vmmGetFlags s r virt) pageWritable = true
  · rw [writeByte, if_pos hw]
    rw [h.getFlags hr hslot, hasFlag_low _ (by decide)] at hpres hw
    exact h.store hr hslot hpres hw b
  · rw [writeByte, if_neg hw]
    obtain ⟨hcow, hav⟩ := hok.resolve_left hw
    obtain ⟨hinv, hview, hw'⟩ := h.fault hr hslot hcow hav rfl
    have hpres' : hasFlag ((handlePageFault s (some r) virt 0x7#64 0x1B#64).2.pte r
        (pageNumber virt)) pagePresent = true := by
      rcases hinv.pte r hr (pageNumber virt) with hzero | hleaf
      · rw [hzero, zero_hasFlag] at hw'
        exact absurd hw' (by simp)
      · exact hleaf.1
    obtain ⟨hinv', hview'⟩ := hinv.store hr hslot hpres' hw' b
    refine ⟨hinv', fun r' hr' q' => ?_⟩
    rw [hview' r' hr' q', hview r' hr' q']

end Store

/-! ## Spaces -/

section Spaces

variable {frames : Set Nat} {live : Finset Nat} {s s' : Vmm} {src dst : Nat}

/-- Copying keeps whether a page can be stored to. -/
theorem storable_leafCopy (e : BitVec 64) : storable (leafCopy (~~~0xFFF#64) e) = storable e := by
  have hcow : hasFlag (cowFlags (e &&& 0xFFF#64)) pageCow = storable e := by
    have hw : hasFlag (e &&& 0xFFF#64) pageWritable = hasFlag e pageWritable :=
      hasFlag_low e (by decide)
    have hc : hasFlag (e &&& 0xFFF#64) pageCow = hasFlag e pageCow := hasFlag_low e (by decide)
    unfold cowFlags storable
    rw [hw]
    split
    · next h => rw [hasFlag_or, show hasFlag pageCow pageCow = true by decide, h, Bool.or_true,
        Bool.true_or]
    · next h => rw [hc, Bool.eq_false_iff.mpr h, Bool.false_or]
  rw [storable, leafCopy_readOnly, Bool.false_or, leafCopy, hasFlag_or, hasFlag_or, hcow, hasFlag_and,
    show ~~~0xFFF#64 &&& pageCow = 0#64 by decide, hasFlag_zero,
    show hasFlag pagePresent pageCow = false by decide, Bool.false_or, Bool.or_false]

/-- Copying a leaf writes tables only. -/
theorem CanCopy.cloneLeaf_mem {p : List (Fin 512)} {ts td a : Nat} {i : Fin 512}
    (h : CanCopy s live src dst p ts td i) (addrMask : BitVec 64) (ha : ¬ s.IsTable live a) :
    (cloneLeaf addrMask ts td s i).mem a = s.mem a := by
  have hts : a ≠ ts := by
    rintro rfl
    exact ha ⟨src, h.src_root, p, h.src_table⟩
  have htd : a ≠ td := by
    rintro rfl
    exact ha ⟨dst, h.dst_root, p, h.dst_table⟩
  rw [cloneLeaf_armed]
  refine (Vmm.write_mem_of_table_ne _ _ _ _ htd).trans ?_
  unfold Vmm.armed
  split
  · exact Vmm.write_mem_of_table_ne _ _ _ _ hts
  · rfl

/-- A step of a clone changes no page of the spaces there were. -/
theorem CowInv.view_cloneStep (h : CowInv frames live (fun _ => 0) s) (hsrc : src ∈ live)
    (hstep : CloneStep live src dst s s') {r : Nat} (hr : r ∈ live)
    (hne : r ≠ dst) (q : PageNumber) : s'.view r q = s.view r q := by
  cases hstep with
  | grow hlink => exact h.view_links hr (ReflTransGen.single hlink) q
  | @page q₀ ts td hc hpres =>
    have hpte : (cloneLeaf (~~~0xFFF#64) ts td s q₀.2.2.2).pte r q =
        if (r = src ∧ q.path = q₀.path ∧ q.2.2.2 = q₀.2.2.2) ∧
          hasFlag (s.pte src q₀) pageWritable = true then leafCopy (~~~0xFFF#64) (s.pte src q₀)
        else s.pte r q := by
      rw [Vmm.pte, hc.cloneLeaf_entry _ (Vmm.mem_roots hr), if_neg fun hcon => hne hcon.1]
      rfl
    have hmem : ∀ a, ¬ s.IsTable live a →
        (cloneLeaf (~~~0xFFF#64) ts td s q₀.2.2.2).mem a = s.mem a := fun a => hc.cloneLeaf_mem _
    split at hpte
    · next hat =>
      obtain ⟨⟨rfl, hp, hi⟩, -⟩ := hat
      obtain rfl := PageNumber.full_inj (show q.full = q₀.full by rw [PageNumber.full, hp, hi])
      have huse := h.inUse hr (a := pageOf (s.pte r q)) ⟨hpres, rfl⟩
      rw [Vmm.view, hpte, if_pos (leafCopy_present _ _), pageOf_leafCopy, hmem _ huse.notTable,
        storable_leafCopy, Vmm.view, if_pos hpres]
    · exact Vmm.view_congr hpte fun hpres' => hmem _ (h.inUse hr ⟨hpres', rfl⟩).notTable
  | huge _ hp hhuge => exact absurd hhuge (h.noHuge hsrc _ _ hp)

/-- A step of a clone maps pages that are mapped in the source. -/
theorem CloneStep.present_src (hstep : CloneStep live src dst s s') (hdst : dst ∈ live)
    (hsrc : src ∈ live) (hnot : ∀ p i, p.length = 2 → ¬ s.IsHuge src p i)
    (h : ∀ q, hasFlag (s.pte dst q) pagePresent = true → hasFlag (s.pte src q) pagePresent = true)
    (q : PageNumber) (hq : hasFlag (s'.pte dst q) pagePresent = true) :
    hasFlag (s'.pte src q) pagePresent = true := by
  cases hstep with
  | grow hlink =>
    rw [hlink.pte_eq (Vmm.mem_roots hdst)] at hq
    rw [hlink.pte_eq (Vmm.mem_roots hsrc)]
    exact h q hq
  | @page q₀ ts td hc hpres =>
    have hdst' := hc.cloneLeaf_entry (~~~0xFFF#64) (Vmm.mem_roots hdst) q.path q.2.2.2
    have hsrc' := hc.cloneLeaf_entry (~~~0xFFF#64) (Vmm.mem_roots hsrc) q.path q.2.2.2
    rw [if_neg fun hcon => hc.ne hcon.1] at hsrc'
    rw [Vmm.pte, hsrc']
    split
    · exact leafCopy_present _ _
    · rw [Vmm.pte, hdst'] at hq
      split at hq
      · next hat =>
        obtain rfl := PageNumber.full_inj
          (show q.full = q₀.full by rw [PageNumber.full, hat.2.1, hat.2.2])
        exact hpres
      · rw [if_neg fun hcon => hc.ne hcon.1.1.symm] at hq
        exact h q hq
  | huge _ hp hhuge => exact absurd hhuge (hnot _ _ hp)

/-- No page of slot 0 is a space's own. -/
theorem Vmm.pte_slot_zero {r : Nat} (hr : r ≠ s.currentPml4) {q : PageNumber} (hq : q.1 = 0) :
    s.pte r q = 0#64 := by
  have hnone : s.table r [q.1] = none := if_pos ⟨hr, rfl, hq⟩
  exact Vmm.pte_of_table_none hnone ⟨[q.2.2.2, q.2.2.1, q.2.1], rfl⟩ (by simp)

/-- The runs of steps of a clone, with what they keep. -/
theorem CowInv.view_cloneSteps (h : CowInv frames live (fun _ => 0) s) (hdst : dst ∈ live)
    (hsrc : src ∈ live) (hsteps : CloneSteps live src dst s s')
    (hnew : ∀ q, s.pte dst q = 0#64) :
    (∀ r ∈ live, r ≠ dst → ∀ q, s'.view r q = s.view r q) ∧
    ∀ q, hasFlag (s'.pte dst q) pagePresent = true → hasFlag (s'.pte src q) pagePresent = true := by
  induction hsteps with
  | refl =>
    refine ⟨fun _ _ _ _ => rfl, fun q hq => ?_⟩
    rw [hnew, zero_hasFlag] at hq
    exact absurd hq (by simp)
  | tail hsteps hstep ih =>
    have hinv := h.cloneSteps hsrc hdst hsteps
    refine ⟨fun r hr hne q => ?_, ?_⟩
    · rw [hinv.view_cloneStep hsrc hstep hr hne, ih.1 r hr hne]
    · exact hstep.present_src hdst hsrc (hinv.noHuge hsrc) ih.2

/-- A new space sees no page. -/
theorem CowInv.view_create {x : Nat} (hc : Created s live s' x)
    (h : CowInv frames live (fun _ => 0) s) {r : Nat} (hr : r ∈ live) (q : PageNumber) :
    s'.view r q = s.view r q := by
  refine Vmm.view_congr (hc.entry_old (Vmm.mem_roots hr) _ _) fun hpres => hc.mem _ ?_
  intro he
  exact (h.inUse hr ⟨hpres, rfl⟩).notFree (he ▸ hc.fresh.free)

theorem Created.view_new {x : Nat} (hc : Created s live s' x) (q : PageNumber) :
    s'.view x q = none := by
  rw [Vmm.view, Vmm.pte, hc.entry_new (by simp), zero_hasFlag]
  rfl

/-- **A clone** sees every page as its source does, and the others see theirs as before. -/
theorem CowInv.clone (h : CowInv frames live (fun _ => 0) s) (hsrc : src ∈ live)
    (hav : s.pmm.Available (s.cloneNeeds src)) :
    (vmmCloneAddressSpace s src).1 ≠ 0 ∧ (vmmCloneAddressSpace s src).1 ∉ live ∧
    CowInv frames (insert (vmmCloneAddressSpace s src).1 live) (fun _ => 0)
      (vmmCloneAddressSpace s src).2 ∧
    (∀ r ∈ live, ∀ q, (vmmCloneAddressSpace s src).2.view r q = s.view r q) ∧
    ∀ q, (vmmCloneAddressSpace s src).2.view (vmmCloneAddressSpace s src).1 q = s.view src q := by
  have hclone := vmmCloneAddressSpace_spec h.wf (Vmm.mem_roots hsrc) hav
  have hx : (pmmAllocFrame s.pmm).1 = (vmmCloneAddressSpace s src).1 := by
    rcases vmmCreateAddressSpace_cases h.wf with ⟨hzero, -⟩ | ⟨-, heq⟩
    · exact absurd hzero (Pmm.available_succ hav).1
    · simp only [vmmCloneAddressSpace, heq]
  obtain ⟨hc, hne, hsteps, hcopied⟩ := hclone
  generalize (vmmCloneAddressSpace s src).2 = s' at *
  generalize (vmmCloneAddressSpace s src).1 = dst at *
  have hnot : dst ∉ live := fun hmem => hc.fresh.notTable ⟨dst, Vmm.mem_roots hmem, [], rfl⟩
  -- The clone is the new space and the steps of the loops: both keep the invariant.
  have hinv := h.create hc hx
  have hsrc' : src ∈ insert dst live := Finset.mem_insert_of_mem hsrc
  have hdst' : dst ∈ insert dst live := Finset.mem_insert_self _ _
  obtain ⟨hkeep, honly⟩ := hinv.view_cloneSteps hdst' hsrc' hsteps fun q => hc.entry_new (by simp) _
  have hold : ∀ r ∈ live, ∀ q, s'.view r q = s.view r q := by
    intro r hr q
    rw [hkeep r (Finset.mem_insert_of_mem hr) (fun he => hnot (he ▸ hr)), CowInv.view_create hc h hr]
  refine ⟨hc.fresh.ne_zero, hnot, hinv.cloneSteps hsrc' hdst' hsteps, hold, fun q => ?_⟩
  rw [← hold src hsrc q]
  -- What the source maps is copied; where it maps nothing, so does the copy.
  by_cases hpres : hasFlag (s'.pte src q) pagePresent = true
  · have hslot : q.1 ≠ 0 := by
      intro hq
      have hkr : src ≠ s'.currentPml4 := by
        rw [hsteps.currentPml4, hc.currentPml4]
        exact h.wf.ne_kernel hsrc
      rw [Vmm.pte_slot_zero hkr hq, zero_hasFlag] at hpres
      exact absurd hpres (by simp)
    rw [Vmm.view, hcopied q hslot hpres, Vmm.view]
  · have hdst : ¬ hasFlag (s'.pte dst q) pagePresent = true := fun hd => hpres (honly q hd)
    rw [Vmm.view, if_neg hdst, Vmm.view, if_neg hpres]

end Spaces

end ZohoOs
