import ZohoOs.Memory.CowInvariant

/-!
# Creating, destroying and cloning under copy on write

## Main results

* `CowInv.create`: a new space keeps the invariant
* `CowInv.destroy`: destroying one frees what it holds, and keeps the invariant of the others
* `CowInv.cloneSteps`: so does a clone; it write-protects each page it shares
-/

namespace ZohoOs

open Forest Relation

/-! ## Spaces that come and go -/

section Spaces

variable {frames : Set Nat} {live : Finset Nat} {extra : Nat → Nat} {s s' : Vmm} {r x : Nat}

theorem CowInv.noHuge (h : CowInv frames live extra s) (hr : r ∈ live) : s.NoHuge r := by
  intro p i hp hhuge
  obtain ⟨j, i₀, rfl⟩ := List.length_eq_two.mp hp
  have hpde := h.pde r hr (i₀, j, i, 0)
  rw [Vmm.pde, hhuge.2] at hpde
  exact absurd hpde (by simp)

/-- A new space holds its root. -/
theorem Created.holds_new (h : Created s live s' x) (a : Nat) : s'.holds x a = onHand x a := by
  classical
  have hempty : s'.mappedBelow x [] a = ∅ := by
    rw [Finset.eq_empty_iff_forall_notMem]
    intro q hq
    have hpres := (mem_mappedBelow.mp hq).2.1
    rw [Vmm.pte, Vmm.entry_of_none, zero_hasFlag] at hpres
    · exact absurd hpres (by simp)
    · by_contra hne
      obtain ⟨t, ht⟩ := Option.ne_none_iff_exists'.mp hne
      exact absurd (h.table_new ht).1 (by simp)
  have hiff : (∃ p, s'.table x p = some a) ↔ a = x := by
    constructor
    · rintro ⟨p, hp⟩
      exact (h.table_new hp).2
    · rintro rfl
      exact ⟨[], rfl⟩
  rw [Vmm.holds, hempty, Vmm.tablesBelow_nil, Finset.card_empty, Nat.zero_add, onHand]
  simp only [hiff]

theorem Created.entry_new (h : Created s live s' x) {p : List (Fin 512)} (hp : p ≠ [])
    (i : Fin 512) : s'.entry x p i = 0#64 := by
  apply Vmm.entry_of_none
  by_contra hne
  obtain ⟨t, ht⟩ := Option.ne_none_iff_exists'.mp hne
  exact hp (h.table_new ht).1

/-- A new space keeps the invariant. -/
theorem CowInv.create (h : CowInv frames live extra s) (hc : Created s live s' x)
    (hx : (pmmAllocFrame s.pmm).1 = x) : CowInv frames (insert x live) extra s' := by
  have hnot : x ∉ live := fun hmem => hc.fresh.notTable ⟨x, Vmm.mem_roots hmem, [], rfl⟩
  have hpte_new : ∀ q, s'.pte x q = 0#64 := fun q => hc.entry_new (by simp) _
  have hpte_old : ∀ r ∈ live, ∀ q, s'.pte r q = s.pte r q :=
    fun r hr q => hc.entry_old (Vmm.mem_roots hr) _ _
  have hmaps : ∀ r ∈ insert x live, ∀ q a, s'.Maps r q a → r ∈ live ∧ s.Maps r q a := by
    intro r hr q a hm
    rcases Finset.mem_insert.mp hr with rfl | hr
    · rw [Vmm.Maps, hpte_new, zero_hasFlag] at hm
      exact absurd hm.1 (by simp)
    · rw [Vmm.Maps, hpte_old r hr] at hm
      exact ⟨hr, hm⟩
  -- The new root was free, so no space held it.
  obtain ⟨hzero, -, hacct⟩ := h.acct.alloc (hx ▸ hc.fresh.ne_zero)
  rw [hx] at hzero hacct
  have hnone : s.held live x = 0 := by omega
  refine ⟨hc.wf, ?_, fun r hr q => ?_, fun r hr q => ?_, fun r₁ hr₁ r₂ hr₂ q₁ q₂ a h₁ h₂ => ?_,
    fun t ht r hr q hm => ?_⟩
  · rw [hc.pmm]
    refine hacct.congr fun a => ?_
    have hold : ∑ r ∈ live, s'.holds r a = s.held live a := Finset.sum_congr rfl fun r hr =>
      Vmm.holds_congr (hpte_old r hr) (hc.table_old (Vmm.mem_roots hr))
    rw [Vmm.held, Finset.sum_insert hnot, hold, hc.holds_new, onHand]
    rcases eq_or_ne a x with rfl | hne
    · rw [Function.update_self, if_pos rfl]
      omega
    · rw [Function.update_of_ne hne, if_neg hne, Nat.zero_add]
  · rcases Finset.mem_insert.mp hr with rfl | hr
    · exact Or.inl (hpte_new q)
    · rw [hpte_old r hr]
      exact h.pte r hr q
  · rcases Finset.mem_insert.mp hr with rfl | hr
    · rw [Vmm.pde, hc.entry_new (by simp), zero_hasFlag]
    · rw [Vmm.pde, hc.entry_old (Vmm.mem_roots hr)]
      exact h.pde r hr q
  · obtain ⟨hr₁, h₁⟩ := hmaps r₁ hr₁ q₁ a h₁
    obtain ⟨hr₂, h₂⟩ := hmaps r₂ hr₂ q₂ a h₂
    rw [hpte_old r₁ hr₁]
    exact h.share r₁ hr₁ r₂ hr₂ q₁ q₂ a h₁ h₂
  · -- A table is the new root, which no page maps, or a table of before.
    obtain ⟨hold, hm⟩ := hmaps r hr q t hm
    obtain ⟨r', hr', p, hp⟩ := ht
    rw [Vmm.roots_congr hc.currentPml4, Vmm.roots_insert] at hr'
    rcases hr' with rfl | hr'
    · obtain ⟨-, rfl⟩ := hc.table_new hp
      exact CowInv.not_maps_of_held hnone hold hm
    · rw [hc.table_old hr'] at hp
      exact h.tables t ⟨r', hr', p, hp⟩ r hold q hm

/-- **Destroying a space** frees what it holds, and keeps the invariant of the others. -/
theorem CowInv.destroy (h : CowInv frames live extra s) (hr : r ∈ live) :
    CowInv frames (live.erase r) extra (vmmDestroyAddressSpace s r) := by
  have hsub := Finset.erase_subset r live
  have htab : ∀ t, s.IsTable (live.erase r) t → s.IsTable live t :=
    fun t ⟨r', hr', hp⟩ => ⟨r', Set.insert_subset_insert (Finset.coe_subset.mpr hsub) hr', hp⟩
  have hwf := h.wf.destroy hr (h.noHuge hr) fun q a hm ht => h.tables a (htab a ht) r hr q hm
  have hcount : ∀ a, (freedPages s.mem r).count a = s.holds r a :=
    count_freedPages (h.wf.table_unique hr) (h.noHuge hr) (h.wf.ne_kernel hr)
  have hsplit : ∀ a, s.held live a = s.holds r a + s.held (live.erase r) a :=
    fun a => (Finset.add_sum_erase live (fun r => s.holds r a) hr).symm
  rw [vmmDestroyAddressSpace_eq] at hwf ⊢
  have hheld : ∀ a, (s.freeAll (readPages s.mem r) (freedPages s.mem r)).held (live.erase r) a =
      s.held (live.erase r) a :=
    fun a => Vmm.held_congr fun _ _ => Vmm.holds_congr (fun _ => rfl) fun _ => rfl
  refine ⟨hwf, ?_, fun r' hr' => h.pte r' (hsub hr'), fun r' hr' => h.pde r' (hsub hr'),
    fun r₁ hr₁ r₂ hr₂ => h.share r₁ (hsub hr₁) r₂ (hsub hr₂),
    fun t ht r' hr' => h.tables t (htab t ht) r' (hsub hr')⟩
  refine (h.acct.freeAll (freedPages s.mem r) fun a => ?_).congr fun a => ?_
  · rw [hcount, hsplit]
    omega
  · rw [hheld, hcount, hsplit]
    omega

end Spaces

/-! ## Cloning -/

section Clone

variable {frames : Set Nat} {live : Finset Nat} {s s' : Vmm} {src dst ts td : Nat} {q : PageNumber}

/-- A copied leaf is of the same page, and not writable. -/
theorem pageOf_leafCopy (e : BitVec 64) : pageOf (leafCopy (~~~0xFFF#64) e) = pageOf e := by
  have hlow : cowFlags (e &&& 0xFFF#64) &&& ~~~0xFFF#64 = 0#64 := by
    have hand : ∀ x : BitVec 64, (e &&& 0xFFF#64 &&& x) &&& ~~~0xFFF#64 = 0#64 := by
      intro x
      rw [BitVec.and_assoc, BitVec.and_comm x, ← BitVec.and_assoc, BitVec.and_assoc e,
        show 0xFFF#64 &&& ~~~0xFFF#64 = 0#64 by decide, BitVec.and_zero, BitVec.zero_and]
    unfold cowFlags
    split
    · have hor : ∀ x y z : BitVec 64, (x ||| y) &&& z = x &&& z ||| y &&& z := by
        intro x y z
        ext i
        simp [Bool.and_or_distrib_right]
      rw [hor, hand, show pageCow &&& ~~~0xFFF#64 = 0#64 by decide, BitVec.or_zero]
    · have := hand (BitVec.allOnes 64)
      rwa [BitVec.and_allOnes] at this
  rw [leafCopy, pageOf_or (by decide), pageOf_or hlow, pageOf_and_page]

theorem leafCopy_readOnly (e : BitVec 64) :
    hasFlag (leafCopy (~~~0xFFF#64) e) pageWritable = false := by
  have hflags : hasFlag (cowFlags (e &&& 0xFFF#64)) pageWritable = false := by
    unfold cowFlags
    split
    · rw [hasFlag_or, hasFlag_and, show ~~~pageWritable &&& pageWritable = 0#64 by decide,
        hasFlag_zero, show hasFlag pageCow pageWritable = false by decide, Bool.or_false]
    · next h => simpa using h
  rw [leafCopy, hasFlag_or, hasFlag_or, hflags, hasFlag_and,
    show ~~~0xFFF#64 &&& pageWritable = 0#64 by decide, hasFlag_zero,
    show hasFlag pagePresent pageWritable = false by decide]
  rfl

theorem leafCopy_small {e : BitVec 64} (h : hasFlag e pageHuge = false) :
    hasFlag (leafCopy (~~~0xFFF#64) e) pageHuge = false := by
  have hlow : hasFlag (e &&& 0xFFF#64) pageHuge = false := by
    rw [hasFlag_and, show 0xFFF#64 &&& pageHuge = pageHuge by decide, h]
  have hflags : hasFlag (cowFlags (e &&& 0xFFF#64)) pageHuge = false := by
    unfold cowFlags
    split
    · rw [hasFlag_or, hasFlag_and, show ~~~pageWritable &&& pageHuge = pageHuge by decide, hlow,
        show hasFlag pageCow pageHuge = false by decide, Bool.or_false]
    · exact hlow
  rw [leafCopy, hasFlag_or, hasFlag_or, hflags, hasFlag_and,
    show ~~~0xFFF#64 &&& pageHuge = 0#64 by decide, hasFlag_zero,
    show hasFlag pagePresent pageHuge = false by decide]
  rfl

/-- Write-protecting the source. -/
theorem CowInv.arm (h : CowInv frames live (fun _ => 0) s)
    (hc : CanCopy s live src dst q.path ts td q.2.2.2) (hsrc : src ∈ live)
    (hpres : hasFlag (s.pte src q) pagePresent = true) :
    CowInv frames live (fun _ => 0) (s.armed (~~~0xFFF#64) ts q.2.2.2) ∧
    (s.armed (~~~0xFFF#64) ts q.2.2.2).Maps src q (pageOf (s.pte src q)) ∧
    hasFlag ((s.armed (~~~0xFFF#64) ts q.2.2.2).pte src q) pageWritable = false := by
  have hmem : s.mem ts q.2.2.2 = s.pte src q := hc.mem_src
  have hleaf : hasFlag (s.pte src q) pageHuge = false := by
    rcases h.pte src hsrc q with hzero | hleaf
    · rw [hzero, zero_hasFlag]
    · exact hleaf.2
  unfold Vmm.armed
  rw [hmem]
  -- a writable page becomes read-only; another one is left as it is
  by_cases hw : hasFlag (s.pte src q) pageWritable = true
  · rw [if_pos hw]
    have hwrite := hc.writeSrc (~~~0xFFF#64)
    rw [hmem] at hwrite
    have hset := hwrite.pteSet
    have hself := hset.pte_self hsrc
    have hmaps : s.Maps src q (pageOf (leafCopy (~~~0xFFF#64) (s.pte src q))) :=
      ⟨hpres, (pageOf_leafCopy _).symm⟩
    -- the same frame is mapped, so nothing else is held
    have hheld : ∀ a, (s.write ts q.2.2.2 (leafCopy (~~~0xFFF#64) (s.pte src q))).held live a =
        s.held live a := by
      intro a
      have := hset.held hsrc a
      simp only [Vmm.Maps, hself, leafCopy_present, pageOf_leafCopy, hpres, true_and] at this
      omega
    refine ⟨?_, ⟨by rw [hself, leafCopy_present], by rw [hself, pageOf_leafCopy]⟩,
      by rw [hself, leafCopy_readOnly]⟩
    refine h.setPte hsrc hset (hwrite.wf_write hc.path_ne_nil) ?_ (leafCopy_present _ _)
      (leafCopy_small hleaf) (fun ht => h.tables _ ht src hsrc q hmaps)
      (h.share_of_maps hsrc hmaps (leafCopy_readOnly _) (Or.inl rfl))
    exact h.acct.congr fun a => by rw [hheld]
  · rw [if_neg hw]
    exact ⟨h, ⟨hpres, rfl⟩, by simpa using hw⟩

/-- **Copying a leaf** gives its frame one more holder. -/
theorem CowInv.copyLeaf (h : CowInv frames live (fun _ => 0) s)
    (hc : CanCopy s live src dst q.path ts td q.2.2.2) (hsrc : src ∈ live) (hdst : dst ∈ live)
    (hpres : hasFlag (s.pte src q) pagePresent = true) :
    CowInv frames live (fun _ => 0) (cloneLeaf (~~~0xFFF#64) ts td s q.2.2.2) := by
  have hmem : s.mem ts q.2.2.2 = s.pte src q := hc.mem_src
  have hleaf : hasFlag (s.pte src q) pageHuge = false := by
    rcases h.pte src hsrc q with hzero | hleaf
    · rw [hzero, zero_hasFlag]
    · exact hleaf.2
  -- First the source is armed, then the copy is written and counted: `s₁` is the state in between.
  obtain ⟨harmed, hmaps, hro⟩ := h.arm hc hsrc hpres
  have hkr : (s.armed (~~~0xFFF#64) ts q.2.2.2).currentPml4 = s.currentPml4 :=
    Vmm.armed_currentPml4 _
  have hpmm : (s.armed (~~~0xFFF#64) ts q.2.2.2).pmm = s.pmm := by
    unfold Vmm.armed
    split <;> rfl
  have hdst0 : (s.armed (~~~0xFFF#64) ts q.2.2.2).pte dst q = 0#64 := by
    rw [Vmm.pte, hc.armed_entry _ (Vmm.mem_roots hdst), if_neg fun hcon => hc.ne hcon.1.1.symm,
      hc.empty]
  have hwrite := hc.writeDst (~~~0xFFF#64)
  have hwf := hc.cloneLeaf_wf (~~~0xFFF#64)
  rw [cloneLeaf_armed] at hwf ⊢
  rw [hmem] at hwrite hwf ⊢
  generalize s.armed (~~~0xFFF#64) ts q.2.2.2 = s₁ at harmed hmaps hro hkr hpmm hdst0 hwrite hwf ⊢
  have hset₀ := hwrite.pteSet
  have hset : PteSet live dst q (leafCopy (~~~0xFFF#64) (s.pte src q)) s₁
      { s₁.write td q.2.2.2 (leafCopy (~~~0xFFF#64) (s.pte src q)) with
        pmm := pmmRefInc s.pmm (s.pte src q &&& ~~~0xFFF#64).toNat } :=
    ⟨hset₀.currentPml4, hset₀.table, hset₀.entry⟩
  have hself := hset.pte_self hdst
  have hheld := hset.held hdst
  refine harmed.setPte hdst hset hwf ?_ (leafCopy_present _ _) (leafCopy_small hleaf) ?_ ?_
  · -- The count does not overflow, since each holder is a page of a space or a table.
    have hbound := harmed.held_le hsrc hmaps
    simp only [maxFrames] at hbound
    have hacct := harmed.acct.refInc (a := pageOf (s.pte src q))
      (Nat.lt_of_lt_of_le (CowInv.held_pos_of_maps hsrc hmaps) (Nat.le_add_right _ _))
      (by omega)
    rw [hpmm] at hacct
    refine hacct.congr fun a => ?_
    have ha := hheld a
    simp only [Vmm.Maps, hself, hdst0, zero_hasFlag, leafCopy_present, pageOf_leafCopy, true_and,
      Bool.false_eq_true, false_and, if_false] at ha
    rcases eq_or_ne a (pageOf (s.pte src q)) with rfl | hne
    · rw [Function.update_self, if_pos rfl] at *
      omega
    · rw [if_neg hne.symm] at ha
      rw [Function.update_of_ne hne]
      omega
  · rw [pageOf_leafCopy]
    exact fun ht => harmed.tables _ ht src hsrc q hmaps
  · refine harmed.share_of_maps hsrc ?_ (leafCopy_readOnly _) (Or.inr hro)
    rw [pageOf_leafCopy]
    exact hmaps

theorem CowInv.cloneStep (h : CowInv frames live (fun _ => 0) s) (hsrc : src ∈ live)
    (hdst : dst ∈ live) (hstep : CloneStep live src dst s s') :
    CowInv frames live (fun _ => 0) s' := by
  cases hstep with
  | grow hlink => exact h.link hdst hlink
  | page hc hpres => exact h.copyLeaf hc hsrc hdst hpres
  | huge _ hp hhuge => exact absurd hhuge (h.noHuge hsrc _ _ hp)

theorem CowInv.cloneSteps (h : CowInv frames live (fun _ => 0) s) (hsrc : src ∈ live)
    (hdst : dst ∈ live) (hsteps : CloneSteps live src dst s s') :
    CowInv frames live (fun _ => 0) s' := by
  induction hsteps with
  | refl => exact h
  | tail _ hstep ih => exact ih.cloneStep hsrc hdst hstep

end Clone

end ZohoOs
