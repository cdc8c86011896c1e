import ZohoOs.Memory.MapWalk

/-!
# The loops of `vmm_clone_address_space`

The four nested loops are one run of small steps: linking a table in the copy, and copying one
leaf. Facts about a clone follow from what each step does.

## Main definitions

* `leafCopy`: the entry both spaces hold after a leaf is copied
* `CloneStep`: the steps of the loops
* `Vmm.cloneNeeds`: the frames a clone takes

## Main results

* `vmmCloneAddressSpace_spec`: with enough frames, a clone is a run of steps that copies every leaf
-/

namespace ZohoOs

open Forest Relation

/-! ## Copying a leaf -/

/-- The low bits of a copied leaf. -/
def cowFlags (flags : BitVec 64) : BitVec 64 :=
  if hasFlag flags pageWritable then flags &&& ~~~pageWritable ||| pageCow else flags

/-- The copy of the leaf `e`. -/
def leafCopy (addrMask e : BitVec 64) : BitVec 64 :=
  e &&& addrMask ||| cowFlags (e &&& 0xFFF#64) ||| pagePresent

@[simp] theorem leafCopy_present (addrMask e : BitVec 64) :
    hasFlag (leafCopy addrMask e) pagePresent = true := by
  simp [leafCopy, show hasFlag pagePresent pagePresent = true by decide]

theorem leafCopy_huge {addrMask e : BitVec 64} (h : hasFlag e pageHuge = true) :
    hasFlag (leafCopy addrMask e) pageHuge = true := by
  have hflags : hasFlag (cowFlags (e &&& 0xFFF#64)) pageHuge = true := by
    unfold cowFlags
    split
    · rw [hasFlag_or, hasFlag_and, hasFlag_and,
        show 0xFFF#64 &&& (~~~pageWritable &&& pageHuge) = pageHuge by decide, h, Bool.true_or]
    · rw [hasFlag_and, show 0xFFF#64 &&& pageHuge = pageHuge by decide, h]
  rw [leafCopy, hasFlag_or, hasFlag_or, hflags, Bool.or_true, Bool.true_or]

/-- A read-only leaf is copied as it is. -/
theorem leafCopy_of_readOnly {e : BitVec 64} (hpres : hasFlag e pagePresent = true)
    (hro : hasFlag e pageWritable = false) : leafCopy (~~~0xFFF#64) e = e := by
  have hlow : hasFlag (e &&& 0xFFF#64) pageWritable = false := by
    rw [hasFlag_and, show 0xFFF#64 &&& pageWritable = pageWritable by decide, hro]
  rw [leafCopy, cowFlags, hlow, if_neg (by simp)]
  have hbit : e.getLsbD 0 = true := by
    have htwo : e &&& BitVec.twoPow 64 0 ≠ 0#64 := bne_iff_ne.mp hpres
    rw [BitVec.and_twoPow] at htwo
    by_contra hne
    exact htwo (if_neg hne)
  refine BitVec.eq_of_getLsbD_eq fun i hi => ?_
  simp only [BitVec.getLsbD_or, BitVec.getLsbD_and, BitVec.getLsbD_not, hi, decide_true,
    Bool.true_and]
  by_cases h0 : i = 0
  · subst h0
    simp [hbit]
  · have hone : (0x1#64).getLsbD i = false := by
      simp [BitVec.getLsbD_one, h0]
    rw [hone, Bool.or_false]
    cases e.getLsbD i <;> cases (0xFFF#64).getLsbD i <;> rfl

/-- The source entry is rewritten when it was writable, the copy always. -/
theorem cloneLeaf_eq (addrMask : BitVec 64) (src dst : Nat) (s : Vmm) (i : Fin 512) :
    cloneLeaf addrMask src dst s i =
      let s' := if hasFlag (s.mem src i) pageWritable then
        s.write src i (leafCopy addrMask (s.mem src i)) else s
      { s'.write dst i (leafCopy addrMask (s.mem src i)) with
        pmm := pmmRefInc s.pmm (s.mem src i &&& addrMask).toNat } := by
  have hlow : hasFlag (s.mem src i &&& 0xFFF#64) pageWritable =
      hasFlag (s.mem src i) pageWritable := by
    rw [hasFlag_and, show 0xFFF#64 &&& pageWritable = pageWritable by decide]
  simp only [cloneLeaf, leafCopy, cowFlags, hlow]
  split <;> rfl

/-- The leaf at index `i` below `p` may be copied from `src` to `dst`. -/
structure CanCopy (s : Vmm) (live : Finset Nat) (src dst : Nat) (p : List (Fin 512)) (ts td : Nat)
    (i : Fin 512) : Prop where
  wf : Wf s live
  src_root : src ∈ s.roots live
  dst_root : dst ∈ s.roots live
  ne : src ≠ dst
  src_table : s.table src p = some ts
  dst_table : s.table dst p = some td
  leaf : p.length = 3 ∨ p.length = 2 ∧ hasFlag (s.entry src p i) pageHuge = true
  empty : s.entry dst p i = 0#64

section Copy

variable {s : Vmm} {live : Finset Nat} {src dst ts td : Nat} {p : List (Fin 512)} {i : Fin 512}
  (addrMask : BitVec 64)

theorem CanCopy.path_ne_nil (h : CanCopy s live src dst p ts td i) : p ≠ [] := by
  rintro rfl
  have := h.leaf
  simp at this

theorem CanCopy.mem_src (h : CanCopy s live src dst p ts td i) : s.mem ts i = s.entry src p i :=
  (Vmm.entry_of_table h.src_table i).symm

/-- Rewriting the source entry. -/
theorem CanCopy.writeSrc (h : CanCopy s live src dst p ts td i) :
    WriteLeaf s live src p ts i (leafCopy addrMask (s.mem ts i)) := by
  refine ⟨h.wf, h.src_root, h.src_table, ?_, ?_⟩
  · rcases h.leaf with hp | ⟨hp, hhuge⟩
    · exact Vmm.edge_none_of_length hp
    · exact Vmm.edge_none_of_huge hp (h.mem_src ▸ hhuge)
  · rcases h.leaf with hp | ⟨hp, hhuge⟩
    · exact Vmm.edge_none_of_length hp
    · refine Vmm.edge_none_of_huge hp ?_
      rw [Vmm.write_mem_self]
      exact leafCopy_huge (h.mem_src ▸ hhuge)

/-- The state between the two writes. -/
def Vmm.armed (s : Vmm) (addrMask : BitVec 64) (ts : Nat) (i : Fin 512) : Vmm :=
  if hasFlag (s.mem ts i) pageWritable then s.write ts i (leafCopy addrMask (s.mem ts i)) else s

theorem CanCopy.armed_table (h : CanCopy s live src dst p ts td i) {r : Nat}
    (hr : r ∈ s.roots live) (p' : List (Fin 512)) :
    (s.armed addrMask ts i).table r p' = s.table r p' := by
  unfold Vmm.armed
  split
  · exact (h.writeSrc addrMask).write_table hr p'
  · rfl

theorem Vmm.armed_currentPml4 : (s.armed addrMask ts i).currentPml4 = s.currentPml4 := by
  unfold Vmm.armed
  split <;> rfl

theorem CanCopy.armed_entry (h : CanCopy s live src dst p ts td i) {r : Nat}
    (hr : r ∈ s.roots live) (p' : List (Fin 512)) (j : Fin 512) :
    (s.armed addrMask ts i).entry r p' j =
      if (r = src ∧ p' = p ∧ j = i) ∧ hasFlag (s.entry src p i) pageWritable then
        leafCopy addrMask (s.entry src p i)
      else s.entry r p' j := by
  unfold Vmm.armed
  rw [← h.mem_src]
  split
  · next hw => simp only [(h.writeSrc addrMask).write_entry hr, hw, and_true]
  · next hw => rw [if_neg fun hc => hw hc.2]

theorem CanCopy.writeDst (h : CanCopy s live src dst p ts td i) :
    WriteLeaf (s.armed addrMask ts i) live dst p td i (leafCopy addrMask (s.mem ts i)) := by
  have hkr : (s.armed addrMask ts i).currentPml4 = s.currentPml4 := Vmm.armed_currentPml4 addrMask
  have hwf : Wf (s.armed addrMask ts i) live := by
    unfold Vmm.armed
    split
    · exact (h.writeSrc addrMask).wf_write h.path_ne_nil
    · exact h.wf
  have htable : (s.armed addrMask ts i).table dst p = some td := by
    rw [h.armed_table addrMask h.dst_root, h.dst_table]
  have hzero : (s.armed addrMask ts i).mem td i = 0#64 := by
    rw [← Vmm.entry_of_table htable, h.armed_entry addrMask h.dst_root,
      if_neg fun hc => h.ne hc.1.1.symm, h.empty]
  refine ⟨hwf, Vmm.roots_congr hkr ▸ h.dst_root, htable,
    Vmm.edge_none_of_not_present (by rw [hzero, zero_hasFlag]), ?_⟩
  rcases h.leaf with hp | ⟨hp, hhuge⟩
  · exact Vmm.edge_none_of_length hp
  · refine Vmm.edge_none_of_huge hp ?_
    rw [Vmm.write_mem_self]
    exact leafCopy_huge (h.mem_src ▸ hhuge)

theorem cloneLeaf_armed : cloneLeaf addrMask ts td s i =
    { (s.armed addrMask ts i).write td i (leafCopy addrMask (s.mem ts i)) with
      pmm := pmmRefInc s.pmm (s.mem ts i &&& addrMask).toNat } :=
  cloneLeaf_eq addrMask ts td s i

theorem cloneLeaf_currentPml4 : (cloneLeaf addrMask ts td s i).currentPml4 = s.currentPml4 := by
  rw [cloneLeaf_armed]
  exact Vmm.armed_currentPml4 addrMask

theorem cloneLeaf_pmm : (cloneLeaf addrMask ts td s i).pmm =
    pmmRefInc s.pmm (s.mem ts i &&& addrMask).toNat := by
  rw [cloneLeaf_armed]

/-- Copying a leaf links and unlinks nothing. -/
theorem CanCopy.cloneLeaf_table (h : CanCopy s live src dst p ts td i) {r : Nat}
    (hr : r ∈ s.roots live) (p' : List (Fin 512)) :
    (cloneLeaf addrMask ts td s i).table r p' = s.table r p' := by
  have hr' : r ∈ (s.armed addrMask ts i).roots live :=
    Vmm.roots_congr (Vmm.armed_currentPml4 (s := s) (i := i) addrMask) ▸ hr
  rw [← h.armed_table addrMask hr, ← (h.writeDst addrMask).write_table hr' p', cloneLeaf_armed]
  rfl

/-- **Copying a leaf** changes its two entries. -/
theorem CanCopy.cloneLeaf_entry (h : CanCopy s live src dst p ts td i) {r : Nat}
    (hr : r ∈ s.roots live) (p' : List (Fin 512)) (j : Fin 512) :
    (cloneLeaf addrMask ts td s i).entry r p' j =
      if r = dst ∧ p' = p ∧ j = i then leafCopy addrMask (s.entry src p i)
      else if (r = src ∧ p' = p ∧ j = i) ∧ hasFlag (s.entry src p i) pageWritable then
        leafCopy addrMask (s.entry src p i)
      else s.entry r p' j := by
  have hr' : r ∈ (s.armed addrMask ts i).roots live :=
    Vmm.roots_congr (Vmm.armed_currentPml4 (s := s) (i := i) addrMask) ▸ hr
  rw [← h.armed_entry addrMask hr, ← h.mem_src, ← (h.writeDst addrMask).write_entry hr' p' j,
    cloneLeaf_armed]
  rfl

theorem CanCopy.cloneLeaf_wf (h : CanCopy s live src dst p ts td i) :
    Wf (cloneLeaf addrMask ts td s i) live := by
  have hwf := (h.writeDst addrMask).wf_write h.path_ne_nil
  have hpmm : (s.armed addrMask ts i).pmm = s.pmm := by
    unfold Vmm.armed
    split <;> rfl
  have hstack : (pmmRefInc s.pmm (s.mem ts i &&& addrMask).toNat).freeStack =
      ((s.armed addrMask ts i).write td i (leafCopy addrMask (s.mem ts i))).pmm.freeStack := by
    rw [pmmRefInc_freeStack, Vmm.write_pmm, hpmm]
  rw [cloneLeaf_armed]
  refine hwf.frame rfl (fun _ _ => rfl) (h.wf.stack.refInc _) fun t ht hmem => ?_
  exact hwf.used t ht (hstack ▸ hmem)

theorem cloneLeaf_touched : ∀ t ∈ (cloneLeaf addrMask ts td s i).touched,
    t = ts ∨ t = td ∨ t ∈ s.touched := by
  intro t ht
  rw [cloneLeaf_armed] at ht
  rcases List.mem_cons.mp ht with rfl | ht
  · exact Or.inr (Or.inl rfl)
  · unfold Vmm.armed at ht
    split at ht
    · rcases List.mem_cons.mp ht with rfl | ht
      · exact Or.inl rfl
      · exact Or.inr (Or.inr ht)
    · exact Or.inr (Or.inr ht)

end Copy

/-! ## The steps of the loops -/

/-- One step of cloning `src` to `dst`: growing the copy, or copying one leaf. -/
inductive CloneStep (live : Finset Nat) (src dst : Nat) : Vmm → Vmm → Prop
  | grow {s s' : Vmm} : LinkStep live dst s s' → CloneStep live src dst s s'
  | page {s : Vmm} {q : PageNumber} {ts td : Nat} :
      CanCopy s live src dst q.path ts td q.2.2.2 → hasFlag (s.pte src q) pagePresent = true →
      CloneStep live src dst s (cloneLeaf (~~~0xFFF#64) ts td s q.2.2.2)
  | huge {s : Vmm} {p : List (Fin 512)} {ts td : Nat} {i : Fin 512} :
      CanCopy s live src dst p ts td i → p.length = 2 → s.IsHuge src p i →
      CloneStep live src dst s (cloneLeaf (~~~0x1FFFFF#64) ts td s i)

/-- A run of steps of a clone. -/
abbrev CloneSteps (live : Finset Nat) (src dst : Nat) : Vmm → Vmm → Prop :=
  ReflTransGen (CloneStep live src dst)

section Steps

variable {s s' : Vmm} {live : Finset Nat} {src dst : Nat}

theorem CloneStep.currentPml4 (h : CloneStep live src dst s s') :
    s'.currentPml4 = s.currentPml4 := by
  cases h with
  | grow h => exact h.currentPml4
  | page _ _ => exact cloneLeaf_currentPml4 _
  | huge _ _ _ => exact cloneLeaf_currentPml4 _

theorem CloneStep.wf (h : CloneStep live src dst s s') : Wf s' live := by
  cases h with
  | grow h => exact h.wf
  | page h _ => exact h.cloneLeaf_wf _
  | huge h _ _ => exact h.cloneLeaf_wf _

theorem CloneStep.table_mono (h : CloneStep live src dst s s') {r t : Nat} {p : List (Fin 512)}
    (hr : r ∈ s.roots live) (ht : s.table r p = some t) : s'.table r p = some t := by
  cases h with
  | grow h => exact h.table_mono hr ht
  | page h _ => rw [h.cloneLeaf_table _ hr, ht]
  | huge h _ _ => rw [h.cloneLeaf_table _ hr, ht]

/-- Only the copy grows. -/
theorem CloneStep.table_of_ne (h : CloneStep live src dst s s') {r : Nat} (hr : r ∈ s.roots live)
    (hne : r ≠ dst) (p : List (Fin 512)) : s'.table r p = s.table r p := by
  cases h with
  | grow h =>
    cases h with
    | touch => rfl
    | link h => rw [h.link_table hr, if_neg fun hc => hne hc.1]
  | page h _ => exact h.cloneLeaf_table _ hr p
  | huge h _ _ => exact h.cloneLeaf_table _ hr p

theorem CloneStep.touched (h : CloneStep live src dst s s')
    (hlog : ∀ t ∈ s.touched, s.IsTable live t) : ∀ t ∈ s'.touched, s'.IsTable live t := by
  have hroots : s'.roots live = s.roots live := Vmm.roots_congr h.currentPml4
  have hold : ∀ t, s.IsTable live t → s'.IsTable live t :=
    fun t ⟨r, hr, p, ht⟩ => ⟨r, hroots ▸ hr, p, h.table_mono hr ht⟩
  cases h with
  | grow h => exact h.touched hlog
  | page h _ =>
    intro t ht
    refine hold t ?_
    rcases cloneLeaf_touched _ t ht with rfl | rfl | ht
    · exact ⟨src, h.src_root, _, h.src_table⟩
    · exact ⟨dst, h.dst_root, _, h.dst_table⟩
    · exact hlog t ht
  | huge h _ _ =>
    intro t ht
    refine hold t ?_
    rcases cloneLeaf_touched _ t ht with rfl | rfl | ht
    · exact ⟨src, h.src_root, _, h.src_table⟩
    · exact ⟨dst, h.dst_root, _, h.dst_table⟩
    · exact hlog t ht

theorem CloneSteps.currentPml4 (h : CloneSteps live src dst s s') :
    s'.currentPml4 = s.currentPml4 := by
  induction h with
  | refl => rfl
  | tail _ hstep ih => rw [hstep.currentPml4, ih]

theorem CloneSteps.roots (h : CloneSteps live src dst s s') : s'.roots live = s.roots live :=
  Vmm.roots_congr h.currentPml4

theorem CloneSteps.wf (h : CloneSteps live src dst s s') (hwf : Wf s live) : Wf s' live := by
  induction h with
  | refl => exact hwf
  | tail _ hstep _ => exact hstep.wf

theorem CloneSteps.table_mono (h : CloneSteps live src dst s s') {r t : Nat} {p : List (Fin 512)}
    (hr : r ∈ s.roots live) (ht : s.table r p = some t) : s'.table r p = some t := by
  induction h with
  | refl => exact ht
  | tail hsteps hstep ih => exact hstep.table_mono (CloneSteps.roots hsteps ▸ hr) ih

theorem CloneSteps.table_of_ne (h : CloneSteps live src dst s s') {r : Nat} (hr : r ∈ s.roots live)
    (hne : r ≠ dst) (p : List (Fin 512)) : s'.table r p = s.table r p := by
  induction h with
  | refl => rfl
  | tail hsteps hstep ih => rw [hstep.table_of_ne (CloneSteps.roots hsteps ▸ hr) hne, ih]

theorem CloneSteps.touched (h : CloneSteps live src dst s s')
    (hlog : ∀ t ∈ s.touched, s.IsTable live t) : ∀ t ∈ s'.touched, s'.IsTable live t := by
  induction h with
  | refl => exact hlog
  | tail _ hstep ih => exact hstep.touched ih

end Steps

/-! ## The loops are runs of steps -/

/-- The tables at and below the path `p`, `n` levels above the page tables. -/
def subtreeTables (table : List (Fin 512) → Option Nat) : Nat → List (Fin 512) → Nat
  | 0, p => if (table p).isSome then 1 else 0
  | n + 1, p =>
    if (table p).isSome then
      1 + (tableSlots.map fun i => subtreeTables table n (i :: p)).sum
    else 0

/-- The tables the copy needs below entry `p` of a table, `n` levels above the page tables. -/
def entryNeeds (table : List (Fin 512) → Option Nat) : Nat → List (Fin 512) → Nat
  | 0, _ => 0
  | n + 1, p => subtreeTables table n p

theorem subtreeTables_eq {table : List (Fin 512) → Option Nat} {p : List (Fin 512)}
    (h : (table p).isSome) (n : Nat) :
    subtreeTables table n p =
      1 + (tableSlots.map fun i => entryNeeds table n (i :: p)).sum := by
  cases n with
  | zero =>
    rw [subtreeTables, if_pos h]
    simp [entryNeeds]
  | succ n => rw [subtreeTables, if_pos h]; rfl

/-- The frames a clone of `src` takes: a root, and one for each table below its user slots. -/
def Vmm.cloneNeeds (s : Vmm) (src : Nat) : Nat :=
  (userSlots.map fun i => subtreeTables (s.table src) 2 [i]).sum + 1

/-- The page is mapped in `dst` as it is in `src`, if it is. -/
def Copied (s : Vmm) (src dst : Nat) (q : PageNumber) : Prop :=
  hasFlag (s.pte src q) pagePresent = true → s.pte dst q = s.pte src q

/-- The entry at `x` has been cloned: every page below it is copied, and no entry outside it has
changed. -/
structure EntryCloned (live : Finset Nat) (src dst : Nat) (x : List (Fin 512)) (s s' : Vmm) :
    Prop where
  steps : CloneSteps live src dst s s'
  copied : ∀ q : PageNumber, x <:+ q.full → Copied s' src dst q
  frame : ∀ r ∈ s.roots live, ∀ p j, ¬ x <:+ j :: p → s'.entry r p j = s.entry r p j

section Loop

variable {live : Finset Nat} {src dst ts td : Nat} {P : List (Fin 512)}
  {body : Vmm → Fin 512 → Vmm} {table : List (Fin 512) → Option Nat} {cost : Fin 512 → Nat}

/-- What a loop over the entries of `src`'s table at `P` needs of its body. -/
def BodySpec (live : Finset Nat) (src dst ts td : Nat) (P : List (Fin 512))
    (table : List (Fin 512) → Option Nat) (cost : Fin 512 → Nat) (body : Vmm → Fin 512 → Vmm)
    (i : Fin 512) : Prop :=
  ∀ s m, Wf s live → src ∈ s.roots live → dst ∈ s.roots live → (∀ p, s.table src p = table p) →
    s.table src P = some ts → s.table dst P = some td → s.entry dst P i = 0#64 →
    s.pmm.Available (cost i + m) →
    EntryCloned live src dst (i :: P) s (body s i) ∧ (body s i).pmm.Available m

/-- A loop clones the entries it visits, one after the other. -/
theorem cloneLoop_spec (hne : src ≠ dst) (l : List (Fin 512)) (hnodup : l.Nodup)
    (hbody : ∀ i ∈ l, BodySpec live src dst ts td P table cost body i) (s : Vmm) (m : Nat)
    (hwf : Wf s live) (hsrc : src ∈ s.roots live) (hdst : dst ∈ s.roots live)
    (htable : ∀ p, s.table src p = table p) (hts : s.table src P = some ts)
    (htd : s.table dst P = some td) (hzero : ∀ i ∈ l, s.entry dst P i = 0#64)
    (hav : s.pmm.Available ((l.map cost).sum + m)) :
    CloneSteps live src dst s (l.foldl body s) ∧
    (∀ q : PageNumber, (∃ i ∈ l, i :: P <:+ q.full) → Copied (l.foldl body s) src dst q) ∧
    (∀ r ∈ s.roots live, ∀ p j, (∀ i ∈ l, ¬ i :: P <:+ j :: p) →
      (l.foldl body s).entry r p j = s.entry r p j) ∧
    (l.foldl body s).pmm.Available m := by
  induction l generalizing s with
  | nil => exact ⟨.refl, fun q ⟨i, hi, _⟩ => absurd hi (by simp), fun _ _ _ _ _ => rfl, by simpa using hav⟩
  | cons a l ih =>
    rw [List.foldl_cons]
    obtain ⟨hnot, hnodup⟩ := List.nodup_cons.mp hnodup
    rw [List.map_cons, List.sum_cons, Nat.add_assoc] at hav
    obtain ⟨hent, hav₁⟩ := hbody a List.mem_cons_self s _ hwf hsrc hdst htable hts htd
      (hzero a List.mem_cons_self) hav
    have hroots := hent.steps.roots
    -- the entries still to come are where they were
    have hzero₁ : ∀ i ∈ l, (body s a).entry dst P i = 0#64 := by
      intro i hi
      rw [hent.frame dst hdst P i ?_, hzero i (List.mem_cons_of_mem _ hi)]
      intro hsuf
      obtain rfl : a = i := suffix_head_unique hsuf List.suffix_rfl
      exact hnot hi
    obtain ⟨hsteps, hcopied, hframe, hav₂⟩ := ih hnodup
      (fun i hi => hbody i (List.mem_cons_of_mem _ hi)) (body s a) (hent.steps.wf hwf)
      (hroots ▸ hsrc) (hroots ▸ hdst)
      (fun p => (hent.steps.table_of_ne hsrc hne p).trans (htable p))
      (hent.steps.table_mono hsrc hts) (hent.steps.table_mono hdst htd) hzero₁ hav₁
    refine ⟨hent.steps.trans hsteps, ?_, ?_, hav₂⟩
    · rintro q ⟨i, hi, hsuf⟩
      rcases List.mem_cons.mp hi with rfl | hi
      · -- copied first, and outside every later entry
        have hout : ∀ b ∈ l, ¬ b :: P <:+ q.full := by
          intro b hb hsuf'
          obtain rfl := suffix_head_unique hsuf hsuf'
          exact hnot hb
        have hcop := hent.copied q hsuf
        unfold Copied Vmm.pte at hcop ⊢
        rw [hframe src (hroots ▸ hsrc) q.path q.2.2.2 hout,
          hframe dst (hroots ▸ hdst) q.path q.2.2.2 hout]
        exact hcop
      · exact hcopied q ⟨i, hi, hsuf⟩
    · intro r hr p j hout
      rw [hframe r (hroots ▸ hr) p j fun i hi => hout i (List.mem_cons_of_mem _ hi),
        hent.frame r hr p j (hout a List.mem_cons_self)]

end Loop

section Entry

variable {live : Finset Nat} {src dst : Nat} {table : List (Fin 512) → Option Nat}

/-- Nothing to copy below an entry of `src` that leads to no table. -/
theorem EntryCloned.of_table_none {x : List (Fin 512)} {s s' : Vmm} (hlen : x.length ≤ 3)
    (hnone : s'.table src x = none) (hsteps : CloneSteps live src dst s s')
    (hframe : ∀ r ∈ s.roots live, ∀ p j, ¬ x <:+ j :: p → s'.entry r p j = s.entry r p j) :
    EntryCloned live src dst x s s' := by
  refine ⟨hsteps, fun q hq hpres => ?_, hframe⟩
  rw [Vmm.pte_of_table_none hnone hq hlen, zero_hasFlag] at hpres
  exact absurd hpres (by simp)

theorem ne_of_not_suffix {α : Type} {i j : α} {p P : List α} (h : ¬ i :: P <:+ j :: p) :
    ¬ (p = P ∧ j = i) := by
  rintro ⟨rfl, rfl⟩
  exact h List.suffix_rfl

/-- The body of the innermost loop. -/
theorem cloneEntry_page_spec (hne : src ≠ dst) {P : List (Fin 512)} {i : Fin 512} {ts td : Nat}
    (hlen : P.length = 3) :
    BodySpec live src dst ts td P table (fun _ => 0) (cloneEntry 0 ts td) i := by
  intro s m hwf hsrc hdst _ hts htd hzero hav
  obtain ⟨q, rfl, rfl⟩ := PageNumber.exists_of_path hlen i
  rw [Nat.zero_add] at hav
  have htouch : CloneStep live src dst s (s.touch ts) := .grow (.touch hwf ⟨src, hsrc, _, hts⟩)
  have hmem : s.mem ts q.2.2.2 = s.pte src q := (Vmm.entry_of_table hts _).symm
  simp only [cloneEntry, Vmm.touch_mem, hmem]
  split
  -- a page that is there is shared, and read-only from now on
  · next hpres =>
    have hcopy : CanCopy (s.touch ts) live src dst q.path ts td q.2.2.2 :=
      ⟨hwf.touch ts, hsrc, hdst, hne, hts, htd, Or.inl rfl, hzero⟩
    have hstep : CloneStep live src dst (s.touch ts) _ := .page hcopy hpres
    refine ⟨⟨(ReflTransGen.single htouch).tail hstep, fun q' hq _ => ?_, fun r hr p' j hout => ?_⟩, ?_⟩
    · -- the one page below this entry
      obtain rfl := PageNumber.full_inj (hq.eq_of_length (by simp))
      have hnew := hcopy.cloneLeaf_entry (~~~0xFFF#64) hdst q.path q.2.2.2
      have hsame := hcopy.cloneLeaf_entry (~~~0xFFF#64) hsrc q.path q.2.2.2
      rw [if_pos ⟨rfl, rfl, rfl⟩] at hnew
      rw [if_neg fun hc => hne hc.1] at hsame
      refine hnew.trans (Eq.trans ?_ hsame.symm)
      split
      · rfl
      · next hw =>
        have hro : hasFlag (s.pte src q) pageWritable = false := by
          rw [← Bool.not_eq_true]
          exact fun hc => hw ⟨⟨rfl, rfl, rfl⟩, hc⟩
        exact leafCopy_of_readOnly hpres hro
    · rw [hcopy.cloneLeaf_entry _ hr, if_neg fun hc => ne_of_not_suffix hout hc.2,
        if_neg fun hc => ne_of_not_suffix hout hc.1.2]
      rfl
    · rw [cloneLeaf_pmm]
      exact hav.congr (pmmRefInc_freeStack _ _)
  -- one that is not there is no page of the copy
  · next hpres =>
    refine ⟨⟨.single htouch, fun q' hq hq' => ?_, fun _ _ _ _ _ => rfl⟩, hav⟩
    obtain rfl := PageNumber.full_inj (hq.eq_of_length (by simp))
    exact absurd hq' hpres

theorem cloneEntry_succ (n srcTable dstTable : Nat) (s : Vmm) (i : Fin 512) :
    cloneEntry (n + 1) srcTable dstTable s i =
      if hasFlag (s.mem srcTable i) pagePresent then
        if n = 0 ∧ hasFlag (s.mem srcTable i) pageHuge then
          cloneLeaf (~~~0x1FFFFF#64) srcTable dstTable (s.touch srcTable) i
        else
          tableSlots.foldl (cloneEntry n (pageOf (s.mem srcTable i))
            (ensureNextTable (s.touch srcTable) dstTable i).1)
            (ensureNextTable (s.touch srcTable) dstTable i).2
      else s.touch srcTable := rfl

/-- The loops below an entry that links a table: the copy gets a table of its own, and its entries
are cloned. -/
theorem cloneEntry_table_spec (hne : src ≠ dst) {n : Nat} {P : List (Fin 512)} {i : Fin 512}
    {ts' td m : Nat} {s : Vmm} (hlen : P.length + (n + 1) = 3) (hslot : P = [] → i ≠ 0)
    (hbody : ∀ j td', BodySpec live src dst ts' td' (i :: P) table
      (fun j => entryNeeds table n (j :: i :: P)) (cloneEntry n ts' td') j)
    (hwf : Wf s live) (hsrc : src ∈ s.roots live) (hdst : dst ∈ s.roots live)
    (htable : ∀ p, s.table src p = table p) (hts' : s.table src (i :: P) = some ts')
    (htd : s.table dst P = some td) (hzero : s.entry dst P i = 0#64)
    (hav : s.pmm.Available (entryNeeds table (n + 1) (i :: P) + m)) :
    EntryCloned live src dst (i :: P) s (tableSlots.foldl
      (cloneEntry n ts' (ensureNextTable s td i).1) (ensureNextTable s td i).2) ∧
    (tableSlots.foldl (cloneEntry n ts' (ensureNextTable s td i).1)
      (ensureNextTable s td i).2).pmm.Available m := by
  have hneeds : entryNeeds table (n + 1) (i :: P) =
      1 + (tableSlots.map fun j => entryNeeds table n (j :: i :: P)).sum :=
    subtreeTables_eq (by rw [← htable, hts']; rfl) n
  rw [hneeds, Nat.add_comm 1, Nat.add_assoc, Nat.add_comm 1, ← Nat.add_assoc] at hav
  have hfresh : s.mem td i = 0#64 := by rw [← Vmm.entry_of_table htd, hzero]
  have hnone : s.table dst (i :: P) = none := by
    rw [Vmm.table_cons htd]
    exact Vmm.edge_none_of_not_present (by rw [hfresh, zero_hasFlag])
  -- The entry is empty and a frame is available, so `ensureNextTable` can only link a new table.
  rcases ensureNextTable_cases (i := i) hwf hdst htd (by omega) (fun hc => hslot hc.2.1 hc.2.2)
    (by simp [hfresh]) with ⟨x, hx, -, -⟩ | ⟨hx, -⟩ | ⟨hlink, heq⟩
  · exact absurd (hx.symm.trans hnone) (by simp)
  · exact absurd hx (Pmm.available_succ hav).1
  · rw [heq]
    have hsteps : CloneSteps live src dst s ((s.touch td).link td i) :=
      (ReflTransGen.single (.grow (.touch hwf ⟨dst, hdst, _, htd⟩))).tail (.grow (.link hlink))
    have hroots := hsteps.roots
    have htd' : ((s.touch td).link td i).table dst (i :: P) = some (pmmAllocFrame s.pmm).1 := by
      rw [hlink.link_table hdst, if_pos ⟨rfl, rfl⟩]
      rfl
    have hempty : ∀ j ∈ tableSlots, ((s.touch td).link td i).entry dst (i :: P) j = 0#64 := by
      intro j _
      rw [hlink.link_entry hdst, if_neg fun hc => ?_]
      · exact Vmm.entry_of_none hnone j
      · simpa using congrArg List.length hc.2.1
    obtain ⟨hloop, hcopied, hframe, hav'⟩ := cloneLoop_spec hne tableSlots nodup_tableSlots
      (fun j _ => hbody j (pmmAllocFrame s.pmm).1) _ m (hsteps.wf hwf) (hroots ▸ hsrc)
      (hroots ▸ hdst) (fun p => (hsteps.table_of_ne hsrc hne p).trans (htable p))
      (hsteps.table_mono hsrc hts') htd' hempty
      (by rw [hlink.link_pmm]; exact (Pmm.available_succ hav).2)
    -- A page below the entry is below one of the slots of the table; outside of it neither the
    -- link nor the loop writes.
    refine ⟨⟨hsteps.trans hloop, fun q hq => hcopied q ?_, fun r hr p' j hout => ?_⟩, hav'⟩
    · obtain ⟨l, hl⟩ := hq
      rcases List.eq_nil_or_concat l with rfl | ⟨l, j, rfl⟩
      · have := congrArg List.length hl
        simp at this
        omega
      · exact ⟨j, mem_tableSlots j, l, by simpa using hl⟩
    · rw [hframe r (hroots ▸ hr) p' j fun b _ hsuf =>
        hout ((List.suffix_cons b (i :: P)).trans hsuf), hlink.link_entry hr,
        if_neg fun hc => ne_of_not_suffix hout hc.2]
      rfl

/-- **The body of the loops**, at every level: by induction on the level, each entry is cloned by
a run of steps. -/
theorem cloneEntry_bodySpec (hne : src ≠ dst) (n : Nat) :
    ∀ (P : List (Fin 512)) (i : Fin 512) (ts td : Nat), P.length + n = 3 → (P = [] → i ≠ 0) →
      BodySpec live src dst ts td P table (fun i => entryNeeds table n (i :: P))
        (cloneEntry n ts td) i := by
  -- by induction on the levels below the entry
  induction n with
  | zero => exact fun P i ts td hlen _ => cloneEntry_page_spec hne hlen
  | succ n ih =>
    intro P i ts td hlen hslot s m hwf hsrc hdst htable hts htd hzero hav
    have htouch : CloneStep live src dst s (s.touch ts) := .grow (.touch hwf ⟨src, hsrc, _, hts⟩)
    have hmem : s.mem ts i = s.entry src P i := (Vmm.entry_of_table hts i).symm
    have hshort : (i :: P).length ≤ 3 := by
      rw [List.length_cons]
      omega
    rw [cloneEntry_succ]
    by_cases hpres : hasFlag (s.mem ts i) pagePresent = true
    · rw [if_pos hpres]
      by_cases hhuge : n = 0 ∧ hasFlag (s.mem ts i) pageHuge = true
      · -- a 2 MiB leaf
        rw [if_pos hhuge]
        obtain ⟨rfl, hhuge⟩ := hhuge
        have hcopy : CanCopy (s.touch ts) live src dst P ts td i :=
          ⟨hwf.touch ts, hsrc, hdst, hne, hts, htd, Or.inr ⟨by omega, hmem ▸ hhuge⟩, hzero⟩
        have hstep : CloneStep live src dst (s.touch ts) _ :=
          .huge hcopy (by omega) ⟨hmem ▸ hpres, hmem ▸ hhuge⟩
        refine ⟨.of_table_none hshort ?_ ((ReflTransGen.single htouch).tail hstep)
          fun r hr p' j hout => ?_, ?_⟩
        · rw [hcopy.cloneLeaf_table _ hsrc]
          exact (Vmm.table_cons hts i).trans (Vmm.edge_none_of_huge (by omega) hhuge)
        · rw [hcopy.cloneLeaf_entry _ hr, if_neg fun hc => ne_of_not_suffix hout hc.2,
            if_neg fun hc => ne_of_not_suffix hout hc.1.2]
          rfl
        · rw [cloneLeaf_pmm]
          exact (hav.mono (by omega)).congr (pmmRefInc_freeStack _ _)
      -- a table: the copy of the table below, from the induction
      · rw [if_neg hhuge]
        have hnext : s.table src (i :: P) = some (pageOf (s.mem ts i)) := by
          rw [Vmm.table_cons hts, Vmm.edge_of_own fun hc => hslot hc.2.1 hc.2.2, if_pos]
          exact ⟨by omega, hpres, fun hc => hhuge ⟨by omega, hc.2⟩⟩
        obtain ⟨hent, hav'⟩ := cloneEntry_table_spec hne hlen hslot
          (fun j td' => ih (i :: P) j _ td' (by simp; omega) (by simp)) (hwf.touch ts) hsrc hdst
          htable hnext htd hzero hav
        exact ⟨⟨(ReflTransGen.single htouch).trans hent.steps, hent.copied, hent.frame⟩, hav'⟩
    -- nothing is there to be copied
    · rw [if_neg hpres]
      refine ⟨.of_table_none hshort ?_ (.single htouch) fun _ _ _ _ _ => rfl, hav.mono (by omega)⟩
      exact (Vmm.table_cons hts i).trans (Vmm.edge_none_of_not_present (by simpa using hpres))

end Entry

/-! ## The whole clone -/

/-- A clone with enough frames: a new root, and a run of steps that copies every page of the user
slots. -/
structure Cloned (live : Finset Nat) (src dst : Nat) (s s₁ s' : Vmm) : Prop where
  created : Created s live s₁ dst
  ne : src ≠ dst
  steps : CloneSteps (insert dst live) src dst s₁ s'
  copied : ∀ q : PageNumber, q.1 ≠ 0 → Copied s' src dst q

/-- **`vmmCloneAddressSpace` with enough frames.** -/
theorem vmmCloneAddressSpace_spec {s : Vmm} {live : Finset Nat} {src : Nat} (h : Wf s live)
    (hsrc : src ∈ s.roots live) (hav : s.pmm.Available (s.cloneNeeds src)) :
    Cloned live src (vmmCloneAddressSpace s src).1 s
      (s.create (vmmCloneAddressSpace s src).1) (vmmCloneAddressSpace s src).2 := by
  obtain ⟨hx, hav₁⟩ := Pmm.available_succ hav
  rcases vmmCreateAddressSpace_cases h with ⟨hx', -⟩ | ⟨-, heq⟩
  · exact absurd hx' hx
  have hcreated := h.create hx
  have hroots : (s.create (pmmAllocFrame s.pmm).1).roots (insert (pmmAllocFrame s.pmm).1 live) =
      insert (pmmAllocFrame s.pmm).1 (s.roots live) := by
    rw [Vmm.roots_congr hcreated.currentPml4, Vmm.roots_insert]
  have hne : src ≠ (pmmAllocFrame s.pmm).1 := by
    rintro rfl
    exact hcreated.fresh.notTable ⟨_, hsrc, [], rfl⟩
  simp only [vmmCloneAddressSpace, heq]
  have hbody : ∀ i ∈ userSlots, BodySpec (insert (pmmAllocFrame s.pmm).1 live) src
      (pmmAllocFrame s.pmm).1 src (pmmAllocFrame s.pmm).1 [] (s.table src)
      (fun i => entryNeeds (s.table src) 3 [i]) (cloneEntry 3 src (pmmAllocFrame s.pmm).1) i :=
    fun i hi => cloneEntry_bodySpec hne 3 [] i src _ rfl fun _ => mem_userSlots.mp hi
  obtain ⟨hsteps, hcopied, -, -⟩ := cloneLoop_spec hne userSlots nodup_userSlots hbody
    (s.create (pmmAllocFrame s.pmm).1) 0 hcreated.wf (hroots ▸ Set.mem_insert_of_mem _ hsrc)
    (hroots ▸ Set.mem_insert _ _) (hcreated.table_old hsrc) rfl rfl
    (fun i hi => hcreated.zero i (mem_userSlots.mp hi))
    (by rw [hcreated.pmm]; exact hav₁)
  refine ⟨hcreated, hne, hsteps, fun q hq => hcopied q ⟨q.1, mem_userSlots.mpr hq, ?_⟩⟩
  exact ⟨[q.2.2.2, q.2.2.1, q.2.1], rfl⟩

end ZohoOs
