import ZohoOs.Memory.CowOps
import ZohoOs.Memory.Isolation
import ZohoOs.Memory.MapFrames
import ZohoOs.Memory.UnmapEffect

/-!
# Page tables as a finite map

Below one root the tables stand for a finite map from page numbers to a frame and flags. `vmm_map`
inserts and `vmm_unmap` deletes; a call that runs out of frames changes no page.

## Main definitions

* `PageMap`, `pageIndex`: finite maps by the 36-bit number of a page of a 48-bit address
* `SpaceOp`: the calls on one space, on the tables and on the map
* `Represents`: the tables of a space stand for a map

## Main results

* `pageNumber_eq_iff`: the four indices are the digits of the number of the page
* `LinkSteps.available`: a walk that reaches a page table had the frames it needed
* `spaceRun_answers`: after any calls `vmm_get_flags` and `vmm_get_phys` answer as the map
-/

namespace ZohoOs

open Forest TransitionSystem

/-! ## Page numbers -/

/-- The number of the page of a 48-bit address. -/
def pageIndex (virt : BitVec 64) : Nat := virt.toNat / 4096 % 2 ^ 36

theorem index_val (virt : BitVec 64) (k : Nat) :
    (Fin.ofNat 512 (virt >>> k &&& 0x1FF#64).toNat).val = virt.toNat / 2 ^ k % 512 := by
  have hmask : (0x1FF#64).toNat = 2 ^ 9 - 1 := rfl
  rw [Fin.val_ofNat, BitVec.toNat_and, BitVec.toNat_ushiftRight, Nat.shiftRight_eq_div_pow, hmask,
    Nat.and_two_pow_sub_one_eq_mod]
  exact Nat.mod_mod _ _

/-- **The four indices of an address are the digits of the number of its page.** -/
theorem pageNumber_eq_iff {virt virt' : BitVec 64} :
    pageNumber virt = pageNumber virt' ↔ pageIndex virt = pageIndex virt' := by
  simp only [pageNumber, Prod.mk.injEq, Fin.ext_iff, pml4Index, pdptIndex, pdIndex, ptIndex,
    index_val, pageIndex]
  omega

/-! ## Entries -/

section Entries

variable {frame flags : BitVec 64}

theorem or_page_eq_zero (hframe : frame &&& ~~~0xFFF#64 = 0#64)
    (hflags : flags &&& ~~~0xFFF#64 = 0#64) : (frame ||| flags) &&& ~~~0xFFF#64 = 0#64 := by
  rw [BitVec.and_or_distrib_right, hframe, hflags, BitVec.or_zero]

theorem and_low_of_flags (hflags : flags &&& ~~~0xFFF#64 = 0#64) : flags &&& 0xFFF#64 = flags := by
  have hsplit : flags &&& (0xFFF#64 ||| ~~~0xFFF#64) = flags := by
    rw [show 0xFFF#64 ||| ~~~0xFFF#64 = BitVec.allOnes 64 by decide, BitVec.and_allOnes]
  rwa [BitVec.and_or_distrib_left, hflags, BitVec.or_zero] at hsplit

/-- The low bits of an entry are its flags. -/
theorem or_and_low (hframe : frame &&& 0xFFF#64 = 0#64) (hflags : flags &&& ~~~0xFFF#64 = 0#64) :
    (frame ||| flags) &&& 0xFFF#64 = flags := by
  rw [BitVec.and_or_distrib_right, hframe, BitVec.zero_or, and_low_of_flags hflags]

/-- The high bits of an entry are its frame. -/
theorem or_and_page (hframe : frame &&& 0xFFF#64 = 0#64) (hflags : flags &&& ~~~0xFFF#64 = 0#64) :
    (frame ||| flags) &&& ~~~0xFFF#64 = frame := by
  rw [BitVec.and_or_distrib_right, hflags, BitVec.or_zero, and_page_of_aligned hframe]

end Entries

/-! ## The map -/

/-- A frame and flags for each page that is mapped. -/
abbrev PageMap := Nat → Option (BitVec 64 × BitVec 64)

/-- The calls on one space. -/
inductive SpaceOp
  | map (virt phys flags : BitVec 64)
  | unmap (virt : BitVec 64)

/-- An address of the user half, and for a mapping flags below `0x1000` without `PAGE_HUGE`. -/
def SpaceOp.Valid : SpaceOp → Prop
  | .map virt _ flags =>
    pml4Index virt ≠ 0 ∧ flags &&& ~~~0xFFF#64 = 0#64 ∧ hasFlag flags pageHuge = false
  | .unmap virt => pml4Index virt ≠ 0

/-- The calls, on the tables below `r`. -/
def SpaceOp.run (r : Nat) : SpaceOp → Vmm → Vmm
  | .map virt phys flags, s => vmmMap s r virt phys flags
  | .unmap virt, s => vmmUnmap s r virt

/-- The calls, on the map: inserts and deletes. A mapping for whose tables there are not the frames
changes nothing. -/
def SpaceOp.apply (s : Vmm) (r : Nat) : SpaceOp → PageMap → PageMap
  | .map virt phys flags, m =>
    if s.pmm.Available (s.mapNeeds r (pageNumber virt)) then
      Function.update m (pageIndex virt) (some (phys &&& ~~~0xFFF#64, flags ||| pagePresent))
    else m
  | .unmap virt, m => Function.update m (pageIndex virt) none

/-- The calls, on the tables and the map side by side. -/
abbrev spaceStep (r : Nat) : Vmm × PageMap → SpaceOp → Vmm × PageMap → Prop :=
  Restrict (fun _ op => op.Valid) (Apply fun op x => (op.run r x.1, op.apply x.1 r x.2))

/-- The entry of a page with a frame and flags. -/
def mapEntry : Option (BitVec 64 × BitVec 64) → BitVec 64
  | none => 0#64
  | some (frame, flags) => frame ||| flags

/-- **The tables below `r` stand for a map**: they hold no 2 MiB leaf, and the entry of each page of
the user half is that of the map. -/
structure Represents (live : Finset Nat) (r : Nat) (s : Vmm) (m : PageMap) : Prop where
  wf : Wf s live
  root : r ∈ live
  pde : ∀ q, hasFlag (s.pde r q) pageHuge = false
  pte : ∀ virt, pml4Index virt ≠ 0 → s.pte r (pageNumber virt) = mapEntry (m (pageIndex virt))
  entries : ∀ n frame flags, m n = some (frame, flags) → frame &&& 0xFFF#64 = 0#64 ∧
    flags &&& ~~~0xFFF#64 = 0#64 ∧ hasFlag flags pagePresent = true

section Links

variable {s s' : Vmm} {live : Finset Nat} {r : Nat} {q : PageNumber}

/-- Linking tables makes no directory entry a leaf. -/
theorem LinkSteps.pde_small (h : LinkSteps live r s s') (hr : r ∈ live)
    (hpde : ∀ q, hasFlag (s.pde r q) pageHuge = false) (q : PageNumber) :
    hasFlag (s'.pde r q) pageHuge = false := by
  induction h with
  | refl => exact hpde q
  | tail _ hstep ih =>
    cases hstep with
    | touch => exact ih
    | link hlink =>
      rw [Vmm.pde, hlink.link_entry (Vmm.mem_roots hr)]
      have hfresh := hlink.wf.freshPage hlink.alloc
      split
      · exact linkEntry_not_huge hfresh.aligned (lt_trans hfresh.lt (by decide))
      · exact ih

/-- **A walk that has linked the tables of a page had the frames for them.** -/
theorem LinkSteps.available (h : LinkSteps live r s s')
    (hav : s'.pmm.Available (s'.mapNeeds r q)) : s.pmm.Available (s.mapNeeds r q) := by
  rw [← Vmm.lacking_tablesOver, ← Nat.zero_add (Vmm.lacking _ _ _)] at hav ⊢
  exact h.available_lacking hav

end Links

/-! ## The calls -/

section Calls

variable {s s' : Vmm} {live : Finset Nat} {r : Nat} {m : PageMap} {virt flags : BitVec 64}

/-- The entries of a space once its entry of one page is set. -/
structure EntrySet (live : Finset Nat) (r : Nat) (q : PageNumber) (e : BitVec 64) (s s' : Vmm) :
    Prop where
  wf : Wf s' live
  pde : ∀ q', hasFlag (s'.pde r q') pageHuge = false
  pte : ∀ q', s'.pte r q' = if q' = q then e else s.pte r q'

/-- Writing an entry at the end of a walk. -/
theorem EntrySet.of_write {q : PageNumber} {e : BitVec 64} {pt : Nat} {s₁ : Vmm} (h : Wf s live)
    (hr : r ∈ live) (hpde : ∀ q, hasFlag (s.pde r q) pageHuge = false)
    (hsteps : LinkSteps live r s s₁) (hpt : s₁.table r q.path = some pt) :
    EntrySet live r q e s (s₁.write pt q.2.2.2 e) := by
  have hroot : r ∈ s₁.roots live := hsteps.roots ▸ Vmm.mem_roots hr
  have hwrite := WriteLeaf.of_page (hsteps.wf h) hroot hpt e
  have hset := hwrite.pteSet
  refine ⟨hwrite.wf_write (by simp), fun q' => ?_, fun q' => ?_⟩
  · rw [Vmm.pde, hset.entry r hroot, if_neg]
    · exact hsteps.pde_small hr hpde q'
    · rintro ⟨-, hpath, -⟩
      exact absurd (congrArg List.length hpath) (by simp)
  · by_cases hq : q' = q
    · subst hq
      rw [if_pos rfl, hset.pte_self hr]
    · rw [if_neg hq, hset.pte_other hr fun hc => hq hc.2, hsteps.pte_eq (Vmm.mem_roots hr)]

theorem EntrySet.of_steps (h : Wf s live) (hr : r ∈ live)
    (hpde : ∀ q, hasFlag (s.pde r q) pageHuge = false) (hsteps : LinkSteps live r s s') :
    EntrySet live r q (s.pte r q) s s' := by
  refine ⟨hsteps.wf h, hsteps.pde_small hr hpde, fun q' => ?_⟩
  rw [hsteps.pte_eq (Vmm.mem_roots hr)]
  split
  · next hq => rw [hq]
  · rfl

/-- **`vmmUnmap` clears the entry of the page**, whether its tables are there or not. -/
theorem vmmUnmap_entrySet (h : Wf s live) (hr : r ∈ live) (hslot : pml4Index virt ≠ 0)
    (hpde : ∀ q, hasFlag (s.pde r q) pageHuge = false) :
    EntrySet live r (pageNumber virt) 0#64 s (vmmUnmap s r virt) := by
  have hroot := Vmm.mem_roots (s := s) hr
  have hclear := vmmUnmap_cleared h hroot virt
  refine ⟨hclear.wf, fun q => ?_, fun q => ?_⟩
  · rw [hclear.pde r hroot, if_neg fun hc => Bool.false_ne_true ((hpde q).symm.trans hc.1)]
    exact hpde q
  · rw [hclear.pte r hroot]
    refine if_congr ?_ rfl rfl
    rw [List.mem_singleton]
    refine and_iff_right_of_imp ?_
    rintro rfl
    exact (if_neg hslot).symm

/-- In a space without 2 MiB pages, no walk outside slot 0 meets a leaf. -/
theorem vmmMap_result (h : Wf s live) (hr : r ∈ live) (hslot : pml4Index virt ≠ 0)
    (hpde : ∀ q, hasFlag (s.pde r q) pageHuge = false) (phys flags : BitVec 64) :
    MapResult live r (pageNumber virt) phys flags s (vmmMap s r virt phys flags) := by
  have howner : s.owner r (pml4Index virt) = r := if_neg hslot
  have hmap := vmmMap_spec h (Vmm.mem_roots hr) virt phys flags <| Or.inr fun hunder => by
    have hpde' := hpde (pageNumber virt)
    rw [howner] at hunder
    rw [Vmm.pde, hunder.1.2] at hpde'
    cases hpde'
  rwa [howner] at hmap

/-- **`vmmMap` sets the entry of the page if its tables can be had**, and no entry otherwise. -/
theorem vmmMap_entrySet (h : Wf s live) (hr : r ∈ live) (hslot : pml4Index virt ≠ 0)
    (hpde : ∀ q, hasFlag (s.pde r q) pageHuge = false) (hsmall : hasFlag flags pageHuge = false)
    (phys : BitVec 64) : EntrySet live r (pageNumber virt)
      (if s.pmm.Available (s.mapNeeds r (pageNumber virt)) then pageEntry phys flags
        else s.pte r (pageNumber virt)) s (vmmMap s r virt phys flags) := by
  have hmap := vmmMap_result h hr hslot hpde phys flags
  generalize vmmMap s r virt phys flags = s' at hmap
  cases hmap with
  | exhausted hsteps _ hnot =>
    rw [if_neg hnot]
    have hset : EntrySet live r (pageNumber virt) (s.pte r (pageNumber virt)) s _ :=
      EntrySet.of_steps h hr hpde hsteps
    exact ⟨hset.wf.alloc, hset.pde, hset.pte⟩
  | huge hhuge =>
    rw [hsmall] at hhuge
    cases hhuge
  | page _ hsteps hpt =>
    have hneeds := Vmm.mapNeeds_of_table hpt
    rw [if_pos (hsteps.available (by rw [hneeds]; exact Pmm.available_zero _))]
    exact EntrySet.of_write h hr hpde hsteps hpt

/-! ## The refinement -/

/-- Setting the entry of a page to that of a new value is an update of the map. -/
theorem Represents.of_entrySet (h : Represents live r s m) {e : BitVec 64}
    {v : Option (BitVec 64 × BitVec 64)} (hset : EntrySet live r (pageNumber virt) e s s')
    (he : e = mapEntry v) (hv : ∀ frame flags, v = some (frame, flags) →
      frame &&& 0xFFF#64 = 0#64 ∧ flags &&& ~~~0xFFF#64 = 0#64 ∧
        hasFlag flags pagePresent = true) :
    Represents live r s' (Function.update m (pageIndex virt) v) := by
  refine ⟨hset.wf, h.root, hset.pde, fun virt' hslot => ?_, fun n frame flags hn => ?_⟩
  · rw [hset.pte, Function.update_apply]
    by_cases hpage : pageIndex virt' = pageIndex virt
    · rw [if_pos (pageNumber_eq_iff.mpr hpage), if_pos hpage, he]
    · rw [if_neg (mt pageNumber_eq_iff.mp hpage), if_neg hpage, h.pte virt' hslot]
  · rw [Function.update_apply] at hn
    split at hn
    · exact hv frame flags hn
    · exact h.entries n frame flags hn

/-- Setting an entry to what it is keeps the map. -/
theorem Represents.of_entrySet_self (h : Represents live r s m) {q : PageNumber}
    (hset : EntrySet live r q (s.pte r q) s s') : Represents live r s' m := by
  refine ⟨hset.wf, h.root, hset.pde, fun virt' hslot => ?_, h.entries⟩
  rw [hset.pte, ← h.pte virt' hslot]
  split
  · next hq => rw [hq]
  · rfl

/-- **Each call acts on the tables as it acts on the map.** -/
theorem Represents.step (h : Represents live r s m) {op : SpaceOp} (hop : op.Valid) :
    Represents live r (op.run r s) (op.apply s r m) := by
  cases op with
  | map virt phys flags =>
    obtain ⟨hslot, hflags, hsmall⟩ := hop
    have hset := vmmMap_entrySet h.wf h.root hslot h.pde hsmall phys
    rw [SpaceOp.run, SpaceOp.apply]
    split at hset
    · next hav =>
      rw [if_pos hav]
      refine h.of_entrySet hset (by rw [mapEntry, pageEntry, BitVec.or_assoc]) ?_
      rintro _ _ ⟨⟩
      refine ⟨?_, ?_, ?_⟩
      · rw [BitVec.and_assoc, show ~~~0xFFF#64 &&& 0xFFF#64 = 0#64 by decide, BitVec.and_zero]
      · exact or_page_eq_zero hflags (by decide)
      · rw [hasFlag_or, show hasFlag pagePresent pagePresent = true by decide, Bool.or_true]
    · next hav =>
      rw [if_neg hav]
      exact h.of_entrySet_self hset
  | unmap virt =>
    exact h.of_entrySet (vmmUnmap_entrySet h.wf h.root hop h.pde) rfl fun _ _ hv => by cases hv

/-- A space just created stands for the empty map. -/
theorem represents_create (h : Wf s live) (hnew : vmmCreateAddressSpace s = (r, s')) (hr : r ≠ 0) :
    Represents (insert r live) r s' fun _ => none := by
  rcases vmmCreateAddressSpace_cases h with ⟨-, heq⟩ | ⟨hne, heq⟩
  · obtain ⟨hzero, -⟩ := Prod.mk.injEq .. ▸ hnew.symm.trans heq
    exact absurd hzero hr
  · obtain ⟨rfl, rfl⟩ := Prod.mk.injEq .. ▸ hnew.symm.trans heq
    have hcreated := h.create hne
    refine ⟨hcreated.wf, Finset.mem_insert_self _ _, fun q => ?_, fun virt _ => ?_, ?_⟩
    · rw [Vmm.pde, hcreated.entry_new (by simp), zero_hasFlag]
    · exact hcreated.entry_new (by simp) _
    · rintro _ _ _ ⟨⟩

/-! ## The answers -/

/-- What `vmm_get_flags` and `vmm_get_phys` answer for an address, given the value of the map at its
page. -/
def Answers (s : Vmm) (r : Nat) (virt : BitVec 64) (v : Option (BitVec 64 × BitVec 64)) : Prop :=
  hasFlag (vmmGetFlags s r virt) pagePresent = v.isSome ∧
  ∀ frame flags, v = some (frame, flags) →
    vmmGetFlags s r virt = flags ∧ vmmGetPhys s r virt = frame ||| virt &&& 0xFFF#64

/-- **The walks answer as the map.** -/
theorem Represents.answers (h : Represents live r s m) (hslot : pml4Index virt ≠ 0) :
    Answers s r virt (m (pageIndex virt)) := by
  have hroot := Vmm.mem_roots (s := s) h.root
  have howner : s.owner r (pml4Index virt) = r := if_neg hslot
  have hpte := h.pte virt hslot
  have hget := vmmGetFlags_eq h.wf hroot howner rfl
  have hphys := vmmGetPhys_eq h.wf hroot howner rfl
  rw [h.pde, if_neg (by simp), hpte] at hget hphys
  unfold Answers
  cases hm : m (pageIndex virt) with
  | none =>
    rw [hm] at hget
    refine ⟨?_, fun _ _ hv => by cases hv⟩
    rw [hget, mapEntry, BitVec.zero_and, zero_hasFlag]
    rfl
  | some v =>
    obtain ⟨frame, flags⟩ := v
    obtain ⟨hframe, hflags, hpres⟩ := h.entries _ _ _ hm
    rw [hm, mapEntry] at hget hphys hpte
    have hlow : (frame ||| flags) &&& 0xFFF#64 = flags := or_and_low hframe hflags
    have hhigh : (frame ||| flags) &&& ~~~0xFFF#64 = frame := or_and_page hframe hflags
    rw [hlow] at hget
    refine ⟨by rw [hget, hpres]; rfl, ?_⟩
    rintro _ _ ⟨⟩
    refine ⟨hget, ?_⟩
    -- an entry that is present has a page table over it
    have htable : s.table r (pageNumber virt).path ≠ none := by
      intro hnone
      rw [Vmm.pte, Vmm.entry_of_none hnone] at hpte
      have hzero : hasFlag (frame ||| flags) pagePresent = false := by rw [← hpte, zero_hasFlag]
      rw [hasFlag_or, hpres, Bool.or_true] at hzero
      cases hzero
    rw [hphys, if_neg htable, hhigh]

/-- **The tables of a space refine a finite map.** After any calls on a space just created, the walks
answer as the map to which the same inserts and deletes are applied. -/
theorem spaceRun_answers {s₀ : Vmm} {ops : List SpaceOp} (h : Wf s live)
    (hnew : vmmCreateAddressSpace s = (r, s₀)) (hr : r ≠ 0)
    (hrun : Run (spaceStep r) (s₀, fun _ => none) ops (s', m)) (hslot : pml4Index virt ≠ 0) :
    Answers s' r virt (m (pageIndex virt)) := by
  have hrep : Represents (insert r live) r s' m :=
    hrun.invariant (I := fun x => Represents (insert r live) r x.1 x.2)
      (fun x op y hx hstep => by
        obtain ⟨hop, rfl⟩ := hstep
        exact hx.step hop)
      (represents_create h hnew hr)
  exact hrep.answers hslot

end Calls

/-- At boot: in the first space a page is mapped, and read back at one of its addresses. -/
theorem spaceRun_answers_boot : ∃ pmm s₀ s m, pmmInit bootMachine 0x106000 = some pmm ∧
    vmmCreateAddressSpace (bootWorld pmm).vmm = (0x10D000, s₀) ∧
    Run (spaceStep 0x10D000) (s₀, fun _ => none) [.map 0x8000000000#64 0x300000#64 0x7#64] (s, m) ∧
    m (pageIndex 0x8000000123#64) = some (0x300000#64, 0x7#64) ∧
    Answers s 0x10D000 0x8000000123#64 (m (pageIndex 0x8000000123#64)) := by
  obtain ⟨pmm, h, hstack⟩ := pmmInit_bootMachine
  have hwf := bootWorld_wf h hstack
  -- the frame on top of the stack becomes the root
  have htop : (pmmAllocFrame (bootWorld pmm).vmm.pmm).1 = 0x10D000 := by
    rw [pmmAllocFrame, show (bootWorld pmm).vmm.pmm.freeStack = bootFrames from hstack]
    rfl
  rcases vmmCreateAddressSpace_cases hwf with ⟨hzero, -⟩ | ⟨hne, hnew⟩
  · rw [htop] at hzero
    exact absurd hzero (by decide)
  have hcreated := hwf.create hne
  rw [htop] at hnew hcreated
  -- three tables are needed at most
  have hav : ((bootWorld pmm).vmm.create 0x10D000).pmm.Available 3 := by
    rw [Pmm.Available, hcreated.pmm, freeStack_alloc,
      show (bootWorld pmm).vmm.pmm.freeStack = bootFrames from hstack]
    decide
  have hvalid : (SpaceOp.map 0x8000000000#64 0x300000#64 0x7#64).Valid := by
    unfold SpaceOp.Valid
    decide
  have hrun : Run (spaceStep 0x10D000) ((bootWorld pmm).vmm.create 0x10D000, fun _ => none)
      [.map 0x8000000000#64 0x300000#64 0x7#64] _ := Run.single ⟨hvalid, rfl⟩
  refine ⟨pmm, _, _, _, h, hnew, hrun, ?_, spaceRun_answers hwf hnew (by decide) hrun (by decide)⟩
  rw [SpaceOp.apply, if_pos (hav.mono (Vmm.mapNeeds_le _ _ _)),
    show pageIndex 0x8000000123#64 = pageIndex 0x8000000000#64 by decide, Function.update_self]
  decide

end ZohoOs
