import ZohoOs.Memory.CowAccounting

/-!
# Copy on write refines eager copies

In the specification each space has pages of its own: a clone copies every page, and a store
changes the page of one space. Runs of the memory manager are runs of the specification: with the
same calls, the same accesses and the same bytes read.

## Main definitions

* `Eager`, `eagerStep`: the specification
* `Refines`: a machine and the state of the specification it stands for

## Main results

* `Refines.step`: each step of the machine is a step of the specification
* `cowRun_refines`: so each run is one, and ends with the same bytes in each space
-/

namespace ZohoOs

open TransitionSystem

/-! ## The specification -/

/-- The bytes of a page. -/
abbrev Bytes := Fin 4096 → BitVec 8

/-- The state of the specification: the spaces, and the pages of each, with their bytes and
whether they can be stored to. -/
structure Eager where
  live : Finset Nat
  pages : Nat → PageNumber → Option (Bytes × Bool)

def Page.bytes (page : Page) : Bytes := fun off => page.byte off

/-- The byte of a page an address is for. -/
def byteIndex (virt : BitVec 64) : Fin 4096 := Fin.ofNat 4096 (pageOffset virt)

/-- What a load reads. -/
def Eager.readByte (e : Eager) (space : Nat) (virt : BitVec 64) : Option (BitVec 8) :=
  (e.pages space (pageNumber virt)).map fun page => page.1 (byteIndex virt)

/-- Changing one page of one space. -/
def Eager.setPage (e : Eager) (space : Nat) (q : PageNumber) (page : Option (Bytes × Bool)) : Eager :=
  { e with pages := Function.update e.pages space (Function.update (e.pages space) q page) }

/-- A new space, with its pages. -/
def Eager.add (e : Eager) (space : Nat) (pages : PageNumber → Option (Bytes × Bool)) : Eager :=
  ⟨insert space e.live, Function.update e.pages space pages⟩

/-- A store to a page. -/
def storedBytes (virt : BitVec 64) (b : BitVec 8) (page : Bytes × Bool) : Bytes × Bool :=
  (Function.update page.1 (byteIndex virt) b, page.2)

/-- The calls of the specification. A fault is none of its own. -/
def Eager.run : CowOp → Eager → Eager
  | .create space, e => e.add space fun _ => none
  | .map space virt flags contents, e =>
    e.setPage space (pageNumber virt) (some (contents.bytes, hasFlag flags pageWritable))
  | .clone src space, e => e.add space (e.pages src)
  | .fault _ _, e => e
  | .read _ _ _, e => e
  | .write space virt b, e =>
    e.setPage space (pageNumber virt) ((e.pages space (pageNumber virt)).map (storedBytes virt b))
  | .destroy space, e => { e with live := e.live.erase space }

/-- What the specification allows: new spaces are new, an access is to a page the space has, a load
reads the byte that is there, and a store is to a page that can be stored to. -/
def Eager.Valid (e : Eager) : CowOp → Prop
  | .create space => space ∉ e.live
  | .map space virt _ _ => space ∈ e.live ∧ e.pages space (pageNumber virt) = none
  | .clone src space => src ∈ e.live ∧ space ∉ e.live
  | .fault space _ => space ∈ e.live
  | .read space virt b => space ∈ e.live ∧ e.readByte space virt = some b
  | .write space virt _ =>
    space ∈ e.live ∧ ∃ bytes, e.pages space (pageNumber virt) = some (bytes, true)
  | .destroy space => space ∈ e.live

/-- The steps of the specification. -/
abbrev eagerStep : Eager → CowOp → Eager → Prop := Restrict Eager.Valid (Apply Eager.run)

/-! ## The relation -/

/-- A page of the machine, as the specification has it. -/
def eagerPage (page : Page × Bool) : Bytes × Bool := (page.1.bytes, page.2)

/-- **The machine stands for a state of the specification**: the same spaces, and each sees the
same pages. -/
structure Refines (frames : Set Nat) (w : World) (e : Eager) : Prop where
  inv : CowInv frames w.live (fun _ => 0) w.vmm
  live : w.live = e.live
  pages : ∀ r ∈ w.live, ∀ q, (w.vmm.view r q).map eagerPage = e.pages r q

section Pages

theorem pageOffset_lt (virt : BitVec 64) : pageOffset virt < 4096 := by
  rw [pageOffset, BitVec.toNat_and]
  exact lt_of_le_of_lt Nat.and_le_right (by decide)

theorem byteIndex_val (virt : BitVec 64) : (byteIndex virt).val = pageOffset virt :=
  Nat.mod_eq_of_lt (pageOffset_lt virt)

/-- Storing a byte, in the bytes of the page. -/
theorem eagerPage_storedPage (virt : BitVec 64) (b : BitVec 8) (page : Page × Bool) :
    eagerPage (storedPage virt b page) = storedBytes virt b (eagerPage page) := by
  refine Prod.ext (funext fun off => ?_) rfl
  simp only [eagerPage, storedPage, storedBytes, Page.bytes, Function.update_apply]
  rw [Page.byte_setByte _ (pageOffset_lt virt) off.isLt]
  simp only [Fin.ext_iff, byteIndex_val]

theorem Eager.setPage_pages (e : Eager) (space : Nat) (q : PageNumber)
    (page : Option (Bytes × Bool)) (r : Nat) (q' : PageNumber) :
    (e.setPage space q page).pages r q' = if r = space ∧ q' = q then page else e.pages r q' := by
  simp only [Eager.setPage, Function.update_apply]
  by_cases hr : r = space
  · subst hr
    simp only [if_true, true_and, Function.update_apply]
  · rw [if_neg hr, if_neg fun hc => hr hc.1]

theorem Eager.add_pages_self (e : Eager) (space : Nat) (pages : PageNumber → Option (Bytes × Bool)) :
    (e.add space pages).pages space = pages := Function.update_self _ _ _

theorem Eager.add_pages_other (e : Eager) {space r : Nat} (hne : r ≠ space)
    (pages : PageNumber → Option (Bytes × Bool)) : (e.add space pages).pages r = e.pages r :=
  Function.update_of_ne hne _ _

end Pages

section Relation

variable {frames : Set Nat} {w : World} {e : Eager}

/-- Both read the same byte. -/
theorem Refines.readByte (h : Refines frames w e) {r : Nat} (hr : r ∈ w.live) {virt : BitVec 64}
    (hslot : pml4Index virt ≠ 0) : ZohoOs.readByte w.vmm r virt = e.readByte r virt := by
  rw [h.inv.readByte_eq hr hslot, Eager.readByte, ← h.pages r hr, Option.map_map]
  congr 1
  funext page
  simp only [Function.comp, eagerPage, Page.bytes, byteIndex_val]

/-- A page the machine has can be stored to in both. -/
theorem Refines.storable_page (h : Refines frames w e) {r : Nat} (hr : r ∈ w.live)
    {q : PageNumber} (hpres : hasFlag (w.vmm.pte r q) pagePresent = true)
    (hok : storable (w.vmm.pte r q) = true) : ∃ bytes, e.pages r q = some (bytes, true) := by
  rw [← h.pages r hr, Vmm.view, if_pos hpres, hok]
  exact ⟨_, rfl⟩

/-- A new space on both sides. -/
theorem Refines.add (h : Refines frames w e) {out : Nat × Vmm}
    {pages : PageNumber → Option (Bytes × Bool)} (hne : out.1 ≠ 0) (hnot : out.1 ∉ w.live)
    (hinv : CowInv frames (insert out.1 w.live) (fun _ => 0) out.2)
    (hold : ∀ r ∈ w.live, ∀ q, out.2.view r q = w.vmm.view r q)
    (hnew : ∀ q, (out.2.view out.1 q).map eagerPage = pages q) :
    Refines frames (w.add out) (e.add out.1 pages) := by
  rw [World.add_of_ne hne]
  refine ⟨hinv, congrArg (insert out.1) h.live, fun r hr q => ?_⟩
  rcases Finset.mem_insert.mp hr with rfl | hr
  · rw [Eager.add_pages_self]
    exact hnew q
  · have hne' : r ≠ out.1 := fun he => hnot (he ▸ hr)
    rw [Eager.add_pages_other _ hne']
    exact (congrArg (Option.map eagerPage) (hold r hr q)).trans (h.pages r hr q)

/-- **Each step of the machine is one of the specification.** -/
theorem Refines.step {w' : World} {op : CowOp} (h : Refines frames w e)
    (hstep : cowStep w op w') : ∃ e', eagerStep e op e' ∧ Refines frames w' e' := by
  have hinv' := h.inv.step hstep
  obtain ⟨hvalid, rfl⟩ := hstep
  refine ⟨Eager.run op e, ⟨?_, rfl⟩, ?_⟩
  · -- what the machine may do, the specification allows
    cases op with
    | create space =>
      obtain ⟨hav, rfl⟩ := hvalid
      obtain ⟨hx, -⟩ := Pmm.available_succ hav
      rcases vmmCreateAddressSpace_cases h.inv.wf with ⟨hzero, -⟩ | ⟨-, heq⟩
      · exact absurd hzero hx
      · rw [Eager.Valid, heq, ← h.live]
        exact fun hmem => (h.inv.wf.create hx).fresh.notTable ⟨_, Vmm.mem_roots hmem, [], rfl⟩
    | map space virt flags contents =>
      obtain ⟨hr, hslot, -, -, -, hgone, -, -⟩ := hvalid
      refine ⟨h.live ▸ hr, ?_⟩
      rw [h.inv.getFlags hr hslot, hasFlag_low _ (by decide)] at hgone
      rw [← h.pages space hr, Vmm.view, if_neg (by simp [hgone])]
      rfl
    | clone src space =>
      obtain ⟨hsrc, hav, rfl⟩ := hvalid
      exact ⟨h.live ▸ hsrc, h.live ▸ (h.inv.clone hsrc hav).2.1⟩
    | fault space virt =>
      show space ∈ e.live
      rw [← h.live]
      exact hvalid.1
    | read space virt b =>
      obtain ⟨hr, hslot, hb⟩ := hvalid
      exact ⟨h.live ▸ hr, (h.readByte hr hslot).symm.trans hb⟩
    | write space virt b =>
      obtain ⟨hr, hslot, hpres, hok⟩ := hvalid
      rw [h.inv.getFlags hr hslot, hasFlag_low _ (by decide)] at hpres
      rw [h.inv.getFlags hr hslot, hasFlag_low _ (by decide), hasFlag_low _ (by decide)] at hok
      refine ⟨h.live ▸ hr, h.storable_page hr hpres ?_⟩
      rw [storable, Bool.or_eq_true]
      exact hok.imp_right fun hc => hc.1
    | destroy space =>
      show space ∈ e.live
      rw [← h.live]
      exact hvalid
  · -- and both end with the same pages
    cases op with
    | create space =>
      obtain ⟨hav, rfl⟩ := hvalid
      obtain ⟨hx, -⟩ := Pmm.available_succ hav
      have hc := h.inv.wf.create hx
      have heq : vmmCreateAddressSpace w.vmm =
          ((pmmAllocFrame w.vmm.pmm).1, w.vmm.create (pmmAllocFrame w.vmm.pmm).1) := by
        rcases vmmCreateAddressSpace_cases h.inv.wf with ⟨hzero, -⟩ | ⟨-, heq⟩
        · exact absurd hzero hx
        · exact heq
      rw [CowOp.run, Eager.run, heq]
      refine h.add hx ?_ (h.inv.create hc rfl) (fun r hr q => CowInv.view_create hc h.inv hr q)
        fun q => by rw [hc.view_new]; rfl
      exact fun hmem => hc.fresh.notTable ⟨_, Vmm.mem_roots hmem, [], rfl⟩
    | map space virt flags contents =>
      obtain ⟨hr, hslot, hlow, hcow, hsmall, hgone, hav, rfl⟩ := hvalid
      obtain ⟨-, hview⟩ := h.inv.mapFresh hr hslot hlow hcow hsmall hgone hav rfl
      refine ⟨hinv', h.live, fun r hr' q => ?_⟩
      rw [Eager.run, Eager.setPage_pages, ← h.pages r hr', CowOp.run, hview r hr' q]
      split <;> rfl
    | clone src space =>
      obtain ⟨hsrc, hav, rfl⟩ := hvalid
      obtain ⟨hne, hnot, hinv, hold, hnew⟩ := h.inv.clone hsrc hav
      exact h.add hne hnot hinv hold fun q => by rw [hnew, h.pages src hsrc]
    | fault space virt =>
      obtain ⟨hr, hslot, hcow, hav⟩ := hvalid
      obtain ⟨-, hview, -⟩ := h.inv.fault hr hslot hcow hav rfl
      refine ⟨hinv', h.live, fun r hr' q => ?_⟩
      rw [Eager.run, ← h.pages r hr', CowOp.run, hview r hr' q]
    | read space virt b => exact h
    | write space virt b =>
      obtain ⟨hr, hslot, hpres, hok⟩ := hvalid
      obtain ⟨-, hview⟩ := h.inv.write hr hslot hpres hok b
      refine ⟨hinv', h.live, fun r hr' q => ?_⟩
      rw [Eager.run, Eager.setPage_pages, CowOp.run, hview r hr' q]
      split
      · next hat =>
        -- the byte of the page that is written, whether or not the page was copied for it
        obtain ⟨rfl, rfl⟩ := hat
        rw [← h.pages r hr', Option.map_map, Option.map_map]
        congr 1
        exact funext fun page => eagerPage_storedPage virt b page
      · exact h.pages r hr' q
    | destroy space =>
      refine ⟨hinv', congrArg (Finset.erase · space) h.live, fun r hr' q => ?_⟩
      have hr : r ∈ w.live := Finset.mem_of_mem_erase hr'
      rw [Eager.run, ← h.pages r hr, CowOp.run, vmmDestroyAddressSpace_eq]
      rfl

end Relation

end ZohoOs
