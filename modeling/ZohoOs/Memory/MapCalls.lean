import ZohoOs.Lib.TransitionSystem
import ZohoOs.Memory.Vmm

/-!
# Calls of `vmm_map` side by side

`vmm_map` and `ensure_next_table` in their single steps, so that the calls of several CPUs take turns:
each read of an entry without the lock, each call of the frame allocator, the zeroing of a frame, and each
section under `vmm_lock` is one step.

## Main definitions

* `MapCall`: where a call is
* `MapCall.run`: its next step
* `MapSystem`, `MapOp`: the calls of many CPUs, on one address space

## Main results

* `mapCall_alone`: a call whose steps are taken in a row is `vmmMap`
-/

namespace ZohoOs

open TransitionSystem

/-! ## One call -/

/-- The tables above the page tables. -/
inductive TableLevel
  | pml4
  | pdpt
  | pd

/-- The macro that takes the index of a level from an address. -/
def TableLevel.index : TableLevel → BitVec 64 → Fin 512
  | .pml4 => pml4Index
  | .pdpt => pdptIndex
  | .pd => pdIndex

structure MapArgs where
  virt : BitVec 64
  phys : BitVec 64
  flags : BitVec 64

/-- A call of `vmm_map` in `ensure_next_table`, at an entry of `table`. -/
structure MapWalk extends MapArgs where
  level : TableLevel
  table : Nat

def MapWalk.index (w : MapWalk) : Fin 512 := w.level.index w.virt

/-- Where a call of `vmm_map` is. -/
inductive MapCall
  /-- Not begun, or returned. -/
  | out
  /-- The first `get_existing_table` tests the entry, without the lock. -/
  | test (w : MapWalk)
  /-- The entry was present, and is read again. -/
  | read (w : MapWalk)
  | alloc (w : MapWalk)
  | zero (w : MapWalk) (newTable : Nat)
  /-- Under the lock: the second `get_existing_table`, and the link. -/
  | link (w : MapWalk) (newTable : Nat)
  /-- The entry was linked by then: the frame is given back. -/
  | release (w : MapWalk) (newTable next : Nat)
  | storeHuge (a : MapArgs) (pd : Nat)
  | store (a : MapArgs) (pt : Nat)

/-- `vmm_map` goes on with what `ensure_next_table` returns. -/
def MapWalk.goOn (w : MapWalk) (next : Nat) : MapCall :=
  if next = 0 then .out
  else match w.level with
    | .pml4 => .test ⟨w.toMapArgs, .pdpt, next⟩
    | .pdpt =>
      if hasFlag w.flags pageHuge then .storeHuge w.toMapArgs next
      else .test ⟨w.toMapArgs, .pd, next⟩
    | .pd => .store w.toMapArgs next

/-- The next step of a call. -/
def MapCall.run : MapCall → Vmm → MapCall × Vmm
  | .out, s => (.out, s)
  | .test w, s =>
    (if hasFlag (s.mem w.table w.index) pagePresent then .read w else .alloc w, s.touch w.table)
  | .read w, s =>
    let next := pageOf (s.mem w.table w.index)
    (if next = 0 then .alloc w else w.goOn next, s)
  | .alloc w, s =>
    let (newTable, pmm) := pmmAllocFrame s.pmm
    (if newTable = 0 then w.goOn 0 else .zero w newTable, { s with pmm })
  | .zero w newTable, s =>
    (.link w newTable, { s with
      mem := Function.update s.mem newTable fun _ => 0#64
      touched := newTable :: s.touched })
  | .link w newTable, s =>
    let next := getExistingTable s w.table w.index
    if next = 0 then
      (w.goOn newTable, s.write w.table w.index
        (BitVec.ofNat 64 newTable ||| pagePresent ||| pageWritable ||| pageUser))
    else (.release w newTable next, s)
  | .release w newTable next, s => (w.goOn next, { s with pmm := pmmFreeFrame s.pmm newTable })
  | .storeHuge a pd, s =>
    (.out, s.write pd (pdIndex a.virt) (a.phys &&& ~~~0x1FFFFF#64 ||| a.flags ||| pagePresent))
  | .store a pt, s =>
    (.out, s.write pt (ptIndex a.virt) (a.phys &&& ~~~0xFFF#64 ||| a.flags ||| pagePresent))

/-! ## A call alone -/

section Alone

/-- From one place of a call, with none of the others taking a step, to a later one. -/
def Reaches (x y : MapCall × Vmm) : Prop := ∃ n, (fun z : MapCall × Vmm => z.1.run z.2)^[n] x = y

theorem Reaches.refl (x : MapCall × Vmm) : Reaches x x := ⟨0, rfl⟩

theorem Reaches.head {call call' : MapCall} {s s' : Vmm} {y : MapCall × Vmm}
    (hstep : call.run s = (call', s')) (h : Reaches (call', s') y) : Reaches (call, s) y := by
  obtain ⟨n, hn⟩ := h
  rw [← hstep] at hn
  exact ⟨n + 1, hn⟩

theorem Reaches.trans {x y z : MapCall × Vmm} (h : Reaches x y) (h' : Reaches y z) :
    Reaches x z := by
  obtain ⟨n, rfl⟩ := h
  obtain ⟨m, rfl⟩ := h'
  exact ⟨m + n, Function.iterate_add_apply _ m n x⟩

/-- The steps from the allocation on are the second half of `ensure_next_table`. -/
theorem alloc_alone (w : MapWalk) {s s' : Vmm} {x : Nat}
    (hnone : getExistingTable s w.table w.index = 0)
    (h : ensureNextTable s w.table w.index = (x, s')) :
    Reaches (.alloc w, s.touch w.table) (w.goOn x, s') := by
  have hlook : getExistingTable (s.touch w.table) w.table w.index = 0 := hnone
  simp only [ensureNextTable, hlook, ne_eq, not_true_eq_false, if_false] at h
  by_cases hx : (pmmAllocFrame s.pmm).1 = 0
  · -- no frame
    simp only [allocZeroedTable, Vmm.touch_pmm, hx, if_true] at h
    obtain ⟨rfl, rfl⟩ := Prod.mk.inj h
    refine Reaches.head ?_ (Reaches.refl _)
    exact congrArg (fun call => (call, _)) (if_pos hx)
  · simp only [allocZeroedTable, Vmm.touch_pmm, hx, if_false] at h
    have halloc : (MapCall.alloc w).run (s.touch w.table) = (.zero w (pmmAllocFrame s.pmm).1,
        { s.touch w.table with pmm := (pmmAllocFrame s.pmm).2 }) :=
      congrArg (fun call => (call, _)) (if_neg hx)
    refine Reaches.head halloc ?_
    refine Reaches.head rfl ?_
    split at h
    · rename_i hagain
      obtain ⟨rfl, rfl⟩ := Prod.mk.inj h
      refine Reaches.head ?_ (Reaches.refl _)
      exact congrArg id (if_pos hagain)
    · rename_i hagain
      obtain ⟨rfl, rfl⟩ := Prod.mk.inj h
      refine Reaches.head (if_neg hagain) ?_
      exact Reaches.head rfl (Reaches.refl _)

/-- **`ensure_next_table` in one go.** -/
theorem ensureNextTable_alone (w : MapWalk) {s s' : Vmm} {x : Nat}
    (h : ensureNextTable s w.table w.index = (x, s')) : Reaches (.test w, s) (w.goOn x, s') := by
  by_cases hpres : hasFlag (s.mem w.table w.index) pagePresent = true
  · have hpage : getExistingTable s w.table w.index = pageOf (s.mem w.table w.index) := by
      rw [getExistingTable, if_pos hpres]
    have htest : (MapCall.test w).run s = (.read w, s.touch w.table) := by
      rw [MapCall.run, if_pos hpres]
    refine Reaches.head htest ?_
    by_cases hne : pageOf (s.mem w.table w.index) = 0
    · refine Reaches.head ?_ (alloc_alone w (hpage.trans hne) h)
      exact congrArg (fun call => (call, s.touch w.table)) (if_pos hne)
    · have hlook : getExistingTable (s.touch w.table) w.table w.index ≠ 0 := by
        intro hzero
        exact hne (hpage.symm.trans hzero)
      rw [ensureNextTable, if_pos hlook] at h
      obtain ⟨rfl, rfl⟩ := Prod.mk.inj h
      refine Reaches.head ?_ (Reaches.refl _)
      rw [MapCall.run, Vmm.touch_mem, if_neg hne, ← hpage]
      rfl
  · have htest : (MapCall.test w).run s = (.alloc w, s.touch w.table) := by
      rw [MapCall.run, if_neg hpres]
    refine Reaches.head htest (alloc_alone w ?_ h)
    rw [getExistingTable, if_neg hpres]

/-- **A call whose steps are taken in a row is `vmmMap`.** -/
theorem mapCall_alone (s : Vmm) (space : Nat) (a : MapArgs) :
    Reaches (.test ⟨a, .pml4, space⟩, s) (.out, vmmMap s space a.virt a.phys a.flags) := by
  obtain ⟨pdpt, s₁, h₁⟩ : ∃ x t, ensureNextTable s space (pml4Index a.virt) = (x, t) := ⟨_, _, rfl⟩
  refine (ensureNextTable_alone ⟨a, .pml4, space⟩ h₁).trans ?_
  rw [vmmMap, h₁]
  dsimp only [MapWalk.goOn]
  split
  · exact Reaches.refl _
  obtain ⟨pd, s₂, h₂⟩ : ∃ x t, ensureNextTable s₁ pdpt (pdptIndex a.virt) = (x, t) := ⟨_, _, rfl⟩
  refine (ensureNextTable_alone ⟨a, .pdpt, pdpt⟩ h₂).trans ?_
  rw [h₂]
  dsimp only [MapWalk.goOn]
  split
  · exact Reaches.refl _
  split
  · exact Reaches.head rfl (Reaches.refl _)
  obtain ⟨pt, s₃, h₃⟩ : ∃ x t, ensureNextTable s₂ pd (pdIndex a.virt) = (x, t) := ⟨_, _, rfl⟩
  refine (ensureNextTable_alone ⟨a, .pd, pd⟩ h₃).trans ?_
  rw [h₃]
  dsimp only [MapWalk.goOn]
  split
  · exact Reaches.refl _
  · exact Reaches.head rfl (Reaches.refl _)

end Alone

/-! ## Many calls -/

/-- The page tables, and the calls that share them. -/
structure MapSystem (κ : Type) where
  vmm : Vmm
  calls : κ → MapCall
  /-- The calls whose leaf was stored, in the order of the stores. It is no part of the kernel's
  state. -/
  stores : List MapArgs

inductive MapOp (κ : Type)
  /-- The CPU calls `vmm_map`. -/
  | call (k : κ) (a : MapArgs)
  /-- It takes the next step of its call. -/
  | step (k : κ)

/-- The store a call makes in its next step. -/
def MapCall.stored : MapCall → List MapArgs
  | .store a _ => [a]
  | _ => []

/-- The next step is a call of `pmm_alloc_frame`. -/
def MapCall.allocates : MapCall → Bool
  | .alloc _ => true
  | _ => false

/-- The frame a call holds, that is neither free nor linked yet. -/
def MapCall.frame : MapCall → Option Nat
  | .zero _ newTable | .link _ newTable | .release _ newTable _ => some newTable
  | _ => none

/-- What a call maps that has not stored its leaf. -/
def MapCall.args : MapCall → Option MapArgs
  | .out => none
  | .test w | .read w | .alloc w | .zero w _ | .link w _ | .release w _ _ => some w.toMapArgs
  | .storeHuge a _ | .store a _ => some a

instance MapCall.decidableOut : (call : MapCall) → Decidable (call = .out)
  | .out => isTrue rfl
  | .test _ | .read _ | .alloc _ | .zero _ _ | .link _ _ | .release _ _ _ | .storeHuge _ _
  | .store _ _ => isFalse nofun

section System

variable {κ : Type} [DecidableEq κ]

/-- The steps of the CPUs, on the address space `space`. -/
def MapOp.run (space : Nat) : MapOp κ → MapSystem κ → MapSystem κ
  | .call k a, s => { s with calls := Function.update s.calls k (.test ⟨a, .pml4, space⟩) }
  | .step k, s =>
    let (next, vmm) := (s.calls k).run s.vmm
    ⟨vmm, Function.update s.calls k next, s.stores ++ (s.calls k).stored⟩

/-- A CPU is in one call at a time, and maps pages of 4 KiB. -/
def MapOp.Valid (s : MapSystem κ) : MapOp κ → Prop
  | .call k a => s.calls k = .out ∧ hasFlag a.flags pageHuge = false
  | .step _ => True

/-- There is a frame for each call of `pmm_alloc_frame`. -/
def MapOp.Granted (s : MapSystem κ) : MapOp κ → Prop
  | .call _ _ => True
  | .step k => (s.calls k).allocates = true → (pmmAllocFrame s.vmm.pmm).1 ≠ 0

instance MapOp.decidableValid (s : MapSystem κ) (op : MapOp κ) : Decidable (op.Valid s) := by
  cases op <;> unfold MapOp.Valid <;> infer_instance

instance MapOp.decidableGranted (s : MapSystem κ) (op : MapOp κ) : Decidable (op.Granted s) := by
  cases op <;> unfold MapOp.Granted <;> infer_instance

abbrev mapStep (space : Nat) : MapSystem κ → MapOp κ → MapSystem κ → Prop :=
  Restrict MapOp.Valid (Apply (MapOp.run space))

end System

end ZohoOs
