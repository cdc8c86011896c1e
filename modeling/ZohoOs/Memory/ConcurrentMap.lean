import ZohoOs.Memory.MapSteps

/-!
# Mapping from many CPUs

The calls of `vmm_map` on one space, in any interleaving of their steps. Two calls may both miss the same
table and both take a frame for it; the second look under the lock lets one of them link its frame, and the
other gives its own back.

## Main definitions

* `MapCall.Kept`: what a call knows, whatever steps the others take
* `MapSystem.Kept`: what holds between any two steps
* `NothingLost`: what the calls leave when all have returned

## Main results

* `MapWalk.At.slot`: what a walk finds at its entry
* `MapSystem.Kept.step`: each step of each CPU keeps the invariant
* `mapRun_nothingLost`: nothing is lost, in any interleaving
-/

namespace ZohoOs

open Forest LastWrite TransitionSystem

/-! ## One call -/

/-- The path to the table of a level, last index first. -/
def TableLevel.path : TableLevel → BitVec 64 → List (Fin 512)
  | .pml4, _ => []
  | .pdpt, virt => [pml4Index virt]
  | .pd, virt => [pdptIndex virt, pml4Index virt]

/-- The path to the table a walk wants next. -/
def MapWalk.nextPath (w : MapWalk) : List (Fin 512) := w.index :: w.level.path w.virt

/-- The root below which a call works. -/
def MapArgs.owner (a : MapArgs) (s₀ : Vmm) (space : Nat) : Nat := s₀.owner space (pml4Index a.virt)

/-- A walk has reached its table: at first the root that was passed to `vmm_map`. -/
def MapWalk.Reached (space : Nat) (s₀ s : Vmm) (w : MapWalk) : Prop :=
  match w.level with
  | .pml4 => w.table = space
  | .pdpt | .pd => s.table (w.owner s₀ space) (w.level.path w.virt) = some w.table

/-- Where a walk is: it maps a page that was under no 2 MiB leaf. -/
structure MapWalk.At (space : Nat) (s₀ s : Vmm) (w : MapWalk) : Prop where
  flags : hasFlag w.flags pageHuge = false
  small : ¬ s₀.Large space w.virt
  reached : w.Reached space s₀ s

/-- **What a call knows**, whatever steps the others take. -/
def MapCall.Kept (space : Nat) (s₀ s : Vmm) : MapCall → Prop
  | .out => True
  | .test w | .alloc w | .zero w _ => w.At space s₀ s
  | .read w => w.At space s₀ s ∧ ∃ x, s.table (w.owner s₀ space) w.nextPath = some x
  | .link w newTable => w.At space s₀ s ∧ ∀ j, s.mem newTable j = 0#64
  | .release w _ next => w.At space s₀ s ∧ s.table (w.owner s₀ space) w.nextPath = some next
  | .storeHuge _ _ => False
  | .store a pt => s.table (a.owner s₀ space) (pageNumber a.virt).path = some pt

/-- What a walk finds at its entry: the table it wants, or nothing. -/
inductive Slot (space : Nat) (s₀ s : Vmm) (w : MapWalk) : Prop
  | linked {x : Nat} : s.table (w.owner s₀ space) w.nextPath = some x → x ≠ 0 →
      hasFlag (s.mem w.table w.index) pagePresent = true →
      pageOf (s.mem w.table w.index) = x → Slot space s₀ s w
  | missing : s.table (w.owner s₀ space) (w.level.path w.virt) = some w.table →
      s.Own (w.owner s₀ space) (w.level.path w.virt) w.index →
      s.edge (w.owner s₀ space) (w.level.path w.virt) w.table w.index = none →
      hasFlag (s.mem w.table w.index) pagePresent = false → Slot space s₀ s w

section Calls

variable {live : Finset Nat} {space : Nat} {s₀ s s' : Vmm} {stores : List MapArgs} {w : MapWalk}

theorem TableLevel.path_length (level : TableLevel) (virt : BitVec 64) :
    (level.path virt).length < 3 := by
  cases level <;> simp [TableLevel.path]

/-- The directory entry over a page that was under no 2 MiB leaf is none. -/
theorem TablesKept.not_huge (h : TablesKept live space s₀ stores s)
    (hsmall : ¬ s₀.Large space w.virt)
    (ht : s.table (w.owner s₀ space) (w.level.path w.virt) = some w.table)
    (hpres : hasFlag (s.mem w.table w.index) pagePresent = true) :
    ¬ ((w.level.path w.virt).length = 2 ∧ hasFlag (s.mem w.table w.index) pageHuge = true) := by
  rintro ⟨hlen, hhuge⟩
  obtain ⟨a, level, table⟩ := w
  cases level with
  | pml4 => cases hlen
  | pdpt => cases hlen
  | pd =>
    have hpde : s.pde (s₀.owner space (pml4Index a.virt)) (pageNumber a.virt) =
        s.mem table (pdIndex a.virt) := Vmm.entry_of_table ht _
    rcases h.pde _ (h.owner a.virt) (pageNumber a.virt) with heq | ⟨-, hnot⟩
    · rw [hpde] at heq
      have hpres₀ := heq ▸ hpres
      have hhuge₀ := heq ▸ hhuge
      exact hsmall ⟨hpres₀, hhuge₀⟩
    · rw [hpde] at hnot
      exact absurd hhuge (by rw [MapWalk.index, TableLevel.index, hnot]; exact Bool.false_ne_true)

/-- An entry of a table below the root. -/
theorem Slot.of_table (h : TablesKept live space s₀ stores s) (hsmall : ¬ s₀.Large space w.virt)
    (ht : s.table (w.owner s₀ space) (w.level.path w.virt) = some w.table)
    (hown : s.Own (w.owner s₀ space) (w.level.path w.virt) w.index) : Slot space s₀ s w := by
  have hr : w.owner s₀ space ∈ s.roots live := h.roots ▸ h.owner w.virt
  have hlen := TableLevel.path_length w.level w.virt
  by_cases hpres : hasFlag (s.mem w.table w.index) pagePresent = true
  · have hedge : s.edge (w.owner s₀ space) (w.level.path w.virt) w.table w.index =
        some (pageOf (s.mem w.table w.index)) := by
      rw [Vmm.edge_of_own hown, if_pos ⟨hlen, hpres, h.not_huge hsmall ht hpres⟩]
    obtain ⟨-, hne⟩ := h.wf.getExistingTable_of_edge hr ht hedge
    exact .linked ((Vmm.table_cons ht _).trans hedge) hne hpres rfl
  · have hnone : hasFlag (s.mem w.table w.index) pagePresent = false := by simpa using hpres
    exact .missing ht hown (Vmm.edge_none_of_not_present hnone) hnone

/-- **What a walk finds.** Slot 0 of a root is the kernel's, and linked. -/
theorem MapWalk.At.slot (hat : w.At space s₀ s) (h : TablesKept live space s₀ stores s) :
    Slot space s₀ s w := by
  obtain ⟨a, level, table⟩ := w
  have hreached := hat.reached
  have hsmall := hat.small
  -- below the root the entry is the table's own; in the root the first slot is the kernel's
  cases level with
  | pdpt => exact Slot.of_table h hsmall hreached (Vmm.own_of_ne_nil (List.cons_ne_nil _ _))
  | pd => exact Slot.of_table h hsmall hreached (Vmm.own_of_ne_nil (List.cons_ne_nil _ _))
  | pml4 =>
    obtain rfl : table = space := hreached
    by_cases hi : pml4Index a.virt = 0
    · have hkernel : a.owner s₀ table = s.currentPml4 := by
        rw [MapArgs.owner, Vmm.owner, if_pos hi, h.kernel]
      have hmem : s.mem table 0 = s.mem s.currentPml4 0 := by
        have howner := h.wf.mem_owner (h.roots ▸ h.root) 0
        rw [Vmm.owner, if_pos rfl] at howner
        exact howner.symm
      have hpres := h.wf.kernel_present
      have hedge : s.edge s.currentPml4 [] s.currentPml4 0 =
          some (pageOf (s.mem s.currentPml4 0)) := by
        rw [Vmm.edge_of_own fun hc => hc.1 rfl, if_pos ⟨by simp, hpres, by simp⟩]
      -- the kernel's table is there, so it is found and nothing is linked
      obtain ⟨-, hne⟩ := h.wf.getExistingTable_of_edge (s.kernel_mem_roots live) rfl hedge
      refine .linked (x := pageOf (s.mem s.currentPml4 0)) ?_ hne ?_ ?_
      · show s.table (a.owner s₀ table) [pml4Index a.virt] = _
        rw [hkernel, hi]
        exact hedge
      · show hasFlag (s.mem table (pml4Index a.virt)) pagePresent = true
        rw [hi, hmem]
        exact hpres
      · show pageOf (s.mem table (pml4Index a.virt)) = _
        rw [hi, hmem]
    · have hown : a.owner s₀ table = table := by rw [MapArgs.owner, Vmm.owner, if_neg hi]
      refine Slot.of_table h hsmall ?_ (Vmm.own_of_ne_zero hi)
      show s.table (a.owner s₀ table) [] = some table
      rw [hown]
      rfl

theorem MapWalk.At.mono (hat : w.At space s₀ s) (hspace : space ∈ s₀.roots live)
    (htable : ∀ r ∈ s₀.roots live, ∀ p t, s.table r p = some t → s'.table r p = some t) :
    w.At space s₀ s' := by
  refine ⟨hat.flags, hat.small, ?_⟩
  have hreached := hat.reached
  have howner : w.owner s₀ space ∈ s₀.roots live := Vmm.owner_mem_roots hspace
  obtain ⟨a, level, table⟩ := w
  cases level with
  | pml4 => exact hreached
  | pdpt => exact htable _ howner _ _ hreached
  | pd => exact htable _ howner _ _ hreached

/-- What a call knows stays true while the tables grow and its frame is left alone. -/
theorem MapCall.Kept.mono {call : MapCall} (h : call.Kept space s₀ s)
    (hspace : space ∈ s₀.roots live)
    (htable : ∀ r ∈ s₀.roots live, ∀ p t, s.table r p = some t → s'.table r p = some t)
    (hmem : ∀ x, call.frame = some x → s'.mem x = s.mem x) : call.Kept space s₀ s' := by
  have howner : ∀ a : MapArgs, a.owner s₀ space ∈ s₀.roots live := fun a =>
    Vmm.owner_mem_roots hspace
  cases call with
  | out => trivial
  | test w => exact MapWalk.At.mono h hspace htable
  | alloc w => exact MapWalk.At.mono h hspace htable
  | zero w newTable => exact MapWalk.At.mono h hspace htable
  | read w =>
    obtain ⟨hat, x, hx⟩ := h
    exact ⟨hat.mono hspace htable, x, htable _ (howner _) _ _ hx⟩
  | link w newTable =>
    obtain ⟨hat, hzero⟩ := h
    refine ⟨hat.mono hspace htable, fun j => ?_⟩
    rw [hmem newTable rfl]
    exact hzero j
  | release w newTable next =>
    obtain ⟨hat, hnext⟩ := h
    exact ⟨hat.mono hspace htable, htable _ (howner _) _ _ hnext⟩
  | storeHuge a pd => exact h
  | store a pt => exact htable _ (howner a) _ _ h

/-- **A call goes on** with the table it has reached. -/
theorem MapWalk.At.goOn (hat : w.At space s₀ s) {next : Nat}
    (hnext : s.table (w.owner s₀ space) w.nextPath = some next) (hne : next ≠ 0) :
    (w.goOn next).Kept space s₀ s ∧ (w.goOn next).args = some w.toMapArgs ∧
      (w.goOn next).frame = none := by
  have hflags := hat.flags
  have hsmall := hat.small
  obtain ⟨a, level, table⟩ := w
  rw [MapWalk.goOn, if_neg hne]
  cases level with
  | pml4 => exact ⟨⟨hflags, hsmall, hnext⟩, rfl, rfl⟩
  | pdpt =>
    dsimp only at hflags ⊢
    rw [hflags]
    exact ⟨⟨hflags, hsmall, hnext⟩, rfl, rfl⟩
  | pd => exact ⟨hnext, rfl, rfl⟩

end Calls

/-! ## Interleavings -/

namespace MapSystem

variable {κ : Type}

/-- No call has begun. -/
structure Start (live : Finset Nat) (space : Nat) (s : MapSystem κ) : Prop where
  wf : Wf s.vmm live
  root : space ∈ s.vmm.roots live
  calls : ∀ k, s.calls k = .out
  stores : s.stores = []

/-- What holds between any two steps. -/
structure Kept (live : Finset Nat) (space : Nat) (s₀ : Vmm) (ops : List (MapOp κ))
    (s : MapSystem κ) : Prop where
  tables : TablesKept live space s₀ s.stores s.vmm
  frames : FramesKept live s₀ s.vmm fun k => (s.calls k).frame
  calls : ∀ k, (s.calls k).Kept space s₀ s.vmm
  called : ∀ a, (∃ k, .call k a ∈ ops) ↔ a ∈ s.stores ∨ ∃ k, (s.calls k).args = some a

variable {live : Finset Nat} {space : Nat} {s₀ : Vmm} {ops : List (MapOp κ)} {s : MapSystem κ}

theorem Start.kept (h : s.Start live space) : s.Kept live space s.vmm [] where
  tables := by
    rw [h.stores]
    exact TablesKept.start h.wf h.root
  frames := FramesKept.start s.vmm fun k => by
    rw [h.calls]
    rfl
  calls k := by
    rw [h.calls]
    trivial
  called a := by
    refine iff_of_false ?_ ?_
    · rintro ⟨k, hk⟩
      exact List.not_mem_nil hk
    · rintro (ha | ⟨k, hk⟩)
      · rw [h.stores] at ha
        exact List.not_mem_nil ha
      · rw [h.calls] at hk
        cases hk

variable [DecidableEq κ]

/-- **One CPU takes a step**, and what the others know is left alone. -/
theorem Kept.next (h : s.Kept live space s₀ ops) (op : MapOp κ) {k : κ} {next : MapCall} {vmm : Vmm}
    (stored : List MapArgs) (htables : TablesKept live space s₀ (s.stores ++ stored) vmm)
    (hframes : FramesKept live s₀ vmm
      (Function.update (fun k => (s.calls k).frame) k next.frame))
    (hgrow : ∀ r ∈ s₀.roots live, ∀ p t, s.vmm.table r p = some t → vmm.table r p = some t)
    (hmem : ∀ k', k' ≠ k → ∀ x, (s.calls k').frame = some x → vmm.mem x = s.vmm.mem x)
    (hnext : next.Kept space s₀ vmm)
    (hargs : ∀ a, (∃ k', op = .call k' a) ∨ (s.calls k).args = some a ↔
      a ∈ stored ∨ next.args = some a) :
    (⟨vmm, Function.update s.calls k next, s.stores ++ stored⟩ : MapSystem κ).Kept live space s₀
      (ops ++ [op]) := by
  refine ⟨htables, ?_, fun k' => ?_, fun a => ?_⟩
  -- the frames in hand are those of before but for the call's own
  · have hframe : (fun j => (Function.update s.calls k next j).frame) =
        Function.update (fun k => (s.calls k).frame) k next.frame := by
      funext j
      rw [Function.update_apply, Function.update_apply]
      split <;> rfl
    show FramesKept live s₀ vmm fun j => (Function.update s.calls k next j).frame
    rw [hframe]
    exact hframes
  -- the other calls are where they were
  · show (Function.update s.calls k next k').Kept space s₀ vmm
    by_cases hk : k' = k
    · rw [hk, Function.update_self]
      exact hnext
    · rw [Function.update_of_ne hk]
      exact (h.calls k').mono h.tables.root hgrow (hmem k' hk)
  · -- What has been called is stored, or is the argument of a call under way, of which `k` is one.
    have hops : (∃ k', .call k' a ∈ ops ++ [op]) ↔ (∃ k', .call k' a ∈ ops) ∨ ∃ k', op = .call k' a := by
      rw [← exists_or]
      refine exists_congr fun k' => ?_
      rw [List.mem_append, List.mem_singleton, eq_comm (b := op)]
    have hnow : (∃ k', (Function.update s.calls k next k').args = some a) ↔
        next.args = some a ∨ ∃ k', k' ≠ k ∧ (s.calls k').args = some a :=
      Function.exists_update_iff s.calls fun _ call => call.args = some a
    have hbefore := exists_iff_or_ne (fun k' => (s.calls k').args = some a) k
    have hself := hargs a
    show _ ↔ a ∈ s.stores ++ stored ∨ ∃ k', (Function.update s.calls k next k').args = some a
    rw [hops, hnow, List.mem_append, h.called a, hbefore, or_assoc, or_right_comm,
      or_comm (a := (s.calls k).args = some a), hself, or_assoc, or_assoc]

/-- The step changes no path, and the CPU holds what it held. -/
theorem Kept.framesSame (h : s.Kept live space s₀ ops) {k : κ} {next : MapCall} {vmm : Vmm}
    {stores : List MapArgs} (htables : TablesKept live space s₀ stores vmm)
    (htable : ∀ r ∈ s₀.roots live, ∀ p, vmm.table r p = s.vmm.table r p)
    (hpmm : vmm.pmm = s.vmm.pmm) (hframe : next.frame = (s.calls k).frame) :
    FramesKept live s₀ vmm (Function.update (fun k => (s.calls k).frame) k next.frame) := by
  have hself := Function.update_eq_self k fun k => (s.calls k).frame
  rw [hframe, show Function.update (fun k => (s.calls k).frame) k (s.calls k).frame = _ from hself]
  exact h.frames.same hpmm (h.tables.isTable htables htable)

/-- A call begins. -/
theorem Kept.call (h : s.Kept live space s₀ ops) {k : κ} {a : MapArgs} (hout : s.calls k = .out)
    (hflags : hasFlag a.flags pageHuge = false) (hsmall : ¬ s₀.Large space a.virt) :
    (MapOp.run space (.call k a) s).Kept live space s₀ (ops ++ [.call k a]) := by
  have hnil : s.stores ++ [] = s.stores := List.append_nil _
  have hframe : (MapCall.test ⟨a, .pml4, space⟩).frame = (s.calls k).frame := by
    rw [hout]
    rfl
  have hnext := h.next (.call k a) [] (hnil.symm ▸ h.tables)
    (h.framesSame h.tables (fun _ _ _ => rfl) rfl hframe) (fun _ _ _ _ ht => ht)
    (fun _ _ _ _ => rfl) ⟨hflags, hsmall, rfl⟩ fun b => ?_
  · rw [hnil] at hnext
    exact hnext
  · rw [hout]
    constructor
    · rintro (⟨k', hk'⟩ | hargs)
      · cases hk'
        exact Or.inr rfl
      · cases hargs
    · rintro (hb | hb)
      · cases hb
      · cases hb
        exact Or.inl ⟨k, rfl⟩

section Steps

variable {k : κ} {call next : MapCall} {vmm : Vmm} {w : MapWalk}

/-- A call takes a step in which it stores nothing. -/
theorem Kept.goOn (h : s.Kept live space s₀ ops) (hcall : s.calls k = call)
    (hrun : call.run s.vmm = (next, vmm)) (hstored : call.stored = [])
    (htables : TablesKept live space s₀ s.stores vmm)
    (hframes : FramesKept live s₀ vmm
      (Function.update (fun k => (s.calls k).frame) k next.frame))
    (hgrow : ∀ r ∈ s₀.roots live, ∀ p t, s.vmm.table r p = some t → vmm.table r p = some t)
    (hmem : ∀ k', k' ≠ k → ∀ x, (s.calls k').frame = some x → vmm.mem x = s.vmm.mem x)
    (hnext : next.Kept space s₀ vmm) (hargs : next.args = call.args) :
    (MapOp.run space (.step k) s).Kept live space s₀ (ops ++ [.step k]) := by
  have hstep : MapOp.run space (.step k) s =
      ⟨vmm, Function.update s.calls k next, s.stores ++ []⟩ := by
    rw [MapOp.run, hcall, hrun, hstored]
  rw [hstep]
  refine h.next (.step k) [] ((List.append_nil s.stores).symm ▸ htables) hframes hgrow hmem hnext fun a => ?_
  rw [hcall, hargs]
  refine or_congr (iff_of_false ?_ List.not_mem_nil) Iff.rfl
  rintro ⟨k', hk'⟩
  cases hk'

/-- A call takes a step in which it changes nothing. -/
theorem Kept.look (h : s.Kept live space s₀ ops) (hcall : s.calls k = call)
    (hrun : call.run s.vmm = (next, vmm)) (hstored : call.stored = [])
    (hkr : vmm.currentPml4 = s.vmm.currentPml4) (hpmm : vmm.pmm = s.vmm.pmm)
    (hmem : vmm.mem = s.vmm.mem) (hframe : next.frame = call.frame)
    (hnext : next.Kept space s₀ s.vmm) (hargs : next.args = call.args) :
    (MapOp.run space (.step k) s).Kept live space s₀ (ops ++ [.step k]) := by
  obtain ⟨htables, htable⟩ := h.tables.frame vmm hkr (fun t _ => congrFun hmem t)
    (hpmm ▸ h.tables.wf.stack) (hpmm ▸ h.tables.wf.used)
  have hgrow : ∀ r ∈ s₀.roots live, ∀ p t, s.vmm.table r p = some t → vmm.table r p = some t :=
    fun r hr p t ht => (htable r hr p).trans ht
  apply h.goOn hcall hrun hstored htables
  · exact h.framesSame htables htable hpmm (hframe.trans (congrArg MapCall.frame hcall.symm))
  · exact hgrow
  · exact fun _ _ x _ => congrFun hmem x
  · exact hnext.mono h.tables.root hgrow fun x _ => congrFun hmem x
  · exact hargs

/-- The first look at the entry. -/
theorem Kept.test (h : s.Kept live space s₀ ops) (hcall : s.calls k = .test w) :
    (MapOp.run space (.step k) s).Kept live space s₀ (ops ++ [.step k]) := by
  have hat : w.At space s₀ s.vmm := by
    have hk := h.calls k
    rwa [hcall] at hk
  cases hat.slot h.tables with
  | linked hnext _ hpres _ =>
    have hrun : (MapCall.test w).run s.vmm = (.read w, s.vmm.touch w.table) := by
      rw [MapCall.run, if_pos hpres]
    exact h.look hcall hrun rfl rfl rfl rfl rfl ⟨hat, _, hnext⟩ rfl
  | missing _ _ _ habsent =>
    have hrun : (MapCall.test w).run s.vmm = (.alloc w, s.vmm.touch w.table) := by
      rw [MapCall.run, if_neg (Bool.eq_false_iff.mp habsent)]
    exact h.look hcall hrun rfl rfl rfl rfl rfl hat rfl

/-- An entry that was present still leads to a table. -/
theorem Kept.read (h : s.Kept live space s₀ ops) (hcall : s.calls k = .read w) :
    (MapOp.run space (.step k) s).Kept live space s₀ (ops ++ [.step k]) := by
  obtain ⟨hat, x, hx⟩ : w.At space s₀ s.vmm ∧ ∃ x, s.vmm.table (w.owner s₀ space) w.nextPath = some x := by
    have hk := h.calls k
    rwa [hcall] at hk
  cases hat.slot h.tables with
  | linked hnext hne _ hpage =>
    obtain ⟨hkept, hargs, hframe⟩ := hat.goOn hnext hne
    refine h.look hcall ?_ rfl rfl rfl rfl hframe hkept hargs
    simp only [MapCall.run, hpage, if_neg hne]
  | missing ht _ hedge _ =>
    rw [MapWalk.nextPath, Vmm.table_cons ht, hedge] at hx
    cases hx

/-- A frame is taken. -/
theorem Kept.alloc (h : s.Kept live space s₀ ops) (h₀ : Wf s₀ live) (hcall : s.calls k = .alloc w)
    (hne : (pmmAllocFrame s.vmm.pmm).1 ≠ 0) :
    (MapOp.run space (.step k) s).Kept live space s₀ (ops ++ [.step k]) := by
  have hat : w.At space s₀ s.vmm := by
    have hk := h.calls k
    rwa [hcall] at hk
  have hnone : (fun k => (s.calls k).frame) k = none := congrArg MapCall.frame hcall
  have hwf := h.tables.wf.alloc
  obtain ⟨htables, htable⟩ := h.tables.frame { s.vmm with pmm := (pmmAllocFrame s.vmm.pmm).2 }
    rfl (fun _ _ => rfl) hwf.stack hwf.used
  have hrun : (MapCall.alloc w).run s.vmm = (.zero w (pmmAllocFrame s.vmm.pmm).1,
      { s.vmm with pmm := (pmmAllocFrame s.vmm.pmm).2 }) :=
    congrArg (fun call => (call, _)) (if_neg hne)
  apply h.goOn hcall hrun rfl htables
  · exact h.frames.alloc h.tables.wf h₀.stack hne hnone
  · exact fun r hr p t ht => (htable r hr p).trans ht
  · exact fun _ _ _ _ => rfl
  · exact hat.mono h.tables.root fun r hr p t ht => (htable r hr p).trans ht
  · rfl

/-- Its own frame is zeroed. -/
theorem Kept.zero (h : s.Kept live space s₀ ops) {newTable : Nat}
    (hcall : s.calls k = .zero w newTable) :
    (MapOp.run space (.step k) s).Kept live space s₀ (ops ++ [.step k]) := by
  have hat : w.At space s₀ s.vmm := by
    have hk := h.calls k
    rwa [hcall] at hk
  have hheld : (s.calls k).frame = some newTable := congrArg MapCall.frame hcall
  -- the frame in hand is no table yet
  obtain ⟨-, -, -, hnot, -⟩ := h.frames.fresh k newTable hheld
  obtain ⟨vmm, hvmm⟩ : ∃ vmm : Vmm, vmm = { s.vmm with
      mem := Function.update s.vmm.mem newTable fun _ => 0#64
      touched := newTable :: s.vmm.touched } := ⟨_, rfl⟩
  have hmem : ∀ x, x ≠ newTable → vmm.mem x = s.vmm.mem x := fun x hx => by
    rw [hvmm]
    exact Function.update_of_ne hx _ _
  obtain ⟨htables, htable⟩ := h.tables.frame vmm (by rw [hvmm])
    (fun t ht => hmem t fun he => hnot (he ▸ ht)) (by rw [hvmm]; exact h.tables.wf.stack)
    (by rw [hvmm]; exact h.tables.wf.used)
  have hrun : (MapCall.zero w newTable).run s.vmm = (.link w newTable, vmm) := by
    rw [hvmm]
    rfl
  apply h.goOn hcall hrun rfl htables
  · exact h.framesSame htables htable (by rw [hvmm]) hheld.symm
  · exact fun r hr p t ht => (htable r hr p).trans ht
  -- no two calls hold one frame
  · intro k' hk' x hx
    apply hmem
    rintro rfl
    exact hk' (h.frames.once k' k x hx hheld)
  · refine ⟨hat.mono h.tables.root fun r hr p t ht => (htable r hr p).trans ht, fun j => ?_⟩
    rw [hvmm]
    exact congrFun (Function.update_self newTable _ s.vmm.mem) j
  · rfl

omit [DecidableEq κ] in
/-- The frame a call has zeroed can be linked where nothing is. -/
theorem Kept.linkable (h : s.Kept live space s₀ ops) (h₀ : Wf s₀ live) {newTable : Nat}
    (hcall : s.calls k = .link w newTable)
    (ht : s.vmm.table (w.owner s₀ space) (w.level.path w.virt) = some w.table)
    (hown : s.vmm.Own (w.owner s₀ space) (w.level.path w.virt) w.index)
    (hedge : s.vmm.edge (w.owner s₀ space) (w.level.path w.virt) w.table w.index = none) :
    Linkable s.vmm live (w.owner s₀ space) (w.level.path w.virt) w.table w.index newTable := by
  have hk := h.calls k
  rw [hcall] at hk
  have hheld : (s.calls k).frame = some newTable := congrArg MapCall.frame hcall
  obtain ⟨hne, hfree₀, hnot, htable, -⟩ := h.frames.fresh k newTable hheld
  have hlt := h₀.stack.lt_max newTable hfree₀
  exact {
    wf := h.tables.wf
    root := h.tables.roots ▸ h.tables.owner w.virt
    table := ht
    depth := TableLevel.path_length w.level w.virt
    own := hown
    none := hedge
    ne_zero := hne
    aligned := h₀.stack.aligned newTable hfree₀
    lt := by
      simp only [pageSize, maxFrames] at hlt
      omega
    notTable := htable
    taken := hnot
    zero := hk.2 }

/-- Under the lock: the frame is linked, or another CPU was first. -/
theorem Kept.link (h : s.Kept live space s₀ ops) (h₀ : Wf s₀ live) {newTable : Nat}
    (hcall : s.calls k = .link w newTable) :
    (MapOp.run space (.step k) s).Kept live space s₀ (ops ++ [.step k]) := by
  have hat : w.At space s₀ s.vmm := by
    have hk := h.calls k
    rw [hcall] at hk
    exact hk.1
  have hheld : (s.calls k).frame = some newTable := congrArg MapCall.frame hcall
  cases hat.slot h.tables with
  | @linked x hnext hne hpres hpage =>
    -- Another CPU has linked a table since: this call gives its frame back.
    have hget : getExistingTable s.vmm w.table w.index = x := by
      rw [getExistingTable, if_pos hpres, hpage]
    have hrun : (MapCall.link w newTable).run s.vmm = (.release w newTable x, s.vmm) := by
      simp only [MapCall.run, hget, if_neg hne]
    exact h.look hcall hrun rfl rfl rfl rfl rfl ⟨hat, hnext⟩ rfl
  | missing ht hown hedge habsent =>
    -- The slot is still empty: the frame of this call becomes the table.
    have hlink := h.linkable h₀ hcall ht hown hedge
    have hget : getExistingTable s.vmm w.table w.index = 0 := by
      rw [getExistingTable, if_neg (Bool.eq_false_iff.mp habsent)]
    have htables := h.tables.link hlink habsent
    have hgrow : ∀ r ∈ s₀.roots live, ∀ p t, s.vmm.table r p = some t →
        (s.vmm.write w.table w.index (linkEntry newTable)).table r p = some t :=
      fun r hr p t ht => hlink.table_mono (h.tables.roots ▸ hr) ht
    have hnext : (s.vmm.write w.table w.index (linkEntry newTable)).table (w.owner s₀ space)
        w.nextPath = some newTable := by
      rw [hlink.write_table hlink.root]
      exact if_pos ⟨rfl, rfl⟩
    obtain ⟨hkept, hargs, hframe⟩ := (hat.mono h.tables.root hgrow).goOn hnext hlink.ne_zero
    have hrun : (MapCall.link w newTable).run s.vmm =
        (w.goOn newTable, s.vmm.write w.table w.index (linkEntry newTable)) := by
      simp only [MapCall.run, hget, if_true]
      rfl
    refine h.goOn hcall hrun rfl htables ?_ hgrow ?_ hkept hargs
    · rw [hframe]
      exact h.frames.link h₀ hheld rfl hlink.isTable
    · intro k' hk' x hx
      obtain ⟨-, -, -, hnot, -⟩ := h.frames.fresh k' x hx
      refine Vmm.write_mem_of_table_ne _ _ _ _ ?_
      rintro rfl
      exact hnot ⟨_, hlink.root, _, ht⟩

/-- The frame is given back. -/
theorem Kept.release (h : s.Kept live space s₀ ops) (h₀ : Wf s₀ live) {newTable found : Nat}
    (hcall : s.calls k = .release w newTable found) :
    (MapOp.run space (.step k) s).Kept live space s₀ (ops ++ [.step k]) := by
  obtain ⟨hat, hfound⟩ : w.At space s₀ s.vmm ∧
      s.vmm.table (w.owner s₀ space) w.nextPath = some found := by
    have hk := h.calls k
    rwa [hcall] at hk
  have hheld : (s.calls k).frame = some newTable := congrArg MapCall.frame hcall
  obtain ⟨-, hfree₀, -, hnot, -⟩ := h.frames.fresh k newTable hheld
  obtain ⟨hstack, hframes⟩ := h.frames.release h₀.stack h.tables.wf.stack hheld
  obtain ⟨htables, htable⟩ := h.tables.frame
    { s.vmm with pmm := pmmFreeFrame s.vmm.pmm newTable } rfl (fun _ _ => rfl)
    (h.tables.wf.stack.free (h₀.stack.aligned newTable hfree₀)) fun t ht => by
      rw [hstack, List.mem_cons, not_or]
      exact ⟨fun he => hnot (he ▸ ht), h.tables.wf.used t ht⟩
  have hgrow : ∀ r ∈ s₀.roots live, ∀ p t, s.vmm.table r p = some t →
      ({ s.vmm with pmm := pmmFreeFrame s.vmm.pmm newTable } : Vmm).table r p = some t :=
    fun r hr p t ht => (htable r hr p).trans ht
  have hne : found ≠ 0 :=
    h.tables.wf.ne_zero found ⟨_, h.tables.roots ▸ h.tables.owner w.virt, _, hfound⟩
  obtain ⟨hkept, hargs, hframe⟩ := (hat.mono h.tables.root hgrow).goOn (hgrow _
    (h.tables.owner w.virt) _ _ hfound) hne
  refine h.goOn hcall rfl rfl htables ?_ hgrow (fun _ _ _ _ => rfl) hkept hargs
  rw [hframe]
  exact hframes

/-- The leaf is stored. -/
theorem Kept.store (h : s.Kept live space s₀ ops) {a : MapArgs} {pt : Nat}
    (hcall : s.calls k = .store a pt) :
    (MapOp.run space (.step k) s).Kept live space s₀ (ops ++ [.step k]) := by
  have hpt : s.vmm.table (a.owner s₀ space) (pageNumber a.virt).path = some pt := by
    have hk := h.calls k
    rwa [hcall] at hk
  obtain ⟨htables, htable⟩ := h.tables.store hpt
  have hstep : MapOp.run space (.step k) s = ⟨s.vmm.write pt (ptIndex a.virt) a.leaf,
      Function.update s.calls k .out, s.stores ++ [a]⟩ := by
    rw [MapOp.run, hcall]
    rfl
  rw [hstep]
  have hframe : MapCall.out.frame = (s.calls k).frame := by
    rw [hcall]
    rfl
  apply h.next (.step k) [a] htables
  · exact h.framesSame htables htable rfl hframe
  · exact fun r hr p t ht => (htable r hr p).trans ht
  · -- The store goes into a table, and a frame that another call holds is no table.
    intro k' hk' x hx
    obtain ⟨-, -, -, hnot, -⟩ := h.frames.fresh k' x hx
    refine Vmm.write_mem_of_table_ne _ _ _ _ ?_
    rintro rfl
    exact hnot ⟨_, h.tables.roots ▸ h.tables.owner a.virt, _, hpt⟩
  · trivial
  -- its arguments go from the call to what is stored
  · intro b
    rw [hcall, List.mem_singleton]
    constructor
    · rintro (⟨k', hk'⟩ | hb)
      · cases hk'
      · exact Or.inl (Option.some.inj hb).symm
    · rintro (rfl | hb)
      · exact Or.inr rfl
      · cases hb

/-- **A CPU takes the next step of its call**, and there is a frame if it asks for one. -/
theorem Kept.step (h : s.Kept live space s₀ ops) (h₀ : Wf s₀ live)
    (hgranted : (s.calls k).allocates = true → (pmmAllocFrame s.vmm.pmm).1 ≠ 0) :
    (MapOp.run space (.step k) s).Kept live space s₀ (ops ++ [.step k]) := by
  cases hcall : s.calls k with
  | out =>
    exact h.look hcall rfl rfl rfl rfl rfl rfl trivial rfl
  | test w => exact h.test hcall
  | read w => exact h.read hcall
  | alloc w => exact h.alloc h₀ hcall (hgranted (by rw [hcall]; rfl))
  | zero w newTable => exact h.zero hcall
  | link w newTable => exact h.link h₀ hcall
  | release w newTable found => exact h.release h₀ hcall
  | storeHuge a pd =>
    have hk := h.calls k
    rw [hcall] at hk
    exact hk.elim
  | store a pt => exact h.store hcall

end Steps

end MapSystem

/-- **What the calls leave** when all have returned: every leaf is stored, each page of each space is
mapped as by the last store to it, or as before; each slot on the way links one table, and none was lost;
and the frames that are gone are the new tables. -/
structure NothingLost {κ : Type} (live : Finset Nat) (space : Nat) (ops : List (MapOp κ))
    (s₀ s : MapSystem κ) : Prop where
  wf : Wf s.vmm live
  stored : ∀ a, a ∈ s.stores ↔ ∃ k, .call k a ∈ ops
  translate : ∀ b ∈ s₀.vmm.roots live, ∀ virt, translate s.vmm b virt =
    (lastWrite (fun a => s₀.vmm.pageKey space a.virt) s.stores (s₀.vmm.pageKey b virt)).elim
      (translate s₀.vmm b virt)
      fun a => some (a.leaf &&& ~~~0xFFF#64 ||| virt &&& 0xFFF#64, a.leaf &&& 0xFFF#64)
  slots : ∀ a ∈ s.stores, ∀ p, p <:+ (pageNumber a.virt).path →
    ∃ t, s.vmm.table (a.owner s₀.vmm space) p = some t ∧
      ∀ r ∈ s₀.vmm.roots live, ∀ p', s.vmm.table r p' = some t → r = a.owner s₀.vmm space ∧ p' = p
  tables : ∀ r ∈ s₀.vmm.roots live, ∀ p t, s₀.vmm.table r p = some t → s.vmm.table r p = some t
  frames : ∃ new : Finset Nat, (∀ t, t ∈ new ↔ s.vmm.IsTable live t ∧ ¬ s₀.vmm.IsTable live t) ∧
    pmmGetFreeCount s.vmm.pmm + new.card = pmmGetFreeCount s₀.vmm.pmm

section Runs

variable {κ : Type} [DecidableEq κ] {live : Finset Nat} {space : Nat} {s₀ s : MapSystem κ}
  {ops : List (MapOp κ)}

/-- What each step keeps, a run keeps. -/
theorem mapRun_kept (h : s₀.Start live space)
    (hsmall : ∀ k a, .call k a ∈ ops → ¬ s₀.vmm.Large space a.virt)
    (hrun : Run (Restrict MapOp.Granted (mapStep space)) s₀ ops s) :
    s.Kept live space s₀.vmm ops := by
  induction hrun with
  | nil => exact h.kept
  | snoc _ hstep ih =>
    obtain ⟨hgranted, hvalid, rfl⟩ := hstep
    rename_i op _
    have hkept := ih fun k a ha => hsmall k a (List.mem_append_left _ ha)
    cases op with
    | call k a =>
      refine hkept.call hvalid.1 hvalid.2 (hsmall k a ?_)
      exact List.mem_append_right _ (List.mem_singleton_self _)
    | step k => exact hkept.step h.wf hgranted

/-- **Nothing is lost**, whatever CPUs map pages of one space, in any interleaving of their steps. -/
theorem mapRun_nothingLost (h : s₀.Start live space)
    (hsmall : ∀ k a, .call k a ∈ ops → ¬ s₀.vmm.Large space a.virt)
    (hrun : Run (Restrict MapOp.Granted (mapStep space)) s₀ ops s)
    (hdone : ∀ k, s.calls k = .out) : NothingLost live space ops s₀ s := by
  have hkept := mapRun_kept h hsmall hrun
  refine ⟨hkept.tables.wf, fun a => ?_, fun b hb virt => ?_, fun a ha p hp => ?_, ?_, ?_⟩
  · have hno : ¬ ∃ k, (s.calls k).args = some a := by
      rintro ⟨k, hk⟩
      rw [hdone] at hk
      cases hk
    rw [hkept.called a, or_iff_left hno]
  · exact hkept.tables.translate_eq h.wf hb virt
  · obtain ⟨t, ht⟩ := hkept.tables.stored a ha
    -- a table below another has it on its path
    obtain ⟨t', ht'⟩ : ∃ t', s.vmm.table (a.owner s₀.vmm space) p = some t' := by
      by_contra hne
      have hnone : s.vmm.table (a.owner s₀.vmm space) p = none := by
        by_contra hsome
        exact hne (Option.ne_none_iff_exists'.mp hsome)
      cases (Vmm.table_none_of_suffix hnone hp).symm.trans ht
    refine ⟨t', ht', fun r hr p' hp' => ?_⟩
    exact hkept.tables.wf.unique (hkept.tables.roots ▸ hr)
      (hkept.tables.roots ▸ hkept.tables.owner a.virt) hp' ht'
  · exact hkept.tables.table
  · exact hkept.frames.count h.wf hkept.tables.wf fun k => by
      rw [hdone]
      rfl

end Runs

/-! ## Two CPUs -/

/-- A frame allocator with the frames of the small machine. -/
def smallPmm : Pmm where
  frameBitmap word := if word = 8 then 0xFFFFC03F#32 else 0xFFFFFFFF#32
  freeStack := bootFrames
  refCounts _ := 0
  totalFrames := 8

theorem smallPmm_stack : StackInv smallPmm where
  nodup := by decide
  aligned := by decide
  mem_iff f := by
    by_cases hf : f < 288
    · have hall : ∀ f < 288, f * pageSize ∈ smallPmm.freeStack ↔
          bitmapTest smallPmm.frameBitmap f = false := by decide +kernel
      exact hall f hf
    · refine iff_of_false (fun hmem => ?_) ?_
      · have hall : ∀ a ∈ bootFrames, a < 288 * pageSize := by decide
        have hlt := hall _ hmem
        simp only [pageSize] at hlt
        omega
      · rw [bitmapTest_eq]
        have hword : smallPmm.frameBitmap (f / 32) = BitVec.allOnes 32 := if_neg (by omega)
        rw [hword, BitVec.getLsbD_allOnes, decide_eq_true (Nat.mod_lt f (by decide))]
        exact nofun
  lt_max := by decide

/-- The first address space of the small machine, and no call. -/
def raceStart : MapSystem Bool where
  vmm := (vmmCreateAddressSpace (bootVmm (fun _ _ => 0#64) 0x100000 smallPmm)).2
  calls _ := .out
  stores := []

/-- Two CPUs map neighbouring pages, none of whose tables is there, step by step in turn. -/
def raceOps : List (MapOp Bool) :=
  [.call false ⟨0x8000000000#64, 0x300000#64, 0x7#64⟩,
    .call true ⟨0x8000001000#64, 0x301000#64, 0x7#64⟩] ++
  (List.replicate 16 [.step false, .step true]).flatten

theorem raceStart_start : raceStart.Start {0x10D000} 0x10D000 := by
  have hwf : Wf (bootVmm (fun _ _ => 0#64) 0x100000 smallPmm) ∅ :=
    bootVmm_wf (by decide) (by decide) (by decide) smallPmm_stack (by decide)
  refine ⟨?_, ?_, fun _ => rfl, rfl⟩
  · rcases vmmCreateAddressSpace_cases hwf with ⟨hzero, -⟩ | ⟨hne, hnew⟩
    · exact absurd hzero (by decide)
    · have hcreated := hwf.create hne
      rw [raceStart, hnew]
      exact hcreated.wf
  · exact Vmm.mem_roots (Finset.mem_singleton_self _)

theorem raceOps_small {k : Bool} {a : MapArgs} (h : .call k a ∈ raceOps) :
    ¬ raceStart.vmm.Large 0x10D000 a.virt := by
  rcases List.mem_append.mp h with h | h
  · rw [List.mem_cons, List.mem_singleton] at h
    rcases h with h | h
    · cases h
      intro hlarge
      exact absurd hlarge.1 (by decide +kernel)
    · cases h
      intro hlarge
      exact absurd hlarge.1 (by decide +kernel)
  · -- the rest are steps
    obtain ⟨l, hl, hmem⟩ := List.mem_flatten.mp h
    rw [List.eq_of_mem_replicate hl, List.mem_cons, List.mem_singleton] at hmem
    rcases hmem with hmem | hmem
    · cases hmem
    · cases hmem

/-- Of the frames each CPU takes, three are linked, and the others are free again. -/
theorem mapRun_nothingLost_race :
    ∃ s, Run (Restrict MapOp.Granted (mapStep 0x10D000)) raceStart raceOps s ∧
      NothingLost {0x10D000} 0x10D000 raceOps raceStart s ∧ pmmGetFreeCount s.vmm.pmm = 4 := by
  have hallowed : Allowed (fun s op => MapOp.Granted s op ∧ op.Valid s) (MapOp.run 0x10D000) raceStart
      raceOps := by decide +kernel
  have hrun : Run (Restrict MapOp.Granted (mapStep 0x10D000)) raceStart raceOps _ :=
    hallowed.run_restrict
  refine ⟨_, hrun, mapRun_nothingLost raceStart_start (fun _ _ => raceOps_small) hrun ?_, ?_⟩
  · decide +kernel
  · decide +kernel

end ZohoOs
