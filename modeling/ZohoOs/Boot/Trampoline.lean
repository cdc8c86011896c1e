import ZohoOs.Memory.HeapStats
import Mathlib.Logic.Function.Basic
import Mathlib.Algebra.GroupWithZero.Nat

/-!
# Starting the other CPUs

`smp_init` starts the other CPUs one after the other. Each runs the trampoline at 0x8000, which has one place
for a stack and one for the id of the CPU. The boot CPU fills in both, sends `INIT` and `SIPI`, and waits
until the CPU has counted itself in `ap_started_count`, or gives up. The CPU reads the two places whenever it
comes to it, if the interrupt reaches it at all.

As long as the boot CPU does not give up, each CPU comes to `ap_main` with its own id, on a stack of its own.

## Main definitions

* `SmpPhase`, `ApPhase`: how far the boot CPU is, and another one
* `SmpBoot`, `SmpStep`: all of them, and their steps
* `InTime`: the boot CPU does not give up, and has memory for the stacks
* `SmpHeapStep`: the same with the heap of `kmalloc`, which others use as well

## Main results

* `SmpInv.step`: what a step keeps
* `smpRun_private`: the stacks and ids, and the end of the loop
* `smpHeapRun_refines`: with the heap the steps are the same, and the stacks are live blocks of it
-/

namespace ZohoOs

open TransitionSystem BlockTiling

/-! ## The code -/

/-- What the trampoline reads. The page table and the entry are stored before the loop. -/
structure Mailbox where
  stack : BitVec 64
  apicId : BitVec 64

/-- Where `smp_init` is in its loop: at the head; the id is stored; the stack is; the count is read; `INIT` is
sent; `SIPI` is; or it waits. -/
inductive SmpPhase
  | head
  | idStored (id : BitVec 8)
  | stackStored (id : BitVec 8)
  | counted (id : BitVec 8) (currentCount : Nat)
  | initSent (id : BitVec 8) (currentCount : Nat)
  | sipiSent (id : BitVec 8) (currentCount : Nat)
  | waits (id : BitVec 8) (currentCount timeout : Nat)

/-- How far another CPU is: not started; reset; in the trampoline; there with its stack; in `ap_main`; or
through with it. -/
inductive ApPhase
  | off
  | reset
  | trampoline
  | stacked (rsp : BitVec 64)
  | entered (rsp : BitVec 64) (apicId : BitVec 8)
  | started (rsp : BitVec 64) (apicId : BitVec 8)

structure SmpBoot where
  phase : SmpPhase
  /-- The ids that are left in `cpu_ids`. -/
  todo : List (BitVec 8)
  mailbox : Mailbox
  apStartedCount : Nat
  aps : BitVec 8 → ApPhase
  /-- The blocks `kmalloc` has returned for the stacks, the last one first. -/
  blocks : List (BitVec 8 × Nat)

/-- The size of a stack. -/
abbrev apStackSize : Nat := 4096 * 4

/-- `SIPI`: a CPU that is reset comes to the trampoline, if the interrupt reaches it. Any other ignores it. -/
def ApPhase.sipi (arrives : Bool) : ApPhase → ApPhase
  | .reset => if arrives then .trampoline else .reset
  | phase => phase

def SmpBoot.setAp (s : SmpBoot) (id : BitVec 8) (phase : ApPhase) : SmpBoot :=
  { s with aps := Function.update s.aps id phase }

inductive SmpLabel
  | skips
  | storesId
  | storesStack (block : Nat)
  | readsCount
  | sendsInit
  | sendsSipi (arrives : Bool)
  | sendsAgain (arrives : Bool)
  | goesOn
  | polls
  | leaves
  | timesOut
  | readsStack (id : BitVec 8)
  | readsId (id : BitVec 8)
  | counts (id : BitVec 8)

inductive SmpStep (bspId : BitVec 8) : SmpBoot → SmpLabel → SmpBoot → Prop
  | skips {s : SmpBoot} {rest : List (BitVec 8)} : s.phase = .head → s.todo = bspId :: rest →
      SmpStep bspId s .skips { s with todo := rest }
  | storesId {s : SmpBoot} {id : BitVec 8} {rest : List (BitVec 8)} :
      s.phase = .head → s.todo = id :: rest → id ≠ bspId →
      SmpStep bspId s .storesId
        { s with
          phase := .idStored id, todo := rest
          mailbox := { s.mailbox with apicId := id.setWidth 64 } }
  /-- `kmalloc` returns a block that is not in use, or `NULL`; for the heap see `SmpHeapStep`. -/
  | storesStack {s : SmpBoot} {id : BitVec 8} {block : Nat} : s.phase = .idStored id →
      (block ≠ 0 → block + apStackSize < 2 ^ 64 ∧
        ∀ e ∈ s.blocks, e.2 + apStackSize ≤ block ∨ block + apStackSize ≤ e.2) →
      SmpStep bspId s (.storesStack block)
        { s with
          phase := .stackStored id, blocks := (id, block) :: s.blocks
          mailbox := { s.mailbox with stack := BitVec.ofNat 64 (block + apStackSize) } }
  | readsCount {s : SmpBoot} {id : BitVec 8} : s.phase = .stackStored id →
      SmpStep bspId s .readsCount { s with phase := .counted id s.apStartedCount }
  | sendsInit {s : SmpBoot} {id : BitVec 8} {count : Nat} : s.phase = .counted id count →
      SmpStep bspId s .sendsInit { s.setAp id .reset with phase := .initSent id count }
  | sendsSipi {s : SmpBoot} {id : BitVec 8} {count : Nat} (arrives : Bool) : s.phase = .initSent id count →
      SmpStep bspId s (.sendsSipi arrives)
        { s.setAp id ((s.aps id).sipi arrives) with phase := .sipiSent id count }
  | sendsAgain {s : SmpBoot} {id : BitVec 8} {count : Nat} (arrives : Bool) : s.phase = .sipiSent id count →
      s.apStartedCount = count →
      SmpStep bspId s (.sendsAgain arrives)
        { s.setAp id ((s.aps id).sipi arrives) with phase := .waits id count 100000 }
  | goesOn {s : SmpBoot} {id : BitVec 8} {count : Nat} : s.phase = .sipiSent id count →
      s.apStartedCount ≠ count → SmpStep bspId s .goesOn { s with phase := .waits id count 100000 }
  | polls {s : SmpBoot} {id : BitVec 8} {count timeout : Nat} : s.phase = .waits id count (timeout + 1) →
      s.apStartedCount = count → SmpStep bspId s .polls { s with phase := .waits id count timeout }
  | leaves {s : SmpBoot} {id : BitVec 8} {count timeout : Nat} : s.phase = .waits id count timeout →
      s.apStartedCount ≠ count → SmpStep bspId s .leaves { s with phase := .head }
  /-- The boot CPU gives up. -/
  | timesOut {s : SmpBoot} {id : BitVec 8} {count : Nat} : s.phase = .waits id count 0 →
      s.apStartedCount = count → SmpStep bspId s .timesOut { s with phase := .head }
  | readsStack {s : SmpBoot} {id : BitVec 8} : s.aps id = .trampoline →
      SmpStep bspId s (.readsStack id) (s.setAp id (.stacked s.mailbox.stack))
  | readsId {s : SmpBoot} {id : BitVec 8} {rsp : BitVec 64} : s.aps id = .stacked rsp →
      SmpStep bspId s (.readsId id) (s.setAp id (.entered rsp (s.mailbox.apicId.setWidth 8)))
  | counts {s : SmpBoot} {id apicId : BitVec 8} {rsp : BitVec 64} : s.aps id = .entered rsp apicId →
      SmpStep bspId s (.counts id)
        { s.setAp id (.started rsp apicId) with apStartedCount := s.apStartedCount + 1 }

/-- `smp_init` in front of its loop. -/
def SmpBoot.start (cpuIds : List (BitVec 8)) (mailbox : Mailbox) : SmpBoot :=
  ⟨.head, cpuIds, mailbox, 0, fun _ => .off, []⟩

/-- The boot CPU does not give up, nor is it out of memory. -/
def InTime (_ : SmpBoot) : SmpLabel → Prop
  | .timesOut => False
  | .storesStack block => block ≠ 0
  | _ => True

/-! ## Runs -/

/-- A CPU that runs the kernel, with the stack and the id it has. -/
def ApPhase.Runs (phase : ApPhase) (rsp : BitVec 64) (apicId : BitVec 8) : Prop :=
  phase = .entered rsp apicId ∨ phase = .started rsp apicId

/-- The top of a block. -/
def stackTop (block : Nat) : BitVec 64 := BitVec.ofNat 64 (block + apStackSize)

/-- A CPU is through, on the stack that was made for it. -/
def SmpBoot.Through (s : SmpBoot) (id : BitVec 8) : Prop :=
  ∃ block, (id, block) ∈ s.blocks ∧ s.aps id = .started (stackTop block) id

/-- A CPU has read nothing but what is meant for it. -/
def ApPhase.Comes (id : BitVec 8) (block : Nat) : ApPhase → Prop
  | .reset | .trampoline => True
  | .stacked rsp => rsp = stackTop block
  | .entered rsp apicId => rsp = stackTop block ∧ apicId = id
  | .off | .started .. => False

/-- The mailbox is for this CPU, and so is the last block. -/
def SmpBoot.Serves (s : SmpBoot) (id : BitVec 8) (block : Nat) : Prop :=
  s.mailbox.stack = stackTop block ∧ s.mailbox.apicId = id.setWidth 64 ∧ (id, block) ∈ s.blocks

/-- It is still to be counted, as one more than `n`, or has been. -/
def SmpBoot.Awaits (s : SmpBoot) (id : BitVec 8) (n : Nat) : Prop :=
  (s.apStartedCount = n ∧ ∃ block, s.Serves id block ∧ (s.aps id).Comes id block) ∨
    s.apStartedCount = n + 1 ∧ s.Through id

/-- The CPU the loop is at, after `n` others. -/
def SmpBoot.AtCpu (s : SmpBoot) (n : Nat) : SmpPhase → Prop
  | .head => s.apStartedCount = n
  | .idStored id => s.apStartedCount = n ∧ s.aps id = .off ∧ s.mailbox.apicId = id.setWidth 64
  | .stackStored id => s.apStartedCount = n ∧ s.aps id = .off ∧ ∃ block, s.Serves id block
  | .counted id count => s.apStartedCount = n ∧ count = n ∧ s.aps id = .off ∧ ∃ block, s.Serves id block
  | .initSent id count => s.apStartedCount = n ∧ count = n ∧ s.aps id = .reset ∧ ∃ block, s.Serves id block
  | .sipiSent id count => count = n ∧ s.Awaits id n
  | .waits id count _ => count = n ∧ s.Awaits id n

/-- The CPU of a phase. -/
def SmpPhase.cpu : SmpPhase → Option (BitVec 8)
  | .head => none
  | .idStored id | .stackStored id => some id
  | .counted id _ | .initSent id _ | .sipiSent id _ | .waits id _ _ => some id

/-- The stacks are apart. -/
def ApartBlocks (e e' : BitVec 8 × Nat) : Prop :=
  e.2 + apStackSize ≤ e'.2 ∨ e'.2 + apStackSize ≤ e.2

/-- **What holds between any two steps**, where the loop is through with the ids in `past`. -/
structure SmpInv (bspId : BitVec 8) (cpuIds past : List (BitVec 8)) (s : SmpBoot) : Prop where
  order : cpuIds = past ++ s.phase.cpu.toList ++ s.todo
  ne_bsp : ∀ i, s.phase.cpu = some i → i ≠ bspId
  atCpu : s.AtCpu (past.filter (· ≠ bspId)).length s.phase
  through : ∀ i ∈ past, i ≠ bspId → s.Through i
  others : ∀ i, s.phase.cpu ≠ some i → s.aps i = .off ∨ i ∈ past ∧ s.Through i
  apart : s.blocks.Pairwise ApartBlocks

section Runs

variable {bspId : BitVec 8} {cpuIds past : List (BitVec 8)} {s s' : SmpBoot} {l : SmpLabel} {id : BitVec 8}
  {n block : Nat}

theorem setAp_self (phase : ApPhase) : (s.setAp id phase).aps id = phase := Function.update_self ..

theorem setAp_of_ne {i : BitVec 8} (hi : i ≠ id) (phase : ApPhase) : (s.setAp id phase).aps i = s.aps i :=
  Function.update_of_ne hi ..

/-- A CPU that is through stays so. -/
theorem SmpBoot.Through.mono (h : s.Through id) (haps : s'.aps id = s.aps id)
    (hblocks : ∀ e ∈ s.blocks, e ∈ s'.blocks) : s'.Through id := by
  obtain ⟨block, hmem, hstarted⟩ := h
  exact ⟨block, hblocks _ hmem, haps.trans hstarted⟩

/-- What a step on one CPU leaves of the others. -/
theorem SmpInv.others_mono (h : SmpInv bspId cpuIds past s) (hcpu : s'.phase.cpu = s.phase.cpu)
    (haps : ∀ i, s.phase.cpu ≠ some i → s'.aps i = s.aps i) (hblocks : ∀ e ∈ s.blocks, e ∈ s'.blocks) :
    ∀ i, s'.phase.cpu ≠ some i → s'.aps i = .off ∨ i ∈ past ∧ s'.Through i := by
  intro i hi
  rw [hcpu] at hi
  rcases h.others i hi with hoff | ⟨hmem, hthrough⟩
  · exact Or.inl ((haps i hi).trans hoff)
  · exact Or.inr ⟨hmem, hthrough.mono (haps i hi) hblocks⟩

/-- A step at the same CPU. -/
theorem SmpInv.stays (h : SmpInv bspId cpuIds past s) (hids : cpuIds.Nodup)
    (hcpu : s'.phase.cpu = s.phase.cpu) (htodo : s'.todo = s.todo)
    (haps : ∀ i, s.phase.cpu ≠ some i → s'.aps i = s.aps i) (hblocks : ∀ e ∈ s.blocks, e ∈ s'.blocks)
    (hapart : s'.blocks.Pairwise ApartBlocks)
    (hat : s'.AtCpu (past.filter (· ≠ bspId)).length s'.phase) : SmpInv bspId cpuIds past s' := by
  refine ⟨?_, ?_, hat, fun i hi hne => ?_, h.others_mono hcpu haps hblocks, hapart⟩
  · rw [hcpu, htodo]
    exact h.order
  · rw [hcpu]
    exact h.ne_bsp
  · refine (h.through i hi hne).mono (haps i fun hcur => ?_) hblocks
    -- the ids are different, so none of the past comes again
    have hnodup := h.order ▸ hids
    rw [hcur, List.append_assoc] at hnodup
    exact (List.nodup_append.mp hnodup).2.2 i hi i (List.mem_append_left _ (by simp)) rfl

/-- A CPU in the trampoline is the one the loop is at. -/
theorem SmpInv.awaits (h : SmpInv bspId cpuIds past s) (id : BitVec 8) (hoff : s.aps id ≠ .off)
    (hreset : s.aps id ≠ .reset) (hstarted : ∀ rsp apicId, s.aps id ≠ .started rsp apicId) :
    s.phase.cpu = some id ∧ s.apStartedCount = (past.filter (· ≠ bspId)).length ∧
      (∃ block, s.Serves id block ∧ (s.aps id).Comes id block) ∧
      ∀ s' : SmpBoot, s'.Awaits id (past.filter (· ≠ bspId)).length →
        s'.AtCpu (past.filter (· ≠ bspId)).length s.phase := by
  have hcur : s.phase.cpu = some id := by
    by_contra hne
    rcases h.others id hne with hgone | ⟨-, block, -, hgone⟩
    · exact hoff hgone
    · exact hstarted _ _ hgone
  have hat := h.atCpu
  have hopen : ∀ n, s.Awaits id n → s.apStartedCount = n ∧
      ∃ block, s.Serves id block ∧ (s.aps id).Comes id block := by
    rintro n (hcomes | ⟨-, block, -, hgone⟩)
    · exact hcomes
    · exact absurd hgone (hstarted _ _)
  cases hphase : s.phase with
  | head => rw [hphase] at hcur; cases hcur
  | idStored i =>
    rw [hphase] at hcur hat
    cases hcur
    exact absurd hat.2.1 hoff
  | stackStored i =>
    rw [hphase] at hcur hat
    cases hcur
    exact absurd hat.2.1 hoff
  | counted i count =>
    rw [hphase] at hcur hat
    cases hcur
    exact absurd hat.2.2.1 hoff
  | initSent i count =>
    rw [hphase] at hcur hat
    cases hcur
    exact absurd hat.2.2.1 hreset
  | sipiSent i count =>
    rw [hphase] at hcur hat
    cases hcur
    obtain ⟨hcount, hcomes⟩ := hopen _ hat.2
    exact ⟨rfl, hcount, hcomes, fun s' hawaits => ⟨hat.1, hawaits⟩⟩
  | waits i count timeout =>
    rw [hphase] at hcur hat
    cases hcur
    obtain ⟨hcount, hcomes⟩ := hopen _ hat.2
    exact ⟨rfl, hcount, hcomes, fun s' hawaits => ⟨hat.1, hawaits⟩⟩

/-- **A step** in time keeps it. -/
theorem SmpInv.step (hids : cpuIds.Nodup) (h : SmpInv bspId cpuIds past s) (htime : InTime s l)
    (hstep : SmpStep bspId s l s') : ∃ past', SmpInv bspId cpuIds past' s' := by
  have horder := h.order
  have hat := h.atCpu
  cases hstep with
  | @skips rest hphase htodo =>
    rw [hphase] at hat
    refine ⟨past ++ [bspId], ⟨?_, ?_, ?_, fun i hi hne => ?_, fun i hi => ?_, h.apart⟩⟩
    · rw [horder, hphase, htodo]
      simp [SmpPhase.cpu]
    · exact h.ne_bsp
    · dsimp only
      rw [hphase, List.filter_append, List.filter_cons_of_neg (by simp)]
      simpa [SmpBoot.AtCpu] using hat
    · rcases List.mem_append.mp hi with hi | hi
      · exact h.through i hi hne
      · exact absurd (List.mem_singleton.mp hi) hne
    · rcases h.others i hi with hoff | ⟨hmem, hthrough⟩
      · exact Or.inl hoff
      · exact Or.inr ⟨List.mem_append_left _ hmem, hthrough⟩
  | @storesId id rest hphase htodo hne =>
    rw [hphase] at hat
    have hnew : id ∉ past := by
      intro hmem
      have hnodup := horder ▸ hids
      rw [htodo] at hnodup
      exact (List.nodup_append.mp hnodup).2.2 id (List.mem_append_left _ hmem) id List.mem_cons_self rfl
    have hoff : s.aps id = .off := by
      rcases h.others id (by rw [hphase]; exact nofun) with hoff | ⟨hmem, -⟩
      · exact hoff
      · exact absurd hmem hnew
    refine ⟨past, ⟨?_, ?_, ⟨hat, hoff, rfl⟩, h.through, fun i _ => ?_, h.apart⟩⟩
    · rw [horder, hphase, htodo]
      simp [SmpPhase.cpu]
    · rintro i hi
      cases hi
      exact hne
    · exact h.others i (by rw [hphase]; exact nofun)
  | @storesStack id block hphase hblock =>
    rw [hphase] at hat
    obtain ⟨hcount, hoff, hid⟩ := hat
    obtain ⟨-, hfree⟩ := hblock htime
    refine ⟨past, h.stays hids (by rw [hphase]; rfl) rfl (fun _ _ => rfl)
      (fun e he => List.mem_cons_of_mem _ he) ?_ ?_⟩
    · exact List.pairwise_cons.mpr ⟨fun e he => (hfree e he).symm, h.apart⟩
    · exact ⟨hcount, hoff, block, rfl, hid, List.mem_cons_self⟩
  | @readsCount id hphase =>
    rw [hphase] at hat
    exact ⟨past, h.stays hids (by rw [hphase]; rfl) rfl (fun _ _ => rfl) (fun _ he => he) h.apart
      ⟨hat.1, hat.1, hat.2⟩⟩
  | @sendsInit id count hphase =>
    rw [hphase] at hat
    obtain ⟨hcount, hn, -, block, hserves⟩ := hat
    refine ⟨past, h.stays hids (by rw [hphase]; rfl) rfl (fun i hi => ?_) (fun _ he => he) h.apart
      ⟨hcount, hn, setAp_self _, block, hserves⟩⟩
    exact setAp_of_ne (by rintro rfl; exact hi (by rw [hphase]; rfl)) _
  | @sendsSipi id count arrives hphase =>
    rw [hphase] at hat
    obtain ⟨hcount, hn, hreset, block, hserves⟩ := hat
    refine ⟨past, h.stays hids (by rw [hphase]; rfl) rfl (fun i hi => ?_) (fun _ he => he) h.apart
      ⟨hn, Or.inl ⟨hcount, block, hserves, ?_⟩⟩⟩
    · exact setAp_of_ne (by rintro rfl; exact hi (by rw [hphase]; rfl)) _
    · show ((s.setAp id ((s.aps id).sipi arrives)).aps id).Comes id block
      rw [setAp_self, hreset]
      cases arrives <;> trivial
  | @sendsAgain id count arrives hphase hsame =>
    rw [hphase] at hat
    obtain ⟨hn, hawaits⟩ := hat
    have hap : ∀ i, i ≠ id → (s.setAp id ((s.aps id).sipi arrives)).aps i = s.aps i := fun i hi =>
      setAp_of_ne hi _
    refine ⟨past, h.stays hids (by rw [hphase]; rfl) rfl (fun i hi => ?_) (fun _ he => he) h.apart
      ⟨hn, ?_⟩⟩
    · exact hap i (by rintro rfl; exact hi (by rw [hphase]; rfl))
    · rcases hawaits with ⟨hcount, block, hserves, hcomes⟩ | ⟨hcount, block, hmem, hstarted⟩
      · refine Or.inl ⟨hcount, block, hserves, ?_⟩
        show ((s.setAp id ((s.aps id).sipi arrives)).aps id).Comes id block
        rw [setAp_self]
        cases hap : s.aps id with
        | reset => cases arrives <;> trivial
        | _ =>
          rw [hap] at hcomes
          exact hcomes
      · refine Or.inr ⟨hcount, block, hmem, ?_⟩
        show (s.setAp id ((s.aps id).sipi arrives)).aps id = _
        rw [setAp_self, hstarted]
        rfl
  | @goesOn id count hphase hne =>
    rw [hphase] at hat
    exact ⟨past, h.stays hids (by rw [hphase]; rfl) rfl (fun _ _ => rfl) (fun _ he => he) h.apart hat⟩
  | @polls id count timeout hphase hsame =>
    rw [hphase] at hat
    exact ⟨past, h.stays hids (by rw [hphase]; rfl) rfl (fun _ _ => rfl) (fun _ he => he) h.apart hat⟩
  | @leaves id count timeout hphase hne =>
    rw [hphase] at hat
    obtain ⟨rfl, hawaits⟩ := hat
    obtain ⟨hcount, hthrough⟩ := hawaits.resolve_left fun hcomes => hne hcomes.1
    have hnebsp : id ≠ bspId := h.ne_bsp id (by rw [hphase]; rfl)
    refine ⟨past ++ [id], ⟨?_, nofun, ?_, fun i hi hne => ?_, fun i _ => ?_, h.apart⟩⟩
    · rw [horder, hphase]
      simp [SmpPhase.cpu]
    · show s.apStartedCount = _
      rw [hcount, List.filter_append, List.filter_cons_of_pos (by simpa using hnebsp), List.length_append]
      rfl
    · rcases List.mem_append.mp hi with hi | hi
      · exact h.through i hi hne
      · exact List.mem_singleton.mp hi ▸ hthrough
    · by_cases hi : i = id
      · exact Or.inr ⟨List.mem_append_right _ (List.mem_singleton.mpr hi), hi ▸ hthrough⟩
      · rcases h.others i (by rw [hphase]; rintro ⟨⟩; exact hi rfl) with hoff | ⟨hmem, hthrough⟩
        · exact Or.inl hoff
        · exact Or.inr ⟨List.mem_append_left _ hmem, hthrough⟩
  | timesOut => exact htime.elim
  | @readsStack id htramp =>
    obtain ⟨hcur, hcount, ⟨block, hserves, -⟩, hopen⟩ := h.awaits id (by rw [htramp]; exact nofun)
      (by rw [htramp]; exact nofun) (by rw [htramp]; exact nofun)
    refine ⟨past, h.stays hids rfl rfl (fun i hi => ?_) (fun _ he => he) h.apart
      (hopen _ (Or.inl ⟨hcount, block, hserves, ?_⟩))⟩
    · exact setAp_of_ne (by rintro rfl; exact hi hcur) _
    · rw [setAp_self]
      exact hserves.1
  | @readsId id rsp hstacked =>
    obtain ⟨hcur, hcount, ⟨block, hserves, hcomes⟩, hopen⟩ := h.awaits id
      (by rw [hstacked]; exact nofun) (by rw [hstacked]; exact nofun) (by rw [hstacked]; exact nofun)
    refine ⟨past, h.stays hids rfl rfl (fun i hi => ?_) (fun _ he => he) h.apart
      (hopen _ (Or.inl ⟨hcount, block, hserves, ?_⟩))⟩
    · exact setAp_of_ne (by rintro rfl; exact hi hcur) _
    · rw [hstacked] at hcomes
      rw [setAp_self]
      refine ⟨hcomes, ?_⟩
      rw [hserves.2.1, BitVec.setWidth_setWidth_of_le _ (by decide), BitVec.setWidth_eq]
  | @counts id apicId rsp hentered =>
    obtain ⟨hcur, hcount, ⟨block, hserves, hcomes⟩, hopen⟩ := h.awaits id
      (by rw [hentered]; exact nofun) (by rw [hentered]; exact nofun) (by rw [hentered]; exact nofun)
    refine ⟨past, h.stays hids rfl rfl (fun i hi => ?_) (fun _ he => he) h.apart
      (hopen _ (Or.inr ⟨congrArg (· + 1) hcount, block, hserves.2.2, ?_⟩))⟩
    · exact setAp_of_ne (by rintro rfl; exact hi hcur) _
    · rw [hentered] at hcomes
      obtain ⟨hrsp, hid⟩ := hcomes
      exact (setAp_self _).trans (by rw [hrsp, hid])

/-- A CPU that has counted itself is through, on its own stack. -/
theorem SmpInv.started (h : SmpInv bspId cpuIds past s) {apicId : BitVec 8} {rsp : BitVec 64}
    (hstarted : s.aps id = .started rsp apicId) : s.Through id := by
  have hat := h.atCpu
  have hawaits : ∀ n, s.Awaits id n → s.Through id := by
    rintro n (⟨-, block, -, hcomes⟩ | ⟨-, hthrough⟩)
    · rw [hstarted] at hcomes
      exact hcomes.elim
    · exact hthrough
  by_cases hcur : s.phase.cpu = some id
  · cases hphase : s.phase with
    | head => rw [hphase] at hcur; cases hcur
    | idStored i =>
      rw [hphase] at hcur hat
      cases hcur
      cases hstarted.symm.trans hat.2.1
    | stackStored i =>
      rw [hphase] at hcur hat
      cases hcur
      cases hstarted.symm.trans hat.2.1
    | counted i count =>
      rw [hphase] at hcur hat
      cases hcur
      cases hstarted.symm.trans hat.2.2.1
    | initSent i count =>
      rw [hphase] at hcur hat
      cases hcur
      cases hstarted.symm.trans hat.2.2.1
    | sipiSent i count =>
      rw [hphase] at hcur hat
      cases hcur
      exact hawaits _ hat.2
    | waits i count timeout =>
      rw [hphase] at hcur hat
      cases hcur
      exact hawaits _ hat.2
  · rcases h.others id hcur with hoff | ⟨-, hthrough⟩
    · cases hstarted.symm.trans hoff
    · exact hthrough

/-- A CPU that runs the kernel has its id and its stack. -/
theorem SmpInv.runs (h : SmpInv bspId cpuIds past s) {apicId : BitVec 8} {rsp : BitVec 64}
    (hruns : (s.aps id).Runs rsp apicId) :
    apicId = id ∧ ∃ block, (id, block) ∈ s.blocks ∧ rsp = stackTop block := by
  rcases hruns with hentered | hstarted
  · obtain ⟨-, -, ⟨block, hserves, hcomes⟩, -⟩ := h.awaits id (by rw [hentered]; exact nofun)
      (by rw [hentered]; exact nofun) (by rw [hentered]; exact nofun)
    rw [hentered] at hcomes
    exact ⟨hcomes.2, block, hserves.2.2, hcomes.1⟩
  · obtain ⟨block, hmem, hown⟩ := h.started hstarted
    obtain ⟨hrsp, hid⟩ := ApPhase.started.inj (hstarted.symm.trans hown)
    exact ⟨hid, block, hmem, hrsp⟩

/-- **Each CPU comes to `ap_main` with its own id, on a stack of its own**, whenever it reads what is in the
trampoline, as long as the boot CPU does not give up. At the end of the loop all of them have counted
themselves. -/
theorem smpRun_private {mailbox : Mailbox} {ls : List SmpLabel} (hids : cpuIds.Nodup)
    (h : Run (Restrict InTime (SmpStep bspId)) (SmpBoot.start cpuIds mailbox) ls s) :
    (∀ i rsp apicId, (s.aps i).Runs rsp apicId →
      apicId = i ∧ ∃ block, (i, block) ∈ s.blocks ∧ rsp = stackTop block) ∧
    s.blocks.Pairwise ApartBlocks ∧
    (s.phase = .head → s.todo = [] →
      (∀ i ∈ cpuIds, i ≠ bspId → ∃ rsp, s.aps i = .started rsp i) ∧
        s.apStartedCount = (cpuIds.filter (· ≠ bspId)).length) := by
  have hinv : ∃ past, SmpInv bspId cpuIds past s := by
    refine h.invariant (I := fun s => ∃ past, SmpInv bspId cpuIds past s) ?_ ⟨[], ?_⟩
    · rintro s l t ⟨past, hs⟩ ⟨htime, hstep⟩
      exact hs.step hids htime hstep
    · exact ⟨rfl, nofun, rfl, nofun, fun _ _ => Or.inl rfl, List.Pairwise.nil⟩
  obtain ⟨past, hs⟩ := hinv
  refine ⟨fun i rsp apicId hruns => hs.runs hruns, hs.apart, fun hphase htodo => ?_⟩
  have horder := hs.order
  have hat := hs.atCpu
  rw [hphase] at hat
  rw [hphase, htodo] at horder
  simp only [SmpPhase.cpu, Option.toList_none, List.append_nil] at horder
  subst horder
  refine ⟨fun i hi hne => ?_, hat⟩
  obtain ⟨block, -, hstarted⟩ := hs.through i hi hne
  exact ⟨_, hstarted⟩

end Runs

/-- The boot CPU starts one other; the first `SIPI` does not reach it. -/
theorem smpRun_private_one : ∃ s, Run (Restrict InTime (SmpStep 0)) (SmpBoot.start [0, 7] ⟨0, 0⟩)
    [.skips, .storesId, .storesStack 0x204018, .readsCount, .sendsInit, .sendsSipi false, .sendsAgain true,
      .polls, .readsStack 7, .readsId 7, .counts 7, .leaves] s ∧
    (∃ rsp, s.aps 7 = .started rsp 7) ∧ s.apStartedCount = 1 := by
  have hrun : ∃ s, Run (Restrict InTime (SmpStep 0)) (SmpBoot.start [0, 7] ⟨0, 0⟩)
      [.skips, .storesId, .storesStack 0x204018, .readsCount, .sendsInit, .sendsSipi false, .sendsAgain true,
        .polls, .readsStack 7, .readsId 7, .counts 7, .leaves] s ∧ s.phase = .head ∧ s.todo = [] :=
    ⟨_, Run.cons ⟨trivial, .skips rfl rfl⟩ <| Run.cons ⟨trivial, .storesId rfl rfl (by decide)⟩ <|
      Run.cons ⟨Nat.succ_ne_zero _, .storesStack rfl fun _ => ⟨by decide, nofun⟩⟩ <|
      Run.cons ⟨trivial, .readsCount rfl⟩ <| Run.cons ⟨trivial, .sendsInit rfl⟩ <|
      Run.cons ⟨trivial, .sendsSipi false rfl⟩ <| Run.cons ⟨trivial, .sendsAgain true rfl rfl⟩ <|
      Run.cons ⟨trivial, .polls rfl rfl⟩ <| Run.cons ⟨trivial, .readsStack rfl⟩ <|
      Run.cons ⟨trivial, .readsId rfl⟩ <| Run.cons ⟨trivial, .counts rfl⟩ <|
      Run.single ⟨trivial, .leaves rfl (by decide)⟩, rfl, rfl⟩
  obtain ⟨s, hrun, hphase, htodo⟩ := hrun
  obtain ⟨-, -, hend⟩ := smpRun_private (by decide) hrun
  obtain ⟨hstarted, hcount⟩ := hend hphase htodo
  exact ⟨s, hrun, hstarted 7 (by decide) (by decide), hcount⟩

/-! ## The stacks in the heap -/

/-- `smp_init`, and the heap. -/
structure SmpHeap where
  boot : SmpBoot
  heap : Heap

/-- The steps of both: the stacks are what `kmalloc` returns, and of the calls and stores of others none frees
a stack. -/
inductive SmpHeapStep (bspId : BitVec 8) : SmpHeap → SmpLabel ⊕ HeapOp → SmpHeap → Prop
  | stack {s : SmpHeap} {id : BitVec 8} {block : Nat} {heap : Heap} : s.boot.phase = .idStored id →
      HeapStep s.heap (.malloc (BitVec.ofNat 64 apStackSize) block) heap →
      SmpHeapStep bspId s (.inl (.storesStack block))
        ⟨{ s.boot with
            phase := .stackStored id, blocks := (id, block) :: s.boot.blocks
            mailbox := { s.boot.mailbox with stack := BitVec.ofNat 64 (block + apStackSize) } }, heap⟩
  | boot {s : SmpHeap} {l : SmpLabel} {boot : SmpBoot} : (∀ block, l ≠ .storesStack block) →
      SmpStep bspId s.boot l boot → SmpHeapStep bspId s (.inl l) ⟨boot, s.heap⟩
  | other {s : SmpHeap} {op : HeapOp} {heap : Heap} : (∀ e ∈ s.boot.blocks, op ≠ .free e.2) →
      HeapStep s.heap op heap → SmpHeapStep bspId s (.inr op) ⟨s.boot, heap⟩

/-- `InTime` of the steps of `smp_init`. -/
def HeapInTime (s : SmpHeap) : SmpLabel ⊕ HeapOp → Prop
  | .inl l => InTime s.boot l
  | .inr _ => True

/-- The stacks are live blocks of the heap, with the room they were asked for. -/
structure SmpHeap.Backed (s : SmpHeap) : Prop where
  sound : HeapSound s.heap
  blocks : ∀ e ∈ s.boot.blocks, e.2 ∈ s.heap.live ∧ apStackSize ≤ s.heap.payloadSize e.2

section SmpHeap

variable {bspId : BitVec 8} {s t : SmpHeap}

/-- **A block `kmalloc` gives is apart** from the live blocks that are large enough for a stack. -/
theorem HeapSound.malloc_apart {heap heap' : Heap} (h : HeapSound heap) {block : Nat}
    (hstep : HeapStep heap (.malloc (BitVec.ofNat 64 apStackSize) block) heap') (hne : block ≠ 0) :
    block ∈ heap'.live ∧ apStackSize ≤ heap'.payloadSize block ∧ block + apStackSize < 2 ^ 64 ∧
      ∀ p ∈ heap.live, apStackSize ≤ heap.payloadSize p →
        p + apStackSize ≤ block ∨ block + apStackSize ≤ p := by
  have hkeeps : ∀ p ∈ heap.live, heap'.payloadSize p = heap.payloadSize p := fun p hp =>
    (h.1.keeps hstep hp nofun).2
  have hsound := (h.step hstep).1
  cases hstep with
  | malloc hcall =>
    have hsize : alignSize (BitVec.ofNat 64 apStackSize) = apStackSize := by decide
    obtain ⟨hroom, hend⟩ := h.malloc_room hcall hne
    rw [hsize] at hroom
    rw [if_neg hne] at hsound hkeeps ⊢
    obtain ⟨l, hlayout, -⟩ := hsound.layout
    refine ⟨List.mem_cons_self, hroom, ?_, fun p hp hlarge => ?_⟩
    · simp only [heapStart, heapSize] at hend
      omega
    · have hapart := (List.pairwise_cons.mp hlayout.disjoint).1 p hp
      rw [hkeeps p hp] at hapart
      omega

/-- **A step of both** is one of `smp_init`, or leaves it as it is; and the stacks stay. -/
theorem SmpHeap.Backed.step {l : SmpLabel ⊕ HeapOp} (h : s.Backed) (htime : HeapInTime s l)
    (hstep : SmpHeapStep bspId s l t) : t.Backed ∧
      ((∃ l', l = .inl l' ∧ Restrict InTime (SmpStep bspId) s.boot l' t.boot) ∨
        (∃ op, l = .inr op) ∧ t.boot = s.boot) := by
  cases hstep with
  | @stack id block heap hphase hmalloc =>
    have hne : block ≠ 0 := htime
    obtain ⟨hlive, hroom, hlt, hapart⟩ := h.sound.malloc_apart hmalloc hne
    refine ⟨⟨(h.sound.step hmalloc).1, fun e he => ?_⟩, Or.inl ⟨_, rfl, htime, .storesStack hphase ?_⟩⟩
    · rcases List.mem_cons.mp he with rfl | he
      · exact ⟨hlive, hroom⟩
      · obtain ⟨hmem, hlarge⟩ := h.blocks e he
        obtain ⟨hmem', hsize⟩ := h.sound.1.keeps hmalloc hmem nofun
        exact ⟨hmem', hsize ▸ hlarge⟩
    · exact fun _ => ⟨hlt, fun e he => hapart e.2 (h.blocks e he).1 (h.blocks e he).2⟩
  | @boot l boot hl hboot =>
    refine ⟨⟨h.sound, ?_⟩, Or.inl ⟨_, rfl, htime, hboot⟩⟩
    -- no other step has a new block
    have hblocks : boot.blocks = s.boot.blocks := by
      cases hboot with
      | storesStack => exact absurd rfl (hl _)
      | _ => rfl
    rw [hblocks]
    exact h.blocks
  | @other op heap hfree hop =>
    refine ⟨⟨(h.sound.step hop).1, fun e he => ?_⟩, Or.inr ⟨⟨op, rfl⟩, rfl⟩⟩
    obtain ⟨hmem, hlarge⟩ := h.blocks e he
    obtain ⟨hmem', hsize⟩ := h.sound.1.keeps hop hmem (hfree e he)
    exact ⟨hmem', hsize ▸ hlarge⟩

/-- **With the heap `smp_init` takes the same steps.** In every interleaving with other calls of the heap,
what `kmalloc` returns is a block `SmpStep` allows, so that `smpRun_private` holds of it; and each stack is a
live block with its room, as nobody frees it. -/
theorem smpHeapRun_refines {cpuIds : List (BitVec 8)} {mailbox : Mailbox} {heap : Heap}
    {ls : List (SmpLabel ⊕ HeapOp)} (hheap : HeapSound heap)
    (h : Run (Restrict HeapInTime (SmpHeapStep bspId)) ⟨SmpBoot.start cpuIds mailbox, heap⟩ ls s) :
    Run (Restrict InTime (SmpStep bspId)) (SmpBoot.start cpuIds mailbox) (ls.filterMap Sum.getLeft?)
        s.boot ∧ s.Backed := by
  induction h with
  | nil => exact ⟨Run.nil _, hheap, fun e he => absurd he List.not_mem_nil⟩
  | @snoc t u ls l hprev hstep ih =>
    obtain ⟨hrun, hbacked⟩ := ih
    obtain ⟨hbacked', ⟨l', rfl, hboot⟩ | ⟨⟨op, rfl⟩, heq⟩⟩ := hbacked.step hstep.1 hstep.2
    · rw [List.filterMap_append]
      exact ⟨hrun.snoc hboot, hbacked'⟩
    · rw [List.filterMap_append, heq]
      exact ⟨(List.append_nil _).symm ▸ hrun, hbacked'⟩

end SmpHeap

end ZohoOs
