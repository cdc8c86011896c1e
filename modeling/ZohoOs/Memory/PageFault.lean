import ZohoOs.Memory.Spaces
import ZohoOs.Memory.Translation

/-!
# Page faults and user memory

The page-fault handler of `idt.c`, and what a task reads and writes through its address space. A
store to a copy-on-write page faults first. The kernel reaches every frame at its physical address,
and the page of a fault where the current space maps it.

## Main definitions

* `handlePageFault`: the handler
* `Page.byte`, `Page.setByte`: the bytes of a page
* `readByte`, `writeByte`: the accesses of a task
* `CowOp`, `cowStep`: runs of address spaces and accesses, frames never exhausted
-/

namespace ZohoOs

open TransitionSystem

/-! ## The handler -/

/-- How `handle_page_fault` leaves: it resumes the task, ends it, or stops the machine. -/
inductive FaultOutcome
  | resume
  | terminate
  | halt
  deriving DecidableEq

/-- `handle_page_fault`, of a task with the space `pml4`, or of no task. -/
def handlePageFault (s : Vmm) (currentTask : Option Nat) (cr2 errorCode cs : BitVec 64) :
    FaultOutcome × Vmm :=
  match currentTask with
  | none => (.resume, s)
  | some pml4 =>
    let flags := vmmGetFlags s pml4 cr2
    if hasFlag errorCode 2#64 ∧ hasFlag flags pageCow then
      let oldPhys := vmmGetPhys s pml4 cr2 &&& ~~~0xFFF#64
      let newFlags := flags &&& ~~~pageCow ||| pageWritable
      if pmmGetRef s.pmm oldPhys.toNat > 1 then
        let (newFrame, pmm) := pmmAllocFrame s.pmm
        let s := { s with pmm, mem := Function.update s.mem newFrame (s.mem oldPhys.toNat) }
        let s := vmmMap s pml4 (cr2 &&& ~~~0xFFF#64) (BitVec.ofNat 64 newFrame) newFlags
        (.resume, { s with pmm := pmmFreeFrame s.pmm oldPhys.toNat })
      else (.resume, vmmMap s pml4 (cr2 &&& ~~~0xFFF#64) oldPhys newFlags)
    else if cs &&& 3#64 = 3#64 then (.terminate, s)
    else (.halt, s)

/-! ## Bytes -/

/-- The 4096 bytes of a page, as the words they are stored in. -/
abbrev Page := Fin 512 → BitVec 64

/-- The word of a page that holds a byte. -/
def Page.word (off : Nat) : Fin 512 := Fin.ofNat 512 (off / 8)

def Page.byte (page : Page) (off : Nat) : BitVec 8 :=
  (page (Page.word off) >>> (8 * (off % 8))).setWidth 8

def Page.setByte (page : Page) (off : Nat) (b : BitVec 8) : Page :=
  Function.update page (Page.word off)
    (page (Page.word off) &&& ~~~(0xFF#64 <<< (8 * (off % 8))) ||| b.setWidth 64 <<< (8 * (off % 8)))

/-- **A byte that is stored is read back**, and the others are kept. -/
theorem Page.byte_setByte (page : Page) {off off' : Nat} (hoff : off < 4096) (hoff' : off' < 4096)
    (b : BitVec 8) :
    (page.setByte off b).byte off' = if off' = off then b else page.byte off' := by
  -- the two bytes are in one word, or the words are different
  by_cases hword : Page.word off' = Page.word off
  · have hdiv : off' / 8 = off / 8 := by
      have := congrArg Fin.val hword
      simp only [Page.word, Fin.ofNat] at this
      omega
    rw [Page.byte, Page.setByte, hword, Function.update_self, Page.byte, hword]
    refine BitVec.eq_of_getLsbD_eq fun i hi => ?_
    simp only [BitVec.getLsbD_setWidth, BitVec.getLsbD_ushiftRight, BitVec.getLsbD_or,
      BitVec.getLsbD_and, BitVec.getLsbD_not, BitVec.getLsbD_shiftLeft]
    -- the byte that is written: its eight bits are masked and set
    by_cases heq : off' = off
    · subst heq
      have hlt : 8 * (off' % 8) + i < 64 := by omega
      have hge : ¬ 8 * (off' % 8) + i < 8 * (off' % 8) := by omega
      have hsub : 8 * (off' % 8) + i - 8 * (off' % 8) = i := by omega
      have hmask : (0xFF#64).getLsbD i = true := by
        have : i = 0 ∨ i = 1 ∨ i = 2 ∨ i = 3 ∨ i = 4 ∨ i = 5 ∨ i = 6 ∨ i = 7 := by omega
        rcases this with rfl | rfl | rfl | rfl | rfl | rfl | rfl | rfl <;> decide
      rw [if_pos rfl]
      simp [hi, hlt, hmask, hsub, show i < 64 by omega]
    · -- the bits of another byte of the word
      rw [if_neg heq]
      have hlt : 8 * (off' % 8) + i < 64 := by omega
      rcases Nat.lt_or_gt_of_ne heq with hless | hmore
      · simp [hlt, show 8 * (off' % 8) + i < 8 * (off % 8) by omega]
      · have hge : 8 ≤ 8 * (off' % 8) + i - 8 * (off % 8) := by omega
        have hmask : (0xFF#64).getLsbD (8 * (off' % 8) + i - 8 * (off % 8)) = false := by
          rw [BitVec.getLsbD_ofNat]
          simp only [Bool.and_eq_false_imp, decide_eq_true_eq]
          intro _
          exact Nat.testBit_lt_two_pow
            (lt_of_lt_of_le (by decide : 0xFF < 2 ^ 8) (Nat.pow_le_pow_right (by decide) hge))
        have hzero : b.getLsbD (8 * (off' % 8) + i - 8 * (off % 8)) = false :=
          BitVec.getLsbD_of_ge b _ hge
        simp [hlt, hmask, hzero]
  · have hne : off' ≠ off := by
      rintro rfl
      exact hword rfl
    rw [if_neg hne, Page.byte, Page.setByte, Function.update_of_ne hword, Page.byte]

/-! ## Accesses -/

/-- The offset of an address in its page. -/
def pageOffset (virt : BitVec 64) : Nat := (virt &&& 0xFFF#64).toNat

/-- The page an address is translated to. -/
def physPage (s : Vmm) (pml4 : Nat) (virt : BitVec 64) : Nat :=
  (vmmGetPhys s pml4 virt &&& ~~~0xFFF#64).toNat

/-- What a load at a mapped address reads. -/
def readByte (s : Vmm) (pml4 : Nat) (virt : BitVec 64) : Option (BitVec 8) :=
  if hasFlag (vmmGetFlags s pml4 virt) pagePresent then
    some (Page.byte (s.mem (physPage s pml4 virt)) (pageOffset virt))
  else none

/-- A store at a writable address. -/
def storeByte (s : Vmm) (pml4 : Nat) (virt : BitVec 64) (b : BitVec 8) : Vmm :=
  { s with
    mem := Function.update s.mem (physPage s pml4 virt)
      (Page.setByte (s.mem (physPage s pml4 virt)) (pageOffset virt) b) }

/-- A store, after the fault a page that is not writable raises. -/
def writeByte (s : Vmm) (pml4 : Nat) (virt : BitVec 64) (b : BitVec 8) : Vmm :=
  if hasFlag (vmmGetFlags s pml4 virt) pageWritable then storeByte s pml4 virt b
  else storeByte (handlePageFault s (some pml4) virt 0x7#64 0x1B#64).2 pml4 virt b

/-! ## Runs -/

/-- The calls and accesses of a run, each with what it answers: the new space, the contents of the
frame it maps, the byte it reads. -/
inductive CowOp
  | create (space : Nat)
  | map (space : Nat) (virt flags : BitVec 64) (contents : Page)
  | clone (src space : Nat)
  | fault (space : Nat) (virt : BitVec 64)
  | read (space : Nat) (virt : BitVec 64) (b : BitVec 8)
  | write (space : Nat) (virt : BitVec 64) (b : BitVec 8)
  | destroy (space : Nat)

def CowOp.run : CowOp → World → World
  | .create _, w => w.add (vmmCreateAddressSpace w.vmm)
  | .map space virt flags _, w =>
    let (frame, pmm) := pmmAllocFrame w.vmm.pmm
    ⟨vmmMap { w.vmm with pmm } space virt (BitVec.ofNat 64 frame) flags, w.live⟩
  | .clone src _, w => w.add (vmmCloneAddressSpace w.vmm src)
  | .fault space virt, w => ⟨(handlePageFault w.vmm (some space) virt 0x7#64 0x1B#64).2, w.live⟩
  | .read _ _ _, w => w
  | .write space virt b, w => ⟨writeByte w.vmm space virt b, w.live⟩
  | .destroy space, w => ⟨vmmDestroyAddressSpace w.vmm space, w.live.erase space⟩

/-- A frame is free if the fault has to copy the page. -/
def FaultFrames (s : Vmm) (space : Nat) (virt : BitVec 64) : Prop :=
  pmmGetRef s.pmm (physPage s space virt) > 1 → s.pmm.Available 1

/-- The calls of a run: addresses are in slots `1 .. 511`, a frame is mapped where none is, with
flags that leave out `PAGE_COW` and `PAGE_HUGE`, a fault is a write to a copy-on-write page, an
access is to a mapped page, and a store to one that is writable or copy-on-write. -/
def CowOp.Valid (w : World) : CowOp → Prop
  | .create space => w.vmm.pmm.Available 1 ∧ space = (vmmCreateAddressSpace w.vmm).1
  | .map space virt flags contents => space ∈ w.live ∧ pml4Index virt ≠ 0 ∧
      flags &&& ~~~0xFFF#64 = 0#64 ∧ hasFlag flags pageCow = false ∧
      hasFlag flags pageHuge = false ∧
      hasFlag (vmmGetFlags w.vmm space virt) pagePresent = false ∧
      w.vmm.pmm.Available (w.vmm.mapNeeds space (pageNumber virt) + 1) ∧
      contents = w.vmm.mem (pmmAllocFrame w.vmm.pmm).1
  | .clone src space => src ∈ w.live ∧ w.vmm.pmm.Available (w.vmm.cloneNeeds src) ∧
      space = (vmmCloneAddressSpace w.vmm src).1
  | .fault space virt => space ∈ w.live ∧ pml4Index virt ≠ 0 ∧
      hasFlag (vmmGetFlags w.vmm space virt) pageCow = true ∧ FaultFrames w.vmm space virt
  | .read space virt b => space ∈ w.live ∧ pml4Index virt ≠ 0 ∧
      readByte w.vmm space virt = some b
  | .write space virt _ => space ∈ w.live ∧ pml4Index virt ≠ 0 ∧
      hasFlag (vmmGetFlags w.vmm space virt) pagePresent = true ∧
      (hasFlag (vmmGetFlags w.vmm space virt) pageWritable = true ∨
        hasFlag (vmmGetFlags w.vmm space virt) pageCow = true ∧ FaultFrames w.vmm space virt)
  | .destroy space => space ∈ w.live

instance CowOp.decidableValid (w : World) (op : CowOp) : Decidable (op.Valid w) := by
  cases op <;> unfold CowOp.Valid FaultFrames <;> infer_instance

/-- The steps of a run. -/
abbrev cowStep : World → CowOp → World → Prop := Restrict CowOp.Valid (Apply CowOp.run)

end ZohoOs
