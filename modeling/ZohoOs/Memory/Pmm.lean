import Mathlib.Data.List.Basic
import Mathlib.Logic.Function.Basic
import ZohoOs.Lib.Indices

/-!
# The physical memory manager

The frame allocator of `pmm.c`: a bitmap with one bit for each 4 KiB frame below 4 GiB, a
stack of the addresses of free frames, and a reference count for each frame. Addresses are
natural numbers, with `0` the null pointer. The spinlock makes each function one step.

`pmmInit` reads the Multiboot2 block. Its tags are taken decoded, up to the end tag; a loop
over addresses that would wrap around the 64-bit space, or a bit set past the end of the
bitmap, leaves no defined state, and `pmmInit` returns `none`.

## Main definitions

* `Pmm`: the allocator's state
* `pmmInit`, `pmmAllocFrame`, `pmmFreeFrame`, `pmmRefInc`: the operations
* `freeAtBoot`: the frames a memory map leaves to the allocator

## Main results

* `pmmInit_spec`: the free stack `pmmInit` builds holds those frames, highest on top
-/

namespace ZohoOs

/-- `PAGE_SIZE`. -/
abbrev pageSize : Nat := 4096

/-- `MAX_FRAMES`: the frames below 4 GiB. -/
abbrev maxFrames : Nat := 1024 * 1024

/-! ## The bitmap -/

def bitmapSet (bitmap : Nat → BitVec 32) (frame : Nat) : Nat → BitVec 32 :=
  Function.update bitmap (frame / 32) (bitmap (frame / 32) ||| 1#32 <<< (frame % 32))

def bitmapUnset (bitmap : Nat → BitVec 32) (frame : Nat) : Nat → BitVec 32 :=
  Function.update bitmap (frame / 32) (bitmap (frame / 32) &&& ~~~(1#32 <<< (frame % 32)))

def bitmapTest (bitmap : Nat → BitVec 32) (frame : Nat) : Bool :=
  bitmap (frame / 32) &&& 1#32 <<< (frame % 32) != 0#32

theorem bitmapTest_eq (bitmap : Nat → BitVec 32) (frame : Nat) :
    bitmapTest bitmap frame = (bitmap (frame / 32)).getLsbD (frame % 32) := by
  have hlt : frame % 32 < 32 := Nat.mod_lt _ (by decide)
  have hne : BitVec.twoPow 32 (frame % 32) ≠ 0#32 := fun h => by
    have := congrArg (·.getLsbD (frame % 32)) h
    simp [hlt] at this
  rw [bitmapTest, ← BitVec.twoPow_eq, BitVec.and_twoPow]
  split <;> simp_all

@[simp] theorem bitmapTest_set (bitmap : Nat → BitVec 32) (f g : Nat) :
    bitmapTest (bitmapSet bitmap f) g = (decide (g = f) || bitmapTest bitmap g) := by
  have hf : f % 32 < 32 := Nat.mod_lt _ (by decide)
  have hg : g % 32 < 32 := Nat.mod_lt _ (by decide)
  rw [bitmapTest_eq, bitmapTest_eq, bitmapSet, Function.update_apply]
  split
  · next h =>
    have hiff : g % 32 = f % 32 ↔ g = f := by omega
    rw [← BitVec.twoPow_eq]
    simp [h, hg, ← hiff, Bool.or_comm, eq_comm]
  · next h =>
    have hne : g ≠ f := fun e => h (by rw [e])
    simp [hne]

@[simp] theorem bitmapTest_unset (bitmap : Nat → BitVec 32) (f g : Nat) :
    bitmapTest (bitmapUnset bitmap f) g = (!decide (g = f) && bitmapTest bitmap g) := by
  have hf : f % 32 < 32 := Nat.mod_lt _ (by decide)
  have hg : g % 32 < 32 := Nat.mod_lt _ (by decide)
  rw [bitmapTest_eq, bitmapTest_eq, bitmapUnset, Function.update_apply]
  split
  · next h =>
    have hiff : g % 32 = f % 32 ↔ g = f := by omega
    rw [← BitVec.twoPow_eq]
    simp [h, hg, ← hiff, Bool.and_comm, eq_comm]
  · next h =>
    have hne : g ≠ f := fun e => h (by rw [e])
    simp [hne]

/-! ## Initialisation from the Multiboot2 block -/

/-- One entry of the firmware's memory map. -/
structure MmapEntry where
  addr : Nat
  len : Nat
  type : Nat

/-- A tag of the Multiboot2 block: a memory map, or one `pmm_init` skips. -/
inductive MultibootTag
  | mmap (entries : List MmapEntry)
  | other (type : Nat)

def MultibootTag.entries : MultibootTag → List MmapEntry
  | .mmap entries => entries
  | .other _ => []

/-- The Multiboot2 block at `address`, with its tags up to the end tag. -/
structure MultibootInfo where
  address : Nat
  totalSize : Nat
  tags : List MultibootTag

structure Pmm where
  frameBitmap : Nat → BitVec 32
  /-- `free_stack[0 .. stack_ptr]`, top first. -/
  freeStack : List Nat
  refCounts : Nat → Nat
  totalFrames : Nat

/-- `stack_ptr`. -/
def Pmm.stackPtr (s : Pmm) : Int := s.freeStack.length - 1

/-- `for (addr = ..; addr < stop; addr += PAGE_SIZE)` in 64-bit arithmetic. An `addr` that wraps
is below `stop` again, and the loop never ends. -/
def pageLoop {σ : Type} (body : Nat → σ → Option σ) (stop addr : Nat) (s : σ) : Option σ :=
  if addr < stop then
    match body addr s with
    | none => none
    | some s => if addr + pageSize < 2 ^ 64 then pageLoop body stop (addr + pageSize) s else none
  else some s
termination_by stop - addr
decreasing_by simp only [pageSize]; omega

/-- The body of the loop over an available region, on the bitmap and `max_addr`. -/
def markFrame (addr : Nat) : (Nat → BitVec 32) × Nat → Option ((Nat → BitVec 32) × Nat)
  | (bitmap, maxAddr) =>
    if addr / pageSize < maxFrames then
      some (bitmapUnset bitmap (addr / pageSize),
        if addr + pageSize > maxAddr then addr + pageSize else maxAddr)
    else some (bitmap, maxAddr)

def markEntry (s : (Nat → BitVec 32) × Nat) (entry : MmapEntry) :
    Option ((Nat → BitVec 32) × Nat) :=
  if entry.type = 1 then
    pageLoop markFrame ((entry.addr + entry.len) % 2 ^ 64) entry.addr s
  else some s

def markTag (s : (Nat → BitVec 32) × Nat) (tag : MultibootTag) :
    Option ((Nat → BitVec 32) × Nat) :=
  tag.entries.foldlM markEntry s

/-- The body of the reserving loops. A frame past the end of the bitmap is written outside it. -/
def reserveFrame (addr : Nat) (bitmap : Nat → BitVec 32) : Option (Nat → BitVec 32) :=
  if addr / pageSize < maxFrames then some (bitmapSet bitmap (addr / pageSize)) else none

/-- The body of the loop that builds the free stack. -/
def pushFree (s : Pmm) (f : Nat) : Pmm :=
  if !bitmapTest s.frameBitmap f then
    { s with freeStack := f * pageSize :: s.freeStack, totalFrames := s.totalFrames + 1 }
  else s

/-- `pmm_init`, from the zeroed statics, with the kernel image ending at `kernelEnd`. -/
def pmmInit (mbInfo : MultibootInfo) (kernelEnd : Nat) : Option Pmm := do
  let (bitmap, maxAddr) ← mbInfo.tags.foldlM markTag (fun _ => 0xFFFFFFFF#32, 0)
  let mbiEnd := (mbInfo.address + mbInfo.totalSize) % 2 ^ 64
  let bitmap ← pageLoop reserveFrame kernelEnd 0 bitmap
  let bitmap ← pageLoop reserveFrame mbiEnd mbInfo.address bitmap
  let maxFrame := if maxAddr / pageSize > maxFrames then maxFrames else maxAddr / pageSize
  return (List.range maxFrame).foldl pushFree
    { frameBitmap := bitmap, freeStack := [], refCounts := fun _ => 0, totalFrames := 0 }

/-! ## The operations -/

/-- `pmm_alloc_frame`: the address of the frame, or `0` when the stack is empty. -/
def pmmAllocFrame (s : Pmm) : Nat × Pmm :=
  match s.freeStack with
  | [] => (0, s)
  | addr :: rest =>
    (addr, { s with
      freeStack := rest
      frameBitmap := bitmapSet s.frameBitmap (addr / pageSize)
      refCounts := Function.update s.refCounts (addr / pageSize) 1 })

/-- `pmm_free_frame`. -/
def pmmFreeFrame (s : Pmm) (frame : Nat) : Pmm :=
  let f := frame / pageSize
  if f ≥ maxFrames then s
  else if s.refCounts f > 0 then
    let s := { s with refCounts := Function.update s.refCounts f (s.refCounts f - 1) }
    if s.refCounts f = 0 then
      if bitmapTest s.frameBitmap f then
        { s with frameBitmap := bitmapUnset s.frameBitmap f, freeStack := frame :: s.freeStack }
      else s
    else s
  else s

/-- `pmm_ref_inc`, on 32-bit counts. -/
def pmmRefInc (s : Pmm) (frame : Nat) : Pmm :=
  let f := frame / pageSize
  if f < maxFrames then
    { s with refCounts := Function.update s.refCounts f ((s.refCounts f + 1) % 2 ^ 32) }
  else s

/-- `pmm_get_ref`. -/
def pmmGetRef (s : Pmm) (frame : Nat) : Nat :=
  let f := frame / pageSize
  if f < maxFrames then s.refCounts f else 0

/-- `pmm_get_free_count`. -/
def pmmGetFreeCount (s : Pmm) : Nat := (s.stackPtr + 1).toNat

/-- `pmm_get_total_frames`. -/
def pmmGetTotalFrames (s : Pmm) : Nat := s.totalFrames

@[simp] theorem pmmGetFreeCount_eq (s : Pmm) : pmmGetFreeCount s = s.freeStack.length := by
  simp [pmmGetFreeCount, Pmm.stackPtr]

/-! ## The frames a memory map leaves to the allocator -/

/-- The loop from `start` below `stop` visits an address of frame `f`. -/
def visits (start stop f : Nat) : Bool :=
  decide (start ≤ f * pageSize + start % pageSize ∧ f * pageSize + start % pageSize < stop)

def MmapEntry.covers (entry : MmapEntry) (f : Nat) : Bool :=
  entry.type == 1 && visits entry.addr ((entry.addr + entry.len) % 2 ^ 64) f

def MultibootTag.covers (tag : MultibootTag) (f : Nat) : Bool :=
  tag.entries.any fun entry => entry.covers f

def MultibootInfo.covers (mbInfo : MultibootInfo) (f : Nat) : Bool :=
  mbInfo.tags.any fun tag => tag.covers f

/-- The frames below 4 GiB that an available region covers and neither the kernel image nor
the Multiboot2 block reserves. -/
def freeAtBoot (mbInfo : MultibootInfo) (kernelEnd f : Nat) : Bool :=
  decide (f < maxFrames) && mbInfo.covers f && !visits 0 kernelEnd f &&
    !visits mbInfo.address ((mbInfo.address + mbInfo.totalSize) % 2 ^ 64) f

/-- A loop over addresses visits the frame of its first address, and those of the rest. -/
theorem visits_step {start stop : Nat} (h : start < stop) (f : Nat) :
    visits start stop f = (decide (f = start / pageSize) || visits (start + pageSize) stop f) := by
  rw [Bool.eq_iff_iff]
  simp only [visits, pageSize, Bool.or_eq_true, decide_eq_true_eq]
  omega

theorem visits_done {start stop : Nat} (h : ¬ start < stop) (f : Nat) :
    visits start stop f = false := by
  simp only [visits, decide_eq_false_iff_not]
  omega

theorem pageLoop_reserve {stop addr : Nat} {bitmap bitmap' : Nat → BitVec 32}
    (h : pageLoop reserveFrame stop addr bitmap = some bitmap') (f : Nat) :
    bitmapTest bitmap' f = (visits addr stop f || bitmapTest bitmap f) := by
  fun_induction pageLoop reserveFrame stop addr bitmap with
  | case1 => simp at h
  | case2 addr bitmap hlt bitmap₁ hbody _ ih =>
    rw [ih h, visits_step hlt]
    simp only [reserveFrame] at hbody
    split at hbody <;> simp at hbody
    simp [← hbody, Bool.or_left_comm, Bool.or_assoc]
  | case3 => simp at h
  | case4 addr bitmap hlt =>
    simp only [Option.some.injEq] at h
    simp [← h, visits_done hlt]

/-- What marking a set of frames as available does: the bits of those below 4 GiB are cleared,
and `max_addr` ends above each of them. -/
structure Marked (covered : Nat → Bool) (s s' : (Nat → BitVec 32) × Nat) : Prop where
  test : ∀ f, bitmapTest s'.1 f = (!(decide (f < maxFrames) && covered f) && bitmapTest s.1 f)
  le : s.2 ≤ s'.2
  above : ∀ f < maxFrames, covered f → (f + 1) * pageSize ≤ s'.2

theorem Marked.refl (s : (Nat → BitVec 32) × Nat) : Marked (fun _ => false) s s :=
  ⟨fun f => by simp, Nat.le_refl _, fun f _ hf => by simp at hf⟩

theorem Marked.trans {c₁ c₂ : Nat → Bool} {s₁ s₂ s₃ : (Nat → BitVec 32) × Nat}
    (h₁ : Marked c₁ s₁ s₂) (h₂ : Marked c₂ s₂ s₃) : Marked (fun f => c₁ f || c₂ f) s₁ s₃ := by
  refine ⟨fun f => ?_, Nat.le_trans h₁.le h₂.le, fun f hf hc => ?_⟩
  · rw [h₂.test, h₁.test]
    cases c₁ f <;> cases c₂ f <;> cases decide (f < maxFrames) <;> simp
  · rcases Bool.or_eq_true _ _ ▸ hc with hc | hc
    · exact Nat.le_trans (h₁.above f hf hc) h₂.le
    · exact h₂.above f hf hc

theorem Marked.congr {c₁ c₂ : Nat → Bool} {s s' : (Nat → BitVec 32) × Nat}
    (h : Marked c₁ s s') (hc : ∀ f, c₁ f = c₂ f) : Marked c₂ s s' := by
  rwa [show c₂ = c₁ from funext fun f => (hc f).symm]

theorem Marked.foldlM {α : Type} {body : (Nat → BitVec 32) × Nat → α → Option _}
    (covered : α → Nat → Bool)
    (hbody : ∀ a s s', body s a = some s' → Marked (covered a) s s') :
    ∀ (l : List α) {s s'}, l.foldlM body s = some s' →
      Marked (fun f => l.any fun a => covered a f) s s' := by
  intro l
  induction l with
  | nil =>
    intro s s' h
    obtain rfl : s = s' := by simpa using h
    exact (Marked.refl s).congr fun f => by simp
  | cons a l ih =>
    intro s s' h
    rw [List.foldlM_cons, Option.bind_eq_bind, Option.bind_eq_some_iff] at h
    obtain ⟨s₁, h₁, h₂⟩ := h
    exact ((hbody a s s₁ h₁).trans (ih h₂)).congr fun f => by simp

theorem marked_markFrame {addr : Nat} {s s' : (Nat → BitVec 32) × Nat}
    (h : markFrame addr s = some s') : Marked (fun f => decide (f = addr / pageSize)) s s' := by
  obtain ⟨bitmap, maxAddr⟩ := s
  have hmod := Nat.div_add_mod addr pageSize
  simp only [markFrame] at h
  split at h <;> simp only [Option.some.injEq] at h <;> subst h
  · next hf =>
    refine ⟨fun f => ?_, ?_, fun f _ hf => ?_⟩
    · by_cases he : f = addr / pageSize <;> simp [he, hf]
    · dsimp only
      split <;> omega
    · obtain rfl := of_decide_eq_true hf
      dsimp only
      simp only [pageSize] at hmod ⊢
      split <;> omega
  · next hf =>
    refine ⟨fun f => ?_, Nat.le_refl _, fun f hfm hf' => ?_⟩
    · by_cases he : f = addr / pageSize <;> simp [he, hf]
    · exact absurd (of_decide_eq_true hf' ▸ hfm) hf

theorem marked_pageLoop {stop addr : Nat} {s s' : (Nat → BitVec 32) × Nat}
    (h : pageLoop markFrame stop addr s = some s') : Marked (visits addr stop) s s' := by
  fun_induction pageLoop markFrame stop addr s with
  | case1 => simp at h
  | case2 addr s hlt s₁ hbody _ ih =>
    exact ((marked_markFrame hbody).trans (ih h)).congr fun f => (visits_step hlt f).symm
  | case3 => simp at h
  | case4 addr s hlt =>
    obtain rfl : s = s' := by simpa using h
    exact (Marked.refl s).congr fun f => (visits_done hlt f).symm

theorem marked_markEntry {entry : MmapEntry} {s s' : (Nat → BitVec 32) × Nat}
    (h : markEntry s entry = some s') : Marked entry.covers s s' := by
  unfold markEntry at h
  split at h
  · next ht => exact (marked_pageLoop h).congr fun f => by simp [MmapEntry.covers, ht]
  · next ht =>
    obtain rfl : s = s' := by simpa using h
    exact (Marked.refl s).congr fun f => by simp [MmapEntry.covers, ht]

theorem marked_tags {mbInfo : MultibootInfo} {s s' : (Nat → BitVec 32) × Nat}
    (h : mbInfo.tags.foldlM markTag s = some s') : Marked mbInfo.covers s s' :=
  Marked.foldlM MultibootTag.covers
    (fun tag _ _ ht => Marked.foldlM MmapEntry.covers (fun _ _ _ => marked_markEntry)
      tag.entries ht)
    mbInfo.tags h

theorem foldl_pushFree (l : List Nat) (s : Pmm) :
    l.foldl pushFree s =
      { s with
        freeStack := ((l.filter fun f => !bitmapTest s.frameBitmap f).reverse.map (· * pageSize))
          ++ s.freeStack
        totalFrames := s.totalFrames + (l.filter fun f => !bitmapTest s.frameBitmap f).length } := by
  induction l generalizing s with
  | nil => simp
  | cons f l ih =>
    rw [List.foldl_cons, ih, pushFree]
    split
    · next hf => simp [hf]; omega
    · next hf => simp [hf]

theorem filter_range_of_le {p : Nat → Bool} {m n : Nat} (hmn : m ≤ n)
    (hp : ∀ f < n, p f → f < m) : (List.range n).filter p = (List.range m).filter p := by
  obtain ⟨d, rfl⟩ := Nat.exists_eq_add_of_le hmn
  have hnil : ((List.range d).map (m + ·)).filter p = [] := by
    refine List.filter_eq_nil_iff.mpr fun f hf hpf => ?_
    obtain ⟨i, hi, rfl⟩ := List.mem_map.mp hf
    have := hp (m + i) (by have := List.mem_range.mp hi; omega) hpf
    omega
  rw [List.range_add, List.filter_append, hnil, List.append_nil]

/-- **The state `pmmInit` builds**: the free stack holds the frames the memory map leaves, once
each and the highest on top; exactly their bits are clear; no frame is referenced. -/
theorem pmmInit_spec {mbInfo : MultibootInfo} {kernelEnd : Nat} {s : Pmm}
    (h : pmmInit mbInfo kernelEnd = some s) :
    s.freeStack =
      ((List.range maxFrames).filter (freeAtBoot mbInfo kernelEnd)).reverse.map (· * pageSize) ∧
    (∀ f, bitmapTest s.frameBitmap f = !freeAtBoot mbInfo kernelEnd f) ∧
    s.refCounts = (fun _ => 0) ∧ s.totalFrames = s.freeStack.length := by
  unfold pmmInit at h
  simp only [Option.bind_eq_bind, Option.bind_eq_some_iff] at h
  -- the bitmap after the tags, after the kernel, and after the boot information
  obtain ⟨⟨bitmap₀, maxAddr⟩, h₀, bitmap₁, h₁, bitmap₂, h₂, hs⟩ := h
  have hmark := marked_tags h₀
  have htest : ∀ f, bitmapTest bitmap₂ f = !freeAtBoot mbInfo kernelEnd f := by
    intro f
    have hinit : bitmapTest (fun _ => 0xFFFFFFFF#32) f = true := by
      rw [bitmapTest_eq]
      exact BitVec.getLsbD_allOnes ▸ by simp [Nat.mod_lt]
    have hm := hmark.test f
    simp only [hinit, Bool.and_true] at hm
    rw [pageLoop_reserve h₂, pageLoop_reserve h₁, hm, freeAtBoot]
    generalize visits 0 kernelEnd f = a
    generalize visits mbInfo.address _ f = b
    cases a <;> cases b <;> simp
  -- no free frame is above the highest address of the tags
  have hcut : ∀ f < maxFrames, freeAtBoot mbInfo kernelEnd f → f < maxAddr / pageSize := by
    intro f hf hfree
    have hcov : mbInfo.covers f = true := by
      simp only [freeAtBoot, Bool.and_eq_true] at hfree
      exact hfree.1.1.2
    have := hmark.above f hf hcov
    exact (Nat.le_div_iff_mul_le (by decide)).mpr this
  rw [foldl_pushFree] at hs
  simp only [Pure.pure, Option.some.injEq, htest, Bool.not_not, List.append_nil] at hs
  -- the loop over the frames ends at that address, and nothing free is behind it
  have hrange : (List.range (if maxAddr / pageSize > maxFrames then maxFrames
      else maxAddr / pageSize)).filter (freeAtBoot mbInfo kernelEnd) =
      (List.range maxFrames).filter (freeAtBoot mbInfo kernelEnd) := by
    refine (filter_range_of_le (by split <;> omega) fun f hf hfree => ?_).symm
    have := hcut f hf hfree
    split <;> omega
  subst hs
  refine ⟨by rw [← hrange], htest, rfl, ?_⟩
  simp

/-! ## Memory maps that are read to the end -/

/-- A loop over pages ends just if its body does at each address, and no address wraps. -/
theorem pageLoop_isSome_iff {σ : Type} {body : Nat → σ → Option σ} {P : Nat → Prop}
    (hbody : ∀ addr s, (body addr s).isSome ↔ P addr) {stop : Nat} (addr : Nat) (s : σ) :
    (pageLoop body stop addr s).isSome ↔ ∀ x, addr ≤ x → x < stop →
      x % pageSize = addr % pageSize → P x ∧ x + pageSize < 2 ^ 64 := by
  fun_induction pageLoop body stop addr s with
  | case1 addr s hlt hnone =>
    have hP : ¬ P addr := fun hP => by simpa [hnone] using (hbody addr s).mpr hP
    refine iff_of_false (by simp) fun hall => hP ?_
    exact (hall addr (Nat.le_refl _) hlt rfl).1
  | case2 addr s hlt s' hsome hwrap ih =>
    have hP : P addr := (hbody addr s).mp (by rw [hsome]; rfl)
    rw [ih]
    constructor
    · intro hall x hle hx hmod
      -- the first address, or one of the rest
      by_cases heq : x = addr
      · subst heq
        exact ⟨hP, hwrap⟩
      · refine hall x ?_ hx ?_ <;> simp only [pageSize] at hmod ⊢ <;> omega
    · intro hall x hle hx hmod
      refine hall x ?_ hx ?_ <;> simp only [pageSize] at hle hmod ⊢ <;> omega
  | case3 addr s hlt s' hsome hwrap =>
    refine iff_of_false (by simp) fun hall => hwrap ?_
    exact (hall addr (Nat.le_refl _) hlt rfl).2
  | case4 addr s hlt =>
    refine iff_of_true rfl fun x hle hx => ?_
    omega

theorem foldlM_isSome_iff {σ α : Type} {body : σ → α → Option σ} {P : α → Prop}
    (hbody : ∀ s a, (body s a).isSome ↔ P a) (l : List α) (s : σ) :
    (l.foldlM body s).isSome ↔ ∀ a ∈ l, P a := by
  induction l generalizing s with
  | nil => simp
  | cons a l ih =>
    rw [List.foldlM_cons, List.forall_mem_cons]
    cases hs : body s a with
    | none =>
      have hP : ¬ P a := fun hP => by simpa [hs] using (hbody s a).mpr hP
      exact iff_of_false (by simp) fun hall => hP hall.1
    | some s' =>
      have hP : P a := (hbody s a).mp (by rw [hs]; rfl)
      exact (ih s').trans ⟨fun hl => ⟨hP, hl⟩, fun hl => hl.2⟩

/-- The loop over a region ends: the region is not available, or no address of it wraps. -/
def MmapEntry.Ends (entry : MmapEntry) : Prop :=
  entry.type = 1 → ∀ x, entry.addr ≤ x → x < (entry.addr + entry.len) % 2 ^ 64 →
    x % pageSize = entry.addr % pageSize → x + pageSize < 2 ^ 64

theorem markEntry_isSome_iff (s : (Nat → BitVec 32) × Nat) (entry : MmapEntry) :
    (markEntry s entry).isSome ↔ entry.Ends := by
  rw [markEntry, MmapEntry.Ends]
  split
  next htype =>
    have hbody : ∀ addr s, (markFrame addr s).isSome ↔ True := by
      rintro addr ⟨bitmap, maxAddr⟩
      rw [markFrame]
      split <;> simp
    rw [pageLoop_isSome_iff hbody]
    simp only [htype, true_implies, true_and]
  next htype => simp [htype]

theorem reserveLoop_isSome_iff (stop addr : Nat) (bitmap : Nat → BitVec 32) :
    (pageLoop reserveFrame stop addr bitmap).isSome ↔ ∀ x, addr ≤ x → x < stop →
      x % pageSize = addr % pageSize → x < maxFrames * pageSize := by
  have hbody : ∀ addr bitmap, (reserveFrame addr bitmap).isSome ↔ addr / pageSize < maxFrames := by
    intro addr bitmap
    rw [reserveFrame]
    split
    next h => exact iff_of_true rfl h
    next h => exact iff_of_false Bool.false_ne_true h
  rw [pageLoop_isSome_iff hbody]
  refine forall_congr' fun x => forall_congr' fun _ => forall_congr' fun _ =>
    forall_congr' fun _ => ?_
  simp only [pageSize, maxFrames]
  omega

/-- **`pmm_init` returns** just if the loops over the regions end, and those that reserve the kernel
image and the block stay in the bitmap. -/
theorem pmmInit_isSome_iff (mbInfo : MultibootInfo) (kernelEnd : Nat) :
    (pmmInit mbInfo kernelEnd).isSome ↔
      (∀ tag ∈ mbInfo.tags, ∀ entry ∈ tag.entries, entry.Ends) ∧
      (∀ x < kernelEnd, x % pageSize = 0 → x < maxFrames * pageSize) ∧
      ∀ x, mbInfo.address ≤ x → x < (mbInfo.address + mbInfo.totalSize) % 2 ^ 64 →
        x % pageSize = mbInfo.address % pageSize → x < maxFrames * pageSize := by
  -- the three loops that may not end
  have htags := foldlM_isSome_iff (fun s (tag : MultibootTag) =>
    foldlM_isSome_iff markEntry_isSome_iff tag.entries s) mbInfo.tags (fun _ => 0xFFFFFFFF#32, 0)
  have hkernel := reserveLoop_isSome_iff kernelEnd 0
  have hblock := reserveLoop_isSome_iff
    ((mbInfo.address + mbInfo.totalSize) % 2 ^ 64) mbInfo.address
  simp only [Nat.zero_le, true_implies, Nat.zero_mod] at hkernel
  rw [← htags, pmmInit]
  generalize (mbInfo.address + mbInfo.totalSize) % 2 ^ 64 = mbiEnd at hblock ⊢
  cases hmarked : mbInfo.tags.foldlM (fun s tag => tag.entries.foldlM markEntry s)
      (fun _ => 0xFFFFFFFF#32, 0) with
  | none =>
    refine iff_of_false ?_ (by simp)
    rw [show mbInfo.tags.foldlM markTag _ = none from hmarked]
    simp
  | some marked =>
    obtain ⟨bitmap₀, maxAddr⟩ := marked
    rw [show mbInfo.tags.foldlM markTag _ = some (bitmap₀, maxAddr) from hmarked]
    rw [← hkernel bitmap₀]
    cases hreserved : pageLoop reserveFrame kernelEnd 0 bitmap₀ with
    | none => simp [hreserved]
    | some bitmap₁ =>
      rw [← hblock bitmap₁]
      cases hlast : pageLoop reserveFrame mbiEnd mbInfo.address bitmap₁ with
      | none => simp [hreserved, hlast]
      | some bitmap₂ => simp [hreserved, hlast]

/-- A block and a kernel image below 4 GiB, and a map whose regions stop short of the last page
of the 64-bit space, are read to the end. -/
theorem pmmInit_isSome {mbInfo : MultibootInfo} {kernelEnd : Nat} (hk : kernelEnd ≤ 2 ^ 32)
    (hmb : mbInfo.address + mbInfo.totalSize ≤ 2 ^ 32)
    (hmap : ∀ tag ∈ mbInfo.tags, ∀ entry ∈ tag.entries,
      (entry.addr + entry.len) % 2 ^ 64 + pageSize ≤ 2 ^ 64) :
    (pmmInit mbInfo kernelEnd).isSome := by
  refine (pmmInit_isSome_iff mbInfo kernelEnd).mpr ⟨fun tag ht entry he _ x _ hx _ => ?_,
    fun x hx _ => ?_, fun x _ hx _ => ?_⟩
  · have := hmap tag ht entry he
    omega
  · simp only [pageSize, maxFrames]
    omega
  · simp only [pageSize, maxFrames]
    omega

/-- A machine with 32 KiB of available memory at 1 MiB, its first two frames under the kernel
image and the fourth under the Multiboot2 block. -/
def smallMachine : MultibootInfo where
  address := 0x103000
  totalSize := 0x100
  tags := [.other 1, .mmap [⟨0x100000, 0x8000, 1⟩, ⟨0xF0000, 0x10000, 2⟩]]

theorem pmmInit_smallMachine : ∃ s, pmmInit smallMachine 0x102000 = some s :=
  Option.isSome_iff_exists.mp (pmmInit_isSome (by decide) (by decide) (by decide))

end ZohoOs
