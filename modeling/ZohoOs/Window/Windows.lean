import ZohoOs.Memory.Kmalloc
import ZohoOs.Window.DirtyRects

/-!
# Windows

The window list of `window.c`, with the calls that create a window and set it up, the reads of its
buffer that draw its body, and `sys_create_window` of `syscall.c`.

## Main definitions

* `Window`, `WindowManager`: `window_t`, and the state of the window manager
* `windowCreate`, `windowSetOwner`, `windowSetBuffer`
* `bufferReads`: the reads of `draw_window_buffer_clipped`
* `sysCreateWindow`: a window with its buffer and the mapping of it to the user

`vmm_map` is left as the pairs of addresses it is called with.
-/

namespace ZohoOs

/-- `gui_event_t`. -/
structure GuiEvent where
  type : BitVec 32
  x : BitVec 32
  y : BitVec 32
  data : BitVec 32

/-- `window_t`. -/
structure Window where
  id : BitVec 32
  x : BitVec 32
  y : BitVec 32
  w : BitVec 32
  h : BitVec 32
  titleColor : BitVec 32
  bgColor : BitVec 32
  buffer : Nat
  ownerPid : BitVec 64
  dirty : Bool
  destroyed : Bool
  refcount : BitVec 32
  eventQueue : Fin 16 → GuiEvent
  eventHead : BitVec 8
  eventTail : BitVec 8
  next : Nat

/-- `sizeof(window_t)`. -/
abbrev windowSize : Nat := 328

/-- `WINDOW_TITLE_HEIGHT`. -/
abbrev windowTitleHeight : Int := 25

/-- `WINDOW_SHADOW_OFFSET`. -/
abbrev windowShadowOffset : Int := 5

/-- The state of the window manager, with the heap its windows are in and the size of the screen. -/
structure WindowManager where
  heap : Kmalloc
  /-- The window at each address that holds one. -/
  windows : Nat → Window
  windowList : Nat
  nextWindowId : BitVec 32
  dirtyRects : List Rect
  fbWidth : BitVec 32
  fbHeight : BitVec 32

def WindowManager.setWindow (s : WindowManager) (win : Nat) (window : Window) : WindowManager :=
  { s with windows := Function.update s.windows win window }

def WindowManager.queueDirty (s : WindowManager) (rect : Rect) : WindowManager :=
  { s with dirtyRects := queueDirtyRect (screenRect s.fbWidth s.fbHeight) s.dirtyRects rect }

/-- `window_outer_rect`. -/
def windowOuterRect (win : Window) : Rect :=
  ⟨win.x.toInt, win.y.toInt, int32 (win.w.toInt + windowShadowOffset),
    int32 (win.h.toInt + windowShadowOffset)⟩

/-- `window_create`. What `kmalloc` returns is not checked. -/
def windowCreate (s : WindowManager) (x y w h bgColor : BitVec 32) :
    Option (WindowManager × Nat) :=
  (kmalloc s.heap windowSize).map fun (heap, win) =>
    let window : Window :=
      { s.windows win with
        id := s.nextWindowId
        x := x
        y := y
        w := w
        h := h
        bgColor := bgColor
        titleColor := 0xFF555555#32
        buffer := 0
        ownerPid := 0
        dirty := true
        destroyed := false
        refcount := 0
        eventHead := 0
        eventTail := 0
        next := s.windowList }
    let s := { s with
      heap := heap
      windows := Function.update s.windows win window
      windowList := win
      nextWindowId := s.nextWindowId + 1 }
    (s.queueDirty (windowOuterRect window), win)

/-- `window_set_owner`. -/
def windowSetOwner (s : WindowManager) (win : Nat) (ownerPid : BitVec 64) : WindowManager :=
  if win = 0 || (s.windows win).destroyed then s
  else s.setWindow win { s.windows win with ownerPid := ownerPid }

/-- `window_set_buffer`. -/
def windowSetBuffer (s : WindowManager) (win buffer : Nat) : WindowManager :=
  if win = 0 || (s.windows win).destroyed then s
  else
    let window := { s.windows win with buffer := buffer, dirty := true }
    (s.setWindow win window).queueDirty (windowOuterRect window)

/-! ## Drawing the body -/

/-- The rectangle of the body of a window, below its title. -/
def windowBody (win : Window) : Rect :=
  ⟨win.x.toInt, int32 (win.y.toInt + windowTitleHeight), win.w.toInt,
    int32 (win.h.toInt - windowTitleHeight)⟩

/-- A read of the buffer of a window, for a pixel of the screen. -/
structure BufferRead where
  x : Int
  y : Int
  index : BitVec 64

/-- The reads of `draw_window_buffer_clipped`, where the window has a buffer: at
`(uint64_t)(src_y + y) * win->w + (src_x + x)`. -/
def bufferReads (clip : Rect) (win : Window) : List BufferRead :=
  match rectIntersect clip (windowBody win) with
  | none => []
  | some intersection =>
    let srcX := int32 (intersection.x - win.x.toInt)
    let srcY := int32 (intersection.y - int32 (win.y.toInt + windowTitleHeight))
    (List.range intersection.h.toNat).flatMap fun (y : Nat) =>
      (List.range intersection.w.toNat).map fun (x : Nat) =>
        { x := int32 (intersection.x + x)
          y := int32 (intersection.y + y)
          index := BitVec.ofInt 64 (int32 (srcY + y)) * win.w.setWidth 64 +
            BitVec.ofInt 64 (int32 (srcX + x)) }

/-! ## The system call -/

/-- `client_h`, `size` and `num_pages` of `sys_create_window`. -/
def windowPages (w h : BitVec 32) : BitVec 32 :=
  let clientH := h - 25#32
  let size := w * clientH * 4#32
  (size + 4095#32) / 4096#32

/-- What `sys_create_window` does. -/
structure CreatedWindow where
  manager : WindowManager
  /-- What `window_create` returned. -/
  win : Nat
  kernelBuf : Nat
  /-- The range `memset` clears, from `kernelBuf` on. -/
  cleared : Nat
  /-- The calls of `vmm_map`, with their virtual and physical addresses. -/
  mapped : List (Nat × Nat)
  id : BitVec 32

/-- `sys_create_window` by the task `taskId`. -/
def sysCreateWindow (s : WindowManager) (taskId : BitVec 64) (x y w h : BitVec 32) :
    Option CreatedWindow := do
  let (s, win) ← windowCreate s x y w h 0xFFFFFFFF#32
  let numPages := windowPages w h
  let (heap, kernelBuf) ← kmalloc s.heap ((numPages * 4096#32).setWidth 64)
  let s := { s with heap := heap }
  let s := windowSetOwner s win taskId
  let s := windowSetBuffer s win kernelBuf
  let id := (s.windows win).id
  let userAddr := (0xA0000000#32 + id * 0x1000000#32).toNat
  return {
    manager := s
    win := win
    kernelBuf := kernelBuf
    cleared := (numPages * 4096#32).toNat
    mapped := (List.range numPages.toNat).map fun i =>
      (userAddr + i * 4096, kernelBuf + i * 4096)
    id := id }

end ZohoOs
