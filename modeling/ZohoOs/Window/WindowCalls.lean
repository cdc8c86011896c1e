import ZohoOs.Window.Windows
import ZohoOs.Lib.TransitionSystem

/-!
# The window manager's calls

`window_create`, `window_destroy_by_pid`, `window_update` and `window_draw_all` of `window.c`, each as the
sections it runs under `window_lock`, with what it does between them. The windows are counted while
`window_update` and `window_draw_all` hold them from one section to the next.

## Main definitions

* `HeapEvent`, `Desktop`: the windows, and what was done with their memory
* `freeWindow`, `retainWindow`, `releaseWindow`: the count of a window
* `windowDestroyByPid`, `snapshotWindowList`, `releaseWindowRefs`: the loops
* `findWindowHit`, `raiseWindow`, `windowPress`, `windowMove`: the parts of `window_update`

## Main results

* `windowCreate_eq`: `window_create` is `kmalloc`, and what follows it
-/

namespace ZohoOs

open TransitionSystem

/-! ## The desktop -/

/-- What is done with the memory of windows and of their buffers. -/
inductive HeapEvent
  /-- `kmalloc` returned the block to `window_create`. -/
  | create (win : Nat)
  /-- `kfree` was called on a window. -/
  | free (win : Nat)
  | freeBuffer (buffer : Nat)
  deriving DecidableEq

/-- The state of `window.c`. What `kmalloc` returns is given with each call, and its heap is left
alone. -/
structure Desktop where
  manager : WindowManager
  draggingWindow : Nat
  dragOffX : BitVec 32
  dragOffY : BitVec 32
  cursorX : BitVec 32
  cursorY : BitVec 32
  cursorInitialized : Bool
  /-- `last_mb`, `last_mx` and `last_my` of `window_update`. -/
  lastMb : BitVec 8
  lastMx : BitVec 32
  lastMy : BitVec 32
  log : List HeapEvent

namespace Desktop

/-- The window at an address. -/
def window (d : Desktop) (win : Nat) : Window := d.manager.windows win

def next (d : Desktop) (win : Nat) : Nat := (d.window win).next

/-- A window was created at the address, and not freed since. -/
def Live (d : Desktop) (win : Nat) : Prop :=
  d.log.count (.free win) < d.log.count (.create win)

instance decidableLive (d : Desktop) (win : Nat) : Decidable (d.Live win) :=
  inferInstanceAs (Decidable (_ < _))

def updateWindow (d : Desktop) (win : Nat) (f : Window → Window) : Desktop :=
  { d with manager := d.manager.setWindow win (f (d.window win)) }

def setList (d : Desktop) (win : Nat) : Desktop :=
  { d with manager := { d.manager with windowList := win } }

/-- `queue_dirty_rect`. -/
def queueDirty (d : Desktop) (rect : Rect) : Desktop := { d with manager := d.manager.queueDirty rect }

def logEvent (d : Desktop) (event : HeapEvent) : Desktop := { d with log := d.log ++ [event] }

/-- A loop along the window list goes round at most as often: it has no more windows than were
created. -/
def listFuel (d : Desktop) : Nat := d.log.length + 1

end Desktop

/-! ## Creating and destroying -/

/-- `window_create`, given what `kmalloc` returns. -/
def windowCreateAt (s : WindowManager) (win : Nat) (x y w h bgColor : BitVec 32) : WindowManager :=
  let window : Window :=
    { s.windows win with
      id := s.nextWindowId
      x := x
      y := y
      w := w
      h := h
      bgColor := bgColor
      titleColor := 0xFF555555#32
      buffer := 0
      ownerPid := 0
      dirty := true
      destroyed := false
      refcount := 0
      eventHead := 0
      eventTail := 0
      next := s.windowList }
  let s := { s with
    windows := Function.update s.windows win window
    windowList := win
    nextWindowId := s.nextWindowId + 1 }
  s.queueDirty (windowOuterRect window)

theorem windowCreate_eq (s : WindowManager) (x y w h bgColor : BitVec 32) :
    windowCreate s x y w h bgColor = (kmalloc s.heap windowSize).map fun (heap, win) =>
      (windowCreateAt { s with heap := heap } win x y w h bgColor, win) := rfl

/-- The locked section of `window_create`. -/
def Desktop.create (win : Nat) (x y w h bgColor : BitVec 32) (d : Desktop) : Desktop :=
  let d := { d with manager := windowCreateAt d.manager win x y w h bgColor }
  if win = 0 then d else d.logEvent (.create win)

namespace Desktop

section Create

variable (win : Nat) (x y w h bgColor : BitVec 32) (d : Desktop)

theorem create_window {p : Nat} (hp : p ≠ win) :
    (d.create win x y w h bgColor).window p = d.window p := by
  unfold create
  dsimp only
  split_ifs <;> exact Function.update_of_ne hp _ _

/-- A new window has no references, no owner and no events, and the list behind it. -/
theorem create_new : ∃ w', (d.create win x y w h bgColor).window win = w' ∧ w'.refcount = 0 ∧
    w'.destroyed = false ∧ w'.ownerPid = 0 ∧ w'.next = d.manager.windowList ∧ w'.eventHead = 0 ∧
    w'.eventTail = 0 := by
  unfold create
  dsimp only
  split_ifs <;> exact ⟨_, Function.update_self .., rfl, rfl, rfl, rfl, rfl, rfl⟩

theorem create_list : (d.create win x y w h bgColor).manager.windowList = win := by
  unfold create
  split_ifs <;> rfl

theorem create_draggingWindow :
    (d.create win x y w h bgColor).draggingWindow = d.draggingWindow := by
  unfold create
  split_ifs <;> rfl

/-- There was no memory for the window. -/
theorem create_log_null (hnull : win = 0) : (d.create win x y w h bgColor).log = d.log := by
  rw [create, if_pos hnull]

variable {win}

theorem create_log (hne : win ≠ 0) : (d.create win x y w h bgColor).log = d.log ++ [.create win] := by
  rw [create, if_neg hne]
  rfl

theorem create_freed (hne : win ≠ 0) (p : Nat) :
    (d.create win x y w h bgColor).log.count (.free p) = d.log.count (.free p) := by
  rw [create_log x y w h bgColor d hne, List.count_append]
  simp

theorem create_created (hne : win ≠ 0) (p : Nat) : (d.create win x y w h bgColor).log.count (.create p) =
    d.log.count (.create p) + if p = win then 1 else 0 := by
  rw [create_log x y w h bgColor d hne, List.count_append]
  split
  · rename_i hp
    rw [hp, List.count_singleton_self]
  · rename_i hp
    have hzero : [HeapEvent.create win].count (.create p) = 0 :=
      List.count_eq_zero.mpr fun hm => hp (by cases List.mem_singleton.mp hm; rfl)
    rw [hzero]

end Create

end Desktop

/-- `free_window`. -/
def freeWindow (win : Nat) (d : Desktop) : Desktop :=
  if win = 0 then d
  else
    let buffer := (d.window win).buffer
    (if buffer ≠ 0 then d.logEvent (.freeBuffer buffer) else d).logEvent (.free win)

/-- `retain_window_locked`. -/
def retainWindow (win : Nat) (d : Desktop) : Desktop :=
  if win = 0 then d else d.updateWindow win fun w => { w with refcount := w.refcount + 1 }

/-- `release_window_locked`. -/
def releaseWindow (win : Nat) (d : Desktop) : Desktop :=
  if win = 0 ∨ (d.window win).refcount = 0 then d
  else
    let d := d.updateWindow win fun w => { w with refcount := w.refcount - 1 }
    if (d.window win).destroyed = true ∧ (d.window win).refcount = 0 then freeWindow win d else d

/-- A window is taken out of the list, from behind the window `prev`. -/
def unlinkWindow (prev curr : Nat) (d : Desktop) : Desktop :=
  let next := d.next curr
  if prev ≠ 0 then d.updateWindow prev fun w => { w with next := next } else d.setList next

/-- What `window_destroy_by_pid` does with a window of the task. -/
def destroyWindow (prev curr : Nat) (d : Desktop) : Desktop :=
  let d := unlinkWindow prev curr (d.queueDirty (windowOuterRect (d.window curr)))
  -- no dragging of a window that is gone
  let d := if d.draggingWindow = curr then { d with draggingWindow := 0 } else d
  let d := d.updateWindow curr fun w => { w with destroyed := true }
  if (d.window curr).refcount = 0 then freeWindow curr d else d

/-- The loop of `window_destroy_by_pid`; `none` where it does not end. -/
def destroyFrom (pid : BitVec 64) : Nat → Nat → Nat → Desktop → Option Desktop
  | 0, _, _, _ => none
  | fuel + 1, prev, curr, d =>
    if curr = 0 then some d
    else if (d.window curr).ownerPid = pid then
      destroyFrom pid fuel prev (d.next curr) (destroyWindow prev curr d)
    else destroyFrom pid fuel curr (d.next curr) d

/-- `window_destroy_by_pid`. -/
def windowDestroyByPid (pid : BitVec 64) (d : Desktop) : Option Desktop :=
  destroyFrom pid d.listFuel 0 d.manager.windowList d

/-! ## Holding windows -/

/-- `window_snapshot_t`. -/
structure WindowSnapshot where
  x : BitVec 32
  y : BitVec 32
  w : BitVec 32
  h : BitVec 32
  titleColor : BitVec 32
  bgColor : BitVec 32
  buffer : Nat
  deriving DecidableEq

/-- The size of `held_windows`. -/
abbrev maxHeldWindows : Nat := 16

def Window.snapshot (win : Window) : WindowSnapshot :=
  ⟨win.x, win.y, win.w, win.h, win.titleColor, win.bgColor, win.buffer⟩

/-- The loop of `snapshot_window_list`: the windows it holds, with their snapshots. -/
def snapshotFrom : Nat → Nat → Desktop → List (Nat × WindowSnapshot) × Desktop
  | 0, _, d => ([], d)
  | max + 1, curr, d =>
    if curr = 0 then ([], d)
    else
      let d := retainWindow curr d
      -- the window is held before its fields are copied
      let (held, d') := snapshotFrom max (d.next curr) d
      ((curr, (d.window curr).snapshot) :: held, d')

/-- `snapshot_window_list`. -/
def snapshotWindowList (d : Desktop) : List (Nat × WindowSnapshot) × Desktop :=
  snapshotFrom maxHeldWindows d.manager.windowList d

/-- `release_window_refs_locked`. -/
def releaseWindowRefs (held : List Nat) (d : Desktop) : Desktop :=
  held.foldl (fun d win => releaseWindow win d) d

/-! ## `window_update` -/

/-- `window_hit_t`. -/
structure WindowHit where
  win : Nat
  localX : BitVec 32
  localY : BitVec 32
  inTitle : Bool
  inBody : Bool

def noHit : WindowHit := ⟨0, 0, 0, false, false⟩

/-- `find_window_hit`, on the windows that are held. -/
def findWindowHit (mx my : BitVec 32) : List (Nat × WindowSnapshot) → WindowHit
  | [] => noHit
  | (win, snap) :: rest =>
    -- the sums wrap around before they are compared as `int32_t`
    if mx.slt snap.x || !mx.slt (snap.x + snap.w) then findWindowHit mx my rest
    else if my.slt snap.y || !my.slt (snap.y + snap.h) then findWindowHit mx my rest
    else if my.slt (snap.y + 25) then ⟨win, mx - snap.x, my - snap.y, true, false⟩
    else ⟨win, mx - snap.x, my - snap.y - 25, false, true⟩

/-- `cursor_rect`. -/
def cursorRect (x y : BitVec 32) : Rect := ⟨x.toInt, y.toInt, 10, 15⟩

/-- `GUI_EVENT_MOUSE_CLICK` and `GUI_EVENT_MOUSE_MOVE`. -/
abbrev guiEventMouseClick : BitVec 32 := 1

abbrev guiEventMouseMove : BitVec 32 := 2

/-- `window_push_event`. The tail is below 16. -/
def windowPushEvent (win : Nat) (event : GuiEvent) (d : Desktop) : Desktop :=
  let next := ((d.window win).eventTail + 1) % 16
  -- a full queue drops the event
  if next = (d.window win).eventHead then d
  else d.updateWindow win fun w =>
    { w with
      eventQueue := Function.update w.eventQueue (Fin.ofNat 16 w.eventTail.toNat) event
      eventTail := next }

/-- The event for the mouse at a place on the body of a window. -/
def bodyEvent (type data : BitVec 32) (mx my : BitVec 32) (w : Window) : GuiEvent :=
  ⟨type, mx - w.x, my - w.y - 25, data⟩

/-- What a call of `window_update` has in its variables, from its first locked section on. -/
structure UpdateCall where
  mx : BitVec 32
  my : BitVec 32
  mb : BitVec 8
  cursorWasInitialized : Bool
  dragCandidate : Nat
  held : List (Nat × WindowSnapshot)

/-- `window_update` returns at once where nothing has moved. -/
def updateSkips (mx my : BitVec 32) (mb : BitVec 8) (d : Desktop) : Prop :=
  d.cursorInitialized = true ∧ d.draggingWindow = 0 ∧ mx = d.lastMx ∧ my = d.lastMy ∧ mb = d.lastMb

instance decidableUpdateSkips (mx my : BitVec 32) (mb : BitVec 8) (d : Desktop) :
    Decidable (updateSkips mx my mb d) := inferInstanceAs (Decidable (_ ∧ _))

/-- The first locked section of `window_update`. -/
def beginUpdate (mx my : BitVec 32) (mb : BitVec 8) (d : Desktop) : UpdateCall × Desktop :=
  let was := d.cursorInitialized
  let d := if was then d else { d with cursorInitialized := true, cursorX := mx, cursorY := my }
  let (held, d') := snapshotWindowList d
  (⟨mx, my, mb, was, d.draggingWindow, held⟩, d')

/-- Between the sections: the windows under the mouse, for a press and for a move. -/
def findHits (u : UpdateCall) (d : Desktop) : WindowHit × WindowHit :=
  (if u.mb &&& 1 ≠ 0 ∧ u.dragCandidate = 0 then findWindowHit u.mx u.my u.held else noHit,
    if u.mx ≠ d.lastMx ∨ u.my ≠ d.lastMy then findWindowHit u.mx u.my u.held else noHit)

/-- The loop that looks for the window before `win`, from `prev` on: `NULL` where there is none, and
`none` where the loop does not end. -/
def findPrev (d : Desktop) (win : Nat) : Nat → Nat → Option Nat
  | 0, _ => none
  | fuel + 1, prev =>
    if prev = 0 then some 0
    else if d.next prev = win then some prev
    else findPrev d win fuel (d.next prev)

/-- A window goes to the front of the list. -/
def moveToFront (prev win : Nat) (d : Desktop) : Desktop :=
  let next := d.next win
  let list := d.manager.windowList
  ((d.updateWindow prev fun w => { w with next := next }).updateWindow win
    fun w => { w with next := list }).setList win

/-- A press on the title of a window brings it to the front. -/
def raiseWindow (win : Nat) (d : Desktop) : Option Desktop :=
  if win = d.manager.windowList then some d
  else
    (findPrev d win d.listFuel d.manager.windowList).map fun prev =>
      -- it is not in the list, and stays where it is
      if prev = 0 then d
      else
        let rect := windowOuterRect (d.window win)
        let d := moveToFront prev win d
        (d.queueDirty rect).queueDirty (windowOuterRect (d.window win))

/-- A window is dragged along with the mouse. -/
def dragWindow (mx my : BitVec 32) (d : Desktop) : Desktop :=
  let win := d.draggingWindow
  let rect := windowOuterRect (d.window win)
  let d := d.updateWindow win fun w =>
    { w with x := mx - d.dragOffX, y := my - d.dragOffY, dirty := true }
  (d.queueDirty rect).queueDirty (windowOuterRect (d.window win))

/-- What the second locked section does about the button. -/
def windowPress (u : UpdateCall) (hit : WindowHit) (d : Desktop) : Option Desktop :=
  if u.mb &&& 1 ≠ 0 then
    if d.draggingWindow = 0 then
      if hit.win ≠ 0 ∧ (d.window hit.win).destroyed = false then
        if hit.inTitle then
          raiseWindow hit.win
            { d with
              draggingWindow := hit.win
              dragOffX := u.mx - (d.window hit.win).x
              dragOffY := u.my - (d.window hit.win).y }
        -- a click is reported once, when the button goes down
        else if hit.inBody && d.lastMb &&& 1 = 0 then
          some (windowPushEvent hit.win
            (bodyEvent guiEventMouseClick 1 u.mx u.my (d.window hit.win)) d)
        else some d
      else some d
    -- the button is still down over the window that is dragged
    else if (d.window d.draggingWindow).destroyed = false then some (dragWindow u.mx u.my d)
    else some { d with draggingWindow := 0 }
  else some { d with draggingWindow := 0 }

/-- What it does about the mouse having moved. -/
def windowMove (u : UpdateCall) (hit : WindowHit) (d : Desktop) : Desktop :=
  if u.mx ≠ d.lastMx ∨ u.my ≠ d.lastMy then
    let d := (d.queueDirty (cursorRect d.cursorX d.cursorY)).queueDirty (cursorRect u.mx u.my)
    if hit.win ≠ 0 ∧ hit.inBody = true ∧ (d.window hit.win).destroyed = false then
      windowPushEvent hit.win (bodyEvent guiEventMouseMove 0 u.mx u.my (d.window hit.win)) d
    else d
  else d

/-- The second locked section of `window_update`. -/
def finishUpdate (u : UpdateCall) (press move : WindowHit) (d : Desktop) : Option Desktop := do
  let d := if u.cursorWasInitialized then d else d.queueDirty (cursorRect u.mx u.my)
  let d ← windowPress u press d
  let d := windowMove u move d
  let d := { d with
    cursorX := u.mx, cursorY := u.my, lastMb := u.mb, lastMx := u.mx, lastMy := u.my }
  let d := releaseWindowRefs (u.held.map Prod.fst) d
  -- the window may have been destroyed between the sections
  return if d.draggingWindow ≠ 0 ∧ (d.window d.draggingWindow).destroyed = true then
    { d with draggingWindow := 0 }
  else d

/-- The parts of the second section, one after another. -/
theorem finishUpdate_of_press {u : UpdateCall} {press : WindowHit} (move : WindowHit)
    {d d₀ d₁ d₂ d₃ : Desktop}
    (h₀ : d₀ = if u.cursorWasInitialized then d else d.queueDirty (cursorRect u.mx u.my))
    (h₁ : windowPress u press d₀ = some d₁)
    (h₂ : d₂ = { windowMove u move d₁ with
      cursorX := u.mx, cursorY := u.my, lastMb := u.mb, lastMx := u.mx, lastMy := u.my })
    (h₃ : d₃ = releaseWindowRefs (u.held.map Prod.fst) d₂) :
    finishUpdate u press move d = some
      (if d₃.draggingWindow ≠ 0 ∧ (d₃.window d₃.draggingWindow).destroyed = true then
        { d₃ with draggingWindow := 0 }
      else d₃) := by
  rw [finishUpdate, ← h₀, h₁, h₃, h₂]
  rfl

/-! ## Many calls -/

/-- Where a call of `window_update` or `window_draw_all` is. -/
inductive WindowCall
  /-- Not begun, or returned. -/
  | out
  /-- Past the check of `window_update`. -/
  | updating (mx my : BitVec 32) (mb : BitVec 8)
  | holding (u : UpdateCall)
  | hit (u : UpdateCall) (press move : WindowHit)
  /-- `window_draw_all` draws from the snapshots. -/
  | drawing (held : List (Nat × WindowSnapshot))

instance WindowCall.decidableOut : (call : WindowCall) → Decidable (call = .out)
  | .out => isTrue rfl
  | .updating _ _ _ | .holding _ | .hit _ _ _ | .drawing _ => isFalse nofun

/-- The windows a call holds. -/
def WindowCall.windows : WindowCall → List Nat
  | .out | .updating _ _ _ => []
  | .holding u | .hit u _ _ => u.held.map Prod.fst
  | .drawing held => held.map Prod.fst

/-- The desktop, and the calls that share it. -/
structure WindowSystem (κ : Type) where
  desktop : Desktop
  calls : κ → WindowCall

inductive WindowAction (κ : Type)
  | create (win : Nat) (x y w h bgColor : BitVec 32)
  | setOwner (win : Nat) (pid : BitVec 64)
  | destroyByPid (pid : BitVec 64)
  /-- `window_update` is called, with the mouse as it reads it. -/
  | update (k : κ) (mx my : BitVec 32) (mb : BitVec 8)
  | updateBegin (k : κ)
  | updateHits (k : κ)
  | updateFinish (k : κ)
  /-- `window_draw_all` is called, up to the end of its first locked section. -/
  | draw (k : κ)
  | drawFinish (k : κ)

variable {κ : Type} [DecidableEq κ]

def WindowSystem.set (s : WindowSystem κ) (k : κ) (call : WindowCall) (d : Desktop) :
    WindowSystem κ := ⟨d, Function.update s.calls k call⟩

/-- A step: a locked section, or what a call does between two. It is `none` where a loop does not
end. -/
def WindowAction.run : WindowAction κ → WindowSystem κ → Option (WindowSystem κ)
  | .create win x y w h bgColor, s =>
    some { s with desktop := s.desktop.create win x y w h bgColor }
  | .setOwner win pid, s =>
    some { s with
      desktop := { s.desktop with manager := windowSetOwner s.desktop.manager win pid } }
  | .destroyByPid pid, s => (windowDestroyByPid pid s.desktop).map fun d => { s with desktop := d }
  | .update k mx my mb, s =>
    some (if updateSkips mx my mb s.desktop then s else s.set k (.updating mx my mb) s.desktop)
  | .updateBegin k, s =>
    match s.calls k with
    | .updating mx my mb =>
      let (u, d) := beginUpdate mx my mb s.desktop
      some (s.set k (.holding u) d)
    | _ => some s
  | .updateHits k, s =>
    match s.calls k with
    | .holding u =>
      some (s.set k (.hit u (findHits u s.desktop).1 (findHits u s.desktop).2) s.desktop)
    | _ => some s
  | .updateFinish k, s =>
    match s.calls k with
    | .hit u press move => (finishUpdate u press move s.desktop).map fun d => s.set k .out d
    | _ => some s
  | .draw k, s =>
    if s.desktop.manager.dirtyRects = [] then some s
    else
      let (held, d) := snapshotWindowList
        { s.desktop with manager := { s.desktop.manager with dirtyRects := [] } }
      some (s.set k (.drawing held) d)
  | .drawFinish k, s =>
    match s.calls k with
    | .drawing held => some (s.set k .out (releaseWindowRefs (held.map Prod.fst) s.desktop))
    | _ => some s

/-- `kmalloc` returns `NULL` or a block that is not in use, a window is there for its creator to give it
an owner, and a call begins where none is under way. -/
def WindowAction.Valid (s : WindowSystem κ) : WindowAction κ → Prop
  | .create win _ _ _ _ _ => win = 0 ∨ ¬ s.desktop.Live win
  | .setOwner win _ => win = 0 ∨ s.desktop.Live win
  | .update k _ _ _ | .draw k => s.calls k = .out
  | _ => True

instance WindowAction.decidableValid (s : WindowSystem κ) (op : WindowAction κ) : Decidable (op.Valid s) := by
  cases op <;> unfold WindowAction.Valid <;> infer_instance

abbrev windowStep : WindowSystem κ → WindowAction κ → WindowSystem κ → Prop :=
  Restrict WindowAction.Valid (ApplySome WindowAction.run)

/-- The first windows from `curr` on. -/
def Desktop.firstWindows (d : Desktop) : Nat → Nat → List Nat
  | 0, _ => []
  | max + 1, curr => if curr = 0 then [] else curr :: d.firstWindows max (d.next curr)

/-- `kmalloc` returned a block to `window_create`, and no count of references is at its end. -/
def WindowAction.Granted (s : WindowSystem κ) : WindowAction κ → Prop
  | .create win _ _ _ _ _ => win ≠ 0
  | .updateBegin _ | .draw _ =>
    ∀ win ∈ s.desktop.firstWindows maxHeldWindows s.desktop.manager.windowList,
      (s.desktop.window win).refcount ≠ BitVec.allOnes 32
  | _ => True

instance WindowAction.decidableGranted (s : WindowSystem κ) (op : WindowAction κ) :
    Decidable (op.Granted s) := by
  cases op <;> unfold WindowAction.Granted <;> infer_instance

end ZohoOs
