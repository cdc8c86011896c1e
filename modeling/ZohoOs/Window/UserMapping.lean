import ZohoOs.Window.BufferSize
import ZohoOs.Lib.TransitionSystem

/-!
# Where windows are mapped

`sys_create_window` computes the user address of a window's buffer from its id in 32 bits, and the
programs compute it in 64. The ids of a run are those of the calls of `window_create`, in order: the
kernel makes windows of its own in between.

## Main definitions

* `userWindowAddr`: the address as a program computes it
* `WindowOp`, `WindowStep`: what the kernel does with windows
* `userWindows`: the ids and sizes of the windows of a run's system calls
* `MappedApart`: the windows are where the programs look for them, and apart

## Main results

* `WindowRun.userWindows`: the windows of a run are determined by its calls
* `windowRun_mappedApart_iff`: the ids and sizes for which they are mapped apart
-/

namespace ZohoOs

open BlockTiling TransitionSystem

/-- The address of a window's buffer, as `user_gui_app` computes it. -/
def userWindowAddr (winId : BitVec 32) : BitVec 64 :=
  0xA0000000#64 + winId.setWidth 64 * 0x1000000#64

/-- `user_addr` of `sys_create_window`. -/
def mappedWindowAddr (winId : BitVec 32) : Nat := (0xA0000000#32 + winId * 0x1000000#32).toNat

/-- A window of a user program: its id, and the pages of its buffer. -/
structure UserWindow where
  id : BitVec 32
  pages : BitVec 32

/-! ## Runs -/

/-- What the kernel does with windows. -/
inductive WindowOp
  /-- A call of `sys_create_window`. -/
  | sysCreate (taskId : BitVec 64) (x y w h : BitVec 32)
  /-- A call of `window_create` by the kernel itself. -/
  | create (x y w h bgColor : BitVec 32)
  /-- Anything that creates no window: windows are drawn and destroyed, memory is taken and freed. -/
  | other

/-- The steps of the kernel, with the window a system call creates. -/
inductive WindowStep : WindowManager → WindowOp × Option CreatedWindow → WindowManager → Prop
  | sysCreate {s : WindowManager} {taskId : BitVec 64} {x y w h : BitVec 32}
      {created : CreatedWindow} : sysCreateWindow s taskId x y w h = some created →
      WindowStep s (.sysCreate taskId x y w h, some created) created.manager
  | create {s t : WindowManager} {x y w h bgColor : BitVec 32} {win : Nat} :
      windowCreate s x y w h bgColor = some (t, win) →
      WindowStep s (.create x y w h bgColor, none) t
  | other {s t : WindowManager} : t.nextWindowId = s.nextWindowId → WindowStep s (.other, none) t

/-- The runs of the kernel. -/
abbrev WindowRun : WindowManager → List (WindowOp × Option CreatedWindow) → WindowManager → Prop :=
  Run WindowStep

/-- The windows of the system calls of a run. -/
def createdWindows (ls : List (WindowOp × Option CreatedWindow)) : List CreatedWindow :=
  ls.filterMap Prod.snd

/-- The next id after an operation. -/
def WindowOp.next (next : BitVec 32) : WindowOp → BitVec 32
  | .sysCreate .. => next + 1
  | .create .. => next + 1
  | .other => next

/-- The windows of a run's system calls, where `next` is the id of the first window. -/
def userWindows (next : BitVec 32) : List WindowOp → List UserWindow
  | [] => []
  | .sysCreate _ _ _ w h :: ops => ⟨next, windowPages w h⟩ :: userWindows (next + 1) ops
  | .create .. :: ops => userWindows (next + 1) ops
  | .other :: ops => userWindows next ops

/-! ## What a call maps -/

/-- The call maps this byte of the user's addresses. -/
def CreatedWindow.Maps (created : CreatedWindow) (addr : Nat) : Prop :=
  ∃ call ∈ created.mapped, call.1 ≤ addr ∧ addr < call.1 + 4096

/-- **The windows are mapped where the programs look for them**, those of different ids apart, and all
of them above the range of other mappings. -/
structure MappedApart (created : List CreatedWindow) : Prop where
  agree : ∀ c ∈ created, ∀ i call, c.mapped[i]? = some call →
    call.1 = (userWindowAddr c.id).toNat + i * 4096
  apart : ∀ c ∈ created, ∀ d ∈ created, c.id ≠ d.id → ∀ addr, ¬ (c.Maps addr ∧ d.Maps addr)
  above : ∀ c ∈ created, ∀ addr, c.Maps addr → 0xA0000000 ≤ addr

/-- **The ids and sizes that fit**: a window with a buffer has an id below 96, and its buffer ends
before that of a window with a later id. -/
structure FitsSlots (windows : List UserWindow) : Prop where
  id_lt : ∀ u ∈ windows, u.pages ≠ 0 → u.id.toNat < 96
  size_le : ∀ u ∈ windows, ∀ v ∈ windows, u.pages ≠ 0 → v.pages ≠ 0 → u.id.toNat < v.id.toNat →
    u.pages.toNat ≤ (v.id.toNat - u.id.toNat) * 4096

/-- The window of a call. -/
def CreatedWindow.Has (created : CreatedWindow) (u : UserWindow) : Prop :=
  created.id = u.id ∧ created.mapped.map Prod.fst =
    (List.range u.pages.toNat).map fun i => mappedWindowAddr u.id + i * 4096

section Call

variable {s : WindowManager} {created : CreatedWindow} {u v : UserWindow}

theorem windowSetOwner_id (s : WindowManager) (win : Nat) (pid : BitVec 64) (p : Nat) :
    ((windowSetOwner s win pid).windows p).id = (s.windows p).id := by
  unfold windowSetOwner
  split
  · rfl
  · by_cases hp : p = win
    · subst hp
      simp only [WindowManager.setWindow, Function.update_self]
    · simp only [WindowManager.setWindow, Function.update_of_ne hp]

theorem windowSetBuffer_id (s : WindowManager) (win buffer p : Nat) :
    ((windowSetBuffer s win buffer).windows p).id = (s.windows p).id := by
  unfold windowSetBuffer
  split
  · rfl
  · by_cases hp : p = win
    · subst hp
      simp only [WindowManager.queueDirty, WindowManager.setWindow, Function.update_self]
    · simp only [WindowManager.queueDirty, WindowManager.setWindow, Function.update_of_ne hp]

/-- The call takes the next id, and maps the buffer at the address for it. -/
theorem sysCreateWindow_has {taskId : BitVec 64} {x y w h : BitVec 32}
    (hcall : sysCreateWindow s taskId x y w h = some created) :
    created.Has ⟨s.nextWindowId, windowPages w h⟩ := by
  simp only [sysCreateWindow, Option.bind_eq_bind, Option.bind_eq_some_iff] at hcall
  obtain ⟨⟨s₁, win⟩, hwin, ⟨heap, kernelBuf⟩, -, hreturn⟩ := hcall
  obtain rfl := Option.some.inj hreturn
  obtain ⟨⟨heap₁, win₁⟩, -, hcreate⟩ := Option.map_eq_some_iff.mp hwin
  obtain ⟨rfl, rfl⟩ := Prod.mk.inj hcreate
  -- setting the owner and the buffer leaves the id alone
  have hid : ∀ (t : WindowManager) (pid : BitVec 64) (buffer : Nat),
      ((windowSetBuffer (windowSetOwner t win₁ pid) win₁ buffer).windows win₁).id =
        (t.windows win₁).id := by
    intro t pid buffer
    rw [windowSetBuffer_id, windowSetOwner_id]
  constructor
  · simp only [hid, WindowManager.queueDirty, Function.update_self]
  · simp only [hid, WindowManager.queueDirty, Function.update_self, List.map_map,
      Function.comp_def, mappedWindowAddr]

theorem userWindowAddr_toNat (winId : BitVec 32) :
    (userWindowAddr winId).toNat = 0xA0000000 + winId.toNat * 0x1000000 := by
  have := winId.isLt
  rw [userWindowAddr, BitVec.toNat_add, BitVec.toNat_mul, BitVec.toNat_setWidth]
  simp only [BitVec.toNat_ofNat]
  omega

/-- The two addresses are the same for the first 96 ids only. -/
theorem mappedWindowAddr_eq_iff (winId : BitVec 32) :
    mappedWindowAddr winId = (userWindowAddr winId).toNat ↔ winId.toNat < 96 := by
  have := winId.isLt
  rw [userWindowAddr_toNat, mappedWindowAddr, BitVec.toNat_add, BitVec.toNat_mul]
  simp only [BitVec.toNat_ofNat]
  omega

theorem CreatedWindow.Has.length (h : created.Has u) : created.mapped.length = u.pages.toNat := by
  have hlength := congrArg List.length h.2
  rwa [List.length_map, List.length_map, List.length_range] at hlength

theorem CreatedWindow.Has.getElem? (h : created.Has u) {i : Nat} {call : Nat × Nat}
    (hcall : created.mapped[i]? = some call) :
    i < u.pages.toNat ∧ call.1 = mappedWindowAddr u.id + i * 4096 := by
  have hi : i < u.pages.toNat := by
    rw [← h.length]
    exact (List.getElem?_eq_some_iff.mp hcall).1
  refine ⟨hi, ?_⟩
  have hget := congrArg (fun l => l[i]?) h.2
  simp only [List.getElem?_map, hcall, List.getElem?_range hi, Option.map_some] at hget
  exact Option.some.inj hget

/-- The bytes a call maps. -/
theorem CreatedWindow.Has.maps_iff (h : created.Has u) {addr : Nat} : created.Maps addr ↔
    mappedWindowAddr u.id ≤ addr ∧ addr < mappedWindowAddr u.id + u.pages.toNat * 4096 := by
  have hmem : (∃ call ∈ created.mapped, call.1 ≤ addr ∧ addr < call.1 + 4096) ↔
      ∃ virt ∈ created.mapped.map Prod.fst, virt ≤ addr ∧ addr < virt + 4096 := by
    simp only [List.mem_map, exists_exists_and_eq_and]
  rw [CreatedWindow.Maps, hmem, h.2]
  simp only [List.mem_map, List.mem_range, exists_exists_and_eq_and]
  constructor
  · rintro ⟨i, hi, hlo, hhi⟩
    omega
  · rintro ⟨hlo, hhi⟩
    exact ⟨(addr - mappedWindowAddr u.id) / 4096, by omega, by omega, by omega⟩

end Call

/-! ## What a run maps -/

theorem userWindows_concat (next : BitVec 32) (ops : List WindowOp) (op : WindowOp) :
    userWindows next (ops ++ [op]) =
      userWindows next ops ++ userWindows (ops.foldl WindowOp.next next) [op] := by
  induction ops generalizing next with
  | nil => rfl
  | cons op' ops ih =>
    rw [List.cons_append, List.foldl_cons]
    cases op' with
    | sysCreate => exact congrArg _ (ih _)
    | create => exact ih _
    | other => exact ih _

/-- **The windows of a run are determined by its calls.** -/
structure WindowRun.Determined (s t : WindowManager) (ls : List (WindowOp × Option CreatedWindow)) :
    Prop where
  next : t.nextWindowId = (ls.map Prod.fst).foldl WindowOp.next s.nextWindowId
  has : ∀ c ∈ createdWindows ls, ∃ u ∈ userWindows s.nextWindowId (ls.map Prod.fst), c.Has u
  made : ∀ u ∈ userWindows s.nextWindowId (ls.map Prod.fst), ∃ c ∈ createdWindows ls, c.Has u

section Runs

variable {s t : WindowManager} {ls : List (WindowOp × Option CreatedWindow)}

theorem windowCreate_nextWindowId {x y w h bgColor : BitVec 32} {win : Nat}
    (hcreate : windowCreate s x y w h bgColor = some (t, win)) :
    t.nextWindowId = s.nextWindowId + 1 := by
  obtain ⟨⟨heap, win₁⟩, -, hresult⟩ := Option.map_eq_some_iff.mp hcreate
  obtain ⟨rfl, rfl⟩ := Prod.mk.inj hresult
  rfl

/-- A step that adds a window to both lists, or to neither. -/
theorem WindowRun.Determined.snoc {u : WindowManager} {l : WindowOp × Option CreatedWindow}
    (h : WindowRun.Determined s t ls) (hnext : u.nextWindowId = l.1.next t.nextWindowId)
    (hhas : ∀ c ∈ l.2.toList, ∃ v ∈ userWindows t.nextWindowId [l.1], c.Has v)
    (hmade : ∀ v ∈ userWindows t.nextWindowId [l.1], ∃ c ∈ l.2.toList, c.Has v) :
    WindowRun.Determined s u (ls ++ [l]) := by
  -- one window more is created at most, and one more is the user's
  have hcreated : createdWindows (ls ++ [l]) = createdWindows ls ++ l.2.toList := by
    rw [createdWindows, List.filterMap_append]
    cases hl : l.2 <;> simp [createdWindows, hl]
  have hwindows : userWindows s.nextWindowId ((ls ++ [l]).map Prod.fst) =
      userWindows s.nextWindowId (ls.map Prod.fst) ++ userWindows t.nextWindowId [l.1] := by
    rw [List.map_append, List.map_singleton, userWindows_concat, h.next]
  refine ⟨?_, ?_, ?_⟩
  · rw [List.map_append, List.foldl_append, ← h.next, hnext]
    rfl
  · intro c hc
    rw [hcreated, List.mem_append] at hc
    rw [hwindows]
    rcases hc with hc | hc
    · obtain ⟨v, hv, hcv⟩ := h.has c hc
      exact ⟨v, List.mem_append_left _ hv, hcv⟩
    · obtain ⟨v, hv, hcv⟩ := hhas c hc
      exact ⟨v, List.mem_append_right _ hv, hcv⟩
  · intro v hv
    rw [hwindows, List.mem_append] at hv
    rw [hcreated]
    rcases hv with hv | hv
    · obtain ⟨c, hc, hcv⟩ := h.made v hv
      exact ⟨c, List.mem_append_left _ hc, hcv⟩
    · obtain ⟨c, hc, hcv⟩ := hmade v hv
      exact ⟨c, List.mem_append_right _ hc, hcv⟩

theorem WindowRun.userWindows (h : WindowRun s ls t) : WindowRun.Determined s t ls := by
  induction h with
  | nil =>
    refine ⟨rfl, fun c hc => ?_, fun u hu => ?_⟩
    · exact absurd hc (List.not_mem_nil)
    · exact absurd hu (List.not_mem_nil)
  | @snoc t u ls l _ hl ih =>
    cases hl with
    | @sysCreate taskId x y w h created hcall =>
      have hhas := sysCreateWindow_has hcall
      apply ih.snoc (sysCreateWindow_some hcall).2
      · intro c hc
        obtain rfl := List.mem_singleton.mp hc
        exact ⟨_, List.mem_singleton_self _, hhas⟩
      · intro v hv
        obtain rfl := List.mem_singleton.mp hv
        exact ⟨_, List.mem_singleton_self _, hhas⟩
    | create hcreate =>
      apply ih.snoc (windowCreate_nextWindowId hcreate)
      · exact fun c hc => absurd hc List.not_mem_nil
      · exact fun v hv => absurd hv List.not_mem_nil
    | other hsame =>
      apply ih.snoc hsame
      · exact fun c hc => absurd hc List.not_mem_nil
      · exact fun v hv => absurd hv List.not_mem_nil

/-- Where the addresses agree, windows of different ids start as far apart as their ids. -/
theorem mappedWindowAddr_of_lt {winId : BitVec 32} (h : winId.toNat < 96) :
    mappedWindowAddr winId = 0xA0000000 + winId.toNat * 0x1000000 := by
  rw [(mappedWindowAddr_eq_iff winId).mpr h, userWindowAddr_toNat]

theorem toNat_pos_of_ne {pages : BitVec 32} (h : pages ≠ 0) : 0 < pages.toNat := by
  rw [Nat.pos_iff_ne_zero]
  exact fun hzero => h (BitVec.eq_of_toNat_eq hzero)

/-- The start of a slot. -/
def slotStart (winId : BitVec 32) : Nat := 0xA0000000 + winId.toNat * 0x1000000

/-- What a window maps that is where the programs look for it. -/
theorem CreatedWindow.Has.maps_slot {created : CreatedWindow} {u : UserWindow} {addr : Nat}
    (h : created.Has u) (hid : u.pages ≠ 0 → u.id.toNat < 96) : created.Maps addr ↔
      u.pages ≠ 0 ∧ slotStart u.id ≤ addr ∧ addr < slotStart u.id + u.pages.toNat * 4096 := by
  rw [h.maps_iff]
  by_cases hzero : u.pages = 0
  · rw [hzero, show (0 : BitVec 32).toNat = 0 from rfl]
    constructor
    · intro hm
      omega
    · exact fun hm => absurd rfl hm.1
  · rw [mappedWindowAddr_of_lt (hid hzero), slotStart, and_iff_right hzero]

theorem MappedApart.fits (h : WindowRun s ls t) (hmapped : MappedApart (createdWindows ls)) :
    FitsSlots (userWindows s.nextWindowId (ls.map Prod.fst)) := by
  have hrun := WindowRun.userWindows h
  have hlt : ∀ u ∈ userWindows s.nextWindowId (ls.map Prod.fst), u.pages ≠ 0 →
      u.id.toNat < 96 := by
    intro u hu hne
    obtain ⟨c, hc, hcu⟩ := hrun.made u hu
    -- the first page shows the address of the window
    have hfirst : 0 < c.mapped.length := by
      rw [hcu.length]
      exact toNat_pos_of_ne hne
    have hget := List.getElem?_eq_getElem hfirst
    have hagree := hmapped.agree c hc 0 _ hget
    rw [(hcu.getElem? hget).2, hcu.1, Nat.add_right_cancel_iff] at hagree
    exact (mappedWindowAddr_eq_iff u.id).mp hagree
  refine ⟨hlt, fun u hu v hv hune hvne hids => ?_⟩
  obtain ⟨c, hc, hcu⟩ := hrun.made u hu
  obtain ⟨d, hd, hdv⟩ := hrun.made v hv
  by_contra hbig
  have hne : c.id ≠ d.id := by
    rw [hcu.1, hdv.1]
    intro heq
    rw [heq] at hids
    exact Nat.lt_irrefl _ hids
  -- both map the first byte of the later slot
  apply hmapped.apart c hc d hd hne (slotStart v.id)
  rw [hcu.maps_slot (hlt u hu), hdv.maps_slot (hlt v hv)]
  have := toNat_pos_of_ne hvne
  unfold slotStart
  refine ⟨⟨hune, ?_, ?_⟩, hvne, ?_, ?_⟩
  · omega
  · omega
  · omega
  · omega

theorem FitsSlots.mapped (h : WindowRun s ls t)
    (hfits : FitsSlots (userWindows s.nextWindowId (ls.map Prod.fst))) :
    MappedApart (createdWindows ls) := by
  have hrun := WindowRun.userWindows h
  refine ⟨fun c hc i call hcall => ?_, fun c hc d hd hids addr hboth => ?_, fun c hc addr hm => ?_⟩
  · obtain ⟨u, hu, hcu⟩ := hrun.has c hc
    obtain ⟨hi, hvirt⟩ := hcu.getElem? hcall
    have hne : u.pages ≠ 0 := by
      intro hzero
      rw [hzero] at hi
      exact Nat.not_lt_zero _ hi
    rw [hvirt, hcu.1, (mappedWindowAddr_eq_iff _).mpr (hfits.id_lt u hu hne)]
  · obtain ⟨u, hu, hcu⟩ := hrun.has c hc
    obtain ⟨v, hv, hdv⟩ := hrun.has d hd
    obtain ⟨hune, hulo, huhi⟩ := (hcu.maps_slot (hfits.id_lt u hu)).mp hboth.1
    obtain ⟨hvne, hvlo, hvhi⟩ := (hdv.maps_slot (hfits.id_lt v hv)).mp hboth.2
    rw [hcu.1, hdv.1] at hids
    unfold slotStart at *
    -- the window with the lower id ends before the other starts
    rcases Nat.lt_or_gt_of_ne fun heq => hids (BitVec.eq_of_toNat_eq heq) with hlt | hlt
    · have := hfits.size_le u hu v hv hune hvne hlt
      omega
    · have := hfits.size_le v hv u hu hvne hune hlt
      omega
  · obtain ⟨u, hu, hcu⟩ := hrun.has c hc
    have hlo := ((hcu.maps_slot (hfits.id_lt u hu)).mp hm).2.1
    unfold slotStart at hlo
    omega

/-- **When the windows of a run are mapped apart.** -/
theorem windowRun_mappedApart_iff (h : WindowRun s ls t) :
    MappedApart (createdWindows ls) ↔
      FitsSlots (userWindows s.nextWindowId (ls.map Prod.fst)) :=
  ⟨fun hmapped => hmapped.fits h, fun hfits => hfits.mapped h⟩

end Runs

/-! ## Windows of the demo -/

/-- Over a tiled heap the call returns, whether or not the heap has room, and leaves a tiled heap. -/
theorem sysCreateWindow_returns {s : WindowManager} {l : List Block} (htiled : HeapTiled s.heap l)
    (taskId : BitVec 64) (x y w h : BitVec 32) :
    ∃ created l', sysCreateWindow s taskId x y w h = some created ∧
      HeapTiled created.manager.heap l' := by
  have hreturns : ∀ {heap : Kmalloc} {l : List Block}, HeapTiled heap l → ∀ size : BitVec 64,
      ∃ heap' l' addr, kmalloc heap size = some (heap', addr) ∧ HeapTiled heap' l' := by
    intro heap l htiled size
    rcases kmalloc_place htiled size with ⟨-, heap', hcall, htiled'⟩ | ⟨_, l', heap', -, hcall, htiled'⟩
    · exact ⟨heap', _, _, hcall, htiled'⟩
    · exact ⟨heap', _, _, hcall, htiled'⟩
  obtain ⟨heap₁, l₁, win, hwin, htiled₁⟩ := hreturns htiled (windowSize : BitVec 64)
  obtain ⟨heap₂, l₂, buf, hbuf, htiled₂⟩ :=
    hreturns htiled₁ ((windowPages w h * 4096#32).setWidth 64)
  obtain ⟨created, hcall, hcreates⟩ := sysCreateWindow_creates hwin hbuf
  exact ⟨created, l₂, hcall, hcreates.heap ▸ htiled₂⟩

/-- The empty manager, with ids from `next` on. -/
def emptyManagerFrom (next : BitVec 32) : WindowManager :=
  { emptyManager emptyHeap with nextWindowId := next }

theorem emptyManagerFrom_returns (next : BitVec 32) :
    ∃ created l, sysCreateWindow (emptyManagerFrom next) 1 200 200 300 225 = some created ∧
      HeapTiled created.manager.heap l := by
  have htiled : HeapTiled (emptyManagerFrom next).heap [⟨heapSize - kmallocHeaderSize, true⟩] :=
    kmallocInit_tiled (fun _ => ⟨0, false, 0⟩) ⟨fun _ => 0, [], fun _ => 0, 0⟩
  exact sysCreateWindow_returns htiled _ _ _ _ _

/-- The first page of a window's buffer is mapped. -/
theorem CreatedWindow.Has.maps {created : CreatedWindow} {u : UserWindow} (h : created.Has u)
    (hpages : 0 < u.pages.toNat) : created.Maps (mappedWindowAddr u.id) := by
  have hmem : mappedWindowAddr u.id + 0 * 4096 ∈ created.mapped.map Prod.fst := by
    rw [h.2]
    exact List.mem_map_of_mem (List.mem_range.mpr hpages)
  obtain ⟨call, hcall, haddr⟩ := List.mem_map.mp hmem
  exact ⟨call, hcall, by omega, by omega⟩

/-- Two windows of the demo are mapped where their programs look for them. -/
theorem windowRun_mappedApart_two : ∃ first second t,
    WindowRun (emptyManagerFrom 1)
        [(.sysCreate 1 200 200 300 225, some first), (.sysCreate 2 250 250 400 300, some second)] t ∧
      MappedApart [first, second] ∧ first.Maps 0xA1000000 ∧ second.Maps 0xA2000000 ∧
      ∀ addr, ¬ (first.Maps addr ∧ second.Maps addr) := by
  obtain ⟨first, l, hfirst, htiled⟩ := emptyManagerFrom_returns 1
  obtain ⟨second, -, hsecond, -⟩ := sysCreateWindow_returns htiled 2 250 250 400 300
  have hrun : WindowRun (emptyManagerFrom 1)
      [(.sysCreate 1 200 200 300 225, some first), (.sysCreate 2 250 250 400 300, some second)] _ :=
    Run.cons (.sysCreate hfirst) (Run.single (.sysCreate hsecond))
  have hfits : FitsSlots (userWindows (emptyManagerFrom 1).nextWindowId
      [.sysCreate 1 200 200 300 225, .sysCreate 2 250 250 400 300]) := ⟨by decide, by decide⟩
  have hapart : MappedApart [first, second] := (windowRun_mappedApart_iff hrun).mpr hfits
  have hhas := sysCreateWindow_has hfirst
  have hhas' := sysCreateWindow_has hsecond
  rw [(sysCreateWindow_some hfirst).2] at hhas'
  have hne : first.id ≠ second.id := by
    rw [hhas.1, hhas'.1]
    decide
  exact ⟨first, second, _, hrun, hapart, hhas.maps (by decide), hhas'.maps (by decide),
    hapart.apart first (by simp) second (by simp) hne⟩

/-- Any number of windows can be made, one after the other. -/
theorem windowRun_reaches (n : Nat) : ∃ ls,
    WindowRun (emptyManagerFrom 1) ls (emptyManagerFrom (1 + BitVec.ofNat 32 n)) := by
  induction n with
  | zero => exact ⟨[], Run.nil _⟩
  | succ n ih =>
    obtain ⟨ls, hrun⟩ := ih
    obtain ⟨created, -, hcall, -⟩ := emptyManagerFrom_returns (1 + BitVec.ofNat 32 n)
    have hnext : (emptyManagerFrom (1 + BitVec.ofNat 32 (n + 1))).nextWindowId =
        created.manager.nextWindowId := by
      rw [(sysCreateWindow_some hcall).2, BitVec.ofNat_add]
      exact (BitVec.add_assoc _ _ _).symm
    -- the window is destroyed before the next one is made
    exact ⟨_, (hrun.snoc (.sysCreate hcall)).snoc (.other hnext)⟩

/-- **The window with id 96 is mapped at address 0**, where the program looks at 4 GiB. -/
theorem windowRun_wraps : ∃ ls t created, WindowRun (emptyManagerFrom 1) ls t ∧
    created ∈ createdWindows ls ∧ created.id = 96 ∧ (created.mapped.map Prod.fst)[0]? = some 0 ∧
    (userWindowAddr created.id).toNat = 0x100000000 ∧ ¬ MappedApart (createdWindows ls) := by
  obtain ⟨ls, hrun⟩ := windowRun_reaches 95
  obtain ⟨created, -, hcall, -⟩ := emptyManagerFrom_returns (1 + BitVec.ofNat 32 95)
  have hhas := sysCreateWindow_has hcall
  have hid : created.id = 96 := hhas.1
  have hmem : created ∈ createdWindows (ls ++ [(.sysCreate 1 200 200 300 225, some created)]) := by
    rw [createdWindows, List.filterMap_append]
    exact List.mem_append_right _ (List.mem_singleton_self _)
  have hmapped : (created.mapped.map Prod.fst)[0]? = some 0 := by
    rw [hhas.2]
    decide
  have haddr : (userWindowAddr created.id).toNat = 0x100000000 := by
    rw [hid]
    decide
  refine ⟨_, _, created, hrun.snoc (.sysCreate hcall), hmem, hid, hmapped, haddr, fun hbad => ?_⟩
  rw [List.getElem?_map] at hmapped
  obtain ⟨call, hget, hzero⟩ := Option.map_eq_some_iff.mp hmapped
  have hagree := hbad.agree created hmem 0 call hget
  rw [hzero, haddr] at hagree
  exact absurd hagree (by decide)

end ZohoOs
