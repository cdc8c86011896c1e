import ZohoOs.Window.WindowCalls
import ZohoOs.Lib.LinkedQueue
import ZohoOs.Lib.RefCount
import ZohoOs.Lib.TransitionSystem

/-!
# The lifetime of a window

The windows as counted objects: listed while they are in `window_list`, retired once they are destroyed,
and held by the calls of `window_update` and `window_draw_all` that are under way.

## Main definitions

* `Desktop.registry`: the windows as counted objects
* `Desktop.Kept`: the list has the windows that are not destroyed, and their counts are right

## Main results

* `Desktop.Kept.release`, `Desktop.Kept.retain`, `Desktop.Kept.destroy`: what each section's loop keeps
* `windowRun_lifetime`: the lifetime of windows in any interleaving
-/

namespace ZohoOs

open LinkedQueue RefCount TransitionSystem

namespace Desktop

/-- Where a window is. -/
def status (d : Desktop) (win : Nat) : Status :=
  if d.Live win then (if (d.window win).destroyed = true then .retired else .listed) else .absent

/-- The windows as counted objects. -/
def registry {κ : Type} (d : Desktop) (held : κ → List Nat) : Registry Nat κ where
  status := d.status
  count win := (d.window win).refcount.toNat
  held := held
  created win := d.log.count (.create win)
  freed win := d.log.count (.free win)

/-! ## Fields -/

section Fields

variable (d : Desktop) (win x : Nat) (f : Window → Window)

theorem updateWindow_window :
    (d.updateWindow win f).window x = if x = win then f (d.window win) else d.window x := by
  simp [updateWindow, window, WindowManager.setWindow, Function.update_apply]

/-- What the update does not change of one window, it changes of none. -/
theorem updateWindow_field {β : Type*} (g : Window → β) (hg : g (f (d.window win)) = g (d.window win)) :
    g ((d.updateWindow win f).window x) = g (d.window x) := by
  rw [updateWindow_window]
  split
  · rename_i he
    rw [hg, he]
  · rfl

theorem status_listed : d.status win = .listed ↔ d.Live win ∧ (d.window win).destroyed = false := by
  unfold status
  split_ifs with hlive hdestroyed <;> simp_all

theorem status_retired : d.status win = .retired ↔ d.Live win ∧ (d.window win).destroyed = true := by
  unfold status
  split_ifs with hlive hdestroyed <;> simp_all

theorem status_absent : d.status win = .absent ↔ ¬ d.Live win := by
  unfold status
  split_ifs with hlive hdestroyed <;> simp_all

theorem status_congr {d d' : Desktop} {win : Nat} (hlive : d'.Live win ↔ d.Live win)
    (hdestroyed : (d'.window win).destroyed = (d.window win).destroyed) :
    d'.status win = d.status win := by
  simp only [status, hlive, hdestroyed]

end Fields

/-- The windows are counted in the same way. -/
structure SameCounts (d d' : Desktop) : Prop where
  refcount : ∀ win, (d'.window win).refcount = (d.window win).refcount
  destroyed : ∀ win, (d'.window win).destroyed = (d.window win).destroyed
  log : d'.log = d.log

/-- The two desktops have the same windows, as far as their lifetime goes. -/
structure Same (d d' : Desktop) : Prop extends SameCounts d d' where
  next : ∀ win, d'.next win = d.next win
  list : d'.manager.windowList = d.manager.windowList

theorem Same.trans {d d' d'' : Desktop} (h : Same d d') (h' : Same d' d'') : Same d d'' where
  next win := (h'.next win).trans (h.next win)
  refcount win := (h'.refcount win).trans (h.refcount win)
  destroyed win := (h'.destroyed win).trans (h.destroyed win)
  list := h'.list.trans h.list
  log := h'.log.trans h.log

/-- Updating what the lifetime does not depend on. -/
theorem Same.update (d : Desktop) (win : Nat) {f : Window → Window}
    (hnext : (f (d.window win)).next = (d.window win).next)
    (hcount : (f (d.window win)).refcount = (d.window win).refcount)
    (hdestroyed : (f (d.window win)).destroyed = (d.window win).destroyed) :
    Same d (d.updateWindow win f) where
  next x := d.updateWindow_field win x f (·.next) hnext
  refcount x := d.updateWindow_field win x f (·.refcount) hcount
  destroyed x := d.updateWindow_field win x f (·.destroyed) hdestroyed
  list := rfl
  log := rfl

theorem Same.refl (d : Desktop) : Same d d := ⟨⟨fun _ => rfl, fun _ => rfl, rfl⟩, fun _ => rfl, rfl⟩

theorem Same.queueDirty (d : Desktop) (rect : Rect) : Same d (d.queueDirty rect) :=
  ⟨⟨fun _ => rfl, fun _ => rfl, rfl⟩, fun _ => rfl, rfl⟩

theorem SameCounts.status {d d' : Desktop} (h : SameCounts d d') : d'.status = d.status := by
  funext win
  apply status_congr
  · rw [Live, Live, h.log]
  · exact h.destroyed win

theorem SameCounts.registry {κ : Type} {d d' : Desktop} (h : SameCounts d d') (held : κ → List Nat) :
    d'.registry held = d.registry held := by
  refine Registry.ext h.status (funext fun win => ?_) rfl (funext fun win => ?_) (funext fun win => ?_)
  · exact congrArg BitVec.toNat (h.refcount win)
  · exact congrArg (List.count _) h.log
  · exact congrArg (List.count _) h.log

/-! ## What the desktop keeps -/

section Keeps

variable {κ : Type} [Fintype κ]

/-- **What holds whenever `window_lock` is free**: the list has the windows that are not destroyed, their
counts count the references, and a window that is dragged is in the list. -/
structure Kept (d : Desktop) (held : κ → List Nat) (l : List Nat) : Prop where
  linked : Linked d.next 0 d.manager.windowList l
  listed : ∀ win, win ∈ l ↔ d.status win = .listed
  sound : (d.registry held).Sound
  null : ¬ d.Live 0
  drag : d.draggingWindow = 0 ∨ d.draggingWindow ∈ l

variable {d d' : Desktop} {held : κ → List Nat} {l : List Nat}

/-- The list may be in another order. -/
theorem Kept.relink (h : d.Kept held l) (hsame : SameCounts d d') {l' : List Nat}
    (hlinked : Linked d'.next 0 d'.manager.windowList l') (hmem : ∀ win, win ∈ l' ↔ win ∈ l)
    (hdrag : d'.draggingWindow = 0 ∨ d'.draggingWindow ∈ l') : d'.Kept held l' where
  linked := hlinked
  listed win := by
    rw [hmem, hsame.status]
    exact h.listed win
  sound := by
    rw [hsame.registry]
    exact h.sound
  null := by
    rw [Live, hsame.log]
    exact h.null
  drag := hdrag

theorem Kept.same (h : d.Kept held l) (hsame : Same d d')
    (hdrag : d'.draggingWindow = 0 ∨ d'.draggingWindow ∈ l) : d'.Kept held l := by
  refine h.relink hsame.toSameCounts ?_ (fun _ => Iff.rfl) hdrag
  rw [hsame.list]
  exact h.linked.congr fun win _ => hsame.next win

theorem Kept.live_of_held (h : d.Kept held l) {k : κ} {win : Nat} (hwin : win ∈ held k) :
    d.Live win := by
  by_contra hnot
  exact h.sound.held k win hwin ((d.status_absent win).mpr hnot)

theorem Kept.live_of_mem (h : d.Kept held l) {win : Nat} (hwin : win ∈ l) :
    d.Live win ∧ (d.window win).destroyed = false :=
  (d.status_listed win).mp ((h.listed win).mp hwin)

/-- A window that is held and not destroyed is in the list. -/
theorem Kept.mem_of_held (h : d.Kept held l) {k : κ} {win : Nat} (hwin : win ∈ held k)
    (hnot : (d.window win).destroyed = false) : win ∈ l :=
  (h.listed win).mpr ((d.status_listed win).mpr ⟨h.live_of_held hwin, hnot⟩)

theorem Kept.ne_null (h : d.Kept held l) {win : Nat} (hlive : d.Live win) : win ≠ 0 := by
  rintro rfl
  exact h.null hlive

omit [Fintype κ] in
/-- A list of windows that were created has fewer windows than the loops go round. -/
theorem length_lt_listFuel (hnodup : l.Nodup) (hcreated : ∀ win ∈ l, .create win ∈ d.log) :
    l.length < d.listFuel := by
  have hsub : l.map HeapEvent.create ⊆ d.log := by
    intro event hevent
    obtain ⟨win, hwin, rfl⟩ := List.mem_map.mp hevent
    exact hcreated win hwin
  have hnodup : (l.map HeapEvent.create).Nodup := hnodup.map fun a b hab => by cases hab; rfl
  have hle := (hnodup.subperm hsub).length_le
  rw [List.length_map] at hle
  exact Nat.lt_succ_of_le hle

theorem Live.created {win : Nat} (h : d.Live win) : .create win ∈ d.log :=
  List.count_pos_iff.mp (Nat.lt_of_le_of_lt (Nat.zero_le _) h)

theorem Kept.length_lt (h : d.Kept held l) : l.length < d.listFuel :=
  length_lt_listFuel h.linked.nodup fun _ hwin => (h.live_of_mem hwin).1.created

/-! ## One window -/

section FreeWindow

variable (d : Desktop) (win x : Nat)

theorem freeWindow_window : (freeWindow win d).window x = d.window x := by
  unfold freeWindow
  dsimp only
  split_ifs <;> rfl

theorem freeWindow_list : (freeWindow win d).manager.windowList = d.manager.windowList := by
  unfold freeWindow
  dsimp only
  split_ifs <;> rfl

theorem freeWindow_dragging : (freeWindow win d).draggingWindow = d.draggingWindow := by
  unfold freeWindow
  dsimp only
  split_ifs <;> rfl

theorem freeWindow_created :
    (freeWindow win d).log.count (.create x) = d.log.count (.create x) := by
  unfold freeWindow logEvent
  dsimp only
  split_ifs <;> simp

theorem freeWindow_freed (hne : win ≠ 0) : (freeWindow win d).log.count (.free x) =
    if x = win then d.log.count (.free win) + 1 else d.log.count (.free x) := by
  unfold freeWindow logEvent
  dsimp only
  rw [if_neg hne]
  split_ifs with hbuffer hx hx <;> simp_all [List.count_cons]
  all_goals exact fun he => hx he.symm

/-- **Freeing a window** that was created once more than it was freed. -/
theorem freeWindow_registry {κ : Type} (held : κ → List Nat) (hne : win ≠ 0)
    (honce : d.log.count (.create win) = d.log.count (.free win) + 1) :
    (freeWindow win d).registry held = (d.registry held).free win := by
  refine Registry.ext (funext fun x => ?_) (funext fun x => ?_) rfl (funext fun x => ?_)
    (funext fun x => ?_)
  · show (freeWindow win d).status x = Function.update d.status win .absent x
    rw [Function.update_apply]
    split
    · rename_i hx
      rw [hx, status_absent, Live, freeWindow_created, freeWindow_freed _ _ _ hne, if_pos rfl, honce]
      exact Nat.lt_irrefl _
    · rename_i hx
      apply status_congr
      · rw [Live, Live, freeWindow_created, freeWindow_freed _ _ _ hne, if_neg hx]
      · rw [freeWindow_window]
  · show ((freeWindow win d).window x).refcount.toNat = (d.window x).refcount.toNat
    rw [freeWindow_window]
  · exact freeWindow_created d win x
  · show (freeWindow win d).log.count (.free x) = Function.update
      (fun x => d.log.count (HeapEvent.free x)) win (d.log.count (.free win) + 1) x
    rw [freeWindow_freed _ _ _ hne, Function.update_apply]

end FreeWindow

variable {win : Nat} {rest : List Nat}

section Holding

variable [DecidableEq κ] {k : κ}

omit [Fintype κ] [DecidableEq κ] in
/-- What `release_window_locked` leaves alone. -/
theorem releaseWindow_frame (win : Nat) (d : Desktop) :
    (∀ x, (releaseWindow win d).next x = d.next x) ∧
      (∀ x, ((releaseWindow win d).window x).destroyed = (d.window x).destroyed) ∧
      (releaseWindow win d).manager.windowList = d.manager.windowList ∧
      (releaseWindow win d).draggingWindow = d.draggingWindow := by
  unfold releaseWindow
  dsimp only
  split_ifs
  · exact ⟨fun _ => rfl, fun _ => rfl, rfl, rfl⟩
  · refine ⟨fun x => ?_, fun x => ?_, ?_, ?_⟩
    · rw [next, freeWindow_window]
      exact d.updateWindow_field win x _ (·.next) rfl
    · rw [freeWindow_window]
      exact d.updateWindow_field win x _ (·.destroyed) rfl
    · rw [freeWindow_list]
      rfl
    · rw [freeWindow_dragging]
      rfl
  · exact ⟨fun x => d.updateWindow_field win x _ (·.next) rfl,
      fun x => d.updateWindow_field win x _ (·.destroyed) rfl, rfl, rfl⟩

/-- **`release_window_locked` gives a reference back.** -/
theorem releaseWindow_registry (h : d.Kept held l) (hk : held k = win :: rest) :
    (releaseWindow win d).registry (Function.update held k rest) =
      (d.registry held).release k win rest := by
  have hmem : win ∈ held k := by
    rw [hk]
    exact List.mem_cons_self
  have hlive := h.live_of_held hmem
  have hpos : 0 < (d.window win).refcount.toNat := h.sound.count_pos hmem
  have hcount : (d.window win).refcount ≠ 0 := by
    intro he
    rw [he] at hpos
    exact absurd hpos (by decide)
  have hdec : ((d.window win).refcount - 1).toNat = (d.window win).refcount.toNat - 1 := by
    rw [BitVec.toNat_sub_of_le (by rw [BitVec.le_def]; exact hpos)]
    rfl
  obtain ⟨d', hd'⟩ : ∃ d', d' = d.updateWindow win fun w => { w with refcount := w.refcount - 1 } :=
    ⟨_, rfl⟩
  have hself : (d'.window win).refcount = (d.window win).refcount - 1 := by
    rw [hd', updateWindow_window, if_pos rfl]
  have hdestroyed : ∀ x, (d'.window x).destroyed = (d.window x).destroyed := fun x => by
    rw [hd']
    exact d.updateWindow_field win x _ (·.destroyed) rfl
  have hlog : d'.log = d.log := by rw [hd']; rfl
  -- the count goes down by one
  have hdrop : d'.registry (Function.update held k rest) = { d.registry held with
      count := Function.update (d.registry held).count win ((d.registry held).count win - 1)
      held := Function.update held k rest } := by
    refine Registry.ext (funext fun x => ?_) (funext fun x => ?_) rfl ?_ ?_
    · exact status_congr (by rw [Live, Live, hlog]) (hdestroyed x)
    · show (d'.window x).refcount.toNat = Function.update
        (fun x => (d.window x).refcount.toNat) win ((d.window win).refcount.toNat - 1) x
      rw [Function.update_apply]
      split
      · rename_i hx
        rw [hx, hself, hdec]
      · rename_i hx
        rw [hd', updateWindow_window, if_neg hx]
    · exact funext fun x => by rw [registry, hlog]; rfl
    · exact funext fun x => by rw [registry, hlog]; rfl
  have hlast : ((d'.window win).destroyed = true ∧ (d'.window win).refcount = 0) ↔
      ((d.registry held).status win = .retired ∧ (d.registry held).count win - 1 = 0) := by
    rw [hdestroyed, hself]
    refine and_congr ?_ ?_
    · exact ⟨fun he => (d.status_retired win).mpr ⟨hlive, he⟩,
        fun he => ((d.status_retired win).mp he).2⟩
    · rw [← BitVec.toNat_inj, hdec]
      exact Iff.rfl
  have hrelease : releaseWindow win d =
      if (d'.window win).destroyed = true ∧ (d'.window win).refcount = 0 then freeWindow win d'
      else d' := by
    rw [releaseWindow, if_neg (not_or.mpr ⟨h.ne_null hlive, hcount⟩), ← hd']
  rw [hrelease, Registry.release]
  by_cases hfree : (d'.window win).destroyed = true ∧ (d'.window win).refcount = 0
  · rw [if_pos hfree, if_pos (hlast.mp hfree)]
    have honce := h.sound.created win
    rw [if_neg (h.sound.held k win hmem)] at honce
    rw [freeWindow_registry d' win _ (h.ne_null hlive) (by rw [hlog]; exact honce), hdrop]
    rfl
  · rw [if_neg hfree, if_neg fun hc => hfree (hlast.mpr hc)]
    exact hdrop

theorem Kept.release (h : d.Kept held l) (hk : held k = win :: rest) :
    (releaseWindow win d).Kept (Function.update held k rest) l := by
  obtain ⟨hnext, -, hlist, hdrag⟩ := releaseWindow_frame win d
  have hreg := releaseWindow_registry h hk
  -- the status changes where this was the last reference to a window that was destroyed
  have hstatus : ∀ x, (releaseWindow win d).status x =
      if x = win ∧ (d.registry held).LastRelease win then .absent else d.status x := by
    intro x
    have hx := congrFun (congrArg Registry.status hreg) x
    rw [Registry.release_status] at hx
    exact hx
  constructor
  · rw [hlist]
    exact h.linked.congr fun x _ => hnext x
  · intro x
    rw [hstatus, h.listed]
    split
    · -- what is freed was not in the list
      rename_i hlast
      obtain ⟨rfl, hretired, -⟩ := hlast
      have hgone : d.status x = .retired := hretired
      rw [hgone]
      exact iff_of_false nofun nofun
    · exact Iff.rfl
  · rw [hreg]
    exact h.sound.release hk
  · rw [← status_absent, hstatus]
    split
    · rfl
    · exact (d.status_absent 0).mpr h.null
  · rw [hdrag]
    exact h.drag

/-- **`release_window_refs_locked` gives all references back.** -/
theorem Kept.releaseRefs (h : d.Kept held l) {wins : List Nat} (hk : held k = wins) :
    (releaseWindowRefs wins d).Kept (Function.update held k []) l := by
  induction wins generalizing d held with
  | nil =>
    have hsame : Function.update held k [] = held := by rw [← hk, Function.update_eq_self]
    rw [hsame]
    exact h
  | cons win rest ih =>
    have hrest := ih (h.release hk) (Function.update_self _ _ _)
    rw [Function.update_idem] at hrest
    exact hrest

/-- **`retain_window_locked` takes a reference.** -/
theorem Kept.retain (h : d.Kept held l) (hlive : d.Live win)
    (hmax : (d.window win).refcount ≠ BitVec.allOnes 32) (k : κ) :
    (retainWindow win d).Kept (Function.update held k (held k ++ [win])) l := by
  have hretain : retainWindow win d = d.updateWindow win fun w => { w with refcount := w.refcount + 1 } := by
    rw [retainWindow, if_neg (h.ne_null hlive)]
  have hinc : ((d.window win).refcount + 1).toNat = (d.window win).refcount.toNat + 1 := by
    have hlt : (d.window win).refcount.toNat < 2 ^ 32 - 1 := by
      refine lt_of_le_of_ne (by omega) fun he => hmax ?_
      rw [← BitVec.toNat_inj, he, BitVec.toNat_allOnes]
    rw [BitVec.toNat_add_of_lt (by rw [show (1 : BitVec 32).toNat = 1 from rfl]; omega)]
    rfl
  have hdestroyed : ∀ x, ((retainWindow win d).window x).destroyed = (d.window x).destroyed :=
    fun x => by
      rw [hretain]
      exact d.updateWindow_field win x _ (·.destroyed) rfl
  have hlog : (retainWindow win d).log = d.log := by rw [hretain]; rfl
  have hstatus : (retainWindow win d).status = d.status :=
    funext fun x => status_congr (by rw [Live, Live, hlog]) (hdestroyed x)
  -- The call is `retain` of the registry; the list is not written.
  have hreg : (retainWindow win d).registry (Function.update held k (held k ++ [win])) =
      (d.registry held).retain k win := by
    refine Registry.ext hstatus (funext fun x => ?_) rfl ?_ ?_
    · show ((retainWindow win d).window x).refcount.toNat = Function.update
        (fun x => (d.window x).refcount.toNat) win ((d.window win).refcount.toNat + 1) x
      rw [hretain, updateWindow_window, Function.update_apply]
      split
      · exact hinc
      · rfl
    · exact funext fun x => by rw [registry, hlog]; rfl
    · exact funext fun x => by rw [registry, hlog]; rfl
  constructor
  · rw [hretain]
    exact h.linked.congr fun x _ => d.updateWindow_field win x _ (·.next) rfl
  · rw [hstatus]
    exact h.listed
  · rw [hreg]
    exact h.sound.retain (fun he => (d.status_absent win).mp he hlive) k
  · rw [Live, hlog]
    exact h.null
  · rw [hretain]
    exact h.drag

/-- **`snapshot_window_list` holds the first windows of the list.** -/
theorem Kept.snapshotFrom (h : d.Kept held l) {max curr : Nat} {m : List Nat}
    (hm : Linked d.next 0 curr m) (hsub : m ⊆ l)
    (hmax : ∀ win ∈ m.take max, (d.window win).refcount ≠ BitVec.allOnes 32) (k : κ) :
    (ZohoOs.snapshotFrom max curr d).1.map Prod.fst = m.take max ∧
      (ZohoOs.snapshotFrom max curr d).2.Kept (Function.update held k (held k ++ m.take max)) l := by
  induction max generalizing curr d m held with
  | zero =>
    refine ⟨rfl, ?_⟩
    rw [List.take_zero, List.append_nil, Function.update_eq_self]
    exact h
  | succ max ih =>
    cases m with
    | nil =>
      obtain rfl : curr = 0 := hm
      rw [ZohoOs.snapshotFrom, if_pos rfl]
      refine ⟨rfl, ?_⟩
      rw [List.take_nil, List.append_nil, Function.update_eq_self]
      exact h
    | cons win rest =>
      obtain ⟨rfl, hne, hrest⟩ := hm
      have hwin : curr ∈ l := hsub List.mem_cons_self
      have hret := h.retain (h.live_of_mem hwin).1 (hmax curr (List.mem_cons_self)) k
      have hnext : ∀ x, (retainWindow curr d).next x = d.next x := by
        intro x
        rw [retainWindow, if_neg hne]
        exact d.updateWindow_field curr x _ (·.next) rfl
      have hfrom : Linked (retainWindow curr d).next 0 ((retainWindow curr d).next curr) rest := by
        rw [hnext]
        exact hrest.congr fun x _ => hnext x
      -- the windows behind this one are others
      have hnodup : curr ∉ rest := by
        have hl : Linked d.next 0 curr (curr :: rest) := ⟨rfl, hne, hrest⟩
        exact (List.nodup_cons.mp hl.nodup).1
      obtain ⟨hheld, hkept⟩ := ih hret hfrom (fun x hx => hsub (List.mem_cons_of_mem _ hx))
        fun x hx => by
          rw [retainWindow, if_neg hne, updateWindow_window, if_neg]
          · exact hmax x (List.mem_cons_of_mem _ hx)
          · rintro rfl
            exact hnodup (List.mem_of_mem_take hx)
      rw [Function.update_self, Function.update_idem, List.append_assoc] at hkept
      rw [ZohoOs.snapshotFrom, if_neg hne]
      exact ⟨by rw [List.take_succ_cons, ← hheld]; rfl, hkept⟩

end Holding

/-! ## The loop of `window_destroy_by_pid` -/

/-- `prev` is the last of the windows `pre`, or `NULL` where there is none. -/
def Precedes (prev : Nat) (pre : List Nat) : Prop :=
  (prev = 0 ∧ pre = []) ∨ ∃ pre', pre = pre' ++ [prev]

theorem Precedes.append {prev curr : Nat} {pre : List Nat} (_ : Precedes prev pre) :
    Precedes curr (pre ++ [curr]) := Or.inr ⟨pre, rfl⟩

section Unlink

variable {prev curr : Nat} {pre : List Nat}

/-- What unlinking a window leaves alone. -/
theorem unlinkWindow_frame (prev curr : Nat) (d : Desktop) :
    (∀ x, x ≠ prev → (unlinkWindow prev curr d).next x = d.next x) ∧
      (∀ x, ((unlinkWindow prev curr d).window x).refcount = (d.window x).refcount) ∧
      (∀ x, ((unlinkWindow prev curr d).window x).destroyed = (d.window x).destroyed) ∧
      (unlinkWindow prev curr d).draggingWindow = d.draggingWindow ∧
      (unlinkWindow prev curr d).log = d.log := by
  unfold unlinkWindow
  dsimp only
  split_ifs
  · refine ⟨fun x hx => ?_, fun x => d.updateWindow_field prev x _ (·.refcount) rfl,
      fun x => d.updateWindow_field prev x _ (·.destroyed) rfl, rfl, rfl⟩
    rw [next, updateWindow_window, if_neg hx]
    rfl
  · exact ⟨fun _ _ => rfl, fun _ => rfl, fun _ => rfl, rfl, rfl⟩

/-- The list without the window. -/
theorem unlinkWindow_linked (h : Linked d.next 0 d.manager.windowList (pre ++ curr :: rest))
    (hprev : Precedes prev pre) :
    Linked (unlinkWindow prev curr d).next 0 (unlinkWindow prev curr d).manager.windowList
      (pre ++ rest) := by
  obtain ⟨hother, -, -, -, -⟩ := unlinkWindow_frame prev curr d
  rcases hprev with ⟨rfl, rfl⟩ | ⟨pre', rfl⟩
  · -- it was the first one
    obtain ⟨-, -, hrest⟩ := h
    rw [unlinkWindow, if_neg (not_not.mpr rfl)]
    exact hrest
  · rw [List.append_assoc] at h ⊢
    have hprev : prev ≠ 0 := h.ne_nil (List.mem_append_right _ List.mem_cons_self)
    have hlist : (unlinkWindow prev curr d).manager.windowList = d.manager.windowList := by
      rw [unlinkWindow, if_pos hprev]
      rfl
    have hnodup := h.nodup
    rw [hlist]
    refine h.unlink ?_ fun x hx => hother x ?_
    · rw [unlinkWindow, if_pos hprev, next, updateWindow_window, if_pos rfl]
    · rintro rfl
      obtain ⟨-, hcons, hdisj⟩ := List.nodup_append.mp hnodup
      rcases List.mem_append.mp hx with hx | hx
      · exact hdisj x hx x List.mem_cons_self rfl
      · exact (List.nodup_cons.mp hcons).1 (List.mem_cons_of_mem _ hx)

end Unlink

/-- The desktop where a window was taken from the list and marked, before it is freed. -/
def marked (prev curr : Nat) (d : Desktop) : Desktop :=
  let d := unlinkWindow prev curr (d.queueDirty (windowOuterRect (d.window curr)))
  let d := if d.draggingWindow = curr then { d with draggingWindow := 0 } else d
  d.updateWindow curr fun w => { w with destroyed := true }

theorem marked_frame (prev curr : Nat) (d : Desktop) :
    (∀ x, (marked prev curr d).next x = (unlinkWindow prev curr d).next x) ∧
      (marked prev curr d).manager.windowList = (unlinkWindow prev curr d).manager.windowList ∧
      (marked prev curr d).draggingWindow =
        (if d.draggingWindow = curr then 0 else d.draggingWindow) ∧
      (∀ x, ((marked prev curr d).window x).refcount = (d.window x).refcount) ∧
      (∀ x, ((marked prev curr d).window x).destroyed =
        if x = curr then true else (d.window x).destroyed) ∧
      (marked prev curr d).log = d.log := by
  obtain ⟨t, ht⟩ : ∃ t, t = unlinkWindow prev curr (d.queueDirty (windowOuterRect (d.window curr))) :=
    ⟨_, rfl⟩
  obtain ⟨-, hcount, hdestroyed, hdrag, hlog⟩ :=
    unlinkWindow_frame prev curr (d.queueDirty (windowOuterRect (d.window curr)))
  rw [← ht] at hcount hdestroyed hdrag hlog
  -- `t` is the desktop after the unlink, `u` the one after the drag is dropped: `u` has the windows
  -- of `t`, and each of the six parts reads through both in turn.
  obtain ⟨u, hu⟩ : ∃ u : Desktop, u = if t.draggingWindow = curr then { t with draggingWindow := 0 }
    else t := ⟨_, rfl⟩
  have hwindow : ∀ x, u.window x = t.window x := fun x => by
    rw [hu]
    split <;> rfl
  have hmarked : marked prev curr d = u.updateWindow curr fun w => { w with destroyed := true } := by
    rw [hu, ht]
    rfl
  have hsame : (∀ x, t.next x = (unlinkWindow prev curr d).next x) ∧
      t.manager.windowList = (unlinkWindow prev curr d).manager.windowList := by
    rw [ht]
    unfold unlinkWindow
    dsimp only
    split_ifs
    · exact ⟨fun _ => rfl, rfl⟩
    · exact ⟨fun _ => rfl, rfl⟩
  rw [hmarked]
  refine ⟨fun x => ?_, ?_, ?_, fun x => ?_, fun x => ?_, ?_⟩
  · refine (u.updateWindow_field curr x _ (·.next) rfl).trans ?_
    rw [hwindow]
    exact hsame.1 x
  · refine Eq.trans ?_ hsame.2
    show u.manager.windowList = _
    rw [hu]
    split <;> rfl
  · show u.draggingWindow = _
    rw [hu, hdrag]
    show (if d.draggingWindow = curr then _ else t).draggingWindow = _
    split
    · rfl
    · exact hdrag
  · refine (u.updateWindow_field curr x _ (·.refcount) rfl).trans ?_
    rw [hwindow]
    exact hcount x
  · rw [updateWindow_window, hwindow, hwindow]
    split
    · rfl
    · exact hdestroyed x
  · refine Eq.trans ?_ hlog
    show u.log = t.log
    rw [hu]
    split <;> rfl

theorem destroyWindow_eq (prev curr : Nat) (d : Desktop) : destroyWindow prev curr d =
    if ((marked prev curr d).window curr).refcount = 0 then freeWindow curr (marked prev curr d)
    else marked prev curr d := rfl

/-- **Destroying a window** retires it. -/
theorem destroyWindow_registry (prev : Nat) {curr : Nat} (h : d.Kept held l) (hmem : curr ∈ l) :
    (destroyWindow prev curr d).registry held = (d.registry held).retire curr := by
  obtain ⟨hlive, -⟩ := h.live_of_mem hmem
  obtain ⟨-, -, -, hcount, hdestroyed, hlog⟩ := marked_frame prev curr d
  -- being marked, the window is retired, and freed if nothing refers to it
  have hmarked : (marked prev curr d).registry held = { d.registry held with
      status := Function.update d.status curr .retired } := by
    refine Registry.ext (funext fun x => ?_) (funext fun x => ?_) rfl ?_ ?_
    · show (marked prev curr d).status x = Function.update d.status curr .retired x
      rw [Function.update_apply]
      split
      · rename_i hx
        rw [hx, status_retired, hdestroyed, if_pos rfl, Live, hlog]
        exact ⟨hlive, rfl⟩
      · rename_i hx
        exact status_congr (by rw [Live, Live, hlog]) ((hdestroyed x).trans (if_neg hx))
    · exact congrArg BitVec.toNat (hcount x)
    · exact funext fun x => by rw [registry, hlog]; rfl
    · exact funext fun x => by rw [registry, hlog]; rfl
  have hzero : ((marked prev curr d).window curr).refcount = 0 ↔ (d.registry held).count curr = 0 := by
    rw [hcount, ← BitVec.toNat_inj]
    exact Iff.rfl
  rw [destroyWindow_eq, Registry.retire]
  by_cases hfree : ((marked prev curr d).window curr).refcount = 0
  · rw [if_pos hfree, if_pos (hzero.mp hfree)]
    -- it has been created once, so it is freed once
    have hpresent : (d.registry held).status curr ≠ .absent := fun he =>
      (d.status_absent curr).mp he hlive
    have honce := h.sound.created curr
    rw [if_neg hpresent] at honce
    rw [freeWindow_registry _ curr held (h.ne_null hlive) (by rw [hlog]; exact honce), hmarked]
    rfl
  · rw [if_neg hfree, if_neg fun hc => hfree (hzero.mpr hc)]
    exact hmarked

/-- **The list without a destroyed window** is kept. -/
theorem Kept.destroy {pre : List Nat} {prev curr : Nat} (h : d.Kept held (pre ++ curr :: rest))
    (hprev : Precedes prev pre) : (destroyWindow prev curr d).Kept held (pre ++ rest) ∧
      ∀ x ∈ curr :: rest, (destroyWindow prev curr d).next x = d.next x := by
  have hmem : curr ∈ pre ++ curr :: rest := List.mem_append_right _ List.mem_cons_self
  obtain ⟨hlive, -⟩ := h.live_of_mem hmem
  obtain ⟨-, hncons, hdisj⟩ := List.nodup_append.mp h.linked.nodup
  obtain ⟨hmnext, hmlist, hmdrag, -, -, -⟩ := marked_frame prev curr d
  have hreg := destroyWindow_registry prev h hmem
  have hnext : ∀ x, (destroyWindow prev curr d).next x = (unlinkWindow prev curr d).next x := by
    intro x
    rw [destroyWindow_eq]
    split
    · rw [next, freeWindow_window]
      exact hmnext x
    · exact hmnext x
  have hlist : (destroyWindow prev curr d).manager.windowList =
      (unlinkWindow prev curr d).manager.windowList := by
    rw [destroyWindow_eq]
    split
    · rw [freeWindow_list]
      exact hmlist
    · exact hmlist
  have hdrag : (destroyWindow prev curr d).draggingWindow =
      if d.draggingWindow = curr then 0 else d.draggingWindow := by
    rw [destroyWindow_eq]
    split
    · rw [freeWindow_dragging]
      exact hmdrag
    · exact hmdrag
  have hstatus : ∀ x, (destroyWindow prev curr d).status x =
      if x = curr then (if (d.registry held).count curr = 0 then .absent else .retired)
      else d.status x := by
    intro x
    have hx := congrFun (congrArg Registry.status hreg) x
    rw [Registry.retire_status] at hx
    exact hx
  -- The list has no window twice, so `curr` was on it once only.
  have hcurr : curr ∉ pre ++ rest := by
    intro hc
    rcases List.mem_append.mp hc with hc | hc
    · exact hdisj curr hc curr List.mem_cons_self rfl
    · exact (List.nodup_cons.mp hncons).1 hc
  have hrest : ∀ x, x ≠ curr → (x ∈ pre ++ rest ↔ x ∈ pre ++ curr :: rest) := by
    intro x hx
    rw [List.mem_append, List.mem_append, List.mem_cons]
    exact or_congr Iff.rfl ⟨Or.inr, fun hm => hm.resolve_left hx⟩
  refine ⟨⟨?_, fun x => ?_, ?_, ?_, ?_⟩, fun x hx => ?_⟩
  · rw [hlist]
    exact (unlinkWindow_linked h.linked hprev).congr fun x _ => hnext x
  · rw [hstatus]
    split
    · rename_i hx
      rw [hx]
      refine iff_of_false hcurr ?_
      split <;> exact nofun
    · rename_i hx
      rw [hrest x hx]
      exact h.listed x
  · rw [hreg]
    exact h.sound.retire fun he => (d.status_absent curr).mp he hlive
  · rw [← status_absent, hstatus, if_neg (h.ne_null hlive).symm]
    exact (d.status_absent 0).mpr h.null
  · rw [hdrag]
    split
    · exact Or.inl rfl
    · rename_i hne
      exact h.drag.imp id fun hd => (hrest _ hne).mpr hd
  · -- The unlink writes the link of `prev` alone, and `prev` is in the part before `curr`.
    rw [hnext]
    apply (unlinkWindow_frame prev curr d).1
    rintro rfl
    rcases hprev with ⟨rfl, -⟩ | ⟨pre', rfl⟩
    · exact h.linked.ne_nil (List.mem_append_right _ hx) rfl
    · exact hdisj x (List.mem_append_right _ (List.mem_singleton_self _)) x hx rfl

/-- **`window_destroy_by_pid` ends**, and keeps the list. -/
theorem Kept.destroyFrom {pid : BitVec 64} {fuel prev curr : Nat} {pre m : List Nat}
    (h : d.Kept held (pre ++ m)) (hm : Linked d.next 0 curr m) (hprev : Precedes prev pre)
    (hfuel : m.length < fuel) :
    ∃ d' l', destroyFrom pid fuel prev curr d = some d' ∧ d'.Kept held l' := by
  induction m generalizing fuel prev curr pre d with
  | nil =>
    obtain ⟨fuel, rfl⟩ : ∃ f, fuel = f + 1 := ⟨fuel - 1, by omega⟩
    obtain rfl : curr = 0 := hm
    exact ⟨d, _, by rw [ZohoOs.destroyFrom, if_pos rfl], h⟩
  | cons win rest ih =>
    obtain ⟨fuel, rfl⟩ : ∃ f, fuel = f + 1 := ⟨fuel - 1, by omega⟩
    obtain ⟨rfl, hne, hrest⟩ := hm
    rw [ZohoOs.destroyFrom, if_neg hne]
    rw [List.length_cons] at hfuel
    by_cases howner : (d.window curr).ownerPid = pid
    · rw [if_pos howner]
      obtain ⟨hkept, hnext⟩ := h.destroy hprev
      apply ih hkept ?_ hprev (by omega)
      exact hrest.congr fun x hx => hnext x (List.mem_cons_of_mem _ hx)
    · -- the window stays, and is the one before the next
      rw [if_neg howner]
      have hkept : d.Kept held ((pre ++ [curr]) ++ rest) := by
        rw [List.append_assoc]
        exact h
      exact ih hkept hrest hprev.append (by omega)

/-! ## Creating -/

/-- **A new window** is first in the list. -/
theorem Kept.create (h : d.Kept held l) (hfree : ¬ d.Live win) (hne : win ≠ 0)
    (x y width height bgColor : BitVec 32) :
    (d.create win x y width height bgColor).Kept held (win :: l) := by
  obtain ⟨d', hd'⟩ : ∃ d', d' = d.create win x y width height bgColor := ⟨_, rfl⟩
  rw [← hd']
  -- what the section does to the windows, the list and the log
  have hwindow : ∀ p, p ≠ win → d'.window p = d.window p := fun p hp => by
    rw [hd', d.create_window win x y width height bgColor hp]
  obtain ⟨w', hself, hcount, hon, -, hnext, -⟩ := d.create_new win x y width height bgColor
  rw [← hd'] at hself
  have hlist : d'.manager.windowList = win := by rw [hd', create_list]
  have hdrag : d'.draggingWindow = d.draggingWindow := by rw [hd', create_draggingWindow]
  have hcreated : ∀ p, d'.log.count (.create p) =
      d.log.count (.create p) + if p = win then 1 else 0 := fun p => by
    rw [hd', create_created x y width height bgColor d hne p]
  have hfreed : ∀ p, d'.log.count (.free p) = d.log.count (.free p) := fun p => by
    rw [hd', create_freed x y width height bgColor d hne p]
  have habsent : d.status win = .absent := (d.status_absent win).mpr hfree
  have hstatus : ∀ p, d'.status p = if p = win then .listed else d.status p := by
    intro p
    split
    · -- as often freed as it was created before
      rename_i hp
      have honce := h.sound.created win
      rw [if_pos (show (d.registry held).status win = .absent from habsent)] at honce
      rw [hp, status_listed, Live, hcreated, hfreed, if_pos rfl]
      exact ⟨Nat.lt_succ_of_le (Nat.le_of_eq honce.symm), hself ▸ hon⟩
    · rename_i hp
      apply status_congr
      · rw [Live, Live, hcreated, hfreed, if_neg hp]
        rfl
      · rw [hwindow p hp]
  -- that is the creation of the object in the registry
  have hreg : d'.registry held = (d.registry held).create win := by
    refine Registry.ext (funext fun p => ?_) (funext fun p => ?_) rfl (funext fun p => ?_)
      (funext fun p => hfreed p)
    · rw [Registry.create_status]
      exact hstatus p
    · rw [Registry.create_count]
      show (d'.window p).refcount.toNat = if p = win then 0 else (d.window p).refcount.toNat
      split
      · rename_i hp
        rw [hp, hself, hcount]
        rfl
      · rename_i hp
        rw [hwindow p hp]
    · rw [Registry.create_created]
      refine (hcreated p).trans ?_
      split
      · rename_i hp
        rw [hp]
        rfl
      · rfl
  constructor
  · rw [hlist]
    refine h.linked.push hne ((congrArg Window.next hself).trans hnext) fun p hp => ?_
    rw [next, hwindow]
    · rfl
    · rintro rfl
      exact hfree (h.live_of_mem hp).1
  · intro p
    rw [List.mem_cons, hstatus, h.listed]
    split
    · rename_i hp
      exact iff_of_true (Or.inl hp) rfl
    · rename_i hp
      exact ⟨fun hm => hm.resolve_left hp, Or.inr⟩
  · rw [hreg]
    exact h.sound.create habsent
  · rw [Live, hcreated, hfreed, if_neg hne.symm]
    exact h.null
  · rw [hdrag]
    exact h.drag.imp id fun hm => List.mem_cons_of_mem _ hm

/-! ## The parts of `window_update` -/

theorem windowPushEvent_same (win : Nat) (event : GuiEvent) (d : Desktop) :
    Same d (windowPushEvent win event d) ∧
      (windowPushEvent win event d).draggingWindow = d.draggingWindow := by
  unfold windowPushEvent
  dsimp only
  split
  · exact ⟨Same.refl d, rfl⟩
  · exact ⟨Same.update d win rfl rfl rfl, rfl⟩

/-- The loop finds the window before. -/
theorem findPrev_eq {t fuel curr : Nat} {pre : List Nat}
    (h : Linked d.next 0 curr (pre ++ t :: win :: rest)) (hfuel : pre.length < fuel) :
    findPrev d win fuel curr = some t := by
  induction pre generalizing fuel curr with
  | nil =>
    obtain ⟨fuel, rfl⟩ : ∃ f, fuel = f + 1 := ⟨fuel - 1, by omega⟩
    obtain ⟨rfl, hne, hnext, -, -⟩ := h
    rw [findPrev, if_neg hne, if_pos hnext]
  | cons x pre ih =>
    obtain ⟨fuel, rfl⟩ : ∃ f, fuel = f + 1 := ⟨fuel - 1, by omega⟩
    have hnodup := h.nodup
    obtain ⟨rfl, hne, hrest⟩ := h
    rw [List.length_cons] at hfuel
    -- the window after this one is another
    have hnot : d.next curr ≠ win := by
      intro he
      rw [he] at hrest
      have hcons := (List.nodup_cons.mp hnodup).2
      cases pre with
      | nil =>
        obtain ⟨rfl, -, -⟩ := hrest
        exact (List.nodup_cons.mp hcons).1 List.mem_cons_self
      | cons y pre =>
        obtain ⟨rfl, -, -⟩ := hrest
        refine (List.nodup_cons.mp hcons).1 (List.mem_append_right _ ?_)
        exact List.mem_cons_of_mem _ List.mem_cons_self
    rw [findPrev, if_neg hne, if_neg hnot]
    exact ih hrest (by omega)

omit [Fintype κ] in
theorem mem_toFront {α : Type*} {a t x : α} {pre rest : List α} :
    x ∈ a :: (pre ++ t :: rest) ↔ x ∈ pre ++ t :: a :: rest := by
  simp only [List.mem_cons, List.mem_append]
  tauto

omit [Fintype κ] in
/-- Moving a window changes links only. -/
theorem moveToFront_field {β : Type*} (g : Window → β) (hg : ∀ w n, g { w with next := n } = g w)
    (t win x : Nat) (d : Desktop) : g ((moveToFront t win d).window x) = g (d.window x) :=
  (updateWindow_field (d.updateWindow t fun w => { w with next := d.next win }) win x
    (fun w => { w with next := d.manager.windowList }) g (hg _ _)).trans
    (d.updateWindow_field t x (fun w => { w with next := d.next win }) g (hg _ _))

omit [Fintype κ] in
theorem moveToFront_counts (t win : Nat) (d : Desktop) : SameCounts d (moveToFront t win d) where
  refcount x := moveToFront_field (·.refcount) (fun _ _ => rfl) t win x d
  destroyed x := moveToFront_field (·.destroyed) (fun _ _ => rfl) t win x d
  log := rfl

omit [Fintype κ] in
/-- A window is linked before the first one, and out of its place. -/
theorem moveToFront_linked {t : Nat} {pre : List Nat}
    (h : Linked d.next 0 d.manager.windowList (pre ++ t :: win :: rest)) :
    Linked (moveToFront t win d).next 0 (moveToFront t win d).manager.windowList
      (win :: (pre ++ t :: rest)) := by
  have hnodup := h.nodup
  obtain ⟨-, hcons, hdisj⟩ := List.nodup_append.mp hnodup
  obtain ⟨htcons, hwcons⟩ := List.nodup_cons.mp hcons
  have hwin : win ∈ pre ++ t :: win :: rest := mem_toFront.mp List.mem_cons_self
  have ht : t ≠ win := fun he => htcons (he ▸ List.mem_cons_self)
  have hwpre : win ∉ pre := fun hm =>
    hdisj win hm win (List.mem_cons_of_mem _ List.mem_cons_self) rfl
  have hwrest : win ∉ rest := (List.nodup_cons.mp hwcons).1
  obtain ⟨d', hd'⟩ : ∃ d', d' = d.updateWindow t fun w => { w with next := d.next win } := ⟨_, rfl⟩
  obtain ⟨u, hu⟩ : ∃ u, u = d'.updateWindow win fun w => { w with next := d.manager.windowList } :=
    ⟨_, rfl⟩
  have hmove : moveToFront t win d = u.setList win := by
    rw [hu, hd']
    rfl
  -- out of its place first
  have hout : Linked d'.next 0 d.manager.windowList (pre ++ t :: rest) := by
    refine h.unlink ?_ fun x hx => ?_
    · rw [hd', next, updateWindow_window, if_pos rfl]
    · rw [hd', next, updateWindow_window, if_neg]
      · rfl
      · rintro rfl
        rcases List.mem_append.mp hx with hx | hx
        · exact hdisj x hx x List.mem_cons_self rfl
        · exact htcons (List.mem_cons_of_mem _ hx)
  have hunext : ∀ x, u.next x = if x = win then d.manager.windowList else d'.next x := by
    intro x
    rw [hu, next, updateWindow_window]
    split <;> rfl
  rw [hmove]
  show Linked u.next 0 win _
  refine hout.push (h.ne_nil hwin) ?_ fun x hx => ?_
  · rw [hunext, if_pos rfl]
  · rw [hunext, if_neg]
    rintro rfl
    rcases List.mem_append.mp hx with hx | hx
    · exact hwpre hx
    · rcases List.mem_cons.mp hx with hx | hx
      · exact ht hx.symm
      · exact hwrest hx

omit [Fintype κ] in
/-- **Bringing a window to the front** ends. -/
theorem raiseWindow_linked (h : Linked d.next 0 d.manager.windowList l) (hwin : win ∈ l)
    (hfuel : l.length < d.listFuel) :
    (raiseWindow win d = some d ∧ ∃ rest, l = win :: rest) ∨
      ∃ pre t rest, l = pre ++ t :: win :: rest ∧ raiseWindow win d = some
        (((moveToFront t win d).queueDirty (windowOuterRect (d.window win))).queueDirty
          (windowOuterRect ((moveToFront t win d).window win))) := by
  rw [raiseWindow]
  obtain ⟨pre, rest, rfl⟩ := List.append_of_mem hwin
  rcases List.eq_nil_or_concat' pre with rfl | ⟨pre, t, rfl⟩
  · left
    rw [if_pos h.1.symm]
    exact ⟨rfl, rest, rfl⟩
  · right
    rw [List.append_assoc] at h hfuel
    have hlinked : Linked d.next 0 d.manager.windowList (pre ++ t :: win :: rest) := h
    have hlen : pre.length < d.listFuel := by
      simp only [List.length_append, List.length_cons] at hfuel
      omega
    have ht : t ≠ 0 := hlinked.ne_nil (List.mem_append_right _ List.mem_cons_self)
    -- the first window is another one
    have hfirst : win ≠ d.manager.windowList := by
      intro he
      have hnodup := hlinked.nodup
      cases pre with
      | nil =>
        obtain rfl : win = t := he.trans hlinked.1
        exact (List.nodup_cons.mp hnodup).1 List.mem_cons_self
      | cons x pre =>
        obtain rfl : win = x := he.trans hlinked.1
        refine (List.nodup_cons.mp hnodup).1 (List.mem_append_right _ ?_)
        exact List.mem_cons_of_mem _ List.mem_cons_self
    rw [if_neg hfirst, findPrev_eq hlinked hlen, Option.map_some, if_neg ht]
    exact ⟨pre, t, rest, List.append_assoc .., rfl⟩

/-- **Bringing a window to the front** keeps the list, in another order. -/
theorem Kept.raise (h : d.Kept held l) (hwin : win ∈ l) :
    ∃ d' l', raiseWindow win d = some d' ∧ d'.Kept held l' ∧ (∀ x, x ∈ l' ↔ x ∈ l) ∧
      d'.draggingWindow = d.draggingWindow := by
  rcases raiseWindow_linked h.linked hwin h.length_lt with ⟨hraise, -⟩ | ⟨pre, t, rest, rfl, hraise⟩
  · exact ⟨d, l, hraise, h, fun _ => Iff.rfl, rfl⟩
  · have hmoved : (moveToFront t win d).Kept held (win :: (pre ++ t :: rest)) :=
      h.relink (moveToFront_counts t win d) (moveToFront_linked h.linked) (fun _ => mem_toFront)
        (h.drag.imp id mem_toFront.mpr)
    have hsame := (Same.queueDirty (moveToFront t win d) (windowOuterRect (d.window win))).trans
      (Same.queueDirty _ (windowOuterRect ((moveToFront t win d).window win)))
    exact ⟨_, _, hraise, hmoved.same hsame hmoved.drag, fun _ => mem_toFront, rfl⟩

theorem dragWindow_same (mx my : BitVec 32) (d : Desktop) :
    Same d (dragWindow mx my d) ∧ (dragWindow mx my d).draggingWindow = d.draggingWindow := by
  unfold dragWindow
  dsimp only
  exact ⟨((Same.update d d.draggingWindow rfl rfl rfl).trans (Same.queueDirty _ _)).trans
    (Same.queueDirty _ _), rfl⟩

theorem windowMove_same (u : UpdateCall) (hit : WindowHit) (d : Desktop) :
    Same d (windowMove u hit d) ∧ (windowMove u hit d).draggingWindow = d.draggingWindow := by
  unfold windowMove
  dsimp only
  have hqueue := (Same.queueDirty d (cursorRect d.cursorX d.cursorY)).trans
    (Same.queueDirty _ (cursorRect u.mx u.my))
  split_ifs
  · obtain ⟨hpush, hdrag⟩ := windowPushEvent_same hit.win (bodyEvent guiEventMouseMove 0 u.mx u.my
      (((d.queueDirty (cursorRect d.cursorX d.cursorY)).queueDirty
        (cursorRect u.mx u.my)).window hit.win))
      ((d.queueDirty (cursorRect d.cursorX d.cursorY)).queueDirty (cursorRect u.mx u.my))
    exact ⟨hqueue.trans hpush, hdrag⟩
  · exact ⟨hqueue, rfl⟩
  · exact ⟨Same.refl d, rfl⟩

/-- **The button** ends, and keeps the list: what is dragged from then on is in it. -/
theorem Kept.press (h : d.Kept held l) {k : κ} {u : UpdateCall} {hit : WindowHit}
    (hhit : hit.win = 0 ∨ hit.win ∈ held k) :
    ∃ d' l', windowPress u hit d = some d' ∧ d'.Kept held l' := by
  have hstop : { d with draggingWindow := 0 }.Kept held l :=
    h.same ⟨⟨fun _ => rfl, fun _ => rfl, rfl⟩, fun _ => rfl, rfl⟩ (Or.inl rfl)
  rw [windowPress]
  split_ifs with hdown hdrag hon htitle hbody hdragged
  · -- the window goes to the front, and is dragged
    have hwin : hit.win ∈ l := h.mem_of_held (hhit.resolve_left hon.1) hon.2
    have hstart : { d with
        draggingWindow := hit.win
        dragOffX := u.mx - (d.window hit.win).x
        dragOffY := u.my - (d.window hit.win).y }.Kept held l :=
      h.same ⟨⟨fun _ => rfl, fun _ => rfl, rfl⟩, fun _ => rfl, rfl⟩ (Or.inr hwin)
    obtain ⟨d', l', hraise, hkept, -, -⟩ := hstart.raise hwin
    exact ⟨d', l', hraise, hkept⟩
  · obtain ⟨hsame, hdragging⟩ := windowPushEvent_same hit.win
      (bodyEvent guiEventMouseClick 1 u.mx u.my (d.window hit.win)) d
    exact ⟨_, l, rfl, h.same hsame (hdragging ▸ h.drag)⟩
  · exact ⟨d, l, rfl, h⟩
  · exact ⟨d, l, rfl, h⟩
  · obtain ⟨hsame, hdragging⟩ := dragWindow_same u.mx u.my d
    exact ⟨_, l, rfl, h.same hsame (hdragging ▸ h.drag)⟩
  · exact ⟨_, l, rfl, hstop⟩
  · exact ⟨_, l, rfl, hstop⟩

/-- **The second section of `window_update`** ends, gives back what the first one held, and keeps the
list. -/
theorem Kept.finish [DecidableEq κ] (h : d.Kept held l) {k : κ} {u : UpdateCall}
    {press move : WindowHit} (hheld : held k = u.held.map Prod.fst)
    (hpress : press.win = 0 ∨ press.win ∈ held k) :
    ∃ d' l', finishUpdate u press move d = some d' ∧ d'.Kept (Function.update held k []) l' := by
  -- the cursor's rectangle, the button, the move, and the references that are released at the end
  obtain ⟨d₀, hd₀⟩ : ∃ d₀, d₀ = if u.cursorWasInitialized then d
    else d.queueDirty (cursorRect u.mx u.my) := ⟨_, rfl⟩
  have hkept₀ : d₀.Kept held l := by
    rw [hd₀]
    split
    · exact h
    · exact h.same (Same.queueDirty _ _) h.drag
  obtain ⟨d₁, l', hpressed, hkept₁⟩ := hkept₀.press hpress
  obtain ⟨hsame, hdragging⟩ := windowMove_same u move d₁
  obtain ⟨d₂, hd₂⟩ : ∃ d₂, d₂ = { windowMove u move d₁ with
    cursorX := u.mx, cursorY := u.my, lastMb := u.mb, lastMx := u.mx, lastMy := u.my } := ⟨_, rfl⟩
  have hkept₂ : d₂.Kept held l' := by
    rw [hd₂]
    refine (hkept₁.same hsame (hdragging ▸ hkept₁.drag)).same
      ⟨⟨fun _ => rfl, fun _ => rfl, rfl⟩, fun _ => rfl, rfl⟩ ?_
    exact hdragging ▸ hkept₁.drag
  obtain ⟨d₃, hd₃⟩ : ∃ d₃, d₃ = releaseWindowRefs (u.held.map Prod.fst) d₂ := ⟨_, rfl⟩
  have hkept₃ : d₃.Kept (Function.update held k []) l' := hd₃ ▸ hkept₂.releaseRefs hheld
  have hfinish := finishUpdate_of_press move hd₀ hpressed hd₂ hd₃
  refine ⟨_, l', hfinish, ?_⟩
  split
  · exact hkept₃.same ⟨⟨fun _ => rfl, fun _ => rfl, rfl⟩, fun _ => rfl, rfl⟩ (Or.inl rfl)
  · exact hkept₃

end Keeps

end Desktop

/-! ## Interleavings -/

theorem findWindowHit_mem (mx my : BitVec 32) (held : List (Nat × WindowSnapshot)) :
    (findWindowHit mx my held).win = 0 ∨
      (findWindowHit mx my held).win ∈ held.map Prod.fst := by
  induction held with
  | nil => exact Or.inl rfl
  | cons entry rest ih =>
    have hrest := ih.imp id (List.mem_cons_of_mem entry.1)
    rw [findWindowHit]
    split_ifs
    · exact hrest
    · exact hrest
    · exact Or.inr List.mem_cons_self
    · exact Or.inr List.mem_cons_self

theorem firstWindows_eq {d : Desktop} {curr : Nat} {l : List Nat} (h : Linked d.next 0 curr l)
    (max : Nat) : d.firstWindows max curr = l.take max := by
  induction max generalizing curr l with
  | zero => rfl
  | succ max ih =>
    cases l with
    | nil =>
      obtain rfl : curr = 0 := h
      rfl
    | cons win rest =>
      obtain ⟨rfl, hne, hrest⟩ := h
      rw [Desktop.firstWindows, if_neg hne, ih hrest]
      rfl

namespace WindowSystem

variable {κ : Type}

/-- The windows each call holds. -/
def held (s : WindowSystem κ) (k : κ) : List Nat := (s.calls k).windows

/-- The windows are created, nothing is held, and nothing is dragged: the state `window_init` leaves. -/
structure Start (s : WindowSystem κ) : Prop where
  list : s.desktop.manager.windowList = 0
  dragging : s.desktop.draggingWindow = 0
  log : s.desktop.log = []
  calls : ∀ k, s.calls k = .out

/-- **What the lifetime of windows is to be**: each is freed at most once, never while it is held or in
the list, a destroyed one is freed unless it is held, and what is dragged is in the list. -/
structure Lifetime (s : WindowSystem κ) : Prop where
  freed : ∀ win, s.desktop.log.count (.free win) ≤ s.desktop.log.count (.create win) ∧
    s.desktop.log.count (.create win) ≤ s.desktop.log.count (.free win) + 1
  held : ∀ k, ∀ win ∈ s.held k, s.desktop.Live win
  destroyed : ∀ win, s.desktop.Live win → (s.desktop.window win).destroyed = true →
    ∃ k, win ∈ s.held k
  list : ∃ l, Linked s.desktop.next 0 s.desktop.manager.windowList l ∧
    (∀ win ∈ l, s.desktop.Live win ∧ (s.desktop.window win).destroyed = false) ∧
    (s.desktop.draggingWindow = 0 ∨ s.desktop.draggingWindow ∈ l)

variable [Fintype κ]

/-- What holds between the sections: a window found under the mouse is held by the call. -/
structure Kept (s : WindowSystem κ) (l : List Nat) : Prop where
  desktop : s.desktop.Kept s.held l
  hit : ∀ k u press move, s.calls k = .hit u press move →
    press.win = 0 ∨ press.win ∈ u.held.map Prod.fst

variable {s : WindowSystem κ} {l : List Nat}

theorem Kept.lifetime (h : s.Kept l) : s.Lifetime where
  freed := h.desktop.sound.freed_le
  held _ _ hwin := h.desktop.live_of_held hwin
  destroyed win hlive hdestroyed :=
    h.desktop.sound.holder ((s.desktop.status_retired win).mpr ⟨hlive, hdestroyed⟩)
  list := ⟨l, h.desktop.linked, fun _ hwin => h.desktop.live_of_mem hwin, h.desktop.drag⟩

theorem Start.kept (h : s.Start) : s.Kept [] := by
  -- nobody holds anything, and no window has been created
  have hheld : s.held = fun _ => [] := by
    funext k
    rw [WindowSystem.held, h.calls k]
    rfl
  have hlive : ∀ win, ¬ s.desktop.Live win := by
    intro win
    rw [Desktop.Live, h.log]
    exact Nat.lt_irrefl _
  have habsent : ∀ win, s.desktop.status win = .absent := fun win =>
    (s.desktop.status_absent win).mpr (hlive win)
  have hnone : ∀ win, (s.desktop.registry fun _ : κ => []).status win = .absent := habsent
  refine ⟨?_, fun k u press move hk => ?_⟩
  · rw [hheld]
    refine ⟨h.list, fun win => ?_, ⟨?_, ?_, ?_, ?_⟩, hlive 0, Or.inl h.dragging⟩
    · rw [habsent]
      exact iff_of_false List.not_mem_nil nofun
    · exact fun win hwin => absurd (hnone win) hwin
    · exact fun k win hwin => absurd hwin List.not_mem_nil
    · intro win hwin
      rw [hnone] at hwin
      cases hwin
    · intro win
      rw [if_pos (hnone win)]
      show s.desktop.log.count (.create win) = s.desktop.log.count (.free win) + 0
      rw [h.log]
      rfl
  · rw [h.calls k] at hk
    cases hk

section Steps

variable [DecidableEq κ]

omit [Fintype κ] in
theorem set_held (s : WindowSystem κ) (k : κ) (call : WindowCall) (d : Desktop) :
    (s.set k call d).held = Function.update s.held k call.windows := by
  funext j
  unfold WindowSystem.held set
  dsimp only
  rw [Function.update_apply, Function.update_apply]
  split <;> rfl

/-- A call goes on. -/
theorem Kept.set (h : s.Kept l) {k : κ} {call : WindowCall} {d : Desktop} {l' : List Nat}
    (hd : d.Kept (Function.update s.held k call.windows) l')
    (hcall : ∀ u press move, call = .hit u press move →
      press.win = 0 ∨ press.win ∈ u.held.map Prod.fst) : (s.set k call d).Kept l' := by
  refine ⟨?_, fun j u press move hj => ?_⟩
  · rw [set_held]
    exact hd
  · have hj' : Function.update s.calls k call j = .hit u press move := hj
    rw [Function.update_apply] at hj'
    split at hj'
    · exact hcall u press move hj'
    · exact h.hit j u press move hj'

/-- What a call holds is what it held before. -/
theorem Kept.goOn (h : s.Kept l) {k : κ} {call : WindowCall}
    (hwindows : call.windows = (s.calls k).windows)
    (hcall : ∀ u press move, call = .hit u press move →
      press.win = 0 ∨ press.win ∈ u.held.map Prod.fst) : (s.set k call s.desktop).Kept l := by
  apply h.set ?_ hcall
  have hsame : Function.update s.held k call.windows = s.held := by
    rw [hwindows]
    exact Function.update_eq_self k s.held
  rw [hsame]
  exact h.desktop

/-- A call that holds nothing yet takes the first windows. -/
theorem Kept.hold (h : s.Kept l) {k : κ} {d : Desktop} (hd : Desktop.Same s.desktop d)
    (hdrag : d.draggingWindow = s.desktop.draggingWindow) (hnone : (s.calls k).windows = [])
    (hmax : ∀ win ∈ s.desktop.firstWindows maxHeldWindows s.desktop.manager.windowList,
      (s.desktop.window win).refcount ≠ BitVec.allOnes 32) :
    (snapshotWindowList d).2.Kept
      (Function.update s.held k ((snapshotWindowList d).1.map Prod.fst)) l := by
  have hkept : d.Kept s.held l := h.desktop.same hd (hdrag ▸ h.desktop.drag)
  have hnil : s.held k = [] := hnone
  rw [firstWindows_eq h.desktop.linked] at hmax
  obtain ⟨hfst, hsnap⟩ := hkept.snapshotFrom hkept.linked (List.Subset.refl l) (fun win hwin => by
    rw [hd.refcount]
    exact hmax win hwin) k
  rw [hnil, List.nil_append] at hsnap
  rw [snapshotWindowList, hfst]
  exact hsnap

omit [DecidableEq κ] in
theorem Kept.setOwner (h : s.Kept l) (win : Nat) (pid : BitVec 64) :
    { s with desktop := { s.desktop with
      manager := windowSetOwner s.desktop.manager win pid } }.Kept l := by
  refine ⟨?_, h.hit⟩
  have hsame : Desktop.Same s.desktop
      { s.desktop with manager := windowSetOwner s.desktop.manager win pid } := by
    unfold windowSetOwner
    split
    · exact Desktop.Same.refl s.desktop
    · exact Desktop.Same.update s.desktop win (f := fun w => { w with ownerPid := pid }) rfl rfl rfl
  exact h.desktop.same hsame h.desktop.drag

/-- The first section of `window_update`. -/
theorem Kept.beginUpdate (h : s.Kept l) {k : κ} {mx my : BitVec 32} {mb : BitVec 8}
    (hcall : s.calls k = .updating mx my mb)
    (hmax : ∀ win ∈ s.desktop.firstWindows maxHeldWindows s.desktop.manager.windowList,
      (s.desktop.window win).refcount ≠ BitVec.allOnes 32) :
    (s.set k (.holding (beginUpdate mx my mb s.desktop).1)
      (beginUpdate mx my mb s.desktop).2).Kept l := by
  obtain ⟨d, hd⟩ : ∃ d, d = if s.desktop.cursorInitialized then s.desktop
    else { s.desktop with cursorInitialized := true, cursorX := mx, cursorY := my } := ⟨_, rfl⟩
  have hsame : Desktop.Same s.desktop d ∧ d.draggingWindow = s.desktop.draggingWindow := by
    rw [hd]
    split
    · exact ⟨Desktop.Same.refl _, rfl⟩
    · exact ⟨⟨⟨fun _ => rfl, fun _ => rfl, rfl⟩, fun _ => rfl, rfl⟩, rfl⟩
  have hkept := h.hold hsame.1 hsame.2 (by rw [hcall]; rfl) hmax
  have hbegin : ZohoOs.beginUpdate mx my mb s.desktop =
      (⟨mx, my, mb, s.desktop.cursorInitialized, d.draggingWindow, (snapshotWindowList d).1⟩,
        (snapshotWindowList d).2) := by
    rw [ZohoOs.beginUpdate, ← hd]
  rw [hbegin]
  apply h.set
  · exact hkept
  · exact fun u press move he => WindowCall.noConfusion he

/-- Between the sections. -/
theorem Kept.findHits (h : s.Kept l) {k : κ} {u : UpdateCall} (hcall : s.calls k = .holding u) :
    (s.set k (.hit u (findHits u s.desktop).1 (findHits u s.desktop).2) s.desktop).Kept l := by
  apply h.goOn
  · rw [hcall]
    rfl
  · rintro u' press move he
    cases he
    rw [ZohoOs.findHits]
    dsimp only
    split
    · exact findWindowHit_mem u.mx u.my u.held
    · exact Or.inl rfl

/-- The second section of `window_update`. -/
theorem Kept.finishUpdate (h : s.Kept l) {k : κ} {u : UpdateCall} {press move : WindowHit}
    (hcall : s.calls k = .hit u press move) :
    ∃ d l', finishUpdate u press move s.desktop = some d ∧ (s.set k .out d).Kept l' := by
  have hheld : s.held k = u.held.map Prod.fst := by
    rw [WindowSystem.held, hcall]
    rfl
  have hpress := h.hit k u press move hcall
  rw [← hheld] at hpress
  obtain ⟨d, l', hfinish, hkept⟩ := h.desktop.finish hheld hpress
  refine ⟨d, l', hfinish, h.set hkept ?_⟩
  exact fun u press move he => WindowCall.noConfusion he

/-- The first section of `window_draw_all`. -/
theorem Kept.draw (h : s.Kept l) {k : κ} {d : Desktop} (hcall : s.calls k = .out)
    (hd : d = { s.desktop with manager := { s.desktop.manager with dirtyRects := [] } })
    (hmax : ∀ win ∈ s.desktop.firstWindows maxHeldWindows s.desktop.manager.windowList,
      (s.desktop.window win).refcount ≠ BitVec.allOnes 32) :
    (s.set k (.drawing (snapshotWindowList d).1) (snapshotWindowList d).2).Kept l := by
  have hsame : Desktop.Same s.desktop d ∧ d.draggingWindow = s.desktop.draggingWindow := by
    rw [hd]
    exact ⟨⟨⟨fun _ => rfl, fun _ => rfl, rfl⟩, fun _ => rfl, rfl⟩, rfl⟩
  apply h.set
  · exact h.hold hsame.1 hsame.2 (by rw [hcall]; rfl) hmax
  · exact fun u press move he => WindowCall.noConfusion he

/-- The second section of `window_draw_all`. -/
theorem Kept.finishDraw (h : s.Kept l) {k : κ} {held : List (Nat × WindowSnapshot)}
    (hcall : s.calls k = .drawing held) :
    (s.set k .out (releaseWindowRefs (held.map Prod.fst) s.desktop)).Kept l := by
  have hheld : s.held k = held.map Prod.fst := by
    rw [WindowSystem.held, hcall]
    rfl
  apply h.set
  · exact h.desktop.releaseRefs hheld
  · exact fun u press move he => WindowCall.noConfusion he

/-- **Each step is defined, and keeps the windows.** -/
theorem Kept.step (h : s.Kept l) {op : WindowAction κ} (hvalid : op.Valid s) (hgranted : op.Granted s) :
    ∃ s' l', op.run s = some s' ∧ s'.Kept l' := by
  cases op with
  | create win x y w height bgColor =>
    have hfree := hvalid.resolve_left hgranted
    exact ⟨_, win :: l, rfl, h.desktop.create hfree hgranted x y w height bgColor, h.hit⟩
  | setOwner win pid => exact ⟨_, l, rfl, h.setOwner win pid⟩
  | destroyByPid pid =>
    -- nothing is before the first window
    have hall : s.desktop.Kept s.held ([] ++ l) := h.desktop
    obtain ⟨d, l', hd, hkept⟩ : ∃ d l', windowDestroyByPid pid s.desktop = some d ∧
        d.Kept s.held l' :=
      hall.destroyFrom hall.linked (Or.inl ⟨rfl, rfl⟩) hall.length_lt
    refine ⟨{ s with desktop := d }, l', ?_, hkept, h.hit⟩
    rw [WindowAction.run, hd]
    rfl
  | update k mx my mb =>
    have hout : s.calls k = .out := hvalid
    rw [WindowAction.run]
    split
    · exact ⟨_, l, rfl, h⟩
    · refine ⟨_, l, rfl, h.goOn (by rw [hout]; rfl) ?_⟩
      exact fun u press move he => WindowCall.noConfusion he
  | updateBegin k =>
    rw [WindowAction.run]
    split
    · rename_i mx my mb hcall
      exact ⟨_, l, rfl, h.beginUpdate hcall hgranted⟩
    · exact ⟨s, l, rfl, h⟩
  | updateHits k =>
    rw [WindowAction.run]
    split
    · rename_i u hcall
      exact ⟨_, l, rfl, h.findHits hcall⟩
    · exact ⟨s, l, rfl, h⟩
  | updateFinish k =>
    rw [WindowAction.run]
    split
    · rename_i u press move hcall
      obtain ⟨d, l', hfinish, hkept⟩ := h.finishUpdate hcall
      exact ⟨_, l', by rw [hfinish]; rfl, hkept⟩
    · exact ⟨s, l, rfl, h⟩
  | draw k =>
    rw [WindowAction.run]
    split
    · exact ⟨s, l, rfl, h⟩
    · exact ⟨_, l, rfl, h.draw hvalid rfl hgranted⟩
  | drawFinish k =>
    rw [WindowAction.run]
    split
    · rename_i held hcall
      exact ⟨_, l, rfl, h.finishDraw hcall⟩
    · exact ⟨s, l, rfl, h⟩

end Steps

end WindowSystem

/-- **The lifetime of windows**, in any interleaving in which `kmalloc` has a block for each new window
and no count of references overflows; and each section ends. -/
theorem windowRun_lifetime {κ : Type} [Fintype κ] [DecidableEq κ] {s₀ s : WindowSystem κ}
    (h : s₀.Start) {ops : List (WindowAction κ)}
    (hrun : Run (Restrict WindowAction.Granted windowStep) s₀ ops s) :
    s.Lifetime ∧ ∀ op : WindowAction κ, op.Valid s → op.Granted s → ∃ s', windowStep s op s' := by
  obtain ⟨l, hkept⟩ : ∃ l, s.Kept l := by
    induction hrun with
    | nil => exact ⟨[], h.kept⟩
    | snoc _ hstep ih =>
      obtain ⟨l, hkept⟩ := ih
      obtain ⟨hgranted, hvalid, hsome⟩ := hstep
      obtain ⟨s', l', hs', hkept'⟩ := hkept.step hvalid hgranted
      obtain rfl : s' = _ := Option.some_injective _ (hs'.symm.trans hsome)
      exact ⟨l', hkept'⟩
  refine ⟨hkept.lifetime, fun op hvalid hgranted => ?_⟩
  obtain ⟨s', -, hs', -⟩ := hkept.step hvalid hgranted
  exact ⟨s', hvalid, hs'⟩

/-! ## One caller -/

/-- The desktop at boot, on a screen of 800 by 600, and one caller. -/
def bootDesktop : WindowSystem Unit where
  desktop :=
    { manager :=
        { heap := ⟨fun _ => ⟨0, true, 0⟩, 0, ⟨0, 0, 0, 0, 0, 0, 0, 0⟩⟩
          windows := fun _ => ⟨0, 0, 0, 0, 0, 0, 0, 0, 0, false, false, 0, fun _ => ⟨0, 0, 0, 0⟩, 0, 0, 0⟩
          windowList := 0
          nextWindowId := 1
          dirtyRects := []
          fbWidth := 800
          fbHeight := 600 }
      draggingWindow := 0
      dragOffX := 0
      dragOffY := 0
      cursorX := 0
      cursorY := 0
      cursorInitialized := false
      lastMb := 0
      lastMx := 0
      lastMy := 0
      log := [] }
  calls _ := .out

theorem bootDesktop_start : bootDesktop.Start := ⟨rfl, rfl, rfl, fun _ => rfl⟩

/-- A window is created, and destroyed while `window_update` holds it. -/
def destroyHeld : List (WindowAction Unit) :=
  [.create 0x1000018 50 50 200 100 0xFFFFFFFF, .update () 60 60 1, .updateBegin (), .destroyByPid 0,
    .updateHits (), .updateFinish ()]

/-- A window is created and its title is pressed; then there is no memory for another one. -/
def dragUntilFull : List (WindowAction Unit) :=
  [.create 0x1000018 50 50 200 100 0xFFFFFFFF, .update () 60 60 1, .updateBegin (), .updateHits (),
    .updateFinish (), .create 0 300 50 200 100 0xFFFFFFFF]

/-- The desktops `applyAll` computes are reached. -/
theorem applyAll_windowRun (ok : WindowSystem Unit → WindowAction Unit → Prop)
    [∀ s op, Decidable (ok s op)] (p : WindowSystem Unit → Prop) [DecidablePred p]
    (ops : List (WindowAction Unit))
    (h : (applyAll (fun s op => ok s op ∧ op.Valid s) WindowAction.run bootDesktop ops).any
      (fun s => decide (p s)) = true) :
    ∃ s, Run (Restrict ok windowStep) bootDesktop ops s ∧ p s := by
  obtain ⟨s, hs, hp⟩ := (Option.any_eq_true _ _).mp h
  refine ⟨s, ?_, of_decide_eq_true hp⟩
  apply (applyAll_run hs).mono
  rintro s op t ⟨⟨hok, hvalid⟩, happly⟩
  exact ⟨hok, hvalid, happly⟩

/-- The window that was held is freed with its last reference. -/
theorem windowRun_lifetime_sample :
    ∃ s, Run (Restrict WindowAction.Granted windowStep) bootDesktop destroyHeld s ∧
      s.desktop.log = [.create 0x1000018, .free 0x1000018] ∧ s.Lifetime := by
  obtain ⟨s, hrun, hlog⟩ := applyAll_windowRun WindowAction.Granted
    (fun s => s.desktop.log = [.create 0x1000018, .free 0x1000018]) destroyHeld (by decide +kernel)
  exact ⟨s, hrun, hlog, (windowRun_lifetime bootDesktop_start hrun).1⟩

/-- **What is dragged is no longer in the list**, where `kmalloc` has no memory for a new window. -/
theorem windowRun_loses_list :
    ∃ s, Run windowStep bootDesktop dragUntilFull s ∧ ¬ s.Lifetime := by
  obtain ⟨s, hrun, hlist, hdrag⟩ := applyAll_windowRun (fun _ _ => True)
    (fun s => s.desktop.manager.windowList = 0 ∧ s.desktop.draggingWindow = 0x1000018) dragUntilFull
    (by decide +kernel)
  refine ⟨s, hrun.mono fun _ _ _ hstep => hstep.2, fun hlifetime => ?_⟩
  obtain ⟨l, hlinked, -, hmem⟩ := hlifetime.list
  rw [hdrag] at hmem
  rw [hlist] at hlinked
  cases l with
  | nil => exact hmem.elim nofun nofun
  | cons win rest =>
    obtain ⟨rfl, hne, -⟩ := hlinked
    exact hne rfl

end ZohoOs
