import ZohoOs.Window.EventQueue

/-!
# The order of the windows

`window_list` from front to back, under `window_create`, `window_destroy_by_pid` and presses on titles in
`window_update`, in any interleaving of the calls. The counts of references may overflow here: they do
not matter for the order.

## Main definitions

* `ZOrder`, `ZOrderEvent`: the windows from front to back, and what changes their order
* `WindowAction.zorderEvent`: what a step of the calls is for the order
* `Desktop.Ordered`: the list of the desktop is the order

## Main results

* `Ordered.create`, `Ordered.destroyFrom`, `Ordered.raise`: the three edits of the list
* `windowRun_zorder`: the list is the order all along, just if no new window loses it
-/

namespace ZohoOs

open TransitionSystem LinkedQueue

/-! ## Orders -/

/-- The windows from front to back, each with its owner. -/
abbrev ZOrder := List (Nat × BitVec 64)

inductive ZOrderEvent
  | create (win : Nat)
  | setOwner (win : Nat) (pid : BitVec 64)
  | destroy (pid : BitVec 64)
  | press (win : Nat)

/-- A new window is in front, the windows of a task that ends are gone, and a pressed window comes to
the front. The others stay as they are. -/
def ZOrderEvent.apply : ZOrderEvent → ZOrder → ZOrder
  | .create win, z => (win, 0) :: z
  | .setOwner win pid, z => z.map fun e => (e.1, if e.1 = win then pid else e.2)
  | .destroy pid, z => z.filter fun e => e.2 ≠ pid
  | .press win, z => (z.filter fun e => e.1 = win) ++ z.filter fun e => e.1 ≠ win

/-- In an order that has a window once, the window is pulled out and put in front. -/
theorem ZOrderEvent.press_apply {pre rest : ZOrder} {e : Nat × BitVec 64}
    (h : ((pre ++ e :: rest).map Prod.fst).Nodup) :
    (ZOrderEvent.press e.1).apply (pre ++ e :: rest) = e :: (pre ++ rest) := by
  rw [List.map_append, List.map_cons] at h
  obtain ⟨-, hcons, hdisj⟩ := List.nodup_append.mp h
  have hpre : ∀ x ∈ pre, x.1 ≠ e.1 := fun x hx =>
    hdisj x.1 (List.mem_map_of_mem hx) e.1 List.mem_cons_self
  have hrest : ∀ x ∈ rest, x.1 ≠ e.1 := fun x hx he =>
    (List.nodup_cons.mp hcons).1 (he ▸ List.mem_map_of_mem hx)
  have hnone : ∀ z : ZOrder, (∀ x ∈ z, x.1 ≠ e.1) →
      z.filter (fun x => x.1 = e.1) = [] ∧ z.filter (fun x => x.1 ≠ e.1) = z := by
    intro z hz
    refine ⟨List.filter_eq_nil_iff.mpr fun x hx => ?_, List.filter_eq_self.mpr fun x hx => ?_⟩
    · rw [decide_eq_true_iff]
      exact hz x hx
    · exact decide_eq_true (hz x hx)
  rw [apply, List.filter_append, List.filter_append, List.filter_cons_of_pos (by simp),
    List.filter_cons_of_neg (by simp), (hnone pre hpre).1, (hnone pre hpre).2, (hnone rest hrest).1,
    (hnone rest hrest).2]
  rfl

/-- `window_update` finds the button down on the title of a window, with nothing dragged so far. -/
def titlePressed (u : UpdateCall) (press : WindowHit) (d : Desktop) : Prop :=
  u.mb &&& 1 ≠ 0 ∧ d.draggingWindow = 0 ∧ press.win ≠ 0 ∧ (d.window press.win).destroyed = false ∧
    press.inTitle = true

instance decidableTitlePressed (u : UpdateCall) (press : WindowHit) (d : Desktop) :
    Decidable (titlePressed u press d) := inferInstanceAs (Decidable (_ ∧ _))

/-- What a step of the calls is for the order. A window that there is no memory for is not created. -/
def WindowAction.zorderEvent {κ : Type} : WindowAction κ → WindowSystem κ → Option ZOrderEvent
  | .create win _ _ _ _ _, _ => if win = 0 then none else some (.create win)
  | .setOwner win pid, _ => some (.setOwner win pid)
  | .destroyByPid pid, _ => some (.destroy pid)
  | .updateFinish k, s =>
    match s.calls k with
    | .hit u press _ => if titlePressed u press s.desktop then some (.press press.win) else none
    | _ => none
  | _, _ => none

/-- A step of the calls, next to the order. -/
def zorderStep {κ : Type} [DecidableEq κ] :
    WindowSystem κ × ZOrder → WindowAction κ → WindowSystem κ × ZOrder → Prop := fun s op t =>
  windowStep s.1 op t.1 ∧ t.2 = ((op.zorderEvent s.1).elim s.2 fun event => event.apply s.2)

namespace Desktop

/-- No window changes its owner. -/
def SameOwners (d d' : Desktop) : Prop := ∀ x, (d'.window x).ownerPid = (d.window x).ownerPid

/-- **The list of the desktop is the order**: it has the windows that were created and not destroyed,
none of which is freed. What was freed has no references. -/
structure Ordered (d : Desktop) (z : ZOrder) : Prop where
  linked : Linked d.next 0 d.manager.windowList (z.map Prod.fst)
  owner : ∀ e ∈ z, (d.window e.1).ownerPid = e.2
  listed : ∀ win, win ∈ z.map Prod.fst ↔ .create win ∈ d.log ∧ (d.window win).destroyed = false
  live : ∀ win ∈ z.map Prod.fst, d.Live win
  null : .create 0 ∉ d.log
  freed : ∀ win, d.log.count (.free win) ≤ d.log.count (.create win)
  idle : ∀ win, .create win ∈ d.log → ¬ d.Live win → (d.window win).refcount = 0

section Frames

variable {d d' d'' : Desktop} {z z' : ZOrder} {win : Nat}

theorem SameOwners.refl (d : Desktop) : SameOwners d d := fun _ => rfl

theorem SameOwners.trans (h : SameOwners d d') (h' : SameOwners d' d'') : SameOwners d d'' :=
  fun x => (h' x).trans (h x)

theorem SameOwners.update (d : Desktop) (win : Nat) {f : Window → Window}
    (hf : (f (d.window win)).ownerPid = (d.window win).ownerPid) :
    SameOwners d (d.updateWindow win f) := fun x => d.updateWindow_field win x f (·.ownerPid) hf

/-- The order of the list may change. -/
theorem Ordered.reorder (h : d.Ordered z) (hcounts : SameCounts d d') (howners : SameOwners d d')
    (hlinked : Linked d'.next 0 d'.manager.windowList (z'.map Prod.fst))
    (hmem : ∀ e, e ∈ z' ↔ e ∈ z) : d'.Ordered z' := by
  have hfst : ∀ x, x ∈ z'.map Prod.fst ↔ x ∈ z.map Prod.fst := fun x => by
    simp only [List.mem_map, hmem]
  have hlive : ∀ x, d'.Live x ↔ d.Live x := fun x => by rw [Live, Live, hcounts.log]
  refine ⟨hlinked, fun e he => (howners e.1).trans (h.owner e ((hmem e).mp he)), fun x => ?_,
    fun x hx => (hlive x).mpr (h.live x ((hfst x).mp hx)), ?_, fun x => ?_, fun x hx hnot => ?_⟩
  · rw [hfst, hcounts.log, hcounts.destroyed]
    exact h.listed x
  · rw [hcounts.log]
    exact h.null
  · rw [hcounts.log]
    exact h.freed x
  · rw [hcounts.refcount]
    exact h.idle x (hcounts.log ▸ hx) fun hl => hnot ((hlive x).mpr hl)

theorem Ordered.same (h : d.Ordered z) (hsame : Same d d') (howners : SameOwners d d') :
    d'.Ordered z := by
  refine h.reorder hsame.toSameCounts howners ?_ fun _ => Iff.rfl
  rw [hsame.list]
  exact h.linked.congr fun x _ => hsame.next x

/-- A count of references of a window that is not freed may change. -/
theorem Ordered.recount (h : d.Ordered z) (hlive : d.Live win) (c : BitVec 32) :
    (d.updateWindow win fun w => { w with refcount := c }).Ordered z where
  linked := h.linked.congr fun x _ => d.updateWindow_field win x _ (·.next) rfl
  owner e he := (d.updateWindow_field win e.1 _ (·.ownerPid) rfl).trans (h.owner e he)
  listed x := by
    rw [d.updateWindow_field win x _ (·.destroyed) rfl]
    exact h.listed x
  live := h.live
  null := h.null
  freed := h.freed
  idle x hx hnot := by
    rw [updateWindow_window, if_neg]
    · exact h.idle x hx hnot
    · rintro rfl
      exact hnot hlive

theorem Ordered.ne_null (h : d.Ordered z) (hcreated : .create win ∈ d.log) : win ≠ 0 := by
  rintro rfl
  exact h.null hcreated

/-- A window that is created and has references is not freed. -/
theorem Ordered.live_of_count (h : d.Ordered z) (hcreated : .create win ∈ d.log)
    (hcount : (d.window win).refcount ≠ 0) : d.Live win := by
  by_contra hnot
  exact hcount (h.idle win hcreated hnot)

theorem freeWindow_mem (d : Desktop) (win x : Nat) :
    .create x ∈ (freeWindow win d).log ↔ .create x ∈ d.log := by
  rw [← List.count_pos_iff, ← List.count_pos_iff, freeWindow_created]

/-- **Freeing** what is not in the list. -/
theorem Ordered.free (h : d.Ordered z) (hlive : d.Live win) (hnot : win ∉ z.map Prod.fst)
    (hcount : (d.window win).refcount = 0) : (freeWindow win d).Ordered z := by
  have hne : win ≠ 0 := h.ne_null hlive.created
  have hfreed := fun x => freeWindow_freed d win x hne
  -- only this window is freed
  have hother : ∀ x, x ≠ win → ((freeWindow win d).Live x ↔ d.Live x) := by
    intro x hx
    rw [Live, Live, freeWindow_created, hfreed, if_neg hx]
  -- nothing of the list is read from the log
  refine ⟨?_, fun e he => ?_, fun x => ?_, fun x hx => ?_, ?_, fun x => ?_, fun x hx hdead => ?_⟩
  · rw [freeWindow_list]
    refine h.linked.congr fun x _ => ?_
    rw [next, freeWindow_window]
    rfl
  · rw [freeWindow_window]
    exact h.owner e he
  · rw [freeWindow_window, freeWindow_mem]
    exact h.listed x
  · refine (hother x ?_).mpr (h.live x hx)
    rintro rfl
    exact hnot hx
  · rw [freeWindow_mem]
    exact h.null
  · rw [freeWindow_created, hfreed]
    split
    · rename_i he
      rw [he]
      exact hlive
    · exact h.freed x
  · rw [freeWindow_window]
    by_cases he : x = win
    · rw [he, hcount]
    · exact h.idle x ((freeWindow_mem d win x).mp hx) fun hl => hdead ((hother x he).mpr hl)

end Frames

/-! ## References -/

section References

variable {d : Desktop} {z : ZOrder} {win : Nat}

theorem Ordered.retain (h : d.Ordered z) (hwin : win ∈ z.map Prod.fst) :
    (retainWindow win d).Ordered z := by
  have hlive := h.live win hwin
  rw [retainWindow, if_neg (h.ne_null hlive.created)]
  exact h.recount hlive _

/-- The windows of the list are held, up to `max` of them. -/
theorem Ordered.snapshotFrom (h : d.Ordered z) {max curr : Nat} {m : List Nat}
    (hm : Linked d.next 0 curr m) (hsub : m ⊆ z.map Prod.fst) :
    (ZohoOs.snapshotFrom max curr d).2.Ordered z ∧ (ZohoOs.snapshotFrom max curr d).2.log = d.log ∧
      (∀ win ∈ (ZohoOs.snapshotFrom max curr d).1.map Prod.fst, .create win ∈ d.log) := by
  induction max generalizing curr d m with
  | zero => exact ⟨h, rfl, fun _ hwin => (List.not_mem_nil hwin).elim⟩
  | succ max ih =>
    cases m with
    | nil =>
      obtain rfl : curr = 0 := hm
      rw [ZohoOs.snapshotFrom, if_pos rfl]
      exact ⟨h, rfl, fun _ hwin => (List.not_mem_nil hwin).elim⟩
    | cons win rest =>
      obtain ⟨rfl, hne, hrest⟩ := hm
      have hwin : curr ∈ z.map Prod.fst := hsub List.mem_cons_self
      have hret : retainWindow curr d =
          d.updateWindow curr fun w => { w with refcount := w.refcount + 1 } := if_neg hne
      -- holding a window leaves the links alone
      have hnext : ∀ x, (retainWindow curr d).next x = d.next x := fun x => by
        rw [hret]
        exact d.updateWindow_field curr x _ (·.next) rfl
      have hlog : (retainWindow curr d).log = d.log := by
        rw [hret]
        rfl
      have hfrom : Linked (retainWindow curr d).next 0 ((retainWindow curr d).next curr) rest := by
        rw [hnext]
        exact hrest.congr fun x _ => hnext x
      obtain ⟨hordered, hlog', hheld⟩ := ih (h.retain hwin) hfrom fun x hx =>
        hsub (List.mem_cons_of_mem _ hx)
      rw [ZohoOs.snapshotFrom, if_neg hne]
      refine ⟨hordered, hlog'.trans hlog, fun x hx => ?_⟩
      rcases List.mem_cons.mp hx with rfl | hx
      · exact (h.live _ hwin).created
      · exact hlog ▸ hheld x hx

theorem Ordered.release (h : d.Ordered z) (hcreated : .create win ∈ d.log) :
    (releaseWindow win d).Ordered z ∧
      ∀ x, .create x ∈ (releaseWindow win d).log ↔ .create x ∈ d.log := by
  unfold releaseWindow
  dsimp only
  split_ifs with hskip hlast
  · exact ⟨h, fun _ => Iff.rfl⟩
  · -- the last reference to a window that was destroyed
    have hlive := h.live_of_count hcreated fun he => hskip (Or.inr he)
    refine ⟨(h.recount hlive _).free hlive (fun hmem => ?_) hlast.2, fun x => freeWindow_mem _ win x⟩
    have hnot := ((h.recount hlive ((d.window win).refcount - 1)).listed win).mp hmem
    exact Bool.false_ne_true (hnot.2.symm.trans hlast.1)
  · have hlive := h.live_of_count hcreated fun he => hskip (Or.inr he)
    exact ⟨h.recount hlive _, fun _ => Iff.rfl⟩

theorem Ordered.releaseRefs (h : d.Ordered z) {wins : List Nat}
    (hcreated : ∀ win ∈ wins, .create win ∈ d.log) : (releaseWindowRefs wins d).Ordered z ∧
      ∀ x, .create x ∈ (releaseWindowRefs wins d).log ↔ .create x ∈ d.log := by
  induction wins generalizing d with
  | nil => exact ⟨h, fun _ => Iff.rfl⟩
  | cons win wins ih =>
    obtain ⟨hrelease, hlog⟩ := h.release (hcreated win List.mem_cons_self)
    obtain ⟨hall, hlogs⟩ := ih hrelease fun x hx =>
      (hlog x).mpr (hcreated x (List.mem_cons_of_mem _ hx))
    exact ⟨hall, fun x => (hlogs x).trans (hlog x)⟩

end References

/-! ## The three edits of the list -/

section Edits

variable {d : Desktop} {z pre rest : ZOrder} {win : Nat} {e : Nat × BitVec 64}

theorem unlinkWindow_owners (prev curr : Nat) (d : Desktop) :
    SameOwners d (unlinkWindow prev curr d) := by
  unfold unlinkWindow
  dsimp only
  split_ifs
  · exact SameOwners.update d prev rfl
  · exact SameOwners.refl d

theorem marked_owners (prev curr : Nat) (d : Desktop) : SameOwners d (marked prev curr d) := by
  have hunlink := unlinkWindow_owners prev curr (d.queueDirty (windowOuterRect (d.window curr)))
  unfold marked
  dsimp only
  split_ifs
  · exact (show SameOwners d _ from hunlink).trans (SameOwners.update _ curr rfl)
  · exact (show SameOwners d _ from hunlink).trans (SameOwners.update _ curr rfl)

/-- **A window that is destroyed** leaves the order. -/
theorem Ordered.destroy {prev : Nat} (h : d.Ordered (pre ++ e :: rest))
    (hprev : Precedes prev (pre.map Prod.fst)) :
    (destroyWindow prev e.1 d).Ordered (pre ++ rest) ∧
      (∀ x ∈ (e :: rest).map Prod.fst, (destroyWindow prev e.1 d).next x = d.next x) ∧
      SameOwners d (destroyWindow prev e.1 d) ∧
      ∀ x, .create x ∈ (destroyWindow prev e.1 d).log ↔ .create x ∈ d.log := by
  have hlinked := h.linked
  rw [List.map_append, List.map_cons] at hlinked
  obtain ⟨-, hncons, hdisj⟩ := List.nodup_append.mp hlinked.nodup
  have hmem : e.1 ∈ (pre ++ e :: rest).map Prod.fst :=
    List.mem_map_of_mem (List.mem_append_right _ List.mem_cons_self)
  have hlive := h.live e.1 hmem
  obtain ⟨hnext, hlist, -, hcount, hdestroyed, hlog⟩ := marked_frame prev e.1 d
  have howners := marked_owners prev e.1 d
  -- the window was in the list once
  have hgone : e.1 ∉ (pre ++ rest).map Prod.fst := by
    rw [List.map_append]
    intro hc
    rcases List.mem_append.mp hc with hc | hc
    · exact hdisj e.1 hc e.1 List.mem_cons_self rfl
    · exact (List.nodup_cons.mp hncons).1 hc
  have hother : ∀ x, x ≠ e.1 →
      (x ∈ (pre ++ rest).map Prod.fst ↔ x ∈ (pre ++ e :: rest).map Prod.fst) := by
    intro x hx
    rw [List.map_append, List.map_append, List.map_cons, List.mem_append, List.mem_append,
      List.mem_cons]
    exact or_congr Iff.rfl ⟨Or.inr, fun hm => hm.resolve_left hx⟩
  have hsub : ∀ x ∈ pre ++ rest, x ∈ pre ++ e :: rest := fun x hx =>
    (List.mem_append.mp hx).elim (List.mem_append_left _)
      fun hr => List.mem_append_right _ (List.mem_cons_of_mem _ hr)
  have hlives : ∀ x, (marked prev e.1 d).Live x ↔ d.Live x := fun x => by rw [Live, Live, hlog]
  have hmarked : (marked prev e.1 d).Ordered (pre ++ rest) := by
    refine ⟨?_, fun x hx => (howners x.1).trans (h.owner x (hsub x hx)), fun x => ?_, fun x hx => ?_,
      ?_, fun x => ?_, fun x hx hdead => ?_⟩
    · rw [hlist, List.map_append]
      exact (unlinkWindow_linked hlinked hprev).congr fun x _ => hnext x
    · rw [hlog, hdestroyed]
      split
      · rename_i he
        exact iff_of_false (he ▸ hgone) fun hc => Bool.false_ne_true hc.2.symm
      · rename_i hx
        rw [hother x hx]
        exact h.listed x
    · refine (hlives x).mpr (h.live x ((hother x ?_).mp hx))
      rintro rfl
      exact hgone hx
    · rw [hlog]
      exact h.null
    · rw [hlog]
      exact h.freed x
    · rw [hcount]
      exact h.idle x (hlog ▸ hx) fun hl => hdead ((hlives x).mpr hl)
  -- The unlink writes the link of `prev` alone, and `prev` is in the part before the window.
  have hlinks : ∀ x ∈ (e :: rest).map Prod.fst, (unlinkWindow prev e.1 d).next x = d.next x := by
    intro x hx
    apply (unlinkWindow_frame prev e.1 d).1
    rintro rfl
    rcases hprev with ⟨rfl, -⟩ | ⟨pre', hpre⟩
    · exact hlinked.ne_nil (List.mem_append_right _ hx) rfl
    · refine hdisj x ?_ x hx rfl
      rw [hpre]
      exact List.mem_append_right _ (List.mem_singleton_self _)
  rw [destroyWindow_eq]
  split
  · rename_i hzero
    refine ⟨hmarked.free ((hlives e.1).mpr hlive) hgone hzero, fun x hx => ?_, fun x => ?_, fun x => ?_⟩
    · rw [next, freeWindow_window]
      exact (hnext x).trans (hlinks x hx)
    · rw [freeWindow_window]
      exact howners x
    · rw [freeWindow_mem, hlog]
  · exact ⟨hmarked, fun x hx => (hnext x).trans (hlinks x hx), howners, fun x => by rw [hlog]⟩

/-- **`window_destroy_by_pid`** ends, and takes the windows of the task out of the order. -/
theorem Ordered.destroyFrom {pid : BitVec 64} {fuel prev curr : Nat} (h : d.Ordered (pre ++ z))
    (hlinked : Linked d.next 0 curr (z.map Prod.fst)) (hprev : Precedes prev (pre.map Prod.fst))
    (hfuel : z.length < fuel) : ∃ d', destroyFrom pid fuel prev curr d = some d' ∧
      d'.Ordered (pre ++ (ZOrderEvent.destroy pid).apply z) ∧
      ∀ x, .create x ∈ d'.log ↔ .create x ∈ d.log := by
  induction z generalizing fuel prev curr pre d with
  | nil =>
    obtain ⟨fuel, rfl⟩ : ∃ f, fuel = f + 1 := ⟨fuel - 1, by omega⟩
    obtain rfl : curr = 0 := hlinked
    exact ⟨d, by rw [ZohoOs.destroyFrom, if_pos rfl], h, fun _ => Iff.rfl⟩
  | cons e rest ih =>
    obtain ⟨fuel, rfl⟩ : ∃ f, fuel = f + 1 := ⟨fuel - 1, by omega⟩
    obtain ⟨rfl, hne, hrest⟩ := hlinked
    rw [ZohoOs.destroyFrom, if_neg hne, h.owner e (List.mem_append_right _ List.mem_cons_self)]
    rw [List.length_cons] at hfuel
    by_cases howner : e.2 = pid
    -- the window goes, and the one before the next is the same
    · rw [if_pos howner]
      obtain ⟨hordered, hnext, -, hlog⟩ := h.destroy hprev
      have hfrom := hrest.congr fun x hx => hnext x (List.mem_cons_of_mem _ hx)
      obtain ⟨d', hd', hordered', hlog'⟩ := ih hordered hfrom hprev (Nat.lt_of_succ_lt_succ hfuel)
      refine ⟨d', hd', ?_, fun x => (hlog' x).trans (hlog x)⟩
      rw [ZOrderEvent.apply, List.filter_cons_of_neg (by simp [howner])]
      exact hordered'
    · -- the window stays, and is the one before the next
      rw [if_neg howner]
      have hordered : d.Ordered ((pre ++ [e]) ++ rest) := by
        rw [List.append_assoc]
        exact h
      have hlast : Precedes e.1 ((pre ++ [e]).map Prod.fst) := by
        rw [List.map_append]
        exact hprev.append
      obtain ⟨d', hd', hordered', hlog'⟩ := ih hordered hrest hlast (Nat.lt_of_succ_lt_succ hfuel)
      refine ⟨d', hd', ?_, hlog'⟩
      rw [ZOrderEvent.apply, List.filter_cons_of_pos (by simp [howner])]
      rw [List.append_assoc] at hordered'
      exact hordered'

/-- **A window that is created** is in front. -/
theorem Ordered.create (h : d.Ordered z) (hfree : ¬ d.Live win) (hne : win ≠ 0)
    (x y width height bgColor : BitVec 32) :
    (d.create win x y width height bgColor).Ordered ((ZOrderEvent.create win).apply z) ∧
      ∀ x', .create x' ∈ d.log → .create x' ∈ (d.create win x y width height bgColor).log := by
  obtain ⟨d', hd'⟩ : ∃ d', d' = d.create win x y width height bgColor := ⟨_, rfl⟩
  rw [← hd']
  have hwindow : ∀ p, p ≠ win → d'.window p = d.window p := fun p hp => by
    rw [hd', d.create_window win x y width height bgColor hp]
  obtain ⟨w', hself, -, hon, howner, hnext, -⟩ := d.create_new win x y width height bgColor
  rw [← hd'] at hself
  have hlist : d'.manager.windowList = win := by rw [hd', create_list]
  have hmem : ∀ p, .create p ∈ d'.log ↔ .create p ∈ d.log ∨ p = win := fun p => by
    rw [hd', create_log x y width height bgColor d hne, List.mem_append, List.mem_singleton,
      HeapEvent.create.injEq]
  have hcreated : ∀ p, d'.log.count (.create p) =
      d.log.count (.create p) + if p = win then 1 else 0 := fun p => by
    rw [hd', create_created x y width height bgColor d hne p]
  have hfreed : ∀ p, d'.log.count (.free p) = d.log.count (.free p) := fun p => by
    rw [hd', create_freed x y width height bgColor d hne p]
  have hlive : ∀ p, d.Live p → d'.Live p := fun p hp =>
    Nat.lt_of_lt_of_le ((hfreed p).trans_lt hp) ((hcreated p).symm ▸ Nat.le_add_right ..)
  -- the window is back, once more than it was freed
  have hnew : d'.Live win := by
    rw [Live, hfreed, hcreated, if_pos rfl]
    exact Nat.lt_succ_of_le (h.freed win)
  have hout : win ∉ z.map Prod.fst := fun hm => hfree (h.live win hm)
  have hkeep : ∀ p ∈ z.map Prod.fst, d'.window p = d.window p := fun p hp =>
    hwindow p fun he => hout (he ▸ hp)
  refine ⟨⟨?_, fun e he => ?_, fun p => ?_, fun p hp => ?_, ?_, fun p => ?_, fun p hp hdead => ?_⟩,
    fun p hp => (hmem p).mpr (Or.inl hp)⟩
  · rw [hlist]
    exact h.linked.push hne ((congrArg Window.next hself).trans hnext) fun p hp =>
      congrArg Window.next (hkeep p hp)
  · rcases List.mem_cons.mp he with rfl | he
    · exact (congrArg Window.ownerPid hself).trans howner
    · rw [hkeep e.1 (List.mem_map_of_mem he)]
      exact h.owner e he
  · rw [ZOrderEvent.apply, List.map_cons, List.mem_cons, hmem]
    by_cases hp : p = win
    · exact iff_of_true (Or.inl hp) ⟨Or.inr hp, hp ▸ hself ▸ hon⟩
    · rw [hwindow p hp, h.listed]
      simp only [hp, false_or, or_false]
  · rcases List.mem_cons.mp hp with rfl | hp
    · exact hnew
    · exact hlive p (h.live p hp)
  · rw [hmem]
    exact fun hc => hc.elim h.null hne.symm
  · rw [hfreed, hcreated]
    exact (h.freed p).trans (Nat.le_add_right ..)
  · have hp' : p ≠ win := fun he => hdead (he ▸ hnew)
    rw [hwindow p hp']
    exact h.idle p (((hmem p).mp hp).resolve_right hp') fun hl => hdead (hlive p hl)

/-- There is no memory for a window, and none in the list. -/
theorem Ordered.createNull (h : d.Ordered z) (hnull : win = 0) (hlist : d.manager.windowList = 0)
    (x y width height bgColor : BitVec 32) :
    (d.create win x y width height bgColor).Ordered z := by
  obtain ⟨d', hd'⟩ : ∃ d', d' = d.create win x y width height bgColor := ⟨_, rfl⟩
  rw [← hd']
  have hwindow : ∀ p, p ≠ win → d'.window p = d.window p := fun p hp => by
    rw [hd', d.create_window win x y width height bgColor hp]
  have hlog : d'.log = d.log := by rw [hd', create_log_null win x y width height bgColor d hnull]
  have hwin : .create win ∉ d.log := hnull ▸ h.null
  -- a window at 0 is not created: the list was empty, and is empty
  have hempty : z = [] := by
    have hlinked := h.linked
    rw [hlist] at hlinked
    exact List.map_eq_nil_iff.mp (hlinked.unique rfl)
  subst hempty
  refine ⟨?_, fun e he => (List.not_mem_nil he).elim, fun p => ?_,
    fun p hp => (List.not_mem_nil hp).elim, ?_, fun p => ?_, fun p hp hdead => ?_⟩
  · show d'.manager.windowList = 0
    rw [hd', create_list, hnull]
  · rw [hlog]
    by_cases hp : p = win
    · exact iff_of_false List.not_mem_nil fun hc => hwin (hp ▸ hc.1)
    · rw [hwindow p hp]
      exact h.listed p
  · rw [hlog]
    exact h.null
  · rw [hlog]
    exact h.freed p
  · rw [hlog] at hp
    rw [hwindow p fun he => hwin (he ▸ hp)]
    refine h.idle p hp fun hl => hdead ?_
    rw [Live, hlog]
    exact hl

theorem Ordered.length_lt (h : d.Ordered z) : z.length < d.listFuel := by
  have hlen := length_lt_listFuel h.linked.nodup fun win hwin => (h.live win hwin).created
  rwa [List.length_map] at hlen

/-- **A window that is pressed** comes to the front. -/
theorem Ordered.raise (h : d.Ordered z) (hwin : win ∈ z.map Prod.fst) :
    ∃ d', raiseWindow win d = some d' ∧ d'.Ordered ((ZOrderEvent.press win).apply z) ∧
      d'.log = d.log := by
  -- the fuel suffices, as the list has no window twice
  have hlen : (z.map Prod.fst).length < d.listFuel := by
    rw [List.length_map]
    exact h.length_lt
  have hnodup := h.linked.nodup
  rcases raiseWindow_linked h.linked hwin hlen with ⟨hraise, rest, hz⟩ | ⟨pre, t, rest, hz, hraise⟩
  · -- it is in front
    obtain ⟨e, rest', rfl, rfl, -⟩ := List.map_eq_cons_iff.mp hz
    have hfront : ((([] : ZOrder) ++ e :: rest').map Prod.fst).Nodup := hnodup
    have happly := ZOrderEvent.press_apply hfront
    exact ⟨d, hraise, happly.symm ▸ h, rfl⟩
  -- it is behind another one, and is moved to the front
  · obtain ⟨pre', m, rfl, rfl, hm⟩ := List.map_eq_append_iff.mp hz
    obtain ⟨s, m', rfl, rfl, hm'⟩ := List.map_eq_cons_iff.mp hm
    obtain ⟨e, rest', rfl, rfl, rfl⟩ := List.map_eq_cons_iff.mp hm'
    have happly : (ZOrderEvent.press e.1).apply (pre' ++ s :: e :: rest') =
        e :: (pre' ++ s :: rest') := by
      have hsplit : pre' ++ s :: e :: rest' = (pre' ++ [s]) ++ e :: rest' := by
        rw [List.append_assoc]
        rfl
      rw [hsplit] at hnodup ⊢
      rw [ZOrderEvent.press_apply hnodup, List.append_assoc]
      rfl
    have hmoved : (moveToFront s.1 e.1 d).Ordered (e :: (pre' ++ s :: rest')) := by
      refine h.reorder (moveToFront_counts s.1 e.1 d)
        (fun x => moveToFront_field (·.ownerPid) (fun _ _ => rfl) s.1 e.1 x d) ?_ fun x => mem_toFront
      rw [List.map_cons, List.map_append, List.map_cons]
      apply moveToFront_linked
      rw [← hz]
      exact h.linked
    -- what is marked dirty does not touch the list
    have hsame := (Same.queueDirty (moveToFront s.1 e.1 d) (windowOuterRect (d.window e.1))).trans
      (Same.queueDirty _ (windowOuterRect ((moveToFront s.1 e.1 d).window e.1)))
    refine ⟨_, hraise, ?_, rfl⟩
    rw [happly]
    exact hmoved.same hsame (SameOwners.refl _)

end Edits

/-! ## Owners -/

section Owners

variable {d d' : Desktop} {z z' : ZOrder}

theorem ZOrderEvent.setOwner_fst (win : Nat) (pid : BitVec 64) (z : ZOrder) :
    ((ZOrderEvent.setOwner win pid).apply z).map Prod.fst = z.map Prod.fst := by
  rw [ZOrderEvent.apply, List.map_map]
  rfl

/-- The owners may change. -/
theorem Ordered.reown (h : d.Ordered z) (hsame : Same d d')
    (hfst : z'.map Prod.fst = z.map Prod.fst)
    (howner : ∀ e ∈ z', (d'.window e.1).ownerPid = e.2) : d'.Ordered z' := by
  have hlive : ∀ x, d'.Live x ↔ d.Live x := fun x => by rw [Live, Live, hsame.log]
  refine ⟨?_, howner, fun x => ?_, fun x hx => ?_, ?_, fun x => ?_, fun x hx hnot => ?_⟩
  · rw [hfst, hsame.list]
    exact h.linked.congr fun x _ => hsame.next x
  · rw [hfst, hsame.log, hsame.destroyed]
    exact h.listed x
  · exact (hlive x).mpr (h.live x (hfst ▸ hx))
  · rw [hsame.log]
    exact h.null
  · rw [hsame.log]
    exact h.freed x
  · rw [hsame.refcount]
    exact h.idle x (hsame.log ▸ hx) fun hl => hnot ((hlive x).mpr hl)

/-- **`window_set_owner`** changes the owner of a window of the list, and of no other. -/
theorem Ordered.setOwner (h : d.Ordered z) (win : Nat) (pid : BitVec 64) :
    { d with manager := windowSetOwner d.manager win pid }.Ordered
      ((ZOrderEvent.setOwner win pid).apply z) := by
  by_cases hskip : win = 0 ∨ (d.window win).destroyed = true
  · -- then the window is not in the list
    have hset : windowSetOwner d.manager win pid = d.manager :=
      if_pos (by simpa [window] using hskip)
    have hout : ∀ e ∈ z, e.1 ≠ win := by
      rintro e he rfl
      obtain ⟨hcreated, hon⟩ := (h.listed e.1).mp (List.mem_map_of_mem he)
      rcases hskip with hzero | hdestroyed
      · exact h.ne_null hcreated hzero
      · exact Bool.false_ne_true (hon.symm.trans hdestroyed)
    have happly : (ZOrderEvent.setOwner win pid).apply z = z := by
      refine (List.map_congr_left fun e he => ?_).trans (List.map_id z)
      rw [if_neg (hout e he)]
      rfl
    rw [happly, hset]
    exact h
  -- otherwise the window has its owner from now on, and keeps its place
  · have hset : { d with manager := windowSetOwner d.manager win pid } =
        d.updateWindow win fun w => { w with ownerPid := pid } := by
      rw [windowSetOwner, if_neg (by simpa [window] using hskip)]
      rfl
    rw [hset]
    refine h.reown (Same.update d win rfl rfl rfl) (ZOrderEvent.setOwner_fst win pid z) fun e he => ?_
    obtain ⟨e', he', rfl⟩ := List.mem_map.mp he
    rw [updateWindow_window]
    dsimp only
    split
    · rfl
    · exact h.owner e' he'

end Owners

/-! ## `window_update` -/

section Update

variable {d d' : Desktop} {z : ZOrder} {u : UpdateCall}

theorem windowPushEvent_owners (win : Nat) (event : GuiEvent) (d : Desktop) :
    SameOwners d (windowPushEvent win event d) := by
  unfold windowPushEvent
  dsimp only
  split
  · exact SameOwners.refl d
  · exact SameOwners.update d win rfl

theorem windowMove_owners (u : UpdateCall) (hit : WindowHit) (d : Desktop) :
    SameOwners d (windowMove u hit d) := by
  unfold windowMove
  dsimp only
  split_ifs
  · exact windowPushEvent_owners hit.win _ _
  · exact SameOwners.refl d
  · exact SameOwners.refl d

/-- What is not in the window list may change. -/
theorem Ordered.fields (h : d.Ordered z) (hmanager : d'.manager = d.manager) (hlog : d'.log = d.log) :
    d'.Ordered z := by
  have hwindow : ∀ x, d'.window x = d.window x := fun x => by rw [window, hmanager]; rfl
  refine h.same ⟨⟨fun x => ?_, fun x => ?_, hlog⟩, fun x => ?_, ?_⟩ fun x => ?_
  · rw [hwindow]
  · rw [hwindow]
  · rw [next, hwindow]
    rfl
  · rw [hmanager]
  · rw [hwindow]

/-- **The button** moves a window in the order just where it is pressed on its title. -/
theorem Ordered.press (h : d.Ordered z) {hit : WindowHit}
    (hhit : hit.win = 0 ∨ .create hit.win ∈ d.log) :
    ∃ d', windowPress u hit d = some d' ∧ d'.log = d.log ∧ d'.Ordered
      (if titlePressed u hit d then (ZOrderEvent.press hit.win).apply z else z) := by
  by_cases hpressed : titlePressed u hit d
  · -- the window goes to the front, and is dragged from now on
    obtain ⟨hdown, hdrag, hne, hon, htitle⟩ := hpressed
    have hwin : hit.win ∈ z.map Prod.fst := (h.listed hit.win).mpr ⟨hhit.resolve_left hne, hon⟩
    have hstart : { d with
        draggingWindow := hit.win
        dragOffX := u.mx - (d.window hit.win).x
        dragOffY := u.my - (d.window hit.win).y }.Ordered z := h.fields rfl rfl
    obtain ⟨d', hraise, hordered, hlog⟩ := hstart.raise hwin
    refine ⟨d', ?_, hlog, ?_⟩
    · rw [windowPress, if_pos hdown, if_pos hdrag, if_pos ⟨hne, hon⟩, if_pos htitle]
      exact hraise
    · rw [if_pos ⟨hdown, hdrag, hne, hon, htitle⟩]
      exact hordered
  · rw [if_neg hpressed, windowPress]
    have hstop : { d with draggingWindow := 0 }.Ordered z := h.fields rfl rfl
    -- nothing else moves a window in the list
    split_ifs with hdown hdrag hon htitle hbody hdragged
    · exact absurd ⟨hdown, hdrag, hon.1, hon.2, htitle⟩ hpressed
    · have hpush := windowPushEvent_same hit.win
        (bodyEvent guiEventMouseClick 1 u.mx u.my (d.window hit.win)) d
      refine ⟨_, rfl, hpush.1.log, h.same hpush.1 (windowPushEvent_owners _ _ d)⟩
    · exact ⟨d, rfl, rfl, h⟩
    · exact ⟨d, rfl, rfl, h⟩
    · have hdragged := (dragWindow_same u.mx u.my d).1
      have howners : SameOwners d (dragWindow u.mx u.my d) := SameOwners.update d d.draggingWindow
        (f := fun w => { w with x := u.mx - d.dragOffX, y := u.my - d.dragOffY, dirty := true }) rfl
      exact ⟨_, rfl, hdragged.log, h.same hdragged howners⟩
    · exact ⟨_, rfl, rfl, hstop⟩
    · exact ⟨_, rfl, rfl, hstop⟩

/-- **The second section of `window_update`** ends. -/
theorem Ordered.finish (h : d.Ordered z) {press : WindowHit} (move : WindowHit)
    (hheld : ∀ win ∈ u.held.map Prod.fst, .create win ∈ d.log)
    (hpress : press.win = 0 ∨ press.win ∈ u.held.map Prod.fst) :
    ∃ d', finishUpdate u press move d = some d' ∧
      (∀ x, .create x ∈ d'.log ↔ .create x ∈ d.log) ∧ d'.Ordered
        (if titlePressed u press d then (ZOrderEvent.press press.win).apply z else z) := by
  -- the cursor's first rectangle, the button, the move, and the references, one after another
  obtain ⟨d₀, hd₀⟩ : ∃ d₀, d₀ = if u.cursorWasInitialized then d
    else d.queueDirty (cursorRect u.mx u.my) := ⟨_, rfl⟩
  have hstart : d₀.Ordered z ∧ d₀.log = d.log ∧ (titlePressed u press d₀ ↔ titlePressed u press d) := by
    rw [hd₀]
    split
    · exact ⟨h, rfl, Iff.rfl⟩
    · exact ⟨h.same (Same.queueDirty _ _) (SameOwners.refl _), rfl, Iff.rfl⟩
  obtain ⟨hordered₀, hlog₀, hpressed₀⟩ := hstart
  obtain ⟨d₁, hbutton, hlog₁, hordered₁⟩ :=
    hordered₀.press (u := u) (hpress.imp id fun hm => hlog₀ ▸ hheld _ hm)
  -- a move changes neither the list nor its log
  have hmove := (windowMove_same u move d₁).1
  obtain ⟨d₂, hd₂⟩ : ∃ d₂, d₂ = { windowMove u move d₁ with
    cursorX := u.mx, cursorY := u.my, lastMb := u.mb, lastMx := u.mx, lastMy := u.my } := ⟨_, rfl⟩
  have hlog₂ : d₂.log = d.log := by
    rw [hd₂]
    exact hmove.log.trans (hlog₁.trans hlog₀)
  have hordered₂ : d₂.Ordered (if titlePressed u press d₀ then
      (ZOrderEvent.press press.win).apply z else z) := by
    rw [hd₂]
    exact (hordered₁.same hmove (windowMove_owners u move d₁)).fields rfl rfl
  -- what is released at the end are the references that the update held
  obtain ⟨hordered₃, hlog₃⟩ := hordered₂.releaseRefs fun win hwin => hlog₂ ▸ hheld win hwin
  obtain ⟨d₃, hd₃⟩ : ∃ d₃, d₃ = releaseWindowRefs (u.held.map Prod.fst) d₂ := ⟨_, rfl⟩
  have hfinish := finishUpdate_of_press move hd₀ hbutton hd₂ hd₃
  rw [← hd₃] at hordered₃ hlog₃
  rw [if_congr hpressed₀ rfl rfl] at hordered₃
  refine ⟨_, hfinish, fun x => ?_, ?_⟩
  · rw [← hlog₂]
    split
    · exact hlog₃ x
    · exact hlog₃ x
  · split
    · exact hordered₃.fields rfl rfl
    · exact hordered₃

end Update

end Desktop

/-! ## Interleavings -/

namespace WindowSystem

variable {κ : Type}

/-- **The list is the order**, with no window twice, each with its owner; and each section that may run
ends. -/
structure InOrder [DecidableEq κ] (s : WindowSystem κ) (z : ZOrder) : Prop where
  linked : Linked s.desktop.next 0 s.desktop.manager.windowList (z.map Prod.fst)
  nodup : (z.map Prod.fst).Nodup
  owner : ∀ e ∈ z, (s.desktop.window e.1).ownerPid = e.2
  ends : ∀ op : WindowAction κ, op.Valid s → ∃ s', windowStep s op s'

/-- What holds between the sections: what a call holds was created, and a window found under the mouse
is held by the call. -/
structure Ordered (s : WindowSystem κ) (z : ZOrder) : Prop where
  desktop : s.desktop.Ordered z
  held : ∀ k, ∀ win ∈ s.held k, .create win ∈ s.desktop.log
  hit : ∀ k u press move, s.calls k = .hit u press move →
    press.win = 0 ∨ press.win ∈ u.held.map Prod.fst

/-- There is no memory for a new window while the list has windows. -/
def LosesList (s : WindowSystem κ) : WindowAction κ → Prop
  | .create win _ _ _ _ _ => win = 0 ∧ s.desktop.manager.windowList ≠ 0
  | _ => False

variable {s : WindowSystem κ} {z z' : ZOrder}

theorem Start.ordered (h : s.Start) : s.Ordered [] where
  desktop := {
    linked := h.list
    owner e he := (List.not_mem_nil he).elim
    listed win := by
      rw [h.log]
      exact iff_of_false List.not_mem_nil fun hc => List.not_mem_nil hc.1
    live win hwin := (List.not_mem_nil hwin).elim
    null := by
      rw [h.log]
      exact List.not_mem_nil
    freed win := by
      rw [h.log]
      exact Nat.le_refl 0
    idle win hwin := by
      rw [h.log] at hwin
      exact (List.not_mem_nil hwin).elim }
  held k win hwin := by
    rw [WindowSystem.held, h.calls k] at hwin
    exact (List.not_mem_nil hwin).elim
  hit k u press move hk := by
    rw [h.calls k] at hk
    exact WindowCall.noConfusion hk

/-- The desktop changes under the calls. -/
theorem Ordered.change (h : s.Ordered z) {d : Desktop} (hd : d.Ordered z')
    (hlog : ∀ x, .create x ∈ s.desktop.log → .create x ∈ d.log) :
    { s with desktop := d }.Ordered z' :=
  ⟨hd, fun k win hwin => hlog win (h.held k win hwin), h.hit⟩

section Steps

variable [DecidableEq κ]

/-- A call goes on. -/
theorem Ordered.set (h : s.Ordered z) {k : κ} {call : WindowCall} {d : Desktop} (hd : d.Ordered z')
    (hlog : ∀ x, .create x ∈ s.desktop.log → .create x ∈ d.log)
    (hheld : ∀ win ∈ call.windows, .create win ∈ d.log)
    (hhit : ∀ u press move, call = .hit u press move →
      press.win = 0 ∨ press.win ∈ u.held.map Prod.fst) : (s.set k call d).Ordered z' := by
  refine ⟨hd, fun j win hwin => ?_, fun j u press move hj => ?_⟩
  · rw [set_held, Function.update_apply] at hwin
    split at hwin
    · exact hheld win hwin
    · exact hlog win (h.held j win hwin)
  · have hj' : Function.update s.calls k call j = .hit u press move := hj
    rw [Function.update_apply] at hj'
    split at hj'
    · exact hhit u press move hj'
    · exact h.hit j u press move hj'

/-- The order after a step. -/
def orderAfter (s : WindowSystem κ) (op : WindowAction κ) (z : ZOrder) : ZOrder :=
  (op.zorderEvent s).elim z fun event => event.apply z

/-- A call that holds nothing takes the first windows. -/
theorem Ordered.hold (h : s.Ordered z) {k : κ} {d d' : Desktop} {call : WindowCall}
    (hd : d.Ordered z) (hlog : d.log = s.desktop.log) (hsnapshot : (snapshotWindowList d).2 = d')
    (hcall : call.windows = (snapshotWindowList d).1.map Prod.fst)
    (hhit : ∀ u press move, call ≠ .hit u press move) : (s.set k call d').Ordered z := by
  obtain ⟨hordered, hlog', hheld⟩ := hd.snapshotFrom hd.linked (List.Subset.refl _)
  subst hsnapshot
  refine h.set hordered (fun x hx => ?_) (fun win hwin => ?_) fun u press move he => ?_
  · exact (hlog'.trans hlog).symm ▸ hx
  · rw [hcall] at hwin
    exact hlog'.symm ▸ hheld win hwin
  · exact absurd he (hhit u press move)

/-- The first section of `window_draw_all`. -/
theorem Ordered.draw (h : s.Ordered z) {k : κ} {d : Desktop}
    (hd : d = { s.desktop with manager := { s.desktop.manager with dirtyRects := [] } }) :
    (s.set k (.drawing (snapshotWindowList d).1) (snapshotWindowList d).2).Ordered z := by
  have hclean : d.Ordered z := by
    rw [hd]
    exact h.desktop.same ⟨⟨fun _ => rfl, fun _ => rfl, rfl⟩, fun _ => rfl, rfl⟩ fun _ => rfl
  have hlog : d.log = s.desktop.log := by rw [hd]
  exact h.hold hclean hlog rfl rfl fun _ _ _ => WindowCall.noConfusion

/-- **Each step is defined, and changes the order by its event.** -/
theorem Ordered.step (h : s.Ordered z) {op : WindowAction κ} (hvalid : op.Valid s)
    (hkeeps : ¬ s.LosesList op) :
    ∃ s', op.run s = some s' ∧ s'.Ordered (s.orderAfter op z) := by
  cases op with
  | create win x y w height bgColor =>
    refine ⟨_, rfl, ?_⟩
    by_cases hnull : win = 0
    · -- no memory, and no window in the list either
      have hlist : s.desktop.manager.windowList = 0 := by
        by_contra hlist
        exact hkeeps ⟨hnull, hlist⟩
      rw [orderAfter, WindowAction.zorderEvent, if_pos hnull]
      exact h.change (h.desktop.createNull hnull hlist x y w height bgColor) fun p hp => by
        rw [Desktop.create_log_null win x y w height bgColor s.desktop hnull]
        exact hp
    · obtain ⟨hordered, hlog⟩ :=
        h.desktop.create (hvalid.resolve_left hnull) hnull x y w height bgColor
      rw [orderAfter, WindowAction.zorderEvent, if_neg hnull]
      exact h.change hordered hlog
  | setOwner win pid => exact ⟨_, rfl, h.change (h.desktop.setOwner win pid) fun _ => id⟩
  | destroyByPid pid =>
    -- nothing is before the first window
    have hall : s.desktop.Ordered (([] : ZOrder) ++ z) := h.desktop
    obtain ⟨d, hd, hordered, hlog⟩ : ∃ d, windowDestroyByPid pid s.desktop = some d ∧
        d.Ordered ([] ++ (ZOrderEvent.destroy pid).apply z) ∧
        ∀ x, HeapEvent.create x ∈ d.log ↔ HeapEvent.create x ∈ s.desktop.log :=
      hall.destroyFrom hall.linked (Or.inl ⟨rfl, rfl⟩) hall.length_lt
    refine ⟨{ s with desktop := d }, ?_, h.change hordered fun x => (hlog x).mpr⟩
    rw [WindowAction.run, hd]
    rfl
  | update k mx my mb =>
    have hout : s.calls k = .out := hvalid
    rw [WindowAction.run]
    split
    · exact ⟨_, rfl, h⟩
    · refine ⟨_, rfl, h.set h.desktop (fun _ => id) (fun win hwin => ?_) ?_⟩
      · exact (List.not_mem_nil hwin).elim
      · exact fun u press move he => WindowCall.noConfusion he
  | updateBegin k =>
    rw [WindowAction.run]
    split
    · rename_i mx my mb hcall
      obtain ⟨d, hd⟩ : ∃ d, d = if s.desktop.cursorInitialized then s.desktop
        else { s.desktop with cursorInitialized := true, cursorX := mx, cursorY := my } := ⟨_, rfl⟩
      have hstart : d.Ordered z ∧ d.log = s.desktop.log := by
        rw [hd]
        split
        · exact ⟨h.desktop, rfl⟩
        · exact ⟨h.desktop.fields rfl rfl, rfl⟩
      have hbegin : beginUpdate mx my mb s.desktop =
          (⟨mx, my, mb, s.desktop.cursorInitialized, d.draggingWindow, (snapshotWindowList d).1⟩,
            (snapshotWindowList d).2) := by
        rw [beginUpdate, ← hd]
      rw [hbegin]
      exact ⟨_, rfl, h.hold hstart.1 hstart.2 rfl rfl fun _ _ _ => WindowCall.noConfusion⟩
    · exact ⟨s, rfl, h⟩
  | updateHits k =>
    rw [WindowAction.run]
    split
    · rename_i u hcall
      refine ⟨_, rfl, h.set h.desktop (fun _ => id) (fun win hwin => h.held k win ?_) ?_⟩
      · rw [WindowSystem.held, hcall]
        exact hwin
      · rintro u' press move he
        cases he
        rw [findHits]
        dsimp only
        split
        · exact findWindowHit_mem u.mx u.my u.held
        · exact Or.inl rfl
    · exact ⟨s, rfl, h⟩
  | updateFinish k =>
    rw [WindowAction.run, orderAfter, WindowAction.zorderEvent]
    cases hcall : s.calls k with
    | hit u press move =>
      have hheld : ∀ win ∈ u.held.map Prod.fst, .create win ∈ s.desktop.log := by
        have hk := h.held k
        rwa [WindowSystem.held, hcall] at hk
      obtain ⟨d, hd, hlog, hordered⟩ := h.desktop.finish move hheld
        (h.hit k u press move hcall)
      refine ⟨s.set k .out d, (congrArg (Option.map _) hd).trans rfl, ?_⟩
      have horder : Option.elim (if titlePressed u press s.desktop then
          some (ZOrderEvent.press press.win) else none) z (fun event => event.apply z) =
            if titlePressed u press s.desktop then (ZOrderEvent.press press.win).apply z else z := by
        split <;> rfl
      rw [horder]
      refine h.set hordered (fun x => (hlog x).mpr) (fun win hwin => ?_) ?_
      · exact (List.not_mem_nil hwin).elim
      · exact fun u press move he => WindowCall.noConfusion he
    | out | updating mx my mb | holding u | drawing held => exact ⟨s, rfl, h⟩
  | draw k =>
    rw [WindowAction.run]
    split
    · exact ⟨s, rfl, h⟩
    · exact ⟨_, rfl, h.draw rfl⟩
  | drawFinish k =>
    rw [WindowAction.run]
    split
    · rename_i held hcall
      have hheld : ∀ win ∈ held.map Prod.fst, .create win ∈ s.desktop.log := by
        have hk := h.held k
        rwa [WindowSystem.held, hcall] at hk
      obtain ⟨hordered, hlog⟩ := h.desktop.releaseRefs hheld
      refine ⟨_, rfl, h.set hordered (fun x => (hlog x).mpr) (fun win hwin => ?_) ?_⟩
      · exact (List.not_mem_nil hwin).elim
      · exact fun u press move he => WindowCall.noConfusion he
    · exact ⟨s, rfl, h⟩

/-- Where `NULL` is put before the windows of the list, they are lost. -/
theorem Ordered.loses (h : s.Ordered z) {op : WindowAction κ} (hloses : s.LosesList op)
    {s' : WindowSystem κ} (hrun : op.run s = some s') : ¬ s'.InOrder (s.orderAfter op z) := by
  cases op with
  | create win x y w height bgColor =>
    obtain ⟨rfl, hlist⟩ := hloses
    cases hrun
    intro horder
    have hempty : z.map Prod.fst = [] := horder.linked.unique rfl
    have hlinked := h.desktop.linked
    rw [hempty] at hlinked
    exact hlist hlinked
  | setOwner | destroyByPid | update | updateBegin | updateHits | updateFinish | draw | drawFinish =>
    exact hloses.elim

/-- Every section ends, also where there is no memory for a window. -/
theorem Ordered.inOrder (h : s.Ordered z) : s.InOrder z where
  linked := h.desktop.linked
  nodup := h.desktop.linked.nodup
  owner := h.desktop.owner
  ends op hvalid := by
    by_cases hkeeps : s.LosesList op
    · cases op with
      | create win x y w height bgColor => exact ⟨_, hvalid, rfl⟩
      | setOwner | destroyByPid | update | updateBegin | updateHits | updateFinish | draw
      | drawFinish => exact hkeeps.elim
    · obtain ⟨s', hs', -⟩ := h.step hvalid hkeeps
      exact ⟨s', hvalid, hs'⟩

end Steps

end WindowSystem

/-- **The list is the order, all along a run**, just if the run never puts `NULL` before the windows of
the list. -/
theorem windowRun_zorder {κ : Type} [DecidableEq κ] {s₀ : WindowSystem κ} (h : s₀.Start)
    {ops : List (WindowAction κ)} {t : WindowSystem κ × ZOrder}
    (hrun : Run zorderStep (s₀, []) ops t) :
    (∀ pre u, pre <+: ops → Run zorderStep (s₀, []) pre u → u.1.InOrder u.2) ↔
      ∀ pre u op, pre ++ [op] <+: ops → Run zorderStep (s₀, []) pre u → ¬ u.1.LosesList op := by
  refine Run.always_iff (J := fun u => u.1.Ordered u.2) ?_ ?_ ?_ ?_ h.ordered hrun
  · rintro u op v v' ⟨⟨-, hv⟩, horder⟩ ⟨⟨-, hv'⟩, horder'⟩
    exact Prod.ext (Option.some_injective _ (hv.symm.trans hv')) (horder.trans horder'.symm)
  · exact fun u hu => hu.inOrder
  · rintro u op v hu ⟨⟨hvalid, hv⟩, horder⟩ hkeeps
    obtain ⟨s', hs', hordered⟩ := hu.step hvalid hkeeps
    obtain rfl : s' = v.1 := Option.some_injective _ (hs'.symm.trans hv)
    exact horder ▸ hordered
  · rintro u op v hu ⟨⟨-, hv⟩, horder⟩ hloses
    exact horder ▸ hu.loses hloses hv

/-- Every run goes along with an order. -/
theorem zorderRun_of_windowRun {κ : Type} [DecidableEq κ] {s₀ s : WindowSystem κ}
    {ops : List (WindowAction κ)} (h : Run windowStep s₀ ops s) (z₀ : ZOrder) :
    ∃ z, Run zorderStep (s₀, z₀) ops (s, z) := by
  have hsim : ∀ s op s' (u : WindowSystem κ × ZOrder), s = u.1 → windowStep s op s' →
      ∃ u', zorderStep u op u' ∧ s' = u'.1 := by
    rintro s op s' u rfl hstep
    exact ⟨(s', u.1.orderAfter op u.2), ⟨hstep, rfl⟩, rfl⟩
  obtain ⟨⟨t, z⟩, hrun, rfl⟩ := h.simulation hsim (t := (s₀, z₀)) rfl
  exact ⟨z, hrun⟩

/-- Two windows; the one behind is pressed on its title. -/
def pressBehind : List (WindowAction Unit) :=
  [.create 0x1000018 50 50 200 100 0xFFFFFFFF, .create 0x1000200 100 100 200 100 0xFFFFFFFF,
    .update () 60 60 1, .updateBegin (), .updateHits (), .updateFinish ()]

/-- A window, and no memory for another one. -/
def createUntilFull : List (WindowAction Unit) :=
  [.create 0x1000018 50 50 200 100 0xFFFFFFFF, .create 0 300 50 200 100 0xFFFFFFFF]

/-- The window that is pressed comes to the front. -/
theorem windowRun_zorder_press : ∃ s z, Run zorderStep (bootDesktop, []) pressBehind (s, z) ∧
    s.InOrder z ∧ z.map Prod.fst = [0x1000018, 0x1000200] := by
  obtain ⟨s, hrun, hlist⟩ := applyAll_windowRun (fun _ _ => True)
    (fun s => s.desktop.manager.windowList = 0x1000018 ∧ s.desktop.next 0x1000018 = 0x1000200 ∧
      s.desktop.next 0x1000200 = 0) pressBehind (by decide +kernel)
  obtain ⟨z, hrun⟩ := zorderRun_of_windowRun (hrun.mono fun _ _ _ hstep => hstep.2) []
  have hnone : ∀ op ∈ pressBehind, ∀ s : WindowSystem Unit, ¬ s.LosesList op := by
    intro op hop s
    simp only [pressBehind, List.mem_cons, List.not_mem_nil, or_false] at hop
    rcases hop with rfl | rfl | rfl | rfl | rfl | rfl <;> simp [WindowSystem.LosesList]
  have horder := (windowRun_zorder bootDesktop_start hrun).mpr
    (fun pre u op hpre _ => hnone op (hpre.subset (List.mem_append_right pre List.mem_cons_self)) u.1)
    pressBehind (s, z) (List.prefix_refl _) hrun
  refine ⟨s, z, hrun, horder, horder.linked.unique ?_⟩
  exact ⟨hlist.1, by decide, hlist.2.1, by decide, hlist.2.2⟩

/-- **The list is lost** where `kmalloc` has no memory for a new window. -/
theorem windowRun_zorder_fails : ∃ s z, Run zorderStep (bootDesktop, []) createUntilFull (s, z) ∧
    ¬ s.InOrder z := by
  have hfirst : Run zorderStep (bootDesktop, []) [.create 0x1000018 50 50 200 100 0xFFFFFFFF]
      ({ bootDesktop with desktop := oneWindow }, [(0x1000018, 0)]) :=
    Run.single ⟨⟨Or.inr (by decide), rfl⟩, rfl⟩
  have hsecond : Run zorderStep (bootDesktop, []) createUntilFull
      ({ bootDesktop with desktop := oneWindow.create 0 300 50 200 100 0xFFFFFFFF },
        [(0x1000018, 0)]) := hfirst.snoc ⟨⟨Or.inl rfl, rfl⟩, rfl⟩
  refine ⟨_, _, hsecond, fun horder => ?_⟩
  obtain ⟨hnull, hne, -⟩ := horder.linked
  exact hne hnull.symm

end ZohoOs
