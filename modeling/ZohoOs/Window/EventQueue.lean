import ZohoOs.Lib.Ring
import ZohoOs.Window.Lifetime

/-!
# Event queues

`window_push_event` and `window_pop_event` of `window.c` on a window of the list. The events of a window
are in a ring of 16 slots, of which 15 can be taken.

## Main definitions

* `Desktop.windowPopEvent`: the loop along the list, and the event it takes
* `Desktop.EventQueue`: the events a window has pending
* `EventCall`, `EventRun`: calls on one window, with what was accepted and popped

## Main results

* `windowEvents_fifo`: the events come out as they went in, and 15 of them fit
-/

namespace ZohoOs

open TransitionSystem LinkedQueue

namespace Desktop

/-- The loop of `window_pop_event`: what it returns, with the event it copies; `none` where it does not
end. -/
def popEventFrom (id : BitVec 32) : Nat → Nat → Desktop → Option ((Int × Option GuiEvent) × Desktop)
  | 0, _, _ => none
  | fuel + 1, curr, d =>
    if curr = 0 then some ((-1, none), d)
    else if (d.window curr).id = id then
      if (d.window curr).destroyed then some ((-1, none), d)
      else if (d.window curr).eventHead = (d.window curr).eventTail then some ((0, none), d)
      else
        -- the head is below 16
        let event := (d.window curr).eventQueue (Fin.ofNat 16 (d.window curr).eventHead.toNat)
        some ((1, some event),
          d.updateWindow curr fun w => { w with eventHead := (w.eventHead + 1) % 16 })
    else popEventFrom id fuel (d.next curr) d

/-- `window_pop_event`. -/
def windowPopEvent (fuel : Nat) (id : BitVec 32) (outEvent : BitVec 64) (d : Desktop) :
    Option ((Int × Option GuiEvent) × Desktop) :=
  if outEvent = 0 then some ((-1, none), d) else popEventFrom id fuel d.manager.windowList d

/-- A window of the list that is not destroyed, with its id for itself up to there. -/
structure Finds (d : Desktop) (win : Nat) (pre rest : List Nat) : Prop where
  linked : Linked d.next 0 d.manager.windowList (pre ++ win :: rest)
  first : ∀ x ∈ pre, (d.window x).id ≠ (d.window win).id
  destroyed : (d.window win).destroyed = false

/-- The events a window has pending, the oldest first. -/
def EventQueue (d : Desktop) (win : Nat) (q : List GuiEvent) : Prop :=
  Ring.Holds (d.window win).eventQueue (d.window win).eventHead.toNat (d.window win).eventTail.toNat q

section Calls

variable {d : Desktop} {win : Nat} {pre rest : List Nat} {q : List GuiEvent}

/-- A new window has none. -/
theorem eventQueue_create (x y w h bgColor : BitVec 32) (d : Desktop) :
    (d.create win x y w h bgColor).EventQueue win [] := by
  obtain ⟨w', hself, -, -, -, -, hhead, htail⟩ := d.create_new win x y w h bgColor
  rw [EventQueue, hself, hhead, htail]
  exact Ring.Holds.nil (by decide)

/-- `(n + 1) % 16`, of a number below 16. -/
theorem toNat_next {n : BitVec 8} (h : n.toNat < 16) : ((n + 1) % 16).toNat = (n.toNat + 1) % 16 := by
  rw [BitVec.toNat_umod, BitVec.toNat_add_of_lt (by simp; omega)]
  rfl

/-- What is changed of the queue of a window finds the window as before. -/
theorem Finds.update (h : d.Finds win pre rest) {f : Window → Window}
    (hnext : (f (d.window win)).next = (d.window win).next)
    (hid : (f (d.window win)).id = (d.window win).id)
    (hdestroyed : (f (d.window win)).destroyed = (d.window win).destroyed) :
    (d.updateWindow win f).Finds win pre rest where
  linked := h.linked.congr fun x _ => d.updateWindow_field win x f (·.next) hnext
  first x hx := by
    rw [d.updateWindow_field win x f (·.id) hid, d.updateWindow_field win win f (·.id) hid]
    exact h.first x hx
  destroyed := (d.updateWindow_field win win f (·.destroyed) hdestroyed).trans h.destroyed

/-- **A push** is dropped where 15 events are pending, and is the last one otherwise. -/
theorem windowPushEvent_queue (h : d.EventQueue win q) (event : GuiEvent) :
    (q.length = 15 ∧ ZohoOs.windowPushEvent win event d = d) ∨
      (q.length < 15 ∧ (ZohoOs.windowPushEvent win event d).EventQueue win (q ++ [event]) ∧
        ((ZohoOs.windowPushEvent win event d).window win).eventTail ≠ (d.window win).eventTail) := by
  have htail := h.tail_lt
  have hfull := h.full_iff
  have hnext := toNat_next htail
  have hlen := h.length_lt
  rw [windowPushEvent]
  -- the tail would run into the head: then the queue is full
  by_cases hroom : ((d.window win).eventTail + 1) % 16 = (d.window win).eventHead
  · left
    rw [← hnext, hroom] at hfull
    exact ⟨Nat.succ.inj (hfull.mp rfl), if_pos hroom⟩
  · right
    have hne : ((d.window win).eventTail.toNat + 1) % 16 ≠ (d.window win).eventHead.toNat := by
      rw [← hnext]
      exact fun he => hroom (BitVec.toNat_inj.mp he)
    rw [if_neg hroom, EventQueue, updateWindow_window, if_pos rfl]
    refine ⟨?_, ?_, ?_⟩
    · have hnot : q.length + 1 ≠ 16 := mt hfull.mpr hne
      omega
    · rw [hnext]
      exact h.push hne
    · dsimp only
      intro he
      have hval := congrArg BitVec.toNat he
      rw [hnext] at hval
      omega

/-- **A pop** takes the oldest event. -/
theorem windowPopEvent_queue (h : d.Finds win pre rest) (hq : d.EventQueue win q) {fuel : Nat}
    (hfuel : pre.length < fuel) {outEvent : BitVec 64} (hout : outEvent ≠ 0) :
    (q = [] ∧ d.windowPopEvent fuel (d.window win).id outEvent = some ((0, none), d)) ∨
      ∃ event q', q = event :: q' ∧
        d.windowPopEvent fuel (d.window win).id outEvent = some ((1, some event),
          d.updateWindow win fun w => { w with eventHead := (w.eventHead + 1) % 16 }) ∧
        (d.updateWindow win fun w => { w with eventHead := (w.eventHead + 1) % 16 }).EventQueue win
          q' := by
  -- the loop gets to the window
  have hloop : ∀ (pre' : List Nat) (fuel curr : Nat),
      Linked d.next 0 curr (pre' ++ win :: rest) → (∀ x ∈ pre', x ∈ pre) → pre'.length < fuel →
      ∃ fuel', popEventFrom (d.window win).id fuel curr d =
        popEventFrom (d.window win).id (fuel' + 1) win d := by
    intro pre'
    induction pre' with
    | nil =>
      intro fuel curr hlinked _ hlt
      obtain ⟨rfl, -, -⟩ := hlinked
      exact ⟨fuel - 1, by rw [Nat.sub_add_cancel (show 1 ≤ fuel from hlt)]⟩
    | cons x pre' ih =>
      intro fuel curr hlinked hsub hlt
      obtain ⟨fuel, rfl⟩ : ∃ f, fuel = f + 1 := ⟨fuel - 1, by omega⟩
      obtain ⟨rfl, hne, hrest⟩ := hlinked
      rw [popEventFrom, if_neg hne, if_neg (h.first curr (hsub curr List.mem_cons_self))]
      rw [List.length_cons] at hlt
      exact ih fuel _ hrest (fun x hx => hsub x (List.mem_cons_of_mem _ hx)) (by omega)
  obtain ⟨fuel', heq⟩ := hloop pre fuel _ h.linked (fun _ => id) hfuel
  have hne : win ≠ 0 := h.linked.ne_nil (List.mem_append_right _ List.mem_cons_self)
  rw [windowPopEvent, if_neg hout, heq, popEventFrom, if_neg hne, if_pos rfl, h.destroyed]
  simp only [Bool.false_eq_true, if_false]
  cases q with
  | nil =>
    left
    rw [if_pos (BitVec.toNat_inj.mp (hq.empty_iff.mpr rfl))]
    exact ⟨rfl, rfl⟩
  | cons event q' =>
    right
    obtain ⟨hslot, hpop⟩ := hq.pop
    rw [if_neg fun he => List.cons_ne_nil _ _ (hq.empty_iff.mp (congrArg BitVec.toNat he)), hslot]
    refine ⟨event, q', rfl, rfl, ?_⟩
    rw [EventQueue, updateWindow_window, if_pos rfl]
    dsimp only
    rw [toNat_next hq.head_lt]
    exact hpop

end Calls

end Desktop

/-! ## Many calls -/

/-- A call of `window_push_event` on a window, or of `window_pop_event` on its id. -/
inductive EventCall
  | push (event : GuiEvent)
  | pop (outEvent : BitVec 64)

/-- The desktop, with the events that went into the ring of a window and those that were copied out. -/
structure EventRun where
  desktop : Desktop
  accepted : List GuiEvent
  popped : List GuiEvent

/-- A push is accepted where it moves the tail. -/
def EventCall.run (win fuel : Nat) : EventCall → EventRun → Option EventRun
  | .push event, r =>
    let d := windowPushEvent win event r.desktop
    let taken := (d.window win).eventTail ≠ (r.desktop.window win).eventTail
    some ⟨d, if taken then r.accepted ++ [event] else r.accepted, r.popped⟩
  | .pop outEvent, r =>
    (r.desktop.windowPopEvent fuel (r.desktop.window win).id outEvent).map fun ((_, event), d) =>
      ⟨d, r.accepted, r.popped ++ event.toList⟩

/-- The state of the calls stands for a queue. -/
structure EventRun.Kept (r : EventRun) (win : Nat) (pre rest : List Nat) (q₀ q : List GuiEvent) :
    Prop where
  finds : r.desktop.Finds win pre rest
  queue : r.desktop.EventQueue win q
  fifo : q₀ ++ r.accepted = r.popped ++ q

section Runs

variable {r r' : EventRun} {win fuel : Nat} {pre rest : List Nat} {q₀ q : List GuiEvent}

theorem EventRun.Kept.step (h : r.Kept win pre rest q₀ q) (hfuel : pre.length < fuel)
    (call : EventCall) :
    ∃ r' q', call.run win fuel r = some r' ∧ r'.Kept win pre rest q₀ q' := by
  cases call with
  | push event =>
    -- a full queue drops the event, and another one has it at its end
    rcases Desktop.windowPushEvent_queue h.queue event with ⟨-, hsame⟩ | ⟨-, hqueue, htail⟩
    · refine ⟨r, q, ?_, h⟩
      simp only [EventCall.run, hsame, ne_eq, not_true_eq_false, if_false]
    · refine ⟨_, q ++ [event], rfl, ?_, hqueue, ?_⟩
      · rw [windowPushEvent]
        dsimp only
        split
        · exact h.finds
        · exact h.finds.update rfl rfl rfl
      · dsimp only
        rw [if_pos htail, ← List.append_assoc, h.fifo, List.append_assoc]
  | pop outEvent =>
    rw [EventCall.run]
    by_cases hout : outEvent = 0
    · refine ⟨r, q, ?_, h⟩
      rw [Desktop.windowPopEvent, if_pos hout]
      simp
    -- an empty queue has nothing to pop
    · rcases Desktop.windowPopEvent_queue h.finds h.queue hfuel hout with
        ⟨-, hpop⟩ | ⟨event, q', rfl, hpop, hqueue⟩
      · refine ⟨r, q, ?_, h⟩
        rw [hpop]
        simp
      · refine ⟨⟨_, r.accepted, r.popped ++ [event]⟩, q', by rw [hpop]; rfl, ?_, hqueue, ?_⟩
        · exact Desktop.Finds.update h.finds (f := fun w => { w with
            eventHead := (w.eventHead + 1) % 16 }) rfl rfl rfl
        · rw [h.fifo, List.append_assoc, List.singleton_append]

/-- **The events of a window are a queue of at most 15.** After any calls, what was accepted has been
popped in that order up to the events that are pending; a push is dropped just if 15 are, and a pop
takes the oldest. -/
theorem windowEvents_fifo {d : Desktop} (hfinds : d.Finds win pre rest) (hqueue : d.EventQueue win q₀)
    (hfuel : pre.length < fuel) {calls : List EventCall}
    (hrun : Run (ApplySome (EventCall.run win fuel)) ⟨d, [], []⟩ calls r) :
    ∃ q, r.desktop.EventQueue win q ∧ q.length ≤ 15 ∧ q₀ ++ r.accepted = r.popped ++ q ∧
      (∀ event, windowPushEvent win event r.desktop = r.desktop ↔ q.length = 15) ∧
      (∀ outEvent, outEvent ≠ 0 → ∃ d',
        r.desktop.windowPopEvent fuel (r.desktop.window win).id outEvent =
          some ((if q = [] then 0 else 1, q.head?), d')) ∧
      ∀ call : EventCall, ∃ r', call.run win fuel r = some r' := by
  -- what each of the calls keeps, the run keeps
  obtain ⟨q, hkept⟩ : ∃ q, r.Kept win pre rest q₀ q := by
    induction hrun with
    | nil => exact ⟨q₀, hfinds, hqueue, List.append_nil q₀⟩
    | snoc _ hstep ih =>
      obtain ⟨q, hkept⟩ := ih
      obtain ⟨r', q', hr', hkept'⟩ := hkept.step hfuel _
      obtain rfl : r' = _ := Option.some_injective _ (hr'.symm.trans hstep)
      exact ⟨q', hkept'⟩
  have hlen := hkept.queue.length_lt
  refine ⟨q, hkept.queue, by omega, hkept.fifo, fun event => ?_, fun outEvent hout => ?_, fun call => ?_⟩
  · rcases Desktop.windowPushEvent_queue hkept.queue event with ⟨hfull, hsame⟩ | ⟨hlt, -, htail⟩
    · exact iff_of_true hsame hfull
    · refine iff_of_false (fun hsame => htail ?_) (by omega)
      rw [hsame]
  · rcases Desktop.windowPopEvent_queue hkept.finds hkept.queue hfuel hout with
      ⟨rfl, hpop⟩ | ⟨event, q', rfl, hpop, -⟩
    · exact ⟨_, hpop⟩
    · exact ⟨_, hpop⟩
  · obtain ⟨r', -, hr', -⟩ := hkept.step hfuel call
    exact ⟨r', hr'⟩

end Runs

/-- The desktop with its first window. -/
def oneWindow : Desktop := bootDesktop.desktop.create 0x1000018 50 50 200 100 0xFFFFFFFF

theorem oneWindow_finds : oneWindow.Finds 0x1000018 [] [] :=
  ⟨⟨rfl, by decide, rfl⟩, fun _ hx => (List.not_mem_nil hx).elim, rfl⟩

/-- Two clicks, and the first one taken. -/
theorem windowEvents_fifo_clicks : ∃ r q,
    Run (ApplySome (EventCall.run 0x1000018 1)) ⟨oneWindow, [], []⟩
      [.push ⟨1, 5, 5, 1⟩, .push ⟨1, 9, 9, 1⟩, .pop 0x7000] r ∧
    r.accepted = [⟨1, 5, 5, 1⟩, ⟨1, 9, 9, 1⟩] ∧ r.popped = [⟨1, 5, 5, 1⟩] ∧
      r.accepted = r.popped ++ q ∧ r.desktop.EventQueue 0x1000018 q := by
  have hrun : Run (ApplySome (EventCall.run 0x1000018 1)) ⟨oneWindow, [], []⟩
      [.push ⟨1, 5, 5, 1⟩, .push ⟨1, 9, 9, 1⟩, .pop 0x7000] _ :=
    Run.cons rfl (Run.cons rfl (Run.single rfl))
  obtain ⟨q, hqueue, -, hfifo, -⟩ := windowEvents_fifo oneWindow_finds
    (Desktop.eventQueue_create ..) (Nat.one_pos) hrun
  exact ⟨_, q, hrun, rfl, rfl, hfifo, hqueue⟩

end ZohoOs
