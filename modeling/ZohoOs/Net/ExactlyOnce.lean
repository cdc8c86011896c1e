import ZohoOs.Net.Poll

/-!
# Each frame once

`e1000_poll` clears the status of a descriptor and moves its cursor when `net_handle_packet` has
returned. Meanwhile a nested call finds the descriptor complete, and passes it again.

## Main definitions

* `ExactlyOnce`: each frame is passed once, and in order
* `TakesAgain`: a nested call takes a descriptor
* `Polled`: the ring and the calls under way, as long as this has not happened

## Main results

* `Polled.step`: any other step keeps them
* `pollRun_exactlyOnce_iff`: each frame is passed once just if no nested call takes one
-/

namespace ZohoOs

open TransitionSystem

/-- The ring and the net stack at boot. -/
structure PollState.Ready (s : PollState) : Prop where
  rxCur : s.nic.rxCur = 0
  rdh : s.nic.rdh = 0
  rdt : s.nic.rdt = 127
  status : ∀ slot, (s.nic.rxDescs slot).status = false
  stack : s.stack = []
  arrivals : s.arrivals = []
  passed : s.passed = []

/-- The descriptor of the `i`-th frame. -/
abbrev ringSlot (i : Nat) : Fin numRxDescs := Fin.ofNat numRxDescs i

/-- **Each frame exactly once**: the frames passed on are the first to have arrived, in order; those
that are left wait in their descriptors; and when `e1000_poll` returns, none is left. -/
structure ExactlyOnce (s : PollState) : Prop where
  order : s.passed.map Prod.fst = List.range s.passed.length
  frames : ∀ p ∈ s.passed, s.arrivals[p.1]? = some p.2
  waiting : ∀ i, s.passed.length ≤ i → i < s.arrivals.length →
    (s.nic.rxDescs (ringSlot i)).status = true ∧
      s.arrivals[i]? = some (s.nic.rxDescs (ringSlot i)).frame
  drained : ∀ rest, s.stack = .poll :: rest → (s.nic.rxDescs s.nic.rxCur).status = false →
    s.passed.length = s.arrivals.length

/-- The step in which `e1000_poll`, called while `net_handle_packet` is under way, takes a
descriptor. -/
def TakesAgain (s : PollState) (op : PollOp) : Prop :=
  op = .resume ∧ (s.nic.rxDescs s.nic.rxCur).status = true ∧
    ∃ rest, s.stack = .poll :: rest ∧ .handled ∈ rest

/-! ## The ring -/

/-- The ring, once `n` descriptors are released: it holds the frames that have arrived since. -/
structure Ring (nic : Nic) (arrivals : List Frame) (serial : Fin numRxDescs → Nat) (n : Nat) :
    Prop where
  cur : nic.rxCur = ringSlot n
  rdh : nic.rdh = ringSlot arrivals.length
  rdt : nic.rdt = ringSlot (n + 127)
  le : n ≤ arrivals.length
  room : arrivals.length ≤ n + 127
  waiting : ∀ i, n ≤ i → i < arrivals.length → (nic.rxDescs (ringSlot i)).status = true ∧
    serial (ringSlot i) = i ∧ arrivals[i]? = some (nic.rxDescs (ringSlot i)).frame
  complete : ∀ slot, (nic.rxDescs slot).status = true →
    ∃ i, n ≤ i ∧ i < arrivals.length ∧ slot = ringSlot i

/-- Descriptors of frames that are close have different places. -/
theorem ringSlot_inj {i j n : Nat} (hi : n ≤ i ∧ i ≤ n + 127) (hj : n ≤ j ∧ j ≤ n + 127) :
    ringSlot i = ringSlot j ↔ i = j := by
  rw [Fin.ext_iff, Fin.val_ofNat, Fin.val_ofNat]
  simp only [numRxDescs]
  omega

theorem ringSlot_succ (i : Nat) : ringSlot i + 1 = ringSlot (i + 1) := by
  rw [Fin.ext_iff, Fin.val_add, Fin.val_ofNat, Fin.val_ofNat]
  simp only [numRxDescs, Fin.val_one]
  omega

section Ring

variable {nic : Nic} {arrivals : List Frame} {serial : Fin numRxDescs → Nat} {n : Nat}

/-- The device stores a frame. -/
theorem Ring.arrive (h : Ring nic arrivals serial n) (hfree : nic.rdh ≠ nic.rdt) (frame : Frame) :
    Ring { nic with
        rxDescs := Function.update nic.rxDescs nic.rdh ⟨frame, true⟩
        rdh := nic.rdh + 1 } (arrivals ++ [frame])
      (Function.update serial nic.rdh arrivals.length) n := by
  -- a descriptor is free, so the ring is not full
  have hroom : arrivals.length < n + 127 := by
    refine Nat.lt_of_le_of_ne h.room fun heq => hfree ?_
    rw [h.rdh, h.rdt, heq]
  have hle := h.le
  -- the frames that wait are in other slots
  have hne : ∀ i, n ≤ i → i < arrivals.length → ringSlot i ≠ nic.rdh := by
    intro i hi hlt heq
    rw [h.rdh, ringSlot_inj (n := n) ⟨hi, by omega⟩ ⟨hle, by omega⟩] at heq
    omega
  refine ⟨h.cur, ?_, h.rdt, ?_, ?_, fun i hi hlt => ?_, fun slot hslot => ?_⟩
  · rw [List.length_append, List.length_singleton, ← ringSlot_succ, ← h.rdh]
  · rw [List.length_append, List.length_singleton]
    omega
  · rw [List.length_append, List.length_singleton]
    omega
  · rw [List.length_append, List.length_singleton] at hlt
    by_cases hlast : i = arrivals.length
    · subst hlast
      simp only [← h.rdh, Function.update_self, List.getElem?_concat_length, and_self]
    · have hold := h.waiting i hi (by omega)
      simp only [Function.update_of_ne (hne i hi (by omega)), List.getElem?_append_left
        (show i < arrivals.length by omega), hold, and_self]
  · simp only [Function.update_apply] at hslot
    split at hslot
    · next heq => exact ⟨arrivals.length, hle, by simp, heq.trans h.rdh⟩
    · obtain ⟨i, hi, hlt, heq⟩ := h.complete slot hslot
      exact ⟨i, hi, by rw [List.length_append]; omega, heq⟩

/-- The descriptor at the cursor is released. -/
theorem Ring.release (h : Ring nic arrivals serial n) (hlt : n < arrivals.length) :
    Ring { nic with
        rxDescs := Function.update nic.rxDescs nic.rxCur
          { nic.rxDescs nic.rxCur with status := false }
        rxCur := nic.rxCur + 1
        rdt := nic.rxCur } arrivals serial (n + 1) := by
  have hroom := h.room
  have hne : ∀ i, n + 1 ≤ i → i < arrivals.length → ringSlot i ≠ nic.rxCur := by
    intro i hi hlt' heq
    rw [h.cur, ringSlot_inj (n := n) ⟨by omega, by omega⟩ ⟨by omega, by omega⟩] at heq
    omega
  refine ⟨?_, h.rdh, ?_, hlt, by omega, fun i hi hlt' => ?_, fun slot hslot => ?_⟩
  · rw [h.cur, ringSlot_succ]
  · rw [h.cur, Fin.ext_iff, Fin.val_ofNat, Fin.val_ofNat]
    simp only [numRxDescs]
    omega
  · simp only [Function.update_of_ne (hne i hi hlt')]
    exact h.waiting i (by omega) hlt'
  · simp only [Function.update_apply] at hslot
    split at hslot
    · cases hslot
    · next hcur =>
      obtain ⟨i, hi, hlt', heq⟩ := h.complete slot hslot
      refine ⟨i, ?_, hlt', heq⟩
      refine Nat.lt_of_le_of_ne hi fun hin => hcur ?_
      rw [heq, h.cur, hin]

/-- The descriptor at the cursor is complete just if a frame is left. -/
theorem Ring.status_iff (h : Ring nic arrivals serial n) :
    (nic.rxDescs nic.rxCur).status = true ↔ n < arrivals.length := by
  constructor
  · intro hstatus
    obtain ⟨i, hi, hlt, -⟩ := h.complete _ hstatus
    exact Nat.lt_of_le_of_lt hi hlt
  · intro hlt
    rw [h.cur]
    exact (h.waiting n (Nat.le_refl n) hlt).1

end Ring

/-! ## The calls under way -/

/-- A call that is no `e1000_poll`. -/
def Call.Quiet : Call → Prop
  | .poll => False
  | .handled => False
  | _ => True

/-- The calls under way, and whether `net_handle_packet` is one of them, as long as no nested call
takes a descriptor. -/
inductive Shape : List Call → Bool → Prop
  | idle {calls : List Call} (h : ∀ c ∈ calls, c.Quiet) : Shape calls false
  | polling {calls : List Call} (h : ∀ c ∈ calls, c.Quiet) : Shape (.poll :: calls) false
  | handling {above calls : List Call} (habove : ∀ c ∈ above, c.Quiet)
      (h : ∀ c ∈ calls, c.Quiet) : Shape (above ++ .handled :: calls) true
  | nested {above calls : List Call} (habove : ∀ c ∈ above, c.Quiet)
      (h : ∀ c ∈ calls, c.Quiet) : Shape (.poll :: (above ++ .handled :: calls)) true

/-- What the next step of a call that is no `e1000_poll` can do, with `rest` around it: it keeps the
ring, and may call others or `e1000_poll`. -/
structure QuietStep (s s' : PollState) (rest : List Call) : Prop where
  nic : s'.nic = s.nic
  arrivals : s'.arrivals = s.arrivals
  serial : s'.serial = s.serial
  passed : s'.passed = s.passed
  stack : ∃ calls : List Call, (∀ c ∈ calls, c.Quiet) ∧
    (s'.stack = calls ++ rest ∨ s'.stack = .poll :: (calls ++ rest))

theorem quiet_nil : ∀ c ∈ ([] : List Call), c.Quiet := fun _ hc => absurd hc List.not_mem_nil

theorem quiet_cons {c : Call} {calls : List Call} :
    (∀ d ∈ c :: calls, d.Quiet) ↔ c.Quiet ∧ ∀ d ∈ calls, d.Quiet := List.forall_mem_cons

/-- `net_send_tcp` sends at once, or waits. -/
theorem QuietStep.startSend (s : PollState) (segment : Segment) (tasks : List TcpTask)
    (rest : List Call) : QuietStep s (s.startSend segment (.tcp tasks :: rest)) rest := by
  have htasks : ∀ c ∈ [Call.tcp tasks], c.Quiet := quiet_cons.mpr ⟨trivial, quiet_nil⟩
  unfold PollState.startSend
  split
  · exact ⟨rfl, rfl, rfl, rfl, [.tcp tasks], htasks, Or.inl rfl⟩
  · exact ⟨rfl, rfl, rfl, rfl, [.wait segment s.ticks, .tcp tasks],
      quiet_cons.mpr ⟨trivial, htasks⟩, Or.inl rfl⟩

theorem PollState.resume_of_quiet (udp : UdpHandler) {s : PollState} {c : Call} {rest : List Call}
    (hstack : s.stack = c :: rest) (hc : c.Quiet) : QuietStep s (s.resume udp) rest := by
  -- a call of the stack by its kind: a round of it may put another on top
  cases c with
  | poll => exact absurd hc id
  | handled => exact absurd hc id
  | tcp tasks =>
    cases tasks with
    | nil =>
      simp only [PollState.resume, hstack]
      exact ⟨rfl, rfl, rfl, rfl, [], quiet_nil, Or.inl rfl⟩
    | cons task tasks =>
      have htasks : ∀ c ∈ [Call.tcp tasks], c.Quiet := quiet_cons.mpr ⟨trivial, quiet_nil⟩
      cases task with
      | send segment =>
        simp only [PollState.resume, hstack]
        exact QuietStep.startSend s segment tasks rest
      | reply i peer dstPort flags =>
        simp only [PollState.resume, hstack]
        exact QuietStep.startSend s _ tasks rest
      | lastAck i =>
        simp only [PollState.resume, hstack]
        exact ⟨rfl, rfl, rfl, rfl, [.tcp tasks], htasks, Or.inl rfl⟩
      | synSent i =>
        simp only [PollState.resume, hstack]
        exact ⟨rfl, rfl, rfl, rfl, [.tcp tasks], htasks, Or.inl rfl⟩
  | wait segment start =>
    simp only [PollState.resume, hstack]
    split
    · exact ⟨rfl, rfl, rfl, rfl, [.search segment start], quiet_cons.mpr ⟨trivial, quiet_nil⟩,
        Or.inr rfl⟩
    · exact ⟨rfl, rfl, rfl, rfl, [], quiet_nil, Or.inl rfl⟩
  | search segment start =>
    simp only [PollState.resume, hstack]
    split
    · exact ⟨rfl, rfl, rfl, rfl, [], quiet_nil, Or.inl rfl⟩
    · exact ⟨rfl, rfl, rfl, rfl, [.wait segment start], quiet_cons.mpr ⟨trivial, quiet_nil⟩,
        Or.inl rfl⟩

/-- **The ring and the calls under way**, once `n` descriptors are released. -/
structure Polled (s : PollState) (n : Nat) (busy : Bool) : Prop where
  shape : Shape s.stack busy
  ring : Ring s.nic s.arrivals s.serial n
  count : s.passed.length = n + busy.toNat
  busy : busy = true → n < s.arrivals.length
  order : s.passed.map Prod.fst = List.range s.passed.length
  frames : ∀ p ∈ s.passed, s.arrivals[p.1]? = some p.2

section Steps

variable {udp : UdpHandler} {s s' : PollState} {n : Nat} {busy : Bool} {op : PollOp}

theorem PollState.Ready.polled (h : s.Ready) : Polled s 0 false := by
  obtain ⟨hcur, hrdh, hrdt, hstatus, hstack, harrivals, hpassed⟩ := h
  refine ⟨?_, ⟨hcur, ?_, hrdt, Nat.zero_le _, ?_, ?_, ?_⟩, ?_, ?_, ?_, ?_⟩
  · rw [hstack]
    exact .idle fun c hc => absurd hc List.not_mem_nil
  · rw [harrivals, hrdh]
    rfl
  · rw [harrivals]
    exact Nat.zero_le _
  · rw [harrivals]
    exact fun i _ hlt => absurd hlt (Nat.not_lt_zero i)
  · intro slot hslot
    rw [hstatus] at hslot
    cases hslot
  · rw [hpassed]
    rfl
  · intro hbusy
    cases hbusy
  · rw [hpassed]
    rfl
  · rw [hpassed]
    exact fun p hp => absurd hp List.not_mem_nil

/-- As long as this holds, each frame is passed exactly once. -/
theorem Polled.exactlyOnce (h : Polled s n busy) : ExactlyOnce s := by
  have hcount := h.count
  refine ⟨h.order, h.frames, fun i hi hlt => ?_, fun rest hstack hstatus => ?_⟩
  · have hwaiting := h.ring.waiting i (by omega) hlt
    exact ⟨hwaiting.1, hwaiting.2.2⟩
  · have hdone : ¬ n < s.arrivals.length := by
      rw [← h.ring.status_iff, hstatus]
      simp
    have hle := h.ring.le
    cases hb : busy with
    | true => exact absurd (h.busy hb) hdone
    | false =>
      rw [hb] at hcount
      simp only [Bool.toNat_false] at hcount
      omega

/-- What a quiet step leaves, given the new stack. -/
theorem Polled.of_quietStep {rest : List Call} (h : Polled s n busy) (hq : QuietStep s s' rest)
    (hshape : Shape s'.stack busy) : Polled s' n busy := by
  obtain ⟨hnic, harrivals, hserial, hpassed, -⟩ := hq
  refine ⟨hshape, ?_, ?_, ?_, ?_, ?_⟩
  · rw [hnic, harrivals, hserial]
    exact h.ring
  · rw [hpassed]
    exact h.count
  · rw [harrivals]
    exact h.busy
  · rw [hpassed]
    exact h.order
  · rw [hpassed, harrivals]
    exact h.frames

/-- The loop of `e1000_poll` passes a descriptor. -/
theorem Polled.take {calls : List Call} (h : Polled s n false) (hstack : s.stack = .poll :: calls)
    (hcalls : ∀ c ∈ calls, c.Quiet) (hstatus : (s.nic.rxDescs s.nic.rxCur).status = true) :
    Polled (s.resume udp) n true := by
  have hlt := h.ring.status_iff.mp hstatus
  obtain ⟨-, hserial, hframe⟩ := h.ring.waiting n (Nat.le_refl n) hlt
  rw [← h.ring.cur] at hserial hframe
  have hcount : s.passed.length = n := h.count
  simp only [PollState.resume, hstack, hstatus, if_true]
  refine ⟨?_, h.ring, ?_, fun _ => hlt, ?_, ?_⟩
  · show Shape ([.tcp _] ++ .handled :: calls) true
    exact .handling (quiet_cons.mpr ⟨trivial, quiet_nil⟩) hcalls
  · rw [List.length_append, hcount]
    rfl
  · rw [List.map_append, h.order, List.length_append, hcount, List.length_singleton,
      List.range_succ, List.map_singleton, hserial]
  · intro p hp
    rcases List.mem_append.mp hp with hp | hp
    · exact h.frames p hp
    · obtain rfl := List.mem_singleton.mp hp
      rw [hserial]
      exact hframe

/-- The loop of `e1000_poll` releases the descriptor that was passed. -/
theorem Polled.release {calls : List Call} (h : Polled s n true)
    (hstack : s.stack = .handled :: calls) (hcalls : ∀ c ∈ calls, c.Quiet) :
    Polled (s.resume udp) (n + 1) false := by
  simp only [PollState.resume, hstack]
  exact ⟨.polling hcalls, h.ring.release (h.busy rfl), h.count, nofun, h.order, h.frames⟩

/-- The innermost call takes its next step. -/
theorem Polled.resume (h : Polled s n busy) (hsome : s.stack ≠ [])
    (hagain : ¬ TakesAgain s .resume) : ∃ n busy, Polled (s.resume udp) n busy := by
  have hshape := h.shape
  generalize hstack : s.stack = stack at hshape
  cases hshape with
  | idle hquiet =>
    cases stack with
    | nil => exact absurd hstack hsome
    | cons c rest =>
      obtain ⟨hc, hrest⟩ := quiet_cons.mp hquiet
      have hq := PollState.resume_of_quiet udp hstack hc
      obtain ⟨calls, hcalls, hnew⟩ := hq.stack
      have hall : ∀ c ∈ calls ++ rest, c.Quiet := List.forall_mem_append.mpr ⟨hcalls, hrest⟩
      refine ⟨n, false, h.of_quietStep hq ?_⟩
      rcases hnew with hnew | hnew
      · rw [hnew]
        exact .idle hall
      · rw [hnew]
        exact .polling hall
  | polling hquiet =>
    cases hstatus : (s.nic.rxDescs s.nic.rxCur).status with
    | true => exact ⟨n, true, h.take hstack hquiet hstatus⟩
    | false =>
      refine ⟨n, false, ?_⟩
      simp only [PollState.resume, hstack, hstatus, Bool.false_eq_true, if_false]
      exact ⟨.idle hquiet, h.ring, h.count, h.busy, h.order, h.frames⟩
  | @handling above calls habove hquiet =>
    cases above with
    | nil => exact ⟨n + 1, false, h.release hstack hquiet⟩
    | cons c above =>
      obtain ⟨hc, habove⟩ := quiet_cons.mp habove
      have hstack : s.stack = c :: (above ++ .handled :: calls) := hstack
      have hq := PollState.resume_of_quiet udp hstack hc
      obtain ⟨new, hcalls, hnew⟩ := hq.stack
      have hall : ∀ c ∈ new ++ above, c.Quiet := List.forall_mem_append.mpr ⟨hcalls, habove⟩
      refine ⟨n, true, h.of_quietStep hq ?_⟩
      rcases hnew with hnew | hnew
      · rw [hnew, ← List.append_assoc]
        exact .handling hall hquiet
      · rw [hnew, ← List.append_assoc]
        exact .nested hall hquiet
  | nested habove hquiet =>
    -- the descriptor that is being handled is still complete
    have hstatus := h.ring.status_iff.mpr (h.busy rfl)
    exact absurd ⟨rfl, hstatus, _, hstack, by simp⟩ hagain

theorem Shape.nil (h : Shape [] busy) : busy = false := by
  generalize hcalls : ([] : List Call) = calls at h
  cases h with
  | idle => rfl
  | polling => rfl
  | handling => simp at hcalls
  | nested => cases hcalls

/-- **A step keeps them**, unless a nested call takes a descriptor. -/
theorem Polled.step (h : Polled s n busy) (hstep : pollStep udp s op s')
    (hagain : ¬ TakesAgain s op) : ∃ n busy, Polled s' n busy := by
  obtain ⟨hvalid, rfl⟩ := hstep
  cases op with
  | arrive frame =>
    refine ⟨n, busy, h.shape, h.ring.arrive hvalid frame, h.count, fun hb => ?_, h.order, ?_⟩
    · exact Nat.lt_of_lt_of_le (h.busy hb) (by simp [PollOp.run, PollState.arrive])
    · intro p hp
      have hold := h.frames p hp
      have hlt := (List.getElem?_eq_some_iff.mp hold).1
      simp only [PollOp.run, PollState.arrive]
      rw [List.getElem?_append_left hlt, hold]
  | tick => exact ⟨n, busy, h.shape, h.ring, h.count, h.busy, h.order, h.frames⟩
  | call =>
    have hnil : s.stack = [] := List.isEmpty_iff.mp hvalid
    obtain rfl := Shape.nil (hnil ▸ h.shape)
    exact ⟨n, false, .polling quiet_nil, h.ring, h.count, h.busy, h.order, h.frames⟩
  | connect ip port =>
    have hnil : s.stack = [] := List.isEmpty_iff.mp hvalid
    obtain rfl := Shape.nil (hnil ▸ h.shape)
    exact ⟨n, false, .idle (quiet_cons.mpr ⟨trivial, quiet_nil⟩), h.ring, h.count, h.busy, h.order,
      h.frames⟩
  | resume =>
    refine h.resume (fun hnil => ?_) hagain
    rw [PollOp.Valid, hnil] at hvalid
    cases hvalid

/-- A nested call passes a frame that has been passed before. -/
theorem Polled.not_exactlyOnce (h : Polled s n busy) (hstep : pollStep udp s op s')
    (hagain : TakesAgain s op) : ¬ ExactlyOnce s' := by
  obtain ⟨rfl, hstatus, rest, hstack, hmem⟩ := hagain
  obtain ⟨-, rfl⟩ := hstep
  have hbusy : busy = true := by
    have hshape := h.shape
    rw [hstack] at hshape
    generalize hcalls : Call.poll :: rest = calls at hshape
    cases hshape with
    | idle hquiet => exact absurd (hquiet .poll (hcalls ▸ List.mem_cons_self)) id
    | polling hquiet =>
      obtain ⟨-, rfl⟩ := List.cons_eq_cons.mp hcalls
      exact absurd (hquiet _ hmem) id
    | handling => rfl
    | nested => rfl
  have hcount := h.count
  obtain ⟨-, hserial, -⟩ := h.ring.waiting n (Nat.le_refl n) (h.busy hbusy)
  rw [← h.ring.cur] at hserial
  intro honce
  have horder := honce.order
  -- the last frame passed has the number of the one before it
  simp only [PollOp.run, PollState.resume, hstack, hstatus, if_true, List.map_append, h.order,
    List.length_append, List.length_singleton, List.range_succ, List.map_singleton, hserial,
    List.append_cancel_left_eq, List.cons.injEq, and_true] at horder
  rw [hbusy] at hcount
  simp only [Bool.toNat_true] at hcount
  omega

end Steps

/-! ## Runs -/

section Runs

theorem pollStep_unique {udp : UdpHandler} (s : PollState) (op : PollOp) (t t' : PollState)
    (h : pollStep udp s op t) (h' : pollStep udp s op t') : t = t' := h.2.trans h'.2.symm

variable {udp : UdpHandler} {s₀ s : PollState} {ops : List PollOp}

/-- **Each frame is passed exactly once**, whatever arrives and when, just if `e1000_poll` takes no
descriptor while `net_handle_packet` is under way. -/
theorem pollRun_exactlyOnce_iff (h₀ : s₀.Ready) (hrun : Run (pollStep udp) s₀ ops s) :
    (∀ pre u, pre <+: ops → Run (pollStep udp) s₀ pre u → ExactlyOnce u) ↔
      ∀ pre u op, pre ++ [op] <+: ops → Run (pollStep udp) s₀ pre u → ¬ TakesAgain u op := by
  refine Run.always_iff (J := fun s => ∃ n busy, Polled s n busy) pollStep_unique ?_ ?_ ?_
    ⟨0, false, h₀.polled⟩ hrun
  · rintro s ⟨n, busy, h⟩
    exact h.exactlyOnce
  · rintro s op t ⟨n, busy, h⟩ hstep hagain
    exact h.step hstep hagain
  · rintro s op t ⟨n, busy, h⟩ hstep hagain
    exact h.not_exactlyOnce hstep hagain

end Runs

/-! ## A stray SYN -/

/-- A host with one connection, to a peer whose link address it knows. -/
def bootPoll : PollState where
  nic := ⟨fun _ => ⟨⟨fun _ => 0, 0⟩, false⟩, 0, 0, 127⟩
  net :=
    { myIp := bootIp, myMac := Vector.replicate 6 0x52
      arpCache := [⟨samplePeer, Vector.replicate 6 0x54, true⟩,
        ⟨Vector.replicate 4 0, Vector.replicate 6 0, false⟩]
      udpBindings := [], tcpBindings := [⟨49152, 0, true⟩], rxPacketCount := 0, txPacketCount := 0 }
  tcp :=
    { connections := fun _ => ⟨samplePeer, 49152, 80, .established, 1, 1, 1, 1⟩
      nextLocalPort := 49153 }
  ticks := 0
  stack := []
  arrivals := []
  serial := fun _ => 0
  passed := []

theorem bootPoll_ready : bootPoll.Ready := ⟨rfl, rfl, rfl, fun _ => rfl, rfl, rfl, rfl⟩

/-- A SYN for the port of the connection, from a peer with the last byte `peer`. -/
def synFrame (peer : Byte) : Frame where
  mem := fun i =>
    [0x52#8, 0x52, 0x52, 0x52, 0x52, 0x52, 0x54, 0x54, 0x54, 0x54, 0x54, 0x54, 0x08, 0x00,
      0x45, 0x00, 0x00, 0x28, 0x00, 0x00, 0x00, 0x00, 0x40, 0x06, 0x00, 0x00, 0x0A, 0x00, 0x02, peer,
      0x0A, 0x00, 0x02, 0x0F, 0x04, 0xD2, 0xC0, 0x00, 0x00, 0x00, 0x00, 0x07, 0x00, 0x00, 0x00, 0x00,
      0x50, 0x02, 0x20, 0x00, 0x00, 0x00, 0x00, 0x00].getD i 0
  length := 54

/-- The handlers of a host without UDP ports. -/
abbrev noUdp : UdpHandler := fun _ _ net => net

/-- The machine after steps from boot. -/
def PollState.runAll (ops : List PollOp) : PollState :=
  ops.foldl (fun s op => op.run noUdp s) bootPoll

/-- A frame that arrives is passed by the main loop's poll. -/
theorem pollRun_exactlyOnce_first :
    ExactlyOnce (PollState.runAll [.arrive (synFrame 2), .call, .resume]) := by
  have hrun : Run (pollStep noUdp) bootPoll [.arrive (synFrame 2), .call, .resume] _ :=
    Allowed.run (by decide +kernel)
  refine (pollRun_exactlyOnce_iff bootPoll_ready hrun).mpr ?_ _ _ (List.prefix_refl _) hrun
  rintro pre u op ⟨post, hops⟩ hpre ⟨rfl, -, rest, hstack, hmem⟩
  -- the one step of the code is taken with no call around the poll
  match pre with
  | [] => cases hops
  | [_] => cases hops
  | [_, _] =>
    cases hops
    obtain rfl := hpre.unique pollStep_unique (Allowed.run (by decide +kernel))
    obtain rfl : [] = rest := (List.cons_eq_cons.mp hstack).2
    cases hmem
  | _ :: _ :: _ :: pre =>
    have hlength := congrArg List.length hops
    simp at hlength

/-- One frame arrives, and the main loop polls. -/
def pollOnce (frame : Frame) : List PollOp :=
  [.arrive frame, .call, .resume, .resume, .resume, .resume]

/-- **A frame is passed twice.** The RST to a peer that is not in the cache has to wait, and the poll
meanwhile takes the descriptor that is being handled. -/
theorem netSendTcp_repolls :
    Run (pollStep noUdp) bootPoll (pollOnce (synFrame 99)) (.runAll (pollOnce (synFrame 99))) ∧
      (PollState.runAll (pollOnce (synFrame 99))).passed.map Prod.fst = [0, 0] ∧
      ¬ ExactlyOnce (.runAll (pollOnce (synFrame 99))) := by
  have hpassed : (PollState.runAll (pollOnce (synFrame 99))).passed.map Prod.fst = [0, 0] := by
    decide +kernel
  refine ⟨Allowed.run (by decide +kernel), hpassed, fun honce => ?_⟩
  have horder := honce.order
  rw [hpassed] at horder
  have hlength := congrArg List.length horder
  rw [List.length_range] at hlength
  rw [← hlength] at horder
  cases horder

end ZohoOs
