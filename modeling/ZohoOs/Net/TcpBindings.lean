import ZohoOs.Net.TcpCalls

/-!
# TCP connections and their bindings

A connection is reached through the binding of its local port. `tcp_connect` takes a slot of the
connection table, which is free again when the connection is closed, and adds a binding, which stays:
the connections of a run never share a local port, and the table of bindings fills up.

## Main definitions

* `TcpSystem.Dispatches`: a segment for the port of a connection is handed to `tcp_handle_packet`
* `Unbindable`: a call of `tcp_connect` that finds a slot, and no room for a binding

## Main results

* `bindFirst_spec`, `bindFirst_full`: what `net_tcp_bind` does
* `Bound.step`: what a step keeps, where it is not such a call
* `tcpRun_dispatched_iff`: in which runs connections stay reachable
-/

namespace ZohoOs

open TransitionSystem

/-! ## The table of bindings -/

section Bindings

variable {binding : Binding} {bindings : List Binding}

/-- A full table stays as it is. -/
theorem bindFirst_full (h : ∀ b ∈ bindings, b.valid = true) :
    bindFirst binding bindings = bindings := by
  induction bindings with
  | nil => rfl
  | cons b bindings ih =>
    obtain ⟨hb, hrest⟩ := List.forall_mem_cons.mp h
    rw [bindFirst, if_pos hb, ih hrest]

/-- **In a table with room, the binding is added**, and the others stay. -/
theorem bindFirst_spec (binding : Binding) (hroom : ¬ ∀ b ∈ bindings, b.valid = true)
    (hvalid : binding.valid = true) :
    (bindFirst binding bindings).countP Binding.valid = bindings.countP Binding.valid + 1 ∧
      (bindFirst binding bindings).length = bindings.length ∧
      ∀ b : Binding, b.valid = true →
        (b ∈ bindFirst binding bindings ↔ b = binding ∨ b ∈ bindings) := by
  induction bindings with
  | nil => exact absurd (fun b hb => absurd hb List.not_mem_nil) hroom
  | cons c bindings ih =>
    rw [bindFirst]
    -- an entry in use is passed over, and the first free one is taken
    by_cases hc : c.valid = true
    · obtain ⟨hcount, hlength, hmem⟩ := ih fun hall =>
        hroom (List.forall_mem_cons.mpr ⟨hc, hall⟩)
      rw [if_pos hc]
      refine ⟨?_, ?_, fun b hb => ?_⟩
      · rw [List.countP_cons, List.countP_cons, hcount]
        omega
      · rw [List.length_cons, List.length_cons, hlength]
      · rw [List.mem_cons, List.mem_cons, hmem b hb]
        tauto
    · rw [if_neg hc]
      refine ⟨?_, rfl, fun b hb => ?_⟩
      · rw [List.countP_cons, List.countP_cons, if_pos hvalid, if_neg hc]
      · -- the slot that is taken held no valid binding
        have hne : b ≠ c := by
          rintro rfl
          exact hc hb
        simp [hne]

end Bindings

/-! ## Connections and bindings -/

/-- A segment for the port of a connection is handed to `tcp_handle_packet`, handler 0. -/
def TcpSystem.Dispatches (s : TcpSystem) : Prop :=
  ∀ i, (s.tcp.connections i).state ≠ .closed →
    (findBinding s.net.tcpBindings (s.tcp.connections i).localPort.toNat).map Binding.handler = some 0

/-- `tcp_connect` finds a free slot for a connection, and none for its binding. -/
def Unbindable (s : TcpSystem) (op : TcpOp) : Prop :=
  (∃ ip port, op = .connect ip port) ∧ (∃ i, (s.tcp.connections i).state = .closed) ∧
    ∀ b ∈ s.net.tcpBindings, b.valid = true

/-- After `n` connections: their ports are those from 49152 on, each of them is bound, and there are
no other bindings. -/
structure Bound (s : TcpSystem) (n : Nat) : Prop where
  closing : ClosingOnce s
  count : s.net.tcpBindings.countP Binding.valid = n
  length : s.net.tcpBindings.length = 16
  ports : ∀ b : Binding, b.valid = true →
    (b ∈ s.net.tcpBindings ↔ b.handler = 0 ∧ 49152 ≤ b.port ∧ b.port < 49152 + n)
  next : s.tcp.nextLocalPort.toNat = 49152 + n
  conns : ∀ i, (s.tcp.connections i).state ≠ .closed →
    49152 ≤ (s.tcp.connections i).localPort.toNat ∧
      (s.tcp.connections i).localPort.toNat < 49152 + n

section Steps

variable {s t : TcpSystem} {op : TcpOp} {n : Nat}

theorem TcpSystem.Start.bound (h : s.Start) : Bound s 0 where
  closing := h.closingOnce
  count := by
    refine List.countP_eq_zero.mpr fun b hb => ?_
    rw [h.bindings.2 b hb]
    exact Bool.false_ne_true
  length := h.bindings.1
  ports := fun b hb => by
    constructor
    · intro hmem
      rw [h.bindings.2 b hmem] at hb
      cases hb
    · omega
  next := by
    rw [h.port]
    decide
  conns := fun i hi => absurd (h.closed i) hi

theorem Bound.le (h : Bound s n) : n ≤ 16 := by
  rw [← h.count, ← h.length]
  exact List.countP_le_length

/-- A port that was given out is bound, and no other port is. -/
theorem Bound.findBinding_iff (h : Bound s n) (port : Nat) :
    (findBinding s.net.tcpBindings port).map Binding.handler = some 0 ↔
      49152 ≤ port ∧ port < 49152 + n := by
  constructor
  · intro hfound
    obtain ⟨b, hb, -⟩ := Option.map_eq_some_iff.mp hfound
    have hb' := List.find?_some hb
    simp only [Bool.and_eq_true, beq_iff_eq] at hb'
    obtain ⟨-, hport⟩ := (h.ports b hb'.1).mp (List.mem_of_find?_eq_some hb)
    omega
  · intro hport
    have hmem : (⟨port, 0, true⟩ : Binding) ∈ s.net.tcpBindings := (h.ports _ rfl).mpr ⟨rfl, hport⟩
    cases hfind : findBinding s.net.tcpBindings port with
    | none =>
      have hnone := List.find?_eq_none.mp hfind _ hmem
      simp at hnone
    | some b =>
      have hb := List.find?_some hfind
      simp only [Bool.and_eq_true, beq_iff_eq] at hb
      rw [Option.map_some, ((h.ports b hb.1).mp (List.mem_of_find?_eq_some hfind)).1]

theorem Bound.dispatched (h : Bound s n) : s.Dispatches :=
  fun i hi => (h.findBinding_iff _).mpr (h.conns i hi)

/-- The bindings and the local ports decide, and that no connection is new. -/
theorem Bound.frame (h : Bound s n) (hclosing : ClosingOnce t)
    (hbindings : t.net.tcpBindings = s.net.tcpBindings)
    (hnext : t.tcp.nextLocalPort = s.tcp.nextLocalPort)
    (hports : ∀ i, (t.tcp.connections i).localPort = (s.tcp.connections i).localPort)
    (hstates : ∀ i, (t.tcp.connections i).state ≠ .closed → (s.tcp.connections i).state ≠ .closed) :
    Bound t n := by
  refine ⟨hclosing, ?_, ?_, ?_, ?_, fun i hi => ?_⟩
  · rw [hbindings]
    exact h.count
  · rw [hbindings]
    exact h.length
  · rw [hbindings]
    exact h.ports
  · rw [hnext]
    exact h.next
  · rw [hports]
    exact h.conns i (hstates i hi)

/-- A connection that a segment or a call leaves open was open. -/
theorem Changes.ne_closed (h : Changes s op t) (hop : ∀ ip port, op ≠ .connect ip port) (i : Fin 16)
    (hi : (t.tcp.connections i).state ≠ .closed) : (s.tcp.connections i).state ≠ .closed := by
  rcases h i with heq | hchange
  · rwa [← heq]
  · intro hclosed
    cases hchange with
    | connect => exact hop _ _ rfl
    | established hstate | closing hstate | lastAck hstate | closed hstate =>
      rw [hclosed] at hstate
      cases hstate

/-- A connection that gets a slot and a binding. -/
theorem Bound.connect (h : Bound s n) {net : Net} {tcp : Tcp} {calls : List (List TcpTask)}
    {i : Fin 16} {f : TcpConn → TcpConn} (hclosing : ClosingOnce ⟨net, tcp, calls⟩)
    (hroom : ¬ ∀ b ∈ s.net.tcpBindings, b.valid = true)
    (hnet : net.tcpBindings = bindFirst ⟨s.tcp.nextLocalPort.toNat, 0, true⟩ s.net.tcpBindings)
    (htcp : tcp = { s.tcp.update i f with nextLocalPort := s.tcp.nextLocalPort + 1 })
    (hf : (f (s.tcp.connections i)).localPort = s.tcp.nextLocalPort) :
    Bound ⟨net, tcp, calls⟩ (n + 1) := by
  have hnext := h.next
  -- the first free binding is taken, so one more is in use
  generalize hport : s.tcp.nextLocalPort.toNat = p at hnet hnext
  obtain ⟨hcount, hlength, hmem⟩ :=
    bindFirst_spec ⟨p, 0, true⟩ hroom rfl
  rw [← hnet] at hcount hlength hmem
  have hle : n + 1 ≤ 16 := by
    rw [← h.count, ← hcount, ← h.length, ← hlength]
    exact List.countP_le_length
  refine ⟨hclosing, ?_, ?_, fun b hb => ?_, ?_, fun j hj => ?_⟩
  · rw [hcount, h.count]
  · rw [hlength, h.length]
  · rw [hmem b hb, h.ports b hb]
    obtain ⟨port, handler, valid⟩ := b
    obtain rfl : valid = true := hb
    simp only [Binding.mk.injEq, and_true]
    omega
  -- the next port has not come around to the first one
  · rw [htcp]
    show (s.tcp.nextLocalPort + 1).toNat = _
    rw [BitVec.toNat_add, hport, hnext]
    show (49152 + n + 1) % 2 ^ 16 = _
    omega
  · rw [htcp] at hj ⊢
    by_cases hji : j = i
    · subst hji
      rw [Tcp.update_self, hf, hport]
      omega
    · rw [Tcp.update_of_ne hji] at hj ⊢
      have := h.conns j hj
      omega

/-- **What a step keeps**, where it is no connection without a binding. -/
theorem Bound.step (h : Bound s n) (hstep : tcpStep s op t) (hbound : ¬ Unbindable s op) :
    ∃ m, Bound t m := by
  obtain ⟨hclosing, hchanges⟩ := h.closing.step hstep
  obtain ⟨hvalid, rfl⟩ := hstep
  cases op with
  | connect ip port =>
    simp only [TcpOp.run, TcpSystem.connect] at hclosing ⊢
    rcases tcpConnect_cases s.net s.tcp ip port with
      ⟨-, heq⟩ | ⟨i, f, tasks, hclosed, heq, hf, -⟩
    · rw [heq] at hclosing ⊢
      exact ⟨n, h.frame hclosing rfl rfl (fun _ => rfl) fun _ hi => hi⟩
    · rw [heq] at hclosing ⊢
      refine ⟨n + 1, h.connect hclosing (fun hall => ?_) rfl rfl (hf _).2.1⟩
      exact hbound ⟨⟨ip, port, rfl⟩, ⟨i, hclosed⟩, hall⟩
  | segment g =>
    obtain ⟨hnet, hnext, hports⟩ := s.handle_frame g
    exact ⟨n, h.frame hclosing (congrArg _ hnet) hnext hports
      (hchanges.ne_closed fun _ _ => TcpOp.noConfusion)⟩
  | resume =>
    obtain ⟨hnet, hnext, hports⟩ := s.resume_frame
    exact ⟨n, h.frame hclosing (congrArg _ hnet) hnext hports
      (hchanges.ne_closed fun _ _ => TcpOp.noConfusion)⟩
  | other net => exact ⟨n, h.frame hclosing hvalid rfl (fun _ => rfl) fun _ hi => hi⟩

/-- A connection without a binding is not reached. -/
theorem Bound.not_dispatched (h : Bound s n) (hstep : tcpStep s op t) (hbound : Unbindable s op) :
    ¬ t.Dispatches := by
  obtain ⟨⟨ip, port, rfl⟩, ⟨i, hi⟩, hfull⟩ := hbound
  obtain ⟨-, rfl⟩ := hstep
  intro hall
  rcases tcpConnect_cases s.net s.tcp ip port with
    ⟨hnone, -⟩ | ⟨i, f, tasks, hclosed, heq, hf, -⟩
  · exact hnone i hi
  · obtain ⟨hstate, hlocal, -⟩ := hf (s.tcp.connections i)
    have hconn := hall i
    simp only [TcpOp.run, TcpSystem.connect, heq, Tcp.update_self, hstate, hlocal,
      bindFirst_full hfull] at hconn
    have hport := (h.findBinding_iff _).mp (hconn TcpState.noConfusion)
    rw [h.next] at hport
    omega

end Steps

/-- **Connections stay reachable** in all states of a run just if no call of `tcp_connect` finds a
slot when the table of bindings is full. -/
theorem tcpRun_dispatched_iff {start s : TcpSystem} {ops : List TcpOp} (hstart : start.Start)
    (h : Run tcpStep start ops s) :
    (∀ pre u, pre <+: ops → Run tcpStep start pre u → u.Dispatches) ↔
      ∀ pre u op, pre ++ [op] <+: ops → Run tcpStep start pre u → ¬ Unbindable u op := by
  refine Run.always_iff (J := fun s => ∃ n, Bound s n) ?_ ?_ ?_ ?_ ⟨0, hstart.bound⟩ h
  · rintro s op t t' ⟨-, rfl⟩ ⟨-, rfl⟩
    rfl
  · rintro s ⟨n, hn⟩
    exact hn.dispatched
  · rintro s op t ⟨n, hn⟩ hstep hbound
    exact hn.step hstep hbound
  · rintro s op t ⟨n, hn⟩ hstep hbound
    exact hn.not_dispatched hstep hbound

/-- The first connection after boot. -/
theorem tcpRun_dispatched_first : (bootTcp.connect samplePeer 80).Dispatches := by
  have hrun : Run tcpStep bootTcp [.connect samplePeer 80] (bootTcp.connect samplePeer 80) :=
    Run.single ⟨trivial, rfl⟩
  refine (tcpRun_dispatched_iff bootTcp_start hrun).mpr ?_ _ _ (List.prefix_refl _) hrun
  intro pre u op hpre hu hbad
  obtain rfl : pre = [] := by
    have hlen := hpre.length_le
    rw [List.length_append, List.length_singleton, List.length_singleton] at hlen
    exact List.eq_nil_of_length_eq_zero (by omega)
  obtain rfl := hu.eq_of_nil
  exact absurd (hbad.2.2 ⟨0, 0, false⟩ (List.mem_replicate.mpr ⟨by decide, rfl⟩)) (by decide)

/-- Sixteen connections, the first of them established and closed by its peer, and one more. -/
def seventeenOps : List TcpOp :=
  (List.replicate 16 connectFirst).flatten ++ closeFirst ++
    [.segment (sampleSegment tcpAck 0), .resume] ++ connectFirst

/-- The seventeenth connection has a slot, and segments for it are dropped. -/
theorem tcpRun_unbound : ∃ s, Run tcpStep bootTcp seventeenOps s ∧ ¬ s.Dispatches := by
  have hvalid : ∀ ops : List TcpOp, (∀ op ∈ ops, ∀ s, op.Valid s) → ∀ s,
      Allowed (fun s op => TcpOp.Valid s op) TcpOp.run s ops := by
    intro ops
    induction ops with
    | nil => exact fun _ _ => trivial
    | cons op ops ih =>
      intro hops s
      obtain ⟨hop, hrest⟩ := List.forall_mem_cons.mp hops
      exact ⟨hop s, ih hrest _⟩
  refine ⟨_, (hvalid seventeenOps ?_ bootTcp).run, fun hall => ?_⟩
  · simp [seventeenOps, connectFirst, closeFirst, TcpOp.Valid]
  · exact absurd (hall 0 (by decide +kernel)) (by decide +kernel)

end ZohoOs
