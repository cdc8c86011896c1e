import ZohoOs.Lib.TransitionSystem
import ZohoOs.Net.Tcp

/-!
# The calls of the TCP layer

`tcp_connect` is called by the shell and `tcp_handle_packet` for each segment that arrives on a bound
port. Both call `net_send_tcp`, which polls for packets while it waits, so that calls nest. A call runs
without interruption from one segment it sends to the next; between these, any other call may come.

## Main definitions

* `TcpSegment`: a segment that arrives, whatever it says and whoever sent it
* `TcpSystem`, `tcpStep`: the connections with the bindings and the calls under way, and its steps
* `TcpSystem.Finds`: the connection a segment is handed to
* `TcpChange`: the changes of a connection's state, each with what causes it

## Main results

* `tcpHandlePacket_cases`: what a segment does to the connections
* `TcpSystem.handle_established_iff`, `TcpSystem.handle_closed_iff`: the segments that establish a
  connection, and that close it
* `tcpRun_change`: in every run, a connection changes its state only as `TcpChange` says
-/

namespace ZohoOs

open TransitionSystem

/-- A segment that arrives. -/
structure TcpSegment where
  /-- Where the address of the sender is stored. -/
  peer : PeerIp
  srcIp : Ipv4
  srcPort : BitVec 16
  dstPort : BitVec 16
  flags : Byte
  seq : BitVec 32
  ack : BitVec 32

/-- The TCP layer, with the calls under way, the innermost first, and what each has left to do. -/
structure TcpSystem where
  net : Net
  tcp : Tcp
  calls : List (List TcpTask)

inductive TcpOp
  | connect (ip : Ipv4) (port : BitVec 16)
  /-- A segment arrives. -/
  | segment (g : TcpSegment)
  /-- The innermost call does what it has to do next, or returns. -/
  | resume
  /-- The rest of the network stack does something. -/
  | other (net : Net)

/-- `net_handle_tcp`, from the loop over the bindings on. -/
def TcpSystem.handle (s : TcpSystem) (g : TcpSegment) : TcpSystem :=
  match findBinding s.net.tcpBindings g.dstPort.toNat with
  | none => s
  | some _ =>
    let (tcp, tasks) := tcpHandlePacket s.tcp g.peer g.srcIp g.srcPort g.dstPort g.flags g.seq g.ack
    { s with tcp := tcp, calls := tasks :: s.calls }

/-- A call of `tcp_connect`. -/
def TcpSystem.connect (s : TcpSystem) (ip : Ipv4) (port : BitVec 16) : TcpSystem :=
  let (net, tcp, tasks) := tcpConnect s.net s.tcp ip port
  { net := net, tcp := tcp, calls := tasks :: s.calls }

/-- What a call does next to the connections. A segment is sent, or given up. -/
def TcpTask.run (tcp : Tcp) : TcpTask → Tcp
  | .send _ => tcp
  | .reply .. => tcp
  | .lastAck i => tcp.update i fun c => { c with state := .lastAck, seq := c.seq + 1 }
  | .synSent i => tcp.update i fun c => { c with seq := c.seq + 1 }

def TcpSystem.resume (s : TcpSystem) : TcpSystem :=
  match s.calls with
  | [] => s
  | [] :: calls => { s with calls := calls }
  | (task :: tasks) :: calls => { s with tcp := task.run s.tcp, calls := tasks :: calls }

def TcpOp.run : TcpOp → TcpSystem → TcpSystem
  | .connect ip port, s => s.connect ip port
  | .segment g, s => s.handle g
  | .resume, s => s.resume
  | .other net, s => { s with net := net }

/-- Only `tcp_connect` binds TCP ports. -/
def TcpOp.Valid (s : TcpSystem) : TcpOp → Prop
  | .other net => net.tcpBindings = s.net.tcpBindings
  | _ => True

/-- Steps in any order. -/
abbrev tcpStep : TcpSystem → TcpOp → TcpSystem → Prop :=
  Restrict (fun s op => op.Valid s) (Apply TcpOp.run)

/-- The segment is of the connection: it comes from its peer. -/
def TcpSegment.IsOf (g : TcpSegment) (c : TcpConn) : Prop :=
  c.localPort = g.dstPort ∧ c.remotePort = g.srcPort ∧ c.remoteIp = g.srcIp

/-- The segment is handed to the connection: its port is bound, and `tcp_handle_packet` finds it. -/
def TcpSystem.Finds (s : TcpSystem) (g : TcpSegment) (i : Fin 16) : Prop :=
  (findBinding s.net.tcpBindings g.dstPort.toNat).isSome ∧
    s.tcp.find g.srcIp g.srcPort g.dstPort = some i

instance TcpSystem.decidableFinds (s : TcpSystem) (g : TcpSegment) (i : Fin 16) :
    Decidable (s.Finds g i) :=
  inferInstanceAs (Decidable (_ ∧ _))

/-- **The changes of a connection's state**, with the step that makes each. -/
inductive TcpChange (c : TcpConn) : TcpOp → TcpConn → Prop
  | connect {ip : Ipv4} {port : BitVec 16} {c' : TcpConn} (h : c.state = .closed)
      (hpeer : c'.remoteIp = ip ∧ c'.remotePort = port) (h' : c'.state = .synSent) :
      TcpChange c (.connect ip port) c'
  | established {g : TcpSegment} {c' : TcpConn} (h : c.state = .synSent) (hpeer : g.IsOf c)
      (hflags : hasTcpFlag g.flags tcpSyn ∧ hasTcpFlag g.flags tcpAck)
      (hack : c'.remoteAck = g.ack ∧ c'.seq = c.seq) (h' : c'.state = .established) :
      TcpChange c (.segment g) c'
  | closing {g : TcpSegment} {c' : TcpConn} (h : c.state = .established) (hpeer : g.IsOf c)
      (hflags : hasTcpFlag g.flags tcpFin) (h' : c'.state = .closeWait) :
      TcpChange c (.segment g) c'
  | lastAck {c' : TcpConn} (h : c.state = .closeWait) (hseq : c'.seq = c.seq + 1)
      (h' : c'.state = .lastAck) : TcpChange c .resume c'
  | closed {g : TcpSegment} {c' : TcpConn} (h : c.state = .lastAck) (hpeer : g.IsOf c)
      (hflags : hasTcpFlag g.flags tcpAck) (hseq : c'.seq = c.seq) (h' : c'.state = .closed) :
      TcpChange c (.segment g) c'

/-! ## The functions -/

section Functions

variable {tcp : Tcp} {i j : Fin 16} {f : TcpConn → TcpConn}

@[simp] theorem Tcp.update_self : (tcp.update i f).connections i = f (tcp.connections i) :=
  Function.update_self _ _ _

@[simp] theorem Tcp.update_of_ne (h : j ≠ i) :
    (tcp.update i f).connections j = tcp.connections j :=
  Function.update_of_ne h _ _

@[simp] theorem Tcp.update_nextLocalPort : (tcp.update i f).nextLocalPort = tcp.nextLocalPort := rfl

theorem Tcp.update_localPort (hf : (f (tcp.connections i)).localPort = (tcp.connections i).localPort)
    (j : Fin 16) : ((tcp.update i f).connections j).localPort = (tcp.connections j).localPort := by
  by_cases hj : j = i
  · subst hj
    rw [Tcp.update_self, hf]
  · rw [Tcp.update_of_ne hj]

/-- The connection that is found is the sender's. -/
theorem Tcp.find_some {g : TcpSegment} (h : tcp.find g.srcIp g.srcPort g.dstPort = some i) :
    g.IsOf (tcp.connections i) ∧ (tcp.connections i).state ≠ .closed := by
  have hfound := List.find?_some h
  simp only [Bool.and_eq_true, beq_iff_eq, decide_eq_true_eq] at hfound
  obtain ⟨⟨⟨hstate, hlocal⟩, hport⟩, hip⟩ := hfound
  exact ⟨⟨hlocal, hport, hip⟩, hstate⟩

/-- The connection a task is about to move to LAST_ACK. -/
def TcpTask.closing : TcpTask → Option (Fin 16)
  | .lastAck i => some i
  | _ => none

/-- The connections some call is about to move to LAST_ACK. -/
def closings (calls : List (List TcpTask)) : List (Fin 16) :=
  calls.flatten.filterMap TcpTask.closing

theorem closings_cons (tasks : List TcpTask) (calls : List (List TcpTask)) :
    closings (tasks :: calls) = tasks.filterMap TcpTask.closing ++ closings calls := by
  rw [closings, List.flatten_cons, List.filterMap_append]
  rfl

/-- **What a segment does**: nothing to the connections, or one of three moves of one of them. -/
theorem tcpHandlePacket_cases (tcp : Tcp) (g : TcpSegment) {tcp' : Tcp} {tasks : List TcpTask}
    (h : tcpHandlePacket tcp g.peer g.srcIp g.srcPort g.dstPort g.flags g.seq g.ack =
      (tcp', tasks)) :
    (tcp' = tcp ∧ tasks.filterMap TcpTask.closing = []) ∨
    ∃ i f, tcp' = tcp.update i f ∧ g.IsOf (tcp.connections i) ∧
      (f (tcp.connections i)).localPort = (tcp.connections i).localPort ∧
      (f (tcp.connections i)).seq = (tcp.connections i).seq ∧
      (((tcp.connections i).state = .synSent ∧ (f (tcp.connections i)).state = .established ∧
        (hasTcpFlag g.flags tcpSyn ∧ hasTcpFlag g.flags tcpAck) ∧
        (f (tcp.connections i)).remoteAck = g.ack ∧ tasks.filterMap TcpTask.closing = []) ∨
      ((tcp.connections i).state = .established ∧ (f (tcp.connections i)).state = .closeWait ∧
        hasTcpFlag g.flags tcpFin ∧ tasks.filterMap TcpTask.closing = [i]) ∨
      ((tcp.connections i).state = .lastAck ∧ (f (tcp.connections i)).state = .closed ∧
        hasTcpFlag g.flags tcpAck ∧ tasks.filterMap TcpTask.closing = [])) := by
  rw [tcpHandlePacket] at h
  cases hfind : tcp.find g.srcIp g.srcPort g.dstPort with
  | none =>
    rw [hfind] at h
    left
    by_cases hsyn : hasTcpFlag g.flags tcpSyn
    · simp only [hsyn, if_true, Prod.mk.injEq] at h
      obtain ⟨rfl, rfl⟩ := h
      exact ⟨rfl, rfl⟩
    · simp only [hsyn, if_false, Prod.mk.injEq, Bool.false_eq_true] at h
      obtain ⟨rfl, rfl⟩ := h
      exact ⟨rfl, rfl⟩
  | some i =>
    rw [hfind] at h
    obtain ⟨hpeer, -⟩ := Tcp.find_some hfind
    simp only at h
    -- the state of the connection decides which flags are looked at
    split at h
    next hstate =>
      split at h
      next hflags =>
        obtain ⟨rfl, rfl⟩ := Prod.mk.inj h
        exact Or.inr ⟨i, _, rfl, hpeer, rfl, rfl,
          Or.inl ⟨hstate, rfl, Bool.and_eq_true_iff.mp hflags, rfl, rfl⟩⟩
      next =>
        obtain ⟨rfl, rfl⟩ := Prod.mk.inj h
        exact Or.inl ⟨rfl, rfl⟩
    next hstate =>
      split at h
      next hflags =>
        obtain ⟨rfl, rfl⟩ := Prod.mk.inj h
        exact Or.inr ⟨i, _, rfl, hpeer, rfl, rfl, Or.inr (Or.inl ⟨hstate, rfl, hflags, rfl⟩)⟩
      next =>
        obtain ⟨rfl, rfl⟩ := Prod.mk.inj h
        exact Or.inl ⟨rfl, rfl⟩
    next hstate =>
      split at h
      next hflags =>
        obtain ⟨rfl, rfl⟩ := Prod.mk.inj h
        exact Or.inr ⟨i, _, rfl, hpeer, rfl, rfl, Or.inr (Or.inr ⟨hstate, rfl, hflags, rfl⟩)⟩
      next =>
        obtain ⟨rfl, rfl⟩ := Prod.mk.inj h
        exact Or.inl ⟨rfl, rfl⟩
    next =>
      obtain ⟨rfl, rfl⟩ := Prod.mk.inj h
      exact Or.inl ⟨rfl, rfl⟩

/-- **What `tcp_connect` does**: nothing where no slot is free, or it takes one. -/
theorem tcpConnect_cases (net : Net) (tcp : Tcp) (ip : Ipv4) (port : BitVec 16) :
    ((∀ i, (tcp.connections i).state ≠ .closed) ∧ tcpConnect net tcp ip port = (net, tcp, [])) ∨
    ∃ i f tasks, (tcp.connections i).state = .closed ∧
      tcpConnect net tcp ip port =
        ({ net with
            tcpBindings := bindFirst ⟨tcp.nextLocalPort.toNat, 0, true⟩ net.tcpBindings },
          { tcp.update i f with nextLocalPort := tcp.nextLocalPort + 1 }, tasks) ∧
      (∀ c, (f c).state = .synSent ∧ (f c).localPort = tcp.nextLocalPort ∧ (f c).remoteIp = ip ∧
        (f c).remotePort = port) ∧ tasks.filterMap TcpTask.closing = [] := by
  rw [tcpConnect]
  cases hfind : (List.finRange 16).find? fun i => (tcp.connections i).state = .closed with
  | none =>
    left
    refine ⟨fun i => ?_, rfl⟩
    simpa using List.find?_eq_none.mp hfind i (List.mem_finRange i)
  | some i =>
    right
    have hclosed := List.find?_some hfind
    exact ⟨i, _, _, by simpa using hclosed, rfl, fun _ => ⟨rfl, rfl, rfl, rfl⟩, rfl⟩

/-- A segment is dropped, or handed to `tcp_handle_packet`. -/
theorem TcpSystem.handle_cases (s : TcpSystem) (g : TcpSegment) : s.handle g = s ∨
    ∃ tcp tasks, tcpHandlePacket s.tcp g.peer g.srcIp g.srcPort g.dstPort g.flags g.seq g.ack =
        (tcp, tasks) ∧
      s.handle g = { s with tcp := tcp, calls := tasks :: s.calls } := by
  rw [TcpSystem.handle]
  cases findBinding s.net.tcpBindings g.dstPort.toNat with
  | none => exact Or.inl rfl
  | some b => exact Or.inr ⟨_, _, rfl, rfl⟩

/-- A segment moves no connection but the one it is handed to. -/
theorem TcpSystem.handle_of_not_finds {s : TcpSystem} {g : TcpSegment} {i : Fin 16}
    (h : ¬ s.Finds g i) :
    ((s.handle g).tcp.connections i).state = (s.tcp.connections i).state := by
  rw [TcpSystem.handle]
  cases hbinding : findBinding s.net.tcpBindings g.dstPort.toNat with
  | none => rfl
  | some b =>
    have hfind : s.tcp.find g.srcIp g.srcPort g.dstPort ≠ some i := fun hfind =>
      h ⟨by rw [hbinding]; rfl, hfind⟩
    simp only [tcpHandlePacket]
    cases hfound : s.tcp.find g.srcIp g.srcPort g.dstPort with
    | none =>
      simp only
      split <;> rfl
    | some j =>
      have hne : i ≠ j := by
        rintro rfl
        exact hfind hfound
      -- where there is a store, it is to another connection
      have hother : ∀ f, ((s.tcp.update j f).connections i).state = (s.tcp.connections i).state :=
        fun f => congrArg TcpConn.state (Tcp.update_of_ne hne)
      simp only
      split
      next => split <;> simp only [hother]
      next => split <;> simp only [hother]
      next => split <;> simp only [hother]
      next => rfl

/-- A connection in SYN_SENT is established just by a segment with SYN and ACK. -/
theorem TcpSystem.handle_established_iff {s : TcpSystem} {g : TcpSegment} {i : Fin 16}
    (h : (s.tcp.connections i).state = .synSent) :
    ((s.handle g).tcp.connections i).state = .established ↔
      s.Finds g i ∧ hasTcpFlag g.flags tcpSyn ∧ hasTcpFlag g.flags tcpAck := by
  by_cases hfinds : s.Finds g i
  · obtain ⟨b, hbinding⟩ := Option.isSome_iff_exists.mp hfinds.1
    rw [TcpSystem.handle, hbinding, tcpHandlePacket, hfinds.2]
    simp only [h, hfinds, true_and, ← Bool.and_eq_true]
    split
    next hflags => exact iff_of_true (by rw [Tcp.update_self]) hflags
    next hflags => exact iff_of_false (by rw [h]; decide) hflags
  · rw [TcpSystem.handle_of_not_finds hfinds, h]
    simp [hfinds]

/-- A connection in LAST_ACK is closed just by a segment with ACK. -/
theorem TcpSystem.handle_closed_iff {s : TcpSystem} {g : TcpSegment} {i : Fin 16}
    (h : (s.tcp.connections i).state = .lastAck) :
    ((s.handle g).tcp.connections i).state = .closed ↔
      s.Finds g i ∧ hasTcpFlag g.flags tcpAck := by
  by_cases hfinds : s.Finds g i
  · obtain ⟨b, hbinding⟩ := Option.isSome_iff_exists.mp hfinds.1
    rw [TcpSystem.handle, hbinding, tcpHandlePacket, hfinds.2]
    simp only [h, hfinds, true_and]
    split
    next hflags => exact iff_of_true (by rw [Tcp.update_self]) hflags
    next hflags => exact iff_of_false (by rw [h]; decide) hflags
  · rw [TcpSystem.handle_of_not_finds hfinds, h]
    simp [hfinds]

end Functions

/-! ## Runs -/

/-- A connection that a call is about to move to LAST_ACK waits for it in CLOSE_WAIT, and no other
call is about to move it. -/
structure ClosingOnce (s : TcpSystem) : Prop where
  nodup : (closings s.calls).Nodup
  closeWait : ∀ i ∈ closings s.calls, (s.tcp.connections i).state = .closeWait

section Runs

variable {s t : TcpSystem} {op : TcpOp} {i : Fin 16}

/-- A step changes the state of a connection as `TcpChange` says, or leaves it. -/
def Changes (s : TcpSystem) (op : TcpOp) (t : TcpSystem) : Prop :=
  ∀ i, (t.tcp.connections i).state = (s.tcp.connections i).state ∨
    TcpChange (s.tcp.connections i) op (t.tcp.connections i)

/-- A call moves one connection, which none was about to move; it may be about to move it again. -/
theorem ClosingOnce.move (h : ClosingOnce s) {f : TcpConn → TcpConn} {tasks : List TcpTask}
    (hnot : i ∉ closings s.calls)
    (htasks : tasks.filterMap TcpTask.closing = [] ∨
      tasks.filterMap TcpTask.closing = [i] ∧ (f (s.tcp.connections i)).state = .closeWait)
    (hchange : TcpChange (s.tcp.connections i) op (f (s.tcp.connections i))) (net : Net)
    (port : BitVec 16) :
    ClosingOnce ⟨net, { s.tcp.update i f with nextLocalPort := port }, tasks :: s.calls⟩ ∧
      Changes s op ⟨net, { s.tcp.update i f with nextLocalPort := port }, tasks :: s.calls⟩ := by
  -- a connection that another call closes is not this one, and waits as before
  have hkept : ∀ j ∈ closings s.calls, ((s.tcp.update i f).connections j).state = .closeWait := by
    intro j hj
    have hne : j ≠ i := by
      rintro rfl
      exact hnot hj
    rw [Tcp.update_of_ne hne]
    exact h.closeWait j hj
  constructor
  · constructor
    · rw [closings_cons]
      rcases htasks with hnone | ⟨hone, -⟩
      · rw [hnone]
        exact h.nodup
      · rw [hone]
        exact List.nodup_cons.mpr ⟨hnot, h.nodup⟩
    · rw [closings_cons]
      rcases htasks with hnone | ⟨hone, hwait⟩
      · rw [hnone]
        exact hkept
      · rw [hone]
        refine List.forall_mem_cons.mpr ⟨?_, hkept⟩
        simp only [Tcp.update_self]
        exact hwait
  -- this connection changes as `op` says, the others not at all
  · intro j
    by_cases hj : j = i
    · subst hj
      right
      simp only [Tcp.update_self]
      exact hchange
    · left
      simp only [Tcp.update_of_ne hj]

/-- A connection in another state than CLOSE_WAIT is none that a call is about to move. -/
theorem ClosingOnce.not_mem (h : ClosingOnce s) (hstate : (s.tcp.connections i).state ≠ .closeWait) :
    i ∉ closings s.calls :=
  fun hi => hstate (h.closeWait i hi)

theorem ClosingOnce.connect (h : ClosingOnce s) (ip : Ipv4) (port : BitVec 16) :
    ClosingOnce (s.connect ip port) ∧ Changes s (.connect ip port) (s.connect ip port) := by
  rcases tcpConnect_cases s.net s.tcp ip port with
    ⟨-, heq⟩ | ⟨i, f, tasks, hclosed, heq, hf, hnone⟩
  · rw [TcpSystem.connect, heq]
    exact ⟨⟨h.nodup, h.closeWait⟩, fun j => Or.inl rfl⟩
  · obtain ⟨hstate, -, hip, hport⟩ := hf (s.tcp.connections i)
    rw [TcpSystem.connect, heq]
    apply h.move
    · apply h.not_mem
      rw [hclosed]
      decide
    · exact Or.inl hnone
    · exact .connect hclosed ⟨hip, hport⟩ hstate

theorem ClosingOnce.handle (h : ClosingOnce s) (g : TcpSegment) :
    ClosingOnce (s.handle g) ∧ Changes s (.segment g) (s.handle g) := by
  rcases s.handle_cases g with hdrop | ⟨tcp, tasks, heq, hs⟩
  · rw [hdrop]
    exact ⟨h, fun j => Or.inl rfl⟩
  · rw [hs]
    rcases tcpHandlePacket_cases s.tcp g heq with
      ⟨rfl, hnone⟩ | ⟨i, f, rfl, hpeer, -, hseq, hmoves⟩
    · refine ⟨⟨?_, ?_⟩, fun j => Or.inl rfl⟩
      · rw [closings_cons, hnone]
        exact h.nodup
      · rw [closings_cons, hnone]
        exact h.closeWait
    · rcases hmoves with ⟨hstate, hstate', hflags, hack, hnone⟩ |
        ⟨hstate, hstate', hflags, hone⟩ | ⟨hstate, hstate', hflags, hnone⟩
      · refine h.move (h.not_mem ?_) (Or.inl hnone) ?_ s.net s.tcp.nextLocalPort
        · rw [hstate]
          decide
        · exact .established hstate hpeer hflags ⟨hack, hseq⟩ hstate'
      · refine h.move (h.not_mem ?_) (Or.inr ⟨hone, hstate'⟩) ?_ s.net s.tcp.nextLocalPort
        · rw [hstate]
          decide
        · exact .closing hstate hpeer hflags hstate'
      · refine h.move (h.not_mem ?_) (Or.inl hnone) ?_ s.net s.tcp.nextLocalPort
        · rw [hstate]
          decide
        · exact .closed hstate hpeer hflags hseq hstate'

theorem ClosingOnce.resume (h : ClosingOnce s) :
    ClosingOnce s.resume ∧ Changes s .resume s.resume := by
  obtain ⟨net, tcp, calls⟩ := s
  -- by the task that is on top
  rw [TcpSystem.resume]
  match calls, h with
  | [], h => exact ⟨h, fun j => Or.inl rfl⟩
  | [] :: calls, h => exact ⟨⟨h.nodup, h.closeWait⟩, fun j => Or.inl rfl⟩
  | (.send g :: tasks) :: calls, h => exact ⟨⟨h.nodup, h.closeWait⟩, fun j => Or.inl rfl⟩
  | (.reply i peer port flags :: tasks) :: calls, h =>
    exact ⟨⟨h.nodup, h.closeWait⟩, fun j => Or.inl rfl⟩
  | (.synSent i :: tasks) :: calls, h =>
    have hstate : ∀ j, ((tcp.update i fun c => { c with seq := c.seq + 1 }).connections j).state =
        (tcp.connections j).state := fun j => by
      by_cases hj : j = i
      · subst hj
        rw [Tcp.update_self]
      · rw [Tcp.update_of_ne hj]
    exact ⟨⟨h.nodup, fun j hj => (hstate j).trans (h.closeWait j hj)⟩, fun j => Or.inl (hstate j)⟩
  | (.lastAck i :: tasks) :: calls, h =>
    -- the connection that is closing waits, and moves to `LAST_ACK` now
    have hclosings : closings ((.lastAck i :: tasks) :: calls) = i :: closings (tasks :: calls) := rfl
    obtain ⟨hnodup, hwait⟩ := h
    simp only [hclosings, List.nodup_cons, List.forall_mem_cons] at hnodup hwait
    refine ⟨⟨hnodup.2, fun j hj => ?_⟩, fun j => ?_⟩
    · have hne : j ≠ i := fun heq => hnodup.1 (heq ▸ hj)
      simp only [TcpTask.run, Tcp.update_of_ne hne]
      exact hwait.2 j hj
    · by_cases hj : j = i
      · subst hj
        right
        simp only [TcpTask.run, Tcp.update_self]
        exact .lastAck hwait.1 rfl rfl
      · left
        simp only [TcpTask.run, Tcp.update_of_ne hj]

/-- A segment leaves the bindings and the local ports. -/
theorem TcpSystem.handle_frame (s : TcpSystem) (g : TcpSegment) : (s.handle g).net = s.net ∧
    (s.handle g).tcp.nextLocalPort = s.tcp.nextLocalPort ∧
    ∀ i, ((s.handle g).tcp.connections i).localPort = (s.tcp.connections i).localPort := by
  rcases s.handle_cases g with hdrop | ⟨tcp, tasks, heq, hs⟩
  · rw [hdrop]
    exact ⟨rfl, rfl, fun _ => rfl⟩
  · rw [hs]
    rcases tcpHandlePacket_cases s.tcp g heq with ⟨rfl, -⟩ | ⟨i, f, rfl, -, hport, -⟩
    · exact ⟨rfl, rfl, fun _ => rfl⟩
    · exact ⟨rfl, rfl, Tcp.update_localPort hport⟩

/-- A task leaves the local ports. -/
theorem TcpTask.run_frame (tcp : Tcp) (task : TcpTask) :
    (task.run tcp).nextLocalPort = tcp.nextLocalPort ∧
      ∀ i, ((task.run tcp).connections i).localPort = (tcp.connections i).localPort := by
  cases task with
  | send => exact ⟨rfl, fun _ => rfl⟩
  | reply => exact ⟨rfl, fun _ => rfl⟩
  | lastAck i =>
    refine ⟨rfl, fun j => ?_⟩
    rw [TcpTask.run]
    apply Tcp.update_localPort
    rfl
  | synSent i =>
    refine ⟨rfl, fun j => ?_⟩
    rw [TcpTask.run]
    apply Tcp.update_localPort
    rfl

theorem TcpSystem.resume_frame (s : TcpSystem) : s.resume.net = s.net ∧
    s.resume.tcp.nextLocalPort = s.tcp.nextLocalPort ∧
    ∀ i, (s.resume.tcp.connections i).localPort = (s.tcp.connections i).localPort := by
  obtain ⟨net, tcp, calls⟩ := s
  match calls with
  | [] => exact ⟨rfl, rfl, fun _ => rfl⟩
  | [] :: _ => exact ⟨rfl, rfl, fun _ => rfl⟩
  | (task :: _) :: _ => exact ⟨rfl, task.run_frame tcp⟩

/-- **A step of the TCP layer** changes the states of connections as `TcpChange` says. -/
theorem ClosingOnce.step (h : ClosingOnce s) (hstep : tcpStep s op t) :
    ClosingOnce t ∧ Changes s op t := by
  obtain ⟨-, rfl⟩ := hstep
  cases op with
  | connect ip port => exact h.connect ip port
  | segment g => exact h.handle g
  | resume => exact h.resume
  | other net => exact ⟨⟨h.nodup, h.closeWait⟩, fun j => Or.inl rfl⟩

end Runs

/-- The TCP layer after `net_init` and `tcp_init`. -/
structure TcpSystem.Start (s : TcpSystem) : Prop where
  closed : ∀ i, (s.tcp.connections i).state = .closed
  port : s.tcp.nextLocalPort = 49152
  bindings : s.net.tcpBindings.length = 16 ∧ ∀ b ∈ s.net.tcpBindings, b.valid = false
  calls : s.calls = []

theorem TcpSystem.Start.closingOnce {s : TcpSystem} (h : s.Start) : ClosingOnce s := by
  constructor <;> simp [closings, h.calls]

/-- **A connection changes its state only as `TcpChange` says**, in every run of calls of
`tcp_connect` and segments: it is established by a segment of its peer with SYN and ACK, and closed by
one with ACK. Each such segment does it, whatever number it acknowledges. -/
theorem tcpRun_change {start s : TcpSystem} {ops : List TcpOp} (hstart : start.Start)
    (h : Run tcpStep start ops s) :
    (∀ op t i, tcpStep s op t → (t.tcp.connections i).state ≠ (s.tcp.connections i).state →
      TcpChange (s.tcp.connections i) op (t.tcp.connections i)) ∧
    ∀ g i,
      ((s.tcp.connections i).state = .synSent →
        (((s.handle g).tcp.connections i).state = .established ↔
          s.Finds g i ∧ hasTcpFlag g.flags tcpSyn ∧ hasTcpFlag g.flags tcpAck)) ∧
      ((s.tcp.connections i).state = .lastAck →
        (((s.handle g).tcp.connections i).state = .closed ↔
          s.Finds g i ∧ hasTcpFlag g.flags tcpAck)) := by
  have honce : ClosingOnce s :=
    h.invariant (fun _ _ _ hs hstep => (hs.step hstep).1) hstart.closingOnce
  refine ⟨fun op t i hstep hchange => ?_, fun g i => ⟨?_, ?_⟩⟩
  · exact ((honce.step hstep).2 i).resolve_left hchange
  · exact TcpSystem.handle_established_iff
  · exact TcpSystem.handle_closed_iff

/-- The TCP layer after boot, on a machine whose link address is zero. -/
def bootTcp : TcpSystem where
  net := ⟨bootIp, Vector.replicate 6 0, [], [], List.replicate 16 ⟨0, 0, false⟩, 0, 0⟩
  tcp := ⟨fun _ => ⟨Vector.replicate 4 0, 0, 0, .closed, 0, 0, 0, 0⟩, 49152⟩
  calls := []

theorem bootTcp_start : bootTcp.Start :=
  ⟨fun _ => rfl, rfl, by decide, rfl⟩

/-- A segment from port 80 of the peer to the first local port. -/
def sampleSegment (flags : Byte) (ack : BitVec 32) : TcpSegment :=
  ⟨.addr samplePeer, samplePeer, 80, 49152, flags, 0, ack⟩

/-- `tcp_connect` at boot, with its SYN sent. -/
def connectFirst : List TcpOp := [.connect samplePeer 80, .resume, .resume, .resume]

/-- The peer's SYN and ACK, which acknowledges nothing, and then its FIN. -/
def closeFirst : List TcpOp :=
  [.segment (sampleSegment (tcpSyn ||| tcpAck) 0), .resume, .resume, .segment (sampleSegment tcpFin 0),
    .resume, .resume, .resume, .resume]

/-- The TCP layer after these steps from boot. -/
def tcpAfter (ops : List TcpOp) : TcpSystem := ops.foldl (fun s op => op.run s) bootTcp

/-- Segments that acknowledge nothing establish the first connection after boot, and close it. -/
theorem tcpRun_change_zero :
    ((tcpAfter connectFirst).tcp.connections 0).seq ≠ 0 ∧
    (((tcpAfter connectFirst).handle (sampleSegment (tcpSyn ||| tcpAck) 0)).tcp.connections 0).state =
      .established ∧
    TcpChange ((tcpAfter connectFirst).tcp.connections 0)
      (.segment (sampleSegment (tcpSyn ||| tcpAck) 0))
      (((tcpAfter connectFirst).handle (sampleSegment (tcpSyn ||| tcpAck) 0)).tcp.connections 0) ∧
    ((tcpAfter (connectFirst ++ closeFirst)).tcp.connections 0).seq ≠ 0 ∧
    (((tcpAfter (connectFirst ++ closeFirst)).handle (sampleSegment tcpAck 0)).tcp.connections 0).state =
      .closed ∧
    TcpChange ((tcpAfter (connectFirst ++ closeFirst)).tcp.connections 0)
      (.segment (sampleSegment tcpAck 0))
      (((tcpAfter (connectFirst ++ closeFirst)).handle (sampleSegment tcpAck 0)).tcp.connections 0) := by
  have hopen : Run tcpStep bootTcp connectFirst (tcpAfter connectFirst) :=
    Allowed.run (by simp [Allowed, connectFirst, TcpOp.Valid])
  have hlast : Run tcpStep bootTcp (connectFirst ++ closeFirst)
      (tcpAfter (connectFirst ++ closeFirst)) :=
    Allowed.run (by simp [Allowed, connectFirst, closeFirst, TcpOp.Valid])
  obtain ⟨hchange, hestablished⟩ := tcpRun_change bootTcp_start hopen
  obtain ⟨hchange', hclosed⟩ := tcpRun_change bootTcp_start hlast
  refine ⟨by decide +kernel, ?_, ?_, by decide +kernel, ?_, ?_⟩
  · exact ((hestablished _ 0).1 (by decide +kernel)).mpr (by decide +kernel)
  · exact hchange _ _ 0 ⟨trivial, rfl⟩ (by decide +kernel)
  · exact ((hclosed _ 0).2 (by decide +kernel)).mpr (by decide +kernel)
  · exact hchange' _ _ 0 ⟨trivial, rfl⟩ (by decide +kernel)

/-- A segment that acknowledges nothing establishes a connection. -/
theorem tcpRun_unacknowledged : ∃ s, ∃ g : TcpSegment,
    Run tcpStep bootTcp [.connect samplePeer 80, .resume, .resume] s ∧
      tcpStep s (.segment g) (s.handle g) ∧ (s.tcp.connections 0).state = .synSent ∧
      ((s.handle g).tcp.connections 0).state = .established ∧
      g.ack ≠ (s.tcp.connections 0).seq := by
  have hrun : Run tcpStep bootTcp [.connect samplePeer 80, .resume, .resume] _ :=
    (((Run.nil bootTcp).snoc ⟨trivial, rfl⟩).snoc ⟨trivial, rfl⟩).snoc ⟨trivial, rfl⟩
  refine ⟨_, sampleSegment (tcpSyn ||| tcpAck) 0, hrun, ⟨trivial, rfl⟩, ?_, ?_, ?_⟩
  · decide
  · decide
  · decide

end ZohoOs
