import ZohoOs.Lib.TransitionSystem
import ZohoOs.Net.Tcp

/-!
# Polling the receive ring

`e1000_poll` hands each completed descriptor to `net_handle_packet`, which may come back to
`e1000_poll` before it returns: `tcp_handle_packet` answers through `net_send_tcp`, which polls while
it waits for a link address. The calls that are under way are a stack.

## Main definitions

* `Nic`: the receive ring
* `Call`, `PollState`: the calls under way, and the machine
* `resume`: the next step of the innermost call
* `PollOp`, `pollStep`: a step of the code, of the device or of the clock
-/

namespace ZohoOs

open TransitionSystem

/-- A received frame, in memory, with its length. -/
structure Frame where
  mem : Buffer
  length : BitVec 16

/-- `e1000_rx_desc_t`, with the bytes of its buffer, and its status bit DD. -/
structure RxDesc where
  frame : Frame
  status : Bool

/-- The receive ring, with the registers `RDH` and `RDT`. The descriptors from the one up to the
other are the device's. -/
structure Nic where
  rxDescs : Fin numRxDescs → RxDesc
  rxCur : Fin numRxDescs
  rdh : Fin numRxDescs
  rdt : Fin numRxDescs

/-- A call under way. -/
inductive Call
  /-- `e1000_poll`, at the test of its loop. -/
  | poll
  /-- `e1000_poll`, when `net_handle_packet` returns. -/
  | handled
  /-- `tcp_handle_packet` or `tcp_connect`, with what is left of it. -/
  | tcp (tasks : List TcpTask)
  /-- `net_send_tcp`, at the test of its wait loop. -/
  | wait (segment : Segment) (start : BitVec 64)
  /-- `net_send_tcp`, when `e1000_poll` returns. -/
  | search (segment : Segment) (start : BitVec 64)

structure PollState where
  nic : Nic
  net : Net
  tcp : Tcp
  /-- `pit_get_ticks()`. -/
  ticks : BitVec 64
  /-- The calls under way, the innermost first. -/
  stack : List Call
  /-- The frames the device has received. -/
  arrivals : List Frame
  /-- Which of them the device last stored in each descriptor. -/
  serial : Fin numRxDescs → Nat
  /-- The frames passed to `net_handle_packet`, each with the number of its arrival. -/
  passed : List (Nat × Frame)

/-- Handlers bound to UDP ports. They do not call `net_send_tcp`, nor `e1000_poll`. -/
abbrev UdpHandler := NetAction → Buffer → Net → Net

/-- `target_ip`, as `net_send_tcp` reads it. -/
def PeerIp.read (nic : Nic) : PeerIp → Ipv4
  | .packet slot off => readArray (nic.rxDescs slot).frame.mem off 4
  | .addr ip => ip

/-- The call of a bound handler. -/
def deliver (udp : UdpHandler) (slot : Fin numRxDescs) (mem : Buffer) (net : Net) (tcp : Tcp) :
    List NetAction → Net × Tcp × List TcpTask
  | [] => (net, tcp, [])
  | action :: actions =>
    match action with
    | .deliverUdp .. => (udp action mem net, tcp, [])
    | .deliverTcp _ srcIp srcPort dstPort header _ =>
      -- `src_ip` points into the IP header of the frame
      let (tcp, tasks) := tcpHandlePacket tcp (.packet slot 26) srcIp (BitVec.ofNat 16 srcPort)
        (BitVec.ofNat 16 dstPort) (mem (header.start + 13))
        (BitVec.ofNat 32 (be32 mem (header.start + 4)))
        (BitVec.ofNat 32 (be32 mem (header.start + 8)))
      (net, tcp, tasks)
    | _ => deliver udp slot mem net tcp actions

/-- `net_send_tcp` of a segment, where the ARP cache has the address. -/
def PollState.trySend (s : PollState) (segment : Segment) : Option (Net × NetAction) :=
  netSendTcp s.net (segment.peer.read s.nic) segment.srcPort segment.dstPort segment.seq segment.ack
    segment.flags []

/-- The start of `net_send_tcp`, up to its wait loop. -/
def PollState.startSend (s : PollState) (segment : Segment) (rest : List Call) : PollState :=
  match s.trySend segment with
  | some (net, _) => { s with net := net, stack := rest }
  | none =>
    { s with
      net := (netSendArpRequest s.net (segment.peer.read s.nic)).1
      stack := .wait segment s.ticks :: rest }

/-- The segment of a reply. -/
def Tcp.segment (tcp : Tcp) (i : Fin 16) (peer : PeerIp) (dstPort : BitVec 16) (flags : Byte) :
    Segment :=
  ⟨peer, (tcp.connections i).localPort, dstPort, (tcp.connections i).seq, (tcp.connections i).ack,
    flags⟩

/-- The next step of the innermost call. -/
def PollState.resume (udp : UdpHandler) (s : PollState) : PollState :=
  match s.stack with
  | [] => s
  | .poll :: rest =>
    let desc := s.nic.rxDescs s.nic.rxCur
    if desc.status then
      let (net, actions) := netHandlePacket s.net desc.frame.mem desc.frame.length
      let (net, tcp, tasks) := deliver udp s.nic.rxCur desc.frame.mem net s.tcp actions
      { s with
        net := net, tcp := tcp, stack := .tcp tasks :: .handled :: rest
        passed := s.passed ++ [(s.serial s.nic.rxCur, desc.frame)] }
    else { s with stack := rest }
  | .handled :: rest =>
    let oldCur := s.nic.rxCur
    let desc := s.nic.rxDescs oldCur
    let nic :=
      { s.nic with
        rxDescs := Function.update s.nic.rxDescs oldCur { desc with status := false }
        rxCur := oldCur + 1
        rdt := oldCur }
    { s with nic := nic, stack := .poll :: rest }
  | .tcp [] :: rest => { s with stack := rest }
  | .tcp (.send segment :: tasks) :: rest => s.startSend segment (.tcp tasks :: rest)
  | .tcp (.reply i peer dstPort flags :: tasks) :: rest =>
    s.startSend (s.tcp.segment i peer dstPort flags) (.tcp tasks :: rest)
  | .tcp (.lastAck i :: tasks) :: rest =>
    { s with
      tcp := s.tcp.update i fun c => { c with state := .lastAck, seq := c.seq + 1 }
      stack := .tcp tasks :: rest }
  | .tcp (.synSent i :: tasks) :: rest =>
    { s with
      tcp := s.tcp.update i fun c => { c with seq := c.seq + 1 }
      stack := .tcp tasks :: rest }
  | .wait segment start :: rest =>
    if s.ticks - start < 10 then { s with stack := .poll :: .search segment start :: rest }
    else { s with stack := rest }
  | .search segment start :: rest =>
    match s.trySend segment with
    | some (net, _) => { s with net := net, stack := rest }
    | none => { s with stack := .wait segment start :: rest }

/-- What can happen next. -/
inductive PollOp
  /-- The device completes the next descriptor. -/
  | arrive (frame : Frame)
  | tick
  /-- The main loop calls `e1000_poll`. -/
  | call
  | connect (ip : Ipv4) (port : BitVec 16)
  /-- The innermost call takes its next step. -/
  | resume

/-- The device stores a frame in the first descriptor of its part of the ring. -/
def PollState.arrive (s : PollState) (frame : Frame) : PollState :=
  { s with
    nic :=
      { s.nic with
        rxDescs := Function.update s.nic.rxDescs s.nic.rdh ⟨frame, true⟩
        rdh := s.nic.rdh + 1 }
    arrivals := s.arrivals ++ [frame]
    serial := Function.update s.serial s.nic.rdh s.arrivals.length }

def PollOp.run (udp : UdpHandler) : PollOp → PollState → PollState
  | .arrive frame, s => s.arrive frame
  | .tick, s => { s with ticks := s.ticks + 1 }
  | .call, s => { s with stack := [.poll] }
  | .connect ip port, s =>
    let (net, tcp, tasks) := tcpConnect s.net s.tcp ip port
    { s with net := net, tcp := tcp, stack := [.tcp tasks] }
  | .resume, s => s.resume udp

/-- The device has a descriptor; a call from outside comes when none is under way. -/
def PollOp.Valid (s : PollState) : PollOp → Prop
  | .arrive _ => s.nic.rdh ≠ s.nic.rdt
  | .tick => True
  | .call => s.stack.isEmpty
  | .connect _ _ => s.stack.isEmpty
  | .resume => !s.stack.isEmpty

instance PollOp.decidableValid (s : PollState) (op : PollOp) : Decidable (op.Valid s) := by
  cases op <;> unfold PollOp.Valid <;> infer_instance

/-- Steps in any order. -/
abbrev pollStep (udp : UdpHandler) : PollState → PollOp → PollState → Prop :=
  Restrict (fun s op => op.Valid s) (Apply (PollOp.run udp))

end ZohoOs
