import ZohoOs.Net.Send
import Mathlib.Logic.Function.Basic

/-!
# TCP connections

The connections of `tcp.c`. `tcp_handle_packet` and `tcp_connect` call `net_send_tcp`, which may wait
for a long time; what they have left to do meanwhile is a list of tasks.

## Main definitions

* `TcpConn`, `Tcp`: the connection table
* `TcpTask`: what a caller of `net_send_tcp` still has to do
* `tcpHandlePacket`, `tcpConnect`: the callers, up to their first segment
-/

namespace ZohoOs

/-- `tcp_state_t`. -/
inductive TcpState
  | closed
  | listen
  | synSent
  | synReceived
  | established
  | finWait1
  | finWait2
  | closeWait
  | closing
  | lastAck
  | timeWait
  deriving DecidableEq

/-- `tcp_conn_t`. -/
structure TcpConn where
  remoteIp : Ipv4
  localPort : BitVec 16
  remotePort : BitVec 16
  state : TcpState
  seq : BitVec 32
  ack : BitVec 32
  remoteSeq : BitVec 32
  remoteAck : BitVec 32

/-- `connections` and `next_local_port`. -/
structure Tcp where
  connections : Fin 16 → TcpConn
  nextLocalPort : BitVec 16

/-- `NUM_RX_DESCS`. -/
abbrev numRxDescs : Nat := 128

/-- The address a segment goes to: bytes of a receive buffer, or a copy. -/
inductive PeerIp
  | packet (slot : Fin numRxDescs) (off : Nat)
  | addr (ip : Ipv4)

/-- The arguments of a call of `net_send_tcp`. No caller sends data. -/
structure Segment where
  peer : PeerIp
  srcPort : BitVec 16
  dstPort : BitVec 16
  seq : BitVec 32
  ack : BitVec 32
  flags : Byte

/-- What a caller of `net_send_tcp` has to do. -/
inductive TcpTask
  | send (segment : Segment)
  /-- A segment of a connection, with the numbers the connection has when it is sent. -/
  | reply (conn : Fin 16) (peer : PeerIp) (dstPort : BitVec 16) (flags : Byte)
  /-- `conn->state = TCP_STATE_LAST_ACK; conn->seq++`. -/
  | lastAck (conn : Fin 16)
  /-- `conn->seq++`. -/
  | synSent (conn : Fin 16)

abbrev tcpFin : Byte := 0x01
abbrev tcpSyn : Byte := 0x02
abbrev tcpRst : Byte := 0x04
abbrev tcpAck : Byte := 0x10

def hasTcpFlag (flags flag : Byte) : Bool := flags &&& flag != 0#8

def Tcp.update (tcp : Tcp) (i : Fin 16) (f : TcpConn → TcpConn) : Tcp :=
  { tcp with connections := Function.update tcp.connections i (f (tcp.connections i)) }

/-- The loop of `tcp_handle_packet` over the connections. -/
def Tcp.find (tcp : Tcp) (srcIp : Ipv4) (srcPort dstPort : BitVec 16) : Option (Fin 16) :=
  (List.finRange 16).find? fun i =>
    (tcp.connections i).state ≠ .closed && (tcp.connections i).localPort == dstPort &&
      (tcp.connections i).remotePort == srcPort && (tcp.connections i).remoteIp == srcIp

/-- `tcp_handle_packet`, up to its first segment. -/
def tcpHandlePacket (tcp : Tcp) (peer : PeerIp) (srcIp : Ipv4) (srcPort dstPort : BitVec 16)
    (flags : Byte) (seq ack : BitVec 32) : Tcp × List TcpTask :=
  match tcp.find srcIp srcPort dstPort with
  | none =>
    if hasTcpFlag flags tcpSyn then
      (tcp, [.send ⟨peer, dstPort, srcPort, 0, seq + 1, tcpRst ||| tcpAck⟩])
    else (tcp, [])
  | some i =>
    match (tcp.connections i).state with
    | .synSent =>
      if hasTcpFlag flags tcpSyn && hasTcpFlag flags tcpAck then
        (tcp.update i fun c =>
          { c with state := .established, remoteSeq := seq + 1, ack := seq + 1, remoteAck := ack },
          [.reply i peer srcPort tcpAck])
      else (tcp, [])
    | .established =>
      if hasTcpFlag flags tcpFin then
        (tcp.update i fun c => { c with state := .closeWait, ack := seq + 1 },
          [.reply i peer srcPort tcpAck, .reply i peer srcPort (tcpFin ||| tcpAck), .lastAck i])
      else (tcp, [])
    | .lastAck =>
      if hasTcpFlag flags tcpAck then (tcp.update i fun c => { c with state := .closed }, [])
      else (tcp, [])
    | _ => (tcp, [])

/-- The loop of `net_tcp_bind`: the first slot that is free. -/
def bindFirst (binding : Binding) : List Binding → List Binding
  | [] => []
  | b :: bindings => if b.valid then b :: bindFirst binding bindings else binding :: bindings

/-- `tcp_connect`, up to its segment. -/
def tcpConnect (net : Net) (tcp : Tcp) (ip : Ipv4) (port : BitVec 16) : Net × Tcp × List TcpTask :=
  match (List.finRange 16).find? fun i => (tcp.connections i).state = .closed with
  | none => (net, tcp, [])
  | some i =>
    let localPort := tcp.nextLocalPort
    let tcp := tcp.update i fun c =>
      { c with
        remoteIp := ip, remotePort := port, localPort := localPort, state := .synSent
        seq := 0x12345678, ack := 0 }
    let net := { net with tcpBindings := bindFirst ⟨localPort.toNat, 0, true⟩ net.tcpBindings }
    (net, { tcp with nextLocalPort := localPort + 1 },
      [.send ⟨.addr ip, localPort, port, 0x12345678, 0, tcpSyn⟩, .synSent i])

end ZohoOs
