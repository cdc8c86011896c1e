import ZohoOs.Net.Packet

/-!
# The receive path

`net_handle_packet` and the handlers below it. Each handler is given a pointer and a 16-bit length
by the one above; it returns the new state of the stack, and what it does besides: the slices it
hands on, delivers to a bound handler or copies, and the frames it sends. Logging is left out.

An answer is built in blocks of `kmalloc`, which no function checks. The definitions are those of calls
that are given their blocks; `ZohoOs.Net.PacketBlocks` has the heap, and says when they are.

## Main definitions

* `Net`: the state of the stack
* `NetAction`: what a handler does besides
* `netHandlePacket`: the entry of the receive path
-/

namespace ZohoOs

/-- `arp_entry_t`. -/
structure ArpEntry where
  ip : Ipv4
  mac : Mac
  valid : Bool

/-- `udp_binding_t` and `tcp_binding_t`. -/
structure Binding where
  port : Nat
  handler : Nat
  valid : Bool

structure Net where
  myIp : Ipv4
  myMac : Mac
  arpCache : List ArpEntry
  udpBindings : List Binding
  tcpBindings : List Binding
  rxPacketCount : BitVec 64
  txPacketCount : BitVec 64

/-- What `my_ip` holds at boot. -/
def bootIp : Ipv4 := #v[10, 0, 2, 15]

/-- A peer of the examples. -/
def samplePeer : Ipv4 := ⟨#[10, 0, 2, 2], rfl⟩

/-- `broadcast_mac`. -/
def broadcastMac : Mac := Vector.replicate 6 0xFF#8

inductive NetAction
  /-- `net_handle_ipv4` calls the handler of a protocol. -/
  | handle (proto : Nat) (payload : Slice)
  /-- A slice is copied into an echo reply. -/
  | copy (source : Slice)
  | deliverUdp (handler : Nat) (srcIp : Ipv4) (srcPort dstPort : Nat) (payload : Slice)
  | deliverTcp (handler : Nat) (srcIp : Ipv4) (srcPort dstPort : Nat) (tcp payload : Slice)
  /-- `e1000_send_packet`. -/
  | send (frame : List Byte)
  deriving DecidableEq

/-- The received bytes an action passes on. -/
def NetAction.slices : NetAction → List Slice
  | .handle _ payload => [payload]
  | .copy source => [source]
  | .deliverUdp _ _ _ _ payload => [payload]
  | .deliverTcp _ _ _ _ tcp payload => [tcp, payload]
  | .send _ => []

/-! ## Sending -/

/-- `net_send_eth`. -/
def netSendEth (net : Net) (destMac : Mac) (type : Nat) (data : List Byte) : Net × NetAction :=
  let totalLen := (14 + data.length) % 2 ^ 16
  let frame := destMac.toList ++ net.myMac.toList ++ bytes16 type ++ data
  ({ net with txPacketCount := net.txPacketCount + 1 }, .send (frame.take totalLen))

/-- `net_send_ipv4`. -/
def netSendIpv4 (net : Net) (destIp : Ipv4) (destMac : Mac) (proto : Nat) (data : List Byte) :
    Net × NetAction :=
  let totalLen := (20 + data.length) % 2 ^ 16
  let ip := [0x45#8, 0#8] ++ bytes16 totalLen ++ bytes16 0 ++ bytes16 0 ++
    [64#8, BitVec.ofNat 8 proto, 0#8, 0#8] ++ net.myIp.toList ++ destIp.toList
  let ip := patch ip 10 (netChecksum ip)
  netSendEth net destMac 0x0800 ((ip ++ data).take totalLen)

/-! ## ARP -/

/-- The loop of `net_handle_arp` over the cache: the first entry that is free or has the address. -/
def arpCacheUpdate (ip : Ipv4) (mac : Mac) : List ArpEntry → List ArpEntry
  | [] => []
  | e :: cache =>
    if e.valid = false ∨ e.ip = ip then ⟨ip, mac, true⟩ :: cache
    else e :: arpCacheUpdate ip mac cache

/-- `net_handle_arp`. -/
def netHandleArp (net : Net) (mem : Buffer) (data len : Nat) : Net × List NetAction :=
  if len < 28 then (net, [])
  else if be16 mem data ≠ 1 ∨ be16 mem (data + 2) ≠ 0x0800 then (net, [])
  else
    let srcMac : Mac := readArray mem (data + 8) 6
    let srcIp : Ipv4 := readArray mem (data + 14) 4
    let net := { net with arpCache := arpCacheUpdate srcIp srcMac net.arpCache }
    if be16 mem (data + 6) = 1 ∧ readArray mem (data + 24) 4 = net.myIp then
      let reply := bytes16 1 ++ bytes16 0x0800 ++ [6#8, 4#8] ++ bytes16 2 ++ net.myMac.toList ++
        net.myIp.toList ++ srcMac.toList ++ srcIp.toList
      let (net, sent) := netSendEth net srcMac 0x0806 reply
      (net, [sent])
    else (net, [])

/-! ## IPv4 -/

/-- `net_handle_icmp`. -/
def netHandleIcmp (net : Net) (mem : Buffer) (srcMac : Mac) (ip data len : Nat) :
    Net × List NetAction :=
  if len < 8 then (net, [])
  else if mem data = 8#8 then
    let reply := patch (patch (readBytes mem data len) 0 [0#8]) 2 [0#8, 0#8]
    let reply := patch reply 2 (netChecksum reply)
    let (net, sent) := netSendIpv4 net (readArray mem (ip + 12) 4) srcMac 1 reply
    (net, [.copy ⟨data, len⟩, sent])
  else (net, [])

/-- The binding a port is delivered to. -/
def findBinding (bindings : List Binding) (port : Nat) : Option Binding :=
  bindings.find? fun b => b.valid && b.port == port

/-- `net_handle_udp`. -/
def netHandleUdp (net : Net) (mem : Buffer) (ip data len : Nat) : List NetAction :=
  if len < 8 then []
  else
    let srcPort := be16 mem data
    let dstPort := be16 mem (data + 2)
    let udpLen := be16 mem (data + 4)
    if udpLen < 8 ∨ udpLen > len then []
    else
      match findBinding net.udpBindings dstPort with
      | some b =>
        [.deliverUdp b.handler (readArray mem (ip + 12) 4) srcPort dstPort ⟨data + 8, udpLen - 8⟩]
      | none => []

/-- `net_handle_tcp`. -/
def netHandleTcp (net : Net) (mem : Buffer) (ip data len : Nat) : List NetAction :=
  if len < 20 then []
  else
    let srcPort := be16 mem data
    let dstPort := be16 mem (data + 2)
    let headerLen := (mem (data + 12)).toNat / 16 * 4
    if headerLen < 20 ∨ headerLen > len then []
    else
      match findBinding net.tcpBindings dstPort with
      | some b =>
        [.deliverTcp b.handler (readArray mem (ip + 12) 4) srcPort dstPort ⟨data, headerLen⟩
          ⟨data + headerLen, len - headerLen⟩]
      | none => []

/-- `(ip->version_ihl & 0x0F) * 4`. -/
def ipHeaderLen (mem : Buffer) (ip : Nat) : Nat := (mem ip).toNat % 16 * 4

/-- `net_handle_ipv4`. -/
def netHandleIpv4 (net : Net) (mem : Buffer) (srcMac : Mac) (data len : Nat) :
    Net × List NetAction :=
  if len < 20 then (net, [])
  else
    let dstIp : Ipv4 := readArray mem (data + 16) 4
    if dstIp ≠ net.myIp ∧ dstIp.toList ≠ broadcastMac.toList.take 4 then (net, [])
    else
      let payload := data + ipHeaderLen mem data
      -- an unsigned 16-bit difference
      let payloadLen := (be16 mem (data + 2) + 2 ^ 16 - ipHeaderLen mem data) % 2 ^ 16
      let proto := (mem (data + 9)).toNat
      if proto = 1 then
        let (net, actions) := netHandleIcmp net mem srcMac data payload payloadLen
        (net, .handle proto ⟨payload, payloadLen⟩ :: actions)
      else if proto = 17 then
        (net, .handle proto ⟨payload, payloadLen⟩ :: netHandleUdp net mem data payload payloadLen)
      else if proto = 6 then
        (net, .handle proto ⟨payload, payloadLen⟩ :: netHandleTcp net mem data payload payloadLen)
      else (net, [])

/-- `net_handle_packet`. -/
def netHandlePacket (net : Net) (mem : Buffer) (len : BitVec 16) : Net × List NetAction :=
  if len.toNat < 14 then (net, [])
  else
    let net := { net with rxPacketCount := net.rxPacketCount + 1 }
    let type := be16 mem 12
    if type = 0x0806 then netHandleArp net mem 14 (len.toNat - 14)
    else if type = 0x0800 then netHandleIpv4 net mem (readArray mem 6 6) 14 (len.toNat - 14)
    else (net, [])

end ZohoOs
