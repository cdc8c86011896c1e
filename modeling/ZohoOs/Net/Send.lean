import ZohoOs.Net.Receive

/-!
# The send path

`net_send_udp` and `net_send_tcp`, down to the frame `e1000_send_packet` is given. Logging is left
out. As on the receive path, the calls are those that are given their blocks.

## Main definitions

* `arpLookup`: the loop over the ARP cache
* `netSendUdp`, `netSendTcp`: datagrams, and segments to a known link address
* `netSendArpRequest`: what `net_send_tcp` sends before it waits for an address
-/

namespace ZohoOs

/-- The loops of the senders over the ARP cache. -/
def arpLookup (cache : List ArpEntry) (ip : Ipv4) : Option Mac :=
  (cache.find? fun e => e.valid && e.ip == ip).map ArpEntry.mac

/-- `htonl`, as the bytes it is stored in. -/
def bytes32 (v : Nat) : List Byte :=
  [BitVec.ofNat 8 (v / 256 ^ 3), BitVec.ofNat 8 (v / 256 ^ 2), BitVec.ofNat 8 (v / 256),
    BitVec.ofNat 8 v]

/-- `ntohl` of the 32-bit field at `off`. -/
def be32 (mem : Buffer) (off : Nat) : Nat := be16 mem off * 2 ^ 16 + be16 mem (off + 2)

/-- `broadcast_ip`. -/
def broadcastIp : Ipv4 := Vector.replicate 4 255#8

/-- The link address `net_send_udp` sends to. -/
def udpTargetMac (net : Net) (targetIp : Ipv4) : Option Mac :=
  if targetIp = broadcastIp then some broadcastMac else arpLookup net.arpCache targetIp

/-- `net_send_udp`. -/
def netSendUdp (net : Net) (targetIp : Ipv4) (srcPort dstPort : BitVec 16) (data : List Byte) :
    Net × List NetAction :=
  match udpTargetMac net targetIp with
  | none => (net, [])
  | some targetMac =>
    let totalLen := (8 + data.length) % 2 ^ 16
    let udp := bytes16 srcPort.toNat ++ bytes16 dstPort.toNat ++ bytes16 totalLen ++ [0#8, 0#8]
    let (net, sent) := netSendIpv4 net targetIp targetMac 17 ((udp ++ data).take totalLen)
    (net, [sent])

/-- The checksum of a segment with its pseudo-header, as it is stored. -/
def tcpChecksum (srcIp dstIp : Ipv4) (totalLen : Nat) (segment : List Byte) : List Byte :=
  let pseudo := srcIp.toList ++ dstIp.toList ++ [0#8, 6#8] ++ bytes16 totalLen
  let sum := 2 ^ 16 - 1 - foldCarries (checksumWords (checksumWords 0 pseudo) segment) % 2 ^ 16
  [BitVec.ofNat 8 sum, BitVec.ofNat 8 (sum / 256)]

/-- `net_send_tcp`, once the link address is known. -/
def netSendTcpTo (net : Net) (targetIp : Ipv4) (targetMac : Mac) (srcPort dstPort : BitVec 16)
    (seq ack : BitVec 32) (flags : Byte) (data : List Byte) : Net × NetAction :=
  let totalLen := (20 + data.length) % 2 ^ 16
  let tcp := bytes16 srcPort.toNat ++ bytes16 dstPort.toNat ++ bytes32 seq.toNat ++
    bytes32 ack.toNat ++ [0x50#8, flags] ++ bytes16 8192 ++ [0#8, 0#8] ++ [0#8, 0#8]
  let tcp := (tcp ++ data).take totalLen
  let tcp := patch tcp 16 (tcpChecksum net.myIp targetIp totalLen tcp)
  netSendIpv4 net targetIp targetMac 6 tcp

/-- `net_send_tcp`, if the cache has the link address; if not, it asks for it, and waits. -/
def netSendTcp (net : Net) (targetIp : Ipv4) (srcPort dstPort : BitVec 16) (seq ack : BitVec 32)
    (flags : Byte) (data : List Byte) : Option (Net × NetAction) :=
  (arpLookup net.arpCache targetIp).map fun targetMac =>
    netSendTcpTo net targetIp targetMac srcPort dstPort seq ack flags data

/-- `net_send_arp_request`. -/
def netSendArpRequest (net : Net) (targetIp : Ipv4) : Net × NetAction :=
  let req := bytes16 1 ++ bytes16 0x0800 ++ [6#8, 4#8] ++ bytes16 1 ++ net.myMac.toList ++
    net.myIp.toList ++ List.replicate 6 0#8 ++ targetIp.toList
  netSendEth net broadcastMac 0x0806 req

end ZohoOs
