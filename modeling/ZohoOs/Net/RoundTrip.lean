import ZohoOs.Lib.Layout
import ZohoOs.Net.Send

/-!
# Sending and receiving

A frame that one host sends is, on the host it is for, delivered to the handler bound to its port as
it was sent. The senders write the headers as lists of bytes, and the handlers read them back at
offsets, which a layout of the frame connects.

## Main definitions

* `Received`: a frame in a receive buffer, with padding behind it
* `deliveries`: what the handlers deliver

## Main results

* `netSendIpv4_frame`: the frame around a payload
* `netHandlePacket_ipv4`: and what the receiver hands on of it
* `netSend_roundTrip`: a datagram or segment that is sent is delivered once, and the same
-/

namespace ZohoOs

open Layout

/-- A frame in a receive buffer. The link may have padded it. -/
structure Received (frame : List Byte) (mem : Buffer) (len : BitVec 16) : Prop where
  bytes : ∀ i (hi : i < frame.length), mem i = frame[i]
  length : frame.length ≤ len.toNat
  fits : len.toNat ≤ 2048

/-- The actions that call a bound handler. -/
def deliveries (actions : List NetAction) : List NetAction :=
  actions.filter fun
    | .deliverUdp .. => true
    | .deliverTcp .. => true
    | _ => false

/-! ## Fields -/

section Fields

variable {mem : Buffer} {off v : Nat}

theorem be16_of_holds (h : Holds mem off (bytes16 v)) (hv : v < 2 ^ 16) : be16 mem off = v := by
  obtain ⟨h₀, h₁, -⟩ := holds_cons.mp h |>.imp_right holds_cons.mp
  rw [be16, h₀, h₁, BitVec.toNat_ofNat, BitVec.toNat_ofNat]
  omega

theorem be32_of_holds (h : Holds mem off (bytes32 v)) (hv : v < 2 ^ 32) : be32 mem off = v := by
  obtain ⟨h₀, h₁, h₂, h₃, -⟩ := holds_cons.mp h |>.imp_right fun h =>
    holds_cons.mp h |>.imp_right fun h => holds_cons.mp h |>.imp_right holds_cons.mp
  rw [be32, be16, be16, h₀, h₁, h₂, h₃]
  simp only [BitVec.toNat_ofNat]
  omega

theorem bytes16_length (v : Nat) : (bytes16 v).length = 2 := rfl

theorem bytes32_length (v : Nat) : (bytes32 v).length = 4 := rfl

/-- Storing bytes over as many others. -/
theorem patch_append (front old back new : List Byte) (h : new.length = old.length) :
    patch (front ++ old ++ back) front.length new = front ++ new ++ back := by
  rw [patch, List.append_assoc front old back, List.take_left, h, ← List.append_assoc front old back,
    ← List.length_append, List.drop_left]

theorem netChecksum_length (data : List Byte) : (netChecksum data).length = 2 := rfl

theorem tcpChecksum_length (srcIp dstIp : Ipv4) (totalLen : Nat) (segment : List Byte) :
    (tcpChecksum srcIp dstIp totalLen segment).length = 2 := rfl

end Fields

/-! ## IPv4 -/

/-- The IPv4 header `net_send_ipv4` writes. -/
def ipv4Header (srcIp dstIp : Ipv4) (proto totalLen : Nat) (checksum : List Byte) : List Byte :=
  [0x45#8, 0#8] ++ bytes16 totalLen ++ bytes16 0 ++ bytes16 0 ++ [64#8, BitVec.ofNat 8 proto] ++
    checksum ++ (srcIp.toList ++ dstIp.toList)

theorem ipv4Header_length {srcIp dstIp : Ipv4} {proto totalLen : Nat} {checksum : List Byte}
    (hsum : checksum.length = 2) : (ipv4Header srcIp dstIp proto totalLen checksum).length = 20 := by
  simp only [ipv4Header, List.length_append, bytes16_length, hsum, Vector.length_toList,
    List.length_cons, List.length_nil]

theorem ipv4Frame_length {dstMac srcMac : Mac} {type proto totalLen : Nat} {srcIp dstIp : Ipv4}
    {checksum : List Byte} (hsum : checksum.length = 2) (data : List Byte) :
    (dstMac.toList ++ srcMac.toList ++ bytes16 type ++
      (ipv4Header srcIp dstIp proto totalLen checksum ++ data)).length = 34 + data.length := by
  rw [List.length_append, List.length_append, List.length_append, List.length_append,
    ipv4Header_length hsum, bytes16_length, Vector.length_toList, Vector.length_toList]
  omega

section Ipv4

variable {net : Net} {dstIp : Ipv4} {dstMac : Mac} {proto : Nat} {data checksum : List Byte}

theorem netSendEth_frame (type : Nat) (hfit : 14 + data.length < 2 ^ 16) :
    (netSendEth net dstMac type data).2 =
      .send (dstMac.toList ++ net.myMac.toList ++ bytes16 type ++ data) := by
  have hlength : (dstMac.toList ++ net.myMac.toList ++ bytes16 type ++ data).length =
      14 + data.length := by
    simp only [List.length_append, Vector.length_toList, bytes16, List.length_cons, List.length_nil]
  rw [netSendEth, Nat.mod_eq_of_lt hfit]
  simp only [List.take_of_length_le (Nat.le_of_eq hlength)]

/-- The frame around a payload, and the checksum of its header. -/
theorem netSendIpv4_header (net : Net) (dstIp : Ipv4) (dstMac : Mac) (proto : Nat)
    (data : List Byte) (hfit : 34 + data.length < 2 ^ 16) :
    (netSendIpv4 net dstIp dstMac proto data).2 =
      .send (dstMac.toList ++ net.myMac.toList ++ bytes16 0x0800 ++
        (ipv4Header net.myIp dstIp proto (20 + data.length)
          (netChecksum (ipv4Header net.myIp dstIp proto (20 + data.length) [0#8, 0#8])) ++
            data)) := by
  have htotal : (20 + data.length) % 2 ^ 16 = 20 + data.length := Nat.mod_eq_of_lt (by omega)
  let front := [0x45#8, 0#8] ++ bytes16 (20 + data.length) ++ bytes16 0 ++ bytes16 0 ++
    [64#8, BitVec.ofNat 8 proto]
  let back := net.myIp.toList ++ dstIp.toList
  have hip : [0x45#8, 0#8] ++ bytes16 (20 + data.length) ++ bytes16 0 ++ bytes16 0 ++
      [64#8, BitVec.ofNat 8 proto, 0#8, 0#8] ++ net.myIp.toList ++ dstIp.toList =
        front ++ [0#8, 0#8] ++ back := by
    simp only [front, back, List.append_assoc, List.cons_append, List.nil_append]
  -- the checksum goes over the two zeros it was computed with
  have hpatch := patch_append front [0#8, 0#8] back
    (netChecksum (front ++ [0#8, 0#8] ++ back)) (netChecksum_length _)
  have hlength : (front ++ netChecksum (front ++ [0#8, 0#8] ++ back) ++ back ++ data).length =
      20 + data.length := by
    simp only [List.length_append, netChecksum_length, front, back, bytes16, List.length_cons,
      List.length_nil, Vector.length_toList]
  simp only [netSendIpv4, htotal, hip]
  rw [show (10 : Nat) = front.length from rfl, hpatch, List.take_of_length_le (by omega),
    netSendEth_frame _ (by omega)]
  simp only [ipv4Header, front, back]

/-- **The frame around a payload.** -/
theorem netSendIpv4_frame (net : Net) (dstIp : Ipv4) (dstMac : Mac) (proto : Nat)
    (data : List Byte) (hfit : 34 + data.length < 2 ^ 16) : ∃ checksum : List Byte,
    checksum.length = 2 ∧ (netSendIpv4 net dstIp dstMac proto data).2 =
      .send (dstMac.toList ++ net.myMac.toList ++ bytes16 0x0800 ++
        (ipv4Header net.myIp dstIp proto (20 + data.length) checksum ++ data)) :=
  ⟨_, netChecksum_length _, netSendIpv4_header net dstIp dstMac proto data hfit⟩

/-! ## The receiver -/

/-- What the receiver reads of the headers, and where the payload lies. -/
structure Ipv4Frame (mem : Buffer) (srcIp dstIp : Ipv4) (proto : Nat) (data : List Byte) : Prop where
  type : be16 mem 12 = 0x0800
  versionIhl : mem 14 = 0x45#8
  len : be16 mem 16 = 20 + data.length
  proto : mem 23 = BitVec.ofNat 8 proto
  srcIp : readArray mem 26 4 = srcIp
  dstIp : readArray mem 30 4 = dstIp
  data : Holds mem 34 data

theorem Ipv4Frame.of_holds {mem : Buffer} {srcMac : Mac} {srcIp : Ipv4} {n : Nat}
    (hsum : checksum.length = 2) (hlength : data.length = n) (hfit : 20 + n < 2 ^ 16)
    (h : Holds mem 0 (dstMac.toList ++ srcMac.toList ++ bytes16 0x0800 ++
      (ipv4Header srcIp dstIp proto (20 + n) checksum ++ data))) :
    Ipv4Frame mem srcIp dstIp proto data := by
  subst hlength
  simp only [ipv4Header, holds_append, holds_cons, List.length_append, List.length_cons,
    List.length_nil, Vector.length_toList, bytes16_length, hsum, Nat.reduceAdd, Nat.zero_add] at h
  obtain ⟨⟨⟨-, -⟩, htype⟩, ⟨⟨⟨⟨⟨⟨⟨hihl, -⟩, hlen⟩, -⟩, -⟩, -, hproto, -⟩, -⟩, hsrc, hdst⟩, hdata⟩ := h
  exact ⟨be16_of_holds htype (by decide), hihl, be16_of_holds hlen hfit, hproto, hsrc.vector,
    hdst.vector, hdata⟩

theorem netHandlePacket_of_ipv4 {mem : Buffer} {len : BitVec 16} (htype : be16 mem 12 = 0x0800)
    (hlen : 14 ≤ len.toNat) : netHandlePacket net mem len =
      netHandleIpv4 { net with rxPacketCount := net.rxPacketCount + 1 } mem (readArray mem 6 6) 14
        (len.toNat - 14) := by
  have harp : ¬ be16 mem 12 = 0x0806 := by omega
  unfold netHandlePacket
  rw [if_neg (by omega)]
  dsimp only
  rw [if_neg harp, if_pos htype]

/-- `net_handle_ipv4` hands on a datagram or a segment that is addressed to the host. -/
theorem netHandleIpv4_deliver {mem : Buffer} {srcMac : Mac} {len : Nat} {srcIp : Ipv4}
    (h : Ipv4Frame mem srcIp net.myIp proto data) (hlen : 20 ≤ len) (hfit : data.length < 2 ^ 16)
    (hproto : proto = 17 ∨ proto = 6) : (netHandleIpv4 net mem srcMac 14 len).2 =
      .handle proto ⟨34, data.length⟩ :: if proto = 17 then netHandleUdp net mem 14 34 data.length
        else netHandleTcp net mem 14 34 data.length := by
  have hihl : ipHeaderLen mem 14 = 20 := by
    rw [ipHeaderLen, h.versionIhl]
    rfl
  -- the length of the payload comes from the header, not from the frame
  have hpayload : (be16 mem 16 + 2 ^ 16 - 20) % 2 ^ 16 = data.length := by
    rw [h.len]
    omega
  have hproto' : (mem 23).toNat = proto := by
    rw [h.proto, BitVec.toNat_ofNat]
    omega
  unfold netHandleIpv4
  rw [if_neg (Nat.not_lt.mpr hlen)]
  dsimp only
  rw [if_neg fun hne => hne.1 h.dstIp, hihl, hpayload, hproto']
  rcases hproto with rfl | rfl
  · rw [if_neg (by decide), if_pos rfl, if_pos rfl]
  · rw [if_neg (by decide), if_neg (by decide), if_pos rfl, if_neg (by decide)]

/-- **What the receiver hands on**: the payload, to the handler of its protocol. -/
theorem netHandlePacket_ipv4 {mem : Buffer} {len : BitVec 16} {srcIp : Ipv4}
    (h : Ipv4Frame mem srcIp net.myIp proto data) (hfit : 34 + data.length ≤ len.toNat)
    (hproto : proto = 17 ∨ proto = 6) : ∃ net' : Net, net'.udpBindings = net.udpBindings ∧
      net'.tcpBindings = net.tcpBindings ∧ (netHandlePacket net mem len).2 =
        .handle proto ⟨34, data.length⟩ :: if proto = 17 then netHandleUdp net' mem 14 34 data.length
          else netHandleTcp net' mem 14 34 data.length := by
  have hlt := len.isLt
  refine ⟨{ net with rxPacketCount := net.rxPacketCount + 1 }, rfl, rfl, ?_⟩
  rw [netHandlePacket_of_ipv4 h.type (by omega)]
  apply netHandleIpv4_deliver
  · exact h
  · omega
  · omega
  · exact hproto

end Ipv4

/-! ## UDP and TCP -/

/-- A UDP header. -/
def udpHeader (srcPort dstPort : BitVec 16) (totalLen : Nat) : List Byte :=
  bytes16 srcPort.toNat ++ bytes16 dstPort.toNat ++ bytes16 totalLen ++ [0#8, 0#8]

/-- A TCP header, up to its checksum. -/
def tcpHeader (srcPort dstPort : BitVec 16) (seq ack : BitVec 32) (flags : Byte) : List Byte :=
  bytes16 srcPort.toNat ++ bytes16 dstPort.toNat ++ bytes32 seq.toNat ++ bytes32 ack.toNat ++
    [0x50#8, flags] ++ bytes16 8192

section Transport

variable {net net' : Net} {mem : Buffer} {ip srcIp targetIp : Ipv4} {targetMac : Mac}
  {srcPort dstPort : BitVec 16} {seq ack : BitVec 32} {flags : Byte} {data checksum : List Byte}
  {b : Binding} {off : Nat}

/-- The segment `net_send_tcp` builds. -/
theorem netSendTcpTo_segment (net : Net) (targetIp : Ipv4) (targetMac : Mac)
    (srcPort dstPort : BitVec 16) (seq ack : BitVec 32) (flags : Byte) (data : List Byte)
    (hfit : 20 + data.length < 2 ^ 16) : ∃ checksum : List Byte,
    checksum.length = 2 ∧
      netSendTcpTo net targetIp targetMac srcPort dstPort seq ack flags data =
        netSendIpv4 net targetIp targetMac 6
          (tcpHeader srcPort dstPort seq ack flags ++ checksum ++ ([0#8, 0#8] ++ data)) := by
  have hsegment : bytes16 srcPort.toNat ++ bytes16 dstPort.toNat ++ bytes32 seq.toNat ++
      bytes32 ack.toNat ++ [0x50#8, flags] ++ bytes16 8192 ++ [0#8, 0#8] ++ [0#8, 0#8] ++ data =
        tcpHeader srcPort dstPort seq ack flags ++ [0#8, 0#8] ++ ([0#8, 0#8] ++ data) := by
    simp only [tcpHeader, List.append_assoc]
  have hlength : (tcpHeader srcPort dstPort seq ack flags ++ [0#8, 0#8] ++
      ([0#8, 0#8] ++ data)).length = 20 + data.length := by
    simp only [tcpHeader, List.length_append, bytes16_length, bytes32_length, List.length_cons,
      List.length_nil]
    omega
  refine ⟨tcpChecksum net.myIp targetIp (20 + data.length) (tcpHeader srcPort dstPort seq ack flags ++
    [0#8, 0#8] ++ ([0#8, 0#8] ++ data)), tcpChecksum_length _ _ _ _, ?_⟩
  rw [netSendTcpTo, Nat.mod_eq_of_lt hfit, hsegment]
  simp only [List.take_of_length_le (Nat.le_of_eq hlength)]
  rw [show (16 : Nat) = (tcpHeader srcPort dstPort seq ack flags).length from rfl,
    patch_append _ _ _ _ (tcpChecksum_length _ _ _ _)]

/-- `net_handle_udp` delivers a datagram to the handler of its port. -/
theorem netHandleUdp_deliver (hsrc : readArray mem 26 4 = srcIp)
    (hbind : findBinding net.udpBindings dstPort.toNat = some b) (hfit : 8 + data.length < 2 ^ 16)
    (hholds : Holds mem 34 (udpHeader srcPort dstPort (8 + data.length) ++ data)) :
    netHandleUdp net mem 14 34 (8 + data.length) =
        [.deliverUdp b.handler srcIp srcPort.toNat dstPort.toNat ⟨42, data.length⟩] ∧
      Holds mem 42 data := by
  simp only [udpHeader, holds_append, List.length_append, bytes16_length, List.length_cons,
    List.length_nil, Nat.reduceAdd] at hholds
  obtain ⟨⟨⟨⟨hsport, hdport⟩, hlen⟩, -⟩, hdata⟩ := hholds
  refine ⟨?_, hdata⟩
  have hlen' := be16_of_holds hlen hfit
  have hsport' := be16_of_holds hsport srcPort.isLt
  have hdport' := be16_of_holds hdport dstPort.isLt
  simp only [netHandleUdp, Nat.reduceAdd, hlen', hsport', hdport', hbind, hsrc]
  rw [if_neg (by omega), if_neg (by omega), Nat.add_sub_cancel_left]

/-- `net_handle_tcp` delivers a segment to the handler of its port. -/
theorem netHandleTcp_deliver (hsrc : readArray mem 26 4 = srcIp)
    (hbind : findBinding net.tcpBindings dstPort.toNat = some b) (hsum : checksum.length = 2)
    (hholds : Holds mem 34 (tcpHeader srcPort dstPort seq ack flags ++ checksum ++
      ([0#8, 0#8] ++ data))) :
    netHandleTcp net mem 14 34 (20 + data.length) =
        [.deliverTcp b.handler srcIp srcPort.toNat dstPort.toNat ⟨34, 20⟩ ⟨54, data.length⟩] ∧
      be32 mem 38 = seq.toNat ∧ be32 mem 42 = ack.toNat ∧ mem 47 = flags ∧ Holds mem 54 data := by
  simp only [tcpHeader, holds_append, holds_cons, List.length_append, bytes16_length, bytes32_length,
    hsum, List.length_cons, List.length_nil, Nat.reduceAdd] at hholds
  obtain ⟨⟨⟨⟨⟨⟨⟨hsport, hdport⟩, hseq⟩, hack⟩, hres, hflags, -⟩, -⟩, -⟩, -, hdata⟩ := hholds
  refine ⟨?_, be32_of_holds hseq seq.isLt, be32_of_holds hack ack.isLt, hflags, hdata⟩
  have hsport' := be16_of_holds hsport srcPort.isLt
  have hdport' := be16_of_holds hdport dstPort.isLt
  -- the segment is sent without options
  have hheader : (mem 46).toNat / 16 * 4 = 20 := by
    rw [hres]
    rfl
  simp only [netHandleTcp, Nat.reduceAdd, hheader, hsport', hdport', hbind, hsrc]
  rw [if_neg (by omega), if_neg (by omega), Nat.add_sub_cancel_left]

theorem udpHeader_length (srcPort dstPort : BitVec 16) (data : List Byte) :
    (udpHeader srcPort dstPort (8 + data.length) ++ data).length = 8 + data.length := by
  simp only [udpHeader, List.length_append, bytes16_length, List.length_cons, List.length_nil]

/-- The frame `net_send_udp` sends, around its datagram. -/
theorem netSendUdp_sent {destMac : Mac} (hdest : udpTargetMac net targetIp = some destMac)
    (srcPort dstPort : BitVec 16) (hfit : 42 + data.length ≤ 2048) :
    ∃ checksum : List Byte, checksum.length = 2 ∧
      (netSendUdp net targetIp srcPort dstPort data).2 =
        [.send (destMac.toList ++ net.myMac.toList ++ bytes16 0x0800 ++
          (ipv4Header net.myIp targetIp 17 (20 + (8 + data.length)) checksum ++
            (udpHeader srcPort dstPort (8 + data.length) ++ data)))] := by
  have hlength := udpHeader_length srcPort dstPort data
  obtain ⟨checksum, hsum, hframe⟩ := netSendIpv4_frame net targetIp destMac 17
    (udpHeader srcPort dstPort (8 + data.length) ++ data) (by omega)
  rw [hlength] at hframe
  have htake : List.take (8 + data.length) (bytes16 srcPort.toNat ++ bytes16 dstPort.toNat ++
      bytes16 (8 + data.length) ++ [0#8, 0#8] ++ data) =
        udpHeader srcPort dstPort (8 + data.length) ++ data :=
    List.take_of_length_le (Nat.le_of_eq hlength)
  refine ⟨checksum, hsum, ?_⟩
  rw [netSendUdp, hdest, Nat.mod_eq_of_lt (by omega), ← hframe]
  dsimp only
  rw [htake]

/-- A host in the cache has a link address. -/
theorem netSendUdp_frame (hres : arpLookup net.arpCache targetIp = some targetMac)
    (srcPort dstPort : BitVec 16) (hfit : 42 + data.length ≤ 2048) :
    ∃ (destMac : Mac) (checksum : List Byte), checksum.length = 2 ∧
      (netSendUdp net targetIp srcPort dstPort data).2 =
        [.send (destMac.toList ++ net.myMac.toList ++ bytes16 0x0800 ++
          (ipv4Header net.myIp targetIp 17 (20 + (8 + data.length)) checksum ++
            (udpHeader srcPort dstPort (8 + data.length) ++ data)))] := by
  obtain ⟨destMac, hdest⟩ : ∃ destMac, udpTargetMac net targetIp = some destMac := by
    unfold udpTargetMac
    split
    · exact ⟨_, rfl⟩
    · exact ⟨_, hres⟩
  exact ⟨destMac, netSendUdp_sent hdest srcPort dstPort hfit⟩

theorem tcpSegment_length (srcPort dstPort : BitVec 16) (seq ack : BitVec 32) (flags : Byte)
    (data checksum : List Byte) (hsum : checksum.length = 2) :
    (tcpHeader srcPort dstPort seq ack flags ++ checksum ++ ([0#8, 0#8] ++ data)).length =
      20 + data.length := by
  simp only [tcpHeader, List.length_append, bytes16_length, bytes32_length, hsum, List.length_cons,
    List.length_nil]
  omega

/-- The frame `net_send_tcp` sends, around its segment. -/
theorem netSendTcpTo_sent (net : Net) (targetIp : Ipv4) (targetMac : Mac)
    (srcPort dstPort : BitVec 16) (seq ack : BitVec 32) (flags : Byte)
    (hfit : 54 + data.length ≤ 2048) :
    ∃ checksum checksum' : List Byte, checksum.length = 2 ∧ checksum'.length = 2 ∧
      (netSendTcpTo net targetIp targetMac srcPort dstPort seq ack flags data).2 =
        .send (targetMac.toList ++ net.myMac.toList ++ bytes16 0x0800 ++
          (ipv4Header net.myIp targetIp 6 (20 + (20 + data.length)) checksum ++
            (tcpHeader srcPort dstPort seq ack flags ++ checksum' ++ ([0#8, 0#8] ++ data)))) := by
  obtain ⟨checksum', hsum', hsegment⟩ :=
    netSendTcpTo_segment net targetIp targetMac srcPort dstPort seq ack flags data (by omega)
  obtain ⟨checksum, hsum, hframe⟩ := netSendIpv4_frame net targetIp targetMac 6
    (tcpHeader srcPort dstPort seq ack flags ++ checksum' ++ ([0#8, 0#8] ++ data))
    (by rw [tcpSegment_length _ _ _ _ _ _ _ hsum']; omega)
  rw [tcpSegment_length _ _ _ _ _ _ _ hsum', ← hsegment] at hframe
  exact ⟨checksum, checksum', hsum, hsum', hframe⟩

/-- A host in the cache has a link address. -/
theorem netSendTcp_frame (hres : arpLookup net.arpCache targetIp = some targetMac)
    (srcPort dstPort : BitVec 16) (seq ack : BitVec 32) (flags : Byte)
    (hfit : 54 + data.length ≤ 2048) :
    ∃ (sent : Net × NetAction) (checksum checksum' : List Byte), checksum.length = 2 ∧
      checksum'.length = 2 ∧
      netSendTcp net targetIp srcPort dstPort seq ack flags data = some sent ∧
      sent.2 = .send (targetMac.toList ++ net.myMac.toList ++ bytes16 0x0800 ++
        (ipv4Header net.myIp targetIp 6 (20 + (20 + data.length)) checksum ++
          (tcpHeader srcPort dstPort seq ack flags ++ checksum' ++ ([0#8, 0#8] ++ data)))) := by
  obtain ⟨checksum, checksum', hsum, hsum', hframe⟩ :=
    netSendTcpTo_sent net targetIp targetMac srcPort dstPort seq ack flags hfit
  refine ⟨_, checksum, checksum', hsum, hsum', ?_, hframe⟩
  rw [netSendTcp, hres, Option.map_some]

theorem netSendUdp_length (hres : arpLookup net.arpCache targetIp = some targetMac)
    (hfit : 42 + data.length ≤ 2048) {frame : List Byte}
    (hsend : (netSendUdp net targetIp srcPort dstPort data).2 = [.send frame]) :
    frame.length = 42 + data.length := by
  obtain ⟨destMac, checksum, hsum, hframe⟩ := netSendUdp_frame hres srcPort dstPort hfit
  rw [hframe] at hsend
  injection hsend with hsend
  injection hsend with hsend
  rw [← hsend, ipv4Frame_length hsum, udpHeader_length]
  omega

theorem netSendTcp_length (hres : arpLookup net.arpCache targetIp = some targetMac)
    (hfit : 54 + data.length ≤ 2048) {sent : Net × NetAction} {frame : List Byte}
    (hsend : netSendTcp net targetIp srcPort dstPort seq ack flags data = some sent)
    (hframe : sent.2 = .send frame) : frame.length = 54 + data.length := by
  obtain ⟨sent', checksum, checksum', hsum, hsum', hsend', hframe'⟩ :=
    netSendTcp_frame hres srcPort dstPort seq ack flags hfit
  obtain rfl := Option.some.inj (hsend.symm.trans hsend')
  injection hframe'.symm.trans hframe with hframe
  rw [← hframe, ipv4Frame_length hsum, tcpSegment_length _ _ _ _ _ _ _ hsum']
  omega

/-- **What is sent is delivered, once and the same.** A datagram or a segment that one host sends to
another is given there to the handler bound to its port, with the sender's address, the ports, the
header fields and the payload. -/
theorem netSend_roundTrip (hres : arpLookup net.arpCache targetIp = some targetMac)
    (hip : net'.myIp = targetIp) (srcPort dstPort : BitVec 16) (data : List Byte) :
    (∀ b, findBinding net'.udpBindings dstPort.toNat = some b → 42 + data.length ≤ 2048 →
      ∃ frame, (netSendUdp net targetIp srcPort dstPort data).2 = [.send frame] ∧
        ∀ mem len, Received frame mem len → ∃ payload : Slice,
          deliveries (netHandlePacket net' mem len).2 =
            [.deliverUdp b.handler net.myIp srcPort.toNat dstPort.toNat payload] ∧
          payload.len = data.length ∧ readBytes mem payload.start payload.len = data) ∧
    (∀ b seq ack flags, findBinding net'.tcpBindings dstPort.toNat = some b →
      54 + data.length ≤ 2048 →
      ∃ sent frame, netSendTcp net targetIp srcPort dstPort seq ack flags data = some sent ∧
        sent.2 = .send frame ∧
        ∀ mem len, Received frame mem len → ∃ tcp payload : Slice,
          deliveries (netHandlePacket net' mem len).2 =
            [.deliverTcp b.handler net.myIp srcPort.toNat dstPort.toNat tcp payload] ∧
          be32 mem (tcp.start + 4) = seq.toNat ∧ be32 mem (tcp.start + 8) = ack.toNat ∧
          mem (tcp.start + 13) = flags ∧
          payload.len = data.length ∧ readBytes mem payload.start payload.len = data) := by
  -- both halves: what is sent, that the frame holds it, and what the other side reads there
  subst hip
  constructor
  · intro b hbind hfit
    obtain ⟨destMac, checksum, hsum, hsend⟩ := netSendUdp_frame hres srcPort dstPort hfit
    refine ⟨_, hsend, fun mem len hrec => ⟨⟨42, data.length⟩, ?_⟩⟩
    have hlength := udpHeader_length srcPort dstPort data
    have hipv4 := Ipv4Frame.of_holds hsum hlength (by omega) (holds_of_forall hrec.bytes)
    obtain ⟨after, hudp, -, hhandle⟩ :=
      netHandlePacket_ipv4 hipv4 (ipv4Frame_length hsum _ ▸ hrec.length) (Or.inl rfl)
    rw [if_pos rfl, hlength] at hhandle
    obtain ⟨hdeliver, hdata⟩ := netHandleUdp_deliver hipv4.srcIp (hudp.symm ▸ hbind)
      (by omega) hipv4.data
    rw [hhandle, hdeliver]
    exact ⟨rfl, rfl, hdata.map_range⟩
  -- TCP has a second checksum, over the segment
  · intro b seq ack flags hbind hfit
    obtain ⟨sent, checksum, checksum', hsum, hsum', hsend, hframe⟩ :=
      netSendTcp_frame hres srcPort dstPort seq ack flags hfit
    refine ⟨sent, _, hsend, hframe, fun mem len hrec => ⟨⟨34, 20⟩, ⟨54, data.length⟩, ?_⟩⟩
    have hlength := tcpSegment_length srcPort dstPort seq ack flags data checksum' hsum'
    have hipv4 := Ipv4Frame.of_holds hsum hlength (by omega) (holds_of_forall hrec.bytes)
    obtain ⟨after, -, htcp, hhandle⟩ :=
      netHandlePacket_ipv4 hipv4 (ipv4Frame_length hsum _ ▸ hrec.length) (Or.inr rfl)
    rw [if_neg (by decide), hlength] at hhandle
    obtain ⟨hdeliver, hseq, hack, hflags, hdata⟩ :=
      netHandleTcp_deliver hipv4.srcIp (htcp.symm ▸ hbind) hsum' hipv4.data
    rw [hhandle, hdeliver]
    exact ⟨rfl, hseq, hack, hflags, rfl, hdata.map_range⟩

end Transport

/-! ## Two hosts -/

/-- A host that knows the link address of another, with a handler for one port. -/
def demoHost (myIp peerIp : Ipv4) : Net where
  myIp := myIp
  myMac := Vector.replicate 6 0x52#8
  arpCache := [⟨peerIp, Vector.replicate 6 0x54#8, true⟩]
  udpBindings := [⟨7000, 1, true⟩]
  tcpBindings := [⟨7000, 2, true⟩]
  rxPacketCount := 0
  txPacketCount := 0

/-- The frame of the first action. -/
def sentFrame : List NetAction → List Byte
  | .send frame :: _ => frame
  | _ => []

theorem received_padded (frame : List Byte) (len : BitVec 16) (h : frame.length ≤ len.toNat)
    (hfits : len.toNat ≤ 2048) : Received frame (fun i => frame.getD i 0) len :=
  ⟨fun i hi => by rw [List.getD_eq_getElem?_getD, List.getElem?_eq_getElem hi, Option.getD_some],
    h, hfits⟩

/-- A datagram of three bytes, padded to 64 bytes, and a segment of none. -/
theorem netSend_roundTrip_demo :
    let net := demoHost #v[10, 0, 2, 15] #v[10, 0, 2, 2]
    let net' := demoHost #v[10, 0, 2, 2] #v[10, 0, 2, 15]
    (∃ mem payload,
      Received (sentFrame (netSendUdp net net'.myIp 5000 7000 [1, 2, 3]).2) mem 64 ∧
      deliveries (netHandlePacket net' mem 64).2 = [.deliverUdp 1 net.myIp 5000 7000 payload] ∧
      readBytes mem payload.start payload.len = [1, 2, 3]) ∧
    (∃ sent mem tcp payload, netSendTcp net net'.myIp 5000 7000 7 9 0x10 [] = some sent ∧
      Received (sentFrame [sent.2]) mem 64 ∧
      deliveries (netHandlePacket net' mem 64).2 = [.deliverTcp 2 net.myIp 5000 7000 tcp payload] ∧
      be32 mem (tcp.start + 4) = 7 ∧ readBytes mem payload.start payload.len = []) := by
  intro net net'
  have hres : arpLookup net.arpCache net'.myIp = some (Vector.replicate 6 0x54#8) := by decide
  constructor
  · obtain ⟨frame, hsend, hdeliver⟩ :=
      (netSend_roundTrip hres rfl 5000 7000 [1, 2, 3]).1 ⟨7000, 1, true⟩ (by rfl) (by decide)
    have hlength := netSendUdp_length hres (by decide) hsend
    have hrec := received_padded frame 64 (by rw [hlength]; decide) (by decide)
    obtain ⟨payload, hdeliveries, -, hbytes⟩ := hdeliver _ _ hrec
    refine ⟨fun i => frame.getD i 0, payload, ?_, hdeliveries, hbytes⟩
    rw [hsend]
    exact hrec
  · obtain ⟨sent, frame, hsend, hframe, hdeliver⟩ :=
      (netSend_roundTrip hres rfl 5000 7000 []).2 ⟨7000, 2, true⟩ 7 9 0x10 (by rfl) (by decide)
    have hlength := netSendTcp_length hres (by decide) hsend hframe
    have hrec := received_padded frame 64 (by rw [hlength]; decide) (by decide)
    obtain ⟨tcp, payload, hdeliveries, hseq, -, -, -, hbytes⟩ := hdeliver _ _ hrec
    refine ⟨sent, fun i => frame.getD i 0, tcp, payload, hsend, ?_, hdeliveries, hseq, hbytes⟩
    rw [hframe]
    exact hrec

end ZohoOs
