import ZohoOs.Net.Checksum

/-!
# Echo replies

An echo request that reaches the host is answered by one frame, to where it came from. The reply is
the request, but for its type and its checksum.

## Main definitions

* `EchoRequest`: a frame that carries an echo request to the host
* `sentFrames`: the frames a handler sends

## Main results

* `netHandleIcmp_reply`: the reply to a request
* `netHandlePacket_echo`: a request is answered once, with checksums that check
-/

namespace ZohoOs

/-- The frames a handler sends. -/
def sentFrames (actions : List NetAction) : List (List Byte) :=
  actions.filterMap fun
    | .send frame => some frame
    | _ => none

/-- A received frame with an IPv4 packet, its length fields consistent, that carries an echo request
to the host. The reply fits the buffer of a descriptor. -/
structure EchoRequest (net : Net) (mem : Buffer) (len : BitVec 16) : Prop where
  type : be16 mem 12 = 0x0800
  header : 5 ≤ (mem 14).toNat % 16
  message : ipHeaderLen mem 14 + 8 ≤ be16 mem 16
  total : 14 + be16 mem 16 ≤ len.toNat
  proto : mem 23 = 1#8
  dstIp : readArray mem 30 4 = net.myIp
  echo : mem (14 + ipHeaderLen mem 14) = 8#8
  fits : 34 + (be16 mem 16 - ipHeaderLen mem 14) ≤ 2048

section Echo

variable {net : Net} {mem : Buffer} {len : BitVec 16}

theorem readBytes_length (mem : Buffer) (off n : Nat) : (readBytes mem off n).length = n := by
  rw [readBytes, List.length_map, List.length_range]

/-! ## The reply -/

/-- The reply `net_handle_icmp` makes of a request. -/
def echoReply (request : List Byte) : List Byte :=
  let reply := patch (patch request 0 [0#8]) 2 [0#8, 0#8]
  patch reply 2 (netChecksum reply)

/-- The reply is the request, but for its type and its checksum, which checks. -/
theorem echoReply_spec {request : List Byte} (hlen : 4 ≤ request.length)
    (hfits : request.length ≤ 2 ^ 17) :
    (echoReply request).length = request.length ∧ (echoReply request)[0]? = some 0#8 ∧
      (∀ i, i ≠ 0 → i ≠ 2 → i ≠ 3 → (echoReply request)[i]? = request[i]?) ∧
      netChecksum (echoReply request) = [0#8, 0#8] := by
  obtain ⟨type, code, c₀, c₁, rest, rfl⟩ :
      ∃ type code c₀ c₁ rest, request = type :: code :: c₀ :: c₁ :: rest := by
    match request, hlen with
    | type :: code :: c₀ :: c₁ :: rest, _ => exact ⟨type, code, c₀, c₁, rest, rfl⟩
  have hreply : echoReply (type :: code :: c₀ :: c₁ :: rest) =
      [0#8, code] ++ netChecksum ([0#8, code] ++ [0#8, 0#8] ++ rest) ++ rest := rfl
  rw [hreply]
  refine ⟨rfl, rfl, ?_, ?_⟩
  · intro i h₀ h₂ h₃
    match i, h₀, h₂, h₃ with
    | 1, _, _, _ => rfl
    | i + 4, _, _, _ => rfl
  · apply netChecksum_append
    · exact Nat.mod_self 2
    · exact hfits

/-- The header `net_send_ipv4` writes checks. -/
theorem ipv4Header_check (srcIp dstIp : Ipv4) (proto totalLen : Nat) :
    netChecksum (ipv4Header srcIp dstIp proto totalLen
      (netChecksum (ipv4Header srcIp dstIp proto totalLen [0#8, 0#8]))) = [0#8, 0#8] := by
  have hlength : (ipv4Header srcIp dstIp proto totalLen [0#8, 0#8]).length = 20 :=
    ipv4Header_length rfl
  apply netChecksum_append
  · simp only [List.length_append, bytes16_length, List.length_cons, List.length_nil]
  · exact hlength.trans_le (by decide)

/-! ## The way through the stack -/

/-- `net_handle_icmp` answers a request. -/
theorem netHandleIcmp_reply (srcMac : Mac) (ip data n : Nat) (hlen : 8 ≤ n) (hfits : 34 + n < 2 ^ 16)
    (hecho : mem data = 8#8) :
    sentFrames (netHandleIcmp net mem srcMac ip data n).2 =
      [srcMac.toList ++ net.myMac.toList ++ bytes16 0x0800 ++
        (ipv4Header net.myIp (readArray mem (ip + 12) 4) 1 (20 + n)
          (netChecksum (ipv4Header net.myIp (readArray mem (ip + 12) 4) 1 (20 + n) [0#8, 0#8])) ++
            echoReply (readBytes mem data n))] := by
  have hrequest := readBytes_length mem data n
  have hreply : (echoReply (readBytes mem data n)).length = n :=
    (echoReply_spec (by omega) (by omega)).1.trans hrequest
  have hsend := netSendIpv4_header net (readArray mem (ip + 12) 4) srcMac 1
    (echoReply (readBytes mem data n)) (by omega)
  rw [hreply] at hsend
  unfold netHandleIcmp
  rw [if_neg (by omega), if_pos hecho]
  simp only [sentFrames, List.filterMap_cons, List.filterMap_nil]
  rw [← echoReply, hsend]

/-- `net_handle_ipv4` hands a message that is addressed to the host to `net_handle_icmp`. -/
theorem netHandleIpv4_icmp {srcMac : Mac} {data n : Nat} (hlen : 20 ≤ n)
    (hdst : readArray mem (data + 16) 4 = net.myIp) (hproto : mem (data + 9) = 1#8)
    (htotal : ipHeaderLen mem data ≤ be16 mem (data + 2)) :
    sentFrames (netHandleIpv4 net mem srcMac data n).2 =
      sentFrames (netHandleIcmp net mem srcMac data (data + ipHeaderLen mem data)
        (be16 mem (data + 2) - ipHeaderLen mem data)).2 := by
  have hlt := be16_lt mem (data + 2)
  have hpayload : (be16 mem (data + 2) + 2 ^ 16 - ipHeaderLen mem data) % 2 ^ 16 =
      be16 mem (data + 2) - ipHeaderLen mem data := by
    omega
  have hproto' : (mem (data + 9)).toNat = 1 := by
    rw [hproto]
    rfl
  unfold netHandleIpv4
  rw [if_neg (Nat.not_lt.mpr hlen)]
  dsimp only
  rw [if_neg fun hne => hne.1 hdst, if_pos hproto', hpayload]
  rfl

/-- **Echo replies mirror requests.** A request is answered by one frame, to the hardware and the
Internet address it came from. Its message is the request's but for type and checksum, and the
checksums of the header and of the message check. -/
theorem netHandlePacket_echo (h : EchoRequest net mem len) :
    let request := readBytes mem (14 + ipHeaderLen mem 14) (be16 mem 16 - ipHeaderLen mem 14)
    ∃ checksum ip icmp : List Byte,
      sentFrames (netHandlePacket net mem len).2 =
        [(readArray mem 6 6).toList ++ net.myMac.toList ++ bytes16 0x0800 ++ (ip ++ icmp)] ∧
      ip = ipv4Header net.myIp (readArray mem 26 4) 1 (20 + request.length) checksum ∧
      checksum.length = 2 ∧ netChecksum ip = [0#8, 0#8] ∧
      icmp.length = request.length ∧ icmp[0]? = some 0#8 ∧
      (∀ i, i ≠ 0 → i ≠ 2 → i ≠ 3 → icmp[i]? = request[i]?) ∧ netChecksum icmp = [0#8, 0#8] := by
  intro request
  have hmessage := h.message
  have htotal := h.total
  have hfits := h.fits
  have hrequest : request.length = be16 mem 16 - ipHeaderLen mem 14 := readBytes_length mem _ _
  have hheader : 20 ≤ ipHeaderLen mem 14 := Nat.mul_le_mul_right 4 h.header
  have hreply : 4 ≤ request.length ∧ request.length ≤ 2 ^ 17 := by omega
  obtain ⟨hlength, htype, hbytes, hcheck⟩ := echoReply_spec hreply.1 hreply.2
  refine ⟨_, _, echoReply request, ?_, rfl, netChecksum_length _, ipv4Header_check _ _ _ _,
    hlength, htype, hbytes, hcheck⟩
  -- the packet is counted first, whatever it is
  let counted : Net := { net with rxPacketCount := net.rxPacketCount + 1 }
  have hle : ipHeaderLen mem 14 ≤ be16 mem 16 := by omega
  have hicmp : sentFrames (netHandleIpv4 counted mem (readArray mem 6 6) 14 (len.toNat - 14)).2 =
      sentFrames (netHandleIcmp counted mem (readArray mem 6 6) 14 (14 + ipHeaderLen mem 14)
        (be16 mem 16 - ipHeaderLen mem 14)).2 :=
    netHandleIpv4_icmp (by omega) h.dstIp h.proto hle
  -- the rest is what the reply reads of the request
  rw [netHandlePacket_of_ipv4 h.type (by omega), hicmp, hrequest]
  apply netHandleIcmp_reply
  · omega
  · omega
  · exact h.echo

/-- A request of nine bytes behind a header with one word of options. -/
def demoRequest : Buffer := fun i =>
  ((List.replicate 6 0x52#8 ++ List.replicate 6 0x54#8 ++ bytes16 0x0800 ++
    [0x46#8, 0#8] ++ bytes16 33 ++ [0, 0, 0, 0, 64, 1, 0, 0] ++ [10, 0, 2, 2] ++ [10, 0, 2, 15] ++
    [1, 1, 1, 1] ++ [8, 0, 0x12, 0x34, 7, 7, 0, 1, 0xff]).getD i 0)

theorem netHandlePacket_echo_options :
    ∃ front icmp : List Byte, sentFrames (netHandlePacket (demoHost #v[10, 0, 2, 15] #v[10, 0, 2, 2])
        demoRequest 60).2 = [front ++ icmp] ∧
      icmp.length = 9 ∧ icmp[0]? = some 0 ∧ icmp[8]? = some 0xff ∧ netChecksum icmp = [0, 0] := by
  have h : EchoRequest (demoHost #v[10, 0, 2, 15] #v[10, 0, 2, 2]) demoRequest 60 := by
    constructor <;> decide
  obtain ⟨_, ip, icmp, hsent, -, -, -, hlength, htype, hbytes, hcheck⟩ := netHandlePacket_echo h
  have hlast : icmp[8]? = some 0xff := by
    rw [hbytes 8 (by decide) (by decide) (by decide)]
    rfl
  rw [← List.append_assoc] at hsent
  exact ⟨_, icmp, hsent, hlength, htype, hlast, hcheck⟩

end Echo

end ZohoOs
