import ZohoOs.Net.Send
import Mathlib.Data.List.GetD

/-!
# The DHCP client

`dhcp_handle` and `dhcp_discover`. A datagram that is built is kept as what is stored in its buffer and
the length the buffer is allocated and sent with, so that what is stored behind its end is seen.

## Main definitions

* `optionWalk`: the walk over the options of a packet
* `dhcpHandle`, `dhcpDiscover`: the handler of port 68, and the broadcast that starts an exchange
* `decodeRequest`: what the walk finds in a datagram
* `ParsesAs`: a datagram that can be parsed as a request

## Main results

* `optionWalk_ends`: the walk ends at the end of the packet or at an end option
* `decodeRequest_dhcpRequest`: what can be read of a request
* `dhcpHandle_offer_never`: no offer is answered by a request that can be parsed
* `dhcpHandle_ack`: an acknowledgement sets the address
-/

namespace ZohoOs

/-! ## Options -/

/-- The loop over the options of a packet of length `len`. A round takes two bytes or more, so that
`len` of them suffice. The result is also where the loop stops. -/
def optionWalk {α : Type} (pkt : Buffer) (len : Nat) (option : α → Byte → Nat → α) :
    Nat → Nat → α → α × Nat
  | 0, opt, acc => (acc, opt)
  | fuel + 1, opt, acc =>
    if opt < len ∧ pkt opt ≠ 255 then
      let type := pkt opt
      let optLen := pkt (opt + 1)
      optionWalk pkt len option fuel (opt + 2 + optLen.toNat) (option acc type (opt + 2))
    else (acc, opt)

section Walk

variable {α : Type} {pkt : Buffer} {len fuel opt : Nat} {option : α → Byte → Nat → α} {acc : α}

theorem optionWalk_next (h : opt < len) (hend : pkt opt ≠ 255) :
    optionWalk pkt len option (fuel + 1) opt acc =
      optionWalk pkt len option fuel (opt + 2 + (pkt (opt + 1)).toNat)
        (option acc (pkt opt) (opt + 2)) := by
  rw [optionWalk, if_pos ⟨h, hend⟩]

theorem optionWalk_stop (h : ¬ (opt < len ∧ pkt opt ≠ 255)) :
    optionWalk pkt len option fuel opt acc = (acc, opt) := by
  cases fuel with
  | zero => rfl
  | succ fuel => rw [optionWalk, if_neg h]

/-- **Where the walk ends**: at the end of the packet, or at an end option in it. -/
theorem optionWalk_ends (pkt : Buffer) (len : Nat) (option : α → Byte → Nat → α) {fuel opt : Nat}
    (acc : α) (hfuel : len ≤ opt + fuel) :
    len ≤ (optionWalk pkt len option fuel opt acc).2 ∨
      pkt (optionWalk pkt len option fuel opt acc).2 = 255 := by
  induction fuel generalizing opt acc with
  | zero => exact Or.inl hfuel
  | succ fuel ih =>
    by_cases hgo : opt < len ∧ pkt opt ≠ 255
    · rw [optionWalk_next hgo.1 hgo.2]
      exact ih _ (by omega)
    · rw [optionWalk_stop hgo]
      by_cases hlt : opt < len
      · right
        by_contra hne
        exact hgo ⟨hlt, hne⟩
      · exact Or.inl (Nat.le_of_not_lt hlt)

end Walk

/-! ## Buffers -/

/-- Bytes that are stored at an offset of a buffer. -/
structure Store where
  off : Nat
  bytes : List Byte

/-- Memory after a store. -/
def Store.apply (mem : Buffer) (st : Store) : Buffer := fun i =>
  if st.off ≤ i ∧ i < st.off + st.bytes.length then st.bytes.getD (i - st.off) 0 else mem i

/-- A call of `net_send_udp`, with the buffer it is given: the length of the buffer, as it is allocated
and sent, and what is stored in it. -/
structure UdpSend where
  targetIp : Ipv4
  srcPort : BitVec 16
  dstPort : BitVec 16
  len : Nat
  stores : List Store

/-- The datagram, where the buffer lies in this memory. -/
def UdpSend.data (send : UdpSend) (heap : Buffer) : List Byte :=
  readBytes (send.stores.foldl Store.apply heap) 0 send.len

/-- Nothing is stored behind the end of the buffer. -/
def UdpSend.InBounds (send : UdpSend) : Prop :=
  ∀ st ∈ send.stores, st.off + st.bytes.length ≤ send.len

/-! ## The client -/

/-- `dhcp_xid`. -/
def dhcpXid : Nat := 0x12345678

/-- `DHCP_MAGIC_COOKIE`. -/
def dhcpMagicCookie : Nat := 0x63825363

/-- The state of the client, and of the stack it sends through. -/
structure Dhcp where
  net : Net
  /-- What `e1000_get_mac` reads. -/
  mac : Mac
  offeredIp : Ipv4
  serverIp : Ipv4

/-- A round of the loop of `dhcp_handle`: the message type, and the server. -/
def dhcpOption (pkt : Buffer) (acc : Byte × Ipv4) (type : Byte) (opt : Nat) : Byte × Ipv4 :=
  if type = 53 then (pkt opt, acc.2)
  else if type = 54 then (acc.1, readArray pkt opt 4)
  else acc

/-- The header that `dhcp_discover` and `dhcp_handle` store in a buffer they have cleared. -/
def dhcpHeader (d : Dhcp) (totalLen : Nat) (flags : List Store) : List Store :=
  [⟨0, List.replicate totalLen 0⟩, ⟨0, [1]⟩, ⟨1, [1]⟩, ⟨2, [6]⟩, ⟨4, bytes32 dhcpXid⟩,
    ⟨236, bytes32 dhcpMagicCookie⟩] ++ flags ++ [⟨28, d.mac.toList⟩]

/-- The options of a request. -/
def requestOptions (d : Dhcp) : List Byte :=
  [53, 1, 3] ++ [50, 4] ++ d.offeredIp.toList ++ [54, 4] ++ d.serverIp.toList ++ [255]

/-- The request `dhcp_handle` sends. -/
def dhcpRequest (d : Dhcp) : UdpSend where
  targetIp := broadcastIp
  srcPort := 68
  dstPort := 67
  len := 240 + 12
  stores := dhcpHeader d (240 + 12) [] ++ [⟨240, requestOptions d⟩]

/-- The message `dhcp_discover` sends. -/
def dhcpDiscoverMessage (d : Dhcp) : UdpSend where
  targetIp := broadcastIp
  srcPort := 68
  dstPort := 67
  len := 240 + 4
  stores := dhcpHeader d (240 + 4) [⟨10, bytes16 0x8000⟩] ++ [⟨240, [53, 1, 1, 255]⟩]

/-- `net_send_udp` of a buffer. -/
def Dhcp.send (heap : Buffer) (d : Dhcp) (send : UdpSend) : Dhcp × List UdpSend :=
  ({ d with net :=
      (netSendUdp d.net send.targetIp send.srcPort send.dstPort (send.data heap)).1 }, [send])

/-- `dhcp_discover`. -/
def dhcpDiscover (heap : Buffer) (d : Dhcp) : Dhcp × List UdpSend :=
  d.send heap (dhcpDiscoverMessage d)

/-- The packet is a reply to this client. -/
def dhcpAccepts (pkt : Buffer) (len : Nat) : Prop :=
  240 ≤ len ∧ pkt 0 = 2 ∧ be32 pkt 236 = dhcpMagicCookie ∧ be32 pkt 4 = dhcpXid

instance dhcpAcceptsDecidable (pkt : Buffer) (len : Nat) : Decidable (dhcpAccepts pkt len) :=
  inferInstanceAs (Decidable (_ ∧ _ ∧ _ ∧ _))

/-- What `dhcp_handle` finds in the options: the message type, and the server. -/
def dhcpOptions (d : Dhcp) (pkt : Buffer) (len : Nat) : Byte × Ipv4 :=
  (optionWalk pkt len (dhcpOption pkt) len 240 (0, d.serverIp)).1

/-- `yiaddr`. -/
def yiaddr (pkt : Buffer) : Ipv4 := readArray pkt 16 4

/-- `dhcp_handle`, on a datagram of length `len`. What lies behind it is what memory holds there. -/
def dhcpHandle (heap : Buffer) (d : Dhcp) (pkt : Buffer) (len : Nat) : Dhcp × List UdpSend :=
  if dhcpAccepts pkt len then
    let (msgType, serverIp) := dhcpOptions d pkt len
    let d := { d with serverIp := serverIp }
    if msgType = 2 then
      let d := { d with offeredIp := yiaddr pkt }
      d.send heap (dhcpRequest d)
    else if msgType = 5 then ({ d with net := { d.net with myIp := yiaddr pkt } }, [])
    else (d, [])
  else (d, [])

/-! ## Requests -/

/-- What a server reads of a request. -/
structure RequestFields where
  msgType : Byte
  requestedIp : Option Ipv4
  serverId : Option Ipv4
  deriving DecidableEq

/-- A round of the walk over a request. -/
def requestOption (data : Buffer) (acc : RequestFields) (type : Byte) (opt : Nat) : RequestFields :=
  if type = 53 then { acc with msgType := data opt }
  else if type = 50 then { acc with requestedIp := some (readArray data opt 4) }
  else if type = 54 then { acc with serverId := some (readArray data opt 4) }
  else acc

/-- **The walk over a datagram**: its fields, and where the walk stops. Bytes behind the datagram are
not there to be read, and count as zeros. -/
def decodeRequest (datagram : List Byte) : RequestFields × Nat :=
  let data : Buffer := fun i => datagram.getD i 0
  optionWalk data datagram.length (requestOption data) datagram.length 240 ⟨0, none, none⟩

/-- The datagram is a request for an address from a server: the walk finds the fields, and stops at an
end option within the datagram. -/
def ParsesAs (datagram : List Byte) (offered server : Ipv4) : Prop :=
  (decodeRequest datagram).1 = ⟨3, some offered, some server⟩ ∧
    (decodeRequest datagram).2 < datagram.length ∧
    datagram.getD (decodeRequest datagram).2 0 = 255

section Requests

variable {heap : Buffer} {d : Dhcp} {pkt : Buffer} {len : Nat}

theorem UdpSend.data_length (send : UdpSend) (heap : Buffer) : (send.data heap).length = send.len := by
  rw [UdpSend.data, readBytes, List.length_map, List.length_range]

theorem UdpSend.data_getD (send : UdpSend) (heap : Buffer) {i : Nat} (h : i < send.len) :
    (send.data heap).getD i 0 = send.stores.foldl Store.apply heap i := by
  rw [UdpSend.data, readBytes, List.getD_eq_getElem?_getD, List.getElem?_map, List.getElem?_range h,
    Option.map_some, Option.getD_some, Nat.zero_add]

theorem ipv4_toList (ip : Ipv4) : ip.toList = [ip[0], ip[1], ip[2], ip[3]] := by
  apply List.ext_getElem
  · rw [Vector.length_toList]
    rfl
  · intro i hi hi'
    rw [Vector.getElem_toList]
    match i with
    | 0 => rfl
    | 1 => rfl
    | 2 => rfl
    | 3 => rfl

/-- The options, byte by byte. -/
theorem requestOptions_eq (d : Dhcp) : requestOptions d =
    [(53 : Byte), 1, 3, 50, 4, d.offeredIp[0], d.offeredIp[1], d.offeredIp[2], d.offeredIp[3], 54, 4,
      d.serverIp[0], d.serverIp[1], d.serverIp[2], d.serverIp[3], 255] := by
  rw [requestOptions, ipv4_toList, ipv4_toList]
  rfl

/-- The options of a request, as far as they are sent. -/
theorem dhcpRequest_getD (heap : Buffer) (d : Dhcp) {k : Nat} (hk : k < 12) :
    ((dhcpRequest d).data heap).getD (240 + k) 0 = (requestOptions d).getD k 0 := by
  have hlen : (requestOptions d).length = 16 := by
    rw [requestOptions_eq]
    rfl
  have hlt : 240 + k < (dhcpRequest d).len := Nat.add_lt_add_left hk 240
  rw [UdpSend.data_getD _ heap hlt]
  unfold dhcpRequest
  rw [List.foldl_append, List.foldl_cons, List.foldl_nil, Store.apply]
  dsimp only
  rw [if_pos (by omega), Nat.add_sub_cancel_left]

/-- **What can be read of a request**: that it is one, and the address. The walk runs over the end of
the datagram, in the server's address. -/
theorem decodeRequest_dhcpRequest (heap : Buffer) (d : Dhcp) :
    (decodeRequest ((dhcpRequest d).data heap)).1.msgType = 3 ∧
      (decodeRequest ((dhcpRequest d).data heap)).1.requestedIp = some d.offeredIp ∧
      (decodeRequest ((dhcpRequest d).data heap)).2 = 255 := by
  have hlen : ((dhcpRequest d).data heap).length = 252 := UdpSend.data_length _ _
  have hbyte : ∀ k < 12, ((dhcpRequest d).data heap).getD (240 + k) 0 = (requestOptions d).getD k 0 :=
    fun k hk => dhcpRequest_getD heap d hk
  rw [requestOptions_eq] at hbyte
  unfold decodeRequest
  generalize (dhcpRequest d).data heap = datagram at *
  dsimp only
  have hip : readArray (fun i => datagram.getD i 0) 245 4 = d.offeredIp := by
    apply Vector.ext
    intro i hi
    rw [readArray, Vector.getElem_ofFn]
    match i with
    | 0 => exact hbyte 5 (by decide)
    | 1 => exact hbyte 6 (by decide)
    | 2 => exact hbyte 7 (by decide)
    | 3 => exact hbyte 8 (by decide)
  have h0 : datagram.getD 240 0 = 53 := hbyte 0 (by decide)
  have h1 : datagram.getD 241 0 = 1 := hbyte 1 (by decide)
  have h2 : datagram.getD 242 0 = 3 := hbyte 2 (by decide)
  have h3 : datagram.getD 243 0 = 50 := hbyte 3 (by decide)
  have h4 : datagram.getD 244 0 = 4 := hbyte 4 (by decide)
  have h9 : datagram.getD 249 0 = 54 := hbyte 9 (by decide)
  have h10 : datagram.getD 250 0 = 4 := hbyte 10 (by decide)
  -- three options, and the walk stops behind the end
  have hwalk : optionWalk (fun i => datagram.getD i 0) 252 (requestOption fun i => datagram.getD i 0)
      252 240 ⟨0, none, none⟩ =
        (⟨3, some d.offeredIp, some (readArray (fun i => datagram.getD i 0) 251 4)⟩, 255) := by
    rw [optionWalk_next (by decide) (by rw [h0]; decide), h0, h1]
    rw [show 240 + 2 + (1 : Byte).toNat = 243 from rfl,
      optionWalk_next (by decide) (by rw [h3]; decide), h3, h4]
    rw [show 243 + 2 + (4 : Byte).toNat = 249 from rfl,
      optionWalk_next (by decide) (by rw [h9]; decide), h9, h10]
    rw [show 249 + 2 + (4 : Byte).toNat = 255 from rfl, optionWalk_stop fun h => absurd h.1 (by decide)]
    simp only [requestOption, ← hip, ← h2]
    rfl
  rw [hlen, hwalk]
  exact ⟨rfl, rfl, rfl⟩

theorem dhcpRequest_not_parses (heap : Buffer) (d : Dhcp) (offered server : Ipv4) :
    ¬ ParsesAs ((dhcpRequest d).data heap) offered server := by
  rintro ⟨-, hend, -⟩
  rw [(decodeRequest_dhcpRequest heap d).2.2, UdpSend.data_length] at hend
  exact absurd (show 255 < 252 from hend) (by decide)

theorem dhcpRequest_not_inBounds (d : Dhcp) : ¬ (dhcpRequest d).InBounds := by
  intro h
  have hoptions : 240 + (requestOptions d).length ≤ 240 + 12 :=
    h ⟨240, requestOptions d⟩ (List.mem_append_right _ (List.mem_singleton_self _))
  rw [requestOptions_eq] at hoptions
  exact absurd (show 256 ≤ 252 from hoptions) (by decide)

/-- The message of `dhcp_discover` has room for its options. -/
theorem dhcpDiscoverMessage_inBounds (d : Dhcp) : (dhcpDiscoverMessage d).InBounds := by
  intro st hst
  show _ ≤ 244
  simp only [dhcpDiscoverMessage, dhcpHeader, List.cons_append, List.nil_append, List.mem_cons,
    List.not_mem_nil, or_false] at hst
  rcases hst with rfl | rfl | rfl | rfl | rfl | rfl | rfl | rfl | rfl
  · have hlen : (List.replicate (240 + 4) (0 : Byte)).length = 240 + 4 := List.length_replicate
    dsimp only
    omega
  · show 1 ≤ 244
    decide
  · show 2 ≤ 244
    decide
  · show 3 ≤ 244
    decide
  · show 8 ≤ 244
    decide
  · show 240 ≤ 244
    decide
  · show 12 ≤ 244
    decide
  · dsimp only
    rw [Vector.length_toList]
    decide
  · show 244 ≤ 244
    decide

end Requests

/-! ## The handler -/

section Handler

variable {heap : Buffer} {d : Dhcp} {pkt : Buffer} {len : Nat}

/-- An offer is answered. -/
theorem dhcpHandle_offer (h : dhcpAccepts pkt len) (htype : (dhcpOptions d pkt len).1 = 2) :
    dhcpHandle heap d pkt len =
      Dhcp.send heap { d with serverIp := (dhcpOptions d pkt len).2, offeredIp := yiaddr pkt }
        (dhcpRequest { d with serverIp := (dhcpOptions d pkt len).2, offeredIp := yiaddr pkt }) := by
  unfold dhcpHandle
  rw [if_pos h]
  dsimp only
  rw [if_pos htype]

/-- An acknowledgement sets the address. -/
theorem dhcpHandle_ack (h : dhcpAccepts pkt len) (htype : (dhcpOptions d pkt len).1 = 5) :
    (dhcpHandle heap d pkt len).1.net.myIp = yiaddr pkt ∧ (dhcpHandle heap d pkt len).2 = [] := by
  unfold dhcpHandle
  rw [if_pos h]
  dsimp only
  rw [htype, if_neg (by decide), if_pos rfl]
  exact ⟨rfl, rfl⟩

/-- **No offer is answered by a request that can be parsed**: the walk over it finds no end option
within the datagram, and the last options are stored behind the end of the buffer. -/
theorem dhcpHandle_offer_never (h : dhcpAccepts pkt len) (htype : (dhcpOptions d pkt len).1 = 2) :
    ∃ send, (dhcpHandle heap d pkt len).2 = [send] ∧
      ¬ ParsesAs (send.data heap) (yiaddr pkt) (dhcpOptions d pkt len).2 ∧ ¬ send.InBounds := by
  rw [dhcpHandle_offer h htype]
  exact ⟨_, rfl, dhcpRequest_not_parses heap _ _ _, dhcpRequest_not_inBounds _⟩

/-- A reply of this type to the client, which names the address 10.0.2.16 and the server 10.0.2.2. -/
def sampleReply (type : Byte) : Buffer := fun i =>
  match i with
  | 0 => 2
  | 4 => 0x12 | 5 => 0x34 | 6 => 0x56 | 7 => 0x78
  | 16 => 10 | 17 => 0 | 18 => 2 | 19 => 16
  | 236 => 0x63 | 237 => 0x82 | 238 => 0x53 | 239 => 0x63
  | 240 => 53 | 241 => 1 | 242 => type
  | 243 => 54 | 244 => 4 | 245 => 10 | 246 => 0 | 247 => 2 | 248 => 2
  | 249 => 255
  | _ => 0

/-- The client after the boot, with the address `net.c` starts with. -/
def bootDhcp : Dhcp where
  net := ⟨bootIp, Vector.replicate 6 0, [], [], [], 0, 0⟩
  mac := Vector.replicate 6 0
  offeredIp := Vector.replicate 4 0
  serverIp := Vector.replicate 4 0

theorem sampleReply_accepted (type : Byte) : dhcpAccepts (sampleReply type) 250 := by
  refine ⟨by decide, rfl, ?_, ?_⟩
  · simp [be32, be16, sampleReply, dhcpMagicCookie]
  · simp [be32, be16, sampleReply, dhcpXid]

theorem dhcpHandle_offer_never_sample : ∃ send,
    (dhcpHandle (fun _ => 0) bootDhcp (sampleReply 2) 250).2 = [send] ∧
      ¬ ParsesAs (send.data fun _ => 0) (yiaddr (sampleReply 2))
        (dhcpOptions bootDhcp (sampleReply 2) 250).2 ∧ ¬ send.InBounds :=
  dhcpHandle_offer_never (sampleReply_accepted 2) (by decide)

/-- **The request for 10.0.2.16 cannot be parsed**, and runs over its buffer. -/
theorem dhcpHandle_unparsed : ∃ send,
    (dhcpHandle (fun _ => 0) bootDhcp (sampleReply 2) 250).2 = [send] ∧
      (dhcpOptions bootDhcp (sampleReply 2) 250).2 = #v[10, 0, 2, 2] ∧
      ¬ ParsesAs (send.data fun _ => 0) #v[10, 0, 2, 16] #v[10, 0, 2, 2] ∧ ¬ send.InBounds := by
  rw [dhcpHandle_offer (sampleReply_accepted 2) (by decide)]
  exact ⟨_, rfl, by decide +kernel, dhcpRequest_not_parses _ _ _ _, dhcpRequest_not_inBounds _⟩

end Handler

end ZohoOs
