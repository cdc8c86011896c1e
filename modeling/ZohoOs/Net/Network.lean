import ZohoOs.Lib.TransitionSystem
import ZohoOs.Net.ArpCache
import ZohoOs.Net.Echo

/-!
# A network of hosts

Hosts that all run this stack, on one link. Applications make the calls of `net.h`, and the frames they send
go to every other host, which takes them whatever their destination is. The link may lose, duplicate and
reorder frames, and pad them. What a bound handler sends counts as a call of the application.

However the steps are interleaved, a host never finds an address in its cache that is not the one of its
owner; and the answers the stack itself gives are not answered in turn.

## Main definitions

* `SendCall`, `SendCall.exec`: the calls of applications
* `Network`, `NetworkStep`: the hosts and the frames on their way, and what may happen next
* `Genuine`: a frame that says the truth about its addresses
* `Network.load`: the frames that can still come, if no application sends

## Main results

* `netHandlePacket_genuine`: what a host makes of a genuine frame
* `arp_resolves`: a request and its answer
* `network_genuine`: the addresses in caches and frames, in any run
* `network_settles`: without further calls the network falls silent
-/

namespace ZohoOs

open TransitionSystem Layout

/-! ## Applications -/

/-- The echo request of `net_ping`. -/
def pingRequest : List Byte :=
  let req := [8#8, 0#8, 0#8, 0#8] ++ bytes16 0x1234 ++ bytes16 1
  patch req 2 (netChecksum req)

/-- `net_ping`, if the cache has the link address. -/
def netPing (net : Net) (targetIp : Ipv4) : Option (Net × NetAction) :=
  (arpLookup net.arpCache targetIp).map fun targetMac => netSendIpv4 net targetIp targetMac 1 pingRequest

/-- The calls of an application. One that finds no link address asks for it, which is a call of its own, and
tries again later. -/
inductive SendCall
  | arpRequest (targetIp : Ipv4)
  | udp (targetIp : Ipv4) (srcPort dstPort : BitVec 16) (data : List Byte)
  | tcp (targetIp : Ipv4) (srcPort dstPort : BitVec 16) (seq ack : BitVec 32) (flags : Byte)
    (data : List Byte)
  | ping (targetIp : Ipv4)

/-- The frame fits the buffer of a descriptor. -/
def SendCall.Fits : SendCall → Prop
  | .udp _ _ _ data => 42 + data.length ≤ 2048
  | .tcp _ _ _ _ _ _ data => 54 + data.length ≤ 2048
  | _ => True

def SendCall.exec (net : Net) : SendCall → Net × List NetAction
  | .arpRequest targetIp => ((netSendArpRequest net targetIp).1, [(netSendArpRequest net targetIp).2])
  | .udp targetIp srcPort dstPort data => netSendUdp net targetIp srcPort dstPort data
  | .tcp targetIp srcPort dstPort seq ack flags data =>
    match netSendTcp net targetIp srcPort dstPort seq ack flags data with
    | some (net, sent) => (net, [sent])
    | none => (net, [])
  | .ping targetIp =>
    match netPing net targetIp with
    | some (net, sent) => (net, [sent])
    | none => (net, [])

/-! ## The network -/

/-- The hosts, and the frames on their way, each to one host. -/
structure Network (n : Nat) where
  hosts : Fin n → Net
  inFlight : List (Fin n × List Byte)

inductive NetEvent (n : Nat)
  | send (i : Fin n) (c : SendCall)
  | setIp (i : Fin n) (ip : Ipv4)
  | receive (i : Fin n)
  | lose
  | duplicate

/-- The copies of the frames a host sends, one for each other host. -/
def copies {n : Nat} (i : Fin n) (frames : List (List Byte)) : List (Fin n × List Byte) :=
  frames.flatMap fun frame => ((List.finRange n).filter (· ≠ i)).map fun j => (j, frame)

/-- A host changes, and sends what its actions say. -/
def Network.act {n : Nat} (s : Network n) (i : Fin n) (host : Net × List NetAction) : Network n :=
  ⟨Function.update s.hosts i host.1, s.inFlight ++ copies i (sentFrames host.2)⟩

inductive NetworkStep {n : Nat} : Network n → NetEvent n → Network n → Prop
  | send {s : Network n} (i : Fin n) (c : SendCall) : c.Fits →
      NetworkStep s (.send i c) (s.act i (c.exec (s.hosts i)))
  | setIp {s : Network n} (i : Fin n) (ip : Ipv4) :
      NetworkStep s (.setIp i ip) (s.act i ({ s.hosts i with myIp := ip }, []))
  | receive {s : Network n} {i : Fin n} {frame : List Byte} {before after : List (Fin n × List Byte)}
      {mem : Buffer} {len : BitVec 16} : s.inFlight = before ++ (i, frame) :: after →
      Received frame mem len →
      NetworkStep s (.receive i)
        (Network.act { s with inFlight := before ++ after } i (netHandlePacket (s.hosts i) mem len))
  | lose {s : Network n} {c : Fin n × List Byte} {before after : List (Fin n × List Byte)} :
      s.inFlight = before ++ c :: after → NetworkStep s .lose { s with inFlight := before ++ after }
  | duplicate {s : Network n} {c : Fin n × List Byte} : c ∈ s.inFlight →
      NetworkStep s .duplicate { s with inFlight := c :: s.inFlight }

/-- The hosts after `net_init`, with nothing sent. -/
def bootNetwork {n : Nat} (hosts : Fin n → Net) : Network n :=
  ⟨fun i => netInit (hosts i) (hosts i).myMac, []⟩

/-! ## Genuine frames -/

/-- The ARP packets the stack sends. -/
def arpPacket (oper : Nat) (srcMac : Mac) (srcIp : Ipv4) (dstMac : Mac) (dstIp : Ipv4) : List Byte :=
  bytes16 1 ++ bytes16 0x0800 ++ [6#8, 4#8] ++ bytes16 oper ++ srcMac.toList ++ srcIp.toList ++
    dstMac.toList ++ dstIp.toList

/-- **A frame of this stack**, where the addresses are those of hosts: the sender's belong together, and those
of a datagram's receiver do, unless it is for all. -/
inductive Genuine (owned : Ipv4 → Mac → Prop) : List Byte → Prop
  | arp {dest srcMac dstMac : Mac} {srcIp dstIp : Ipv4} {oper : Nat} : oper < 2 ^ 16 → owned srcIp srcMac →
      Genuine owned (dest.toList ++ srcMac.toList ++ bytes16 0x0806 ++
        arpPacket oper srcMac srcIp dstMac dstIp)
  | ipv4 {dest srcMac : Mac} {srcIp dstIp : Ipv4} {proto : Nat} {checksum data : List Byte} :
      checksum.length = 2 → 34 + data.length ≤ 2048 → owned srcIp srcMac →
      (owned dstIp dest ∨ dstIp = broadcastIp ∧ dest = broadcastMac) →
      Genuine owned (dest.toList ++ srcMac.toList ++ bytes16 0x0800 ++
        (ipv4Header srcIp dstIp proto (20 + data.length) checksum ++ data))

/-- A frame the stack may answer: an ARP request or an echo request. -/
def Answered (frame : List Byte) : Prop :=
  let mem : Buffer := fun i => frame.getD i 0
  be16 mem 12 = 0x0806 ∧ be16 mem 20 = 1 ∨ be16 mem 12 = 0x0800 ∧ mem 23 = 1#8 ∧ mem 34 = 8#8

instance (frame : List Byte) : Decidable (Answered frame) := inferInstanceAs (Decidable (_ ∨ _))

/-- The addresses a host has had, in a run with these events. -/
def Owned {n : Nat} (hosts : Fin n → Net) (es : List (NetEvent n)) (ip : Ipv4) (mac : Mac) : Prop :=
  ∃ i, mac = (hosts i).myMac ∧ (ip = (hosts i).myIp ∨ NetEvent.setIp i ip ∈ es)

/-! ## Frames -/

section Frames

variable {owned owned' : Ipv4 → Mac → Prop} {net : Net} {frame : List Byte} {mem : Buffer} {len : BitVec 16}
  {dest srcMac dstMac : Mac} {srcIp dstIp : Ipv4} {oper proto : Nat} {checksum data : List Byte}

theorem Genuine.mono (hmono : ∀ ip mac, owned ip mac → owned' ip mac) (h : Genuine owned frame) :
    Genuine owned' frame := by
  cases h with
  | arp hoper hsrc => exact .arp hoper (hmono _ _ hsrc)
  | ipv4 hsum hfit hsrc hdst => exact .ipv4 hsum hfit (hmono _ _ hsrc) (hdst.imp_left (hmono _ _))

theorem Genuine.datagram {n : Nat} (hdata : data.length = n) (hsum : checksum.length = 2)
    (hfit : 34 + n ≤ 2048) (hsrc : owned srcIp srcMac)
    (hdst : owned dstIp dest ∨ dstIp = broadcastIp ∧ dest = broadcastMac) :
    Genuine owned (dest.toList ++ srcMac.toList ++ bytes16 0x0800 ++
      (ipv4Header srcIp dstIp proto (20 + n) checksum ++ data)) := by
  subst hdata
  exact .ipv4 hsum hfit hsrc hdst

/-- A frame as it is laid out in its own bytes. -/
theorem holds_frame (frame : List Byte) : Holds (fun i => frame.getD i 0) 0 frame :=
  holds_of_forall fun i hi => by
    rw [List.getD_eq_getElem?_getD, List.getElem?_eq_getElem hi, Option.getD_some]

theorem arpPacket_length (oper : Nat) (srcMac : Mac) (srcIp : Ipv4) (dstMac : Mac) (dstIp : Ipv4) :
    (arpPacket oper srcMac srcIp dstMac dstIp).length = 28 := by
  simp only [arpPacket, List.length_append, bytes16_length, Vector.length_toList, List.length_cons,
    List.length_nil]

/-- What the receiver reads of an ARP packet. -/
structure ArpFrame (mem : Buffer) (oper : Nat) (srcMac : Mac) (srcIp dstIp : Ipv4) : Prop where
  type : be16 mem 12 = 0x0806
  htype : be16 mem 14 = 1
  ptype : be16 mem 16 = 0x0800
  oper : be16 mem 20 = oper
  srcMac : readArray mem 22 6 = srcMac
  srcIp : readArray mem 28 4 = srcIp
  dstIp : readArray mem 38 4 = dstIp

theorem ArpFrame.of_holds (hoper : oper < 2 ^ 16)
    (h : Holds mem 0 (dest.toList ++ srcMac.toList ++ bytes16 0x0806 ++
      arpPacket oper srcMac srcIp dstMac dstIp)) : ArpFrame mem oper srcMac srcIp dstIp := by
  simp only [arpPacket, holds_append, List.length_append, List.length_cons, List.length_nil,
    Vector.length_toList, bytes16_length, Nat.reduceAdd, Nat.zero_add] at h
  obtain ⟨⟨⟨-, -⟩, htype⟩, ⟨⟨⟨⟨⟨⟨hhtype, hptype⟩, -⟩, hoper'⟩, hmac⟩, hsrc⟩, -⟩, hdst⟩ := h
  exact ⟨be16_of_holds htype (by decide), be16_of_holds hhtype (by decide), be16_of_holds hptype (by decide),
    be16_of_holds hoper' hoper, hmac.vector, hsrc.vector, hdst.vector⟩

theorem ethSource_of_holds {type : Nat} {body : List Byte}
    (h : Holds mem 0 (dest.toList ++ srcMac.toList ++ bytes16 type ++ body)) :
    readArray mem 6 6 = srcMac := by
  simp only [holds_append, List.length_append, Vector.length_toList, Nat.reduceAdd, Nat.zero_add] at h
  exact h.1.1.2.vector

/-! ## Receiving -/

/-- `net_handle_arp` answers a request for the host's address. -/
theorem netHandlePacket_arp (h : ArpFrame mem oper srcMac srcIp dstIp) (hlen : 42 ≤ len.toNat) :
    sentFrames (netHandlePacket net mem len).2 = if oper = 1 ∧ dstIp = net.myIp then
      [srcMac.toList ++ net.myMac.toList ++ bytes16 0x0806 ++ arpPacket 2 net.myMac net.myIp srcMac srcIp]
    else [] := by
  have hfit : 14 + (arpPacket 2 net.myMac net.myIp srcMac srcIp).length < 2 ^ 16 := by
    rw [arpPacket_length]
    decide
  unfold netHandlePacket
  rw [if_neg (by omega)]
  dsimp only
  rw [if_pos h.type]
  unfold netHandleArp
  rw [if_neg (by omega), if_neg (by rw [h.htype, h.ptype]; decide)]
  simp only [Nat.reduceAdd, h.oper, h.srcMac, h.srcIp, h.dstIp]
  split
  · -- the reply is sent by the host with its new cache
    have hreply : (netSendEth { net with
        rxPacketCount := net.rxPacketCount + 1, arpCache := arpCacheUpdate srcIp srcMac net.arpCache }
        srcMac 0x0806 _).2 = _ := netSendEth_frame 0x0806 hfit
    show sentFrames [_] = _
    rw [show bytes16 1 ++ bytes16 2048 ++ [6#8, 4#8] ++ bytes16 2 ++ net.myMac.toList ++ net.myIp.toList ++
      srcMac.toList ++ srcIp.toList = arpPacket 2 net.myMac net.myIp srcMac srcIp from rfl, hreply]
    rfl
  · rfl

theorem netHandleUdp_sends (ip off n : Nat) : sentFrames (netHandleUdp net mem ip off n) = [] := by
  unfold netHandleUdp
  split
  · rfl
  dsimp only
  split
  · rfl
  split <;> rfl

theorem netHandleTcp_sends (ip off n : Nat) : sentFrames (netHandleTcp net mem ip off n) = [] := by
  unfold netHandleTcp
  split
  · rfl
  dsimp only
  split
  · rfl
  split <;> rfl

/-- `net_handle_ipv4` sends nothing but the answer to an echo request. -/
theorem netHandlePacket_datagram (h : Ipv4Frame mem srcIp dstIp proto data)
    (hfit : 34 + data.length ≤ len.toNat) (hlen : len.toNat ≤ 2048) :
    sentFrames (netHandlePacket net mem len).2 = [] ∨ mem 23 = 1#8 ∧ mem 34 = 8#8 ∧ 8 ≤ data.length ∧
      ∃ reply checksum : List Byte, checksum.length = 2 ∧ reply.length = data.length ∧
        reply[0]? = some 0#8 ∧ sentFrames (netHandlePacket net mem len).2 =
          [(readArray mem 6 6 : Mac).toList ++ net.myMac.toList ++ bytes16 0x0800 ++
            (ipv4Header net.myIp srcIp 1 (20 + data.length) checksum ++ reply)] := by
  have hihl : ipHeaderLen mem 14 = 20 := by
    rw [ipHeaderLen, h.versionIhl]
    rfl
  have hpayload : (be16 mem 16 + 2 ^ 16 - 20) % 2 ^ 16 = data.length := by
    rw [h.len]
    omega
  rw [netHandlePacket_of_ipv4 h.type (by omega)]
  unfold netHandleIpv4
  rw [if_neg (by omega)]
  dsimp only
  split
  · exact Or.inl rfl
  rw [hihl, hpayload]
  split
  · rename_i hproto
    have hicmp : mem 23 = 1#8 := BitVec.eq_of_toNat_eq hproto
    show sentFrames (netHandleIcmp _ mem _ 14 34 data.length).2 = [] ∨ _
    by_cases hshort : data.length < 8
    · refine Or.inl ?_
      rw [netHandleIcmp, if_pos hshort]
      rfl
    by_cases hecho : mem 34 = 8#8
    · obtain ⟨hlength, htype, -, -⟩ := @echoReply_spec (readBytes mem 34 data.length)
        (by rw [readBytes_length]; omega) (by rw [readBytes_length]; omega)
      rw [readBytes_length] at hlength
      have hreply : sentFrames (netHandleIcmp { net with rxPacketCount := net.rxPacketCount + 1 } mem
          (readArray mem 6 6) 14 34 data.length).2 = _ :=
        netHandleIcmp_reply _ 14 34 data.length (by omega) (by omega) hecho
      rw [h.srcIp] at hreply
      exact Or.inr ⟨hicmp, hecho, by omega, _, _, netChecksum_length _, hlength, htype, hreply⟩
    · refine Or.inl ?_
      rw [netHandleIcmp, if_neg hshort, if_neg hecho]
      rfl
  split
  · exact Or.inl (netHandleUdp_sends 14 34 _)
  split
  · exact Or.inl (netHandleTcp_sends 14 34 _)
  · exact Or.inl rfl

/-- **What a host makes of a genuine frame**: it learns only what is true, and answers with one genuine frame
at most, which is not answered any more. -/
theorem netHandlePacket_genuine (h : Genuine owned frame) (hrec : Received frame mem len)
    (hself : owned net.myIp net.myMac) :
    (∀ p, arpSender (mem, len) = some p → owned p.1 p.2) ∧
    (sentFrames (netHandlePacket net mem len).2 = [] ∨ Answered frame ∧ ∃ answer,
      sentFrames (netHandlePacket net mem len).2 = [answer] ∧ Genuine owned answer ∧ ¬ Answered answer) := by
  have hholds := holds_of_forall hrec.bytes
  have hlength := hrec.length
  cases h with
  | @arp dest srcMac dstMac srcIp dstIp oper hoper hsrc =>
    have harp := ArpFrame.of_holds hoper hholds
    have hlen : 42 ≤ len.toNat := by
      simpa only [List.length_append, Vector.length_toList, bytes16_length, arpPacket_length] using hlength
    constructor
    · intro p hp
      rw [arpSender, if_pos ⟨hlen, harp.type, harp.htype, harp.ptype⟩, harp.srcIp, harp.srcMac] at hp
      exact Option.some.inj hp ▸ hsrc
    · rw [netHandlePacket_arp harp hlen]
      split
      · rename_i hask
        have hown := ArpFrame.of_holds hoper (holds_frame (dest.toList ++ srcMac.toList ++ bytes16 0x0806 ++
          arpPacket oper srcMac srcIp dstMac dstIp))
        have hreply := ArpFrame.of_holds (by decide) (holds_frame (srcMac.toList ++ net.myMac.toList ++
          bytes16 0x0806 ++ arpPacket 2 net.myMac net.myIp srcMac srcIp))
        refine Or.inr ⟨Or.inl ⟨hown.type, hown.oper.trans hask.1⟩, _, rfl, .arp (by decide) hself, ?_⟩
        rintro (⟨-, hreq⟩ | ⟨htype, -⟩)
        · exact absurd (hreply.oper.symm.trans hreq) (by decide)
        · exact absurd (hreply.type.symm.trans htype) (by decide)
      · exact Or.inl rfl
  | @ipv4 dest srcMac srcIp dstIp proto checksum data hsum hfit hsrc hdst =>
    have hlen : 34 + data.length ≤ len.toNat := ipv4Frame_length hsum data ▸ hlength
    have hipv4 := Ipv4Frame.of_holds hsum rfl (by omega) hholds
    constructor
    · intro p hp
      rw [arpSender, if_neg (fun harp => absurd (hipv4.type.symm.trans harp.2.1) (by decide))] at hp
      cases hp
    · have hsends : sentFrames (netHandlePacket net mem len).2 = [] ∨ _ :=
        netHandlePacket_datagram hipv4 hlen hrec.fits
      rcases hsends with hnone | ⟨hproto, hecho, hdata, reply, checksum', hsum', hreply, htype, hsent⟩
      · exact Or.inl hnone
      rw [ethSource_of_holds hholds] at hsent
      have hown := Ipv4Frame.of_holds hsum rfl (by omega) (holds_frame (dest.toList ++ srcMac.toList ++
        bytes16 0x0800 ++ (ipv4Header srcIp dstIp proto (20 + data.length) checksum ++ data)))
      have hanswer := Ipv4Frame.of_holds hsum' hreply (by omega) (holds_frame (srcMac.toList ++
        net.myMac.toList ++ bytes16 0x0800 ++ (ipv4Header net.myIp srcIp 1 (20 + data.length) checksum' ++
          reply)))
      refine Or.inr ⟨Or.inr ⟨hown.type, ?_, ?_⟩, _, hsent, ?_, ?_⟩
      · exact hown.proto.trans (hipv4.proto.symm.trans hproto)
      · have hfirst := hown.data 0 _ (List.getElem?_eq_getElem (by omega))
        rw [← hipv4.data 0 _ (List.getElem?_eq_getElem (by omega)), hecho] at hfirst
        exact hfirst
      · exact .datagram hreply hsum' hfit hself (Or.inl hsrc)
      · rintro (⟨htype', -⟩ | ⟨-, -, hecho'⟩)
        · exact absurd (hanswer.type.symm.trans htype') (by decide)
        · exact absurd ((hanswer.data 0 _ htype).symm.trans hecho') (by decide)

/-! ## An exchange -/

theorem netSendArpRequest_sent (net : Net) (targetIp : Ipv4) : (netSendArpRequest net targetIp).2 =
    .send (broadcastMac.toList ++ net.myMac.toList ++ bytes16 0x0806 ++
      arpPacket 1 net.myMac net.myIp (Vector.replicate 6 0#8) targetIp) := by
  have hlength := arpPacket_length 1 net.myMac net.myIp (Vector.replicate 6 0#8) targetIp
  exact netSendEth_frame 0x0806 (lt_of_eq_of_lt (congrArg (14 + ·) hlength) (by decide : 14 + 28 < 2 ^ 16))

/-- The cache has an entry that is free or has the address. -/
def Net.Room (net : Net) (ip : Ipv4) : Prop := ∃ e ∈ net.arpCache, e.valid = true → e.ip = ip

theorem Net.Room.hasRoom {ip : Ipv4} (h : net.Room ip) : SlotTable.HasRoom ip (net.arpCache.map arpSlot) := by
  obtain ⟨e, he, hip⟩ := h
  refine ⟨arpSlot e, List.mem_map_of_mem he, fun q hq => ?_⟩
  by_cases hvalid : e.valid = true
  · rw [arpSlot_valid hvalid] at hq
    rw [← Option.some.inj hq]
    exact hip hvalid
  · rw [arpSlot_free (eq_false_of_ne_true hvalid)] at hq
    cases hq

/-- A host learns the sender of an ARP packet, and forgets nobody. -/
theorem arpLookup_arp (h : ArpFrame mem oper srcMac srcIp dstIp) (hlen : 42 ≤ len.toNat)
    (hroom : net.Room srcIp) (ip : Ipv4) : arpLookup (netHandlePacket net mem len).1.arpCache ip =
      if ip = srcIp then some srcMac else arpLookup net.arpCache ip := by
  have hsender : arpSender (mem, len) = some (srcIp, srcMac) := by
    rw [arpSender, if_pos ⟨hlen, h.type, h.htype, h.ptype⟩, h.srcIp, h.srcMac]
  have hcache := netHandlePacket_arpCache net (mem, len)
  rw [hsender] at hcache
  rw [hcache, arpLookup_slots, arpLookup_slots]
  show SlotTable.find ip ((arpCacheUpdate srcIp srcMac net.arpCache).map arpSlot) = _
  rw [arpCacheUpdate_slots, SlotTable.find_store hroom.hasRoom]

/-- **An address is resolved.** The request for a host's address is answered by the hosts that have it and by
no other; both hosts learn the address of the other one, if there is room for it, and forget nobody; and there
is no more to say. -/
theorem arp_resolves (a b : Net) : ∃ request answer,
    sentFrames [(netSendArpRequest a b.myIp).2] = [request] ∧ ∀ mem len, Received request mem len →
      (∀ c : Net, c.myIp ≠ b.myIp → sentFrames (netHandlePacket c mem len).2 = []) ∧
      sentFrames (netHandlePacket b mem len).2 = [answer] ∧
      (b.Room a.myIp → ∀ ip, arpLookup (netHandlePacket b mem len).1.arpCache ip =
        if ip = a.myIp then some a.myMac else arpLookup b.arpCache ip) ∧
      ∀ mem' len', Received answer mem' len' → sentFrames (netHandlePacket a mem' len').2 = [] ∧
        (a.Room b.myIp → ∀ ip, arpLookup (netHandlePacket a mem' len').1.arpCache ip =
          if ip = b.myIp then some b.myMac else arpLookup a.arpCache ip) := by
  have hlength (oper : Nat) (dest mac mac' : Mac) (ip ip' : Ipv4) : (dest.toList ++ mac.toList ++
      bytes16 0x0806 ++ arpPacket oper mac ip mac' ip').length = 42 := by
    simp only [List.length_append, Vector.length_toList, bytes16_length, arpPacket_length]
  let answer := a.myMac.toList ++ b.myMac.toList ++ bytes16 0x0806 ++
    arpPacket 2 b.myMac b.myIp a.myMac a.myIp
  refine ⟨_, answer, congrArg (fun act => sentFrames [act]) (netSendArpRequest_sent a b.myIp),
    fun mem len hrec => ?_⟩
  have hreq := ArpFrame.of_holds (by decide) (holds_of_forall hrec.bytes)
  have hlen : 42 ≤ len.toNat := hlength .. ▸ hrec.length
  refine ⟨fun c hc => ?_, ?_, fun hroom => arpLookup_arp hreq hlen hroom, fun mem' len' hrec' => ?_⟩
  · rw [netHandlePacket_arp hreq hlen, if_neg fun h => hc h.2.symm]
  · rw [netHandlePacket_arp hreq hlen, if_pos ⟨rfl, rfl⟩]
  · have hans := ArpFrame.of_holds (by decide) (holds_of_forall hrec'.bytes)
    have hlen' : 42 ≤ len'.toNat := hlength .. ▸ hrec'.length
    refine ⟨?_, fun hroom => arpLookup_arp hans hlen' hroom⟩
    rw [netHandlePacket_arp hans hlen', if_neg fun h => absurd h.1 (by decide)]

/-! ## Hosts -/

theorem netHandleArp_addresses (off n : Nat) : (netHandleArp net mem off n).1.myIp = net.myIp ∧
    (netHandleArp net mem off n).1.myMac = net.myMac := by
  unfold netHandleArp
  split
  · exact ⟨rfl, rfl⟩
  split
  · exact ⟨rfl, rfl⟩
  dsimp only
  split <;> exact ⟨rfl, rfl⟩

theorem netHandleIpv4_addresses (mac : Mac) (off n : Nat) :
    (netHandleIpv4 net mem mac off n).1.myIp = net.myIp ∧
      (netHandleIpv4 net mem mac off n).1.myMac = net.myMac := by
  have hicmp (net : Net) (ip data n : Nat) : (netHandleIcmp net mem mac ip data n).1.myIp = net.myIp ∧
      (netHandleIcmp net mem mac ip data n).1.myMac = net.myMac := by
    unfold netHandleIcmp
    split
    · exact ⟨rfl, rfl⟩
    split <;> exact ⟨rfl, rfl⟩
  unfold netHandleIpv4
  dsimp only
  split
  · exact ⟨rfl, rfl⟩
  split
  · exact ⟨rfl, rfl⟩
  split
  · exact hicmp net off _ _
  split
  · exact ⟨rfl, rfl⟩
  split <;> exact ⟨rfl, rfl⟩

/-- A host keeps its addresses. -/
theorem netHandlePacket_addresses (net : Net) (mem : Buffer) (len : BitVec 16) :
    (netHandlePacket net mem len).1.myIp = net.myIp ∧ (netHandlePacket net mem len).1.myMac = net.myMac := by
  unfold netHandlePacket
  split
  · exact ⟨rfl, rfl⟩
  dsimp only
  split
  · exact netHandleArp_addresses 14 _
  split
  · exact netHandleIpv4_addresses _ 14 _
  · exact ⟨rfl, rfl⟩

/-- A call changes no address. -/
theorem SendCall.exec_net (c : SendCall) (net : Net) : (c.exec net).1.myIp = net.myIp ∧
    (c.exec net).1.myMac = net.myMac ∧ (c.exec net).1.arpCache = net.arpCache := by
  cases c with
  | arpRequest targetIp => exact ⟨rfl, rfl, rfl⟩
  | udp targetIp srcPort dstPort data =>
    simp only [SendCall.exec, netSendUdp]
    cases udpTargetMac net targetIp <;> exact ⟨rfl, rfl, rfl⟩
  | tcp targetIp srcPort dstPort seq ack flags data =>
    simp only [SendCall.exec, netSendTcp]
    cases arpLookup net.arpCache targetIp <;> exact ⟨rfl, rfl, rfl⟩
  | ping targetIp =>
    simp only [SendCall.exec, netPing]
    cases arpLookup net.arpCache targetIp <;> exact ⟨rfl, rfl, rfl⟩

theorem arpLookup_owned (hcache : ∀ e ∈ net.arpCache, e.valid = true → owned e.ip e.mac)
    (h : arpLookup net.arpCache dstIp = some dstMac) : owned dstIp dstMac := by
  obtain ⟨e, he, rfl⟩ := Option.map_eq_some_iff.mp h
  have hfound := List.find?_some he
  simp only [Bool.and_eq_true, beq_iff_eq] at hfound
  exact hfound.2 ▸ hcache e (List.mem_of_find?_eq_some he) hfound.1

theorem genuine_of_sent (hsent : sentFrames [NetAction.send frame] = [frame]) (h : Genuine owned frame) :
    ∀ f ∈ sentFrames [NetAction.send frame], Genuine owned f := by
  rw [hsent]
  intro f hf
  rwa [List.mem_singleton.mp hf]

/-- **What a host sends is genuine**, if its cache is. -/
theorem SendCall.exec_genuine (hself : owned net.myIp net.myMac)
    (hcache : ∀ e ∈ net.arpCache, e.valid = true → owned e.ip e.mac) {c : SendCall} (hfits : c.Fits) :
    ∀ f ∈ sentFrames (c.exec net).2, Genuine owned f := by
  cases c with
  | arpRequest targetIp =>
    rw [SendCall.exec, netSendArpRequest_sent]
    exact genuine_of_sent rfl (.arp (by decide) hself)
  | udp targetIp srcPort dstPort data =>
    rw [SendCall.exec]
    cases hdest : udpTargetMac net targetIp with
    | none =>
      rw [netSendUdp, hdest]
      exact fun f hf => absurd hf List.not_mem_nil
    | some destMac =>
      obtain ⟨checksum, hsum, hsend⟩ := netSendUdp_sent hdest srcPort dstPort hfits
      have hlength := udpHeader_length srcPort dstPort data
      have hfits' : 42 + data.length ≤ 2048 := hfits
      rw [hsend]
      refine genuine_of_sent rfl (.datagram hlength hsum (by omega) hself ?_)
      -- a datagram for all has no link address in the cache
      rw [udpTargetMac] at hdest
      split at hdest
      · rename_i hall
        exact Or.inr ⟨hall, (Option.some.inj hdest).symm⟩
      · exact Or.inl (arpLookup_owned hcache hdest)
  | tcp targetIp srcPort dstPort seq ack flags data =>
    rw [SendCall.exec, netSendTcp]
    cases hdest : arpLookup net.arpCache targetIp with
    | none => exact fun f hf => absurd hf List.not_mem_nil
    | some destMac =>
      obtain ⟨checksum, checksum', hsum, hsum', hsend⟩ :=
        netSendTcpTo_sent net targetIp destMac srcPort dstPort seq ack flags hfits
      have hlength := tcpSegment_length srcPort dstPort seq ack flags data checksum' hsum'
      have hfits' : 54 + data.length ≤ 2048 := hfits
      rw [Option.map_some]
      dsimp only
      rw [hsend]
      exact genuine_of_sent rfl
        (.datagram hlength hsum (by omega) hself (Or.inl (arpLookup_owned hcache hdest)))
  | ping targetIp =>
    rw [SendCall.exec, netPing]
    cases hdest : arpLookup net.arpCache targetIp with
    | none => exact fun f hf => absurd hf List.not_mem_nil
    | some destMac =>
      obtain ⟨checksum, hsum, hsend⟩ := netSendIpv4_frame net targetIp destMac 1 pingRequest (by decide)
      rw [Option.map_some]
      dsimp only
      rw [hsend]
      exact genuine_of_sent rfl (.ipv4 hsum (by decide) hself (Or.inl (arpLookup_owned hcache hdest)))

end Frames

/-! ## Runs -/

section Runs

variable {n : Nat} {hosts : Fin n → Net} {es es' : List (NetEvent n)} {e : NetEvent n} {s s' : Network n}

/-- **Every address is one that its host has had.** -/
structure Network.Truthful (s : Network n) (hosts : Fin n → Net) (es : List (NetEvent n)) : Prop where
  macs : ∀ i, (s.hosts i).myMac = (hosts i).myMac
  ips : ∀ i, Owned hosts es (s.hosts i).myIp (s.hosts i).myMac
  caches : ∀ i, ∀ e ∈ (s.hosts i).arpCache, e.valid = true → Owned hosts es e.ip e.mac
  frames : ∀ c ∈ s.inFlight, Genuine (Owned hosts es) c.2

theorem Owned.mono {ip : Ipv4} {mac : Mac} (hsub : es ⊆ es') (h : Owned hosts es ip mac) :
    Owned hosts es' ip mac := by
  obtain ⟨i, hmac, hip⟩ := h
  exact ⟨i, hmac, hip.imp_right (hsub ·)⟩

theorem Network.Truthful.mono (hsub : es ⊆ es') (h : s.Truthful hosts es) : s.Truthful hosts es' :=
  ⟨h.macs, fun i => (h.ips i).mono hsub, fun i e he hvalid => (h.caches i e he hvalid).mono hsub,
    fun c hc => (h.frames c hc).mono fun _ _ => Owned.mono hsub⟩

theorem mem_copies {i : Fin n} {frames : List (List Byte)} {c : Fin n × List Byte}
    (h : c ∈ copies i frames) : c.2 ∈ frames := by
  obtain ⟨frame, hframe, hc⟩ := List.mem_flatMap.mp h
  obtain ⟨j, -, rfl⟩ := List.mem_map.mp hc
  exact hframe

theorem act_self {i : Fin n} {host : Net × List NetAction} : (s.act i host).hosts i = host.1 :=
  Function.update_self ..

theorem act_other {i j : Fin n} {host : Net × List NetAction} (hj : j ≠ i) :
    (s.act i host).hosts j = s.hosts j := Function.update_of_ne hj ..

/-- A host that changes, and sends. -/
theorem Network.Truthful.act (h : s.Truthful hosts es) (i : Fin n) {host : Net × List NetAction}
    (hmac : host.1.myMac = (s.hosts i).myMac) (hip : Owned hosts es host.1.myIp host.1.myMac)
    (hcache : ∀ e ∈ host.1.arpCache, e.valid = true → Owned hosts es e.ip e.mac)
    (hframes : ∀ f ∈ sentFrames host.2, Genuine (Owned hosts es) f) :
    (s.act i host).Truthful hosts es := by
  refine ⟨fun j => ?_, fun j => ?_, fun j => ?_, fun c hc => ?_⟩
  · by_cases hj : j = i
    · subst hj
      rw [act_self, hmac, h.macs]
    · rw [act_other hj, h.macs]
  · by_cases hj : j = i
    · subst hj
      rw [act_self]
      exact hip
    · rw [act_other hj]
      exact h.ips j
  · by_cases hj : j = i
    · subst hj
      rw [act_self]
      exact hcache
    · rw [act_other hj]
      exact h.caches j
  · rcases List.mem_append.mp hc with hold | hnew
    · exact h.frames c hold
    · exact hframes c.2 (mem_copies hnew)

theorem mem_arpCacheUpdate {ip : Ipv4} {mac : Mac} {cache : List ArpEntry} {e : ArpEntry}
    (h : e ∈ arpCacheUpdate ip mac cache) : e = ⟨ip, mac, true⟩ ∨ e ∈ cache := by
  induction cache with
  | nil => exact Or.inr h
  | cons first cache ih =>
    rw [arpCacheUpdate] at h
    split at h
    · exact (List.mem_cons.mp h).imp_right (List.mem_cons_of_mem _)
    · rcases List.mem_cons.mp h with rfl | h
      · exact Or.inr List.mem_cons_self
      · exact (ih h).imp_right (List.mem_cons_of_mem _)

/-- **A step keeps every address true.** -/
theorem Network.Truthful.step (h : s.Truthful hosts es) (hstep : NetworkStep s e s') :
    s'.Truthful hosts (es ++ [e]) := by
  have hold : es ⊆ es ++ [e] := List.subset_append_left es [e]
  cases hstep with
  | send i c hfits =>
    obtain ⟨hip, hmac, hcache⟩ := c.exec_net (s.hosts i)
    refine (h.act i hmac ?_ ?_ ?_).mono hold
    · rw [hip, hmac]
      exact h.ips i
    · rw [hcache]
      exact h.caches i
    · exact SendCall.exec_genuine (h.ips i) (h.caches i) hfits
  | setIp i ip =>
    refine (h.mono hold).act i rfl ?_ ((h.mono hold).caches i) fun f hf => absurd hf List.not_mem_nil
    exact ⟨i, h.macs i, Or.inr (List.mem_append_right _ (List.mem_singleton_self _))⟩
  | @receive i frame before after mem len hsplit hrec =>
    have hframe : Genuine (Owned hosts es) frame :=
      h.frames (i, frame) (hsplit ▸ List.mem_append_right _ List.mem_cons_self)
    obtain ⟨hlearns, hanswers⟩ := netHandlePacket_genuine hframe hrec (h.ips i)
    obtain ⟨hip, hmac⟩ := netHandlePacket_addresses (s.hosts i) mem len
    have hrest : Network.Truthful { s with inFlight := before ++ after } hosts es := by
      refine ⟨h.macs, h.ips, h.caches, fun c hc => h.frames c ?_⟩
      rw [hsplit]
      exact (List.sublist_append_right [(i, frame)] after |>.append_left before).subset hc
    refine (hrest.act i hmac ?_ ?_ ?_).mono hold
    · rw [hip, hmac]
      exact h.ips i
    · rw [netHandlePacket_arpCache (s.hosts i) (mem, len)]
      cases hsender : arpSender (mem, len) with
      | none => exact h.caches i
      | some p =>
        intro e he hvalid
        rcases mem_arpCacheUpdate he with rfl | he
        · exact hlearns p hsender
        · exact h.caches i e he hvalid
    · rcases hanswers with hnone | ⟨-, answer, hsent, hgenuine, -⟩
      · rw [hnone]
        exact fun f hf => absurd hf List.not_mem_nil
      · rw [hsent]
        intro f hf
        rwa [List.mem_singleton.mp hf]
  | @lose c before after hsplit =>
    refine (Network.Truthful.mono hold ⟨h.macs, h.ips, h.caches, fun c' hc => h.frames c' ?_⟩)
    rw [hsplit]
    exact (List.sublist_append_right [c] after |>.append_left before).subset hc
  | @duplicate c hc =>
    refine Network.Truthful.mono hold ⟨h.macs, h.ips, h.caches, fun c' hc' => ?_⟩
    rcases List.mem_cons.mp hc' with rfl | hc'
    · exact h.frames c' hc
    · exact h.frames c' hc'

theorem bootNetwork_truthful (hosts : Fin n → Net) : (bootNetwork hosts).Truthful hosts [] := by
  refine ⟨fun i => rfl, fun i => ⟨i, rfl, Or.inl rfl⟩, fun i e he hvalid => ?_,
    fun c hc => absurd hc List.not_mem_nil⟩
  obtain rfl := List.eq_of_mem_replicate he
  cases hvalid

theorem Network.Truthful.run (h : s.Truthful hosts es) (hrun : Run NetworkStep s es' s') :
    s'.Truthful hosts (es ++ es') := by
  induction hrun with
  | nil => rwa [List.append_nil]
  | snoc _ hstep ih =>
    rw [← List.append_assoc]
    exact ih.step hstep

/-- **No host is misled.** However calls, receptions, losses and duplications are interleaved, what a host
finds in its cache under an address is the link address of a host that has had it; and every frame on its way
names its sender truly, and is sent to the link address of a host that has had its destination. -/
theorem network_genuine (hrun : Run NetworkStep (bootNetwork hosts) es s) :
    (∀ i ip mac, arpLookup (s.hosts i).arpCache ip = some mac → Owned hosts es ip mac) ∧
      ∀ c ∈ s.inFlight, Genuine (Owned hosts es) c.2 := by
  have h := (bootNetwork_truthful hosts).run hrun
  exact ⟨fun i ip mac hfound => arpLookup_owned (h.caches i) hfound, h.frames⟩

/-! ## Silence -/

/-- An event of the link: a frame arrives, or is lost. -/
def NetEvent.OfLink : NetEvent n → Prop
  | .receive _ => True
  | .lose => True
  | _ => False

/-- The frames that can still come: an answer has a copy for each other host. -/
def load (frames : List (Fin n × List Byte)) : Nat :=
  (frames.map fun c => if Answered c.2 then n else 1).sum

theorem load_append (frames frames' : List (Fin n × List Byte)) :
    load (frames ++ frames') = load frames + load frames' := by
  rw [load, List.map_append, List.sum_append]
  rfl

theorem load_cons (c : Fin n × List Byte) (frames : List (Fin n × List Byte)) :
    load (c :: frames) = (if Answered c.2 then n else 1) + load frames := rfl

theorem load_bounds (frames : List (Fin n × List Byte)) :
    frames.length ≤ load frames ∧ load frames ≤ n * frames.length := by
  induction frames with
  | nil => exact ⟨Nat.zero_le _, Nat.zero_le _⟩
  | cons c frames ih =>
    have hpos := c.1.pos
    rw [load_cons, List.length_cons, Nat.mul_add, Nat.mul_one]
    split <;> omega

theorem load_copies {i : Fin n} {answer : List Byte} (h : ¬ Answered answer) :
    load (copies i [answer]) = n - 1 := by
  have hothers : ((List.finRange n).filter (· ≠ i)).length = n - 1 := by
    have herase : (List.finRange n).erase i = (List.finRange n).filter (· ≠ i) := by
      rw [(List.nodup_finRange n).erase_eq_filter]
      exact List.filter_congr fun j _ => by rw [bne, Bool.beq_eq_decide_eq, decide_not]
    rw [← herase, List.length_erase_of_mem (List.mem_finRange i), List.length_finRange]
  have hone : ((fun c => if Answered c.2 then n else 1) ∘ fun j => (j, answer)) = fun _ : Fin n => 1 :=
    funext fun j => if_neg h
  rw [copies, List.flatMap_cons, List.flatMap_nil, List.append_nil, load, List.map_map, hone, List.map_const',
    List.sum_replicate_nat, hothers, Nat.mul_one]

/-- **A frame that arrives or is lost** leaves less to come. -/
theorem load_step (h : s.Truthful hosts es) (hstep : NetworkStep s e s') (he : e.OfLink) :
    load s'.inFlight + 1 ≤ load s.inFlight := by
  cases hstep with
  | @receive i frame before after mem len hsplit hrec =>
    have hframe : Genuine (Owned hosts es) frame :=
      h.frames (i, frame) (hsplit ▸ List.mem_append_right _ List.mem_cons_self)
    have hpos := i.pos
    show load (before ++ after ++ copies i _) + 1 ≤ _
    rw [hsplit, load_append, load_append, load_append, load_cons]
    dsimp only
    rcases (netHandlePacket_genuine hframe hrec (h.ips i)).2 with hnone | ⟨hasked, answer, hsent, -, hlast⟩
    · rw [hnone]
      show load before + load after + 0 + 1 ≤ _
      split <;> omega
    · rw [hsent, load_copies hlast, if_pos hasked]
      omega
  | @lose c before after hsplit =>
    have hpos := c.1.pos
    show load (before ++ after) + 1 ≤ _
    rw [hsplit, load_append, load_append, load_cons]
    split <;> omega
  | send => exact he.elim
  | setIp => exact he.elim
  | duplicate => exact he.elim

/-- **The network falls silent.** Wherever a run has come to, if no host calls the stack any more then no more
frames arrive or get lost than there are hosts for each frame on its way. -/
theorem network_settles (hrun : Run NetworkStep (bootNetwork hosts) es s)
    (hquiet : Run NetworkStep s es' s') (hlink : ∀ e ∈ es', e.OfLink) :
    es'.length + s'.inFlight.length ≤ n * s.inFlight.length := by
  have htruth := (bootNetwork_truthful hosts).run hrun
  have hload : es'.length + load s'.inFlight ≤ load s.inFlight := by
    clear hrun
    induction hquiet with
    | nil => exact (Nat.zero_add _).le
    | snoc hprev hstep ih =>
      have hless := load_step (htruth.run hprev) hstep (hlink _ (by simp))
      have hbefore := ih fun e he => hlink e (List.mem_append_left _ he)
      rw [List.length_append, List.length_singleton]
      omega
  have hlast := (load_bounds s'.inFlight).1
  have hfirst := (load_bounds s.inFlight).2
  omega

end Runs

/-! ## Two hosts -/

/-- Two hosts with an address each. -/
def demoHosts : Fin 2 → Net
  | 0 => { demoHost #v[10, 0, 7, 1] #v[10, 0, 7, 2] with myMac := #v[2, 0, 0, 0, 0, 1] }
  | 1 => { demoHost #v[10, 0, 7, 2] #v[10, 0, 7, 1] with myMac := #v[2, 0, 0, 0, 0, 2] }

/-- The first host has asked for the second one, and been answered. -/
def demoAsked : Network 2 :=
  (bootNetwork demoHosts).act 0
    (SendCall.exec ((bootNetwork demoHosts).hosts 0) (.arpRequest #v[10, 0, 7, 2]))

/-- The frame on its way arrives, padded. -/
def Network.deliver (s : Network 2) (i : Fin 2) : Network 2 :=
  let frame := s.inFlight.head?.elim [] Prod.snd
  Network.act { s with inFlight := [] } i (netHandlePacket (s.hosts i) (fun k => frame.getD k 0) 60)

def demoAnswered : Network 2 := (demoAsked.deliver 1).deliver 0

theorem demo_receive {s : Network 2} {i : Fin 2} {frame : List Byte} (hflight : s.inFlight = [(i, frame)])
    (hlength : frame.length ≤ 60) : NetworkStep s (.receive i) (s.deliver i) := by
  rw [Network.deliver, hflight]
  have hsplit : s.inFlight = [] ++ (i, frame) :: [] := hflight
  exact .receive hsplit (received_padded frame 60 hlength (by decide))

theorem demo_run : Run NetworkStep (bootNetwork demoHosts) [.send 0 (.arpRequest #v[10, 0, 7, 2])] demoAsked ∧
    Run NetworkStep demoAsked [.receive 1, .receive 0] demoAnswered :=
  ⟨Run.single (.send 0 _ trivial), Run.cons (demo_receive rfl (by decide))
    (Run.single (demo_receive rfl (by decide)))⟩

theorem network_genuine_demo : arpLookup (demoAnswered.hosts 0).arpCache #v[10, 0, 7, 2] =
      some #v[2, 0, 0, 0, 0, 2] ∧
    Owned demoHosts [.send 0 (.arpRequest #v[10, 0, 7, 2]), .receive 1, .receive 0] #v[10, 0, 7, 2]
      #v[2, 0, 0, 0, 0, 2] := by
  have hfound : arpLookup (demoAnswered.hosts 0).arpCache #v[10, 0, 7, 2] = some #v[2, 0, 0, 0, 0, 2] := by
    decide
  exact ⟨hfound, (network_genuine (demo_run.1.append demo_run.2)).1 0 _ _ hfound⟩

theorem network_settles_demo : 2 + demoAnswered.inFlight.length ≤ 2 * demoAsked.inFlight.length :=
  network_settles demo_run.1 demo_run.2 (by simp [NetEvent.OfLink])

end ZohoOs
