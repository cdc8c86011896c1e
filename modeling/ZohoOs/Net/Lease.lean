import ZohoOs.Net.Dhcp

/-!
# Leases

What becomes of the address of the stack in a run of the DHCP client, whatever datagrams arrive. An
offer is remembered and answered, but an acknowledgement is taken for whatever address it names.

## Main definitions

* `DhcpInput`, `dhcpRun`: what the client is given, and its runs
* `Proposed`, `Requested`: addresses that were offered to the client, and asked for by it
* `LeaseKept`: the address changes to one that was offered and asked for

## Main results

* `requested_of_proposed`: what was offered is asked for
* `dhcpRun_lease_iff`: the runs in which leases are kept
* `dhcpRun_forged`: an acknowledgement without an offer
-/

namespace ZohoOs

/-- A call of `dhcp_discover`, or a datagram to port 68; `heap` is the memory the client's buffer
lies in. -/
inductive DhcpInput
  | discover (heap : Buffer)
  | receive (heap pkt : Buffer) (len : Nat)

/-- What the client does with an input. -/
def dhcpServe (d : Dhcp) : DhcpInput → Dhcp × List UdpSend
  | .discover heap => dhcpDiscover heap d
  | .receive heap pkt len => dhcpHandle heap d pkt len

/-- **A run of the client**: its state after these inputs, and what it has sent. -/
def dhcpRun (d : Dhcp) : List DhcpInput → Dhcp × List UdpSend
  | [] => (d, [])
  | input :: inputs =>
    let (d, sent) := dhcpServe d input
    let (d, rest) := dhcpRun d inputs
    (d, sent ++ rest)

/-- The type of a message, which does not depend on the state of the client. -/
def messageType (pkt : Buffer) (len : Nat) : Byte :=
  (optionWalk pkt len (dhcpOption pkt) len 240 (0, Vector.replicate 4 0)).1.1

/-- The input is a message of this type, which the client accepts, with this address. -/
def DhcpInput.IsMessage (type : Byte) (a : Ipv4) : DhcpInput → Prop
  | .discover _ => False
  | .receive _ pkt len => dhcpAccepts pkt len ∧ messageType pkt len = type ∧ yiaddr pkt = a

/-- An accepted offer proposed the address. -/
def Proposed (inputs : List DhcpInput) (a : Ipv4) : Prop := ∃ input ∈ inputs, input.IsMessage 2 a

/-- A request for the address was sent. -/
def Requested (sent : List UdpSend) (a : Ipv4) : Prop :=
  ∃ send ∈ sent, ∀ heap, (decodeRequest (send.data heap)).1.msgType = 3 ∧
    (decodeRequest (send.data heap)).1.requestedIp = some a

/-- **The lease is kept** by the input after `pre`: if it changes the address, then to one that was
proposed before, and that the client had sent a request for. -/
def LeaseKept (d : Dhcp) (pre : List DhcpInput) (input : DhcpInput) : Prop :=
  let before := (dhcpRun d pre).1
  let after := (dhcpServe before input).1
  after.net.myIp ≠ before.net.myIp →
    Proposed pre after.net.myIp ∧ Requested (dhcpRun d pre).2 after.net.myIp

section Lease

variable {d : Dhcp} {pkt : Buffer} {len : Nat} {input : DhcpInput} {a : Ipv4}

/-- The server does not enter into the type of a message. -/
theorem optionWalk_type (pkt : Buffer) (len fuel opt : Nat) (type : Byte) (server server' : Ipv4) :
    (optionWalk pkt len (dhcpOption pkt) fuel opt (type, server)).1.1 =
      (optionWalk pkt len (dhcpOption pkt) fuel opt (type, server')).1.1 := by
  induction fuel generalizing opt type server server' with
  | zero => rfl
  | succ fuel ih =>
    by_cases hgo : opt < len ∧ pkt opt ≠ 255
    · rw [optionWalk_next hgo.1 hgo.2, optionWalk_next hgo.1 hgo.2]
      -- an option changes the type, the server, or nothing
      unfold dhcpOption
      split
      · apply ih
      · split
        · apply ih
        · apply ih
    · rw [optionWalk_stop hgo, optionWalk_stop hgo]

theorem dhcpOptions_type (d : Dhcp) (pkt : Buffer) (len : Nat) :
    (dhcpOptions d pkt len).1 = messageType pkt len :=
  optionWalk_type pkt len len 240 0 _ _

theorem Dhcp.send_myIp (heap : Buffer) (d : Dhcp) (send : UdpSend) :
    (d.send heap send).1.net.myIp = d.net.myIp := by
  unfold Dhcp.send netSendUdp
  dsimp only
  split
  · rfl
  · rfl

/-- **What an input does to the address.** -/
theorem dhcpServe_myIp (d : Dhcp) (input : DhcpInput) :
    (∃ a, input.IsMessage 5 a ∧ (dhcpServe d input).1.net.myIp = a) ∨
      ((∀ a, ¬ input.IsMessage 5 a) ∧ (dhcpServe d input).1.net.myIp = d.net.myIp) := by
  cases input with
  | discover heap => exact Or.inr ⟨fun a h => h, Dhcp.send_myIp heap d _⟩
  | receive heap pkt len =>
    by_cases haccepts : dhcpAccepts pkt len
    · by_cases hack : messageType pkt len = 5
      · left
        refine ⟨yiaddr pkt, ⟨haccepts, hack, rfl⟩, ?_⟩
        exact (dhcpHandle_ack haccepts ((dhcpOptions_type d pkt len).trans hack)).1
      · right
        refine ⟨fun a h => hack h.2.1, ?_⟩
        show (dhcpHandle heap d pkt len).1.net.myIp = d.net.myIp
        by_cases hoffer : messageType pkt len = 2
        · rw [dhcpHandle_offer haccepts ((dhcpOptions_type d pkt len).trans hoffer)]
          exact Dhcp.send_myIp heap _ _
        · unfold dhcpHandle
          rw [if_pos haccepts]
          dsimp only
          rw [dhcpOptions_type, if_neg hoffer, if_neg hack]
    · right
      refine ⟨fun a h => haccepts h.1, ?_⟩
      show (dhcpHandle heap d pkt len).1.net.myIp = d.net.myIp
      rw [dhcpHandle, if_neg haccepts]

/-- An offer is answered by a request for its address. -/
theorem dhcpServe_offer (d : Dhcp) (h : input.IsMessage 2 a) :
    Requested (dhcpServe d input).2 a := by
  cases input with
  | discover heap => exact h.elim
  | receive heap pkt len =>
    obtain ⟨haccepts, htype, rfl⟩ := h
    show Requested (dhcpHandle heap d pkt len).2 (yiaddr pkt)
    rw [dhcpHandle_offer haccepts ((dhcpOptions_type d pkt len).trans htype)]
    refine ⟨_, List.mem_singleton_self _, fun heap' => ?_⟩
    obtain ⟨hrequest, hip, -⟩ := decodeRequest_dhcpRequest heap'
      { d with serverIp := (dhcpOptions d pkt len).2, offeredIp := yiaddr pkt }
    exact ⟨hrequest, hip⟩

/-- **What was proposed was asked for.** -/
theorem requested_of_proposed (d : Dhcp) {pre : List DhcpInput} (h : Proposed pre a) :
    Requested (dhcpRun d pre).2 a := by
  obtain ⟨input, hmem, hoffer⟩ := h
  induction pre generalizing d with
  | nil => exact absurd hmem List.not_mem_nil
  | cons first pre ih =>
    rcases List.mem_cons.mp hmem with rfl | hmem
    · obtain ⟨send, hsend, hreads⟩ := dhcpServe_offer d hoffer
      exact ⟨send, List.mem_append_left _ hsend, hreads⟩
    · obtain ⟨send, hsend, hreads⟩ := ih (dhcpServe d first).1 hmem
      exact ⟨send, List.mem_append_right _ hsend, hreads⟩

end Lease

/-- **The runs in which leases are kept** are those in which each acknowledgement the client accepts
names the address it has, or one an earlier offer proposed. -/
theorem dhcpRun_lease_iff (d : Dhcp) (inputs : List DhcpInput) :
    (∀ pre input, pre ++ [input] <+: inputs → LeaseKept d pre input) ↔
      ∀ pre input a, pre ++ [input] <+: inputs → input.IsMessage 5 a →
        a = (dhcpRun d pre).1.net.myIp ∨ Proposed pre a := by
  constructor
  · intro hkept pre input a hpre hack
    -- an address that the message changes was proposed, if the lease is kept
    by_cases hsame : a = (dhcpRun d pre).1.net.myIp
    · exact Or.inl hsame
    · right
      have hlease := hkept pre input hpre
      rcases dhcpServe_myIp (dhcpRun d pre).1 input with ⟨b, hb, hset⟩ | ⟨hnone, -⟩
      · -- the message has one address
        have hab : a = b := by
          cases input with
          | discover heap => exact hack.elim
          | receive heap pkt len => exact hack.2.2.symm.trans hb.2.2
        subst hab
        rw [← hset] at hsame
        rw [← hset]
        exact (hlease hsame).1
      · exact absurd hack (hnone a)
  · intro hacks pre input hpre hchange
    rcases dhcpServe_myIp (dhcpRun d pre).1 input with ⟨a, hack, hset⟩ | ⟨-, hsame⟩
    · rcases hacks pre input a hpre hack with heq | hproposed
      · exact absurd (hset.trans heq) hchange
      · rw [hset]
        exact ⟨hproposed, requested_of_proposed d hproposed⟩
    · exact absurd hsame hchange

/-- **An acknowledgement that answers nothing** gives the stack the address it names. -/
theorem dhcpRun_forged : ¬ LeaseKept bootDhcp [] (.receive (fun _ => 0) (sampleReply 5) 250) ∧
    (dhcpRun bootDhcp [.receive (fun _ => 0) (sampleReply 5) 250]).1.net.myIp = #v[10, 0, 2, 16] := by
  have hack : (dhcpHandle (fun _ => 0) bootDhcp (sampleReply 5) 250).1.net.myIp = #v[10, 0, 2, 16] :=
    (dhcpHandle_ack (sampleReply_accepted 5) (by decide)).1.trans (by decide)
  refine ⟨fun hkept => ?_, hack⟩
  have hchange : (dhcpHandle (fun _ => 0) bootDhcp (sampleReply 5) 250).1.net.myIp ≠
      bootDhcp.net.myIp := by
    rw [hack]
    decide
  obtain ⟨input, hmem, -⟩ := (hkept hchange).1
  exact absurd hmem List.not_mem_nil

end ZohoOs
