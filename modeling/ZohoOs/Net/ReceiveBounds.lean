import ZohoOs.Net.Receive

/-!
# Received lengths

`net_handle_udp` and `net_handle_tcp` compare the lengths they read with the length they were given,
`net_handle_ipv4` does not: it hands on as many bytes as the IP header announces.

## Main definitions

* `Dispatched`: the frames `net_handle_ipv4` hands on
* `LengthsFit`: the IP lengths fit the frame

## Main results

* `netHandlePacket_within_iff`: what is handed on lies in the frame iff the IP lengths fit it
* `netHandlePacket_overread`: a bound handler is given bytes behind the frame
-/

namespace ZohoOs

/-- Every slice the action passes on lies in the first `n` bytes. -/
def NetAction.Within (action : NetAction) (n : Nat) : Prop := ∀ s ∈ action.slices, s.Within n

/-- The handlers below `net_handle_ipv4` keep to the slice they are given. -/
def KeepsTo (actions : List NetAction) (payload : Slice) : Prop :=
  ∀ action ∈ actions, ∀ s ∈ action.slices, s.Part payload

section Handlers

variable (net : Net) (mem : Buffer) (srcMac : Mac) (ip data len : Nat)

theorem netHandleIcmp_keepsTo : KeepsTo (netHandleIcmp net mem srcMac ip data len).2 ⟨data, len⟩ := by
  unfold netHandleIcmp
  split
  · exact fun action h => absurd h (by simp)
  · split
    · intro action h s hs
      simp only [netSendIpv4, netSendEth, List.mem_cons, List.not_mem_nil, or_false] at h
      rcases h with rfl | rfl
      · obtain rfl := List.mem_singleton.mp hs
        exact ⟨Nat.le_refl _, Nat.le_refl _⟩
      · exact absurd hs (by simp [NetAction.slices])
    · exact fun action h => absurd h (by simp)

theorem netHandleUdp_keepsTo : KeepsTo (netHandleUdp net mem ip data len) ⟨data, len⟩ := by
  unfold netHandleUdp
  split
  · exact fun action h => absurd h (by simp)
  · simp only
    split
    · exact fun action h => absurd h (by simp)
    · next hlen =>
      split
      · intro action h s hs
        obtain rfl := List.mem_singleton.mp h
        obtain rfl := List.mem_singleton.mp hs
        constructor
        · exact Nat.le_add_right _ _
        · simp only
          omega
      · exact fun action h => absurd h (by simp)

theorem netHandleTcp_keepsTo : KeepsTo (netHandleTcp net mem ip data len) ⟨data, len⟩ := by
  unfold netHandleTcp
  split
  · exact fun action h => absurd h (by simp)
  · simp only
    split
    · exact fun action h => absurd h (by simp)
    · next hlen =>
      split
      · intro action h s hs
        obtain rfl := List.mem_singleton.mp h
        rcases List.mem_cons.mp hs with rfl | hs
        · constructor <;> simp only <;> omega
        · obtain rfl := List.mem_singleton.mp hs
          constructor <;> simp only <;> omega
      · exact fun action h => absurd h (by simp)

end Handlers

/-- The IP packet at `data` is addressed to this host, for a protocol it handles. -/
def Dispatched (net : Net) (mem : Buffer) (data : Nat) : Prop :=
  ((readArray mem (data + 16) 4 : Ipv4) = net.myIp ∨
    (readArray mem (data + 16) 4 : Ipv4).toList = broadcastMac.toList.take 4) ∧
  ((mem (data + 9)).toNat = 1 ∨ (mem (data + 9)).toNat = 17 ∨ (mem (data + 9)).toNat = 6)

/-- The IP lengths are consistent, and no larger than the `n` bytes there are. -/
def LengthsFit (mem : Buffer) (data n : Nat) : Prop :=
  ipHeaderLen mem data ≤ be16 mem (data + 2) ∧ data + be16 mem (data + 2) ≤ n

/-- What `net_handle_ipv4` hands on. -/
def ipPayload (mem : Buffer) (data : Nat) : Slice :=
  ⟨data + ipHeaderLen mem data, (be16 mem (data + 2) + 2 ^ 16 - ipHeaderLen mem data) % 2 ^ 16⟩

section Ipv4

variable (net : Net) {mem : Buffer} (srcMac : Mac) {data len : Nat}

/-- The 16-bit difference of the lengths lies in the frame iff it does not wrap, and the announced
length fits. -/
theorem ipPayload_within_iff {n : Nat} (hn : n < 2 ^ 16) :
    (ipPayload mem data).Within n ↔ LengthsFit mem data n := by
  have hhdr : ipHeaderLen mem data ≤ 60 := by
    have := Nat.mod_lt (mem data).toNat (show 16 > 0 by decide)
    unfold ipHeaderLen
    omega
  have hlt := be16_lt mem (data + 2)
  simp only [ipPayload, Slice.Within, LengthsFit]
  generalize ipHeaderLen mem data = hdr at hhdr ⊢
  generalize be16 mem (data + 2) = total at hlt ⊢
  by_cases hwrap : hdr ≤ total
  · have hsub : (total + 2 ^ 16 - hdr) % 2 ^ 16 = total - hdr := by omega
    rw [hsub]
    omega
  · -- a wrapped length is longer than any frame
    have hsub : (total + 2 ^ 16 - hdr) % 2 ^ 16 = total + 2 ^ 16 - hdr := by omega
    rw [hsub]
    omega

/-- **What `net_handle_ipv4` does**: it hands the payload on, and the handler keeps to it. -/
theorem netHandleIpv4_actions (hlen : 20 ≤ len) (hdisp : Dispatched net mem data) :
    ∃ proto actions, (netHandleIpv4 net mem srcMac data len).2 =
      .handle proto (ipPayload mem data) :: actions ∧ KeepsTo actions (ipPayload mem data) := by
  obtain ⟨hdst, hproto⟩ := hdisp
  unfold netHandleIpv4
  rw [if_neg (Nat.not_lt.mpr hlen)]
  simp only
  rw [if_neg fun hc => hdst.elim hc.1 hc.2]
  rcases hproto with h | h | h
  · rw [if_pos h]
    exact ⟨_, _, rfl, netHandleIcmp_keepsTo _ _ _ _ _ _⟩
  · rw [if_neg (by omega), if_pos h]
    exact ⟨_, _, rfl, netHandleUdp_keepsTo _ _ _ _ _⟩
  · rw [if_neg (by omega), if_neg (by omega), if_pos h]
    exact ⟨_, _, rfl, netHandleTcp_keepsTo _ _ _ _ _⟩

theorem netHandleIpv4_nil (h : ¬ (20 ≤ len ∧ Dispatched net mem data)) :
    (netHandleIpv4 net mem srcMac data len).2 = [] := by
  unfold netHandleIpv4
  split
  · rfl
  · next hlen =>
    simp only
    split
    · rfl
    · next hdst =>
      have hnot : ¬ Dispatched net mem data := fun hd => h ⟨Nat.not_lt.mp hlen, hd⟩
      have haddr := Decidable.not_not.mp fun hc => hdst (not_or.mp hc)
      simp only [Dispatched, not_and, not_or] at hnot
      obtain ⟨h₁, h₂, h₃⟩ := hnot haddr
      rw [if_neg h₁, if_neg h₂, if_neg h₃]

end Ipv4

/-- ARP hands on no slice of the frame. -/
theorem netHandleArp_within (net : Net) (mem : Buffer) (data len n : Nat) :
    ∀ action ∈ (netHandleArp net mem data len).2, action.Within n := by
  intro action h
  unfold netHandleArp at h
  split at h
  · exact absurd h (by simp)
  · split at h
    · exact absurd h (by simp)
    · simp only at h
      split at h
      · simp only [netSendEth, List.mem_singleton] at h
        subst h
        exact fun s hs => absurd hs (by simp [NetAction.slices])
      · exact absurd h (by simp)

/-- **When the receive path keeps to the frame.** For every frame and every length: all that
`netHandlePacket` hands to a handler, delivers and copies lies in the received bytes iff the
frame is none it hands on, or its IP lengths fit it. -/
theorem netHandlePacket_within_iff (net : Net) (mem : Buffer) (len : BitVec 16) :
    (∀ action ∈ (netHandlePacket net mem len).2, action.Within len.toNat) ↔
      (34 ≤ len.toNat → be16 mem 12 = 0x0800 → Dispatched net mem 14 →
        LengthsFit mem 14 len.toNat) := by
  unfold netHandlePacket
  -- a frame is cut off, or it is ARP, IPv4, or nothing that is handled
  by_cases hshort : len.toNat < 14
  · rw [if_pos hshort]
    exact ⟨fun _ hlen => absurd hlen (by omega), fun _ action h => absurd h (by simp)⟩
  rw [if_neg hshort]
  simp only
  by_cases harp : be16 mem 12 = 0x0806
  · rw [if_pos harp]
    exact ⟨fun _ _ htype => absurd htype (by omega), fun _ => netHandleArp_within _ _ _ _ _⟩
  rw [if_neg harp]
  by_cases hip : be16 mem 12 = 0x0800
  · rw [if_pos hip]
    -- the payload is handed on, and what is done with it keeps within it
    by_cases hdisp : 20 ≤ len.toNat - 14 ∧ Dispatched net mem 14
    · obtain ⟨proto, actions, heq, hkeep⟩ := netHandleIpv4_actions
        { net with rxPacketCount := net.rxPacketCount + 1 } (readArray mem 6 6) hdisp.1 hdisp.2
      rw [heq]
      constructor
      · intro h _ _ _
        have hhandle := h _ List.mem_cons_self (ipPayload mem 14) (List.mem_singleton.mpr rfl)
        exact (ipPayload_within_iff len.isLt).mp hhandle
      · intro h action haction s hs
        have hpayload : (ipPayload mem 14).Within len.toNat :=
          (ipPayload_within_iff len.isLt).mpr (h (by omega) hip hdisp.2)
        rcases List.mem_cons.mp haction with rfl | haction
        · obtain rfl := List.mem_singleton.mp hs
          exact hpayload
        · exact (hkeep action haction s hs).within hpayload
    · rw [netHandleIpv4_nil { net with rxPacketCount := net.rxPacketCount + 1 } (readArray mem 6 6)
        hdisp]
      constructor
      · exact fun _ hlen _ hd => absurd ⟨by omega, hd⟩ hdisp
      · exact fun _ action h => absurd h (by simp)
  · rw [if_neg hip]
    exact ⟨fun _ _ htype => absurd htype hip, fun _ action h => absurd h (by simp)⟩

/-! ## A frame whose lengths do not fit -/

/-- The stack after `net_init`, with one UDP port bound. -/
def dhcpNet : Net where
  myIp := bootIp
  myMac := #v[0x52, 0x54, 0, 0x12, 0x34, 0x56]
  arpCache := List.replicate 32 ⟨#v[0, 0, 0, 0], #v[0, 0, 0, 0, 0, 0], false⟩
  udpBindings := ⟨68, 1, true⟩ :: List.replicate 15 ⟨0, 0, false⟩
  tcpBindings := List.replicate 16 ⟨0, 0, false⟩
  rxPacketCount := 0
  txPacketCount := 0

/-- A UDP datagram of 42 bytes whose headers announce 1500. -/
def shortFrame : List Byte :=
  [0x52, 0x54, 0x00, 0x12, 0x34, 0x56, 0x52, 0x55, 0x0A, 0x00, 0x02, 0x02, 0x08, 0x00,
    0x45, 0x00, 0x05, 0xDC, 0x00, 0x00, 0x00, 0x00, 0x40, 0x11, 0x00, 0x00, 0x0A, 0x00, 0x02, 0x02,
    0x0A, 0x00, 0x02, 0x0F, 0x00, 0x43, 0x00, 0x44, 0x05, 0xC8, 0x00, 0x00]

/-- **Bytes behind the frame reach a handler.** The handler bound to the port is given 1472 bytes
from the end of a frame of 42. -/
theorem netHandlePacket_overread :
    .deliverUdp 1 #v[10, 0, 2, 2] 67 68 ⟨42, 1472⟩ ∈
      (netHandlePacket dhcpNet (fun i => shortFrame.getD i 0#8) 42#16).2 ∧
    ¬ Slice.Within ⟨42, 1472⟩ 42 := by
  decide

end ZohoOs
