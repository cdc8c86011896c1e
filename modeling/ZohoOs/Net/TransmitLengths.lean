import ZohoOs.Net.Echo

/-!
# Transmit lengths

Each layer of the send path adds the length of its header in 16 bits, asks `kmalloc` for as many
bytes, and copies the payload it was given behind the header. The last copy goes to the buffer of a
transmit descriptor, which has 2048 bytes whatever the frame.

## Main definitions

* `Memcpy`: a copy into a buffer
* `netSendUdpCopies`, `netSendTcpCopies`: the copies on the way of a payload
* `Transmitted`: the payload is sent whole, or nothing is, and no copy leaves its buffer

## Main results

* `netSendIpv4Copies_fit`: when the copies of the lower layers stay in their buffers
* `netSend_transmitted_iff`: just the payloads that fit a descriptor are transmitted so
-/

namespace ZohoOs

/-- A copy of `count` bytes to an offset of a buffer. -/
structure Memcpy where
  room : Nat
  off : Nat
  count : Nat
  deriving DecidableEq

/-- The copy stays in its buffer. -/
def Memcpy.Fits (c : Memcpy) : Prop := c.off + c.count ≤ c.room

instance Memcpy.decidableFits (c : Memcpy) : Decidable c.Fits := inferInstanceAs (Decidable (_ ≤ _))

/-! ## The copies of each layer -/

/-- The bytes of a transmit descriptor's buffer. -/
def txBufferSize : Nat := 2048

/-- `e1000_send_packet`, of `len` bytes. -/
def e1000SendPacketCopies (len : Nat) : List Memcpy := [⟨txBufferSize, 0, len⟩]

/-- `net_send_eth`, and below. -/
def netSendEthCopies (len : Nat) : List Memcpy :=
  let totalLen := (14 + len) % 2 ^ 16
  [⟨totalLen, 0, 6⟩, ⟨totalLen, 6, 6⟩, ⟨totalLen, 14, len⟩] ++ e1000SendPacketCopies totalLen

/-- `net_send_ipv4`, and below. -/
def netSendIpv4Copies (len : Nat) : List Memcpy :=
  let totalLen := (20 + len) % 2 ^ 16
  [⟨totalLen, 12, 4⟩, ⟨totalLen, 16, 4⟩, ⟨totalLen, 20, len⟩] ++ netSendEthCopies totalLen

/-- `net_send_udp`, once it has a link address, and below. -/
def netSendUdpCopies (len : Nat) : List Memcpy :=
  let totalLen := (8 + len) % 2 ^ 16
  [⟨totalLen, 8, len⟩] ++ netSendIpv4Copies totalLen

/-- `net_send_tcp`, once it has a link address, and below: the payload, the addresses of the
pseudo-header. -/
def netSendTcpCopies (len : Nat) : List Memcpy :=
  let totalLen := (20 + len) % 2 ^ 16
  [⟨totalLen, 20, len⟩, ⟨12, 0, 4⟩, ⟨12, 4, 4⟩] ++ netSendIpv4Copies totalLen

/-- No copy leaves its buffer, and what is sent carries the payload whole. -/
def Transmitted (copies : List Memcpy) (frames : List (List Byte)) (data : List Byte) : Prop :=
  (∀ c ∈ copies, c.Fits) ∧ ∀ frame ∈ frames, data <:+ frame

/-! ## The lengths that fit -/

section Fits

variable {len : Nat}

/-- A layer that puts `header` bytes in front of its payload, over layers that put `below`. Where the
16-bit sum wraps, the copy of the payload runs past the buffer it was asked for. -/
theorem layer_fit (header below : Nat) {copies copiesBelow : List Memcpy}
    (hpayload : ⟨(header + len) % 2 ^ 16, header, len⟩ ∈ copies)
    (hcopies : header + len < 2 ^ 16 → ∀ c ∈ copies, c.Fits)
    (hbelow : (∀ c ∈ copiesBelow, c.Fits) ↔ below + (header + len) % 2 ^ 16 ≤ txBufferSize) :
    (∀ c ∈ copies ++ copiesBelow, c.Fits) ↔ below + header + len ≤ txBufferSize := by
  have hsize : txBufferSize = 2048 := rfl
  rw [List.forall_mem_append, hbelow]
  constructor
  · rintro ⟨hfits, hroom⟩
    have hown := hfits _ hpayload
    simp only [Memcpy.Fits] at hown
    omega
  · intro hroom
    exact ⟨hcopies (by omega), by omega⟩

theorem e1000SendPacketCopies_fit :
    (∀ c ∈ e1000SendPacketCopies len, c.Fits) ↔ 0 + len ≤ txBufferSize := by
  rw [e1000SendPacketCopies, List.forall_mem_singleton, Memcpy.Fits]

theorem netSendEthCopies_fit : (∀ c ∈ netSendEthCopies len, c.Fits) ↔ 14 + len ≤ txBufferSize := by
  apply layer_fit 14 0
  · simp
  · intro hlt c hc
    rw [Nat.mod_eq_of_lt hlt] at hc
    simp only [List.mem_cons, List.not_mem_nil, or_false] at hc
    rcases hc with rfl | rfl | rfl <;> simp only [Memcpy.Fits] <;> omega
  · exact e1000SendPacketCopies_fit

/-- **The copies of the lower layers** stay in their buffers just if the frame fits a descriptor. -/
theorem netSendIpv4Copies_fit :
    (∀ c ∈ netSendIpv4Copies len, c.Fits) ↔ 34 + len ≤ txBufferSize := by
  apply layer_fit 20 14
  · simp
  · intro hlt c hc
    rw [Nat.mod_eq_of_lt hlt] at hc
    simp only [List.mem_cons, List.not_mem_nil, or_false] at hc
    rcases hc with rfl | rfl | rfl <;> simp only [Memcpy.Fits] <;> omega
  · exact netSendEthCopies_fit

theorem netSendUdpCopies_fit :
    (∀ c ∈ netSendUdpCopies len, c.Fits) ↔ 42 + len ≤ txBufferSize := by
  apply layer_fit 8 34
  · exact List.mem_singleton_self _
  · intro hlt c hc
    obtain rfl := List.mem_singleton.mp hc
    rw [Nat.mod_eq_of_lt hlt]
    exact Nat.le_refl (8 + len)
  · exact netSendIpv4Copies_fit

theorem netSendTcpCopies_fit :
    (∀ c ∈ netSendTcpCopies len, c.Fits) ↔ 54 + len ≤ txBufferSize := by
  apply layer_fit 20 34
  · simp
  · intro hlt c hc
    rw [Nat.mod_eq_of_lt hlt] at hc
    simp only [List.mem_cons, List.not_mem_nil, or_false] at hc
    rcases hc with rfl | rfl | rfl <;> simp only [Memcpy.Fits] <;> omega
  · exact netSendIpv4Copies_fit

end Fits

/-! ## What is sent -/

section Sent

variable {net : Net} {targetIp : Ipv4} {targetMac : Mac} {data : List Byte}

theorem netSendUdp_suffix (hdest : udpTargetMac net targetIp = some targetMac)
    (srcPort dstPort : BitVec 16) (hfit : 42 + data.length ≤ txBufferSize) :
    ∀ frame ∈ sentFrames (netSendUdp net targetIp srcPort dstPort data).2, data <:+ frame := by
  obtain ⟨checksum, -, hsent⟩ := netSendUdp_sent hdest srcPort dstPort hfit
  intro frame hframe
  rw [hsent] at hframe
  obtain rfl := List.mem_singleton.mp hframe
  -- the payload is the last part of the datagram, the packet and the frame
  exact ((List.suffix_append _ _).trans (List.suffix_append _ _)).trans (List.suffix_append _ _)

theorem netSendTcpTo_suffix (net : Net) (targetIp : Ipv4) (targetMac : Mac)
    (srcPort dstPort : BitVec 16) (seq ack : BitVec 32) (flags : Byte)
    (hfit : 54 + data.length ≤ txBufferSize) :
    ∀ frame ∈ sentFrames
      [(netSendTcpTo net targetIp targetMac srcPort dstPort seq ack flags data).2],
      data <:+ frame := by
  obtain ⟨checksum, checksum', -, -, hsent⟩ :=
    netSendTcpTo_sent net targetIp targetMac srcPort dstPort seq ack flags hfit
  intro frame hframe
  rw [hsent] at hframe
  obtain rfl := List.mem_singleton.mp hframe
  exact (((List.suffix_append _ _).trans (List.suffix_append _ _)).trans
    (List.suffix_append _ _)).trans (List.suffix_append _ _)

/-- **Just the payloads that fit a descriptor are transmitted.** Of a datagram with at most 2006
bytes, and of a segment with at most 1994, the frame carries the payload and no copy leaves its
buffer; of every longer one some copy does. -/
theorem netSend_transmitted_iff (net : Net) (targetIp : Ipv4) (srcPort dstPort : BitVec 16)
    (data : List Byte) :
    (∀ targetMac, udpTargetMac net targetIp = some targetMac →
      (Transmitted (netSendUdpCopies data.length)
          (sentFrames (netSendUdp net targetIp srcPort dstPort data).2) data ↔
        42 + data.length ≤ txBufferSize)) ∧
    ∀ targetMac seq ack flags,
      (Transmitted (netSendTcpCopies data.length)
          (sentFrames [(netSendTcpTo net targetIp targetMac srcPort dstPort seq ack flags data).2])
          data ↔ 54 + data.length ≤ txBufferSize) := by
  constructor
  · intro targetMac hdest
    constructor
    · intro h
      exact netSendUdpCopies_fit.mp h.1
    · intro hfit
      exact ⟨netSendUdpCopies_fit.mpr hfit, netSendUdp_suffix hdest srcPort dstPort hfit⟩
  · intro targetMac seq ack flags
    constructor
    · intro h
      exact netSendTcpCopies_fit.mp h.1
    · intro hfit
      exact ⟨netSendTcpCopies_fit.mpr hfit,
        netSendTcpTo_suffix net targetIp targetMac srcPort dstPort seq ack flags hfit⟩

end Sent

/-! ## Payloads that do not fit -/

/-- A datagram of three bytes is transmitted. -/
theorem netSend_transmitted_demo :
    Transmitted (netSendUdpCopies 3)
      (sentFrames (netSendUdp (demoHost #v[10, 0, 2, 15] #v[10, 0, 2, 2]) #v[10, 0, 2, 2] 5000 7000
        [1, 2, 3]).2) [1, 2, 3] :=
  ((netSend_transmitted_iff (demoHost #v[10, 0, 2, 15] #v[10, 0, 2, 2]) #v[10, 0, 2, 2] 5000 7000
    [1, 2, 3]).1 (Vector.replicate 6 0x54#8) (by decide)).mpr (by decide)

/-- **A payload that is too long.** The host is known, but of a datagram with 2007 bytes one byte is
copied past the buffer of the descriptor, and one with 65528 bytes is copied to a buffer of none. -/
theorem netSend_overrun :
    let net := demoHost #v[10, 0, 2, 15] #v[10, 0, 2, 2]
    udpTargetMac net #v[10, 0, 2, 2] = some (Vector.replicate 6 0x54#8) ∧
    ¬ Transmitted (netSendUdpCopies 2007) (sentFrames (netSendUdp net #v[10, 0, 2, 2] 5000 7000
      (List.replicate 2007 0)).2) (List.replicate 2007 0) ∧
    ¬ Transmitted (netSendUdpCopies 65528) (sentFrames (netSendUdp net #v[10, 0, 2, 2] 5000 7000
      (List.replicate 65528 0)).2) (List.replicate 65528 0) := by
  refine ⟨by decide, ?_, ?_⟩
  · intro h
    exact absurd (h.1 ⟨2048, 0, 2049⟩ (by decide)) (by decide)
  · intro h
    exact absurd (h.1 ⟨0, 8, 65528⟩ (by decide)) (by decide)

end ZohoOs
