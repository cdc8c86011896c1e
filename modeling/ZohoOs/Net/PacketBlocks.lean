import ZohoOs.Memory.NestedBlocks
import ZohoOs.Net.Network

/-!
# The blocks of packets

Each layer of the send path asks `kmalloc` for its packet, and frees it when the layers below are through.
None looks at what it is given: for `NULL` the packet is built from address 0 on, and what is sent then is
not modelled. As long as the heap has one large free block this does not happen, however many calls there are.

## Main definitions

* `netHandlePacketBlocks`, `SendCall.blocks`: the blocks a call asks for
* `stackCalls`: the calls of the stack, with the heap

## Main results

* `StackCall.blocks_nil_iff`: a call that sends a frame asks for blocks, and no other does
* `stackCalls_served`: with room for one call, every call is given its blocks
* `stackCalls_null`: without room for a packet it has no outcome
-/

namespace ZohoOs

open BlockTiling TransitionSystem

/-! ## The code -/

/-- `net_send_eth`. -/
def netSendEthBlocks (len : Nat) : List Nat := [(14 + len) % 2 ^ 16]

/-- `net_send_ipv4`, and below. -/
def netSendIpv4Blocks (len : Nat) : List Nat :=
  let totalLen := (20 + len) % 2 ^ 16
  totalLen :: netSendEthBlocks totalLen

/-- `net_send_udp`, once it has a link address, and below. -/
def netSendUdpBlocks (len : Nat) : List Nat :=
  let totalLen := (8 + len) % 2 ^ 16
  totalLen :: netSendIpv4Blocks totalLen

/-- `net_send_tcp`, once it has a link address, and below. -/
def netSendTcpBlocks (len : Nat) : List Nat :=
  let totalLen := (20 + len) % 2 ^ 16
  totalLen :: netSendIpv4Blocks totalLen

/-- `net_handle_icmp`. -/
def netHandleIcmpBlocks (mem : Buffer) (data len : Nat) : List Nat :=
  if len < 8 then [] else if mem data = 8#8 then len :: netSendIpv4Blocks len else []

/-- `net_handle_arp`. -/
def netHandleArpBlocks (net : Net) (mem : Buffer) (data len : Nat) : List Nat :=
  if len < 28 then []
  else if be16 mem data ≠ 1 ∨ be16 mem (data + 2) ≠ 0x0800 then []
  else if be16 mem (data + 6) = 1 ∧ readArray mem (data + 24) 4 = net.myIp then netSendEthBlocks 28
  else []

/-- `net_handle_ipv4`. -/
def netHandleIpv4Blocks (net : Net) (mem : Buffer) (data len : Nat) : List Nat :=
  if len < 20 then []
  else
    let dstIp : Ipv4 := readArray mem (data + 16) 4
    if dstIp ≠ net.myIp ∧ dstIp.toList ≠ broadcastMac.toList.take 4 then []
    else if (mem (data + 9)).toNat = 1 then
      netHandleIcmpBlocks mem (data + ipHeaderLen mem data)
        ((be16 mem (data + 2) + 2 ^ 16 - ipHeaderLen mem data) % 2 ^ 16)
    else []

/-- `net_handle_packet`. -/
def netHandlePacketBlocks (net : Net) (mem : Buffer) (len : BitVec 16) : List Nat :=
  if len.toNat < 14 then []
  else if be16 mem 12 = 0x0806 then netHandleArpBlocks net mem 14 (len.toNat - 14)
  else if be16 mem 12 = 0x0800 then netHandleIpv4Blocks net mem 14 (len.toNat - 14)
  else []

def SendCall.blocks (net : Net) : SendCall → List Nat
  | .arpRequest _ => netSendEthBlocks 28
  | .udp targetIp _ _ data =>
    if (udpTargetMac net targetIp).isSome then netSendUdpBlocks data.length else []
  | .tcp targetIp _ _ _ _ _ data =>
    if (arpLookup net.arpCache targetIp).isSome then netSendTcpBlocks data.length else []
  | .ping targetIp => if (arpLookup net.arpCache targetIp).isSome then netSendIpv4Blocks 8 else []

/-- A call of the stack: by an application, or by the driver with a frame. -/
inductive StackCall
  | send (c : SendCall)
  | receive (mem : Buffer) (len : BitVec 16)

def StackCall.exec (net : Net) : StackCall → Net × List NetAction
  | .send c => c.exec net
  | .receive mem len => netHandlePacket net mem len

def StackCall.blocks (net : Net) : StackCall → List Nat
  | .send c => c.blocks net
  | .receive mem len => netHandlePacketBlocks net mem len

/-- One call after the other, each with its blocks. Of a call without one of them there is no outcome. -/
def stackCalls (k : Kmalloc) (net : Net) :
    List StackCall → Option (Kmalloc × Option (Net × List NetAction))
  | [] => some (k, some (net, []))
  | c :: cs => do
    let (k, given) ← nestBlocks k (c.blocks net)
    if given then
      let (k, outcome) ← stackCalls k (c.exec net).1 cs
      pure (k, outcome.map fun r => (r.1, (c.exec net).2 ++ r.2))
    else pure (k, none)

/-- The calls without the heap. -/
def execCalls (net : Net) : List StackCall → Net × List NetAction
  | [] => (net, [])
  | c :: cs => ((execCalls (c.exec net).1 cs).1, (c.exec net).2 ++ (execCalls (c.exec net).1 cs).2)

/-! ## The blocks and the frames -/

section Frames

variable {net : Net} {mem : Buffer}

theorem netHandleIcmpBlocks_nil_iff (srcMac : Mac) (ip data n : Nat) :
    netHandleIcmpBlocks mem data n = [] ↔ sentFrames (netHandleIcmp net mem srcMac ip data n).2 = [] := by
  unfold netHandleIcmpBlocks netHandleIcmp
  split
  · exact iff_of_true rfl rfl
  split
  · exact iff_of_false (List.cons_ne_nil _ _) (List.cons_ne_nil _ _)
  · exact iff_of_true rfl rfl

theorem netHandleArpBlocks_nil_iff (data n : Nat) :
    netHandleArpBlocks net mem data n = [] ↔ sentFrames (netHandleArp net mem data n).2 = [] := by
  unfold netHandleArpBlocks netHandleArp
  split
  · exact iff_of_true rfl rfl
  split
  · exact iff_of_true rfl rfl
  dsimp only
  split
  · exact iff_of_false (List.cons_ne_nil _ _) (List.cons_ne_nil _ _)
  · exact iff_of_true rfl rfl

theorem netHandleIpv4Blocks_nil_iff (srcMac : Mac) (data n : Nat) :
    netHandleIpv4Blocks net mem data n = [] ↔ sentFrames (netHandleIpv4 net mem srcMac data n).2 = [] := by
  unfold netHandleIpv4Blocks netHandleIpv4
  dsimp only
  split
  · exact iff_of_true rfl rfl
  split
  · exact iff_of_true rfl rfl
  split
  · exact netHandleIcmpBlocks_nil_iff srcMac data _ _
  -- the handlers of datagrams and segments send nothing
  split
  · exact iff_of_true rfl (netHandleUdp_sends data _ _)
  split
  · exact iff_of_true rfl (netHandleTcp_sends data _ _)
  · exact iff_of_true rfl rfl

theorem netHandlePacketBlocks_nil_iff (len : BitVec 16) :
    netHandlePacketBlocks net mem len = [] ↔ sentFrames (netHandlePacket net mem len).2 = [] := by
  unfold netHandlePacketBlocks netHandlePacket
  split
  · exact iff_of_true rfl rfl
  -- the packet is counted first, whatever it is
  let counted : Net := { net with rxPacketCount := net.rxPacketCount + 1 }
  dsimp only
  split
  · exact @netHandleArpBlocks_nil_iff counted mem 14 _
  split
  · exact @netHandleIpv4Blocks_nil_iff counted mem _ 14 _
  · exact iff_of_true rfl rfl

theorem SendCall.blocks_nil_iff (c : SendCall) : c.blocks net = [] ↔ sentFrames (c.exec net).2 = [] := by
  cases c with
  | arpRequest targetIp => exact iff_of_false (List.cons_ne_nil _ _) (List.cons_ne_nil _ _)
  | udp targetIp srcPort dstPort data =>
    rw [SendCall.blocks, SendCall.exec, netSendUdp]
    cases udpTargetMac net targetIp with
    | none => exact iff_of_true rfl rfl
    | some mac => exact iff_of_false (List.cons_ne_nil _ _) (List.cons_ne_nil _ _)
  | tcp targetIp srcPort dstPort seq ack flags data =>
    rw [SendCall.blocks, SendCall.exec, netSendTcp]
    cases arpLookup net.arpCache targetIp with
    | none => exact iff_of_true rfl rfl
    | some mac => exact iff_of_false (List.cons_ne_nil _ _) (List.cons_ne_nil _ _)
  | ping targetIp =>
    rw [SendCall.blocks, SendCall.exec, netPing]
    cases arpLookup net.arpCache targetIp with
    | none => exact iff_of_true rfl rfl
    | some mac => exact iff_of_false (List.cons_ne_nil _ _) (List.cons_ne_nil _ _)

/-- **A call that sends a frame asks for blocks**, and no other does. -/
theorem StackCall.blocks_nil_iff (c : StackCall) : c.blocks net = [] ↔ sentFrames (c.exec net).2 = [] := by
  cases c with
  | send c => exact c.blocks_nil_iff
  | receive mem len => exact netHandlePacketBlocks_nil_iff len

/-! ## Their sizes -/

/-- Three blocks at most, each of a 16-bit size. -/
def FewBlocks (sizes : List Nat) : Prop := sizes.length ≤ 3 ∧ ∀ size ∈ sizes, size < 2 ^ 16

theorem fewBlocks_nil : FewBlocks [] := ⟨Nat.zero_le _, fun _ hsize => absurd hsize List.not_mem_nil⟩

theorem netSendEthBlocks_few (len : Nat) : FewBlocks (netSendEthBlocks len) :=
  ⟨show 1 ≤ 3 by decide, List.forall_mem_singleton.mpr (Nat.mod_lt _ (by decide))⟩

theorem netSendIpv4Blocks_few (len : Nat) : FewBlocks (netSendIpv4Blocks len) :=
  ⟨show 2 ≤ 3 by decide, List.forall_mem_cons.mpr ⟨Nat.mod_lt _ (by decide), (netSendEthBlocks_few _).2⟩⟩

/-- A layer over IPv4. -/
theorem cons_netSendIpv4Blocks_few {n : Nat} (hn : n < 2 ^ 16) (len : Nat) :
    FewBlocks (n :: netSendIpv4Blocks len) :=
  ⟨Nat.le_refl 3, List.forall_mem_cons.mpr ⟨hn, (netSendIpv4Blocks_few len).2⟩⟩

theorem netHandlePacketBlocks_few (len : BitVec 16) : FewBlocks (netHandlePacketBlocks net mem len) := by
  unfold netHandlePacketBlocks
  split
  · exact fewBlocks_nil
  split
  · unfold netHandleArpBlocks
    split
    · exact fewBlocks_nil
    split
    · exact fewBlocks_nil
    split
    · exact netSendEthBlocks_few 28
    · exact fewBlocks_nil
  split
  · unfold netHandleIpv4Blocks netHandleIcmpBlocks
    split
    · exact fewBlocks_nil
    dsimp only
    split
    · exact fewBlocks_nil
    split
    · -- the length of the payload is a difference of 16 bits
      split
      · exact fewBlocks_nil
      split
      · exact cons_netSendIpv4Blocks_few (Nat.mod_lt _ (by decide)) _
      · exact fewBlocks_nil
    · exact fewBlocks_nil
  · exact fewBlocks_nil

theorem SendCall.blocks_few (c : SendCall) : FewBlocks (c.blocks net) := by
  cases c with
  | arpRequest targetIp => exact netSendEthBlocks_few 28
  | udp targetIp srcPort dstPort data =>
    rw [SendCall.blocks]
    split
    · exact cons_netSendIpv4Blocks_few (Nat.mod_lt _ (by decide)) _
    · exact fewBlocks_nil
  | tcp targetIp srcPort dstPort seq ack flags data =>
    rw [SendCall.blocks]
    split
    · exact cons_netSendIpv4Blocks_few (Nat.mod_lt _ (by decide)) _
    · exact fewBlocks_nil
  | ping targetIp =>
    rw [SendCall.blocks]
    split
    · exact netSendIpv4Blocks_few 8
    · exact fewBlocks_nil

theorem StackCall.blocks_few (c : StackCall) : FewBlocks (c.blocks net) := by
  cases c with
  | send c => exact c.blocks_few
  | receive mem len => exact netHandlePacketBlocks_few len

end Frames

/-! ## Calls with room -/

/-- The room that is enough for the blocks of one call. -/
def callRoom : Nat := 3 * (2 ^ 16 + kmallocHeaderSize + 8)

theorem FewBlocks.room {sizes : List Nat} (h : FewBlocks sizes) : nestRoom sizes ≤ callRoom := by
  have hle : ∀ size ∈ sizes, size ≤ 2 ^ 16 - 1 := fun size hsize => Nat.le_pred_of_lt (h.2 size hsize)
  exact (nestRoom_le hle).trans (Nat.mul_le_mul_right _ h.1)

section Served

variable {k : Kmalloc} {l : List Block} {b : Block}

/-- **A call with room** is given its blocks, and leaves the blocks of the heap. -/
theorem StackCall.served (h : HeapCounted k l) (hb : b ∈ l) (hfree : b.isFree = true)
    (hroom : callRoom ≤ b.size) (net : Net) (c : StackCall) :
    ∃ k', nestBlocks k (c.blocks net) = some (k', true) ∧ HeapCounted k' l := by
  have hfew : FewBlocks (c.blocks net) := c.blocks_few
  have hlt : ∀ size ∈ c.blocks net, size < 2 ^ 63 := fun size hsize =>
    (hfew.2 size hsize).trans (by decide)
  exact nestBlocks_given h hlt hb hfree (hfew.room.trans hroom)

theorem stackCalls_eq (h : HeapCounted k l) (hb : b ∈ l) (hfree : b.isFree = true)
    (hroom : callRoom ≤ b.size) (net : Net) (cs : List StackCall) :
    ∃ k', stackCalls k net cs = some (k', some (execCalls net cs)) ∧ HeapCounted k' l := by
  induction cs generalizing k net with
  | nil => exact ⟨k, rfl, h⟩
  | cons c cs ih =>
    obtain ⟨k₁, hnest, h₁⟩ := c.served h hb hfree hroom net
    obtain ⟨k₂, hcalls, h₂⟩ := ih h₁ (c.exec net).1
    refine ⟨k₂, ?_, h₂⟩
    rw [stackCalls, hnest, Option.bind_eq_bind, Option.bind_some]
    simp only [if_true, hcalls]
    rfl

/-- **With room for one call, every call is given its blocks.** In every run of the heap that has come to a
state where the largest free block has the room, calls of the stack do what they do if `kmalloc` never fails,
whatever calls there are, and `kmalloc_get_stats` reports the same room after them. -/
theorem stackCalls_served {headers : Nat → KmallocHeader} {pmm : Pmm} {ops : List HeapOp} {s : Heap}
    {reported : Kmalloc} (h : Run HeapStep (heapStarted headers pmm) ops s)
    (hreported : kmallocGetStats s.k = some reported)
    (hroom : callRoom ≤ reported.stats.largestFreeBlock) (net : Net) (cs : List StackCall) :
    ∃ k' reported', stackCalls s.k net cs = some (k', some (execCalls net cs)) ∧
      kmallocGetStats k' = some reported' ∧
      reported'.stats.largestFreeBlock = reported.stats.largestFreeBlock ∧
      reported'.stats.bytesFree = reported.stats.bytesFree := by
  obtain ⟨l, hlayout, hcounted⟩ := (heapRun_sound h).layout
  obtain rfl := Option.some.inj ((kmallocGetStats_spec hcounted.tiled).symm.trans hreported)
  obtain ⟨b, hb, hfree, hsize⟩ := (fits_iff_le_largestFree (by decide : 0 < callRoom)).mpr hroom
  obtain ⟨k', hcalls, hcounted'⟩ := stackCalls_eq hcounted hb hfree hsize net cs
  exact ⟨k', k'.scanned l, hcalls, kmallocGetStats_spec hcounted'.tiled, rfl, rfl⟩

/-- After the boot there is the room. -/
example : ∃ reported, kmallocGetStats freshHeap.k = some reported ∧
    callRoom ≤ reported.stats.largestFreeBlock := ⟨_, rfl, by decide⟩

/-- **A call whose first block has no room** has no outcome, and none has that follows. -/
theorem stackCalls_null (h : HeapCounted k l) {net : Net} {c : StackCall} {size : Nat} {sizes : List Nat}
    (hblocks : c.blocks net = size :: sizes)
    (hfull : ∀ b ∈ l, ¬ Block.Fits (alignSize (BitVec.ofNat 64 size)) b) (cs : List StackCall)
    {k' : Kmalloc} {outcome : Option (Net × List NetAction)}
    (hcalls : stackCalls k net (c :: cs) = some (k', outcome)) : outcome = none := by
  rw [stackCalls, hblocks, Option.bind_eq_bind, Option.bind_eq_some_iff] at hcalls
  obtain ⟨⟨k₁, given⟩, hnest, hrest⟩ := hcalls
  obtain rfl : given = false := nestBlocks_null h hfull hnest
  exact (Prod.mk.inj (Option.some.inj hrest)).2.symm

end Served

end ZohoOs
