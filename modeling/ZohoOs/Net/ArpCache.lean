import ZohoOs.Lib.SlotTable
import ZohoOs.Net.Send

/-!
# The ARP cache

One loop of `net_handle_arp` both enters a sender in the cache and updates it, by stopping at the
first entry that is free or has its address. Over any frames the cache is a table of slots.

## Main definitions

* `netInit`: the stack after `net_init`
* `arpSender`: the addresses a frame brings to the cache
* `receiveAll`: the stack after a sequence of frames

## Main results

* `netHandlePacket_arpCache`: what a frame does to the cache
* `receiveAll_slots`: the cache after a sequence of frames
* `arpCache_latestWins`: what the senders find there
-/

namespace ZohoOs

open LastWrite SlotTable

/-- `ARP_CACHE_SIZE`. -/
def arpCacheSize : Nat := 32

/-- `net_init`. -/
def netInit (net : Net) (mac : Mac) : Net :=
  { net with
    myMac := mac
    arpCache := List.replicate arpCacheSize ⟨Vector.replicate 4 0#8, Vector.replicate 6 0#8, false⟩
    udpBindings := List.replicate 16 ⟨0, 0, false⟩
    tcpBindings := List.replicate 16 ⟨0, 0, false⟩ }

/-- The sender's addresses, of a frame with an ARP packet for Ethernet and IPv4. -/
def arpSender (frame : Buffer × BitVec 16) : Option (Ipv4 × Mac) :=
  if 42 ≤ frame.2.toNat ∧ be16 frame.1 12 = 0x0806 ∧ be16 frame.1 14 = 1 ∧
      be16 frame.1 16 = 0x0800 then
    some (readArray frame.1 28 4, readArray frame.1 22 6)
  else none

/-- The stack after a sequence of frames. -/
def receiveAll (net : Net) (frames : List (Buffer × BitVec 16)) : Net :=
  frames.foldl (fun net frame => (netHandlePacket net frame.1 frame.2).1) net

/-! ## One frame -/

section Frame

variable {net : Net} {mem : Buffer}

theorem netHandleIcmp_arpCache (srcMac : Mac) (ip data n : Nat) :
    (netHandleIcmp net mem srcMac ip data n).1.arpCache = net.arpCache := by
  unfold netHandleIcmp
  split
  · rfl
  split <;> rfl

theorem netHandleIpv4_arpCache (srcMac : Mac) (data n : Nat) :
    (netHandleIpv4 net mem srcMac data n).1.arpCache = net.arpCache := by
  unfold netHandleIpv4
  dsimp only
  split
  · rfl
  split
  · rfl
  split
  · exact netHandleIcmp_arpCache srcMac data _ _
  split
  · rfl
  split <;> rfl

/-- `net_handle_arp` enters the sender of a packet that is for Ethernet and IPv4. -/
theorem netHandleArp_arpCache (data n : Nat) : (netHandleArp net mem data n).1.arpCache =
    if 28 ≤ n ∧ be16 mem data = 1 ∧ be16 mem (data + 2) = 0x0800 then
      arpCacheUpdate (readArray mem (data + 14) 4) (readArray mem (data + 8) 6) net.arpCache
    else net.arpCache := by
  unfold netHandleArp
  by_cases hlen : n < 28
  · rw [if_pos hlen, if_neg fun h => absurd h.1 (Nat.not_le.mpr hlen)]
  rw [if_neg hlen]
  by_cases htypes : be16 mem data ≠ 1 ∨ be16 mem (data + 2) ≠ 0x0800
  · rw [if_pos htypes, if_neg fun h => htypes.elim (· h.2.1) (· h.2.2)]
  obtain ⟨hhtype, hptype⟩ := not_or.mp htypes
  have henter : 28 ≤ n ∧ be16 mem data = 1 ∧ be16 mem (data + 2) = 0x0800 :=
    ⟨Nat.not_lt.mp hlen, not_not.mp hhtype, not_not.mp hptype⟩
  rw [if_neg htypes, if_pos henter]
  dsimp only
  split <;> rfl

/-- **What a frame does to the cache.** Only the sender of an ARP packet is entered. -/
theorem netHandlePacket_arpCache (net : Net) (frame : Buffer × BitVec 16) :
    (netHandlePacket net frame.1 frame.2).1.arpCache =
      (arpSender frame).elim net.arpCache fun p => arpCacheUpdate p.1 p.2 net.arpCache := by
  obtain ⟨mem, len⟩ := frame
  unfold netHandlePacket arpSender
  dsimp only
  by_cases hlen : len.toNat < 14
  · rw [if_pos hlen, if_neg fun h => by omega]
    rfl
  rw [if_neg hlen]
  by_cases harp : be16 mem 12 = 0x0806
  · rw [if_pos harp, netHandleArp_arpCache]
    by_cases h : 28 ≤ len.toNat - 14 ∧ be16 mem 14 = 1 ∧ be16 mem 16 = 0x0800
    · rw [if_pos h, if_pos ⟨by omega, harp, h.2⟩]
      rfl
    · rw [if_neg h, if_neg fun h' => h ⟨by omega, h'.2.2⟩]
      rfl
  · have hnone : ¬ (42 ≤ len.toNat ∧ be16 mem 12 = 0x0806 ∧ be16 mem 14 = 1 ∧
        be16 mem 16 = 0x0800) := fun h => harp h.2.1
    rw [if_neg harp, if_neg hnone]
    split
    · exact netHandleIpv4_arpCache _ _ _
    · rfl

end Frame

/-! ## Slots -/

/-- An entry as a slot. -/
def arpSlot (e : ArpEntry) : Option (Ipv4 × Mac) := if e.valid then some (e.ip, e.mac) else none

section Slots

variable {cache : List ArpEntry} {e : ArpEntry}

theorem arpSlot_valid (h : e.valid = true) : arpSlot e = some (e.ip, e.mac) := if_pos h

theorem arpSlot_free (h : e.valid = false) : arpSlot e = none := by
  rw [arpSlot, h]
  rfl

/-- The loop of `net_handle_arp` stores in the first slot that is free or has the address. -/
theorem arpCacheUpdate_slots (ip : Ipv4) (mac : Mac) (cache : List ArpEntry) :
    (arpCacheUpdate ip mac cache).map arpSlot = store (ip, mac) (cache.map arpSlot) := by
  induction cache with
  | nil => rfl
  | cons e cache ih =>
    rw [arpCacheUpdate, List.map_cons]
    by_cases hvalid : e.valid = true
    · rw [arpSlot_valid hvalid, store]
      by_cases hip : e.ip = ip
      · rw [if_pos (Or.inr hip), if_pos hip]
        rfl
      · rw [if_neg (not_or.mpr ⟨by simp [hvalid], hip⟩), if_neg hip, List.map_cons,
          arpSlot_valid hvalid, ih]
    · have hfree := eq_false_of_ne_true hvalid
      rw [if_pos (Or.inl hfree), arpSlot_free hfree]
      rfl

/-- The loops of the senders find the first slot with the address. -/
theorem arpLookup_slots (cache : List ArpEntry) (ip : Ipv4) :
    arpLookup cache ip = find ip (cache.map arpSlot) := by
  induction cache with
  | nil => rfl
  | cons e cache ih =>
    unfold arpLookup at ih ⊢
    rw [List.map_cons]
    by_cases hvalid : e.valid = true
    · rw [arpSlot_valid hvalid, find]
      by_cases hip : e.ip = ip
      · rw [List.find?_cons_of_pos (by simp [hvalid, hip]), if_pos hip]
        rfl
      · rw [List.find?_cons_of_neg (by simp [hip]), if_neg hip, ih]
    · have hfree := eq_false_of_ne_true hvalid
      rw [List.find?_cons_of_neg (by simp [hfree]), arpSlot_free hfree, find, ih]

/-- Slots in use, with those that are free behind them. -/
theorem arpCache_prefix {keys : List Ipv4} {f : Ipv4 → Option (Ipv4 × Mac)} {n : Nat}
    (hf : Filled f keys) (h : cache.map arpSlot = keys.map f ++ List.replicate n none) :
    ∃ used free, cache = used ++ free ∧ (∀ e ∈ used, e.valid = true) ∧
      (∀ e ∈ free, e.valid = false) ∧ used.map ArpEntry.ip = keys := by
  obtain ⟨used, free, rfl, hused, hfree⟩ := List.map_eq_append_iff.mp h
  -- a slot in use has an entry, and so one that is valid
  have hvalid : ∀ e ∈ used, e.valid = true := by
    intro e he
    obtain ⟨k, hk, hslot⟩ := List.mem_map.mp (hused ▸ List.mem_map_of_mem he)
    obtain ⟨v, hv⟩ := hf k hk
    by_contra hinvalid
    rw [arpSlot_free (eq_false_of_ne_true hinvalid), hv] at hslot
    exact Option.some_ne_none _ hslot
  refine ⟨used, free, rfl, hvalid, ?_, ?_⟩
  · intro e he
    have hslot := List.eq_of_mem_replicate (hfree ▸ List.mem_map_of_mem he)
    apply eq_false_of_ne_true
    intro hvalid
    rw [arpSlot_valid hvalid] at hslot
    exact Option.some_ne_none _ hslot
  · -- the address of an entry in use is the key of its slot
    apply List.map_injective_iff.mpr fun _ _ => Option.some.inj
    have hkeys := congrArg (List.map (Option.map Prod.fst)) hused
    rw [List.map_map, List.map_map] at hkeys
    calc (used.map ArpEntry.ip).map some
        = used.map (Option.map Prod.fst ∘ arpSlot) := by
          rw [List.map_map]
          apply List.map_congr_left
          intro e he
          rw [Function.comp_apply, Function.comp_apply, arpSlot_valid (hvalid e he)]
          rfl
      _ = keys.map (Option.map Prod.fst ∘ f) := hkeys
      _ = keys.map some := by
          apply List.map_congr_left
          intro k hk
          obtain ⟨v, hv⟩ := hf k hk
          rw [Function.comp_apply, hv]
          rfl

end Slots

/-! ## Any frames -/

/-- **The cache after a sequence of frames** is the table of their senders. -/
theorem receiveAll_slots (net : Net) (mac : Mac) (frames : List (Buffer × BitVec 16)) :
    (receiveAll (netInit net mac) frames).arpCache.map arpSlot =
    storeAll arpCacheSize (frames.filterMap arpSender) := by
  induction frames using List.reverseRecOn with
  | nil => rfl
  | append_singleton frames frame ih =>
    have hstep : receiveAll (netInit net mac) (frames ++ [frame]) =
        (netHandlePacket (receiveAll (netInit net mac) frames) frame.1 frame.2).1 := by
      rw [receiveAll, List.foldl_append, List.foldl_cons, List.foldl_nil, receiveAll]
    rw [hstep, netHandlePacket_arpCache, List.filterMap_append]
    cases hsender : arpSender frame with
    | none => rw [List.filterMap_cons_none hsender, List.filterMap_nil, List.append_nil, ← ih]; rfl
    | some p =>
      rw [List.filterMap_cons_some hsender, List.filterMap_nil, storeAll_concat, ← ih]
      exact arpCacheUpdate_slots p.1 p.2 _

/-- **The ARP cache is a latest-wins map.** After any frames, the entries in use come first in the
cache and have different addresses; and for an address the senders find what its last ARP packet
said, if it is one of the first `ARP_CACHE_SIZE` senders, and nothing if not. -/
theorem arpCache_latestWins (net : Net) (mac : Mac) (frames : List (Buffer × BitVec 16)) :
    let cache := (receiveAll (netInit net mac) frames).arpCache
    let history := frames.filterMap arpSender
    (∃ used free, cache = used ++ free ∧ cache.length = arpCacheSize ∧
      (∀ e ∈ used, e.valid = true) ∧ (∀ e ∈ free, e.valid = false) ∧
      (used.map ArpEntry.ip).Nodup) ∧
    ∀ ip, arpLookup cache ip = if ip ∈ comers arpCacheSize history then
      (lastWrite Prod.fst history ip).map Prod.snd else none := by
  intro cache history
  have hslots : cache.map arpSlot = storeAll arpCacheSize history :=
    receiveAll_slots net mac frames
  have hfilled : Filled (lastWrite Prod.fst history) (comers arpCacheSize history) :=
    lastWrite_filled fun _ => comers_mem
  constructor
  · rw [storeAll_eq] at hslots
    obtain ⟨used, free, hcache, hused, hfree, hkeys⟩ := arpCache_prefix hfilled hslots
    refine ⟨used, free, hcache, ?_, hused, hfree, hkeys ▸ comers_nodup⟩
    have hlength := congrArg List.length hslots
    have hle : (comers arpCacheSize history).length ≤ arpCacheSize := comers_length_le
    rw [List.length_map, List.length_append, List.length_map, List.length_replicate] at hlength
    omega
  · intro ip
    rw [arpLookup_slots, hslots, find_storeAll]
    by_cases hip : ip ∈ comers arpCacheSize history
    · rw [if_pos hip, if_pos hip]
    · rw [if_neg hip, if_neg hip]

end ZohoOs
