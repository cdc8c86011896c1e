import ZohoOs.Lib.OnesComplement
import ZohoOs.Net.RoundTrip

/-!
# Checksums

`net_checksum` adds 16-bit words in 32 bits, adds the carries, and stores the complement.
`net_send_tcp` has the sum written out once more, over a pseudo-header and a segment that lie apart.

## Main definitions

* `wordSum`: the words of a buffer, added without a bound
* `tcpSum`: the loops of `net_send_tcp`

## Main results

* `netChecksum_eq`: the checksum is the one's complement of the sum
* `netChecksum_store`: a checksum that is stored makes the whole check
* `tcpSum_eq`: the loops of `net_send_tcp` add what `net_checksum` adds
* `netChecksum_laws`: both
-/

namespace ZohoOs

open OnesComplement

/-- A 16-bit value, as it is stored. -/
def storedWord (v : Nat) : List Byte := [BitVec.ofNat 8 v, BitVec.ofNat 8 (v / 256)]

/-- The 16-bit words of a buffer, added without a bound. -/
def wordSum : List Byte → Nat
  | lo :: hi :: rest => lo.toNat + hi.toNat * 256 + wordSum rest
  | [last] => last.toNat
  | [] => 0

/-! ## The sum -/

section Sum

variable {data front back : List Byte}

theorem wordSum_storedWord {v : Nat} (hv : v < 2 ^ 16) : wordSum (storedWord v) = v := by
  simp only [storedWord, wordSum, BitVec.toNat_ofNat]
  omega

/-- Words of a buffer behind another, where no word crosses. -/
theorem wordSum_append (heven : front.length % 2 = 0) :
    wordSum (front ++ back) = wordSum front + wordSum back := by
  induction front using wordSum.induct with
  | case1 lo hi rest ih =>
    rw [List.length_cons, List.length_cons, Nat.add_assoc, Nat.add_mod_right] at heven
    rw [List.cons_append, List.cons_append, wordSum, wordSum, ih heven, Nat.add_assoc _ _ (wordSum back)]
  | case2 last => exact absurd heven (by decide : ¬ 1 % 2 = 0)
  | case3 => rw [List.nil_append, wordSum, Nat.zero_add]

theorem wordSum_le (data : List Byte) : wordSum data ≤ (data.length + 1) / 2 * 65535 := by
  induction data using wordSum.induct with
  | case1 lo hi rest ih =>
    have hlo := lo.isLt
    have hhi := hi.isLt
    rw [wordSum, List.length_cons, List.length_cons]
    omega
  | case2 last =>
    have hlast := last.isLt
    rw [wordSum, List.length_singleton]
    omega
  | case3 => exact Nat.zero_le _

/-- The words of a packet, with its pseudo-header, do not overflow. -/
theorem wordSum_lt (hlen : data.length ≤ 2 ^ 17) : wordSum data < 2 ^ 32 := by
  have hle := wordSum_le data
  omega

theorem checksumWords_eq {sum : Nat} (hsum : sum < 2 ^ 32) (data : List Byte) :
    checksumWords sum data = (sum + wordSum data) % 2 ^ 32 := by
  induction sum, data using checksumWords.induct with
  | case1 sum lo hi rest ih =>
    rw [checksumWords, ih (Nat.mod_lt _ (by decide)), wordSum, Nat.mod_add_mod, Nat.add_assoc]
  | case2 sum last => rw [checksumWords, wordSum]
  | case3 sum => rw [checksumWords, wordSum, Nat.add_zero, Nat.mod_eq_of_lt hsum]

/-- The loop over the carries ends in one word. -/
theorem foldCarries_eq (sum : Nat) : foldCarries sum = carried 65535 sum := by
  induction sum using foldCarries.induct with
  | case1 sum hnone =>
    rw [foldCarries, if_pos hnone]
    rw [Nat.shiftRight_eq_div_pow] at hnone
    exact (carried_of_le (by omega)).symm
  | case2 sum hsome ih =>
    rw [foldCarries, if_neg hsome, ih, Nat.shiftRight_eq_div_pow]
    exact carried_carry

theorem foldCarries_lt (sum : Nat) : foldCarries sum < 2 ^ 16 := by
  rw [foldCarries_eq]
  exact Nat.lt_succ_of_le (carried_le (by decide))

/-- **The checksum** is the one's complement of the words. -/
theorem netChecksum_eq (hlen : data.length ≤ 2 ^ 17) :
    netChecksum data = storedWord (65535 - carried 65535 (wordSum data)) := by
  have hwords : checksumWords 0 data = wordSum data := by
    rw [checksumWords_eq (by decide), Nat.zero_add, Nat.mod_eq_of_lt (wordSum_lt hlen)]
  rw [netChecksum, hwords, Nat.mod_eq_of_lt (foldCarries_lt _), foldCarries_eq]
  rfl

end Sum

/-! ## Storing it -/

/-- A checksum over a field of zeros, stored in the field, makes the whole check. -/
theorem netChecksum_append {front back : List Byte} (heven : front.length % 2 = 0)
    (hlen : (front ++ [0#8, 0#8] ++ back).length ≤ 2 ^ 17) :
    netChecksum (front ++ netChecksum (front ++ [0#8, 0#8] ++ back) ++ back) = [0#8, 0#8] := by
  have hfield (field : List Byte) (hf : field.length = 2) :
      wordSum (front ++ field ++ back) = wordSum front + wordSum field + wordSum back := by
    rw [wordSum_append (by rw [List.length_append, hf]; omega), wordSum_append heven]
  have hzero := hfield [0#8, 0#8] rfl
  have hlen' : (front ++ netChecksum (front ++ [0#8, 0#8] ++ back) ++ back).length ≤ 2 ^ 17 := by
    simpa only [List.length_append, netChecksum_length, List.length_cons, List.length_nil] using hlen
  rw [netChecksum_eq hlen', hfield _ (netChecksum_length _), netChecksum_eq hlen,
    wordSum_storedWord (by omega)]
  -- the word stored is the complement of the sum of all others
  have hsum : wordSum front + (65535 - carried 65535 (wordSum (front ++ [0#8, 0#8] ++ back))) +
      wordSum back = wordSum (front ++ [0#8, 0#8] ++ back) +
        (65535 - carried 65535 (wordSum (front ++ [0#8, 0#8] ++ back))) := by
    have hz : wordSum [0#8, 0#8] = 0 := rfl
    omega
  rw [hsum, carried_add_complement (by decide)]
  rfl

/-- **A stored checksum checks**, at any even offset. -/
theorem netChecksum_store (data : List Byte) (off : Nat) (hlen : data.length ≤ 65535)
    (heven : off % 2 = 0) (hfield : off + 2 ≤ data.length) :
    netChecksum (patch (patch data off [0#8, 0#8]) off
      (netChecksum (patch data off [0#8, 0#8]))) = [0#8, 0#8] := by
  have hfront : (data.take off).length = off := List.length_take_of_le (by omega)
  have hzeroed : patch data off [0#8, 0#8] =
      data.take off ++ [0#8, 0#8] ++ data.drop (off + 2) := rfl
  have hstore := patch_append (data.take off) [0#8, 0#8] (data.drop (off + 2))
    (netChecksum (patch data off [0#8, 0#8])) (netChecksum_length _)
  rw [hfront] at hstore
  rw [hzeroed] at hstore ⊢
  rw [hstore]
  apply netChecksum_append
  · rwa [hfront]
  · simp only [List.length_append, List.length_take, List.length_drop, List.length_cons,
      List.length_nil]
    omega

/-! ## The segments of TCP -/

/-- The pseudo-header of `net_send_tcp`. -/
def pseudoHeader (srcIp dstIp : Ipv4) (totalLen : Nat) : List Byte :=
  srcIp.toList ++ dstIp.toList ++ [0#8, 6#8] ++ bytes16 totalLen

/-- `p[i]`, of the 16-bit words of a buffer. -/
def wordAt (data : List Byte) (i : Nat) : Nat :=
  (data.getD (2 * i) 0#8).toNat + (data.getD (2 * i + 1) 0#8).toNat * 256

/-- A loop over the first `n` words, in 32 bits. -/
def addWords (data : List Byte) (sum n : Nat) : Nat :=
  (List.range n).foldl (fun sum i => (sum + wordAt data i) % 2 ^ 32) sum

/-- The loops of `net_send_tcp` over the pseudo-header and the segment. -/
def tcpSum (pseudo tcp : List Byte) (totalLen : Nat) : Nat :=
  let sum := addWords tcp (addWords pseudo 0 6) (totalLen / 2)
  if totalLen % 2 = 0 then sum else (sum + (tcp.getD (totalLen - 1) 0#8).toNat) % 2 ^ 32

section Segment

variable {data pseudo tcp : List Byte} {sum n : Nat}

theorem getD_eq_getElem {i : Nat} (h : i < data.length) : data.getD i 0#8 = data[i] := by
  rw [List.getD_eq_getElem?_getD, List.getElem?_eq_getElem h, Option.getD_some]

theorem take_two (h : 2 * n + 2 ≤ data.length) : data.take (2 * (n + 1)) =
    data.take (2 * n) ++ [data.getD (2 * n) 0#8, data.getD (2 * n + 1) 0#8] := by
  rw [Nat.mul_succ, List.take_add_one, List.take_add_one, List.append_assoc,
    List.getElem?_eq_getElem (by omega), List.getElem?_eq_getElem (by omega),
    getD_eq_getElem (by omega), getD_eq_getElem (by omega)]
  rfl

/-- The loop adds the words it reaches. -/
theorem addWords_eq (hsum : sum < 2 ^ 32) (h : 2 * n ≤ data.length) :
    addWords data sum n = (sum + wordSum (data.take (2 * n))) % 2 ^ 32 := by
  induction n with
  | zero => rw [Nat.mul_zero, List.take_zero, wordSum, Nat.add_zero, Nat.mod_eq_of_lt hsum]; rfl
  | succ n ih =>
    have hlast : addWords data sum (n + 1) = (addWords data sum n + wordAt data n) % 2 ^ 32 := by
      rw [addWords, List.range_succ, List.foldl_append]
      rfl
    have htake : (data.take (2 * n)).length % 2 = 0 := by
      rw [List.length_take_of_le (by omega), Nat.mul_mod_right]
    rw [hlast, ih (by omega), take_two (by omega), wordSum_append htake, Nat.mod_add_mod,
      Nat.add_assoc sum]
    rfl

/-- **The loops of `net_send_tcp`** add the words of the pseudo-header and of the segment. -/
theorem tcpSum_eq (hpseudo : pseudo.length = 12) (htcp : tcp.length < 2 ^ 16) :
    tcpSum pseudo tcp tcp.length = wordSum (pseudo ++ tcp) := by
  -- the sum of all words fits in 32 bits, so that no carry is lost
  have hlt : wordSum (pseudo ++ tcp) < 2 ^ 32 := by
    apply wordSum_lt
    rw [List.length_append]
    omega
  have happend : wordSum (pseudo ++ tcp) = wordSum pseudo + wordSum tcp :=
    wordSum_append (by rw [hpseudo])
  have hfirst : addWords pseudo 0 6 = wordSum pseudo := by
    rw [addWords_eq (by decide) (by omega), List.take_of_length_le (by omega), Nat.zero_add,
      Nat.mod_eq_of_lt (by omega)]
  have hloop : addWords tcp (wordSum pseudo) (tcp.length / 2) =
      (wordSum pseudo + wordSum (tcp.take (2 * (tcp.length / 2)))) % 2 ^ 32 :=
    addWords_eq (by omega) (by omega)
  unfold tcpSum
  rw [hfirst, hloop]
  by_cases heven : tcp.length % 2 = 0
  · rw [if_pos heven, List.take_of_length_le (by omega), ← happend, Nat.mod_eq_of_lt hlt]
  · -- the odd byte is the last word
    have hlast : tcp.drop (2 * (tcp.length / 2)) = [tcp.getD (tcp.length - 1) 0#8] := by
      rw [show 2 * (tcp.length / 2) = tcp.length - 1 by omega, getD_eq_getElem (by omega),
        List.drop_eq_getElem_cons (by omega), Nat.sub_add_cancel (by omega), List.drop_length]
    have hsplit : wordSum tcp = wordSum (tcp.take (2 * (tcp.length / 2))) +
        (tcp.getD (tcp.length - 1) 0#8).toNat := by
      conv_lhs => rw [← List.take_append_drop (2 * (tcp.length / 2)) tcp]
      rw [wordSum_append (by rw [List.length_take_of_le (by omega), Nat.mul_mod_right]), hlast]
      rfl
    rw [if_neg heven, Nat.mod_add_mod, Nat.add_assoc, ← hsplit, ← happend, Nat.mod_eq_of_lt hlt]

theorem pseudoHeader_length (srcIp dstIp : Ipv4) (totalLen : Nat) :
    (pseudoHeader srcIp dstIp totalLen).length = 12 := by
  simp only [pseudoHeader, List.length_append, Vector.length_toList, bytes16_length,
    List.length_cons, List.length_nil]

/-- The checksum of a segment is that of the pseudo-header with the segment behind it. -/
theorem tcpChecksum_eq (srcIp dstIp : Ipv4) (totalLen : Nat) :
    tcpChecksum srcIp dstIp totalLen tcp =
      netChecksum (pseudoHeader srcIp dstIp totalLen ++ tcp) := by
  have hpseudo := pseudoHeader_length srcIp dstIp totalLen
  have hwords : checksumWords (checksumWords 0 (pseudoHeader srcIp dstIp totalLen)) tcp =
      checksumWords 0 (pseudoHeader srcIp dstIp totalLen ++ tcp) := by
    rw [checksumWords_eq (by decide) (_ ++ _), wordSum_append (by rw [hpseudo]),
      checksumWords_eq (by decide) (pseudoHeader _ _ _), checksumWords_eq (Nat.mod_lt _ (by decide)),
      Nat.mod_add_mod, Nat.add_assoc]
  rw [netChecksum, ← hwords]
  rfl

/-- What `net_send_tcp` sends, with the checksum of its segment. -/
theorem netSendTcpTo_checksum (net : Net) (targetIp : Ipv4) (targetMac : Mac)
    (srcPort dstPort : BitVec 16) (seq ack : BitVec 32) (flags : Byte) (data : List Byte)
    (hfit : 20 + data.length < 2 ^ 16) :
    let segment := tcpHeader srcPort dstPort seq ack flags ++ [0#8, 0#8] ++ ([0#8, 0#8] ++ data)
    netSendTcpTo net targetIp targetMac srcPort dstPort seq ack flags data =
      netSendIpv4 net targetIp targetMac 6 (patch segment 16
        (netChecksum (pseudoHeader net.myIp targetIp (20 + data.length) ++ segment))) := by
  intro segment
  have hlength : segment.length = 20 + data.length := tcpSegment_length _ _ _ _ _ _ _ rfl
  have hbytes : bytes16 srcPort.toNat ++ bytes16 dstPort.toNat ++ bytes32 seq.toNat ++
      bytes32 ack.toNat ++ [0x50#8, flags] ++ bytes16 8192 ++ [0#8, 0#8] ++ [0#8, 0#8] ++ data =
        segment := by
    simp only [segment, tcpHeader, List.append_assoc]
  rw [netSendTcpTo, Nat.mod_eq_of_lt hfit, hbytes]
  simp only [List.take_of_length_le (Nat.le_of_eq hlength), tcpChecksum_eq]

/-- **The laws of the checksum.** Computed over a field of zeros and stored there, it makes the whole
buffer check; and what `net_send_tcp` stores, from a sum of its own that does not overflow, is the
checksum of the pseudo-header with the segment behind it. -/
theorem netChecksum_laws :
    (∀ (data : List Byte) (off : Nat), data.length ≤ 65535 → off % 2 = 0 → off + 2 ≤ data.length →
      netChecksum (patch (patch data off [0#8, 0#8]) off
        (netChecksum (patch data off [0#8, 0#8]))) = [0#8, 0#8]) ∧
    (∀ (net : Net) (targetIp : Ipv4) (targetMac : Mac) (srcPort dstPort : BitVec 16)
        (seq ack : BitVec 32) (flags : Byte) (data : List Byte), 20 + data.length < 2 ^ 16 →
      let pseudo := pseudoHeader net.myIp targetIp (20 + data.length)
      let segment := tcpHeader srcPort dstPort seq ack flags ++ [0#8, 0#8] ++ ([0#8, 0#8] ++ data)
      netSendTcpTo net targetIp targetMac srcPort dstPort seq ack flags data =
          netSendIpv4 net targetIp targetMac 6
            (patch segment 16 (netChecksum (pseudo ++ segment))) ∧
        storedWord (65535 - foldCarries (tcpSum pseudo segment (20 + data.length)) % 2 ^ 16) =
          netChecksum (pseudo ++ segment) ∧
        tcpSum pseudo segment (20 + data.length) = wordSum (pseudo ++ segment) ∧
        wordSum (pseudo ++ segment) < 2 ^ 32) := by
  refine ⟨netChecksum_store, ?_⟩
  intro net targetIp targetMac srcPort dstPort seq ack flags data hfit pseudo segment
  -- the checksum is of the pseudo header and the segment with zeros in its place
  have hlength : segment.length = 20 + data.length := tcpSegment_length _ _ _ _ _ _ _ rfl
  have hpseudo : pseudo.length = 12 := pseudoHeader_length _ _ _
  have hlen : (pseudo ++ segment).length ≤ 2 ^ 17 := by
    rw [List.length_append]
    omega
  have hsum : tcpSum pseudo segment (20 + data.length) = wordSum (pseudo ++ segment) := by
    rw [← hlength]
    exact tcpSum_eq hpseudo (by omega)
  refine ⟨?_, ?_, hsum, wordSum_lt hlen⟩
  · exact netSendTcpTo_checksum net targetIp targetMac srcPort dstPort seq ack flags data hfit
  · rw [hsum, netChecksum_eq hlen, Nat.mod_eq_of_lt (foldCarries_lt _), foldCarries_eq]

/-- A buffer of five bytes, and a segment with an odd payload. -/
theorem netChecksum_laws_odd :
    netChecksum (patch (patch [1, 2, 3, 4, 5] 2 [0, 0]) 2
      (netChecksum (patch [1, 2, 3, 4, 5] 2 [0, 0]))) = [0, 0] ∧
    let net := demoHost #v[10, 0, 2, 15] #v[10, 0, 2, 2]
    let pseudo := pseudoHeader net.myIp #v[10, 0, 2, 2] 21
    let segment := tcpHeader 5000 7000 7 9 0x10 ++ [0, 0] ++ ([0, 0] ++ [0xff])
    netSendTcpTo net #v[10, 0, 2, 2] (Vector.replicate 6 0x54) 5000 7000 7 9 0x10 [0xff] =
      netSendIpv4 net #v[10, 0, 2, 2] (Vector.replicate 6 0x54) 6
        (patch segment 16 (netChecksum (pseudo ++ segment))) := by
  refine ⟨netChecksum_laws.1 [1, 2, 3, 4, 5] 2 (by decide) (by decide) (by decide), ?_⟩
  intro net pseudo segment
  exact (netChecksum_laws.2 net #v[10, 0, 2, 2] (Vector.replicate 6 0x54) 5000 7000 7 9 0x10 [0xff]
    (by decide)).1

end Segment

end ZohoOs
