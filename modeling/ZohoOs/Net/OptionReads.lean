import ZohoOs.Net.Dhcp

/-!
# What the walk over the options reads

The loop of `dhcp_handle` compares its position with the end of the datagram at its head only. A round
reads the type and the length of an option, and of the types it knows a part of the value, whether
the datagram goes on so far or not.

## Main definitions

* `OptionAt`: where the options of a packet lie
* `walkReads`: the bytes the loop reads
* `OptionsComplete`: the datagram has of each option what a round reads

## Main results

* `dhcpOptions_congr`: what is found in the options depends on these bytes only
* `mem_walkReads`: the bytes the loop reads are those of the rounds
* `walkReads_within_iff`: when the loop stays in the datagram
-/

namespace ZohoOs

/-- Where the options lie: from `start` on, one behind the other, up to an end option. -/
inductive OptionAt (pkt : Buffer) (start : Nat) : Nat → Prop
  | first : OptionAt pkt start start
  | next {o : Nat} : OptionAt pkt start o → pkt o ≠ 255 →
      OptionAt pkt start (o + 2 + (pkt (o + 1)).toNat)

/-- How much a round reads of the value of an option: the message type, or the server. -/
def optionNeed (type : Byte) : Nat := if type = 53 then 1 else if type = 54 then 4 else 0

/-- What a round reads: the type and the length in front of `opt`, and what it needs from there. -/
def optionReads (type : Byte) (opt : Nat) : List Nat := List.range' (opt - 2) (2 + optionNeed type)

/-- A round, for the bytes it reads. -/
def readOption (reads : List Nat) (type : Byte) (opt : Nat) : List Nat := reads ++ optionReads type opt

/-- The bytes the loop of `dhcp_handle` reads: those of its rounds, and at its end the type of an end
option. -/
def walkReads (pkt : Buffer) (len : Nat) : List Nat :=
  let (reads, stop) := optionWalk pkt len readOption len 240 []
  reads ++ if stop < len then [stop] else []

/-- The datagram has of each option that starts in it what a round reads. -/
def OptionsComplete (pkt : Buffer) (len : Nat) : Prop :=
  ∀ o, OptionAt pkt 240 o → o < len → pkt o ≠ 255 → o + 2 + optionNeed (pkt o) ≤ len

/-! ## The options -/

section Options

variable {pkt pkt' : Buffer} {start o : Nat}

theorem OptionAt.le (h : OptionAt pkt start o) : start ≤ o := by
  induction h with
  | first => exact Nat.le_refl start
  | next _ _ ih => omega

/-- The options behind the first. -/
theorem optionAt_iff : OptionAt pkt start o ↔
    o = start ∨ (pkt start ≠ 255 ∧ OptionAt pkt (start + 2 + (pkt (start + 1)).toNat) o) := by
  constructor
  · intro h
    induction h with
    | first => exact Or.inl rfl
    | next hat hend ih =>
      right
      rcases ih with rfl | ⟨hstart, hlater⟩
      · exact ⟨hend, .first⟩
      · exact ⟨hstart, hlater.next hend⟩
  · rintro (rfl | ⟨hstart, hlater⟩)
    · exact .first
    · induction hlater with
      | first => exact OptionAt.first.next hstart
      | next _ hend ih => exact ih.next hend

theorem mem_optionReads {type : Byte} {i : Nat} :
    i ∈ optionReads type (o + 2) ↔ o ≤ i ∧ i < o + 2 + optionNeed type := by
  rw [optionReads, List.mem_range'_1]
  omega

end Options

/-! ## The walk -/

section Walk

variable {α β : Type} {pkt pkt' : Buffer} {len fuel opt : Nat}

/-- **The bytes of the rounds**, from any option on. -/
theorem mem_readOption {i : Nat} {reads : List Nat} (hfuel : len ≤ opt + fuel) :
    i ∈ (optionWalk pkt len readOption fuel opt reads).1 ↔ i ∈ reads ∨
      ∃ o, OptionAt pkt opt o ∧ o < len ∧ pkt o ≠ 255 ∧ i ∈ optionReads (pkt o) (o + 2) := by
  induction fuel generalizing opt reads with
  | zero =>
    have hnone : ¬ ∃ o, OptionAt pkt opt o ∧ o < len ∧ pkt o ≠ 255 ∧
        i ∈ optionReads (pkt o) (o + 2) := by
      rintro ⟨o, hat, hlt, -⟩
      have hle := hat.le
      omega
    exact (or_iff_left hnone).symm
  | succ fuel ih =>
    by_cases hgo : opt < len ∧ pkt opt ≠ 255
    · rw [optionWalk_next hgo.1 hgo.2, ih (by omega), readOption, List.mem_append, or_assoc]
      apply or_congr_right
      -- the bytes of this round, and of those from the next option on
      constructor
      · rintro (hi | ⟨o, hat, hlt, hend, hi⟩)
        · exact ⟨opt, .first, hgo.1, hgo.2, hi⟩
        · exact ⟨o, optionAt_iff.mpr (Or.inr ⟨hgo.2, hat⟩), hlt, hend, hi⟩
      · rintro ⟨o, hat, hlt, hend, hi⟩
        rcases optionAt_iff.mp hat with rfl | ⟨-, hlater⟩
        · exact Or.inl hi
        · exact Or.inr ⟨o, hlater, hlt, hend, hi⟩
    · rw [optionWalk_stop hgo]
      have hnone : ¬ ∃ o, OptionAt pkt opt o ∧ o < len ∧ pkt o ≠ 255 ∧
          i ∈ optionReads (pkt o) (o + 2) := by
        rintro ⟨o, hat, hlt, hend, -⟩
        have hle := hat.le
        rcases optionAt_iff.mp hat with rfl | ⟨hstart, -⟩
        · exact hgo ⟨hlt, hend⟩
        · exact hgo ⟨by omega, hstart⟩
      exact (or_iff_left hnone).symm

/-- Two packets that agree where the loop reads are walked the same way. -/
theorem optionWalk_congr {acc : Byte × Ipv4}
    (hagree : ∀ o, OptionAt pkt opt o → o < len →
      pkt o = pkt' o ∧ (pkt o ≠ 255 → ∀ i ∈ optionReads (pkt o) (o + 2), pkt i = pkt' i)) :
    optionWalk pkt len (dhcpOption pkt) fuel opt acc =
      optionWalk pkt' len (dhcpOption pkt') fuel opt acc := by
  induction fuel generalizing opt acc with
  | zero => rfl
  | succ fuel ih =>
    by_cases hlt : opt < len
    -- the type is read first, and the length and the value with it unless it is the end
    · obtain ⟨htype, hround⟩ := hagree opt .first hlt
      by_cases hend : pkt opt = 255
      · rw [optionWalk_stop fun h => h.2 hend, optionWalk_stop fun h => h.2 (htype ▸ hend)]
      have hlen : pkt (opt + 1) = pkt' (opt + 1) :=
        hround hend (opt + 1) (mem_optionReads.mpr ⟨by omega, by omega⟩)
      have hoption : dhcpOption pkt acc (pkt opt) (opt + 2) =
          dhcpOption pkt' acc (pkt opt) (opt + 2) := by
        unfold dhcpOption
        split_ifs with hmsg hserver
        · rw [hround hend (opt + 2) (mem_optionReads.mpr ⟨by omega, by simp [optionNeed, hmsg]⟩)]
        · have hbytes : readArray pkt (opt + 2) 4 = readArray pkt' (opt + 2) 4 := by
            apply Vector.ext
            intro i hi
            rw [readArray, readArray, Vector.getElem_ofFn, Vector.getElem_ofFn]
            apply hround hend
            rw [mem_optionReads, optionNeed, if_neg hmsg, if_pos hserver]
            omega
          rw [hbytes]
        · rfl
      rw [optionWalk_next hlt hend, optionWalk_next hlt (htype ▸ hend), hoption, hlen, ← htype]
      -- the next option of this walk is one of the walk from the start
      apply ih
      rw [← hlen]
      intro o hat
      exact hagree o (optionAt_iff.mpr (Or.inr ⟨hend, hat⟩))
    · rw [optionWalk_stop fun h => hlt h.1, optionWalk_stop fun h => hlt h.1]

/-- The loop stops where an option would start. -/
theorem optionAt_stop {f : α → Byte → Nat → α} {a : α} :
    OptionAt pkt opt (optionWalk pkt len f fuel opt a).2 := by
  induction fuel generalizing opt a with
  | zero => exact .first
  | succ fuel ih =>
    by_cases hgo : opt < len ∧ pkt opt ≠ 255
    · rw [optionWalk_next hgo.1 hgo.2]
      exact optionAt_iff.mpr (Or.inr ⟨hgo.2, ih⟩)
    · rw [optionWalk_stop hgo]
      exact .first

/-- An end option in the packet is where the loop stops. -/
theorem optionWalk_stop_end {f : α → Byte → Nat → α} {a : α} {o : Nat} (hfuel : len ≤ opt + fuel)
    (hat : OptionAt pkt opt o) (hlt : o < len) (hend : pkt o = 255) :
    (optionWalk pkt len f fuel opt a).2 = o := by
  induction fuel generalizing opt a with
  | zero =>
    have hle := hat.le
    omega
  | succ fuel ih =>
    rcases optionAt_iff.mp hat with rfl | ⟨hstart, hlater⟩
    · rw [optionWalk_stop fun h => h.2 hend]
    · have hle := hlater.le
      rw [optionWalk_next (by omega) hstart]
      exact ih (by omega) hlater

end Walk

/-! ## The datagram -/

section Datagram

variable {pkt pkt' : Buffer} {len : Nat}

/-- **The bytes the loop reads**: the type of each option that starts in the datagram, and if it is no
end option what its round reads. -/
theorem mem_walkReads {i : Nat} : i ∈ walkReads pkt len ↔ ∃ o, OptionAt pkt 240 o ∧ o < len ∧
    (i = o ∨ pkt o ≠ 255 ∧ i ∈ optionReads (pkt o) (o + 2)) := by
  -- the bytes of the rounds, and the byte that the loop ends at if it is in the packet
  have hmem : i ∈ walkReads pkt len ↔
      i ∈ (optionWalk pkt len readOption len 240 []).1 ∨
        (optionWalk pkt len readOption len 240 []).2 < len ∧
          i = (optionWalk pkt len readOption len 240 []).2 := by
    unfold walkReads
    dsimp only
    rw [List.mem_append]
    apply or_congr_right
    split
    · rename_i hstop
      rw [List.mem_singleton, and_iff_right hstop]
    · rename_i hstop
      exact iff_of_false List.not_mem_nil fun h => hstop h.1
  rw [hmem, mem_readOption (by omega)]
  constructor
  · rintro ((hi | ⟨o, hat, hlt, hend, hi⟩) | ⟨hlt, rfl⟩)
    · exact absurd hi List.not_mem_nil
    · exact ⟨o, hat, hlt, Or.inr ⟨hend, hi⟩⟩
    · exact ⟨_, optionAt_stop, hlt, Or.inl rfl⟩
  · rintro ⟨o, hat, hlt, hi⟩
    by_cases hend : pkt o = 255
    · -- the loop stops here
      have hstop : (optionWalk pkt len readOption len 240 []).2 = o :=
        optionWalk_stop_end (by omega) hat hlt hend
      obtain rfl := hi.resolve_right fun h => h.1 hend
      exact Or.inr ⟨hstop.symm ▸ hlt, hstop.symm⟩
    -- a round reads the type as well
    · refine Or.inl (Or.inr ⟨o, hat, hlt, hend, ?_⟩)
      rcases hi with rfl | ⟨-, hi⟩
      · exact mem_optionReads.mpr ⟨Nat.le_refl _, by omega⟩
      · exact hi

/-- **What is found in the options depends on these bytes only.** -/
theorem dhcpOptions_congr (d : Dhcp) (hagree : ∀ i ∈ walkReads pkt len, pkt i = pkt' i) :
    dhcpOptions d pkt len = dhcpOptions d pkt' len := by
  have hwalk : optionWalk pkt len (dhcpOption pkt) len 240 (0, d.serverIp) =
      optionWalk pkt' len (dhcpOption pkt') len 240 (0, d.serverIp) := by
    apply optionWalk_congr
    intro o hat hlt
    refine ⟨hagree o (mem_walkReads.mpr ⟨o, hat, hlt, Or.inl rfl⟩), ?_⟩
    intro hend i hi
    exact hagree i (mem_walkReads.mpr ⟨o, hat, hlt, Or.inr ⟨hend, hi⟩⟩)
  rw [dhcpOptions, hwalk, dhcpOptions]

/-- **When the loop stays in the datagram.** It always ends. It reads no byte behind the datagram just
if the datagram has, of each option that starts in it, the length and what a round reads of the
value. -/
theorem walkReads_within_iff (pkt : Buffer) (len : Nat) :
    ((len ≤ (optionWalk pkt len readOption len 240 []).2 ∨
        pkt (optionWalk pkt len readOption len 240 []).2 = 255) ∧
      ∀ i ∈ walkReads pkt len, i < len) ↔ OptionsComplete pkt len := by
  constructor
  · rintro ⟨-, hwithin⟩ o hat hlt hend
    -- the last byte that the round reads
    have hlast : o + 1 + optionNeed (pkt o) < len := by
      apply hwithin
      refine mem_walkReads.mpr ⟨o, hat, hlt, Or.inr ⟨hend, mem_optionReads.mpr ⟨?_, ?_⟩⟩⟩ <;> omega
    omega
  · intro hcomplete
    refine ⟨optionWalk_ends pkt len readOption [] (by omega), ?_⟩
    intro i hi
    obtain ⟨o, hat, hlt, rfl | ⟨hend, hi⟩⟩ := mem_walkReads.mp hi
    · exact hlt
    · have hround := hcomplete o hat hlt hend
      obtain ⟨-, hlast⟩ := mem_optionReads.mp hi
      omega

/-- **An option that is cut off.** A reply of 241 bytes that ends with the type of an option is
accepted, and the loop reads its length and its value behind the datagram. -/
theorem walkReads_overread : dhcpAccepts (sampleReply 2) 241 ∧
    242 ∈ walkReads (sampleReply 2) 241 ∧ ¬ ∀ i ∈ walkReads (sampleReply 2) 241, i < 241 := by
  have hread : 242 ∈ walkReads (sampleReply 2) 241 := by
    refine mem_walkReads.mpr ⟨240, .first, by decide, Or.inr ⟨by decide, ?_⟩⟩
    exact mem_optionReads.mpr ⟨by decide, by decide⟩
  refine ⟨⟨by decide, (sampleReply_accepted 2).2⟩, hread, ?_⟩
  intro h
  exact absurd (h 242 hread) (by decide)

end Datagram

end ZohoOs
