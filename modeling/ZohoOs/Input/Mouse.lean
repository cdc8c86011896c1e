import ZohoOs.Net.Packet
import Mathlib.Data.List.Induction

/-!
# The mouse

`mouse_handler` of `mouse.c` puts packets of three bytes together and moves the cursor. The low bytes of
the deltas are kept as `int8_t`, and the sign bits of the first byte take 256 off each of them.

## Main definitions

* `Mouse`, `mouseHandler`, `mouseRun`: the driver and its calls
* `MousePacket.dx`, `MousePacket.dy`: the deltas of a packet, of nine bits
* `follow`: where the deltas of packets lead
* `MousePacket.DecodedAt`: the packets whose deltas the driver follows, at a position

## Main results

* `mouseBytes_packet`: what a packet does
* `moveBy_eq_move_iff`: the packets whose deltas it follows
* `mousePosition_follows_iff`: when the cursor follows the deltas throughout
-/

namespace ZohoOs

/-! ## The driver -/

/-- A position of the cursor. -/
@[ext] structure MousePosition where
  x : Int
  y : Int
  deriving DecidableEq

/-- The bounds of a coordinate. -/
def clampCoord (bound v : Int) : Int :=
  let v := if v < 0 then 0 else v
  if v > bound then bound else v

/-- The position that far from here, on the screen. -/
def MousePosition.move (pos : MousePosition) (dx dy : Int) : MousePosition where
  x := clampCoord 1024 (pos.x + dx)
  y := clampCoord 768 (pos.y - dy)

/-- What `mouse.c` keeps. -/
structure Mouse where
  cycle : Fin 3
  bytes : Fin 3 → Byte
  pos : MousePosition

/-- What it starts with. -/
def mouseStart : Mouse := ⟨0, fun _ => 0, ⟨400, 300⟩⟩

/-- `dx` and `dy` of `mouse_handler`: a byte of the packet, an `int8_t`, and a sign bit of the first. -/
def mouseDelta (first sign byte : Byte) : Int :=
  let delta := byte.toInt
  if first &&& sign ≠ 0 then delta - 256 else delta

/-- A whole packet in `mouse_handler`. The packets with an overflow bit are left out. -/
def mousePacket (bytes : Fin 3 → Byte) (pos : MousePosition) : MousePosition :=
  if bytes 0 &&& 0x80 ≠ 0 ∨ bytes 0 &&& 0x40 ≠ 0 then pos
  else pos.move (mouseDelta (bytes 0) 0x10 (bytes 1)) (mouseDelta (bytes 0) 0x20 (bytes 2))

/-- `mouse_handler` with a byte of the mouse. -/
def mouseByte (m : Mouse) (data : Byte) : Mouse :=
  let bytes := Function.update m.bytes m.cycle data
  -- the byte behind the third is the first of the next packet
  let cycle := m.cycle + 1
  if cycle = 0 then ⟨cycle, bytes, mousePacket bytes m.pos⟩ else ⟨cycle, bytes, m.pos⟩

/-- A call of `mouse_handler`: what the ports `0x64` and `0x60` hold. -/
structure MouseCall where
  status : Byte
  data : Byte

/-- The status says that there is a byte, and that it is from the mouse. -/
def MouseCall.feeds (call : MouseCall) : Bool :=
  call.status &&& 1 ≠ 0 && call.status &&& 0x20 ≠ 0

/-- `mouse_handler`. -/
def mouseHandler (m : Mouse) (call : MouseCall) : Mouse :=
  if call.feeds then mouseByte m call.data else m

/-- The calls from the start on. -/
def mouseRun (calls : List MouseCall) : Mouse := calls.foldl mouseHandler mouseStart

/-- The bytes the calls feed. -/
def mouseFed (calls : List MouseCall) : List Byte := (calls.filter MouseCall.feeds).map MouseCall.data

/-! ## Packets -/

/-- A packet. -/
structure MousePacket where
  first : Byte
  second : Byte
  third : Byte

namespace MousePacket

def bytes (p : MousePacket) : List Byte := [p.first, p.second, p.third]

/-- A delta of nine bits, in two's complement. -/
def delta (sign : Bool) (low : Byte) : Int := (BitVec.cons sign low).toInt

def dx (p : MousePacket) : Int := delta (p.first.getLsbD 4) p.second

def dy (p : MousePacket) : Int := delta (p.first.getLsbD 5) p.third

/-- One of the deltas does not fit. -/
def overflows (p : MousePacket) : Bool := p.first.getLsbD 6 || p.first.getLsbD 7

/-- What a packet is to do to the cursor. -/
def step (pos : MousePosition) (p : MousePacket) : MousePosition :=
  if p.overflows then pos else pos.move p.dx p.dy

/-- The deltas the driver follows: their low bytes are no negative `int8_t`, or it ends up at the same edge
of the screen. -/
def DecodedAt (pos : MousePosition) (p : MousePacket) : Prop :=
  (p.second < 0x80 ∨ pos.x + p.dx ≤ 0) ∧ (p.third < 0x80 ∨ 768 ≤ pos.y - p.dy)

end MousePacket

/-- Where the deltas of packets lead. -/
def follow (packets : List MousePacket) : MousePosition :=
  packets.foldl MousePacket.step mouseStart.pos

/-- The cursor is where the packets lead, whenever all bytes that were fed are those of whole packets. -/
def MouseFollows (calls : List MouseCall) (packets : List MousePacket) : Prop :=
  ∀ before fed, before <+: calls → fed <+: packets →
    mouseFed before = fed.flatMap MousePacket.bytes → (mouseRun before).pos = follow fed

/-! ## Deltas -/

section Deltas

variable {first low : Byte} {pos : MousePosition} {p : MousePacket} {bound v : Int}

/-- A mask of one bit. -/
theorem mask_ne_zero_iff (b : Byte) (i : Nat) (hi : i < 8) :
    b &&& BitVec.twoPow 8 i ≠ 0 ↔ b.getLsbD i = true := by
  rw [BitVec.and_twoPow]
  split
  · rename_i hbit
    refine iff_of_true ?_ hbit
    intro hzero
    have hnat := congrArg BitVec.toNat hzero
    rw [BitVec.toNat_twoPow_of_lt hi] at hnat
    exact absurd hnat (Nat.two_pow_pos i).ne'
  · rename_i hbit
    exact iff_of_false (fun h => h rfl) hbit

theorem int8_toInt (low : Byte) : low.toInt = low.toNat - if low < 0x80 then 0 else 256 := by
  have hneg : low < 0x80 ↔ low.toNat < 128 := BitVec.lt_def
  rw [BitVec.toInt_eq_toNat_cond, if_congr hneg rfl rfl]
  split <;> split <;> omega

theorem MousePacket.delta_eq (sign : Bool) (low : Byte) :
    delta sign low = low.toNat - if sign then 256 else 0 := by
  have hlt := low.isLt
  rw [delta, BitVec.toInt_eq_toNat_cond, BitVec.toNat_cons']
  cases sign <;> simp <;> omega

/-- **The low byte and its sign bit**: of a negative `int8_t` 256 is taken off once more. -/
theorem mouseDelta_eq (i : Nat) (hi : i < 8) : mouseDelta first (BitVec.twoPow 8 i) low =
    MousePacket.delta (first.getLsbD i) low - if low < 0x80 then 0 else 256 := by
  rw [mouseDelta, MousePacket.delta_eq, int8_toInt]
  simp only [mask_ne_zero_iff first i hi]
  split <;> omega

/-! ## The screen -/

/-- A position on the screen. -/
structure MousePosition.OnScreen (pos : MousePosition) : Prop where
  x_nonneg : 0 ≤ pos.x
  x_le : pos.x ≤ 1024
  y_nonneg : 0 ≤ pos.y
  y_le : pos.y ≤ 768

theorem clampCoord_eq (hbound : 0 ≤ bound) : clampCoord bound v = max 0 (min v bound) := by
  simp only [clampCoord]
  split <;> split <;> omega

theorem MousePosition.move_onScreen (dx dy : Int) : (pos.move dx dy).OnScreen := by
  have hx := clampCoord_eq (v := pos.x + dx) (show (0 : Int) ≤ 1024 by decide)
  have hy := clampCoord_eq (v := pos.y - dy) (show (0 : Int) ≤ 768 by decide)
  constructor <;> simp only [MousePosition.move] <;> omega

/-- To the left: 256 more to go make no difference at the edge only. -/
theorem clampCoord_left_iff {x d : Int} (hbound : 0 < bound) (hx : x ≤ bound) (hd : d ≤ 255)
    (c : Prop) [Decidable c] :
    clampCoord bound (x + (d - if c then 0 else 256)) = clampCoord bound (x + d) ↔ c ∨ x + d ≤ 0 := by
  split
  · rename_i hc
    rw [Int.sub_zero]
    exact iff_of_true rfl (Or.inl hc)
  · rename_i hc
    rw [clampCoord_eq hbound.le, clampCoord_eq hbound.le, or_iff_right hc]
    omega

/-- Downwards: 256 more to go make no difference at the edge only. -/
theorem clampCoord_down_iff {y d : Int} (hbound : 0 < bound) (hy : 0 ≤ y) (hd : d ≤ 255)
    (c : Prop) [Decidable c] :
    clampCoord bound (y - (d - if c then 0 else 256)) = clampCoord bound (y - d) ↔
      c ∨ bound ≤ y - d := by
  split
  · rename_i hc
    rw [Int.sub_zero]
    exact iff_of_true rfl (Or.inl hc)
  · rename_i hc
    rw [clampCoord_eq hbound.le, clampCoord_eq hbound.le, or_iff_right hc]
    omega

end Deltas

/-! ## Packets and bytes -/

section Packets

variable {pos : MousePosition} {m : Mouse} {p : MousePacket}

/-- The bytes of a packet, as `mouse_byte` has them. -/
def MousePacket.array (p : MousePacket) : Fin 3 → Byte
  | 0 => p.first
  | 1 => p.second
  | 2 => p.third

theorem MousePacket.delta_le (sign : Bool) (low : Byte) : delta sign low ≤ 255 := by
  have hlt := low.isLt
  rw [delta_eq]
  split <;> omega

theorem MousePacket.overflows_iff (p : MousePacket) :
    (p.first &&& 0x80 ≠ 0 ∨ p.first &&& 0x40 ≠ 0) ↔ p.overflows := by
  rw [overflows, Bool.or_eq_true, ← mask_ne_zero_iff p.first 6 (by decide),
    ← mask_ne_zero_iff p.first 7 (by decide), or_comm]
  rfl

theorem follow_onScreen (packets : List MousePacket) : (follow packets).OnScreen := by
  induction packets using List.reverseRecOn with
  | nil => exact ⟨by decide, by decide, by decide, by decide⟩
  | append_singleton packets p ih =>
    rw [follow, List.foldl_append]
    change (MousePacket.step (follow packets) p).OnScreen
    rw [MousePacket.step]
    split
    · exact ih
    · exact MousePosition.move_onScreen ..

/-- **The packets the driver follows**, at a position on the screen. -/
theorem mousePacket_eq_step_iff (hscreen : pos.OnScreen) :
    mousePacket p.array pos = p.step pos ↔ (p.overflows = false → p.DecodedAt pos) := by
  have hpacket : mousePacket p.array pos = if p.overflows then pos else
      pos.move (mouseDelta p.first 0x10 p.second) (mouseDelta p.first 0x20 p.third) :=
    if_congr p.overflows_iff rfl rfl
  rw [hpacket, MousePacket.step]
  cases p.overflows with
  | true => exact iff_of_true rfl fun h => absurd h (by decide)
  | false =>
    -- the two coordinates are clamped each by itself
    -- of each delta 256 is taken off where its low byte is negative
    have hdx : mouseDelta p.first 0x10 p.second = p.dx - if p.second < 0x80 then 0 else 256 :=
      mouseDelta_eq 4 (by decide)
    have hdy : mouseDelta p.first 0x20 p.third = p.dy - if p.third < 0x80 then 0 else 256 :=
      mouseDelta_eq 5 (by decide)
    rw [if_neg Bool.false_ne_true, if_neg Bool.false_ne_true, forall_prop_of_true rfl, hdx, hdy,
      MousePosition.ext_iff]
    exact and_congr
      (clampCoord_left_iff (by decide) hscreen.x_le (MousePacket.delta_le ..) _)
      (clampCoord_down_iff (by decide) hscreen.y_nonneg (MousePacket.delta_le ..) _)

/-- **What a packet does** to a driver that waits for the first byte of one. -/
theorem mouseByte_packet (hcycle : m.cycle = 0) (p : MousePacket) :
    (p.bytes.foldl mouseByte m).cycle = 0 ∧
      (p.bytes.foldl mouseByte m).pos = mousePacket p.array m.pos := by
  -- the old bytes are overwritten one after the other
  obtain ⟨cycle, bytes, pos⟩ := m
  obtain rfl : cycle = 0 := hcycle
  have hfold : p.bytes.foldl mouseByte ⟨0, bytes, pos⟩ = ⟨0, p.array, mousePacket p.array pos⟩ := by
    have harray : Function.update (Function.update (Function.update bytes 0 p.first) 1 p.second) 2
        p.third = p.array := by
      funext i
      match i with
      | 0 => rfl
      | 1 => rfl
      | 2 => rfl
    rw [← harray]
    simp [MousePacket.bytes, mouseByte]
  rw [hfold]
  exact ⟨rfl, rfl⟩

/-- The packets the driver follows, all of them. -/
theorem mouseBytes_packets (packets : List MousePacket) :
    ((packets.flatMap MousePacket.bytes).foldl mouseByte mouseStart).cycle = 0 ∧
      ((packets.flatMap MousePacket.bytes).foldl mouseByte mouseStart).pos =
        packets.foldl (fun pos p => mousePacket p.array pos) mouseStart.pos := by
  induction packets using List.reverseRecOn with
  | nil => exact ⟨rfl, rfl⟩
  | append_singleton packets p ih =>
    obtain ⟨hcycle, hpos⟩ := ih
    rw [List.flatMap_append, List.foldl_append, List.foldl_append, List.flatMap_singleton, ← hpos]
    exact mouseByte_packet hcycle p

/-- The bytes that are fed decide what the calls do. -/
theorem mouseRun_eq (calls : List MouseCall) :
    mouseRun calls = (mouseFed calls).foldl mouseByte mouseStart := by
  rw [mouseRun, mouseFed, List.foldl_map, List.foldl_filter]
  rfl

/-- Some of the first bytes that are fed are those some of the first calls feed. -/
theorem mouseFed_prefix {calls : List MouseCall} {fed rest : List Byte}
    (h : mouseFed calls = fed ++ rest) : ∃ before, before <+: calls ∧ mouseFed before = fed := by
  obtain ⟨l₁, l₂, hfilter, rfl, -⟩ := List.map_eq_append_iff.mp h
  obtain ⟨before, later, rfl, hbefore, -⟩ := List.filter_eq_append_iff.mp hfilter
  exact ⟨before, List.prefix_append .., congrArg (List.map _) hbefore⟩

end Packets

/-! ## Runs -/

section Runs

/-- Two folds agree all along a list just if their steps do, from the places one of them gets to. -/
theorem foldl_prefixes_eq_iff {α β : Type} (f g : β → α → β) (b : β) (xs : List α) :
    (∀ l, l <+: xs → l.foldl f b = l.foldl g b) ↔
      ∀ l x, l ++ [x] <+: xs → f (l.foldl g b) x = g (l.foldl g b) x := by
  constructor
  · intro h l x hl
    have hnext := h (l ++ [x]) hl
    rw [List.foldl_append, List.foldl_append, h l ((List.prefix_append l [x]).trans hl)] at hnext
    exact hnext
  · intro h l
    induction l using List.reverseRecOn with
    | nil => exact fun _ => rfl
    | append_singleton l x ih =>
      intro hl
      rw [List.foldl_append, List.foldl_append, ih ((List.prefix_append l [x]).trans hl)]
      exact h l x hl

/-- **When the cursor follows the deltas**: for any calls that feed whole packets, it is where the packets
lead after each of them just if of the packets without an overflow, each is decoded at the position it
comes to. -/
theorem mousePosition_follows_iff (calls : List MouseCall) (packets : List MousePacket)
    (hfed : mouseFed calls = packets.flatMap MousePacket.bytes) :
    MouseFollows calls packets ↔
      ∀ fed p, fed ++ [p] <+: packets → p.overflows = false → p.DecodedAt (follow fed) := by
  have hfollows : MouseFollows calls packets ↔ ∀ fed, fed <+: packets →
      fed.foldl (fun pos p => mousePacket p.array pos) mouseStart.pos = follow fed := by
    constructor
    -- the calls that fed the first packets
    · intro h fed hprefix
      obtain ⟨rest, rfl⟩ := hprefix
      rw [List.flatMap_append] at hfed
      obtain ⟨before, hbefore, hbytes⟩ := mouseFed_prefix hfed
      rw [← (mouseBytes_packets fed).2, ← hbytes, ← mouseRun_eq]
      exact h before fed hbefore (List.prefix_append ..) hbytes
    · intro h before fed _ hprefix hbytes
      rw [mouseRun_eq, hbytes, (mouseBytes_packets fed).2]
      exact h fed hprefix
  rw [hfollows]
  refine (foldl_prefixes_eq_iff ..).trans ?_
  refine forall_congr' fun fed => forall_congr' fun p => imp_congr_right fun _ => ?_
  exact mousePacket_eq_step_iff (follow_onScreen fed)

/-- The calls for a packet: the mouse has a byte each time. -/
def callsFor (p : MousePacket) : List MouseCall := p.bytes.map fun data => ⟨0x21, data⟩

/-- A packet to the right and up, by 100 each, and one to the left by 200. -/
def samplePackets : List MousePacket := [⟨0x08, 100, 100⟩, ⟨0x18, 0x38, 0⟩]

/-- The cursor follows both, and is where they lead. -/
theorem mousePosition_follows_sample : MouseFollows (samplePackets.flatMap callsFor) samplePackets ∧
    (mouseRun (samplePackets.flatMap callsFor)).pos = ⟨300, 200⟩ := by
  refine ⟨(mousePosition_follows_iff _ _ (by decide)).mpr ?_, by decide⟩
  rintro fed p ⟨rest, hrest⟩ -
  rcases fed with _ | ⟨q, _ | ⟨r, fed⟩⟩
  · obtain rfl := (List.cons.inj hrest).1
    exact ⟨Or.inl (by decide), Or.inl (by decide)⟩
  · obtain rfl := (List.cons.inj (List.cons.inj hrest).2).1
    exact ⟨Or.inl (by decide), Or.inl (by decide)⟩
  · exact absurd (congrArg List.length hrest) (by simp [samplePackets])

/-- A packet to the right by 144 moves the cursor to the left by 112. -/
theorem mouse_moves_left : mouseFed (callsFor ⟨0x08, 144, 0⟩) =
      [(⟨0x08, 144, 0⟩ : MousePacket)].flatMap MousePacket.bytes ∧
    (mouseRun (callsFor ⟨0x08, 144, 0⟩)).pos = ⟨288, 300⟩ ∧
    follow [⟨0x08, 144, 0⟩] = ⟨544, 300⟩ ∧
    ¬ MouseFollows (callsFor ⟨0x08, 144, 0⟩) [⟨0x08, 144, 0⟩] := by
  refine ⟨by decide, by decide, by decide, fun h => ?_⟩
  exact absurd (h _ _ List.prefix_rfl List.prefix_rfl (by decide)) (by decide)

end Runs

end ZohoOs
