import Mathlib.Data.List.Basic
import ZohoOs.Lib.Indices

/-!
# Packets

The packed headers of `net.h`, read from the memory a received frame lies in. Memory is read by the
offset from the frame's first byte; what lies behind the received bytes is whatever memory holds.

## Main definitions

* `Slice`: a pointer and a length handed from one handler to the next
* `netChecksum`: the Internet checksum as the kernel computes it
-/

namespace ZohoOs

abbrev Byte := BitVec 8

abbrev Ipv4 := Vector Byte 4

abbrev Mac := Vector Byte 6

/-- Memory, from the first byte of a frame on. -/
abbrev Buffer := Nat → Byte

/-- The bytes of a text. -/
def asciiBytes (text : String) : List Byte := text.toList.map fun c => BitVec.ofNat 8 c.toNat

/-! ## Reading -/

/-- `ntohs` of the 16-bit field at `off`. -/
def be16 (mem : Buffer) (off : Nat) : Nat := (mem off).toNat * 256 + (mem (off + 1)).toNat

/-- The four bytes of a number, the lowest one first. -/
def le32 (mem : Buffer) (pos : Nat) : BitVec 32 :=
  mem (pos + 3) ++ mem (pos + 2) ++ mem (pos + 1) ++ mem pos

/-- The bytes of an array field at `off`. -/
def readArray (mem : Buffer) (off n : Nat) : Vector Byte n := Vector.ofFn fun i => mem (off + i)

/-- The `n` bytes at `off`, as `memcpy` copies them. -/
def readBytes (mem : Buffer) (off n : Nat) : List Byte := (List.range n).map fun i => mem (off + i)

theorem be16_lt (mem : Buffer) (off : Nat) : be16 mem off < 2 ^ 16 := by
  have h₁ := (mem off).isLt
  have h₂ := (mem (off + 1)).isLt
  unfold be16
  omega

/-- A pointer into memory, with a length. -/
structure Slice where
  start : Nat
  len : Nat
  deriving DecidableEq

/-- The slice lies in the first `n` bytes. -/
def Slice.Within (s : Slice) (n : Nat) : Prop := s.start + s.len ≤ n

instance (s : Slice) (n : Nat) : Decidable (s.Within n) := inferInstanceAs (Decidable (_ ≤ _))

/-- A slice is part of another. -/
def Slice.Part (s t : Slice) : Prop := t.start ≤ s.start ∧ s.start + s.len ≤ t.start + t.len

theorem Slice.Part.within {s t : Slice} {n : Nat} (h : s.Part t) (ht : t.Within n) : s.Within n :=
  Nat.le_trans h.2 ht

/-! ## Writing -/

/-- `htons`, as the bytes it is stored in. -/
def bytes16 (v : Nat) : List Byte := [BitVec.ofNat 8 (v / 256), BitVec.ofNat 8 v]

/-- The sum of the 16-bit words of `net_checksum`, in 32 bits. -/
def checksumWords : Nat → List Byte → Nat
  | sum, lo :: hi :: rest => checksumWords ((sum + (lo.toNat + hi.toNat * 256)) % 2 ^ 32) rest
  | sum, [last] => (sum + last.toNat) % 2 ^ 32
  | sum, [] => sum

/-- The carries, added until none is left. -/
def foldCarries (sum : Nat) : Nat :=
  if sum >>> 16 = 0 then sum else foldCarries (sum % 2 ^ 16 + sum >>> 16)
termination_by sum
decreasing_by
  rename_i h
  rw [Nat.shiftRight_eq_div_pow] at h ⊢
  omega

/-- `net_checksum`, as it is stored: the low byte first. -/
def netChecksum (data : List Byte) : List Byte :=
  let sum := (2 ^ 16 - 1 - foldCarries (checksumWords 0 data) % 2 ^ 16)
  [BitVec.ofNat 8 sum, BitVec.ofNat 8 (sum / 256)]

/-- Storing bytes at an offset of a packet under construction. -/
def patch (packet : List Byte) (off : Nat) (bytes : List Byte) : List Byte :=
  packet.take off ++ bytes ++ packet.drop (off + bytes.length)

end ZohoOs
