import ZohoOs.Lib.MemoryMoves
import ZohoOs.Shell.Terminal

/-!
# The moves of the kernel

`string.c`: `memcpy` copies upwards by the string instructions, in words of eight bytes and then in bytes;
`memmove` calls it where the destination is below the source or behind it, and copies downwards byte by
byte otherwise.

## Main definitions

* `memcpy`, `memmove`: the memory after the call, and the pointer it returns
* `CopiesSnapshot`: the bytes of the source as they were are at the destination, and no other byte changes

## Main results

* `memmove_snapshot`: `memmove` copies the source as it was, whatever the overlap
* `memmove_copies_iff`: where it does so in every memory, for regions that wrap too
* `memmove_scrollCells`, `memmove_scrollPixels`: the calls in `shell_scroll_up`
-/

namespace ZohoOs

open CopyRuns MemoryMoves

/-- The memory, and the registers of the string instructions. -/
structure StringRegs where
  mem : BitVec 64 → BitVec 8
  rdi : BitVec 64
  rsi : BitVec 64

/-- `rep movsq` and `rep movsb`, for words of 8 and of 1 bytes. The direction flag is clear. -/
def repMovs (width : Nat) : Nat → StringRegs → StringRegs
  | 0, r => r
  | rcx + 1, r => repMovs width rcx
    { mem := move r.mem r.rdi r.rsi width
      rdi := r.rdi + BitVec.ofNat 64 width
      rsi := r.rsi + BitVec.ofNat 64 width }

/-- `memcpy`. -/
def memcpy (mem : BitVec 64 → BitVec 8) (dest src n : BitVec 64) : (BitVec 64 → BitVec 8) × BitVec 64 :=
  let qwords := n / 8#64
  let bytes := n % 8#64
  let r := repMovs 8 qwords.toNat ⟨mem, dest, src⟩
  ((repMovs 1 bytes.toNat r).mem, dest)

/-- The loop of `memmove`: `i` bytes are left. -/
def memmoveLoop (d s : BitVec 64) : Nat → (BitVec 64 → BitVec 8) → BitVec 64 → BitVec 8
  | 0, mem => mem
  | i + 1, mem =>
    memmoveLoop d s i (Function.update mem (d + BitVec.ofNat 64 i) (mem (s + BitVec.ofNat 64 i)))

/-- `memmove`. -/
def memmove (mem : BitVec 64 → BitVec 8) (dest src n : BitVec 64) : (BitVec 64 → BitVec 8) × BitVec 64 :=
  if dest = src ∨ n = 0#64 then (mem, dest)
  else if dest < src ∨ dest ≥ src + n then memcpy mem dest src n
  else (memmoveLoop dest src n.toNat mem, dest)

/-- The bytes that were at the source are at the destination, and no other byte has changed. -/
structure CopiesSnapshot (before after : BitVec 64 → BitVec 8) (dest src n : BitVec 64) : Prop where
  copied : ∀ i < n, after (dest + i) = before (src + i)
  kept : ∀ x, (∀ i < n, x ≠ dest + i) → after x = before x

/-! ## The copies -/

theorem copiesSnapshot_iff {before after : BitVec 64 → BitVec 8} {dest src n : BitVec 64} :
    CopiesSnapshot before after dest src n ↔ after = move before dest src n.toNat := by
  constructor
  · intro h
    funext x
    have hx : dest + (x - dest) = x := add_sub_cancel dest x
    by_cases hlt : (x - dest).toNat < n.toNat
    · rw [move_of_lt hlt, ← h.copied (x - dest) hlt, hx]
    · rw [move_of_le (by omega), h.kept]
      rintro i hi rfl
      exact hlt (by rwa [add_sub_cancel_left])
  · rintro rfl
    refine ⟨fun i hi => ?_, fun x hx => move_of_le (Nat.le_of_not_lt fun hlt => ?_)⟩
    · rw [move_of_lt (by rwa [add_sub_cancel_left]), add_sub_cancel_left]
    · exact hx (x - dest) hlt (add_sub_cancel dest x).symm

/-- The string instructions go on with a move. -/
theorem repMovs_move (mem : BitVec 64 → BitVec 8) {d s : BitVec 64} (width : Nat) {rcx a : Nat}
    (h : (s - d).toNat + (a + width * rcx) ≤ 2 ^ 64) :
    repMovs width rcx ⟨move mem d s a, d + BitVec.ofNat 64 a, s + BitVec.ofNat 64 a⟩ =
      ⟨move mem d s (a + width * rcx), d + BitVec.ofNat 64 (a + width * rcx),
        s + BitVec.ofNat 64 (a + width * rcx)⟩ := by
  induction rcx generalizing a with
  | zero => rfl
  | succ rcx ih =>
    have hsum : a + width * (rcx + 1) = a + width + width * rcx := by rw [Nat.mul_succ]; omega
    rw [hsum] at h ⊢
    rw [repMovs, move_move_forward mem (by omega), add_assoc, add_assoc, ← BitVec.ofNat_add, ih h]

/-- `memcpy` moves a region whose bytes it reads before it writes there. -/
theorem memcpy_eq_move (mem : BitVec 64 → BitVec 8) {dest src n : BitVec 64}
    (h : (src - dest).toNat + n.toNat ≤ 2 ^ 64) :
    memcpy mem dest src n = (move mem dest src n.toNat, dest) := by
  have hsum : 8 * (n / 8#64).toNat + 1 * (n % 8#64).toNat = n.toNat := by
    rw [one_mul]
    exact Nat.div_add_mod n.toNat 8
  -- the words first, and the bytes that are left behind them
  have hfit : (src - dest).toNat + (0 + 8 * (n / 8#64).toNat) ≤ 2 ^ 64 := by omega
  have hq := repMovs_move mem 8 hfit
  rw [move_zero, BitVec.add_zero, BitVec.add_zero, Nat.zero_add] at hq
  rw [memcpy, hq, repMovs_move mem 1 (by omega), hsum]

/-- The loop of `memmove` goes on with a move. -/
theorem memmoveLoop_move (mem : BitVec 64 → BitVec 8) {d s : BitVec 64} {i b : Nat}
    (h : i + b ≤ (s - d).toNat) :
    memmoveLoop d s i (move mem (d + BitVec.ofNat 64 i) (s + BitVec.ofNat 64 i) b) =
      move mem d s (i + b) := by
  induction i generalizing b with
  | zero => rw [memmoveLoop, BitVec.add_zero, BitVec.add_zero, Nat.zero_add]
  | succ i ih =>
    -- the next byte is right below those that are moved
    have hway : s + BitVec.ofNat 64 i - (d + BitVec.ofNat 64 i) = s - d := add_sub_add_right_eq_sub ..
    rw [memmoveLoop, ← move_one, BitVec.ofNat_add, ← add_assoc, ← add_assoc,
      move_move_backward mem (by rw [hway]; omega), ih (by omega), Nat.add_assoc]

theorem memmoveLoop_eq_move (mem : BitVec 64 → BitVec 8) {d s : BitVec 64} {i : Nat}
    (h : i ≤ (s - d).toNat) : memmoveLoop d s i mem = move mem d s i :=
  memmoveLoop_move mem (b := 0) h

theorem byte_ne : (1#8) ≠ 0#8 := by decide

/-- `memcpy` loses a byte of a source that it runs into, unless the region is one word. -/
theorem exists_memcpy_ne_move {dest src n : BitVec 64} (hne : dest ≠ src) (hlt : dest - src < n)
    (h8 : n ≠ 8#64) : ∃ mem, (memcpy mem dest src n).1 ≠ move mem dest src n.toNat := by
  by_cases hsmall : n < 8#64
  · -- the first move is of a byte, which goes to the lowest byte of the destination
    obtain ⟨r, hr⟩ : ∃ r, n.toNat = r + 1 := Nat.exists_eq_add_one.mpr (by bv_omega)
    have hq : (n / 8#64).toNat = 0 := Nat.div_eq_of_lt hsmall
    have hb : (n % 8#64).toNat = r + 1 := (Nat.mod_eq_of_lt hsmall).trans hr
    simp only [memcpy, hq, hb, repMovs]
    exact exists_ne_move byte_ne (fun m => (repMovs 1 r ⟨m, _, _⟩).mem) (y := dest) (by bv_omega)
      (by bv_omega) (by bv_omega)
  · -- the first move is of a word: the lowest byte behind it that is in the destination as well is lost
    obtain ⟨q, hq⟩ : ∃ q, (n / 8#64).toNat = q + 1 :=
      Nat.exists_eq_add_one.mpr (Nat.div_pos (by bv_omega) (by decide))
    simp only [memcpy, hq, repMovs]
    exact exists_ne_move byte_ne (fun m => (repMovs 1 _ (repMovs 8 q ⟨m, _, _⟩)).mem)
      (y := if dest - src ≤ 8#64 then src + 8#64 else dest) (by split <;> bv_omega)
      (by split <;> bv_omega) (by split <;> bv_omega)

/-- The loop of `memmove` loses a byte of a source that it runs into from above. -/
theorem exists_memmoveLoop_ne_move {dest src n : BitVec 64} (hne : dest ≠ src) (hlt : src - dest < n) :
    ∃ mem, memmoveLoop dest src n.toNat mem ≠ move mem dest src n.toNat := by
  obtain ⟨i, hi⟩ : ∃ i, n.toNat = i + 1 := Nat.exists_eq_add_one.mpr (by bv_omega)
  simp only [hi, memmoveLoop, ← move_one]
  exact exists_ne_move byte_ne (memmoveLoop dest src i) (y := dest + BitVec.ofNat 64 i) (by bv_omega)
    (by bv_omega) (by bv_omega)

/-! ## `memmove` -/

/-- No byte of the source is written over before it is read: upwards the destination is not ahead of the
source within the region, or the region is one word, and downwards it is not behind it. -/
def ReadsFirst (dest src n : BitVec 64) : Prop :=
  dest = src ∨ n = 0#64 ∨
    if dest < src ∨ dest ≥ src + n then n ≤ dest - src ∨ n = 8#64 else n ≤ src - dest

instance (dest src n : BitVec 64) : Decidable (ReadsFirst dest src n) :=
  inferInstanceAs (Decidable (_ ∨ _ ∨ ite _ _ _))

/-- Regions that do not wrap around the end of the address space. -/
theorem readsFirst_of_le {dest src n : BitVec 64} (hdest : dest.toNat + n.toNat ≤ 2 ^ 64)
    (hsrc : src.toNat + n.toNat ≤ 2 ^ 64) : ReadsFirst dest src n := by
  by_cases heq : dest = src
  · exact .inl heq
  refine .inr (.inr ?_)
  split
  · left
    bv_omega
  · bv_omega

theorem ReadsFirst.memmove_eq_move {dest src n : BitVec 64} (h : ReadsFirst dest src n)
    (mem : BitVec 64 → BitVec 8) : (memmove mem dest src n).1 = move mem dest src n.toNat := by
  -- nothing to do, or upwards by `memcpy`, or downwards by the loop
  by_cases htriv : dest = src ∨ n = 0#64
  · rw [memmove, if_pos htriv]
    obtain rfl | rfl := htriv
    · rw [move_self]
    · rfl
  obtain ⟨hne, hn⟩ := not_or.mp htriv
  have hway := (h.resolve_left hne).resolve_left hn
  rw [memmove, if_neg htriv]
  split
  · rename_i hup
    rw [if_pos hup] at hway
    obtain hle | rfl := hway
    · rw [memcpy_eq_move mem (by bv_omega)]
    · rfl
  · rename_i hdown
    rw [if_neg hdown] at hway
    rw [memmoveLoop_eq_move mem hway]

/-- **The regions that `memmove` copies** as they were, in every memory. -/
theorem memmove_copies_iff {dest src n : BitVec 64} :
    (∀ mem, CopiesSnapshot mem (memmove mem dest src n).1 dest src n) ↔ ReadsFirst dest src n := by
  refine ⟨fun hall => ?_, fun h mem => copiesSnapshot_iff.mpr (h.memmove_eq_move mem)⟩
  by_contra h
  rw [ReadsFirst, not_or, not_or] at h
  obtain ⟨hne, hn, hway⟩ := h
  -- where the condition fails, each of the two ways loses a byte in some memory
  have hmove : ∀ mem, (memmove mem dest src n).1 = move mem dest src n.toNat :=
    fun mem => copiesSnapshot_iff.mp (hall mem)
  simp only [memmove, if_neg (not_or.mpr ⟨hne, hn⟩)] at hmove
  by_cases hup : dest < src ∨ dest ≥ src + n
  · rw [if_pos hup, not_or] at hway
    obtain ⟨mem, hmem⟩ := exists_memcpy_ne_move hne (BitVec.not_le.mp hway.1) hway.2
    exact hmem (by rw [← hmove, if_pos hup])
  · rw [if_neg hup] at hway
    obtain ⟨mem, hmem⟩ := exists_memmoveLoop_ne_move hne (BitVec.not_le.mp hway)
    exact hmem (by rw [← hmove, if_neg hup])

/-- **`memmove` copies the source as it was**, for regions that do not wrap around the end of the address
space, wherever they overlap. -/
theorem memmove_snapshot (mem : BitVec 64 → BitVec 8) (dest src n : BitVec 64)
    (hdest : dest.toNat + n.toNat ≤ 2 ^ 64) (hsrc : src.toNat + n.toNat ≤ 2 ^ 64) :
    CopiesSnapshot mem (memmove mem dest src n).1 dest src n :=
  copiesSnapshot_iff.mpr ((readsFirst_of_le hdest hsrc).memmove_eq_move mem)

/-- Seventeen bytes, four bytes down. -/
theorem memmove_snapshot_seventeen :
    CopiesSnapshot (fun x => x.setWidth 8) (memmove (fun x => x.setWidth 8) 0x1000#64 0x1004#64 17#64).1
      0x1000#64 0x1004#64 17#64 :=
  memmove_snapshot (fun x => x.setWidth 8) 0x1000#64 0x1004#64 17#64 (by decide) (by decide)

/-- The source ends where the address space does, so that `src + n` is 0 and the bytes go upwards. -/
theorem memmove_wrapping : ¬ CopiesSnapshot (fun x => x.setWidth 8)
    (memmove (fun x => x.setWidth 8) 0xFFFFFFFFFFFFFFF4#64 0xFFFFFFFFFFFFFFF0#64 16#64).1
    0xFFFFFFFFFFFFFFF4#64 0xFFFFFFFFFFFFFFF0#64 16#64 := fun h =>
  absurd (h.copied 8#64 (by decide)) (by decide)

/-! ## The moves of the shell -/

/-- **A run of the cells of an array** is moved within it. -/
theorem memmove_array (mem : BitVec 64 → BitVec 8) {p : BitVec 64} {size a b n i : Nat}
    (hp : p.toNat + size < 2 ^ 64) (ha : a + n ≤ size) (hb : b + n ≤ size) (hi : i < size) :
    (memmove mem (p + BitVec.ofNat 64 a) (p + BitVec.ofNat 64 b) (BitVec.ofNat 64 n)).1
        (p + BitVec.ofNat 64 i) =
      CopyRun.apply (fun k => mem (p + BitVec.ofNat 64 k))
        ⟨a, n, fun k => mem (p + BitVec.ofNat 64 (b + k))⟩ i := by
  have hn : (BitVec.ofNat 64 n).toNat = n := by bv_omega
  have hreads : ReadsFirst (p + BitVec.ofNat 64 a) (p + BitVec.ofNat 64 b) (BitVec.ofNat 64 n) :=
    readsFirst_of_le (by bv_omega) (by bv_omega)
  have hway : p + BitVec.ofNat 64 i - (p + BitVec.ofNat 64 a) = BitVec.ofNat 64 i - BitVec.ofNat 64 a :=
    add_sub_add_left_eq_sub ..
  rw [hreads.memmove_eq_move, hn, CopyRun.apply]
  split
  · rename_i hin
    obtain ⟨hle, hlt⟩ := hin
    have hread : p + BitVec.ofNat 64 b + (BitVec.ofNat 64 i - BitVec.ofNat 64 a) =
        p + BitVec.ofNat 64 (b + (i - a)) := by
      bv_omega
    rw [move_of_lt (by bv_omega), hway, hread]
  · rename_i hout
    rw [CopyRun.Covers, not_and_or] at hout
    exact move_of_le (by bv_omega)

/-- A `uint32_t`, the lowest byte first. -/
def load32 (mem : BitVec 64 → BitVec 8) (x : BitVec 64) : BitVec 32 :=
  mem (x + 3#64) ++ mem (x + 2#64) ++ mem (x + 1#64) ++ mem x

/-- A run of the words of an array is moved within it. -/
theorem memmove_words (mem : BitVec 64 → BitVec 8) {p : BitVec 64} {size a b n i : Nat}
    (hp : p.toNat + 4 * size < 2 ^ 64) (ha : a + n ≤ size) (hb : b + n ≤ size) (hi : i < size) :
    load32 (memmove mem (p + BitVec.ofNat 64 (4 * a)) (p + BitVec.ofNat 64 (4 * b))
        (BitVec.ofNat 64 (4 * n))).1 (p + BitVec.ofNat 64 (4 * i)) =
      CopyRun.apply (fun k => load32 mem (p + BitVec.ofNat 64 (4 * k)))
        ⟨a, n, fun k => load32 mem (p + BitVec.ofNat 64 (4 * (b + k)))⟩ i := by
  -- a byte of a word is moved where the word is
  have hbyte : ∀ j < 4, (memmove mem (p + BitVec.ofNat 64 (4 * a)) (p + BitVec.ofNat 64 (4 * b))
      (BitVec.ofNat 64 (4 * n))).1 (p + BitVec.ofNat 64 (4 * i) + BitVec.ofNat 64 j) =
      if a ≤ i ∧ i < a + n then mem (p + BitVec.ofNat 64 (4 * (b + (i - a))) + BitVec.ofNat 64 j)
      else mem (p + BitVec.ofNat 64 (4 * i) + BitVec.ofNat 64 j) := by
    intro j hj
    have hcovers : (4 * a ≤ 4 * i + j ∧ 4 * i + j < 4 * a + 4 * n) ↔ (a ≤ i ∧ i < a + n) := by omega
    rw [add_assoc, ← BitVec.ofNat_add,
      memmove_array mem hp (by omega) (by omega) (by omega), CopyRun.apply]
    simp only [CopyRun.Covers, hcovers]
    split
    · rw [add_assoc, ← BitVec.ofNat_add]
      congr 3
      omega
    · rfl
  have h0 := hbyte 0 (by omega)
  simp only [BitVec.add_zero] at h0
  rw [load32, h0, hbyte 1 (by omega), hbyte 2 (by omega), hbyte 3 (by omega)]
  by_cases hin : a ≤ i ∧ i < a + n
  · rw [if_pos hin, if_pos hin, if_pos hin, if_pos hin]
    exact (if_pos hin).symm
  · rw [if_neg hin, if_neg hin, if_neg hin, if_neg hin]
    exact (if_neg hin).symm

/-- The cells that `shell_scroll_up` moves: from the second row on to the top. -/
theorem memmove_scrollCells (mem : BitVec 64 → BitVec 8) {p : BitVec 64} {termRows termCols : BitVec 32}
    {i : Nat} (hp : p.toNat + (((termRows - 1#32) * termCols).toNat + termCols.toNat) < 2 ^ 64)
    (hi : i < ((termRows - 1#32) * termCols).toNat + termCols.toNat) :
    (memmove mem p (p + termCols.setWidth 64) (((termRows - 1#32) * termCols).setWidth 64)).1
        (p + BitVec.ofNat 64 i) =
      CopyRun.apply (fun k => mem (p + BitVec.ofNat 64 k))
        ⟨0, ((termRows - 1#32) * termCols).toNat,
          fun k => mem (p + BitVec.ofNat 64 (k + termCols.toNat))⟩ i := by
  have hcols : p + termCols.setWidth 64 = p + BitVec.ofNat 64 termCols.toNat := by
    rw [BitVec.ofNat_toNat]
  have hkept : ((termRows - 1#32) * termCols).setWidth 64 =
      BitVec.ofNat 64 ((termRows - 1#32) * termCols).toNat := (BitVec.ofNat_toNat ..).symm
  have h := memmove_array mem (a := 0) (b := termCols.toNat)
    (n := ((termRows - 1#32) * termCols).toNat) hp (by omega) (by omega) hi
  simp only [BitVec.add_zero, Nat.add_comm termCols.toNat] at h
  rw [hcols, hkept, h]

/-- The pixels that `shell_scroll_up` moves: from the second row of characters on to the top. -/
theorem memmove_scrollPixels (mem : BitVec 64 → BitVec 8) {p bytes : BitVec 64}
    {preservedRows w : BitVec 32} {i : Nat}
    (hbytes : bytes = preservedRows.setWidth 64 * w.setWidth 64 * 4#64)
    (hp : p.toNat + 4 * (bytes.toNat / 4 + shellCharH.toNat * w.toNat) < 2 ^ 64)
    (hi : i < bytes.toNat / 4 + shellCharH.toNat * w.toNat) :
    load32 (memmove mem p (p + 4#64 * (shellCharH.setWidth 64 * w.setWidth 64)) bytes).1
        (p + BitVec.ofNat 64 (4 * i)) =
      CopyRun.apply (fun k => load32 mem (p + BitVec.ofNat 64 (4 * k)))
        ⟨0, bytes.toNat / 4,
          fun k => load32 mem (p + BitVec.ofNat 64 (4 * (k + shellCharH.toNat * w.toNat)))⟩ i := by
  -- the length is a multiple of four, also where the product wraps
  have hfour : bytes = BitVec.ofNat 64 (4 * (bytes.toNat / 4)) := by
    bv_omega
  have hrow : 4#64 * (shellCharH.setWidth 64 * w.setWidth 64) =
      BitVec.ofNat 64 (4 * (shellCharH.toNat * w.toNat)) := by
    rw [BitVec.ofNat_mul, BitVec.ofNat_mul, BitVec.ofNat_toNat, BitVec.ofNat_toNat]
  have h := memmove_words mem (a := 0) (b := shellCharH.toNat * w.toNat) (n := bytes.toNat / 4) hp
    (by omega) (by omega) hi
  simp only [Nat.mul_zero, BitVec.add_zero, Nat.add_comm (shellCharH.toNat * w.toNat), ← hfour] at h
  rw [hrow, h]

end ZohoOs
