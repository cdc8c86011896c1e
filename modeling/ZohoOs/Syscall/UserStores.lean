import ZohoOs.Fs.Reads
import ZohoOs.Memory.ConcurrentMap
import ZohoOs.Syscall.OutPointers

/-!
# Stores through the pointers of a caller

`syscall_handler_c` checks none of the addresses it is given. Where each call stores is worked out from
its arguments and the state, and it is the caller's pages alone that decide whether the stores are
harmless.

## Main definitions

* `StoresAt`: the offsets of an address that a list of stores is at
* `Syscall.Target`: where a call stores
* `UserWritable`: the pages a task may write
* `KeepsToUserPages`: no call writes outside them

## Main results

* `readStores_storesAt`: where the loop of `vfs_read` stores
* `Syscall.mem_stores_iff`: where each call stores
* `readStores_buffer`: the stores of `vfs_read` fill its buffer
* `syscall_keepsToUserPages_iff`: when a call keeps to the pages its caller may write
-/

namespace ZohoOs

open Program

variable {n : Nat}

/-! ## Offsets -/

/-- The stores are at the offsets of `base` that meet `P`. -/
def StoresAt (base : BitVec 64) (P : Nat → Prop) (l : List UserStore) : Prop :=
  ∀ a, (∃ st ∈ l, st.addr = a) ↔ ∃ i, P i ∧ base + BitVec.ofNat 64 i = a

section StoresAt

variable {base : BitVec 64} {P Q : Nat → Prop} {l l' : List UserStore}

theorem StoresAt.congr (h : StoresAt base P l) (hPQ : ∀ i, P i ↔ Q i) : StoresAt base Q l := by
  intro a
  rw [h a]
  simp only [hPQ]

theorem StoresAt.nil (base : BitVec 64) : StoresAt base (fun _ => False) [] := by
  intro a
  simp

theorem StoresAt.append (h : StoresAt base P l) (h' : StoresAt base Q l') :
    StoresAt base (fun i => P i ∨ Q i) (l ++ l') := by
  intro a
  simp only [List.mem_append, or_and_right, exists_or, h a, h' a]

theorem StoresAt.flatMap {α : Type} {ks : List α} {f : α → List UserStore} {R : α → Nat → Prop}
    (h : ∀ k ∈ ks, StoresAt base (R k) (f k)) :
    StoresAt base (fun i => ∃ k ∈ ks, R k i) (ks.flatMap f) := by
  intro a
  constructor
  · rintro ⟨st, hst, rfl⟩
    obtain ⟨k, hk, hst⟩ := List.mem_flatMap.mp hst
    obtain ⟨i, hi, ha⟩ := (h k hk st.addr).mp ⟨st, hst, rfl⟩
    exact ⟨i, ⟨k, hk, hi⟩, ha⟩
  · rintro ⟨i, ⟨k, hk, hi⟩, rfl⟩
    obtain ⟨st, hst, ha⟩ := (h k hk _).mpr ⟨i, hi, rfl⟩
    exact ⟨st, List.mem_flatMap.mpr ⟨k, hk, hst⟩, ha⟩

/-- The stores of a `memcpy`, at an offset of `base`. -/
theorem StoresAt.storeBytes (base : BitVec 64) (off len : Nat) (src : Nat → Byte) :
    StoresAt base (fun i => off ≤ i ∧ i < off + len)
      (storeBytes (base + BitVec.ofNat 64 off) len src) := by
  intro a
  constructor
  · rintro ⟨st, hst, rfl⟩
    obtain ⟨i, hi, rfl⟩ := List.mem_map.mp hst
    rw [List.mem_range] at hi
    refine ⟨off + i, ⟨by omega, by omega⟩, ?_⟩
    rw [BitVec.ofNat_add, BitVec.add_assoc]
  · rintro ⟨i, ⟨hoff, hlt⟩, rfl⟩
    refine ⟨_, List.mem_map.mpr ⟨i - off, List.mem_range.mpr (by omega), rfl⟩, ?_⟩
    rw [BitVec.add_assoc, ← BitVec.ofNat_add, Nat.add_sub_cancel' hoff]

theorem StoresAt.store32 (base : BitVec 64) (off : Nat) (value : BitVec 32) :
    StoresAt base (fun i => off ≤ i ∧ i < off + 4) (store32 (base + BitVec.ofNat 64 off) value) :=
  .storeBytes base off 4 _

theorem StoresAt.store64 (base : BitVec 64) (off : Nat) (value : BitVec 64) :
    StoresAt base (fun i => off ≤ i ∧ i < off + 8) (store64 (base + BitVec.ofNat 64 off) value) :=
  .storeBytes base off 8 _

end StoresAt

/-! ## `sys_get_event` -/

/-- The window has an event to hand out. -/
def HasEvent (windows : List Window) (id : BitVec 32) : Prop :=
  ∃ win, windows.find? (fun w => w.id = id) = some win ∧ win.destroyed = false ∧
    win.eventHead ≠ win.eventTail

theorem storeEvent_storesAt (outEvent : BitVec 64) (event : GuiEvent) :
    StoresAt outEvent (fun i => i < 16) (storeEvent outEvent event) := by
  have htype := StoresAt.store32 outEvent 0 event.type
  rw [BitVec.add_zero] at htype
  apply (((htype.append (.store32 outEvent 4 event.x)).append (.store32 outEvent 8 event.y)).append
    (.store32 outEvent 12 event.data)).congr
  intro i
  omega

/-- The event is stored if there is one. -/
theorem popEventFrom_storesAt (id : BitVec 32) (outEvent : BitVec 64) (windows : List Window) :
    StoresAt outEvent (fun i => HasEvent windows id ∧ i < 16)
      (popEventFrom id outEvent windows).2.1 := by
  induction windows with
  | nil =>
    apply (StoresAt.nil outEvent).congr
    simp [HasEvent]
  | cons curr rest ih =>
    by_cases hid : curr.id = id
    · have hhas : HasEvent (curr :: rest) id ↔
          curr.destroyed = false ∧ curr.eventHead ≠ curr.eventTail := by
        simp [HasEvent, hid]
      by_cases hgone : curr.destroyed = true
      · simp only [popEventFrom, hid, hgone, if_true]
        apply (StoresAt.nil outEvent).congr
        simp [hhas, hgone]
      · by_cases hempty : curr.eventHead = curr.eventTail
        · simp only [popEventFrom, hid, hgone, hempty, if_true]
          apply (StoresAt.nil outEvent).congr
          simp [hhas, hempty]
        · simp only [popEventFrom, hid, hgone, hempty, if_true, if_false]
          apply (storeEvent_storesAt outEvent _).congr
          simp [hhas, hgone, hempty]
    · simp only [popEventFrom, hid, if_false]
      apply ih.congr
      simp [HasEvent, hid]

/-! ## `sys_read` -/

section Read

variable {ready : BitVec 32 → Bool} {disk : Disk} {startLba count bytesRead offset : BitVec 32}
  {first fuel : Nat}

/-- The sector lies whole in `count` bytes from `first` on. -/
def WholeSector (first count sector : Nat) : Prop :=
  first ≤ 512 * sector ∧ 512 * sector + 512 ≤ first + count

/-- The byte at an offset of the file is stored: all are, but those of whole sectors that cannot be
read. -/
def ByteStored (ready : BitVec 32 → Bool) (startLba : BitVec 32) (first count pos : Nat) : Prop :=
  ready (startLba + BitVec.ofNat 32 (pos / 512)) = true ∨ ¬ WholeSector first count (pos / 512)

theorem offset_mod_eq_zero : offset % 512 = 0 ↔ offset.toNat % 512 = 0 := by
  rw [← BitVec.toNat_inj, BitVec.toNat_umod]
  rfl

theorem chunkSize_eq_512 : chunkSize offset count bytesRead = 512 ↔
    (chunkSize offset count bytesRead).toNat = 512 := by
  rw [← BitVec.toNat_inj]
  rfl

theorem offset_div (offset : BitVec 32) : offset / 512 = BitVec.ofNat 32 (offset.toNat / 512) := by
  apply BitVec.eq_of_toNat_eq
  have := offset.isLt
  rw [BitVec.toNat_udiv, BitVec.toNat_ofNat, show (512 : BitVec 32).toNat = 512 from rfl]
  omega

/-- Where one round of the loop stores. It is at the start of the loop, or at the start of a sector. -/
theorem chunk_storesAt (buffer : BitVec 64) (hoffset : offset.toNat = first + bytesRead.toNat)
    (hlt : bytesRead < count) (hat : bytesRead.toNat = 0 ∨ offset.toNat % 512 = 0)
    (sectorBuf : Sector) :
    StoresAt buffer (fun i => bytesRead.toNat ≤ i ∧
        i < bytesRead.toNat + (chunkSize offset count bytesRead).toNat ∧
        ByteStored ready startLba first count.toNat (first + i))
      (if offset % 512 = 0 ∧ chunkSize offset count bytesRead = 512 then
        if ready (startLba + offset / 512) then
          storeBytes (buffer + bytesRead.setWidth 64) 512 (disk.sector (startLba + offset / 512)).byte
        else []
      else
        storeBytes (buffer + bytesRead.setWidth 64) (chunkSize offset count bytesRead).toNat fun i =>
          (ataReadSector (ready (startLba + offset / 512)) disk (startLba + offset / 512)
            sectorBuf).byte ((offset % 512).toNat + i)) := by
  have hchunk : (chunkSize offset count bytesRead).toNat =
      min (512 - offset.toNat % 512) (count.toNat - bytesRead.toNat) := chunkSize_toNat hlt
  rw [BitVec.lt_def] at hlt
  have hdst : buffer + bytesRead.setWidth 64 = buffer + BitVec.ofNat 64 bytesRead.toNat := by
    rw [BitVec.ofNat_toNat]
  -- the bytes of a round are of one sector
  have hsector : ∀ i, bytesRead.toNat ≤ i →
      i < bytesRead.toNat + (chunkSize offset count bytesRead).toNat →
      (first + i) / 512 = offset.toNat / 512 := by
    intro i hlow hhigh
    omega
  rw [hdst, offset_div]
  by_cases hwhole : offset % 512 = 0 ∧ chunkSize offset count bytesRead = 512
  · rw [if_pos hwhole]
    have hzero := offset_mod_eq_zero.mp hwhole.1
    have hlen := chunkSize_eq_512.mp hwhole.2
    have hall : WholeSector first count.toNat (offset.toNat / 512) := ⟨by omega, by omega⟩
    by_cases hready : ready (startLba + BitVec.ofNat 32 (offset.toNat / 512)) = true
    · rw [if_pos hready]
      apply (StoresAt.storeBytes buffer bytesRead.toNat 512 _).congr
      intro i
      rw [hlen]
      constructor
      · rintro ⟨hlow, hhigh⟩
        refine ⟨hlow, hhigh, Or.inl ?_⟩
        rw [hsector i hlow (by omega), hready]
      · rintro ⟨hlow, hhigh, -⟩
        exact ⟨hlow, hhigh⟩
    · rw [if_neg hready]
      apply (StoresAt.nil buffer).congr
      intro i
      rw [false_iff]
      rintro ⟨hlow, hhigh, hst⟩
      rw [ByteStored, hsector i hlow hhigh] at hst
      rcases hst with hst | hst
      · exact hready hst
      · exact hst hall
  · rw [if_neg hwhole]
    have hnot : ¬ WholeSector first count.toNat (offset.toNat / 512) := by
      rintro ⟨hlow, hhigh⟩
      -- otherwise the round starts where the sector does, and is as long
      have haligned : offset.toNat % 512 = 0 := by omega
      exact hwhole ⟨offset_mod_eq_zero.mpr haligned, chunkSize_eq_512.mpr (by omega)⟩
    apply (StoresAt.storeBytes buffer bytesRead.toNat _ _).congr
    intro i
    constructor
    · rintro ⟨hlow, hhigh⟩
      refine ⟨hlow, hhigh, Or.inr ?_⟩
      rwa [hsector i hlow hhigh]
    · rintro ⟨hlow, hhigh, -⟩
      exact ⟨hlow, hhigh⟩

/-- **Where the loop of `vfs_read` stores.** Between its rounds it stands at its start, or at the start
of a sector, or at its end. -/
theorem readStores_storesAt (buffer : BitVec 64) (hoffset : offset.toNat = first + bytesRead.toNat)
    (hle : bytesRead.toNat ≤ count.toNat) (hend : first + count.toNat < 2 ^ 32)
    (hfuel : count.toNat ≤ bytesRead.toNat + fuel)
    (hat : bytesRead.toNat = 0 ∨ offset.toNat % 512 = 0 ∨ bytesRead.toNat = count.toNat)
    (sectorBuf : Sector) :
    StoresAt buffer (fun i => bytesRead.toNat ≤ i ∧ i < count.toNat ∧
        ByteStored ready startLba first count.toNat (first + i))
      (readStores ready disk buffer startLba count fuel bytesRead offset sectorBuf).2 := by
  induction fuel generalizing bytesRead offset sectorBuf with
  | zero =>
    apply (StoresAt.nil buffer).congr
    intro i
    rw [false_iff]
    rintro ⟨hlow, hhigh, -⟩
    omega
  | succ fuel ih =>
    unfold readStores
    by_cases hlt : bytesRead < count
    · rw [if_pos hlt]
      have hchunk : (chunkSize offset count bytesRead).toNat =
          min (512 - offset.toNat % 512) (count.toNat - bytesRead.toNat) := chunkSize_toNat hlt
      have hnow := @chunk_storesAt ready disk startLba count bytesRead offset first buffer hoffset
        hlt (by rw [BitVec.lt_def] at hlt; omega) sectorBuf
      obtain ⟨hbytes, hnext⟩ := chunk_next hlt hoffset hend
      rw [BitVec.lt_def] at hlt
      have hrest := fun buf => @ih (bytesRead + chunkSize offset count bytesRead)
        (offset + chunkSize offset count bytesRead) hnext (by omega) (by omega) (Or.inr (by omega))
        buf
      -- a byte is stored in this round or in a later one
      have hsplit : ∀ i, (bytesRead.toNat ≤ i ∧
            i < bytesRead.toNat + (chunkSize offset count bytesRead).toNat ∧
            ByteStored ready startLba first count.toNat (first + i)) ∨
          ((bytesRead + chunkSize offset count bytesRead).toNat ≤ i ∧ i < count.toNat ∧
            ByteStored ready startLba first count.toNat (first + i)) ↔
          bytesRead.toNat ≤ i ∧ i < count.toNat ∧
            ByteStored ready startLba first count.toNat (first + i) := by
        intro i
        constructor
        · rintro (⟨hlow, hhigh, hst⟩ | ⟨hlow, hhigh, hst⟩)
          · exact ⟨hlow, by omega, hst⟩
          · exact ⟨by omega, hhigh, hst⟩
        · rintro ⟨hlow, hhigh, hst⟩
          by_cases hin : i < bytesRead.toNat + (chunkSize offset count bytesRead).toNat
          · exact Or.inl ⟨hlow, hin, hst⟩
          · exact Or.inr ⟨by omega, hhigh, hst⟩
      dsimp only
      by_cases hwhole : offset % 512 = 0 ∧ chunkSize offset count bytesRead = 512
      · rw [if_pos hwhole] at hnow ⊢
        exact (hnow.append (hrest sectorBuf)).congr hsplit
      · rw [if_neg hwhole] at hnow ⊢
        exact (hnow.append (hrest _)).congr hsplit
    · rw [if_neg hlt]
      rw [BitVec.lt_def] at hlt
      apply (StoresAt.nil buffer).congr
      intro i
      rw [false_iff]
      rintro ⟨hlow, hhigh, -⟩
      omega

/-- The bytes a call of `vfs_read` finds to read: none, where the descriptor is not open. -/
def readable (table : FdTable) (fd : Int) (count : BitVec 32) : Nat :=
  match table.index fd with
  | some i => min count.toNat ((table i).size.toNat - (table i).offset.toNat)
  | none => 0

/-- The `i`th byte of the buffer is stored. -/
def ReadsByte (s : KernelState n) (fd : Int) (count : BitVec 32) (i : Nat) : Prop :=
  ∃ f, s.vfs.fdTable.index fd = some f ∧ i < readable s.vfs.fdTable fd count ∧
    ByteStored s.driveReady (s.vfs.fdTable f).startLba (s.vfs.fdTable f).offset.toNat
      (readable s.vfs.fdTable fd count) ((s.vfs.fdTable f).offset.toNat + i)

/-- **Where `vfs_read` stores.** -/
theorem vfsReadTo_storesAt (s : KernelState n) (fd : Int) (buffer : BitVec 64) (count : BitVec 32) :
    StoresAt buffer (ReadsByte s fd count) (vfsReadTo s fd buffer count).stores := by
  unfold vfsReadTo
  cases hindex : s.vfs.fdTable.index fd with
  | none =>
    simp only [readSection, hindex]
    apply (StoresAt.nil buffer).congr
    simp [ReadsByte, hindex]
  | some f =>
    -- what can be read is what is left, or what was asked for
    have hread : readable s.vfs.fdTable fd count = min count.toNat (s.vfs.fdTable f).left := by
      simp only [readable, hindex]
      rfl
    have hleft : (s.vfs.fdTable f).left =
        (s.vfs.fdTable f).size.toNat - (s.vfs.fdTable f).offset.toNat := rfl
    rw [readSection_entry hindex count hread]
    by_cases hlt : (s.vfs.fdTable f).offset.toNat < (s.vfs.fdTable f).size.toNat
    -- the count does not wrap
    · have hcount : (BitVec.ofNat 32 (readable s.vfs.fdTable fd count)).toNat =
          readable s.vfs.fdTable fd count := by
        have hlt' := count.isLt
        rw [BitVec.toNat_ofNat, Nat.mod_eq_of_lt (by omega)]
      have hsize := (s.vfs.fdTable f).size.isLt
      have hstart : (s.vfs.fdTable f).offset.toNat =
          (s.vfs.fdTable f).offset.toNat + (0 : BitVec 32).toNat := rfl
      rw [if_pos hlt]
      apply (readStores_storesAt buffer hstart (Nat.zero_le _) (by rw [hcount]; omega)
        (Nat.le_add_left _ _) (Or.inl rfl) s.stack).congr
      intro i
      simp only [hcount, ReadsByte, hindex, Option.some.injEq, exists_eq_left', BitVec.toNat_zero,
        BitVec.ofNat_eq_ofNat, Nat.zero_le, true_and]
    · -- at the end of the file nothing is reserved
      rw [if_neg hlt]
      apply (StoresAt.nil buffer).congr
      intro i
      rw [false_iff]
      rintro ⟨f', hf', hi, -⟩
      omega

/-! ### The bytes stored -/

/-- Memory after stores. -/
def applyStores (mem : BitVec 64 → Byte) (l : List UserStore) : BitVec 64 → Byte :=
  l.foldl (fun mem st => Function.update mem st.addr st.byte) mem

theorem applyStores_append (mem : BitVec 64 → Byte) (l l' : List UserStore) :
    applyStores mem (l ++ l') = applyStores (applyStores mem l) l' :=
  List.foldl_append

/-- A `memcpy`, at an offset of a buffer. -/
theorem applyStores_storeBytes (mem : BitVec 64 → Byte) (base : BitVec 64) {off len : Nat}
    (hlen : off + len ≤ 2 ^ 64) (src : Nat → Byte) {i : Nat} (hi : i < 2 ^ 64) :
    applyStores mem (storeBytes (base + BitVec.ofNat 64 off) len src) (base + BitVec.ofNat 64 i) =
      if off ≤ i ∧ i < off + len then src (i - off) else mem (base + BitVec.ofNat 64 i) := by
  induction len with
  | zero => exact (if_neg (by omega)).symm
  | succ len ih =>
    have haddr : base + BitVec.ofNat 64 off + BitVec.ofNat 64 len =
        base + BitVec.ofNat 64 (off + len) := by
      rw [BitVec.add_assoc, ← BitVec.ofNat_add]
    -- no two places of the buffer have one address
    have heq : base + BitVec.ofNat 64 i = base + BitVec.ofNat 64 (off + len) ↔ i = off + len := by
      constructor
      · intro h
        have hnat := congrArg BitVec.toNat ((BitVec.add_right_inj base).mp h)
        rw [BitVec.toNat_ofNat, BitVec.toNat_ofNat, Nat.mod_eq_of_lt hi,
          Nat.mod_eq_of_lt (by omega)] at hnat
        exact hnat
      · rintro rfl
        rfl
    rw [storeBytes, List.range_succ, List.map_append, applyStores_append]
    simp only [List.map_cons, List.map_nil, applyStores, List.foldl_cons, List.foldl_nil, haddr,
      Function.update_apply, heq]
    -- the last byte is stored last
    by_cases hlast : i = off + len
    · rw [if_pos hlast, if_pos (by omega), hlast, Nat.add_sub_cancel_left]
    · rw [if_neg hlast]
      refine (ih (by omega)).trans ?_
      by_cases hin : off ≤ i ∧ i < off + len
      · rw [if_pos hin, if_pos (by omega)]
      · rw [if_neg hin, if_neg (by omega)]

/-- Bytes of a buffer copied onto themselves. -/
theorem copyInto_sectorAt (buffer : Buffer) (dst i : Nat) :
    copyInto buffer dst (sectorAt buffer dst).byte 512 i = buffer i := by
  unfold copyInto
  split
  · next hin =>
    have hlt : i - dst < 512 := by omega
    rw [Sector.byte_lt hlt]
    exact congrArg buffer (Nat.add_sub_cancel' hin.1)
  · rfl

/-- **The stores are those of `vfs_read`**: made in memory that holds the buffer, they leave there
what `readLoop` leaves in the buffer. -/
theorem readStores_buffer (ok : Bool) (s : Vfs) (base : BitVec 64) (startLba count : BitVec 32)
    (fuel : Nat) {bytesRead : BitVec 32} (offset : BitVec 32) (hle : bytesRead.toNat ≤ count.toNat)
    (sectorBuf : Sector) {buffer : Buffer} {mem : BitVec 64 → Byte}
    (hmem : ∀ i < 2 ^ 64, buffer i = mem (base + BitVec.ofNat 64 i)) :
    ((readLoop startLba count fuel bytesRead offset sectorBuf buffer).run Vfs.serve ok s).1.1 =
      (readStores (fun _ => ok) s.disk base startLba count fuel bytesRead offset sectorBuf).1 ∧
    ∀ i < 2 ^ 64,
      ((readLoop startLba count fuel bytesRead offset sectorBuf buffer).run Vfs.serve ok s).1.2 i =
        applyStores mem (readStores (fun _ => ok) s.disk base startLba count fuel bytesRead offset
          sectorBuf).2 (base + BitVec.ofNat 64 i) := by
  induction fuel generalizing bytesRead offset sectorBuf buffer mem with
  | zero => exact ⟨rfl, hmem⟩
  | succ fuel ih =>
    unfold readLoop readStores
    by_cases hlt : bytesRead < count
    · rw [if_pos hlt, if_pos hlt]
      have hchunk : (chunkSize offset count bytesRead).toNat =
          min (512 - offset.toNat % 512) (count.toNat - bytesRead.toNat) := chunkSize_toNat hlt
      rw [BitVec.lt_def] at hlt
      have hcount := count.isLt
      have hbytes : (bytesRead + chunkSize offset count bytesRead).toNat =
          bytesRead.toNat + (chunkSize offset count bytesRead).toNat := by
        rw [BitVec.toNat_add]
        omega
      have hdst : base + bytesRead.setWidth 64 = base + BitVec.ofNat 64 bytesRead.toNat := by
        rw [BitVec.ofNat_toNat]
      -- a copy into the buffer is a `memcpy` to its address
      have hcopy : ∀ (len : Nat) (src : Nat → Byte), len ≤ 512 → ∀ i < 2 ^ 64,
          copyInto buffer bytesRead.toNat src len i =
            applyStores mem (storeBytes (base + BitVec.ofNat 64 bytesRead.toNat) len src)
              (base + BitVec.ofNat 64 i) := by
        intro len src hlen i hi
        rw [applyStores_storeBytes mem base (by omega) src hi, copyInto, hmem i hi]
      dsimp only
      rw [hdst]
      by_cases hwhole : offset % 512 = 0 ∧ chunkSize offset count bytesRead = 512
      · rw [if_pos hwhole, if_pos hwhole]
        simp only [applyStores_append]
        have hbuffer : ∀ i < 2 ^ 64, copyInto buffer bytesRead.toNat
            (ataReadSector ok s.disk (startLba + offset / 512)
              (sectorAt buffer bytesRead.toNat)).byte 512 i =
            applyStores mem (if ok then storeBytes (base + BitVec.ofNat 64 bytesRead.toNat) 512
              (s.disk.sector (startLba + offset / 512)).byte else [])
              (base + BitVec.ofNat 64 i) := by
          intro i hi
          cases ok with
          | true => exact hcopy 512 _ (Nat.le_refl 512) i hi
          | false =>
            -- a read that fails leaves the buffer as it is
            exact (copyInto_sectorAt buffer bytesRead.toNat i).trans (hmem i hi)
        exact @ih (bytesRead + chunkSize offset count bytesRead)
          (offset + chunkSize offset count bytesRead) (by omega) sectorBuf _ _ hbuffer
      · rw [if_neg hwhole, if_neg hwhole]
        simp only [applyStores_append]
        exact @ih (bytesRead + chunkSize offset count bytesRead)
          (offset + chunkSize offset count bytesRead) (by omega) _ _ _ (hcopy _ _ (by omega))
    · rw [if_neg hlt, if_neg hlt]
      exact ⟨rfl, hmem⟩

end Read

/-! ## `sys_get_sys_info` -/

/-- The bytes of a `sys_info_t` that are stored, on a machine with `n` CPUs. -/
def SysInfoByte (n i : Nat) : Prop :=
  i < 20 ∨ 24 ≤ i ∧ i < 24 + 16 * min n 16 ∨ 280 ≤ i ∧ i < 284

theorem storeCpuTicks_storesAt (info : BitVec 64) (i : Nat) (cpu : Cpu) :
    StoresAt info (fun j => 24 + 16 * i ≤ j ∧ j < 24 + 16 * i + 16) (storeCpuTicks info i cpu) := by
  have hidle : info + BitVec.ofNat 64 (24 + 16 * i) + 8 =
      info + BitVec.ofNat 64 (24 + 16 * i + 8) := by
    rw [BitVec.ofNat_add (24 + 16 * i), BitVec.add_assoc]
    rfl
  unfold storeCpuTicks
  dsimp only
  rw [hidle]
  apply ((StoresAt.store64 info (24 + 16 * i) cpu.totalTicks).append
    (.store64 info (24 + 16 * i + 8) cpu.idleTicks)).congr
  intro j
  omega

theorem storeTaskCounts_storesAt (info : BitVec 64) (cpus : List Cpu) (sum : BitVec 32) :
    StoresAt info (fun i => cpus ≠ [] ∧ 280 ≤ i ∧ i < 284) (storeTaskCounts info cpus sum) := by
  induction cpus generalizing sum with
  | nil =>
    apply (StoresAt.nil info).congr
    simp
  | cons cpu rest ih =>
    apply ((StoresAt.store32 info 280 _).append (ih _)).congr
    intro i
    simp only [ne_eq, reduceCtorEq, not_false_eq_true, true_and]
    omega

theorem mem_take_finRange {c : Fin n} {k : Nat} : c ∈ (List.finRange n).take k ↔ c.val < k := by
  rw [List.mem_take_iff_getElem]
  constructor
  · rintro ⟨i, hi, rfl⟩
    simp only [List.getElem_finRange, Fin.val_cast]
    omega
  · intro hc
    refine ⟨c.val, ?_, ?_⟩
    · rw [List.length_finRange]
      omega
    · simp

/-- **Where `sys_get_sys_info` stores.** -/
theorem sysGetSysInfo_storesAt (s : KernelState n) (info : BitVec 64) :
    StoresAt info (SysInfoByte n) (sysGetSysInfo s info).stores := by
  have htotal := StoresAt.store64 info 0 (BitVec.ofNat 64 (pmmGetTotalFrames s.vmm.pmm))
  rw [BitVec.add_zero] at htotal
  have hticks : StoresAt info (fun i => 24 ≤ i ∧ i < 24 + 16 * min n 16)
      (((List.finRange n).take 16).flatMap fun c => storeCpuTicks info c.val (s.sched.cpus c)) := by
    apply (StoresAt.flatMap fun c _ => storeCpuTicks_storesAt info c.val (s.sched.cpus c)).congr
    intro i
    constructor
    · rintro ⟨c, hc, hlow, hhigh⟩
      have hlt := c.isLt
      rw [mem_take_finRange] at hc
      omega
    · rintro ⟨hlow, hhigh⟩
      refine ⟨⟨(i - 24) / 16, by omega⟩, ?_, ?_, ?_⟩
      · rw [mem_take_finRange]
        dsimp only
        omega
      · dsimp only
        omega
      · dsimp only
        omega
  apply (((((htotal.append (.store64 info 8 _)).append (.store32 info 16 _)).append hticks).append
    (.store32 info 280 0)).append (storeTaskCounts_storesAt info _ 0)).congr
  intro i
  unfold SysInfoByte
  omega

/-! ## `sys_get_tasks` -/

/-- The bytes of a `task_info_t` that are stored. -/
def TaskInfoByte (i : Nat) : Prop := i < 12 ∨ 16 ≤ i ∧ i < 28

/-- Those of the entries from `lo` on, below `hi`. -/
def EntryBytes (lo hi i : Nat) : Prop := ∃ k, lo ≤ k ∧ k < hi ∧ ∃ f, TaskInfoByte f ∧ 32 * k + f = i

/-- The tasks in a queue, as far as `bound`. -/
def queueLength (s : Sched n) : Nat → TaskPtr → Nat
  | 0, _ => 0
  | bound + 1, curr => if curr = 0 then 0 else queueLength s bound (s.tasks curr).next + 1

/-- The tasks of a CPU: the current one, and those in its queue, as far as `bound`. -/
def cpuTasks (s : Sched n) (bound : Nat) (c : Fin n) : Nat :=
  (if (s.cpus c).currentTask ≠ 0 then 1 else 0) + queueLength s bound (s.cpus c).runqueue.head

/-- The entries `task_get_all_info` fills. -/
def taskEntries (s : Sched n) (maxTasks : BitVec 32) : Nat :=
  min maxTasks.toNat ((List.finRange n).map (cpuTasks s maxTasks.toNat)).sum

theorem EntryBytes.union {lo mid hi : Nat} (hlo : lo ≤ mid) (hhi : mid ≤ hi) (i : Nat) :
    EntryBytes lo mid i ∨ EntryBytes mid hi i ↔ EntryBytes lo hi i := by
  constructor
  · rintro (⟨k, hlow, hhigh, hf⟩ | ⟨k, hlow, hhigh, hf⟩)
    · exact ⟨k, hlow, by omega, hf⟩
    · exact ⟨k, by omega, hhigh, hf⟩
  · rintro ⟨k, hlow, hhigh, hf⟩
    by_cases hk : k < mid
    · exact Or.inl ⟨k, hlow, hk, hf⟩
    · exact Or.inr ⟨k, by omega, hhigh, hf⟩

theorem not_entryBytes (lo i : Nat) : ¬ EntryBytes lo lo i := by
  rintro ⟨k, hlow, hhigh, -⟩
  omega

theorem storeTaskInfo_storesAt (tasks : BitVec 64) (count : BitVec 32) (task : Task)
    (cpuId : BitVec 8) : StoresAt tasks (EntryBytes count.toNat (count.toNat + 1))
      (storeTaskInfo tasks count task cpuId) := by
  have hcount := count.isLt
  have hentry : tasks + 32 * count.setWidth 64 = tasks + BitVec.ofNat 64 (32 * count.toNat) := by
    rw [BitVec.ofNat_mul, BitVec.ofNat_toNat]
    rfl
  have hfield : ∀ f, tasks + BitVec.ofNat 64 (32 * count.toNat) + BitVec.ofNat 64 f =
      tasks + BitVec.ofNat 64 (32 * count.toNat + f) := by
    intro f
    rw [BitVec.add_assoc, ← BitVec.ofNat_add]
  unfold storeTaskInfo
  dsimp only
  rw [hentry]
  -- the four fields of an entry, each right after the one before it or after a gap
  have hid := StoresAt.store64 tasks (32 * count.toNat) task.id
  have hcpu := StoresAt.store32 tasks (32 * count.toNat + 8) (cpuId.setWidth 32)
  have hticks := StoresAt.store64 tasks (32 * count.toNat + 16) task.totalTicks
  have hstate := StoresAt.store32 tasks (32 * count.toNat + 24) task.state.code
  rw [← hfield] at hcpu hticks hstate
  apply (((hid.append hcpu).append hticks).append hstate).congr
  intro i
  constructor
  · intro hi
    refine ⟨count.toNat, Nat.le_refl _, Nat.lt_succ_self _, i - 32 * count.toNat, ?_, by omega⟩
    unfold TaskInfoByte
    omega
  · rintro ⟨k, hlow, hhigh, f, hf, rfl⟩
    obtain rfl : k = count.toNat := by omega
    unfold TaskInfoByte at hf
    omega

/-- A smaller bound cuts the count off. -/
theorem queueLength_min (s : Sched n) {bound bound' : Nat} (h : bound ≤ bound') (curr : TaskPtr) :
    queueLength s bound curr = min bound (queueLength s bound' curr) := by
  induction bound generalizing bound' curr with
  | zero => simp [queueLength]
  | succ bound ih =>
    obtain ⟨bound', rfl⟩ : ∃ b, bound' = b + 1 := ⟨bound' - 1, by omega⟩
    unfold queueLength
    split
    · simp
    · rw [ih (Nat.le_of_succ_le_succ h), Nat.add_min_add_right]

/-- **The loop along a queue** fills an entry for each task, as far as there is room. -/
theorem storeQueue_storesAt (s : Sched n) (tasks : BitVec 64) (maxTasks : BitVec 32) (cpuId : BitVec 8)
    (room : Nat) (curr : TaskPtr) (count : BitVec 32) (hroom : count.toNat + room = maxTasks.toNat) :
    (storeQueue s tasks maxTasks cpuId room curr count).1.toNat =
      count.toNat + queueLength s room curr ∧
    StoresAt tasks (EntryBytes count.toNat (count.toNat + queueLength s room curr))
      (storeQueue s tasks maxTasks cpuId room curr count).2 := by
  induction room generalizing curr count with
  | zero =>
    refine ⟨rfl, (StoresAt.nil tasks).congr fun i => ?_⟩
    rw [false_iff]
    exact not_entryBytes count.toNat i
  | succ room ih =>
    have hmax := maxTasks.isLt
    -- there is room for another entry
    have hlt : count < maxTasks := by
      rw [BitVec.lt_def]
      omega
    unfold storeQueue queueLength
    by_cases hcurr : curr = 0
    · rw [if_neg fun hc => hc.1 hcurr, if_pos hcurr]
      refine ⟨rfl, (StoresAt.nil tasks).congr fun i => ?_⟩
      rw [false_iff]
      exact not_entryBytes count.toNat i
    · rw [if_pos ⟨hcurr, hlt⟩, if_neg hcurr]
      have hnext : (count + 1).toNat = count.toNat + 1 := by
        rw [BitVec.toNat_add, show (1 : BitVec 32).toNat = 1 from rfl]
        omega
      -- this entry, and those of the rest of the queue behind it
      obtain ⟨hcount, hrest⟩ := ih (s.tasks curr).next (count + 1) (by omega)
      rw [hnext] at hcount hrest
      dsimp only
      refine ⟨by omega, ?_⟩
      apply ((storeTaskInfo_storesAt tasks count (s.tasks curr) cpuId).append hrest).congr
      intro i
      rw [EntryBytes.union (by omega) (by omega)]
      apply Iff.of_eq
      congr 1
      omega

/-- The entries below `acc.1` are filled. -/
def Filled (tasks : BitVec 64) (maxTasks : BitVec 32) (entries : Nat)
    (acc : BitVec 32 × List UserStore) : Prop :=
  acc.1.toNat = min maxTasks.toNat entries ∧ StoresAt tasks (EntryBytes 0 acc.1.toNat) acc.2

/-- One CPU's tasks are added. -/
theorem Filled.storeCpuTasks {s : Sched n} {tasks : BitVec 64} {maxTasks : BitVec 32} {entries : Nat}
    {acc : BitVec 32 × List UserStore} (h : Filled tasks maxTasks entries acc) (c : Fin n) :
    Filled tasks maxTasks (entries + cpuTasks s maxTasks.toNat c)
      (storeCpuTasks s tasks maxTasks acc c) := by
  obtain ⟨count, stores⟩ := acc
  obtain ⟨hcount, hstores⟩ := h
  have hmax := maxTasks.isLt
  -- the current task first
  have hcurrent : Filled tasks maxTasks (entries + if (s.cpus c).currentTask ≠ 0 then 1 else 0)
      (if (s.cpus c).currentTask ≠ 0 ∧ count < maxTasks then
        (count + 1, stores ++
          storeTaskInfo tasks count (s.tasks (s.cpus c).currentTask) (s.cpus c).id)
      else (count, stores)) := by
    by_cases hcur : (s.cpus c).currentTask ≠ 0
    · by_cases hlt : count < maxTasks
      · rw [if_pos hcur, if_pos ⟨hcur, hlt⟩]
        rw [BitVec.lt_def] at hlt
        have hnext : (count + 1).toNat = count.toNat + 1 := by
          rw [BitVec.toNat_add, show (1 : BitVec 32).toNat = 1 from rfl]
          omega
        dsimp only at hcount
        refine ⟨by dsimp only; omega, ?_⟩
        apply (hstores.append (storeTaskInfo_storesAt tasks count _ _)).congr
        intro i
        dsimp only
        rw [hnext]
        exact EntryBytes.union (Nat.zero_le _) (Nat.le_succ _) i
      · rw [if_pos hcur, if_neg fun hc => hlt hc.2]
        rw [BitVec.lt_def] at hlt
        dsimp only at hcount
        exact ⟨by dsimp only; omega, hstores⟩
    · rw [if_neg hcur, if_neg fun hc => hcur hc.1]
      exact ⟨hcount, hstores⟩
  unfold ZohoOs.storeCpuTasks
  dsimp only
  generalize (if (s.cpus c).currentTask ≠ 0 ∧ count < maxTasks then
      (count + 1, stores ++
        storeTaskInfo tasks count (s.tasks (s.cpus c).currentTask) (s.cpus c).id)
    else (count, stores)) = acc' at hcurrent
  obtain ⟨count', stores'⟩ := acc'
  obtain ⟨hcount', hstores'⟩ := hcurrent
  dsimp only at hcount' hstores' ⊢
  -- then its queue, in the room that is left
  have hle : count'.toNat ≤ maxTasks.toNat := by omega
  have hroom : (maxTasks - count').toNat = maxTasks.toNat - count'.toNat := by
    rw [BitVec.toNat_sub]
    omega
  obtain ⟨hqueue, hqueued⟩ := storeQueue_storesAt s tasks maxTasks (s.cpus c).id
    (maxTasks - count').toNat (s.cpus c).runqueue.head count' (by omega)
  have hlen := queueLength_min s (Nat.sub_le maxTasks.toNat count'.toNat) (s.cpus c).runqueue.head
  rw [hroom, hlen] at hqueue
  refine ⟨?_, ?_⟩
  · dsimp only
    rw [hroom, hqueue, cpuTasks]
    omega
  · apply (hstores'.append hqueued).congr
    intro i
    dsimp only
    rw [hroom, hqueue, hlen]
    exact EntryBytes.union (Nat.zero_le _) (by omega) i

/-- **Where `task_get_all_info` stores.** -/
theorem taskGetAllInfo_storesAt (s : KernelState n) (tasks : BitVec 64) (maxTasks : BitVec 32) :
    StoresAt tasks (EntryBytes 0 (taskEntries s.sched maxTasks))
      (taskGetAllInfo s tasks maxTasks).stores := by
  have hloop : ∀ (cs : List (Fin n)) (entries : Nat) (acc : BitVec 32 × List UserStore),
      Filled tasks maxTasks entries acc →
      Filled tasks maxTasks (entries + (cs.map (cpuTasks s.sched maxTasks.toNat)).sum)
        (cs.foldl (storeCpuTasks s.sched tasks maxTasks) acc) := by
    intro cs
    induction cs with
    | nil => exact fun _ _ h => h
    | cons c cs ih =>
      intro entries acc h
      rw [List.map_cons, List.sum_cons, ← Nat.add_assoc]
      exact ih _ _ (h.storeCpuTasks c)
  have hstart : Filled tasks maxTasks 0 (0, []) := by
    refine ⟨by simp, (StoresAt.nil tasks).congr fun i => ?_⟩
    rw [false_iff]
    exact not_entryBytes 0 i
  obtain ⟨hcount, hstores⟩ := hloop (List.finRange n) 0 _ hstart
  rw [hcount, Nat.zero_add] at hstores
  exact hstores

/-! ## Every call -/

/-- Where a call stores for its caller. -/
def Syscall.Target (s : KernelState n) (a : BitVec 64) : Syscall → Prop
  | .getEvent winId outEvent => outEvent ≠ 0 ∧ HasEvent s.windows winId ∧
      ∃ i < 16, outEvent + BitVec.ofNat 64 i = a
  | .read fd buffer count => ∃ i, ReadsByte s fd count i ∧ buffer + BitVec.ofNat 64 i = a
  | .getSysInfo info => ∃ i, SysInfoByte n i ∧ info + BitVec.ofNat 64 i = a
  | .getTasks tasks maxTasks => ∃ i, EntryBytes 0 (taskEntries s.sched maxTasks) i ∧
      tasks + BitVec.ofNat 64 i = a
  | _ => False

/-- **Where each call stores**, whatever its arguments. -/
theorem Syscall.mem_stores_iff (s : KernelState n) (call : Syscall) (a : BitVec 64) :
    (∃ st ∈ call.stores s, st.addr = a) ↔ call.Target s a := by
  cases call with
  | getEvent winId outEvent =>
    simp only [Syscall.stores, Syscall.result, windowPopEvent, Syscall.Target]
    by_cases hnull : outEvent = 0
    · simp [hnull]
    · simp only [if_neg hnull, popEventFrom_storesAt winId outEvent s.windows a]
      constructor
      · rintro ⟨i, ⟨hhas, hi⟩, ha⟩
        exact ⟨hnull, hhas, i, hi, ha⟩
      · rintro ⟨-, hhas, i, hi, ha⟩
        exact ⟨i, ⟨hhas, hi⟩, ha⟩
  | read fd buffer count => exact vfsReadTo_storesAt s fd buffer count a
  | getSysInfo info => exact sysGetSysInfo_storesAt s info a
  | getTasks tasks maxTasks => exact taskGetAllInfo_storesAt s tasks maxTasks a
  | _ => simp [Syscall.stores, Syscall.result, Syscall.Target]

/-! ## The stores that are made -/

theorem performStores_written (pml4 : Nat) (l : List UserStore) (s : Vmm) :
    ∀ st ∈ (performStores pml4 s l).written, st ∈ l := by
  induction l generalizing s with
  | nil => exact fun st hst => hst
  | cons a rest ih =>
    intro st hst
    unfold performStores at hst
    cases hstore : kernelStore pml4 s a with
    | none => simp [hstore] at hst
    | some s' =>
      simp only [hstore, List.mem_cons] at hst
      rcases hst with rfl | hst
      · exact List.mem_cons_self
      · exact List.mem_cons_of_mem a (ih s' st hst)

/-- A call that returns has made all its stores. -/
theorem performStores_finished (pml4 : Nat) (l : List UserStore) (s : Vmm)
    (h : (performStores pml4 s l).finished = true) : (performStores pml4 s l).written = l := by
  induction l generalizing s with
  | nil => rfl
  | cons a rest ih =>
    unfold performStores at h ⊢
    cases hstore : kernelStore pml4 s a with
    | none => simp [hstore] at h
    | some s' =>
      simp only [hstore] at h ⊢
      rw [ih s' h]

/-! ## The pages of the caller -/

/-- The address space maps the page of the address present, `PAGE_USER` and `PAGE_WRITABLE`. -/
def UserWritable (s : Vmm) (pml4 : Nat) (addr : BitVec 64) : Prop :=
  Canonical addr ∧ hasFlag (vmmGetFlags s pml4 addr) pagePresent = true ∧
    hasFlag (vmmGetFlags s pml4 addr) pageUser = true ∧
    hasFlag (vmmGetFlags s pml4 addr) pageWritable = true

instance UserWritable.decidable (s : Vmm) (pml4 : Nat) (addr : BitVec 64) :
    Decidable (UserWritable s pml4 addr) := inferInstanceAs (Decidable (_ ∧ _))

/-- No byte is written outside the pages the caller may write: where one would be, the call returns
without having written. -/
structure KeepsToUserPages (s : KernelState n) (call : Syscall) : Prop where
  written : ∀ st ∈ (call.perform s).written, UserWritable s.vmm s.pml4 st.addr
  fails : (∃ st ∈ call.stores s, ¬ UserWritable s.vmm s.pml4 st.addr) →
    (call.perform s).finished = true ∧ (call.perform s).written = []

/-- No call looks at the pages before it stores. -/
theorem keepsToUserPages_iff (s : KernelState n) (call : Syscall) : KeepsToUserPages s call ↔
    ∀ st ∈ call.stores s, UserWritable s.vmm s.pml4 st.addr := by
  constructor
  · rintro ⟨-, hfails⟩ st hst
    by_contra hbad
    obtain ⟨hfinished, hnone⟩ := hfails ⟨st, hst, hbad⟩
    -- it returned, so the bad store was made
    have hall := performStores_finished s.pml4 (call.stores s) s.vmm hfinished
    rw [Syscall.perform, hall] at hnone
    rw [hnone] at hst
    exact absurd hst List.not_mem_nil
  · intro hgood
    refine ⟨fun st hst => ?_, fun ⟨st, hst, hbad⟩ => absurd (hgood st hst) hbad⟩
    exact hgood st (performStores_written s.pml4 (call.stores s) s.vmm st hst)

/-- **When a system call keeps to its caller's pages**: if the pages it is pointed at are mapped to the
caller, for writing. -/
theorem syscall_keepsToUserPages_iff (s : KernelState n) (num arg1 arg2 arg3 arg4 : BitVec 64) :
    (∀ call, syscallHandlerC num arg1 arg2 arg3 arg4 = some call → KeepsToUserPages s call) ↔
    ∀ call, syscallHandlerC num arg1 arg2 arg3 arg4 = some call →
      ∀ a, call.Target s a → UserWritable s.vmm s.pml4 a := by
  refine forall₂_congr fun call _ => ?_
  rw [keepsToUserPages_iff]
  constructor
  · intro hgood a ha
    obtain ⟨st, hst, rfl⟩ := (call.mem_stores_iff s a).mpr ha
    exact hgood st hst
  · intro hgood st hst
    exact hgood st.addr ((call.mem_stores_iff s st.addr).mp ⟨st, hst, rfl⟩)

/-! ## A call at boot -/

/-- A task in the first address space of the small machine, and no file or window. -/
def firstTask : KernelState 1 where
  vmm := raceStart.vmm
  sched :=
    { tasks := fun _ => ⟨1, 0, 0, 0, 0, 0x10D000, .running, 0, 4, 0, 0⟩
      cpus := fun _ => ⟨0, 0x200000, 0x201000, false, 0, 0, 0, 0, 0x10D000, ⟨0, 0, 0⟩⟩
      nextId := 2
      live := ∅
      reaped := [] }
  vfs := ⟨fun _ => 0, ⟨0, fun _ => 0, false⟩, fun _ => ⟨0, 0, 0, false⟩⟩
  windows := []
  cpu := 0
  driveReady := fun _ => true
  stack := fun _ => 0

/-- `sys_get_sys_info` is told to store over the kernel's root table. -/
theorem syscall_storesInKernel :
    syscallHandlerC 11 0x100000 0 0 0 = some (.getSysInfo 0x100000) ∧
      ¬ KeepsToUserPages firstTask (.getSysInfo 0x100000) := by
  refine ⟨rfl, fun hkeeps => ?_⟩
  obtain ⟨st, hst, haddr⟩ :=
    (sysGetSysInfo_storesAt firstTask 0x100000 0x100000).mpr ⟨0, Or.inl (by decide), rfl⟩
  have hbad : ¬ UserWritable firstTask.vmm firstTask.pml4 st.addr := by
    rw [haddr]
    decide +kernel
  exact hbad ((keepsToUserPages_iff firstTask _).mp hkeeps st hst)

end ZohoOs
