import ZohoOs.Fs.Drive

/-!
# Files of an archive

The calls of `tar.c` and `vfs.c`, as programs over the drive and the descriptors. The archive starts
at the address `tar_init_disk` was given.

## Main definitions

* `octalToInt`, `strcmp`: the fields of a header
* `tarWalk`: the walk over the headers, with `tarFindFile` and `tarGetFileByIndex`
* `vfsOpen`, `vfsRead`, `vfsWrite`, `vfsSize`, `vfsClose`, `vfsReaddir`
-/

namespace ZohoOs

open Program

/-! ## Headers -/

/-- A byte of a buffer. What lies behind the buffer reads as zero. -/
def Sector.byte (buffer : Sector) (i : Nat) : Byte := if h : i < 512 then buffer ⟨i, h⟩ else 0

/-- The loop of `octal_to_int`. A `char` above `0x7F` is negative, and stops it like one above `7`. -/
def octalLoop (oct : Nat → Byte) : Nat → Nat → BitVec 32 → BitVec 32
  | 0, _, res => res
  | left + 1, i, res =>
    if (oct i).toNat < 0x30 ∨ 0x37 < (oct i).toNat then res
    else octalLoop oct left (i + 1) (res <<< 3 ||| ((oct i).setWidth 32 - 0x30#32))

/-- `octal_to_int`. -/
def octalToInt (oct : Nat → Byte) : BitVec 32 := octalLoop oct 11 0 0

/-- `strcmp` of a string in memory and a string without a NUL of its own. -/
def strcmp (s1 : Nat → Byte) : List Byte → Nat → Int
  | [], i => (s1 i).toNat
  | c :: s2, i =>
    if s1 i ≠ 0 ∧ s1 i = c then strcmp s1 s2 (i + 1) else (s1 i).toNat - c.toNat

/-- `header->name`, as `strcpy` copies it. -/
def headerName (header : Sector) : List Byte := (List.ofFn header).takeWhile (· ≠ 0)

/-- `octal_to_int(header->size)`. -/
def headerSize (header : Sector) : BitVec 32 := octalToInt fun i => header.byte (124 + i)

/-! ## The walk -/

/-- The loop of `tar_find_file` and `tar_get_file_by_index`: the first header `hit` takes, by its
number and address. The result is `none` where it takes more than `fuel` rounds, and `some none` where
no header is taken. -/
def tarWalk {α : Type} (start : BitVec 32) (hit : Nat → BitVec 32 → Sector → Option α) :
    Nat → BitVec 32 → Nat → VfsProg (Option (Option α))
  | 0, _, _ => pure none
  | fuel + 1, currentLba, currentIdx => do
    let header : Sector ← vfsAsk (.cachedRead currentLba)
    if header 0 = 0 then pure (some none)
    else
      match hit currentIdx currentLba header with
      | some a => pure (some (some a))
      | none =>
        let currentLba := currentLba + (1 + (headerSize header + 511) / 512)
        if currentLba > start + 20000 then pure (some none)
        else tarWalk start hit fuel currentLba (currentIdx + 1)

/-- More rounds than there are sectors before the walk is broken off. -/
def tarFuel : Nat := 20001

/-- `tar_find_file`: the address and size of the file, or `none` where it returns -1. -/
def tarFindFile (start : BitVec 32) (name : List Byte) :
    VfsProg (Option (Option (BitVec 32 × BitVec 32))) :=
  tarWalk start (fun _ lba header =>
    if strcmp header.byte name 0 = 0 then some (lba + 1, headerSize header) else none)
    tarFuel start 0

/-- `tar_get_file_by_index`: what it returns, and the name it copies. -/
def tarGetFileByIndex (start : BitVec 32) (index : Int) :
    VfsProg (Option (Int × Option (List Byte))) := do
  let found ← tarWalk start
    (fun idx _ header => if (idx : Int) = index then some (headerName header) else none)
    tarFuel start 0
  match found with
  | none => pure none
  | some none => pure (some (-1, none))
  | some (some name) => pure (some (0, some name))

/-! ## The calls -/

/-- `vfs_open`. -/
def vfsOpen (start : BitVec 32) (path : List Byte) : VfsProg (Option Int) := do
  match ← tarFindFile start path with
  | none => pure none
  | some none => pure (some (-1))
  | some (some (lba, size)) =>
    let fd : Int ← vfsAsk (.openSection lba size)
    pure (some fd)

/-- `memcpy` into a buffer, at `dst`. -/
def copyInto (buffer : Buffer) (dst : Nat) (src : Nat → Byte) (n : Nat) : Buffer :=
  fun i => if dst ≤ i ∧ i < dst + n then src (i - dst) else buffer i

/-- The bytes of a buffer a sector is read into. -/
def sectorAt (buffer : Buffer) (dst : Nat) : Sector := fun i => buffer (dst + i)

/-- `to_copy` of `vfs_read`, and `to_write` of `vfs_write`. -/
def chunkSize (offset count done : BitVec 32) : BitVec 32 :=
  let chunk := 512 - offset % 512
  if chunk > count - done then count - done else chunk

/-- The loop of `vfs_read`. A round reads a byte or more, so that `count` of them suffice. -/
def readLoop (startLba count : BitVec 32) :
    Nat → BitVec 32 → BitVec 32 → Sector → Buffer → VfsProg (BitVec 32 × Buffer)
  | 0, bytesRead, _, _, buffer => pure (bytesRead, buffer)
  | fuel + 1, bytesRead, offset, sectorBuf, buffer =>
    if bytesRead < count then do
      let lba := startLba + offset / 512
      let toCopy := chunkSize offset count bytesRead
      if offset % 512 = 0 ∧ toCopy = 512 then
        let data : Sector ← vfsAsk (.readSector lba (sectorAt buffer bytesRead.toNat))
        readLoop startLba count fuel (bytesRead + toCopy) (offset + toCopy) sectorBuf
          (copyInto buffer bytesRead.toNat data.byte 512)
      else
        let sectorBuf : Sector ← vfsAsk (.readSector lba sectorBuf)
        readLoop startLba count fuel (bytesRead + toCopy) (offset + toCopy) sectorBuf
          (copyInto buffer bytesRead.toNat (fun i => sectorBuf.byte ((offset % 512).toNat + i))
            toCopy.toNat)
    else pure (bytesRead, buffer)

/-- `vfs_read`: what it returns, and the buffer. Its `sector_buf` starts with what the stack holds. -/
def vfsRead (stack : Sector) (fd : Int) (buffer : Buffer) (count : BitVec 32) :
    VfsProg (Int × Buffer) := do
  let reserved : Except Int Reservation ← vfsAsk (.readSection fd count)
  match reserved with
  | .error result => pure (result, buffer)
  | .ok range =>
    let (bytesRead, buffer) ←
      readLoop range.startLba range.count range.count.toNat 0 range.offset stack buffer
    pure (bytesRead.toInt, buffer)

/-- `memcpy` into a sector, at `dst`. -/
def Sector.patch (sector : Sector) (dst : Nat) (src : Nat → Byte) (n : Nat) : Sector :=
  fun i => if dst ≤ i.val ∧ i.val < dst + n then src (i.val - dst) else sector i

/-- The loop of `vfs_write`. -/
def writeLoop (startLba count : BitVec 32) (buffer : Buffer) :
    Nat → BitVec 32 → BitVec 32 → Sector → VfsProg (BitVec 32)
  | 0, bytesWritten, _, _ => pure bytesWritten
  | fuel + 1, bytesWritten, offset, sectorBuf =>
    if bytesWritten < count then do
      let lba := startLba + offset / 512
      let toWrite := chunkSize offset count bytesWritten
      let sectorBuf : Sector ← vfsAsk (.readSector lba sectorBuf)
      let sectorBuf := sectorBuf.patch (offset % 512).toNat
        (fun i => buffer (bytesWritten.toNat + i)) toWrite.toNat
      vfsAsk (.cachedWrite lba sectorBuf)
      writeLoop startLba count buffer fuel (bytesWritten + toWrite) (offset + toWrite) sectorBuf
    else pure bytesWritten

/-- `vfs_write`. -/
def vfsWrite (stack : Sector) (fd : Int) (buffer : Buffer) (count : BitVec 32) : VfsProg Int := do
  let reserved : Except Int Reservation ← vfsAsk (.writeSection fd count)
  match reserved with
  | .error result => pure result
  | .ok range =>
    let bytesWritten ←
      writeLoop range.startLba range.count buffer range.count.toNat 0 range.offset stack
    pure bytesWritten.toInt

/-- `vfs_size`. -/
def vfsSize (fd : Int) : VfsProg (BitVec 32) := vfsAsk (.sizeSection fd)

/-- `vfs_close`. -/
def vfsClose (fd : Int) : VfsProg Unit := vfsAsk (.closeSection fd)

/-- `vfs_readdir`. -/
def vfsReaddir (start : BitVec 32) (index : Int) :
    VfsProg (Option (Int × Option (List Byte))) :=
  tarGetFileByIndex start index

end ZohoOs
