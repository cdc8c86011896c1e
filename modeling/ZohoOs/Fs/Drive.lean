import ZohoOs.Lib.Program
import ZohoOs.Net.Packet

/-!
# The drive and the descriptors

What the file system's calls work on: the drive behind the ATA driver, the cache of one sector in
`tar.c`, and the table of descriptors in `vfs.c`. The calls reach them through requests: a sector read
from the drive or through the cache, a sector written, and the critical sections of `vfs_lock`.

## Main definitions

* `Disk`, `Sector`: the bytes of the drive, and 512 of them
* `ataReadSector`, `ataWriteSector`: the driver, whose commands may fail
* `cachedReadSector`, `cachedWriteSector`: the cache
* `openSection`, `readSection`, `writeSection`: the critical sections
* `VfsRequest`, `Vfs.serve`: the requests, and what they do
-/

namespace ZohoOs

/-! ## The drive -/

/-- The bytes of the drive, by their position. -/
abbrev Disk := Nat → Byte

/-- A buffer of 512 bytes. -/
abbrev Sector := Fin 512 → Byte

/-- The position of a sector's first byte. The driver passes on 28 bits of the address. -/
def sectorStart (lba : BitVec 32) : Nat := 512 * (lba.toNat % 2 ^ 28)

/-- The bytes of a sector. -/
def Disk.sector (disk : Disk) (lba : BitVec 32) : Sector := fun i => disk (sectorStart lba + i)

/-- `ata_read_sector`. Where the drive does not get ready in time or reports an error, the buffer is
left as it is. -/
def ataReadSector (ok : Bool) (disk : Disk) (lba : BitVec 32) (buffer : Sector) : Sector :=
  if ok then disk.sector lba else buffer

/-- `ata_write_sector`. -/
def ataWriteSector (ok : Bool) (disk : Disk) (lba : BitVec 32) (buffer : Sector) : Disk :=
  if ok then fun pos =>
    if h : sectorStart lba ≤ pos ∧ pos < sectorStart lba + 512 then
      buffer ⟨pos - sectorStart lba, by omega⟩
    else disk pos
  else disk

/-- `struct sector_cache`. -/
structure SectorCache where
  lba : BitVec 32
  data : Sector
  valid : Bool

/-! ## The descriptors -/

/-- `fd_t`. -/
structure Fd where
  startLba : BitVec 32
  size : BitVec 32
  offset : BitVec 32
  inUse : Bool

/-- `fd_table`, of `MAX_FDS` entries. -/
abbrev FdTable := Fin 16 → Fd

/-- The bytes a call is to read or write: from an offset of the file at an address on. -/
structure Reservation where
  startLba : BitVec 32
  offset : BitVec 32
  count : BitVec 32
  deriving DecidableEq

/-- The entry of an open descriptor. -/
def FdTable.index (table : FdTable) (fd : Int) : Option (Fin 16) :=
  if h : 0 ≤ fd ∧ fd < 16 then
    let i : Fin 16 := ⟨fd.toNat, by omega⟩
    if (table i).inUse then some i else none
  else none

/-- The critical section of `vfs_open`: the first free entry is taken. -/
def openSection (table : FdTable) (lba size : BitVec 32) : Int × FdTable :=
  match (List.finRange 16).find? fun i => !(table i).inUse with
  | some i => (i.val, Function.update table i ⟨lba, size, 0, true⟩)
  | none => (-1, table)

/-- The critical section of `vfs_read`: a range of the file is reserved, or the call returns. -/
def readSection (table : FdTable) (fd : Int) (count : BitVec 32) :
    Except Int Reservation × FdTable :=
  match table.index fd with
  | none => (.error (-1), table)
  | some i =>
    let f := table i
    if f.offset ≥ f.size then (.error 0, table)
    else
      let count := if count > f.size - f.offset then f.size - f.offset else count
      (.ok ⟨f.startLba, f.offset, count⟩,
        Function.update table i { f with offset := f.offset + count })

/-- The critical section of `vfs_write`. -/
def writeSection (table : FdTable) (fd : Int) (count : BitVec 32) :
    Except Int Reservation × FdTable :=
  match table.index fd with
  | none => (.error (-1), table)
  | some i =>
    let f := table i
    let count := if f.offset + count > f.size then f.size - f.offset else count
    (.ok ⟨f.startLba, f.offset, count⟩,
      Function.update table i { f with offset := f.offset + count })

/-- `vfs_size`. -/
def sizeSection (table : FdTable) (fd : Int) : BitVec 32 :=
  match table.index fd with
  | some i => (table i).size
  | none => 0

/-- `vfs_close`. -/
def closeSection (table : FdTable) (fd : Int) : FdTable :=
  if h : 0 ≤ fd ∧ fd < 16 then
    let i : Fin 16 := ⟨fd.toNat, by omega⟩
    Function.update table i { table i with inUse := false }
  else table

/-! ## Requests -/

/-- What the calls of the file system ask for. -/
inductive VfsRequest
  /-- `ata_read_sector` into a buffer with these bytes. -/
  | readSector (lba : BitVec 32) (buffer : Sector)
  /-- `cached_read_sector`. -/
  | cachedRead (lba : BitVec 32)
  /-- `cached_write_sector`. -/
  | cachedWrite (lba : BitVec 32) (buffer : Sector)
  | openSection (lba size : BitVec 32)
  | readSection (fd : Int) (count : BitVec 32)
  | writeSection (fd : Int) (count : BitVec 32)
  | sizeSection (fd : Int)
  | closeSection (fd : Int)

/-- The answers: a buffer after a read, the range a critical section reserves, a descriptor. -/
@[reducible] def VfsAnswer : VfsRequest → Type
  | .readSector .. => Sector
  | .cachedRead .. => Sector
  | .cachedWrite .. => Unit
  | .openSection .. => Int
  | .readSection .. => Except Int Reservation
  | .writeSection .. => Except Int Reservation
  | .sizeSection .. => BitVec 32
  | .closeSection .. => Unit

/-- The calls of the file system. -/
abbrev VfsProg := Program.Prog VfsRequest VfsAnswer

/-- The program that makes one request. -/
abbrev vfsAsk (r : VfsRequest) : VfsProg (VfsAnswer r) := Program.Prog.request r

/-- The state behind the requests. -/
structure Vfs where
  disk : Disk
  cache : SectorCache
  fdTable : FdTable

/-- `cached_read_sector`. The cache takes what its buffer holds after the read. -/
def cachedReadSector (ok : Bool) (s : Vfs) (lba : BitVec 32) : Sector × Vfs :=
  if s.cache.valid ∧ s.cache.lba = lba then (s.cache.data, s)
  else
    let data := ataReadSector ok s.disk lba s.cache.data
    (data, { s with cache := ⟨lba, data, true⟩ })

/-- `cached_write_sector`. -/
def cachedWriteSector (ok : Bool) (s : Vfs) (lba : BitVec 32) (buffer : Sector) : Vfs :=
  { s with disk := ataWriteSector ok s.disk lba buffer, cache := ⟨lba, buffer, true⟩ }

/-- A request is served; `ok` says whether the command to the drive is carried out, if there is
one. -/
def Vfs.serve (ok : Bool) : (r : VfsRequest) → Vfs → VfsAnswer r × Vfs
  | .readSector lba buffer, s => (ataReadSector ok s.disk lba buffer, s)
  | .cachedRead lba, s => cachedReadSector ok s lba
  | .cachedWrite lba buffer, s => ((), cachedWriteSector ok s lba buffer)
  | .openSection lba size, s =>
    let (fd, table) := openSection s.fdTable lba size
    (fd, { s with fdTable := table })
  | .readSection fd count, s =>
    let (reserved, table) := readSection s.fdTable fd count
    (reserved, { s with fdTable := table })
  | .writeSection fd count, s =>
    let (reserved, table) := writeSection s.fdTable fd count
    (reserved, { s with fdTable := table })
  | .sizeSection fd, s => (sizeSection s.fdTable fd, s)
  | .closeSection fd, s => ((), { s with fdTable := closeSection s.fdTable fd })

end ZohoOs
