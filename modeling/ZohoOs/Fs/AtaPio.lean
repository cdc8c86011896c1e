import ZohoOs.Fs.Vfs

/-!
# The ATA driver

`ata.c` works the drive through its ports: it waits for the status, writes an address of 28 bits and a command
to the registers, and moves the data in words of 16 bits. Here the driver is a program over the ports, and the
drive a device behind them that takes its time and may fail.

Where each command is done within the polls of `ata_wait`, the calls are those of `ataReadSector` and
`ataWriteSector`. A drive that has reported an error keeps it in its status until it gets a command, and the
driver gives it none as long as the error is there.

## Main definitions

* `PortRequest`: the accesses to ports
* `Ata.wait`, `Ata.readSector`, `Ata.writeSector`: the driver
* `AtaDrive`, `AtaDrive.serve`: the drive
* `IdealDrive`: what a drive does for whole calls

## Main results

* `Ata.wait_run`: the driver waits until the drive is no longer busy
* `Ata.readSector_run`, `Ata.writeSector_run`: one call
* `ataCalls_refine`: any sequence of calls
-/

namespace ZohoOs

open Program

/-! ## Ports -/

inductive PortRequest
  | inb (port : BitVec 16)
  | outb (port : BitVec 16) (val : Byte)
  | inw (port : BitVec 16)
  | outw (port : BitVec 16) (val : BitVec 16)

@[reducible] def PortAnswer : PortRequest → Type
  | .inb _ => Byte
  | .outb .. => Unit
  | .inw _ => BitVec 16
  | .outw .. => Unit

abbrev PortProg := Prog PortRequest PortAnswer

abbrev inb (port : BitVec 16) : PortProg Byte := Prog.request (PortRequest.inb port)

abbrev outb (port : BitVec 16) (val : Byte) : PortProg Unit := Prog.request (PortRequest.outb port val)

abbrev inw (port : BitVec 16) : PortProg (BitVec 16) := Prog.request (PortRequest.inw port)

abbrev outw (port : BitVec 16) (val : BitVec 16) : PortProg Unit := Prog.request (PortRequest.outw port val)

namespace Ata

/-- `ATA_PRIMARY_IO`. -/
def primaryIo : BitVec 16 := 0x1F0

/-- `ATA_REG_DATA`. -/
def regData : BitVec 16 := 0

/-- `ATA_REG_SECCOUNT`. -/
def regSeccount : BitVec 16 := 2

/-- `ATA_REG_LBA_LOW`. -/
def regLbaLow : BitVec 16 := 3

/-- `ATA_REG_LBA_MID`. -/
def regLbaMid : BitVec 16 := 4

/-- `ATA_REG_LBA_HIGH`. -/
def regLbaHigh : BitVec 16 := 5

/-- `ATA_REG_DRIVE`. -/
def regDrive : BitVec 16 := 6

/-- `ATA_REG_COMMAND`. -/
def regCommand : BitVec 16 := 7

/-- `ATA_REG_STATUS`, behind the same port. -/
def regStatus : BitVec 16 := 7

/-- `ATA_CMD_READ_PIO`. -/
def cmdReadPio : Byte := 0x20

/-- `ATA_CMD_WRITE_PIO`. -/
def cmdWritePio : Byte := 0x30

/-- `ATA_CMD_CACHE_FLUSH`. -/
def cmdCacheFlush : Byte := 0xE7

/-- `ATA_SR_BSY`. -/
def srBsy : Byte := 0x80

/-- `ATA_SR_DRQ`. -/
def srDrq : Byte := 0x08

/-- `ATA_SR_ERR`. -/
def srErr : Byte := 0x01

/-! ## The driver -/

/-- `ata_wait`, with the rounds that are left. -/
def wait (bit : Byte) (set : Bool) : Nat → PortProg Int
  | 0 => pure (-2)
  | timeout + 1 => do
    let status : Byte ← inb (primaryIo + regStatus)
    if status &&& srErr ≠ 0 then pure (-1)
    else if decide (status &&& bit ≠ 0) = set then pure 0
    else wait bit set timeout

/-- `timeout` in `ata_wait`. -/
def timeout : Nat := 1000000

/-- The registers and the command of a call. -/
def program (lba : BitVec 32) (cmd : Byte) : PortProg Unit := do
  outb (primaryIo + regDrive) (0xE0#8 ||| ((lba >>> 24).setWidth 8 &&& 0x0F#8))
  outb (primaryIo + regSeccount) 1
  outb (primaryIo + regLbaLow) (lba.setWidth 8)
  outb (primaryIo + regLbaMid) ((lba >>> 8).setWidth 8)
  outb (primaryIo + regLbaHigh) ((lba >>> 16).setWidth 8)
  outb (primaryIo + regCommand) cmd

/-- `ptr[i]` of a buffer of words. -/
def word (buffer : Sector) (i : Nat) : BitVec 16 :=
  (buffer.byte (2 * i + 1)).setWidth 16 <<< 8 ||| (buffer.byte (2 * i)).setWidth 16

/-- `ptr[i] = val`. -/
def setWord (buffer : Sector) (i : Nat) (val : BitVec 16) : Sector := fun k =>
  if k.val = 2 * i then val.setWidth 8
  else if k.val = 2 * i + 1 then (val >>> 8).setWidth 8
  else buffer k

/-- The loop of `ata_read_sector`, from a word on. -/
def readWords : Nat → Nat → Sector → PortProg Sector
  | 0, _, buffer => pure buffer
  | left + 1, i, buffer => do
    let val : BitVec 16 ← inw (primaryIo + regData)
    readWords left (i + 1) (setWord buffer i val)

/-- The loop of `ata_write_sector`. -/
def writeWords (buffer : Sector) : Nat → Nat → PortProg Unit
  | 0, _ => pure ()
  | left + 1, i => do
    outw (primaryIo + regData) (word buffer i)
    writeWords buffer left (i + 1)

/-- `ata_read_sector`: the buffer it leaves. -/
def readSector (lba : BitVec 32) (buffer : Sector) : PortProg Sector := do
  if (← wait srBsy false timeout) ≠ 0 then pure buffer
  else
    program lba cmdReadPio
    if (← wait srBsy false timeout) ≠ 0 then pure buffer
    else if (← wait srDrq true timeout) ≠ 0 then pure buffer
    else readWords 256 0 buffer

/-- `ata_write_sector`. -/
def writeSector (lba : BitVec 32) (buffer : Sector) : PortProg Unit := do
  if (← wait srBsy false timeout) ≠ 0 then pure ()
  else
    program lba cmdWritePio
    if (← wait srBsy false timeout) ≠ 0 then pure ()
    else if (← wait srDrq true timeout) ≠ 0 then pure ()
    else
      writeWords buffer 256 0
      outb (primaryIo + regCommand) cmdCacheFlush
      let _ ← wait srBsy false timeout
      pure ()

end Ata

/-! ## The drive -/

/-- What the drive does: nothing, with or without an error to report; a transfer of words; or it is busy, and
goes on after some reads of its status. -/
inductive AtaPhase
  | ready
  | failed
  | sending (data : Sector) (pos : Nat)
  | receiving (lba : Nat) (data : Sector) (pos : Nat)
  | busy (polls : Nat) (next : AtaPhase)

/-- How long the drive takes for a piece of work, and whether it fails. -/
structure AtaOutcome where
  polls : Nat
  fails : Bool

/-- The drive: its bytes, its registers, and what comes of its pieces of work, with the number of the
next one. -/
structure AtaDrive where
  disk : Disk
  drive : Byte
  seccount : Byte
  lbaLow : Byte
  lbaMid : Byte
  lbaHigh : Byte
  phase : AtaPhase
  outcome : Nat → AtaOutcome
  works : Nat

namespace AtaDrive

/-- The address in the registers. -/
def lba (d : AtaDrive) : Nat :=
  (d.drive &&& 0x0F#8).toNat * 2 ^ 24 + d.lbaHigh.toNat * 2 ^ 16 + d.lbaMid.toNat * 2 ^ 8 + d.lbaLow.toNat

/-- The drive is addressed, for one sector and by a number. -/
def Addressed (d : AtaDrive) : Prop := d.drive &&& 0xF0#8 = 0xE0#8 ∧ d.seccount = 1

instance (d : AtaDrive) : Decidable d.Addressed := inferInstanceAs (Decidable (_ ∧ _))

/-- A phase that begins after some polls. -/
def after : Nat → AtaPhase → AtaPhase
  | 0, next => next
  | polls + 1, next => .busy polls next

/-- A piece of work begins that is to lead to a phase. -/
def work (d : AtaDrive) (next : AtaPhase) : AtaDrive :=
  let o := d.outcome d.works
  { d with phase := after o.polls (if o.fails then .failed else next), works := d.works + 1 }

/-- The bytes of a sector, by its number. -/
def sectorOf (disk : Disk) (lba : Nat) : Sector := fun i => disk (512 * lba + i)

/-- The bytes of the drive, with those of a sector. -/
def withSector (disk : Disk) (lba : Nat) (data : Sector) : Disk := fun pos =>
  if h : 512 * lba ≤ pos ∧ pos < 512 * lba + 512 then data ⟨pos - 512 * lba, by omega⟩ else disk pos

/-- A command. While the drive is busy or moves data it takes none. -/
def command (d : AtaDrive) (cmd : Byte) : AtaDrive :=
  match d.phase with
  | .ready | .failed =>
    if cmd = Ata.cmdCacheFlush then d.work .ready
    else if ¬ d.Addressed then { d with phase := .failed }
    else if cmd = Ata.cmdReadPio then d.work (.sending (sectorOf d.disk d.lba) 0)
    else if cmd = Ata.cmdWritePio then d.work (.receiving d.lba (fun _ => 0) 0)
    else { d with phase := .failed }
  | _ => d

/-- The status: `BSY`, or `DRQ`, or `ERR`; a drive that is not busy is also ready. -/
def statusByte : AtaPhase → Byte
  | .ready => 0x50
  | .failed => 0x51
  | .sending .. | .receiving .. => 0x58
  | .busy .. => 0x80

/-- The status is read. A poll brings a busy drive closer to its next phase. -/
def status (d : AtaDrive) : Byte × AtaDrive :=
  (statusByte d.phase, match d.phase with
    | .busy polls next => { d with phase := after polls next }
    | _ => d)

/-- A word is read from the data port. -/
def sendWord (d : AtaDrive) : BitVec 16 × AtaDrive :=
  match d.phase with
  | .sending data pos =>
    (Ata.word data pos, { d with phase := if pos = 255 then .ready else .sending data (pos + 1) })
  | _ => (0, d)

/-- A word is written to the data port. With the last one the sector is written to the drive. -/
def receiveWord (d : AtaDrive) (val : BitVec 16) : AtaDrive :=
  match d.phase with
  | .receiving lba data pos =>
    let data := Ata.setWord data pos val
    if pos = 255 then
      { d.work .ready with
        disk := if (d.outcome d.works).fails then d.disk else withSector d.disk lba data }
    else { d with phase := .receiving lba data (pos + 1) }
  | _ => d

/-- A byte is written to a register. -/
def setRegister (d : AtaDrive) (port : BitVec 16) (val : Byte) : AtaDrive :=
  if port = Ata.primaryIo + Ata.regDrive then { d with drive := val }
  else if port = Ata.primaryIo + Ata.regSeccount then { d with seccount := val }
  else if port = Ata.primaryIo + Ata.regLbaLow then { d with lbaLow := val }
  else if port = Ata.primaryIo + Ata.regLbaMid then { d with lbaMid := val }
  else if port = Ata.primaryIo + Ata.regLbaHigh then { d with lbaHigh := val }
  else if port = Ata.primaryIo + Ata.regCommand then d.command val
  else d

/-- **The drive behind the ports.** -/
def serve : Server Unit PortRequest PortAnswer AtaDrive
  | _, .inb port, d => if port = Ata.primaryIo + Ata.regStatus then d.status else (0, d)
  | _, .outb port val, d => ((), d.setRegister port val)
  | _, .inw port, d => if port = Ata.primaryIo + Ata.regData then d.sendWord else (0, d)
  | _, .outw port val, d => ((), if port = Ata.primaryIo + Ata.regData then d.receiveWord val else d)

end AtaDrive

/-! ## Whole calls -/

inductive AtaCall
  | read (lba : BitVec 32) (buffer : Sector)
  | write (lba : BitVec 32) (buffer : Sector)

/-- The call of the driver, with the buffer after it. -/
def AtaCall.prog : AtaCall → PortProg Sector
  | .read lba buffer => Ata.readSector lba buffer
  | .write lba buffer => do
    Ata.writeSector lba buffer
    pure buffer

def ataCalls : List AtaCall → PortProg (List Sector)
  | [] => pure []
  | c :: cs => do
    let buffer ← c.prog
    let buffers ← ataCalls cs
    pure (buffer :: buffers)

/-- The buffer the call is made with. -/
def AtaCall.buffer : AtaCall → Sector
  | .read _ buffer => buffer
  | .write _ buffer => buffer

/-- A call of a drive that does what it is told. -/
def Disk.call (disk : Disk) : AtaCall → Sector × Disk
  | .read lba buffer => (ataReadSector true disk lba buffer, disk)
  | .write lba buffer => (buffer, ataWriteSector true disk lba buffer)

def Disk.calls (disk : Disk) : List AtaCall → List Sector × Disk
  | [] => ([], disk)
  | c :: cs => ((disk.call c).1 :: ((disk.call c).2.calls cs).1, ((disk.call c).2.calls cs).2)

/-- A drive between two calls. -/
structure IdealDrive where
  disk : Disk
  failed : Bool
  works : Nat

/-- **What a call does**: one piece of work for a read; for a write the command, the sector and, where the
drive is not busy with the sector any more, the flush. -/
def IdealDrive.call (outcome : Nat → AtaOutcome) (d : IdealDrive) : AtaCall → Sector × IdealDrive
  | .read lba buffer =>
    if d.failed then (buffer, d)
    else
      let o := outcome d.works
      (ataReadSector (!o.fails) d.disk lba buffer, { d with failed := o.fails, works := d.works + 1 })
  | .write lba buffer =>
    if d.failed then (buffer, d)
    else if (outcome d.works).fails then (buffer, { d with failed := true, works := d.works + 1 })
    else
      let o := outcome (d.works + 1)
      let disk := ataWriteSector (!o.fails) d.disk lba buffer
      (buffer, if o.polls = 0 then ⟨disk, (outcome (d.works + 2)).fails, d.works + 3⟩
        else ⟨disk, o.fails, d.works + 2⟩)

def IdealDrive.calls (outcome : Nat → AtaOutcome) : List AtaCall → IdealDrive → List Sector × IdealDrive
  | [], d => ([], d)
  | c :: cs, d =>
    let (buffer, d) := d.call outcome c
    let (buffers, d) := IdealDrive.calls outcome cs d
    (buffer :: buffers, d)

/-! ## Words -/

section Words

theorem word_bytes (hi lo : Byte) : (hi.setWidth 16 <<< 8 ||| lo.setWidth 16).setWidth 8 = lo ∧
    ((hi.setWidth 16 <<< 8 ||| lo.setWidth 16) >>> 8).setWidth 8 = hi := by
  constructor
  · ext k hk
    simp
  · ext k hk
    have hbit : 8 + k < 16 := by omega
    simp [hk, hbit]

/-- A word that is copied. -/
theorem Ata.setWord_word (buffer data : Sector) (i : Nat) : Ata.setWord buffer i (Ata.word data i) =
    fun k => if k.val / 2 = i then data k else buffer k := by
  funext k
  obtain ⟨hlo, hhi⟩ := word_bytes (data.byte (2 * i + 1)) (data.byte (2 * i))
  have hbyte : ∀ k : Fin 512, data.byte k.val = data k := fun k => dif_pos k.isLt
  unfold Ata.setWord Ata.word
  rw [hlo, hhi]
  by_cases heven : k.val = 2 * i
  · rw [if_pos heven, if_pos (by omega), ← heven, hbyte]
  · by_cases hodd : k.val = 2 * i + 1
    · rw [if_neg heven, if_pos hodd, if_pos (by omega), ← hodd, hbyte]
    · rw [if_neg heven, if_neg hodd, if_neg (by omega)]

end Words

/-! ## Waiting -/

section Driver

variable {d : AtaDrive} {next : AtaPhase} {polls n : Nat} {lba : BitVec 32} {buffer data : Sector}

/-- The drive is not busy. -/
def AtaPhase.Settled : AtaPhase → Prop
  | .busy .. => False
  | _ => True

/-- What the driver finds once the drive is not busy. -/
def AtaPhase.result : AtaPhase → Int
  | .failed => -1
  | _ => 0

theorem status_settled (hd : d.phase.Settled) : d.status = (AtaDrive.statusByte d.phase, d) ∧
    AtaDrive.statusByte d.phase &&& Ata.srBsy = 0 ∧
    (AtaDrive.statusByte d.phase &&& Ata.srErr ≠ 0 ↔ d.phase = .failed) := by
  obtain ⟨disk, drive, seccount, low, mid, high, phase, outcome, works⟩ := d
  cases phase with
  | busy => exact hd.elim
  | _ => simp [AtaDrive.status, AtaDrive.statusByte, Ata.srBsy, Ata.srErr]

theorem wait_succ (bit : Byte) (set : Bool) (n : Nat) (d : AtaDrive) :
    (Ata.wait bit set (n + 1)).run AtaDrive.serve () d =
      if d.status.1 &&& Ata.srErr ≠ 0 then (-1, d.status.2)
      else if decide (d.status.1 &&& bit ≠ 0) = set then (0, d.status.2)
      else (Ata.wait bit set n).run AtaDrive.serve () d.status.2 := by
  rw [Ata.wait, Prog.request_bind, Prog.run]
  simp only [AtaDrive.serve, if_true]
  split
  · rfl
  · split <;> rfl

/-- **The driver waits** until the drive is not busy, if that takes fewer polls than it has rounds. -/
theorem Ata.wait_run (hnext : next.Settled) (hd : d.phase = AtaDrive.after polls next) (hn : polls < n) :
    (Ata.wait Ata.srBsy false n).run AtaDrive.serve () d = (next.result, { d with phase := next }) := by
  obtain ⟨n, rfl⟩ : ∃ k, n = k + 1 := ⟨n - 1, by omega⟩
  induction polls generalizing n d with
  | zero =>
    subst hd
    obtain ⟨hstatus, hbusy, herr⟩ := status_settled hnext
    rw [wait_succ, hstatus]
    dsimp only
    by_cases hfailed : d.phase = .failed
    · rw [if_pos (herr.mpr hfailed)]
      show _ = (d.phase.result, d)
      rw [hfailed]
      rfl
    · rw [if_neg fun h => hfailed (herr.mp h), hbusy, if_pos (by decide)]
      show _ = (d.phase.result, d)
      cases hphase : d.phase with
      | failed => exact absurd hphase hfailed
      | _ => rfl
  | succ polls ih =>
    obtain ⟨n, rfl⟩ : ∃ k, n = k + 1 := ⟨n - 1, by omega⟩
    have hstatus : d.status = (0x80, { d with phase := AtaDrive.after polls next }) := by
      rw [AtaDrive.status, hd]
      rfl
    rw [wait_succ, hstatus]
    dsimp only
    rw [if_neg (by decide), if_neg (by simp [Ata.srBsy])]
    exact @ih { d with phase := AtaDrive.after polls next } rfl n (by omega)

theorem wait_drq (hd : AtaDrive.statusByte d.phase = 0x58) (hn : 0 < n) :
    (Ata.wait Ata.srDrq true n).run AtaDrive.serve () d = (0, d) := by
  obtain ⟨n, rfl⟩ : ∃ k, n = k + 1 := ⟨n - 1, by omega⟩
  have hsettled : d.phase.Settled := by
    cases hphase : d.phase with
    | busy =>
      rw [hphase, AtaDrive.statusByte] at hd
      exact absurd hd (by decide)
    | _ => trivial
  rw [wait_succ, (status_settled hsettled).1, hd]
  dsimp only
  rw [if_neg (by decide), if_pos (by simp [Ata.srDrq])]

/-! ## The registers -/

/-- The registers once an address is written to them. -/
def AtaDrive.select (d : AtaDrive) (lba : BitVec 32) : AtaDrive :=
  { d with
    drive := 0xE0#8 ||| ((lba >>> 24).setWidth 8 &&& 0x0F#8), seccount := 1, lbaLow := lba.setWidth 8
    lbaMid := (lba >>> 8).setWidth 8, lbaHigh := (lba >>> 16).setWidth 8 }

theorem program_run (d : AtaDrive) (lba : BitVec 32) (cmd : Byte) :
    (Ata.program lba cmd).run AtaDrive.serve () d = ((), (d.select lba).command cmd) := rfl

theorem low_nibble (x : Byte) : ((0xE0#8 ||| (x &&& 0x0F#8)) &&& 0x0F#8).toNat = x.toNat % 16 ∧
    (0xE0#8 ||| (x &&& 0x0F#8)) &&& 0xF0#8 = 0xE0#8 := by
  revert x
  decide

theorem select_addressed (d : AtaDrive) (lba : BitVec 32) : (d.select lba).Addressed :=
  ⟨(low_nibble _).2, rfl⟩

/-- The address has 28 bits. -/
theorem select_lba (d : AtaDrive) (lba : BitVec 32) : (d.select lba).lba = lba.toNat % 2 ^ 28 := by
  rw [AtaDrive.lba, AtaDrive.select]
  dsimp only
  rw [(low_nibble _).1]
  simp only [BitVec.toNat_setWidth, BitVec.toNat_ushiftRight, Nat.shiftRight_eq_div_pow]
  omega

theorem withSector_eq (disk : Disk) (lba : BitVec 32) (data : Sector) :
    AtaDrive.withSector disk (lba.toNat % 2 ^ 28) data = ataWriteSector true disk lba data := rfl

/-! ## The data -/

/-- The driver reads the words that are left. -/
theorem readWords_run (left pos : Nat) (hpos : pos + left = 255) (hd : d.phase = .sending data pos)
    (buffer : Sector) : (Ata.readWords (left + 1) pos buffer).run AtaDrive.serve () d =
      (fun k => if pos ≤ k.val / 2 then data k else buffer k, { d with phase := .ready }) := by
  induction left generalizing d pos buffer with
  | zero =>
    obtain rfl : pos = 255 := by omega
    rw [Ata.readWords, Prog.request_bind, Prog.run, Ata.readWords]
    simp only [AtaDrive.serve, if_true, AtaDrive.sendWord, hd, Ata.setWord_word]
    refine Prod.ext (funext fun k => ?_) rfl
    have hk := k.isLt
    show (if k.val / 2 = 255 then data k else buffer k) = if 255 ≤ k.val / 2 then data k else buffer k
    by_cases hlast : k.val / 2 = 255
    · rw [if_pos hlast, if_pos hlast.ge]
    · rw [if_neg hlast, if_neg (by omega)]
  | succ left ih =>
    have hrun := ih (d := { d with phase := .sending data (pos + 1) }) (pos + 1) (by omega) rfl
      (Ata.setWord buffer pos (Ata.word data pos))
    rw [Ata.readWords, Prog.request_bind, Prog.run]
    simp only [AtaDrive.serve, if_true, AtaDrive.sendWord, hd, if_neg (show pos ≠ 255 by omega)]
    rw [hrun, Ata.setWord_word]
    refine Prod.ext (funext fun k => ?_) rfl
    dsimp only
    rcases lt_trichotomy (k.val / 2) pos with hlt | heq | hgt
    · rw [if_neg (by omega), if_neg (by omega), if_neg (by omega)]
    · rw [if_neg (by omega), if_pos heq, if_pos heq.ge]
    · rw [if_pos (by omega), if_pos hgt.le]

/-- The drive after the last word. -/
def AtaDrive.written (d : AtaDrive) (lba : Nat) (data : Sector) : AtaDrive :=
  { d.work .ready with
    disk := if (d.outcome d.works).fails then d.disk else withSector d.disk lba data }

/-- The driver writes the words that are left. -/
theorem writeWords_run (left pos lba : Nat) (hpos : pos + left = 255)
    (hd : d.phase = .receiving lba data pos) (hdata : ∀ k : Fin 512, k.val / 2 < pos → data k = buffer k) :
    (Ata.writeWords buffer (left + 1) pos).run AtaDrive.serve () d = ((), d.written lba buffer) := by
  induction left generalizing d pos data with
  | zero =>
    obtain rfl : pos = 255 := by omega
    have hall : Ata.setWord data 255 (Ata.word buffer 255) = buffer := by
      rw [Ata.setWord_word]
      funext k
      have hk := k.isLt
      by_cases hlast : k.val / 2 = 255
      · rw [if_pos hlast]
      · rw [if_neg hlast, hdata k (by omega)]
    rw [Ata.writeWords, Prog.request_bind, Prog.run, Ata.writeWords]
    simp only [AtaDrive.serve, if_true, AtaDrive.receiveWord, hd, hall]
    rfl
  | succ left ih =>
    have hrun := @ih { d with phase := .receiving lba (Ata.setWord data pos (Ata.word buffer pos)) (pos + 1) }
      (Ata.setWord data pos (Ata.word buffer pos)) (pos + 1) (by omega) rfl fun k hk => by
        rw [Ata.setWord_word]
        dsimp only
        by_cases hword : k.val / 2 = pos
        · rw [if_pos hword]
        · rw [if_neg hword, hdata k (by omega)]
    rw [Ata.writeWords, Prog.request_bind, Prog.run]
    simp only [AtaDrive.serve, if_true, AtaDrive.receiveWord, hd, if_neg (show pos ≠ 255 by omega)]
    exact hrun

/-! ## Calls -/

variable {outcome : Nat → AtaOutcome} {a : IdealDrive}

/-- The drive between two calls. -/
structure AtaDrive.Stands (d : AtaDrive) (outcome : Nat → AtaOutcome) (a : IdealDrive) : Prop where
  disk : d.disk = a.disk
  outcome : d.outcome = outcome
  works : d.works = a.works
  phase : d.phase = if a.failed then .failed else .ready

theorem timeout_pos : 0 < Ata.timeout := Nat.zero_lt_succ _

/-- A drive that is not busy is not waited for. -/
theorem wait_settled (hd : d.phase.Settled) :
    (Ata.wait Ata.srBsy false Ata.timeout).run AtaDrive.serve () d = (d.phase.result, d) :=
  Ata.wait_run hd (show d.phase = AtaDrive.after 0 d.phase from rfl) timeout_pos

/-- A drive that has an error to report gets no command. -/
theorem AtaDrive.Stands.wait (h : d.Stands outcome a) :
    (Ata.wait Ata.srBsy false Ata.timeout).run AtaDrive.serve () d = (if a.failed then -1 else 0, d) := by
  have hphase := h.phase
  cases hfailed : a.failed with
  | true =>
    rw [hfailed, if_pos rfl] at hphase
    rw [wait_settled (by rw [hphase]; trivial), hphase]
    rfl
  | false =>
    rw [hfailed, if_neg (by decide)] at hphase
    rw [wait_settled (by rw [hphase]; trivial), hphase]
    rfl

/-- A command that is to transfer data is done with, or has failed. -/
theorem wait_work (hprompt : ∀ n, (outcome n).polls < Ata.timeout) (hd : d.outcome = outcome)
    (hnext : next.Settled) : (Ata.wait Ata.srBsy false Ata.timeout).run AtaDrive.serve () (d.work next) =
      ((if (outcome d.works).fails then .failed else next : AtaPhase).result,
        { d with phase := if (outcome d.works).fails then .failed else next, works := d.works + 1 }) := by
  have hsettled : (if (outcome d.works).fails then .failed else next : AtaPhase).Settled := by
    cases (outcome d.works).fails
    · exact hnext
    · trivial
  rw [Ata.wait_run hsettled (d := d.work next) (by rw [AtaDrive.work, hd]) (hprompt d.works)]
  rfl

theorem command_read (hd : d.phase = .ready) (lba : BitVec 32) :
    (d.select lba).command Ata.cmdReadPio = (d.select lba).work (.sending (d.disk.sector lba) 0) := by
  rw [AtaDrive.command, show (d.select lba).phase = .ready from hd]
  dsimp only
  rw [if_neg (by decide), if_neg (not_not.mpr (select_addressed d lba)), if_pos rfl, select_lba]
  rfl

theorem command_write (hd : d.phase = .ready) (lba : BitVec 32) :
    (d.select lba).command Ata.cmdWritePio =
      (d.select lba).work (.receiving (lba.toNat % 2 ^ 28) (fun _ => 0) 0) := by
  rw [AtaDrive.command, show (d.select lba).phase = .ready from hd]
  dsimp only
  rw [if_neg (by decide), if_neg (not_not.mpr (select_addressed d lba)), if_neg (by decide), if_pos rfl,
    select_lba]

/-- **A call of `ata_read_sector`.** -/
theorem Ata.readSector_run (hprompt : ∀ n, (outcome n).polls < Ata.timeout) (h : d.Stands outcome a)
    (lba : BitVec 32) (buffer : Sector) : ∃ d', (Ata.readSector lba buffer).run AtaDrive.serve () d =
      ((a.call outcome (.read lba buffer)).1, d') ∧
      d'.Stands outcome (a.call outcome (.read lba buffer)).2 := by
  rw [Ata.readSector, Prog.run_bind, h.wait, IdealDrive.call]
  have hphase := h.phase
  cases hfailed : a.failed with
  | true => exact ⟨d, rfl, h⟩
  | false =>
    rw [hfailed] at hphase
    simp only [Bool.false_eq_true, if_false] at hphase ⊢
    have hnext : (AtaPhase.sending (d.disk.sector lba) 0).Settled := trivial
    have hwait := wait_work (d := d.select lba) hprompt h.outcome hnext
    rw [if_neg (by decide), Prog.run_bind, program_run, command_read hphase, Prog.run_bind, hwait]
    have hworks : (d.select lba).works = a.works := h.works
    rw [hworks]
    cases hfails : (outcome a.works).fails with
    | true => exact ⟨_, rfl, h.disk, h.outcome, rfl, rfl⟩
    | false =>
      simp only [Bool.false_eq_true, if_false]
      rw [if_neg (fun hne => hne rfl), Prog.run_bind, wait_drq rfl timeout_pos]
      dsimp only
      rw [if_neg (by decide), readWords_run 255 0 rfl rfl]
      refine ⟨{ d.select lba with phase := .ready, works := a.works + 1 }, ?_, h.disk, h.outcome, rfl, rfl⟩
      simp only [Nat.zero_le, if_true, ataReadSector, Bool.not_false, h.disk]

/-- The flush, which a drive that is still busy with the sector does not take. -/
theorem flush_run (hprompt : ∀ n, (outcome n).polls < Ata.timeout) (hd : d.outcome = outcome) (lba : Nat)
    (buffer : Sector) : ∃ d' result,
      (Ata.wait Ata.srBsy false Ata.timeout).run AtaDrive.serve ()
        ((d.written lba buffer).command Ata.cmdCacheFlush) = (result, d') ∧
      d'.disk = (d.written lba buffer).disk ∧ d'.outcome = outcome ∧
      (d'.works = if (outcome d.works).polls = 0 then d.works + 2 else d.works + 1) ∧
      d'.phase =
        if (outcome (if (outcome d.works).polls = 0 then d.works + 1 else d.works)).fails then .failed
        else .ready := by
  cases hpolls : (outcome d.works).polls with
  | zero =>
    have hphase : (d.written lba buffer).phase = if (outcome d.works).fails then .failed else .ready := by
      rw [AtaDrive.written, AtaDrive.work, hd]
      dsimp only
      rw [hpolls]
      rfl
    have hcommand : (d.written lba buffer).command Ata.cmdCacheFlush =
        (d.written lba buffer).work .ready := by
      rw [AtaDrive.command, hphase]
      cases (outcome d.works).fails <;> rfl
    have hready : AtaPhase.ready.Settled := trivial
    rw [hcommand, wait_work hprompt (show (d.written lba buffer).outcome = outcome from hd) hready]
    exact ⟨_, _, rfl, rfl, hd, rfl, rfl⟩
  | succ polls =>
    have hphase : (d.written lba buffer).phase =
        AtaDrive.after (polls + 1) (if (outcome d.works).fails then .failed else .ready) := by
      rw [AtaDrive.written, AtaDrive.work, hd]
      dsimp only
      rw [hpolls]
    have hcommand : (d.written lba buffer).command Ata.cmdCacheFlush = d.written lba buffer := by
      rw [AtaDrive.command, hphase]
      rfl
    have hsettled : (if (outcome d.works).fails then .failed else .ready : AtaPhase).Settled := by
      cases (outcome d.works).fails <;> trivial
    rw [hcommand, Ata.wait_run hsettled hphase (hpolls ▸ hprompt d.works)]
    exact ⟨_, _, rfl, rfl, hd, rfl, rfl⟩

/-- **A call of `ata_write_sector`.** -/
theorem Ata.writeSector_run (hprompt : ∀ n, (outcome n).polls < Ata.timeout) (h : d.Stands outcome a)
    (lba : BitVec 32) (buffer : Sector) : ∃ d', (Ata.writeSector lba buffer).run AtaDrive.serve () d =
      ((), d') ∧ d'.Stands outcome (a.call outcome (.write lba buffer)).2 := by
  rw [Ata.writeSector, Prog.run_bind, h.wait, IdealDrive.call]
  have hphase := h.phase
  cases hfailed : a.failed with
  | true => exact ⟨d, rfl, h⟩
  | false =>
    rw [hfailed] at hphase
    simp only [Bool.false_eq_true, if_false] at hphase ⊢
    have hnext : (AtaPhase.receiving (lba.toNat % 2 ^ 28) (fun _ => 0) 0).Settled := trivial
    have hwait := wait_work (d := d.select lba) hprompt h.outcome hnext
    rw [if_neg (by decide), Prog.run_bind, program_run, command_write hphase, Prog.run_bind, hwait]
    have hworks : (d.select lba).works = a.works := h.works
    rw [hworks]
    cases hfails : (outcome a.works).fails with
    | true => exact ⟨_, rfl, h.disk, h.outcome, rfl, rfl⟩
    | false =>
      simp only [Bool.false_eq_true, if_false]
      rw [if_neg (fun hne => hne rfl), Prog.run_bind, wait_drq rfl timeout_pos]
      dsimp only
      rw [if_neg (by decide)]
      generalize he : ({ d.select lba with
        phase := .receiving (lba.toNat % 2 ^ 28) (fun _ => 0) 0, works := a.works + 1 } : AtaDrive) = e
      have heoutcome : e.outcome = outcome := he ▸ h.outcome
      have heworks : e.works = a.works + 1 := he ▸ rfl
      have hedisk : e.disk = a.disk := he ▸ h.disk
      obtain ⟨d', result, hrun, hdisk, houtcome, hworks', hphase'⟩ :=
        flush_run hprompt heoutcome (lba.toNat % 2 ^ 28) buffer
      have hwords := @writeWords_run e buffer (fun _ => 0) 255 0 (lba.toNat % 2 ^ 28) rfl (he ▸ rfl)
        fun k hk => absurd hk (Nat.not_lt_zero _)
      refine ⟨d', ?_, ?_⟩
      · rw [Prog.run_bind, hwords, Prog.request_bind, Prog.run]
        dsimp only
        rw [Prog.run_bind, show AtaDrive.serve () (PortRequest.outb (primaryIo + regCommand) cmdCacheFlush)
          (e.written (lba.toNat % 2 ^ 28) buffer) =
            ((), (e.written (lba.toNat % 2 ^ 28) buffer).command cmdCacheFlush) from rfl, hrun]
        rfl
      · rw [heworks] at hworks' hphase'
        have hsector : d'.disk = ataWriteSector (!(outcome (a.works + 1)).fails) a.disk lba buffer := by
          rw [hdisk, AtaDrive.written, heoutcome, heworks, hedisk]
          dsimp only
          rw [withSector_eq]
          cases (outcome (a.works + 1)).fails <;> rfl
        by_cases hpolls : (outcome (a.works + 1)).polls = 0
        · rw [if_pos hpolls] at hworks' hphase' ⊢
          exact ⟨hsector, houtcome, hworks', hphase'⟩
        · rw [if_neg hpolls] at hworks' hphase' ⊢
          exact ⟨hsector, houtcome, hworks', hphase'⟩

/-- One call. -/
theorem AtaCall.prog_run (hprompt : ∀ n, (outcome n).polls < Ata.timeout) (h : d.Stands outcome a)
    (c : AtaCall) : ∃ d', c.prog.run AtaDrive.serve () d = ((a.call outcome c).1, d') ∧
      d'.Stands outcome (a.call outcome c).2 := by
  cases c with
  | read lba buffer => exact Ata.readSector_run hprompt h lba buffer
  | write lba buffer =>
    obtain ⟨d', hrun, hstands⟩ := Ata.writeSector_run hprompt h lba buffer
    refine ⟨d', ?_, hstands⟩
    rw [AtaCall.prog, Prog.run_bind, hrun]
    have hbuffer : (a.call outcome (.write lba buffer)).1 = buffer := by
      rw [IdealDrive.call]
      split
      · rfl
      · split <;> rfl
    rw [hbuffer]
    rfl

/-- A call of a drive that has failed leaves it alone. -/
theorem AtaCall.prog_failed (h : d.phase = .failed) (c : AtaCall) :
    c.prog.run AtaDrive.serve () d = (c.buffer, d) := by
  have hwait := wait_settled (d := d) (by rw [h]; trivial)
  rw [h] at hwait
  cases c with
  | read lba buffer =>
    rw [AtaCall.prog, Ata.readSector, Prog.run_bind, hwait]
    rfl
  | write lba buffer =>
    rw [AtaCall.prog, Ata.writeSector, Prog.run_bind, Prog.run_bind, hwait]
    rfl

theorem ataCalls_failed (h : d.phase = .failed) (calls : List AtaCall) :
    (ataCalls calls).run AtaDrive.serve () d = (calls.map AtaCall.buffer, d) := by
  induction calls with
  | nil => rfl
  | cons c calls ih =>
    rw [ataCalls, Prog.run_bind, AtaCall.prog_failed h, Prog.run_bind, ih]
    rfl

/-- Where no work fails, a call is one of the plain drive. -/
theorem IdealDrive.call_fine (hfine : ∀ n, (outcome n).fails = false) (ha : a.failed = false) (c : AtaCall) :
    (a.call outcome c).1 = (a.disk.call c).1 ∧ (a.call outcome c).2.disk = (a.disk.call c).2 ∧
      (a.call outcome c).2.failed = false := by
  cases c with
  | read lba buffer => simp [IdealDrive.call, Disk.call, ha, hfine, ataReadSector]
  | write lba buffer =>
    simp only [IdealDrive.call, Disk.call, ha, hfine, Bool.false_eq_true, if_false, Bool.not_false]
    refine ⟨trivial, ?_, ?_⟩ <;> split <;> rfl

theorem IdealDrive.calls_fine (hfine : ∀ n, (outcome n).fails = false) (ha : a.failed = false)
    (calls : List AtaCall) :
    (IdealDrive.calls outcome calls a).1 = (a.disk.calls calls).1 ∧
      (IdealDrive.calls outcome calls a).2.disk = (a.disk.calls calls).2 := by
  induction calls generalizing a with
  | nil => exact ⟨rfl, rfl⟩
  | cons c calls ih =>
    obtain ⟨hbuffer, hdisk, hfailed⟩ := a.call_fine hfine ha c
    obtain ⟨hbuffers, hend⟩ := ih hfailed
    rw [hdisk] at hbuffers hend
    exact ⟨congrArg₂ List.cons hbuffer hbuffers, hend⟩

/-- **The driver and the drive.** Where the drive is never busy for as long as `ata_wait` polls, any
sequence of calls reads and writes what `IdealDrive` says; without a failure these are the sectors of the
disk; and a drive that has failed is not touched any more. -/
theorem ataCalls_refine (hprompt : ∀ n, (outcome n).polls < Ata.timeout) (h : d.Stands outcome a)
    (calls : List AtaCall) :
    (∃ d', (ataCalls calls).run AtaDrive.serve () d = ((IdealDrive.calls outcome calls a).1, d') ∧
      d'.Stands outcome (IdealDrive.calls outcome calls a).2) ∧
    ((∀ n, (outcome n).fails = false) → a.failed = false →
      ((ataCalls calls).run AtaDrive.serve () d).1 = (d.disk.calls calls).1 ∧
      ((ataCalls calls).run AtaDrive.serve () d).2.disk = (d.disk.calls calls).2) ∧
    (a.failed = true → (ataCalls calls).run AtaDrive.serve () d = (calls.map AtaCall.buffer, d)) := by
  have hrun : ∃ d', (ataCalls calls).run AtaDrive.serve () d = ((IdealDrive.calls outcome calls a).1, d') ∧
      d'.Stands outcome (IdealDrive.calls outcome calls a).2 := by
    induction calls generalizing d a with
    | nil => exact ⟨d, rfl, h⟩
    | cons c calls ih =>
      obtain ⟨e, hcall, he⟩ := AtaCall.prog_run hprompt h c
      obtain ⟨d', hcalls, hd'⟩ := ih he
      refine ⟨d', ?_, hd'⟩
      rw [ataCalls, Prog.run_bind, hcall, Prog.run_bind, hcalls]
      rfl
  refine ⟨hrun, fun hfine ha => ?_, fun ha => ?_⟩
  · obtain ⟨d', hcalls, hd'⟩ := hrun
    obtain ⟨hbuffers, hdisk⟩ := a.calls_fine hfine ha calls
    rw [hcalls, h.disk]
    exact ⟨hbuffers, hd'.disk.trans hdisk⟩
  · exact ataCalls_failed (by rw [h.phase, if_pos ha]) calls

/-- A sector that is written and read back from a drive that needs two polls for a piece of work, and then an
error on a drive with nothing to lose. -/
theorem ataCalls_refine_sample :
    let drive (fails : Bool) : AtaDrive := ⟨fun _ => 0, 0, 0, 0, 0, 0, .ready, fun _ => ⟨2, fails⟩, 0⟩
    let calls : List AtaCall := [.write 5 fun _ => 7, .read 5 fun _ => 0]
    ((ataCalls calls).run AtaDrive.serve () (drive false)).1 = [fun _ => 7, fun _ => 7] ∧
      ((ataCalls calls).run AtaDrive.serve () (drive true)).1 = [fun _ => 7, fun _ => 0] ∧
      ((ataCalls calls).run AtaDrive.serve () { drive true with phase := .failed }).2 =
        { drive true with phase := .failed } := by
  intro drive calls
  have hstands (fails : Bool) : (drive fails).Stands (fun _ => ⟨2, fails⟩) ⟨fun _ => 0, false, 0⟩ :=
    ⟨rfl, rfl, rfl, rfl⟩
  have hprompt (fails : Bool) : ∀ n, ((fun _ => ⟨2, fails⟩ : Nat → AtaOutcome) n).polls < Ata.timeout :=
    fun _ => (by decide : 2 < 1000000)
  refine ⟨?_, ?_, ?_⟩
  · refine ((ataCalls_refine (hprompt false) (hstands false) calls).2.1 (fun _ => rfl) rfl).1.trans ?_
    have hread : ataReadSector true (ataWriteSector true (fun _ => 0) 5 fun _ => 7) 5 (fun _ => 0) =
        fun _ => 7 := by
      funext k
      have hk := k.isLt
      simp [ataReadSector, ataWriteSector, Disk.sector, hk]
    exact congrArg₂ List.cons rfl (congrArg₂ List.cons hread rfl)
  · obtain ⟨d', hrun, -⟩ := (ataCalls_refine (hprompt true) (hstands true) calls).1
    rw [hrun]
    rfl
  · have hfailed : ({ drive true with phase := .failed } : AtaDrive).Stands (fun _ => ⟨2, true⟩)
        ⟨fun _ => 0, true, 0⟩ := ⟨rfl, rfl, rfl, rfl⟩
    rw [(ataCalls_refine (hprompt true) hfailed calls).2.2 rfl]

end Driver

end ZohoOs
