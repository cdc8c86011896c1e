import ZohoOs.Lib.LittleEndian
import ZohoOs.Lib.TransitionSystem
import ZohoOs.Syscall.OutPointers
import ZohoOs.Task.ForkFrame

/-!
# Descriptor tables

`gdt_init` and `idt_init_global` tell the processor where an interrupt goes: through the gate of its vector,
with the segments of the GDT, to the stack that the TSS names. A descriptor has its addresses in pieces. Here
the tables of all CPUs are bytes of one memory, and the processor puts the pieces together.

On every CPU each of the first 48 vectors comes to its stub, whatever else is going on, and where the stub
expects what the processor has pushed it makes the frame of `interruptEntry`. The other vectors have no gate,
and `int` is not allowed in user mode.

## Main definitions

* `gdtInit`, `idtInitGlobal`: the tables, as structures
* `Processor.interrupt`, `Processor.canReturn`: what the processor makes of them
* `TableMap`, `TableStep`: CPUs that set up their tables, in one memory

## Main results

* `TablesHeld.step`: what a step keeps of the tables
* `isrStub_frame_iff`: the stubs that make a frame
* `interrupts_enter`: any interrupt, in any run
-/

namespace ZohoOs

open Layout TransitionSystem WordStack

/-! ## The tables -/

/-- `struct gdt_entry`. -/
structure GdtEntry where
  limitLow : BitVec 16
  baseLow : BitVec 16
  baseMiddle : Byte
  access : Byte
  granularity : Byte
  baseHigh : Byte

def GdtEntry.bytes (e : GdtEntry) : List Byte :=
  leBytes 2 e.limitLow.toNat ++ leBytes 2 e.baseLow.toNat ++
    [e.baseMiddle, e.access, e.granularity, e.baseHigh]

/-- `struct gdt_tss_entry`. -/
structure GdtTssEntry where
  limitLow : BitVec 16
  baseLow : BitVec 16
  baseMiddle : Byte
  access : Byte
  granularity : Byte
  baseHigh : Byte
  baseHigher : BitVec 32
  reserved : BitVec 32

def GdtTssEntry.bytes (e : GdtTssEntry) : List Byte :=
  leBytes 2 e.limitLow.toNat ++ leBytes 2 e.baseLow.toNat ++
    [e.baseMiddle, e.access, e.granularity, e.baseHigh] ++
    leBytes 4 e.baseHigher.toNat ++ leBytes 4 e.reserved.toNat

/-- `struct tss_entry`. -/
structure TssEntry where
  reserved0 : BitVec 32
  rsp0 : BitVec 64
  rsp1 : BitVec 64
  rsp2 : BitVec 64
  reserved1 : BitVec 64
  ist : Vector (BitVec 64) 7
  reserved2 : BitVec 64
  reserved3 : BitVec 16
  iopbOffset : BitVec 16

def TssEntry.bytes (e : TssEntry) : List Byte :=
  leBytes 4 e.reserved0.toNat ++ leBytes 8 e.rsp0.toNat ++ leBytes 8 e.rsp1.toNat ++
    leBytes 8 e.rsp2.toNat ++ leBytes 8 e.reserved1.toNat ++
    e.ist.toList.flatMap (fun stack => leBytes 8 stack.toNat) ++ leBytes 8 e.reserved2.toNat ++
    leBytes 2 e.reserved3.toNat ++ leBytes 2 e.iopbOffset.toNat

/-- `struct gdt_ptr`, and `struct idt_ptr`. -/
structure TablePtr where
  limit : BitVec 16
  base : BitVec 64

def TablePtr.bytes (p : TablePtr) : List Byte := leBytes 2 p.limit.toNat ++ leBytes 8 p.base.toNat

/-- The tables in a `cpu_t`, one behind the other. -/
structure CpuTables where
  entries : Fin 5 → GdtEntry
  tss : GdtTssEntry
  tssEntry : TssEntry
  gdtPtr : TablePtr

def CpuTables.gdtBytes (c : CpuTables) : List Byte :=
  (List.finRange 5).flatMap (fun i => (c.entries i).bytes) ++ c.tss.bytes

def CpuTables.bytes (c : CpuTables) : List Byte := c.gdtBytes ++ (c.tssEntry.bytes ++ c.gdtPtr.bytes)

/-- `gdt_set_entry`. -/
def gdtSetEntry (i : Fin 5) (base limit : BitVec 32) (access gran : Byte) (c : CpuTables) : CpuTables :=
  { c with
    entries := Function.update c.entries i
      { baseLow := (base &&& 0xFFFF#32).setWidth 16
        baseMiddle := ((base >>> 16) &&& 0xFF#32).setWidth 8
        baseHigh := ((base >>> 24) &&& 0xFF#32).setWidth 8
        limitLow := (limit &&& 0xFFFF#32).setWidth 16
        granularity := ((limit >>> 16) &&& 0x0F#32).setWidth 8 ||| (gran &&& 0xF0#8)
        access := access } }

/-- `gdt_set_tss`. -/
def gdtSetTss (base : BitVec 64) (limit : BitVec 32) (c : CpuTables) : CpuTables :=
  { c with
    tss :=
      { limitLow := (limit &&& 0xFFFF#32).setWidth 16
        baseLow := (base &&& 0xFFFF#64).setWidth 16
        baseMiddle := ((base >>> 16) &&& 0xFF#64).setWidth 8
        access := 0x89
        granularity := ((limit >>> 16) &&& 0x0F#32).setWidth 8
        baseHigh := ((base >>> 24) &&& 0xFF#64).setWidth 8
        baseHigher := ((base >>> 32) &&& 0xFFFFFFFF#64).setWidth 32
        reserved := 0 } }

/-- Where the GDT is in a `cpu_t`. -/
abbrev gdtOffset : Nat := 0x38

/-- Where `tss_entry` is. -/
abbrev tssOffset : Nat := 0x70

/-- Where `gdt_ptr` is. -/
abbrev gdtPtrOffset : Nat := 0xD8

/-- `sizeof(struct tss_entry)`. -/
abbrev tssSize : Nat := 104

/-- The stores of `gdt_init`, for the `cpu_t` at an address. -/
def gdtInit (cpu : Nat) (c : CpuTables) : CpuTables :=
  let c := { c with gdtPtr := ⟨55, BitVec.ofNat 64 (cpu + gdtOffset)⟩ }
  let c := gdtSetEntry 0 0 0 0 0 c
  let c := gdtSetEntry 1 0 0xFFFFFFFF 0x9A 0xAF c
  let c := gdtSetEntry 2 0 0xFFFFFFFF 0x92 0xAF c
  let c := gdtSetEntry 3 0 0xFFFFFFFF 0xF2 0xAF c
  let c := gdtSetEntry 4 0 0xFFFFFFFF 0xFA 0xAF c
  let c := { c with tssEntry := ⟨0, 0, 0, 0, 0, Vector.replicate 7 0, 0, 0, BitVec.ofNat 16 tssSize⟩ }
  gdtSetTss (BitVec.ofNat 64 (cpu + tssOffset)) (BitVec.ofNat 32 (tssSize - 1)) c

/-- `struct idt_entry`. -/
structure IdtEntry where
  offsetLow : BitVec 16
  selector : BitVec 16
  ist : Byte
  typeAttr : Byte
  offsetMiddle : BitVec 16
  offsetHigh : BitVec 32
  reserved : BitVec 32

def IdtEntry.bytes (e : IdtEntry) : List Byte :=
  leBytes 2 e.offsetLow.toNat ++ leBytes 2 e.selector.toNat ++ [e.ist, e.typeAttr] ++
    leBytes 2 e.offsetMiddle.toNat ++ leBytes 4 e.offsetHigh.toNat ++ leBytes 4 e.reserved.toNat

/-- `idt`. -/
abbrev Idt := Byte → IdtEntry

def Idt.bytes (idt : Idt) : List Byte :=
  (List.range 256).flatMap fun i => (idt (BitVec.ofNat 8 i)).bytes

/-- The entry `idt_set_gate` makes. -/
def idtGate (base : BitVec 64) (sel : BitVec 16) (flags : Byte) : IdtEntry where
  offsetLow := (base &&& 0xFFFF#64).setWidth 16
  offsetMiddle := ((base >>> 16) &&& 0xFFFF#64).setWidth 16
  offsetHigh := ((base >>> 32) &&& 0xFFFFFFFF#64).setWidth 32
  selector := sel
  ist := 0
  typeAttr := flags
  reserved := 0

/-- `idt_set_gate`. -/
def idtSetGate (num : Byte) (base : BitVec 64) (sel : BitVec 16) (flags : Byte) (idt : Idt) : Idt :=
  Function.update idt num (idtGate base sel flags)

/-- The gates `idt_init_global` sets, with the addresses of the stubs. -/
def idtInitGlobal (isrs : Byte → BitVec 64) (idt : Idt) : Idt :=
  let idt := (List.range 256).foldl (fun idt i => idtSetGate (BitVec.ofNat 8 i) 0 0 0 idt) idt
  (List.range 48).foldl
    (fun idt i => idtSetGate (BitVec.ofNat 8 i) (isrs (BitVec.ofNat 8 i)) 0x08 0x8E idt) idt

/-! ## The processor -/

/-- The address and the limit of a table, or of the TSS. -/
structure TableReg where
  base : Nat
  limit : Nat
  deriving DecidableEq

/-- What `lgdt` and `lidt` read. -/
def loadTable (mem : Buffer) (a : Nat) : TableReg := ⟨loadLe mem (a + 2) 8, loadLe mem a 2⟩

/-- The address of a descriptor of `size` bytes, where the GDT has it. -/
def descriptor (gdtr : TableReg) (sel : BitVec 16) (size : Nat) : Option Nat :=
  if sel.toNat / 8 ≠ 0 ∧ sel.getLsbD 2 = false ∧ 8 * (sel.toNat / 8) + size ≤ gdtr.limit + 1 then
    some (gdtr.base + 8 * (sel.toNat / 8))
  else none

/-- The `DPL` of a descriptor or a gate. -/
def dplOf (access : Byte) : Nat := (access >>> 5 &&& 3#8).toNat

/-- The ring of a 64-bit code segment, where it is present. Conforming ones are left out. -/
def codeRing (mem : Buffer) (gdtr : TableReg) (sel : BitVec 16) : Option Nat :=
  (descriptor gdtr sel 8).bind fun a =>
    if mem (a + 5) &&& 0x9C#8 = 0x98 ∧ mem (a + 6) &&& 0x60#8 = 0x20 then some (dplOf (mem (a + 5))) else none

/-- The ring of a data segment, where it is present and may be written. -/
def dataRing (mem : Buffer) (gdtr : TableReg) (sel : BitVec 16) : Option Nat :=
  (descriptor gdtr sel 8).bind fun a =>
    if mem (a + 5) &&& 0x9A#8 = 0x92 then some (dplOf (mem (a + 5))) else none

/-- The TSS a descriptor of 16 bytes describes. -/
def taskSegment (mem : Buffer) (a : Nat) : TableReg where
  base := loadLe mem (a + 2) 2 + 2 ^ 16 * loadLe mem (a + 4) 1 + 2 ^ 24 * loadLe mem (a + 7) 1 +
    2 ^ 32 * loadLe mem (a + 8) 4
  limit := loadLe mem a 2 + 2 ^ 16 * (loadLe mem (a + 6) 1 % 16)

/-- `ltr`: the TSS must not be busy, and is then. -/
def loadTask (mem : Buffer) (gdtr : TableReg) (sel : BitVec 16) : Option (TableReg × Buffer) :=
  (descriptor gdtr sel 16).bind fun a =>
    if mem (a + 5) &&& 0x9F#8 = 0x89 ∧ mem (a + 13) &&& 0x1F#8 = 0 then
      some (taskSegment mem a, store mem (a + 5) [mem (a + 5) ||| 2])
    else none

/-- `gdt_load` and `tss_load`: the segments are loaded in ring 0. -/
def gdtLoad (ptr : Nat) (mem : Buffer) : Option ((TableReg × TableReg) × Buffer) :=
  let gdtr := loadTable mem ptr
  if dataRing mem gdtr 0x10 = some 0 ∧ codeRing mem gdtr 0x08 = some 0 then
    (loadTask mem gdtr 0x28).map fun task => ((gdtr, task.1), task.2)
  else none

/-- A gate, as the processor has it. -/
structure Gate where
  rip : BitVec 64
  sel : BitVec 16
  ist : Nat
  dpl : Nat
  /-- Interrupts are masked behind it. -/
  masks : Bool

/-- The gate of a vector, where it is present and one for interrupts or traps. -/
def findGate (mem : Buffer) (idtr : TableReg) (v : Byte) : Option Gate :=
  let a := idtr.base + 16 * v.toNat
  if 16 * v.toNat + 16 ≤ idtr.limit + 1 ∧ mem (a + 5) &&& 0x9E#8 = 0x8E then
    some
      { rip := BitVec.ofNat 64
          (loadLe mem a 2 + 2 ^ 16 * loadLe mem (a + 6) 2 + 2 ^ 32 * loadLe mem (a + 8) 4)
        sel := BitVec.ofNat 16 (loadLe mem (a + 2) 2)
        ist := (mem (a + 4) &&& 7#8).toNat
        dpl := dplOf (mem (a + 5))
        masks := !(mem (a + 5)).getLsbD 0 }
  else none

/-- A processor that has its tables. -/
structure Processor where
  mem : Buffer
  gdtr : TableReg
  tr : TableReg
  idtr : TableReg

/-- A stack the TSS names. -/
def Processor.tssStack (p : Processor) (off : Nat) : Option (BitVec 64) :=
  if off + 8 ≤ p.tr.limit + 1 then some (BitVec.ofNat 64 (loadLe p.mem (p.tr.base + off) 8)) else none

/-- The stack for an interrupt that goes from ring `cpl` to `ring`. -/
def Processor.entryStack (p : Processor) (ist ring cpl : Nat) (rsp : BitVec 64) : Option (BitVec 64) :=
  if ist ≠ 0 then p.tssStack (36 + 8 * (ist - 1))
  else if ring < cpl then p.tssStack (4 + 8 * ring) else some rsp

/-- The exceptions with an error code. -/
def hasErrorCode (v : Byte) : Bool := v ∈ [8#8, 10#8, 11#8, 12#8, 13#8, 14#8, 17#8, 21#8, 29#8, 30#8]

/-- The current ring. -/
def Registers.cpl (c : Registers) : Nat := (c.cs &&& 3#64).toNat

/-- Where an interrupt has gone. -/
structure Arrival where
  rip : BitVec 64
  cs : BitVec 16
  masked : Bool
  stack : BitVec 64 × Words (BitVec 64)

/-- An interrupt, an exception, or `int`. It is `none` where that is a fault. -/
def Processor.interrupt (p : Processor) (software : Bool) (v : Byte) (errorCode : BitVec 64) (c : Registers)
    (mem : Words (BitVec 64)) : Option Arrival :=
  (findGate p.mem p.idtr v).bind fun gate =>
  (codeRing p.mem p.gdtr gate.sel).bind fun ring =>
  (p.entryStack gate.ist ring c.cpl c.rsp).bind fun sp =>
    if (software = true → c.cpl ≤ gate.dpl) ∧ ring ≤ c.cpl ∧ Canonical gate.rip then
      some
        { rip := gate.rip
          cs := gate.sel
          masked := gate.masks
          stack := pushAll (align16 sp) ([c.ss, c.rsp, c.rflags, c.cs, c.rip] ++
            if hasErrorCode v && !software then [errorCode] else []) mem }
    else none

/-- `iretq` from ring 0 takes these selectors. -/
def Processor.canReturn (p : Processor) (cs ss : BitVec 16) : Prop :=
  let rpl := (cs &&& 3#16).toNat
  codeRing p.mem p.gdtr cs = some rpl ∧ (ss &&& 3#16).toNat = rpl ∧
    ((rpl = 0 ∧ ss = 0) ∨ dataRing p.mem p.gdtr ss = some rpl)

/-- The vectors of `ISR_ERRCODE`. The others are those of `ISR_NOERRCODE`. -/
def isrErrcode (v : Byte) : Bool := v ∈ [8#8, 10#8, 11#8, 12#8, 13#8, 14#8, 17#8]

/-- The words a stub of `idt_asm.asm` pushes. -/
def stubWords (v : Byte) (c : Registers) : List (BitVec 64) :=
  (if isrErrcode v then [] else [0#64]) ++
    [v.setWidth 64, c.rax, c.rbx, c.rcx, c.rdx, c.rbp, c.rsi, c.rdi, c.r8, c.r9, c.r10, c.r11, c.r12, c.r13,
      c.r14, c.r15]

/-- A stub, up to the call of `isr_handler`. -/
def isrStub (v : Byte) (c : Registers) (stack : BitVec 64 × Words (BitVec 64)) :
    BitVec 64 × Words (BitVec 64) :=
  pushAll stack.1 (stubWords v c) stack.2

/-! ## Many CPUs -/

/-- Two parts of the memory have nothing in common. -/
def ApartRanges (a size b size' : Nat) : Prop := a + size ≤ b ∨ b + size' ≤ a

/-- The size of the tables in a `cpu_t`. -/
abbrev cpuTablesSize : Nat := 170

/-- The addresses of the stubs, the IDT and its pointer, and the `cpu_t` of each CPU. -/
structure TableMap (n : Nat) where
  isrs : Byte → BitVec 64
  idt : Nat
  idtPtr : Nat
  cpu : Fin n → Nat
  canonical : ∀ v, v.toNat < 48 → Canonical (isrs v)
  idt_fits : idt + 4096 ≤ 2 ^ 64
  cpu_fits : ∀ i, cpu i + gdtOffset + cpuTablesSize ≤ 2 ^ 64
  ptr_apart : ApartRanges idtPtr 10 idt 4096
  idt_apart : ∀ i, ApartRanges idt 4096 (cpu i + gdtOffset) cpuTablesSize ∧
    ApartRanges idtPtr 10 (cpu i + gdtOffset) cpuTablesSize
  cpus_apart : ∀ i j, i ≠ j →
    ApartRanges (cpu i + gdtOffset) cpuTablesSize (cpu j + gdtOffset) cpuTablesSize

/-- The memory, and what the CPUs have loaded. -/
structure TableState (n : Nat) where
  mem : Buffer
  idtReady : Bool
  /-- The GDT, and the TSS. -/
  gdt : Fin n → Option (TableReg × TableReg)
  idtr : Fin n → Option TableReg

inductive TableEvent (n : Nat)
  | gdtInit (i : Fin n)
  | idtInitGlobal
  | idtInitPerCpu (i : Fin n)
  | tssSetRsp0 (i : Fin n) (rsp : BitVec 64)
  | elsewhere

/-- The tables are at an address. -/
def TableMap.Covers {n : Nat} (m : TableMap n) (a : Nat) : Prop :=
  (m.idt ≤ a ∧ a < m.idt + 4096) ∨ (m.idtPtr ≤ a ∧ a < m.idtPtr + 10) ∨
    ∃ i, m.cpu i + gdtOffset ≤ a ∧ a < m.cpu i + gdtOffset + cpuTablesSize

/-- `kmain` calls `idt_init_global` before any CPU calls `idt_init_per_cpu`. -/
inductive TableStep {n : Nat} (m : TableMap n) : TableState n → TableEvent n → TableState n → Prop
  | gdtInit {s : TableState n} {i : Fin n} {regs : TableReg × TableReg} {mem : Buffer} (old : CpuTables) :
      gdtLoad (m.cpu i + gdtPtrOffset)
        (store s.mem (m.cpu i + gdtOffset) (gdtInit (m.cpu i) old).bytes) = some (regs, mem) →
      TableStep m s (.gdtInit i) { s with mem := mem, gdt := Function.update s.gdt i (some regs) }
  | idtInitGlobal {s : TableState n} (old : Idt) : s.idtReady = false →
      TableStep m s .idtInitGlobal
        { s with
          mem := store (store s.mem m.idtPtr (TablePtr.bytes ⟨4095, BitVec.ofNat 64 m.idt⟩)) m.idt
            (Idt.bytes (idtInitGlobal m.isrs old))
          idtReady := true }
  | idtInitPerCpu {s : TableState n} {i : Fin n} : s.idtReady = true →
      TableStep m s (.idtInitPerCpu i)
        { s with idtr := Function.update s.idtr i (some (loadTable s.mem m.idtPtr)) }
  | tssSetRsp0 {s : TableState n} {i : Fin n} {rsp : BitVec 64} : s.gdt i ≠ none →
      TableStep m s (.tssSetRsp0 i rsp)
        { s with mem := store s.mem (m.cpu i + tssOffset + 4) (leBytes 8 rsp.toNat) }
  | elsewhere {s : TableState n} {mem : Buffer} : (∀ a, m.Covers a → mem a = s.mem a) →
      TableStep m s .elsewhere { s with mem := mem }

/-- The CPUs before they have any tables. -/
def TableState.start (n : Nat) (mem : Buffer) : TableState n := ⟨mem, false, fun _ => none, fun _ => none⟩

/-- `rsp0` of a CPU, as an event leaves it. -/
def TableEvent.rsp0 {n : Nat} (i : Fin n) (rsp : BitVec 64) : TableEvent n → BitVec 64
  | .gdtInit j => if j = i then 0 else rsp
  | .tssSetRsp0 j rsp' => if j = i then rsp' else rsp
  | _ => rsp

/-! ## Reading the tables -/

section Reading

variable {mem : Buffer} {a cpu g : Nat}

theorem GdtEntry.bytes_length (e : GdtEntry) : e.bytes.length = 8 := by simp [GdtEntry.bytes]

theorem GdtTssEntry.bytes_length (e : GdtTssEntry) : e.bytes.length = 16 := by simp [GdtTssEntry.bytes]

theorem TssEntry.bytes_length (e : TssEntry) : e.bytes.length = tssSize := by
  simp [TssEntry.bytes, List.length_flatMap]

theorem IdtEntry.bytes_length (e : IdtEntry) : e.bytes.length = 16 := by simp [IdtEntry.bytes]

theorem CpuTables.gdtBytes_length (c : CpuTables) : c.gdtBytes.length = 56 := by
  simp [gdtBytes, List.length_flatMap, GdtEntry.bytes_length, GdtTssEntry.bytes_length]

theorem TablePtr.bytes_length (p : TablePtr) : p.bytes.length = 10 := by simp [TablePtr.bytes]

theorem CpuTables.bytes_length (c : CpuTables) : c.bytes.length = cpuTablesSize := by
  rw [bytes, List.length_append, List.length_append, gdtBytes_length, TssEntry.bytes_length,
    TablePtr.bytes_length]
  rfl

theorem Idt.bytes_length (idt : Idt) : idt.bytes.length = 4096 := by
  rw [Idt.bytes, List.length_flatMap, List.map_congr_left fun i _ => IdtEntry.bytes_length _, List.map_const',
    List.sum_replicate, List.length_range]
  rfl

/-- `rsp0` in the TSS. -/
theorem TssEntry.rsp0_held {e : TssEntry} (h : Holds mem a e.bytes) :
    Holds mem (a + 4) (leBytes 8 e.rsp0.toNat) := by
  simp only [TssEntry.bytes, holds_append, leBytes_length] at h
  exact h.1.1.1.1.1.1.1.2

/-- A number of a field. -/
theorem loadLe_field {w n : Nat} {v : BitVec w} (h : Holds mem a (leBytes n v.toNat))
    (hw : 2 ^ w = 256 ^ n) : loadLe mem a n = v.toNat :=
  loadLe_of_lt h (hw ▸ v.isLt)

/-- **The processor reads the pointer** that was stored. -/
theorem loadTable_bytes {p : TablePtr} (h : Holds mem a p.bytes) :
    loadTable mem a = ⟨p.base.toNat, p.limit.toNat⟩ := by
  rw [TablePtr.bytes, holds_append, leBytes_length] at h
  rw [loadTable, loadLe_field h.1 (by decide), loadLe_field h.2 (by decide)]

/-- The tables of a CPU, with another access byte for the TSS. -/
def CpuTables.withAccess (c : CpuTables) (access : Byte) : CpuTables :=
  { c with tss := { c.tss with access := access } }

/-- The bytes of the GDT that say what a segment is for. -/
theorem gdtInit_access (cpu : Nat) (old : CpuTables) (access : Byte) :
    let bytes := ((gdtInit cpu old).withAccess access).gdtBytes
    bytes[8 + 5]? = some 0x9A#8 ∧ bytes[8 + 6]? = some 0xAF#8 ∧ bytes[16 + 5]? = some 0x92#8 ∧
      bytes[24 + 5]? = some 0xF2#8 ∧ bytes[32 + 5]? = some 0xFA#8 ∧ bytes[32 + 6]? = some 0xAF#8 ∧
      bytes[40 + 5]? = some access ∧ bytes[40 + 13]? = some (BitVec.ofNat 8 (0 / 256)) :=
  ⟨rfl, rfl, rfl, rfl, rfl, rfl, rfl, rfl⟩

theorem descriptor_gdt (g : Nat) {sel : BitVec 16} {size : Nat}
    (hsel : sel.toNat / 8 ≠ 0 ∧ sel.getLsbD 2 = false ∧ 8 * (sel.toNat / 8) + size ≤ 56) :
    descriptor ⟨g, 55⟩ sel size = some (g + 8 * (sel.toNat / 8)) := if_pos hsel

theorem codeRing_eq (sel : BitVec 16) {bytes : List Byte} {access flags : Byte} (h : Holds mem g bytes)
    (hsel : sel.toNat / 8 ≠ 0 ∧ sel.getLsbD 2 = false ∧ 8 * (sel.toNat / 8) + 8 ≤ 56)
    (haccess : bytes[8 * (sel.toNat / 8) + 5]? = some access)
    (hflags : bytes[8 * (sel.toNat / 8) + 6]? = some flags)
    (hcode : access &&& 0x9C#8 = 0x98 ∧ flags &&& 0x60#8 = 0x20) :
    codeRing mem ⟨g, 55⟩ sel = some (dplOf access) := by
  rw [codeRing, descriptor_gdt g hsel, Option.bind_some, Nat.add_assoc, Nat.add_assoc, h _ _ haccess,
    h _ _ hflags, if_pos hcode]

theorem dataRing_eq (sel : BitVec 16) {bytes : List Byte} {access : Byte} (h : Holds mem g bytes)
    (hsel : sel.toNat / 8 ≠ 0 ∧ sel.getLsbD 2 = false ∧ 8 * (sel.toNat / 8) + 8 ≤ 56)
    (haccess : bytes[8 * (sel.toNat / 8) + 5]? = some access) (hdata : access &&& 0x9A#8 = 0x92) :
    dataRing mem ⟨g, 55⟩ sel = some (dplOf access) := by
  rw [dataRing, descriptor_gdt g hsel, Option.bind_some, Nat.add_assoc, h _ _ haccess, if_pos hdata]

/-- **The segments** of the kernel are in ring 0, those of the user in ring 3. -/
theorem gdtInit_rings {old : CpuTables} {access : Byte}
    (h : Holds mem g ((gdtInit cpu old).withAccess access).gdtBytes) :
    codeRing mem ⟨g, 55⟩ 0x08 = some 0 ∧ codeRing mem ⟨g, 55⟩ 0x23 = some 3 ∧
      dataRing mem ⟨g, 55⟩ 0x10 = some 0 ∧ dataRing mem ⟨g, 55⟩ 0x1B = some 3 := by
  obtain ⟨hcode, hcodeFlags, hdata, huserData, huserCode, huserFlags, -⟩ :=
    gdtInit_access cpu old access
  exact ⟨codeRing_eq 0x08 h (by decide) hcode hcodeFlags (by decide),
    codeRing_eq 0x23 h (by decide) huserCode huserFlags (by decide),
    dataRing_eq 0x10 h (by decide) hdata (by decide), dataRing_eq 0x1B h (by decide) huserData (by decide)⟩

/-- The TSS, in the pieces of its descriptor. -/
theorem taskSegment_bytes {e : GdtTssEntry} (h : Holds mem a e.bytes) : taskSegment mem a =
    ⟨e.baseLow.toNat + 2 ^ 16 * e.baseMiddle.toNat + 2 ^ 24 * e.baseHigh.toNat + 2 ^ 32 * e.baseHigher.toNat,
      e.limitLow.toNat + 2 ^ 16 * (e.granularity.toNat % 16)⟩ := by
  simp only [GdtTssEntry.bytes, holds_append, holds_cons, List.length_append, leBytes_length,
    List.length_cons, List.length_nil] at h
  obtain ⟨⟨⟨⟨hlimit, hbase⟩, hmiddle, -, hgran, hhigh, -⟩, hhigher⟩, -⟩ := h
  have hbyte : ∀ k, loadLe mem k 1 = (mem k).toNat := fun k => rfl
  rw [taskSegment, loadLe_field hlimit (by decide), loadLe_field hbase (by decide), hbyte, hbyte, hbyte,
    loadLe_field hhigher (by decide), ← hmiddle, ← hgran, ← hhigh]

/-- A field that is a part of a number. -/
theorem toNat_field {w k : Nat} (x mask : BitVec w) (hmask : mask.toNat = 2 ^ k - 1) :
    ((x &&& mask).setWidth k).toNat = x.toNat % 2 ^ k := by
  rw [BitVec.toNat_setWidth, BitVec.toNat_and, hmask, Nat.and_two_pow_sub_one_eq_mod, Nat.mod_mod]

/-- **The processor finds the TSS** that `gdt_set_tss` described. -/
theorem taskSegment_gdtSetTss {c : CpuTables} {base : BitVec 64} {limit : BitVec 32}
    (hlimit : limit.toNat < 2 ^ 20) (h : Holds mem a (gdtSetTss base limit c).tss.bytes) :
    taskSegment mem a = ⟨base.toNat, limit.toNat⟩ := by
  have hgran : (((limit >>> 16) &&& 0x0F#32).setWidth 8).toNat % 16 = limit.toNat / 2 ^ 16 % 16 := by
    rw [BitVec.toNat_setWidth, BitVec.toNat_and, BitVec.toNat_ushiftRight, Nat.shiftRight_eq_div_pow,
      show (0x0F#32).toNat = 2 ^ 4 - 1 from rfl, Nat.and_two_pow_sub_one_eq_mod]
    omega
  rw [taskSegment_bytes h]
  simp only [gdtSetTss, hgran]
  rw [toNat_field _ _ rfl, toNat_field _ _ rfl, toNat_field _ _ rfl, toNat_field _ _ rfl, toNat_field _ _ rfl,
    BitVec.toNat_ushiftRight, BitVec.toNat_ushiftRight, BitVec.toNat_ushiftRight, Nat.shiftRight_eq_div_pow,
    Nat.shiftRight_eq_div_pow, Nat.shiftRight_eq_div_pow]
  have hbase := base.isLt
  congr 1 <;> omega

/-- **The tables are loaded** without a fault, and the TSS is busy then. -/
theorem gdtLoad_gdtInit {old : CpuTables} (hcpu : cpu + tssOffset < 2 ^ 64)
    (h : Holds mem (cpu + gdtOffset) (gdtInit cpu old).bytes) :
    gdtLoad (cpu + gdtPtrOffset) mem = some ((⟨cpu + gdtOffset, 55⟩, ⟨cpu + tssOffset, 103⟩),
      store mem (cpu + gdtOffset + 45) [0x8B]) := by
  rw [CpuTables.bytes, holds_append, holds_append, CpuTables.gdtBytes_length, TssEntry.bytes_length] at h
  obtain ⟨hgdt, -, hptr⟩ := h
  have hgdtOffset : cpu + gdtOffset < 2 ^ 64 := by
    simp only [gdtOffset, tssOffset] at hcpu ⊢
    omega
  have hbase : (BitVec.ofNat 64 (cpu + gdtOffset)).toNat = cpu + gdtOffset := Nat.mod_eq_of_lt hgdtOffset
  have htss : (BitVec.ofNat 64 (cpu + tssOffset)).toNat = cpu + tssOffset := Nat.mod_eq_of_lt hcpu
  have htable : loadTable mem (cpu + gdtPtrOffset) = ⟨cpu + gdtOffset, 55⟩ := by
    have hread := loadTable_bytes hptr
    rwa [show (gdtInit cpu old).gdtPtr = ⟨55, BitVec.ofNat 64 (cpu + gdtOffset)⟩ from rfl, hbase] at hread
  have hfree : Holds mem (cpu + gdtOffset) ((gdtInit cpu old).withAccess 0x89).gdtBytes := hgdt
  obtain ⟨hcode, -, hdata, -⟩ := gdtInit_rings hfree
  obtain ⟨-, -, -, -, -, -, haccess, htype⟩ := gdtInit_access cpu old 0x89
  have hsegment : taskSegment mem (cpu + gdtOffset + 40) = ⟨cpu + tssOffset, 103⟩ := by
    rw [CpuTables.gdtBytes, holds_append] at hgdt
    have hread := taskSegment_gdtSetTss (by decide) hgdt.2
    rwa [htss] at hread
  have htask : loadTask mem ⟨cpu + gdtOffset, 55⟩ 0x28 =
      some (⟨cpu + tssOffset, 103⟩, store mem (cpu + gdtOffset + 45) [0x8B]) := by
    rw [loadTask, descriptor_gdt _ (by decide), Option.bind_some]
    show (if mem (cpu + gdtOffset + 40 + 5) &&& _ = _ ∧ mem (cpu + gdtOffset + 40 + 13) &&& _ = _ then
      some (taskSegment mem (cpu + gdtOffset + 40), store mem (cpu + gdtOffset + 40 + 5)
        [mem (cpu + gdtOffset + 40 + 5) ||| 2#8]) else none) = _
    rw [hsegment, Nat.add_assoc (cpu + gdtOffset), Nat.add_assoc (cpu + gdtOffset), hgdt _ _ haccess,
      hgdt _ _ htype, if_pos (by decide)]
    rfl
  rw [gdtLoad, htable, if_pos ⟨hdata, hcode⟩, htask]
  rfl

end Reading

/-! ## The gates -/

section Gates

variable {mem : Buffer} {idt a : Nat}

/-- A loop that sets entry after entry. -/
theorem foldl_setGate (f : Nat → IdtEntry) (old : Idt) {n : Nat} (hn : n ≤ 256) (v : Byte) :
    (List.range n).foldl (fun idt i => Function.update idt (BitVec.ofNat 8 i) (f i)) old v =
      if v.toNat < n then f v.toNat else old v := by
  induction n with
  | zero => rfl
  | succ n ih =>
    rw [List.range_succ, List.foldl_append, List.foldl_cons, List.foldl_nil]
    by_cases hv : v = BitVec.ofNat 8 n
    · have hval : v.toNat = n := by rw [hv, BitVec.toNat_ofNat, Nat.mod_eq_of_lt (by omega)]
      rw [hv, Function.update_self, ← hv, if_pos (by omega), hval]
    · have hval : v.toNat ≠ n := fun heq => hv (by rw [← heq, BitVec.ofNat_toNat, BitVec.setWidth_eq])
      rw [Function.update_of_ne hv, ih (by omega)]
      simp only [Nat.lt_succ_iff_lt_or_eq, hval, or_false]

/-- The entries after `idt_init_global`. -/
def stubGate (isrs : Byte → BitVec 64) (v : Byte) : IdtEntry :=
  if v.toNat < 48 then idtGate (isrs v) 0x08 0x8E else idtGate 0 0 0

theorem idtInitGlobal_eq (isrs : Byte → BitVec 64) (old : Idt) : idtInitGlobal isrs old = stubGate isrs := by
  funext v
  have hv : BitVec.ofNat 8 v.toNat = v := by rw [BitVec.ofNat_toNat, BitVec.setWidth_eq]
  rw [idtInitGlobal]
  simp only [idtSetGate]
  rw [foldl_setGate (fun i => idtGate (isrs (BitVec.ofNat 8 i)) 0x08 0x8E) _ (by decide),
    foldl_setGate (fun _ => idtGate 0 0 0) _ (by decide), if_pos v.isLt, hv]
  rfl

/-- **The processor finds the gate** that `idt_set_gate` made. -/
theorem findGate_idtGate {v : Byte} {base : BitVec 64} {sel : BitVec 16} {flags : Byte}
    (h : Holds mem (idt + 16 * v.toNat) (idtGate base sel flags).bytes) :
    findGate mem ⟨idt, 4095⟩ v = if flags &&& 0x9E#8 = 0x8E then
      some ⟨base, sel, 0, dplOf flags, !flags.getLsbD 0⟩ else none := by
  have hv := v.isLt
  simp only [IdtEntry.bytes, holds_append, holds_cons, List.length_append, leBytes_length,
    List.length_cons, List.length_nil] at h
  obtain ⟨⟨⟨⟨⟨hlow, hsel⟩, hist, hattr, -⟩, hmiddle⟩, hhigh⟩, -⟩ := h
  have hbase : (idtGate base sel flags).offsetLow.toNat +
      2 ^ 16 * (idtGate base sel flags).offsetMiddle.toNat +
      2 ^ 32 * (idtGate base sel flags).offsetHigh.toNat = base.toNat := by
    simp only [idtGate]
    rw [toNat_field _ _ rfl, toNat_field _ _ rfl, toNat_field _ _ rfl, BitVec.toNat_ushiftRight,
      BitVec.toNat_ushiftRight, Nat.shiftRight_eq_div_pow, Nat.shiftRight_eq_div_pow]
    have := base.isLt
    omega
  have hin : 16 * v.toNat + 16 ≤ 4095 + 1 := by omega
  have hnone : ((idtGate base sel flags).ist &&& 7#8).toNat = 0 := by simp [idtGate]
  rw [findGate]
  simp only [hin, true_and]
  rw [loadLe_field hlow (by decide), loadLe_field hsel (by decide), loadLe_field hmiddle (by decide),
    loadLe_field hhigh (by decide), hbase, hist, hattr, BitVec.ofNat_toNat, BitVec.ofNat_toNat,
    BitVec.setWidth_eq, BitVec.setWidth_eq, hnone]
  rfl

end Gates

/-! ## Runs -/

section Runs

variable {n : Nat} {m : TableMap n} {s s' : TableState n} {mem mem' : Buffer} {i : Fin n} {rsp : BitVec 64}

/-- The IDT and its pointer are in the memory. -/
structure TableMap.IdtHeld (m : TableMap n) (mem : Buffer) : Prop where
  gates : ∀ v : Byte, Holds mem (m.idt + 16 * v.toNat) (stubGate m.isrs v).bytes
  ptr : Holds mem m.idtPtr (TablePtr.bytes ⟨4095, BitVec.ofNat 64 m.idt⟩)

/-- The GDT of a CPU, and `rsp0` in its TSS. -/
structure TableMap.CpuHeld (m : TableMap n) (i : Fin n) (rsp : BitVec 64) (mem : Buffer) : Prop where
  gdt : ∃ old, Holds mem (m.cpu i + gdtOffset) ((gdtInit (m.cpu i) old).withAccess 0x8B).gdtBytes
  rsp0 : Holds mem (m.cpu i + tssOffset + 4) (leBytes 8 rsp.toNat)

theorem TableMap.IdtHeld.congr (h : m.IdtHeld mem)
    (hidt : ∀ a, m.idt ≤ a → a < m.idt + 4096 → mem' a = mem a)
    (hptr : ∀ a, m.idtPtr ≤ a → a < m.idtPtr + 10 → mem' a = mem a) : m.IdtHeld mem' := by
  refine ⟨fun v => (h.gates v).congr fun a hlo hhi => ?_, h.ptr.congr fun a hlo hhi => ?_⟩
  · rw [IdtEntry.bytes_length] at hhi
    have hv := v.isLt
    exact hidt a (by omega) (by omega)
  · rw [TablePtr.bytes_length] at hhi
    exact hptr a hlo hhi

theorem TableMap.CpuHeld.congr (h : m.CpuHeld i rsp mem) (hsame : ∀ a, m.cpu i + gdtOffset ≤ a →
    a < m.cpu i + gdtOffset + cpuTablesSize → mem' a = mem a) : m.CpuHeld i rsp mem' := by
  obtain ⟨⟨old, hgdt⟩, hrsp⟩ := h
  refine ⟨⟨old, hgdt.congr fun a hlo hhi => ?_⟩, hrsp.congr fun a hlo hhi => ?_⟩
  · rw [CpuTables.gdtBytes_length] at hhi
    exact hsame a hlo (by simp only [cpuTablesSize]; omega)
  · rw [leBytes_length] at hhi
    simp only [gdtOffset, tssOffset, cpuTablesSize] at hsame hlo hhi
    exact hsame a (by omega) (by omega)

/-- **What holds of the tables** between any two steps, with `rsp0` of each CPU. -/
structure TablesHeld (m : TableMap n) (rsp0 : Fin n → BitVec 64) (s : TableState n) : Prop where
  idt : s.idtReady = true → m.IdtHeld s.mem
  idtr : ∀ i reg, s.idtr i = some reg → s.idtReady = true ∧ reg = ⟨m.idt, 4095⟩
  gdt : ∀ i regs, s.gdt i = some regs →
    regs = (⟨m.cpu i + gdtOffset, 55⟩, ⟨m.cpu i + tssOffset, 103⟩) ∧ m.CpuHeld i (rsp0 i) s.mem

/-- Stores at one CPU leave the tables elsewhere. -/
theorem TablesHeld.others {rsp0 rsp0' : Fin n → BitVec 64} (h : TablesHeld m rsp0 s)
    (hout : ∀ a, (a < m.cpu i + gdtOffset ∨ m.cpu i + gdtOffset + cpuTablesSize ≤ a) → mem a = s.mem a)
    (hrsp0 : ∀ j, j ≠ i → rsp0' j = rsp0 j) (gdt : Option (TableReg × TableReg))
    (hgdt : ∀ regs, gdt = some regs →
      regs = (⟨m.cpu i + gdtOffset, 55⟩, ⟨m.cpu i + tssOffset, 103⟩) ∧ m.CpuHeld i (rsp0' i) mem) :
    TablesHeld m rsp0' { s with mem := mem, gdt := Function.update s.gdt i gdt } := by
  refine ⟨fun hready => ?_, h.idtr, fun j regs hj => ?_⟩
  · have hidt := (m.idt_apart i).1
    have hptr := (m.idt_apart i).2
    simp only [ApartRanges] at hidt hptr
    exact (h.idt hready).congr (fun a hlo hhi => hout a (by omega)) fun a hlo hhi => hout a (by omega)
  · by_cases hji : j = i
    · subst hji
      dsimp only at hj
      rw [Function.update_self] at hj
      exact hgdt regs hj
    · dsimp only at hj
      rw [Function.update_of_ne hji] at hj
      obtain ⟨hregs, hheld⟩ := h.gdt j regs hj
      have hcpus := m.cpus_apart j i hji
      simp only [ApartRanges] at hcpus
      rw [hrsp0 j hji]
      exact ⟨hregs, hheld.congr fun a hlo hhi => hout a (by omega)⟩

/-- **A step** keeps the tables of every CPU. -/
theorem TablesHeld.step {rsp0 : Fin n → BitVec 64} {e : TableEvent n} (h : TablesHeld m rsp0 s)
    (hstep : TableStep m s e s') : TablesHeld m (fun i => e.rsp0 i (rsp0 i)) s' := by
  cases hstep with
  | @gdtInit i regs mem old hload =>
    have hfits := m.cpu_fits i
    simp only [gdtOffset, cpuTablesSize] at hfits
    have hheld := holds_store s.mem (m.cpu i + gdtOffset) (gdtInit (m.cpu i) old).bytes
    rw [gdtLoad_gdtInit (by simp only [tssOffset]; omega) hheld] at hload
    obtain ⟨rfl, rfl⟩ := Prod.mk.inj (Option.some.inj hload)
    refine h.others (fun a ha => ?_) (fun j hj => if_neg fun heq => hj heq.symm) _ fun regs hregs =>
      ⟨(Option.some.inj hregs).symm, ?_⟩
    · rw [store_of_out (by simp only [List.length_singleton, cpuTablesSize] at *; omega), store_of_out]
      rwa [CpuTables.bytes_length]
    · rw [CpuTables.bytes, holds_append, holds_append, CpuTables.gdtBytes_length] at hheld
      obtain ⟨hgdt, htss, -⟩ := hheld
      refine ⟨⟨old, hgdt.store_set 0x8B⟩, ?_⟩
      rw [if_pos rfl]
      refine (TssEntry.rsp0_held htss).store_other (Or.inr ?_)
      simp only [List.length_singleton, gdtOffset]
      omega
  | @idtInitGlobal old hfirst =>
    have hptr := m.ptr_apart
    simp only [ApartRanges] at hptr
    refine ⟨fun _ => ⟨fun v => ?_, ?_⟩, fun i reg hi => ⟨rfl, (h.idtr i reg hi).2⟩, fun i regs hi => ?_⟩
    · have hgates := holds_store (store s.mem m.idtPtr (TablePtr.bytes ⟨4095, BitVec.ofNat 64 m.idt⟩)) m.idt
        (Idt.bytes (idtInitGlobal m.isrs old))
      rw [idtInitGlobal_eq, Idt.bytes, holds_flatMap (fun i => IdtEntry.bytes_length _)] at hgates
      have hv := hgates v.toNat v.isLt
      rw [BitVec.ofNat_toNat, BitVec.setWidth_eq] at hv
      rwa [idtInitGlobal_eq]
    · refine Holds.store_other (holds_store s.mem m.idtPtr _) ?_
      rw [TablePtr.bytes_length, Idt.bytes_length]
      exact hptr
    · obtain ⟨hregs, hheld⟩ := h.gdt i regs hi
      have hidt := (m.idt_apart i).1
      have hptr := (m.idt_apart i).2
      simp only [ApartRanges] at hidt hptr
      refine ⟨hregs, hheld.congr fun a hlo hhi => ?_⟩
      dsimp only
      rw [store_of_out (by rw [Idt.bytes_length]; omega), store_of_out (by rw [TablePtr.bytes_length]; omega)]
  | @idtInitPerCpu i hready =>
    refine ⟨h.idt, fun j reg hj => ?_, h.gdt⟩
    by_cases hji : j = i
    · subst hji
      dsimp only at hj
      rw [Function.update_self, loadTable_bytes (h.idt hready).ptr] at hj
      have hidt : (BitVec.ofNat 64 m.idt).toNat = m.idt :=
        Nat.mod_eq_of_lt (by have := m.idt_fits; omega)
      refine ⟨hready, ?_⟩
      rw [← Option.some.inj hj, hidt]
      rfl
    · dsimp only at hj
      rw [Function.update_of_ne hji] at hj
      exact h.idtr j reg hj
  | @tssSetRsp0 i rsp hgdt =>
    have hkept : TablesHeld m (fun j => TableEvent.rsp0 j (rsp0 j) (.tssSetRsp0 i rsp))
        { s with
          mem := store s.mem (m.cpu i + tssOffset + 4) (leBytes 8 rsp.toNat)
          gdt := Function.update s.gdt i (s.gdt i) } := by
      refine h.others (fun a ha => store_of_out ?_) (fun j hj => if_neg fun heq => hj heq.symm) _
        fun regs hregs => ?_
      · simp only [leBytes_length, gdtOffset, tssOffset, cpuTablesSize] at ha ⊢
        omega
      · obtain ⟨hregs, ⟨old, hheld⟩, -⟩ := h.gdt i regs hregs
        refine ⟨hregs, ⟨old, hheld.store_other (Or.inl ?_)⟩, ?_⟩
        · rw [CpuTables.gdtBytes_length]
          simp only [gdtOffset, tssOffset]
          omega
        · rw [if_pos rfl]
          exact holds_store s.mem _ _
    rwa [Function.update_eq_self] at hkept
  | @elsewhere mem hsame =>
    refine ⟨fun hready => (h.idt hready).congr (fun a hlo hhi => hsame a (Or.inl ⟨hlo, hhi⟩))
      fun a hlo hhi => hsame a (Or.inr (Or.inl ⟨hlo, hhi⟩)), h.idtr, fun i regs hi => ?_⟩
    obtain ⟨hregs, hheld⟩ := h.gdt i regs hi
    exact ⟨hregs, hheld.congr fun a hlo hhi => hsame a (Or.inr (Or.inr ⟨i, hlo, hhi⟩))⟩

/-- **What the tables of a CPU make of an interrupt.** -/
theorem TableMap.interrupt_eq {software : Bool} {v : Byte} {err : BitVec 64} {c : Registers}
    {stack : Words (BitVec 64)} (hidt : m.IdtHeld mem) (hcpu : m.CpuHeld i rsp mem)
    (hring : c.cpl = 0 ∨ c.cpl = 3) :
    (Processor.mk mem ⟨m.cpu i + gdtOffset, 55⟩ ⟨m.cpu i + tssOffset, 103⟩ ⟨m.idt, 4095⟩).interrupt
        software v err c stack =
      if v.toNat < 48 ∧ (software = true → c.cpl = 0) then
        some ⟨m.isrs v, 0x08, true, pushAll (align16 (if c.cpl = 0 then c.rsp else rsp))
          ([c.ss, c.rsp, c.rflags, c.cs, c.rip] ++ if hasErrorCode v && !software then [err] else []) stack⟩
      else none := by
  have hheld := hidt.gates v
  obtain ⟨⟨old, hgdt⟩, hrsp0⟩ := hcpu
  rw [stubGate] at hheld
  rw [Processor.interrupt]
  by_cases hv : v.toNat < 48
  · rw [if_pos hv] at hheld
    have hload : loadLe mem (m.cpu i + tssOffset + 4) 8 = rsp.toNat := loadLe_field hrsp0 (by decide)
    have htss : Processor.tssStack ⟨mem, ⟨m.cpu i + gdtOffset, 55⟩, ⟨m.cpu i + tssOffset, 103⟩,
        ⟨m.idt, 4095⟩⟩ 4 = some rsp := by
      rw [Processor.tssStack]
      dsimp only
      rw [if_pos (by decide), hload, BitVec.ofNat_toNat, BitVec.setWidth_eq]
    have hstack : Processor.entryStack ⟨mem, ⟨m.cpu i + gdtOffset, 55⟩, ⟨m.cpu i + tssOffset, 103⟩,
        ⟨m.idt, 4095⟩⟩ 0 0 c.cpl c.rsp = some (if c.cpl = 0 then c.rsp else rsp) := by
      rw [Processor.entryStack, if_neg (by decide)]
      rcases hring with hkernel | huser
      · rw [hkernel, if_neg (Nat.lt_irrefl 0), if_pos rfl]
      · rw [huser, if_pos (by decide), if_neg (by decide), htss]
    have hdpl : (software = true → c.cpl ≤ dplOf 0x8E) ↔ (software = true → c.cpl = 0) := by
      rw [show dplOf 0x8E = 0 from rfl, Nat.le_zero]
    rw [findGate_idtGate hheld, if_pos (by decide), Option.bind_some, (gdtInit_rings hgdt).1,
      Option.bind_some, hstack, Option.bind_some]
    simp only [hdpl, Nat.zero_le, m.canonical v hv, hv, and_true, true_and]
    rfl
  · rw [if_neg hv] at hheld
    rw [findGate_idtGate hheld, if_neg (by decide), Option.bind_none, if_neg fun h => hv h.1]

/-- The stub goes on where the processor has stopped pushing. -/
theorem isrStub_pushAll (v : Byte) (c : Registers) (top : BitVec 64) (xs : List (BitVec 64))
    (stack : Words (BitVec 64)) :
    isrStub v c (pushAll top xs stack) = pushAll top (xs ++ stubWords v c) stack := by
  rw [isrStub, pushAll, pushAll, pushAll, List.foldl_append]

/-- **The processor and the stub make a frame** just where one of them pushes the error code. -/
theorem isrStub_frame_iff {v : Byte} {c : Registers} {top err : BitVec 64} {stack : Words (BitVec 64)}
    (pushed : Bool) :
    isrStub v c (pushAll top ([c.ss, c.rsp, c.rflags, c.cs, c.rip] ++ if pushed then [err] else []) stack) =
        pushAll top (interruptWords c (v.setWidth 64) (if pushed then err else 0)) stack ↔
      isrErrcode v = pushed := by
  rw [isrStub_pushAll, stubWords]
  cases isrErrcode v <;> cases pushed
  case false.false => exact iff_of_true rfl rfl
  case true.true => exact iff_of_true rfl rfl
  -- otherwise there is a word too much, or one is missing
  case false.true =>
    refine iff_of_false (fun heq => ?_) Bool.false_ne_true
    have hsp := congrArg Prod.fst heq
    rw [pushAll_sp, pushAll_sp, interruptWords_length] at hsp
    change top - 8 * BitVec.ofNat 64 23 = _ at hsp
    bv_omega
  case true.false =>
    refine iff_of_false (fun heq => ?_) Bool.false_ne_true.symm
    have hsp := congrArg Prod.fst heq
    rw [pushAll_sp, pushAll_sp, interruptWords_length] at hsp
    change top - 8 * BitVec.ofNat 64 21 = _ at hsp
    bv_omega

/-- The vectors whose stub is not for what the processor pushes: an `int` pushes no error code, and the stubs
of three exceptions do not expect the one there is. -/
def misfit (software : Bool) : List Byte :=
  if software then [8#8, 10#8, 11#8, 12#8, 13#8, 14#8, 17#8] else [21#8, 29#8, 30#8]

theorem isrErrcode_eq_iff (v : Byte) (software : Bool) :
    isrErrcode v = (hasErrorCode v && !software) ↔ v ∉ misfit software := by
  revert v software
  decide +kernel

/-- `rsp0` of a CPU after a run. -/
def lastRsp0 (es : List (TableEvent n)) (i : Fin n) : BitVec 64 := es.foldl (fun rsp e => e.rsp0 i rsp) 0

/-- **Any interrupt, in any run.** A CPU that has loaded its tables has their addresses and limits. Whatever
the CPUs do, each of the first 48 vectors comes to its stub, `int` only in the kernel: from user mode on the
stack that the CPU has last put in its TSS, in the kernel on the stack in use. The stub makes the frame of
`interruptEntry` just where the vector is none of `misfit`. The other vectors are faults, as is `int` in user
mode; and the frames of both modes can be returned to. -/
theorem interrupts_enter {es : List (TableEvent n)} {start : Buffer} {regs : TableReg × TableReg}
    {idtr : TableReg} (hrun : Run (TableStep m) (TableState.start n start) es s)
    (hgdt : s.gdt i = some regs) (hidtr : s.idtr i = some idtr) :
    let p : Processor := ⟨s.mem, regs.1, regs.2, idtr⟩
    (p.gdtr = ⟨m.cpu i + gdtOffset, 55⟩ ∧ p.tr = ⟨m.cpu i + tssOffset, 103⟩ ∧ p.idtr = ⟨m.idt, 4095⟩) ∧
    (∀ software v err c stack, c.cpl = 0 ∨ c.cpl = 3 → v.toNat < 48 → (software = true → c.cpl = 0) →
      ∃ a, p.interrupt software v err c stack = some a ∧ a.rip = m.isrs v ∧ a.cs = 0x08 ∧ a.masked = true ∧
        (isrStub v c a.stack = interruptEntry (if c.cpl = 0 then c.rsp else lastRsp0 es i) c (v.setWidth 64)
          (if hasErrorCode v && !software then err else 0) stack ↔ v ∉ misfit software)) ∧
    (∀ software v err c stack, c.cpl = 0 ∨ c.cpl = 3 → 48 ≤ v.toNat ∨ (software = true ∧ c.cpl ≠ 0) →
      p.interrupt software v err c stack = none) ∧
    p.canReturn 0x08 0x10 ∧ p.canReturn 0x08 0 ∧ p.canReturn 0x23 0x1B := by
  have hheld : TablesHeld m (lastRsp0 es) s := by
    clear hgdt hidtr
    induction hrun with
    | nil => exact ⟨nofun, nofun, nofun⟩
    | snoc _ hstep ih =>
      have hnext := ih.step hstep
      have hlast : ∀ (es : List (TableEvent n)) e,
          lastRsp0 (es ++ [e]) = fun i => e.rsp0 i (lastRsp0 es i) :=
        fun es e => funext fun i => by rw [lastRsp0, List.foldl_append]; rfl
      rwa [hlast]
  obtain ⟨rfl, hcpu⟩ := hheld.gdt i regs hgdt
  obtain ⟨hready, rfl⟩ := hheld.idtr i idtr hidtr
  refine ⟨⟨rfl, rfl, rfl⟩, fun software v err c stack hring hv hsoft => ?_,
    fun software v err c stack hring hout => ?_, ?_⟩
  · refine ⟨_, (TableMap.interrupt_eq (hheld.idt hready) hcpu hring).trans (if_pos ⟨hv, hsoft⟩), rfl, rfl,
      rfl, ?_⟩
    rw [interruptEntry, isrStub_frame_iff, isrErrcode_eq_iff]
  · refine (TableMap.interrupt_eq (hheld.idt hready) hcpu hring).trans (if_neg ?_)
    rintro ⟨hv, hallowed⟩
    rcases hout with hhigh | ⟨hsoft, huser⟩
    · omega
    · exact huser (hallowed hsoft)
  · obtain ⟨⟨old, hbytes⟩, -⟩ := hcpu
    obtain ⟨hcode, huserCode, hdata, huserData⟩ := gdtInit_rings hbytes
    exact ⟨⟨hcode, rfl, Or.inr hdata⟩, ⟨hcode, rfl, Or.inl ⟨rfl, rfl⟩⟩, ⟨huserCode, rfl, Or.inr huserData⟩⟩

/-- A CPU can always load its tables. -/
theorem exists_gdtInit (m : TableMap n) (s : TableState n) (i : Fin n) (old : CpuTables) :
    ∃ s' regs, TableStep m s (.gdtInit i) s' ∧ s'.gdt i = some regs ∧ s'.idtReady = s.idtReady ∧
      s'.idtr = s.idtr := by
  have hfits := m.cpu_fits i
  simp only [gdtOffset, cpuTablesSize] at hfits
  have hload := gdtLoad_gdtInit (by simp only [tssOffset]; omega)
    (holds_store s.mem (m.cpu i + gdtOffset) (gdtInit (m.cpu i) old).bytes)
  exact ⟨_, _, .gdtInit old hload, Function.update_self .., rfl, rfl⟩

end Runs

/-- One CPU, with the stubs one behind the other. -/
def sampleTables : TableMap 1 where
  isrs v := 0x102000 + 16 * v.setWidth 64
  idt := 0x120000
  idtPtr := 0x121000
  cpu _ := 0x122000
  canonical v _ := by
    revert v
    decide
  idt_fits := by decide
  cpu_fits _ := by decide
  ptr_apart := Or.inr (by decide)
  idt_apart _ := ⟨Or.inl (by decide), Or.inl (by decide)⟩
  cpus_apart i j hne := absurd (Subsingleton.elim i j) hne

/-- A user task that is interrupted. -/
def sampleUser : Registers :=
  ⟨7, 0, 0, 0, 0, 0, 0, 0, 0, 0, 0, 0, 0, 0, 0, 0x400123, userCs, 0x202, 0x7FFE0000, userSs⟩

/-- A CPU with its tables, after a switch to a task. -/
theorem sampleTables_run : ∃ s regs idtr, Run (TableStep sampleTables) (TableState.start 1 fun _ => 0)
    [.gdtInit 0, .idtInitGlobal, .idtInitPerCpu 0, .tssSetRsp0 0 0x208018] s ∧
    s.gdt 0 = some regs ∧ s.idtr 0 = some idtr := by
  obtain ⟨s₁, regs, hgdtInit, hgdt, hfirst, -⟩ := exists_gdtInit sampleTables
    (TableState.start 1 fun _ => 0) 0
    ⟨fun _ => ⟨0, 0, 0, 0, 0, 0⟩, ⟨0, 0, 0, 0, 0, 0, 0, 0⟩,
      ⟨0, 0, 0, 0, 0, Vector.replicate 7 0, 0, 0, 0⟩, ⟨0, 0⟩⟩
  exact ⟨_, regs, _, Run.cons hgdtInit <| Run.cons (.idtInitGlobal (fun _ => idtGate 0 0 0) hfirst) <|
    Run.cons (.idtInitPerCpu rfl) <| Run.single (.tssSetRsp0 (by rw [hgdt]; exact nofun)), hgdt, rfl⟩

/-- The timer interrupts the task, and a page fault does. -/
theorem interrupts_enter_timer : ∃ (s : TableState 1) (regs : TableReg × TableReg) (idtr : TableReg)
    (a a' : Arrival),
    Processor.interrupt ⟨s.mem, regs.1, regs.2, idtr⟩ false 32 0 sampleUser (fun _ => 0) = some a ∧
    a.rip = 0x102200 ∧
    isrStub 32 sampleUser a.stack = interruptEntry 0x208018 sampleUser 32 0 (fun _ => 0) ∧
    Processor.interrupt ⟨s.mem, regs.1, regs.2, idtr⟩ false 14 6 sampleUser (fun _ => 0) = some a' ∧
    a'.rip = 0x1020E0 ∧
    isrStub 14 sampleUser a'.stack = interruptEntry 0x208018 sampleUser 14 6 fun _ => 0 := by
  obtain ⟨s, regs, idtr, hrun, hgdt, hidtr⟩ := sampleTables_run
  obtain ⟨-, henter, -⟩ := interrupts_enter hrun hgdt hidtr
  obtain ⟨a, ha, hrip, -, -, hframe⟩ := henter false 32 0 sampleUser (fun _ => 0) (Or.inr rfl) (by decide)
    nofun
  obtain ⟨a', ha', hrip', -, -, hframe'⟩ := henter false 14 6 sampleUser (fun _ => 0) (Or.inr rfl)
    (by decide) nofun
  exact ⟨s, regs, idtr, a, a', ha, hrip, hframe.mpr (by decide), ha', hrip', hframe'.mpr (by decide)⟩

end ZohoOs
