import ZohoOs.Fs.AtaPio

/-!
# Interrupt requests

The two interrupt controllers, and what the kernel does at their ports: `pic_remap` sets them up, the drivers
unmask their requests, and `isr_handler` ends each interrupt with `pic_eoi`. It does that for the ticks of the
local timer as well, which no controller has sent, and so do the other CPUs, at any time.

An end of interrupt says nothing about whose it is. Still none is in service between two handlers, no request
gets lost, and each is handled under its own number once those before it have been.

## Main definitions

* `Pic`: a controller
* `picRemap`, `pitInit`, `mouseInit`, `keyboardInit`, `picEoi`: the code at the ports
* `IrqMachine`, `IrqStep`: the boot CPU, the controllers and the devices

## Main results

* `IrqInv.step`: what a step keeps
* `IrqInv.pending_iff`: the requests that may come to the CPU at the end of the boot
* `irqs_served`: any run
-/

namespace ZohoOs

open Program TransitionSystem

/-! ## The controllers -/

/-- The word a controller expects at its data port. -/
inductive PicStage
  | ready
  | icw2
  | icw3
  | icw4
  deriving DecidableEq

/-- What the kernel sets. -/
structure PicSetup where
  imr : Byte
  base : Byte
  stage : PicStage
  deriving DecidableEq

/-- A write to the command port. `ICW1` is as the kernel writes it, with `ICW3` and `ICW4` to come. -/
def PicSetup.command (val : Byte) (p : PicSetup) : PicSetup :=
  if val.getLsbD 4 then { p with imr := 0, stage := .icw2 } else p

/-- A write to the data port. -/
def PicSetup.data (val : Byte) (p : PicSetup) : PicSetup :=
  match p.stage with
  | .ready => { p with imr := val }
  | .icw2 => { p with base := val &&& 0xF8, stage := .icw3 }
  | .icw3 => { p with stage := .icw4 }
  | .icw4 => { p with stage := .ready }

/-- A controller, with the requests that wait and those in service. -/
structure Pic where
  setup : PicSetup
  irr : Byte
  isr : Byte

/-- `ICW1` forgets the requests; an end of interrupt ends the first one in service. -/
def Pic.command (val : Byte) (p : Pic) : Pic where
  setup := p.setup.command val
  irr := if val.getLsbD 4 then 0 else p.irr
  isr := if val &&& 0xF8 = 0x20 then p.isr &&& (p.isr - 1) else p.isr

def Pic.data (val : Byte) (p : Pic) : Pic := { p with setup := p.setup.data val }

/-- The bit of a line. -/
def lineBit (n : Nat) : Byte := 1#8 <<< n

/-- The request a controller passes on: the first one, unless one like it or before it is in service. -/
def Pic.request (p : Pic) (irr : Byte) : Option Nat :=
  if p.setup.stage = .ready then
    ((List.range 8).find? fun n => p.isr.getLsbD n || (irr &&& ~~~p.setup.imr).getLsbD n).bind fun n =>
      if p.isr.getLsbD n then none else some n
  else none

/-! ## The code -/

def picCommand : BitVec 16 := 0x20

def picData : BitVec 16 := 0x21

def slaveCommand : BitVec 16 := 0xA0

def slaveData : BitVec 16 := 0xA1

/-- Clears bits of a mask. -/
def unmask (port : BitVec 16) (bits : Byte) : PortProg Unit := do
  let mask : Byte ← inb port
  outb port (mask &&& ~~~bits)

/-- `serial_init`. -/
def serialInit : PortProg Unit := do
  outb (0x3F8 + 1) 0x00
  outb (0x3F8 + 3) 0x80
  outb (0x3F8 + 0) 0x03
  outb (0x3F8 + 1) 0x00
  outb (0x3F8 + 3) 0x03
  outb (0x3F8 + 2) 0xC7
  outb (0x3F8 + 4) 0x0B
  outb (0x3F8 + 1) 0x01
  unmask picData (1 <<< 4)

/-- `pic_remap`. -/
def picRemap : PortProg Unit := do
  outb picCommand 0x11
  outb slaveCommand 0x11
  outb picData 0x20
  outb slaveData 0x28
  outb picData 0x04
  outb slaveData 0x02
  outb picData 0x01
  outb slaveData 0x01
  outb picData 0xFF
  outb slaveData 0xFF

/-- `pit_init`. -/
def pitInit (frequency : BitVec 32) : PortProg Unit := do
  let divisor := 1193182#32 / frequency
  outb 0x43 0x36
  outb 0x40 ((divisor &&& 0xFF#32).setWidth 8)
  outb 0x40 (((divisor >>> 8) &&& 0xFF#32).setWidth 8)
  unmask picData 1

/-- A loop that reads the status of the keyboard controller: `mouse_wait`, `ps2_wait_input_ready` and
`ps2_wait_output_ready`. -/
def pollStatus (ready : Byte → Bool) : Nat → PortProg Unit
  | 0 => pure ()
  | timeout + 1 => do
    let status : Byte ← inb 0x64
    if ready status then pure () else pollStatus ready timeout

/-- There is a byte to read. -/
def inputReady (status : Byte) : Bool := status &&& 1 ≠ 0

/-- A byte can be written. -/
def outputReady (status : Byte) : Bool := status &&& 2 = 0

/-- `mouse_wait`. -/
def mouseWait (type : Byte) : PortProg Unit :=
  if type = 0 then pollStatus inputReady 100000 else pollStatus outputReady 100000

/-- `mouse_write`. -/
def mouseWrite (data : Byte) : PortProg Unit := do
  mouseWait 1
  outb 0x64 0xD4
  mouseWait 1
  outb 0x60 data

/-- `mouse_read`. -/
def mouseRead : PortProg Byte := do
  mouseWait 0
  inb 0x60

/-- `mouse_init`. -/
def mouseInit : PortProg Unit := do
  mouseWait 1
  outb 0x64 0xA8
  mouseWait 1
  outb 0x64 0x20
  mouseWait 0
  let status : Byte ← inb 0x60
  mouseWait 1
  outb 0x64 0x60
  mouseWait 1
  outb 0x60 (status ||| 2)
  mouseWrite 0xF6
  let _ ← mouseRead
  mouseWrite 0xF4
  let _ ← mouseRead
  unmask picData (1 <<< 2)
  unmask slaveData (1 <<< 4)

/-- `keyboard_init`. -/
def keyboardInit : PortProg Unit := do
  pollStatus outputReady 100000
  outb 0x64 0x20
  pollStatus inputReady 100000
  let status : Byte ← inb 0x60
  pollStatus outputReady 100000
  outb 0x64 0x60
  pollStatus outputReady 100000
  outb 0x60 (status ||| 1)
  unmask picData 2

/-- `pic_eoi`. -/
def picEoi (irq : Nat) : PortProg Unit := do
  if 8 ≤ irq then outb slaveCommand 0x20
  outb picCommand 0x20

/-- What `kmain` does at the controllers before `sti`, and behind it. -/
def bootBefore : PortProg Unit := do
  serialInit
  picRemap
  pitInit 100

def bootAfter : PortProg Unit := do
  mouseInit
  keyboardInit

/-! ## The machine -/

/-- The boot CPU, the two controllers, and the devices behind them. -/
structure IrqMachine where
  master : Pic
  slave : Pic
  /-- The rest of `isr_handler`, at the controllers. -/
  handler : Option (PortProg Unit)
  prog : PortProg Unit
  /-- What is left behind `sti`. -/
  later : Option (PortProg Unit)

/-- The master has the request of the slave on its line 2. -/
def IrqMachine.masterIrr (x : IrqMachine) : Byte :=
  if (x.slave.request x.slave.irr).isSome then x.master.irr ||| lineBit 2 else x.master.irr &&& ~~~lineBit 2

/-- The request that comes to the CPU. -/
def IrqMachine.request (x : IrqMachine) : Option Nat :=
  (x.master.request x.masterIrr).bind fun n =>
    if n = 2 then (x.slave.request x.slave.irr).map (8 + ·) else some n

/-- The vector of a request. -/
def IrqMachine.vector (x : IrqMachine) (irq : Nat) : Byte :=
  if irq < 8 then x.master.setup.base + BitVec.ofNat 8 irq
  else x.slave.setup.base + BitVec.ofNat 8 (irq - 8)

/-- `isr_handler` for a vector. -/
def handlerOf (vector : Byte) : PortProg Unit :=
  if 32 ≤ vector.toNat ∧ vector.toNat < 48 then picEoi (vector.toNat - 32) else pure ()

/-- The CPU takes a request, which is in service then. -/
def IrqMachine.acknowledge (x : IrqMachine) (irq : Nat) : IrqMachine :=
  if irq < 8 then
    { x with
      master := { x.master with
        irr := x.master.irr &&& ~~~lineBit irq, isr := x.master.isr ||| lineBit irq } }
  else
    { x with
      master := { x.master with isr := x.master.isr ||| lineBit 2 }
      slave := { x.slave with
        irr := x.slave.irr &&& ~~~lineBit (irq - 8), isr := x.slave.isr ||| lineBit (irq - 8) } }

/-- A device asks for an interrupt. -/
def IrqMachine.raise (x : IrqMachine) (irq : Nat) : IrqMachine :=
  if irq < 8 then { x with master := { x.master with irr := x.master.irr ||| lineBit irq } }
  else { x with slave := { x.slave with irr := x.slave.irr ||| lineBit (irq - 8) } }

/-- A write to a port, as the controllers see it. -/
def writePics (port : BitVec 16) (val : Byte) (p : Pic × Pic) : Pic × Pic :=
  if port = picCommand then (p.1.command val, p.2)
  else if port = picData then (p.1.data val, p.2)
  else if port = slaveCommand then (p.1, p.2.command val)
  else if port = slaveData then (p.1, p.2.data val)
  else p

/-- An access to a port. Other ports than those of the masks answer anything. -/
def PortAccess : (r : PortRequest) → PortAnswer r → Pic × Pic → Pic × Pic → Prop
  | .inb port, a, p, p' =>
    p' = p ∧ (port = picData → a = p.1.setup.imr) ∧ (port = slaveData → a = p.2.setup.imr)
  | .outb port val, _, p, p' => p' = writePics port val p
  | .inw _, _, p, p' => p' = p
  | .outw .., _, p, p' => p' = p

inductive IrqLabel
  | raises (irq : Nat)
  | accesses
  | enables
  | takes (irq : Nat)
  | ticks
  | handles
  | returns
  | otherEoi
  deriving DecidableEq

inductive IrqStep : IrqMachine → IrqLabel → IrqMachine → Prop
  | raises {x : IrqMachine} {irq : Nat} : irq < 16 → irq ≠ 2 → IrqStep x (.raises irq) (x.raise irq)
  | accesses {x : IrqMachine} {r : PortRequest} {next : PortAnswer r → PortProg Unit} {a : PortAnswer r}
      {master slave : Pic} : x.handler = none → x.prog = .ask r next →
      PortAccess r a (x.master, x.slave) (master, slave) →
      IrqStep x .accesses { x with master := master, slave := slave, prog := next a }
  /-- `sti`. -/
  | enables {x : IrqMachine} {later : PortProg Unit} : x.prog = .done () → x.later = some later →
      IrqStep x .enables { x with prog := later, later := none }
  | takes {x : IrqMachine} {irq : Nat} : x.handler = none → x.later = none → x.request = some irq →
      IrqStep x (.takes irq) { x.acknowledge irq with handler := some (handlerOf (x.vector irq)) }
  /-- The local timer, with vector 32. -/
  | ticks {x : IrqMachine} : x.handler = none → x.later = none →
      IrqStep x .ticks { x with handler := some (handlerOf 32) }
  | handles {x : IrqMachine} {r : PortRequest} {next : PortAnswer r → PortProg Unit} {a : PortAnswer r}
      {master slave : Pic} : x.handler = some (.ask r next) →
      PortAccess r a (x.master, x.slave) (master, slave) →
      IrqStep x .handles { x with master := master, slave := slave, handler := some (next a) }
  | returns {x : IrqMachine} : x.handler = some (.done ()) → IrqStep x .returns { x with handler := none }
  /-- Another CPU ends a tick of its own timer. -/
  | otherEoi {x : IrqMachine} : IrqStep x .otherEoi { x with master := x.master.command 0x20 }

/-- The boot CPU, in front of `kmain`. -/
def IrqMachine.boot (master slave : Pic) : IrqMachine := ⟨master, slave, none, bootBefore, some bootAfter⟩

/-! ## What is set -/

section Setups

variable {I : PicSetup × PicSetup → Prop} {post : Unit → PicSetup × PicSetup → Prop} {c : PicSetup × PicSetup}

/-- A write to a port, for what is set. -/
def writeSetup (port : BitVec 16) (val : Byte) (c : PicSetup × PicSetup) : PicSetup × PicSetup :=
  if port = picCommand then (c.1.command val, c.2)
  else if port = picData then (c.1.data val, c.2)
  else if port = slaveCommand then (c.1, c.2.command val)
  else if port = slaveData then (c.1, c.2.data val)
  else c

/-- What an access reads, and sets. -/
def SetupAccess : (r : PortRequest) → PortAnswer r → PicSetup × PicSetup → PicSetup × PicSetup → Prop
  | .inb port, a, c, c' => c' = c ∧ (port = picData → a = c.1.imr) ∧ (port = slaveData → a = c.2.imr)
  | .outb port val, _, c, c' => c' = writeSetup port val c
  | .inw _, _, c, c' => c' = c
  | .outw .., _, c, c' => c' = c

/-- The controllers' part of it. -/
def setups (p : Pic × Pic) : PicSetup × PicSetup := (p.1.setup, p.2.setup)

theorem setups_writePics (port : BitVec 16) (val : Byte) (p : Pic × Pic) :
    setups (writePics port val p) = writeSetup port val (setups p) := by
  simp only [writePics, writeSetup, apply_ite setups]
  rfl

theorem PortAccess.setupAccess {r : PortRequest} {a : PortAnswer r} {p p' : Pic × Pic}
    (h : PortAccess r a p p') : SetupAccess r a (setups p) (setups p') := by
  cases r with
  | inb port =>
    obtain ⟨rfl, hmaster, hslave⟩ := h
    exact ⟨rfl, hmaster, hslave⟩
  | outb port val => exact (congrArg setups h).trans (setups_writePics port val p)
  | _ => exact congrArg setups h

theorem ensures_outb {β : Type} {post : β → PicSetup × PicSetup → Prop} {port : BitVec 16} {val : Byte}
    {f : Unit → PortProg β} (hI : I (writeSetup port val c))
    (h : (f ()).Ensures SetupAccess I post (writeSetup port val c)) :
    (outb port val >>= f).Ensures SetupAccess I post c := by
  rintro a c' rfl
  exact ⟨hI, h⟩

theorem ensures_inb {β : Type} {post : β → PicSetup × PicSetup → Prop} {port : BitVec 16}
    {f : Byte → PortProg β} (hI : I c)
    (h : ∀ a, (port = picData → a = c.1.imr) → (port = slaveData → a = c.2.imr) →
      (f a).Ensures SetupAccess I post c) : (inb port >>= f).Ensures SetupAccess I post c := by
  rintro a c' ⟨rfl, hmaster, hslave⟩
  exact ⟨hI, h a hmaster hslave⟩

/-- A program leaves the controllers as it finds them. -/
def Spares {α : Type} (p : PortProg α) : Prop :=
  ∀ (I : PicSetup × PicSetup → Prop) (post : α → PicSetup × PicSetup → Prop) c, I c → (∀ a, post a c) →
    p.Ensures SetupAccess I post c

theorem Spares.bind {α β : Type} {p : PortProg α} {f : α → PortProg β} (hp : Spares p)
    (hf : ∀ a, Spares (f a)) : Spares (p >>= f) :=
  fun I post c hI hpost => Prog.ensures_bind.mpr (hp I _ c hI fun a => hf a I post c hI hpost)

theorem Spares.ensures {α β : Type} {post : β → PicSetup × PicSetup → Prop} {p : PortProg α}
    {f : α → PortProg β} (hp : Spares p) (hI : I c) (h : ∀ a, (f a).Ensures SetupAccess I post c) :
    (p >>= f).Ensures SetupAccess I post c :=
  Prog.ensures_bind.mpr (hp I _ c hI h)

theorem spares_pure {α : Type} (a : α) : Spares (pure a) := fun _ _ _ _ hpost => hpost a

theorem spares_inb (port : BitVec 16) : Spares (inb port) := by
  rintro I post c hI hpost a c' ⟨rfl, -, -⟩
  exact ⟨hI, hpost a⟩

theorem spares_outb {port : BitVec 16} (val : Byte)
    (hport : port ∉ [picCommand, picData, slaveCommand, slaveData]) : Spares (outb port val) := by
  simp only [List.mem_cons, List.not_mem_nil, or_false, not_or] at hport
  obtain ⟨hc, hd, hsc, hsd⟩ := hport
  rintro I post c hI hpost a c' rfl
  rw [writeSetup, if_neg hc, if_neg hd, if_neg hsc, if_neg hsd]
  exact ⟨hI, hpost ()⟩

theorem spares_pollStatus (ready : Byte → Bool) (timeout : Nat) : Spares (pollStatus ready timeout) := by
  induction timeout with
  | zero => exact spares_pure ()
  | succ timeout ih =>
    refine (spares_inb _).bind fun status => ?_
    split
    · exact spares_pure ()
    · exact ih

theorem spares_mouseWait (type : Byte) : Spares (mouseWait type) := by
  rw [mouseWait]
  split
  · exact spares_pollStatus _ _
  · exact spares_pollStatus _ _

theorem spares_mouseWrite (data : Byte) : Spares (mouseWrite data) :=
  (spares_mouseWait 1).bind fun _ => (spares_outb _ (by decide)).bind fun _ =>
    (spares_mouseWait 1).bind fun _ => spares_outb _ (by decide)

theorem spares_mouseRead : Spares mouseRead := (spares_mouseWait 0).bind fun _ => spares_inb _

/-- The mask of the master is read and written. -/
theorem ensures_unmask_master {bits : Byte} (hready : c.1.stage = .ready) (hI : I c)
    (hwritten : I ({ c.1 with imr := c.1.imr &&& ~~~bits }, c.2))
    (h : post () ({ c.1 with imr := c.1.imr &&& ~~~bits }, c.2)) :
    (unmask picData bits).Ensures SetupAccess I post c := by
  obtain ⟨⟨imr, base, stage⟩, slave⟩ := c
  obtain rfl : stage = .ready := hready
  refine ensures_inb hI fun a hmask _ => ?_
  rw [hmask rfl]
  rintro _ c' rfl
  exact ⟨hwritten, h⟩

theorem ensures_unmask_slave {bits : Byte} (hready : c.2.stage = .ready) (hI : I c)
    (hwritten : I (c.1, { c.2 with imr := c.2.imr &&& ~~~bits }))
    (h : post () (c.1, { c.2 with imr := c.2.imr &&& ~~~bits })) :
    (unmask slaveData bits).Ensures SetupAccess I post c := by
  obtain ⟨master, ⟨imr, base, stage⟩⟩ := c
  obtain rfl : stage = .ready := hready
  refine ensures_inb hI fun a _ hmask => ?_
  rw [hmask rfl]
  rintro _ c' rfl
  exact ⟨hwritten, h⟩

/-- The controllers are set up, with the vectors the kernel has for them. -/
def SetUp (c : PicSetup × PicSetup) : Prop :=
  c.1.stage = .ready ∧ c.2.stage = .ready ∧ c.1.base = 0x20 ∧ c.2.base = 0x28

/-- The masks are set. -/
def withMasks (master slave : Byte) : PicSetup × PicSetup := (⟨master, 0x20, .ready⟩, ⟨slave, 0x28, .ready⟩)

theorem withMasks_setUp (master slave : Byte) : SetUp (withMasks master slave) := ⟨rfl, rfl, rfl, rfl⟩

theorem ensures_true {α : Type} {post : α → PicSetup × PicSetup → Prop} (p : PortProg α)
    (hpost : ∀ a c, post a c) (c : PicSetup × PicSetup) :
    p.Ensures SetupAccess (fun _ => True) post c := by
  induction p generalizing c with
  | done a => exact hpost a c
  | ask r next ih => exact fun a c' _ => ⟨trivial, ih a c'⟩

theorem picRemap_ensures (h : post () (withMasks 0xFF 0xFF)) (c : PicSetup × PicSetup) :
    picRemap.Ensures SetupAccess (fun _ => True) post c := by
  iterate 9 refine ensures_outb trivial ?_
  rintro _ c' rfl
  exact ⟨trivial, h⟩

theorem pitInit_ensures (h : post () (withMasks 0xFE 0xFF)) :
    (pitInit 100).Ensures SetupAccess (fun _ => True) post (withMasks 0xFF 0xFF) := by
  refine (spares_outb _ (by decide)).ensures trivial fun _ => ?_
  refine (spares_outb _ (by decide)).ensures trivial fun _ => ?_
  refine (spares_outb _ (by decide)).ensures trivial fun _ => ?_
  exact ensures_unmask_master rfl trivial trivial h

/-- **Before `sti`**, whatever the controllers have been set to. -/
theorem bootBefore_ensures (h : post () (withMasks 0xFE 0xFF)) (c : PicSetup × PicSetup) :
    bootBefore.Ensures SetupAccess (fun _ => True) post c := by
  refine Prog.ensures_bind.mpr (ensures_true serialInit (fun _ c => ?_) c)
  exact Prog.ensures_bind.mpr (picRemap_ensures (pitInit_ensures h) c)

/-- It unmasks the line of the slave at the master, and its own at the slave. -/
theorem mouseInit_ensures (h : post () (withMasks 0xFA 0xEF)) :
    mouseInit.Ensures SetupAccess SetUp post (withMasks 0xFE 0xFF) := by
  have hI := withMasks_setUp 0xFE 0xFF
  refine (spares_mouseWait _).ensures hI fun _ => ?_
  refine (spares_outb _ (by decide)).ensures hI fun _ => ?_
  refine (spares_mouseWait _).ensures hI fun _ => ?_
  refine (spares_outb _ (by decide)).ensures hI fun _ => ?_
  refine (spares_mouseWait _).ensures hI fun _ => ?_
  refine (spares_inb _).ensures hI fun _ => ?_
  refine (spares_mouseWait _).ensures hI fun _ => ?_
  refine (spares_outb _ (by decide)).ensures hI fun _ => ?_
  refine (spares_mouseWait _).ensures hI fun _ => ?_
  refine (spares_outb _ (by decide)).ensures hI fun _ => ?_
  refine (spares_mouseWrite _).ensures hI fun _ => ?_
  refine spares_mouseRead.ensures hI fun _ => ?_
  refine (spares_mouseWrite _).ensures hI fun _ => ?_
  refine spares_mouseRead.ensures hI fun _ => ?_
  refine Prog.ensures_bind.mpr (ensures_unmask_master rfl hI (withMasks_setUp 0xFA 0xFF) ?_)
  exact ensures_unmask_slave rfl (withMasks_setUp 0xFA 0xFF) (withMasks_setUp 0xFA 0xEF) h

theorem keyboardInit_ensures (h : post () (withMasks 0xF8 0xEF)) :
    keyboardInit.Ensures SetupAccess SetUp post (withMasks 0xFA 0xEF) := by
  have hI := withMasks_setUp 0xFA 0xEF
  refine (spares_pollStatus _ _).ensures hI fun _ => ?_
  refine (spares_outb _ (by decide)).ensures hI fun _ => ?_
  refine (spares_pollStatus _ _).ensures hI fun _ => ?_
  refine (spares_inb _).ensures hI fun _ => ?_
  refine (spares_pollStatus _ _).ensures hI fun _ => ?_
  refine (spares_outb _ (by decide)).ensures hI fun _ => ?_
  refine (spares_pollStatus _ _).ensures hI fun _ => ?_
  refine (spares_outb _ (by decide)).ensures hI fun _ => ?_
  exact ensures_unmask_master rfl hI (withMasks_setUp _ _) h

/-- **Behind it** the vectors are kept. -/
theorem bootAfter_ensures (h : post () (withMasks 0xF8 0xEF)) :
    bootAfter.Ensures SetupAccess SetUp post (withMasks 0xFE 0xFF) :=
  Prog.ensures_bind.mpr (mouseInit_ensures (keyboardInit_ensures h))

end Setups

/-! ## What is in service -/

section Service

variable {x x' : IrqMachine} {l : IrqLabel} {irq : Nat}

/-- What is in service, by what is left of `isr_handler`. Ends of interrupt of others may have come before. -/
inductive InService (master slave : Byte) : Option (PortProg Unit) → Prop
  | idle : master = 0 → slave = 0 → InService master slave none
  | both {irq : Nat} : 8 ≤ irq → irq < 16 → master = 0 ∨ master = lineBit 2 →
      slave = 0 ∨ slave = lineBit (irq - 8) → InService master slave (some (picEoi irq))
  | one {n : Nat} : n < 8 → master = 0 ∨ master = lineBit n → slave = 0 →
      InService master slave (some (outb picCommand 0x20))
  | ended : master = 0 → slave = 0 → InService master slave (some (.done ()))

theorem InService.of_none {master slave : Byte} (h : InService master slave none) :
    master = 0 ∧ slave = 0 := by
  cases h with
  | idle hm hs => exact ⟨hm, hs⟩

theorem picEoi_of_lt (h : irq < 8) : picEoi irq = outb picCommand 0x20 := by
  have hmaster : ¬ 8 ≤ irq := by omega
  simp only [picEoi, if_neg hmaster]

theorem picEoi_of_le (h : 8 ≤ irq) :
    picEoi irq = .ask (.outb slaveCommand 0x20) fun _ => outb picCommand 0x20 := by
  rw [picEoi, if_pos h]
  rfl

theorem eoi_line {isr : Byte} {n : Nat} (hn : n < 8) (h : isr = 0 ∨ isr = lineBit n) :
    isr &&& (isr - 1) = 0 := by
  have hline : ∀ n < 8, lineBit n &&& (lineBit n - 1) = 0 := by decide
  rcases h with rfl | rfl
  · decide
  · exact hline n hn

/-- An end of interrupt of another CPU. -/
theorem InService.eoi {master slave : Byte} {handler : Option (PortProg Unit)}
    (h : InService master slave handler) : InService (master &&& (master - 1)) slave handler := by
  cases h with
  | idle hm hs => exact .idle (eoi_line (n := 0) (by decide) (Or.inl hm)) hs
  | both hlo hhi hm hs => exact .both hlo hhi (Or.inl (eoi_line (by decide) hm)) hs
  | one hn hm hs => exact .one hn (Or.inl (eoi_line hn hm)) hs
  | ended hm hs => exact .ended (eoi_line (n := 0) (by decide) (Or.inl hm)) hs

/-- What a write keeps of the controllers: `P` of each, where a command keeps it. -/
theorem writePics_keeps {P : Pic → Prop} (hcommand : ∀ q val, P q → P (Pic.command val q))
    (hdata : ∀ q val, P q → P (Pic.data val q)) (port : BitVec 16) (val : Byte) {p : Pic × Pic} (hm : P p.1)
    (hs : P p.2) : P (writePics port val p).1 ∧ P (writePics port val p).2 := by
  rw [writePics]
  split
  · exact ⟨hcommand _ _ hm, hs⟩
  · split
    · exact ⟨hdata _ _ hm, hs⟩
    · split
      · exact ⟨hm, hcommand _ _ hs⟩
      · split
        · exact ⟨hm, hdata _ _ hs⟩
        · exact ⟨hm, hs⟩

/-- Nothing comes into service by an access. -/
theorem PortAccess.isr_zero {r : PortRequest} {a : PortAnswer r} {p p' : Pic × Pic} (h : PortAccess r a p p')
    (hm : p.1.isr = 0) (hs : p.2.isr = 0) : p'.1.isr = 0 ∧ p'.2.isr = 0 := by
  cases r with
  | inb port =>
    obtain ⟨rfl, -⟩ := h
    exact ⟨hm, hs⟩
  | outb port val =>
    obtain rfl : p' = writePics port val p := h
    refine writePics_keeps (P := fun q => q.isr = 0) (fun q val hq => ?_) (fun q val hq => hq) port val hm hs
    simp only [Pic.command, hq]
    split
    · decide
    · rfl
  | _ =>
    obtain rfl : p' = p := h
    exact ⟨hm, hs⟩

/-- No request is forgotten as long as the controllers are set up. -/
theorem PortAccess.irr_kept {r : PortRequest} {a : PortAnswer r} {p p' : Pic × Pic} (h : PortAccess r a p p')
    (hset : SetUp (setups p')) : p'.1.irr = p.1.irr ∧ p'.2.irr = p.2.irr := by
  cases r with
  | inb port =>
    obtain ⟨rfl, -⟩ := h
    exact ⟨rfl, rfl⟩
  | outb port val =>
    obtain rfl : p' = writePics port val p := h
    have hcommand : ∀ q : Pic, (q.command val).setup.stage = .ready → (q.command val).irr = q.irr := by
      intro q hready
      simp only [Pic.command, PicSetup.command] at hready ⊢
      split
      · rename_i hinit
        rw [if_pos hinit] at hready
        cases hready
      · rfl
    obtain ⟨hm, hs, -⟩ := hset
    simp only [setups, writePics] at hm hs ⊢
    split_ifs at hm hs ⊢
    · exact ⟨hcommand _ hm, rfl⟩
    · exact ⟨rfl, rfl⟩
    · exact ⟨rfl, hcommand _ hs⟩
    · exact ⟨rfl, rfl⟩
    · exact ⟨rfl, rfl⟩
  | _ =>
    obtain rfl : p' = p := h
    exact ⟨rfl, rfl⟩

/-- A line that a controller passes on is asked for, and not masked. -/
theorem Pic.request_pending {p : Pic} {irr : Byte} {n : Nat} (h : p.request irr = some n) :
    n < 8 ∧ (irr &&& ~~~p.setup.imr).getLsbD n = true := by
  rw [Pic.request] at h
  split at h
  · obtain ⟨k, hfind, hk⟩ := Option.bind_eq_some_iff.mp h
    split at hk
    · cases hk
    · rename_i hfree
      obtain rfl := Option.some.inj hk
      have hp := List.find?_some hfind
      rw [Bool.or_eq_true] at hp
      exact ⟨List.mem_range.mp (List.mem_of_find?_eq_some hfind), hp.resolve_left hfree⟩
  · cases h

/-- **With nothing in service** a line that is asked for is passed on, or one before it. -/
theorem Pic.request_of_pending {p : Pic} {irr : Byte} {n : Nat} (hready : p.setup.stage = .ready)
    (hisr : p.isr = 0) (hn : n < 8) (h : (irr &&& ~~~p.setup.imr).getLsbD n = true) :
    ∃ k ≤ n, p.request irr = some k := by
  have hfree : ∀ k, p.isr.getLsbD k = false := fun k => by simp [hisr]
  cases hfind : (List.range 8).find? fun n => p.isr.getLsbD n || (irr &&& ~~~p.setup.imr).getLsbD n with
  | none =>
    have hall := List.find?_eq_none.mp hfind n (List.mem_range.mpr hn)
    rw [h, Bool.or_true] at hall
    exact absurd rfl hall
  | some k =>
    refine ⟨k, ?_, ?_⟩
    · by_contra hlt
      have hbefore := (List.find?_range_eq_some.mp hfind).2.2 n (by omega)
      rw [h, Bool.or_true] at hbefore
      cases hbefore
    · rw [Pic.request, if_pos hready, hfind, Option.bind_some, hfree]
      rfl

theorem lineBit_getLsbD : ∀ n < 8, ∀ k < 8, (lineBit n).getLsbD k = decide (k = n) := by decide

/-- A request that waits, and may come to the CPU. -/
def IrqMachine.Pending (x : IrqMachine) (irq : Nat) : Prop :=
  if irq < 8 then irq ≠ 2 ∧ (x.master.irr &&& ~~~x.master.setup.imr).getLsbD irq = true
  else irq < 16 ∧ (x.slave.irr &&& ~~~x.slave.setup.imr).getLsbD (irq - 8) = true ∧
    x.master.setup.imr.getLsbD 2 = false

/-- The place of a request among all: those of the slave come between 1 and 3. -/
def irqRank (irq : Nat) : Nat := if irq < 2 then irq else if 8 ≤ irq then irq - 6 else irq + 7

/-- **What the CPU gets** is pending. -/
theorem IrqMachine.request_pending (h : x.request = some irq) : irq < 16 ∧ x.Pending irq := by
  obtain ⟨n, hmaster, hn⟩ := Option.bind_eq_some_iff.mp h
  obtain ⟨hlt, hbit⟩ := Pic.request_pending hmaster
  by_cases htwo : n = 2
  · subst htwo
    rw [if_pos rfl] at hn
    obtain ⟨k, hslave, rfl⟩ := Option.map_eq_some_iff.mp hn
    obtain ⟨hk, hkbit⟩ := Pic.request_pending hslave
    rw [BitVec.getLsbD_and, BitVec.getLsbD_not, Bool.and_eq_true, Bool.and_eq_true] at hbit
    refine ⟨by omega, ?_⟩
    rw [IrqMachine.Pending, if_neg (by omega), Nat.add_sub_cancel_left]
    exact ⟨by omega, hkbit, by simpa using hbit.2.2⟩
  · rw [if_neg htwo] at hn
    obtain rfl := Option.some.inj hn
    refine ⟨by omega, ?_⟩
    rw [IrqMachine.Pending, if_pos hlt]
    refine ⟨htwo, ?_⟩
    rw [BitVec.getLsbD_and] at hbit ⊢
    rw [← hbit, IrqMachine.masterIrr]
    congr 1
    split
    · rw [BitVec.getLsbD_or, lineBit_getLsbD 2 (by decide) n hlt, decide_eq_false htwo, Bool.or_false]
    · rw [BitVec.getLsbD_and, BitVec.getLsbD_not, lineBit_getLsbD 2 (by decide) n hlt, decide_eq_false htwo]
      simp [hlt]

/-- **Between two handlers** a pending request comes to the CPU, or one before it. -/
theorem IrqMachine.request_of_pending (hset : SetUp (setups (x.master, x.slave))) (hm : x.master.isr = 0)
    (hs : x.slave.isr = 0) (h : x.Pending irq) : ∃ k, x.request = some k ∧ irqRank k ≤ irqRank irq := by
  obtain ⟨hmready, hsready, -, -⟩ := hset
  rw [IrqMachine.Pending] at h
  -- the line of the master the request comes to
  obtain ⟨n, hn, hbit, hrank, hslave⟩ : ∃ n < 8, (x.masterIrr &&& ~~~x.master.setup.imr).getLsbD n = true ∧
      (∀ k ≤ n, k ≠ 2 → irqRank k ≤ irqRank irq) ∧
      (2 ≤ n → ∀ j, x.slave.request x.slave.irr = some j → irqRank (8 + j) ≤ irqRank irq) := by
    split at h
    · rename_i hlt
      obtain ⟨htwo, hbit⟩ := h
      refine ⟨irq, hlt, ?_, fun k hk hktwo => ?_, fun hle j hj => ?_⟩
      · rw [BitVec.getLsbD_and] at hbit ⊢
        rw [← hbit, IrqMachine.masterIrr]
        congr 1
        split
        · rw [BitVec.getLsbD_or, lineBit_getLsbD 2 (by decide) irq hlt, decide_eq_false htwo, Bool.or_false]
        · rw [BitVec.getLsbD_and, BitVec.getLsbD_not, lineBit_getLsbD 2 (by decide) irq hlt,
            decide_eq_false htwo]
          simp [hlt]
      · grind [irqRank]
      · have hj := (Pic.request_pending hj).1
        rw [irqRank, if_neg (by omega), if_pos (by omega), irqRank, if_neg (by omega), if_neg (by omega)]
        omega
    · rename_i hge
      obtain ⟨hlt, hbit, hopen⟩ := h
      obtain ⟨j, hj, hrequest⟩ := Pic.request_of_pending hsready hs (by omega) hbit
      have hline : (x.masterIrr &&& ~~~x.master.setup.imr).getLsbD 2 = true := by
        rw [IrqMachine.masterIrr, hrequest, if_pos Option.isSome_some, BitVec.getLsbD_and, BitVec.getLsbD_or,
          BitVec.getLsbD_not, hopen, lineBit_getLsbD 2 (by decide) 2 (by decide)]
        simp
      refine ⟨2, by decide, hline, fun k hk hktwo => ?_, fun _ i hi => ?_⟩
      · rw [irqRank, if_pos (by omega), irqRank, if_neg (by omega), if_pos (by omega)]
        omega
      · obtain rfl := Option.some.inj (hrequest.symm.trans hi)
        rw [irqRank, if_neg (by omega), if_pos (by omega), irqRank, if_neg (by omega), if_pos (by omega)]
        omega
  obtain ⟨k, hk, hrequest⟩ := Pic.request_of_pending hmready hm hn hbit
  by_cases htwo : k = 2
  · subst htwo
    -- the master has line 2 only from the slave
    have hsome : (x.slave.request x.slave.irr).isSome := by
      by_contra hnone
      obtain ⟨-, hline⟩ := Pic.request_pending hrequest
      rw [IrqMachine.masterIrr, if_neg hnone, BitVec.getLsbD_and, BitVec.getLsbD_and, BitVec.getLsbD_not,
        lineBit_getLsbD 2 (by decide) 2 (by decide)] at hline
      simp at hline
    obtain ⟨j, hj⟩ := Option.isSome_iff_exists.mp hsome
    refine ⟨8 + j, ?_, hslave hk j hj⟩
    rw [IrqMachine.request, hrequest, Option.bind_some, if_pos rfl, hj]
    rfl
  · refine ⟨k, ?_, hrank k hk htwo⟩
    rw [IrqMachine.request, hrequest, Option.bind_some, if_neg htwo]

end Service

/-! ## Runs -/

section Runs

variable {x x' : IrqMachine} {l : IrqLabel} {irq : Nat}

/-- **What holds between any two steps.** -/
structure IrqInv (x : IrqMachine) : Prop where
  service : InService x.master.isr x.slave.isr x.handler
  before : ∀ later, x.later = some later → later = bootAfter ∧
    x.prog.Ensures SetupAccess (fun _ => True) (fun _ c => c = withMasks 0xFE 0xFF)
      (setups (x.master, x.slave))
  behind : x.later = none → SetUp (setups (x.master, x.slave)) ∧
    x.prog.Ensures SetupAccess SetUp (fun _ c => c = withMasks 0xF8 0xEF) (setups (x.master, x.slave))

/-- What changes nothing that is set keeps what the boot program does. -/
theorem IrqInv.same (h : IrqInv x) (hservice : InService x'.master.isr x'.slave.isr x'.handler)
    (hprog : x'.prog = x.prog) (hlater : x'.later = x.later)
    (hset : setups (x'.master, x'.slave) = setups (x.master, x.slave)) : IrqInv x' := by
  refine ⟨hservice, ?_, ?_⟩
  · rw [hprog, hlater, hset]
    exact h.before
  · rw [hprog, hlater, hset]
    exact h.behind

/-- The handler of a request is for its number. -/
theorem handlerOf_vector (hset : SetUp (setups (x.master, x.slave))) (hirq : irq < 16) :
    handlerOf (x.vector irq) = picEoi irq := by
  have hvector : x.vector irq = BitVec.ofNat 8 (32 + irq) := by
    rw [IrqMachine.vector, show x.master.setup.base = 0x20 from hset.2.2.1,
      show x.slave.setup.base = 0x28 from hset.2.2.2]
    split
    · exact (BitVec.ofNat_add ..).symm
    · rw [show 32 + irq = 40 + (irq - 8) by omega]
      exact (BitVec.ofNat_add ..).symm
  have hnat : (BitVec.ofNat 8 (32 + irq)).toNat = 32 + irq := Nat.mod_eq_of_lt (by omega)
  rw [handlerOf, hvector, hnat, if_pos (by omega), Nat.add_sub_cancel_left]

/-- **A step** keeps it. -/
theorem IrqInv.step (h : IrqInv x) (hstep : IrqStep x l x') : IrqInv x' := by
  have hservice := h.service
  cases hstep with
  | @raises irq hlt htwo =>
    by_cases hmaster : irq < 8
    · rw [IrqMachine.raise, if_pos hmaster]
      exact h.same hservice rfl rfl rfl
    · rw [IrqMachine.raise, if_neg hmaster]
      exact h.same hservice rfl rfl rfl
  | @accesses r next a master slave hidle hask haccess =>
    have hset := haccess.setupAccess
    refine ⟨?_, fun later hlater => ?_, fun hlater => ?_⟩
    · rw [hidle] at hservice
      obtain ⟨hm, hs⟩ := hservice.of_none
      obtain ⟨hm', hs'⟩ := haccess.isr_zero hm hs
      dsimp only
      rw [hidle]
      exact .idle hm' hs'
    · obtain ⟨hafter, hprog⟩ := h.before later hlater
      rw [hask] at hprog
      exact ⟨hafter, (hprog a _ hset).2⟩
    · obtain ⟨-, hprog⟩ := h.behind hlater
      rw [hask] at hprog
      exact hprog a _ hset
  | @enables later hdone hlater =>
    obtain ⟨rfl, hprog⟩ := h.before later hlater
    rw [hdone] at hprog
    have hmasks : setups (x.master, x.slave) = withMasks 0xFE 0xFF := hprog
    refine ⟨hservice, nofun, fun _ => ?_⟩
    dsimp only
    rw [hmasks]
    exact ⟨withMasks_setUp _ _, bootAfter_ensures rfl⟩
  | @takes irq hidle hlater hrequest =>
    obtain ⟨hset, -⟩ := h.behind hlater
    obtain ⟨hirq, -⟩ := IrqMachine.request_pending hrequest
    rw [hidle] at hservice
    obtain ⟨hm, hs⟩ := hservice.of_none
    by_cases hmaster : irq < 8
    · refine h.same ?_ (by rw [IrqMachine.acknowledge, if_pos hmaster])
        (by rw [IrqMachine.acknowledge, if_pos hmaster]) (by rw [IrqMachine.acknowledge, if_pos hmaster]; rfl)
      dsimp only
      rw [handlerOf_vector hset hirq, picEoi_of_lt hmaster, IrqMachine.acknowledge, if_pos hmaster]
      refine .one hmaster (Or.inr ?_) hs
      dsimp only
      rw [hm]
      exact BitVec.zero_or
    · refine h.same ?_ (by rw [IrqMachine.acknowledge, if_neg hmaster])
        (by rw [IrqMachine.acknowledge, if_neg hmaster]) (by rw [IrqMachine.acknowledge, if_neg hmaster]; rfl)
      dsimp only
      rw [handlerOf_vector hset hirq, IrqMachine.acknowledge, if_neg hmaster]
      refine .both (by omega) hirq (Or.inr ?_) (Or.inr ?_)
      · dsimp only
        rw [hm]
        exact BitVec.zero_or
      · dsimp only
        rw [hs]
        exact BitVec.zero_or
  | @ticks hidle hlater =>
    rw [hidle] at hservice
    obtain ⟨hm, hs⟩ := hservice.of_none
    exact h.same (.one (n := 0) (by decide) (Or.inl hm) hs) rfl rfl rfl
  | @handles r next a master slave hask haccess =>
    rw [hask] at hservice
    generalize hhandler : some (Prog.ask r next) = handler at hservice
    cases hservice with
    | idle => cases hhandler
    | @both irq hlo hhi hm hs =>
      rw [picEoi_of_le hlo] at hhandler
      cases hhandler
      obtain ⟨rfl, rfl⟩ := Prod.mk.inj (haccess : (master, slave) = (x.master, x.slave.command 0x20))
      exact h.same (.one (by decide) hm (eoi_line (by omega) hs)) rfl rfl rfl
    | @one n hn hm hs =>
      cases hhandler
      obtain ⟨rfl, rfl⟩ := Prod.mk.inj (haccess : (master, slave) = (x.master.command 0x20, x.slave))
      exact h.same (.ended (eoi_line hn hm) hs) rfl rfl rfl
    | ended => cases hhandler
  | returns hdone =>
    rw [hdone] at hservice
    generalize hhandler : some (Prog.done ()) = handler at hservice
    cases hservice with
    | idle => cases hhandler
    | both hlo =>
      rw [picEoi_of_le hlo] at hhandler
      cases hhandler
    | one => cases hhandler
    | ended hm hs => exact h.same (.idle hm hs) rfl rfl rfl
  | otherEoi => exact h.same hservice.eoi rfl rfl rfl

/-- The handler comes to its end. -/
theorem IrqInv.handler_ends (h : IrqInv x) :
    ∃ ls x', ls.length ≤ 3 ∧ Run IrqStep x ls x' ∧ x'.handler = none := by
  have hone : ∀ x : IrqMachine, x.handler = some (outb picCommand 0x20) → ∃ x',
      Run IrqStep x [.handles, .returns] x' ∧ x'.handler = none := by
    intro x hx
    have hhandles : IrqStep x .handles { x with
      master := x.master.command 0x20, handler := some (.done ()) } := .handles (a := ()) hx rfl
    exact ⟨_, Run.cons hhandles (Run.single (.returns rfl)), rfl⟩
  have hservice := h.service
  generalize hhandler : x.handler = handler at hservice
  cases hservice with
  | idle => exact ⟨[], x, by decide, Run.nil x, hhandler⟩
  | both hlo =>
    rw [picEoi_of_le hlo] at hhandler
    obtain ⟨x₁, hx₁⟩ : ∃ x₁, x₁ = { x with
      slave := x.slave.command 0x20, handler := some (outb picCommand 0x20) } := ⟨_, rfl⟩
    have hhandles : IrqStep x .handles x₁ := hx₁ ▸ .handles (a := ()) hhandler rfl
    obtain ⟨x', hrun, hend⟩ := hone x₁ (by rw [hx₁])
    exact ⟨_, x', by decide, Run.cons hhandles hrun, hend⟩
  | one =>
    obtain ⟨x', hrun, hend⟩ := hone x hhandler
    exact ⟨_, x', by decide, hrun, hend⟩
  | ended => exact ⟨_, _, by decide, Run.single (.returns hhandler), rfl⟩

/-- A device waits to be served. -/
def IrqMachine.Raised (x : IrqMachine) (irq : Nat) : Prop :=
  (if irq < 8 then x.master.irr.getLsbD irq else x.slave.irr.getLsbD (irq - 8)) = true

theorem lineBit_or {p : Byte} {n k : Nat} (h : p.getLsbD k = true) : (p ||| lineBit n).getLsbD k = true := by
  rw [BitVec.getLsbD_or, h, Bool.true_or]

theorem lineBit_and_not {p : Byte} {n k : Nat} (hn : n < 8) (hk : k < 8) (hne : k ≠ n)
    (h : p.getLsbD k = true) : (p &&& ~~~lineBit n).getLsbD k = true := by
  rw [BitVec.getLsbD_and, h, BitVec.getLsbD_not, lineBit_getLsbD n hn k hk, decide_eq_false hne]
  simp [hk]

/-- **No request is lost** until it is taken. -/
theorem IrqInv.raised_step (h : IrqInv x) (hlater : x.later = none) (hirq : irq < 16) (hraised : x.Raised irq)
    (hstep : IrqStep x l x') (hother : l ≠ .takes irq) : x'.Raised irq := by
  have hnext := h.step hstep
  have hkept : ∀ x' : IrqMachine, x'.master.irr = x.master.irr → x'.slave.irr = x.slave.irr →
      x'.Raised irq := by
    intro x' hm hs
    rw [IrqMachine.Raised, hm, hs]
    exact hraised
  cases hstep with
  | @raises k hlt htwo =>
    simp only [IrqMachine.Raised, IrqMachine.raise] at hraised ⊢
    by_cases hk : k < 8
    · rw [if_pos hk]
      by_cases hmaster : irq < 8
      · rw [if_pos hmaster] at hraised ⊢
        exact lineBit_or hraised
      · rwa [if_neg hmaster] at hraised ⊢
    · rw [if_neg hk]
      by_cases hmaster : irq < 8
      · rwa [if_pos hmaster] at hraised ⊢
      · rw [if_neg hmaster] at hraised ⊢
        exact lineBit_or hraised
  | @accesses r next a master slave hidle hask haccess =>
    obtain ⟨hm, hs⟩ := haccess.irr_kept (hnext.behind hlater).1
    exact hkept _ hm hs
  | enables hdone hsome => exact hkept _ rfl rfl
  | @takes k hidle hlater hrequest =>
    obtain ⟨hlt, -⟩ := IrqMachine.request_pending hrequest
    have hne : irq ≠ k := fun heq => hother (by rw [heq])
    simp only [IrqMachine.Raised, IrqMachine.acknowledge] at hraised ⊢
    by_cases hk : k < 8
    · rw [if_pos hk]
      by_cases hmaster : irq < 8
      · rw [if_pos hmaster] at hraised ⊢
        exact lineBit_and_not hk hmaster hne hraised
      · rwa [if_neg hmaster] at hraised ⊢
    · rw [if_neg hk]
      by_cases hmaster : irq < 8
      · rwa [if_pos hmaster] at hraised ⊢
      · rw [if_neg hmaster] at hraised ⊢
        exact lineBit_and_not (by omega) (by omega) (by omega) hraised
  | ticks => exact hkept _ rfl rfl
  | @handles r next a master slave hask haccess =>
    obtain ⟨hm, hs⟩ := haccess.irr_kept (hnext.behind hlater).1
    exact hkept _ hm hs
  | returns => exact hkept _ rfl rfl
  | otherEoi => exact hkept _ rfl rfl

theorem irqInv_run {master slave : Pic} {ls : List IrqLabel} (hm : master.isr = 0) (hs : slave.isr = 0)
    (hrun : Run IrqStep (IrqMachine.boot master slave) ls x) : IrqInv x := by
  refine hrun.invariant (fun _ _ _ h hstep => h.step hstep) ?_
  refine ⟨.idle hm hs, fun later hlater => ?_, nofun⟩
  obtain rfl := Option.some.inj hlater
  exact ⟨rfl, bootBefore_ensures rfl _⟩

/-- The masks at the end of the boot. -/
theorem IrqInv.masks (h : IrqInv x) (hlater : x.later = none) (hdone : x.prog = .done ()) :
    x.master.setup = ⟨0xF8, 0x20, .ready⟩ ∧ x.slave.setup = ⟨0xEF, 0x28, .ready⟩ := by
  obtain ⟨-, hprog⟩ := h.behind hlater
  rw [hdone] at hprog
  exact Prod.mk.inj hprog

/-- **Behind the boot** a request may come to the CPU that is of the timer, the keyboard or the mouse. -/
theorem IrqInv.pending_iff (h : IrqInv x) (hlater : x.later = none) (hdone : x.prog = .done ()) :
    x.Pending irq ↔ (irq = 0 ∨ irq = 1 ∨ irq = 12) ∧ x.Raised irq := by
  obtain ⟨hmaster, hslave⟩ := h.masks hlater hdone
  have hopen : (∀ k < 8, (~~~(0xF8 : Byte)).getLsbD k = decide (k < 3)) ∧
      ∀ k < 8, (~~~(0xEF : Byte)).getLsbD k = decide (k = 4) := by decide
  rw [IrqMachine.Pending, IrqMachine.Raised, hmaster, hslave]
  dsimp only
  by_cases hlt : irq < 8
  · rw [if_pos hlt, if_pos hlt, BitVec.getLsbD_and, Bool.and_eq_true, hopen.1 irq hlt, decide_eq_true_eq]
    constructor
    · rintro ⟨htwo, hbit, hthree⟩
      exact ⟨by omega, hbit⟩
    · rintro ⟨hirq, hbit⟩
      exact ⟨by omega, hbit, by omega⟩
  · rw [if_neg hlt, if_neg hlt, BitVec.getLsbD_and, Bool.and_eq_true]
    constructor
    · rintro ⟨hbound, ⟨hbit, hline⟩, -⟩
      rw [hopen.2 (irq - 8) (by omega), decide_eq_true_eq] at hline
      exact ⟨by omega, hbit⟩
    · rintro ⟨hirq, hbit⟩
      obtain rfl : irq = 12 := by omega
      exact ⟨by decide, ⟨hbit, by decide⟩, by decide⟩

/-- **Any run** of the boot CPU, the devices and the other CPUs. Between two handlers nothing is in service,
and every handler ends. Behind `sti` a request that may come to the CPU is the next to be handled, under its
own number, or one before it is; and a request is kept until it is taken. At the end of the boot the masks
leave the requests of the timer, the keyboard and the mouse: each of these may come to the CPU as soon as its
device waits, and the CPU takes no others. -/
theorem irqs_served {master slave : Pic} {ls : List IrqLabel} (hm : master.isr = 0) (hs : slave.isr = 0)
    (hrun : Run IrqStep (IrqMachine.boot master slave) ls x) :
    (x.handler = none → x.master.isr = 0 ∧ x.slave.isr = 0) ∧
    (∃ ls' x', ls'.length ≤ 3 ∧ Run IrqStep x ls' x' ∧ x'.handler = none) ∧
    (x.later = none →
      (∀ irq, x.handler = none → x.Pending irq → ∃ k x', irqRank k ≤ irqRank irq ∧ IrqStep x (.takes k) x' ∧
        x'.handler = some (picEoi k)) ∧
      (∀ irq l x', irq < 16 → x.Raised irq → IrqStep x l x' → l ≠ .takes irq → x'.Raised irq) ∧
      (x.prog = .done () →
        (x.master.setup.imr = 0xF8 ∧ x.slave.setup.imr = 0xEF) ∧
        (∀ irq, x.Pending irq ↔ (irq = 0 ∨ irq = 1 ∨ irq = 12) ∧ x.Raised irq) ∧
        ∀ k x', IrqStep x (.takes k) x' → k = 0 ∨ k = 1 ∨ k = 12)) := by
  have hinv := irqInv_run hm hs hrun
  refine ⟨fun hidle => ?_, hinv.handler_ends, fun hlater => ⟨fun irq hidle hpending => ?_,
    fun irq l x' hirq hraised hstep hother => hinv.raised_step hlater hirq hraised hstep hother,
    fun hdone => ⟨?_, fun irq => hinv.pending_iff hlater hdone, fun k x' hstep => ?_⟩⟩⟩
  · have hservice := hinv.service
    rw [hidle] at hservice
    exact hservice.of_none
  · obtain ⟨hset, -⟩ := hinv.behind hlater
    have hservice := hinv.service
    rw [hidle] at hservice
    obtain ⟨hm, hs⟩ := hservice.of_none
    obtain ⟨k, hrequest, hrank⟩ := IrqMachine.request_of_pending hset hm hs hpending
    refine ⟨k, _, hrank, .takes hidle hlater hrequest, ?_⟩
    rw [handlerOf_vector hset (IrqMachine.request_pending hrequest).1]
  · obtain ⟨hmaster, hslave⟩ := hinv.masks hlater hdone
    rw [hmaster, hslave]
    exact ⟨rfl, rfl⟩
  · cases hstep with
    | takes _ _ hrequest =>
      obtain ⟨-, hpending⟩ := IrqMachine.request_pending hrequest
      exact ((hinv.pending_iff hlater hdone).mp hpending).1

end Runs

/-- A program at the ports comes to its end. -/
theorem exists_prog_run {x : IrqMachine} (hidle : x.handler = none) : ∃ ls x', Run IrqStep x ls x' ∧
    x'.prog = .done () ∧ x'.handler = none ∧ x'.later = x.later := by
  obtain ⟨prog, hprog⟩ : ∃ prog, prog = x.prog := ⟨_, rfl⟩
  induction prog generalizing x with
  | done a => exact ⟨[], x, Run.nil x, hprog.symm, hidle, rfl⟩
  | ask r next ih =>
    obtain ⟨a, p, haccess⟩ : ∃ a p, PortAccess r a (x.master, x.slave) p := by
      cases r with
      | inb port =>
        by_cases hmaster : port = picData
        · exact ⟨x.master.setup.imr, _, rfl, fun _ => rfl, fun h => absurd (hmaster.symm.trans h) (by decide)⟩
        · exact ⟨x.slave.setup.imr, _, rfl, fun h => absurd h hmaster, fun _ => rfl⟩
      | outb port val => exact ⟨(), _, rfl⟩
      | inw port => exact ⟨0, _, rfl⟩
      | outw port val => exact ⟨(), _, rfl⟩
    obtain ⟨ls, x', hrun, hdone, hend, hlater⟩ :=
      ih a (x := { x with master := p.1, slave := p.2, prog := next a }) hidle rfl
    exact ⟨_, x', Run.cons (.accesses hidle hprog.symm haccess) hrun, hdone, hend, hlater⟩

/-- A controller as the firmware leaves it. -/
def samplePic : Pic := ⟨⟨0xFF, 0x08, .ready⟩, 0, 0⟩

/-- A key is pressed after the boot. -/
theorem irqs_served_key : ∃ ls x k x', Run IrqStep (IrqMachine.boot samplePic samplePic) ls x ∧
    IrqStep x (.takes k) x' ∧ (k = 0 ∨ k = 1) ∧ x'.handler = some (picEoi k) := by
  obtain ⟨ls₁, x₁, hrun₁, hdone₁, hidle₁, hlater₁⟩ :=
    exists_prog_run (x := IrqMachine.boot samplePic samplePic) rfl
  have henables := Run.single (IrqStep.enables hdone₁ hlater₁)
  obtain ⟨ls₂, x₂, hrun₂, hdone₂, hidle₂, hlater₂⟩ :=
    exists_prog_run (x := { x₁ with prog := bootAfter, later := none }) hidle₁
  have hraises : IrqStep x₂ (.raises 1) (x₂.raise 1) := .raises (by decide) (by decide)
  have hrun := ((hrun₁.append henables).append hrun₂).append (Run.single hraises)
  obtain ⟨-, -, hbehind⟩ := irqs_served rfl rfl hrun
  obtain ⟨hserved, -, hend⟩ := hbehind hlater₂
  obtain ⟨-, hpending, hlines⟩ := hend hdone₂
  have hraised : (x₂.raise 1).Raised 1 := by
    have hirr : (x₂.raise 1).master.irr = x₂.master.irr ||| lineBit 1 := rfl
    rw [IrqMachine.Raised, if_pos (by decide), hirr, BitVec.getLsbD_or,
      lineBit_getLsbD 1 (by decide) 1 (by decide)]
    simp
  obtain ⟨k, x', hrank, htakes, hhandler⟩ :=
    hserved 1 hidle₂ ((hpending 1).mpr ⟨Or.inr (Or.inl rfl), hraised⟩)
  refine ⟨_, _, k, x', hrun, htakes, ?_, hhandler⟩
  rcases hlines k x' htakes with rfl | rfl | rfl
  · exact Or.inl rfl
  · exact Or.inr rfl
  · exact absurd hrank (by decide)

end ZohoOs
