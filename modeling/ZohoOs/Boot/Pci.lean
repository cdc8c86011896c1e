import ZohoOs.Lib.Program
import Mathlib.Algebra.GroupWithZero.Nat
import Mathlib.Data.List.Nodup
import Mathlib.Data.List.Range
import Mathlib.Tactic.IntervalCases

/-!
# PCI enumeration

`pci_init` walks the buses and slots through the two ports of the host bridge. It reports what it finds, and
has `e1000_init` set up each network card that it knows, which writes to the configuration of the card while
the walk goes on.

## Main definitions

* `PciProg`: programs over the two ports
* `pciInit`: the walk
* `PciBridge`, `PciBridge.serve`: the host bridge, and the configuration space behind it
* `functionEvents`: what is to be done about one function

## Main results

* `decode_configAddress`: the bridge selects the register that is asked for
* `configRead_run`, `configWrite_run`: one access
* `checkDevice_run`: one slot
* `pciInit_finds`: the whole walk
-/

namespace ZohoOs

open Program

/-! ## Ports -/

/-- What is found, and which message tells it. -/
structure PciReport where
  multi : Bool
  vendorId : BitVec 16
  deviceId : BitVec 16
  classCode : BitVec 8
  subclass : BitVec 8

/-- What the walk does, beside its accesses: a message of `klog`; the registers of a card are mapped; and the
rest of `e1000_init`. -/
inductive PciEvent
  | report (r : PciReport)
  | mapMmio (physAddr : BitVec 64)
  | startNic

inductive PciRequest
  | outl (port : BitVec 16) (val : BitVec 32)
  | inl (port : BitVec 16)
  | act (e : PciEvent)

@[reducible] def PciAnswer : PciRequest → Type
  | .inl _ => BitVec 32
  | _ => Unit

abbrev PciProg := Prog PciRequest PciAnswer

abbrev outl (port : BitVec 16) (val : BitVec 32) : PciProg Unit := Prog.request (PciRequest.outl port val)

abbrev inl (port : BitVec 16) : PciProg (BitVec 32) := Prog.request (PciRequest.inl port)

abbrev pciAct (e : PciEvent) : PciProg Unit := Prog.request (PciRequest.act e)

/-! ## The walk -/

/-- `PCI_CONFIG_ADDRESS`. -/
def pciConfigAddress : BitVec 16 := 0xCF8

/-- `PCI_CONFIG_DATA`. -/
def pciConfigData : BitVec 16 := 0xCFC

/-- The address of a register. -/
def configAddress (bus slot func offset : BitVec 8) : BitVec 32 :=
  bus.setWidth 32 <<< 16 ||| slot.setWidth 32 <<< 11 ||| func.setWidth 32 <<< 8 |||
    (offset &&& 0xFC#8).setWidth 32 ||| 0x80000000#32

/-- `pci_config_read`. -/
def configRead (bus slot func offset : BitVec 8) : PciProg (BitVec 32) := do
  outl pciConfigAddress (configAddress bus slot func offset)
  inl pciConfigData

/-- `pci_config_write`. -/
def configWrite (bus slot func offset : BitVec 8) (value : BitVec 32) : PciProg Unit := do
  outl pciConfigAddress (configAddress bus slot func offset)
  outl pciConfigData value

/-- `E1000_VENDOR_ID`. -/
def e1000VendorId : BitVec 16 := 0x8086

/-- `E1000_DEVICE_ID`. -/
def e1000DeviceId : BitVec 16 := 0x100E

/-- `e1000_init`, as far as it is about the configuration. -/
def e1000Init (bus slot func : BitVec 8) : PciProg Unit := do
  let bar0 ← configRead bus slot func 0x10
  pciAct (.mapMmio ((bar0 &&& ~~~0xF#32).setWidth 64))
  let command ← configRead bus slot func 0x04
  configWrite bus slot func 0x04 (command ||| (1#32 <<< 2) ||| (1#32 <<< 1))
  pciAct .startNic

/-- The vendor that `reg0` tells. -/
def vendorOf (reg0 : BitVec 32) : BitVec 16 := (reg0 &&& 0xFFFF#32).setWidth 16

/-- The report on a function, from its registers. -/
def reportOf (multi : Bool) (reg0 reg8 : BitVec 32) : PciReport :=
  ⟨multi, vendorOf reg0, (reg0 >>> 16).setWidth 16, (reg8 >>> 24).setWidth 8, (reg8 >>> 16).setWidth 8⟩

/-- The loop of `pci_check_device` over the other functions, with the rounds that are left. -/
def checkFunctions (bus device : BitVec 8) : Nat → BitVec 8 → PciProg Unit
  | 0, _ => pure ()
  | left + 1, function => do
    let reg0 ← configRead bus device function 0
    if vendorOf reg0 ≠ 0xFFFF then
      let reg8 ← configRead bus device function 8
      pciAct (.report (reportOf true reg0 reg8))
    checkFunctions bus device left (function + 1)

/-- `pci_check_device`. -/
def pciCheckDevice (bus device : BitVec 8) : PciProg Unit := do
  let reg0 ← configRead bus device 0 0
  if vendorOf reg0 = 0xFFFF then pure ()
  else
    let reg8 ← configRead bus device 0 8
    pciAct (.report (reportOf false reg0 reg8))
    if vendorOf reg0 = e1000VendorId ∧ (reg0 >>> 16).setWidth 16 = e1000DeviceId then
      e1000Init bus device 0
    let reg12 ← configRead bus device 0 0x0C
    if ((reg12 >>> 16).setWidth 8 &&& 0x80#8) ≠ 0 then checkFunctions bus device 7 1

/-- The inner loop of `pci_init`. -/
def checkDevices (bus : BitVec 8) : Nat → BitVec 8 → PciProg Unit
  | 0, _ => pure ()
  | left + 1, device => do
    pciCheckDevice bus device
    checkDevices bus left (device + 1)

/-- The outer loop, whose counter has 16 bits. -/
def checkBuses : Nat → BitVec 16 → PciProg Unit
  | 0, _ => pure ()
  | left + 1, bus => do
    checkDevices (bus.setWidth 8) 32 0
    checkBuses left (bus + 1)

/-- `pci_init`. -/
def pciInit : PciProg Unit := checkBuses 256 0

/-! ## The bridge -/

/-- A function of a device. -/
structure PciFunction where
  bus : BitVec 8
  slot : BitVec 5
  func : BitVec 3
  deriving DecidableEq

/-- The configuration space, in words. A function that is not there reads as all ones. -/
abbrev PciSpace := PciFunction → BitVec 6 → BitVec 32

/-- The bridge: the address it was given, the space, and what was done. A register takes from what is written
to it what it pleases. -/
structure PciBridge where
  address : BitVec 32
  space : PciSpace
  latch : PciFunction → BitVec 6 → BitVec 32 → BitVec 32 → BitVec 32
  events : List PciEvent

/-- The function an address selects. -/
def selectedFunction (address : BitVec 32) : PciFunction :=
  ⟨address.extractLsb' 16 8, address.extractLsb' 11 5, address.extractLsb' 8 3⟩

/-- The register an address selects. -/
def selectedRegister (address : BitVec 32) : BitVec 6 := address.extractLsb' 2 6

def PciSpace.set (space : PciSpace) (f : PciFunction) (r : BitVec 6) (val : BitVec 32) : PciSpace :=
  Function.update space f (Function.update (space f) r val)

namespace PciBridge

/-- The ports. The highest bit of the address enables accesses to the space. -/
def serve : Server Unit PciRequest PciAnswer PciBridge
  | _, .outl port val, b =>
    ((),
      if port = pciConfigAddress then { b with address := val }
      else if port = pciConfigData ∧ b.address.getMsbD 0 then
        let f := selectedFunction b.address
        let r := selectedRegister b.address
        { b with space := b.space.set f r (b.latch f r (b.space f r) val) }
      else b)
  | _, .inl port, b =>
    (if port = pciConfigAddress then b.address
      else if port = pciConfigData ∧ b.address.getMsbD 0 then
        b.space (selectedFunction b.address) (selectedRegister b.address)
      else 0xFFFFFFFF, b)
  | _, .act e, b => ((), { b with events := b.events ++ [e] })

end PciBridge

/-! ## What is to be found -/

/-- A function is there. -/
def PciSpace.Present (space : PciSpace) (f : PciFunction) : Prop := vendorOf (space f 0) ≠ 0xFFFF

/-- The function 0 of the same device. -/
def PciFunction.first (f : PciFunction) : PciFunction := { f with func := 0 }

/-- **The functions the walk finds**: those that are there, where the device has a function 0, which says that
it has others if there are. -/
def PciSpace.Visible (space : PciSpace) (f : PciFunction) : Prop :=
  space.Present f ∧ space.Present f.first ∧
    (f.func ≠ 0 → ((space f.first 3 >>> 16).setWidth 8 &&& 0x80#8) ≠ 0)

/-- A network card that is known, and is function 0 of its device. -/
def PciSpace.IsNic (space : PciSpace) (f : PciFunction) : Prop :=
  f.func = 0 ∧ vendorOf (space f 0) = e1000VendorId ∧ (space f 0 >>> 16).setWidth 16 = e1000DeviceId

instance (space : PciSpace) (f : PciFunction) : Decidable (space.Present f) :=
  inferInstanceAs (Decidable (_ ≠ _))

instance (space : PciSpace) (f : PciFunction) : Decidable (space.Visible f) :=
  inferInstanceAs (Decidable (_ ∧ _))

instance (space : PciSpace) (f : PciFunction) : Decidable (space.IsNic f) :=
  inferInstanceAs (Decidable (_ ∧ _))

/-- What is to be done about a function. -/
def functionEvents (space : PciSpace) (f : PciFunction) : List PciEvent :=
  if space.Visible f then
    .report (reportOf (decide (f.func ≠ 0)) (space f 0) (space f 2)) ::
      if space.IsNic f then [.mapMmio ((space f 4 &&& ~~~0xF#32).setWidth 64), .startNic] else []
  else []

/-- The functions of a device, of a bus, and all, in their order. -/
def slotFunctions (bus : BitVec 8) (slot : BitVec 5) : List PciFunction :=
  (List.range 8).map fun n => ⟨bus, slot, BitVec.ofNat 3 n⟩

def busFunctions (bus : BitVec 8) : List PciFunction :=
  (List.range 32).flatMap fun n => slotFunctions bus (BitVec.ofNat 5 n)

def allFunctions : List PciFunction := (List.range 256).flatMap fun n => busFunctions (BitVec.ofNat 8 n)

/-- The space after some cards were set up: each is told to be a bus master, and to answer in memory. -/
def setUp (latch : PciFunction → BitVec 6 → BitVec 32 → BitVec 32 → BitVec 32) (fs : List PciFunction)
    (space : PciSpace) : PciSpace := fun f r =>
  if f ∈ fs ∧ space.IsNic f ∧ r = 1 then latch f 1 (space f 1) (space f 1 ||| (1#32 <<< 2) ||| (1#32 <<< 1))
  else space f r

/-- The bridge after the walk over some functions. -/
def PciBridge.after (b : PciBridge) (address : BitVec 32) (fs : List PciFunction) : PciBridge :=
  { b with
    address := address
    space := setUp b.latch fs b.space
    events := b.events ++ fs.flatMap (functionEvents b.space) }

/-! ## One access -/

section Accesses

variable {b : PciBridge} {f : PciFunction}

/-- The code has these bytes for a function. -/
def PciFunction.Bytes (f : PciFunction) (bus slot func : BitVec 8) : Prop :=
  bus = f.bus ∧ slot = f.slot.setWidth 8 ∧ func = f.func.setWidth 8

/-- **The bridge selects what is asked for.** -/
theorem decode_configAddress {bus slot func : BitVec 8} (h : f.Bytes bus slot func) (offset : BitVec 8) :
    selectedFunction (configAddress bus slot func offset) = f ∧
      selectedRegister (configAddress bus slot func offset) = (offset >>> 2).setWidth 6 ∧
      (configAddress bus slot func offset).getMsbD 0 = true := by
  obtain ⟨bus, slot, func⟩ := f
  obtain ⟨rfl, rfl, rfl⟩ := h
  simp only [selectedFunction, selectedRegister, configAddress, PciFunction.mk.injEq]
  refine ⟨⟨?_, ?_, ?_⟩, ?_, ?_⟩
  · ext i hi
    interval_cases i <;> simp [BitVec.getLsbD_eq_getElem]
  · ext i hi
    interval_cases i <;> simp [BitVec.getLsbD_eq_getElem]
  · ext i hi
    interval_cases i <;> simp [BitVec.getLsbD_eq_getElem]
  · ext i hi
    interval_cases i <;> simp [BitVec.getLsbD_eq_getElem]
  · simp [BitVec.getMsbD]

variable {bus slot func : BitVec 8}

theorem configRead_run (h : f.Bytes bus slot func) (b : PciBridge) (offset : BitVec 8) :
    (configRead bus slot func offset).run PciBridge.serve () b =
      (b.space f ((offset >>> 2).setWidth 6), { b with address := configAddress bus slot func offset }) := by
  obtain ⟨hfunction, hregister, henabled⟩ := decode_configAddress h offset
  have hdata : pciConfigData ≠ pciConfigAddress := by decide
  simp only [configRead, Prog.request, Prog.ask_bind, Prog.done_bind, Prog.run, PciBridge.serve, if_true,
    if_neg hdata, henabled, hfunction, hregister, and_self]

theorem configWrite_run (h : f.Bytes bus slot func) (b : PciBridge) (offset : BitVec 8) (value : BitVec 32) :
    (configWrite bus slot func offset value).run PciBridge.serve () b =
      let r := (offset >>> 2).setWidth 6
      ((), { b with
        address := configAddress bus slot func offset
        space := b.space.set f r (b.latch f r (b.space f r) value) }) := by
  obtain ⟨hfunction, hregister, henabled⟩ := decode_configAddress h offset
  have hdata : pciConfigData ≠ pciConfigAddress := by decide
  simp only [configWrite, Prog.request, Prog.ask_bind, Prog.done_bind, Prog.run, PciBridge.serve, if_true,
    if_neg hdata, henabled, hfunction, hregister, and_self]

theorem pciAct_run (e : PciEvent) (b : PciBridge) :
    (pciAct e).run PciBridge.serve () b = ((), { b with events := b.events ++ [e] }) := rfl

/-- What a card is told. -/
def commanded (b : PciBridge) (f : PciFunction) : BitVec 32 :=
  b.latch f 1 (b.space f 1) (b.space f 1 ||| (1#32 <<< 2) ||| (1#32 <<< 1))

/-- A card is set up. -/
theorem e1000Init_run (h : f.Bytes bus slot func) (b : PciBridge) : ∃ a,
    (e1000Init bus slot func).run PciBridge.serve () b =
      ((), { b with
        address := a, space := b.space.set f 1 (commanded b f)
        events := b.events ++ [.mapMmio ((b.space f 4 &&& ~~~0xF#32).setWidth 64), .startNic] }) := by
  refine ⟨configAddress bus slot func 0x04, ?_⟩
  rw [e1000Init, Prog.run_bind, configRead_run h, Prog.run_bind, pciAct_run, Prog.run_bind, configRead_run h,
    Prog.run_bind, configWrite_run h, pciAct_run]
  simp only [List.append_assoc, List.singleton_append]
  rfl

end Accesses

/-! ## One device -/

section Devices

variable {b : PciBridge} {bus : BitVec 8} {slot : BitVec 5} {space space' : PciSpace} {f : PciFunction}
  {fs fs' : List PciFunction}

/-- The report on another function of a device. -/
def otherEvents (space : PciSpace) (f : PciFunction) : List PciEvent :=
  if space.Present f then [.report (reportOf true (space f 0) (space f 2))] else []

/-- The functions from a number on. -/
def functionsFrom (bus : BitVec 8) (slot : BitVec 5) (n left : Nat) : List PciFunction :=
  (List.range' n left).map fun m => ⟨bus, slot, BitVec.ofNat 3 m⟩

theorem bytes_ofNat {n : Nat} (hn : n < 8) :
    PciFunction.Bytes ⟨bus, slot, BitVec.ofNat 3 n⟩ bus (slot.setWidth 8) (BitVec.ofNat 8 n) := by
  refine ⟨rfl, rfl, ?_⟩
  apply BitVec.eq_of_toNat_eq
  simp only [BitVec.toNat_setWidth, BitVec.toNat_ofNat]
  omega

/-- The loop over the other functions. -/
theorem checkFunctions_run (b : PciBridge) (bus : BitVec 8) (slot : BitVec 5) {n left : Nat}
    (h : n + left = 8) : ∃ a,
    (checkFunctions bus (slot.setWidth 8) left (BitVec.ofNat 8 n)).run PciBridge.serve () b =
      ((), { b with
        address := a
        events := b.events ++ (functionsFrom bus slot n left).flatMap (otherEvents b.space) }) := by
  induction left generalizing n b with
  | zero => exact ⟨b.address, by simp [checkFunctions, Prog.run, functionsFrom]⟩
  | succ left ih =>
    obtain ⟨f, hf⟩ : ∃ f : PciFunction, f = ⟨bus, slot, BitVec.ofNat 3 n⟩ := ⟨_, rfl⟩
    have hbytes : f.Bytes bus (slot.setWidth 8) (BitVec.ofNat 8 n) := hf ▸ bytes_ofNat (by omega)
    have hnext : BitVec.ofNat 8 n + 1 = BitVec.ofNat 8 (n + 1) := (BitVec.ofNat_add n 1).symm
    have hfs : functionsFrom bus slot n (left + 1) = f :: functionsFrom bus slot (n + 1) left := by
      rw [hf]
      rfl
    rw [checkFunctions, Prog.run_bind, configRead_run hbytes, hnext, hfs, List.flatMap_cons]
    dsimp only
    rw [show ((0 : BitVec 8) >>> 2).setWidth 6 = (0 : BitVec 6) from rfl, otherEvents]
    by_cases hvendor : vendorOf (b.space f 0) ≠ 0xFFFF
    · rw [if_pos hvendor, if_pos (show b.space.Present f from hvendor), Prog.run_bind,
        configRead_run hbytes, Prog.run_bind, pciAct_run]
      obtain ⟨a, hrun⟩ := ih { b with
        address := configAddress bus (slot.setWidth 8) (BitVec.ofNat 8 n) 8
        events := b.events ++ [.report (reportOf true (b.space f 0) (b.space f 2))] } (n := n + 1) (by omega)
      refine ⟨a, hrun.trans ?_⟩
      simp only [List.append_assoc]
    · rw [if_neg hvendor, if_neg (show ¬ b.space.Present f from hvendor)]
      obtain ⟨a, hrun⟩ := ih { b with
        address := configAddress bus (slot.setWidth 8) (BitVec.ofNat 8 n) 0 } (n := n + 1) (by omega)
      exact ⟨a, hrun⟩

/-- What is read about a function is left by the set up of cards. -/
def SameIds (space space' : PciSpace) : Prop := ∀ f r, r ≠ 1 → space' f r = space f r

theorem set_sameIds (space : PciSpace) (f : PciFunction) (val : BitVec 32) :
    SameIds space (space.set f 1 val) := by
  intro f' r hr
  rw [PciSpace.set, Function.update_apply]
  split
  · rename_i hf
    rw [Function.update_of_ne hr, hf]
  · rfl

theorem setUp_sameIds (latch : PciFunction → BitVec 6 → BitVec 32 → BitVec 32 → BitVec 32)
    (fs : List PciFunction) (space : PciSpace) : SameIds space (setUp latch fs space) := by
  intro f r hr
  rw [setUp, if_neg fun h => hr h.2.2]

namespace SameIds

theorem present (h : SameIds space space') (f : PciFunction) : space'.Present f ↔ space.Present f := by
  rw [PciSpace.Present, PciSpace.Present, h f 0 (by decide)]

theorem isNic (h : SameIds space space') (f : PciFunction) : space'.IsNic f ↔ space.IsNic f := by
  rw [PciSpace.IsNic, PciSpace.IsNic, h f 0 (by decide)]

theorem otherEvents (h : SameIds space space') (f : PciFunction) :
    ZohoOs.otherEvents space' f = ZohoOs.otherEvents space f := by
  simp only [ZohoOs.otherEvents, h.present f, h f 0 (by decide), h f 2 (by decide)]

theorem visible (h : SameIds space space') (f : PciFunction) : space'.Visible f ↔ space.Visible f := by
  rw [PciSpace.Visible, PciSpace.Visible, h.present, h.present, h f.first 3 (by decide)]

theorem functionEvents (h : SameIds space space') (f : PciFunction) :
    ZohoOs.functionEvents space' f = ZohoOs.functionEvents space f := by
  simp only [ZohoOs.functionEvents, h.visible f, h.isNic f, h f 0 (by decide), h f 2 (by decide),
    h f 4 (by decide)]

end SameIds

/-- A card is there. -/
theorem PciSpace.IsNic.present (h : space.IsNic f) : space.Present f := by
  rw [PciSpace.Present, h.2.1]
  decide

theorem mem_slotFunctions : f ∈ slotFunctions bus slot ↔ f.bus = bus ∧ f.slot = slot := by
  rw [slotFunctions, List.mem_map]
  constructor
  · rintro ⟨n, -, rfl⟩
    exact ⟨rfl, rfl⟩
  · rintro ⟨rfl, rfl⟩
    exact ⟨f.func.toNat, List.mem_range.mpr f.func.isLt, by rw [BitVec.ofNat_toNat, BitVec.setWidth_eq]⟩

/-- The set up of the card of a device, if it has one. -/
theorem setUp_slotFunctions (latch : PciFunction → BitVec 6 → BitVec 32 → BitVec 32 → BitVec 32)
    (space : PciSpace) : setUp latch (slotFunctions bus slot) space =
      if space.IsNic ⟨bus, slot, 0⟩ then
        space.set ⟨bus, slot, 0⟩ 1 (latch ⟨bus, slot, 0⟩ 1 (space ⟨bus, slot, 0⟩ 1)
          (space ⟨bus, slot, 0⟩ 1 ||| (1#32 <<< 2) ||| (1#32 <<< 1)))
      else space := by
  funext f r
  have hfirst : f ∈ slotFunctions bus slot ∧ space.IsNic f ↔
      f = ⟨bus, slot, 0⟩ ∧ space.IsNic ⟨bus, slot, 0⟩ := by
    rw [mem_slotFunctions]
    constructor
    · rintro ⟨⟨rfl, rfl⟩, hnic⟩
      obtain ⟨bus, slot, func⟩ := f
      obtain rfl : func = 0 := hnic.1
      exact ⟨rfl, hnic⟩
    · rintro ⟨rfl, hnic⟩
      exact ⟨⟨rfl, rfl⟩, hnic⟩
  rw [setUp]
  simp only [← and_assoc, hfirst]
  by_cases hnic : space.IsNic ⟨bus, slot, 0⟩
  · rw [if_pos hnic, PciSpace.set, Function.update_apply]
    by_cases hf : f = ⟨bus, slot, 0⟩
    · subst hf
      rw [if_pos rfl]
      by_cases hr : r = 1
      · rw [if_pos ⟨⟨rfl, hnic⟩, hr⟩, hr, Function.update_self]
      · rw [if_neg fun h => hr h.2, Function.update_of_ne hr]
    · rw [if_neg hf, if_neg fun h => hf h.1.1]
  · rw [if_neg hnic, if_neg fun h => hnic h.1.2]

/-- What is to be done about a device. -/
theorem functionEvents_slot (space : PciSpace) : (slotFunctions bus slot).flatMap (functionEvents space) =
    if space.Present ⟨bus, slot, 0⟩ then
      .report (reportOf false (space ⟨bus, slot, 0⟩ 0) (space ⟨bus, slot, 0⟩ 2)) ::
        ((if space.IsNic ⟨bus, slot, 0⟩ then
          [.mapMmio ((space ⟨bus, slot, 0⟩ 4 &&& ~~~0xF#32).setWidth 64), .startNic] else []) ++
        if ((space ⟨bus, slot, 0⟩ 3 >>> 16).setWidth 8 &&& 0x80#8) ≠ 0 then
          (functionsFrom bus slot 1 7).flatMap (otherEvents space) else [])
    else [] := by
  have hsplit : slotFunctions bus slot = ⟨bus, slot, 0⟩ :: functionsFrom bus slot 1 7 := rfl
  -- the other functions are found as far as function 0 lets them
  have hothers : ∀ f ∈ functionsFrom bus slot 1 7, functionEvents space f =
      if space.Present ⟨bus, slot, 0⟩ ∧ ((space ⟨bus, slot, 0⟩ 3 >>> 16).setWidth 8 &&& 0x80#8) ≠ 0 then
        otherEvents space f else [] := by
    intro f hf
    obtain ⟨n, hn, rfl⟩ := List.mem_map.mp hf
    have hne : (BitVec.ofNat 3 n : BitVec 3) ≠ 0 := by
      rw [List.mem_range'_1] at hn
      intro hzero
      have hval := congrArg BitVec.toNat hzero
      simp at hval
      omega
    have hnic : ¬ space.IsNic ⟨bus, slot, BitVec.ofNat 3 n⟩ := fun h => hne h.1
    simp only [functionEvents, PciSpace.Visible, PciFunction.first, otherEvents, if_neg hnic, hne, ne_eq,
      not_false_eq_true, decide_true, true_imp_iff]
    split
    · rename_i hall
      rw [if_pos hall.2, if_pos hall.1]
    · rename_i hall
      split
      · rename_i hdevice
        rw [if_neg fun h => hall ⟨h, hdevice⟩]
      · rfl
  have hfirst : functionEvents space ⟨bus, slot, 0⟩ = if space.Present ⟨bus, slot, 0⟩ then
      .report (reportOf false (space ⟨bus, slot, 0⟩ 0) (space ⟨bus, slot, 0⟩ 2)) ::
        (if space.IsNic ⟨bus, slot, 0⟩ then
          [.mapMmio ((space ⟨bus, slot, 0⟩ 4 &&& ~~~0xF#32).setWidth 64), .startNic] else []) else [] := by
    simp [functionEvents, PciSpace.Visible, PciFunction.first]
  rw [hsplit, List.flatMap_cons, List.flatMap_congr hothers, hfirst]
  by_cases hpresent : space.Present ⟨bus, slot, 0⟩
  · rw [if_pos hpresent, if_pos hpresent, List.cons_append]
    refine congrArg (List.cons _) (congrArg₂ (· ++ ·) rfl ?_)
    by_cases hmulti : ((space ⟨bus, slot, 0⟩ 3 >>> 16).setWidth 8 &&& 0x80#8) ≠ 0
    · rw [if_pos hmulti]
      exact List.flatMap_congr fun f _ => if_pos ⟨hpresent, hmulti⟩
    · rw [if_neg hmulti]
      exact List.flatMap_eq_nil_iff.mpr fun f _ => if_neg fun h => hmulti h.2
  · rw [if_neg hpresent, if_neg hpresent, List.nil_append]
    exact List.flatMap_eq_nil_iff.mpr fun f _ => if_neg fun h => hpresent h.1

/-- **One device**: what is to be done about its functions is done. -/
theorem checkDevice_run (b : PciBridge) (bus : BitVec 8) (slot : BitVec 5) : ∃ a,
    (pciCheckDevice bus (slot.setWidth 8)).run PciBridge.serve () b =
      ((), b.after a (slotFunctions bus slot)) := by
  obtain ⟨f, hf⟩ : ∃ f : PciFunction, f = ⟨bus, slot, 0⟩ := ⟨_, rfl⟩
  have hbytes : f.Bytes bus (slot.setWidth 8) 0 := by
    rw [hf]
    exact ⟨rfl, rfl, rfl⟩
  -- the end of the function, from any state of the bridge
  have hrest : ∀ b : PciBridge, ∃ a, (do
      let reg12 ← configRead bus (slot.setWidth 8) 0 0x0C
      if ((reg12 >>> 16).setWidth 8 &&& 0x80#8) ≠ 0 then checkFunctions bus (slot.setWidth 8) 7 1
      else pure ()).run PciBridge.serve () b = ((), { b with
        address := a
        events := b.events ++ if ((b.space f 3 >>> 16).setWidth 8 &&& 0x80#8) ≠ 0 then
          (functionsFrom bus slot 1 7).flatMap (otherEvents b.space) else [] }) := by
    intro b
    rw [Prog.run_bind, configRead_run hbytes]
    dsimp only
    rw [show ((0x0C : BitVec 8) >>> 2).setWidth 6 = (3 : BitVec 6) from rfl]
    split
    · obtain ⟨a, hrun⟩ := checkFunctions_run { b with
        address := configAddress bus (slot.setWidth 8) 0 0x0C } bus slot (show 1 + 7 = 8 from rfl)
      exact ⟨a, hrun⟩
    · exact ⟨_, by rw [List.append_nil]; rfl⟩
  rw [pciCheckDevice, Prog.run_bind, configRead_run hbytes]
  dsimp only
  rw [show ((0 : BitVec 8) >>> 2).setWidth 6 = (0 : BitVec 6) from rfl]
  simp only [PciBridge.after, functionEvents_slot, setUp_slotFunctions, ← hf]
  by_cases hvendor : vendorOf (b.space f 0) = 0xFFFF
  · have hpresent : ¬ b.space.Present f := fun h => h hvendor
    have hnic : ¬ b.space.IsNic f := fun h => hpresent h.present
    rw [if_pos hvendor, if_neg hpresent, if_neg hnic, List.append_nil]
    exact ⟨_, rfl⟩
  rw [if_neg hvendor, if_pos (show b.space.Present f from hvendor), Prog.run_bind, configRead_run hbytes,
    Prog.run_bind, pciAct_run]
  dsimp only
  rw [show ((8 : BitVec 8) >>> 2).setWidth 6 = (2 : BitVec 6) from rfl]
  by_cases hnic : b.space.IsNic f
  · rw [if_pos hnic, if_pos hnic, if_pos hnic.2, Prog.run_bind]
    obtain ⟨a₁, hinit⟩ := e1000Init_run hbytes { b with
      address := configAddress bus (slot.setWidth 8) 0 8
      events := b.events ++ [.report (reportOf false (b.space f 0) (b.space f 2))] }
    rw [hinit]
    obtain ⟨a, hrun⟩ := hrest { b with
      address := a₁, space := b.space.set f 1 (commanded b f)
      events := b.events ++ [.report (reportOf false (b.space f 0) (b.space f 2))] ++
        [.mapMmio ((b.space f 4 &&& ~~~0xF#32).setWidth 64), .startNic] }
    have hsame := set_sameIds b.space f (commanded b f)
    have hothers : otherEvents (b.space.set f 1 (commanded b f)) = otherEvents b.space :=
      funext hsame.otherEvents
    refine ⟨a, hrun.trans ?_⟩
    simp only [hsame f 3 (by decide), hothers, List.append_assoc, List.singleton_append]
    rfl
  · have hother : ¬ (vendorOf (b.space f 0) = e1000VendorId ∧
        (b.space f 0 >>> 16).setWidth 16 = e1000DeviceId) := fun h => hnic ⟨by rw [hf], h⟩
    rw [if_neg hnic, if_neg hnic, if_neg hother]
    obtain ⟨a, hrun⟩ := hrest { b with
      address := configAddress bus (slot.setWidth 8) 0 8
      events := b.events ++ [.report (reportOf false (b.space f 0) (b.space f 2))] }
    refine ⟨a, hrun.trans ?_⟩
    simp only [List.append_assoc, List.singleton_append, List.nil_append]

end Devices

/-! ## The walk -/

section Walk

variable {b : PciBridge} {fs fs' : List PciFunction}

/-- Two parts of the walk, over different functions. -/
theorem PciBridge.after_after {a a' : BitVec 32} (hdisjoint : ∀ f ∈ fs, f ∉ fs') :
    (b.after a fs).after a' fs' = b.after a' (fs ++ fs') := by
  have hsame := setUp_sameIds b.latch fs b.space
  have hspace : setUp b.latch fs' (setUp b.latch fs b.space) = setUp b.latch (fs ++ fs') b.space := by
    funext f r
    rw [setUp]
    simp only [hsame.isNic f]
    by_cases hlater : f ∈ fs' ∧ b.space.IsNic f ∧ r = 1
    · obtain ⟨hmem, hnic, rfl⟩ := hlater
      have hearlier : f ∉ fs := fun h => hdisjoint f h hmem
      have hold : setUp b.latch fs b.space f 1 = b.space f 1 := if_neg fun h => hearlier h.1
      rw [if_pos ⟨hmem, hnic, rfl⟩, hold, setUp, if_pos ⟨List.mem_append_right _ hmem, hnic, rfl⟩]
    · rw [if_neg hlater, setUp, setUp]
      simp only [List.mem_append, or_and_right, hlater, or_false]
  have hevents : functionEvents (setUp b.latch fs b.space) = functionEvents b.space :=
    funext hsame.functionEvents
  simp only [PciBridge.after, hspace, hevents, List.flatMap_append, List.append_assoc]

theorem PciBridge.after_nil (b : PciBridge) : b.after b.address [] = b := by
  obtain ⟨address, space, latch, events⟩ := b
  have hspace : setUp latch [] space = space := by
    funext f r
    rw [setUp, if_neg fun h => List.not_mem_nil h.1]
  simp only [PciBridge.after, hspace, List.flatMap_nil, List.append_nil]

theorem ofNat_inj {w m n : Nat} (hm : m < 2 ^ w) (hn : n < 2 ^ w) (h : BitVec.ofNat w m = BitVec.ofNat w n) :
    m = n := by
  have hval := congrArg BitVec.toNat h
  rwa [BitVec.toNat_ofNat, BitVec.toNat_ofNat, Nat.mod_eq_of_lt hm, Nat.mod_eq_of_lt hn] at hval

theorem bus_of_mem {f : PciFunction} {bus : BitVec 8} (h : f ∈ busFunctions bus) : f.bus = bus := by
  obtain ⟨m, -, hmem⟩ := List.mem_flatMap.mp h
  exact (mem_slotFunctions.mp hmem).1

/-- The devices of a bus, from one on. -/
theorem checkDevices_run (b : PciBridge) (bus : BitVec 8) {n left : Nat} (h : n + left = 32) : ∃ a,
    (checkDevices bus left (BitVec.ofNat 8 n)).run PciBridge.serve () b =
      ((), b.after a ((List.range' n left).flatMap fun m => slotFunctions bus (BitVec.ofNat 5 m))) := by
  induction left generalizing n b with
  | zero => exact ⟨b.address, congrArg (Prod.mk ()) b.after_nil.symm⟩
  | succ left ih =>
    have hslot : BitVec.ofNat 8 n = (BitVec.ofNat 5 n).setWidth 8 := by
      apply BitVec.eq_of_toNat_eq
      simp only [BitVec.toNat_setWidth, BitVec.toNat_ofNat]
      omega
    have hnext : BitVec.ofNat 8 n + 1 = BitVec.ofNat 8 (n + 1) := (BitVec.ofNat_add n 1).symm
    obtain ⟨a, hdevice⟩ := checkDevice_run b bus (BitVec.ofNat 5 n)
    obtain ⟨a', hrest⟩ := ih (b.after a (slotFunctions bus (BitVec.ofNat 5 n))) (n := n + 1) (by omega)
    refine ⟨a', ?_⟩
    rw [checkDevices, Prog.run_bind, hnext, hslot, hdevice]
    refine hrest.trans (congrArg (Prod.mk ()) ((PciBridge.after_after ?_).trans ?_))
    · intro f hf hlater
      obtain ⟨m, hm, hmem⟩ := List.mem_flatMap.mp hlater
      rw [List.mem_range'_1] at hm
      have hsame := ofNat_inj (by omega) (by omega)
        ((mem_slotFunctions.mp hf).2.symm.trans (mem_slotFunctions.mp hmem).2)
      omega
    · rw [List.range'_succ, List.flatMap_cons]

/-- The buses, from one on. -/
theorem checkBuses_run (b : PciBridge) {n left : Nat} (h : n + left = 256) : ∃ a,
    (checkBuses left (BitVec.ofNat 16 n)).run PciBridge.serve () b =
      ((), b.after a ((List.range' n left).flatMap fun m => busFunctions (BitVec.ofNat 8 m))) := by
  induction left generalizing n b with
  | zero => exact ⟨b.address, congrArg (Prod.mk ()) b.after_nil.symm⟩
  | succ left ih =>
    have hbus : (BitVec.ofNat 16 n).setWidth 8 = BitVec.ofNat 8 n := by
      apply BitVec.eq_of_toNat_eq
      simp only [BitVec.toNat_setWidth, BitVec.toNat_ofNat]
      omega
    have hnext : BitVec.ofNat 16 n + 1 = BitVec.ofNat 16 (n + 1) := (BitVec.ofNat_add n 1).symm
    obtain ⟨a, hdevices⟩ := checkDevices_run b (BitVec.ofNat 8 n) (show 0 + 32 = 32 from rfl)
    obtain ⟨a', hrest⟩ := ih (b.after a (busFunctions (BitVec.ofNat 8 n))) (n := n + 1) (by omega)
    refine ⟨a', ?_⟩
    have hall : (List.range' 0 32).flatMap (fun m => slotFunctions (BitVec.ofNat 8 n) (BitVec.ofNat 5 m)) =
        busFunctions (BitVec.ofNat 8 n) := by
      rw [busFunctions, List.range_eq_range']
    rw [hall] at hdevices
    rw [checkBuses, Prog.run_bind, hnext, hbus, show (0 : BitVec 8) = BitVec.ofNat 8 0 from rfl, hdevices]
    refine hrest.trans (congrArg (Prod.mk ()) ((PciBridge.after_after ?_).trans ?_))
    · intro f hf hlater
      obtain ⟨m, hm, hmem⟩ := List.mem_flatMap.mp hlater
      rw [List.mem_range'_1] at hm
      have hsame := ofNat_inj (by omega) (by omega) ((bus_of_mem hf).symm.trans (bus_of_mem hmem))
      omega
    · rw [List.range'_succ, List.flatMap_cons]

/-- Every function is among those that are walked over. -/
theorem mem_allFunctions (f : PciFunction) : f ∈ allFunctions := by
  refine List.mem_flatMap.mpr ⟨f.bus.toNat, List.mem_range.mpr f.bus.isLt, ?_⟩
  refine List.mem_flatMap.mpr ⟨f.slot.toNat, List.mem_range.mpr f.slot.isLt, ?_⟩
  rw [BitVec.ofNat_toNat, BitVec.ofNat_toNat, BitVec.setWidth_eq, BitVec.setWidth_eq]
  exact mem_slotFunctions.mpr ⟨rfl, rfl⟩

/-- Each of them is walked over once. -/
theorem allFunctions_nodup : allFunctions.Nodup := by
  refine List.nodup_flatMap.mpr ⟨fun bus _ => List.nodup_flatMap.mpr ⟨fun slot _ => ?_, ?_⟩, ?_⟩
  · refine List.Nodup.map_on (fun m hm n hn h => ?_) List.nodup_range
    exact ofNat_inj (List.mem_range.mp hm) (List.mem_range.mp hn) (congrArg PciFunction.func h)
  · refine List.Nodup.pairwise_of_forall_ne List.nodup_range fun m hm n hn hne f hf hf' => hne ?_
    exact ofNat_inj (List.mem_range.mp hm) (List.mem_range.mp hn)
      ((mem_slotFunctions.mp hf).2.symm.trans (mem_slotFunctions.mp hf').2)
  · refine List.Nodup.pairwise_of_forall_ne List.nodup_range fun m hm n hn hne f hf hf' => hne ?_
    exact ofNat_inj (List.mem_range.mp hm) (List.mem_range.mp hn)
      ((bus_of_mem hf).symm.trans (bus_of_mem hf'))

/-- **The walk finds** each visible function once, in the order of their numbers, sets up the cards it knows
when it comes to them, and changes nothing else in the space. -/
theorem pciInit_finds (b : PciBridge) :
    let out := (pciInit.run PciBridge.serve () b).2
    (∀ f, allFunctions.count f = 1) ∧
      out.events = b.events ++ allFunctions.flatMap (functionEvents b.space) ∧
      ∀ f r, out.space f r =
        if b.space.IsNic f ∧ r = 1 then
          b.latch f 1 (b.space f 1) (b.space f 1 ||| (1#32 <<< 2) ||| (1#32 <<< 1))
        else b.space f r := by
  obtain ⟨a, hrun⟩ := checkBuses_run b (show 0 + 256 = 256 from rfl)
  have hall : (List.range' 0 256).flatMap (fun m => busFunctions (BitVec.ofNat 8 m)) = allFunctions := by
    rw [allFunctions, List.range_eq_range']
  rw [hall] at hrun
  have hpci : pciInit.run PciBridge.serve () b = ((), b.after a allFunctions) := hrun
  intro out
  have hout : out = b.after a allFunctions := congrArg Prod.snd hpci
  rw [hout]
  refine ⟨fun f => List.count_eq_one_of_mem allFunctions_nodup (mem_allFunctions f), rfl, fun f r => ?_⟩
  simp only [PciBridge.after, setUp, mem_allFunctions, true_and]

end Walk

end ZohoOs
