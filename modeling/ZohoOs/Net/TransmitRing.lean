import ZohoOs.Lib.TransitionSystem
import ZohoOs.Net.Echo

/-!
# The transmit ring

`e1000_send_packet` fills the descriptor at the tail, moves the tail behind it, and polls the descriptor's
status until the device is done with it. The device works on the ring at the same time: it takes the
descriptors from the head up to the tail, in three steps each, between any two steps of the driver.

Whatever the order of the steps, the device reads no descriptor that the driver is filling, and the driver
returns no sooner than its frame is on the wire.

## Main definitions

* `TxDesc`, `TxStore`: the descriptors, and the stores of the driver
* `TxMachine`, `TxStep`: driver and device, and the steps of either
* `TxMachine.work`: the steps that are left, but for polls

## Main results

* `TxInv.step`: what a step keeps
* `txRun_inOrder`: the frames on the wire, and what is left to be done, in any run
-/

namespace ZohoOs

open TransitionSystem

/-- `NUM_TX_DESCS`. -/
abbrev numTxDescs : Nat := 128

/-- `e1000_tx_desc_t`, with the bytes at its address. -/
structure TxDesc where
  length : BitVec 16
  cmd : Byte
  status : Byte
  buffer : Buffer

/-- A store to a descriptor or to its buffer. -/
inductive TxStore
  | length (len : BitVec 16)
  | status (val : Byte)
  | cmd (val : Byte)
  | byte (i : Nat) (val : Byte)

def TxDesc.store (d : TxDesc) : TxStore → TxDesc
  | .length len => { d with length := len }
  | .status val => { d with status := val }
  | .cmd val => { d with cmd := val }
  | .byte i val => { d with buffer := Function.update d.buffer i val }

/-- The copy of a frame to the buffer, from a byte on. -/
def copyStores : Nat → List Byte → List TxStore
  | _, [] => []
  | i, b :: data => .byte i b :: copyStores (i + 1) data

/-- `EOP`, the end of a packet. -/
def cmdEop : Byte := 0x01

/-- `RS`, to report the status. -/
def cmdRs : Byte := 0x08

/-- `TSTA_DD`. -/
def statusDd : Byte := 0x01

/-- What `e1000_send_packet` stores before it moves the tail. -/
def sendStores (data : List Byte) : List TxStore :=
  [.length (BitVec.ofNat 16 data.length), .status 0, .cmd (cmdRs ||| cmdEop)] ++ copyStores 0 data

/-! ## Driver and device -/

/-- Where the driver is: between two calls; filling the descriptor, with the stores that are left; or polling
the one it has filled. -/
inductive SendPhase
  | ready
  | fills (data : List Byte) (todo : List TxStore)
  | waits (data : List Byte) (oldTail : Fin numTxDescs)

/-- What the device has done with the descriptor at the head. -/
inductive TxDevice
  | idle
  | fetched (length : BitVec 16) (cmd : Byte)
  | read (cmd : Byte)

structure TxMachine where
  descs : Fin numTxDescs → TxDesc
  txTail : Fin numTxDescs
  tdh : Fin numTxDescs
  tdt : Fin numTxDescs
  phase : SendPhase
  /-- The frames of the calls to come. -/
  calls : List (List Byte)
  returned : Nat
  device : TxDevice
  /-- The bytes of a packet that has not come to its end. -/
  pending : List Byte
  wire : List (List Byte)

inductive TxLabel
  | call
  | store
  | notify
  | poll
  | done
  | fetch
  | read
  | writeBack
  deriving DecidableEq

inductive TxStep : TxMachine → TxLabel → TxMachine → Prop
  | call {s : TxMachine} {data : List Byte} {calls : List (List Byte)} :
      s.phase = .ready → s.calls = data :: calls →
      TxStep s .call { s with phase := .fills data (sendStores data), calls := calls }
  | store {s : TxMachine} {data : List Byte} {st : TxStore} {todo : List TxStore} :
      s.phase = .fills data (st :: todo) →
      TxStep s .store
        { s with
          descs := Function.update s.descs s.txTail ((s.descs s.txTail).store st)
          phase := .fills data todo }
  /-- The tail moves, and the register with it. -/
  | notify {s : TxMachine} {data : List Byte} : s.phase = .fills data [] →
      TxStep s .notify
        { s with txTail := s.txTail + 1, tdt := s.txTail + 1, phase := .waits data s.txTail }
  | poll {s : TxMachine} {data : List Byte} {oldTail : Fin numTxDescs} :
      s.phase = .waits data oldTail → (s.descs oldTail).status &&& 0xF#8 = 0 → TxStep s .poll s
  | done {s : TxMachine} {data : List Byte} {oldTail : Fin numTxDescs} :
      s.phase = .waits data oldTail → (s.descs oldTail).status &&& 0xF#8 ≠ 0 →
      TxStep s .done { s with phase := .ready, returned := s.returned + 1 }
  /-- The device has a descriptor between head and tail. -/
  | fetch {s : TxMachine} : s.device = .idle → s.tdh ≠ s.tdt →
      TxStep s .fetch { s with device := .fetched (s.descs s.tdh).length (s.descs s.tdh).cmd }
  /-- It reads the buffer, and sends the packet if it has come to its end. -/
  | read {s : TxMachine} {len : BitVec 16} {cmd : Byte} : s.device = .fetched len cmd →
      TxStep s .read
        (let bytes := s.pending ++ readBytes (s.descs s.tdh).buffer 0 len.toNat
        if cmd &&& cmdEop ≠ 0 then { s with device := .read cmd, wire := s.wire ++ [bytes], pending := [] }
        else { s with device := .read cmd, pending := bytes })
  /-- It reports, if it is to, and goes on to the next descriptor. -/
  | writeBack {s : TxMachine} {cmd : Byte} : s.device = .read cmd →
      TxStep s .writeBack
        { s with
          descs := if cmd &&& cmdRs ≠ 0 then
            Function.update s.descs s.tdh
              { s.descs s.tdh with status := (s.descs s.tdh).status ||| statusDd }
            else s.descs
          tdh := s.tdh + 1
          device := .idle }

/-- The ring as `e1000_init` leaves it, and the frames that are going to be sent. -/
def bootTx (descs : Fin numTxDescs → TxDesc) (frames : List (List Byte)) : TxMachine where
  descs := descs
  txTail := 0
  tdh := 0
  tdt := 0
  phase := .ready
  calls := frames
  returned := 0
  device := .idle
  pending := []
  wire := []

/-- The steps a frame takes: the call, its stores, the tail, three of the device, and the return. -/
def sendCost (data : List Byte) : Nat := data.length + 9

/-- The steps that are left, but for polls. -/
def TxMachine.work (s : TxMachine) : Nat :=
  (s.calls.map sendCost).sum +
    match s.phase, s.device with
    | .ready, _ => 0
    | .fills _ todo, _ => todo.length + 5
    | .waits .., .fetched .. => 3
    | .waits .., .read _ => 2
    | .waits .., .idle => if s.tdh = s.tdt then 1 else 4

/-! ## A descriptor -/

section Descriptors

variable {d : TxDesc} {data rest : List Byte} {n : Nat}

/-- The descriptor tells the device to send a frame. -/
structure TxDesc.Carries (d : TxDesc) (data : List Byte) : Prop where
  length : d.length = BitVec.ofNat 16 data.length
  cmd : d.cmd = cmdRs ||| cmdEop
  buffer : ∀ i (hi : i < data.length), d.buffer i = data[i]

theorem copyStores_length (i : Nat) (data : List Byte) : (copyStores i data).length = data.length := by
  induction data generalizing i with
  | nil => rfl
  | cons b data ih => rw [copyStores, List.length_cons, List.length_cons, ih]

theorem sendStores_length (data : List Byte) : (sendStores data).length = data.length + 3 := by
  rw [sendStores, List.length_append, copyStores_length, Nat.add_comm]
  rfl

/-- The copy leaves the fields of the descriptor alone, and the bytes in front. -/
theorem copyStores_spec (i : Nat) (data : List Byte) (d : TxDesc) :
    ((copyStores i data).foldl TxDesc.store d).length = d.length ∧
    ((copyStores i data).foldl TxDesc.store d).cmd = d.cmd ∧
    ((copyStores i data).foldl TxDesc.store d).status = d.status ∧
    (∀ k, k < i → ((copyStores i data).foldl TxDesc.store d).buffer k = d.buffer k) ∧
    ∀ k (hk : k < data.length), ((copyStores i data).foldl TxDesc.store d).buffer (i + k) = data[k] := by
  induction data generalizing i d with
  | nil => exact ⟨rfl, rfl, rfl, fun _ _ => rfl, fun k hk => absurd hk (Nat.not_lt_zero k)⟩
  | cons b data ih =>
    obtain ⟨hlength, hcmd, hstatus, hfront, hdata⟩ := ih (i + 1) (d.store (.byte i b))
    refine ⟨hlength, hcmd, hstatus, fun k hk => ?_, fun k hk => ?_⟩
    · exact (hfront k (by omega)).trans (Function.update_of_ne (by omega) ..)
    · cases k with
      | zero => exact (hfront i (by omega)).trans (Function.update_self ..)
      | succ k =>
        have hk' : k < data.length := by simpa using hk
        rw [← Nat.add_assoc, Nat.add_right_comm]
        exact hdata k hk'

/-- **The stores of a call** make a descriptor for its frame, with a status that says nothing yet. -/
theorem sendStores_spec (data : List Byte) (d : TxDesc) :
    ((sendStores data).foldl TxDesc.store d).Carries data ∧
      ((sendStores data).foldl TxDesc.store d).status = 0 := by
  obtain ⟨hlength, hcmd, hstatus, -, hdata⟩ := copyStores_spec 0 data
    { d with length := BitVec.ofNat 16 data.length, status := 0, cmd := cmdRs ||| cmdEop }
  exact ⟨⟨hlength, hcmd, fun i hi => (congrArg _ (Nat.zero_add i)).symm.trans (hdata i hi)⟩, hstatus⟩

theorem TxDesc.Carries.bytes (h : d.Carries data) (hfits : data.length ≤ 2048) :
    readBytes d.buffer 0 d.length.toNat = data := by
  have hlength : d.length.toNat = data.length := by
    rw [h.length, BitVec.toNat_ofNat]
    omega
  refine List.ext_getElem (by rw [readBytes_length, hlength]) fun i h₁ h₂ => ?_
  rw [← h.buffer i h₂]
  simp [readBytes]

end Descriptors

/-! ## Runs -/

section Runs

variable {frames : List (List Byte)} {s s' : TxMachine} {l : TxLabel}

/-- The device is done with all descriptors, and the driver with its frames but for these. -/
structure TxMachine.Quiet (s : TxMachine) (frames rest : List (List Byte)) : Prop where
  tdh : s.tdh = s.txTail
  tdt : s.tdt = s.txTail
  device : s.device = .idle
  wire : s.wire = frames.take s.returned
  rest : frames.drop s.returned = rest

/-- Where the device is with the descriptor of a frame. -/
def TxMachine.Handles (s : TxMachine) (frames : List (List Byte)) (data : List Byte)
    (oldTail : Fin numTxDescs) : Prop :=
  match s.device with
  | .idle => s.tdh = oldTail ∧ (s.descs oldTail).status = 0 ∧ s.wire = frames.take s.returned ∨
      s.tdh = s.tdt ∧ (s.descs oldTail).status &&& 0xF#8 ≠ 0 ∧ s.wire = frames.take (s.returned + 1)
  | .fetched len cmd => s.tdh = oldTail ∧ (s.descs oldTail).status = 0 ∧ s.wire = frames.take s.returned ∧
      len = BitVec.ofNat 16 data.length ∧ cmd = cmdRs ||| cmdEop
  | .read cmd => s.tdh = oldTail ∧ (s.descs oldTail).status = 0 ∧ s.wire = frames.take (s.returned + 1) ∧
      cmd = cmdRs ||| cmdEop

/-- **What holds between any two steps.** -/
structure TxInv (frames : List (List Byte)) (s : TxMachine) : Prop where
  pending : s.pending = []
  phase : match s.phase with
    | .ready => s.Quiet frames s.calls
    | .fills data todo => s.Quiet frames (data :: s.calls) ∧
        (todo.foldl TxDesc.store (s.descs s.txTail)).Carries data ∧
        (todo.foldl TxDesc.store (s.descs s.txTail)).status = 0
    | .waits data oldTail => s.tdt = oldTail + 1 ∧ s.txTail = oldTail + 1 ∧
        frames.drop s.returned = data :: s.calls ∧ (s.descs oldTail).Carries data ∧
        s.Handles frames data oldTail

theorem bootTx_inv (descs : Fin numTxDescs → TxDesc) (frames : List (List Byte)) :
    TxInv frames (bootTx descs frames) :=
  ⟨rfl, rfl, rfl, rfl, rfl, rfl⟩

theorem succ_ne (i : Fin numTxDescs) : i ≠ i + 1 := by
  intro h
  have hval := congrArg Fin.val h
  rw [Fin.val_add] at hval
  simp only [numTxDescs, Fin.val_one] at hval
  omega

theorem take_returned {rest : List (List Byte)} {n : Nat} {data : List Byte}
    (h : frames.drop n = data :: rest) : frames.take (n + 1) = frames.take n ++ [data] ∧
      frames.drop (n + 1) = rest ∧ data ∈ frames := by
  have hget : frames[n]? = some data := by
    rw [← List.head?_drop, h]
    rfl
  refine ⟨?_, ?_, List.mem_of_getElem? hget⟩
  · rw [List.take_add_one, hget]
    rfl
  · rw [← List.tail_drop, h]
    rfl

/-- The step of the device that takes a descriptor is for the frame the driver waits with. -/
theorem TxInv.waits (h : TxInv frames s) (hdevice : s.device ≠ .idle ∨ s.tdh ≠ s.tdt) :
    ∃ data oldTail, s.phase = .waits data oldTail := by
  have hphase := h.phase
  cases hp : s.phase with
  | waits data oldTail => exact ⟨data, oldTail, rfl⟩
  | ready =>
    rw [hp] at hphase
    exact (hdevice.elim (· hphase.device) (· (hphase.tdh.trans hphase.tdt.symm))).elim
  | fills data todo =>
    rw [hp] at hphase
    exact (hdevice.elim (· hphase.1.device) (· (hphase.1.tdh.trans hphase.1.tdt.symm))).elim

/-- **A step keeps the ring in order**, and is one less to be done, unless it is a poll. -/
theorem TxInv.step (hfits : ∀ data ∈ frames, data.length ≤ 2048) (h : TxInv frames s)
    (hstep : TxStep s l s') : TxInv frames s' ∧ s'.work + (if l = .poll then 0 else 1) = s.work := by
  have hpending := h.pending
  have hphase := h.phase
  cases hstep with
  | @call data calls hready hcalls =>
    rw [hready] at hphase
    obtain ⟨hcarries, hstatus⟩ := sendStores_spec data (s.descs s.txTail)
    refine ⟨⟨hpending, ⟨hphase.tdh, hphase.tdt, hphase.device, hphase.wire, ?_⟩, hcarries, hstatus⟩, ?_⟩
    · exact hphase.rest.trans hcalls
    · simp only [TxMachine.work, hready, hcalls, List.map_cons, List.sum_cons, sendStores_length, sendCost]
      simp
      omega
  | @store data st todo hfills =>
    rw [hfills] at hphase
    obtain ⟨hquiet, hcarries, hstatus⟩ := hphase
    refine ⟨⟨hpending, ⟨hquiet.tdh, hquiet.tdt, hquiet.device, hquiet.wire, hquiet.rest⟩, ?_, ?_⟩, ?_⟩
    · dsimp only
      rw [Function.update_self]
      exact hcarries
    · dsimp only
      rw [Function.update_self]
      exact hstatus
    · simp only [TxMachine.work, hfills, List.length_cons]
      simp
      omega
  | @notify data hfills =>
    rw [hfills] at hphase
    obtain ⟨hquiet, hcarries, hstatus⟩ := hphase
    refine ⟨⟨hpending, rfl, rfl, hquiet.rest, hcarries, ?_⟩, ?_⟩
    · simp only [TxMachine.Handles, hquiet.device]
      exact Or.inl ⟨hquiet.tdh, hstatus, hquiet.wire⟩
    · simp only [TxMachine.work, hfills, hquiet.device, hquiet.tdh]
      rw [if_neg (succ_ne s.txTail)]
      simp
  | poll => exact ⟨h, rfl⟩
  | @done data oldTail hwaits hdone =>
    rw [hwaits] at hphase
    obtain ⟨htdt, htail, hrest, hcarries, hhandles⟩ := hphase
    obtain ⟨htake, hdrop, -⟩ := take_returned hrest
    have hbusy : (s.descs oldTail).status ≠ 0 := fun hzero => hdone (by rw [hzero]; rfl)
    rw [TxMachine.Handles] at hhandles
    cases hdevice : s.device with
    | idle =>
      rw [hdevice] at hhandles
      obtain ⟨-, hzero, -⟩ | ⟨hhead, -, hwire⟩ := hhandles
      · exact absurd hzero hbusy
      · refine ⟨⟨hpending, hhead.trans (htdt.trans htail.symm), htdt.trans htail.symm, rfl, hwire, hdrop⟩, ?_⟩
        simp only [TxMachine.work, hwaits, hdevice, if_pos hhead]
        rfl
    | fetched len cmd =>
      rw [hdevice] at hhandles
      exact absurd hhandles.2.1 hbusy
    | read cmd =>
      rw [hdevice] at hhandles
      exact absurd hhandles.2.1 hbusy
  | fetch hidle hne =>
    obtain ⟨data, oldTail, hwaits⟩ := h.waits (Or.inr hne)
    rw [hwaits] at hphase
    obtain ⟨htdt, htail, hrest, hcarries, hhandles⟩ := hphase
    rw [TxMachine.Handles, hidle] at hhandles
    obtain ⟨hhead, hstatus, hwire⟩ | ⟨hhead, -⟩ := hhandles
    · refine ⟨⟨hpending, ?_⟩, ?_⟩
      · rw [hwaits]
        refine ⟨htdt, htail, hrest, hcarries, hhead, hstatus, hwire, ?_, ?_⟩
        · rw [hhead]
          exact hcarries.length
        · rw [hhead]
          exact hcarries.cmd
      · simp only [TxMachine.work, hwaits, hidle, if_neg hne]
        rfl
    · exact absurd hhead hne
  | @read len cmd hfetched =>
    obtain ⟨data, oldTail, hwaits⟩ := h.waits (Or.inl (by rw [hfetched]; exact TxDevice.noConfusion))
    rw [hwaits] at hphase
    obtain ⟨htdt, htail, hrest, hcarries, hhandles⟩ := hphase
    obtain ⟨htake, hdrop, hmem⟩ := take_returned hrest
    rw [TxMachine.Handles, hfetched] at hhandles
    obtain ⟨hhead, hstatus, hwire, rfl, rfl⟩ := hhandles
    have hbytes : readBytes (s.descs s.tdh).buffer 0 (BitVec.ofNat 16 data.length).toNat = data := by
      rw [hhead, ← hcarries.length]
      exact hcarries.bytes (hfits data hmem)
    have hend : (cmdRs ||| cmdEop) &&& cmdEop ≠ 0 := by decide
    dsimp only
    rw [if_pos hend, hpending, List.nil_append, hbytes]
    refine ⟨⟨rfl, ?_⟩, ?_⟩
    · show match s.phase with | .ready => _ | .fills .. => _ | .waits .. => _
      rw [hwaits]
      exact ⟨htdt, htail, hrest, hcarries, hhead, hstatus, by rw [hwire, htake], rfl⟩
    · simp only [TxMachine.work, hwaits, hfetched]
      rfl
  | @writeBack cmd hread =>
    obtain ⟨data, oldTail, hwaits⟩ := h.waits (Or.inl (by rw [hread]; exact TxDevice.noConfusion))
    rw [hwaits] at hphase
    obtain ⟨htdt, htail, hrest, hcarries, hhandles⟩ := hphase
    rw [TxMachine.Handles, hread] at hhandles
    obtain ⟨hhead, hstatus, hwire, rfl⟩ := hhandles
    have hreport : (cmdRs ||| cmdEop) &&& cmdRs ≠ 0 := by decide
    subst hhead
    have hself : Function.update s.descs s.tdh
        { s.descs s.tdh with status := (s.descs s.tdh).status ||| statusDd } s.tdh =
          { s.descs s.tdh with status := statusDd } := by
      rw [Function.update_self, hstatus]
      rfl
    dsimp only
    rw [if_pos hreport]
    refine ⟨⟨hpending, ?_⟩, ?_⟩
    · rw [hwaits]
      refine ⟨htdt, htail, hrest, ?_, Or.inr ⟨htdt.symm, ?_, hwire⟩⟩
      · dsimp only
        rw [hself]
        exact ⟨hcarries.length, hcarries.cmd, hcarries.buffer⟩
      · dsimp only
        rw [hself]
        exact (by decide : statusDd &&& 0xF#8 ≠ 0)
    · simp only [TxMachine.work, hwaits, hread, htdt, if_pos]
      rfl

/-- There is a step to take as long as there is work. -/
theorem TxInv.progress (h : TxInv frames s) (hwork : ∀ l s', TxStep s l s' → l = .poll) :
    s.phase = .ready ∧ s.calls = [] := by
  have hphase := h.phase
  cases hp : s.phase with
  | ready =>
    refine ⟨rfl, ?_⟩
    cases hcalls : s.calls with
    | nil => rfl
    | cons data calls => cases hwork _ _ (.call hp hcalls)
  | fills data todo =>
    cases todo with
    | nil => cases hwork _ _ (.notify hp)
    | cons st todo => cases hwork _ _ (.store hp)
  | waits data oldTail =>
    rw [hp] at hphase
    obtain ⟨htdt, -, -, -, hhandles⟩ := hphase
    rw [TxMachine.Handles] at hhandles
    cases hdevice : s.device with
    | idle =>
      rw [hdevice] at hhandles
      obtain ⟨hhead, -⟩ | ⟨-, hdone, -⟩ := hhandles
      · cases hwork _ _ (.fetch hdevice (by rw [hhead, htdt]; exact succ_ne oldTail))
      · cases hwork _ _ (.done hp hdone)
    | fetched len cmd => cases hwork _ _ (.read hdevice)
    | read cmd => cases hwork _ _ (.writeBack hdevice)

theorem TxInv.wire (h : TxInv frames s) : s.wire <+: frames ∧
    (s.phase = .ready → s.wire = frames.take s.returned ∧ frames.drop s.returned = s.calls) := by
  have hphase := h.phase
  cases hp : s.phase with
  | ready =>
    rw [hp] at hphase
    exact ⟨hphase.wire ▸ List.take_prefix .., fun _ => ⟨hphase.wire, hphase.rest⟩⟩
  | fills data todo =>
    rw [hp] at hphase
    exact ⟨hphase.1.wire ▸ List.take_prefix .., fun h => SendPhase.noConfusion h⟩
  | waits data oldTail =>
    rw [hp] at hphase
    refine ⟨?_, fun h => SendPhase.noConfusion h⟩
    have hhandles := hphase.2.2.2.2
    rw [TxMachine.Handles] at hhandles
    cases hdevice : s.device with
    | idle =>
      rw [hdevice] at hhandles
      obtain ⟨-, -, hwire⟩ | ⟨-, -, hwire⟩ := hhandles <;> exact hwire ▸ List.take_prefix ..
    | fetched len cmd =>
      rw [hdevice] at hhandles
      exact hhandles.2.2.1 ▸ List.take_prefix ..
    | read cmd =>
      rw [hdevice] at hhandles
      exact hhandles.2.2.1 ▸ List.take_prefix ..

/-- **The frames are sent in order, each once and whole**, whatever the device and the driver do in
between. Between two calls the frames of those that have returned are on the wire. There are as many steps
as the frames need, and polls; and a machine that can do no more than poll has sent them all. -/
theorem txRun_inOrder {descs : Fin numTxDescs → TxDesc} {ls : List TxLabel}
    (hfits : ∀ data ∈ frames, data.length ≤ 2048) (h : Run TxStep (bootTx descs frames) ls s) :
    s.wire <+: frames ∧ (s.phase = .ready → s.wire = frames.take s.returned) ∧
      (ls.filter (· ≠ .poll)).length + s.work = (frames.map sendCost).sum ∧
      ((∀ l s', TxStep s l s' → l = .poll) → s.wire = frames) := by
  have hinv : TxInv frames s ∧ (ls.filter (· ≠ .poll)).length + s.work = (frames.map sendCost).sum := by
    induction h with
    | nil => exact ⟨bootTx_inv descs frames, by simp [TxMachine.work, bootTx]⟩
    | @snoc t u ls l _ hstep ih =>
      obtain ⟨hu, hwork⟩ := ih.1.step hfits hstep
      refine ⟨hu, ?_⟩
      rw [← ih.2, ← hwork, List.filter_append, List.length_append]
      by_cases hpoll : l = .poll <;> simp [hpoll]; omega
  obtain ⟨hsent, hready⟩ := hinv.1.wire
  refine ⟨hsent, fun hp => (hready hp).1, hinv.2, fun hstuck => ?_⟩
  obtain ⟨hp, hcalls⟩ := hinv.1.progress hstuck
  obtain ⟨hwire, hrest⟩ := hready hp
  rw [hwire, ← List.append_nil (frames.take s.returned), ← hcalls, ← hrest, List.take_append_drop]

end Runs

/-- A frame of one byte, which the driver polls for once. -/
theorem txRun_inOrder_byte : ∃ s, Run TxStep (bootTx (fun _ => ⟨0, 0, 1, fun _ => 0⟩) [[7]])
    [.call, .store, .store, .store, .store, .notify, .fetch, .poll, .read, .writeBack, .done] s ∧
    s.phase = .ready ∧ s.returned = 1 ∧ s.wire = [[7]] := by
  have hrun : ∃ s, Run TxStep (bootTx (fun _ => ⟨0, 0, 1, fun _ => 0⟩) [[7]])
      [.call, .store, .store, .store, .store, .notify, .fetch, .poll, .read, .writeBack, .done] s ∧
      s.phase = .ready ∧ s.returned = 1 :=
    ⟨_, Run.cons (.call rfl rfl) <| Run.cons (.store rfl) <| Run.cons (.store rfl) <| Run.cons (.store rfl) <|
      Run.cons (.store rfl) <| Run.cons (.notify rfl) <| Run.cons (.fetch rfl (by decide)) <|
      Run.cons (.poll rfl rfl) <| Run.cons (.read rfl) <| Run.cons (.writeBack rfl) <|
      Run.single (.done rfl (by decide)), rfl, rfl⟩
  obtain ⟨s, hrun, hready, hreturned⟩ := hrun
  refine ⟨s, hrun, hready, hreturned, ?_⟩
  rw [(txRun_inOrder (by decide) hrun).2.1 hready, hreturned]
  rfl

end ZohoOs
