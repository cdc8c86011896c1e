import ZohoOs.Lib.TransitionSystem
import ZohoOs.Log.Printf

/-!
# The serial line

`serial_print`, `serial_print_hex` and `serial_print_dec` put their characters on the line under
`serial_lock`. For each one `serial_putc` reads the status of the port until the transmitter is empty, and
writes the character. The port takes a character from its register whenever it comes to it.

A character that is written to a register that is not empty would be lost. None is, though the status is read
and the register written in two steps, and what the calls print comes to the line whole.

## Main definitions

* `SerialCall.chars`: the characters that a call puts, as the code computes them
* `SerialCall.text`: the text of a call
* `SerialMachine`, `SerialStep`: the CPUs and the port

## Main results

* `serialChars_eq`: a call puts its text
* `SerialInv.step`: what a step keeps
* `serialRun_whole`: any run
-/

namespace ZohoOs

open TransitionSystem TextBuffer

/-! ## Calls -/

inductive SerialCall
  | print (str : List Byte)
  | printHex (val : BitVec 64)
  | printDec (val : BitVec 64)

/-- `hex_chars[i]`. -/
def hexChars (i : Nat) : Byte := (asciiBytes "0123456789ABCDEF").getD i 0

/-- The loop of `serial_print_hex`, with the rounds that are left. -/
def hexLoop (val : BitVec 64) : Nat → List Byte
  | 0 => []
  | left + 1 => hexChars ((val >>> (4 * left)) &&& 0xF#64).toNat :: hexLoop val left

/-- The first loop of `serial_print_dec`. -/
def decLoop : Nat → BitVec 64 → Nat × (Nat → Byte) → Nat × (Nat → Byte)
  | 0, _, out => out
  | fuel + 1, val, (i, buf) =>
    if val > 0 then decLoop fuel (val / 10) (i + 1, Function.update buf i ((val % 10).setWidth 8 + 0x30))
    else (i, buf)

/-- The second one, from an index down. -/
def putBack (buf : Nat → Byte) : Nat → List Byte
  | 0 => []
  | i + 1 => buf i :: putBack buf i

/-- What a call puts, with what its buffer holds. A number has at most 20 digits. -/
def SerialCall.chars (buf : Nat → Byte) : SerialCall → List Byte
  | .print str => str
  | .printHex val => [0x30, 0x78] ++ hexLoop val 16
  | .printDec val =>
    if val = 0 then [0x30]
    else
      let (i, buf) := decLoop 20 val (0, buf)
      putBack buf i

/-- **The text of a call**: a string, a number in 16 digits, or one in as many as it has. -/
def SerialCall.text : SerialCall → List Byte
  | .print str => str
  | .printHex val => [0x30, 0x78] ++
      List.ofFn fun k : Fin 16 => hexChars (val.toNat / 16 ^ (15 - k.val) % 16)
  | .printDec val => digitsText 10 val.toNat

/-! ## CPUs and port -/

/-- Where a CPU is: between two calls; reading the status for the characters that are left; or about to write
one of them. -/
inductive SerialPhase
  | ready
  | polls (todo : List Byte)
  | writes (c : Byte) (todo : List Byte)

structure SerialMachine (ι : Type) where
  phases : ι → SerialPhase
  calls : ι → List SerialCall
  locked : Bool
  /-- The register of the transmitter. -/
  thr : Option Byte
  line : List Byte

inductive SerialLabel (ι : Type)
  | spins (i : ι)
  | locks (i : ι) (call : SerialCall)
  | polls (i : ι)
  | finds (i : ι)
  | writes (i : ι)
  | unlocks (i : ι)
  | sends

/-- A step that leaves all as it is. -/
def SerialLabel.Waits {ι : Type} : SerialLabel ι → Prop
  | .spins _ | .polls _ => True
  | _ => False

/-- The call that takes the lock in a step. -/
def SerialLabel.begun {ι : Type} : SerialLabel ι → Option (ι × SerialCall)
  | .locks i call => some (i, call)
  | _ => none

section

variable {ι : Type} [DecidableEq ι]

def SerialMachine.setPhase (s : SerialMachine ι) (i : ι) (phase : SerialPhase) : SerialMachine ι :=
  { s with phases := Function.update s.phases i phase }

inductive SerialStep : SerialMachine ι → SerialLabel ι → SerialMachine ι → Prop
  | spins {s : SerialMachine ι} {i : ι} {call : SerialCall} {rest : List SerialCall} :
      s.phases i = .ready → s.calls i = call :: rest → s.locked = true → SerialStep s (.spins i) s
  | locks {s : SerialMachine ι} {i : ι} {call : SerialCall} {rest : List SerialCall} (buf : Nat → Byte) :
      s.phases i = .ready → s.calls i = call :: rest → s.locked = false →
      SerialStep s (.locks i call)
        { s.setPhase i (.polls (call.chars buf)) with
          calls := Function.update s.calls i rest, locked := true }
  /-- The transmitter is not empty. -/
  | polls {s : SerialMachine ι} {i : ι} {c : Byte} {todo : List Byte} :
      s.phases i = .polls (c :: todo) → s.thr.isSome → SerialStep s (.polls i) s
  | finds {s : SerialMachine ι} {i : ι} {c : Byte} {todo : List Byte} :
      s.phases i = .polls (c :: todo) → s.thr = none →
      SerialStep s (.finds i) (s.setPhase i (.writes c todo))
  /-- What is in the register is overwritten. -/
  | writes {s : SerialMachine ι} {i : ι} {c : Byte} {todo : List Byte} :
      s.phases i = .writes c todo →
      SerialStep s (.writes i) { s.setPhase i (.polls todo) with thr := some c }
  | unlocks {s : SerialMachine ι} {i : ι} : s.phases i = .polls [] →
      SerialStep s (.unlocks i) { s.setPhase i .ready with locked := false }
  /-- The port sends what is in its register. -/
  | sends {s : SerialMachine ι} {c : Byte} : s.thr = some c →
      SerialStep s .sends { s with thr := none, line := s.line ++ [c] }

/-- The CPUs before their calls. -/
def SerialMachine.boot (calls : ι → List SerialCall) : SerialMachine ι :=
  ⟨fun _ => .ready, calls, false, none, []⟩

/-- The calls that have begun, in the order in which they took the lock. -/
def begunCalls (ls : List (SerialLabel ι)) : List (ι × SerialCall) := ls.filterMap SerialLabel.begun

/-- The texts of some calls, one after the other. -/
def printed (begun : List (ι × SerialCall)) : List Byte := begun.flatMap fun e => e.2.text

end

/-! ## One call -/

section Chars

variable {val : BitVec 64} {buf : Nat → Byte}

/-- The digits are those `itoa` makes. -/
theorem decLoop_eq (fuel : Nat) (val : BitVec 64) (out : Nat × (Nat → Byte)) :
    decLoop fuel val out = itoaLoop 10 fuel val.toNat out := by
  induction fuel generalizing val out with
  | zero => rfl
  | succ fuel ih =>
    obtain ⟨i, buf⟩ := out
    have hdigit : (val % 10).setWidth 8 + 0x30 = digitByte (val.toNat % 10) := by
      have hlt : val.toNat % 10 < 10 := Nat.mod_lt _ (by decide)
      apply BitVec.eq_of_toNat_eq
      rw [digitByte, if_neg (by omega)]
      simp
    rw [decLoop, itoaLoop, ih, hdigit]
    rfl

/-- The characters are put from the last one on. -/
theorem putBack_overlay (text : List Byte) (base : Nat → Byte) :
    putBack (overlay text base) text.length = text.reverse := by
  suffices h : ∀ n (hn : n ≤ text.length), putBack (overlay text base) n = (text.take n).reverse by
    rw [h _ (Nat.le_refl _), List.take_length]
  intro n hn
  induction n with
  | zero => rfl
  | succ n ih =>
    rw [putBack, ih (Nat.le_of_succ_le hn), List.take_add_one, List.getElem?_eq_getElem hn,
      List.reverse_append, overlay_of_lt hn]
    rfl

/-- **`serial_print_dec`** puts the digits of its number, and its buffer is large enough. -/
theorem printDec_eq (hval : val ≠ 0) :
    (decLoop 20 val (0, buf)).1 ≤ 20 ∧
      putBack (decLoop 20 val (0, buf)).2 (decLoop 20 val (0, buf)).1 = digitsText 10 val.toNat := by
  have hpos : 0 < val.toNat := Nat.pos_of_ne_zero fun h => hval (BitVec.eq_of_toNat_eq h)
  have hlt : val.toNat < 10 ^ 20 := val.isLt.trans_le (by decide)
  have hloop := itoaLoop_eq (by decide : 1 < 10) (by decide) hpos hlt [] buf
  rw [List.nil_append] at hloop
  have hstart : itoaLoop 10 20 val.toNat (0, buf) =
      ((digitsText 10 val.toNat).reverse.length, overlay (digitsText 10 val.toNat).reverse buf) := hloop
  rw [decLoop_eq, hstart]
  refine ⟨?_, ?_⟩
  · dsimp only
    rw [List.length_reverse, digitsText, List.length_map, Nat.length_toDigits_le_iff (by decide) (by decide)]
    exact hlt
  · dsimp only
    rw [putBack_overlay, List.reverse_reverse]

/-- The digits of `serial_print_hex`. -/
theorem hexLoop_eq (val : BitVec 64) (left : Nat) :
    hexLoop val left = List.ofFn fun k : Fin left => hexChars (val.toNat / 16 ^ (left - 1 - k.val) % 16) := by
  induction left with
  | zero => rfl
  | succ left ih =>
    have hdigit : ((val >>> (4 * left)) &&& 0xF#64).toNat = val.toNat / 16 ^ left % 16 := by
      rw [BitVec.toNat_and, show (0xF#64).toNat = 2 ^ 4 - 1 from rfl, Nat.and_two_pow_sub_one_eq_mod,
        BitVec.toNat_ushiftRight, Nat.shiftRight_eq_div_pow, Nat.pow_mul]
    rw [hexLoop, hdigit, ih, List.ofFn_succ]
    refine congrArg₂ List.cons rfl (congrArg List.ofFn (funext fun k => ?_))
    rw [show left + 1 - 1 - k.succ.val = left - 1 - k.val by rw [Fin.val_succ]; omega]

/-- **A call puts its text.** -/
theorem serialChars_eq (call : SerialCall) (buf : Nat → Byte) : call.chars buf = call.text := by
  cases call with
  | print str => rfl
  | printHex val => rw [SerialCall.chars, hexLoop_eq, SerialCall.text]
  | printDec val =>
    rw [SerialCall.chars, SerialCall.text]
    by_cases hval : val = 0
    · rw [if_pos hval, hval, digitsText_lt (by decide) (by decide)]
      rfl
    · rw [if_neg hval]
      exact (printDec_eq hval).2

end Chars

/-! ## Runs -/

section Runs

variable {ι : Type} [DecidableEq ι] {s s' : SerialMachine ι} {l : SerialLabel ι} {ls : List (SerialLabel ι)}
  {calls : ι → List SerialCall} {begun : List (ι × SerialCall)} {i : ι}

/-- What is still to come, of the calls that have begun. -/
def SerialMachine.Owes (s : SerialMachine ι) (text : List Byte) : SerialPhase → Prop
  | .ready => False
  | .polls todo => s.line ++ s.thr.toList ++ todo = text
  | .writes c todo => s.thr = none ∧ s.line ++ c :: todo = text

/-- **What holds between any two steps**: while the lock is free, all that has begun is on the line or in the
register; otherwise one CPU has the rest. -/
structure SerialInv (calls : ι → List SerialCall) (begun : List (ι × SerialCall)) (s : SerialMachine ι) :
    Prop where
  free : s.locked = false → (∀ i, s.phases i = .ready) ∧ s.line ++ s.thr.toList = printed begun
  held : s.locked = true → ∃ i, (∀ j, j ≠ i → s.phases j = .ready) ∧ s.Owes (printed begun) (s.phases i)
  order : ∀ i, (begun.filter fun e => e.1 = i).map Prod.snd ++ s.calls i = calls i

/-- A CPU within a call is the one that has the lock. -/
theorem SerialInv.holder (h : SerialInv calls begun s) (hi : s.phases i ≠ .ready) :
    s.locked = true ∧ (∀ j, j ≠ i → s.phases j = .ready) ∧ s.Owes (printed begun) (s.phases i) := by
  have hlocked : s.locked = true := by
    by_contra hfree
    exact hi ((h.free (by simpa using hfree)).1 i)
  obtain ⟨k, hothers, howes⟩ := h.held hlocked
  obtain rfl : i = k := by
    by_contra hne
    exact hi (hothers i hne)
  exact ⟨hlocked, hothers, howes⟩

/-- The CPU that has the lock goes on. -/
theorem SerialInv.goes (h : SerialInv calls begun s) (hi : s.phases i ≠ .ready) (phase : SerialPhase)
    (hphases : s'.phases = Function.update s.phases i phase) (hcalls : s'.calls = s.calls)
    (hlocked : s'.locked = true) (howes : s'.Owes (printed begun) phase) : SerialInv calls begun s' := by
  obtain ⟨-, hothers, -⟩ := h.holder hi
  refine ⟨fun hfree => absurd (hlocked.symm.trans hfree) (by decide), fun _ => ⟨i, fun j hj => ?_, ?_⟩, ?_⟩
  · rw [hphases, Function.update_of_ne hj, hothers j hj]
  · rwa [hphases, Function.update_self]
  · rw [hcalls]
    exact h.order

/-- **A step** keeps it. -/
theorem SerialInv.step (h : SerialInv calls begun s) (hstep : SerialStep s l s') :
    SerialInv calls (begun ++ l.begun.toList) s' := by
  have hnone : begun ++ (none : Option (ι × SerialCall)).toList = begun := List.append_nil begun
  cases hstep with
  | spins => exact hnone.symm ▸ h
  | polls => exact hnone.symm ▸ h
  | @locks i call rest buf hready hcalls hfree =>
    obtain ⟨hall, hline⟩ := h.free hfree
    refine ⟨fun hfree' => Bool.noConfusion hfree', fun _ => ⟨i, fun j hj => ?_, ?_⟩, fun j => ?_⟩
    · exact (Function.update_of_ne hj ..).trans (hall j)
    · show SerialMachine.Owes _ _ (Function.update s.phases i (.polls (call.chars buf)) i)
      rw [Function.update_self]
      show s.line ++ s.thr.toList ++ call.chars buf = _
      rw [hline, serialChars_eq, printed, printed, List.flatMap_append]
      simp [SerialLabel.begun]
    · show ((begun ++ [(i, call)]).filter fun e => e.1 = j).map Prod.snd ++
        Function.update s.calls i rest j = _
      rw [← h.order j, List.filter_append, List.map_append]
      by_cases hj : j = i
      · subst hj
        rw [Function.update_self, hcalls, List.filter_cons_of_pos (by simp), List.append_assoc]
        rfl
      · rw [Function.update_of_ne hj, List.filter_cons_of_neg (by simpa using Ne.symm hj)]
        simp
  | @finds i c todo hpolls hempty =>
    have hi : s.phases i ≠ .ready := by rw [hpolls]; exact SerialPhase.noConfusion
    obtain ⟨hlocked, -, howes⟩ := h.holder hi
    rw [hpolls, SerialMachine.Owes, hempty, Option.toList_none, List.append_nil] at howes
    exact hnone.symm ▸ h.goes hi (.writes c todo) rfl rfl hlocked ⟨hempty, howes⟩
  | @writes i c todo hwrites =>
    have hi : s.phases i ≠ .ready := by rw [hwrites]; exact SerialPhase.noConfusion
    obtain ⟨hlocked, -, howes⟩ := h.holder hi
    rw [hwrites] at howes
    -- the register is still empty, so nothing is overwritten
    obtain ⟨-, hline⟩ := howes
    have howes' : s.line ++ [c] ++ todo = printed begun := by
      rw [← hline, List.append_assoc]
      rfl
    exact hnone.symm ▸ h.goes hi (.polls todo) rfl rfl hlocked howes'
  | @unlocks i hpolls =>
    have hi : s.phases i ≠ .ready := by rw [hpolls]; exact SerialPhase.noConfusion
    obtain ⟨-, hothers, howes⟩ := h.holder hi
    rw [hpolls, SerialMachine.Owes, List.append_nil] at howes
    refine hnone.symm ▸ ⟨fun _ => ⟨fun j => ?_, howes⟩, fun hheld => Bool.noConfusion hheld, h.order⟩
    · show Function.update s.phases i .ready j = .ready
      by_cases hj : j = i
      · rw [hj, Function.update_self]
      · rw [Function.update_of_ne hj, hothers j hj]
  | @sends c hthr =>
    have hline : s.line ++ [c] ++ (none : Option Byte).toList = s.line ++ s.thr.toList := by
      rw [hthr]
      exact List.append_nil _
    refine hnone.symm ▸ ⟨fun hfree => ?_, fun hheld => ?_, h.order⟩
    · obtain ⟨hall, htext⟩ := h.free hfree
      exact ⟨hall, hline.trans htext⟩
    · obtain ⟨i, hothers, howes⟩ := h.held hheld
      refine ⟨i, hothers, ?_⟩
      cases hphase : s.phases i with
      | ready => rw [hphase] at howes; exact howes.elim
      | polls todo =>
        rw [hphase, SerialMachine.Owes, ← hline] at howes
        exact howes
      | writes c' todo =>
        rw [hphase] at howes
        exact absurd (hthr.symm.trans howes.1) (by simp)

/-- Where no step is left but waiting, nothing is to be waited for. -/
theorem SerialInv.progress (h : SerialInv calls begun s)
    (hwaits : ∀ l s', SerialStep s l s' → l.Waits) :
    (∀ i, s.calls i = []) ∧ s.line = printed begun := by
  have hempty : s.thr = none := by
    cases hthr : s.thr with
    | none => rfl
    | some c => exact (hwaits _ _ (.sends hthr)).elim
  have hfree : s.locked = false := by
    by_contra hheld
    obtain ⟨i, -, howes⟩ := h.held (by simpa using hheld)
    cases hphase : s.phases i with
    | ready => rw [hphase] at howes; exact howes
    | polls todo =>
      cases todo with
      | nil => exact hwaits _ _ (.unlocks hphase)
      | cons c todo => exact hwaits _ _ (.finds hphase hempty)
    | writes c todo => exact hwaits _ _ (.writes hphase)
  obtain ⟨hall, hline⟩ := h.free hfree
  refine ⟨fun i => ?_, ?_⟩
  · cases hcalls : s.calls i with
    | nil => rfl
    | cons call rest => exact (hwaits _ _ (.locks (fun _ => 0) (hall i) hcalls hfree)).elim
  · rw [← hline, hempty, Option.toList_none, List.append_nil]

theorem SerialInv.line (h : SerialInv calls begun s) : s.line <+: printed begun := by
  cases hlocked : s.locked with
  | false => exact ⟨_, (h.free hlocked).2⟩
  | true =>
    obtain ⟨i, -, howes⟩ := h.held hlocked
    cases hphase : s.phases i with
    | ready => rw [hphase] at howes; exact howes.elim
    | polls todo =>
      rw [hphase, SerialMachine.Owes, List.append_assoc] at howes
      exact ⟨_, howes⟩
    | writes c todo =>
      rw [hphase] at howes
      exact ⟨_, howes.2⟩

/-- **What the calls print comes to the line whole**, in the order in which they take the lock, whatever the
CPUs and the port do in between. Each CPU's calls are in their order. Where no CPU and no port can go on, all
of it is on the line. -/
theorem serialRun_whole (h : Run SerialStep (SerialMachine.boot calls) ls s) :
    s.line <+: printed (begunCalls ls) ∧
      (s.locked = false → s.line ++ s.thr.toList = printed (begunCalls ls)) ∧
      (∀ i, ((begunCalls ls).filter fun e => e.1 = i).map Prod.snd ++ s.calls i = calls i) ∧
      ((∀ l s', SerialStep s l s' → l.Waits) →
        (∀ i, s.calls i = []) ∧ s.line = printed (begunCalls ls)) := by
  have hinv : SerialInv calls (begunCalls ls) s := by
    induction h with
    | nil => exact ⟨fun _ => ⟨fun _ => rfl, rfl⟩, fun hheld => Bool.noConfusion hheld, fun _ => rfl⟩
    | @snoc s s' ls l _ hstep ih =>
      have hbegun : begunCalls (ls ++ [l]) = begunCalls ls ++ l.begun.toList := by
        rw [begunCalls, List.filterMap_append]
        cases hl : l.begun <;> simp [hl, begunCalls]
      rw [hbegun]
      exact ih.step hstep
  exact ⟨hinv.line, fun hfree => (hinv.free hfree).2, hinv.order, hinv.progress⟩

end Runs

/-- One CPU prints a number, another one a string. -/
def sampleSerialCalls : Bool → List SerialCall
  | false => [.printDec 42]
  | true => [.print (asciiBytes "ok")]

def sampleSerialLabels : List (SerialLabel Bool) :=
  [.locks false (.printDec 42), .spins true, .finds false, .writes false, .polls false, .sends, .finds false,
    .writes false, .unlocks false, .locks true (.print (asciiBytes "ok"))]

theorem serialRun_whole_sample : ∃ s, Run SerialStep (SerialMachine.boot sampleSerialCalls)
    sampleSerialLabels s ∧ s.line <+: asciiBytes "42ok" := by
  have hrun : ∃ s, Run SerialStep (SerialMachine.boot sampleSerialCalls) sampleSerialLabels s :=
    ⟨_, Run.cons (.locks (fun _ => 0) rfl rfl rfl) <| Run.cons (.spins rfl rfl rfl) <|
      Run.cons (.finds rfl rfl) <| Run.cons (.writes rfl) <| Run.cons (.polls rfl rfl) <|
      Run.cons (.sends rfl) <| Run.cons (.finds rfl rfl) <| Run.cons (.writes rfl) <|
      Run.cons (.unlocks rfl) <| Run.single (.locks (fun _ => 0) rfl rfl rfl)⟩
  obtain ⟨s, hs⟩ := hrun
  exact ⟨s, hs, (serialRun_whole hs).1⟩

end ZohoOs
