import ZohoOs.Log.Console
import ZohoOs.Log.Printf
import ZohoOs.Sync.SpinLock

/-!
# The kernel log

`klog` formats its message into a buffer of its own, and prints it in five parts under `klog_lock`. Lines that
many CPUs log at once come to the console whole, each CPU's in its order.

## Main definitions

* `KlogCall`: the arguments of a call
* `klogLine`: the text of a call
* `klogLocking`: the calls of many CPUs

## Main results

* `klogLine_eq`: the line is the message, cut at 511 bytes
* `klog_lines`: what is on the console
-/

namespace ZohoOs

open Program TransitionSystem CriticalSections TextBuffer WrappedText

/-! ## The code -/

/-- `log_level_t`. -/
inductive LogLevel
  | debug
  | info
  | warn
  | error
  deriving DecidableEq

/-- The values of `log_level_t`. -/
def LogLevel.rank : LogLevel → Nat
  | .debug => 0
  | .info => 1
  | .warn => 2
  | .error => 3

/-- `level_strings`. -/
def levelStrings : LogLevel → List Byte
  | .debug => asciiBytes "[DEBUG]"
  | .info => asciiBytes "[INFO ]"
  | .warn => asciiBytes "[WARN ]"
  | .error => asciiBytes "[ERROR]"

/-- A call of `klog`, with what the stack holds: in `buf`, and in the buffer of `itoa`. The arguments are
those the format asks for. -/
structure KlogCall where
  level : LogLevel
  moduleName : List Byte
  format : List Byte
  args : List VaArg
  text : List Byte
  buf : Nat → Byte
  stack : Nat → Byte
  formatted_eq : formatted format args = some text

/-- The string that begins in a buffer of `n` bytes. -/
def cString (buf : Nat → Byte) (n : Nat) : List Byte := ((List.range n).map buf).takeWhile (· ≠ 0)

/-- `buf` after `vsnprintf(buf, sizeof(buf), fmt, args)`. -/
def KlogCall.formattedBuf (c : KlogCall) : Nat → Byte :=
  match vsnprintf c.stack c.buf 512 c.format c.args with
  | some (buf, _) => buf
  | none => c.buf

/-- What is printed: the level, the module and the message. -/
def klogLine (c : KlogCall) : List Byte :=
  levelStrings c.level ++ asciiBytes " " ++ c.moduleName ++ asciiBytes ": " ++
    cString c.formattedBuf 512 ++ asciiBytes "\n"

/-- `vga_print`, character by character. -/
def vgaPrintBody : List Byte → Prog Byte (fun _ => Unit) Unit
  | [] => pure ()
  | c :: str => do
    Prog.request c
    vgaPrintBody str

/-- What `klog` does on the console under the lock. -/
def klogBody (c : KlogCall) : Prog Byte (fun _ => Unit) Unit := do
  vgaPrintBody (levelStrings c.level)
  vgaPrintBody (asciiBytes " ")
  vgaPrintBody c.moduleName
  vgaPrintBody (asciiBytes ": ")
  vgaPrintBody (cString c.formattedBuf 512)
  vgaPrintBody (asciiBytes "\n")

/-- The calls of `klog`, under `klog_lock`. -/
def klogLocking : Discipline Unit KlogCall Byte (fun _ => Unit) (fun _ => Unit) Vga Unit SpinCounts where
  access _ c v := ((), printChar c v)
  body c := some (klogBody c)
  other _ _ t := ((), t)
  book := spinBook

/-- The calls of a CPU that are above `klog_min_level`. The others return at once. -/
def loggedCalls (minLevel : LogLevel) (calls : List KlogCall) : List KlogCall :=
  calls.filter fun c => !decide (c.level.rank < minLevel.rank)

/-- A CPU that logs one message after the other. -/
def klogProg (minLevel : LogLevel) (calls : List KlogCall) : Prog KlogCall (fun _ => Unit) Unit :=
  Prog.each (loggedCalls minLevel calls)

/-! ## One call -/

section Lines

variable {v : Vga} {c : KlogCall}

/-- A string in a buffer is read up to its NUL. -/
theorem cString_overlay {text : List Byte} {n : Nat} (hlen : text.length < n) (base : Nat → Byte) :
    cString (overlay (text ++ [0]) base) n = text.takeWhile (· ≠ 0) := by
  have hstart : ((List.range n).map (overlay (text ++ [0]) base)).take (text.length + 1) = text ++ [0] := by
    apply List.ext_getElem
    · rw [List.length_take, List.length_map, List.length_range, List.length_append, List.length_singleton]
      omega
    · intro k _ hk
      rw [List.getElem_take, List.getElem_map, List.getElem_range, overlay_of_lt hk]
  rw [cString, ← List.take_append_drop (text.length + 1) ((List.range n).map _), hstart, List.append_assoc,
    List.takeWhile_append]
  split
  · next hall =>
    rw [List.singleton_append, List.takeWhile_cons_of_neg (by simp), List.append_nil]
    exact ((List.takeWhile_prefix _).eq_of_length hall).symm
  · rfl

/-- **The line of a call** has the message up to a NUL, and 511 bytes of it at most. -/
theorem klogLine_eq (c : KlogCall) : klogLine c =
    levelStrings c.level ++ asciiBytes " " ++ c.moduleName ++ asciiBytes ": " ++
      (c.text.take 511).takeWhile (· ≠ 0) ++ asciiBytes "\n" := by
  have hbuf : c.formattedBuf = overlay (c.text.take 511 ++ [0]) c.buf := by
    rw [KlogCall.formattedBuf, vsnprintf_eq c.formatted_eq]
    rfl
  rw [klogLine, hbuf, cString_overlay]
  rw [List.length_take]
  omega

theorem vgaPrintBody_run (str : List Byte) (v : Vga) :
    (vgaPrintBody str).run klogLocking.access () v = ((), vgaPrint str v) := by
  induction str generalizing v with
  | nil => rfl
  | cons c str ih => exact ih (printChar c v)

theorem vgaPrint_append (a b : List Byte) (v : Vga) : vgaPrint (a ++ b) v = vgaPrint b (vgaPrint a v) :=
  List.foldl_append ..

theorem klogBody_run (c : KlogCall) (v : Vga) :
    (klogBody c).run klogLocking.access () v = ((), vgaPrint (klogLine c) v) := by
  simp only [klogBody, klogLine, Prog.run_bind, vgaPrintBody_run, vgaPrint_append]

/-- The console after the lines of some calls. -/
theorem klog_serve {ι : Type} [DecidableEq ι] {progs : ι → Prog KlogCall (fun _ => Unit) Unit}
    {s : Vga × Unit} {es : List (Event ι Unit KlogCall fun _ => Unit)}
    {p : Pool ι KlogCall (fun _ => Unit) Unit (Vga × Unit)}
    (h : Run (Pool.Step klogLocking.serve) (progs, s) es p) :
    p.2.1 = vgaPrint (es.flatMap fun e => klogLine e.req) s.1 := by
  induction h with
  | nil => rfl
  | @snoc p p' es e _ hstep ih =>
    obtain ⟨next, -, hserve, -⟩ := hstep.cases
    rw [serve_body (d := klogLocking) rfl, klogBody_run] at hserve
    rw [← congrArg (fun x => x.2.1) hserve, List.flatMap_append, vgaPrint_append, ← ih]
    simp

end Lines

/-! ## Many CPUs -/

section Calls

variable {ι : Type} [DecidableEq ι] {minLevel : LogLevel} {calls : ι → List KlogCall} {c₀ : SpinCounts}
  {v : Vga} {ls : List (Label ι Unit KlogCall fun _ => Unit)}
  {m : LockMachine ι KlogCall Byte (fun _ => Unit) (fun _ => Unit) Unit Vga Unit SpinCounts}

/-- The calls that have printed their lines, with the CPUs they are of. -/
def printedCalls (ls : List (Label ι Unit KlogCall fun _ => Unit)) : List (ι × KlogCall) :=
  (ls.filterMap Label.event).map fun e => (e.who, e.req)

/-- **The log is made of whole lines.** Any number of CPUs log, character by character, in any interleaving.
While the lock is free the console shows the last rows of the lines of some calls, one after the other; those
of a CPU are the first of its calls above the level, in their order. -/
theorem klog_lines (h : Run (Step klogLocking)
    (LockMachine.start (fun i => klogProg minLevel (calls i)) c₀ (vgaClear v) ()) ls m)
    (hfree : m.locked = false) :
    (∀ r < 25, ∀ c < 80, m.data.buffer (r * 80 + c) =
      let rows := consoleRows ((printedCalls ls).flatMap fun x => klogLine x.2)
      vgaChar ((rows[rows.length - 25 + r]?.bind (·[c]?)).getD 0x20)) ∧
    ∀ i, ((printedCalls ls).filter fun x => x.1 = i).map Prod.snd <+: loggedCalls minLevel (calls i) ∧
      (m.threads i = .waits 0 (.done ()) →
        ((printedCalls ls).filter fun x => x.1 = i).map Prod.snd = loggedCalls minLevel (calls i)) := by
  obtain ⟨p, hpool, hp⟩ := run_serialises h
  have hlines : (ls.filterMap Label.event).flatMap (fun e => klogLine e.req) =
      (printedCalls ls).flatMap fun x => klogLine x.2 := by
    rw [printedCalls, List.flatMap_map]
  have hcalls : ∀ i, ((ls.filterMap Label.event).filter fun e => e.who = i).map Event.req =
      ((printedCalls ls).filter fun x => x.1 = i).map Prod.snd := by
    intro i
    rw [printedCalls, List.filter_map, List.map_map]
    rfl
  constructor
  · rw [← (hp.free hfree).1, klog_serve hpool, hlines]
    exact (vgaPrint_shows v _).1
  · intro i
    obtain ⟨rest, hprog, hreqs⟩ := Pool.run_each hpool i
    rw [hcalls] at hreqs
    refine ⟨⟨rest, hreqs⟩, fun hdone => ?_⟩
    -- no call is left
    rw [hp.threads, hdone] at hprog
    cases rest with
    | nil => rwa [List.append_nil] at hreqs
    | cons c rest => cases hprog

/-- `klog(LOG_INFO, moduleName, text)`, with a text without directives. -/
def infoCall (moduleName text : List Byte) (h : formatted text [] = some text) : KlogCall where
  level := .info
  moduleName := moduleName
  format := text
  args := []
  text := text
  buf _ := 0
  stack _ := 0
  formatted_eq := h

/-- A CPU that has read the tables, and one that comes up. -/
def sampleKlogCall (starts : Bool) : KlogCall :=
  bif starts then infoCall (asciiBytes "CPU") (asciiBytes "CPU initialized") (by decide +kernel)
  else infoCall (asciiBytes "ACPI") (asciiBytes "Enumerated CPUs") (by decide +kernel)

/-- Two CPUs log a line each. -/
theorem klog_lines_sample : ∃ ls m, Run (Step klogLocking) (LockMachine.start
      (fun i => klogProg .info [sampleKlogCall i]) ⟨0, 0, 0⟩ (vgaClear ⟨fun _ => vgaChar 0, 0, 0⟩) ()) ls m ∧
    printedCalls ls = [(false, sampleKlogCall false), (true, sampleKlogCall true)] ∧
    (∀ r < 25, ∀ c < 80, m.data.buffer (r * 80 + c) =
      let rows := consoleRows (klogLine (sampleKlogCall false) ++ klogLine (sampleKlogCall true))
      vgaChar ((rows[rows.length - 25 + r]?.bind (·[c]?)).getD 0x20)) ∧
    ∀ i, ((printedCalls ls).filter fun x => x.1 = i).map Prod.snd = [sampleKlogCall i] := by
  -- one after the other has the lock
  obtain ⟨ls₁, m₁, hrun₁, hfree₁, hdone₁, hsame₁, hevents₁⟩ := answers_alone (d := klogLocking)
    (m := LockMachine.start (fun i => klogProg .info [sampleKlogCall i]) ⟨0, 0, 0⟩
      (vgaClear ⟨fun _ => vgaChar 0, 0, 0⟩) ()) (i := false) (r := sampleKlogCall false) () rfl rfl rfl
  have hwaits : m₁.threads true = .waits 0 (klogProg .info [sampleKlogCall true]) :=
    hsame₁ true Bool.false_ne_true.symm
  obtain ⟨ls₂, m₂, hrun₂, hfree₂, hdone₂, hsame₂, hevents₂⟩ := answers_alone (d := klogLocking)
    (m := m₁) (i := true) (r := sampleKlogCall true) () hwaits rfl hfree₁
  have hrun := hrun₁.append hrun₂
  have hprinted : printedCalls (ls₁ ++ ls₂) =
      [(false, sampleKlogCall false), (true, sampleKlogCall true)] := by
    rw [printedCalls, List.filterMap_append, hevents₁, hevents₂]
    rfl
  have hlines : (printedCalls (ls₁ ++ ls₂)).flatMap (fun x => klogLine x.2) =
      klogLine (sampleKlogCall false) ++ klogLine (sampleKlogCall true) := by
    rw [hprinted, List.flatMap_cons, List.flatMap_cons, List.flatMap_nil, List.append_nil]
  have hlogged : ∀ i, loggedCalls .info [sampleKlogCall i] = [sampleKlogCall i] :=
    fun i => List.filter_cons_of_pos (by cases i <;> rfl)
  obtain ⟨hscreen, hcalls⟩ := klog_lines hrun hfree₂
  rw [hlines] at hscreen
  refine ⟨_, m₂, hrun, hprinted, hscreen, fun i => ((hcalls i).2 ?_).trans (hlogged i)⟩
  cases i with
  | false => exact (hsame₂ false Bool.false_ne_true).trans hdone₁
  | true => exact hdone₂

end Calls

end ZohoOs
