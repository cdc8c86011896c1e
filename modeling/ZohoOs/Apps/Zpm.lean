import ZohoOs.Fs.Mount

/-!
# The package manager

`install_package` of `zpm` reads an archive from a descriptor, sector by sector, and writes each member to a
file under `/bin/`. What it does is seen in its system calls.

## Main definitions

* `ZpmRequest`, `installPackage`: the system calls, and the program that makes them
* `ZpmEnv`, `ZpmEnv.serve`: a kernel with the package in a descriptor
* `ExtractsMember`, `Installs`: what the calls for a member, and for a package, are to do

## Main results

* `zpmOctal_digits`: the size of a member is read as it was written
* `zpmData_calls`: the sectors of a member
* `installPackage_extracts`: every member is extracted, in order
-/

namespace ZohoOs

open Program

/-! ## System calls -/

/-- The system calls of `install_package`. -/
inductive ZpmRequest
  | sysOpen (path : List Byte) (flags : Nat)
  | sysRead (fd : Int) (count : Nat)
  | sysWrite (fd : Int) (data : List Byte)
  | sysClose (fd : Int)

/-- The answers: a descriptor, and of a read what it returns and the bytes it stores. The others are not
looked at. -/
@[reducible] def ZpmAnswer : ZpmRequest → Type
  | .sysOpen .. => Int
  | .sysRead .. => Int × List Byte
  | .sysWrite .. => Unit
  | .sysClose .. => Unit

abbrev ZpmProg := Prog ZpmRequest ZpmAnswer

abbrev zpmAsk (r : ZpmRequest) : ZpmProg (ZpmAnswer r) := Prog.request r

/-! ## The program -/

/-- The loop of `octal_to_int` of `zpm`, over all bytes of the field. -/
def zpmOctal : List Byte → Nat → Nat
  | [], res => res
  | c :: octal, res =>
    if c = 0 ∨ c = 0x20 then res else zpmOctal octal (res * 8 + (c - 0x30).toNat)

/-- The digits `print_uint` puts into its buffer, from its end on. -/
def uintDigits : Nat → Nat → List Byte → List Byte
  | 0, _, buf => buf
  | left + 1, val, buf =>
    if val > 0 then uintDigits left (val / 10) ((0x30 + BitVec.ofNat 8 (val % 10)) :: buf) else buf

/-- `print_uint`. A number of 64 bits has at most 20 digits. -/
def printUint (fd : Int) (val : Nat) : ZpmProg Unit :=
  if val = 0 then zpmAsk (.sysWrite fd [0x30]) else zpmAsk (.sysWrite fd (uintDigits 20 val []))

/-- A buffer after `sys_read` has stored these bytes. -/
def readInto (buffer bytes : List Byte) : List Byte :=
  bytes.take buffer.length ++ buffer.drop bytes.length

/-- The blocks of a member: each is read, and written as far as the member goes, if there is a descriptor. -/
def zpmData (fdPkg fdOut : Int) : Nat → Nat → ZpmProg Unit
  | 0, _ => pure ()
  | blocks + 1, remaining => do
    let (_, bytes) ← zpmAsk (.sysRead fdPkg 512)
    let data := readInto (List.replicate 512 0) bytes
    if 0 ≤ fdOut then
      let toWrite := if remaining < 512 then remaining else 512
      zpmAsk (.sysWrite fdOut (data.take toWrite))
      zpmData fdPkg fdOut blocks (remaining - toWrite)
    else zpmData fdPkg fdOut blocks remaining

/-- What is printed for a member. -/
def zpmPrint (fdTty : Int) (targetPath : List Byte) (fileSize : Nat) : ZpmProg Unit := do
  zpmAsk (.sysWrite fdTty (asciiBytes "  -> "))
  zpmAsk (.sysWrite fdTty targetPath)
  zpmAsk (.sysWrite fdTty (asciiBytes " ("))
  printUint fdTty fileSize
  zpmAsk (.sysWrite fdTty (asciiBytes " bytes)\n"))

/-- A member with this header. A name that fills its field is read on behind it, which panics; shorter ones
leave room in `target_path`. -/
def zpmMember (fdTty fdPkg : Int) (header : List Byte) : ZpmProg (Option Unit) :=
  let fileSize := zpmOctal ((header.drop 124).take 12) 0
  let name := (header.take 100).takeWhile (· ≠ 0)
  if name.length = 100 then pure none
  else do
    let targetPath := asciiBytes "/bin/" ++ name
    zpmPrint fdTty targetPath fileSize
    -- `O_CREAT`
    let fdOut : Int ← zpmAsk (.sysOpen targetPath 64)
    zpmData fdPkg fdOut ((fileSize + 511) / 512) fileSize
    if 0 ≤ fdOut then
      zpmAsk (.sysClose fdOut)
      pure (some ())
    else pure (some ())

/-- The loop over the members, with a bound on its rounds; `none` where it is reached. -/
def zpmMembers (fdTty fdPkg : Int) : Nat → List Byte → ZpmProg (Option Unit)
  | 0, _ => pure none
  | fuel + 1, header => do
    let (n, bytes) ← zpmAsk (.sysRead fdPkg 512)
    if n ≤ 0 then pure (some ())
    else
      let header := readInto header bytes
      if header.getD 0 0 = 0 then pure (some ())
      else
        match ← zpmMember fdTty fdPkg header with
        | none => pure none
        | some () => zpmMembers fdTty fdPkg fuel header

/-- The path of a package. -/
def packagePath (pkgName : List Byte) : List Byte := asciiBytes "/packages/" ++ pkgName ++ asciiBytes ".tar"

/-- `install_package`. The buffer of a header starts with what the stack holds. A path of 128 bytes does not
fit, and panics. -/
def installPackage (fdTty : Int) (pkgName : List Byte) (stack : Sector) (fuel : Nat) :
    ZpmProg (Option Unit) :=
  let path := packagePath pkgName
  if 128 ≤ path.length then pure none
  else do
    let fdPkg : Int ← zpmAsk (.sysOpen path 0)
    if fdPkg < 0 then
      zpmAsk (.sysWrite fdTty (asciiBytes "Error: Package file not found: "))
      zpmAsk (.sysWrite fdTty path)
      zpmAsk (.sysWrite fdTty (asciiBytes "\n"))
      pure (some ())
    else
      zpmAsk (.sysWrite fdTty (asciiBytes "Extracting package...\n"))
      match ← zpmMembers fdTty fdPkg fuel (List.ofFn stack) with
      | none => pure none
      | some () =>
        zpmAsk (.sysClose fdPkg)
        zpmAsk (.sysWrite fdTty (asciiBytes "Installation complete.\n"))
        pure (some ())

/-! ## The kernel -/

/-- What the kernel does: which descriptors it opens one after the other, the first of them for the package,
and the bytes of the package. Descriptors that are open are not handed out again. -/
structure ZpmEnv where
  fdTty : Int
  opens : Nat → Int
  package : List Byte
  fresh : ∀ k, 0 ≤ opens (k + 1) → opens (k + 1) ≠ opens 0 ∧ opens (k + 1) ≠ fdTty

namespace ZpmEnv

variable (env : ZpmEnv)

/-- The descriptor of the package. -/
def fdPkg : Int := env.opens 0

/-- How many descriptors were opened, and how far the package was read. -/
structure State where
  opened : Nat
  offset : Nat

/-- A call is served. -/
def serve : Server Unit ZpmRequest ZpmAnswer State
  | (), .sysOpen .., s => (env.opens s.opened, { s with opened := s.opened + 1 })
  | (), .sysRead fd count, s =>
    if fd = env.fdPkg then
      let bytes := (env.package.drop s.offset).take count
      ((bytes.length, bytes), { s with offset := s.offset + bytes.length })
    else ((-1, []), s)
  | (), .sysWrite .., s => ((), s)
  | (), .sysClose .., s => ((), s)

end ZpmEnv

/-- A system call and its answer. -/
abbrev ZpmEvent := (r : ZpmRequest) × ZpmAnswer r

/-- The bytes a call writes to a descriptor. -/
def ZpmEvent.writtenTo (fd : Int) : ZpmEvent → Option (List Byte)
  | ⟨.sysWrite fd' data, _⟩ => if fd' = fd then some data else none
  | _ => none

/-- The bytes a call reads. -/
def ZpmEvent.bytesRead : ZpmEvent → Option (List Byte)
  | ⟨.sysRead .., answer⟩ => some answer.2
  | _ => none

/-- The path a call opens, and the descriptor it gets. -/
def ZpmEvent.pathOpened : ZpmEvent → Option (List Byte × Int)
  | ⟨.sysOpen path _, fd⟩ => some (path, fd)
  | _ => none

/-- **The calls that extract a member**: its sectors are read and no others, its file is opened, and if it is,
what is written to it is the contents; besides that only the terminal is written to. -/
structure ExtractsMember (fdTty : Int) (m : Member) (fdOut : Int) (calls : List ZpmEvent) : Prop where
  reads : (calls.filterMap ZpmEvent.bytesRead).flatten = m.header ++ m.padded
  opened : calls.filterMap ZpmEvent.pathOpened = [(asciiBytes "/bin/" ++ m.name, fdOut)]
  written : 0 ≤ fdOut → (calls.filterMap (ZpmEvent.writtenTo fdOut)).flatten = m.contents
  others : ∀ fd, fd ≠ fdTty → ¬ (0 ≤ fdOut ∧ fd = fdOut) →
    calls.filterMap (ZpmEvent.writtenTo fd) = []

/-! ## The size of a member -/

section Size

/-- The bytes of a number that `octal_to_int` takes as digits. -/
theorem zpmOctal_append {digits tail : List Byte} {res : Nat} (h : ∀ c ∈ digits, c ≠ 0 ∧ c ≠ 0x20) :
    zpmOctal (digits ++ tail) res =
      zpmOctal tail (digits.foldl (fun res c => res * 8 + (c - 0x30).toNat) res) := by
  induction digits generalizing res with
  | nil => rfl
  | cons c digits ih =>
    obtain ⟨hc, hdigits⟩ := List.forall_mem_cons.mp h
    rw [List.cons_append, zpmOctal, if_neg (not_or.mpr hc), ih hdigits]
    rfl

/-- A digit, as it is written and as it is read. -/
theorem octalDigit (d : Nat) (hd : d < 8) : BitVec.ofNat 8 (0x30 + d) ≠ 0 ∧
    BitVec.ofNat 8 (0x30 + d) ≠ 0x20 ∧ (BitVec.ofNat 8 (0x30 + d) - 0x30).toNat = d := by
  revert d
  decide

/-- **The size of a member** is read as it was written, where the byte behind its digits ends it. -/
theorem zpmOctal_digits {n : Nat} (hn : n < 8 ^ 11) {last : Byte} (hlast : last = 0 ∨ last = 0x20) :
    zpmOctal (octalDigits n ++ [last]) 0 = n := by
  -- after j digits the value is what the number has in front of the others
  have hfold : ∀ j ≤ 11, ((List.range j).map fun i =>
      BitVec.ofNat 8 (0x30 + n / 8 ^ (10 - i) % 8)).foldl (fun res c => res * 8 + (c - 0x30).toNat) 0 =
        n / 8 ^ (11 - j) := by
    intro j hj
    induction j with
    | zero => exact (Nat.div_eq_of_lt hn).symm
    | succ j ih =>
      -- the digit behind those that were read
      have hpow : n / 8 ^ (11 - j) = n / 8 ^ (10 - j) / 8 := by
        rw [Nat.div_div_eq_div_mul, ← Nat.pow_succ, show (10 - j).succ = 11 - j by omega]
      rw [List.range_succ, List.map_append, List.foldl_append, ih (by omega), List.map_singleton,
        List.foldl_cons, List.foldl_nil, (octalDigit _ (Nat.mod_lt _ (by decide))).2.2, hpow,
        show 11 - (j + 1) = 10 - j by omega]
      omega
  rw [zpmOctal_append, octalDigits, hfold 11 le_rfl, zpmOctal, if_pos hlast]
  · exact Nat.div_one n
  · intro c hc
    obtain ⟨i, -, rfl⟩ := List.mem_map.mp hc
    obtain ⟨hzero, hspace, -⟩ := octalDigit (n / 8 ^ (10 - i) % 8) (Nat.mod_lt _ (by decide))
    exact ⟨hzero, hspace⟩

end Size

/-! ## Headers -/

section Headers

variable (m : Member)

/-- The byte behind the digits of the size ends the number. -/
def Member.SizeEnds : Prop := m.rest.getD 0 0 = 0 ∨ m.rest.getD 0 0 = 0x20

theorem Member.header_name : (m.header.take 100).takeWhile (· ≠ 0) = m.name := by
  have hlt := m.name_lt
  -- the name has a NUL behind it in its field
  have hfield : m.header.take 100 = m.name ++ List.replicate (100 - m.name.length) 0 := by
    rw [header, List.append_assoc, List.append_assoc]
    exact List.take_left' (by rw [List.length_append, List.length_replicate]; omega)
  have hpad : List.replicate (100 - m.name.length) (0 : Byte) =
      0 :: List.replicate (99 - m.name.length) 0 := by
    rw [← List.replicate_succ]
    congr 1
    omega
  rw [hfield, hpad, List.takeWhile_append_of_pos (fun c hc => by simpa using m.name_ne c hc),
    List.takeWhile_cons_of_neg (by decide), List.append_nil]

theorem Member.header_size : (m.header.drop 124).take 12 =
    octalDigits m.contents.length ++ [m.rest.getD 0 0] := by
  have hlt := m.name_lt
  have hrest := m.rest_length
  -- the twelfth byte of the field is the first of the rest
  obtain ⟨last, later, hlast⟩ := List.exists_cons_of_length_eq_add_one hrest
  have hfields : m.header.drop 124 = octalDigits m.contents.length ++ m.rest := by
    rw [header, List.append_assoc]
    refine List.drop_left' ?_
    rw [List.length_append, List.length_append, List.length_replicate, m.owner_length]
    omega
  rw [hfields, List.take_append, octalDigits_length, hlast,
    List.take_of_length_le (by rw [octalDigits_length]; decide)]
  rfl

theorem Member.header_first : m.header.getD 0 0 ≠ 0 := by
  obtain ⟨c, name, hname⟩ := List.exists_cons_of_length_pos m.name_pos
  have hfirst : m.header.getD 0 0 = c := by
    rw [header, hname]
    rfl
  rw [hfirst]
  exact m.name_ne c (hname ▸ List.mem_cons_self)

end Headers

/-! ## Calls -/

section Calls

variable {env : ZpmEnv} {s : ZpmEnv.State} {data rest : List Byte}

/-- A sector of the package is read. -/
theorem serve_sysRead (hdata : env.package.drop s.offset = data ++ rest) (hlen : data.length = 512) :
    env.serve () (.sysRead env.fdPkg 512) s = ((512, data), { s with offset := s.offset + 512 }) := by
  have htake : (env.package.drop s.offset).take 512 = data := by
    rw [hdata]
    exact List.take_left' hlen
  simp only [ZpmEnv.serve, if_true, htake, hlen]
  rfl

theorem readInto_sector {buffer : List Byte} (hbuffer : buffer.length = 512) (hlen : data.length = 512) :
    readInto buffer data = data := by
  rw [readInto, hbuffer, hlen, List.take_of_length_le hlen.le, List.drop_of_length_le hbuffer.le,
    List.append_nil]

/-- What is read behind the sectors that were. -/
theorem drop_offset (hdata : env.package.drop s.offset = data ++ rest) {n : Nat} (hlen : data.length = n) :
    env.package.drop (s.offset + n) = rest := by
  rw [← List.drop_drop, hdata]
  exact List.drop_left' hlen

/-- What the blocks of a member come to: all of them are read, and as much as the member has is written. -/
structure DataCalls (fdOut : Int) (data : List Byte) (remaining : Nat) (calls : List ZpmEvent) : Prop where
  reads : (calls.filterMap ZpmEvent.bytesRead).flatten = data
  opened : calls.filterMap ZpmEvent.pathOpened = []
  written : 0 ≤ fdOut → (calls.filterMap (ZpmEvent.writtenTo fdOut)).flatten = data.take remaining
  others : ∀ fd, ¬ (0 ≤ fdOut ∧ fd = fdOut) → calls.filterMap (ZpmEvent.writtenTo fd) = []

section Block

variable {fdOut : Int} {blocks remaining : Nat} (hdata : env.package.drop s.offset = data ++ rest)
  (hlen : data.length = 512)
include hdata hlen

/-- A block that is written. -/
theorem zpmData_written (hout : 0 ≤ fdOut) :
    (zpmData env.fdPkg fdOut (blocks + 1) remaining).transcript env.serve () s =
        ⟨.sysRead env.fdPkg 512, (512, data)⟩ :: ⟨.sysWrite fdOut (data.take (min remaining 512)), ()⟩ ::
          (zpmData env.fdPkg fdOut blocks (remaining - min remaining 512)).transcript env.serve ()
            { s with offset := s.offset + 512 } ∧
      (zpmData env.fdPkg fdOut (blocks + 1) remaining).run env.serve () s =
        (zpmData env.fdPkg fdOut blocks (remaining - min remaining 512)).run env.serve ()
          { s with offset := s.offset + 512 } := by
  have hmin : (if remaining < 512 then remaining else 512) = min remaining 512 := by
    split <;> omega
  rw [zpmData]
  simp only [zpmAsk, Prog.request_bind, if_pos hout]
  rw [Prog.transcript, Prog.run, serve_sysRead hdata hlen]
  dsimp only
  rw [readInto_sector (List.length_replicate ..) hlen, hmin]
  exact ⟨rfl, rfl⟩

/-- A block that is skipped. -/
theorem zpmData_skipped (hout : ¬ 0 ≤ fdOut) :
    (zpmData env.fdPkg fdOut (blocks + 1) remaining).transcript env.serve () s =
        ⟨.sysRead env.fdPkg 512, (512, data)⟩ ::
          (zpmData env.fdPkg fdOut blocks remaining).transcript env.serve ()
            { s with offset := s.offset + 512 } ∧
      (zpmData env.fdPkg fdOut (blocks + 1) remaining).run env.serve () s =
        (zpmData env.fdPkg fdOut blocks remaining).run env.serve ()
          { s with offset := s.offset + 512 } := by
  rw [zpmData]
  simp only [zpmAsk, Prog.request_bind, if_neg hout]
  rw [Prog.transcript, Prog.run, serve_sysRead hdata hlen]
  exact ⟨rfl, rfl⟩

end Block

/-- **The blocks of a member**, whether they are written or not. -/
theorem zpmData_calls (fdOut : Int) {blocks remaining : Nat}
    (hdata : env.package.drop s.offset = data ++ rest) (hlen : data.length = 512 * blocks) :
    DataCalls fdOut data remaining
        ((zpmData env.fdPkg fdOut blocks remaining).transcript env.serve () s) ∧
      ((zpmData env.fdPkg fdOut blocks remaining).run env.serve () s).2 =
        { s with offset := s.offset + 512 * blocks } := by
  induction blocks generalizing s data remaining with
  | zero =>
    obtain rfl : data = [] := List.length_eq_zero_iff.mp hlen
    exact ⟨⟨rfl, rfl, fun _ => by rw [List.take_nil]; rfl, fun _ _ => rfl⟩, rfl⟩
  | succ blocks ih =>
    have hfirst : (data.take 512).length = 512 := by
      rw [List.length_take]
      omega
    -- the first block, and those behind it
    have hsplit : env.package.drop s.offset = data.take 512 ++ (data.drop 512 ++ rest) := by
      rw [← List.append_assoc, List.take_append_drop, hdata]
    have hnext : env.package.drop (s.offset + 512) = data.drop 512 ++ rest := drop_offset hsplit hfirst
    have hlater : (data.drop 512).length = 512 * blocks := by
      rw [List.length_drop]
      omega
    have hstate : s.offset + 512 + 512 * blocks = s.offset + 512 * (blocks + 1) := by omega
    have hread : ZpmEvent.bytesRead ⟨.sysRead env.fdPkg 512, (512, data.take 512)⟩ =
        some (data.take 512) := rfl
    -- the reads are the same, whether the file was opened or not
    by_cases hout : 0 ≤ fdOut
    · obtain ⟨⟨hreads, hopened, hwritten, hothers⟩, hrun⟩ :=
        @ih { s with offset := s.offset + 512 } (data.drop 512) (remaining - min remaining 512) hnext hlater
      obtain ⟨htranscript, hrunEq⟩ :=
        @zpmData_written env s _ _ fdOut blocks remaining hsplit hfirst hout
      rw [htranscript, hrunEq, hrun]
      refine ⟨⟨?_, hopened, fun _ => ?_, fun fd hfd => ?_⟩, by rw [hstate]⟩
      · rw [List.filterMap_cons_some hread, List.filterMap_cons_none rfl, List.flatten_cons, hreads]
        exact List.take_append_drop 512 data
      · -- what the member has in this block, and the rest
        have htake : data.take remaining = (data.take 512).take (min remaining 512) ++
            (data.drop 512).take (remaining - min remaining 512) := by
          rw [List.take_take, Nat.min_eq_left (Nat.min_le_right ..)]
          rcases Nat.le_total remaining 512 with hle | hge
          · rw [Nat.min_eq_left hle, Nat.sub_self, List.take_zero, List.append_nil]
          · rw [Nat.min_eq_right hge, ← List.take_add, Nat.add_sub_cancel' hge]
        have hself : ZpmEvent.writtenTo fdOut ⟨.sysWrite fdOut ((data.take 512).take (min remaining 512)),
            ()⟩ = some ((data.take 512).take (min remaining 512)) := if_pos rfl
        rw [List.filterMap_cons_none rfl, List.filterMap_cons_some hself, List.flatten_cons, hwritten hout,
          htake]
      · have hother : ZpmEvent.writtenTo fd ⟨.sysWrite fdOut ((data.take 512).take (min remaining 512)),
            ()⟩ = none := if_neg fun h => hfd ⟨hout, h.symm⟩
        rw [List.filterMap_cons_none rfl, List.filterMap_cons_none hother, hothers fd hfd]
    · obtain ⟨⟨hreads, hopened, -, hothers⟩, hrun⟩ :=
        @ih { s with offset := s.offset + 512 } (data.drop 512) remaining hnext hlater
      obtain ⟨htranscript, hrunEq⟩ :=
        @zpmData_skipped env s _ _ fdOut blocks remaining hsplit hfirst hout
      rw [htranscript, hrunEq, hrun]
      refine ⟨⟨?_, hopened, fun h => absurd h hout, hothers⟩, by rw [hstate]⟩
      rw [List.filterMap_cons_some hread, List.flatten_cons, hreads]
      exact List.take_append_drop 512 data

/-- The calls that print. -/
def printCalls (fdTty : Int) (targetPath : List Byte) (fileSize : Nat) : List ZpmEvent :=
  [asciiBytes "  -> ", targetPath, asciiBytes " (",
    if fileSize = 0 then [0x30] else uintDigits 20 fileSize [], asciiBytes " bytes)\n"].map
    fun data => ⟨.sysWrite fdTty data, ()⟩

theorem zpmPrint_bind {α : Type} (fdTty : Int) (targetPath : List Byte) (fileSize : Nat)
    (f : Unit → ZpmProg α) :
    (zpmPrint fdTty targetPath fileSize >>= f).transcript env.serve () s =
        printCalls fdTty targetPath fileSize ++ (f ()).transcript env.serve () s ∧
      (zpmPrint fdTty targetPath fileSize >>= f).run env.serve () s = (f ()).run env.serve () s := by
  rw [zpmPrint, printUint, printCalls]
  split <;> exact ⟨rfl, rfl⟩

theorem printCalls_eq_nil {fdTty fd : Int} {targetPath : List Byte} {fileSize : Nat} :
    (printCalls fdTty targetPath fileSize).filterMap ZpmEvent.bytesRead = [] ∧
      (printCalls fdTty targetPath fileSize).filterMap ZpmEvent.pathOpened = [] ∧
      (fd ≠ fdTty → (printCalls fdTty targetPath fileSize).filterMap (ZpmEvent.writtenTo fd) = []) := by
  refine ⟨rfl, rfl, fun hne => ?_⟩
  rw [printCalls, List.filterMap_map, List.filterMap_eq_nil_iff]
  exact fun data _ => if_neg fun h => hne h.symm

/-- The calls behind the data: the file is closed, if it was opened. -/
def closeCalls (fdOut : Int) : List ZpmEvent := if 0 ≤ fdOut then [⟨.sysClose fdOut, ()⟩] else []

theorem closeCalls_eq_nil {fdOut fd : Int} : (closeCalls fdOut).filterMap ZpmEvent.bytesRead = [] ∧
    (closeCalls fdOut).filterMap ZpmEvent.pathOpened = [] ∧
    (closeCalls fdOut).filterMap (ZpmEvent.writtenTo fd) = [] := by
  rw [closeCalls]
  split <;> exact ⟨rfl, rfl, rfl⟩

/-- **A member**: what is printed, the file that is opened, the blocks, and the file that is closed. -/
theorem zpmMember_calls {m : Member} (hends : m.SizeEnds)
    (hdata : env.package.drop s.offset = m.padded ++ rest) (fdTty : Int) :
    ∃ blocks, DataCalls (env.opens s.opened) m.padded m.contents.length blocks ∧
      (zpmMember fdTty env.fdPkg m.header).transcript env.serve () s =
        printCalls fdTty (asciiBytes "/bin/" ++ m.name) m.contents.length ++
          ⟨.sysOpen (asciiBytes "/bin/" ++ m.name) 64, env.opens s.opened⟩ ::
            (blocks ++ closeCalls (env.opens s.opened)) ∧
      (zpmMember fdTty env.fdPkg m.header).run env.serve () s =
        (some (), ⟨s.opened + 1, s.offset + 512 * m.dataSectors⟩) := by
  have hsize : zpmOctal ((m.header.drop 124).take 12) 0 = m.contents.length := by
    rw [m.header_size]
    exact zpmOctal_digits m.size_lt hends
  obtain ⟨hblocks, hrun⟩ := @zpmData_calls env { s with opened := s.opened + 1 } m.padded rest
    (env.opens s.opened) m.dataSectors m.contents.length hdata m.padded_length
  refine ⟨_, hblocks, ?_⟩
  have hlt := m.name_lt
  rw [zpmMember, hsize, m.header_name, if_neg (by omega)]
  dsimp only
  rw [(zpmPrint_bind ..).1, (zpmPrint_bind ..).2]
  simp only [zpmAsk, Prog.request_bind]
  rw [Prog.transcript, Prog.run]
  change _ ++ ⟨.sysOpen (asciiBytes "/bin/" ++ m.name) 64, env.opens s.opened⟩ ::
      Prog.transcript _ _ (zpmData env.fdPkg (env.opens s.opened) m.dataSectors m.contents.length >>= _)
        { s with opened := s.opened + 1 } = _ ∧
    Prog.run _ _ (zpmData env.fdPkg (env.opens s.opened) m.dataSectors m.contents.length >>= _)
      { s with opened := s.opened + 1 } = _
  rw [Prog.transcript_bind, Prog.run_bind, hrun, closeCalls]
  -- the file is closed just if it was opened
  have hserve : (env.serve () (.sysOpen (asciiBytes "/bin/" ++ m.name) 64) s).1 = env.opens s.opened := rfl
  rw [hserve]
  by_cases hout : 0 ≤ env.opens s.opened
  · rw [if_pos hout, if_pos hout]
    exact ⟨rfl, rfl⟩
  · rw [if_neg hout, if_neg hout]
    exact ⟨rfl, rfl⟩

/-- What the calls of a member come to. -/
theorem extractsMember_calls {m : Member} {fdTty fdPkg fdOut : Int} {blocks : List ZpmEvent}
    (hblocks : DataCalls fdOut m.padded m.contents.length blocks) (hfresh : 0 ≤ fdOut → fdOut ≠ fdTty) :
    ExtractsMember fdTty m fdOut (⟨.sysRead fdPkg 512, (512, m.header)⟩ ::
      (printCalls fdTty (asciiBytes "/bin/" ++ m.name) m.contents.length ++
        ⟨.sysOpen (asciiBytes "/bin/" ++ m.name) 64, fdOut⟩ :: (blocks ++ closeCalls fdOut))) := by
  have hprint := fun fd => @printCalls_eq_nil fdTty fd (asciiBytes "/bin/" ++ m.name) m.contents.length
  have hclose := fun fd => @closeCalls_eq_nil fdOut fd
  have hread : ZpmEvent.bytesRead ⟨.sysRead fdPkg 512, (512, m.header)⟩ = some m.header := rfl
  have hopen : ZpmEvent.pathOpened ⟨.sysOpen (asciiBytes "/bin/" ++ m.name) 64, fdOut⟩ =
      some (asciiBytes "/bin/" ++ m.name, fdOut) := rfl
  refine ⟨?_, ?_, fun hout => ?_, fun fd htty hfd => ?_⟩
  -- the header, and the blocks behind it
  · rw [List.filterMap_cons_some hread, List.filterMap_append, (hprint 0).1, List.nil_append,
      List.filterMap_cons_none rfl, List.filterMap_append, (hclose 0).1, List.append_nil, List.flatten_cons,
      hblocks.reads]
  · rw [List.filterMap_cons_none rfl, List.filterMap_append, (hprint 0).2.1, List.nil_append,
      List.filterMap_cons_some hopen, List.filterMap_append, (hclose 0).2.1, List.append_nil, hblocks.opened]
  · -- the blocks alone are written to the file, and the padding is left out
    rw [List.filterMap_cons_none rfl, List.filterMap_append, (hprint fdOut).2.2 (hfresh hout),
      List.nil_append, List.filterMap_cons_none rfl, List.filterMap_append, (hclose fdOut).2.2,
      List.append_nil, hblocks.written hout, Member.padded]
    exact List.take_left' rfl
  · rw [List.filterMap_cons_none rfl, List.filterMap_append, (hprint fd).2.2 htty, List.nil_append,
      List.filterMap_cons_none rfl, List.filterMap_append, (hclose fd).2.2, List.append_nil,
      hblocks.others fd hfd]

/-- **One round** extracts a member, and goes on behind it. -/
theorem zpmMembers_round {m : Member} (hends : m.SizeEnds) {buffer : List Byte}
    (hbuffer : buffer.length = 512) (hopened : 0 < s.opened)
    (hdata : env.package.drop s.offset = m.header ++ (m.padded ++ rest)) (fuel : Nat) :
    ∃ calls, ExtractsMember env.fdTty m (env.opens s.opened) calls ∧
      (zpmMembers env.fdTty env.fdPkg (fuel + 1) buffer).transcript env.serve () s =
        calls ++ (zpmMembers env.fdTty env.fdPkg fuel m.header).transcript env.serve ()
          ⟨s.opened + 1, s.offset + 512 * m.sectors⟩ ∧
      (zpmMembers env.fdTty env.fdPkg (fuel + 1) buffer).run env.serve () s =
        (zpmMembers env.fdTty env.fdPkg fuel m.header).run env.serve ()
          ⟨s.opened + 1, s.offset + 512 * m.sectors⟩ := by
  obtain ⟨blocks, hblocks, htranscript, hrun⟩ := @zpmMember_calls env
    { s with offset := s.offset + 512 } rest m hends (drop_offset hdata m.header_length) env.fdTty
  -- the package was opened before, so the descriptor is a later one
  have hfresh : 0 ≤ env.opens s.opened → env.opens s.opened ≠ env.fdTty := by
    obtain ⟨k, hk⟩ := Nat.exists_eq_add_one_of_ne_zero hopened.ne'
    rw [hk]
    exact fun hout => (env.fresh k hout).2
  refine ⟨_, @extractsMember_calls m env.fdTty env.fdPkg _ blocks hblocks hfresh, ?_⟩
  have hoffset : s.offset + 512 + 512 * m.dataSectors = s.offset + 512 * m.sectors := by
    unfold Member.sectors
    omega
  rw [hoffset] at hrun
  rw [zpmMembers]
  simp only [zpmAsk, Prog.request_bind]
  rw [Prog.transcript, Prog.run, serve_sysRead hdata m.header_length]
  dsimp only
  rw [if_neg (by decide), readInto_sector hbuffer m.header_length, if_neg m.header_first,
    Prog.transcript_bind, Prog.run_bind, hrun, htranscript]
  exact ⟨rfl, rfl⟩

/-- The last round reads the zeros. -/
theorem zpmMembers_end {buffer : List Byte} (hbuffer : buffer.length = 512)
    (hdata : env.package.drop s.offset = List.replicate 512 0 ++ rest) (fuel : Nat) :
    (zpmMembers env.fdTty env.fdPkg (fuel + 1) buffer).transcript env.serve () s =
        [⟨.sysRead env.fdPkg 512, (512, List.replicate 512 0)⟩] ∧
      ((zpmMembers env.fdTty env.fdPkg (fuel + 1) buffer).run env.serve () s).1 = some () := by
  have hlen : (List.replicate 512 (0 : Byte)).length = 512 := List.length_replicate ..
  have hzero : (List.replicate 512 (0 : Byte)).getD 0 0 = 0 := rfl
  rw [zpmMembers]
  simp only [zpmAsk, Prog.request_bind]
  rw [Prog.transcript, Prog.run, serve_sysRead hdata hlen]
  dsimp only
  rw [if_neg (by decide), readInto_sector hbuffer hlen, if_pos hzero]
  exact ⟨rfl, rfl⟩

/-- **All rounds**: the members are extracted one after the other. -/
theorem zpmMembers_calls {ms : List Member} (hends : ∀ m ∈ ms, m.SizeEnds) {buffer : List Byte}
    (hbuffer : buffer.length = 512) (hopened : 0 < s.opened)
    (hdata : env.package.drop s.offset = archive ms ++ rest) {fuel : Nat} (hfuel : ms.length < fuel) :
    ∃ segments, List.Forall₂ (fun p calls => ExtractsMember env.fdTty p.1 (env.opens p.2) calls)
        (ms.zipIdx s.opened) segments ∧
      (zpmMembers env.fdTty env.fdPkg fuel buffer).transcript env.serve () s =
        segments.flatten ++ [⟨.sysRead env.fdPkg 512, (512, List.replicate 512 0)⟩] ∧
      ((zpmMembers env.fdTty env.fdPkg fuel buffer).run env.serve () s).1 = some () := by
  obtain ⟨fuel, rfl⟩ := Nat.exists_eq_add_one_of_ne_zero (Nat.ne_zero_of_lt hfuel)
  induction ms generalizing s buffer fuel with
  | nil =>
    obtain ⟨htranscript, hrun⟩ := zpmMembers_end hbuffer hdata fuel
    exact ⟨[], .nil, htranscript, hrun⟩
  | cons m ms ih =>
    obtain ⟨hm, hms⟩ := List.forall_mem_cons.mp hends
    have hlt : ms.length < fuel := Nat.lt_of_succ_lt_succ hfuel
    rw [archive, List.append_assoc, List.append_assoc] at hdata
    -- the first member is one round, the others are by induction
    obtain ⟨calls, hcalls, htranscript, hrun⟩ := zpmMembers_round hm hbuffer hopened hdata fuel
    -- the archive behind the member
    have hnext : env.package.drop (s.offset + 512 * m.sectors) = archive ms ++ rest := by
      rw [← List.append_assoc] at hdata
      refine drop_offset hdata ?_
      rw [List.length_append, m.header_length, m.padded_length, Member.sectors]
      omega
    obtain ⟨fuel, rfl⟩ := Nat.exists_eq_add_one_of_ne_zero (Nat.ne_zero_of_lt hlt)
    obtain ⟨segments, hsegments, hlater, hdone⟩ :=
      @ih ⟨s.opened + 1, s.offset + 512 * m.sectors⟩ hms m.header m.header_length (Nat.succ_pos _) hnext
        fuel hlt
    refine ⟨calls :: segments, .cons hcalls hsegments, ?_, hrun ▸ hdone⟩
    rw [htranscript, hlater, List.flatten_cons, List.append_assoc]

end Calls

/-! ## The package -/

section Package

variable {env : ZpmEnv} {ms : List Member} {rest pkgName : List Byte} {stack : Sector} {fuel : Nat}

/-- **The calls of an installation**: the package is opened, each member is extracted with the descriptor its
file gets, in order and from one header to the next, and the zeros behind them are read. -/
def Installs (env : ZpmEnv) (path : List Byte) (ms : List Member) (calls : List ZpmEvent) : Prop :=
  ∃ segments, List.Forall₂ (fun p calls => ExtractsMember env.fdTty p.1 (env.opens p.2) calls)
      (ms.zipIdx 1) segments ∧
    calls = [⟨.sysOpen path 0, env.fdPkg⟩,
        ⟨.sysWrite env.fdTty (asciiBytes "Extracting package...\n"), ()⟩] ++ segments.flatten ++
      [⟨.sysRead env.fdPkg 512, (512, List.replicate 512 0)⟩, ⟨.sysClose env.fdPkg, ()⟩,
        ⟨.sysWrite env.fdTty (asciiBytes "Installation complete.\n"), ()⟩]

/-- **A package is extracted**, whatever the opens of its files return: its archive may have anything behind
the zeros, and the stack anything in the buffer. -/
theorem installPackage_extracts (hpackage : env.package = archive ms ++ rest) (hends : ∀ m ∈ ms, m.SizeEnds)
    (hopens : 0 ≤ env.fdPkg) (hpath : (packagePath pkgName).length < 128) (hfuel : ms.length < fuel) :
    ((installPackage env.fdTty pkgName stack fuel).run env.serve () ⟨0, 0⟩).1 = some () ∧
      Installs env (packagePath pkgName) ms
        ((installPackage env.fdTty pkgName stack fuel).transcript env.serve () ⟨0, 0⟩) := by
  obtain ⟨segments, hsegments, htranscript, hrun⟩ := @zpmMembers_calls env ⟨1, 0⟩ rest ms hends
    (List.ofFn stack) (List.length_ofFn ..) Nat.one_pos hpackage fuel hfuel
  have hopen : env.serve () (.sysOpen (packagePath pkgName) 0) ⟨0, 0⟩ = (env.fdPkg, ⟨1, 0⟩) := rfl
  have hwrite : env.serve () (.sysWrite env.fdTty (asciiBytes "Extracting package...\n")) ⟨1, 0⟩ =
    ((), ⟨1, 0⟩) := rfl
  -- the calls in front of the loop leave the state that it starts with
  rw [installPackage, if_neg (Nat.not_le.mpr hpath)]
  simp only [zpmAsk, Prog.request_bind]
  rw [Prog.transcript, Prog.run, hopen, if_neg (not_lt.mpr hopens), Prog.transcript, Prog.run, hwrite,
    Prog.transcript_bind, Prog.run_bind, hrun, htranscript]
  refine ⟨rfl, segments, hsegments, ?_⟩
  rw [List.append_assoc, List.append_assoc]
  rfl

/-- A kernel with a package of two files, the second of which it does not open. -/
def sampleZpm : ZpmEnv where
  fdTty := 2
  opens k := if k = 0 then 3 else if k = 1 then 4 else -1
  package := archive sampleMembers
  fresh k hk := by
    rw [if_neg k.succ_ne_zero] at hk ⊢
    split at hk
    · rw [if_pos ‹_›]
      decide
    · exact absurd hk (by decide)

theorem installPackage_extracts_sample :
    ((installPackage sampleZpm.fdTty [0x67] (fun _ => 0) 3).run sampleZpm.serve () ⟨0, 0⟩).1 = some () ∧
      Installs sampleZpm (packagePath [0x67]) sampleMembers
        ((installPackage sampleZpm.fdTty [0x67] (fun _ => 0) 3).transcript sampleZpm.serve () ⟨0, 0⟩) := by
  refine installPackage_extracts (List.append_nil _).symm ?_ (by decide) (by decide) (by decide)
  intro m hm
  rcases List.mem_cons.mp hm with rfl | hm
  · exact Or.inl rfl
  · rcases List.mem_singleton.mp hm with rfl
    exact Or.inl rfl

end Package

end ZohoOs
