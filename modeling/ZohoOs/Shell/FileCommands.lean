import ZohoOs.Fs.StoreRefinement
import ZohoOs.Shell.LineEdit

/-!
# Commands on files

What `shell_execute` does for a line: which command it is, and for `ls`, `cat` and `write` the calls of
`vfs.c` it makes and the text it prints. Each opens its file, and closes it again, so that the commands
work on named files and need no descriptors to be understood.

## Main definitions

* `parseCommand`: the comparisons of `shell_execute`, in their order
* `shellLs`, `shellCat`, `shellWrite`: the commands on files
* `FileCommand.exec`: what they do to files with names and contents

## Main results

* `StandsFor.fileCommand`: what a command prints, and the files it leaves
* `fileCommands_refine`: a session of commands after the boot
* `write_then_cat`: a text that is written is printed
-/

namespace ZohoOs

open Program

/-! ## Command lines -/

inductive ShellCommand
  | help
  | dashboard
  | monitor
  | top
  | fork
  | tcp (rest : List Byte)
  | udp (msg : List Byte)
  | ping (ipStr : List Byte)
  | net
  | ls
  | cat (filename : List Byte)
  | exec (filename : List Byte)
  | gui
  | write (rest : List Byte)
  | free
  | heap
  | locks
  | stressProc
  | stressDisk
  | ticks
  | clear
  /-- No command: a file is executed. -/
  | file (cmd : List Byte)
  | empty
  deriving DecidableEq

/-- The comparisons of `shell_execute`: `strcmp` with a command, or `memcmp` with the start of one. -/
def parseCommand (cmd : List Byte) : ShellCommand :=
  if cmd = asciiBytes "help" then .help
  else if cmd = asciiBytes "dashboard" then .dashboard
  else if cmd = asciiBytes "monitor" then .monitor
  else if cmd = asciiBytes "top" then .top
  else if cmd = asciiBytes "fork" then .fork
  else if asciiBytes "tcp " <+: cmd then .tcp (cmd.drop 4)
  else if asciiBytes "udp " <+: cmd then .udp (cmd.drop 4)
  else if asciiBytes "ping " <+: cmd then .ping (cmd.drop 5)
  else if cmd = asciiBytes "net" then .net
  else if cmd = asciiBytes "ls" then .ls
  else if asciiBytes "cat " <+: cmd then .cat (cmd.drop 4)
  else if asciiBytes "exec " <+: cmd then .exec (cmd.drop 5)
  else if cmd = asciiBytes "gui" then .gui
  else if asciiBytes "write " <+: cmd then .write (cmd.drop 6)
  else if cmd = asciiBytes "free" then .free
  else if cmd = asciiBytes "heap" then .heap
  else if cmd = asciiBytes "locks" then .locks
  else if cmd = asciiBytes "stress_proc" then .stressProc
  else if cmd = asciiBytes "stress_disk" then .stressDisk
  else if cmd = asciiBytes "ticks" then .ticks
  else if cmd = asciiBytes "clear" then .clear
  else if cmd ≠ [] then .file cmd
  else .empty

/-- The commands on files. -/
inductive FileCommand
  | ls
  | cat (filename : List Byte)
  | write (rest : List Byte)

def ShellCommand.onFiles : ShellCommand → Option FileCommand
  | .ls => some .ls
  | .cat filename => some (.cat filename)
  | .write rest => some (.write rest)
  | _ => none

/-! ## The commands -/

def fileNotFound : List Byte := asciiBytes "File not found.\n"

def fileWritten : List Byte := asciiBytes "File written.\n"

def writeUsage : List Byte := asciiBytes "Usage: write <file> <text>\n"

/-- The loop of `ls`: what is printed, or `none` where there are more rounds than `fuel`. -/
def shellLs (start : BitVec 32) : Nat → Int → VfsProg (Option (List Byte))
  | 0, _ => pure none
  | fuel + 1, i => do
    match ← vfsReaddir start i with
    | none => pure none
    | some (result, name) =>
      if result = 0 then do
        let rest ← shellLs start fuel (i + 1)
        pure (rest.map fun rest => name.getD [] ++ [10#8] ++ rest)
      else pure (some [])

/-- `cat`, with what the block of `kmalloc` holds. The buffer is printed as a string. Where `kmalloc` gives
`NULL` the file is read to address 0, and the model ends. -/
def shellCat (start : BitVec 32) (stack : Sector) (heap : Option Buffer) (filename : List Byte) :
    VfsProg (Option (List Byte)) := do
  match ← vfsOpen start filename with
  | none => pure none
  | some fd =>
    if fd < 0 then pure (some fileNotFound)
    else
      let sz ← vfsSize fd
      match heap with
      | none => pure none
      | some heap =>
        let (_, buf) ← vfsRead stack fd heap sz
        vfsClose fd
        pure (some (((List.range sz.toNat).map buf).takeWhile (· ≠ 0) ++ [10#8]))

/-- The loop of `write` over the line: the name in front of the first space, and the text behind it. -/
def splitLoop (filename : List Byte) : List Byte → Option (List Byte × List Byte)
  | [] => none
  | c :: rest => if c = 0x20 then some (filename, rest) else splitLoop (filename ++ [c]) rest

/-- `write`. -/
def shellWrite (start : BitVec 32) (stack : Sector) (rest : List Byte) :
    VfsProg (Option (List Byte)) :=
  match splitLoop [] rest with
  | none => pure (some writeUsage)
  | some (filename, data) => do
    match ← vfsOpen start filename with
    | none => pure none
    | some fd =>
      if fd < 0 then pure (some fileNotFound)
      else
        let _ ← vfsWrite stack fd (fun i => data.getD i 0) (BitVec.ofNat 32 data.length)
        vfsClose fd
        pure (some fileWritten)

/-- More rounds than there are members in an archive. -/
def lsFuel : Nat := 20001

/-- A line, with what the stack holds, and the block `kmalloc` gives if it is asked for one. -/
structure CommandLine where
  cmd : List Byte
  stack : Sector
  heap : Option Buffer

def FileCommand.prog (start : BitVec 32) (stack : Sector) (heap : Option Buffer) :
    FileCommand → VfsProg (Option (List Byte))
  | .ls => shellLs start lsFuel 0
  | .cat filename => shellCat start stack heap filename
  | .write rest => shellWrite start stack rest

/-- `shell_execute` for the commands on files: what is printed, with the prompt at the end. -/
def shellFiles (start : BitVec 32) (line : CommandLine) : VfsProg (Option (List Byte)) :=
  match (parseCommand line.cmd).onFiles with
  | none => pure none
  | some c => do
    let text ← c.prog start line.stack line.heap
    pure (text.map (· ++ shellPrompt))

/-- One line after the other. -/
def shellSession (start : BitVec 32) : List CommandLine → VfsProg (List (Option (List Byte)))
  | [] => pure []
  | line :: lines => do
    let text ← shellFiles start line
    let texts ← shellSession start lines
    pure (text :: texts)

/-! ## What they are for -/

/-- Files with their names and contents. -/
abbrev Files := List (List Byte × List Byte)

/-- A text over the start of a file, whose size does not change. -/
def overwrite (contents text : List Byte) : List Byte :=
  text.take contents.length ++ contents.drop text.length

/-- **What a command on files does**: the text it prints, and the files it leaves. -/
def FileCommand.exec (files : Files) : FileCommand → List Byte × Files
  | .ls => (files.flatMap fun f => f.1 ++ [10#8], files)
  | .cat filename =>
    match files.find? fun f => f.1 = filename with
    | some f => (f.2.takeWhile (· ≠ 0) ++ [10#8], files)
    | none => (fileNotFound, files)
  | .write rest =>
    match splitLoop [] rest with
    | none => (writeUsage, files)
    | some (filename, data) =>
      match files.findIdx? fun f => f.1 = filename with
      | some k => (fileWritten, files.modify k fun f => (f.1, overwrite f.2 data))
      | none => (fileNotFound, files)

/-- One command after the other. -/
def execAll : List FileCommand → Files → List (List Byte) × Files
  | [], files => ([], files)
  | c :: cs, files =>
    let (text, files) := c.exec files
    let (texts, files) := execAll cs files
    ((text ++ shellPrompt) :: texts, files)

/-- What `input_buffer` can hold: a string of less than 256 bytes. `cat` is given its block, which it does
not check. -/
structure CommandLine.Valid (line : CommandLine) : Prop where
  short : line.cmd.length < maxBuffer
  ne : ∀ c ∈ line.cmd, c ≠ 0
  block : ∀ filename, parseCommand line.cmd = .cat filename → line.heap ≠ none

/-! ## Files that are opened and closed again -/

section Store

variable {store : FileStore} {i : Fin 16} {f g : Option OpenFile} {file : OpenFile}

@[simp] theorem FileStore.setOpened_setOpened :
    (store.setOpened i f).setOpened i g = store.setOpened i g := by
  simp [setOpened]

@[simp] theorem FileStore.setOpened_files : (store.setOpened i f).files = store.files := rfl

@[simp] theorem FileStore.setOpened_contents (k : Nat) :
    (store.setOpened i f).contents k = store.contents k := rfl

theorem FileStore.setOpened_free (hfree : store.opened i = none) : store.setOpened i none = store := by
  rw [setOpened, ← hfree, Function.update_eq_self]

/-- The descriptor that a number stands for, once it is opened. -/
theorem FileStore.descriptor_setOpened (store : FileStore) (i : Fin 16) (file : OpenFile) :
    (store.setOpened i (some file)).descriptor i.val = some (i, file) := by
  have hi := i.isLt
  rw [descriptor, dif_pos ⟨by omega, by omega⟩]
  simp only [Int.toNat_natCast, setOpened, Fin.eta, Function.update_self, Option.map_some]

theorem FileStore.close_setOpened (hfree : store.opened i = none) :
    (store.setOpened i f).close i.val = store := by
  have hi := i.isLt
  rw [close, dif_pos ⟨by omega, by omega⟩]
  simp only [Int.toNat_natCast, Fin.eta, setOpened_setOpened]
  exact setOpened_free hfree

/-- Where there is a descriptor left, a file that there is is opened. -/
theorem FileStore.openFile_free {i₀ : Fin 16} (hfree : store.opened i₀ = none) (path : List Byte) :
    ∃ i, store.opened i = none ∧ store.openFile path =
      match store.files.findIdx? fun f => f.1 = path with
      | none => (-1, store)
      | some k => (i.val, store.setOpened i (some ⟨k, 0⟩)) := by
  obtain ⟨i, hfind⟩ : ∃ i, ((List.finRange 16).find? fun i => (store.opened i).isNone) = some i := by
    rw [← Option.isSome_iff_exists, List.find?_isSome]
    exact ⟨i₀, List.mem_finRange i₀, by rw [hfree]; rfl⟩
  have hi := List.find?_some hfind
  refine ⟨i, Option.isNone_iff_eq_none.mp hi, ?_⟩
  rw [openFile]
  cases store.files.findIdx? fun f => f.1 = path with
  | none => rfl
  | some k => simp only [hfind]

/-- A file that is read from its start. -/
theorem FileStore.read_start (store : FileStore) (i : Fin 16) (k : Nat) (buffer : Buffer) :
    (((store.setOpened i (some ⟨k, 0⟩)).read i.val buffer (store.contents k).length).1.2 =
      fillBuffer (store.contents k) 0 (store.contents k).length buffer) ∧
    ∃ file, ((store.setOpened i (some ⟨k, 0⟩)).read i.val buffer (store.contents k).length).2 =
      store.setOpened i (some file) := by
  rw [read, descriptor_setOpened]
  simp only [setOpened_contents, Nat.sub_zero, Nat.min_self, setOpened_setOpened, true_and]
  exact ⟨_, rfl⟩

theorem map_fillBuffer (contents : List Byte) (buffer : Buffer) :
    (List.range contents.length).map (fillBuffer contents 0 contents.length buffer) = contents := by
  apply List.ext_getElem
  · rw [List.length_map, List.length_range]
  · intro j _ hj
    rw [List.getElem_map, List.getElem_range, fillBuffer, if_pos hj, Nat.zero_add,
      List.getD_eq_getElem _ _ hj]

/-- A text that is written from the start of a file. -/
theorem splice_start (contents text : List Byte) :
    splice contents 0 (min text.length contents.length) (fun j => text.getD j 0) =
      overwrite contents text := by
  apply List.ext_getElem
  · rw [length_splice, overwrite, List.length_append, List.length_take, List.length_drop]
    omega
  · intro j hj hj'
    rw [length_splice] at hj
    simp only [splice, List.getElem_mapIdx, overwrite, List.getElem_append, List.length_take,
      List.getElem_take, List.getElem_drop, Nat.zero_le, true_and, Nat.zero_add, Nat.sub_zero]
    by_cases htext : j < text.length
    · rw [if_pos (by omega), dif_pos (by omega), List.getD_eq_getElem _ _ htext]
    · rw [if_neg (by omega), dif_neg (by omega)]
      congr 1
      omega

/-- A file that is written from its start. -/
theorem FileStore.write_start (store : FileStore) (i : Fin 16) (k : Nat) (text : List Byte) :
    ∃ file, ((store.setOpened i (some ⟨k, 0⟩)).write i.val (fun j => text.getD j 0) text.length).2 =
      FileStore.setOpened { store with files := store.files.modify k fun f => (f.1, splice f.2 0
        (min text.length (store.contents k).length) fun j => text.getD j 0) } i (some file) := by
  rw [write, descriptor_setOpened]
  simp only [setOpened_contents, Nat.sub_zero, setOpened_setOpened, setOpened_files]
  exact ⟨_, rfl⟩

/-- The file is the one that was opened, so as much is written as it holds. -/
theorem FileStore.modify_splice (store : FileStore) (k : Nat) (text : List Byte) :
    (store.files.modify k fun f => (f.1, splice f.2 0
      (min text.length (store.contents k).length) fun j => text.getD j 0)) =
        store.files.modify k fun f => (f.1, overwrite f.2 text) := by
  apply List.ext_getElem?
  intro j
  rw [List.getElem?_modify, List.getElem?_modify]
  by_cases hj : k = j
  · subst hj
    cases hk : store.files[k]? with
    | none => rfl
    | some f =>
      have hcontents : store.contents k = f.2 := by
        rw [contents, List.getD_eq_getElem?_getD, hk]
        rfl
      simp only [if_pos, Option.map_eq_map, Option.map_some, hcontents, splice_start]
  · simp only [if_neg hj]

end Store

/-! ## The arguments of a command -/

/-- What the arguments of a command are: a part of the line. -/
def FileCommand.args : FileCommand → List Byte
  | .ls => []
  | .cat filename => filename
  | .write rest => rest

/-- Every other command is on no files. -/
theorem onFiles_cases {cmd : List Byte} {c : FileCommand} (hc : (parseCommand cmd).onFiles = some c) :
    c = .ls ∨ c = .cat (cmd.drop 4) ∨ c = .write (cmd.drop 6) := by
  revert hc
  fun_cases parseCommand cmd <;> intro hc <;> cases hc
  · exact .inl rfl
  · exact .inr (.inl rfl)
  · exact .inr (.inr rfl)

theorem parseCommand_args {line : CommandLine} (hvalid : line.Valid) {c : FileCommand}
    (hc : (parseCommand line.cmd).onFiles = some c) :
    (∀ b ∈ c.args, b ≠ 0) ∧ c.args.length < maxBuffer := by
  have hdrop : ∀ k, (∀ b ∈ line.cmd.drop k, b ≠ 0) ∧ (line.cmd.drop k).length < maxBuffer :=
    fun k => ⟨fun b hb => hvalid.ne b (List.mem_of_mem_drop hb),
      lt_of_le_of_lt (by rw [List.length_drop]; omega) hvalid.short⟩
  unfold parseCommand at hc
  obtain rfl | rfl | rfl := onFiles_cases hc
  · exact ⟨fun b hb => absurd hb List.not_mem_nil, by unfold maxBuffer; decide⟩
  · exact hdrop 4
  · exact hdrop 6

/-! ## The commands refine their description -/

section Commands

variable {start : BitVec 32} {ms : List Member} {s : Vfs} {store : FileStore} {i₀ : Fin 16}

theorem ShellCommand.onFiles_cat {c : ShellCommand} {filename : List Byte}
    (h : c.onFiles = some (.cat filename)) : c = .cat filename := by
  cases c <;> simp [onFiles] at h ⊢
  exact h

theorem StandsFor.length_lt (h : StandsFor start ms s store) : store.files.length < lsFuel := by
  have hpos := archiveSectors_pos ms
  have hshort := h.onDisk.short
  rw [h.files, List.length_map, lsFuel]
  omega

theorem StandsFor.shellLs (h : StandsFor start ms s store) (fuel k : Nat)
    (hfuel : store.files.length < fuel + k) (hk : k ≤ store.files.length) : ∃ s',
      (shellLs start fuel k).run Vfs.serve true s =
        (some ((store.files.drop k).flatMap fun f => f.1 ++ [10#8]), s') ∧
          StandsFor start ms s' store := by
  induction fuel generalizing s k with
  | zero => omega
  | succ fuel ih =>
    obtain ⟨s₁, hrun, h₁⟩ := h.readdir k
    rw [ZohoOs.shellLs, Prog.run_bind, hrun, FileStore.readdir, Int.toNat_natCast]
    rcases Nat.lt_or_ge k store.files.length with hlt | hge
    · obtain ⟨s₂, hrun₂, h₂⟩ := ih h₁ (k + 1) (by omega) hlt
      rw [List.getElem?_eq_getElem hlt, List.drop_eq_getElem_cons hlt]
      refine ⟨s₂, ?_, h₂⟩
      simp only [if_neg (Int.not_lt.mpr (Int.natCast_nonneg k)), if_true, Prog.run_bind]
      rw [show (k : Int) + 1 = ((k + 1 : Nat) : Int) from rfl, hrun₂, List.flatMap_cons]
      rfl
    · -- there is no file with this number, and the loop ends
      rw [List.getElem?_eq_none hge, List.drop_eq_nil_of_le hge]
      exact ⟨s₁, rfl, h₁⟩

theorem StandsFor.contents_lt (h : StandsFor start ms s store) (k : Nat) :
    (store.contents k).length < 2 ^ 24 := by
  cases hm : ms[k]? with
  | none =>
    rw [FileStore.contents, h.files, List.getD_eq_getElem?_getD, List.getElem?_map, hm]
    decide
  | some m =>
    rw [h.contents hm]
    exact (h.size_lt hm).1

theorem StandsFor.shellCat (h : StandsFor start ms s store) (hfree : store.opened i₀ = none)
    (stack : Sector) (heap : Buffer) {filename : List Byte} (hname : ∀ c ∈ filename, c ≠ 0) : ∃ s',
      (shellCat start stack (some heap) filename).run Vfs.serve true s =
        (some ((FileCommand.cat filename).exec store.files).1, s') ∧ StandsFor start ms s' store := by
  obtain ⟨s₁, hopen, h₁⟩ := h.openFile hname
  obtain ⟨i, hi, hfile⟩ := FileStore.openFile_free hfree filename
  rw [ZohoOs.shellCat, Prog.run_bind, hopen, FileCommand.exec, List.find?_eq_bind_findIdx?_getElem?]
  rw [hfile] at h₁ ⊢
  cases hidx : store.files.findIdx? fun f => f.1 = filename with
  | none =>
    rw [hidx] at h₁
    exact ⟨s₁, rfl, h₁⟩
  | some k =>
    rw [hidx] at h₁
    have hk := (List.findIdx?_eq_some_iff_getElem.mp hidx).1
    have hcontents : store.contents k = store.files[k].2 := by
      rw [FileStore.contents, List.getD_eq_getElem _ _ hk]
    -- the size is the length of the file
    have hsize : (store.setOpened i (some ⟨k, 0⟩)).size i.val = (store.contents k).length := by
      rw [FileStore.size, FileStore.descriptor_setOpened]
      rfl
    have hnat : (BitVec.ofNat 32 (store.contents k).length).toNat = (store.contents k).length := by
      have := h.contents_lt k
      rw [BitVec.toNat_ofNat]
      omega
    obtain ⟨s₂, hread, h₂⟩ := h₁.read stack i.val heap (BitVec.ofNat 32 (store.contents k).length)
    rw [hnat] at hread h₂
    obtain ⟨hbuffer, file, hstore⟩ := FileStore.read_start store i k heap
    rw [hstore] at h₂
    have h₃ := h₂.close i.val
    rw [FileStore.close_setOpened hi] at h₃
    refine ⟨_, ?_, h₃⟩
    simp only [Option.bind_some, List.getElem?_eq_getElem hk,
      if_neg (Int.not_lt.mpr (Int.natCast_nonneg i.val))]
    rw [vfsSize, vfsAsk, Prog.request_bind, Prog.run]
    simp only [Vfs.serve]
    rw [h₁.size, hsize, Prog.run_bind, hread, hnat]
    generalize (store.setOpened i (some ⟨k, 0⟩)).read i.val heap (store.contents k).length = r at *
    rw [show r.1 = (r.1.1, r.1.2) from rfl, hbuffer]
    simp only [map_fillBuffer, hcontents]
    rfl

/-- The name and the text are what is in front of a space and behind it. -/
theorem splitLoop_some {filename rest name data : List Byte}
    (hsplit : splitLoop filename rest = some (name, data)) :
    filename ++ rest = name ++ 0x20#8 :: data := by
  induction rest generalizing filename with
  | nil => cases hsplit
  | cons c rest ih =>
    rw [splitLoop] at hsplit
    split at hsplit
    · next hc =>
      obtain ⟨rfl, rfl⟩ := Prod.mk.inj (Option.some.inj hsplit)
      rw [hc]
      rfl
    · rw [← ih hsplit, List.append_assoc]
      rfl

theorem StandsFor.shellWrite (h : StandsFor start ms s store) (hfree : store.opened i₀ = none)
    (stack : Sector) {rest : List Byte} (hrest : ∀ c ∈ rest, c ≠ 0) (hlen : rest.length < maxBuffer) :
    ∃ ms' s', (shellWrite start stack rest).run Vfs.serve true s =
        (some ((FileCommand.write rest).exec store.files).1, s') ∧
      StandsFor start ms' s' { store with files := ((FileCommand.write rest).exec store.files).2 } := by
  rw [ZohoOs.shellWrite, FileCommand.exec]
  cases hsplit : splitLoop [] rest with
  | none => exact ⟨ms, s, rfl, h⟩
  | some x =>
    obtain ⟨filename, data⟩ := x
    have hparts : rest = filename ++ 0x20#8 :: data := splitLoop_some hsplit
    have hname : ∀ c ∈ filename, c ≠ 0 := fun c hc =>
      hrest c (by rw [hparts]; exact List.mem_append_left _ hc)
    have hdata : data.length < 256 := by
      have := congrArg List.length hparts
      rw [List.length_append, List.length_cons] at this
      unfold maxBuffer at hlen
      omega
    obtain ⟨s₁, hopen, h₁⟩ := h.openFile hname
    obtain ⟨i, hi, hfile⟩ := FileStore.openFile_free hfree filename
    dsimp only
    rw [Prog.run_bind, hopen]
    rw [hfile] at h₁ ⊢
    cases hidx : store.files.findIdx? fun f => f.1 = filename with
    | none =>
      rw [hidx] at h₁
      exact ⟨ms, s₁, rfl, h₁⟩
    | some k =>
      rw [hidx] at h₁
      have hnat : (BitVec.ofNat 32 data.length).toNat = data.length := by
        rw [BitVec.toNat_ofNat]
        omega
      have hcount : (BitVec.ofNat 32 data.length).toNat < 2 ^ 31 := by omega
      obtain ⟨ms₂, s₂, hwrite, h₂⟩ := h₁.write stack i.val (fun j => data.getD j 0) hcount
      rw [hnat] at hwrite h₂
      obtain ⟨file, hstore⟩ := FileStore.write_start store i k data
      rw [hstore] at h₂
      have h₃ := h₂.close i.val
      rw [FileStore.modify_splice, FileStore.close_setOpened (by exact hi)] at h₃
      refine ⟨ms₂, _, ?_, h₃⟩
      simp only [if_neg (Int.not_lt.mpr (Int.natCast_nonneg i.val)), Prog.run_bind, hwrite]
      rfl

/-- **A command on files** prints what its description says, and leaves those files. Its descriptor is
free again. -/
theorem StandsFor.fileCommand (h : StandsFor start ms s store) (hfree : store.opened i₀ = none)
    {line : CommandLine} (hvalid : line.Valid) {c : FileCommand}
    (hc : (parseCommand line.cmd).onFiles = some c) : ∃ ms' s',
      (shellFiles start line).run Vfs.serve true s =
        (some ((c.exec store.files).1 ++ shellPrompt), s') ∧
      StandsFor start ms' s' { store with files := (c.exec store.files).2 } := by
  obtain ⟨hne, hlen⟩ := parseCommand_args hvalid hc
  rw [shellFiles, hc]
  cases c with
  | ls =>
    obtain ⟨s', hrun, hstands⟩ := h.shellLs lsFuel 0 (by have := h.length_lt; omega) (Nat.zero_le _)
    rw [Int.natCast_zero] at hrun
    exact ⟨ms, s', by simp only [FileCommand.prog, Prog.run_bind, hrun]; rfl, hstands⟩
  | cat filename =>
    obtain ⟨heap, hblock⟩ :=
      Option.ne_none_iff_exists'.mp (hvalid.block filename (ShellCommand.onFiles_cat hc))
    obtain ⟨s', hrun, hstands⟩ := h.shellCat hfree line.stack heap (show ∀ c ∈ filename, c ≠ 0 from hne)
    refine ⟨ms, s', by simp only [FileCommand.prog, hblock, Prog.run_bind, hrun]; rfl, ?_⟩
    rw [FileCommand.exec]
    cases store.files.find? fun f => f.1 = filename <;> exact hstands
  | write rest =>
    obtain ⟨ms', s', hrun, hstands⟩ := h.shellWrite hfree line.stack (show ∀ c ∈ rest, c ≠ 0 from hne) hlen
    exact ⟨ms', s', by simp only [FileCommand.prog, Prog.run_bind, hrun]; rfl, hstands⟩

theorem StandsFor.shellSession (h : StandsFor start ms s store) (hfree : store.opened i₀ = none)
    {lines : List CommandLine} (hvalid : ∀ line ∈ lines, line.Valid) {cs : List FileCommand}
    (hcs : lines.map (fun line => (parseCommand line.cmd).onFiles) = cs.map some) : ∃ ms' s',
      (shellSession start lines).run Vfs.serve true s = ((execAll cs store.files).1.map some, s') ∧
      StandsFor start ms' s' { store with files := (execAll cs store.files).2 } := by
  induction lines generalizing ms s store cs with
  | nil =>
    obtain rfl := List.map_eq_nil_iff.mp hcs.symm
    exact ⟨ms, s, rfl, h⟩
  | cons line lines ih =>
    cases cs with
    | nil => cases hcs
    | cons c cs =>
      obtain ⟨hc, hcs⟩ := List.cons.inj hcs
      obtain ⟨ms₁, s₁, hrun, h₁⟩ := h.fileCommand hfree (hvalid line List.mem_cons_self) hc
      obtain ⟨ms₂, s₂, hruns, h₂⟩ :=
        ih h₁ hfree (fun l hl => hvalid l (List.mem_cons_of_mem _ hl)) hcs
      refine ⟨ms₂, s₂, ?_, h₂⟩
      rw [ZohoOs.shellSession, Prog.run_bind, hrun, Prog.run_bind, hruns]
      rfl

/-- **A session of commands on files** after the boot prints what their description says, whatever is on
the stack and in the blocks `cat` is given, and leaves an archive of the files they leave. -/
theorem fileCommands_refine {disk : Disk} (h : OnDisk disk start ms) {lines : List CommandLine}
    (hvalid : ∀ line ∈ lines, line.Valid) {cs : List FileCommand}
    (hcs : lines.map (fun line => (parseCommand line.cmd).onFiles) = cs.map some) : ∃ ms' s',
      (shellSession start lines).run Vfs.serve true (bootVfsOn disk) =
        ((execAll cs (ms.map fun m => (m.name, m.contents))).1.map some, s') ∧
      OnDisk s'.disk start ms' ∧ ms'.map (fun m => (m.name, m.contents)) =
        (execAll cs (ms.map fun m => (m.name, m.contents))).2 := by
  obtain ⟨ms', s', hrun, hstands⟩ :=
    (standsFor_boot h).shellSession (show (_ : FileStore).opened 0 = none from rfl) hvalid hcs
  exact ⟨ms', s', hrun, hstands.onDisk, hstands.files.symm⟩

/-- A text is written over a file of three bytes, which is printed then. Only that needs a block. -/
def sampleLines : List CommandLine :=
  [⟨asciiBytes "write a hi", onesSector, none⟩, ⟨asciiBytes "cat a", onesSector, some onesBuffer⟩]

def sampleCommands : List FileCommand := [.write (asciiBytes "a hi"), .cat (asciiBytes "a")]

theorem fileCommands_refine_sample : (∀ line ∈ sampleLines, line.Valid) ∧
    sampleLines.map (fun line => (parseCommand line.cmd).onFiles) = sampleCommands.map some ∧
    ∃ ms' s', (shellSession 2048 sampleLines).run Vfs.serve true (bootVfsOn sampleVfs.disk) =
        ((execAll sampleCommands (sampleMembers.map fun m => (m.name, m.contents))).1.map some, s') ∧
      OnDisk s'.disk 2048 ms' ∧ ms'.map (fun m => (m.name, m.contents)) =
        (execAll sampleCommands (sampleMembers.map fun m => (m.name, m.contents))).2 := by
  have hvalid : ∀ line ∈ sampleLines, line.Valid := by
    intro line hline
    obtain rfl | rfl := List.mem_pair.mp hline
    · exact ⟨by decide, by decide, nofun⟩
    · exact ⟨by decide, by decide, nofun⟩
  have hcs : sampleLines.map (fun line => (parseCommand line.cmd).onFiles) =
      sampleCommands.map some := rfl
  exact ⟨hvalid, hcs, fileCommands_refine sampleVfs_onDisk hvalid hcs⟩

end Commands

/-! ## Writing and printing -/

/-- The name ends at the first space. -/
theorem splitLoop_append {filename name : List Byte} (hname : 0x20#8 ∉ name) (text : List Byte) :
    splitLoop filename (name ++ 0x20#8 :: text) = some (filename ++ name, text) := by
  induction name generalizing filename with
  | nil => simp [splitLoop]
  | cons c name ih =>
    rw [List.mem_cons, not_or] at hname
    have hc : ¬ c = 0x20 := fun hc => hname.1 hc.symm
    rw [List.cons_append, splitLoop, if_neg hc, ih hname.2, List.append_assoc]
    rfl

/-- **A text that is written is printed**, with what the file held behind it. -/
theorem write_then_cat {files : Files} {name text : List Byte} {f : List Byte × List Byte}
    (hname : 0x20#8 ∉ name) (hfile : (files.find? fun f => f.1 = name) = some f) :
    ((FileCommand.cat name).exec
      ((FileCommand.write (name ++ 0x20#8 :: text)).exec files).2).1 =
        (overwrite f.2 text).takeWhile (· ≠ 0) ++ [10#8] := by
  rw [List.find?_eq_bind_findIdx?_getElem?, Option.bind_eq_some_iff] at hfile
  obtain ⟨k, hk, hf⟩ := hfile
  have hwrite : ((FileCommand.write (name ++ 0x20#8 :: text)).exec files).2 =
      files.modify k fun f => (f.1, overwrite f.2 text) := by
    simp only [FileCommand.exec, splitLoop_append hname, List.nil_append, hk]
  -- the first file with the name is the same one
  have hindex : ((files.modify k fun f => (f.1, overwrite f.2 text)).findIdx? fun f => f.1 = name) =
      some k := by
    obtain ⟨hlt, hname, hbefore⟩ := List.findIdx?_eq_some_iff_getElem.mp hk
    rw [List.findIdx?_eq_some_iff_getElem]
    refine ⟨by rwa [List.length_modify], ?_, fun j hj => ?_⟩
    · simpa [List.getElem_modify] using hname
    · simpa [List.getElem_modify, Nat.ne_of_gt hj] using hbefore j hj
  rw [hwrite, FileCommand.exec, List.find?_eq_bind_findIdx?_getElem?, hindex, Option.bind_some,
    List.getElem?_modify, hf]
  simp only [Option.map_eq_map, Option.map_some, if_true]

end ZohoOs
