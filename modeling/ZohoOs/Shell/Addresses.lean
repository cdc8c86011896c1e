import Mathlib.Data.List.TakeWhile
import ZohoOs.Net.Packet

/-!
# Addresses on the command line

The commands `ping` and `tcp` of `shell_execute` read an address with a loop that accumulates digits, goes
to the next part at a dot, and skips other characters. Whether they contact a host is decided by the number
of dots, and the port, alone.

## Main definitions

* `addressLoop`, `portLoop`: the loops over the characters
* `shellContact`: the host that a command line contacts
* `Decimal`, `DottedQuad`, `ContactWritten`: the addresses and ports that are written on a line
* `Readable`: the lines whose contact is the one that is written

## Main results

* `addressLoop_part`, `addressLoop_quad`: the parts that are counted, and what a dotted quad is read as
* `shellContact_written_iff`: a line contacts the host that is written on it, just if the line is readable
-/

namespace ZohoOs

/-! ## The commands -/

/-- `*p >= '0' && *p <= '9'`. -/
def IsDigit (c : Byte) : Prop := 0x30 ≤ c ∧ c ≤ 0x39

instance (c : Byte) : Decidable (IsDigit c) := inferInstanceAs (Decidable (_ ∧ _))

/-- A digit is put behind a number of `w` bits: `n * 10 + (*p - '0')`. -/
def appendDigit {w : Nat} (n : BitVec w) (c : Byte) : BitVec w := n * 10 + BitVec.ofNat w (c.toNat - 0x30)

/-- The loop over an address: `part`, `ip` and what is left of the line. It ends behind a character that
`stops` it. -/
def addressLoop (stops : Byte → Bool) : List Byte → Nat → Ipv4 → Nat × Ipv4 × List Byte
  | [], part, ip => (part, ip, [])
  | c :: p, part, ip =>
    if h : part < 4 then
      if IsDigit c then addressLoop stops p part (ip.set part (appendDigit ip[part] c))
      else if c = 0x2E then addressLoop stops p (part + 1) ip
      else if stops c then (part, ip, p)
      else addressLoop stops p part ip
    else (part, ip, c :: p)

/-- The loop of `tcp`, which a space ends. -/
def tcpAddressLoop : List Byte → Nat → Ipv4 → Nat × Ipv4 × List Byte := addressLoop (· = 0x20)

/-- The loop of `ping`. -/
def pingAddressLoop : List Byte → Nat → Ipv4 → Nat × Ipv4 × List Byte := addressLoop fun _ => false

/-- The loop over a port. -/
def portLoop : List Byte → BitVec 16 → BitVec 16
  | [], port => port
  | c :: p, port => if IsDigit c then portLoop p (appendDigit port c) else port

/-- `{0, 0, 0, 0}`. -/
def zeroIp : Ipv4 := Vector.replicate 4 0

/-- A call of `net_ping` or of `tcp_connect`. -/
inductive Contact
  | ping (ip : Ipv4)
  | tcp (ip : Ipv4) (port : BitVec 16)

/-- `tcp`, for what stands behind it. -/
def tcpCommand (rest : List Byte) : Option Contact :=
  let (part, ip, p) := tcpAddressLoop rest 0 zeroIp
  let port := portLoop p 0
  if part = 3 ∧ port > 0 then some (.tcp ip port) else none

/-- `ping`, for what stands behind it. -/
def pingCommand (ipStr : List Byte) : Option Contact :=
  let (part, ip, _) := pingAddressLoop ipStr 0 zeroIp
  if part = 3 then some (.ping ip) else none

/-- The commands in front of `tcp`, which are compared as a whole. -/
def wholeCommands : List (List Byte) := ["help", "dashboard", "monitor", "top", "fork"].map asciiBytes

/-- `shell_execute`: the host that a command line contacts, the bytes in front of its NUL. Only `tcp` and
`ping` contact one; `udp` sends to all. -/
def shellContact (cmd : List Byte) : Option Contact :=
  if cmd ∈ wholeCommands then none
  else if asciiBytes "tcp " <+: cmd then tcpCommand (cmd.drop 4)
  else if asciiBytes "udp " <+: cmd then none
  else if asciiBytes "ping " <+: cmd then pingCommand (cmd.drop 5)
  else none

/-! ## What is written -/

/-- The number behind `n` and these digits. -/
def decimalFrom (n : Nat) (text : List Byte) : Nat := text.foldl (fun n c => n * 10 + (c.toNat - 0x30)) n

/-- The text is a decimal number, with the value `n`. -/
def Decimal (text : List Byte) (n : Nat) : Prop :=
  text ≠ [] ∧ (∀ c ∈ text, IsDigit c) ∧ decimalFrom 0 text = n

/-- **A dotted quad**: four decimal numbers with dots between them, the bytes of an address. -/
def DottedQuad (s : List Byte) (ip : Ipv4) : Prop :=
  ∃ a b c d, s.splitOn 0x2E = [a, b, c, d] ∧
    Decimal a (ip.get 0).toNat ∧ Decimal b (ip.get 1).toNat ∧ Decimal c (ip.get 2).toNat ∧
      Decimal d (ip.get 3).toNat

/-- **The contact that is written on a line.** -/
def ContactWritten (cmd : List Byte) : Contact → Prop
  | .ping ip => ∃ s, cmd = asciiBytes "ping " ++ s ∧ DottedQuad s ip
  | .tcp ip port => ∃ s text, cmd = asciiBytes "tcp " ++ (s ++ 0x20 :: text) ∧ DottedQuad s ip ∧
      Decimal text port.toNat ∧ 0 < port.toNat

/-- Each part between the dots is a number of a byte. -/
def QuadReadable (s : List Byte) : Prop :=
  ∀ part ∈ s.splitOn 0x2E, part ≠ [] ∧ (∀ c ∈ part, IsDigit c) ∧ decimalFrom 0 part < 256

/-- What stands in front of the first space. -/
def firstWord (rest : List Byte) : List Byte := rest.takeWhile (· ≠ 0x20)

/-- What stands behind the first space. -/
def behindSpace (rest : List Byte) : List Byte := (rest.dropWhile (· ≠ 0x20)).drop 1

/-- The text behind `ping` has other than four parts, or each is a number of a byte. -/
def PingReadable (s : List Byte) : Prop := (s.splitOn 0x2E).length = 4 → QuadReadable s

/-- The text behind `tcp` has other than four parts, or a port that reads as 0, or it is an address and a
port. -/
def TcpReadable (rest : List Byte) : Prop :=
  ((firstWord rest).splitOn 0x2E).length = 4 →
    decimalFrom 0 ((behindSpace rest).takeWhile (IsDigit ·)) % 2 ^ 16 ≠ 0 →
    QuadReadable (firstWord rest) ∧ (∀ c ∈ behindSpace rest, IsDigit c) ∧
      decimalFrom 0 (behindSpace rest) < 2 ^ 16

/-- What stands behind `ping` or `tcp` on the line is readable. -/
def Readable (cmd : List Byte) : Prop :=
  (∀ s, cmd = asciiBytes "ping " ++ s → PingReadable s) ∧
    ∀ rest, cmd = asciiBytes "tcp " ++ rest → TcpReadable rest

/-! ## The loops -/

section Loops

variable {stops : Byte → Bool} {part : Nat} {ip : Ipv4}

/-- A separator gives one part more. -/
theorem length_splitOn (s : List Byte) : (s.splitOn 0x2E).length = s.count 0x2E + 1 := by
  induction s with
  | nil => rfl
  | cons c s ih =>
    rw [List.splitOn_cons_eq_if_modifyHead, List.count_cons]
    split
    · rw [List.length_cons, ih]
    · rw [List.length_modifyHead, ih]

theorem digit_ne_dot {c : Byte} (h : IsDigit c) : c ≠ 0x2E := by
  rintro rfl
  revert h
  decide

/-- **The parts that are counted** are those in front of the character that ends the loop, and behind it the
rest is left. -/
theorem addressLoop_part (hstops : ∀ c, stops c → ¬ IsDigit c ∧ c ≠ 0x2E) (s : List Byte) (hpart : part ≤ 4) :
    (addressLoop stops s part ip).1 = min 4 (part + (s.takeWhile (!stops ·)).count 0x2E) ∧
      ((addressLoop stops s part ip).1 < 4 →
        (addressLoop stops s part ip).2.2 = (s.dropWhile (!stops ·)).drop 1) := by
  induction s generalizing part ip with
  | nil => exact ⟨(Nat.min_eq_right hpart).symm, fun _ => rfl⟩
  | cons c p ih =>
    by_cases h : part < 4
    · have hread : stops c = false → (c :: p).takeWhile (!stops ·) = c :: p.takeWhile (!stops ·) ∧
          (c :: p).dropWhile (!stops ·) = p.dropWhile (!stops ·) := fun hc =>
        ⟨List.takeWhile_cons_of_pos (by simp [hc]), List.dropWhile_cons_of_pos (by simp [hc])⟩
      rw [addressLoop, dif_pos h]
      -- the tests of the loop, in its order
      by_cases hdigit : IsDigit c
      · have hc : stops c = false := by
          rw [Bool.eq_false_iff]
          exact fun hc => (hstops c hc).1 hdigit
        rw [if_pos hdigit, (hread hc).1, (hread hc).2, List.count_cons_of_ne (digit_ne_dot hdigit)]
        exact ih h.le
      · rw [if_neg hdigit]
        by_cases hdot : c = 0x2E
        · have hc : stops c = false := by
            rw [Bool.eq_false_iff]
            exact fun hc => (hstops c hc).2 hdot
          rw [if_pos hdot, (hread hc).1, (hread hc).2, hdot, List.count_cons_self,
            show part + ((p.takeWhile (!stops ·)).count 0x2E + 1) =
              part + 1 + (p.takeWhile (!stops ·)).count 0x2E by omega]
          exact ih h
        · rw [if_neg hdot]
          cases hc : stops c with
          | true =>
            rw [if_pos rfl, List.takeWhile_cons_of_neg (by simp [hc]),
              List.dropWhile_cons_of_neg (by simp [hc])]
            exact ⟨(Nat.min_eq_right hpart).symm, fun _ => rfl⟩
          | false =>
            rw [if_neg Bool.false_ne_true, (hread hc).1, (hread hc).2, List.count_cons_of_ne hdot]
            exact ih h.le
    · obtain rfl : part = 4 := by omega
      rw [addressLoop, dif_neg h]
      exact ⟨by omega, fun hlt => absurd hlt h⟩

/-- Digits that are read into a number of `w` bits. -/
theorem appendDigits_eq {w : Nat} (text : List Byte) (n : Nat) :
    text.foldl appendDigit (BitVec.ofNat w n) = BitVec.ofNat w (decimalFrom n text) := by
  induction text generalizing n with
  | nil => rfl
  | cons c text ih =>
    have hdigit : appendDigit (BitVec.ofNat w n) c = BitVec.ofNat w (n * 10 + (c.toNat - 0x30)) := by
      rw [appendDigit, BitVec.ofNat_add, BitVec.ofNat_mul]
      rfl
    rw [List.foldl_cons, hdigit, ih]
    rfl

/-- The digits of a part. -/
theorem addressLoop_digits (text rest : List Byte) (hdigits : ∀ c ∈ text, IsDigit c) (hpart : part < 4) :
    addressLoop stops (text ++ rest) part ip =
      addressLoop stops rest part (ip.set part (text.foldl appendDigit ip[part])) := by
  induction text generalizing ip with
  | nil => rw [List.foldl_nil, Vector.set_getElem_self, List.nil_append]
  | cons c text ih =>
    obtain ⟨hc, htext⟩ := List.forall_mem_cons.mp hdigits
    rw [List.cons_append, addressLoop, dif_pos hpart, if_pos hc, ih htext, Vector.set_set,
      Vector.getElem_set_self, List.foldl_cons]

/-- The digits of a part, and the dot behind it. -/
theorem addressLoop_dot (text rest : List Byte) (hdigits : ∀ c ∈ text, IsDigit c) (hpart : part < 4) :
    addressLoop stops (text ++ 0x2E :: rest) part ip =
      addressLoop stops rest (part + 1) (ip.set part (text.foldl appendDigit ip[part])) := by
  rw [addressLoop_digits text _ hdigits hpart, addressLoop, dif_pos hpart, if_neg (by decide), if_pos rfl]

theorem Decimal.foldl_eq {text : List Byte} {x : Byte} (h : Decimal text x.toNat) :
    text.foldl appendDigit 0#8 = x := by
  rw [appendDigits_eq, h.2.2, BitVec.ofNat_toNat, BitVec.setWidth_eq]

/-- The parts of a text that is split in four. -/
theorem eq_of_splitOn {s a b c d : List Byte} (h : s.splitOn 0x2E = [a, b, c, d]) :
    s = a ++ 0x2E :: (b ++ 0x2E :: (c ++ 0x2E :: d)) := by
  have hjoin : [(0x2E : Byte)].intercalate (s.splitOn 0x2E) = s := List.intercalate_splitOn 0x2E
  rw [← hjoin, h]
  simp [List.intercalate]

/-- **A dotted quad is read** as its four numbers. -/
theorem addressLoop_quad {s : List Byte} (h : DottedQuad s ip) (rest : List Byte) :
    addressLoop stops (s ++ rest) 0 zeroIp = addressLoop stops rest 3 ip := by
  obtain ⟨a, b, c, d, hsplit, ha, hb, hc, hd⟩ := h
  rw [eq_of_splitOn hsplit, List.append_assoc, List.cons_append, List.append_assoc, List.cons_append,
    List.append_assoc, List.cons_append]
  rw [addressLoop_dot a _ ha.2.1 (by decide), addressLoop_dot b _ hb.2.1 (by decide),
    addressLoop_dot c _ hc.2.1 (by decide), addressLoop_digits d _ hd.2.1 (by decide)]
  -- each part was read into a byte of its own, from 0 on
  refine congrArg (addressLoop stops rest 3) ?_
  change #v[a.foldl appendDigit 0#8, b.foldl appendDigit 0#8, c.foldl appendDigit 0#8,
    d.foldl appendDigit 0#8] = ip
  rw [ha.foldl_eq, hb.foldl_eq, hc.foldl_eq, hd.foldl_eq]
  refine Vector.ext fun i hi => ?_
  match i, hi with
  | 0, _ => rfl
  | 1, _ => rfl
  | 2, _ => rfl
  | 3, _ => rfl

/-- **The port** that is read, up to the first character that is not a digit. -/
theorem portLoop_eq (p : List Byte) (n : Nat) :
    portLoop p (BitVec.ofNat 16 n) = BitVec.ofNat 16 (decimalFrom n (p.takeWhile (IsDigit ·))) := by
  induction p generalizing n with
  | nil => rfl
  | cons c p ih =>
    rw [portLoop]
    by_cases hc : IsDigit c
    · have hdigit : appendDigit (BitVec.ofNat 16 n) c = BitVec.ofNat 16 (n * 10 + (c.toNat - 0x30)) :=
        @appendDigits_eq 16 [c] n
      rw [if_pos hc, hdigit, ih, List.takeWhile_cons_of_pos (by simpa using hc)]
      rfl
    · rw [if_neg hc, List.takeWhile_cons_of_neg (by simpa using hc)]
      rfl

end Loops

/-! ## The commands and what is written -/

section Quads

variable {s : List Byte} {ip : Ipv4}

theorem QuadReadable.exists_dottedQuad (hlen : (s.splitOn 0x2E).length = 4) (h : QuadReadable s) :
    ∃ ip, DottedQuad s ip := by
  obtain ⟨a, b, c, d, hsplit⟩ : ∃ a b c d, s.splitOn 0x2E = [a, b, c, d] := by
    -- the four parts by name
    obtain ⟨a, later, hsplit⟩ := List.exists_cons_of_length_eq_add_one hlen
    rw [hsplit] at hlen
    obtain ⟨b, c, d, rfl⟩ := List.length_eq_three.mp (Nat.succ.inj hlen)
    exact ⟨a, b, c, d, hsplit⟩
  have hpart : ∀ part ∈ [a, b, c, d], Decimal part (BitVec.ofNat 8 (decimalFrom 0 part)).toNat := by
    intro part hpart
    obtain ⟨hne, hdigits, hlt⟩ := h part (hsplit ▸ hpart)
    exact ⟨hne, hdigits, by rw [BitVec.toNat_ofNat, Nat.mod_eq_of_lt hlt]⟩
  exact ⟨#v[_, _, _, _], a, b, c, d, hsplit, hpart a (by simp), hpart b (by simp), hpart c (by simp),
    hpart d (by simp)⟩

theorem DottedQuad.readable (h : DottedQuad s ip) : QuadReadable s := by
  obtain ⟨a, b, c, d, hsplit, ha, hb, hc, hd⟩ := h
  have hdecimal : ∀ {part : List Byte} {x : Byte}, Decimal part x.toNat →
      part ≠ [] ∧ (∀ c ∈ part, IsDigit c) ∧ decimalFrom 0 part < 256 := fun hpart =>
    ⟨hpart.1, hpart.2.1, hpart.2.2 ▸ BitVec.isLt _⟩
  intro part hpart
  rw [hsplit] at hpart
  simp only [List.mem_cons, List.not_mem_nil, or_false] at hpart
  rcases hpart with rfl | rfl | rfl | rfl
  · exact hdecimal ha
  · exact hdecimal hb
  · exact hdecimal hc
  · exact hdecimal hd

/-- A quad has no spaces. -/
theorem DottedQuad.ne_space (h : DottedQuad s ip) : ∀ x ∈ s, x ≠ 0x20 := by
  obtain ⟨a, b, c, d, hsplit, ha, hb, hc, hd⟩ := h
  have hdigit : ∀ {part : List Byte} {n : Nat}, Decimal part n → ∀ x ∈ part, x ≠ 0x20 := by
    rintro part n hpart x hx rfl
    exact absurd (hpart.2.1 _ hx) (by decide)
  intro x hx
  rw [eq_of_splitOn hsplit] at hx
  simp only [List.mem_append, List.mem_cons] at hx
  rcases hx with hx | rfl | hx | rfl | hx | rfl | hx
  · exact hdigit ha x hx
  · decide
  · exact hdigit hb x hx
  · decide
  · exact hdigit hc x hx
  · decide
  · exact hdigit hd x hx

theorem DottedQuad.length (h : DottedQuad s ip) : (s.splitOn 0x2E).length = 4 := by
  obtain ⟨a, b, c, d, hsplit, -⟩ := h
  rw [hsplit]
  rfl

end Quads

section Ping

variable {s : List Byte}

theorem pingAddressLoop_part (s : List Byte) :
    (pingAddressLoop s 0 zeroIp).1 = 3 ↔ (s.splitOn 0x2E).length = 4 := by
  have hpart := (@addressLoop_part (fun _ => false) 0 zeroIp
    (fun c hc => absurd hc Bool.false_ne_true) s (Nat.zero_le 4)).1
  have hall : s.takeWhile (fun _ => !false) = s := List.takeWhile_eq_self_iff.mpr fun _ _ => rfl
  rw [hall] at hpart
  rw [pingAddressLoop, hpart, length_splitOn]
  omega

theorem pingCommand_isSome (s : List Byte) : (pingCommand s).isSome ↔ (s.splitOn 0x2E).length = 4 := by
  rw [← pingAddressLoop_part, pingCommand]
  exact Option.isSome_ite

theorem pingCommand_quad {ip : Ipv4} (h : DottedQuad s ip) : pingCommand s = some (.ping ip) := by
  have hloop : pingAddressLoop s 0 zeroIp = (3, ip, []) := by
    have hquad := @addressLoop_quad (fun _ => false) ip s h []
    rwa [List.append_nil] at hquad
  rw [pingCommand, hloop]
  rfl

end Ping

section Tcp

variable {rest : List Byte}

theorem tcpAddressLoop_part (rest : List Byte) :
    ((tcpAddressLoop rest 0 zeroIp).1 = 3 ↔ ((firstWord rest).splitOn 0x2E).length = 4) ∧
      ((tcpAddressLoop rest 0 zeroIp).1 = 3 →
        (tcpAddressLoop rest 0 zeroIp).2.2 = behindSpace rest) := by
  have hstops : ∀ c : Byte, decide (c = 0x20) = true → ¬ IsDigit c ∧ c ≠ 0x2E := by
    intro c hc
    rw [of_decide_eq_true hc]
    decide
  have hword : (fun c : Byte => !decide (c = 0x20)) = fun c => decide (c ≠ 0x20) := by
    funext c
    rw [decide_not]
  obtain ⟨hpart, hbehind⟩ := @addressLoop_part (· = 0x20) 0 zeroIp hstops rest (Nat.zero_le 4)
  rw [hword] at hpart hbehind
  -- with three dots the loop did not end at a fourth
  refine ⟨?_, fun h => hbehind (lt_of_eq_of_lt h (by decide))⟩
  rw [tcpAddressLoop, hpart, length_splitOn, firstWord]
  omega

/-- The port that is read behind the first space. -/
theorem tcpCommand_isSome (rest : List Byte) : (tcpCommand rest).isSome ↔
    ((firstWord rest).splitOn 0x2E).length = 4 ∧
      decimalFrom 0 ((behindSpace rest).takeWhile (IsDigit ·)) % 2 ^ 16 ≠ 0 := by
  obtain ⟨hpart, hbehind⟩ := tcpAddressLoop_part rest
  rw [← hpart, tcpCommand, Option.isSome_ite]
  by_cases h : (tcpAddressLoop rest 0 zeroIp).1 = 3
  · have hport : portLoop (behindSpace rest) 0 > 0 ↔
        decimalFrom 0 ((behindSpace rest).takeWhile (IsDigit ·)) % 2 ^ 16 ≠ 0 := by
      rw [gt_iff_lt, BitVec.lt_def, show (0 : BitVec 16) = BitVec.ofNat 16 0 from rfl, portLoop_eq,
        BitVec.toNat_ofNat, BitVec.toNat_ofNat, Nat.zero_mod, Nat.pos_iff_ne_zero]
    rw [hbehind h, hport]
  · exact ⟨fun hboth => absurd hboth.1 h, fun hboth => absurd hboth.1 h⟩

theorem firstWord_append {s : List Byte} (h : ∀ c ∈ s, c ≠ 0x20) (text : List Byte) :
    firstWord (s ++ 0x20 :: text) = s ∧ behindSpace (s ++ 0x20 :: text) = text := by
  have hpos : ∀ c ∈ s, decide (c ≠ 0x20) = true := fun c hc => decide_eq_true (h c hc)
  rw [firstWord, behindSpace, List.takeWhile_append_of_pos hpos, List.dropWhile_append_of_pos hpos,
    List.takeWhile_cons_of_neg (by decide), List.dropWhile_cons_of_neg (by decide), List.append_nil]
  exact ⟨rfl, rfl⟩

theorem eq_firstWord (h : behindSpace rest ≠ []) : rest = firstWord rest ++ 0x20 :: behindSpace rest := by
  have hsplit := List.takeWhile_append_dropWhile (p := (· ≠ (0x20 : Byte))) (l := rest)
  cases hdrop : rest.dropWhile (· ≠ 0x20) with
  | nil => exact absurd (by rw [behindSpace, hdrop]; rfl) h
  | cons c text =>
    have hspace : c = 0x20 := by
      have hhead := List.head?_dropWhile_not (· ≠ (0x20 : Byte)) rest
      rw [hdrop] at hhead
      simpa using hhead
    rw [hdrop, hspace] at hsplit
    rw [firstWord, behindSpace, hdrop, List.drop_one, List.tail_cons]
    exact hsplit.symm

/-- A port as it is written is read as it is. -/
theorem Decimal.portLoop_eq {text : List Byte} {port : BitVec 16} (h : Decimal text port.toNat) :
    portLoop text 0 = port := by
  have hall : text.takeWhile (IsDigit ·) = text :=
    List.takeWhile_eq_self_iff.mpr fun c hc => decide_eq_true (h.2.1 c hc)
  rw [show (0 : BitVec 16) = BitVec.ofNat 16 0 from rfl, ZohoOs.portLoop_eq, hall, h.2.2, BitVec.ofNat_toNat,
    BitVec.setWidth_eq]

theorem tcpCommand_quad {s text : List Byte} {ip : Ipv4} {port : BitVec 16} (h : DottedQuad s ip)
    (hport : Decimal text port.toNat) (hpos : 0 < port.toNat) :
    tcpCommand (s ++ 0x20 :: text) = some (.tcp ip port) := by
  have hloop : tcpAddressLoop (s ++ 0x20 :: text) 0 zeroIp = (3, ip, text) :=
    @addressLoop_quad (· = 0x20) ip s h (0x20 :: text)
  rw [tcpCommand, hloop]
  dsimp only
  rw [hport.portLoop_eq]
  exact if_pos ⟨rfl, hpos⟩

end Tcp

section Lines

/-- What is asked for is made; then what is made is asked for, just if something is asked for where
something is made. -/
theorem made_iff_asked {α : Type} {made : Option α} {Asked : α → Prop} (h : ∀ x, Asked x → made = some x) :
    (∀ x, made = some x ↔ Asked x) ↔ (made.isSome → ∃ x, Asked x) := by
  constructor
  · intro hiff hsome
    obtain ⟨x, hx⟩ := Option.isSome_iff_exists.mp hsome
    exact ⟨x, (hiff x).mp hx⟩
  · intro hasked x
    refine ⟨fun hmade => ?_, h x⟩
    -- what is asked for is made, and only one thing is made
    obtain ⟨y, hy⟩ := hasked (Option.isSome_iff_exists.mpr ⟨x, hmade⟩)
    obtain rfl : x = y := Option.some.inj (hmade.symm.trans (h y hy))
    exact hy

/-- **`ping`** contacts what is written behind it, just if that is readable. -/
theorem pingCommand_iff (s : List Byte) :
    (∀ contact, pingCommand s = some contact ↔ ∃ ip, contact = .ping ip ∧ DottedQuad s ip) ↔
      PingReadable s := by
  rw [made_iff_asked (by rintro _ ⟨ip, rfl, hquad⟩; exact pingCommand_quad hquad), pingCommand_isSome,
    PingReadable]
  refine forall_congr' fun hlen => ⟨?_, fun hread => ?_⟩
  · rintro ⟨_, ip, -, hquad⟩
    exact hquad.readable
  · obtain ⟨ip, hquad⟩ := hread.exists_dottedQuad hlen
    exact ⟨_, ip, rfl, hquad⟩

/-- **`tcp`** contacts what is written behind it, just if that is readable. -/
theorem tcpCommand_iff (rest : List Byte) :
    (∀ contact, tcpCommand rest = some contact ↔ ∃ s text ip port, contact = .tcp ip port ∧
        rest = s ++ 0x20 :: text ∧ DottedQuad s ip ∧ Decimal text port.toNat ∧ 0 < port.toNat) ↔
      TcpReadable rest := by
  rw [made_iff_asked, tcpCommand_isSome, and_imp, TcpReadable]
  · refine forall_congr' fun hlen => forall_congr' fun hport => ⟨?_, fun ⟨hread, hdigits, hlt⟩ => ?_⟩
    -- a quad has no spaces, so the first one is that in front of the port
    · rintro ⟨_, s, text, ip, port, -, rfl, hquad, htext, -⟩
      rw [(firstWord_append hquad.ne_space text).1, (firstWord_append hquad.ne_space text).2]
      exact ⟨hquad.readable, htext.2.1, htext.2.2 ▸ port.isLt⟩
    · obtain ⟨ip, hquad⟩ := hread.exists_dottedQuad hlen
      have hall : (behindSpace rest).takeWhile (IsDigit ·) = behindSpace rest :=
        List.takeWhile_eq_self_iff.mpr fun c hc => decide_eq_true (hdigits c hc)
      rw [hall, Nat.mod_eq_of_lt hlt] at hport
      -- a port other than 0 has a digit, so there is a space
      have hne : behindSpace rest ≠ [] := by
        intro hnil
        rw [hnil] at hport
        exact hport rfl
      have hnum : (BitVec.ofNat 16 (decimalFrom 0 (behindSpace rest))).toNat =
          decimalFrom 0 (behindSpace rest) := by
        rw [BitVec.toNat_ofNat, Nat.mod_eq_of_lt hlt]
      exact ⟨_, _, _, ip, BitVec.ofNat 16 (decimalFrom 0 (behindSpace rest)), rfl, eq_firstWord hne, hquad,
        ⟨hne, hdigits, hnum.symm⟩, by rw [hnum]; exact Nat.pos_of_ne_zero hport⟩
  · rintro _ ⟨s, text, ip, port, rfl, rfl, hquad, htext, hpos⟩
    exact tcpCommand_quad hquad htext hpos

/-- A command that is compared as a whole does not start with `tcp` or `ping`. -/
theorem not_mem_wholeCommands {cmd rest name : List Byte} (hname : ∀ whole ∈ wholeCommands, ¬ name <+: whole)
    (hcmd : cmd = name ++ rest) : cmd ∉ wholeCommands := by
  intro hmem
  exact hname cmd hmem ⟨rest, hcmd.symm⟩

/-- Lines that start with another letter. -/
theorem not_prefix_ping {name : List Byte} (s : List Byte) (h : name.head? ≠ some 0x70) (hne : name ≠ []) :
    ¬ name <+: asciiBytes "ping " ++ s := by
  rintro ⟨later, heq⟩
  obtain ⟨c, name, rfl⟩ := List.exists_cons_of_ne_nil hne
  exact h (congrArg List.head? heq)

theorem shellContact_tcp (rest : List Byte) : shellContact (asciiBytes "tcp " ++ rest) = tcpCommand rest := by
  rw [shellContact, if_neg (not_mem_wholeCommands (by decide) rfl), if_pos (List.prefix_append ..)]
  rfl

theorem shellContact_ping (s : List Byte) : shellContact (asciiBytes "ping " ++ s) = pingCommand s := by
  rw [shellContact, if_neg (not_mem_wholeCommands (by decide) rfl),
    if_neg (not_prefix_ping s (by decide) (by decide)), if_neg (not_prefix_ping s (by decide) (by decide)),
    if_pos (List.prefix_append ..)]
  rfl

theorem ping_ne_tcp (s rest : List Byte) : asciiBytes "ping " ++ s ≠ asciiBytes "tcp " ++ rest := by
  intro h
  have hprefix : asciiBytes "tcp " <+: asciiBytes "ping " ++ s := ⟨rest, h.symm⟩
  exact not_prefix_ping s (by decide) (by decide) hprefix

theorem written_ping_iff (s : List Byte) (contact : Contact) :
    ContactWritten (asciiBytes "ping " ++ s) contact ↔ ∃ ip, contact = .ping ip ∧ DottedQuad s ip := by
  cases contact with
  | ping ip =>
    constructor
    · rintro ⟨s', heq, hquad⟩
      rw [List.append_cancel_left heq]
      exact ⟨ip, rfl, hquad⟩
    · rintro ⟨_, ⟨⟩, hquad⟩
      exact ⟨s, rfl, hquad⟩
  | tcp ip port =>
    constructor
    · rintro ⟨s', text, heq, -⟩
      exact absurd heq (ping_ne_tcp _ _)
    · rintro ⟨_, ⟨⟩, -⟩

theorem written_tcp_iff (rest : List Byte) (contact : Contact) :
    ContactWritten (asciiBytes "tcp " ++ rest) contact ↔ ∃ s text ip port, contact = .tcp ip port ∧
      rest = s ++ 0x20 :: text ∧ DottedQuad s ip ∧ Decimal text port.toNat ∧ 0 < port.toNat := by
  cases contact with
  | ping ip =>
    constructor
    · rintro ⟨s, heq, -⟩
      exact absurd heq.symm (ping_ne_tcp _ _)
    · rintro ⟨_, _, _, _, ⟨⟩, -⟩
  | tcp ip port =>
    constructor
    · rintro ⟨s, text, heq, hquad, htext, hpos⟩
      exact ⟨s, text, ip, port, rfl, List.append_cancel_left heq, hquad, htext, hpos⟩
    · rintro ⟨s, text, _, _, ⟨⟩, heq, hquad, htext, hpos⟩
      exact ⟨s, text, congrArg _ heq, hquad, htext, hpos⟩

/-- **A line contacts the host that is written on it**, and none if none is written, just if the line is
readable. -/
theorem shellContact_written_iff (cmd : List Byte) :
    (∀ contact, shellContact cmd = some contact ↔ ContactWritten cmd contact) ↔ Readable cmd := by
  -- a line is a ping, a connection, or something else, and no line is two of these
  by_cases hping : asciiBytes "ping " <+: cmd
  · obtain ⟨s, rfl⟩ := hping
    have hread : Readable (asciiBytes "ping " ++ s) ↔ PingReadable s := by
      refine ⟨fun h => h.1 s rfl, fun h => ⟨fun s' heq => ?_, fun rest heq => ?_⟩⟩
      · rwa [← List.append_cancel_left heq]
      · exact absurd heq (ping_ne_tcp _ _)
    rw [hread, ← pingCommand_iff, shellContact_ping]
    exact forall_congr' fun contact => iff_congr Iff.rfl (written_ping_iff s contact)
  by_cases htcp : asciiBytes "tcp " <+: cmd
  · obtain ⟨rest, rfl⟩ := htcp
    have hread : Readable (asciiBytes "tcp " ++ rest) ↔ TcpReadable rest := by
      refine ⟨fun h => h.2 rest rfl, fun h => ⟨fun s heq => ?_, fun rest' heq => ?_⟩⟩
      · exact absurd heq.symm (ping_ne_tcp _ _)
      · rwa [← List.append_cancel_left heq]
    rw [hread, ← tcpCommand_iff, shellContact_tcp]
    exact forall_congr' fun contact => iff_congr Iff.rfl (written_tcp_iff rest contact)
  · -- on the other lines nothing is contacted, and nothing is written
    have hnone : shellContact cmd = none := by
      rw [shellContact, if_neg htcp, if_neg hping]
      split <;> simp
    refine iff_of_true (fun contact => ?_) ⟨fun s heq => absurd ⟨s, heq.symm⟩ hping,
      fun rest heq => absurd ⟨rest, heq.symm⟩ htcp⟩
    rw [hnone]
    refine iff_of_false (fun h => Option.some_ne_none _ h.symm) fun h => ?_
    cases contact with
    | ping ip =>
      obtain ⟨s, heq, -⟩ := h
      exact hping ⟨s, heq.symm⟩
    | tcp ip port =>
      obtain ⟨s, text, heq, -⟩ := h
      exact htcp ⟨_, heq.symm⟩

/-- A part of 456 is read as 200, and a port of 65616 as 80. -/
theorem other_contacts : shellContact (asciiBytes "ping 1.2.3.456") = some (.ping #v[1, 2, 3, 200]) ∧
    (∀ contact, ¬ ContactWritten (asciiBytes "ping 1.2.3.456") contact) ∧
    shellContact (asciiBytes "tcp 1.2.3.4 65616") = some (.tcp #v[1, 2, 3, 4] 80) ∧
    ∀ contact, ¬ ContactWritten (asciiBytes "tcp 1.2.3.4 65616") contact := by
  have hping : asciiBytes "ping 1.2.3.456" = asciiBytes "ping " ++ asciiBytes "1.2.3.456" := by decide
  have htcp : asciiBytes "tcp 1.2.3.4 65616" = asciiBytes "tcp " ++ asciiBytes "1.2.3.4 65616" := by decide
  rw [hping, htcp, shellContact_ping, shellContact_tcp]
  refine ⟨rfl, fun contact h => ?_, rfl, fun contact h => ?_⟩
  · rw [written_ping_iff] at h
    obtain ⟨ip, -, hquad⟩ := h
    have hlast : asciiBytes "456" ∈ (asciiBytes "1.2.3.456").splitOn 0x2E := by decide
    exact absurd (hquad.readable _ hlast).2.2 (by decide)
  · rw [written_tcp_iff] at h
    obtain ⟨s, text, ip, port, -, heq, hquad, hport, -⟩ := h
    have htext : behindSpace (asciiBytes "1.2.3.4 65616") = text := by
      rw [heq]
      exact (firstWord_append hquad.ne_space text).2
    have hlt : decimalFrom 0 (behindSpace (asciiBytes "1.2.3.4 65616")) < 2 ^ 16 := by
      rw [htext, hport.2.2]
      exact port.isLt
    exact absurd hlt (by decide)

end Lines

end ZohoOs
