import ZohoOs.Lib.TextBuffer
import ZohoOs.Net.Packet

/-!
# Formatted output

`vsnprintf` formats its arguments into a buffer, with a bound that each directive tests for itself. Numbers
are written backwards into a second buffer, and turned around there. What it leaves is the formatted text,
cut in front of the last byte of the buffer; the length it returns is an `int`.

## Main definitions

* `itoa`, `vsnprintf`: the code
* `formatted`: the text of a format and its arguments, without any bound

## Main results

* `itoa_eq`: the second buffer holds the digits of the number
* `vsnprintf_eq`: the buffer holds the text that was cut
* `vsnprintf_truncates`: the same with its bounds, and when the length is returned
-/

namespace ZohoOs

open TextBuffer

/-! ## Numbers -/

/-- The loop of `strlen` over a buffer of `fuel` bytes. -/
def strlenLoop (s : Nat → Byte) : Nat → Nat → Nat
  | 0, len => len
  | fuel + 1, len => if s len = 0 then len else strlenLoop s fuel (len + 1)

/-- The loop of `reverse`. It has at most as many rounds as there are characters. -/
def reverseLoop : Nat → Nat → Nat → (Nat → Byte) → Nat → Byte
  | 0, _, _, s => s
  | fuel + 1, i, j, s => if i < j then reverseLoop fuel (i + 1) (j - 1) (swap i j s) else s

/-- `reverse`, in a buffer of 65 bytes. -/
def reverse (s : Nat → Byte) : Nat → Byte :=
  let n := strlenLoop s 65 0
  reverseLoop n 0 (n - 1) s

/-- `rem > 9 ? rem - 10 + 'a' : rem + '0'`. -/
def digitByte (rem : Nat) : Byte := BitVec.ofNat 8 (if rem > 9 then rem - 10 + 0x61 else rem + 0x30)

/-- The loop of `itoa`. A number of 64 bits has at most 64 digits. -/
def itoaLoop (base : Nat) : Nat → Nat → Nat × (Nat → Byte) → Nat × (Nat → Byte)
  | 0, _, out => out
  | fuel + 1, n, (i, s) =>
    if n > 0 then itoaLoop base fuel (n / base) (i + 1, Function.update s i (digitByte (n % base)))
    else (i, s)

/-- `itoa`. -/
def itoa (n : BitVec 64) (s : Nat → Byte) (base : Nat) : Nat → Byte :=
  let (i, s) := if n = 0 then (1, Function.update s 0 0x30) else itoaLoop base 64 n.toNat (0, s)
  reverse (Function.update s i 0)

/-! ## The formatter -/

/-- An argument: an `int`, a word of 64 bits (a number or a pointer), or a string, by the bytes that stand
there. -/
inductive VaArg
  | int (n : BitVec 32)
  | word (n : BitVec 64)
  | text (s : List Byte)

/-- `str` and `i`, `buf` and `ap`. -/
structure Vsnprintf where
  out : Printed Byte
  buf : Nat → Byte
  ap : List VaArg

/-- `while (*s != '\0' && i < size - 1)`, with the room that is left. -/
def copyLoop : Nat → (Nat → Byte) → Printed Byte → Printed Byte
  | 0, _, out => out
  | room + 1, s, out => if s 0 = 0 then out else copyLoop room (fun k => s (k + 1)) (out.put (s 0))

namespace Vsnprintf

variable (last : Nat)

/-- A character. -/
def put (c : Byte) (s : Vsnprintf) : Vsnprintf := { s with out := s.out.put c }

/-- A string. -/
def copy (text : Nat → Byte) (s : Vsnprintf) : Vsnprintf :=
  { s with out := copyLoop (last - s.out.i) text s.out }

/-- The digits of a number. -/
def putNumber (n : BitVec 64) (base : Nat) (s : Vsnprintf) : Vsnprintf :=
  { s with buf := itoa n s.buf base }.copy last (itoa n s.buf base)

/-- `case 'd'`. The negation wraps around for the smallest number. -/
def putSigned (n : BitVec 64) (s : Vsnprintf) : Vsnprintf :=
  if n.slt 0 then (s.put 0x2D).putNumber last (-n) 10 else s.putNumber last n 10

/-- The switch, for the character behind `%`; `none` if the next argument is of another type. -/
def directive (c : Byte) (s : Vsnprintf) : Option Vsnprintf :=
  -- `c`
  if c = 0x63 then
    match s.ap with
    | .int n :: ap => some ({ s with ap }.put (n.setWidth 8))
    | _ => none
  -- `s`
  else if c = 0x73 then
    match s.ap with
    | .text text :: ap => some ({ s with ap }.copy last fun k => text.getD k 0)
    | _ => none
  -- `d`
  else if c = 0x64 then
    match s.ap with
    | .word n :: ap => some ({ s with ap }.putSigned last n)
    | _ => none
  -- `u`
  else if c = 0x75 then
    match s.ap with
    | .word n :: ap => some ({ s with ap }.putNumber last n 10)
    | _ => none
  -- `x`
  else if c = 0x78 then
    match s.ap with
    | .word n :: ap => some ({ s with ap }.putNumber last n 16)
    | _ => none
  -- `p`
  else if c = 0x70 then
    match s.ap with
    | .word n :: ap => some ({ s with ap }.putNumber last n 16)
    | _ => none
  -- `%`
  else if c = 0x25 then some (s.put 0x25)
  else some (s.put c)

/-- The loop over the format, the bytes that stand there. Behind a `%` at its end the loop goes on beyond
the format. -/
def loop : List Byte → Vsnprintf → Option Vsnprintf
  | [], s => some s
  | c :: format, s =>
    if c = 0 then some s
    else if s.out.i < last then
      if c ≠ 0x25 then loop format (s.put c)
      else
        match format with
        | [] => none
        | d :: format =>
          if d = 0 then none
          else
            match s.directive last d with
            | none => none
            | some s => loop format s
    else some s

end Vsnprintf

/-- `vsnprintf`: what it stores in `str`, and returns. `buf` starts with what the stack holds; `size - 1` is
a `size_t`. -/
def vsnprintf (stack str : Nat → Byte) (size : BitVec 64) (format : List Byte) (ap : List VaArg) :
    Option ((Nat → Byte) × BitVec 32) :=
  match Vsnprintf.loop (size - 1).toNat format ⟨⟨str, 0⟩, stack, ap⟩ with
  | none => none
  | some s => some (Function.update s.out.str s.out.i 0, BitVec.ofNat 32 s.out.i)

/-! ## What is formatted -/

/-- The digits of a number. -/
def digitsText (base n : Nat) : List Byte := (Nat.toDigits base n).map fun c => BitVec.ofNat 8 c.toNat

/-- A number with its sign. -/
def signedText (n : Int) : List Byte :=
  if n < 0 then 0x2D :: digitsText 10 n.natAbs else digitsText 10 n.natAbs

/-- What a directive writes. -/
inductive Directive
  | char
  | string
  | signed
  | unsigned
  | hex
  | literal (c : Byte)

/-- The directive of a character behind `%`. -/
def Directive.ofByte (c : Byte) : Directive :=
  if c = 0x63 then .char
  else if c = 0x73 then .string
  else if c = 0x64 then .signed
  else if c = 0x75 then .unsigned
  else if c = 0x78 ∨ c = 0x70 then .hex
  else .literal c

/-- The text of a directive, and the arguments behind its own. -/
def Directive.text : Directive → List VaArg → Option (List Byte × List VaArg)
  | .char, .int n :: ap => some ([n.setWidth 8], ap)
  | .string, .text s :: ap => some (s.takeWhile (· ≠ 0), ap)
  | .signed, .word n :: ap => some (signedText n.toInt, ap)
  | .unsigned, .word n :: ap => some (digitsText 10 n.toNat, ap)
  | .hex, .word n :: ap => some (digitsText 16 n.toNat, ap)
  | .literal c, ap => some ([c], ap)
  | _, _ => none

/-- **The text of a format and its arguments**, without any bound; `none` if an argument does not match, or
the format ends in a `%` that has nothing behind it. -/
def formatted : List Byte → List VaArg → Option (List Byte)
  | [], _ => some []
  | c :: format, ap =>
    if c = 0 then some []
    else if c ≠ 0x25 then (formatted format ap).map (c :: ·)
    else
      match format with
      | [] => none
      | d :: format =>
        if d = 0 then none
        else
          match (Directive.ofByte d).text ap with
          | none => none
          | some (text, ap) => (formatted format ap).map (text ++ ·)

/-! ## Numbers in the second buffer -/

section Numbers

/-- `strlen` of a text. -/
theorem strlenLoop_eq {s : Nat → Byte} {text : List Byte} (h : Spells 0 s text) {fuel k : Nat}
    (hk : k ≤ text.length) (hfuel : text.length - k ≤ fuel) : strlenLoop s fuel k = text.length := by
  induction fuel generalizing k with
  | zero =>
    rw [strlenLoop]
    omega
  | succ fuel ih =>
    rw [strlenLoop]
    -- a character of the text, or its end
    rcases Nat.lt_or_eq_of_le hk with hlt | rfl
    · have hne : s k ≠ 0 := fun hzero => h.clean (by rw [← hzero, h.chars k hlt]; exact List.getElem_mem hlt)
      rw [if_neg hne]
      exact ih hlt (by omega)
    · rw [if_pos h.ends]

/-- The exchanges turn the text around. -/
theorem reverseLoop_eq {fuel i j : Nat} {s : Nat → Byte} (hfuel : j - i ≤ fuel) :
    reverseLoop fuel i j s = mirror i j s := by
  induction fuel generalizing i j s with
  | zero => rw [reverseLoop, mirror_of_le (by omega)]
  | succ fuel ih =>
    rw [reverseLoop]
    split
    · rename_i hlt
      rw [ih (by omega), mirror_swap hlt]
    · rw [mirror_of_le (by omega)]

/-- **`reverse`** of a text. -/
theorem reverse_overlay {text : List Byte} (base : Nat → Byte) (hclean : 0 ∉ text) (hlen : text.length ≤ 65) :
    reverse (overlay (text ++ [0]) base) = overlay (text.reverse ++ [0]) base := by
  have hstrlen : strlenLoop (overlay (text ++ [0]) base) 65 0 = text.length :=
    strlenLoop_eq (Spells.overlay base hclean) (Nat.zero_le _) hlen
  rw [reverse, hstrlen, reverseLoop_eq (by omega), mirror_overlay]

/-- A digit is written as its character. -/
theorem digitByte_eq {d : Nat} (h : d < 16) : digitByte d = BitVec.ofNat 8 d.digitChar.toNat ∧
    digitByte d ≠ 0 := by
  revert d
  decide

theorem digitsText_lt {base n : Nat} (hle : base ≤ 16) (h : n < base) :
    digitsText base n = [digitByte n] := by
  rw [digitsText, Nat.toDigits_of_lt_base h, List.map_singleton, (digitByte_eq (h.trans_le hle)).1]

variable {base : Nat} (hbase : 1 < base) (hle : base ≤ 16)
include hbase hle

/-- The last digit of a number, and those in front of it. -/
theorem digitsText_le {n : Nat} (h : base ≤ n) :
    digitsText base n = digitsText base (n / base) ++ [digitByte (n % base)] := by
  have hdigit := digitByte_eq ((Nat.mod_lt n (Nat.zero_lt_of_lt hbase)).trans_le hle)
  rw [digitsText, Nat.toDigits_of_base_le hbase h, List.map_append, List.map_singleton, hdigit.1, digitsText]

theorem digitsText_clean (n : Nat) : 0 ∉ digitsText base n := by
  induction n using Nat.strong_induction_on with
  | _ n ih =>
    rcases Nat.lt_or_ge n base with hlt | hge
    · rw [digitsText_lt hle hlt]
      exact fun hmem => (digitByte_eq (hlt.trans_le hle)).2 (List.mem_singleton.mp hmem).symm
    · have hdigit := digitByte_eq ((Nat.mod_lt n (Nat.zero_lt_of_lt hbase)).trans_le hle)
      rw [digitsText_le hbase hle hge, List.mem_append, List.mem_singleton]
      rintro (hmem | heq)
      · exact ih (n / base) (Nat.div_lt_self (by omega) hbase) hmem
      · exact hdigit.2 heq.symm

/-- **The loop of `itoa`** writes the digits from the last one on. -/
theorem itoaLoop_eq {fuel n : Nat} (hn : 0 < n) (hfuel : n < base ^ fuel) (text : List Byte)
    (buf : Nat → Byte) : itoaLoop base fuel n (text.length, overlay text buf) =
      ((text ++ (digitsText base n).reverse).length, overlay (text ++ (digitsText base n).reverse) buf) := by
  induction fuel generalizing n text with
  | zero => exact absurd hfuel (by simp; omega)
  | succ fuel ih =>
    -- this round puts the last digit that is left
    have hput : (text.length + 1, Function.update (overlay text buf) text.length (digitByte (n % base))) =
        ((text ++ [digitByte (n % base)]).length, overlay (text ++ [digitByte (n % base)]) buf) := by
      rw [update_overlay, List.length_append, List.length_singleton]
    rw [itoaLoop, if_pos hn, hput]
    rcases Nat.lt_or_ge n base with hlt | hge
    · -- no digit is left
      rw [Nat.div_eq_of_lt hlt, Nat.mod_eq_of_lt hlt, digitsText_lt hle hlt]
      cases fuel <;> rfl
    · have hdiv : 0 < n / base := Nat.div_pos hge (Nat.zero_lt_of_lt hbase)
      have hpow : n / base < base ^ fuel := by
        rw [Nat.div_lt_iff_lt_mul (Nat.zero_lt_of_lt hbase), ← Nat.pow_succ]
        exact hfuel
      rw [ih hdiv hpow, digitsText_le hbase hle hge, List.reverse_append, List.reverse_singleton,
        List.append_assoc]

/-- **`itoa`** leaves the digits of the number in the buffer, and touches at most 65 bytes. -/
theorem itoa_eq (n : BitVec 64) (buf : Nat → Byte) :
    itoa n buf base = overlay (digitsText base n.toNat ++ [0]) buf ∧
      (digitsText base n.toNat ++ [0]).length ≤ 65 := by
  have hlt : n.toNat < base ^ 64 := n.isLt.trans_le (Nat.pow_le_pow_left hbase 64)
  have hlength : (digitsText base n.toNat).length ≤ 64 := by
    rw [digitsText, List.length_map, Nat.length_toDigits_le_iff hbase (by decide)]
    exact hlt
  -- zero has a digit too, which the loop would not write
  have hloop : (if n = 0 then (1, Function.update buf 0 0x30) else itoaLoop base 64 n.toNat (0, buf)) =
      ((digitsText base n.toNat).reverse.length, overlay (digitsText base n.toNat).reverse buf) := by
    by_cases hzero : n = 0
    · have hdigits : digitsText base n.toNat = [0x30] := by
        rw [hzero, digitsText, show (0 : BitVec 64).toNat = 0 from rfl, Nat.toDigits_zero]
        rfl
      rw [if_pos hzero, hdigits]
      exact congrArg (Prod.mk 1) (@update_overlay _ [] buf 0x30)
    · have hpos : 0 < n.toNat := Nat.pos_of_ne_zero fun h => hzero (BitVec.eq_of_toNat_eq h)
      rw [if_neg hzero]
      exact itoaLoop_eq hbase hle hpos hlt [] buf
  refine ⟨?_, by rw [List.length_append, List.length_singleton]; omega⟩
  rw [itoa, hloop]
  dsimp only
  rw [update_overlay, reverse_overlay buf (by simpa using digitsText_clean hbase hle n.toNat)
    (by rw [List.length_reverse]; omega), List.reverse_reverse]

end Numbers

/-! ## The first buffer -/

section Format

variable {str buf : Nat → Byte} {last : Nat} {written text : List Byte} {ap ap' : List VaArg}

/-- **A string is copied** behind what is written, as far as there is room. -/
theorem copyLoop_eq {s : Nat → Byte} (h : Spells 0 s text) :
    copyLoop (last - (cut str last written).i) s (cut str last written) = cut str last (written ++ text) := by
  induction text generalizing s written with
  | nil =>
    rw [List.append_nil]
    cases last - (cut str last written).i with
    | zero => rfl
    | succ room => exact if_pos h.ends
  | cons c text ih =>
    -- without room the loop ends, and the cut text stays as it is
    by_cases hroom : (cut str last written).i < last
    · obtain ⟨hread, hne⟩ := h.head_ne
      have hnext : (cut str last (written ++ [c])).i = (cut str last written).i + 1 := by
        rw [← cut_put c hroom]
        rfl
      have hleft : last - (cut str last written).i = last - (cut str last (written ++ [c])).i + 1 := by
        omega
      rw [hleft, copyLoop, hread, if_neg hne, cut_put c hroom, ih h.tail, List.append_assoc]
      rfl
    · rw [Nat.sub_eq_zero_of_le (Nat.not_lt.mp hroom), copyLoop, cut_append _ hroom]

namespace Vsnprintf

theorem putNumber_eq {base : Nat} (hbase : 1 < base) (hle : base ≤ 16) (n : BitVec 64) :
    ∃ buf', putNumber last n base ⟨cut str last written, buf, ap⟩ =
      ⟨cut str last (written ++ digitsText base n.toNat), buf', ap⟩ := by
  refine ⟨itoa n buf base, ?_⟩
  rw [putNumber, copy, (itoa_eq hbase hle n buf).1]
  dsimp only
  rw [copyLoop_eq (Spells.overlay buf (digitsText_clean hbase hle n.toNat))]

/-- The smallest number is its own negative, which has the digits of its amount. -/
theorem toNat_neg_of_slt {n : BitVec 64} (h : n.slt 0) : (-n).toNat = n.toInt.natAbs := by
  have hlt : n.toInt < 0 := by simpa [BitVec.slt] using h
  rw [BitVec.toNat_neg]
  rw [BitVec.toInt_eq_toNat_cond] at hlt ⊢
  split at hlt
  · omega
  · rename_i hge
    rw [if_neg hge]
    omega

theorem putSigned_eq (n : BitVec 64) (hroom : (cut str last written).i < last) :
    ∃ buf', putSigned last n ⟨cut str last written, buf, ap⟩ =
      ⟨cut str last (written ++ signedText n.toInt), buf', ap⟩ := by
  rw [putSigned, signedText]
  by_cases hneg : n.slt 0
  · have hlt : n.toInt < 0 := by simpa [BitVec.slt] using hneg
    -- the sign takes the room that was tested, and the digits what is left
    rw [if_pos hneg, if_pos hlt, put, cut_put _ hroom]
    obtain ⟨buf', hput⟩ := @putNumber_eq str buf last (written ++ [0x2D]) ap 10 (by decide) (by decide) (-n)
    refine ⟨buf', hput.trans ?_⟩
    rw [toNat_neg_of_slt hneg, List.append_assoc]
    rfl
  · have hge : ¬ n.toInt < 0 := by simpa [BitVec.slt] using hneg
    rw [if_neg hneg, if_neg hge]
    obtain ⟨buf', hput⟩ := @putNumber_eq str buf last written ap 10 (by decide) (by decide) n
    refine ⟨buf', hput.trans ?_⟩
    -- a number that is not negative has its own digits
    have habs : n.toInt.natAbs = n.toNat := by
      rw [BitVec.toInt_eq_toNat_cond] at hge ⊢
      split
      · rfl
      · omega
    rw [habs]

/-- **A directive** writes its text, as far as there is room. -/
theorem directive_eq (c : Byte) (hroom : (cut str last written).i < last)
    (h : (Directive.ofByte c).text ap = some (text, ap')) :
    ∃ buf', directive last c ⟨cut str last written, buf, ap⟩ =
      some ⟨cut str last (written ++ text), buf', ap'⟩ := by
  rw [Directive.ofByte] at h
  rw [directive]
  by_cases hchar : c = 0x63
  · rw [if_pos hchar] at h ⊢
    rcases ap with _ | ⟨n | n | s, ap⟩ <;> cases h
    exact ⟨buf, by rw [← cut_put _ hroom]; rfl⟩
  rw [if_neg hchar] at h ⊢
  by_cases hstring : c = 0x73
  · rw [if_pos hstring] at h ⊢
    rcases ap with _ | ⟨n | n | s, ap⟩ <;> cases h
    exact ⟨buf, by rw [← copyLoop_eq (Spells.getD 0 s)]; rfl⟩
  rw [if_neg hstring] at h ⊢
  by_cases hsigned : c = 0x64
  · rw [if_pos hsigned] at h ⊢
    rcases ap with _ | ⟨n | n | s, ap⟩ <;> cases h
    obtain ⟨buf', hput⟩ := @putSigned_eq str buf last written ap' n hroom
    exact ⟨buf', congrArg some hput⟩
  rw [if_neg hsigned] at h ⊢
  by_cases hunsigned : c = 0x75
  · rw [if_pos hunsigned] at h ⊢
    rcases ap with _ | ⟨n | n | s, ap⟩ <;> cases h
    obtain ⟨buf', hput⟩ := @putNumber_eq str buf last written ap' 10 (by decide) (by decide) n
    exact ⟨buf', congrArg some hput⟩
  rw [if_neg hunsigned] at h ⊢
  by_cases hhex : c = 0x78 ∨ c = 0x70
  · rw [if_pos hhex] at h
    rcases ap with _ | ⟨n | n | s, ap⟩ <;> cases h
    obtain ⟨buf', hput⟩ := @putNumber_eq str buf last written ap' 16 (by decide) (by decide) n
    refine ⟨buf', ?_⟩
    rcases hhex with rfl | rfl <;> exact congrArg some hput
  · rw [if_neg hhex] at h
    obtain ⟨hx, hp⟩ := not_or.mp hhex
    rw [if_neg hx, if_neg hp]
    cases h
    refine ⟨buf, ?_⟩
    -- `%` is put as it is, as any other character
    rw [← cut_put _ hroom]
    split
    · rename_i hpercent
      rw [hpercent]
      rfl
    · rfl

/-- **The loop** writes the text of the format, as far as there is room. -/
theorem loop_eq {format : List Byte} (h : formatted format ap = some text) :
    ∃ buf' ap', loop last format ⟨cut str last written, buf, ap⟩ =
      some ⟨cut str last (written ++ text), buf', ap'⟩ := by
  fun_induction formatted format ap generalizing written text buf with
  | case1 ap =>
    cases h
    exact ⟨buf, ap, by rw [List.append_nil]; rfl⟩
  | case2 format ap =>
    cases h
    exact ⟨buf, ap, by rw [List.append_nil, loop.eq_def]; rfl⟩
  -- a character is printed as it is
  | case3 c format ap hzero hchar ih =>
    obtain ⟨later, hlater, rfl⟩ := Option.map_eq_some_iff.mp h
    rw [loop.eq_def]
    dsimp only
    rw [if_neg hzero]
    by_cases hroom : (cut str last written).i < last
    · obtain ⟨buf', ap', hloop⟩ := @ih buf (written ++ [c]) later hlater
      refine ⟨buf', ap', ?_⟩
      rw [if_pos hroom, if_pos hchar, put, cut_put _ hroom, hloop, List.append_assoc]
      rfl
    -- the buffer is full: the loop ends, and what is behind it is cut off as well
    · exact ⟨buf, ap, by rw [if_neg hroom, cut_append _ hroom]⟩
  | case4 => cases h
  | case5 => cases h
  | case6 => cases h
  -- a directive prints its piece
  | case7 c ap hzero hchar d format hd piece rest hpiece ih =>
    obtain ⟨later, hlater, rfl⟩ := Option.map_eq_some_iff.mp h
    rw [loop.eq_def]
    dsimp only
    rw [if_neg hzero]
    by_cases hroom : (cut str last written).i < last
    · obtain ⟨buf₁, hdirective⟩ := @directive_eq str buf last written piece ap rest d hroom hpiece
      obtain ⟨buf', ap', hloop⟩ := @ih buf₁ (written ++ piece) later hlater
      refine ⟨buf', ap', ?_⟩
      rw [if_pos hroom, if_neg hchar, if_neg hd, hdirective, ← List.append_assoc]
      exact hloop
    · exact ⟨buf, ap, by rw [if_neg hroom, cut_append _ hroom]⟩

end Vsnprintf

/-- **What `vsnprintf` leaves**: the text cut in front of the last byte, and the byte that ends it; what it
returns is the length as an `int`. -/
theorem vsnprintf_eq {stack : Nat → Byte} {size : BitVec 64} {format : List Byte}
    (h : formatted format ap = some text) : vsnprintf stack str size format ap =
      some (overlay (text.take (size - 1).toNat ++ [0]) str,
        BitVec.ofNat 32 (text.take (size - 1).toNat).length) := by
  obtain ⟨buf', ap', hloop⟩ := @Vsnprintf.loop_eq str stack (size - 1).toNat [] text ap format h
  -- nothing is written at the start
  have hstart : cut str (size - 1).toNat [] = ⟨str, 0⟩ := by
    rw [cut, List.take_nil]
    rfl
  rw [hstart] at hloop
  rw [vsnprintf, hloop, List.nil_append, cut]
  dsimp only
  rw [update_overlay]

/-- A length is returned as it is, just if it is an `int`. -/
theorem toInt_ofNat_eq_iff (n : Nat) : (BitVec.ofNat 32 n).toInt = n ↔ n < 2 ^ 31 := by
  rw [BitVec.toInt_eq_toNat_cond, BitVec.toNat_ofNat]
  split <;> omega

/-- **Formatting is truncation**: of the text, `size - 1` characters at most are stored, and a NUL behind
them; the buffer has room for these, and what stands behind `size` bytes stays. The length of what is stored
is returned just if it is an `int`. -/
theorem vsnprintf_truncates {stack : Nat → Byte} {size : BitVec 64} {format : List Byte} (hsize : size ≠ 0)
    (h : formatted format ap = some text) : ∃ str' ret,
      vsnprintf stack str size format ap = some (str', ret) ∧
        str' = overlay (text.take (size.toNat - 1) ++ [0]) str ∧ (∀ k ≥ size.toNat, str' k = str k) ∧
        ret = BitVec.ofNat 32 (text.take (size.toNat - 1)).length ∧
        (ret.toInt = (text.take (size.toNat - 1)).length ↔ (text.take (size.toNat - 1)).length < 2 ^ 31) := by
  have hpos : 0 < size.toNat := Nat.pos_of_ne_zero fun hzero => hsize (BitVec.eq_of_toNat_eq hzero)
  have hlast : (size - 1).toNat = size.toNat - 1 := by
    rw [BitVec.toNat_sub_of_le (show 1 ≤ size from by rw [BitVec.le_def]; exact hpos)]
    rfl
  refine ⟨_, _, vsnprintf_eq h, by rw [hlast], fun k hk => ?_, by rw [hlast], ?_⟩
  -- the text takes `size - 1` bytes at most, and the NUL one
  · refine overlay_of_le ?_
    rw [List.length_append, List.length_take, List.length_singleton]
    omega
  · rw [hlast]
    exact toInt_ofNat_eq_iff _

theorem vsnprintf_truncates_sign : ∃ str' ret,
    vsnprintf (fun _ => 0) (fun _ => 0xFF) 3 [0x25, 0x64] [.word (-12)] = some (str', ret) ∧
      str' = overlay ([0x2D#8, 0x31#8, 0x32#8].take 2 ++ [0]) (fun _ => 0xFF) ∧ (∀ k ≥ 3, str' k = 0xFF) ∧
      ret = BitVec.ofNat 32 ([0x2D#8, 0x31#8, 0x32#8].take 2).length ∧
      (ret.toInt = ([0x2D#8, 0x31#8, 0x32#8].take 2).length ↔
        ([0x2D#8, 0x31#8, 0x32#8].take 2).length < 2 ^ 31) :=
  vsnprintf_truncates (by decide) (by decide)

/-- A format without directives is its own text. -/
theorem formatted_plain {format : List Byte} (h : ∀ c ∈ format, c ≠ 0 ∧ c ≠ 0x25) :
    formatted format ap = some format := by
  induction format with
  | nil => rfl
  | cons c format ih =>
    obtain ⟨⟨hzero, hchar⟩, hformat⟩ := List.forall_mem_cons.mp h
    rw [formatted.eq_def]
    dsimp only
    rw [if_neg hzero, if_pos hchar, ih hformat, Option.map_some]

/-- A text that just fits. -/
theorem vsnprintf_replicate {n : Nat} (hn : n + 1 < 2 ^ 64) (stack str : Nat → Byte) :
    vsnprintf stack str (BitVec.ofNat 64 (n + 1)) (List.replicate n 0x61) ap =
      some (overlay (List.replicate n 0x61 ++ [0]) str, BitVec.ofNat 32 n) := by
  have hlast : (BitVec.ofNat 64 (n + 1) - 1).toNat = n := by
    rw [BitVec.toNat_sub, BitVec.toNat_ofNat, Nat.mod_eq_of_lt hn, show (1 : BitVec 64).toNat = 1 from rfl]
    omega
  have hplain : ∀ c ∈ List.replicate n (0x61 : Byte), c ≠ 0 ∧ c ≠ 0x25 := by
    intro c hc
    rw [List.eq_of_mem_replicate hc]
    decide
  rw [vsnprintf_eq (formatted_plain hplain), hlast, List.take_of_length_le (List.length_replicate ..).le,
    List.length_replicate]

/-- A text of `2 ^ 31` characters fits into the buffer, and is not what the length says. -/
theorem vsnprintf_length_wraps :
    formatted (List.replicate (2 ^ 31) 0x61) [] = some (List.replicate (2 ^ 31) 0x61) ∧
      ∃ str' ret, vsnprintf (fun _ => 0) (fun _ => 0) (BitVec.ofNat 64 (2 ^ 31 + 1))
          (List.replicate (2 ^ 31) 0x61) [] = some (str', ret) ∧
        (List.replicate (2 ^ 31) (0x61 : Byte)).length = 2 ^ 31 ∧ ret.toInt = -2 ^ 31 := by
  refine ⟨formatted_plain fun c hc => ?_, _, _, vsnprintf_replicate (by decide) _ _, List.length_replicate ..,
    by decide⟩
  rw [List.eq_of_mem_replicate hc]
  decide

end Format

end ZohoOs
