import Mathlib.Algebra.Order.Ring.Int
import Mathlib.Data.List.Basic
import Mathlib.Tactic.Common

/-!
# Tilings by blocks with headers

A range of addresses divided into blocks, each a header of fixed size and a payload, some of them
free: where the blocks lie, how one is carved in two, and how free neighbours are joined.

## Main definitions

* `Block`: the size of a payload, and whether it is free
* `located hdr a l`: each block of `l` with the address of its header, from `a` on
* `taken hdr a l`: those that are not free
* `carve hdr slack n b`: a block of size `n` cut from `b`, and what remains of it
* `place hdr slack n a l`: the first free block that is large enough, carved
* `coalesce hdr l`: free neighbours joined
* `Consecutive a rs b`: ranges that follow one another

## Main results

* `located_pairwise`: each block ends before the next begins
* `taken_coalesce`: joining free neighbours moves no other block
-/

namespace BlockTiling

/-- A block, by the size of its payload. -/
structure Block where
  size : Nat
  isFree : Bool
  deriving DecidableEq

variable {hdr : Nat}

/-- Each block with the address of its header. -/
def located (hdr : Nat) : Nat → List Block → List (Nat × Block)
  | _, [] => []
  | a, b :: l => (a, b) :: located hdr (a + hdr + b.size) l

/-- The bytes the blocks take, with their headers. -/
def span (hdr : Nat) : List Block → Nat
  | [] => 0
  | b :: l => hdr + b.size + span hdr l

/-- The blocks in use. -/
def taken (hdr a : Nat) (l : List Block) : List (Nat × Block) :=
  (located hdr a l).filter fun x => !x.2.isFree

theorem span_append (l m : List Block) : span hdr (l ++ m) = span hdr l + span hdr m := by
  induction l with
  | nil => simp [span]
  | cons b l ih =>
    rw [List.cons_append, span, span, ih]
    omega

theorem mul_length_le_span (l : List Block) : hdr * l.length ≤ span hdr l := by
  induction l with
  | nil => exact Nat.zero_le _
  | cons b l ih =>
    rw [List.length_cons, Nat.mul_succ, span]
    omega

theorem size_le_span {l : List Block} {b : Block} (hb : b ∈ l) : hdr + b.size ≤ span hdr l := by
  induction l with
  | nil => cases hb
  | cons c l ih =>
    rw [span]
    rcases List.mem_cons.mp hb with rfl | hb
    · omega
    · have := ih hb
      omega

theorem located_append (a : Nat) (l m : List Block) :
    located hdr a (l ++ m) = located hdr a l ++ located hdr (a + span hdr l) m := by
  induction l generalizing a with
  | nil => simp [located, span]
  | cons b l ih =>
    have haddr : a + (hdr + b.size + span hdr l) = a + hdr + b.size + span hdr l := by omega
    rw [List.cons_append, located, located, ih, List.cons_append, span, haddr]

/-- A block lies within the range, with its payload. -/
theorem mem_located {a : Nat} {l : List Block} {x : Nat × Block} (h : x ∈ located hdr a l) :
    a ≤ x.1 ∧ x.1 + hdr + x.2.size ≤ a + span hdr l := by
  induction l generalizing a with
  | nil => cases h
  | cons b l ih =>
    rw [span]
    rcases List.mem_cons.mp h with rfl | h
    · refine ⟨Nat.le_refl _, ?_⟩
      simp only
      omega
    · obtain ⟨hlo, hhi⟩ := ih h
      omega

/-- A block splits the list it is in. -/
theorem exists_of_mem_located {a : Nat} {l : List Block} {x : Nat × Block}
    (h : x ∈ located hdr a l) :
    ∃ pre post, l = pre ++ x.2 :: post ∧ x.1 = a + span hdr pre := by
  induction l generalizing a with
  | nil => cases h
  | cons b l ih =>
    rcases List.mem_cons.mp h with rfl | h
    · exact ⟨[], l, rfl, rfl⟩
    · obtain ⟨pre, post, rfl, heq⟩ := ih h
      refine ⟨b :: pre, post, rfl, ?_⟩
      rw [heq, span]
      omega

theorem mem_located_of_split (a : Nat) (pre post : List Block) (b : Block) :
    (a + span hdr pre, b) ∈ located hdr a (pre ++ b :: post) := by
  rw [located_append]
  exact List.mem_append_right _ List.mem_cons_self

/-- **Each block ends before the next begins.** -/
theorem located_pairwise (a : Nat) (l : List Block) :
    (located hdr a l).Pairwise fun x y => x.1 + hdr + x.2.size ≤ y.1 := by
  induction l generalizing a with
  | nil => exact List.Pairwise.nil
  | cons b l ih => exact List.Pairwise.cons (fun y hy => (mem_located hy).1) (ih _)

/-- Of two blocks at different addresses, one ends before the other begins. -/
theorem located_disjoint {a : Nat} {l : List Block} {x y : Nat × Block}
    (hx : x ∈ located hdr a l) (hy : y ∈ located hdr a l) (hne : x.1 ≠ y.1) :
    x.1 + hdr + x.2.size ≤ y.1 ∨ y.1 + hdr + y.2.size ≤ x.1 := by
  induction l generalizing a with
  | nil => cases hx
  | cons b l ih =>
    rcases List.mem_cons.mp hx with rfl | hx
    · rcases List.mem_cons.mp hy with rfl | hy
      · exact absurd rfl hne
      · exact Or.inl (mem_located hy).1
    · rcases List.mem_cons.mp hy with rfl | hy
      · exact Or.inr (mem_located hx).1
      · exact ih hx hy

theorem dvd_of_mem_located {d a : Nat} (hhdr : d ∣ hdr) {l : List Block}
    (hl : ∀ b ∈ l, d ∣ b.size) (ha : d ∣ a) {x : Nat × Block} (hx : x ∈ located hdr a l) :
    d ∣ x.1 := by
  induction l generalizing a with
  | nil => cases hx
  | cons b l ih =>
    rcases List.mem_cons.mp hx with rfl | hx
    · exact ha
    · have hb : d ∣ b.size := hl b List.mem_cons_self
      exact ih (fun c hc => hl c (List.mem_cons_of_mem _ hc))
        (Nat.dvd_add (Nat.dvd_add ha hhdr) hb) hx

/-! ## Blocks in use -/

theorem mem_taken {a : Nat} {l : List Block} {x : Nat × Block} :
    x ∈ taken hdr a l ↔ x ∈ located hdr a l ∧ x.2.isFree = false := by
  rw [taken, List.mem_filter, Bool.not_eq_true']

theorem taken_cons (a : Nat) (b : Block) (l : List Block) :
    taken hdr a (b :: l) =
      (if b.isFree then [] else [(a, b)]) ++ taken hdr (a + hdr + b.size) l := by
  rw [taken, located, List.filter_cons]
  cases hb : b.isFree <;> simp [taken]

theorem taken_append (a : Nat) (l m : List Block) :
    taken hdr a (l ++ m) = taken hdr a l ++ taken hdr (a + span hdr l) m := by
  rw [taken, located_append, List.filter_append]
  rfl

/-! ## Cutting -/

/-- A block of size `n` cut from the front of `b`; all of `b` where less than a header and `slack`
bytes would remain. -/
def carve (hdr slack n : Nat) (b : Block) : List Block :=
  if n + hdr + slack ≤ b.size then [⟨n, false⟩, ⟨b.size - n - hdr, true⟩] else [⟨b.size, false⟩]

theorem span_carve (slack n : Nat) (b : Block) : span hdr (carve hdr slack n b) = hdr + b.size := by
  rw [carve]
  split <;> simp only [span] <;> omega

theorem mem_carve {slack n : Nat} {b c : Block} (h : c ∈ carve hdr slack n b) :
    c.size = n ∨ c.size = b.size - n - hdr ∨ c.size = b.size := by
  rw [carve] at h
  split at h
  · rcases List.mem_cons.mp h with rfl | h
    · exact Or.inl rfl
    · obtain rfl := List.mem_singleton.mp h
      exact Or.inr (Or.inl rfl)
  · obtain rfl := List.mem_singleton.mp h
    exact Or.inr (Or.inr rfl)

theorem taken_carve (hdr slack n a : Nat) (b : Block) :
    ∃ size, taken hdr a (carve hdr slack n b) = [(a, ⟨size, false⟩)] := by
  rw [carve]
  split
  · exact ⟨n, by simp [taken, located]⟩
  · exact ⟨b.size, by simp [taken, located]⟩

/-- The block is free and has room for `n` bytes. -/
def Block.Fits (n : Nat) (b : Block) : Prop := b.isFree = true ∧ n ≤ b.size

instance (n : Nat) (b : Block) : Decidable (b.Fits n) := inferInstanceAs (Decidable (_ ∧ _))

/-- First fit: the address of the first block that fits, and the blocks once it is carved. -/
def place (hdr slack n : Nat) : Nat → List Block → Option (Nat × List Block)
  | _, [] => none
  | a, b :: l =>
    if b.Fits n then some (a, carve hdr slack n b ++ l)
    else (place hdr slack n (a + hdr + b.size) l).map fun x => (x.1, b :: x.2)

theorem place_eq_none {slack n : Nat} {l : List Block} (h : ∀ b ∈ l, ¬ b.Fits n) (a : Nat) :
    place hdr slack n a l = none := by
  induction l generalizing a with
  | nil => rfl
  | cons b l ih =>
    obtain ⟨hb, hl⟩ := List.forall_mem_cons.mp h
    rw [place, if_neg hb, ih hl]
    rfl

theorem place_split {slack n : Nat} {pre post : List Block} {b : Block} (hb : b.Fits n)
    (hpre : ∀ c ∈ pre, ¬ c.Fits n) (a : Nat) :
    place hdr slack n a (pre ++ b :: post) =
      some (a + span hdr pre, pre ++ carve hdr slack n b ++ post) := by
  induction pre generalizing a with
  | nil => rw [List.nil_append, place, if_pos hb, span, Nat.add_zero, List.nil_append]
  | cons c pre ih =>
    obtain ⟨hc, hpre⟩ := List.forall_mem_cons.mp hpre
    have haddr : a + hdr + c.size + span hdr pre = a + (hdr + c.size + span hdr pre) := by omega
    rw [List.cons_append, place, if_neg hc, ih hpre, span, haddr]
    rfl

/-- Free neighbours joined, from the left. -/
def coalesce (hdr : Nat) : List Block → List Block
  | [] => []
  | [b] => [b]
  | b :: c :: l =>
    if b.isFree && c.isFree then coalesce hdr (⟨b.size + c.size + hdr, true⟩ :: l)
    else b :: coalesce hdr (c :: l)
termination_by l => l.length

theorem span_coalesce (l : List Block) : span hdr (coalesce hdr l) = span hdr l := by
  fun_induction coalesce hdr l with
  | case1 => rfl
  | case2 => rfl
  | case3 b c l _ ih =>
    rw [ih]
    simp only [span]
    omega
  | case4 b c l _ ih =>
    rw [span, ih]
    simp only [span]

/-- **Joining free neighbours moves no block in use.** -/
theorem taken_coalesce (a : Nat) (l : List Block) :
    taken hdr a (coalesce hdr l) = taken hdr a l := by
  fun_induction coalesce hdr l generalizing a with
  | case1 => rfl
  | case2 => rfl
  | case3 b c l hfree ih =>
    obtain ⟨hb, hc⟩ := Bool.and_eq_true_iff.mp hfree
    have haddr : a + hdr + (b.size + c.size + hdr) = a + hdr + b.size + hdr + c.size := by omega
    rw [ih, taken_cons, taken_cons, taken_cons, hb, hc, if_pos rfl, haddr]
    rfl
  | case4 b c l _ ih => rw [taken_cons, ih, ← taken_cons]

/-- A property of sizes that joining keeps, it keeps of all. -/
theorem coalesce_forall {P : Nat → Prop} (hjoin : ∀ s t, P s → P t → P (s + t + hdr))
    {l : List Block} (h : ∀ b ∈ l, P b.size) : ∀ b ∈ coalesce hdr l, P b.size := by
  fun_induction coalesce hdr l with
  | case1 => exact h
  | case2 => exact h
  | case3 b c l _ ih =>
    refine ih fun x hx => ?_
    rcases List.mem_cons.mp hx with rfl | hx
    · exact hjoin _ _ (h b (by simp)) (h c (by simp))
    · exact h x (by simp [hx])
  | case4 b c l _ ih =>
    intro x hx
    rcases List.mem_cons.mp hx with rfl | hx
    · exact h _ List.mem_cons_self
    · exact ih (fun y hy => h y (List.mem_cons_of_mem _ hy)) x hx

/-! ## Ranges without blocks -/

/-- Ranges, each with its start and length, that follow one another from `a` to `b`. -/
def Consecutive : Nat → List (Nat × Nat) → Nat → Prop
  | a, [], b => a = b
  | a, r :: rs, b => r.1 = a ∧ Consecutive (a + r.2) rs b

section Consecutive

variable {a b : Nat} {rs : List (Nat × Nat)}

theorem Consecutive.concat (h : Consecutive a rs b) (n : Nat) :
    Consecutive a (rs ++ [(b, n)]) (b + n) := by
  induction rs generalizing a with
  | nil =>
    obtain rfl : a = b := h
    exact ⟨rfl, rfl⟩
  | cons r rs ih => exact ⟨h.1, ih h.2⟩

theorem Consecutive.le (h : Consecutive a rs b) : a ≤ b := by
  induction rs generalizing a with
  | nil => exact Nat.le_of_eq h
  | cons r rs ih => exact Nat.le_trans (Nat.le_add_right _ _) (ih h.2)

theorem Consecutive.starts (h : Consecutive a rs b) : ∀ r ∈ rs, a ≤ r.1 := by
  induction rs generalizing a with
  | nil => exact fun r hr => absurd hr List.not_mem_nil
  | cons q rs ih =>
    intro r hr
    rcases List.mem_cons.mp hr with rfl | hr
    · exact Nat.le_of_eq h.1.symm
    · exact Nat.le_trans (Nat.le_add_right _ _) (ih h.2 r hr)

/-- **The ranges cover what is between the ends**, and nothing else. -/
theorem Consecutive.mem_iff (h : Consecutive a rs b) (i : Nat) :
    (a ≤ i ∧ i < b) ↔ ∃ r ∈ rs, r.1 ≤ i ∧ i < r.1 + r.2 := by
  induction rs generalizing a with
  | nil =>
    obtain rfl : a = b := h
    constructor
    · intro hi
      omega
    · rintro ⟨r, hr, -⟩
      cases hr
  | cons r rs ih =>
    obtain ⟨rfl, hrest⟩ := h
    have hle := hrest.le
    simp only [List.exists_mem_cons_iff, ← ih hrest]
    omega

/-- The ranges are apart: each ends before those behind it begin. -/
theorem Consecutive.pairwise (h : Consecutive a rs b) :
    rs.Pairwise fun r q => r.1 + r.2 ≤ q.1 := by
  induction rs generalizing a with
  | nil => exact List.Pairwise.nil
  | cons r rs ih =>
    obtain ⟨rfl, hrest⟩ := h
    exact List.Pairwise.cons hrest.starts (ih hrest)

end Consecutive

end BlockTiling
