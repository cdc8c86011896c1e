import ZohoOs.Lib.LastWrite
import Mathlib.Data.List.Nodup

/-!
# Tables of slots

A table with a fixed number of slots, which a search from the front fills and reads: a pair is
stored in the first slot that is free or has its key. There is room for the keys that came first,
and each of them is found with its last value.

## Main definitions

* `store`, `find`: the two searches
* `comers`: the keys there is room for

## Main results

* `find_store`: what is found after one pair more
* `storeAll_eq`: the slots after a history of pairs
* `find_storeAll`: what is found there
-/

namespace SlotTable

open LastWrite

variable {κ β : Type*} [DecidableEq κ]

/-- A pair is stored in the first slot that is free or has its key. -/
def store (p : κ × β) : List (Option (κ × β)) → List (Option (κ × β))
  | [] => []
  | none :: slots => some p :: slots
  | some e :: slots => if e.1 = p.1 then some p :: slots else some e :: store p slots

/-- The value in the first slot with a key. -/
def find (k : κ) : List (Option (κ × β)) → Option β
  | [] => none
  | none :: slots => find k slots
  | some e :: slots => if e.1 = k then some e.2 else find k slots

/-- The slots after a history of pairs, of a table with `cap` slots. -/
def storeAll (cap : ℕ) (history : List (κ × β)) : List (Option (κ × β)) :=
  history.foldl (fun slots p => store p slots) (List.replicate cap none)

/-- The keys that came first, in their order. -/
def comers (cap : ℕ) (history : List (κ × β)) : List κ :=
  (history.map Prod.fst).eraseDups.take cap

/-! ## The keys -/

section Keys

variable {cap : ℕ} {history : List (κ × β)} {p : κ × β} {k : κ}

theorem removeAll_singleton (l : List κ) : [k].removeAll l = if k ∈ l then [] else [k] := by
  by_cases h : k ∈ l <;> simp [List.removeAll, h]

theorem eraseDups_concat (l : List κ) :
    (l ++ [k]).eraseDups = l.eraseDups ++ if k ∈ l then [] else [k] := by
  rw [List.eraseDups_append, removeAll_singleton]
  split <;> rfl

theorem nodup_eraseDups (l : List κ) : l.eraseDups.Nodup := by
  induction l using List.reverseRecOn with
  | nil => exact List.nodup_nil
  | append_singleton l k ih =>
    rw [eraseDups_concat]
    by_cases h : k ∈ l
    · rwa [if_pos h, List.append_nil]
    · rw [if_neg h]
      refine ih.append (List.nodup_singleton k) (List.disjoint_singleton.mpr ?_)
      rwa [List.mem_eraseDups]

theorem comers_nodup : (comers cap history).Nodup :=
  (nodup_eraseDups _).sublist (List.take_sublist _ _)

theorem comers_length_le : (comers cap history).length ≤ cap := List.length_take_le _ _

theorem comers_mem (h : k ∈ comers cap history) : k ∈ history.map Prod.fst :=
  List.mem_eraseDups.mp (List.mem_of_mem_take h)

/-- A key comes once. -/
theorem comers_concat_of_mem (h : p.1 ∈ comers cap history) :
    comers cap (history ++ [p]) = comers cap history := by
  rw [comers, List.map_append, List.map_singleton, eraseDups_concat, if_pos (comers_mem h),
    List.append_nil, comers]

/-- Where there is room, a new key comes behind the others. -/
theorem comers_concat_of_room (hroom : (comers cap history).length < cap)
    (h : p.1 ∉ comers cap history) : comers cap (history ++ [p]) = comers cap history ++ [p.1] := by
  have hall : comers cap history = (history.map Prod.fst).eraseDups := by
    apply List.take_of_length_le
    rw [comers, List.length_take] at hroom
    omega
  have hnew : p.1 ∉ history.map Prod.fst := by
    rwa [hall, List.mem_eraseDups] at h
  rw [hall] at hroom ⊢
  rw [comers, List.map_append, List.map_singleton, eraseDups_concat, if_neg hnew]
  apply List.take_of_length_le
  rw [List.length_append, List.length_singleton]
  omega

/-- A full table takes no new key. -/
theorem comers_concat_of_full (hfull : (comers cap history).length = cap) :
    comers cap (history ++ [p]) = comers cap history := by
  have hle : cap ≤ (history.map Prod.fst).eraseDups.length := by
    rw [← hfull, comers]
    exact List.length_take_le' _ _
  rw [comers, List.map_append, List.map_singleton, eraseDups_concat, List.take_append_of_le_length hle,
    comers]

end Keys

/-! ## The slots -/

section Slots

variable {cap : ℕ} {history : List (κ × β)} {p : κ × β} {k : κ} {keys : List κ}
  {f : κ → Option (κ × β)} {rest : List (Option (κ × β))}

/-- A slot for each key. -/
def Filled (f : κ → Option (κ × β)) (keys : List κ) : Prop := ∀ k ∈ keys, ∃ v, f k = some (k, v)

theorem store_of_notMem (hf : Filled f keys) (hk : p.1 ∉ keys) :
    store p (keys.map f ++ rest) = keys.map f ++ store p rest := by
  induction keys with
  | nil => rfl
  | cons key keys ih =>
    obtain ⟨v, hv⟩ := hf key List.mem_cons_self
    rw [List.map_cons, hv, List.cons_append, store, if_neg (List.ne_of_not_mem_cons hk).symm,
      ih (fun k hmem => hf k (List.mem_cons_of_mem _ hmem)) (List.not_mem_of_not_mem_cons hk)]
    rfl

theorem map_update_of_notMem (hk : k ∉ keys) (e : Option (κ × β)) :
    keys.map (Function.update f k e) = keys.map f := by
  apply List.map_congr_left
  intro key hmem
  apply Function.update_of_ne
  rintro rfl
  exact hk hmem

theorem store_of_mem (hf : Filled f keys) (hnodup : keys.Nodup) (hk : p.1 ∈ keys) :
    store p (keys.map f ++ rest) = keys.map (Function.update f p.1 (some p)) ++ rest := by
  induction keys with
  | nil => exact absurd hk List.not_mem_nil
  | cons key keys ih =>
    obtain ⟨v, hv⟩ := hf key List.mem_cons_self
    obtain ⟨hnew, hnodup⟩ := List.nodup_cons.mp hnodup
    rw [List.map_cons, List.map_cons, hv, List.cons_append, store]
    by_cases heq : key = p.1
    · subst heq
      rw [if_pos rfl, Function.update_self, map_update_of_notMem hnew]
      rfl
    · rw [if_neg heq, Function.update_of_ne heq, hv,
        ih (fun k hmem => hf k (List.mem_cons_of_mem _ hmem)) hnodup
          ((List.mem_cons.mp hk).resolve_left (Ne.symm heq))]
      rfl

theorem find_filled (hf : Filled f keys) (n : ℕ) :
    find k (keys.map f ++ List.replicate n none) = if k ∈ keys then (f k).map Prod.snd else none := by
  induction keys with
  | nil =>
    rw [List.map_nil, List.nil_append, if_neg List.not_mem_nil]
    induction n with
    | zero => rfl
    | succ n ih => exact ih
  | cons key keys ih =>
    obtain ⟨v, hv⟩ := hf key List.mem_cons_self
    rw [List.map_cons, hv, List.cons_append, find]
    by_cases heq : key = k
    · subst heq
      rw [if_pos rfl, if_pos List.mem_cons_self, hv]
      rfl
    · rw [if_neg heq, ih fun k hmem => hf k (List.mem_cons_of_mem _ hmem)]
      simp only [List.mem_cons, Ne.symm heq, false_or]

/-- A slot that is free or has the key. -/
def HasRoom (k : κ) (slots : List (Option (κ × β))) : Prop := ∃ e ∈ slots, ∀ q, e = some q → q.1 = k

/-- **One pair more**: it is found if there was room for it, and the other keys as before. -/
theorem find_store {p : κ × β} {slots : List (Option (κ × β))} (hroom : HasRoom p.1 slots) :
    find k (store p slots) = if k = p.1 then some p.2 else find k slots := by
  induction slots with
  | nil =>
    obtain ⟨e, he, -⟩ := hroom
    exact absurd he List.not_mem_nil
  | cons e slots ih =>
    cases e with
    | none =>
      rw [store, find, find]
      by_cases hk : k = p.1
      · rw [if_pos hk.symm, if_pos hk]
      · rw [if_neg (Ne.symm hk), if_neg hk]
    | some q =>
      rw [store]
      by_cases hq : q.1 = p.1
      · rw [if_pos hq, find, find, hq]
        by_cases hk : k = p.1
        · rw [if_pos hk.symm, if_pos hk]
        · rw [if_neg (Ne.symm hk), if_neg hk, if_neg (Ne.symm hk)]
      · have hrest : HasRoom p.1 slots := by
          obtain ⟨e, he, hkey⟩ := hroom
          rcases List.mem_cons.mp he with rfl | he
          · exact absurd (hkey q rfl) hq
          · exact ⟨e, he, hkey⟩
        rw [if_neg hq, find, find, ih hrest]
        by_cases hk : k = p.1
        · rw [if_pos hk, if_neg fun h => hq (h.trans hk), if_pos hk]
        · rw [if_neg hk, if_neg hk]

/-! ## A history -/

theorem storeAll_concat : storeAll cap (history ++ [p]) = store p (storeAll cap history) := by
  rw [storeAll, List.foldl_append, List.foldl_cons, List.foldl_nil, storeAll]

theorem lastWrite_filled (hkeys : ∀ k ∈ keys, k ∈ history.map Prod.fst) :
    Filled (lastWrite Prod.fst history) keys := by
  intro k hk
  obtain ⟨e, he, rfl⟩ := List.mem_map.mp (hkeys k hk)
  have hsome : (lastWrite Prod.fst history e.1).isSome := by
    rw [lastWrite, List.getLast?_isSome]
    exact List.ne_nil_of_mem (List.mem_filter.mpr ⟨he, decide_eq_true rfl⟩)
  obtain ⟨last, hlast⟩ := Option.isSome_iff_exists.mp hsome
  obtain ⟨-, hkey⟩ := lastWrite_key hlast
  exact ⟨last.2, by rw [hlast, ← hkey]⟩

theorem lastWrite_update : lastWrite Prod.fst (history ++ [p]) =
    Function.update (lastWrite Prod.fst history) p.1 (some p) := by
  funext k
  rw [lastWrite_concat, Function.update_apply]
  simp only [eq_comm]

/-- **The slots after a history.** The keys that came first, each with its last value, and behind
them the slots that are free. -/
theorem storeAll_eq : storeAll cap history =
    (comers cap history).map (lastWrite Prod.fst history) ++
      List.replicate (cap - (comers cap history).length) none := by
  induction history using List.reverseRecOn with
  | nil => simp [storeAll, comers]
  | append_singleton history p ih =>
    have hf : Filled (lastWrite Prod.fst history) (comers cap history) :=
      lastWrite_filled fun _ => comers_mem
    rw [storeAll_concat, ih, lastWrite_update]
    by_cases hmem : p.1 ∈ comers cap history
    · rw [store_of_mem hf comers_nodup hmem, comers_concat_of_mem hmem]
    rw [store_of_notMem hf hmem]
    have hle : (comers cap history).length ≤ cap := comers_length_le
    rcases Nat.lt_or_eq_of_le hle with hroom | hfull
    · -- the first free slot is the one behind the keys
      obtain ⟨n, hn⟩ : ∃ n, cap - (comers cap history).length = n + 1 :=
        ⟨cap - (comers cap history).length - 1, by omega⟩
      rw [comers_concat_of_room hroom hmem, List.map_append, map_update_of_notMem hmem, List.map_singleton,
        Function.update_self, List.length_append, List.length_singleton,
        show cap - ((comers cap history).length + 1) = n by omega, hn, List.append_assoc]
      rfl
    · rw [comers_concat_of_full hfull, map_update_of_notMem hmem, hfull, Nat.sub_self]
      rfl

/-- **What is found after a history**: the last value of a key, if it came in time. -/
theorem find_storeAll : find k (storeAll cap history) =
    if k ∈ comers cap history then (lastWrite Prod.fst history k).map Prod.snd else none := by
  rw [storeAll_eq]
  exact find_filled (lastWrite_filled fun _ => comers_mem) _

/-- The third key finds no slot, and the first has its last value. -/
example : find 1 (storeAll 2 [(1, 10), (2, 20), (3, 30), (1, 11)]) = some 11 ∧
    find 3 (storeAll 2 [(1, 10), (2, 20), (3, 30), (1, 11)]) = none := by decide

end Slots

end SlotTable
