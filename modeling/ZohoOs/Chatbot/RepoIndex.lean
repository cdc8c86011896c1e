import Mathlib.Data.List.Chain
import Mathlib.Order.Lattice
import Mathlib.Tactic.Linarith

/-!
# The repository index of the chatbot

`repo_index.py`: the lines of a file are cut into chunks that overlap, and the chunks with a token in them
are indexed.

## Main definitions

* `chunkLines`: the chunks of some lines, with the numbers of their first and last line
* `Chunked`: what the chunks of the lines from some index on are
* `buildFile`: the chunks of a file that are indexed

## Main results

* `chunkLines_chunked`: the chunks are cut as they should be, and every line is in one
* `chunkLines_neighbours`: where a chunk ends and the next one starts
* `buildFile_covers`: a line with a token in it is in a chunk that is indexed
-/

namespace ZohoOs

/-- What an index of a slice means in a list of `len` elements: from the end where it is negative. -/
def pyIndex (len : Nat) (i : Int) : Nat := min (if i < 0 then i + len else i).toNat len

/-- `l[i:j]`. -/
def pySlice {α : Type*} (l : List α) (i j : Int) : List α :=
  (l.drop (pyIndex l.length i)).take (pyIndex l.length j - pyIndex l.length i)

/-- What `_chunk_lines` yields. -/
structure LineChunk where
  startLine : Int
  endLine : Int
  text : String
  deriving DecidableEq

/-- The chunk of the lines from `start` to `end`. -/
def lineChunk (lines : List String) (start stop : Int) : LineChunk where
  startLine := start + 1
  endLine := stop
  text := String.join (pySlice lines start stop)

/-- The loop of `_chunk_lines`, for at most `fuel` rounds. -/
def chunkLoop (lines : List String) (maxLines overlap : Int) : Nat → Int → Option (List LineChunk)
  | 0, _ => none
  | fuel + 1, start =>
    let total : Int := lines.length
    if start < total then
      let stop := min total (start + maxLines)
      let chunk := lineChunk lines start stop
      if stop ≥ total then some [chunk]
      else (chunkLoop lines maxLines overlap fuel (max (stop - overlap) (start + 1))).map (chunk :: ·)
    else some []

/-- `_chunk_lines`. -/
def chunkLines (fuel : Nat) (lines : List String) (maxLines overlap : Int) : Option (List LineChunk) :=
  if lines = [] then some [] else chunkLoop lines maxLines overlap fuel 0

/-- A character of `TOKEN_RE`. -/
def isTokenChar (c : Char) : Bool := c.isAlphanum || c ∈ ['_', '.', '/', '\\', '-']

/-- The token of a run of such characters, in lower case. -/
def runToken (run : List Char) : List String :=
  if run = [] then [] else [String.ofList (run.map Char.toLower)]

/-- The tokens of a text, behind a run that has begun. -/
def tokensFrom : List Char → List Char → List String
  | [], run => runToken run
  | c :: cs, run => if isTokenChar c then tokensFrom cs (run ++ [c]) else runToken run ++ tokensFrom cs []

/-- `_tokenize`: the tokens that the `Counter` counts. -/
def tokenize (text : String) : List String := tokensFrom text.toList []

structure Chunk where
  path : String
  startLine : Int
  endLine : Int
  text : String
  tokens : List String

/-- What `_build` appends for a chunk: nothing where there is no token in it. -/
def indexChunk (rel : String) (c : LineChunk) : Option Chunk :=
  let tokens := tokenize c.text
  if tokens = [] then none
  else some { path := rel, startLine := c.startLine, endLine := c.endLine, text := c.text, tokens := tokens }

/-- The loop of `_build` over the chunks of a file, with the default `max_lines` and `overlap`. -/
def buildFile (fuel : Nat) (rel : String) (lines : List String) : Option (List Chunk) :=
  (chunkLines fuel lines 80 16).map (List.filterMap (indexChunk rel))

/-- The lines with the numbers from `first` to `last`, counted from 1. -/
def linesBetween (lines : List String) (first last : Int) : List String :=
  (lines.drop (first - 1).toNat).take (last - first + 1).toNat

/-- The chunks of the lines from `start` on. -/
structure Chunked (lines : List String) (maxLines start : Int) (chunks : List LineChunk) : Prop where
  bounds : ∀ c ∈ chunks, start < c.startLine ∧ c.startLine ≤ c.endLine ∧ c.endLine ≤ lines.length
  short : ∀ c ∈ chunks, c.endLine - c.startLine + 1 ≤ maxLines
  text : ∀ c ∈ chunks, c.text = String.join (linesBetween lines c.startLine c.endLine)
  increasing : chunks.Pairwise fun c c' => c.startLine < c'.startLine
  covers : ∀ i : Int, start < i → i ≤ lines.length → ∃ c ∈ chunks, c.startLine ≤ i ∧ i ≤ c.endLine

section Chunks

variable {lines : List String} {maxLines overlap : Int}

theorem chunkLoop_last (overlap : Int) (fuel : Nat) {start : Int} (hlt : start < lines.length)
    (hlast : lines.length ≤ start + maxLines) :
    chunkLoop lines maxLines overlap (fuel + 1) start = some [lineChunk lines start lines.length] := by
  simp only [chunkLoop, if_pos hlt, min_eq_left hlast, ge_iff_le, le_refl, if_true]

theorem chunkLoop_succ (overlap : Int) (fuel : Nat) {start : Int} (hlt : start < lines.length)
    (hmore : start + maxLines < lines.length) :
    chunkLoop lines maxLines overlap (fuel + 1) start =
      (chunkLoop lines maxLines overlap fuel (max (start + maxLines - overlap) (start + 1))).map
        (lineChunk lines start (start + maxLines) :: ·) := by
  simp only [chunkLoop, if_pos hlt, min_eq_right hmore.le, ge_iff_le, if_neg (not_le.mpr hmore)]

theorem pySlice_eq {start stop : Int} (hstart : 0 ≤ start) (hle : start ≤ stop)
    (hstop : stop ≤ lines.length) : pySlice lines start stop = linesBetween lines (start + 1) stop := by
  -- the indices are not negative, and within the list
  have h : pyIndex lines.length start = start.toNat := by rw [pyIndex, if_neg (by omega)]; omega
  have h' : pyIndex lines.length stop = stop.toNat := by rw [pyIndex, if_neg (by omega)]; omega
  rw [pySlice, linesBetween, h, h', Int.add_sub_cancel]
  congr 1
  omega

/-- The last chunk. -/
theorem chunked_singleton {start : Int} (hstart : 0 ≤ start) (hlt : start < lines.length)
    (hmax : lines.length ≤ start + maxLines) :
    Chunked lines maxLines start [lineChunk lines start lines.length] where
  bounds c hc := by
    obtain rfl := List.mem_singleton.mp hc
    exact ⟨Int.lt_succ start, hlt, le_rfl⟩
  short c hc := by
    obtain rfl := List.mem_singleton.mp hc
    simp only [lineChunk]
    omega
  text c hc := by
    obtain rfl := List.mem_singleton.mp hc
    exact congrArg String.join (pySlice_eq hstart hlt.le le_rfl)
  increasing := List.pairwise_singleton ..
  covers i hi hi' := ⟨_, List.mem_singleton_self _, hi, hi'⟩

/-- **A chunk before the others.** The next one starts behind its first line, and no line is left out as
it starts before the chunk ends, or right there. -/
theorem Chunked.cons {start next : Int} {chunks : List LineChunk}
    (h : Chunked lines maxLines next chunks) (hstart : 0 ≤ start) (hmax : 1 ≤ maxLines)
    (hstop : start + maxLines ≤ lines.length) (hnext : start < next) (hgap : next ≤ start + maxLines) :
    Chunked lines maxLines start (lineChunk lines start (start + maxLines) :: chunks) where
  bounds c hc := by
    obtain rfl | hc := List.mem_cons.mp hc
    · simp only [lineChunk]
      omega
    · obtain ⟨hlow, hup⟩ := h.bounds c hc
      exact ⟨hnext.trans hlow, hup⟩
  short c hc := by
    obtain rfl | hc := List.mem_cons.mp hc
    · simp only [lineChunk]
      omega
    · exact h.short c hc
  text c hc := by
    obtain rfl | hc := List.mem_cons.mp hc
    · exact congrArg String.join (pySlice_eq hstart (by omega) hstop)
    · exact h.text c hc
  increasing := by
    refine List.pairwise_cons.mpr ⟨fun c hc => ?_, h.increasing⟩
    obtain ⟨hlow, -⟩ := h.bounds c hc
    simp only [lineChunk]
    omega
  covers i hi hi' := by
    -- a line behind this chunk is in a later one, since `next` leaves no gap
    by_cases hin : i ≤ start + maxLines
    · exact ⟨_, List.mem_cons_self, hi, hin⟩
    · obtain ⟨c, hc, hci⟩ := h.covers i (by omega) hi'
      exact ⟨c, List.mem_cons_of_mem _ hc, hci⟩

/-- The loop ends, as each round starts behind the one before. -/
theorem chunkLoop_chunked (hmax : 1 ≤ maxLines) (hoverlap : 0 ≤ overlap) {start : Int}
    (hstart : 0 ≤ start) (hlt : start < lines.length) :
    ∃ chunks, (∀ fuel : Nat, lines.length ≤ start + fuel →
      chunkLoop lines maxLines overlap fuel start = some chunks) ∧
      Chunked lines maxLines start chunks := by
  -- by induction on the lines that are left: the next round starts at least one line further on
  obtain ⟨k, hk⟩ : ∃ k : Nat, lines.length ≤ start + k := ⟨lines.length, by omega⟩
  induction k generalizing start with
  | zero => omega
  | succ k ih =>
    have hround : ∀ {fuel : Nat}, lines.length ≤ start + fuel → ∃ fuel', fuel = fuel' + 1 := fun h =>
      Nat.exists_eq_add_one.mpr (by omega)
    by_cases hlast : lines.length ≤ start + maxLines
    · refine ⟨_, fun fuel hfuel => ?_, chunked_singleton hstart hlt hlast⟩
      obtain ⟨fuel, rfl⟩ := hround hfuel
      exact chunkLoop_last overlap fuel hlt hlast
    · obtain ⟨chunks, hrun, hchunks⟩ :=
        ih (show 0 ≤ max (start + maxLines - overlap) (start + 1) by omega) (by omega) (by omega)
      refine ⟨_, fun fuel hfuel => ?_,
        hchunks.cons hstart hmax (by omega) (by omega) (by omega)⟩
      obtain ⟨fuel, rfl⟩ := hround hfuel
      rw [chunkLoop_succ overlap fuel hlt (by omega), hrun fuel (by omega), Option.map_some]

/-- **The chunks of a file.** With the rounds that it takes, `_chunk_lines` ends, and each line is in one
of the chunks that it yields. -/
theorem chunkLines_chunked (lines : List String) {maxLines overlap : Int} (hmax : 1 ≤ maxLines)
    (hoverlap : 0 ≤ overlap) :
    ∃ chunks, (∀ fuel ≥ lines.length, chunkLines fuel lines maxLines overlap = some chunks) ∧
      Chunked lines maxLines 0 chunks := by
  by_cases hnil : lines = []
  · subst hnil
    refine ⟨[], fun fuel _ => rfl, ?_⟩
    exact ⟨by simp, by simp, by simp, .nil, fun i hi hi' => absurd hi' (by simpa using hi)⟩
  · have hlt : (0 : Int) < lines.length := by exact_mod_cast List.length_pos_iff.mpr hnil
    obtain ⟨chunks, hrun, hchunks⟩ := chunkLoop_chunked hmax hoverlap le_rfl hlt
    exact ⟨chunks, fun fuel hfuel => by rw [chunkLines, if_neg hnil, hrun fuel (by omega)], hchunks⟩

/-- Chunks of two lines that overlap by five: each starts one line behind the one before. -/
theorem chunkLines_chunked_three :
    ∃ chunks, (∀ fuel ≥ 3, chunkLines fuel ["a", "b", "c"] 2 5 = some chunks) ∧
      Chunked ["a", "b", "c"] 2 0 chunks :=
  chunkLines_chunked ["a", "b", "c"] (by decide) (by decide)

/-- **A chunk with a chunk behind it** has all the lines that it may have. The next one starts so many
lines before its end as they overlap, but behind its start. -/
theorem chunkLoop_neighbours {fuel : Nat} {start : Int} {chunks : List LineChunk}
    (h : chunkLoop lines maxLines overlap fuel start = some chunks) :
    (∀ c ∈ chunks.head?, c.startLine = start + 1) ∧
      chunks.IsChain fun c c' => c.endLine = c.startLine - 1 + maxLines ∧
        c'.startLine = max (c.endLine - overlap) c.startLine + 1 := by
  induction fuel generalizing start chunks with
  | zero => cases h
  | succ fuel ih =>
    by_cases hlt : start < lines.length
    · by_cases hlast : lines.length ≤ start + maxLines
      · rw [chunkLoop_last overlap fuel hlt hlast] at h
        cases h
        exact ⟨by simp [lineChunk], .singleton _⟩
      · rw [chunkLoop_succ overlap fuel hlt (by omega)] at h
        obtain ⟨rest, hrest, rfl⟩ := Option.map_eq_some_iff.mp h
        obtain ⟨hhead, hchain⟩ := ih hrest
        refine ⟨by simp [lineChunk], hchain.cons fun c hc => ?_⟩
        simp only [lineChunk, hhead c hc, add_sub_cancel_right, true_and]
    · simp only [chunkLoop, if_neg hlt, Option.some.injEq] at h
      subst h
      exact ⟨by simp, .nil⟩

/-- With the defaults, neighbours share sixteen lines. -/
theorem chunkLines_neighbours {fuel : Nat} {chunks : List LineChunk}
    (h : chunkLines fuel lines 80 16 = some chunks) :
    chunks.IsChain fun c c' => c.endLine = c.startLine + 79 ∧ c'.startLine = c.endLine - 15 := by
  rw [chunkLines] at h
  split at h
  · cases h
    exact .nil
  · refine (chunkLoop_neighbours h).2.imp fun c c' hc => ?_
    obtain ⟨hend, hnext⟩ := hc
    omega

end Chunks

/-! ## The index -/

theorem tokensFrom_eq_nil_iff {cs run : List Char} :
    tokensFrom cs run = [] ↔ run = [] ∧ ∀ c ∈ cs, isTokenChar c = false := by
  induction cs generalizing run with
  | nil => simp [tokensFrom, runToken]
  | cons c cs ih =>
    rw [tokensFrom]
    split
    · rename_i hc
      simp [ih, hc]
    · rename_i hc
      simp [ih, hc, runToken]

theorem tokenize_eq_nil_iff {text : String} :
    tokenize text = [] ↔ ∀ c ∈ text.toList, isTokenChar c = false := by
  rw [tokenize, tokensFrom_eq_nil_iff, eq_self_iff_true, true_and]

theorem mem_linesBetween {lines : List String} {line : String} {first last : Int} {i : Nat}
    (hline : lines[i]? = some line) (hpos : 0 < first) (hfirst : first ≤ i + 1) (hlast : i + 1 ≤ last) :
    line ∈ linesBetween lines first last := by
  refine List.mem_of_getElem? (i := i - (first - 1).toNat) ?_
  rw [linesBetween, List.getElem?_take_of_lt (by omega), List.getElem?_drop, ← hline]
  congr 1
  omega

/-- A text has the tokens of its lines. -/
theorem tokenize_join_ne_nil {lines : List String} {line : String} {c : Char} (hline : line ∈ lines)
    (hc : c ∈ line.toList) (htoken : isTokenChar c = true) : tokenize (String.join lines) ≠ [] := by
  rw [Ne, tokenize_eq_nil_iff]
  intro hall
  have hin : c ∈ (String.join lines).toList := by
    rw [String.toList_join]
    exact List.mem_flatMap.mpr ⟨line, hline, hc⟩
  rw [hall c hin] at htoken
  cases htoken

/-- **A line with a token in it** is in a chunk of the index. -/
theorem buildFile_covers (rel : String) (lines : List String) :
    ∃ chunks, (∀ fuel ≥ lines.length, buildFile fuel rel lines = some chunks) ∧
      ∀ (i : Nat) (line : String), lines[i]? = some line → (∃ c ∈ line.toList, isTokenChar c = true) →
        ∃ c ∈ chunks, c.path = rel ∧ c.startLine ≤ i + 1 ∧ i + 1 ≤ c.endLine := by
  by_cases hnil : lines = []
  · subst hnil
    exact ⟨[], fun fuel _ => rfl, fun i line hline => by cases hline⟩
  have hlt : (0 : Int) < lines.length := by exact_mod_cast List.length_pos_iff.mpr hnil
  obtain ⟨chunks, hrun, hchunks⟩ :=
    chunkLoop_chunked (show (1 : Int) ≤ 80 by decide) (show (0 : Int) ≤ 16 by decide) le_rfl hlt
  refine ⟨chunks.filterMap (indexChunk rel), fun fuel hfuel => ?_, ?_⟩
  · rw [buildFile, chunkLines, if_neg hnil, hrun fuel (by omega), Option.map_some]
  · rintro i line hline ⟨a, ha, htoken⟩
    have hi : i < lines.length := (List.getElem?_eq_some_iff.mp hline).1
    obtain ⟨c, hc, hfirst, hlast⟩ := hchunks.covers (i + 1) (by omega) (by omega)
    -- the line is in the text of a chunk, and its token is among those of the text
    have hmem := mem_linesBetween hline (hchunks.bounds c hc).1 hfirst hlast
    have htokens : tokenize c.text ≠ [] := by
      rw [hchunks.text c hc]
      exact tokenize_join_ne_nil hmem ha htoken
    exact ⟨_, List.mem_filterMap.mpr ⟨c, hc, if_neg htokens⟩, rfl, hfirst, hlast⟩

end ZohoOs
