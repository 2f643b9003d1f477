import EngPlatform.Results.Capture

/-!
# A capture is read back

While the writer fills chunks, its chunks are laid out one after the other over the rows that it
took (`Laid`), and each that was flushed to make room is nearly full. So a finished capture has few
chunks, its manifest passes the reader's checks, and a page of it is the same slice of the rows.
-/

set_option linter.dupNamespace false

namespace Results

open CodePoints JsonText Database

variable {env : Env} {src : Source} {id : Text} {columns : Json} {made : List Object}

/-! ## Lines -/

def lines (group : List (List Json)) : Text := group.flatMap line

theorem lines_append (group group' : List (List Json)) :
    lines (group ++ group') = lines group ++ lines group' := List.flatMap_append

theorem line_pos (row : List Json) : 0 < (line row).length := by
  unfold line
  rw [List.length_append]
  exact Nat.succ_pos _

theorem length_le_lines (group : List (List Json)) : group.length ≤ (lines group).length := by
  induction group with
  | nil => exact Nat.le_refl 0
  | cons row group ih =>
    have := line_pos row
    unfold lines at ih ⊢
    rw [List.flatMap_cons, List.length_append, List.length_cons]
    omega

theorem splitlines_cons {c : ℕ} {t : Text} (h : printable c = true) :
    splitlines (c :: t) = prepend c (splitlines t) := by
  have h₁ : c ≠ 10 := by
    rintro rfl
    cases h
  have h₂ : c ≠ 13 := by
    rintro rfl
    cases h
  rw [splitlines]
  · exact h₁
  · exact fun _ h => absurd h h₂
  · exact h₂

theorem splitlines_line {l t : Text} (h : l.all printable = true) :
    splitlines (l ++ 10 :: t) = l :: splitlines t := by
  induction l with
  | nil => rfl
  | cons c l ih =>
    rw [List.all_cons, Bool.and_eq_true] at h
    rw [List.cons_append, splitlines_cons h.1, ih h.2, prepend]

theorem splitlines_lines (group : List (List Json)) :
    splitlines (lines group) = group.map fun row => dumps (.list row) := by
  induction group with
  | nil => rfl
  | cons row group ih =>
    have hline : lines (row :: group) = dumps (.list row) ++ 10 :: lines group := by
      simp only [lines, line, List.flatMap_cons, List.append_assoc, List.cons_append,
        List.nil_append]
    rw [hline, splitlines_line (printable_dumps _), ih, List.map_cons]

/-! ## Slices -/

/-- The items of `l`, the first of which is at `position`, from `start` to `stop`. -/
def window {α : Type*} (start stop : ℕ) : ℕ → List α → List α
  | _, [] => []
  | position, a :: l =>
    if start ≤ position ∧ position < stop then a :: window start stop (position + 1) l
    else window start stop (position + 1) l

section Window

variable {α : Type*} {start stop : ℕ}

theorem window_append : ∀ (l l' : List α) (position : ℕ), window start stop position (l ++ l')
    = window start stop position l ++ window start stop (position + l.length) l'
  | [], l', position => rfl
  | a :: l, l', position => by
    have ih := window_append l l' (position + 1)
    rw [Nat.add_right_comm] at ih
    rw [List.cons_append, window, window, List.length_cons, ← Nat.add_assoc, ih]
    split
    · rw [List.cons_append]
    · rfl

theorem window_before : ∀ {l : List α} {position : ℕ}, position + l.length ≤ start →
    window start stop position l = []
  | [], _, _ => rfl
  | a :: l, position, h => by
    rw [List.length_cons] at h
    rw [window, if_neg (by omega), window_before (by omega)]

theorem window_after : ∀ {l : List α} {position : ℕ}, stop ≤ position →
    window start stop position l = []
  | [], _, _ => rfl
  | a :: l, position, h => by
    rw [window, if_neg (by omega), window_after (by omega)]

theorem window_eq : ∀ (l : List α) (position : ℕ), window start stop position l
    = (l.drop (start - position)).take (stop - max start position)
  | [], position => by rw [List.drop_nil, List.take_nil, window]
  | a :: l, position => by
    have ih := window_eq l (position + 1)
    rw [window, ih]
    by_cases hstart : start ≤ position
    · have h₁ : start - position = 0 := by omega
      have h₂ : start - (position + 1) = 0 := by omega
      have h₃ : max start position = position := by omega
      have h₄ : max start (position + 1) = position + 1 := by omega
      rw [h₁, h₂, h₃, h₄, List.drop_zero, List.drop_zero]
      by_cases hstop : position < stop
      · have h₅ : stop - position = (stop - (position + 1)) + 1 := by omega
        rw [if_pos ⟨hstart, hstop⟩, h₅, List.take_succ_cons]
      · have h₅ : stop - position = 0 := by omega
        have h₆ : stop - (position + 1) = 0 := by omega
        rw [if_neg fun h => hstop h.2, h₅, h₆, List.take_zero, List.take_zero]
    · have h₁ : start - position = (start - (position + 1)) + 1 := by omega
      have h₃ : max start position = start := by omega
      have h₄ : max start (position + 1) = start := by omega
      rw [if_neg fun h => hstart h.1, h₁, h₃, h₄, List.drop_succ_cons]

end Window

/-! ## Chunks -/

/-- The chunk of the rows `group`, the first of which is the row `start`. -/
structure Chunk.Of (env : Env) (id : Text) (index start : ℕ) (group : List (List Json))
    (c : Chunk) : Prop where
  object : c.reference.object = chunkPath id index
  path : validPath (chunkPath id index) = true
  pos : 0 < c.reference.generation
  lt : c.reference.generation < 2 ^ 63
  sha256 : c.reference.sha256 = env.digest (lines group)
  bytes : c.reference.bytes = (lines group).length
  bound : (lines group).length ≤ chunkBytes
  rowStart : c.rowStart = start
  rowCount : c.rowCount = group.length
  nonempty : group ≠ []

/-- Chunks over groups of rows, one after the other, from the chunk `index` and the row `start`. -/
inductive Laid (env : Env) (id : Text) (made : List Object) :
    ℕ → ℕ → List (List (List Json)) → List Chunk → Prop
  | nil (index start : ℕ) : Laid env id made index start [] []
  | cons {index start : ℕ} {group : List (List Json)} {groups : List (List (List Json))}
      {c : Chunk} {chunks : List Chunk} : c.Of env id index start group →
      ⟨c.reference.object, c.reference.generation, lines group⟩ ∈ made →
      Laid env id made (index + 1) (start + group.length) groups chunks →
      Laid env id made index start (group :: groups) (c :: chunks)

section Laid

variable {index start : ℕ} {group : List (List Json)} {groups : List (List (List Json))}
  {c : Chunk} {chunks : List Chunk}

theorem Laid.mono {made' : List Object} (h : Laid env id made index start groups chunks)
    (hm : ∀ o ∈ made, o ∈ made') : Laid env id made' index start groups chunks := by
  induction h with
  | nil index start => exact .nil index start
  | cons hc ho _ ih => exact .cons hc (hm _ ho) ih

theorem Laid.snoc (h : Laid env id made index start groups chunks)
    (hc : c.Of env id (index + chunks.length) (start + groups.flatten.length) group)
    (ho : ⟨c.reference.object, c.reference.generation, lines group⟩ ∈ made) :
    Laid env id made index start (groups ++ [group]) (chunks ++ [c]) := by
  induction h with
  | nil index start => exact .cons hc ho (.nil _ _)
  | @cons index start first groups c' chunks hfirst hmade _ ih =>
    refine .cons hfirst hmade (ih ?_)
    rw [List.length_cons, List.flatten_cons, List.length_append] at hc
    rwa [Nat.add_right_comm, Nat.add_assoc, Nat.add_assoc start]

theorem Laid.length (h : Laid env id made index start groups chunks) :
    chunks.length = groups.length := by
  induction h with
  | nil => rfl
  | cons _ _ _ ih => rw [List.length_cons, List.length_cons, ih]

theorem short_of_nat {n : ℕ} (h : n < 2 ^ 63) : Short n :=
  short_of_lt (Nat.lt_of_lt_of_le h (Nat.le_trans (by decide : 2 ^ 63 ≤ 10 ^ 19)
    (Nat.pow_le_pow_right (by decide) (by decide))))

theorem ascii_of_validPath {path : Text} (h : validPath path = true) : ∀ c ∈ path, c < 128 := by
  have hjoin : [47].intercalate (path.splitOn 47) = path := List.intercalate_splitOn 47
  unfold validPath at h
  split at h
  · rename_i folder execution name hsplit
    simp only [Bool.and_eq_true, Bool.or_eq_true, decide_eq_true_eq, List.all_eq_true] at h
    obtain ⟨⟨hfolder, -, hexecution⟩, -, hname⟩ := h
    rw [hsplit] at hjoin
    intro c hc
    rw [← hjoin] at hc
    simp only [List.intercalate, List.intersperse, List.flatten_cons, List.flatten_nil,
      List.append_nil, List.mem_append, List.mem_singleton] at hc
    rcases hc with hc | rfl | hc | rfl | hc
    · have hfolders : ∀ folder ∈ ["inputs", "results"], ∀ c ∈ text folder, c < 128 := by decide
      rcases hfolder with rfl | rfl
      · exact hfolders _ (by decide) c hc
      · exact hfolders _ (by decide) c hc
    · decide
    · have := hexecution c hc
      unfold isHex at this
      simp only [Bool.or_eq_true, Bool.and_eq_true, decide_eq_true_eq] at this
      omega
    · decide
    · have := hname c hc
      unfold isName at this
      simp only [Bool.or_eq_true, Bool.and_eq_true, decide_eq_true_eq] at this
      omega
  · cases h

theorem ascii_of_validHash {hash : Text} (h : validHash hash = true) : ∀ c ∈ hash, c < 128 := by
  intro c hc
  unfold validHash at h
  rw [Bool.and_eq_true, List.all_eq_true] at h
  have := h.2 c hc
  unfold isHex at this
  simp only [Bool.or_eq_true, Bool.and_eq_true, decide_eq_true_eq] at this
  omega

theorem members_cons {key : Text} {value : Json} {members : List (Text × Json)}
    (hkey : Plain key) (hvalue : Loadable value) (hmembers : LoadableMembers members) :
    LoadableMembers ((key, value) :: members) :=
  ⟨hkey, hvalue, hmembers⟩

theorem Chunk.Of.loadable (h : c.Of env id index start group) (hstart : start < 2 ^ 63) :
    Loadable c.json := by
  have hb := h.bound
  have hrows := length_le_lines group
  have hchunk : chunkBytes < 2 ^ 63 := by decide
  have hobject : Plain c.reference.object := by
    rw [h.object]
    exact plain_of_ascii (ascii_of_validPath h.path)
  have hhash : Plain c.reference.sha256 := by
    rw [h.sha256]
    exact plain_of_ascii (ascii_of_validHash (env.digest_valid _))
  have hkeys : ∀ key ∈ ["object", "generation", "sha256", "bytes", "row_start", "row_count"],
      ∀ c ∈ text key, c < 128 := by decide +kernel
  have hkey : ∀ key ∈ ["object", "generation", "sha256", "bytes", "row_start", "row_count"],
      Plain (text key) := fun key hkey => plain_of_ascii (hkeys key hkey)
  have hdistinct : (["object", "generation", "sha256", "bytes", "row_start", "row_count"].map
      text).Nodup := by decide +kernel
  refine ⟨hdistinct,
    members_cons (hkey _ (by decide)) hobject <|
    members_cons (hkey _ (by decide)) (short_of_nat h.lt) <|
    members_cons (hkey _ (by decide)) hhash <|
    members_cons (hkey _ (by decide)) (short_of_nat ?_) <|
    members_cons (hkey _ (by decide)) (short_of_nat ?_) <|
    members_cons (hkey _ (by decide)) (short_of_nat ?_) trivial⟩
  · rw [h.bytes]
    omega
  · rw [h.rowStart]
    exact hstart
  · rw [h.rowCount]
    omega

theorem Chunk.Of.chunkOf_json (h : c.Of env id index start group) :
    chunkOf id index start c.json = some c := by
  have hb := h.bound
  have hrows := length_le_lines group
  have hpos := List.length_pos_of_ne_nil h.nonempty
  have href : referenceOf c.json chunkBytes = some c.reference := by
    change (if validPath c.reference.object ∧ c.reference.bytes ≤ chunkBytes ∧
      0 < c.reference.generation ∧ validHash c.reference.sha256 then some c.reference else none) = _
    rw [if_pos]
    refine ⟨h.object ▸ h.path, ?_, h.pos, ?_⟩
    · rw [h.bytes]
      exact hb
    · rw [h.sha256]
      exact env.digest_valid _
  unfold chunkOf
  rw [href]
  change (if c.rowStart = start ∧ 1 ≤ c.rowCount ∧ c.rowCount ≤ c.reference.bytes ∧
      c.reference.object = chunkPath id index then some c else none) = _
  rw [if_pos]
  refine ⟨h.rowStart, ?_, ?_, h.object⟩
  · rw [h.rowCount]
    exact hpos
  · rw [h.rowCount, h.bytes]
    exact hrows

theorem Laid.chunksOf_json {bytes : ℕ} (h : Laid env id made index start groups chunks) :
    chunksOf id index start bytes (chunks.map Chunk.json)
      = some (chunks, start + groups.flatten.length, bytes + (lines groups.flatten).length) := by
  induction h generalizing bytes with
  | nil index start => rfl
  | @cons index start group groups c chunks hc _ _ ih =>
    rw [List.map_cons, chunksOf, hc.chunkOf_json]
    dsimp only [Option.bind_eq_bind, Option.bind_some]
    rw [hc.rowCount, hc.bytes, ih, Option.bind_some, List.flatten_cons, List.length_append,
      lines_append, List.length_append, Nat.add_assoc, Nat.add_assoc]


/-! ## Reading -/

/-- No other bytes that the store returns have the digest of what was put there. -/
structure Honest (env : Env) (made : List Object) (src : Source) : Prop where
  digest : src.digest = env.digest
  fetch : ∀ o ∈ made, ∀ raw, src.fetch o.path o.generation = some raw →
    src.digest raw = src.digest o.data → raw = o.data

/-- What was put is returned. -/
def Held (made : List Object) (src : Source) : Prop :=
  ∀ o ∈ made, src.fetch o.path o.generation = some o.data

/-- A row of values that are loaded as they were dumped. -/
def Good (row : List Json) : Prop := LoadableItems row

theorem loads_row {row : List Json} (h : Good row) : loads (dumps (.list row)) = some (.list row) := by
  have := @loads_dumps (.list row) h [] (fun c hc => by cases hc) rfl
  rwa [List.append_nil] at this

theorem linesFrom_rows {first last : ℕ} : ∀ {group : List (List Json)} {position : ℕ},
    (∀ row ∈ group, Good row) →
    linesFrom first last position (group.map fun row => dumps (.list row))
      = (window first last position (group.map .list), none)
  | [], _, _ => rfl
  | row :: group, position, h => by
    have ih := @linesFrom_rows first last group (position + 1)
      fun row hrow => h row (List.mem_cons_of_mem _ hrow)
    rw [List.map_cons, List.map_cons, linesFrom, window, ih]
    split
    · rw [loads_row (h row List.mem_cons_self)]
    · rfl

theorem read_ok {r : Reference} {raw : Text} (h : read src r = .ok raw) :
    src.fetch r.object r.generation = some raw ∧ src.digest raw = r.sha256 := by
  unfold read at h
  split at h
  · split at h
    · split at h
      · cases h
      · rename_i raw' hfetch
        split at h
        · rename_i hraw
          cases h
          exact ⟨hfetch, hraw.2⟩
        · cases h
    · cases h
  · cases h

theorem read_held {r : Reference} {data : Text} (hpath : validPath r.object = true)
    (hbytes : r.bytes = data.length) (hbound : data.length ≤ chunkBytes) (hpos : 0 < r.generation)
    (hhash : r.sha256 = env.digest data) (hdigest : src.digest = env.digest)
    (hfetch : src.fetch r.object r.generation = some data) : read src r = .ok data := by
  have hvalid : r.bytes ≤ chunkBytes ∧ 0 < r.generation ∧ validHash r.sha256 = true := by
    rw [hbytes, hhash]
    exact ⟨hbound, hpos, env.digest_valid _⟩
  have hraw : data.length = r.bytes ∧ src.digest data = r.sha256 := by
    rw [hdigest, hhash]
    exact ⟨hbytes.symm, rfl⟩
  rw [read, if_pos hpath, if_pos hvalid, hfetch]
  exact if_pos hraw

theorem Chunk.Of.linesOf_eq (h : c.Of env id index start group) (hs : Honest env made src)
    (hm : ⟨c.reference.object, c.reference.generation, lines group⟩ ∈ made) {found : List Text}
    (hl : linesOf src c = .ok found) : found = group.map fun row => dumps (.list row) := by
  unfold linesOf at hl
  obtain ⟨raw, hread, hl⟩ := Interleave.bind_ok.1 hl
  obtain ⟨hfetch, hdigest⟩ := read_ok hread
  have hraw : raw = lines group := by
    refine hs.fetch _ hm raw hfetch ?_
    rw [hdigest, h.sha256, hs.digest]
  rw [hraw, splitlines_lines] at hl
  split at hl
  · exact (Except.ok.inj hl).symm
  · cases hl

theorem Chunk.Of.linesOf_held (h : c.Of env id index start group) (hs : src.digest = env.digest)
    (hm : src.fetch c.reference.object c.reference.generation = some (lines group)) :
    linesOf src c = .ok (group.map fun row => dumps (.list row)) := by
  have hread : read src c.reference = .ok (lines group) :=
    read_held (h.object ▸ h.path) h.bytes h.bound h.pos h.sha256 hs hm
  unfold linesOf
  rw [hread]
  refine Interleave.bind_ok.2 ⟨_, rfl, ?_⟩
  rw [splitlines_lines]
  exact if_pos (by rw [List.length_map, h.rowCount])

/-- What is yielded is the start of the slice, and all of it unless an error ends it. -/
theorem Laid.rowsFrom_spec {authorize : ℕ → Option Raised} {first last k : ℕ}
    (h : Laid env id made index start groups chunks) (hs : Honest env made src)
    (hg : ∀ row ∈ groups.flatten, Good row) :
    (rowsFrom src authorize first last k chunks).1
        <+: window first last start (groups.flatten.map .list) ∧
      ((rowsFrom src authorize first last k chunks).2 = none →
        (rowsFrom src authorize first last k chunks).1
          = window first last start (groups.flatten.map .list)) := by
  induction h generalizing k with
  | nil index start => exact ⟨List.prefix_refl _, fun _ => rfl⟩
  | @cons index start group groups c chunks hc hm hlaid ih =>
    rw [List.flatten_cons] at hg
    have hrest := fun k => ih (k := k) fun row hrow => hg row (List.mem_append_right _ hrow)
    have hgroup : ∀ row ∈ group, Good row := fun row hrow => hg row (List.mem_append_left _ hrow)
    rw [List.flatten_cons, List.map_append, window_append, List.length_map, rowsFrom]
    by_cases hafter : last ≤ c.rowStart
    · rw [hc.rowStart] at hafter
      rw [if_pos (hc.rowStart ▸ hafter), window_after hafter, window_after (by omega)]
      exact ⟨List.prefix_refl _, fun _ => rfl⟩
    rw [if_neg hafter]
    by_cases hbefore : c.rowStart + c.rowCount ≤ first
    · rw [if_pos hbefore]
      rw [hc.rowStart, hc.rowCount] at hbefore
      rw [window_before (by rwa [List.length_map]), List.nil_append]
      exact hrest k
    rw [if_neg hbefore]
    cases hauth : authorize k with
    | some e => exact ⟨ List.nil_prefix, fun h => by cases h⟩
    | none =>
      dsimp only
      cases hl : linesOf src c with
      | error e => exact ⟨ List.nil_prefix, fun h => by cases h⟩
      | ok found =>
        dsimp only
        rw [hc.linesOf_eq hs hm hl, hc.rowStart, linesFrom_rows hgroup]
        dsimp only
        refine ⟨(List.prefix_append_right_inj _).2 (hrest (k + 1)).1, fun h => ?_⟩
        rw [(hrest (k + 1)).2 h]

/-- Nothing ends it early where what was put is returned. -/
theorem Laid.rowsFrom_held {authorize : ℕ → Option Raised} {first last k : ℕ}
    (h : Laid env id made index start groups chunks) (hs : src.digest = env.digest)
    (hheld : Held made src) (hg : ∀ row ∈ groups.flatten, Good row)
    (hauth : ∀ k, authorize k = none) :
    (rowsFrom src authorize first last k chunks).2 = none := by
  induction h generalizing k with
  | nil index start => rfl
  | @cons index start group groups c chunks hc hm hlaid ih =>
    rw [List.flatten_cons] at hg
    have hrest := fun k => ih (k := k) fun row hrow => hg row (List.mem_append_right _ hrow)
    have hgroup : ∀ row ∈ group, Good row := fun row hrow => hg row (List.mem_append_left _ hrow)
    rw [rowsFrom]
    by_cases hafter : last ≤ c.rowStart
    · rw [if_pos hafter]
    rw [if_neg hafter]
    by_cases hbefore : c.rowStart + c.rowCount ≤ first
    · rw [if_pos hbefore]
      exact hrest k
    rw [if_neg hbefore, hauth k]
    dsimp only
    rw [hc.linesOf_held hs (hheld _ hm)]
    dsimp only
    rw [linesFrom_rows hgroup]
    exact hrest (k + 1)

end Laid

/-! ## Writing -/

/-- The writer has taken `groups` into its chunks and `pending` into its buffer. -/
structure Filled (env : Env) (id : Text) (columns : Json) (groups : List (List (List Json)))
    (pending : List (List Json)) (x : Writer) (w : World) : Prop where
  executionId : x.executionId = id
  sameColumns : x.columns = columns
  valid : validColumns columns = true
  laid : Laid env id w.made 0 0 groups x.chunks
  buffer : x.buffer = lines pending
  bound : (lines pending).length ≤ chunkBytes
  bufferCount : x.bufferCount = pending.length
  rowCount : x.rowCount = groups.flatten.length + pending.length
  byteCount : x.byteCount
    = (dumps columns).length + (lines groups.flatten).length + (lines pending).length

/-- A chunk with no room for one more row of any length. -/
def Full (group : List (List Json)) : Prop := chunkBytes - rowBytes < (lines group).length

section Writing

variable {groups : List (List (List Json))} {pending rows : List (List Json)} {row : List Json}
  {x x' : Writer} {w w' : World}

theorem answer_made {raised : Option Raised} (h : answer raised w = .ok w') : w'.made = w.made := by
  unfold answer at h
  split at h
  · cases h
  · cases h
    rfl

theorem put_ok {path data : Text} {stored : Reference × World}
    (h : put env path data w = .ok stored) :
    validPath path = true ∧ ∃ g, 0 < g ∧ g < 2 ^ 63 ∧
      stored.1 = ⟨path, g, env.digest data, data.length⟩ ∧
      stored.2.made = w.made ++ [⟨path, g, data⟩] := by
  unfold put at h
  split at h
  · rename_i hpath
    split at h
    · cases h
    · rename_i g hg
      cases h
      exact ⟨hpath, g, env.put_pos _ _ hg, env.put_lt _ _ hg, rfl, rfl⟩
  · cases h

theorem lines_eq_nil : lines pending = [] ↔ pending = [] := by
  refine ⟨fun h => ?_, fun h => h ▸ rfl⟩
  have := length_le_lines pending
  rw [h] at this
  exact List.eq_nil_of_length_eq_zero (Nat.le_zero.1 this)

theorem Filled.mono (h : Filled env id columns groups pending x w) (hm : w'.made = w.made) :
    Filled env id columns groups pending x w' where
  __ := h
  laid := hm ▸ h.laid

/-- What is pending becomes a chunk. -/
theorem Filled.flush (h : Filled env id columns groups pending x w)
    (hf : x.flush env w = .ok (x', w')) :
    (pending = [] ∧ Filled env id columns groups [] x' w') ∨
      (pending ≠ [] ∧ Filled env id columns (groups ++ [pending]) [] x' w') := by
  unfold Writer.flush at hf
  obtain ⟨w₁, hauth, hf⟩ := Interleave.bind_ok.1 hf
  have hw₁ := answer_made hauth
  by_cases hempty : x.buffer = []
  · rw [if_pos hempty] at hf
    cases hf
    have hpending := lines_eq_nil.1 (h.buffer ▸ hempty)
    subst hpending
    exact .inl ⟨rfl, h.mono hw₁⟩
  · rw [if_neg hempty] at hf
    obtain ⟨w₂, hstore, hf⟩ := Interleave.bind_ok.1 hf
    obtain ⟨stored, hput, hf⟩ := Interleave.bind_ok.1 hf
    cases hf
    obtain ⟨hpath, g, hpos, hlt, href, hmade⟩ := put_ok hput
    rw [h.executionId] at hpath href hmade
    rw [h.buffer] at href hmade
    have hpending : pending ≠ [] := fun hp => hempty (by rw [h.buffer, hp]; rfl)
    refine .inr ⟨hpending, h.executionId, h.sameColumns, h.valid, ?_, rfl, Nat.zero_le _, rfl, ?_, ?_⟩
    · have hold : Laid env id stored.2.made 0 0 groups x.chunks := by
        refine h.laid.mono fun o ho => ?_
        rw [hmade, answer_made hstore, hw₁]
        exact List.mem_append_left _ ho
      refine hold.snoc ?_ ?_
      · have hstart : x.rowCount - x.bufferCount = 0 + groups.flatten.length := by
          rw [h.rowCount, h.bufferCount]
          omega
        rw [Nat.zero_add x.chunks.length, href]
        exact ⟨rfl, hpath, hpos, hlt, rfl, rfl, h.bound, hstart, h.bufferCount, hpending⟩
      · rw [href, hmade]
        exact List.mem_append_right _ (List.mem_singleton.2 rfl)
    · simp only [List.flatten_append, List.flatten_singleton, List.length_append, List.length_nil,
        h.rowCount, Nat.add_zero]
    · simp only [List.flatten_append, List.flatten_singleton, lines_append, List.length_append,
        h.byteCount]
      rw [Nat.add_assoc]
      rfl

theorem Filled.add (h : Filled env id columns groups pending x w)
    (hroom : (lines pending).length + (line row).length ≤ chunkBytes) :
    Filled env id columns groups (pending ++ [row]) (x.add row) w := by
  have hlines : lines (pending ++ [row]) = lines pending ++ line row := by
    rw [lines_append]
    simp only [lines, List.flatMap_cons, List.flatMap_nil, List.append_nil]
  refine ⟨h.executionId, h.sameColumns, h.valid, h.laid, ?_, ?_, ?_, ?_, ?_⟩
  · rw [hlines, ← h.buffer]
    rfl
  · rw [hlines, List.length_append]
    exact hroom
  · rw [List.length_append, ← h.bufferCount]
    rfl
  · rw [List.length_append, ← Nat.add_assoc, ← h.rowCount]
    rfl
  · rw [hlines, List.length_append, ← Nat.add_assoc, ← h.byteCount]
    rfl

/-- Rows are taken in their order, and only full groups become chunks. -/
structure Taken (env : Env) (id : Text) (columns : Json) (rows : List (List Json)) (x : Writer)
    (w : World) (groups : List (List (List Json))) (pending : List (List Json)) : Prop where
  filled : Filled env id columns groups pending x w
  rows : groups.flatten ++ pending = rows
  full : ∀ group ∈ groups, Full group

theorem Taken.onRow (h : Taken env id columns rows x w groups pending)
    (hr : x.onRow env row w = .ok (x', w')) :
    ∃ groups' pending', Taken env id columns (rows ++ [row]) x' w' groups' pending' := by
  unfold Writer.onRow at hr
  split at hr
  · cases hr
  split at hr
  · rename_i hfits
    obtain ⟨⟨x₁, w₁⟩, hroom, hr⟩ := Interleave.bind_ok.1 hr
    cases hr
    have hline : (line row).length ≤ rowBytes := by
      unfold Writer.fits at hfits
      simp only [Bool.and_eq_true, decide_eq_true_eq] at hfits
      exact hfits.1.1
    have hrow : rowBytes ≤ chunkBytes := by decide
    unfold Writer.makeRoom at hroom
    split at hroom
    · rename_i hmake
      rw [h.filled.buffer] at hmake
      obtain ⟨hempty, -⟩ | ⟨-, hflushed⟩ := h.filled.flush hroom
      · exact absurd (lines_eq_nil.2 hempty) hmake.1
      · refine ⟨groups ++ [pending], [] ++ [row], hflushed.add ?_, ?_, ?_⟩
        · simpa [lines] using Nat.le_trans hline hrow
        · rw [← h.rows]
          simp
        · intro group hgroup
          rcases List.mem_append.1 hgroup with hgroup | hgroup
          · exact h.full group hgroup
          · rw [List.mem_singleton.1 hgroup]
            unfold Full
            omega
    · rename_i hmake
      cases hroom
      refine ⟨groups, pending ++ [row], h.filled.add ?_, ?_, h.full⟩
      · rw [h.filled.buffer] at hmake
        by_cases hempty : lines pending = []
        · rw [hempty]
          simpa using Nat.le_trans hline hrow
        · exact Nat.le_of_not_lt fun hlt => hmake ⟨hempty, hlt⟩
      · rw [← h.rows, List.append_assoc]
  · cases hr

theorem Taken.addRows : ∀ {more rows : List (List Json)} {x : Writer} {w : World}
    {groups : List (List (List Json))} {pending : List (List Json)},
    Taken env id columns rows x w groups pending → x.addRows env more w = .ok (x', w') →
    ∃ groups' pending', Taken env id columns (rows ++ more) x' w' groups' pending'
  | [], rows, x, w, groups, pending, h, hr => by
    cases hr
    exact ⟨groups, pending, by rwa [List.append_nil]⟩
  | row :: more, rows, x, w, groups, pending, h, hr => by
    obtain ⟨⟨x₁, w₁⟩, hrow, hr⟩ := Interleave.bind_ok.1 hr
    obtain ⟨groups', pending', h'⟩ := h.onRow hrow
    have hrest := Taken.addRows h' hr
    rwa [List.append_assoc] at hrest

theorem Taken.onBatches : ∀ {batches : List (List (List Json))} {rows : List (List Json)}
    {x : Writer} {w : World} {groups : List (List (List Json))} {pending : List (List Json)},
    Taken env id columns rows x w groups pending → x.onBatches env batches w = .ok (x', w') →
    ∃ groups' pending', Taken env id columns (rows ++ batches.flatten) x' w' groups' pending'
  | [], rows, x, w, groups, pending, h, hr => by
    cases hr
    exact ⟨groups, pending, by rwa [List.flatten_nil, List.append_nil]⟩
  | more :: batches, rows, x, w, groups, pending, h, hr => by
    obtain ⟨⟨x₂, w₂⟩, hrows, hr⟩ := Interleave.bind_ok.1 hr
    obtain ⟨w₁, hauth, hrows⟩ := Interleave.bind_ok.1 hrows
    have h₁ : Taken env id columns rows x w₁ groups pending :=
      ⟨h.filled.mono (answer_made hauth), h.rows, h.full⟩
    obtain ⟨groups', pending', h'⟩ := h₁.addRows hrows
    have hrest := Taken.onBatches h' hr
    rwa [List.append_assoc] at hrest

end Writing

/-! ## The manifest -/

section Manifest

variable {groups : List (List (List Json))} {rows : List (List Json)} {x x' : Writer}
  {w w' : World} {reference : Reference} {m : Manifest}

theorem full_lines (h : ∀ group ∈ groups, Full group) :
    (chunkBytes - rowBytes) * groups.length ≤ (lines groups.flatten).length := by
  induction groups with
  | nil => exact Nat.zero_le _
  | cons group groups ih =>
    have hgroup : chunkBytes - rowBytes < (lines group).length := h group List.mem_cons_self
    have ih := ih fun g hg => h g (List.mem_cons_of_mem _ hg)
    rw [List.flatten_cons, lines_append, List.length_append, List.length_cons, Nat.mul_add]
    omega

/-- The manifest `m` of the rows is stored, and refers to what is stored. -/
structure Finished (env : Env) (id : Text) (columns : Json) (rows : List (List Json))
    (made : List Object) (reference : Reference) (m : Manifest) : Prop where
  executionId : m.executionId = id
  sameColumns : m.columns = columns
  valid : validColumns columns = true
  laid : ∃ groups, Laid env id made 0 0 groups m.chunks ∧ groups.flatten = rows
  few : m.chunks.length ≤ 274
  rowCount : m.rowCount = rows.length
  bytes : m.bytes = (dumps columns).length + (lines rows).length
  budget : m.bytes ≤ snapshotBytes
  object : reference.object = manifestPath id
  path : validPath (manifestPath id) = true
  pos : 0 < reference.generation
  sha256 : reference.sha256 = env.digest (dumps m.json)
  length : reference.bytes = (dumps m.json).length
  bound : (dumps m.json).length ≤ chunkBytes
  stored : ⟨reference.object, reference.generation, dumps m.json⟩ ∈ made

theorem columns_le (m : Manifest) : (dumps m.columns).length ≤ (dumps m.json).length := by
  simp only [Manifest.json, dumps, dumpsMembers, List.length_cons, List.length_append]
  omega

theorem encoded_ok {raw : Text} (h : x.encoded = .ok raw) :
    raw = dumps x.manifest.json ∧ raw.length ≤ chunkBytes ∧
      x.byteCount - (dumps x.columns).length + raw.length ≤ snapshotBytes := by
  unfold Writer.encoded at h
  dsimp only at h
  split at h
  · cases h
  · split at h
    · cases h
    · cases h
      exact ⟨rfl, by omega, by omega⟩

theorem Taken.finish {pending : List (List Json)}
    (h : Taken env id columns rows x w groups pending)
    (hf : x.finish env w = .ok (reference, x', w')) :
    ∃ m, Finished env id columns rows w'.made reference m := by
  obtain ⟨⟨x₁, w₀⟩, hflush, hf⟩ := Interleave.bind_ok.1 hf
  obtain ⟨w₁, hauth, hf⟩ := Interleave.bind_ok.1 hf
  obtain ⟨raw, hraw, hf⟩ := Interleave.bind_ok.1 hf
  obtain ⟨w₂, hstore, hf⟩ := Interleave.bind_ok.1 hf
  obtain ⟨stored, hput, hf⟩ := Interleave.bind_ok.1 hf
  cases hf
  dsimp only at hraw hput
  obtain ⟨rfl, hbound, hbudget⟩ := encoded_ok hraw
  obtain ⟨hpath, g, hpos, -, href, hmade⟩ := put_ok hput
  -- the chunks after the last flush, of which the last alone need not be full
  have hlast : ∃ groups', Filled env id columns groups' [] x₁ w₀ ∧
      groups'.flatten = rows ∧ groups'.length ≤ groups.length + 1 := by
    rcases h.filled.flush hflush with ⟨hpending, hfilled⟩ | ⟨-, hfilled⟩
    · exact ⟨groups, hfilled, by rw [← h.rows, hpending, List.append_nil], Nat.le_succ _⟩
    · exact ⟨groups ++ [pending], hfilled, by rw [← h.rows]; simp, by simp⟩
  obtain ⟨groups', hfilled, hrows, hlength⟩ := hlast
  have hsub : ∀ o ∈ w₀.made, o ∈ stored.2.made := fun o ho => by
    rw [hmade, answer_made hstore, answer_made hauth]
    exact List.mem_append_left _ ho
  have hbytes : x₁.byteCount = (dumps columns).length + (lines rows).length := by
    rw [hfilled.byteCount, hrows]
    rfl
  have hcolumns := columns_le x₁.manifest
  rw [show x₁.manifest.columns = x₁.columns from rfl, hfilled.sameColumns] at hcolumns
  rw [hfilled.sameColumns] at hbudget
  have hle : x₁.byteCount ≤ snapshotBytes := by omega
  have hfull := full_lines h.full
  have hpart : (lines groups.flatten).length ≤ (lines rows).length := by
    rw [← h.rows, lines_append, List.length_append]
    omega
  have hfew : groups.length ≤ 273 := by
    have hsnapshot : snapshotBytes = 268435456 := rfl
    have hchunk : chunkBytes - rowBytes = 983040 := rfl
    rw [hchunk] at hfull
    omega
  rw [hfilled.executionId] at hpath href hmade
  refine ⟨x₁.manifest, hfilled.executionId, hfilled.sameColumns, hfilled.valid,
    ⟨groups', hfilled.laid.mono hsub, hrows⟩, ?_, ?_, hbytes, hle, ?_, hpath, ?_, ?_, ?_, hbound, ?_⟩
  · have := hfilled.laid.length
    change x₁.chunks.length ≤ 274
    omega
  · rw [← hrows]
    exact hfilled.rowCount
  all_goals rw [href]
  · exact hpos
  · rw [hmade]
    exact List.mem_append_right _ (List.mem_singleton.2 rfl)

theorem Laid.loadable {index start : ℕ} {chunks : List Chunk}
    (h : Laid env id made index start groups chunks)
    (hstart : start + groups.flatten.length < 2 ^ 63) : LoadableItems (chunks.map Chunk.json) := by
  induction h with
  | nil => exact trivial
  | cons hc _ _ ih =>
    rw [List.flatten_cons, List.length_append] at hstart
    exact ⟨hc.loadable (by omega), ih (by omega)⟩

theorem Finished.loadable (h : Finished env id columns rows made reference m)
    (hcolumns : Loadable columns) : Loadable m.json := by
  obtain ⟨groups, hlaid, hrows⟩ := h.laid
  have hlines := length_le_lines rows
  have hbytes := h.bytes
  have hbudget := h.budget
  have hsnapshot : snapshotBytes < 2 ^ 63 := by decide
  have hid : Plain m.executionId := by
    rw [h.executionId]
    refine plain_of_ascii fun c hc => ascii_of_validPath h.path c ?_
    exact List.mem_append_right _ (List.mem_append_left _ hc)
  have hkeys : ∀ key ∈ ["execution_id", "columns", "chunks", "row_count", "bytes"],
      ∀ c ∈ text key, c < 128 := by decide +kernel
  have hkey : ∀ key ∈ ["execution_id", "columns", "chunks", "row_count", "bytes"],
      Plain (text key) := fun key hkey => plain_of_ascii (hkeys key hkey)
  have hdistinct : (["execution_id", "columns", "chunks", "row_count", "bytes"].map
      text).Nodup := by decide +kernel
  refine ⟨hdistinct,
    members_cons (hkey _ (by decide)) hid <|
    members_cons (hkey _ (by decide)) (h.sameColumns ▸ hcolumns) <|
    members_cons (hkey _ (by decide)) (hlaid.loadable ?_) <|
    members_cons (hkey _ (by decide)) (short_of_nat ?_) <|
    members_cons (hkey _ (by decide)) (short_of_nat ?_) trivial⟩
  · rw [hrows]
    omega
  · rw [h.rowCount]
    omega
  · omega

theorem Finished.manifestOf (h : Finished env id columns rows made reference m) :
    manifestOf (manifestPath id) m.json = some m := by
  obtain ⟨groups, hlaid, hrows⟩ := h.laid
  have hchunks := @Laid.chunksOf_json _ _ _ _ _ _ _ (dumps m.columns).length hlaid
  rw [hrows, Nat.zero_add] at hchunks
  have hvalid : m.bytes ≤ snapshotBytes ∧ (m.chunks.map Chunk.json).length ≤ 512 ∧
      manifestPath id = manifestPath m.executionId ∧ validColumns m.columns = true := by
    refine ⟨h.budget, ?_, by rw [h.executionId], h.sameColumns ▸ h.valid⟩
    have := h.few
    rw [List.length_map]
    omega
  have hfound : rows.length = m.rowCount ∧
      (dumps m.columns).length + (lines rows).length = m.bytes := by
    rw [h.rowCount, h.bytes, h.sameColumns]
    exact ⟨rfl, rfl⟩
  change (if m.bytes ≤ snapshotBytes ∧ (m.chunks.map Chunk.json).length ≤ 512 ∧
      manifestPath id = manifestPath m.executionId ∧ validColumns m.columns then
    (chunksOf m.executionId 0 0 (dumps m.columns).length (m.chunks.map Chunk.json)).bind fun found =>
      if found.2.1 = m.rowCount ∧ found.2.2 = m.bytes then
        some ⟨m.executionId, m.columns, found.1, m.rowCount, m.bytes⟩
      else none
    else none) = some m
  rw [if_pos hvalid, h.executionId, hchunks, Option.bind_some, if_pos hfound, ← h.executionId]

end Manifest

/-! ## Captures -/

section Captures

variable {batches : List (List (List Json))} {taken : List (List Json)} {x : Writer} {w w' : World}
  {reference : Reference} {m m' : Manifest}

theorem captured (h : capture env id columns batches w = .ok (reference, x, w')) :
    ∃ m, Finished env id columns batches.flatten w'.made reference m := by
  obtain ⟨x₀, hcolumns, hrest⟩ := Interleave.bind_ok.1 h
  obtain ⟨⟨x₁, w₁⟩, hbatches, hfinish⟩ := Interleave.bind_ok.1 hrest
  unfold Writer.onColumns at hcolumns
  split at hcolumns
  · rename_i hvalid
    cases hcolumns
    have h₀ : Taken env id columns [] { Writer.new id with
        columns := columns, byteCount := (dumps columns).length } w [] [] :=
      ⟨⟨rfl, rfl, hvalid, .nil 0 0, rfl, Nat.zero_le _, rfl, rfl, rfl⟩, rfl, fun g hg => by cases hg⟩
    obtain ⟨groups, pending, h₁⟩ := h₀.onBatches hbatches
    exact h₁.finish hfinish
  · cases hcolumns

theorem Finished.manifest_eq (h : Finished env id columns taken made reference m)
    (hcolumns : Loadable columns) (hs : Honest env made src) (hm : manifest src reference = .ok m') :
    m' = m := by
  have hloads := @loads_dumps _ (h.loadable hcolumns) [] (fun c hc => by cases hc) rfl
  rw [List.append_nil] at hloads
  unfold manifest at hm
  cases hread : read src reference with
  | error e =>
    rw [hread] at hm
    cases hm
  | ok raw =>
    obtain ⟨hfetch, hdigest⟩ := read_ok hread
    have hraw : raw = dumps m.json := by
      refine hs.fetch _ h.stored raw hfetch ?_
      rw [hdigest, h.sha256, hs.digest]
    rw [hread, hraw, Except.toOption, Option.bind_some, hloads, Option.bind_some, h.object,
      h.manifestOf] at hm
    exact (Except.ok.inj hm).symm

theorem Finished.manifest_held (h : Finished env id columns taken made reference m)
    (hcolumns : Loadable columns) (hs : src.digest = env.digest) (hheld : Held made src) :
    manifest src reference = .ok m := by
  have hloads := @loads_dumps _ (h.loadable hcolumns) [] (fun c hc => by cases hc) rfl
  rw [List.append_nil] at hloads
  have hread : read src reference = .ok (dumps m.json) :=
    read_held (h.object ▸ h.path) h.length h.bound h.pos h.sha256 hs (hheld _ h.stored)
  unfold manifest
  rw [hread, Except.toOption, Option.bind_some, hloads, Option.bind_some, h.object, h.manifestOf]

/-- The rows from `start` on, so many at most. -/
def slice {α : Type*} (l : List α) (start : ℕ) (limit : Option ℕ) : List α :=
  (l.drop start).take (limit.getD l.length)

theorem window_slice {α : Type*} (l : List α) (start : ℕ) (limit : Option ℕ) :
    window start ((limit.map (start + ·)).getD l.length) 0 l = slice l start limit := by
  rw [window_eq, Nat.sub_zero, Nat.max_zero, slice]
  cases limit with
  | none =>
    have hall : (l.drop start).length ≤ l.length := by
      rw [List.length_drop]
      omega
    rw [Option.map_none, Option.getD_none, List.take_of_length_le (by rw [List.length_drop])]
    exact (List.take_of_length_le hall).symm
  | some n => rw [Option.map_some, Option.getD_some, Option.getD_some, Nat.add_sub_cancel_left]

theorem Finished.rows_spec (h : Finished env id columns taken made reference m)
    (hs : Honest env made src) (hrows : ∀ row ∈ taken, Good row)
    (authorize : ℕ → Option Raised) (start : ℕ) (limit : Option ℕ) :
    (rows src m authorize start limit).1 <+: slice (taken.map .list) start limit ∧
      ((rows src m authorize start limit).2 = none →
        (rows src m authorize start limit).1 = slice (taken.map .list) start limit) := by
  obtain ⟨groups, hlaid, rfl⟩ := h.laid
  have hspec := @Laid.rowsFrom_spec _ _ _ _ _ _ _ _ authorize start
    ((limit.map (start + ·)).getD m.rowCount) 0 hlaid hs hrows
  have hlast : (limit.map (start + ·)).getD m.rowCount
      = (limit.map (start + ·)).getD (groups.flatten.map Json.list).length := by
    rw [h.rowCount, List.length_map]
  rw [hlast, window_slice, ← hlast] at hspec
  exact hspec

theorem pages_take {α : Type*} (l : List α) (size : ℕ) : ∀ n : ℕ,
    (List.range n).flatMap (fun i => slice l (i * size) (some size)) = l.take (n * size)
  | 0 => by rw [Nat.zero_mul, List.take_zero, List.range_zero, List.flatMap_nil]
  | n + 1 => by
    rw [List.range_succ, List.flatMap_append, pages_take l size n, List.flatMap_cons,
      List.flatMap_nil, List.append_nil, Nat.succ_mul, List.take_add]
    rfl

theorem page_ok {completed : Option Reference} {authorize : ℕ → Option Raised}
    {after : Option Raised} {index size : ℕ} {p : Page}
    (h : page src completed authorize after index size = .ok p) :
    ∃ reference m, completed = some reference ∧ manifest src reference = .ok m ∧
      p.totalPages = (m.rowCount + size - 1) / size ∧ (index = 0 ∨ index < p.totalPages) ∧
      (rows src m authorize (index * size) (some size)).2 = none ∧
      p.rows = (rows src m authorize (index * size) (some size)).1 := by
  unfold page at h
  split at h
  · cases h
  · rename_i reference
    obtain ⟨m, hm, h⟩ := Interleave.bind_ok.1 h
    dsimp only at h
    split at h
    · cases h
    · rename_i hindex
      split at h
      · cases h
      · rename_i hnone
        split at h
        · cases h
        · split at h
          · cases h
          · cases h
            refine ⟨reference, m, rfl, hm, rfl, ?_, hnone, rfl⟩
            change index = 0 ∨ index < (m.rowCount + size - 1) / size
            omega

def demoDigest (data : Text) : Text :=
  if data = text "[1]\n[\"\\u00e9\\n\"]\n[null]\n" then
    text "b7c2ab0de3040a0c38358d41cab6f240677d3ffc7e5f97af794bd40445f4faba"
  else text "97c8fa345b65dc5e088a945263d027227f6ccfe88f88040b2b08cbeec3f10721"

theorem demoDigest_valid (data : Text) : validHash (demoDigest data) = true := by
  unfold demoDigest
  split <;> decide +kernel

def demoEnv : Env where
  digest := demoDigest
  digest_valid := demoDigest_valid
  authorize := fun _ => none
  onStore := fun _ _ => none
  put := fun _ => some 7
  put_pos := fun _ g h => by cases h; decide
  put_lt := fun _ g h => by cases h; decide

def demoId : Text := text "00112233445566778899aabbccddeeff"

def demoColumns : Json :=
  .list [.dict [(text "key", .str (text "0")), (text "name", .str (text "a")),
    (text "data_type", .str (text "json"))]]

def demoBatches : List (List (List Json)) := [[[.int 1], [.str [233, 10]]], [[.null]]]

@[irreducible]
def demoCapture : Reference × Writer × World :=
  (capture demoEnv demoId demoColumns demoBatches ⟨0, []⟩).toOption.getD
    (⟨[], 0, [], 0⟩, Writer.new [], ⟨0, []⟩)

def demoSource : Source where
  digest := demoDigest
  fetch path generation := (demoCapture.2.2.made.find? fun o =>
    o.path = path ∧ o.generation = generation).map Object.data
  responseBytes := fun _ => 0

/-- The capture and its two pages, evaluated together. -/
theorem demo_states :
    (capture demoEnv demoId demoColumns demoBatches ⟨0, []⟩).toOption.isSome = true ∧
    (demoCapture.2.2.made.all fun o =>
      demoSource.fetch o.path o.generation = some o.data) = true ∧
    ∀ i < 2, (page demoSource (some demoCapture.1) (fun _ => none) none i 2).toOption.isSome =
      true := by
  decide +kernel

theorem ok_eta {ε α β γ : Type} {x : Except ε (α × β × γ)} {a : α × β × γ} (h : x = .ok a) :
    x = .ok (a.1, a.2.1, a.2.2) :=
  h

-- The three parts are named here, or the kernel would evaluate the capture to find them.
theorem demo_captured : capture demoEnv demoId demoColumns demoBatches ⟨0, []⟩
    = .ok (demoCapture.1, demoCapture.2.1, demoCapture.2.2) := by
  refine ok_eta ?_
  unfold demoCapture
  exact Interleave.ok_getD demo_states.1

theorem demo_held : Held demoCapture.2.2.made demoSource := fun o ho =>
  of_decide_eq_true (List.all_eq_true.1 demo_states.2.1 o ho)

theorem demo_honest : Honest demoEnv demoCapture.2.2.made demoSource where
  digest := rfl
  fetch o ho _ hraw _ := (Option.some.inj ((demo_held o ho).symm.trans hraw)).symm

theorem demo_good : ∀ row ∈ demoBatches.flatten, Good row := by
  simp [demoBatches, Good, LoadableItems, Loadable, Plain, Short, maxDigits, high, low]
  decide

theorem demo_loadable : Loadable demoColumns := by
  have hplain : ∀ s ∈ ["key", "0", "name", "a", "data_type", "json"], ∀ c ∈ text s, c < 128 := by
    decide
  have hplain' := fun s hs => plain_of_ascii (hplain s hs)
  have hdistinct : (["key", "name", "data_type"].map text).Nodup := by decide
  exact ⟨⟨hdistinct, hplain' _ (by decide), hplain' _ (by decide), hplain' _ (by decide),
    hplain' _ (by decide), hplain' _ (by decide), hplain' _ (by decide), trivial⟩, trivial⟩

def demoPage (index : ℕ) : Page :=
  (page demoSource (some demoCapture.1) (fun _ => none) none index 2).toOption.getD
    ⟨.null, [], 0, 0, 0, 0⟩

end Captures

end Results
