import CssPrune.Proofs.MediaScan

/-!
# Outlines

A stylesheet whose braces are well nested is a list of chunks, each a text without braces and a
group in braces, and of media parts, each a query, a group of chunks and the chunks behind it.
`Outline.Sound.sheetContents_text` says how such a text is read: chunk by chunk, those of a media
part under its query and the others at top level. It needs that the text does not begin with a
brace, and that behind a media rule no chunk does (`Placed`), for such a brace would be taken for
that of a media rule. Nothing is warned about (`Outline.Shaped.notices_text`).
-/

namespace CssPrune.Css

/-! ## Chunks -/

/-- A text and a group in braces. -/
structure Chunk where
  head : Text
  inner : Text

namespace Chunk

/-- A chunk as it is written. -/
def text (chunk : Chunk) : Text :=
  chunk.head ++ '{' :: chunk.inner ++ ['}']

/-- The braces of a chunk are those of one group, and it holds no `@media`. -/
structure Sound (chunk : Chunk) : Prop where
  head : NoBrace chunk.head
  inner : Nested chunk.inner
  headWord : ¬ mediaWord <:+: chunk.head
  innerWord : ¬ mediaWord <:+: chunk.inner

/-- Chunks as they are written, one behind the other. -/
def textAll (chunks : List Chunk) : Text :=
  chunks.flatMap text

/-- The rules of chunks in a scope. -/
def contents (scope : Scope) (chunks : List Chunk) : List Content :=
  chunks.flatMap fun chunk => ruleContents scope chunk.text

/-- The first chunk is written in front of the others. -/
lemma textAll_cons (chunk : Chunk) (chunks : List Chunk) :
    textAll (chunk :: chunks) = chunk.text ++ textAll chunks := rfl

/-- A chunk is one block. -/
lemma Sound.blocksFrom_text {chunk : Chunk} (h : chunk.Sound) (done : List Text) (rest : Text) :
    blocksFrom id 0 [] done (chunk.text ++ rest) =
      blocksFrom id 0 [] (chunk.text :: done) rest := by
  rw [text, List.append_assoc, List.append_assoc, blocksFrom_noBrace _ _ h.head, List.cons_append,
    blocksFrom_cons_open, blocksFrom_nested _ _ h.inner (by omega), List.cons_append, Int.zero_add,
    blocksFrom_cons_last]
  simp

/-- The blocks of sound chunks are the chunks, and nothing is left over. -/
lemma blocksOf_textAll {chunks : List Chunk} (h : ∀ chunk ∈ chunks, chunk.Sound) :
    blocksOf id (textAll chunks) = ⟨chunks.map text, []⟩ := by
  have run (done : List Text) :
      blocksFrom id 0 [] done (textAll chunks) = ⟨done.reverse ++ chunks.map text, []⟩ := by
    induction chunks generalizing done with
    | nil => simp [textAll, blocksFrom]
    | cons chunk chunks ih =>
      obtain ⟨hchunk, hchunks⟩ := List.forall_mem_cons.1 h
      rw [textAll_cons, hchunk.blocksFrom_text, ih hchunks]
      simp
  exact run []

/-- The rules of chunks come one chunk after the other, and then those of what follows. -/
lemma ruleContents_textAll_append (scope : Scope) (chunks : List Chunk) (rest : Text) :
    ruleContents scope (textAll chunks ++ rest) =
      contents scope chunks ++ ruleContents scope rest := by
  induction chunks with
  | nil => rfl
  | cons chunk chunks ih =>
    have hcut : rawRules id (chunk.text ++ (textAll chunks ++ rest)) =
        rawRules id chunk.text ++ rawRules id (textAll chunks ++ rest) :=
      rawRules_append_close (chunk.head ++ '{' :: chunk.inner) (textAll chunks ++ rest)
    rw [contents, List.flatMap_cons, ← contents, List.append_assoc, ← ih, textAll_cons,
      List.append_assoc, ruleContents, hcut, List.map_append]
    rfl

/-- Chunks end in a closing brace. -/
lemma exists_textAll_eq {chunks : List Chunk} (h : chunks ≠ []) :
    ∃ front, textAll chunks = front ++ ['}'] := by
  obtain ⟨front, last, rfl⟩ := (List.eq_nil_or_concat chunks).resolve_left h
  exact ⟨textAll front ++ (last.head ++ '{' :: last.inner), by simp [textAll, text]⟩

/-- Sound chunks are well nested. -/
lemma nested_textAll {chunks : List Chunk} (h : ∀ chunk ∈ chunks, chunk.Sound) :
    Nested (textAll chunks) := by
  induction chunks with
  | nil => exact .nil
  | cons chunk chunks ih =>
    obtain ⟨hchunk, hchunks⟩ := List.forall_mem_cons.1 h
    have hgroup := hchunk.head.nested.append (.group hchunk.inner (ih hchunks))
    simpa [textAll_cons, text] using hgroup

/-- A brace cuts an `@media` in two, so one stands in a part of the text between braces. -/
lemma noMedia_textAll_append {chunks : List Chunk} (h : ∀ chunk ∈ chunks, chunk.Sound)
    {rest : Text} (hrest : ¬ mediaWord <:+: rest) : ¬ mediaWord <:+: textAll chunks ++ rest := by
  induction chunks with
  | nil => exact hrest
  | cons chunk chunks ih =>
    obtain ⟨hchunk, hchunks⟩ := List.forall_mem_cons.1 h
    have hsplit : textAll (chunk :: chunks) ++ rest =
        chunk.head ++ '{' :: (chunk.inner ++ '}' :: (textAll chunks ++ rest)) := by
      simp [textAll_cons, text]
    rw [hsplit, Text.infix_append_cons_iff (by decide), Text.infix_append_cons_iff (by decide)]
    rintro (hin | hin | hin)
    · exact hchunk.headWord hin
    · exact hchunk.innerWord hin
    · exact ih hchunks hin

/-- A chunk holds the first character that is not blank. -/
lemma opensWithBrace_append (chunk : Chunk) (rest : Text) :
    opensWithBrace id (chunk.text ++ rest) = opensWithBrace id chunk.text := by
  -- at the latest its opening brace is not blank
  have hfind : chunk.text.find? (!Text.isBlank ·) ≠ none := by
    rw [Ne, List.find?_eq_none]
    intro hall
    have := hall '{' (by simp [text])
    revert this
    decide
  obtain ⟨c, hc⟩ := Option.ne_none_iff_exists'.1 hfind
  rw [opensWithBrace, opensWithBrace, List.find?_append]
  simp only [id]
  rw [hc]
  rfl

/-- A sound chunk opens with a brace exactly if its head is blank. -/
lemma Sound.opensWithBrace_iff {chunk : Chunk} (h : chunk.Sound) :
    opensWithBrace id chunk.text = true ↔ Text.AllBlank chunk.head := by
  rw [opensWithBrace, text, List.append_assoc, List.find?_append]
  simp only [id]
  cases hfirst : chunk.head.find? (!Text.isBlank ·) with
  | none =>
    have hblank : Text.AllBlank chunk.head := by simpa [Text.AllBlank] using hfirst
    simp [hblank, show Text.isBlank '{' = false by decide]
  | some c =>
    have hmem : c ∈ chunk.head := List.mem_of_find?_eq_some hfirst
    have hc : Text.isBlank c = false := by simpa using List.find?_some hfirst
    constructor
    · intro hopen
      obtain rfl : c = '{' := by simpa using hopen
      exact absurd hmem h.head.1
    · intro hblank
      simp [hblank c hmem] at hc

end Chunk

/-! ## Media parts -/

/-- A query, a group of chunks, and the chunks behind the group. -/
structure MediaPart where
  query : Text
  rules : List Chunk
  /-- The text in front of the brace that closes the group. -/
  close : Text
  after : List Chunk
  /-- The text behind the last chunk. -/
  tail : Text

namespace MediaPart

/-- The group of a media part. -/
def body (part : MediaPart) : Chunk :=
  ⟨[], Chunk.textAll part.rules ++ part.close⟩

/-- The text of a media part, without its `@media`. -/
def text (part : MediaPart) : Text :=
  part.query ++ Chunk.textAll (part.body :: part.after) ++ part.tail

/-- The braces of a media part are those of its chunks, and it holds no other `@media`. -/
structure Shaped (part : MediaPart) : Prop where
  query : '{' ∉ part.query
  queryWord : ¬ mediaWord <:+: part.query
  rules : ∀ chunk ∈ part.rules, chunk.Sound
  close : NoBrace part.close
  closeWord : ¬ mediaWord <:+: part.close
  after : ∀ chunk ∈ part.after, chunk.Sound
  tail : '}' ∉ part.tail
  tailWord : ¬ mediaWord <:+: part.tail

/-- No chunk behind the group begins with a brace. -/
def Placed (part : MediaPart) : Prop :=
  ∀ chunk ∈ part.after, opensWithBrace id chunk.text = false

/-- The rules of a media part. -/
def contents (part : MediaPart) : List Content :=
  Chunk.contents (.media (Text.collapse part.query)) part.rules
    ++ Chunk.contents .topLevel part.after

variable {part : MediaPart}

/-- The body of a shaped part is sound. -/
lemma Shaped.body (h : part.Shaped) : part.body.Sound where
  head := ⟨by simp [MediaPart.body], by simp [MediaPart.body]⟩
  inner := (Chunk.nested_textAll h.rules).append h.close.nested
  headWord := by simp [MediaPart.body, mediaWord]
  innerWord := Chunk.noMedia_textAll_append h.rules h.closeWord

/-- All chunks of a shaped part are sound. -/
lemma Shaped.chunks (h : part.Shaped) : ∀ chunk ∈ part.body :: part.after, chunk.Sound :=
  List.forall_mem_cons.2 ⟨h.body, h.after⟩

/-- A shaped part holds no `@media`. -/
lemma Shaped.noMedia_text (h : part.Shaped) : ¬ mediaWord <:+: part.text := by
  have hsplit : part.text =
      part.query ++ '{' :: (part.body.inner ++ '}' :: (Chunk.textAll part.after ++ part.tail)) := by
    simp [text, Chunk.textAll_cons, Chunk.text, MediaPart.body]
  rw [hsplit, Text.infix_append_cons_iff (by decide), Text.infix_append_cons_iff (by decide)]
  rintro (hin | hin | hin)
  · exact h.queryWord hin
  · exact h.body.innerWord hin
  · exact Chunk.noMedia_textAll_append h.after h.tailWord hin

/-- A media part as what its first opening and its last closing brace enclose. -/
lemma exists_text_eq (part : MediaPart) :
    ∃ inner, part.text = part.query ++ '{' :: inner ++ '}' :: part.tail ∧
      Chunk.textAll (part.body :: part.after) = '{' :: inner ++ ['}'] := by
  obtain ⟨front, hfront⟩ := Chunk.exists_textAll_eq (List.cons_ne_nil part.body part.after)
  rw [text]
  cases front with
  | nil => simp [Chunk.textAll_cons, Chunk.text, body] at hfront
  | cons c inner =>
    obtain rfl : c = '{' := by
      rw [Chunk.textAll_cons, Chunk.text, body] at hfront
      simpa using (congrArg List.head? hfront).symm
    refine ⟨inner, ?_, hfront⟩
    rw [hfront]
    simp

/-- The blocks behind the `@media` are the chunks. -/
lemma Shaped.blocks (h : part.Shaped) :
    ∃ inner, part.text = part.query ++ '{' :: inner ++ '}' :: part.tail ∧
      blocksOf id ('{' :: inner ++ ['}']) = ⟨(part.body :: part.after).map Chunk.text, []⟩ := by
  obtain ⟨inner, htext, hchunks⟩ := part.exists_text_eq
  refine ⟨inner, htext, ?_⟩
  rw [← hchunks]
  exact Chunk.blocksOf_textAll h.chunks

/-- A shaped part is read block by block behind its query. -/
lemma Shaped.mediaContents_eq (h : part.Shaped) :
    mediaContents part.text =
      blockContents (Text.collapse part.query) ((part.body :: part.after).map Chunk.text) := by
  obtain ⟨inner, htext, hblocks⟩ := h.blocks
  rw [htext, mediaContents_append h.query inner h.tail, hblocks]

/-- A shaped part gives no warning. -/
lemma Shaped.mediaNotices_text (h : part.Shaped) : mediaNotices part.text = [] := by
  obtain ⟨inner, htext, hblocks⟩ := h.blocks
  rw [htext, mediaNotices_append h.query inner h.tail, hblocks]
  rfl

/-- The body of a placed part is read as such. -/
lemma Placed.mediaBody?_blocks (h : part.Placed) :
    mediaBody? id ((part.body :: part.after).map Chunk.text) = some part.body.text := by
  have hafter : (part.after.map Chunk.text).filter (opensWithBrace id) = [] := by
    apply List.filter_eq_nil_iff.2
    intro block hblock
    obtain ⟨chunk, hmem, rfl⟩ := List.mem_map.1 hblock
    simp [h chunk hmem]
  have hbody : opensWithBrace id part.body.text = true := rfl
  rw [mediaBody?, List.map_cons, List.filter_cons_of_pos hbody, hafter]
  rfl

/-- The chunks behind the body of a placed part trail. -/
lemma Placed.trailingBlocks_blocks (h : part.Placed) :
    trailingBlocks id ((part.body :: part.after).map Chunk.text) =
      part.after.map Chunk.text := by
  have hbody : opensWithBrace id part.body.text = true := rfl
  rw [trailingBlocks, List.map_cons, List.filter_cons_of_neg (by simp [hbody]),
    List.filter_eq_self]
  intro block hblock
  obtain ⟨chunk, hmem, rfl⟩ := List.mem_map.1 hblock
  simp [h chunk hmem]

/-- The brace that opens a group belongs to no rule. -/
lemma Shaped.ruleContents_body (h : part.Shaped) (scope : Scope) :
    ruleContents scope part.body.text = Chunk.contents scope part.rules := by
  have hclose : rawRules id (part.close ++ ['}']) = [] :=
    rules_of_no_open (by simpa using h.close.1) []
  have hopen : ruleContents scope part.body.text =
      ruleContents scope (Chunk.textAll part.rules ++ (part.close ++ ['}'])) := by
    rw [ruleContents, ruleContents, MediaPart.body, Chunk.text, List.nil_append, List.cons_append,
      rawRules_cons_open, List.append_assoc]
  rw [hopen, Chunk.ruleContents_textAll_append, ruleContents, hclose, List.map_nil,
    List.append_nil]

/-- A media part is read chunk by chunk. -/
lemma Shaped.mediaContents_text (h : part.Shaped) (hplaced : part.Placed) :
    mediaContents part.text = part.contents := by
  rw [h.mediaContents_eq, blockContents, hplaced.mediaBody?_blocks, hplaced.trailingBlocks_blocks,
    Option.map_some, Option.getD_some, h.ruleContents_body, contents, Chunk.contents,
    Chunk.contents, List.flatMap_map]

end MediaPart

/-! ## Whole stylesheets -/

/-- Chunks and media parts. -/
structure Outline where
  first : List Chunk
  /-- The text behind the first chunks. -/
  tail : Text
  media : List MediaPart

namespace Outline

/-- The text of an outline in front of its first `@media`. -/
def firstText (outline : Outline) : Text :=
  Chunk.textAll outline.first ++ outline.tail

/-- An outline as it is written. -/
def text (outline : Outline) : Text :=
  outline.firstText ++ (outline.media.map MediaPart.text).flatMap (mediaWord ++ ·)

/-- The braces of an outline are those of its chunks, and `@media` stands between its parts only. -/
structure Shaped (outline : Outline) : Prop where
  first : ∀ chunk ∈ outline.first, chunk.Sound
  tail : '}' ∉ outline.tail
  tailWord : ¬ mediaWord <:+: outline.tail
  media : ∀ part ∈ outline.media, part.Shaped

/-- An outline does not begin with a brace, and neither does a chunk behind a media rule. -/
structure Placed (outline : Outline) : Prop where
  first : ∀ chunk ∈ outline.first.head?, opensWithBrace id chunk.text = false
  media : ∀ part ∈ outline.media, part.Placed

/-- The rules of an outline. -/
def contents (outline : Outline) : List Content :=
  Chunk.contents .topLevel outline.first ++ outline.media.flatMap MediaPart.contents

variable {outline : Outline}

/-- A shaped outline is cut into its first text and its media parts. -/
lemma Shaped.plainPieces_text (h : outline.Shaped) :
    plainPieces outline.text = outline.firstText :: outline.media.map MediaPart.text :=
  plainPieces_append (Chunk.noMedia_textAll_append h.first h.tailWord)
    (List.forall_mem_map.2 fun part hpart => (h.media part hpart).noMedia_text)

/-- No rules are said behind the last closing brace. -/
lemma ruleContents_tail (scope : Scope) {tail : Text} (h : '}' ∉ tail) :
    ruleContents scope tail = [] := by
  rw [ruleContents, rawRules, rules_of_no_close h]
  rfl

/-- The first text of an outline says what its chunks say, unless its first chunk opens with a
brace. -/
lemma ruleContents_firstText (h : '}' ∉ outline.tail)
    (hplaced : ∀ chunk ∈ outline.first.head?, opensWithBrace id chunk.text = false) :
    ruleContents .topLevel (Text.trim outline.firstText) =
      Chunk.contents .topLevel outline.first := by
  rw [firstText]
  cases hchunks : outline.first with
  | nil =>
    -- without chunks there is no brace in front of the first `@media`
    have hclose : '}' ∉ Text.trim outline.tail := by
      intro hmem
      obtain ⟨front, back, -, -, heq⟩ := Text.exists_trim outline.tail
      exact h (heq ▸ by simp [hmem])
    exact ruleContents_tail .topLevel hclose
  | cons chunk chunks =>
    rw [hchunks] at hplaced
    have hopens : opensWithBrace id (Chunk.textAll (chunk :: chunks) ++ outline.tail) = false := by
      rw [Chunk.textAll_cons, List.append_assoc, Chunk.opensWithBrace_append]
      exact hplaced chunk rfl
    rw [ruleContents_trim _ hopens, Chunk.ruleContents_textAll_append,
      ruleContents_tail .topLevel h, List.append_nil]

/-- An outline is read chunk by chunk. -/
theorem Shaped.sheetContents_text (h : outline.Shaped) (hplaced : outline.Placed) :
    sheetContents outline.text = outline.contents := by
  have hmedia : (outline.media.map MediaPart.text).flatMap mediaContents =
      outline.media.flatMap MediaPart.contents := by
    rw [List.flatMap_map]
    apply List.flatMap_congr
    intro part hpart
    exact (h.media part hpart).mediaContents_text (hplaced.media part hpart)
  rw [sheetContents, h.plainPieces_text, piecesContents, hmedia,
    ruleContents_firstText h.tail hplaced.first, contents]

/-- Nothing is warned about in an outline. -/
theorem Shaped.notices_text (h : outline.Shaped) :
    (plainPieces outline.text).tail.flatMap mediaNotices = [] := by
  rw [h.plainPieces_text, List.tail_cons, List.flatMap_map, List.flatMap_eq_nil_iff]
  intro part hpart
  exact (h.media part hpart).mediaNotices_text

end Outline

end CssPrune.Css
