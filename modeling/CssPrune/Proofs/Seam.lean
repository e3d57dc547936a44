import CssPrune.Proofs.Balance
import CssPrune.Proofs.StoredText

/-!
# Two texts in a row

Two texts without comments say, one behind the other, what each of them says
(`sheetContents_append`). The first one has to end with whole groups behind its last `@media`, and
the second one may begin only with whole groups that have a selector list (`Concluded` and
`Continuing`). What the second text says in front of its first `@media` is then read by another
path: if the first one holds an `@media`, it is found in the blocks behind that.
-/

namespace CssPrune.Css

/-! ## The stretches on both sides -/

/-- What stands behind the last `@media`, or the whole text. -/
def lastPiece (text : Text) : Text :=
  (plainPieces text).getLast?.getD []

/-- What stands in front of the first `@media`, or the whole text. -/
def firstPiece (text : Text) : Text :=
  (plainPieces text).head?.getD []

/-- A stretch that ends with a closing brace, but for blanks, or holds nothing else. -/
def EndsClosed (text : Text) : Prop :=
  Text.AllBlank text ∨ (Text.trim text).getLast? = some '}'

instance (text : Text) : Decidable (EndsClosed text) :=
  inferInstanceAs (Decidable (_ ∨ _))

/-- Each outermost group has a text in front of it. -/
def Headed (text : Text) : Prop :=
  ∀ front rest, text = front ++ '{' :: rest → Balanced front →
    ¬ Text.AllBlank (Text.afterLast '}' front)

instance (text : Text) : Decidable (Headed text) :=
  decidable_of_iff (∀ front ∈ text.inits, (text.drop front.length).head? = some '{' →
      Balanced front → ¬ Text.AllBlank (Text.afterLast '}' front)) <| by
    constructor
    · rintro h front rest rfl
      exact h front (by simp) (by simp)
    · intro h front hfront hhead
      obtain ⟨back, rfl⟩ := (List.mem_inits _ _).1 hfront
      rw [List.drop_left] at hhead
      obtain ⟨rest, rfl⟩ := List.head?_eq_some_iff.1 hhead
      exact h front rest rfl

/-- Behind its last `@media` a text holds whole groups, or nothing at all if it holds no
`@media`. -/
structure Concluded (text : Text) : Prop where
  braces : Balanced (lastPiece text)
  closed : EndsClosed (lastPiece text)
  group : mediaWord <:+: text → ¬ Text.AllBlank (lastPiece text)

/-- In front of its first `@media` a text holds whole groups, each with a text in front of it. -/
structure Continuing (text : Text) : Prop where
  braces : Balanced (firstPiece text)
  headed : Headed (firstPiece text)

/-! ## The cut at `@media` -/

/-- The text of some stretches, with an `@media` between neighbours. -/
def joinPieces (first : Text) (others : List Text) : Text :=
  first ++ others.flatMap (mediaWord ++ ·)

/-- Stretches without an `@media`. -/
structure Pieces (first : Text) (others : List Text) : Prop where
  first : ¬ mediaWord <:+: first
  others : ∀ piece ∈ others, ¬ mediaWord <:+: piece

/-- Every text is cut at its `@media`. -/
lemma exists_pieces (text : Text) :
    ∃ first others, text = joinPieces first others ∧ Pieces first others := by
  induction hn : text.length using Nat.strong_induction_on generalizing text with
  | _ n ih =>
    rcases exists_first_media text with hno | ⟨front, rest, rfl, hfront⟩
    · exact ⟨text, [], by simp [joinPieces], hno, nofun⟩
    · obtain ⟨first, others, rfl, hpieces⟩ :=
        ih rest.length (by simp [mediaWord] at hn; omega) rest rfl
      refine ⟨front, first :: others, by simp [joinPieces], hfront, ?_⟩
      exact List.forall_mem_cons.2 ⟨hpieces.first, hpieces.others⟩

section Pieces

variable {first : Text} {others : List Text}

/-- Stretches that are put together are the pieces of their text. -/
lemma Pieces.plainPieces_eq (h : Pieces first others) :
    plainPieces (joinPieces first others) = first :: others :=
  plainPieces_append h.first h.others

/-- The first of some stretches is the first piece of their text. -/
lemma Pieces.firstPiece_eq (h : Pieces first others) :
    firstPiece (joinPieces first others) = first := by
  rw [firstPiece, h.plainPieces_eq]
  rfl

/-- Without others, the first stretch is also the last piece. -/
lemma Pieces.lastPiece_nil (h : Pieces first []) : lastPiece (joinPieces first []) = first := by
  rw [lastPiece, h.plainPieces_eq]
  rfl

/-- The last of some stretches is the last piece of their text. -/
lemma Pieces.lastPiece_concat {last : Text} (h : Pieces first (others ++ [last])) :
    lastPiece (joinPieces first (others ++ [last])) = last := by
  rw [lastPiece, h.plainPieces_eq, ← List.cons_append, List.getLast?_concat]
  rfl

/-- Stretches that are put together say what each of them says. -/
lemma Pieces.sheetContents_eq (h : Pieces first others) :
    sheetContents (joinPieces first others) =
      ruleContents .topLevel (Text.trim first) ++ others.flatMap mediaContents := by
  rw [sheetContents, h.plainPieces_eq]
  rfl

/-- An `@media` stands between the last two of some stretches. -/
lemma infix_joinPieces_concat (first last : Text) (others : List Text) :
    mediaWord <:+: joinPieces first (others ++ [last]) :=
  ⟨first ++ others.flatMap (mediaWord ++ ·), last, by simp [joinPieces]⟩

end Pieces

/-! ## The ends of the stretches -/

/-- A stretch that ends closed and is not blank goes up to a closing brace. -/
lemma EndsClosed.exists_close {text : Text} (h : EndsClosed text) (hne : ¬ Text.AllBlank text) :
    ∃ front blanks, text = front ++ ['}'] ++ blanks ∧ Text.AllBlank blanks := by
  have hlast := h.resolve_left hne
  obtain ⟨before, blanks, -, hblanks, heq⟩ := Text.exists_trim text
  obtain ⟨front, hfront⟩ := List.getLast?_eq_some_iff.1 hlast
  exact ⟨before ++ front, blanks, by rw [heq, hfront]; simp, hblanks⟩

/-- No `@media` arises where two stretches meet. -/
lemma EndsClosed.noMedia_append {last first : Text} (h : EndsClosed last)
    (hlast : ¬ mediaWord <:+: last) (hfirst : ¬ mediaWord <:+: first) :
    ¬ mediaWord <:+: last ++ first := by
  by_cases hblank : Text.AllBlank last
  · rwa [Text.infix_allBlank_append_iff noBlank_mediaWord (by decide) hblank]
  · obtain ⟨front, blanks, rfl, hblanks⟩ := h.exists_close hblank
    rw [List.append_assoc, List.append_assoc, List.singleton_append,
      Text.infix_append_cons_iff (by decide),
      Text.infix_allBlank_append_iff noBlank_mediaWord (by decide) hblanks]
    rintro (hin | hin)
    · exact hlast (hin.trans ⟨[], ['}'] ++ blanks, by simp⟩)
    · exact hfirst hin

/-- The first character of a headed stretch that is not blank is no opening brace. -/
lemma Headed.opensWithBrace_eq {text : Text} (h : Headed text) :
    opensWithBrace id text = false := by
  rw [opensWithBrace_eq_false_iff]
  intro hhead
  obtain ⟨front, back, hfront, -, heq⟩ := Text.exists_trim text
  obtain ⟨rest, hrest⟩ := List.head?_eq_some_iff.1 hhead
  have hclose : '}' ∉ front := not_mem_of_allBlank (by decide) hfront
  have hafter : Text.afterLast '}' front = front := by
    simpa [Text.afterLast] using Text.afterLast_append hclose []
  apply h front (rest ++ back) (by rw [heq, hrest]; simp)
    (noBrace_of_allBlank hfront).nested.balanced
  rwa [hafter]

/-- Blanks in front of a text do not change whether it is balanced. -/
lemma balanced_allBlank_append {blanks text : Text} (hblanks : Text.AllBlank blanks) :
    Balanced (blanks ++ text) ↔ Balanced text := by
  induction blanks with
  | nil => exact Iff.rfl
  | cons c blanks ih =>
    obtain ⟨hc, hrest⟩ := Text.allBlank_cons.1 hblanks
    obtain ⟨hopen, hclose, -⟩ := isPlain_of_isBlank hc
    rw [← ih hrest, List.cons_append]
    constructor
    · intro h
      refine ⟨by simpa [hopen, hclose] using h.total, fun front hfront => ?_⟩
      have hle := h.front (c :: front) (List.cons_prefix_cons.2 ⟨rfl, hfront⟩)
      simpa [hopen, hclose] using hle
    · intro h
      exact (Nested.char hopen hclose h.nested).balanced

/-- Blanks in front of a stretch give no group a text, and take none away. -/
lemma Headed.allBlank_append {blanks text : Text} (h : Headed text)
    (hblanks : Text.AllBlank blanks) : Headed (blanks ++ text) := by
  intro front rest heq hbalanced hblank
  obtain ⟨front, rfl⟩ : ∃ more, front = blanks ++ more := by
    have hopen : '{' ∉ blanks := not_mem_of_allBlank (by decide) hblanks
    rcases List.append_eq_append_iff.1 heq with ⟨more, hmore, -⟩ | ⟨more, hmore, hrest⟩
    · exact ⟨more, hmore⟩
    · cases more with
      | nil => exact ⟨[], by simpa using hmore.symm⟩
      | cons c more =>
        obtain rfl : '{' = c := (List.cons.inj hrest).1
        exact absurd (hmore ▸ by simp) hopen
  rw [List.append_assoc, List.append_cancel_left_eq] at heq
  apply h front rest heq ((balanced_allBlank_append hblanks).1 hbalanced)
  exact fun c hc => hblank c ((Text.afterLast_suffix '}' blanks front).subset hc)

/-- A headed text stays so without the blanks in front of it. -/
lemma Headed.of_allBlank_append {blanks text : Text} (h : Headed (blanks ++ text))
    (hblanks : Text.AllBlank blanks) : Headed text := by
  rintro front rest rfl hbalanced hblank
  apply h (blanks ++ front) rest (List.append_assoc _ _ _).symm
    ((balanced_allBlank_append hblanks).2 hbalanced)
  intro c hc
  rcases Text.mem_afterLast_append hc with hin | hin
  · exact hblanks c hin
  · exact hblank c hin

/-! ## What is said at a seam -/

/-- Blanks at the end of a text do not count, so only those at its front need to be dropped. -/
lemma ruleContents_dropWhile (scope : Scope) (text : Text) :
    ruleContents scope (text.dropWhile Text.isBlank) = ruleContents scope (Text.trim text) := by
  have hback :
      Text.AllBlank ((text.dropWhile Text.isBlank).reverse.takeWhile Text.isBlank).reverse :=
    fun c hc => List.mem_takeWhile_imp (List.mem_reverse.1 hc)
  rw [← ruleContents_append_allBlank scope (Text.trim text) hback, Text.trim, Text.trimWhere,
    ← List.reverse_append, List.takeWhile_append_dropWhile, List.reverse_reverse]

/-- Rules behind a closing brace are read apart from those in front of it. -/
lemma ruleContents_append_close (scope : Scope) (text rest : Text) :
    ruleContents scope (text ++ ['}'] ++ rest) =
      ruleContents scope (text ++ ['}']) ++ ruleContents scope rest := by
  rw [ruleContents, rawRules_append_close, List.map_append]
  rfl

/-- A text that does not open with a brace does not begin with one. -/
lemma head?_ne_of_opensWithBrace {text : Text} (h : opensWithBrace id text = false) :
    text.head? ≠ some '{' := by
  intro hhead
  obtain ⟨rest, rfl⟩ := List.head?_eq_some_iff.1 hhead
  cases h

/-- At top level, what follows a closed stretch is read as if it stood alone. -/
lemma EndsClosed.ruleContents_append {last first : Text} (h : EndsClosed last)
    (hfirst : opensWithBrace id first = false) :
    ruleContents .topLevel (Text.trim (last ++ first)) =
      ruleContents .topLevel (Text.trim last) ++ ruleContents .topLevel first := by
  rw [← ruleContents_dropWhile, ← ruleContents_dropWhile]
  by_cases hblank : Text.AllBlank last
  · rw [List.dropWhile_append_of_pos hblank, ruleContents_dropWhile, ruleContents_trim _ hfirst,
      List.dropWhile_eq_nil_iff.2 hblank]
    rfl
  · obtain ⟨front, blanks, rfl, hblanks⟩ := h.exists_close hblank
    have hdrop (rest : Text) : (front ++ ['}'] ++ rest).dropWhile Text.isBlank =
        front.dropWhile Text.isBlank ++ ['}'] ++ rest := by
      have hclose : Text.isBlank '}' = false := by decide
      simp only [List.append_assoc, List.singleton_append, List.dropWhile_append]
      split
      · rename_i hnil
        rw [List.dropWhile_cons_of_neg (by simp [hclose]), List.isEmpty_iff.1 hnil, List.nil_append]
      · rfl
    rw [List.append_assoc, hdrop, hdrop, ruleContents_append_close, ruleContents_append_close,
      ruleContents_allBlank_append _ hblanks (head?_ne_of_opensWithBrace hfirst)]
    have hnone : ruleContents .topLevel blanks = [] :=
      Outline.ruleContents_tail _ (not_mem_of_allBlank (by decide) hblanks)
    rw [hnone, List.append_nil]

/-! ## Media rules at a seam -/

/-- Blocks that do not open with a brace belong to no media rule. -/
lemma blockContents_append (query : Text) (blocks : List Text) {more : List Text}
    (h : ∀ block ∈ more, opensWithBrace id block = false) :
    blockContents query (blocks ++ more) =
      blockContents query blocks ++ more.flatMap (ruleContents .topLevel) := by
  have hbody : more.filter (opensWithBrace id) = [] :=
    List.filter_eq_nil_iff.2 fun block hblock => by simp [h block hblock]
  have htrailing : more.filter (fun block => !opensWithBrace id block) = more :=
    List.filter_eq_self.2 fun block hblock => by simp [h block hblock]
  simp only [blockContents, mediaBody?, trailingBlocks, List.filter_append, hbody, htrailing,
    List.append_nil, List.flatMap_append, List.append_assoc]

/-- The chunks of a headed stretch do not open with a brace. -/
lemma Headed.opensWithBrace_chunk {chunks : List Chunk} {tail : Text}
    (h : Headed (Chunk.textAll chunks ++ tail)) (hsound : ∀ chunk ∈ chunks, chunk.Sound) :
    ∀ chunk ∈ chunks, opensWithBrace id chunk.text = false := by
  intro chunk hchunk
  have hthis := hsound chunk hchunk
  obtain ⟨before, behind, rfl⟩ := List.append_of_mem hchunk
  have hbefore : ∀ other ∈ before, other.Sound := fun other hother =>
    hsound other (List.mem_append_left _ hother)
  have hnested := (Chunk.nested_textAll hbefore).append hthis.head.nested
  rw [← Bool.not_eq_true, hthis.opensWithBrace_iff]
  intro hblank
  apply h (Chunk.textAll before ++ chunk.head) (chunk.inner ++ '}' :: Chunk.textAll behind ++ tail)
  · simp [Chunk.textAll, Chunk.text]
  · exact hnested.balanced
  · rw [Text.afterLast_append hthis.head.2]
    have hnil : Text.afterLast '}' (Chunk.textAll before) = [] := by
      by_cases hbefore : before = []
      · rw [hbefore]
        rfl
      · obtain ⟨front, hfront⟩ := Chunk.exists_textAll_eq hbefore
        rw [hfront, Text.afterLast_concat]
    rwa [hnil]

/-- A stretch with whole groups behind an `@media` is a media part. -/
lemma exists_mediaPart {last : Text} (hbraces : Balanced last) (hclosed : EndsClosed last)
    (hgroup : ¬ Text.AllBlank last) (hword : ¬ mediaWord <:+: last) :
    ∃ part : MediaPart, part.Shaped ∧ last = part.text ∧ Text.AllBlank part.tail := by
  obtain ⟨front, blanks, hlast, hblanks⟩ := hclosed.exists_close hgroup
  obtain ⟨chunks, tail, htext, hchunks, htail, htailWord⟩ := hbraces.nested.exists_sound hword
  cases chunks with
  | nil =>
    have hclose : '}' ∈ last := by simp [hlast]
    rw [htext] at hclose
    exact absurd hclose htail.2
  | cons chunk after =>
    obtain ⟨hchunk, hafter⟩ := List.forall_mem_cons.1 hchunks
    obtain ⟨rules, close, hinner, hrules, hclose, hcloseWord⟩ :=
      hchunk.inner.exists_sound hchunk.innerWord
    have hpart : last = (MediaPart.mk chunk.head rules close after tail).text := by
      simp [htext, MediaPart.text, MediaPart.body, Chunk.textAll_cons, Chunk.text, hinner]
    refine ⟨⟨chunk.head, rules, close, after, tail⟩, ?_, hpart, ?_⟩
    · exact ⟨hchunk.head.1, hchunk.headWord, hrules, hclose, hcloseWord, hafter, htail.2, htailWord⟩
    · -- both are what stands behind the last closing brace
      obtain ⟨back, hback⟩ := Chunk.exists_textAll_eq (List.cons_ne_nil chunk after)
      have hafterLast := congrArg (Text.afterLast '}') (hlast.symm.trans htext)
      rw [hback, Text.afterLast_append (not_mem_of_allBlank (by decide) hblanks),
        Text.afterLast_append htail.2, Text.afterLast_concat, Text.afterLast_concat] at hafterLast
      rw [List.nil_append, List.nil_append] at hafterLast
      exact hafterLast ▸ hblanks

/-- What follows the groups of a media stretch is found in its trailing blocks. -/
lemma mediaContents_seam {last first : Text} (hbraces : Balanced last) (hclosed : EndsClosed last)
    (hgroup : ¬ Text.AllBlank last) (hword : ¬ mediaWord <:+: last) (hfirst : Balanced first)
    (hheaded : Headed first) (hfirstWord : ¬ mediaWord <:+: first) :
    mediaContents (last ++ first) = mediaContents last ++ ruleContents .topLevel first := by
  obtain ⟨part, hshaped, rfl, hblanks⟩ := exists_mediaPart hbraces hclosed hgroup hword
  have hnested := ((balanced_allBlank_append hblanks).2 hfirst).nested
  have hnoWord : ¬ mediaWord <:+: part.tail ++ first := by
    rwa [Text.infix_allBlank_append_iff noBlank_mediaWord (by decide) hblanks]
  obtain ⟨chunks, tail, htext, hchunks, htail, htailWord⟩ := hnested.exists_sound hnoWord
  have hheads := (htext ▸ hheaded.allBlank_append hblanks).opensWithBrace_chunk hchunks
  -- the part goes on with the chunks of the second stretch
  let longer : MediaPart := ⟨part.query, part.rules, part.close, part.after ++ chunks, tail⟩
  have hlonger : longer.Shaped :=
    ⟨hshaped.query, hshaped.queryWord, hshaped.rules, hshaped.close, hshaped.closeWord,
      List.forall_mem_append.2 ⟨hshaped.after, hchunks⟩, htail.2, htailWord⟩
  have hsame : part.text ++ first = longer.text := by
    rw [MediaPart.text, List.append_assoc, htext]
    simp [MediaPart.text, longer, Chunk.textAll, MediaPart.body]
  have hrules : (chunks.map Chunk.text).flatMap (ruleContents .topLevel) =
      ruleContents .topLevel first := by
    rw [List.flatMap_map, ← ruleContents_allBlank_append .topLevel hblanks
      (head?_ne_of_opensWithBrace hheaded.opensWithBrace_eq), htext,
      Chunk.ruleContents_textAll_append, Outline.ruleContents_tail .topLevel htail.2,
      List.append_nil, Chunk.contents]
  rw [hsame, hlonger.mediaContents_eq, hshaped.mediaContents_eq, ← hrules,
    ← blockContents_append _ _ (List.forall_mem_map.2 hheads)]
  simp [longer, MediaPart.body]

/-! ## Whole texts -/

/-- Two texts say one behind the other what each of them says. -/
theorem sheetContents_append {first second : Text} (hfirst : Concluded first)
    (hsecond : Continuing second) :
    sheetContents (first ++ second) = sheetContents first ++ sheetContents second := by
  obtain ⟨head, others, rfl, hpieces⟩ := exists_pieces first
  obtain ⟨behind, more, rfl, hmore⟩ := exists_pieces second
  obtain ⟨hbraces, hheaded⟩ := hsecond
  obtain ⟨hlast, hclosed, hgroup⟩ := hfirst
  rw [hmore.firstPiece_eq] at hbraces hheaded
  have hbehind : ruleContents .topLevel (Text.trim behind) = ruleContents .topLevel behind :=
    ruleContents_trim _ hheaded.opensWithBrace_eq
  rcases List.eq_nil_or_concat' others with rfl | ⟨before, last, rfl⟩
  · -- the first text holds no `@media`
    rw [hpieces.lastPiece_nil] at hclosed
    have hboth : Pieces (head ++ behind) more :=
      ⟨hclosed.noMedia_append hpieces.first hmore.first, hmore.others⟩
    have hjoin : joinPieces head [] ++ joinPieces behind more =
        joinPieces (head ++ behind) more := by
      simp [joinPieces]
    rw [hjoin, hboth.sheetContents_eq, hpieces.sheetContents_eq, hmore.sheetContents_eq,
      hclosed.ruleContents_append hheaded.opensWithBrace_eq, hbehind]
    simp
  · have hgroup := hgroup (infix_joinPieces_concat head last before)
    rw [hpieces.lastPiece_concat] at hlast hclosed hgroup
    have hword : ¬ mediaWord <:+: last := hpieces.others last (by simp)
    have hboth : Pieces head (before ++ [last ++ behind] ++ more) := by
      refine ⟨hpieces.first, fun piece hpiece => ?_⟩
      rw [List.mem_append, List.mem_append, List.mem_singleton] at hpiece
      rcases hpiece with (hin | rfl) | hin
      · exact hpieces.others piece (List.mem_append_left _ hin)
      · exact hclosed.noMedia_append hword hmore.first
      · exact hmore.others piece hin
    have hjoin : joinPieces head (before ++ [last]) ++ joinPieces behind more =
        joinPieces head (before ++ [last ++ behind] ++ more) := by
      simp [joinPieces]
    rw [hjoin, hboth.sheetContents_eq, hpieces.sheetContents_eq, hmore.sheetContents_eq, hbehind]
    simp [mediaContents_seam hlast hclosed hgroup hword hbraces hheaded hmore.first]

end CssPrune.Css
