import CssPrune.Proofs.RuleScan

/-!
# The scan for media rules

How the cut at `@media` and the walk over the braces go. Inside of a group, well nested text ends no
block (`blocksFrom_nested`), and a text is cut exactly at the `@media` between parts that hold none
(`plainPieces_append`). What is read behind an `@media` depends on its query and on what its first
opening and its last closing brace enclose (`mediaContents_append`).
-/

namespace CssPrune.Css

/-! ## Well nested braces -/

/-- A text in which each opening brace has its closing brace behind it. -/
inductive Nested : Text → Prop where
  | nil : Nested []
  | char {c rest} : c ≠ '{' → c ≠ '}' → Nested rest → Nested (c :: rest)
  | group {inner rest} : Nested inner → Nested rest → Nested ('{' :: inner ++ '}' :: rest)

/-- A text without braces. -/
def NoBrace (text : Text) : Prop :=
  '{' ∉ text ∧ '}' ∉ text

instance (text : Text) : Decidable (NoBrace text) :=
  inferInstanceAs (Decidable (_ ∧ _))

/-- A text without braces is well nested. -/
lemma NoBrace.nested {text : Text} (h : NoBrace text) : Nested text := by
  induction text with
  | nil => exact .nil
  | cons c rest ih =>
    obtain ⟨hopen, hrest⟩ := List.ne_and_not_mem_of_not_mem_cons h.1
    obtain ⟨hclose, hrest'⟩ := List.ne_and_not_mem_of_not_mem_cons h.2
    exact .char hopen.symm hclose.symm (ih ⟨hrest, hrest'⟩)

/-- Blanks hold no brace. -/
lemma noBrace_of_allBlank {text : Text} (h : Text.AllBlank text) : NoBrace text :=
  ⟨not_mem_of_allBlank (by decide) h, not_mem_of_allBlank (by decide) h⟩

/-- Two texts hold no brace together exactly if neither does. -/
lemma noBrace_append {first second : Text} :
    NoBrace (first ++ second) ↔ NoBrace first ∧ NoBrace second := by
  simp only [NoBrace, List.mem_append, not_or]
  tauto

/-- Well nested texts one behind the other are well nested. -/
lemma Nested.append {first second : Text} (hfirst : Nested first) (hsecond : Nested second) :
    Nested (first ++ second) := by
  induction hfirst with
  | nil => exact hsecond
  | char hopen hclose _ ih => exact .char hopen hclose ih
  | @group inner rest hinner _ _ ih =>
    have := Nested.group hinner ih
    simpa using this

/-- As many closing braces as were left open make a text well nested. -/
lemma nested_append_replicate {text : Text} (h : '}' ∉ text) :
    Nested (text ++ List.replicate (text.count '{') '}') := by
  induction text with
  | nil => exact .nil
  | cons c rest ih =>
    obtain ⟨hc, hrest⟩ := List.ne_and_not_mem_of_not_mem_cons h
    by_cases hopen : c = '{'
    · subst hopen
      have := Nested.group (ih hrest) .nil
      simpa [List.replicate_succ', List.append_assoc] using this
    · rw [List.count_cons_of_ne hopen]
      exact .char hopen hc.symm (ih hrest)

/-! ## The walk over the braces -/

section Walk

variable (depth : Int) (block : Text) (done : List Text)

/-- A character that is no brace is added to the block. -/
lemma blocksFrom_cons_char {c : Char} (hopen : c ≠ '{') (hclose : c ≠ '}') (rest : Text) :
    blocksFrom id depth block done (c :: rest) = blocksFrom id depth (c :: block) done rest := by
  simp [blocksFrom, hopen, hclose]

/-- An opening brace goes one level deeper. -/
lemma blocksFrom_cons_open (rest : Text) :
    blocksFrom id depth block done ('{' :: rest) =
      blocksFrom id (depth + 1) ('{' :: block) done rest := by
  simp [blocksFrom]

/-- A closing brace that is not the last one goes one level up. -/
lemma blocksFrom_cons_close (h : depth ≠ 1) (rest : Text) :
    blocksFrom id depth block done ('}' :: rest) =
      blocksFrom id (depth - 1) ('}' :: block) done rest := by
  simp [blocksFrom, h]

/-- The last closing brace ends the block. -/
lemma blocksFrom_cons_last (rest : Text) :
    blocksFrom id 1 block done ('}' :: rest) =
      blocksFrom id 0 [] (('}' :: block).reverse :: done) rest := by
  simp [blocksFrom]

variable {depth}

/-- Inside of a group, well nested text ends no block. -/
lemma blocksFrom_nested {text : Text} (h : Nested text) (hdepth : 1 ≤ depth) (rest : Text) :
    blocksFrom id depth block done (text ++ rest) =
      blocksFrom id depth (text.reverse ++ block) done rest := by
  induction h generalizing depth block rest with
  | nil => rfl
  | char hopen hclose _ ih =>
    rw [List.cons_append, blocksFrom_cons_char _ _ _ hopen hclose, ih _ hdepth]
    simp
  | @group inner tail _ _ ihInner ihTail =>
    rw [List.append_assoc, List.cons_append, List.cons_append, blocksFrom_cons_open,
      ihInner _ (by omega), blocksFrom_cons_close _ _ _ (by omega), Int.add_sub_cancel,
      ihTail _ hdepth]
    simp

/-- A text without braces is added to the block. -/
lemma blocksFrom_noBrace {text : Text} (h : NoBrace text) (rest : Text) :
    blocksFrom id depth block done (text ++ rest) =
      blocksFrom id depth (text.reverse ++ block) done rest := by
  induction text generalizing block with
  | nil => rfl
  | cons c text ih =>
    obtain ⟨hopen, htext⟩ := List.ne_and_not_mem_of_not_mem_cons h.1
    obtain ⟨hclose, htext'⟩ := List.ne_and_not_mem_of_not_mem_cons h.2
    rw [List.cons_append, blocksFrom_cons_char _ _ _ hopen.symm hclose.symm, ih _ ⟨htext, htext'⟩]
    simp

end Walk

/-! ## The text behind an `@media` -/

section Items

variable {α : Type} {char : α → Char} {c : Char} {items front part tail : List α} {a : α}

/-- What begins with the character is the end of the items. -/
lemma cutBefore_isSuffix (char : α → Char) (c : Char) (items : List α) :
    (cutBefore char c items).2 <:+ items := by
  rw [cutBefore, List.span_eq_takeWhile_dropWhile]
  exact List.dropWhile_suffix _

/-- What ends in the character is the front of the items. -/
lemma throughLast_isPrefix (c : Char) (items : List α) : throughLast char c items <+: items := by
  rw [throughLast, ← List.reverse_suffix, List.reverse_reverse]
  exact List.dropWhile_suffix _

/-- A block is a stretch of the items. -/
lemma infix_of_mem_blocksOf (h : part ∈ (blocksOf char items).blocks) : part <:+: items := by
  have hparts := List.infix_of_mem_flatten h
  rw [← flatten_blocksOf char items]
  exact hparts.trans (List.prefix_append _ _).isInfix

/-- The body of a media query is one of the blocks. -/
lemma mem_of_mediaBody? {blocks : List (List α)} (h : mediaBody? char blocks = some part) :
    part ∈ blocks :=
  (List.mem_filter.1 (List.mem_of_getLast? h)).1

/-- A tail without the character does not count. -/
lemma throughLast_append_of_forall (h : ∀ b ∈ tail, char b ≠ c) (items : List α) :
    throughLast char c (items ++ tail) = throughLast char c items := by
  have hdrop : tail.reverse.dropWhile (char · != c) = [] :=
    List.dropWhile_eq_nil_iff.2 fun b hb => by simpa using h b (List.mem_reverse.1 hb)
  simp [throughLast, List.reverse_append, List.dropWhile_append, hdrop]

/-- The character itself ends what goes through it. -/
lemma throughLast_concat_of_eq (h : char a = c) (items : List α) :
    throughLast char c (items ++ [a]) = items ++ [a] := by
  simp [throughLast, List.reverse_append, h]

/-- Without the character nothing goes through it. -/
lemma throughLast_eq_nil (h : ∀ b ∈ items, char b ≠ c) : throughLast char c items = [] :=
  throughLast_append_of_forall h []

/-- The cut is made in front of the first item with the character. -/
lemma cutBefore_append_of_eq (hfront : ∀ b ∈ front, char b ≠ c) (ha : char a = c)
    (rest : List α) : cutBefore char c (front ++ a :: rest) = (front, a :: rest) := by
  have hall : ∀ b ∈ front, (char b != c) = true := fun b hb => by simpa using hfront b hb
  rw [cutBefore, List.span_eq_takeWhile_dropWhile, List.takeWhile_append_of_pos hall,
    List.dropWhile_append_of_pos hall]
  simp [ha]

/-- Without the character nothing is cut off. -/
lemma cutBefore_eq_self (h : ∀ b ∈ items, char b ≠ c) : cutBefore char c items = (items, []) := by
  have hall : ∀ b ∈ items, (char b != c) = true := fun b hb => by simpa using h b hb
  rw [cutBefore, List.span_eq_takeWhile_dropWhile, List.takeWhile_eq_self_iff.2 hall,
    List.dropWhile_eq_nil_iff.2 hall]

/-- What is dropped from the front ends in front of an item that is kept. -/
lemma dropWhile_append_of_head {p : α → Bool} {back : List α} (h : ∃ b ∈ back.head?, p b = false)
    (front : List α) : (front ++ back).dropWhile p = front.dropWhile p ++ back := by
  obtain ⟨b, hb, hp⟩ := h
  obtain ⟨rest, rfl⟩ := List.head?_eq_some_iff.1 hb
  induction front with
  | nil => exact List.dropWhile_cons_of_neg (by simp [hp])
  | cons d front ih =>
    rw [List.cons_append, List.dropWhile_cons, List.dropWhile_cons]
    split
    · exact ih
    · rfl

/-- Trimming leaves the place at which a text is cut. -/
lemma cutBefore_trimWhere {p : α → Bool} (hfront : ∀ b ∈ front, char b ≠ c) (ha : char a = c)
    (hp : p a = false) (rest : List α) :
    cutBefore char c (Text.trimWhere p (front ++ a :: rest)) =
      (front.dropWhile p, ((a :: rest).reverse.dropWhile p).reverse) := by
  have hend : ((a :: rest).reverse.dropWhile p).reverse =
      a :: (rest.reverse.dropWhile p).reverse := by
    rw [List.reverse_cons, dropWhile_append_of_head ⟨a, rfl, hp⟩, List.reverse_append]
    rfl
  have htrim : Text.trimWhere p (front ++ a :: rest) =
      front.dropWhile p ++ a :: (rest.reverse.dropWhile p).reverse := by
    rw [Text.trimWhere, dropWhile_append_of_head ⟨a, rfl, hp⟩, List.reverse_append,
      List.reverse_cons, List.append_assoc, dropWhile_append_of_head ⟨a, rfl, hp⟩,
      List.reverse_append, List.reverse_append, List.reverse_reverse]
    simp
  rw [htrim, hend]
  exact cutBefore_append_of_eq (fun b hb => hfront b ((List.dropWhile_sublist p).subset hb)) ha _

/-- Trimming leaves what stands before the last occurrence of a character that it does not drop. -/
lemma throughLast_trimEnd {p : α → Bool} (h : ∀ b, p b = true → char b ≠ c) (items : List α) :
    throughLast char c (items.reverse.dropWhile p).reverse = throughLast char c items := by
  have hparts : items =
      (items.reverse.dropWhile p).reverse ++ (items.reverse.takeWhile p).reverse := by
    rw [← List.reverse_append, List.takeWhile_append_dropWhile, List.reverse_reverse]
  conv_rhs => rw [hparts]
  refine (throughLast_append_of_forall (fun b hb => h b ?_) _).symm
  exact List.mem_takeWhile_imp (List.mem_reverse.1 hb)

end Items

/-- A tail without the character does not count. -/
lemma throughLast_append {c : Char} {tail : Text} (h : c ∉ tail) (text : Text) :
    throughLast id c (text ++ tail) = throughLast id c text :=
  throughLast_append_of_forall (fun _ hmem => ne_of_mem_of_not_mem hmem h) text

/-- The character itself ends what goes through it. -/
lemma throughLast_concat (c : Char) (text : Text) :
    throughLast id c (text ++ [c]) = text ++ [c] :=
  throughLast_concat_of_eq rfl text

/-- The query in front of a brace is cut off, and both ends of the text are trimmed. -/
lemma mediaParts_append {query : Text} (h : '{' ∉ query) (rest : Text) :
    mediaParts (query ++ '{' :: rest) =
      (query.dropWhile Text.isBlank, (('{' :: rest).reverse.dropWhile Text.isBlank).reverse) :=
  cutBefore_trimWhere (fun _ hmem => ne_of_mem_of_not_mem hmem h) rfl (by decide) rest

/-- Between the first opening and the last closing brace stands what is walked over. -/
lemma throughLast_mediaParts {query tail : Text} (hquery : '{' ∉ query) (body : Text)
    (htail : '}' ∉ tail) :
    throughLast id '}' (mediaParts (query ++ '{' :: body ++ '}' :: tail)).2 =
      '{' :: body ++ ['}'] := by
  have hclose : ∀ c, Text.isBlank c = true → id c ≠ '}' := fun c hc => (isPlain_of_isBlank hc).2.1
  have hsplit : '{' :: (body ++ '}' :: tail) = ('{' :: body ++ ['}']) ++ tail := by simp
  rw [List.append_assoc, List.cons_append, mediaParts_append hquery, throughLast_trimEnd hclose,
    hsplit, throughLast_append htail, throughLast_concat]

/-- The words of a query are those in front of its brace. -/
lemma collapse_mediaParts {query : Text} (h : '{' ∉ query) (rest : Text) :
    Text.collapse (mediaParts (query ++ '{' :: rest)).1 = Text.collapse query := by
  rw [mediaParts_append h, Text.collapse_dropWhile]

/-- What is read behind an `@media`, from the blocks between the braces. -/
lemma mediaContents_append {query tail : Text} (hquery : '{' ∉ query) (body : Text)
    (htail : '}' ∉ tail) :
    mediaContents (query ++ '{' :: body ++ '}' :: tail) =
      blockContents (Text.collapse query) (blocksOf id ('{' :: body ++ ['}'])).blocks := by
  have hname := collapse_mediaParts hquery (body ++ '}' :: tail)
  rw [mediaContents, mediaBlocks, throughLast_mediaParts hquery body htail, List.append_assoc,
    List.cons_append, hname]

/-- A warning comes from blocks that leave something over. -/
lemma mediaNotices_append {query tail : Text} (hquery : '{' ∉ query) (body : Text)
    (htail : '}' ∉ tail) :
    mediaNotices (query ++ '{' :: body ++ '}' :: tail) =
      if (blocksOf id ('{' :: body ++ ['}'])).leftover.isEmpty then [] else
        [.unbalancedBraces] := by
  have hlast := throughLast_mediaParts hquery body htail
  have hblock : (mediaParts (query ++ '{' :: body ++ '}' :: tail)).2 ≠ [] := by
    intro hnil
    rw [hnil] at hlast
    simp [throughLast] at hlast
  have hstretch : ('{' :: body ++ ['}']).isEmpty = false := rfl
  rw [mediaNotices, mediaBlocks, hlast, if_neg (by simpa using hblock), hstretch]
  rfl

/-! ## The cut at `@media` -/

/-- The literal `@media` holds no blank. -/
lemma noBlank_mediaWord : Text.NoBlank mediaWord := by decide

/-- A word that holds its first character once does not begin inside of a text that lacks it and
end behind that text. -/
lemma not_prefix_append_cons {c : Char} {word text : Text} (hc : c ∉ word) (hne : text ≠ [])
    (htext : ¬ (c :: word) <+: text) (rest : Text) : ¬ (c :: word) <+: text ++ c :: rest := by
  intro hpre
  rcases List.prefix_or_prefix_of_prefix hpre (List.prefix_append text (c :: rest)) with h | h
  · exact htext h
  · obtain ⟨back, hback⟩ := h
    obtain ⟨a, front, rfl⟩ := List.exists_cons_of_ne_nil hne
    rw [← hback, List.prefix_append_right_inj] at hpre
    rw [List.cons_append, List.cons_eq_cons] at hback
    obtain ⟨rfl, hword⟩ := hback
    cases back with
    | nil => exact htext (by rw [← hword, List.append_nil])
    | cons b back =>
      obtain ⟨rfl, -⟩ := List.cons_prefix_cons.1 hpre
      exact hc (hword ▸ by simp)

/-- A text without `@media` is one piece. -/
lemma cutFrom_of_no_word {text : Text} (h : ¬ mediaWord <:+: text) (piece : Text) :
    cutFrom id piece text = [⟨piece.reverse ++ text, none⟩] := by
  induction text generalizing piece with
  | nil => rw [cutFrom, List.append_nil]
  | cons a rest ih =>
    have hnone : Text.dropLiteral? id mediaWord (a :: rest) = none := by
      by_contra hsome
      obtain ⟨behind, hbehind⟩ := Option.ne_none_iff_exists'.1 hsome
      rw [Text.dropLiteral?_eq_some_iff] at hbehind
      exact h (hbehind ▸ (List.prefix_append _ _).isInfix)
    have hrest : ¬ mediaWord <:+: rest := fun hin => h (List.infix_cons hin)
    rw [cutFrom]
    split
    · rename_i behind hbehind
      rw [hnone] at hbehind
      cases hbehind
    · rw [ih hrest]
      simp

/-- A text is cut at its first `@media`, and then what follows is. -/
lemma cutFrom_append_word {text : Text} (h : ¬ mediaWord <:+: text) (piece rest : Text) :
    (cutFrom id piece (text ++ mediaWord ++ rest)).map (·.items) =
      (piece.reverse ++ text) :: plainPieces rest := by
  induction text generalizing piece with
  | nil =>
    have hsome : Text.dropLiteral? id mediaWord (mediaWord ++ rest) = some rest :=
      Text.dropLiteral?_eq_some_iff.2 rfl
    rw [List.nil_append, mediaWord, List.cons_append, cutFrom]
    split
    · rename_i behind hbehind
      obtain rfl := Option.some.inj (hsome.symm.trans hbehind)
      simp [plainPieces, mediaPieces]
    · rename_i hnone
      cases hsome.symm.trans hnone
  | cons a text ih =>
    -- a word that began here would hold the sign of the one behind the text
    have hnone : Text.dropLiteral? id mediaWord (a :: text ++ mediaWord ++ rest) = none := by
      by_contra hsome
      obtain ⟨behind, hbehind⟩ := Option.ne_none_iff_exists'.1 hsome
      rw [Text.dropLiteral?_eq_some_iff] at hbehind
      refine not_prefix_append_cons (c := '@') (by decide) (List.cons_ne_nil a text)
        (fun hpre => h hpre.isInfix) (['m', 'e', 'd', 'i', 'a'] ++ rest) ⟨behind, ?_⟩
      rw [← mediaWord, ← hbehind]
      simp [mediaWord]
    have htext : ¬ mediaWord <:+: text := fun hin => h (List.infix_cons hin)
    rw [List.cons_append, List.cons_append, cutFrom]
    split
    · rename_i behind hbehind
      cases hnone.symm.trans hbehind
    · rw [ih htext]
      simp

/-- A text is cut exactly at the `@media` between parts that hold none. -/
lemma plainPieces_append {first : Text} {others : List Text} (hfirst : ¬ mediaWord <:+: first)
    (hothers : ∀ text ∈ others, ¬ mediaWord <:+: text) :
    plainPieces (first ++ others.flatMap (mediaWord ++ ·)) = first :: others := by
  induction others generalizing first with
  | nil =>
    rw [List.flatMap_nil, List.append_nil, plainPieces, mediaPieces, cutFrom_of_no_word hfirst]
    rfl
  | cons second others ih =>
    obtain ⟨hsecond, hrest⟩ := List.forall_mem_cons.1 hothers
    rw [List.flatMap_cons, ← List.append_assoc, ← List.append_assoc, List.append_assoc _ second,
      plainPieces, mediaPieces, cutFrom_append_word hfirst, ih hsecond hrest]
    rfl

end CssPrune.Css
