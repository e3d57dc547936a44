import CssPrune.Proofs.Outline

/-!
# Layouts

A stylesheet laid out item by item: gaps, rules, and media rules around gaps and rules. A gap is
blank or ends with a semicolon, so it leaves nothing in front of the next selector list but blanks.
`Item.sheetContents_textAll` says that each rule with declarations is read as it is written, in
order. The gap in front of a rule goes to the head of its chunk, so the items of a layout are
gathered from the end: those in front of the first media rule, and behind each one those up to the
next.
-/

namespace CssPrune.Css

/-- A word that no blank, brace or semicolon belongs to. -/
structure IsMark (word : Text) : Prop where
  nonempty : word ≠ []
  noBlank : Text.NoBlank word
  plain : ∀ c ∈ word, IsPlain c

namespace IsMark

variable {word : Text}

/-- A mark holds no blank. -/
lemma lacks (h : IsMark word) {c : Char} (hc : Text.isBlank c = true) : c ∉ word := by
  intro hmem
  rw [h.noBlank c hmem] at hc
  cases hc

/-- A mark holds no opening brace. -/
lemma opening (h : IsMark word) : '{' ∉ word := fun hmem => (h.plain _ hmem).1 rfl

/-- A mark holds no closing brace. -/
lemma close (h : IsMark word) : '}' ∉ word := fun hmem => (h.plain _ hmem).2.1 rfl

/-- A mark holds no semicolon. -/
lemma semicolon (h : IsMark word) : ';' ∉ word := fun hmem => (h.plain _ hmem).2.2 rfl

end IsMark

/-- The literal `@media` is a mark. -/
lemma isMark_mediaWord : IsMark mediaWord where
  nonempty := List.cons_ne_nil _ _
  noBlank := noBlank_mediaWord
  plain := by simp [mediaWord, IsPlain]

/-! ## Gaps -/

/-- A text of which only blanks can belong to the next rule. -/
inductive Clear : Text → Prop where
  | blanks {text} : Text.AllBlank text → Clear text
  | behind {text blanks} : NoBrace text → ¬ mediaWord <:+: text → Text.AllBlank blanks →
      Clear (text ++ ';' :: blanks)

/-- No `@media` stands in an empty text. -/
lemma not_infix_nil : ¬ mediaWord <:+: [] := by simp [mediaWord]

/-- Blanks in front of a text bring no `@media` along. -/
lemma noMedia_allBlank_append {blanks : Text} (h : Text.AllBlank blanks) {text : Text}
    (htext : ¬ mediaWord <:+: text) : ¬ mediaWord <:+: blanks ++ text := by
  rwa [Text.infix_allBlank_append_iff noBlank_mediaWord (by decide) h]

/-- Text that ends in a semicolon in front of a rule is dropped. -/
lemma rules_outside_statement {text : Text} (h : NoBrace text) (run rest : Text) :
    (RuleState.outside run).rules id (text ++ ';' :: rest) = rawRules id rest := by
  induction text generalizing run with
  | nil => cases run <;> rfl
  | cons c text ih =>
    obtain ⟨hopen, htext⟩ := List.ne_and_not_mem_of_not_mem_cons h.1
    obtain ⟨hclose, htext'⟩ := List.ne_and_not_mem_of_not_mem_cons h.2
    -- a semicolon drops the run, any other character extends it
    have hstep : ∃ next, (RuleState.outside run).step id c = (.outside next, none) := by
      by_cases hsemi : c = ';'
      · subst hsemi
        cases run <;> exact ⟨[], rfl⟩
      · exact ⟨c :: run, step_outside_plain ⟨hopen.symm, hclose.symm, hsemi⟩ run⟩
    obtain ⟨next, hnext⟩ := hstep
    rw [List.cons_append, rules_cons, hnext, ih ⟨htext, htext'⟩]
    rfl

namespace Clear

variable {gap : Text}

/-- Nothing is clear. -/
lemma nil : Clear [] := .blanks Text.allBlank_nil

/-- A clear gap stays clear with blanks behind it. -/
lemma append_blanks (h : Clear gap) {text : Text} (htext : Text.AllBlank text) :
    Clear (gap ++ text) := by
  cases h with
  | blanks hgap => exact .blanks (Text.allBlank_append.2 ⟨hgap, htext⟩)
  | @behind front blanks hfront hword hblanks =>
    rw [List.append_assoc, List.cons_append]
    exact .behind hfront hword (Text.allBlank_append.2 ⟨hblanks, htext⟩)

/-- A clear gap holds no brace. -/
lemma noBrace (h : Clear gap) : NoBrace gap := by
  cases h with
  | blanks hgap => exact noBrace_of_allBlank hgap
  | behind hfront _ hblanks =>
    refine noBrace_append.2 ⟨hfront, ?_⟩
    have hblanks := noBrace_of_allBlank hblanks
    simpa [NoBrace] using hblanks

/-- A clear gap in front of a text brings no `@media` along. -/
lemma noMedia_append (h : Clear gap) {text : Text} (htext : ¬ mediaWord <:+: text) :
    ¬ mediaWord <:+: gap ++ text := by
  cases h with
  | blanks hgap => exact noMedia_allBlank_append hgap htext
  | @behind front blanks hfront hword hblanks =>
    rw [List.append_assoc, List.cons_append, Text.infix_append_cons_iff (by decide)]
    rintro (hin | hin)
    · exact hword hin
    · exact noMedia_allBlank_append hblanks htext hin

/-- A clear gap holds no `@media`. -/
lemma noMedia (h : Clear gap) : ¬ mediaWord <:+: gap := by
  simpa using h.noMedia_append not_infix_nil

/-- A clear gap stays clear with a statement behind it. -/
lemma append_statement (h : Clear gap) {text : Text} (hbrace : NoBrace text)
    (hword : ¬ mediaWord <:+: text) : Clear (gap ++ (text ++ [';'])) := by
  rw [← List.append_assoc]
  exact .behind (noBrace_append.2 ⟨h.noBrace, hbrace⟩) (h.noMedia_append hword) Text.allBlank_nil

/-- Of a clear gap, only blanks belong to the next rule. -/
lemma rawRules_append (h : Clear gap) (rest : Text) :
    ∃ blanks, Text.AllBlank blanks ∧
      rawRules id (gap ++ rest) = (RuleState.outside blanks.reverse).rules id rest := by
  cases h with
  | blanks hgap =>
    refine ⟨gap, hgap, ?_⟩
    rw [rawRules, rules_outside_append fun c hc => isPlain_of_isBlank (hgap c hc), List.append_nil]
  | @behind front blanks hfront hword hblanks =>
    refine ⟨blanks, hblanks, ?_⟩
    rw [List.append_assoc, List.cons_append, rawRules, rules_outside_statement hfront, rawRules,
      rules_outside_append fun c hc => isPlain_of_isBlank (hblanks c hc), List.append_nil]

end Clear

/-! ## Parts -/

/-- A gap, or a rule: its selector list with the blanks around it, its declarations, and what
stands between them and the brace that closes the group. -/
inductive Part where
  | gap (text : Text)
  | rule (head declarations closing : Text)

namespace Part

/-- A part as it is written. -/
def text : Part → Text
  | gap text => text
  | rule head declarations closing => head ++ '{' :: (declarations ++ closing) ++ ['}']

/-- Parts as they are written, one behind the other. -/
def textAll (parts : List Part) : Text :=
  parts.flatMap text

/-- Gaps are blank, and a word stands nowhere in a rule but across a brace. -/
def Lacks (word : Text) : Part → Prop
  | gap text => Text.AllBlank text
  | rule head declarations closing => ¬ word <:+: head ∧ ¬ word <:+: declarations ++ closing

/-- The rule that a part is read as, if it has declarations. -/
def contents (scope : Scope) : Part → List Content
  | gap _ => []
  | rule head declarations _ =>
    if declarations = [] then []
    else [⟨scope, Text.collapse head, Text.collapse declarations⟩]

/-- A part that is read as it is written. -/
inductive Sound : Part → Prop where
  | blanks {text} : Text.AllBlank text → Sound (gap text)
  | statement {text} : NoBrace text → ¬ mediaWord <:+: text → Sound (gap (text ++ [';']))
  | rule {head declarations closing} : (∀ c ∈ head, IsPlain c) → head ≠ [] →
      ¬ mediaWord <:+: head → '}' ∉ declarations → declarations.head? ≠ some '{' →
      '{' ∉ closing → (∀ c ∈ closing.head?, c = '}') → Nested (declarations ++ closing) →
      ¬ mediaWord <:+: declarations ++ closing → Sound (rule head declarations closing)

/-- Where parts and what follows lack a mark, so do they together. -/
lemma not_infix_textAll_append {word : Text} (hword : IsMark word) {parts : List Part}
    (h : ∀ part ∈ parts, part.Lacks word) {rest : Text} (hrest : ¬ word <:+: rest) :
    ¬ word <:+: textAll parts ++ rest := by
  induction parts with
  | nil => exact hrest
  | cons part parts ih =>
    obtain ⟨hpart, hparts⟩ := List.forall_mem_cons.1 h
    have hsplit : textAll (part :: parts) ++ rest = part.text ++ (textAll parts ++ rest) := by
      simp [textAll]
    rw [hsplit]
    cases part with
    | gap text =>
      rw [Part.text, Text.infix_allBlank_append_iff hword.noBlank hword.nonempty hpart]
      exact ih hparts
    | rule head declarations closing =>
      rw [Part.text, List.append_assoc, List.append_assoc, List.cons_append,
        Text.infix_append_cons_iff hword.opening, List.singleton_append,
        Text.infix_append_cons_iff hword.close]
      rintro (hin | hin | hin)
      · exact hpart.1 hin
      · exact hpart.2 hin
      · exact ih hparts hin

/-- The rules of parts as chunks. `gap` holds what stands in front of the next rule. -/
def chunksFrom (gap : Text) : List Part → List Chunk
  | [] => []
  | .gap text :: parts => chunksFrom (gap ++ text) parts
  | .rule head declarations closing :: parts =>
    ⟨gap ++ head, declarations ++ closing⟩ :: chunksFrom [] parts

/-- What stands behind the last rule. -/
def tailFrom (gap : Text) : List Part → Text
  | [] => gap
  | .gap text :: parts => tailFrom (gap ++ text) parts
  | .rule _ _ _ :: parts => tailFrom [] parts

/-- The chunks of parts and what is left behind them are the parts again. -/
lemma text_chunksFrom (gap : Text) (parts : List Part) :
    Chunk.textAll (chunksFrom gap parts) ++ tailFrom gap parts = gap ++ textAll parts := by
  induction parts generalizing gap with
  | nil => simp [chunksFrom, tailFrom, Chunk.textAll, textAll]
  | cons part parts ih =>
    cases part with
    | gap text =>
      rw [chunksFrom, tailFrom, ih]
      simp [textAll, Part.text]
    | rule head declarations closing =>
      rw [chunksFrom, tailFrom, Chunk.textAll_cons, List.append_assoc, ih]
      simp [textAll, Part.text, Chunk.text]

/-- A clear gap stays clear with a sound gap behind it. -/
lemma clear_append {gap text : Text} (hgap : Clear gap) (h : (Part.gap text).Sound) :
    Clear (gap ++ text) := by
  cases h with
  | blanks htext => exact hgap.append_blanks htext
  | statement hbrace hword => exact hgap.append_statement hbrace hword

/-- What is left behind the last rule is clear. -/
lemma clear_tailFrom {gap : Text} (hgap : Clear gap) {parts : List Part}
    (h : ∀ part ∈ parts, part.Sound) : Clear (tailFrom gap parts) := by
  induction parts generalizing gap with
  | nil => exact hgap
  | cons part parts ih =>
    obtain ⟨hpart, hparts⟩ := List.forall_mem_cons.1 h
    cases part with
    | gap text => exact ih (clear_append hgap hpart) hparts
    | rule head declarations closing => exact ih .nil hparts

/-- A chunk is a rule behind a gap. -/
lemma exists_of_mem_chunksFrom {gap : Text} (hgap : Clear gap) {parts : List Part}
    (h : ∀ part ∈ parts, part.Sound) {chunk : Chunk} (hmem : chunk ∈ chunksFrom gap parts) :
    ∃ front head declarations closing, Clear front ∧
      Part.rule head declarations closing ∈ parts ∧
      chunk = ⟨front ++ head, declarations ++ closing⟩ := by
  induction parts generalizing gap with
  | nil => cases hmem
  | cons part parts ih =>
    obtain ⟨hpart, hparts⟩ := List.forall_mem_cons.1 h
    cases part with
    | gap text =>
      obtain ⟨front, head, declarations, closing, hfront, hin, heq⟩ :=
        ih (clear_append hgap hpart) hparts hmem
      exact ⟨front, head, declarations, closing, hfront, List.mem_cons_of_mem _ hin, heq⟩
    | rule head declarations closing =>
      rcases List.mem_cons.1 hmem with heq | hmem
      · exact ⟨gap, head, declarations, closing, hgap, List.mem_cons_self, heq⟩
      · obtain ⟨front, head, declarations, closing, hfront, hin, heq⟩ := ih .nil hparts hmem
        exact ⟨front, head, declarations, closing, hfront, List.mem_cons_of_mem _ hin, heq⟩

/-- A sound rule behind a clear gap makes a sound chunk. -/
lemma sound_chunk {gap head declarations closing : Text} (hgap : Clear gap)
    (h : (Part.rule head declarations closing).Sound) :
    (⟨gap ++ head, declarations ++ closing⟩ : Chunk).Sound := by
  cases h with
  | rule hplain _ hword _ _ _ _ hnested hinner =>
    refine ⟨noBrace_append.2 ⟨hgap.noBrace, ?_⟩, hnested, hgap.noMedia_append hword, hinner⟩
    exact ⟨fun hmem => (hplain _ hmem).1 rfl, fun hmem => (hplain _ hmem).2.1 rfl⟩

/-- The chunks of sound parts are sound. -/
lemma sound_of_mem_chunksFrom {gap : Text} (hgap : Clear gap) {parts : List Part}
    (h : ∀ part ∈ parts, part.Sound) : ∀ chunk ∈ chunksFrom gap parts, chunk.Sound := by
  intro chunk hmem
  obtain ⟨front, head, declarations, closing, hfront, hin, rfl⟩ :=
    exists_of_mem_chunksFrom hgap h hmem
  exact sound_chunk hfront (h _ hin)

/-- A rule behind a gap is read as it is written. -/
lemma ruleContents_chunk (scope : Scope) {gap head declarations closing : Text} (hgap : Clear gap)
    (h : (Part.rule head declarations closing).Sound) :
    ruleContents scope (⟨gap ++ head, declarations ++ closing⟩ : Chunk).text =
      (Part.rule head declarations closing).contents scope := by
  cases h with
  | rule hplain hne _ hclose hopen hrest hfirst _ _ =>
    -- the first brace behind the declarations ends the rule
    obtain ⟨rest, hbehind⟩ : ∃ rest, closing ++ ['}'] = '}' :: rest := by
      cases closing with
      | nil => exact ⟨[], rfl⟩
      | cons c closing =>
        obtain rfl : c = '}' := hfirst c rfl
        exact ⟨closing ++ ['}'], rfl⟩
    have hnone : rawRules id rest = [] := by
      apply rules_of_no_open
      intro hmem
      have : '{' ∈ closing ++ ['}'] := hbehind ▸ List.mem_cons_of_mem _ hmem
      exact hrest (by simpa using this)
    have htext : (⟨gap ++ head, declarations ++ closing⟩ : Chunk).text =
        gap ++ (head ++ '{' :: (declarations ++ '}' :: rest)) := by
      rw [← hbehind]
      simp [Chunk.text]
    obtain ⟨blanks, hblanks, hrules⟩ :=
      hgap.rawRules_append (head ++ '{' :: (declarations ++ '}' :: rest))
    have hhead : head.reverse ++ blanks.reverse = (blanks ++ head).reverse := by simp
    obtain ⟨last, run, hrun⟩ := List.exists_cons_of_ne_nil
      (show (blanks ++ head).reverse ≠ [] by simp [hne])
    have hselector : (last :: run).reverse = blanks ++ head := by rw [← hrun, List.reverse_reverse]
    have hcut : (RuleState.outside (last :: run)).step id '{' =
        (.opening (last :: run).reverse '{' false, none) := rfl
    rw [ruleContents, htext, hrules, rules_outside_append hplain, hhead, hrun, rules_cons, hcut,
      hselector, contents]
    cases declarations with
    | nil =>
      rw [List.nil_append, rules_cons, step_close, ← rawRules, hnone]
      rfl
    | cons c declarations =>
      obtain ⟨hc, hdeclarations⟩ := List.ne_and_not_mem_of_not_mem_cons hclose
      have hbody : (RuleState.opening (blanks ++ head) '{' false).step id c =
          (.body (blanks ++ head) [c], none) := by
        have hne : c ≠ '{' := by simpa using hopen
        simp [RuleState.step, hne, hc.symm]
      rw [List.cons_append, rules_cons, hbody, rules_body_append hdeclarations, hnone,
        if_neg (List.cons_ne_nil _ _), ← Text.collapse_allBlank_append hblanks head]
      rfl

/-- The chunks of sound parts say what the parts say. -/
lemma contents_chunksFrom (scope : Scope) {gap : Text} (hgap : Clear gap) {parts : List Part}
    (h : ∀ part ∈ parts, part.Sound) :
    Chunk.contents scope (chunksFrom gap parts) = parts.flatMap (contents scope) := by
  induction parts generalizing gap with
  | nil => rfl
  | cons part parts ih =>
    obtain ⟨hpart, hparts⟩ := List.forall_mem_cons.1 h
    cases part with
    | gap text => exact ih (clear_append hgap hpart) hparts
    | rule head declarations closing =>
      rw [chunksFrom, Chunk.contents, List.flatMap_cons, ← Chunk.contents, ih .nil hparts,
        ruleContents_chunk scope hgap hpart]
      rfl

/-- A part that is no rule without a selector list. -/
def Headed : Part → Prop
  | gap _ => True
  | rule head _ _ => ¬ Text.AllBlank head

/-- If each rule has a selector list, then no chunk opens with a brace. -/
lemma opensWithBrace_of_headed {gap : Text} (hgap : Clear gap) {parts : List Part}
    (h : ∀ part ∈ parts, part.Sound) (hheaded : ∀ part ∈ parts, part.Headed) :
    ∀ chunk ∈ chunksFrom gap parts, opensWithBrace id chunk.text = false := by
  intro chunk hmem
  obtain ⟨front, head, declarations, closing, hfront, hin, rfl⟩ :=
    exists_of_mem_chunksFrom hgap h hmem
  apply Bool.eq_false_iff.2
  rw [Ne, (sound_chunk hfront (h _ hin)).opensWithBrace_iff]
  intro hblank
  exact hheaded _ hin (Text.allBlank_append.1 hblank).2

end Part

/-! ## Items -/

/-- A part at top level, or a media rule around parts. -/
inductive Item where
  | plain (part : Part)
  | media (query : Text) (parts : List Part)

namespace Item

/-- An item as it is written. -/
def text : Item → Text
  | plain part => part.text
  | media query parts => mediaWord ++ (query ++ '{' :: Part.textAll parts ++ ['}'])

/-- Items as they are written, one behind the other. -/
def textAll (items : List Item) : Text :=
  items.flatMap text

/-- The rules of an item. -/
def contents : Item → List Content
  | plain part => part.contents .topLevel
  | media query parts => parts.flatMap (Part.contents (.media (Text.collapse query)))

/-- A word stands nowhere in an item but across a brace. -/
def Lacks (word : Text) : Item → Prop
  | plain part => part.Lacks word
  | media query parts => ¬ word <:+: query ∧ ∀ part ∈ parts, part.Lacks word

/-- A mark that all items lack stands nowhere in their text. -/
lemma not_infix_textAll {word : Text} (hword : IsMark word) (hmedia : ∀ c ∈ mediaWord, c ∉ word)
    {items : List Item} (h : ∀ item ∈ items, item.Lacks word) : ¬ word <:+: textAll items := by
  induction items with
  | nil => simpa [textAll] using hword.nonempty
  | cons item items ih =>
    obtain ⟨hitem, hitems⟩ := List.forall_mem_cons.1 h
    rw [textAll, List.flatMap_cons, ← textAll]
    cases item with
    | plain part =>
      have := Part.not_infix_textAll_append hword (List.forall_mem_singleton.2 hitem) (ih hitems)
      simpa [Part.textAll, text] using this
    | media query parts =>
      obtain ⟨hquery, hparts⟩ := hitem
      have hnil : ¬ word <:+: [] := by simpa using hword.nonempty
      have hinner := Part.not_infix_textAll_append hword hparts hnil
      rw [List.append_nil] at hinner
      rw [text, List.append_assoc, Text.infix_append_iff_of_lacks hword.nonempty hmedia,
        List.append_assoc, List.append_assoc, List.cons_append,
        Text.infix_append_cons_iff hword.opening, List.singleton_append,
        Text.infix_append_cons_iff hword.close]
      rintro (hin | hin | hin)
      · exact hquery hin
      · exact hinner hin
      · exact ih hitems hin

/-- An item that is read as it is written. -/
inductive Sound : Item → Prop where
  | plain {part} : part.Sound → Sound (plain part)
  | media {query parts} : '{' ∉ query → ¬ mediaWord <:+: query → (∀ part ∈ parts, part.Sound) →
      Sound (media query parts)

/-- The parts in front of the first media rule. -/
def leading : List Item → List Part
  | [] => []
  | plain part :: items => part :: leading items
  | media _ _ :: _ => []

/-- The media rules, each with the parts up to the next. -/
def groups : List Item → List MediaPart
  | [] => []
  | plain _ :: items => groups items
  | media query parts :: items =>
    ⟨query, Part.chunksFrom [] parts, Part.tailFrom [] parts,
      Part.chunksFrom [] (leading items), Part.tailFrom [] (leading items)⟩ :: groups items

/-- The outline of a layout. -/
def outline (items : List Item) : Outline :=
  ⟨Part.chunksFrom [] (leading items), Part.tailFrom [] (leading items), groups items⟩

/-- What stands in front of the first media rule are the leading parts. -/
lemma firstText_outline (items : List Item) :
    (outline items).firstText = Part.textAll (leading items) :=
  Part.text_chunksFrom [] (leading items)

/-- The outline of some items is their text again. -/
lemma text_outline (items : List Item) : (outline items).text = textAll items := by
  have hsplit : Part.textAll (leading items) ++
      ((groups items).map MediaPart.text).flatMap (mediaWord ++ ·) = textAll items := by
    induction items with
    | nil => rfl
    | cons item items ih =>
      rw [textAll, List.flatMap_cons, ← textAll, ← ih]
      cases item with
      | plain part => simp [leading, groups, Part.textAll, text]
      | media query parts =>
        have hbody := Part.text_chunksFrom [] parts
        have hafter := Part.text_chunksFrom [] (leading items)
        rw [List.nil_append] at hbody hafter
        rw [leading, groups, List.map_cons, List.flatMap_cons, MediaPart.text, MediaPart.body,
          Chunk.textAll_cons, Chunk.text, hbody, ← hafter, text]
        simp [Part.textAll]
  rw [Outline.text, firstText_outline, ← hsplit]
  rfl

variable {items : List Item}

/-- The parts in front of the first media rule are sound if the items are. -/
lemma sound_of_mem_leading (h : ∀ item ∈ items, item.Sound) :
    ∀ part ∈ leading items, part.Sound := by
  induction items with
  | nil => nofun
  | cons item items ih =>
    obtain ⟨hitem, hitems⟩ := List.forall_mem_cons.1 h
    cases hitem with
    | plain hpart => exact List.forall_mem_cons.2 ⟨hpart, ih hitems⟩
    | media _ _ _ => nofun

/-- The groups of sound items are shaped. -/
lemma shaped_of_mem_groups (h : ∀ item ∈ items, item.Sound) :
    ∀ part ∈ groups items, part.Shaped := by
  induction items with
  | nil => nofun
  | cons item items ih =>
    obtain ⟨hitem, hitems⟩ := List.forall_mem_cons.1 h
    cases hitem with
    | plain _ => exact ih hitems
    | media hquery hword hparts =>
      have hclose := Part.clear_tailFrom .nil hparts
      have hafter := sound_of_mem_leading hitems
      have htail := Part.clear_tailFrom .nil hafter
      refine List.forall_mem_cons.2 ⟨?_, ih hitems⟩
      exact {
        query := hquery
        queryWord := hword
        rules := Part.sound_of_mem_chunksFrom .nil hparts
        close := hclose.noBrace
        closeWord := hclose.noMedia
        after := Part.sound_of_mem_chunksFrom .nil hafter
        tail := htail.noBrace.2
        tailWord := htail.noMedia }

/-- The outline of sound items is shaped. -/
lemma shaped_outline (h : ∀ item ∈ items, item.Sound) : (outline items).Shaped := by
  have hleading := sound_of_mem_leading h
  have htail := Part.clear_tailFrom .nil hleading
  exact {
    first := Part.sound_of_mem_chunksFrom .nil hleading
    tail := htail.noBrace.2
    tailWord := htail.noMedia
    media := shaped_of_mem_groups h }

/-- The outline of sound items says what the items say. -/
lemma contents_outline (h : ∀ item ∈ items, item.Sound) :
    (outline items).contents = items.flatMap contents := by
  rw [Outline.contents]
  show Chunk.contents .topLevel (Part.chunksFrom [] (leading items)) ++
    (groups items).flatMap MediaPart.contents = _
  rw [Part.contents_chunksFrom .topLevel .nil (sound_of_mem_leading h)]
  induction items with
  | nil => rfl
  | cons item items ih =>
    obtain ⟨hitem, hitems⟩ := List.forall_mem_cons.1 h
    rw [List.flatMap_cons, ← ih hitems]
    cases hitem with
    | plain _ => simp [leading, groups, contents]
    | media _ _ hparts =>
      rw [leading, groups, List.flatMap_cons, MediaPart.contents,
        Part.contents_chunksFrom _ .nil hparts,
        Part.contents_chunksFrom _ .nil (sound_of_mem_leading hitems), contents]
      simp

/-- The rules of sound items stay where they are if each plain one has a selector list. -/
lemma placed_outline (h : ∀ item ∈ items, item.Sound)
    (hheaded : ∀ p, plain p ∈ items → p.Headed) : (outline items).Placed := by
  have hleading {items : List Item} (hitems : ∀ p, plain p ∈ items → p.Headed) :
      ∀ p ∈ leading items, p.Headed := by
    induction items with
    | nil => nofun
    | cons item items ih =>
      cases item with
      | plain p =>
        refine List.forall_mem_cons.2 ⟨hitems p List.mem_cons_self, ih ?_⟩
        intro q hq
        exact hitems q (List.mem_cons_of_mem _ hq)
      | media _ _ => nofun
  constructor
  · intro chunk hchunk
    exact Part.opensWithBrace_of_headed .nil (sound_of_mem_leading h) (hleading hheaded) chunk
      (List.mem_of_mem_head? hchunk)
  · show ∀ part ∈ groups items, part.Placed
    induction items with
    | nil => nofun
    | cons item items ih =>
      obtain ⟨hitem, hitems⟩ := List.forall_mem_cons.1 h
      have hrest : ∀ p, plain p ∈ items → p.Headed := fun p hp =>
        hheaded p (List.mem_cons_of_mem _ hp)
      cases hitem with
      | plain _ => exact ih hitems hrest
      | media _ _ _ =>
        refine List.forall_mem_cons.2 ⟨?_, ih hitems hrest⟩
        exact Part.opensWithBrace_of_headed .nil (sound_of_mem_leading hitems) (hleading hrest)

/-- Parts in front of items are the first of the leading parts. -/
lemma leading_append (parts : List Part) (items : List Item) :
    leading (parts.map plain ++ items) = parts ++ leading items := by
  induction parts with
  | nil => rfl
  | cons part parts ih => rw [List.map_cons, List.cons_append, leading, ih, List.cons_append]

/-- Parts in front of items belong to none of their groups. -/
lemma groups_append (parts : List Part) (items : List Item) :
    groups (parts.map plain ++ items) = groups items := by
  induction parts with
  | nil => rfl
  | cons part parts ih => rw [List.map_cons, List.cons_append, groups, ih]

/-- A group comes from a media rule and has its rules. -/
lemma exists_of_mem_groups {part : MediaPart} (hmem : part ∈ groups items) :
    ∃ query parts, media query parts ∈ items ∧ part.rules = Part.chunksFrom [] parts := by
  induction items with
  | nil => cases hmem
  | cons item items ih =>
    cases item with
    | plain _ =>
      obtain ⟨query, parts, hin, heq⟩ := ih hmem
      exact ⟨query, parts, List.mem_cons_of_mem _ hin, heq⟩
    | media query parts =>
      rcases List.mem_cons.1 hmem with rfl | hmem
      · exact ⟨query, parts, List.mem_cons_self, rfl⟩
      · obtain ⟨query, parts, hin, heq⟩ := ih hmem
        exact ⟨query, parts, List.mem_cons_of_mem _ hin, heq⟩

/-- Between blank gaps, a chunk that does not begin with a brace is a rule with a selector list. -/
lemma headed_of_placed (h : ∀ item ∈ items, item.Sound)
    (hblank : ∀ text, plain (.gap text) ∈ items → Text.AllBlank text) {gap : Text}
    (hgap : Text.AllBlank gap)
    (hleading : ∀ chunk ∈ Part.chunksFrom gap (leading items), opensWithBrace id chunk.text = false)
    (hgroups : ∀ part ∈ groups items, part.Placed) : ∀ p, plain p ∈ items → p.Headed := by
  induction items generalizing gap with
  | nil => nofun
  | cons item items ih =>
    obtain ⟨hitem, hitems⟩ := List.forall_mem_cons.1 h
    have hrest : ∀ text, plain (.gap text) ∈ items → Text.AllBlank text := fun text hin =>
      hblank text (List.mem_cons_of_mem _ hin)
    intro p hp
    cases item with
    | media query parts =>
      obtain ⟨hfirst, hothers⟩ := List.forall_mem_cons.1 hgroups
      refine ih hitems hrest Text.allBlank_nil hfirst hothers p ?_
      simpa using hp
    | plain part =>
      cases part with
      | gap text =>
        -- the gap grows up to the next rule
        have hboth := Text.allBlank_append.2 ⟨hgap, hblank text List.mem_cons_self⟩
        rcases List.mem_cons.1 hp with heq | hp
        · obtain rfl := plain.inj heq
          trivial
        · exact ih hitems hrest hboth hleading hgroups p hp
      | rule head declarations closing =>
        obtain ⟨hchunk, hothers⟩ := List.forall_mem_cons.1 hleading
        rcases List.mem_cons.1 hp with heq | hp
        · obtain rfl := plain.inj heq
          cases hitem with
          | plain hrule =>
            intro hhead
            have hopens := (Part.sound_chunk (.blanks hgap) hrule).opensWithBrace_iff.2
              (Text.allBlank_append.2 ⟨hgap, hhead⟩)
            rw [hchunk] at hopens
            cases hopens
        · exact ih hitems hrest Text.allBlank_nil hothers hgroups p hp

/-- The items of a layout are read as they are written, in order. -/
theorem sheetContents_textAll (h : ∀ item ∈ items, item.Sound)
    (hplaced : (outline items).Placed) :
    sheetContents (textAll items) = items.flatMap contents := by
  rw [← text_outline, (shaped_outline h).sheetContents_text hplaced, contents_outline h]

/-- Nothing is warned about in a layout. -/
theorem notices_textAll (h : ∀ item ∈ items, item.Sound) :
    (plainPieces (textAll items)).tail.flatMap mediaNotices = [] := by
  rw [← text_outline]
  exact (shaped_outline h).notices_text

end Item

end CssPrune.Css
