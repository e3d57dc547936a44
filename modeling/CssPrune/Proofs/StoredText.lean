import CssPrune.Proofs.MediaScan

/-!
# The texts that are stored

What every rule of a stylesheet looks like, however malformed the stylesheet is: its texts are
collapsed and hold no `@media`, its selector list no brace and no semicolon, its declarations no
closing brace, and the query of its scope no opening brace (`wellFormed_of_mem_sheetContents`).

The scan for rules only ever holds stretches of what it has read (`RuleState.Holds`), so its rules
are stretches of the text; so are the blocks and the query of a media part, and the parts between
two `@media` hold none.
-/

namespace CssPrune

open Css

/-- A text that can stand as a selector list. -/
structure IsSelectorText (text : Text) : Prop where
  collapsed : Text.collapse text = text
  plain : ∀ c ∈ text, IsPlain c
  noMedia : ¬ mediaWord <:+: text

/-- A text that can stand as the declarations of a rule. -/
structure IsDeclarationText (text : Text) : Prop where
  collapsed : Text.collapse text = text
  noClose : '}' ∉ text
  noMedia : ¬ mediaWord <:+: text

/-- A text that can stand as a media query. -/
structure IsQueryText (text : Text) : Prop where
  collapsed : Text.collapse text = text
  noOpen : '{' ∉ text
  noMedia : ¬ mediaWord <:+: text

/-- The query of a scope, if it has one, can stand as a query. -/
def Scope.WellFormed : Scope → Prop
  | .topLevel => True
  | .media query => IsQueryText query

/-- A rule whose texts can stand where they stand. -/
structure Content.WellFormed (content : Content) : Prop where
  scope : content.scope.WellFormed
  selector : IsSelectorText content.selector
  declarations : IsDeclarationText content.declarations

namespace Css

/-! ## What the scan for rules holds -/

/-- The texts of a rule are stretches of what was read. -/
structure RawRule.TakenFrom (text : Text) (rule : RawRule Char) : Prop where
  plain : ∀ c ∈ rule.selector, IsPlain c
  noClose : '}' ∉ rule.declarations
  selector : rule.selector <:+: text
  declarations : rule.declarations <:+: text

/-- What a state holds is taken from what was read, and a text that still grows ends it. -/
def RuleState.Holds (text : Text) : RuleState Char → Prop
  | outside run => (∀ c ∈ run, IsPlain c) ∧ run.reverse <:+ text
  | opening selector brace _ =>
    (∀ c ∈ selector, IsPlain c) ∧ selector <:+: text ∧ brace = '{' ∧ [brace] <:+: text
  | body selector declarations =>
    (∀ c ∈ selector, IsPlain c) ∧ selector <:+: text ∧ '}' ∉ declarations ∧
      declarations.reverse <:+ text

/-- What is taken from a text is taken from a longer one. -/
lemma RawRule.TakenFrom.mono {rule : RawRule Char} {text : Text} (h : rule.TakenFrom text)
    (back : Text) : rule.TakenFrom (text ++ back) where
  plain := h.plain
  noClose := h.noClose
  selector := h.selector.trans (List.prefix_append _ _).isInfix
  declarations := h.declarations.trans (List.prefix_append _ _).isInfix

namespace RuleState.Holds

variable {text : Text}

/-- A text that still grows takes the next character. -/
lemma extend {part : Text} (h : part.reverse <:+ text) (c : Char) :
    (c :: part).reverse <:+ text ++ [c] := by
  obtain ⟨front, hfront⟩ := h
  exact ⟨front, by simp [← hfront]⟩

/-- Nothing is held of a rule that has not begun. -/
lemma restart : (RuleState.outside []).Holds text :=
  ⟨nofun, List.nil_suffix⟩

/-- A character that was just read is a stretch of what was read. -/
lemma single (c : Char) : [c] <:+: text ++ [c] :=
  (List.suffix_append _ _).isInfix

/-- No rule is taken from a text. -/
lemma takenFrom_none : ∀ rule ∈ (none : Option (RawRule Char)), rule.TakenFrom text := nofun

/-- A stretch of what was read is one of what is read next. -/
lemma grow {part : Text} (h : part <:+: text) (c : Char) : part <:+: text ++ [c] :=
  h.trans (List.prefix_append _ _).isInfix

/-- Outside of rules, a step holds what is taken from the text. -/
lemma step_outside {run : Text} (h : (RuleState.outside run).Holds text) (c : Char) :
    ((RuleState.outside run).step id c).1.Holds (text ++ [c]) ∧
      ∀ rule ∈ ((RuleState.outside run).step id c).2, rule.TakenFrom (text ++ [c]) := by
  obtain ⟨hplain, hrun⟩ := h
  by_cases hopen : c = '{'
  · subst hopen
    cases run with
    | nil => exact ⟨restart, takenFrom_none⟩
    | cons b run =>
      refine ⟨⟨fun a ha => hplain a ?_, grow hrun.isInfix _, rfl, single _⟩, takenFrom_none⟩
      exact List.mem_reverse.1 ha
  · by_cases hend : c = '}' ∨ c = ';'
    · have hrestart : (RuleState.outside []).Holds (text ++ [c]) := restart
      cases run <;> simpa [RuleState.step, hopen, hend] using hrestart
    · rw [not_or] at hend
      have hc : IsPlain c := ⟨hopen, hend⟩
      rw [step_outside_plain hc]
      exact ⟨⟨List.forall_mem_cons.2 ⟨hc, hplain⟩, extend hrun c⟩, takenFrom_none⟩

/-- Behind an opening brace, a step holds what is taken from the text. -/
lemma step_opening {selector : Text} {brace : Char} {repeated : Bool}
    (h : (RuleState.opening selector brace repeated).Holds text) (c : Char) :
    ((RuleState.opening selector brace repeated).step id c).1.Holds (text ++ [c]) ∧
      ∀ rule ∈ ((RuleState.opening selector brace repeated).step id c).2,
        rule.TakenFrom (text ++ [c]) := by
  obtain ⟨hplain, hselector, rfl, hbrace⟩ := h
  by_cases hopen : c = '{'
  · subst hopen
    exact ⟨⟨hplain, grow hselector _, rfl, single _⟩, takenFrom_none⟩
  · by_cases hclose : c = '}'
    · subst hclose
      refine ⟨restart, fun rule hrule => ?_⟩
      cases repeated with
      | false => simp [RuleState.step] at hrule
      | true =>
        -- the last of several opening braces is the declarations
        obtain rfl : (⟨selector, ['{']⟩ : RawRule Char) = rule := by
          simpa [RuleState.step] using hrule
        exact ⟨hplain, by simp, grow hselector _, grow hbrace _⟩
    · have hnext : (RuleState.opening selector '{' repeated).step id c =
          (.body selector [c], none) := by simp [RuleState.step, hopen, hclose]
      rw [hnext]
      refine ⟨⟨hplain, grow hselector c, ?_, List.suffix_append _ _⟩, takenFrom_none⟩
      simpa using fun e : '}' = c => hclose e.symm

/-- Inside of a rule, a step holds and gives what is taken from the text. -/
lemma step_body {selector declarations : Text}
    (h : (RuleState.body selector declarations).Holds text) (c : Char) :
    ((RuleState.body selector declarations).step id c).1.Holds (text ++ [c]) ∧
      ∀ rule ∈ ((RuleState.body selector declarations).step id c).2,
        rule.TakenFrom (text ++ [c]) := by
  obtain ⟨hplain, hselector, hdeclarations, hsuffix⟩ := h
  by_cases hclose : c = '}'
  · subst hclose
    refine ⟨restart, fun rule hrule => ?_⟩
    obtain rfl : (⟨selector, declarations.reverse⟩ : RawRule Char) = rule := by
      simpa [RuleState.step] using hrule
    exact ⟨hplain, by simpa using hdeclarations, grow hselector _, grow hsuffix.isInfix _⟩
  · have hnext : (RuleState.body selector declarations).step id c =
        (.body selector (c :: declarations), none) := by simp [RuleState.step, hclose]
    rw [hnext]
    refine ⟨⟨hplain, grow hselector c, ?_, extend hsuffix c⟩, takenFrom_none⟩
    simpa [hdeclarations] using fun e : '}' = c => hclose e.symm

/-- One step holds, and completes, what is taken from the text with one more character. -/
lemma step {state : RuleState Char} (h : state.Holds text) (c : Char) :
    (state.step id c).1.Holds (text ++ [c]) ∧
      ∀ rule ∈ (state.step id c).2, rule.TakenFrom (text ++ [c]) := by
  cases state with
  | outside run => exact step_outside h c
  | opening selector brace repeated => exact step_opening h c
  | body selector declarations => exact step_body h c

end RuleState.Holds

/-- The rules from a state on are taken from what was read and what follows. -/
lemma RuleState.Holds.rules {state : RuleState Char} {done : Text} (h : state.Holds done)
    (text : Text) : ∀ rule ∈ state.rules id text, rule.TakenFrom (done ++ text) := by
  induction text generalizing state done with
  | nil => nofun
  | cons c rest ih =>
    obtain ⟨hnext, hrule⟩ := h.step c
    intro rule hmem
    rw [rules_cons, List.mem_append, Option.mem_toList] at hmem
    have hsplit : done ++ c :: rest = done ++ [c] ++ rest := by simp
    rw [hsplit]
    rcases hmem with hmem | hmem
    · exact (hrule rule hmem).mono rest
    · exact ih hnext rule hmem

/-- The rules of a text are taken from it. -/
lemma takenFrom_of_mem_rawRules {text : Text} {rule : RawRule Char}
    (h : rule ∈ rawRules id text) : rule.TakenFrom text := by
  have hstart : (RuleState.outside []).Holds [] := ⟨nofun, List.nil_suffix⟩
  exact hstart.rules text rule h

/-! ## Well formed rules -/

/-- A stretch of a text without `@media` brings none along once its blanks are collapsed. -/
lemma noMedia_collapse {part text : Text} (hpart : part <:+: text) (h : ¬ mediaWord <:+: text) :
    ¬ mediaWord <:+: Text.collapse part := by
  rw [Text.infix_collapse_iff noBlank_mediaWord]
  exact fun hin => h (hin.trans hpart)

/-- The rules of a text without `@media` are well formed. -/
lemma wellFormed_of_mem_ruleContents (scope : Scope) (hscope : scope.WellFormed) {text : Text}
    (h : ¬ mediaWord <:+: text) {content : Content} (hmem : content ∈ ruleContents scope text) :
    content.WellFormed := by
  obtain ⟨rule, hrule, rfl⟩ := List.mem_map.1 hmem
  have htaken := takenFrom_of_mem_rawRules hrule
  refine ⟨hscope, ⟨Text.collapse_collapse _, fun c hc => ?_, noMedia_collapse htaken.selector h⟩,
    ⟨Text.collapse_collapse _, ?_, noMedia_collapse htaken.declarations h⟩⟩
  · by_cases hblank : Text.isBlank c = true
    · exact isPlain_of_isBlank hblank
    · exact htaken.plain c ((Text.mem_collapse_iff (by simpa using hblank) _).1 hc)
  · rw [Text.mem_collapse_iff (by decide)]
    exact htaken.noClose

/-- The two parts of what follows an `@media` are the trimmed text. -/
lemma mediaParts_eq (piece : Text) :
    (mediaParts piece).1 ++ (mediaParts piece).2 = Text.trim piece := by
  rw [mediaParts, cutBefore, List.span_eq_takeWhile_dropWhile]
  exact List.takeWhile_append_dropWhile

/-- No opening brace belongs to a query. -/
lemma not_mem_mediaParts (piece : Text) : '{' ∉ (mediaParts piece).1 := by
  rw [mediaParts, cutBefore, List.span_eq_takeWhile_dropWhile]
  intro hmem
  have := List.mem_takeWhile_imp hmem
  simp at this

/-- The blocks behind an `@media` are stretches of the text there. -/
lemma infix_of_mem_mediaBlocks {piece block : Text} (h : block ∈ (mediaBlocks piece).blocks) :
    block <:+: piece := by
  have hstretch : block <:+: (mediaParts piece).2 :=
    (infix_of_mem_blocksOf h).trans (throughLast_isPrefix '}' _).isInfix
  exact hstretch.trans ((cutBefore_isSuffix id '{' _).isInfix.trans (Text.trim_isInfix piece))

/-- The query of a piece without `@media` can stand as such. -/
lemma isQueryText_mediaParts {piece : Text} (h : ¬ mediaWord <:+: piece) :
    IsQueryText (Text.collapse (mediaParts piece).1) := by
  have hname : (mediaParts piece).1 <:+: Text.trim piece :=
    mediaParts_eq piece ▸ (List.prefix_append _ _).isInfix
  refine ⟨Text.collapse_collapse _, ?_, noMedia_collapse (hname.trans (Text.trim_isInfix piece)) h⟩
  rw [Text.mem_collapse_iff (by decide)]
  exact not_mem_mediaParts piece

/-- The rules behind an `@media` are well formed. -/
lemma wellFormed_of_mem_mediaContents {piece : Text} (h : ¬ mediaWord <:+: piece)
    {content : Content} (hmem : content ∈ mediaContents piece) : content.WellFormed := by
  have hblock {block : Text} (hin : block ∈ (mediaBlocks piece).blocks) :
      ¬ mediaWord <:+: block := fun hword => h (hword.trans (infix_of_mem_mediaBlocks hin))
  rw [mediaContents, blockContents, List.mem_append] at hmem
  rcases hmem with hmem | hmem
  · cases hbody : mediaBody? id (mediaBlocks piece).blocks with
    | none => simp [hbody] at hmem
    | some body =>
      rw [hbody] at hmem
      exact wellFormed_of_mem_ruleContents (.media _) (isQueryText_mediaParts h)
        (hblock (mem_of_mediaBody? hbody)) hmem
  · obtain ⟨block, hin, hmem⟩ := List.mem_flatMap.1 hmem
    exact wellFormed_of_mem_ruleContents .topLevel trivial (hblock (List.mem_filter.1 hin).1) hmem

/-- A text is free of `@media`, or it goes on behind a first one. -/
lemma exists_first_media (text : Text) :
    ¬ mediaWord <:+: text ∨
      ∃ front rest, text = front ++ mediaWord ++ rest ∧ ¬ mediaWord <:+: front := by
  by_cases h : mediaWord <:+: text
  · right
    induction hn : text.length using Nat.strong_induction_on generalizing text with
    | _ n ih =>
      obtain ⟨front, rest, rfl⟩ := h
      by_cases hfront : mediaWord <:+: front
      · obtain ⟨first, back, heq, hfirst⟩ :=
          ih front.length (by simp [mediaWord] at hn; omega) front hfront rfl
        exact ⟨first, back ++ mediaWord ++ rest, by simp [heq], hfirst⟩
      · exact ⟨front, rest, rfl, hfront⟩
  · exact Or.inl h

/-- No stretch between two `@media` holds one. -/
lemma noMedia_of_mem_plainPieces {text piece : Text} (h : piece ∈ plainPieces text) :
    ¬ mediaWord <:+: piece := by
  induction hn : text.length using Nat.strong_induction_on generalizing text with
  | _ n ih =>
    rcases exists_first_media text with hno | ⟨front, rest, rfl, hfront⟩
    · rw [plainPieces, mediaPieces, cutFrom_of_no_word hno] at h
      obtain rfl : piece = text := by simpa using h
      exact hno
    · rw [plainPieces, mediaPieces, cutFrom_append_word hfront] at h
      rcases List.mem_cons.1 h with rfl | h
      · exact hfront
      · exact ih rest.length (by simp [mediaWord] at hn; omega) h rfl

/-- Every rule of a stylesheet is well formed. -/
theorem wellFormed_of_mem_sheetContents {text : Text} {content : Content}
    (h : content ∈ sheetContents text) : content.WellFormed := by
  have hpieces {piece : Text} (hmem : piece ∈ plainPieces text) : ¬ mediaWord <:+: piece :=
    noMedia_of_mem_plainPieces hmem
  rw [sheetContents] at h
  cases hsplit : plainPieces text with
  | nil => simp [hsplit, piecesContents] at h
  | cons first pieces =>
    rw [hsplit] at h hpieces
    rcases List.mem_append.1 h with h | h
    · have hfirst : ¬ mediaWord <:+: Text.trim first := fun hin =>
        hpieces List.mem_cons_self (hin.trans (Text.trim_isInfix first))
      exact wellFormed_of_mem_ruleContents .topLevel trivial hfirst h
    · obtain ⟨piece, hpiece, h⟩ := List.mem_flatMap.1 h
      exact wellFormed_of_mem_mediaContents (hpieces (List.mem_cons_of_mem _ hpiece)) h

end Css

end CssPrune
