import CssPrune.Proofs.Concatenation
import CssPrune.Proofs.PrintedBalance
import CssPrune.Proofs.Respacing

/-!
# Formatting

Nothing that is stored or printed of a stylesheet depends on its formatting. No scanner tells
respaced texts apart: taking out comments, cutting at `@media`, walking over braces and looking for
rules leave respaced texts of respaced ones, and the texts of a rule are collapsed at the end
(`sheetContents_congr`). Each scanner is followed along the derivation that two texts are respaced,
a character or a gap at a time. Blanks at the ends of a text are dealt with apart
(`sheetContents_allBlank_append`, `sheetContents_append_allBlank`).
-/

namespace CssPrune

open Text (Respaced IsGap AllBlank NoBlank isBlank)

namespace Css

variable {first second : Text}

/-! ## Comments -/

/-- Blanks in front of a text do not change where a comment ends. -/
lemma afterComment?_allBlank_append {blanks : Text} (h : AllBlank blanks) (text : Text) :
    afterComment? id (blanks ++ text) = afterComment? id text := by
  induction blanks with
  | nil => rfl
  | cons c blanks ih =>
    obtain ⟨hc, hrest⟩ := Text.allBlank_cons.1 h
    have hstar : ¬ (c = '*' ∧ (blanks ++ text).head? = some '/') := by
      rintro ⟨rfl, -⟩
      cases hc
    rw [List.cons_append, afterComment?_cons hstar, ih hrest]

/-- The ends of comments are found alike. -/
lemma afterComment?_respaced (h : Respaced first second) :
    Option.Rel Respaced (afterComment? id first) (afterComment? id second) := by
  induction h with
  | nil => exact .none
  | @char c first second hc hrest ih =>
    have hslash : isBlank '/' = false := by decide
    by_cases hmark : c = '*' ∧ first.head? = some '/'
    · obtain ⟨rfl, hhead⟩ := hmark
      obtain ⟨behind, rfl⟩ := List.head?_eq_some_iff.1 hhead
      obtain ⟨others, rfl, hbehind⟩ := hrest.exists_cons hslash
      exact .some hbehind
    · rw [afterComment?_cons hmark, afterComment?_cons]
      · exact ih
      · rwa [← hrest.head?_eq_some_iff hslash]
  | gap hblanks hothers _ ih =>
    rwa [afterComment?_allBlank_append hblanks.2, afterComment?_allBlank_append hothers.2]

/-- Blanks in front of a text stay there without the comments. -/
lemma withoutComments_allBlank_append {blanks : Text} (h : AllBlank blanks) (text : Text) :
    withoutComments (blanks ++ text) = blanks ++ withoutComments text := by
  induction blanks with
  | nil => rfl
  | cons c blanks ih =>
    obtain ⟨hc, hrest⟩ := Text.allBlank_cons.1 h
    have hslash : ¬ (c = '/' ∧ (blanks ++ text).head? = some '*') := by
      rintro ⟨rfl, -⟩
      cases hc
    rw [List.cons_append, withoutComments_cons hslash, ih hrest, List.cons_append]

/-- Blanks behind a text neither close nor open a comment. -/
lemma stripFrom_append_allBlank (kept text : Text) {blanks : Text} (h : AllBlank blanks) :
    (stripFrom id kept (text ++ blanks)).kept = (stripFrom id kept text).kept ++ blanks := by
  fun_induction stripFrom id kept text with
  | case1 kept a b rest hmark behind hbehind ih =>
    rw [List.cons_append, List.cons_append,
      stripFrom_closed kept hmark (afterComment?_append_right hbehind blanks), ih]
  | case2 kept a b rest hmark hnone =>
    have hopen : afterComment? id (rest ++ blanks) = none := by
      rwa [afterComment?_eq_none_iff, Text.infix_append_allBlank_iff (by decide) h,
        ← afterComment?_eq_none_iff]
    rw [List.cons_append, List.cons_append, stripFrom_unclosed kept hmark hopen]
    simp
  | case3 kept a b rest hmark ih =>
    rw [List.cons_append, List.cons_append, stripFrom_cons kept hmark]
    exact ih
  | case4 kept items hshort =>
    have hnone : ¬ commentMark <:+: items := by
      intro hin
      cases items with
      | nil => simp [commentMark] at hin
      | cons a items =>
        cases items with
        | nil => simpa [commentMark] using hin.length_le
        | cons b rest => exact hshort a b rest rfl
    rw [stripFrom_of_no_mark (not_mark_append_blanks hnone h), List.append_assoc]

/-- Blanks behind a text stay there without the comments. -/
lemma withoutComments_append_allBlank (text : Text) {blanks : Text} (h : AllBlank blanks) :
    withoutComments (text ++ blanks) = withoutComments text ++ blanks :=
  stripFrom_append_allBlank [] text h

/-- What is left of respaced texts without their comments is respaced. -/
theorem withoutComments_respaced (h : Respaced first second) :
    Respaced (withoutComments first) (withoutComments second) := by
  induction hn : first.length using Nat.strong_induction_on generalizing first second with
  | _ n ih =>
    cases h with
    | nil => exact .refl _
    | @char c first second hc hrest =>
      have hstar : isBlank '*' = false := by decide
      have hlength : first.length < n := by simp [← hn]
      by_cases hmark : c = '/' ∧ first.head? = some '*'
      · -- both texts open a comment here, and both close it or neither does
        obtain ⟨rfl, hhead⟩ := hmark
        obtain ⟨body, rfl⟩ := List.head?_eq_some_iff.1 hhead
        obtain ⟨other, rfl, hbody⟩ := hrest.exists_cons hstar
        have hends := afterComment?_respaced hbody
        cases hbehind : afterComment? id body with
        | none =>
          rw [hbehind] at hends
          cases hother : afterComment? id other with
          | some _ => rw [hother] at hends; cases hends
          | none =>
            rw [withoutComments, withoutComments, stripComments, stripComments,
              stripFrom_unclosed [] rfl hbehind, stripFrom_unclosed [] rfl hother]
            exact .char hc (.char hstar hbody)
        | some behind =>
          rw [hbehind] at hends
          cases hother : afterComment? id other with
          | none => rw [hother] at hends; cases hends
          | some others =>
            rw [hother] at hends
            obtain ⟨hbehinds⟩ := hends
            rw [withoutComments, withoutComments, stripComments, stripComments,
              stripFrom_closed [] rfl hbehind, stripFrom_closed [] rfl hother]
            have hshorter := length_le_of_afterComment? hbehind
            exact ih behind.length (by simp at hlength; omega) hbehinds rfl
      · rw [withoutComments_cons hmark, withoutComments_cons]
        · exact .char hc (ih first.length hlength hrest rfl)
        · rwa [← hrest.head?_eq_some_iff hstar]
    | @gap blanks others first second hblanks hothers hrest =>
      rw [withoutComments_allBlank_append hblanks.2, withoutComments_allBlank_append hothers.2]
      have hpos := List.length_pos_iff.2 hblanks.1
      exact .gap hblanks hothers (ih first.length (by simp at hn; omega) hrest rfl)

/-! ## Stretches between `@media` -/

/-- A text is cut at its first `@media`. -/
lemma plainPieces_append_word {front : Text} (h : ¬ mediaWord <:+: front) (rest : Text) :
    plainPieces (front ++ mediaWord ++ rest) = front :: plainPieces rest :=
  cutFrom_append_word h [] rest

/-- A text without `@media` is one piece. -/
lemma plainPieces_of_no_word {text : Text} (h : ¬ mediaWord <:+: text) :
    plainPieces text = [text] := by
  rw [plainPieces, mediaPieces, cutFrom_of_no_word h]
  rfl

/-- Respaced texts are cut alike at their `@media`. -/
lemma plainPieces_respaced (h : Respaced first second) :
    List.Forall₂ Respaced (plainPieces first) (plainPieces second) := by
  induction hn : first.length using Nat.strong_induction_on generalizing first second with
  | _ n ih =>
    rcases exists_first_media first with hno | ⟨front, rest, rfl, hfront⟩
    · have hnone := hno
      rw [h.infix_iff noBlank_mediaWord] at hnone
      rw [plainPieces_of_no_word hno, plainPieces_of_no_word hnone]
      exact .cons h .nil
    · obtain ⟨before, others, rfl, hbefore, hothers⟩ :=
        h.exists_append_word (by decide) noBlank_mediaWord
      have hnone := hfront
      rw [hbefore.infix_iff noBlank_mediaWord] at hnone
      rw [plainPieces_append_word hfront, plainPieces_append_word hnone]
      exact .cons hbefore (ih rest.length (by simp [mediaWord] at hn; omega) hothers rfl)

/-! ## Blocks -/

/-- A gap holds no brace. -/
lemma noBrace_gap {gap : Text} (h : IsGap gap) : NoBrace gap :=
  noBrace_of_allBlank h.2

/-- Respaced texts are cut into respaced blocks. -/
lemma blocksFrom_respaced (h : Respaced first second) {block other : Text}
    (hblock : Respaced block other) (depth : Int) :
    List.Forall₂ Respaced (blocksFrom id depth block [] first).blocks
        (blocksFrom id depth other [] second).blocks ∧
      Respaced (blocksFrom id depth block [] first).leftover
        (blocksFrom id depth other [] second).leftover := by
  induction h generalizing block other depth with
  | nil => exact ⟨.nil, hblock.reverse⟩
  | @char c first second hc hrest ih =>
    have hlonger := Respaced.char hc hblock
    by_cases hopen : c = '{'
    · subst hopen
      rw [blocksFrom_cons_open, blocksFrom_cons_open]
      exact ih hlonger (depth + 1)
    by_cases hclose : c = '}'
    · subst hclose
      by_cases hlast : depth = 1
      · subst hlast
        rw [blocksFrom_cons_last, blocksFrom_cons_last, blocksFrom_done, blocksFrom_done _ 0 [] [_]]
        obtain ⟨hblocks, hleft⟩ := ih .nil 0
        exact ⟨.cons hlonger.reverse hblocks, hleft⟩
      · rw [blocksFrom_cons_close _ _ _ hlast, blocksFrom_cons_close _ _ _ hlast]
        exact ih hlonger (depth - 1)
    · rw [blocksFrom_cons_char _ _ _ hopen hclose, blocksFrom_cons_char _ _ _ hopen hclose]
      exact ih hlonger depth
  | gap hblanks hothers _ ih =>
    rw [blocksFrom_noBrace _ _ (noBrace_gap hblanks), blocksFrom_noBrace _ _ (noBrace_gap hothers)]
    exact ih (.gap hblanks.reverse hothers.reverse hblock) depth

/-! ## Rules -/

/-- The texts of two rules are respaced. -/
structure RawRule.Respaced (first second : RawRule Char) : Prop where
  selector : Text.Respaced first.selector second.selector
  declarations : Text.Respaced first.declarations second.declarations

/-- Two states of the scan for rules hold respaced texts. -/
inductive RuleState.Respaced : RuleState Char → RuleState Char → Prop where
  | outside {run other} : Text.Respaced run other → Respaced (.outside run) (.outside other)
  | opening {selector other} (brace repeated) : Text.Respaced selector other →
    Respaced (.opening selector brace repeated) (.opening other brace repeated)
  | body {selector other declarations others} : Text.Respaced selector other →
    Text.Respaced declarations others →
    Respaced (.body selector declarations) (.body other others)

namespace RuleState

/-- The state behind a gap. -/
def behindGap (blanks : Text) : RuleState Char → RuleState Char
  | outside run => outside (blanks.reverse ++ run)
  | opening selector _ _ => body selector blanks.reverse
  | body selector declarations => body selector (blanks.reverse ++ declarations)

/-- Text without a closing brace is added to the declarations. -/
lemma rules_body_plain {text : Text} (h : '}' ∉ text) (selector declarations rest : Text) :
    (body selector declarations).rules id (text ++ rest) =
      (body selector (text.reverse ++ declarations)).rules id rest := by
  induction text generalizing declarations with
  | nil => rfl
  | cons c text ih =>
    obtain ⟨hc, htext⟩ := List.ne_and_not_mem_of_not_mem_cons h
    have hstep :
        (body selector declarations).step id c = (body selector (c :: declarations), none) :=
      if_neg hc.symm
    rw [List.cons_append, rules_cons, hstep, List.reverse_cons, List.append_assoc]
    exact ih htext (c :: declarations)

/-- A gap changes the state of the scan alone. -/
lemma rules_gap (state : RuleState Char) {blanks : Text} (h : IsGap blanks) (rest : Text) :
    state.rules id (blanks ++ rest) = (state.behindGap blanks).rules id rest := by
  have hplain : ∀ c ∈ blanks, IsPlain c := fun c hc => isPlain_of_isBlank (h.2 c hc)
  cases state with
  | outside run => exact rules_outside_append hplain run rest
  | opening selector brace repeated =>
    obtain ⟨c, blanks, rfl⟩ := List.exists_cons_of_ne_nil h.1
    obtain ⟨⟨hopen, hclose, -⟩, hrest⟩ := List.forall_mem_cons.1 hplain
    have hstep : (opening selector brace repeated).step id c = (body selector [c], none) := by
      simp [step, hopen, hclose]
    rw [List.cons_append, rules_cons, hstep, behindGap, List.reverse_cons]
    exact rules_body_plain (fun hmem => (hrest _ hmem).2.1 rfl) selector [c] rest
  | body selector declarations =>
    exact rules_body_plain (fun hmem => (hplain _ hmem).2.1 rfl) selector declarations rest

variable {state other : RuleState Char}

/-- States that are respaced are so behind gaps as well. -/
lemma Respaced.behindGap (h : state.Respaced other) {blanks others : Text} (hblanks : IsGap blanks)
    (hothers : IsGap others) : (state.behindGap blanks).Respaced (other.behindGap others) := by
  cases h with
  | outside hrun => exact .outside (.gap hblanks.reverse hothers.reverse hrun)
  | opening brace repeated hselector =>
    have hgap := Text.Respaced.gap hblanks.reverse hothers.reverse .nil
    rw [List.append_nil, List.append_nil] at hgap
    exact .body hselector hgap
  | body hselector hdeclarations =>
    exact .body hselector (.gap hblanks.reverse hothers.reverse hdeclarations)

/-- A character that is not blank is read alike. -/
lemma Respaced.step (h : state.Respaced other) {c : Char} (hc : isBlank c = false) :
    (state.step id c).1.Respaced (other.step id c).1 ∧
      Option.Rel RawRule.Respaced (state.step id c).2 (other.step id c).2 := by
  cases h with
  | @outside run others hrun =>
    cases run with
    | nil =>
      obtain rfl := hrun.eq_nil_iff.1 rfl
      simp only [RuleState.step, id]
      split
      · exact ⟨.outside .nil, .none⟩
      · exact ⟨.outside (.char hc .nil), .none⟩
    | cons b run =>
      cases others with
      | nil => cases hrun.eq_nil_iff.2 rfl
      | cons d others =>
        simp only [RuleState.step, id]
        split
        · exact ⟨.opening c false hrun.reverse, .none⟩
        · split
          · exact ⟨.outside .nil, .none⟩
          · exact ⟨.outside (.char hc hrun), .none⟩
  | opening brace repeated hselector =>
    simp only [RuleState.step, id]
    split
    · exact ⟨.opening c true hselector, .none⟩
    · split
      · refine ⟨.outside .nil, ?_⟩
        cases repeated with
        | false => exact .none
        | true => exact .some ⟨hselector, .refl [brace]⟩
      · exact ⟨.body hselector (.char hc .nil), .none⟩
  | body hselector hdeclarations =>
    simp only [RuleState.step, id]
    split
    · exact ⟨.outside .nil, .some ⟨hselector, hdeclarations.reverse⟩⟩
    · exact ⟨.body hselector (.char hc hdeclarations), .none⟩

/-- From respaced states on, respaced texts give respaced rules. -/
lemma Respaced.rules (hstate : state.Respaced other) (h : Text.Respaced first second) :
    List.Forall₂ RawRule.Respaced (state.rules id first) (other.rules id second) := by
  induction h generalizing state other with
  | nil => exact .nil
  | @char c first second hc _ ih =>
    obtain ⟨hnext, hrule⟩ := hstate.step hc
    rw [rules_cons, rules_cons]
    generalize state.step id c = taken at hnext hrule ⊢
    generalize other.step id c = takenOther at hnext hrule ⊢
    obtain ⟨next, rule⟩ := taken
    obtain ⟨nextOther, ruleOther⟩ := takenOther
    cases hrule with
    | none => exact ih hnext
    | some hrule => exact .cons hrule (ih hnext)
  | gap hblanks hothers _ ih =>
    rw [rules_gap state hblanks, rules_gap other hothers]
    exact ih (hstate.behindGap hblanks hothers)

end RuleState

/-- Respaced texts hold the same rules. -/
lemma ruleContents_respaced (scope : Scope) (h : Respaced first second) :
    ruleContents scope first = ruleContents scope second := by
  have hrules : List.Forall₂ RawRule.Respaced (rawRules id first) (rawRules id second) :=
    RuleState.Respaced.rules (.outside .nil) h
  rw [ruleContents, ruleContents, ← List.forall₂_eq_eq_eq, List.forall₂_map_left_iff,
    List.forall₂_map_right_iff]
  apply hrules.imp
  rintro rule other ⟨hselector, hdeclarations⟩
  rw [hselector.collapse_eq, hdeclarations.collapse_eq]

/-! ## Media rules -/

/-- Respaced texts open with a brace alike. -/
lemma opensWithBrace_respaced (h : Respaced first second) :
    opensWithBrace id first = opensWithBrace id second := by
  rw [Bool.eq_iff_iff, ← not_iff_not, Bool.not_eq_true, Bool.not_eq_true,
    opensWithBrace_eq_false_iff, opensWithBrace_eq_false_iff, Ne, Ne,
    h.trim.head?_eq_some_iff (by decide)]

/-- What ends in the last occurrence of a character is respaced alike. -/
lemma throughLast_respaced {c : Char} (hc : isBlank c = false) (h : Respaced first second) :
    Respaced (throughLast id c first) (throughLast id c second) := by
  have hblank : ∀ a, isBlank a = true → (id a != c) = true := fun _ => Text.bne_of_isBlank hc
  exact (h.reverse.dropWhile hblank).reverse

/-- What stands in front of a character and behind it is respaced alike. -/
lemma cutBefore_respaced {c : Char} (hc : isBlank c = false) (h : Respaced first second) :
    Respaced (cutBefore id c first).1 (cutBefore id c second).1 ∧
      Respaced (cutBefore id c first).2 (cutBefore id c second).2 := by
  have hblank : ∀ a, isBlank a = true → (id a != c) = true := fun _ => Text.bne_of_isBlank hc
  rw [cutBefore, cutBefore, List.span_eq_takeWhile_dropWhile, List.span_eq_takeWhile_dropWhile]
  exact ⟨h.takeWhile hblank, h.dropWhile hblank⟩

/-- Respaced blocks say the same. -/
lemma blockContents_respaced (query : Text) {blocks others : List Text}
    (h : List.Forall₂ Respaced blocks others) :
    blockContents query blocks = blockContents query others := by
  have hfilter {p : Text → Bool} (hp : ∀ first second, Respaced first second → p first = p second)
      (scope : Scope) : (blocks.filter p).map (ruleContents scope) =
        (others.filter p).map (ruleContents scope) := by
    have hkept := List.rel_filter (p := p) (q := p)
      (fun first second h => iff_of_eq (congrArg (· = true) (hp first second h))) h
    rw [← List.forall₂_eq_eq_eq, List.forall₂_map_left_iff, List.forall₂_map_right_iff]
    exact hkept.imp fun _ _ => ruleContents_respaced scope
  have hopens {first second : Text} (h : Respaced first second) := opensWithBrace_respaced h
  have hbody := hfilter (fun _ _ => hopens) (.media query)
  have htrailing := hfilter (fun _ _ h => congrArg (!·) (hopens h)) .topLevel
  rw [blockContents, blockContents, mediaBody?, mediaBody?, ← List.getLast?_map,
    ← List.getLast?_map, hbody, trailingBlocks, trailingBlocks, List.flatMap_def, List.flatMap_def,
    htrailing]

/-- Respaced pieces say the same behind their `@media`. -/
lemma mediaContents_respaced (h : Respaced first second) :
    mediaContents first = mediaContents second := by
  obtain ⟨hquery, hblock⟩ := cutBefore_respaced (c := '{') (by decide) h.trim
  have hblocks := blocksFrom_respaced (throughLast_respaced (c := '}') (by decide) hblock) .nil 0
  rw [mediaContents, mediaContents, mediaParts, mediaParts, hquery.collapse_eq]
  exact blockContents_respaced _ hblocks.1

/-- Respaced texts say the same. -/
theorem sheetContents_respaced (h : Respaced first second) :
    sheetContents first = sheetContents second := by
  have hpieces := plainPieces_respaced h
  rw [sheetContents, sheetContents]
  generalize plainPieces first = pieces at hpieces ⊢
  generalize plainPieces second = others at hpieces ⊢
  cases hpieces with
  | nil => rfl
  | cons hfirst hothers =>
    rw [piecesContents, piecesContents, ruleContents_respaced _ hfirst.trim]
    congr 1
    rw [List.flatMap_def, List.flatMap_def]
    congr 1
    rw [← List.forall₂_eq_eq_eq, List.forall₂_map_left_iff, List.forall₂_map_right_iff]
    exact hothers.imp fun _ _ => mediaContents_respaced

/-! ## The ends of a text -/

/-- Blanks in front of a text say nothing. -/
lemma sheetContents_allBlank_append {blanks : Text} (h : AllBlank blanks) (text : Text) :
    sheetContents (blanks ++ text) = sheetContents text := by
  obtain ⟨first, others, rfl, hpieces⟩ := exists_pieces text
  have hlonger : Pieces (blanks ++ first) others := by
    refine ⟨?_, hpieces.others⟩
    rw [Text.infix_allBlank_append_iff noBlank_mediaWord (by decide) h]
    exact hpieces.first
  have hjoin : blanks ++ joinPieces first others = joinPieces (blanks ++ first) others :=
    (List.append_assoc _ _ _).symm
  rw [hjoin, hlonger.sheetContents_eq, hpieces.sheetContents_eq, Text.trim_allBlank_append h]

/-- Blanks behind a text say nothing. -/
lemma sheetContents_append_allBlank (text : Text) {blanks : Text} (h : AllBlank blanks) :
    sheetContents (text ++ blanks) = sheetContents text := by
  obtain ⟨first, others, rfl, hpieces⟩ := exists_pieces text
  have hword {piece : Text} (hpiece : ¬ mediaWord <:+: piece) :
      ¬ mediaWord <:+: piece ++ blanks := by
    rwa [Text.infix_append_allBlank_iff noBlank_mediaWord h]
  rcases List.eq_nil_or_concat' others with rfl | ⟨before, last, rfl⟩
  · have hlonger : Pieces (first ++ blanks) [] := ⟨hword hpieces.first, nofun⟩
    have hjoin : joinPieces first [] ++ blanks = joinPieces (first ++ blanks) [] := by
      simp [joinPieces]
    rw [hjoin, hlonger.sheetContents_eq, hpieces.sheetContents_eq, Text.trim_append_allBlank _ h]
  · -- the blanks make the last stretch longer, which is trimmed before it is read
    have hlast := hpieces.others last (by simp)
    have hlonger : Pieces first (before ++ [last ++ blanks]) := by
      refine ⟨hpieces.first, List.forall_mem_append.2 ⟨fun piece hpiece => ?_, ?_⟩⟩
      · exact hpieces.others piece (List.mem_append_left _ hpiece)
      · exact List.forall_mem_singleton.2 (hword hlast)
    have hjoin : joinPieces first (before ++ [last]) ++ blanks =
        joinPieces first (before ++ [last ++ blanks]) := by
      simp [joinPieces]
    have hmedia : mediaContents (last ++ blanks) = mediaContents last := by
      rw [mediaContents, mediaContents, mediaBlocks, mediaBlocks, mediaParts, mediaParts,
        Text.trim_append_allBlank _ h]
    rw [hjoin, hlonger.sheetContents_eq, hpieces.sheetContents_eq, List.flatMap_append,
      List.flatMap_append, List.flatMap_singleton, List.flatMap_singleton, hmedia]

/-! ## Texts -/

/-- The blanks of a collapsed text end no line. -/
lemma unifyLineEnds_collapse (text : Text) :
    unifyLineEnds (Text.collapse text) = Text.collapse text := by
  apply unifyLineEnds_eq_self
  intro c hc
  constructor
  · rintro rfl
    cases Text.eq_space_of_mem_collapse hc (by decide)
  · rintro rfl
    cases Text.eq_space_of_mem_collapse hc (by decide)

/-- A text says what its words say with a single space between neighbours. -/
theorem textContents_collapse (text : Text) :
    textContents (Text.collapse text) = textContents text := by
  obtain ⟨back, hback, hrespaced⟩ := Text.exists_respaced_collapse (unifyLineEnds text)
  rw [collapse_unifyLineEnds] at hrespaced
  generalize hfront : (if (unifyLineEnds text).head?.any isBlank then [' '] else []) = front
    at hrespaced
  have hblank : AllBlank front := by
    subst hfront
    split <;> decide
  have hsame := sheetContents_respaced (withoutComments_respaced hrespaced)
  rw [withoutComments_append_allBlank _ hback, withoutComments_allBlank_append hblank,
    sheetContents_append_allBlank _ hback, sheetContents_allBlank_append hblank] at hsame
  rw [textContents, textContents, unifyLineEnds_collapse, hsame]

end Css

/-! ## Line ends -/

/-- The ways to end a line. -/
inductive LineEnd where
  | lineFeed
  | carriageReturn
  | pair
  | formFeed
  deriving DecidableEq, Repr

namespace LineEnd

/-- The characters that end a line. -/
def text : LineEnd → Text
  | lineFeed => ['\n']
  | carriageReturn => ['\r']
  | pair => ['\r', '\n']
  | formFeed => ['\x0c']

/-- A text with all its lines ended in one way. -/
def rewrite (lineEnd : LineEnd) (text : Text) : Text :=
  (Css.unifyLineEnds text).flatMap fun c => if c = '\n' then lineEnd.text else [c]

/-- A line end is a gap. -/
lemma isGap_text (lineEnd : LineEnd) : IsGap lineEnd.text := by
  cases lineEnd <;> exact ⟨List.cons_ne_nil _ _, by decide⟩

/-- A text with other line ends is respaced. -/
lemma respaced_flatMap (lineEnd : LineEnd) (text : Text) :
    Respaced (text.flatMap fun c => if c = '\n' then lineEnd.text else [c]) text := by
  induction text with
  | nil => exact .nil
  | cons c text ih =>
    rw [List.flatMap_cons]
    split
    · rename_i hc
      subst hc
      exact .gap lineEnd.isGap_text (Text.isGap_singleton (by decide)) ih
    · exact (Respaced.refl [c]).append ih

/-- A text with other line ends has the same words. -/
lemma collapse_rewrite (lineEnd : LineEnd) (text : Text) :
    Text.collapse (lineEnd.rewrite text) = Text.collapse text := by
  rw [rewrite, (lineEnd.respaced_flatMap _).collapse_eq, Css.collapse_unifyLineEnds]

end LineEnd

open Css

/-! ## Outputs -/

/-- What is printed of a stylesheet depends on its listing alone. -/
lemma Output.ofSheet_congr (settings : Settings) (name : String) {sheet other : Stylesheet}
    (h : sheet.listing = other.listing) :
    ofSheet settings name sheet = ofSheet settings name other := by
  rw [ofSheet, ofSheet, textOf, textOf, sheetText_eq, sheetText_eq, h]

/-- Texts that say the same leave the same outputs. -/
lemma result_prune_map (html : List Text) {css : List (String × Text)} (settings : Settings)
    {f : String → Text → Text} (h : ∀ name text, textContents (f name text) = textContents text) :
    (prune html (css.map fun (name, text) => (name, f name text)) settings).result =
      (prune html css settings).result := by
  have hnames : (css.map fun (name, text) => (name, f name text)).map (·.1) = css.map (·.1) := by
    simp [Function.comp_def]
  have hcontents (name : String) :
      contentsOf name (css.map fun (name, text) => (name, f name text)) = contentsOf name css := by
    rw [contentsOf, contentsOf, List.filter_map, List.flatMap_map]
    exact List.flatMap_congr fun named _ => h named.1 named.2
  rw [result_prune_eq, result_prune_eq, hnames]
  apply List.map_congr_left
  intro name _
  apply Output.ofSheet_congr
  rw [listing_keptOf, listing_keptOf, hcontents]

/-- The formatting of a stylesheet shows nowhere in what is stored of it: each run of blanks may be
one space, and those at the ends may be missing. So it shows in no output, and neither does the way
in which its lines end. -/
theorem prune_reformatted :
    (∀ (session : Session) (name : String) (css : Text),
      (session.addSheet name (Text.collapse css)).sheets.listings =
        (session.addSheet name css).sheets.listings) ∧
    ∀ (html : List Text) (css : List (String × Text)) (settings : Settings),
      (prune html (css.map fun (name, text) => (name, Text.collapse text)) settings).result =
          (prune html css settings).result ∧
        ∀ lineEnds : String → LineEnd,
          (prune html (css.map fun (name, text) => (name, (lineEnds name).rewrite text))
              settings).result =
            (prune html css settings).result := by
  constructor
  · intro session name css
    rw [Session.listings_addSheet, Session.listings_addSheet, textContents_collapse]
  · intro html css settings
    constructor
    · apply result_prune_map html settings (f := fun _ => Text.collapse)
      exact fun _ => textContents_collapse
    · intro lineEnds
      apply result_prune_map html settings (f := fun name => (lineEnds name).rewrite)
      intro name text
      -- both texts are the same once they are collapsed
      rw [← textContents_collapse, LineEnd.collapse_rewrite, textContents_collapse]

end CssPrune
