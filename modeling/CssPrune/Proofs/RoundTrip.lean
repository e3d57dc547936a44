import CssPrune.Proofs.CommentScan
import CssPrune.Proofs.Printed

/-!
# Reading undoes printing

A printed stylesheet is read back as its scopes with rules, in order, each rule with its
declarations as one text, and without a warning (`Session.addSheet_sheetText`). The texts of the
stylesheet must hold no comment mark, and its selector lists must not be empty. Printing adds no
comment mark, for its blanks and braces stand between the texts, and no line end that reading
changes.
-/

namespace CssPrune

open Css

/-- A word stands in no text of a listing. -/
structure Listing.Lacks (listing : Listing) (word : Text) : Prop where
  query : ∀ query rules, (.media query, rules) ∈ listing → ¬ word <:+: query
  selector : ∀ group ∈ listing, ∀ rule ∈ group.2, ¬ word <:+: rule.1
  declarations : ∀ group ∈ listing, ∀ rule ∈ group.2, ∀ text ∈ rule.2, ¬ word <:+: text

namespace Css

/-! ## Line ends -/

/-- The blanks of a text are spaces and line feeds. -/
def Tidy (text : Text) : Prop :=
  ∀ c ∈ text, Text.isBlank c = true → c = ' ' ∨ c = '\n'

/-- Two texts are tidy together exactly if both are. -/
lemma tidy_append {first second : Text} :
    Tidy (first ++ second) ↔ Tidy first ∧ Tidy second := List.forall_mem_append

/-- A text whose blanks are collapsed is tidy. -/
lemma tidy_of_collapsed {text : Text} (h : Text.collapse text = text) : Tidy text := by
  intro c hmem hblank
  rw [← h] at hmem
  exact Or.inl (Text.eq_space_of_mem_collapse hmem hblank)

/-- An indentation is tidy. -/
lemma tidy_indentText (width : Nat) : Tidy (indentText width) := by
  intro c hmem _
  exact Or.inl (List.eq_of_mem_replicate hmem)

/-- A stretch of a tidy text is tidy. -/
lemma Tidy.infix {part text : Text} (h : Tidy text) (hpart : part <:+: text) : Tidy part := by
  intro c hmem
  exact h c (hpart.subset hmem)

/-- Printed declarations are tidy if they have their blanks collapsed. -/
lemma tidy_declarationsText {declarations : List Text}
    (h : ∀ text ∈ declarations, Text.collapse text = text) :
    Tidy (declarationsText declarations) := by
  have hjoined : Tidy (joined declarations) :=
    tidy_of_collapsed (Text.collapse_intercalate (by decide) h)
  have htrim := hjoined.infix (Text.trim_isInfix _)
  rw [declarationsText, ← joined, tidy_append]
  constructor
  · rcases endStatement_eq (Text.trim (joined declarations)) with heq | heq
    · rwa [heq]
    · rw [heq, tidy_append]
      exact ⟨htrim, by simp [Tidy]; decide⟩
  · intro c hmem hblank
    rw [List.eq_of_mem_replicate hmem] at hblank
    cases hblank

/-- A printed rule is tidy. -/
lemma tidy_ruleText (indent : Nat) {selector : Text} (hselector : IsSelectorText selector)
    {rule : Rule} (hrule : rule.WellFormed) : Tidy (ruleText indent selector rule) := by
  have hdeclarations := tidy_declarationsText fun text hmem =>
    (hrule.declarations text hmem).collapsed
  have hfirst : Tidy [' ', '{', '\n'] := by simp [Tidy]; decide
  have hlast : Tidy ['}', '\n'] := by simp [Tidy]; decide
  have hline : Tidy ['\n'] := by simp [Tidy]
  simp only [ruleText, tidy_append]
  exact ⟨⟨⟨⟨⟨⟨⟨tidy_indentText _, tidy_of_collapsed hselector.collapsed⟩, hfirst⟩,
    tidy_indentText _⟩, hdeclarations⟩, hline⟩, tidy_indentText _⟩, hlast⟩

/-- A printed scope is tidy. -/
lemma tidy_scopeText {scope : Scope} (hscope : scope.WellFormed) {rules : RuleSet}
    (hrules : rules.WellFormed) : Tidy (scopeText scope rules) := by
  have hset (indent : Nat) : Tidy (ruleSetText indent rules) := by
    intro c hmem
    obtain ⟨⟨selector, rule⟩, hin, hmem⟩ := List.mem_flatMap.1 hmem
    obtain ⟨hselector, hrule⟩ := hrules.entry _ _ hin
    exact tidy_ruleText indent hselector hrule c hmem
  have hfirst : Tidy [' ', '{', '\n'] := by simp [Tidy]; decide
  have hlast : Tidy ['}', '\n', '\n'] := by simp [Tidy]; decide
  unfold scopeText
  split
  · nofun
  · cases scope with
    | topLevel => exact hset 0
    | media query =>
      have hquery : IsQueryText query := hscope
      have hword : Tidy ['@', 'm', 'e', 'd', 'i', 'a', ' '] := by simp [Tidy]; decide
      simp only [Scope.text, tidy_append]
      exact ⟨⟨⟨⟨hword, tidy_of_collapsed hquery.collapsed⟩, hfirst⟩, hset _⟩, hlast⟩

/-- Reading changes no line end of a printed stylesheet. -/
lemma unifyLineEnds_sheetText {sheet : Stylesheet} (h : sheet.WellFormed) :
    unifyLineEnds (sheetText sheet) = sheetText sheet := by
  apply unifyLineEnds_eq_self
  intro c hmem
  obtain ⟨⟨scope, rules⟩, hin, hmem⟩ := List.mem_flatMap.1 hmem
  obtain ⟨hscope, hrules⟩ := h.entry _ _ hin
  have htidy := tidy_scopeText hscope hrules c hmem
  constructor <;> (rintro rfl; revert htidy; decide)

/-! ## Marks -/

/-- The opening mark of a comment is a mark. -/
lemma isMark_commentMark : IsMark commentMark where
  nonempty := List.cons_ne_nil _ _
  noBlank := noBlank_commentMark
  plain := by simp [commentMark, IsPlain]

/-- Printed rules lack a mark that selector lists and declarations lack. -/
lemma lacks_ruleParts {word : Text} (hword : IsMark word) (indent : Nat)
    {rules : List (Text × List Text)} (hselector : ∀ rule ∈ rules, ¬ word <:+: rule.1)
    (h : ∀ rule ∈ rules, ∀ text ∈ rule.2, ¬ word <:+: text) :
    ∀ part ∈ ruleParts indent rules, part.Lacks word := by
  intro part hpart
  obtain ⟨⟨selector, declarations⟩, hrule, hin⟩ := List.mem_flatMap.1 hpart
  rcases List.mem_cons.1 hin with rfl | hin
  · exact lacks_rulePart indent hword (hselector _ hrule) (h _ hrule)
  · obtain rfl := List.mem_singleton.1 hin
    exact allBlank_line 0

/-- Printing a listing makes no comment mark. -/
lemma noMark_textAll {listing : Listing} (h : listing.Lacks commentMark) :
    ¬ commentMark <:+: Item.textAll (listingItems listing) := by
  apply Item.not_infix_textAll isMark_commentMark (by simp [mediaWord, commentMark])
  intro item hitem
  have hparts (indent : Nat) {scope : Scope} {rules : List (Text × List Text)}
      (hmem : (scope, rules) ∈ listing) :=
    lacks_ruleParts isMark_commentMark indent (h.selector _ hmem) (h.declarations _ hmem)
  rcases mem_listingItems_cases hitem with
    ⟨rules, part, hmem, hpart, rfl⟩ | ⟨query, rules, hmem, -, rfl⟩ | rfl
  · exact hparts 0 hmem part hpart
  · have hquery := h.query query rules hmem
    refine ⟨?_, List.forall_mem_cons.2 ⟨allBlank_line 0, hparts indentWidth hmem⟩⟩
    rwa [Text.infix_concat_iff (by decide) (by decide),
      Text.infix_cons_iff (by decide) (by decide)]
  · exact Text.allBlank_cons.2 ⟨by decide, allBlank_line 0⟩

/-! ## Reading a printed stylesheet -/

/-- The head of a printed rule is blank exactly if the selector list is empty. -/
lemma allBlank_head_iff (indent : Nat) {selector : Text} (hselector : IsSelectorText selector) :
    Text.AllBlank (indentText indent ++ selector ++ [' ']) ↔ selector = [] := by
  have hblank : Text.AllBlank selector ↔ selector = [] := by
    rw [← Text.collapse_eq_nil_iff, hselector.collapsed]
  rw [Text.allBlank_append, Text.allBlank_append, hblank]
  simp [allBlank_indentText, Text.isBlank_space]

/-- A printed rule is headed exactly if its selector list is not empty. -/
lemma headed_rulePart_iff (indent : Nat) {selector : Text} (hselector : IsSelectorText selector)
    (declarations : List Text) :
    (rulePart indent selector declarations).Headed ↔ selector ≠ [] := by
  obtain ⟨body, closing, heq⟩ := exists_rulePart_eq indent selector declarations
  rw [heq, Part.Headed, allBlank_head_iff indent hselector]

/-- Printed rules at top level are headed if none of their selector lists is empty. -/
lemma headed_of_mem_listingItems {listing : Listing}
    (hselector : ∀ group ∈ listing, ∀ rule ∈ group.2, IsSelectorText rule.1)
    (hne : ∀ group ∈ listing, group.1 = .topLevel → ∀ rule ∈ group.2, rule.1 ≠ []) :
    ∀ part, Item.plain part ∈ listingItems listing → part.Headed := by
  intro part hpart
  rcases eq_of_mem_listingItems hpart with ⟨text, -, rfl⟩ | ⟨group, hmem, hscope, rule, hrule, rfl⟩
  · trivial
  · apply (headed_rulePart_iff 0 (hselector group hmem rule hrule) rule.2).2
    exact hne group hmem hscope rule hrule

/-- Without empty selector lists, no printed rule begins with a brace. -/
lemma placed_listingItems {listing : Listing} (h : listing.WellFormed)
    (hne : ∀ group ∈ listing, ∀ rule ∈ group.2, rule.1 ≠ []) :
    (Item.outline (listingItems listing)).Placed := by
  apply Item.placed_outline (sound_listingItems h)
  apply headed_of_mem_listingItems
  · intro group hmem
    exact h.selector _ _ hmem
  · intro group hmem _
    exact hne group hmem

/-- A settled listing is the grouping of what it says. -/
lemma gatherContents_settled {listing : Listing} (h : listing.WellFormed) :
    gatherContents listing.settled.contents = listing.settled := by
  apply gatherContents_contents
  · exact h.scopes_settled
  · intro scope rules hmem
    obtain ⟨others, hin, -, heq⟩ := Listing.mem_settled hmem
    have hkeys : rules.map (·.1) = others.map (·.1) := by
      rw [show rules = _ from heq]
      simp [Function.comp_def]
    rw [hkeys]
    exact h.selectors scope others hin
  · intro scope rules hmem
    obtain ⟨others, -, hne, heq⟩ := Listing.mem_settled hmem
    rw [show rules = _ from heq]
    simpa using hne
  · intro scope rules hmem rule hrule
    obtain ⟨others, -, -, heq⟩ := Listing.mem_settled hmem
    rw [show rules = _ from heq] at hrule
    obtain ⟨_, -, rfl⟩ := List.mem_map.1 hrule
    exact List.cons_ne_nil _ _

/-- A printed stylesheet without its comments is read as its scopes with rules. -/
lemma gatherContents_sheetText {sheet : Stylesheet} (h : sheet.WellFormed)
    (hplaced : (Item.outline (listingItems sheet.listing)).Placed) :
    gatherContents (sheetContents (sheetText sheet)) = sheet.listing.settled := by
  rw [sheetText_eq, Item.sheetContents_textAll (sound_listingItems h.listing) hplaced,
    contents_listingItems h.listing, gatherContents_settled h.listing]

/-- A printed stylesheet without an opening mark gives no notice. -/
lemma sheetNotices_sheetText {sheet : Stylesheet} (h : sheet.WellFormed)
    (hmark : sheet.listing.Lacks commentMark) : sheetNotices (sheetText sheet) = [] := by
  have hnone : ¬ commentMark <:+: sheetText sheet := by
    rw [sheetText_eq]
    exact noMark_textAll hmark
  rw [sheetNotices, withoutComments_of_no_mark hnone, stripComments_of_no_mark hnone,
    sheetText_eq, Item.notices_textAll (sound_listingItems h.listing)]
  rfl

end Css

/-- Adding a printed stylesheet of a run under a new name gives its scopes with rules back, and
logs nothing. -/
theorem Session.addSheet_sheetText (settings : Settings) (steps : List Step) {name : String}
    {sheet : Stylesheet} (hsheet : ((start settings).run steps).sheets.sheet? name = some sheet)
    (hselector : ∀ group ∈ sheet.listing, ∀ rule ∈ group.2, rule.1 ≠ [])
    (hmark : sheet.listing.Lacks commentMark) (session : Session) {fresh : String}
    (hfresh : session.sheets.sheet? fresh = none) :
    ((session.addSheet fresh (sheetText sheet)).sheets.sheet? fresh).map Stylesheet.listing =
        some sheet.listing.settled ∧
      (session.addSheet fresh (sheetText sheet)).log = session.log := by
  have hformed : sheet.WellFormed :=
    OrderedMap.Holds.get? (wellFormed_run (wellFormed_start settings) steps) hsheet
  have hlines := unifyLineEnds_sheetText hformed
  have hnone : ¬ commentMark <:+: sheetText sheet := by
    rw [sheetText_eq]
    exact noMark_textAll hmark
  constructor
  · have hempty : ∀ old, session.sheets.sheet? fresh = some old → old = .empty := by
      rw [hfresh]
      nofun
    rw [listing_addSheet hempty, hlines, withoutComments_of_no_mark hnone,
      gatherContents_sheetText hformed (placed_listingItems hformed.listing hselector)]
  · apply log_addSheet
    rw [hlines]
    exact sheetNotices_sheetText hformed hmark

/-- Declarations that leave a brace open, a selector list that comes again behind a media rule,
and a rule that is removed. -/
theorem Session.addSheet_sheetText_open_brace :
    let css := "b\x7bx\x7by\x7d @media p\x7bb\x7bz\x7d\x7d b\x7bw\x7d c\x7bd\x7d".toList
    ∃ sheet : Stylesheet,
      ((start { whitelist := ["b"] }).run [.sheet "a.css" css, .prune]).sheets.sheet? "a.css" =
        some sheet ∧
      (((start {}).addSheet "b.css" (sheetText sheet)).sheets.sheet? "b.css").map
          Stylesheet.listing =
        some [(.topLevel, [(['b'], ["x\x7by;w;".toList])]),
          (.media ['p'], [(['b'], ["z;".toList])])] ∧
      ((start {}).addSheet "b.css" (sheetText sheet)).log = [] := by
  intro css
  have hrun : (((start { whitelist := ["b"] }).run
      [.sheet "a.css" css, .prune]).sheets.sheet? "a.css").map Stylesheet.listing =
      some [(.topLevel, [(['b'], ["x\x7by".toList, ['w']])]),
        (.media ['p'], [(['b'], [['z']])])] := by
    decide +kernel
  obtain ⟨sheet, hsheet, hlisting⟩ := Option.map_eq_some_iff.1 hrun
  have hselector : ∀ group ∈ sheet.listing, ∀ rule ∈ group.2, rule.1 ≠ [] := by
    rw [hlisting]
    decide
  have hmark : sheet.listing.Lacks commentMark := by
    rw [hlisting]
    refine ⟨fun query rules hmem => ?_, by decide, by decide⟩
    obtain ⟨rfl, rfl⟩ : query = ['p'] ∧ rules = [(['b'], [['z']])] := by simpa using hmem
    decide
  have hfresh : (start {}).sheets.sheet? "b.css" = none := rfl
  have hback := addSheet_sheetText _ _ hsheet hselector hmark (start {}) hfresh
  rw [hlisting] at hback
  exact ⟨sheet, hsheet, hback⟩

end CssPrune
