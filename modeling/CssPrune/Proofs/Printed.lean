import CssPrune.Css.Printer
import CssPrune.Proofs.Layout
import CssPrune.Proofs.Runs

/-!
# Reading what was printed

A printed stylesheet is a layout (`sheetText_eq`): its rules are parts, with the blanks of the
printer as gaps, and its media rules are items. The declarations of a rule can leave braces open;
the printer closes them, so each rule is one well nested group again. Hence a printed stylesheet is
read as its scopes with rules, each rule with its joined declarations (`sheetContents_sheetText`).
-/

namespace CssPrune

open Css

/-! ## Listings that are printed -/

/-- A listing whose texts can stand where they stand, with distinct keys at each level. -/
structure Listing.WellFormed (listing : Listing) : Prop where
  scopes : (listing.map (·.1)).Nodup
  scope : ∀ scope rules, (scope, rules) ∈ listing → scope.WellFormed
  selectors : ∀ scope rules, (scope, rules) ∈ listing → (rules.map (·.1)).Nodup
  selector : ∀ scope rules, (scope, rules) ∈ listing → ∀ rule ∈ rules, IsSelectorText rule.1
  nonempty : ∀ scope rules, (scope, rules) ∈ listing → ∀ rule ∈ rules, rule.2 ≠ []
  declarations : ∀ scope rules, (scope, rules) ∈ listing → ∀ rule ∈ rules, ∀ text ∈ rule.2,
    IsDeclarationText text

/-- The listing of a well formed stylesheet is well formed. -/
lemma Stylesheet.WellFormed.listing {sheet : Stylesheet} (h : sheet.WellFormed) :
    sheet.listing.WellFormed := by
  have hentry {scope : Scope} {rules : List (Text × List Text)}
      (hmem : (scope, rules) ∈ sheet.listing) :
      scope.WellFormed ∧ ∃ set : RuleSet, set.WellFormed ∧ rules = RuleSet.listing set := by
    obtain ⟨⟨_, set⟩, hin, heq⟩ := List.mem_map.1 hmem
    obtain ⟨rfl, rfl⟩ := Prod.mk.inj heq
    obtain ⟨hscope, hset⟩ := h.entry _ _ hin
    exact ⟨hscope, set, hset, rfl⟩
  have hrule {scope : Scope} {rules : List (Text × List Text)}
      (hmem : (scope, rules) ∈ sheet.listing) {rule : Text × List Text} (hin : rule ∈ rules) :
      IsSelectorText rule.1 ∧ rule.2 ≠ [] ∧ ∀ text ∈ rule.2, IsDeclarationText text := by
    obtain ⟨-, set, hset, rfl⟩ := hentry hmem
    obtain ⟨⟨selector, value⟩, hvalue, rfl⟩ := List.mem_map.1 hin
    obtain ⟨hselector, hdeclarations⟩ := hset.entry _ _ hvalue
    exact ⟨hselector, hdeclarations.nonempty, hdeclarations.declarations⟩
  constructor
  · have hkeys : sheet.listing.map (·.1) = sheet.scopes.keys := by
      simp [Stylesheet.listing, OrderedMap.keys, Function.comp_def]
    rw [hkeys]
    exact h.nodup
  · intro scope rules hmem
    exact (hentry hmem).1
  · intro scope rules hmem
    obtain ⟨-, set, hset, rfl⟩ := hentry hmem
    have hkeys : (RuleSet.listing set).map (·.1) = set.keys := by
      simp [RuleSet.listing, OrderedMap.keys, Function.comp_def]
    rw [hkeys]
    exact hset.nodup
  · intro scope rules hmem rule hin
    exact (hrule hmem hin).1
  · intro scope rules hmem rule hin
    exact (hrule hmem hin).2.1
  · intro scope rules hmem rule hin
    exact (hrule hmem hin).2.2

namespace Css

/-! ## Printing as a layout -/

/-- The declarations of a rule, joined. -/
def joined (declarations : List Text) : Text :=
  [';'].intercalate declarations

/-- A rule as it is printed. The declarations go up to the first closing brace. -/
def rulePart (indent : Nat) (selector : Text) (declarations : List Text) : Part :=
  let head := indentText indent ++ selector ++ [' ']
  let body := '\n' :: indentText (indent + indentWidth)
    ++ endStatement (Text.trim (joined declarations))
  let missing := missingBraces (Text.trim (joined declarations))
  let back := '\n' :: indentText indent
  if missing = [] then .rule head (body ++ back) [] else .rule head body (missing ++ back)

/-- The rules of a scope as they are printed, each on lines of its own. -/
def ruleParts (indent : Nat) (rules : List (Text × List Text)) : List Part :=
  rules.flatMap fun (selector, declarations) =>
    [rulePart indent selector declarations, .gap ['\n']]

/-- A scope as it is printed. -/
def scopeItems : Scope × List (Text × List Text) → List Item
  | (_, []) => []
  | (.topLevel, rules) => (ruleParts 0 rules).map .plain
  | (.media query, rules) =>
    [.media (' ' :: query ++ [' ']) (.gap ['\n'] :: ruleParts indentWidth rules),
      .plain (.gap ['\n', '\n'])]

/-- A listing as it is printed. -/
def listingItems (listing : Listing) : List Item :=
  listing.flatMap scopeItems

/-- An item of a printed listing is a part of the top level, or the group of a media query that has
rules, or the line behind such a group. -/
lemma mem_listingItems_cases {listing : Listing} {item : Item} (h : item ∈ listingItems listing) :
    (∃ rules part, (.topLevel, rules) ∈ listing ∧ part ∈ ruleParts 0 rules ∧
      item = .plain part) ∨
    (∃ query rules, (.media query, rules) ∈ listing ∧ rules ≠ [] ∧
      item = .media (' ' :: query ++ [' ']) (.gap ['\n'] :: ruleParts indentWidth rules)) ∨
    item = .plain (.gap ['\n', '\n']) := by
  obtain ⟨⟨scope, rules⟩, hmem, hin⟩ := List.mem_flatMap.1 h
  cases rules with
  | nil => cases hin
  | cons rule rules =>
    cases scope with
    | topLevel =>
      obtain ⟨part, hpart, rfl⟩ := List.mem_map.1 hin
      exact .inl ⟨_, part, hmem, hpart, rfl⟩
    | media query =>
      rcases List.mem_cons.1 hin with rfl | hin
      · exact .inr (.inl ⟨query, _, hmem, List.cons_ne_nil _ _, rfl⟩)
      · exact .inr (.inr (List.mem_singleton.1 hin))

/-- A printed rule begins with its indented selector list, whatever its declarations are. -/
lemma exists_rulePart_eq (indent : Nat) (selector : Text) (declarations : List Text) :
    ∃ body closing, rulePart indent selector declarations =
      .rule (indentText indent ++ selector ++ [' ']) body closing := by
  rw [rulePart]
  split <;> exact ⟨_, _, rfl⟩

/-- The part of a rule is the text that is printed for it. -/
lemma text_rulePart (indent : Nat) (selector : Text) (rule : Rule) :
    (rulePart indent selector rule.declarations).text ++ ['\n'] =
      ruleText indent selector rule := by
  rw [rulePart, ruleText, declarationsText, ← joined]
  split
  · rename_i hmissing
    simp [Part.text, hmissing]
  · simp [Part.text]

/-- The parts of a scope are the text that is printed for its rules. -/
lemma textAll_ruleParts (indent : Nat) (rules : RuleSet) :
    Part.textAll (ruleParts indent (RuleSet.listing rules)) = ruleSetText indent rules := by
  rw [Part.textAll, ruleParts, RuleSet.listing, List.flatMap_map, List.flatMap_assoc, ruleSetText]
  apply List.flatMap_congr
  rintro ⟨selector, rule⟩ -
  show [rulePart indent selector rule.declarations, .gap ['\n']].flatMap Part.text =
    ruleText indent selector rule
  rw [← text_rulePart]
  simp [Part.text]

/-- The items of a scope are the text that is printed for it. -/
lemma textAll_scopeItems (scope : Scope) (rules : RuleSet) :
    Item.textAll (scopeItems (scope, RuleSet.listing rules)) = scopeText scope rules := by
  have htop (parts : List Part) : Item.textAll (parts.map .plain) = Part.textAll parts := by
    rw [Item.textAll, List.flatMap_map]
    rfl
  have hparts (indent : Nat) := textAll_ruleParts indent rules
  unfold scopeText
  cases hrules : RuleSet.listing rules with
  | nil =>
    have hempty : rules.isEmpty = true := by
      simpa [RuleSet.listing, OrderedMap.isEmpty] using hrules
    rw [if_pos hempty]
    rfl
  | cons rule others =>
    have hempty : rules.isEmpty = false := by
      cases hentries : rules.entries with
      | nil => simp [RuleSet.listing, hentries] at hrules
      | cons _ _ => simp [OrderedMap.isEmpty, hentries]
    rw [hempty, ← hrules]
    cases scope with
    | topLevel =>
      rw [hrules, scopeItems, ← hrules, htop, hparts]
      · rfl
      · simp
    | media query =>
      rw [hrules, scopeItems, ← hrules]
      · simp [Item.textAll, Item.text, Part.text, Part.textAll, ← hparts, Scope.text, mediaWord]
      · simp

/-- A stylesheet is printed as the layout of its listing. -/
lemma sheetText_eq (sheet : Stylesheet) :
    sheetText sheet = Item.textAll (listingItems sheet.listing) := by
  rw [sheetText, Item.textAll, listingItems, List.flatMap_assoc, Stylesheet.listing,
    List.flatMap_map]
  apply List.flatMap_congr
  rintro ⟨scope, rules⟩ -
  exact (textAll_scopeItems scope rules).symm

/-! ## Printed rules -/

/-- The first declarations are joined to the others by a semicolon. -/
lemma joined_cons_cons (first second : Text) (others : List Text) :
    joined (first :: second :: others) = first ++ ';' :: joined (second :: others) := by
  rw [joined, List.intercalate_cons_cons, List.append_assoc]
  rfl

/-- The declarations of a rule are joined by a character that no mark of the syntax holds. -/
lemma not_infix_joined {word : Text} (hword : ';' ∉ word) (hne : word ≠ [])
    {declarations : List Text} (h : ∀ text ∈ declarations, ¬ word <:+: text) :
    ¬ word <:+: joined declarations := by
  induction declarations with
  | nil => simpa [joined] using hne
  | cons first others ih =>
    obtain ⟨hfirst, hothers⟩ := List.forall_mem_cons.1 h
    cases others with
    | nil => simpa [joined] using hfirst
    | cons second others =>
      rw [joined_cons_cons, Text.infix_append_cons_iff hword]
      rintro (hin | hin)
      · exact hfirst hin
      · exact ih hothers hin

/-- Besides semicolons, joined declarations hold the characters of the declarations. -/
lemma not_mem_joined {c : Char} (hc : c ≠ ';') {declarations : List Text}
    (h : ∀ text ∈ declarations, c ∉ text) : c ∉ joined declarations := by
  rw [← List.singleton_infix_iff]
  apply not_infix_joined (by simpa using hc.symm) (List.cons_ne_nil _ _)
  intro text hmem
  rw [List.singleton_infix_iff]
  exact h text hmem

/-- A statement is ended by a semicolon if it needs one. -/
lemma endStatement_eq (text : Text) :
    endStatement text = text ∨ endStatement text = text ++ [';'] := by
  unfold endStatement
  split
  · exact Or.inl rfl
  · exact Or.inr rfl

/-- A statement whose blanks are collapsed has them so with its semicolon. -/
lemma collapse_endStatement {text : Text} (h : Text.collapse text = text) :
    Text.collapse (endStatement text) = endStatement text := by
  rcases endStatement_eq text with heq | heq
  · rw [heq, h]
  · have hsemi : Text.collapse [';'] = [';'] :=
      Text.collapse_of_noBlank (by simp [Text.NoBlank]; decide)
    rw [heq, Text.collapse_append (Text.solidEnds_of_collapsed h).2 (by simp; decide), h, hsemi]

/-- Ending a statement adds semicolons only. -/
lemma count_endStatement {c : Char} (hc : c ≠ ';') (text : Text) :
    (endStatement text).count c = text.count c := by
  rcases endStatement_eq text with heq | heq
  · rw [heq]
  · rw [heq, List.count_append, List.count_singleton, if_neg (by simpa using hc.symm), Nat.add_zero]

/-- Ending a statement brings no word along that holds no semicolon. -/
lemma not_infix_endStatement {word : Text} (hword : ';' ∉ word) (hne : word ≠ []) {text : Text}
    (h : ¬ word <:+: text) : ¬ word <:+: endStatement text := by
  rcases endStatement_eq text with heq | heq
  · rwa [heq]
  · rwa [heq, Text.infix_concat_iff hword hne]

/-- An indentation is blank. -/
lemma allBlank_indentText (width : Nat) : Text.AllBlank (indentText width) := by
  intro c hmem
  rw [List.eq_of_mem_replicate hmem]
  exact Text.isBlank_space

section Rules

variable {selector : Text} {declarations : List Text} (indent : Nat)

/-- Joined declarations have their blanks collapsed. -/
lemma collapse_joined (h : ∀ text ∈ declarations, IsDeclarationText text) :
    Text.collapse (joined declarations) = joined declarations :=
  Text.collapse_intercalate (by decide) fun text hmem => (h text hmem).collapsed

/-- Joined declarations have no blanks at their ends. -/
lemma trim_joined (h : ∀ text ∈ declarations, IsDeclarationText text) :
    Text.trim (joined declarations) = joined declarations :=
  Text.trim_eq_self (Text.solidEnds_of_collapsed (collapse_joined h))

/-- The braces that declarations leave open are those that they hold. -/
lemma missingBraces_joined (h : ∀ text ∈ declarations, IsDeclarationText text) :
    missingBraces (joined declarations) =
      List.replicate ((endStatement (joined declarations)).count '{') '}' := by
  have hclose : '}' ∉ joined declarations :=
    not_mem_joined (by decide) fun text hmem => (h text hmem).noClose
  rw [missingBraces, List.count_eq_zero.2 hclose, Nat.sub_zero, count_endStatement (by decide)]

/-- A new line and its indentation are blank. -/
lemma allBlank_line (width : Nat) : Text.AllBlank ('\n' :: indentText width) :=
  Text.allBlank_cons.2 ⟨by decide, allBlank_indentText width⟩

section Mark

variable {word : Text} (hword : IsMark word)

include hword

/-- A new line in front of a text brings no mark along. -/
lemma infix_line_append_iff (width : Nat) (text : Text) :
    word <:+: '\n' :: indentText width ++ text ↔ word <:+: text :=
  Text.infix_allBlank_append_iff hword.noBlank hword.nonempty (allBlank_line width) text

/-- A new line holds no mark. -/
lemma not_infix_line (width : Nat) : ¬ word <:+: '\n' :: indentText width := by
  have hnil := infix_line_append_iff hword width []
  rw [List.append_nil] at hnil
  rw [hnil, List.infix_nil]
  exact hword.nonempty

/-- The head of a printed rule holds no mark that its selector list does not hold. -/
lemma not_infix_head (hselector : ¬ word <:+: selector) :
    ¬ word <:+: indentText indent ++ selector ++ [' '] := by
  rw [Text.infix_concat_iff (hword.lacks Text.isBlank_space) hword.nonempty,
    Text.infix_allBlank_append_iff hword.noBlank hword.nonempty (allBlank_indentText indent)]
  exact hselector

/-- Printing a rule makes no mark of the syntax. -/
lemma lacks_rulePart (hselector : ¬ word <:+: selector)
    (h : ∀ text ∈ declarations, ¬ word <:+: text) :
    (rulePart indent selector declarations).Lacks word := by
  have hhead := not_infix_head indent hword hselector
  have hbody : ¬ word <:+: '\n' :: indentText (indent + indentWidth)
      ++ endStatement (Text.trim (joined declarations)) := by
    rw [infix_line_append_iff hword]
    apply not_infix_endStatement hword.semicolon hword.nonempty
    intro hin
    exact not_infix_joined hword.semicolon hword.nonempty h (hin.trans (Text.trim_isInfix _))
  have hback := not_infix_line hword indent
  rw [rulePart]
  split
  · refine ⟨hhead, ?_⟩
    rw [List.append_nil, Text.infix_append_cons_iff (hword.lacks (by decide))]
    rintro (hin | hin)
    · exact hbody hin
    · exact hback (List.infix_cons hin)
  · -- the braces that are added keep the body and the last line apart
    rename_i hmissing
    refine ⟨hhead, ?_⟩
    rw [missingBraces] at hmissing ⊢
    cases hcount : (Text.trim (joined declarations)).count '{'
        - (Text.trim (joined declarations)).count '}' with
    | zero => simp [hcount] at hmissing
    | succ n =>
      have hbraces : ∀ c ∈ List.replicate n '}', c ∉ word := by
        intro c hmem
        rw [List.eq_of_mem_replicate hmem]
        exact hword.close
      rw [List.replicate_succ, List.cons_append (a := '}'),
        Text.infix_append_cons_iff hword.close,
        Text.infix_append_iff_of_lacks hword.nonempty hbraces]
      rintro (hin | hin)
      · exact hbody hin
      · exact hback hin

end Mark

/-- The head of a printed rule holds characters of selector lists only. -/
lemma plain_head (hselector : IsSelectorText selector) :
    ∀ c ∈ indentText indent ++ selector ++ [' '], IsPlain c := by
  intro c hmem
  rcases List.mem_append.1 hmem with hmem | hmem
  · rcases List.mem_append.1 hmem with hmem | hmem
    · exact isPlain_of_isBlank (allBlank_indentText indent c hmem)
    · exact hselector.plain c hmem
  · rw [List.mem_singleton.1 hmem]
    exact isPlain_of_isBlank Text.isBlank_space

/-- The braces that a body leaves open are closed behind it. -/
lemma nested_body {body : Text} (hclose : '}' ∉ body) :
    Nested ('\n' :: indentText (indent + indentWidth) ++ body
      ++ (List.replicate (body.count '{') '}' ++ '\n' :: indentText indent)) := by
  have hback := (noBrace_of_allBlank (allBlank_line indent)).nested
  have hline := (noBrace_of_allBlank (allBlank_line (indent + indentWidth))).nested
  have hgroup := (nested_append_replicate hclose).append hback
  simpa using hline.append hgroup

/-- A rule is printed as a well nested group that is read as that rule. -/
lemma sound_rulePart (hselector : IsSelectorText selector)
    (h : ∀ text ∈ declarations, IsDeclarationText text) :
    (rulePart indent selector declarations).Sound := by
  have hlacks := lacks_rulePart indent isMark_mediaWord hselector.noMedia
    fun text hmem => (h text hmem).noMedia
  have hplain := plain_head indent hselector
  have hclose : '}' ∉ endStatement (joined declarations) := by
    have hjoined : '}' ∉ joined declarations :=
      not_mem_joined (by decide) fun text hmem => (h text hmem).noClose
    rwa [← List.count_eq_zero, count_endStatement (by decide), List.count_eq_zero]
  rw [rulePart, trim_joined h, missingBraces_joined h] at hlacks ⊢
  generalize endStatement (joined declarations) = body at hclose hlacks ⊢
  have hfront : '}' ∉ '\n' :: indentText (indent + indentWidth) ++ body := by
    rw [List.mem_append, not_or]
    exact ⟨not_mem_of_allBlank (by decide) (allBlank_line _), hclose⟩
  have hback : NoBrace ('\n' :: indentText indent) := noBrace_of_allBlank (allBlank_line indent)
  have hnested := nested_body indent hclose
  split
  · rename_i hmissing
    rw [if_pos hmissing] at hlacks
    rw [hmissing, List.nil_append] at hnested
    refine .rule hplain (by simp) hlacks.1 ?_ (by simp) (by simp) nofun ?_ hlacks.2
    · rw [List.mem_append, not_or]
      exact ⟨hfront, hback.2⟩
    · rwa [List.append_nil]
  · -- the first brace that is added ends the declarations
    rename_i hmissing
    rw [if_neg hmissing] at hlacks
    refine .rule hplain (by simp) hlacks.1 hfront (by simp) ?_ ?_ hnested hlacks.2
    · rw [List.mem_append, not_or]
      exact ⟨fun hmem => by simpa using List.eq_of_mem_replicate hmem, hback.1⟩
    · intro c hc
      cases hcount : body.count '{' with
      | zero => simp [hcount] at hmissing
      | succ n => simpa [hcount, List.replicate_succ, eq_comm] using hc

/-- A printed rule is read with its joined declarations. -/
lemma contents_rulePart (scope : Scope) (hselector : IsSelectorText selector)
    (h : ∀ text ∈ declarations, IsDeclarationText text) :
    (rulePart indent selector declarations).contents scope =
      [⟨scope, selector, endStatement (joined declarations)⟩] := by
  have hhead : Text.collapse (indentText indent ++ selector ++ [' ']) = selector := by
    rw [Text.collapse_append_allBlank _ (by simp [Text.isBlank_space]),
      Text.collapse_allBlank_append (allBlank_indentText indent), hselector.collapsed]
  have hbody : Text.collapse ('\n' :: indentText (indent + indentWidth)
      ++ endStatement (joined declarations)) = endStatement (joined declarations) := by
    rw [Text.collapse_allBlank_append (allBlank_line _), collapse_endStatement (collapse_joined h)]
  rw [rulePart, trim_joined h]
  split
  · rw [Part.contents, if_neg (by simp), Text.collapse_append_allBlank _ (allBlank_line indent),
      hhead, hbody]
  · rw [Part.contents, if_neg (by simp), hhead, hbody]

end Rules

/-! ## Printed listings -/

/-- The parts of printed rules are sound. -/
lemma sound_ruleParts (indent : Nat) {rules : List (Text × List Text)}
    (hselector : ∀ rule ∈ rules, IsSelectorText rule.1)
    (h : ∀ rule ∈ rules, ∀ text ∈ rule.2, IsDeclarationText text) :
    ∀ part ∈ ruleParts indent rules, part.Sound := by
  intro part hpart
  obtain ⟨⟨selector, declarations⟩, hrule, hin⟩ := List.mem_flatMap.1 hpart
  rcases List.mem_cons.1 hin with rfl | hin
  · exact sound_rulePart indent (hselector _ hrule) (h _ hrule)
  · obtain rfl := List.mem_singleton.1 hin
    exact .blanks (by simp; decide)

/-- The items of a printed listing are sound. -/
lemma sound_listingItems {listing : Listing} (h : listing.WellFormed) :
    ∀ item ∈ listingItems listing, item.Sound := by
  intro item hitem
  have hparts (indent : Nat) {scope : Scope} {rules : List (Text × List Text)}
      (hmem : (scope, rules) ∈ listing) :=
    sound_ruleParts indent (h.selector scope rules hmem) (h.declarations scope rules hmem)
  rcases mem_listingItems_cases hitem with
    ⟨rules, part, hmem, hpart, rfl⟩ | ⟨query, rules, hmem, -, rfl⟩ | rfl
  · exact .plain (hparts 0 hmem part hpart)
  · have hquery : IsQueryText query := h.scope _ _ hmem
    refine .media ?_ ?_ ?_
    · simpa using hquery.noOpen
    · rw [Text.infix_concat_iff (by decide) (by decide),
        Text.infix_cons_iff (by decide) (by decide)]
      exact hquery.noMedia
    · exact List.forall_mem_cons.2 ⟨.blanks (by simp; decide), hparts indentWidth hmem⟩
  · exact .plain (.blanks (by simp; decide))

/-- Outside of the media rules stand gaps and the rules of the top level. -/
lemma eq_of_mem_listingItems {listing : Listing} {part : Part}
    (h : Item.plain part ∈ listingItems listing) :
    (∃ text, Text.AllBlank text ∧ part = .gap text) ∨
      ∃ group ∈ listing, group.1 = .topLevel ∧
        ∃ rule ∈ group.2, part = rulePart 0 rule.1 rule.2 := by
  rcases mem_listingItems_cases h with
    ⟨rules, _, hmem, hpart, heq⟩ | ⟨query, rules, -, -, heq⟩ | heq
  · obtain rfl := Item.plain.inj heq
    obtain ⟨rule, hrule, hpart⟩ := List.mem_flatMap.1 hpart
    rcases List.mem_cons.1 hpart with rfl | hpart
    · exact Or.inr ⟨_, hmem, rfl, rule, hrule, rfl⟩
    · exact Or.inl ⟨_, allBlank_line 0, List.mem_singleton.1 hpart⟩
  · cases heq
  · obtain rfl := Item.plain.inj heq
    exact Or.inl ⟨_, Text.allBlank_cons.2 ⟨by decide, allBlank_line 0⟩, rfl⟩

/-- Printed rules say what the rules say, with their declarations joined. -/
lemma contents_ruleParts (indent : Nat) (scope : Scope) {rules : List (Text × List Text)}
    (hselector : ∀ rule ∈ rules, IsSelectorText rule.1)
    (h : ∀ rule ∈ rules, ∀ text ∈ rule.2, IsDeclarationText text) :
    (ruleParts indent rules).flatMap (Part.contents scope) =
      rules.map fun (selector, declarations) =>
        ⟨scope, selector, endStatement (joined declarations)⟩ := by
  induction rules with
  | nil => rfl
  | cons rule rules ih =>
    obtain ⟨selector, declarations⟩ := rule
    obtain ⟨hfirst, hrest⟩ := List.forall_mem_cons.1 hselector
    obtain ⟨hfirst', hrest'⟩ := List.forall_mem_cons.1 h
    rw [List.map_cons, ← ih hrest hrest']
    have hpart := contents_rulePart indent scope hfirst hfirst'
    have hgap : (Part.gap ['\n']).contents scope = [] := rfl
    simp only [ruleParts, List.flatMap_cons, List.flatMap_append, List.flatMap_nil, hpart, hgap]
    simp

end Css

/-- The scopes with rules, each rule with its declarations as one. -/
def Listing.settled (listing : Listing) : Listing :=
  (listing.filter fun (_, rules) => !rules.isEmpty).map fun (scope, rules) =>
    (scope, rules.map fun (selector, declarations) =>
      (selector, [endStatement (joined declarations)]))

/-- A settled group has rules and is one of the listing with its declarations joined. -/
lemma Listing.mem_settled {listing : Listing} {group : Scope × List (Text × List Text)}
    (h : group ∈ listing.settled) :
    ∃ rules, (group.1, rules) ∈ listing ∧ rules ≠ [] ∧ group.2 = rules.map
      fun (selector, declarations) => (selector, [endStatement (joined declarations)]) := by
  obtain ⟨⟨scope, rules⟩, hin, rfl⟩ := List.mem_map.1 h
  obtain ⟨hin, hne⟩ := List.mem_filter.1 hin
  exact ⟨rules, hin, by simpa using hne, rfl⟩

/-- No scope of a settled listing occurs twice. -/
lemma Listing.WellFormed.scopes_settled {listing : Listing} (h : listing.WellFormed) :
    (listing.settled.map (·.1)).Nodup := by
  have hkeys : listing.settled.map (·.1) =
      (listing.filter fun (_, rules) => !rules.isEmpty).map (·.1) := by
    simp [Listing.settled, Function.comp_def]
  rw [hkeys]
  exact h.scopes.sublist (List.filter_sublist.map _)

/-- A settled listing says what the rules say, with their declarations joined. -/
lemma Listing.contents_settled (listing : Listing) :
    listing.settled.contents = listing.flatMap fun (scope, rules) =>
      rules.map fun (selector, declarations) =>
        ⟨scope, selector, endStatement (joined declarations)⟩ := by
  rw [Listing.contents, settled, List.flatMap_map]
  induction listing with
  | nil => rfl
  | cons entry listing ih =>
    obtain ⟨scope, rules⟩ := entry
    rw [List.flatMap_cons, ← ih]
    cases rules with
    | nil => rfl
    | cons rule rules =>
      rw [List.filter_cons_of_pos (by simp), List.flatMap_cons]
      congr 1
      generalize rule :: rules = rules
      simp only [List.flatMap_map, List.map_cons, List.map_nil]
      exact List.map_eq_flatMap.symm

namespace Css

/-- A printed scope says what its rules say, with their declarations joined. -/
lemma contents_scopeItems {scope : Scope} (hscope : scope.WellFormed)
    {rules : List (Text × List Text)} (hselector : ∀ rule ∈ rules, IsSelectorText rule.1)
    (h : ∀ rule ∈ rules, ∀ text ∈ rule.2, IsDeclarationText text) :
    (scopeItems (scope, rules)).flatMap Item.contents =
      rules.map fun (selector, declarations) =>
        ⟨scope, selector, endStatement (joined declarations)⟩ := by
  have hparts (indent : Nat) := contents_ruleParts indent scope hselector h
  cases rules with
  | nil => rfl
  | cons rule rules =>
    cases scope with
    | topLevel =>
      rw [← hparts 0, scopeItems, List.flatMap_map]
      · rfl
      · simp
    | media query =>
      have hquery : IsQueryText query := hscope
      have hname : Text.collapse (' ' :: query ++ [' ']) = query := by
        rw [Text.collapse_append_allBlank _ (by simp [Text.isBlank_space]),
          Text.collapse_cons_blank Text.isBlank_space, hquery.collapsed]
      rw [← hparts indentWidth, scopeItems]
      · simp only [List.flatMap_cons, List.flatMap_nil, Item.contents, hname, Part.contents,
          List.nil_append, List.append_nil]
      · simp

/-- The items of a printed listing say what the listing says. -/
lemma contents_listingItems {listing : Listing} (h : listing.WellFormed) :
    (listingItems listing).flatMap Item.contents = listing.settled.contents := by
  rw [listingItems, List.flatMap_assoc, Listing.contents_settled]
  apply List.flatMap_congr
  rintro ⟨scope, rules⟩ hmem
  exact contents_scopeItems (h.scope _ _ hmem) (h.selector _ _ hmem) (h.declarations _ _ hmem)

end Css

end CssPrune
