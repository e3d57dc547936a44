import CssPrune.Proofs.Printed
import Mathlib.Algebra.Order.BigOperators.Group.List
import Mathlib.Algebra.Order.Group.Nat
import Mathlib.Data.List.Perm.Subperm

/-!
# What reading spends

The texts of a rule are stretches of the text that is read, and no two of them overlap, so reading
makes no character. The brace that opens a rule belongs to none of its texts; it is spent on the
rule all the same, for printing writes it again. `RuleState.held` counts what the scan for rules has
taken from the text and not yet given to a rule, so that one step is a balance (`held_step`) and
the rules of a text cost no more than the text (`spent_ruleContents_le`). The brace that opens a
media rule is spent on its scope (`MediaPart.Shaped.spent_le`). A chunk that begins with a brace
where none should is passed over with all its braces (`MediaPart.Shaped.spent_lt`).

So a stylesheet costs no more slashes than its text holds (`cost_sheetContents_le`), and fewer
braces where one is misplaced (`Outline.Shaped.cost_lt`).
-/

namespace CssPrune

open Css

/-- How often a character stands in a rule as it is printed. -/
def Content.cost (c : Char) (rule : Content) : Nat :=
  ['{'].count c + rule.selector.count c + rule.declarations.count c

/-- How often a character stands in a scope as it is printed, but for its rules. -/
def Scope.cost (c : Char) : Scope → Nat
  | .topLevel => 0
  | .media query => ['{'].count c + query.count c

namespace Css

/-- How often a character stands in rules as they are printed. -/
def spent (c : Char) (rules : List Content) : Nat :=
  (rules.map (Content.cost c)).sum

variable (c : Char)

/-- Rules one behind the other spend what each of them spends. -/
lemma spent_append (first second : List Content) :
    spent c (first ++ second) = spent c first + spent c second := by
  rw [spent, List.map_append, List.sum_append]
  rfl

/-- Rules that come from items spend what those of each item spend. -/
lemma spent_flatMap {α : Type} (items : List α) (f : α → List Content) :
    spent c (items.flatMap f) = (items.map fun item => spent c (f item)).sum := by
  induction items with
  | nil => rfl
  | cons item items ih => rw [List.flatMap_cons, spent_append, ih, List.map_cons, List.sum_cons]

/-! ## The balance of the scan for rules -/

namespace RuleState

/-- What the scan has taken from the text for the rule it is in. Of the opening braces it keeps the
one that opens the rule, and the last one if there are others. -/
def held : RuleState Char → Nat
  | outside run => run.count c
  | opening selector brace repeated =>
    ['{'].count c + selector.count c + if repeated then [brace].count c else 0
  | body selector declarations => ['{'].count c + selector.count c + declarations.count c

end RuleState

/-- What a rule costs before its texts are collapsed. -/
def RawRule.cost (rule : RawRule Char) : Nat :=
  ['{'].count c + rule.selector.count c + rule.declarations.count c

/-- A step gives no more to a rule than was held and what it reads. -/
lemma held_step (state : RuleState Char) (a : Char) :
    (state.step id a).1.held c + ((state.step id a).2.toList.map (RawRule.cost c)).sum ≤
      state.held c + [a].count c := by
  cases state with
  | outside run =>
    by_cases hopen : a = '{'
    · subst hopen
      cases run with
      | nil => simp [RuleState.step, RuleState.held]
      | cons b run =>
        simp only [RuleState.step, id, if_true, RuleState.held, List.count_reverse]
        simp
        omega
    · by_cases hend : a = '}' ∨ a = ';'
      · cases run <;> simp [RuleState.step, hopen, hend, RuleState.held]
      · cases run with
        | nil => simp [RuleState.step, hopen, hend, RuleState.held]
        | cons b run =>
          simp [RuleState.step, hopen, hend, RuleState.held, List.count_cons]
  | opening selector brace repeated =>
    by_cases hopen : a = '{'
    · subst hopen
      simp only [RuleState.step, id, if_true, RuleState.held]
      -- a further brace takes the place of the one that is held
      split <;> simp
    · by_cases hclose : a = '}'
      · subst hclose
        cases repeated <;> simp [RuleState.step, RuleState.held, RawRule.cost]
      · simp [RuleState.step, hopen, hclose, RuleState.held]
  | body selector declarations =>
    by_cases hclose : a = '}'
    · simp [RuleState.step, hclose, RuleState.held, RawRule.cost]
    · simp [RuleState.step, hclose, RuleState.held, List.count_cons]
      omega

/-- The scan gives no more to rules than it holds and reads. -/
lemma cost_rules_le (state : RuleState Char) (text : Text) :
    ((state.rules id text).map (RawRule.cost c)).sum ≤ state.held c + text.count c := by
  induction text generalizing state with
  | nil => simp [RuleState.rules]
  | cons a rest ih =>
    have hstep := held_step c state a
    have hrest := ih (state.step id a).1
    have hcount : (a :: rest).count c = [a].count c + rest.count c := by
      rw [← List.singleton_append, List.count_append]
    rw [rules_cons, List.map_append, List.sum_append, hcount]
    omega

section Costs

variable {c} (hc : Text.isBlank c = false)

include hc

/-- The rules of a text cost no more than the text. -/
lemma spent_ruleContents_le (scope : Scope) (text : Text) :
    spent c (ruleContents scope text) ≤ text.count c := by
  have hcost : spent c (ruleContents scope text) =
      ((rawRules id text).map (RawRule.cost c)).sum := by
    rw [spent, ruleContents, List.map_map]
    congr 1
    apply List.map_congr_left
    intro rule _
    simp [Content.cost, RawRule.cost, Text.count_collapse hc]
  have hle := cost_rules_le c (.outside []) text
  rw [RuleState.held, List.count_nil, Nat.zero_add] at hle
  rw [hcost]
  exact hle

/-- The rules of blocks spend no more than the blocks hold. -/
lemma spent_flatMap_ruleContents_le (scope : Scope) (blocks : List Text) :
    spent c (blocks.flatMap (ruleContents scope)) ≤ (blocks.map (List.count c)).sum := by
  rw [spent_flatMap]
  apply List.sum_le_sum
  intro block _
  exact spent_ruleContents_le hc scope block

/-! ## Behind an `@media` -/

/-- The rules of blocks cost no more than the blocks. -/
lemma spent_blockContents_le (query : Text) (blocks : List Text) :
    spent c (blockContents query blocks) ≤ (blocks.map (List.count c)).sum := by
  -- the body is one of the blocks that begin with a brace, and the trailing ones are the others
  have hsum : ((blocks.filter (opensWithBrace id)).map (List.count c)).sum +
      ((blocks.filter (!opensWithBrace id ·)).map (List.count c)).sum =
        (blocks.map (List.count c)).sum := by
    simpa using List.sum_map_filter_add_sum_map_filter_not
      (fun block => opensWithBrace id block = true) (List.count c) blocks
  have hbody : spent c (((mediaBody? id blocks).map (ruleContents (.media query))).getD []) ≤
      ((blocks.filter (opensWithBrace id)).map (List.count c)).sum := by
    rw [mediaBody?]
    cases hlast : (blocks.filter (opensWithBrace id)).getLast? with
    | none => exact Nat.zero_le _
    | some body =>
      have hmem : body.count c ∈ (blocks.filter (opensWithBrace id)).map (List.count c) :=
        List.mem_map_of_mem (List.mem_of_getLast? hlast)
      exact (spent_ruleContents_le hc _ body).trans
        (List.single_le_sum (fun _ _ => Nat.zero_le _) _ hmem)
  have htrailing := spent_flatMap_ruleContents_le hc .topLevel (trailingBlocks id blocks)
  rw [trailingBlocks] at htrailing
  rw [blockContents, spent_append, trailingBlocks]
  omega

/-- What is read behind an `@media` costs no more than the text there, the query included. -/
lemma spent_mediaContents_le (piece : Text) :
    spent c (mediaContents piece) + (Text.collapse (mediaParts piece).1).count c ≤
      piece.count c := by
  have hblocks := spent_blockContents_le hc (Text.collapse (mediaParts piece).1)
    (mediaBlocks piece).blocks
  have hstretch : ((mediaBlocks piece).blocks.map (List.count c)).sum ≤
      (mediaParts piece).2.count c := by
    have hflat := flatten_blocksOf id (throughLast id '}' (mediaParts piece).2)
    have hcount := congrArg (List.count c) hflat
    rw [List.count_append, List.count_flatten] at hcount
    have hle := (@throughLast_isPrefix _ id '}' (mediaParts piece).2).sublist.count_le c
    rw [mediaBlocks]
    omega
  have hparts := congrArg (List.count c) (mediaParts_eq piece)
  have htrim := (Text.trim_isInfix piece).sublist.count_le c
  rw [List.count_append] at hparts
  rw [Text.count_collapse hc, mediaContents]
  omega

omit hc in
/-- The stretches of a text hold no more of a character than the text. -/
lemma sum_count_plainPieces_le (text : Text) :
    ((plainPieces text).map (List.count c)).sum ≤ text.count c := by
  induction hn : text.length using Nat.strong_induction_on generalizing text with
  | _ n ih =>
    rcases exists_first_media text with hno | ⟨front, rest, rfl, hfront⟩
    · rw [plainPieces, mediaPieces, cutFrom_of_no_word hno]
      simp
    · have hshorter : rest.length < n := by
        simp [mediaWord] at hn
        omega
      have hrest := ih rest.length hshorter rest rfl
      rw [plainPieces, mediaPieces, cutFrom_append_word hfront, List.map_cons, List.sum_cons,
        List.reverse_nil, List.nil_append, List.count_append, List.count_append]
      omega

end Costs

/-! ## The braces of an outline -/

/-- An opening brace at the front of a text says nothing. -/
lemma ruleContents_cons_open (scope : Scope) (text : Text) :
    ruleContents scope ('{' :: text) = ruleContents scope text := by
  rw [ruleContents, rawRules_cons_open]
  rfl

variable {part : MediaPart}

/-- A media part holds what its query, its blocks and its tail hold. -/
lemma MediaPart.count_text (part : MediaPart) (c : Char) :
    part.text.count c = part.query.count c + part.body.text.count c
      + ((part.after.map Chunk.text).map (List.count c)).sum + part.tail.count c := by
  rw [MediaPart.text, Chunk.textAll_cons, List.count_append, List.count_append, List.count_append,
    Chunk.textAll, List.count_flatMap, List.map_map]
  simp only [Function.comp_def]
  omega

/-- Where a chunk behind the group begins with a brace, the group is passed over. -/
lemma MediaPart.blockContents_of_not_placed (h : ¬ part.Placed) (query : Text) :
    blockContents query ((part.body :: part.after).map Chunk.text) =
      blockContents query (part.after.map Chunk.text) := by
  have hbody : opensWithBrace id part.body.text = true := rfl
  have hopens : (part.after.map Chunk.text).filter (opensWithBrace id) ≠ [] := by
    intro hnil
    apply h
    intro chunk hmem
    have := List.filter_eq_nil_iff.1 hnil chunk.text (List.mem_map_of_mem hmem)
    simpa using this
  rw [blockContents, blockContents, mediaBody?, mediaBody?, trailingBlocks, trailingBlocks,
    List.map_cons, List.filter_cons_of_pos hbody, List.filter_cons_of_neg (by simp [hbody]),
    List.getLast?_cons_of_ne_nil hopens]

/-- The first opening brace of a media part pays for its scope. -/
lemma MediaPart.Shaped.spent_le (h : part.Shaped) :
    spent '{' (mediaContents part.text) + 1 ≤ part.text.count '{' := by
  have hblank : Text.isBlank '{' = false := by decide
  have hcount := part.count_text '{'
  have hbody : part.body.text.count '{' = 1 + (part.body.inner ++ ['}']).count '{' := by
    rw [MediaPart.body, Chunk.text, List.nil_append, List.cons_append, List.count_cons_self]
    omega
  rw [h.mediaContents_eq]
  by_cases hplaced : part.Placed
  · -- the brace that opens the group belongs to no rule
    have hgroup := spent_ruleContents_le hblank (.media (Text.collapse part.query))
      (part.body.inner ++ ['}'])
    have hafter := spent_flatMap_ruleContents_le hblank .topLevel (part.after.map Chunk.text)
    have hopen : ruleContents (.media (Text.collapse part.query)) part.body.text =
        ruleContents (.media (Text.collapse part.query)) (part.body.inner ++ ['}']) :=
      ruleContents_cons_open _ _
    rw [blockContents, hplaced.mediaBody?_blocks, hplaced.trailingBlocks_blocks, spent_append,
      Option.map_some, Option.getD_some, hopen]
    omega
  · have hafter := spent_blockContents_le hblank (Text.collapse part.query)
      (part.after.map Chunk.text)
    rw [MediaPart.blockContents_of_not_placed hplaced]
    omega

/-- The braces of a group that is passed over are lost. -/
lemma MediaPart.Shaped.spent_lt (h : part.Shaped) (hrules : part.rules ≠ [])
    (hplaced : ¬ part.Placed) :
    spent '{' (mediaContents part.text) + 1 < part.text.count '{' := by
  have hblank : Text.isBlank '{' = false := by decide
  have hcount := part.count_text '{'
  have hbody : 2 ≤ part.body.text.count '{' := by
    obtain ⟨chunk, rules, hchunks⟩ := List.exists_cons_of_ne_nil hrules
    rw [MediaPart.body, hchunks, Chunk.textAll_cons, Chunk.text, Chunk.text]
    simp
    omega
  have hafter := spent_blockContents_le hblank (Text.collapse part.query)
    (part.after.map Chunk.text)
  rw [h.mediaContents_eq, MediaPart.blockContents_of_not_placed hplaced]
  omega

/-- A brace that begins the text opens no rule. -/
lemma spent_trim_lt {text : Text} (h : opensWithBrace id text = true) :
    spent '{' (ruleContents .topLevel (Text.trim text)) < text.count '{' := by
  have hhead : (Text.trim text).head? = some '{' := by
    by_contra hne
    rw [opensWithBrace_eq_false_iff.2 hne] at h
    cases h
  have htrim := (Text.trim_isInfix text).sublist.count_le '{'
  cases hrest : Text.trim text with
  | nil => simp [hrest] at hhead
  | cons c rest =>
    obtain rfl : c = '{' := by simpa [hrest] using hhead
    have hspent := spent_ruleContents_le (c := '{') (by decide) .topLevel rest
    rw [hrest, List.count_cons_self] at htrim
    rw [ruleContents_cons_open]
    omega

end Css

/-! ## The cost of a listing -/

/-- How often a character stands in a rule of a listing as it is printed, at most. -/
def ruleCost (c : Char) (rule : Text × List Text) : Nat :=
  ['{'].count c + rule.1.count c + (rule.2.map (List.count c)).sum

/-- How often a character stands in a listing as it is printed, at most. -/
def Listing.cost (c : Char) (listing : Listing) : Nat :=
  (listing.map fun group => group.1.cost c + (group.2.map (ruleCost c)).sum).sum

/-- A filtered listing costs no more than the listing. -/
lemma Listing.cost_filter_le (c : Char) (keep : Text → Bool) (listing : Listing) :
    Listing.cost c (listing.map fun group => (group.1, group.2.filter fun rule => keep rule.1)) ≤
      listing.cost c := by
  rw [cost, cost, List.map_map]
  apply List.sum_le_sum
  intro group _
  apply Nat.add_le_add_left
  have hsublist : (group.2.filter fun rule => keep rule.1).Sublist group.2 :=
    List.filter_sublist
  exact (hsublist.map (ruleCost c)).sum_le_sum fun _ _ => Nat.zero_le _

/-- Grouped rules cost no more than the rules one by one. -/
lemma sum_gather_ruleCost_le (c : Char) (rules : List (Text × Text)) :
    ((gather rules).map (ruleCost c)).sum ≤
      (rules.map fun rule => ['{'].count c + rule.1.count c + rule.2.count c).sum := by
  have hgroup (selector : Text) (declarations : List Text) (hne : declarations ≠ []) :
      ruleCost c (selector, declarations) ≤ (declarations.map fun text =>
        ['{'].count c + selector.count c + text.count c).sum := by
    obtain ⟨first, others, rfl⟩ := List.exists_cons_of_ne_nil hne
    have hothers : (others.map (List.count c)).sum ≤ (others.map fun text =>
        ['{'].count c + selector.count c + text.count c).sum :=
      List.sum_le_sum fun text _ => Nat.le_add_left _ _
    show ['{'].count c + selector.count c + (List.map (List.count c) (first :: others)).sum ≤ _
    rw [List.map_cons, List.sum_cons, List.map_cons, List.sum_cons]
    omega
  exact sum_gather_le hgroup rules

/-- Rules that are grouped cost no more than the rules and their scopes. -/
lemma cost_gatherContents_le (c : Char) {contents : List Content} {scopes : List Scope}
    (h : ∀ rule ∈ contents, rule.scope ∈ scopes) :
    (gatherContents contents).cost c ≤
      spent c contents + (scopes.map (Scope.cost c)).sum := by
  let items := contents.map fun rule => (rule.scope, (rule.selector, rule.declarations))
  have hscopes : ((gather items).map fun group => group.1.cost c).sum ≤
      (scopes.map (Scope.cost c)).sum := by
    have hkeys : ((gather items).map fun group => group.1.cost c) =
        (items.map (·.1)).eraseDups.map (Scope.cost c) := by
      simp [gather, Function.comp_def]
    have hsubset : (items.map (·.1)).eraseDups ⊆ scopes := by
      intro scope hmem
      obtain ⟨_, hin, rfl⟩ := List.mem_map.1 (List.mem_eraseDups.1 hmem)
      obtain ⟨rule, hrule, rfl⟩ := List.mem_map.1 hin
      exact h rule hrule
    -- each scope is opened once, however many rules it holds
    obtain ⟨others, hperm, hsublist⟩ := (nodup_eraseDups (items.map (·.1))).subperm hsubset
    rw [hkeys, ← (hperm.map (Scope.cost c)).sum_eq]
    exact (hsublist.map (Scope.cost c)).sum_le_sum fun _ _ => Nat.zero_le _
  have hrules : ((gather items).map fun group => ((gather group.2).map (ruleCost c)).sum).sum ≤
      spent c contents := by
    have hsum := sum_gather_le (f := fun _ rules => ((gather rules).map (ruleCost c)).sum)
      (fun (_ : Scope) rules _ => sum_gather_ruleCost_le c rules) items
    rw [List.map_map] at hsum
    exact hsum
  have hcost : (gatherContents contents).cost c =
      ((gather items).map fun group => group.1.cost c).sum +
        ((gather items).map fun group => ((gather group.2).map (ruleCost c)).sum).sum := by
    rw [← List.sum_map_add, Listing.cost, gatherContents, List.map_map]
    rfl
  rw [hcost]
  omega

namespace Css

section Printing

variable {c : Char} (hc : Text.isBlank c = false) (hsemi : c ≠ ';') (hclose : c ≠ '}')

include hc in
/-- No character that is not blank stands among blanks. -/
lemma count_of_allBlank {text : Text} (h : Text.AllBlank text) : text.count c = 0 :=
  List.count_eq_zero.2 (not_mem_of_allBlank hc h)

include hsemi in
/-- Besides semicolons, joined declarations hold what the declarations hold. -/
lemma count_joined (declarations : List Text) :
    (joined declarations).count c = (declarations.map (List.count c)).sum := by
  have hsingle : [';'].count c = 0 := List.count_eq_zero.2 (by simpa using hsemi)
  induction declarations with
  | nil => rfl
  | cons first others ih =>
    cases others with
    | nil => simp [joined]
    | cons second others =>
      rw [joined_cons_cons, List.count_append, ← List.singleton_append, List.count_append, hsingle,
        ih, List.map_cons (l := second :: others), List.sum_cons]
      omega

include hc hsemi hclose

/-- A printed rule holds no more than it costs. -/
lemma count_rulePart_le (indent : Nat) (selector : Text) (declarations : List Text) :
    (rulePart indent selector declarations).text.count c ≤ ruleCost c (selector, declarations) := by
  have hindent (width : Nat) := count_of_allBlank hc (allBlank_indentText width)
  have hline (width : Nat) := count_of_allBlank hc (allBlank_line width)
  have hspace : [' '].count c = 0 := count_of_allBlank hc (by simp [Text.isBlank_space])
  have hbrace : ['}'].count c = 0 := List.count_eq_zero.2 (by simpa using hclose)
  have hmissing : (missingBraces (Text.trim (joined declarations))).count c = 0 :=
    List.count_eq_zero.2 fun hmem => hclose (List.eq_of_mem_replicate hmem)
  have hbody : (endStatement (Text.trim (joined declarations))).count c ≤
      (declarations.map (List.count c)).sum := by
    rw [count_endStatement hsemi, ← count_joined hsemi]
    exact (Text.trim_isInfix _).sublist.count_le c
  have hopen (text : Text) : List.count c ('{' :: text) = ['{'].count c + text.count c :=
    @List.count_append _ _ c ['{'] text
  rw [ruleCost, rulePart]
  split
  · rw [Part.text, List.count_append, List.count_append, hopen]
    simp only [List.count_append, hindent, hline, hspace, hbrace, List.count_nil]
    omega
  · rw [Part.text, List.count_append, List.count_append, hopen]
    simp only [List.count_append, hindent, hline, hspace, hbrace, hmissing]
    omega

/-- Printed rules hold no more than they cost. -/
lemma count_ruleParts_le (indent : Nat) (rules : List (Text × List Text)) :
    (Part.textAll (ruleParts indent rules)).count c ≤ (rules.map (ruleCost c)).sum := by
  have hline : ['\n'].count c = 0 := count_of_allBlank hc (allBlank_line 0)
  rw [Part.textAll, ruleParts, List.flatMap_assoc, List.count_flatMap]
  apply List.sum_le_sum
  rintro ⟨selector, declarations⟩ -
  have hrule := count_rulePart_le hc hsemi hclose indent selector declarations
  simpa [Part.text, hline] using hrule

/-- A printed listing holds a character no more often than it costs. -/
lemma count_textAll_listingItems_le (hword : c ∉ mediaWord) (listing : Listing) :
    (Item.textAll (listingItems listing)).count c ≤ listing.cost c := by
  have hspace : [' '].count c = 0 := count_of_allBlank hc (by simp [Text.isBlank_space])
  have hline : ['\n'].count c = 0 := count_of_allBlank hc (allBlank_line 0)
  have hgap : ['\n', '\n'].count c = 0 := count_of_allBlank hc (by simp; decide)
  have hbrace : ['}'].count c = 0 := List.count_eq_zero.2 (by simpa using hclose)
  have hmedia : mediaWord.count c = 0 := List.count_eq_zero.2 hword
  rw [Item.textAll, listingItems, List.flatMap_assoc, List.count_flatMap, Listing.cost]
  apply List.sum_le_sum
  rintro ⟨scope, rules⟩ -
  have hparts (indent : Nat) := count_ruleParts_le hc hsemi hclose indent rules
  show ((scopeItems (scope, rules)).flatMap Item.text).count c ≤
    scope.cost c + (rules.map (ruleCost c)).sum
  cases rules with
  | nil => exact Nat.zero_le _
  | cons rule rules =>
    cases scope with
    | topLevel =>
      rw [scopeItems, List.flatMap_map]
      · exact (hparts 0).trans (Nat.le_add_left _ _)
      · simp
    | media query =>
      have hmediaParts := hparts indentWidth
      have htext : (scopeItems (.media query, rule :: rules)).flatMap Item.text =
          mediaWord ++ [' '] ++ query ++ [' '] ++ ['{'] ++ ['\n']
            ++ Part.textAll (ruleParts indentWidth (rule :: rules)) ++ ['}'] ++ ['\n', '\n'] := by
        rw [scopeItems]
        · simp [Item.text, Part.text, Part.textAll]
        · simp
      rw [htext, Scope.cost]
      simp only [List.count_append, hmedia, hspace, hbrace, hgap, hline]
      omega

end Printing

/-! ## The cost of what is read -/

/-- What blocks behind a media query say is said under the query or at top level. -/
lemma scope_of_mem_blockContents {query : Text} {blocks : List Text} {rule : Content}
    (h : rule ∈ blockContents query blocks) :
    rule.scope = .media query ∨ rule.scope = .topLevel := by
  have hscope {scope : Scope} {text : Text} (hmem : rule ∈ ruleContents scope text) :
      rule.scope = scope := by
    obtain ⟨_, -, rfl⟩ := List.mem_map.1 hmem
    rfl
  rw [blockContents, List.mem_append] at h
  rcases h with h | h
  · cases hbody : mediaBody? id blocks with
    | none => simp [hbody] at h
    | some body =>
      rw [hbody] at h
      exact Or.inl (hscope h)
  · obtain ⟨_, -, h⟩ := List.mem_flatMap.1 h
    exact Or.inr (hscope h)

/-- A stylesheet costs what is spent on its stretches, and each media rule pays for its query. -/
lemma cost_piecesContents_le (c : Char) (first : Text) (pieces : List Text) :
    (gatherContents (piecesContents (first :: pieces))).cost c ≤
      spent c (ruleContents .topLevel (Text.trim first)) + (pieces.map fun piece =>
        spent c (mediaContents piece) +
          (Scope.media (Text.collapse (mediaParts piece).1)).cost c).sum := by
  let scopes : List Scope :=
    .topLevel :: pieces.map fun piece => .media (Text.collapse (mediaParts piece).1)
  have hscopes : ∀ rule ∈ piecesContents (first :: pieces), rule.scope ∈ scopes := by
    intro rule hmem
    rcases List.mem_append.1 hmem with hmem | hmem
    · obtain ⟨_, -, rfl⟩ := List.mem_map.1 hmem
      exact List.mem_cons_self
    · obtain ⟨piece, hpiece, hmem⟩ := List.mem_flatMap.1 hmem
      rcases scope_of_mem_blockContents hmem with heq | heq
      · exact List.mem_cons_of_mem _ (heq ▸ List.mem_map.2 ⟨piece, hpiece, rfl⟩)
      · exact heq ▸ List.mem_cons_self
  have hcost := cost_gatherContents_le c hscopes
  rw [piecesContents, spent_append, spent_flatMap, List.map_cons, List.sum_cons,
    List.map_map] at hcost
  rw [List.sum_map_add]
  simp only [Function.comp_def, Scope.cost] at hcost ⊢
  rw [piecesContents]
  omega

/-- What is read holds no more slashes than the text. -/
theorem cost_sheetContents_le (text : Text) :
    (gatherContents (sheetContents text)).cost '/' ≤ text.count '/' := by
  have hblank : Text.isBlank '/' = false := by decide
  have hpieces := sum_count_plainPieces_le (c := '/') text
  rw [sheetContents]
  cases hsplit : plainPieces text with
  | nil => exact Nat.zero_le _
  | cons first pieces =>
    rw [hsplit, List.map_cons, List.sum_cons] at hpieces
    have hcost := cost_piecesContents_le '/' first pieces
    have hfirst := (spent_ruleContents_le hblank .topLevel (Text.trim first)).trans
      ((Text.trim_isInfix first).sublist.count_le _)
    have hrest : (pieces.map fun piece => spent '/' (mediaContents piece) +
        (Scope.media (Text.collapse (mediaParts piece).1)).cost '/').sum ≤
          (pieces.map (List.count '/')).sum := by
      apply List.sum_le_sum
      intro piece _
      have hpiece := spent_mediaContents_le hblank piece
      have hquery : (Scope.media (Text.collapse (mediaParts piece).1)).cost '/' =
          (Text.collapse (mediaParts piece).1).count '/' := by simp [Scope.cost]
      rw [hquery]
      exact hpiece
    omega

/-- A media rule costs one brace besides its rules. -/
lemma cost_query (piece : Text) :
    (Scope.media (Text.collapse (mediaParts piece).1)).cost '{' = 1 := by
  rw [Scope.cost, Text.count_collapse (by decide),
    List.count_eq_zero.2 (not_mem_mediaParts piece)]
  rfl

/-- Besides its marks, an outline holds what its first text and its media parts hold. -/
lemma Outline.count_text (outline : Outline) {c : Char} (hc : c ∉ mediaWord) :
    outline.text.count c = outline.firstText.count c
      + ((outline.media.map MediaPart.text).map (List.count c)).sum := by
  rw [Outline.text, List.count_append, List.count_flatMap]
  congr 2
  apply List.map_congr_left
  intro text _
  show (mediaWord ++ text).count c = text.count c
  rw [List.count_append, List.count_eq_zero.2 hc, Nat.zero_add]

/-- A misplaced brace is lost. -/
theorem Outline.Shaped.cost_lt {outline : Outline} (h : outline.Shaped)
    (hrules : ∀ part ∈ outline.media, part.rules ≠ []) (hplaced : ¬ outline.Placed) :
    (gatherContents (sheetContents outline.text)).cost '{' < outline.text.count '{' := by
  have hcost := cost_piecesContents_le '{' outline.firstText (outline.media.map MediaPart.text)
  have hcount := outline.count_text (c := '{') (by decide)
  have hle :
      ∀ part ∈ outline.media, spent '{' (mediaContents part.text) + 1 ≤ part.text.count '{' :=
    fun part hpart => (h.media part hpart).spent_le
  rw [sheetContents, h.plainPieces_text]
  simp only [cost_query, List.map_map, Function.comp_def] at hcost hcount
  by_cases hmedia : ∀ part ∈ outline.media, part.Placed
  · -- the brace that begins the text is lost
    have hopens : opensWithBrace id outline.firstText = true := by
      by_contra hfirst
      apply hplaced
      refine ⟨?_, hmedia⟩
      intro chunk hchunk
      obtain ⟨chunks, heq⟩ := List.head?_eq_some_iff.1 hchunk
      rw [Outline.firstText, heq, Chunk.textAll_cons, List.append_assoc,
        Chunk.opensWithBrace_append] at hfirst
      simpa using hfirst
    have hfirst := spent_trim_lt hopens
    have hsum := List.sum_le_sum hle
    omega
  · push Not at hmedia
    obtain ⟨part, hpart, hnot⟩ := hmedia
    have hlt := (h.media part hpart).spent_lt (hrules part hpart) hnot
    have hfirst := (spent_ruleContents_le (c := '{') (by decide) .topLevel
      (Text.trim outline.firstText)).trans ((Text.trim_isInfix _).sublist.count_le _)
    have hsum := List.sum_lt_sum _ _ hle ⟨part, hpart, hlt⟩
    omega

/-- A media rule is printed with its rules. -/
lemma rules_ne_nil_of_mem_groups {listing : Listing} :
    ∀ part ∈ Item.groups (listingItems listing), part.rules ≠ [] := by
  intro part hpart
  obtain ⟨query, parts, hmem, hrules⟩ := Item.exists_of_mem_groups hpart
  rcases mem_listingItems_cases hmem with
    ⟨_, _, -, -, heq⟩ | ⟨other, rules, -, hne, heq⟩ | heq
  · cases heq
  · obtain ⟨-, rfl⟩ := Item.media.inj heq
    obtain ⟨rule, others, rfl⟩ := List.exists_cons_of_ne_nil hne
    obtain ⟨body, closing, hrule⟩ := exists_rulePart_eq indentWidth rule.1 rule.2
    rw [hrules, ruleParts, List.flatMap_cons]
    show Part.chunksFrom [] (_ :: rulePart indentWidth rule.1 rule.2 :: _) ≠ []
    rw [hrule]
    exact List.cons_ne_nil _ _
  · cases heq

end Css

end CssPrune
