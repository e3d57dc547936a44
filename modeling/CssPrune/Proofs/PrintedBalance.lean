import CssPrune.Proofs.Balance
import CssPrune.Proofs.Repeated
import CssPrune.Proofs.StoredSheets

/-!
# The braces of an output

The braces of a printed stylesheet are balanced exactly if no query of a printed media rule holds a
closing brace (`balanced_sheetText_iff`): the printer closes what declarations leave open, and a
query holds no opening brace, but it keeps the closing braces between an `@media` and its block.
`prune_balanced_iff` says the same of an output and the texts of its name.
-/

namespace CssPrune

namespace Css

/-! ## Layouts -/

/-- Well nested texts one behind the other are well nested. -/
lemma nested_flatMap {α : Type} {f : α → Text} {items : List α}
    (h : ∀ item ∈ items, Nested (f item)) : Nested (items.flatMap f) := by
  induction items with
  | nil => exact .nil
  | cons item items ih =>
    obtain ⟨hitem, hitems⟩ := List.forall_mem_cons.1 h
    exact hitem.append (ih hitems)

/-- A gap holds no brace, and a rule is a group. -/
lemma Part.Sound.nested {part : Part} (h : part.Sound) : Nested part.text := by
  cases h with
  | blanks htext => exact (noBrace_of_allBlank htext).nested
  | statement htext _ =>
    apply NoBrace.nested
    exact noBrace_append.2 ⟨htext, by decide⟩
  | @rule head declarations closing hplain _ _ _ _ _ _ hinner _ =>
    have hhead : NoBrace head :=
      ⟨fun hmem => (hplain _ hmem).1 rfl, fun hmem => (hplain _ hmem).2.1 rfl⟩
    have hgroup := hhead.nested.append (.group hinner .nil)
    simpa [Part.text] using hgroup

namespace Item

/-- The query of a media rule. -/
def queryText : Item → Text
  | plain _ => []
  | media query _ => query

/-- The parts of a media rule are well nested. -/
lemma nested_parts {parts : List Part} (h : ∀ part ∈ parts, part.Sound) :
    Nested (Part.textAll parts) :=
  nested_flatMap fun part hpart => (h part hpart).nested

/-- A query without closing braces leaves an item well nested. -/
lemma Sound.nested {item : Item} (h : item.Sound) (hquery : '}' ∉ item.queryText) :
    Nested item.text := by
  cases h with
  | plain hpart => exact hpart.nested
  | @media query parts hopen _ hparts =>
    have hname : NoBrace (mediaWord ++ query) := noBrace_append.2 ⟨by decide, hopen, hquery⟩
    have hgroup := hname.nested.append (.group (nested_parts hparts) .nil)
    simpa [Item.text] using hgroup

/-- An item closes more braces than it opens by those in its query. -/
lemma Sound.count_close {item : Item} (h : item.Sound) :
    item.text.count '}' = item.text.count '{' + item.queryText.count '}' := by
  cases h with
  | plain hpart =>
    have htotal := hpart.nested.balanced.total
    simpa [Item.text, queryText] using htotal
  | @media query parts hopen _ hparts =>
    have htotal := (nested_parts hparts).balanced.total
    have hnone := List.count_eq_zero.2 hopen
    simp [Item.text, queryText, mediaWord, hnone, htotal]
    omega

variable {items : List Item}

/-- Items close the braces that they open, and those that their queries close. -/
lemma count_close_textAll (h : ∀ item ∈ items, item.Sound) :
    (textAll items).count '}' =
      (textAll items).count '{' + (items.flatMap queryText).count '}' := by
  induction items with
  | nil => rfl
  | cons item items ih =>
    obtain ⟨hitem, hitems⟩ := List.forall_mem_cons.1 h
    have hcount := hitem.count_close
    have hrest := ih hitems
    simp only [textAll, List.flatMap_cons, List.count_append] at hrest ⊢
    omega

/-- A layout is balanced exactly if no query holds a closing brace. -/
lemma balanced_textAll_iff (h : ∀ item ∈ items, item.Sound) :
    Balanced (textAll items) ↔ ∀ item ∈ items, '}' ∉ item.queryText := by
  constructor
  · intro hbalanced item hitem hmem
    have hcount := count_close_textAll h
    rw [hbalanced.total] at hcount
    have hnone : '}' ∉ items.flatMap queryText := by
      rw [← List.count_eq_zero]
      omega
    exact hnone (List.mem_flatMap.2 ⟨item, hitem, hmem⟩)
  · intro hqueries
    apply Nested.balanced
    exact nested_flatMap fun item hitem => (h item hitem).nested (hqueries item hitem)

end Item

/-! ## Printed stylesheets -/

/-- The items with a query are those of the media rules that are printed. -/
lemma forall_queryText_iff {c : Char} (hc : c ≠ ' ') (listing : Listing) :
    (∀ item ∈ listingItems listing, c ∉ item.queryText) ↔
      ∀ query rules, (.media query, rules) ∈ listing → rules ≠ [] → c ∉ query := by
  constructor
  · intro h query rules hmem hne hin
    obtain ⟨rule, others, rfl⟩ := List.exists_cons_of_ne_nil hne
    have hitem : Item.media (' ' :: query ++ [' '])
        (.gap ['\n'] :: ruleParts indentWidth (rule :: others)) ∈ listingItems listing :=
      List.mem_flatMap.2 ⟨_, hmem, List.mem_cons_self⟩
    apply h _ hitem
    simp [Item.queryText, hin]
  · intro h item hitem
    rcases mem_listingItems_cases hitem with
      ⟨rules, part, -, -, rfl⟩ | ⟨query, rules, hmem, hne, rfl⟩ | rfl
    · exact List.not_mem_nil
    · have hquery := h query rules hmem hne
      simp [Item.queryText, hquery, hc]
    · exact List.not_mem_nil

/-- The braces of a printed stylesheet are balanced exactly if no query of a scope with rules holds
a closing brace. -/
lemma balanced_sheetText_iff {sheet : Stylesheet} (h : sheet.WellFormed) :
    Balanced (sheetText sheet) ↔
      ∀ query rules, (.media query, rules) ∈ sheet.listing → rules ≠ [] → '}' ∉ query := by
  rw [sheetText_eq, Item.balanced_textAll_iff (sound_listingItems h.listing),
    forall_queryText_iff (by decide)]

/-- What is kept of a stylesheet lists what its texts say and the live set holds. -/
lemma listing_keptOf (live : LiveSet) (name : String) (css : List (String × Text)) :
    (keptOf live name css).listing =
      (gatherContents (contentsOf name css)).map fun group =>
        (group.1, group.2.filter fun rule => live.isLive rule.1) := by
  rw [keptOf, Stylesheet.listing_filter, Stylesheet.listing_insertAll, content_entriesOf]

end Css

open Css

/-- In expanded output without a banner, the braces of an output are balanced exactly if no text of
its name says a live rule under a query that holds a closing brace. -/
theorem prune_balanced_iff {html : List Text} {css : List (String × Text)} {settings : Settings}
    (hlayout : settings.layout = .expanded) (hbanner : settings.banner = none) {output : Output}
    (houtput : output ∈ (prune html css settings).result) :
    Balanced output.text ↔
      ∀ text, (output.name, text) ∈ css → ∀ content ∈ textContents text,
        (liveSelectors html settings).isLive content.selector = true →
          ∀ query, content.scope = .media query → '}' ∉ query := by
  obtain ⟨name, -, rfl⟩ := exists_of_mem_result_prune houtput
  have htext : (Output.ofSheet settings name (keptOf (liveSelectors html settings) name css)).text =
      sheetText (keptOf (liveSelectors html settings) name css) := by
    rw [Output.ofSheet, Output.textOf, hlayout, hbanner]
    rfl
  rw [htext, balanced_sheetText_iff (wellFormed_keptOf _ _ _), listing_keptOf]
  constructor
  · intro h text hmem content hcontent hlive query hscope
    have hkept := (exists_kept_iff (liveSelectors html settings).isLive (contentsOf name css)
      (.media query)).2 ⟨content, mem_contentsOf.2 ⟨text, hmem, hcontent⟩, hscope, hlive⟩
    obtain ⟨rules, hrules, hne⟩ := hkept
    exact h query rules hrules hne
  · intro h query rules hrules hne
    obtain ⟨content, hcontent, hscope, hlive⟩ := (exists_kept_iff
      (liveSelectors html settings).isLive (contentsOf name css) (.media query)).1
        ⟨rules, hrules, hne⟩
    obtain ⟨text, hmem, hcontent⟩ := mem_contentsOf.1 hcontent
    exact h text hmem content hcontent hlive query hscope

/-- What the braces in declarations leave open is closed, on both sides of a media rule. -/
theorem prune_balanced_open_braces :
    let css :=
      [("a.css",
        "a\x7bb\x7bc\x7d @media p\x7ba\x7bd\x7d\x7d a\x7be\x7bf\x7d \x7d \x7d".toList)]
    ∀ output ∈ (prune [] css { whitelist := ["a"] }).result, Balanced output.text := by
  intro css output houtput
  apply (prune_balanced_iff rfl rfl houtput).2
  intro text hmem content hcontent _ query hscope
  obtain ⟨-, rfl⟩ := Prod.mk.inj (List.mem_singleton.1 hmem)
  have hqueries : ∀ content ∈ textContents
      "a\x7bb\x7bc\x7d @media p\x7ba\x7bd\x7d\x7d a\x7be\x7bf\x7d \x7d \x7d".toList,
      content.scope = .topLevel ∨ content.scope = .media ['p'] := by decide +kernel
  rcases hqueries content hcontent with htop | hmedia
  · exact Scope.noConfusion (htop.symm.trans hscope)
  · obtain rfl := Scope.media.inj (hmedia.symm.trans hscope)
    decide

/-- A closing brace between an `@media` and its block is printed with the query, and nothing opens
it. -/
theorem prune_unbalanced_query :
    ∃ output ∈ (prune [] [("a.css", "@media \x7d x\x7ba\x7bb\x7d\x7d".toList)]
        { whitelist := ["a"] }).result, ¬ Balanced output.text := by
  decide +kernel

end CssPrune
