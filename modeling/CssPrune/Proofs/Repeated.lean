import CssPrune.Proofs.Placement
import CssPrune.Proofs.Spending
import CssPrune.Prune

/-!
# Pruning what was pruned

Pruning its own output again changes nothing, unless the output holds a comment or an empty selector
list that is not read as one (`prune_again_iff`). If it does neither, reading undoes printing. If it
holds a comment, taking that out leaves fewer slashes than were printed, and if an empty selector
list stands where its brace opens no rule, that brace is lost; what is read and printed again never
holds more of a character than its text, so it differs.
-/

namespace CssPrune

open Css

namespace Css

/-! ## Printing a settled listing -/

/-- A statement that was ended needs no second semicolon. -/
lemma endStatement_endStatement (text : Text) :
    endStatement (endStatement text) = endStatement text := by
  rcases endStatement_eq text with heq | heq
  · rw [heq, heq]
  · rw [heq, endStatement, if_pos List.getLast?_concat]

/-- A rule is printed as it is with its declarations joined. -/
lemma rulePart_settled (indent : Nat) (selector : Text) {declarations : List Text}
    (h : ∀ text ∈ declarations, IsDeclarationText text) :
    rulePart indent selector [endStatement (joined declarations)] =
      rulePart indent selector declarations := by
  have hsingle : joined [endStatement (joined declarations)] = endStatement (joined declarations) :=
    List.intercalate_singleton
  have htrim :
      Text.trim (endStatement (joined declarations)) = endStatement (joined declarations) :=
    Text.trim_eq_self (Text.solidEnds_of_collapsed (collapse_endStatement (collapse_joined h)))
  have hmissing : missingBraces (endStatement (joined declarations)) =
      missingBraces (joined declarations) := by
    rw [missingBraces, missingBraces, count_endStatement (by decide),
      count_endStatement (by decide)]
  rw [rulePart, rulePart, hsingle, htrim, trim_joined h, hmissing, endStatement_endStatement]

/-- The rules of a scope are printed as they are with their declarations joined. -/
lemma ruleParts_settled (indent : Nat) {rules : List (Text × List Text)}
    (h : ∀ rule ∈ rules, ∀ text ∈ rule.2, IsDeclarationText text) :
    ruleParts indent (rules.map fun (selector, declarations) =>
        (selector, [endStatement (joined declarations)])) = ruleParts indent rules := by
  rw [ruleParts, ruleParts, List.flatMap_map]
  apply List.flatMap_congr
  rintro ⟨selector, declarations⟩ hmem
  show [rulePart indent selector [endStatement (joined declarations)], _] = _
  rw [rulePart_settled indent selector (h _ hmem)]

/-- Joining the declarations and dropping the scopes without rules does not show. -/
lemma listingItems_settled {listing : Listing} (h : listing.WellFormed) :
    listingItems listing.settled = listingItems listing := by
  have hscope (scope : Scope) (rules : List (Text × List Text)) (hmem : (scope, rules) ∈ listing) :
      scopeItems (scope, rules.map fun (selector, declarations) =>
        (selector, [endStatement (joined declarations)])) = scopeItems (scope, rules) := by
    have hparts (indent : Nat) := ruleParts_settled indent (h.declarations scope rules hmem)
    cases rules with
    | nil => rfl
    | cons rule rules =>
      rw [List.map_cons] at hparts ⊢
      cases scope with
      | topLevel =>
        rw [scopeItems, hparts, scopeItems]
        · simp
        · simp
      | media query =>
        rw [scopeItems, hparts, scopeItems]
        · simp
        · simp
  have hdeclarations := h.declarations
  clear h
  rw [listingItems, listingItems, Listing.settled, List.flatMap_map]
  induction listing with
  | nil => rfl
  | cons entry listing ih =>
    obtain ⟨scope, rules⟩ := entry
    have hrest := ih (fun scope rules hmem => hscope scope rules (List.mem_cons_of_mem _ hmem))
      fun scope rules hmem => hdeclarations scope rules (List.mem_cons_of_mem _ hmem)
    rw [List.flatMap_cons, ← hrest, ← hscope scope rules List.mem_cons_self]
    cases rules with
    | nil => rfl
    | cons rule rules =>
      rw [List.filter_cons_of_pos (by simp), List.flatMap_cons]

end Css

/-! ## Reading and printing again -/

/-- A removal leaves the listing without the rules that it removes. -/
lemma Stylesheet.listing_filter (sheet : Stylesheet) (keep : Text → Bool) :
    (sheet.filter keep).listing =
      sheet.listing.map fun group => (group.1, group.2.filter fun rule => keep rule.1) := by
  rw [listing, listing, filter, OrderedMap.mapValues, List.map_map, List.map_map]
  apply List.map_congr_left
  rintro ⟨scope, rules⟩ -
  simp [RuleSet.listing, OrderedMap.filterKeys, List.filter_map, Function.comp_def]

/-- The stylesheet that a text is read as, without the rules that are not kept. -/
def keptSheet (keep : Text → Bool) (name : String) (css : Text) : Stylesheet :=
  (Stylesheet.empty.insertAll (Reading.ofSource ⟨name, css⟩).entries).filter keep

/-- What is kept of a stylesheet is well formed. -/
lemma wellFormed_keptSheet (keep : Text → Bool) (name : String) (css : Text) :
    (keptSheet keep name css).WellFormed :=
  (Stylesheet.wellFormed_empty.insertAll (Reading.wellFormed_ofSource _)).filter keep

/-- What is kept of a stylesheet lists the rules of its text that are kept. -/
lemma listing_keptSheet (keep : Text → Bool) (name : String) (css : Text) :
    (keptSheet keep name css).listing =
      (gatherContents (sheetContents (withoutComments (unifyLineEnds css)))).map fun group =>
        (group.1, group.2.filter fun rule => keep rule.1) := by
  rw [keptSheet, Stylesheet.listing_filter, Stylesheet.listing_insertAll,
    ← Reading.contents_ofSource ⟨name, css⟩]
  rfl

/-- What is kept of a stylesheet has kept rules only. -/
lemma keep_of_mem_keptSheet (keep : Text → Bool) (name : String) (css : Text) :
    ∀ group ∈ (keptSheet keep name css).listing, ∀ rule ∈ group.2, keep rule.1 = true := by
  rw [listing_keptSheet]
  intro group hmem rule hrule
  obtain ⟨_, -, rfl⟩ := List.mem_map.1 hmem
  exact (List.mem_filter.1 hrule).2

/-- A settled listing of kept rules is not changed by a filter. -/
lemma filter_settled {listing : Listing} {keep : Text → Bool}
    (h : ∀ group ∈ listing, ∀ rule ∈ group.2, keep rule.1 = true) :
    (listing.settled.map fun group => (group.1, group.2.filter fun rule => keep rule.1)) =
      listing.settled := by
  conv_rhs => rw [← List.map_id listing.settled]
  apply List.map_congr_left
  intro group hmem
  obtain ⟨rules, hin, -, heq⟩ := Listing.mem_settled hmem
  have hall : group.2.filter (fun rule => keep rule.1) = group.2 := by
    apply List.filter_eq_self.2
    intro rule hrule
    rw [heq] at hrule
    obtain ⟨⟨selector, declarations⟩, hother, rfl⟩ := List.mem_map.1 hrule
    exact h _ hin (selector, declarations) hother
  rw [hall]
  rfl

section Again

variable {sheet : Stylesheet} (h : sheet.WellFormed)

include h

/-- The rules of a printed stylesheet stay exactly if its settled listing is placed. -/
lemma placed_outline_settled_iff :
    (Item.outline (listingItems sheet.listing)).Placed ↔ sheet.listing.settled.Placed := by
  have hitems := listingItems_settled h.listing
  have hsound := sound_listingItems h.listing
  rw [← hitems]
  apply placed_outline_iff
  · intro group hmem rule hrule
    obtain ⟨rules, hin, -, heq⟩ := Listing.mem_settled hmem
    rw [heq] at hrule
    obtain ⟨⟨selector, declarations⟩, hother, rfl⟩ := List.mem_map.1 hrule
    exact h.listing.selector _ _ hin (selector, declarations) hother
  · rwa [hitems]
  · intro group hmem
    obtain ⟨rules, -, hne, heq⟩ := Listing.mem_settled hmem
    simpa [heq] using hne
  · exact h.listing.scopes_settled

/-- What is printed again costs no more than what was read. -/
lemma count_sheetText_keptSheet_le (keep : Text → Bool) (name : String) {c : Char}
    (hc : Text.isBlank c = false) (hsemi : c ≠ ';') (hclose : c ≠ '}') (hword : c ∉ mediaWord) :
    (sheetText (keptSheet keep name (sheetText sheet))).count c ≤
      (gatherContents (sheetContents (withoutComments (sheetText sheet)))).cost c := by
  rw [sheetText_eq, listing_keptSheet, unifyLineEnds_sheetText h]
  calc
    _ ≤ _ := count_textAll_listingItems_le hc hsemi hclose hword _
    _ ≤ _ := Listing.cost_filter_le c keep _

/-- Taking a comment out costs a slash that is not printed again. -/
lemma sheetText_keptSheet_ne_of_holdsComment (keep : Text → Bool) (name : String)
    (hcomment : HoldsComment (sheetText sheet)) :
    sheetText (keptSheet keep name (sheetText sheet)) ≠ sheetText sheet := by
  intro heq
  have hprinted := count_sheetText_keptSheet_le h keep name (c := '/') (by decide) (by decide)
    (by decide) (by decide)
  have hread := cost_sheetContents_le (withoutComments (sheetText sheet))
  have hlost := count_withoutComments_lt hcomment
  rw [heq] at hprinted
  omega

/-- A brace that is lost is not printed again. -/
lemma sheetText_keptSheet_ne_of_not_placed (keep : Text → Bool) (name : String)
    (hcomment : ¬ HoldsComment (sheetText sheet)) (hplaced : ¬ sheet.listing.settled.Placed) :
    sheetText (keptSheet keep name (sheetText sheet)) ≠ sheetText sheet := by
  intro heq
  have hprinted := count_sheetText_keptSheet_le h keep name (c := '{') (by decide) (by decide)
    (by decide) (by decide)
  rw [← placed_outline_settled_iff h] at hplaced
  have hlost := (Item.shaped_outline (sound_listingItems h.listing)).cost_lt
    rules_ne_nil_of_mem_groups hplaced
  rw [heq, withoutComments_eq_self hcomment] at hprinted
  rw [Item.text_outline, ← sheetText_eq] at hlost
  omega

/-- A printed stylesheet is read and printed as it is exactly if it holds no comment and no empty
selector list that is lost. -/
lemma sheetText_keptSheet_iff {keep : Text → Bool}
    (hkeep : ∀ group ∈ sheet.listing, ∀ rule ∈ group.2, keep rule.1 = true) (name : String) :
    sheetText (keptSheet keep name (sheetText sheet)) = sheetText sheet ↔
      ¬ HoldsComment (sheetText sheet) ∧ sheet.listing.settled.Placed := by
  constructor
  · intro heq
    have hcomment : ¬ HoldsComment (sheetText sheet) := fun hcomment =>
      sheetText_keptSheet_ne_of_holdsComment h keep name hcomment heq
    refine ⟨hcomment, ?_⟩
    by_contra hnot
    exact sheetText_keptSheet_ne_of_not_placed h keep name hcomment hnot heq
  · rintro ⟨hcomment, hlisting⟩
    have hplaced := (placed_outline_settled_iff h).2 hlisting
    rw [sheetText_eq, listing_keptSheet, unifyLineEnds_sheetText h,
      withoutComments_eq_self hcomment, gatherContents_sheetText h hplaced, filter_settled hkeep,
      listingItems_settled h.listing, ← sheetText_eq]

end Again

/-! ## Whole runs -/

/-- The stylesheet that is left of a text. -/
def prunedSheet (html : List Text) (settings : Settings) (name : String) (css : Text) :
    Stylesheet :=
  keptSheet (html.foldl Session.addDocument (.start settings)).live.isLive name css

/-- Pruning one stylesheet gives one output. -/
lemma result_prune (html : List Text) (name : String) (css : Text) (settings : Settings) :
    (prune html [(name, css)] settings).result =
      [.ofSheet settings name (prunedSheet html settings name css)] := by
  obtain ⟨hsheets, hsettings⟩ := Session.foldl_addDocument (.start settings) html
  rw [prunedSheet]
  generalize hsession : html.foldl Session.addDocument (.start settings) = session at *
  have hpruned : ((session.addSheet name css).prune).sheets.byName =
      ⟨[(name, keptSheet session.live.isLive name css)]⟩ := by
    rw [Session.sheets_prune, Session.sheets_addSheet, Session.live_addSheet, hsheets]
    rfl
  have hlast : ((session.addSheet name css).prune).settings = settings := by
    rw [Session.settings_prune, Session.settings_addSheet, hsettings]
    rfl
  show ((html.foldl Session.addDocument (.start settings)).addSheet name css).prune.outputs = _
  rw [hsession, Session.outputs, Sheets.outputs, hpruned, hlast]
  rfl

/-- In expanded output without a banner, pruning what was pruned changes nothing exactly if it holds
no comment and no empty selector list that is lost. -/
theorem prune_again_iff (html : List Text) (name again : String) (css : Text) {settings : Settings}
    (hlayout : settings.layout = .expanded) (hbanner : settings.banner = none) :
    (prune html [(again, lastText (prune html [(name, css)] settings).result)]
          settings).result.map (·.text) =
        (prune html [(name, css)] settings).result.map (·.text) ↔
      ¬ HoldsComment (lastText (prune html [(name, css)] settings).result) ∧
        (prunedSheet html settings name css).listing.settled.Placed := by
  have htext (name : String) (sheet : Stylesheet) :
      (Output.ofSheet settings name sheet).text = sheetText sheet := by
    rw [Output.ofSheet, Output.textOf, hlayout, hbanner]
    rfl
  have hlast : lastText (prune html [(name, css)] settings).result =
      sheetText (prunedSheet html settings name css) := by
    rw [result_prune]
    exact htext name _
  rw [hlast, result_prune, result_prune, List.map_singleton, List.map_singleton, htext, htext,
    List.singleton_inj]
  exact sheetText_keptSheet_iff (wellFormed_keptSheet _ _ _) (keep_of_mem_keptSheet _ _ _) again

/-- A stylesheet that is left whole. -/
theorem prune_again_whitelisted :
    (prune [] [("b.css", lastText (prune [] [("a.css", "a { b }".toList)]
          { whitelist := ["a"] }).result)] { whitelist := ["a"] }).result.map (·.text) =
      (prune [] [("a.css", "a { b }".toList)] { whitelist := ["a"] }).result.map (·.text) := by
  have hlayout : ({ whitelist := ["a"] } : Settings).layout = .expanded := rfl
  have hbanner : ({ whitelist := ["a"] } : Settings).banner = none := rfl
  apply (prune_again_iff [] "a.css" "b.css" "a { b }".toList hlayout hbanner).2
  constructor
  · intro hcomment
    obtain ⟨before, body, behind, htext⟩ := hcomment
    have hmark : ¬ commentMark <:+: lastText (prune [] [("a.css", "a { b }".toList)]
        { whitelist := ["a"] }).result := by decide +kernel
    apply hmark
    rw [htext]
    exact ⟨before, body ++ '*' :: '/' :: behind, by simp [commentMark]⟩
  · have hlisting :
        (prunedSheet [] { whitelist := ["a"] } "a.css" "a { b }".toList).listing.settled =
          [(.topLevel, [(['a'], ["b;".toList])])] := by decide +kernel
    rw [hlisting]
    constructor
    · intro rules hhead rule hrule
      obtain rfl : [(['a'], ["b;".toList])] = rules := by simpa using hhead
      obtain rfl : (['a'], ["b;".toList]) = rule := by simpa using hrule
      decide
    · nofun

/-- Taking a comment out joins a slash and a star, and what is printed holds a comment that was not
in the text. -/
theorem prune_again_joined_mark :
    let css := ".a\x7bx:/".toList ++ "/**/".toList ++ "*y\x7d .b\x7bz:*/\x7d".toList
    let html := ["<p class=\"a b\">".toList]
    (prune html [("b.css", lastText (prune html [("a.css", css)] {}).result)] {}).result.map
        (·.text) ≠
      (prune html [("a.css", css)] {}).result.map (·.text) := by
  decide +kernel

end CssPrune
