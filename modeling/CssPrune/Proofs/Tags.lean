import CssPrune.Proofs.ClassValues
import CssPrune.Proofs.DataAttributes

/-!
# Tags

Which rules of a tag are kept. The search for tags comes to every less-than sign and takes the word
behind it (`Html.mem_tokens_of_tag`). The name of a tag is such a word unless it holds a hyphen, as
the names of custom elements do: then the word ends at the hyphen, no document refers to the name
(`Html.not_mem_tokens_of_hyphen`), and the rules of the tag are dropped unless the whitelist holds
its name (`prune_tag_rules`).
-/

namespace CssPrune

open Text (isBlank isWordChar singleQuote NoBlank)

namespace Html

/-! ## Names -/

/-- The name of a tag: a letter, and letters, digits, hyphens and underscores behind it. -/
structure IsTagName (name : Text) : Prop where
  first : ∃ c ∈ name.head?, c.isAlpha = true
  chars : ∀ c ∈ name, isNameChar c = true

/-- The characters that end the name of a tag. -/
def EndsTagName (c : Char) : Prop :=
  isBlank c = true ∨ c = '/' ∨ c = '>'

/-- A character of names other than the hyphen is a word character. -/
lemma isWordChar_of_isNameChar {c : Char} (h : isNameChar c = true) (hc : c ≠ '-') :
    isWordChar c = true := by
  rw [isNameChar, Bool.or_eq_true, Bool.or_eq_true] at h
  rcases h with (halnum | hline) | hhyphen
  · exact Text.isWordChar_of_isAlphanum halnum
  · obtain rfl : c = '_' := by simpa using hline
    decide
  · exact absurd (by simpa using hhyphen) hc

/-- No blank is a word character. -/
lemma isWordChar_of_isBlank {c : Char} (h : isBlank c = true) : isWordChar c = false := by
  have hclasses : ∀ range ∈ Text.blankRanges, ∀ k < range.2 + 1 - range.1,
      Text.inRanges (range.1 + k) Text.wordRanges = false := by
    decide +kernel
  obtain ⟨range, hrange, hfirst, hlast⟩ := (Text.inRanges_iff (by decide)).1 h
  have hpoint := hclasses range hrange (c.toNat - range.1) (by omega)
  rwa [Nat.add_sub_cancel' hfirst] at hpoint

/-- What ends the name of a tag is no word character. -/
lemma EndsTagName.isWordChar {c : Char} (h : EndsTagName c) : isWordChar c = false := by
  rcases h with hblank | rfl | rfl
  · exact isWordChar_of_isBlank hblank
  · decide
  · decide

namespace IsTagName

variable {name : Text}

/-- The name of a tag is not empty. -/
lemma ne_nil (h : IsTagName name) : name ≠ [] := by
  rintro rfl
  obtain ⟨c, hc, -⟩ := h.first
  cases hc

/-- The name of a tag holds no blank. -/
lemma noBlank (h : IsTagName name) : NoBlank name :=
  fun c hc => isBlank_of_isNameChar (h.chars c hc)

/-- The name of a tag holds characters of names only. -/
lemma not_mem (h : IsTagName name) {c : Char} (hc : isNameChar c = false) : c ∉ name := by
  intro hmem
  rw [h.chars c hmem] at hc
  cases hc

/-- A name does not begin like a class, an id or a data attribute. -/
lemma head?_ne (h : IsTagName name) {c : Char} (hc : c.isAlpha = false) : name.head? ≠ some c := by
  intro hhead
  obtain ⟨first, hfirst, hletter⟩ := h.first
  obtain rfl : first = c := Option.some.inj (hfirst.symm.trans hhead)
  rw [hletter] at hc
  cases hc

/-- A name is looked up as it is. -/
lemma isLive_iff (h : IsTagName name) (live : LiveSet) :
    live.isLive name = true ↔ name ∈ live := by
  have hslash : ¬ ['\\', '/'] <:+: name := fun hin =>
    h.not_mem (by decide) (hin.subset List.mem_cons_self)
  have hcombined : Selector.isCombined name = false := by
    rw [Selector.isCombined_eq_false_iff]
    intro c hc
    have hmarks : Selector.combinators.all (!isNameChar ·) = true := by decide
    exact h.not_mem (by simpa using List.all_eq_true.1 hmarks c hc)
  have huniversal : name ≠ universal := by
    rintro rfl
    exact h.head?_ne (by decide) rfl
  rw [LiveSet.isLive_eq_contains (h.not_mem (by decide))
    (Selector.plain_eq_self (h.not_mem (by decide)) hslash) hcombined, LiveSet.contains_iff]
  exact or_iff_right huniversal

end IsTagName

/-! ## Tags in a document -/

/-- A word behind an angle bracket is read to its end. -/
lemma read?_tagPattern {word rest : Text} (hne : word ≠ [])
    (hword : ∀ c ∈ word, isWordChar c = true) (hstop : ∀ c ∈ rest.head?, isWordChar c = false) :
    tagPattern.read? ('<' :: (word ++ rest)) = some (word, rest) := by
  have hbefore : Part.readAll? tagPattern.before ('<' :: (word ++ rest)) =
      some (['<'], word ++ rest) :=
    Part.readAll?_cons_append (show (Part.literal ['<']).Takes ['<'] from rfl)
      (fun _ _ => rfl) rfl
  have hcaptured : Part.readAll? tagPattern.captured (word ++ rest) = some (word ++ [], rest) :=
    Part.readAll?_cons_append (show (Part.someOf isWordChar).Takes word from ⟨hne, hword⟩)
      hstop rfl
  rw [List.append_nil] at hcaptured
  exact Pattern.read?_of_readAll? hbefore hcaptured rfl

/-- What is read as a tag is a word behind an angle bracket. -/
lemma of_read?_tagPattern {text found rest : Text}
    (h : tagPattern.read? text = some (found, rest)) :
    (∀ c ∈ found, isWordChar c = true) ∧ text = '<' :: (found ++ rest) := by
  obtain ⟨lead, middle, last, trail, hbefore, hcaptured, hafter⟩ := Pattern.exists_of_read? h
  cases hafter
  obtain ⟨_, _, _, rfl, hnil, rfl, -⟩ := Part.exists_of_readAll?_cons hbefore
  cases hnil
  obtain ⟨word, _, _, ⟨-, hword⟩, hend, rfl, rfl⟩ := Part.exists_of_readAll?_cons hcaptured
  cases hend
  rw [List.append_nil]
  exact ⟨hword, rfl⟩

/-- The search for tags comes to every less-than sign. -/
lemma reaches_tag (front rest : Text) :
    tagPattern.Reaches (front ++ '<' :: rest) ('<' :: rest) := by
  refine Pattern.reaches_cons (fun hread => ?_) front rest
  obtain ⟨hword, heq⟩ := of_read?_tagPattern hread
  refine ⟨'<', _, heq, fun hmem => ?_⟩
  have hless : isWordChar '<' = false := by decide
  rw [hword '<' hmem] at hless
  cases hless

section Documents

variable {name : Text}

/-- The name of a tag is a token of its document if it holds no hyphen. -/
theorem mem_tokens_of_tag {front behind : Text} {next : Char} (hname : IsTagName name)
    (hnext : EndsTagName next) (hhyphen : '-' ∉ name) :
    name ∈ documentTokens (front ++ '<' :: (name ++ next :: behind)) := by
  have hword : ∀ c ∈ name, isWordChar c = true := fun c hc =>
    isWordChar_of_isNameChar (hname.chars c hc) (ne_of_mem_of_not_mem hc hhyphen)
  have hread :
      tagPattern.read? ('<' :: (name ++ next :: behind)) = some (name, next :: behind) := by
    apply read?_tagPattern hname.ne_nil hword
    rintro _ ⟨⟩
    exact hnext.isWordChar
  have hfound := Pattern.mem_captures (reaches_tag front (name ++ next :: behind)) hread
  have hextraction : { pattern := tagPattern } ∈ extractions := by simp [extractions]
  have htoken := mem_documentTokens hextraction hfound hname.ne_nil hname.noBlank
    (hname.not_mem (by decide))
  rwa [List.nil_append, List.append_nil] at htoken

/-- A name with a hyphen is a token of no document. -/
theorem not_mem_tokens_of_hyphen (hname : IsTagName name) (hhyphen : '-' ∈ name)
    (document : Text) : name ∉ documentTokens document := by
  have hshape : ∀ extraction ∈ extractions, extraction = ⟨tagPattern, [], []⟩ ∨
      ∃ c, c.isAlpha = false ∧ extraction.opening = [c] := by
    simp [extractions]
  intro htoken
  obtain ⟨extraction, hextraction, hmem⟩ := List.mem_flatMap.1 htoken
  rcases hshape extraction hextraction with rfl | ⟨c, hc, hopening⟩
  · -- a tag is a word, and a hyphen is in no word
    exact absurd (isWordChar_of_mem_tagTokens hmem '-' hhyphen) (by decide)
  · exact hname.head?_ne hc (head?_of_mem_tokens hopening hmem)

end Documents

end Html

/-! ## Rules that are kept -/

open Html

/-- What counts as used: the universal selector, the tokens of the documents and the whitelist. -/
lemma mem_liveSelectors_iff {html : List Text} {settings : Settings} {selector : Text} :
    selector ∈ liveSelectors html settings ↔ selector = universal ∨
      (∃ document ∈ html, selector ∈ documentTokens document) ∨
      String.ofList selector ∈ settings.whitelist := by
  have hwhitelist : selector ∈ settings.whitelist.map String.toList ↔
      String.ofList selector ∈ settings.whitelist := by
    rw [List.mem_map]
    constructor
    · rintro ⟨word, hword, rfl⟩
      rwa [String.ofList_toList]
    · exact fun hmem => ⟨_, hmem, String.toList_ofList⟩
  rw [LiveSet.mem_iff, liveSelectors, Session.live, mem_tokens_foldl_addDocument,
    (Session.foldl_addDocument _ html).2, ← or_assoc, ← hwhitelist]
  exact or_congr_left (or_congr_left List.mem_singleton)

/-- The rules of a tag of a document are left as they are unless the name of the tag holds a hyphen.
Those of a tag with a hyphen in its name are dropped unless the whitelist holds the name. -/
theorem prune_tag_rules {name front behind : Text} {next : Char} (hname : IsTagName name)
    (hnext : EndsTagName next) {html : List Text}
    (hdocument : front ++ '<' :: (name ++ next :: behind) ∈ html) (css : List (String × Text))
    (settings : Settings) :
    let stored := (Session.ofTexts html css settings).sheets
    let kept := remaining html css settings
    (prune html css settings).result = kept.outputs settings ∧
    ∀ file scope, kept.rule? file scope name =
      if '-' ∈ name ∧ String.ofList name ∉ settings.whitelist then none
      else stored.rule? file scope name := by
  refine ⟨result_prune_eq_outputs html css settings, fun file scope => ?_⟩
  have huniversal : name ≠ universal := by
    rintro rfl
    exact hname.head?_ne (by decide) rfl
  have hlive : (liveSelectors html settings).isLive name = true ↔
      ¬ ('-' ∈ name ∧ String.ofList name ∉ settings.whitelist) := by
    rw [hname.isLive_iff, mem_liveSelectors_iff, or_iff_right huniversal]
    constructor
    · rintro (⟨document, -, htoken⟩ | hlisted) ⟨hhyphen, hunlisted⟩
      · exact not_mem_tokens_of_hyphen hname hhyphen document htoken
      · exact hunlisted hlisted
    · intro h
      by_cases hhyphen : '-' ∈ name
      · exact Or.inr (by_contra fun hunlisted => h ⟨hhyphen, hunlisted⟩)
      · exact Or.inl ⟨_, hdocument, mem_tokens_of_tag hname hnext hhyphen⟩
  rw [rule?_remaining]
  by_cases hdropped : '-' ∈ name ∧ String.ofList name ∉ settings.whitelist
  · rw [if_pos hdropped, if_neg (hlive.not.2 (not_not.2 hdropped))]
  · rw [if_neg hdropped, if_pos (hlive.2 hdropped)]

/-- A tag with an underscore and a digit in its name, and a custom element, in one document. -/
theorem prune_tag_rules_custom_element :
    let html := ["<p><x_1\n<my-card/>".toList]
    let css := [("a.css", "x_1\x7ba\x7d my-card\x7bb\x7d".toList)]
    let stored := (Session.ofTexts html css {}).sheets
    let kept := remaining html css {}
    (stored.rule? "a.css" .topLevel "x_1".toList).isSome = true ∧
    kept.rule? "a.css" .topLevel "x_1".toList = stored.rule? "a.css" .topLevel "x_1".toList ∧
    (stored.rule? "a.css" .topLevel "my-card".toList).isSome = true ∧
    kept.rule? "a.css" .topLevel "my-card".toList = none := by
  intro html css stored kept
  have hplain : IsTagName "x_1".toList := ⟨⟨'x', rfl, by decide⟩, List.all_eq_true.1 (by decide)⟩
  have hcustom : IsTagName "my-card".toList :=
    ⟨⟨'m', rfl, by decide⟩, List.all_eq_true.1 (by decide)⟩
  have hdocument : "<p>".toList ++ '<' :: ("x_1".toList ++ '\n' :: "<my-card/>".toList) ∈ html := by
    decide
  have hother : "<p><x_1\n".toList ++ '<' :: ("my-card".toList ++ '/' :: ">".toList) ∈ html := by
    decide
  obtain ⟨-, hkept⟩ := prune_tag_rules hplain (.inl (by decide)) hdocument css {}
  obtain ⟨-, hdropped⟩ := prune_tag_rules hcustom (.inr (.inl rfl)) hother css {}
  exact ⟨by decide +kernel, hkept "a.css" .topLevel, by decide +kernel, hdropped "a.css" .topLevel⟩

/-- The rule of a custom element is dropped though a document holds its tag. -/
theorem prune_drops_custom_element :
    let html := ["<my-card>".toList]
    let css := [("a.css", "my-card\x7ba:b\x7d".toList)]
    IsTagName "my-card".toList ∧ '<' :: ("my-card".toList ++ ['>']) ∈ html ∧
      ((Session.ofTexts html css {}).sheets.rule?
        "a.css" .topLevel "my-card".toList).isSome = true ∧
      (remaining html css {}).rule? "a.css" .topLevel "my-card".toList = none := by
  refine ⟨⟨⟨'m', rfl, by decide⟩, List.all_eq_true.1 (by decide)⟩, ?_⟩
  decide +kernel

end CssPrune
