import CssPrune.Html.Scan
import CssPrune.Proofs.Captures
import CssPrune.Proofs.Maps
import Mathlib.Algebra.Group.Nat.Even

/-!
# Class attributes

Which classes a document names. A document with an even number of double quotes is a list of values
in quotes and of texts around them (`Html.exists_quotation`). The search for class attributes goes
through such a document in step with its quotes: each value behind a text that ends like the
beginning of a class attribute is captured, and nothing else is (`Html.captures_classPattern`),
unless a value ends like that itself. The other searches name no class, so the tokens that begin
with a dot are those of the words in these values (`References.scan_classes`).
-/

namespace CssPrune

open Text (doubleQuote singleQuote isBlank isWordChar AllBlank trimEnd)

namespace Html

/-! ## Openings -/

/-- The name of a class attribute. -/
def classWord : Text := ['c', 'l', 'a', 's', 's']

/-- The beginning of a class attribute: its name, and an equals sign between blanks. -/
def IsClassOpening (start : Text) : Prop :=
  ∃ before behind, AllBlank before ∧ AllBlank behind ∧
    start = classWord ++ (before ++ '=' :: behind)

/-- A stretch of a text ends like the beginning of a class attribute. -/
def EndsInClass (stretch : Text) : Prop :=
  ∃ lead start, stretch = lead ++ start ∧ IsClassOpening start

/-- A stretch ends in the word and an equals sign, blanks apart. -/
lemma endsInClass_iff {stretch : Text} :
    EndsInClass stretch ↔ (trimEnd stretch).getLast? = some '=' ∧
      classWord <:+ trimEnd (trimEnd stretch).dropLast := by
  have hequals : isBlank '=' = false := by decide
  constructor
  · rintro ⟨lead, _, rfl, before, behind, hbefore, hbehind, rfl⟩
    have hword : trimEnd (lead ++ classWord) = lead ++ classWord := by
      have hsplit : lead ++ classWord = lead ++ ['c', 'l', 'a', 's'] ++ ['s'] := by simp [classWord]
      rw [hsplit, Text.trimEnd_concat (by decide)]
    have htrim : trimEnd (lead ++ (classWord ++ (before ++ '=' :: behind))) =
        lead ++ classWord ++ before ++ ['='] := by
      have hsplit : lead ++ (classWord ++ (before ++ '=' :: behind)) =
          lead ++ classWord ++ before ++ ['='] ++ behind := by simp
      rw [hsplit, Text.trimEnd_append_allBlank _ hbehind, Text.trimEnd_concat hequals]
    rw [htrim, List.getLast?_concat, List.dropLast_concat, Text.trimEnd_append_allBlank _ hbefore,
      hword]
    exact ⟨rfl, List.suffix_append _ _⟩
  · rintro ⟨hlast, lead, hlead⟩
    -- the blanks that were trimmed off stand on both sides of the equals sign
    obtain ⟨behind, hbehind, hstretch⟩ := Text.exists_trimEnd stretch
    obtain ⟨before, hbefore, hfront⟩ := Text.exists_trimEnd (trimEnd stretch).dropLast
    obtain ⟨front, hsplit⟩ := List.getLast?_eq_some_iff.1 hlast
    rw [hsplit, List.dropLast_concat] at hlead hfront
    refine ⟨lead, _, ?_, before, behind, hbefore, hbehind, rfl⟩
    rw [hstretch, hsplit, hfront, ← hlead]
    simp

instance (stretch : Text) : Decidable (EndsInClass stretch) :=
  decidable_of_iff' _ endsInClass_iff

/-- Blanks hold no letter of the word. -/
lemma count_allBlank {blanks : Text} (h : AllBlank blanks) : blanks.count 'c' = 0 := by
  rw [List.count_eq_zero]
  intro hmem
  cases h 'c' hmem

namespace IsClassOpening

variable {start : Text}

/-- No quote is part of what opens a class value. -/
lemma not_mem (h : IsClassOpening start) : doubleQuote ∉ start := by
  obtain ⟨before, behind, hbefore, hbehind, rfl⟩ := h
  have hnone {blanks : Text} (hblanks : AllBlank blanks) : doubleQuote ∉ blanks := by
    intro hmem
    cases hblanks _ hmem
  have hword : doubleQuote ∉ classWord := by decide
  have hequals : doubleQuote ≠ '=' := by decide
  simp [hword, hequals, hnone hbefore, hnone hbehind]

/-- What opens a class value holds the first letter of the word once. -/
lemma count_eq (h : IsClassOpening start) : start.count 'c' = 1 := by
  obtain ⟨before, behind, hbefore, hbehind, rfl⟩ := h
  simp [classWord, count_allBlank hbefore, count_allBlank hbehind]

/-- There is no opening around an opening, for it would hold a second `c`. -/
lemma eq_nil {front : Text} (h : IsClassOpening start) (haround : IsClassOpening (front ++ start)) :
    front = [] := by
  have hcount := haround.count_eq
  rw [List.count_append, h.count_eq] at hcount
  obtain ⟨before, behind, -, -, heq⟩ := haround
  cases front with
  | nil => rfl
  | cons c front =>
    obtain rfl : c = 'c' := (List.cons.inj heq).1
    simp at hcount

end IsClassOpening

/-- The pattern of class attributes matches an opening and a text in double quotes. -/
lemma quotes_classPattern : classPattern.Quotes IsClassOpening fun _ quoted => quoted where
  opening := by
    intro start h
    refine ⟨?_, h.not_mem⟩
    obtain ⟨before, behind, -, -, rfl⟩ := h
    exact List.cons_ne_nil _ _
  read? := by
    rintro _ quoted rest ⟨before, behind, hblank, hblanks, rfl⟩ hquoted
    have hbefore : Part.readAll? classPattern.before (classWord ++ (before ++ (['='] ++
        (behind ++ ([doubleQuote] ++ (quoted ++ ([doubleQuote] ++ rest))))))) =
        some (classWord ++ (before ++ (['='] ++ (behind ++ ([doubleQuote] ++ [])))),
          quoted ++ ([doubleQuote] ++ rest)) := by
      refine Part.readAll?_cons_append rfl (fun _ _ => rfl) ?_
      refine Part.readAll?_cons_append hblank ?_ ?_
      · rintro _ ⟨⟩
        decide
      refine Part.readAll?_cons_append rfl (fun _ _ => rfl) ?_
      refine Part.readAll?_cons_append hblanks ?_ ?_
      · rintro _ ⟨⟩
        decide
      exact Part.readAll?_cons_append rfl (fun _ _ => rfl) rfl
    have hcaptured : Part.readAll? classPattern.captured (quoted ++ ([doubleQuote] ++ rest)) =
        some (quoted ++ [], [doubleQuote] ++ rest) := by
      refine Part.readAll?_cons_append (Text.bne_of_not_mem hquoted) ?_ rfl
      rintro _ ⟨⟩
      decide
    have hafter : Part.readAll? classPattern.after ([doubleQuote] ++ rest) =
        some ([doubleQuote] ++ [], rest) := Part.readAll?_cons_append rfl (fun _ _ => rfl) rfl
    have hread := Pattern.read?_of_readAll? hbefore hcaptured hafter
    simpa using hread
  of_read? := by
    intro text found rest h
    obtain ⟨lead, middle, last, trail, hbefore, hcaptured, hafter⟩ := Pattern.exists_of_read? h
    obtain ⟨_, _, _, rfl, hname, rfl, -⟩ := Part.exists_of_readAll?_cons hbefore
    obtain ⟨before, _, _, hblank, hequals, rfl, -⟩ := Part.exists_of_readAll?_cons hname
    obtain ⟨_, _, _, rfl, hvalue, rfl, -⟩ := Part.exists_of_readAll?_cons hequals
    obtain ⟨behind, _, _, hblanks, hquote, rfl, -⟩ := Part.exists_of_readAll?_cons hvalue
    obtain ⟨_, _, _, rfl, hnil, rfl, -⟩ := Part.exists_of_readAll?_cons hquote
    cases hnil
    obtain ⟨quoted, _, _, hquoted, hnil, rfl, rfl⟩ := Part.exists_of_readAll?_cons hcaptured
    cases hnil
    obtain ⟨_, _, _, rfl, hnil, rfl, -⟩ := Part.exists_of_readAll?_cons hafter
    cases hnil
    refine ⟨classWord ++ (before ++ '=' :: behind), quoted,
      ⟨before, behind, hblank, hblanks, rfl⟩, ?_, by simp, by simp [classWord]⟩
    intro hmem
    simpa using hquoted _ hmem

/-! ## Documents -/

/-- A value in double quotes, and what stands between it and the next one. -/
structure Quoted where
  value : Text
  behind : Text
  closed : doubleQuote ∉ value ∧ doubleQuote ∉ behind

/-- A document cut at its double quotes. -/
structure Quotation where
  lead : Text
  parts : List Quoted
  closed : doubleQuote ∉ lead

namespace Quoted

/-- A part as it is written. -/
def text (part : Quoted) : Text :=
  doubleQuote :: (part.value ++ doubleQuote :: part.behind)

/-- The values that stand behind a text which ends like the beginning of a class attribute; `lead`
stands in front of the first one. -/
def classValues (lead : Text) : List Quoted → List Text
  | [] => []
  | part :: parts =>
    if EndsInClass lead then part.value :: classValues part.behind parts
    else classValues part.behind parts

end Quoted

namespace Quotation

/-- A document as it is written. -/
def text (document : Quotation) : Text :=
  document.lead ++ document.parts.flatMap Quoted.text

/-- The values of the class attributes of a document. -/
def classValues (document : Quotation) : List Text :=
  Quoted.classValues document.lead document.parts

end Quotation

/-- A document with an even number of double quotes can be cut at them. -/
lemma exists_quotation {text : Text} (h : Even (text.count doubleQuote)) :
    ∃ document : Quotation, document.text = text := by
  induction hn : text.length using Nat.strong_induction_on generalizing text with
  | _ n ih =>
    by_cases hopen : doubleQuote ∈ text
    · -- the first quote opens a value, which an odd number of quotes behind it has to close
      obtain ⟨lead, rest, rfl, hlead⟩ := List.eq_append_cons_of_mem hopen
      have hodd : ¬ Even (rest.count doubleQuote) := by
        simpa [List.count_eq_zero.2 hlead, Nat.even_add_one] using h
      have hclose : doubleQuote ∈ rest := by
        by_contra hnone
        rw [List.count_eq_zero.2 hnone] at hodd
        exact hodd ⟨0, rfl⟩
      obtain ⟨value, rest, rfl, hvalue⟩ := List.eq_append_cons_of_mem hclose
      have heven : Even (rest.count doubleQuote) := by
        simpa [List.count_eq_zero.2 hvalue, Nat.even_add_one] using hodd
      obtain ⟨⟨behind, parts, hbehind⟩, rfl⟩ := ih rest.length (by simp at hn; omega) heven rfl
      exact ⟨⟨lead, ⟨value, behind, hvalue, hbehind⟩ :: parts, hlead⟩, by
        simp [Quotation.text, Quoted.text]⟩
    · exact ⟨⟨text, [], hopen⟩, List.append_nil text⟩

/-- A stretch that does not end in what opens a class value holds no such opening at its end. -/
lemma not_isClassOpening {stretch : Text} (h : ¬ EndsInClass stretch) :
    ∀ start, start <:+ stretch → ¬ IsClassOpening start := by
  rintro start ⟨lead, rfl⟩ hopens
  exact h ⟨lead, start, rfl, hopens⟩

/-- The search for class attributes goes from value to value, unless one of them ends like the
beginning of a class attribute. -/
theorem captures_classPattern {lead : Text} {parts : List Quoted} (hlead : doubleQuote ∉ lead)
    (h : ∀ part ∈ parts, ¬ EndsInClass part.value) :
    classPattern.captures (lead ++ parts.flatMap Quoted.text) = Quoted.classValues lead parts := by
  induction parts generalizing lead with
  | nil =>
    rw [List.flatMap_nil, List.append_nil]
    exact quotes_classPattern.captures_eq_nil hlead
  | cons part parts ih =>
    obtain ⟨hvalue, hparts⟩ := List.forall_mem_cons.1 h
    obtain ⟨hquoted, hbehind⟩ := part.closed
    have htext : (part :: parts).flatMap Quoted.text = doubleQuote ::
        (part.value ++ doubleQuote :: (part.behind ++ parts.flatMap Quoted.text)) := by
      simp [Quoted.text]
    rw [htext, Quoted.classValues, ← ih hbehind hparts]
    split
    · -- the match takes the value, and the search goes on behind the quote that closes it
      rename_i hopen
      obtain ⟨front, start, rfl, hopens⟩ := hopen
      rw [List.append_assoc]
      apply quotes_classPattern.captures_of_opens hlead _ hopens hquoted
      rintro before rest rfl hne haround
      exact hne (hopens.eq_nil haround)
    · -- the search passes the quote in front of the value and the one behind it
      rename_i hnot
      rw [quotes_classPattern.captures_of_not_opens hlead (not_isClassOpening hnot),
        quotes_classPattern.captures_of_not_opens hquoted (not_isClassOpening hvalue)]

/-! ## Tokens -/

/-- The words that a value stands for: its own or, if it holds a single quote, those of its quoted
literals of more than one byte. -/
def valueWords (value : Text) : List Text :=
  if singleQuote ∈ value then
    ((literalPattern.captures value).filter (1 < Text.utf8Size ·)).flatMap Text.words
  else Text.words value

/-- What a captured value is split into are the words of the value or of its quoted literals. -/
lemma fragments_eq (value : Text) : fragments value = valueWords value := by
  rw [fragments, valueWords, quotedLiterals, ← Text.words_intercalate]
  simp only [List.contains_iff_mem]
  split
  · rfl
  · rfl

/-- The extraction of classes. -/
def classExtraction : Extraction :=
  { pattern := classPattern, opening := ['.'] }

/-- The tokens of an extraction begin as its opening does. -/
lemma head?_of_mem_tokens {extraction : Extraction} {c : Char} {opening document token : Text}
    (hopening : extraction.opening = c :: opening) (h : token ∈ extraction.tokens document) :
    token.head? = some c := by
  obtain ⟨found, -, h⟩ := List.mem_flatMap.1 h
  obtain ⟨fragment, -, rfl⟩ := List.mem_map.1 h
  rw [hopening]
  rfl

/-- A tag is a word. -/
lemma isWordChar_of_mem_tagTokens {document token : Text}
    (h : token ∈ (Extraction.mk tagPattern [] []).tokens document) :
    ∀ c ∈ token, isWordChar c = true := by
  obtain ⟨found, hfound, h⟩ := List.mem_flatMap.1 h
  obtain ⟨fragment, hfragment, rfl⟩ := List.mem_map.1 h
  obtain ⟨place, rest, hread⟩ := Pattern.exists_of_mem_captures hfound
  obtain ⟨lead, middle, last, trail, -, hcaptured, -⟩ := Pattern.exists_of_read? hread
  obtain ⟨run, _, _, ⟨-, hword⟩, hnil, -, rfl⟩ := Part.exists_of_readAll?_cons hcaptured
  cases hnil
  rw [List.append_nil] at hfragment
  have hquote : singleQuote ∉ run := fun hmem => absurd (hword _ hmem) (by decide)
  rw [fragments_eq, valueWords, if_neg hquote] at hfragment
  intro c hc
  rw [List.append_nil, List.nil_append] at hc
  exact hword c ((Text.infix_of_mem_words hfragment).subset hc)

/-- No tag begins with a dot. -/
lemma head?_of_mem_tagTokens {document token : Text}
    (h : token ∈ (Extraction.mk tagPattern [] []).tokens document) : token.head? ≠ some '.' := by
  intro hdot
  exact absurd (isWordChar_of_mem_tagTokens h '.' (List.mem_of_mem_head? hdot)) (by decide)

/-- Only the extraction of classes finds tokens that begin with a dot. -/
lemma filter_documentTokens (document : Text) :
    (documentTokens document).filter (·.head? == some '.') = classExtraction.tokens document := by
  have hsame : ∀ extraction ∈ extractions, ∀ token ∈ extraction.tokens document,
      (token.head? == some '.') = (extraction.opening == ['.']) := by
    have hshape : ∀ extraction ∈ extractions,
        extraction = ⟨tagPattern, [], []⟩ ∨ ∃ c, extraction.opening = [c] := by
      simp [extractions]
    intro extraction hextraction token htoken
    rcases hshape extraction hextraction with rfl | ⟨c, hopening⟩
    · exact beq_eq_false_iff_ne.2 (head?_of_mem_tagTokens htoken)
    · rw [head?_of_mem_tokens hopening htoken, hopening]
      simp
  rw [documentTokens, filter_flatMap_eq hsame]
  exact List.append_nil _

/-- The tokens for classes are the words of the captured values, each behind a dot. -/
lemma tokens_classExtraction (document : Text) :
    classExtraction.tokens document =
      (classPattern.captures document).flatMap fun value => (valueWords value).map ('.' :: ·) := by
  apply List.flatMap_congr
  intro value _
  simp [fragments_eq, classExtraction]

end Html

namespace References

open Html

/-- The tokens come in the order of their first occurrence. -/
lemma tokens_insertAll (tokens : List Text) :
    (initial.insertAll tokens).tokens = (universal :: tokens).eraseDups := by
  induction tokens using List.reverseRecOn with
  | nil => rfl
  | append_singleton tokens token ih =>
    have hmem :
        (universal :: tokens).contains token = (initial.insertAll tokens).contains token := by
      rw [contains, ih, Bool.eq_iff_iff, List.contains_iff_mem, List.contains_iff_mem,
        List.mem_eraseDups]
    rw [← List.cons_append, eraseDups_concat, ← ih, insertAll, List.foldl_concat, ← insertAll,
      insert, hmem]
    split
    · rfl
    · rfl

/-- Every document with an even number of double quotes is a list of values in quotes and of texts
around them. Unless one of these values ends like the beginning of a class attribute, the tokens of
the document that begin with a dot are those of the words in the values behind such a beginning, in
their order. -/
theorem scan_classes :
    (∀ text : Text, Even (text.count doubleQuote) → ∃ document : Quotation, document.text = text) ∧
    ∀ document : Quotation, (∀ part ∈ document.parts, ¬ EndsInClass part.value) →
      (initial.scan document.text).tokens.filter (·.head? == some '.') =
        (document.classValues.flatMap fun value =>
          (valueWords value).map ('.' :: ·)).eraseDups := by
  refine ⟨fun _ => exists_quotation, fun document h => ?_⟩
  have hvalues : classPattern.captures document.text = document.classValues :=
    captures_classPattern document.closed h
  rw [scan, tokens_insertAll, filter_eraseDups, List.filter_cons_of_neg (by decide),
    filter_documentTokens, tokens_classExtraction, hvalues]

/-- Classes in an attribute with blanks around its equals sign, and in an expression. -/
theorem scan_classes_bound :
    let document : Quotation := ⟨"<p class = ".toList,
      [⟨"b a".toList, " title=".toList, by decide⟩, ⟨".t".toList, " :class=".toList, by decide⟩,
        ⟨"x ? 'on' : 'a'".toList, ">".toList, by decide⟩], by decide⟩
    (∀ part ∈ document.parts, ¬ EndsInClass part.value) ∧
      (initial.scan document.text).tokens.filter (·.head? == some '.') =
        [".b".toList, ".a".toList, ".on".toList] := by
  intro document
  have hvalues : ∀ part ∈ document.parts, ¬ EndsInClass part.value := by decide +kernel
  exact ⟨hvalues, (scan_classes.2 document hvalues).trans (by decide +kernel)⟩

/-- A quoted literal of one byte names no class. -/
theorem scan_short_literal :
    let document : Quotation :=
      ⟨"<p class=".toList, [⟨"'x'".toList, ">".toList, by decide⟩], by decide⟩
    EndsInClass document.lead ∧ (∀ part ∈ document.parts, ¬ EndsInClass part.value) ∧
      literalPattern.captures "'x'".toList = ["x".toList] ∧
      ".x".toList ∉ (initial.scan document.text).tokens := by
  decide +kernel

end References

end CssPrune
