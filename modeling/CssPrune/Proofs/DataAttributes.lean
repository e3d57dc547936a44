import CssPrune.Html.Scan
import CssPrune.Proofs.Captures
import CssPrune.Proofs.LiveSelectors
import CssPrune.Proofs.LiveSets

/-!
# Data attributes

The rules that ask for a data attribute of a document are kept (`prune_keeps_data_attributes`). The
search for names comes to every blank (`Html.reaches_blank`), so the name of a data attribute is
always a token. The search for names with values goes from quote to quote: where a value ends like
the beginning of a data attribute, it takes the next attribute for the value, which then is hidden
(`Html.Attribute.Hide`). Of an attribute that is not hidden, the value has to stay in one piece when
the tokens of the document are made and when the selector is looked up (`Html.IsPlainValue`). Each
of these conditions is needed (`prune_drops_data_attributes`).
-/

namespace CssPrune

open Text (doubleQuote singleQuote isBlank NoBlank AllBlank)

namespace Html

/-! ## Names -/

/-- What the name of a data attribute begins with. -/
def dataWord : Text := ['d', 'a', 't', 'a', '-']

/-- The name of a data attribute: behind `data-` there is a run of name characters. -/
def IsDataName (name : Text) : Prop :=
  ∃ word, word ≠ [] ∧ (∀ c ∈ word, isNameChar c = true) ∧ name = dataWord ++ word

/-- The characters of names lie in the ASCII range. -/
lemma toNat_lt_of_isNameChar {c : Char} (h : isNameChar c = true) : c.toNat < 0x80 := by
  rw [isNameChar, Bool.or_eq_true, Bool.or_eq_true] at h
  rcases h with (h | h) | h
  · unfold Char.isAlphanum Char.isAlpha Char.isUpper Char.isLower Char.isDigit at h
    simp only [Bool.or_eq_true, Bool.and_eq_true, decide_eq_true_eq, UInt32.le_iff_toNat_le] at h
    rw [Char.toNat]
    rcases h with (⟨_, h⟩ | ⟨_, h⟩) | ⟨_, h⟩
    · exact lt_of_le_of_lt h (by decide)
    · exact lt_of_le_of_lt h (by decide)
    · exact lt_of_le_of_lt h (by decide)
  · obtain rfl : c = '_' := by simpa using h
    decide
  · obtain rfl : c = '-' := by simpa using h
    decide

/-- No character of a name is blank. -/
lemma isBlank_of_isNameChar {c : Char} (h : isNameChar c = true) : isBlank c = false := by
  have hascii : ∀ n < 0x80, isNameChar (Char.ofNat n) = true → isBlank (Char.ofNat n) = false := by
    decide +kernel
  have hblank := hascii c.toNat (toNat_lt_of_isNameChar h)
  rw [Char.ofNat_toNat] at hblank
  exact hblank h

namespace IsDataName

variable {name : Text}

/-- A name holds neither a blank nor a sign that is no name character. -/
lemma isNameChar (h : IsDataName name) {c : Char} (hc : c ∈ name) : isNameChar c = true := by
  obtain ⟨word, -, hword, rfl⟩ := h
  rcases List.mem_append.1 hc with hc | hc
  · have hdata : dataWord.all Html.isNameChar = true := by decide
    exact List.all_eq_true.1 hdata c hc
  · exact hword c hc

/-- The name of a data attribute holds no blank. -/
lemma noBlank (h : IsDataName name) : NoBlank name :=
  fun _ hc => isBlank_of_isNameChar (h.isNameChar hc)

/-- The name of a data attribute holds characters of names only. -/
lemma not_mem (h : IsDataName name) {c : Char} (hc : Html.isNameChar c = false) : c ∉ name := by
  intro hmem
  rw [h.isNameChar hmem] at hc
  cases hc

/-- The name of a data attribute is not empty. -/
lemma ne_nil (h : IsDataName name) : name ≠ [] := by
  obtain ⟨word, -, -, rfl⟩ := h
  exact List.cons_ne_nil _ _

end IsDataName

/-! ## Names in a text -/

/-- A blank in front of the name of a data attribute lets the name be read to its end. -/
lemma read?_dataNamePattern {c : Char} {name rest : Text} (hc : isBlank c = true)
    (hname : IsDataName name) (hstop : ∀ a ∈ rest.head?, isNameChar a = false) :
    dataNamePattern.read? (c :: (name ++ rest)) = some (name, rest) := by
  obtain ⟨word, hne, hword, rfl⟩ := hname
  have hbefore : Part.readAll? dataNamePattern.before (c :: (dataWord ++ (word ++ rest))) =
      some ([c], dataWord ++ (word ++ rest)) :=
    Part.readAll?_cons_append (show (Part.oneOf isBlank).Takes [c] from ⟨c, hc, rfl⟩)
      (fun _ _ => rfl) rfl
  have hcaptured : Part.readAll? dataNamePattern.captured (dataWord ++ (word ++ rest)) =
      some (dataWord ++ (word ++ []), rest) := by
    refine Part.readAll?_cons_append rfl (fun _ _ => rfl) ?_
    exact Part.readAll?_cons_append
      (show (Part.someOf isNameChar).Takes word from ⟨hne, hword⟩) hstop rfl
  rw [List.append_nil] at hcaptured
  rw [List.append_assoc]
  exact Pattern.read?_of_readAll? hbefore hcaptured rfl

/-- What is read as a name stands behind a blank and is one. -/
lemma of_read?_dataNamePattern {text found rest : Text}
    (h : dataNamePattern.read? text = some (found, rest)) :
    ∃ c, isBlank c = true ∧ IsDataName found ∧ text = c :: (found ++ rest) := by
  obtain ⟨lead, middle, last, trail, hbefore, hcaptured, hafter⟩ := Pattern.exists_of_read? h
  cases hafter
  obtain ⟨_, _, _, ⟨c, hc, rfl⟩, hnil, rfl, -⟩ := Part.exists_of_readAll?_cons hbefore
  cases hnil
  obtain ⟨_, _, _, rfl, hname, rfl, rfl⟩ := Part.exists_of_readAll?_cons hcaptured
  obtain ⟨word, _, _, ⟨hne, hword⟩, hend, rfl, rfl⟩ := Part.exists_of_readAll?_cons hname
  cases hend
  exact ⟨c, hc, ⟨word, hne, hword, by simp [dataWord]⟩, by simp⟩

/-- The search for names comes to every blank, for a match holds no blank but its first one. -/
theorem reaches_blank {c : Char} (hc : isBlank c = true) (front rest : Text) :
    dataNamePattern.Reaches (front ++ c :: rest) (c :: rest) := by
  refine Pattern.reaches_cons (fun hread => ?_) front rest
  obtain ⟨a, -, hfound, heq⟩ := of_read?_dataNamePattern hread
  refine ⟨a, _, heq, fun hmem => ?_⟩
  have hnot := hfound.noBlank c hmem
  rw [hc] at hnot
  cases hnot

/-! ## Data attributes in a text -/

/-- A blank, the name of a data attribute and an equals sign. -/
def IsDataOpening (start : Text) : Prop :=
  ∃ c name, isBlank c = true ∧ IsDataName name ∧ start = c :: (name ++ ['='])

/-- A data attribute with its value, less the blank in front of it. -/
def dataCapture (start quoted : Text) : Text :=
  start.tail ++ doubleQuote :: (quoted ++ [doubleQuote])

/-- No quote is part of what opens a data attribute. -/
lemma IsDataOpening.not_mem {start : Text} (h : IsDataOpening start) : doubleQuote ∉ start := by
  obtain ⟨c, name, hc, hname, rfl⟩ := h
  have hblank : doubleQuote ≠ c := by
    rintro rfl
    revert hc
    decide
  simp only [List.mem_cons, List.mem_append, List.not_mem_nil, or_false, not_or]
  exact ⟨hblank, hname.not_mem (by decide), by decide⟩

/-- The pattern of data attributes with values matches an opening and a text in double quotes. -/
lemma quotes_dataValuePattern : dataValuePattern.Quotes IsDataOpening dataCapture where
  opening := by
    intro start h
    refine ⟨?_, h.not_mem⟩
    obtain ⟨c, name, -, -, rfl⟩ := h
    exact List.cons_ne_nil _ _
  read? := by
    rintro start quoted rest ⟨c, _, hc, ⟨word, hne, hword, rfl⟩, rfl⟩ hquoted
    have hbefore : Part.readAll? dataValuePattern.before
        (c :: (dataWord ++ (word ++ (['=', doubleQuote] ++
          (quoted ++ ([doubleQuote] ++ rest)))))) =
        some ([c], dataWord ++ (word ++ (['=', doubleQuote] ++
          (quoted ++ ([doubleQuote] ++ rest))))) :=
      Part.readAll?_cons_append (show (Part.oneOf isBlank).Takes [c] from ⟨c, hc, rfl⟩)
        (fun _ _ => rfl) rfl
    have hcaptured : Part.readAll? dataValuePattern.captured
        (dataWord ++ (word ++ (['=', doubleQuote] ++ (quoted ++ ([doubleQuote] ++ rest))))) =
        some (dataWord ++ (word ++ (['=', doubleQuote] ++ (quoted ++ ([doubleQuote] ++ [])))),
          rest) := by
      refine Part.readAll?_cons_append rfl (fun _ _ => rfl) ?_
      refine Part.readAll?_cons_append ⟨hne, hword⟩ ?_ ?_
      · rintro _ ⟨⟩
        decide
      refine Part.readAll?_cons_append rfl (fun _ _ => rfl) ?_
      refine Part.readAll?_cons_append (Text.bne_of_not_mem hquoted) ?_ ?_
      · rintro _ ⟨⟩
        decide
      exact Part.readAll?_cons_append rfl (fun _ _ => rfl) rfl
    have hread := Pattern.read?_of_readAll? hbefore hcaptured rfl
    simpa [dataCapture] using hread
  of_read? := by
    intro text found rest h
    obtain ⟨lead, middle, last, trail, hbefore, hcaptured, hafter⟩ := Pattern.exists_of_read? h
    cases hafter
    obtain ⟨_, _, _, ⟨c, hc, rfl⟩, hnil, rfl, -⟩ := Part.exists_of_readAll?_cons hbefore
    cases hnil
    obtain ⟨_, _, _, rfl, hname, rfl, rfl⟩ := Part.exists_of_readAll?_cons hcaptured
    obtain ⟨word, _, _, ⟨hne, hword⟩, hequals, rfl, rfl⟩ := Part.exists_of_readAll?_cons hname
    obtain ⟨_, _, _, rfl, hvalue, rfl, rfl⟩ := Part.exists_of_readAll?_cons hequals
    obtain ⟨quoted, _, _, hquoted, hquote, rfl, rfl⟩ := Part.exists_of_readAll?_cons hvalue
    obtain ⟨_, _, _, rfl, hend, rfl, rfl⟩ := Part.exists_of_readAll?_cons hquote
    cases hend
    refine ⟨c :: (dataWord ++ word ++ ['=']), quoted, ⟨c, _, hc, ⟨word, hne, hword, rfl⟩, rfl⟩, ?_,
      ?_, ?_⟩
    · intro hmem
      simpa using hquoted _ hmem
    · simp [dataCapture, dataWord]
    · simp [dataWord]

/-- A stretch of a text ends like the beginning of a data attribute. -/
def EndsInOpening (stretch : Text) : Prop :=
  ∃ lead start, stretch = lead ++ start ∧ IsDataOpening start

/-- A name with an equals sign behind it holds no blank. -/
lemma noBlank_name_concat {name : Text} (h : NoBlank name) : NoBlank (name ++ ['=']) :=
  List.forall_mem_append.2 ⟨h, List.forall_mem_singleton.2 (by decide)⟩

/-- What opens a data attribute ends in an equals sign. -/
lemma EndsInOpening.getLast? {stretch : Text} (h : EndsInOpening stretch) :
    stretch.getLast? = some '=' := by
  obtain ⟨lead, _, rfl, c, name, -, -, rfl⟩ := h
  rw [← List.cons_append, ← List.append_assoc, List.getLast?_concat]

/-- There is no opening around an opening, for it would hold a second blank. -/
lemma IsDataOpening.eq_nil {front start : Text} (h : IsDataOpening start)
    (haround : IsDataOpening (front ++ start)) : front = [] := by
  obtain ⟨c, name, hc, hname, rfl⟩ := h
  obtain ⟨d, around, hd, haround, heq⟩ := haround
  exact (Text.append_blank_inj hc hd (noBlank_name_concat hname.noBlank)
    (noBlank_name_concat haround.noBlank) (heq.trans (List.nil_append _).symm)).1

section Stretch

variable {stretch quoted : Text} (behind : Text)

/-- A quote in front of which no data attribute opens is passed. -/
lemma reaches_of_not_endsInOpening (hstretch : doubleQuote ∉ stretch)
    (h : ¬ EndsInOpening stretch) :
    dataValuePattern.Reaches (stretch ++ doubleQuote :: behind) behind := by
  apply quotes_dataValuePattern.reaches_of_not_opens hstretch
  rintro start ⟨lead, rfl⟩ hopens
  exact h ⟨lead, start, rfl, hopens⟩

/-- A data attribute that opens in front of a quote is passed with its value. -/
lemma reaches_of_endsInOpening (hstretch : doubleQuote ∉ stretch) (h : EndsInOpening stretch)
    (hquoted : doubleQuote ∉ quoted) :
    dataValuePattern.Reaches (stretch ++ doubleQuote :: (quoted ++ doubleQuote :: behind))
      behind := by
  obtain ⟨lead, start, rfl, hopens⟩ := h
  rw [List.append_assoc]
  apply quotes_dataValuePattern.reaches_of_opens hstretch _ hopens hquoted
  rintro front rest rfl hne haround
  exact hne (hopens.eq_nil haround)

end Stretch

/-! ## Tags -/

/-- An attribute of a tag: white space, a name and a value in double quotes. -/
structure Attribute where
  blanks : Text
  name : Text
  value : Text
  separated : blanks ≠ [] ∧ AllBlank blanks
  named : NoBlank name ∧ doubleQuote ∉ name
  closed : doubleQuote ∉ value

namespace Attribute

/-- What stands in front of the value. -/
def head (attr : Attribute) : Text :=
  attr.blanks ++ (attr.name ++ ['='])

/-- An attribute as it is written. -/
def text (attr : Attribute) : Text :=
  attr.head ++ doubleQuote :: (attr.value ++ [doubleQuote])

/-- The attributes in front of another one hide it: the value of the last of them ends like the
beginning of a data attribute, and that last one is no data attribute or is hidden itself. -/
def Hide (front : List Attribute) : Prop :=
  front.foldl (fun hidden attr =>
    EndsInOpening attr.value ∧ (hidden ∨ ¬ IsDataName attr.name)) False

/-- Whether attributes hide the next one depends on the last of them and on whether it is hidden. -/
lemma hide_concat {front : List Attribute} {last : Attribute} :
    Hide (front ++ [last]) ↔ EndsInOpening last.value ∧ (Hide front ∨ ¬ IsDataName last.name) := by
  rw [Hide, List.foldl_concat, ← Hide]

variable (attr : Attribute)

/-- No quote stands in front of the value of an attribute. -/
lemma not_mem_head : doubleQuote ∉ attr.head := by
  intro hmem
  rcases List.mem_append.1 hmem with hmem | hmem
  · have hblank := attr.separated.2 _ hmem
    revert hblank
    decide
  · rcases List.mem_append.1 hmem with hmem | hmem
    · exact attr.named.2 hmem
    · revert hmem
      decide

/-- The last blank of an attribute and its name. -/
lemma exists_head_eq : ∃ lead c, isBlank c = true ∧
    attr.head = lead ++ c :: (attr.name ++ ['=']) := by
  obtain ⟨lead, c, hblanks⟩ := (List.eq_nil_or_concat' attr.blanks).resolve_left
    attr.separated.1
  refine ⟨lead, c, attr.separated.2 c (by rw [hblanks]; simp), ?_⟩
  rw [head, hblanks, List.append_assoc]
  rfl

/-- The name of an attribute is the only one in front of its value. -/
lemma endsInOpening_head_iff : EndsInOpening attr.head ↔ IsDataName attr.name := by
  obtain ⟨lead, c, hc, hhead⟩ := attr.exists_head_eq
  constructor
  · rintro ⟨front, start, heq, d, name, hd, hname, rfl⟩
    rw [hhead] at heq
    obtain ⟨-, -, hsame⟩ := Text.append_blank_inj hc hd (noBlank_name_concat attr.named.1)
      (noBlank_name_concat hname.noBlank) heq
    rwa [List.append_cancel_right hsame]
  · intro hname
    exact ⟨lead, _, hhead, c, _, hc, hname, rfl⟩

/-- An attribute is written as its head and its value in quotes. -/
lemma text_append (behind : Text) : attr.text ++ behind =
    attr.head ++ doubleQuote :: (attr.value ++ doubleQuote :: behind) := by
  simp [text]

/-- Attributes as they are written. -/
def textAll (attributes : List Attribute) : Text :=
  attributes.flatMap text

/-- The last attribute is written behind the others. -/
lemma textAll_concat (front : List Attribute) (behind : Text) :
    textAll (front ++ [attr]) ++ behind = textAll front ++ (attr.text ++ behind) := by
  simp [textAll]

/-- The search comes to an attribute that is not hidden, and to the value of one that is. -/
lemma reaches_textAll (front : List Attribute) :
    (¬ Hide front → ∀ behind, dataValuePattern.Reaches (textAll front ++ behind) behind) ∧
    (Hide front → ∀ (next : Attribute) behind, dataValuePattern.Reaches
      (textAll (front ++ [next]) ++ behind) (next.value ++ doubleQuote :: behind)) := by
  induction front using List.reverseRecOn with
  | nil => exact ⟨fun _ behind => .here, fun hhide => hhide.elim⟩
  | append_singleton front last ih =>
    obtain ⟨ihShown, ihHidden⟩ := ih
    have hvalue (h : Hide front ∨ ¬ IsDataName last.name) (behind : Text) :
        dataValuePattern.Reaches (textAll (front ++ [last]) ++ behind)
          (last.value ++ doubleQuote :: behind) := by
      by_cases hfront : Hide front
      · exact ihHidden hfront last behind
      · have hname := h.resolve_left hfront
        rw [textAll_concat]
        refine (ihShown hfront _).trans ?_
        rw [text_append]
        apply reaches_of_not_endsInOpening _ last.not_mem_head
        rwa [endsInOpening_head_iff]
    constructor
    · intro hshown behind
      rw [hide_concat, not_and_or, not_or, not_not] at hshown
      by_cases hlast : ¬ Hide front ∧ IsDataName last.name
      · rw [textAll_concat]
        refine (ihShown hlast.1 _).trans ?_
        rw [text_append]
        apply reaches_of_endsInOpening _ last.not_mem_head _ last.closed
        rw [endsInOpening_head_iff]
        exact hlast.2
      · refine (hvalue (by tauto) behind).trans ?_
        exact reaches_of_not_endsInOpening _ last.closed (hshown.resolve_right hlast)
    · intro hhide next behind
      rw [hide_concat] at hhide
      rw [textAll_concat, text_append]
      refine (hvalue hhide.2 _).trans ?_
      exact reaches_of_endsInOpening _ last.closed hhide.1 next.not_mem_head

end Attribute

/-- A tag with its attributes, and what stands behind them. -/
structure Tag where
  name : Text
  attributes : List Attribute
  closing : Text
  noBlank : NoBlank name

/-- A tag as it is written. -/
def Tag.text (tag : Tag) : Text :=
  '<' :: (tag.name ++ (Attribute.textAll tag.attributes ++ tag.closing))

/-! ## Tokens -/

/-- What an extraction captures in a document is one of its tokens, between opening and closing. -/
lemma mem_documentTokens {document found : Text} {extraction : Extraction}
    (hextraction : extraction ∈ extractions)
    (hfound : found ∈ extraction.pattern.captures document) (hne : found ≠ [])
    (hblank : NoBlank found) (hquote : singleQuote ∉ found) :
    extraction.opening ++ found ++ extraction.closing ∈ documentTokens document := by
  have hfragments : fragments found = [found] := by
    rw [fragments, if_neg (by simpa using hquote), Text.words_of_noBlank hne hblank]
  refine List.mem_flatMap.2 ⟨extraction, hextraction, List.mem_flatMap.2 ⟨found, hfound, ?_⟩⟩
  rw [hfragments]
  exact List.mem_singleton.2 rfl

/-- The selector of a data attribute, whatever its value is. -/
def nameSelector (name : Text) : Text :=
  '[' :: (name ++ [']'])

/-- The selector of a data attribute with a value. -/
def valueSelector (name value : Text) : Text :=
  '[' :: (name ++ '=' :: doubleQuote :: (value ++ [doubleQuote, ']']))

section Tokens

variable {tag : Tag} {front back : List Attribute} {attr : Attribute}

/-- A tag is written around each of its attributes. -/
lemma Tag.text_eq (hsplit : tag.attributes = front ++ attr :: back) :
    tag.text = '<' :: (tag.name ++ (Attribute.textAll front ++ (attr.head ++
      doubleQuote :: (attr.value ++
        doubleQuote :: (Attribute.textAll back ++ tag.closing))))) := by
  rw [text, hsplit, ← Attribute.text_append]
  simp [Attribute.textAll]

/-- The name of every data attribute is a token. -/
lemma nameSelector_mem_documentTokens (hsplit : tag.attributes = front ++ attr :: back)
    (hname : IsDataName attr.name) : nameSelector attr.name ∈ documentTokens tag.text := by
  obtain ⟨lead, c, hc, hhead⟩ := attr.exists_head_eq
  have htext : ∃ before behind, tag.text = before ++ c :: (attr.name ++ '=' :: behind) := by
    refine ⟨'<' :: (tag.name ++ (Attribute.textAll front ++ lead)), doubleQuote :: (attr.value ++
      doubleQuote :: (Attribute.textAll back ++ tag.closing)), ?_⟩
    rw [Tag.text_eq hsplit, hhead]
    simp
  obtain ⟨before, behind, htext⟩ := htext
  have hread : dataNamePattern.read? (c :: (attr.name ++ '=' :: behind)) =
      some (attr.name, '=' :: behind) := by
    apply read?_dataNamePattern hc hname
    rintro _ ⟨⟩
    decide
  have hfound : attr.name ∈ dataNamePattern.captures tag.text := by
    rw [htext]
    exact Pattern.mem_captures (reaches_blank hc before _) hread
  have hextraction : { pattern := dataNamePattern, opening := ['['], closing := [']'] } ∈
      extractions := by simp [extractions]
  exact mem_documentTokens hextraction hfound hname.ne_nil hname.noBlank
    (hname.not_mem (by decide))

/-- The search for data attributes with values passes the name of a tag. -/
lemma reaches_noBlank {word : Text} (h : NoBlank word) (behind : Text) :
    dataValuePattern.Reaches (word ++ behind) behind := by
  apply Pattern.Reaches.pass
  rintro before rest rfl hne
  by_contra hread
  obtain ⟨⟨found, others⟩, hread⟩ := Option.ne_none_iff_exists'.1 hread
  obtain ⟨_, _, ⟨c, _, hc, -, rfl⟩, -, -, heq⟩ := quotes_dataValuePattern.of_read? hread
  cases rest with
  | nil => exact hne rfl
  | cons a rest =>
    obtain ⟨rfl, -⟩ := List.cons.inj heq
    have hnot := h a (by simp)
    rw [hc] at hnot
    cases hnot

/-- A data attribute that is not hidden is a token with its value, if that holds neither blanks nor
single quotes. -/
lemma valueSelector_mem_documentTokens (hsplit : tag.attributes = front ++ attr :: back)
    (hname : IsDataName attr.name) (hshown : ¬ Attribute.Hide front) (hblank : NoBlank attr.value)
    (hquote : singleQuote ∉ attr.value) :
    valueSelector attr.name attr.value ∈ documentTokens tag.text := by
  obtain ⟨lead, c, hc, hhead⟩ := attr.exists_head_eq
  have hopens : IsDataOpening (c :: (attr.name ++ ['='])) := ⟨c, attr.name, hc, hname, rfl⟩
  have htag : dataValuePattern.Reaches tag.text (attr.head ++ doubleQuote :: (attr.value ++
      doubleQuote :: (Attribute.textAll back ++ tag.closing))) := by
    have hword : NoBlank ('<' :: tag.name) := List.forall_mem_cons.2 ⟨by decide, tag.noBlank⟩
    rw [Tag.text_eq hsplit, ← List.cons_append]
    exact (reaches_noBlank hword _).trans ((Attribute.reaches_textAll front).1 hshown _)
  have hfound : dataCapture (c :: (attr.name ++ ['='])) attr.value ∈
      dataValuePattern.captures tag.text := by
    apply htag.captures
    have hnone := attr.not_mem_head
    rw [hhead] at hnone
    rw [hhead, List.append_assoc]
    apply quotes_dataValuePattern.mem_captures hnone _ hopens attr.closed
    rintro before rest rfl hne haround
    exact hne (hopens.eq_nil haround)
  have hcapture : dataCapture (c :: (attr.name ++ ['='])) attr.value =
      attr.name ++ '=' :: doubleQuote :: (attr.value ++ [doubleQuote]) := by
    simp [dataCapture]
  rw [hcapture] at hfound
  have hextraction : { pattern := dataValuePattern, opening := ['['], closing := [']'] } ∈
      extractions := by simp [extractions]
  have hvalue : NoBlank ('=' :: doubleQuote :: (attr.value ++ [doubleQuote])) :=
    List.forall_mem_cons.2 ⟨by decide, List.forall_mem_cons.2 ⟨by decide,
      List.forall_mem_append.2 ⟨hblank, List.forall_mem_singleton.2 (by decide)⟩⟩⟩
  have hquotes :
      singleQuote ∉ attr.name ++ '=' :: doubleQuote :: (attr.value ++ [doubleQuote]) := by
    have hdistinct : singleQuote ≠ '=' ∧ singleQuote ≠ doubleQuote := by decide
    simp [hname.not_mem (c := singleQuote) (by decide), hquote, hdistinct.1, hdistinct.2]
  have htoken := mem_documentTokens hextraction hfound (by simp)
    (List.forall_mem_append.2 ⟨hname.noBlank, hvalue⟩) hquotes
  simpa [valueSelector] using htoken

end Tokens

/-! ## Selectors -/

/-- A value that the scan of a document keeps in one piece, and the look-up of a selector too. -/
structure IsPlainValue (value : Text) : Prop where
  blank : NoBlank value
  marks : ∀ c ∈ [singleQuote, ',', ':'], c ∉ value
  slash : ¬ ['\\', '/'] <:+: value

/-- Besides its own marks, the selector of a value holds the characters of name and value. -/
lemma mem_valueSelector_iff {c : Char} (hc : c ∉ ['[', '=', doubleQuote, ']']) {name value : Text} :
    c ∈ valueSelector name value ↔ c ∈ name ∨ c ∈ value := by
  simp only [List.mem_cons, List.not_mem_nil, or_false, not_or] at hc
  simp [valueSelector, hc]

/-- No backslash in front of a slash stands in the selector but in its value. -/
lemma not_escape_valueSelector {name value : Text} (hname : IsDataName name)
    (h : ¬ ['\\', '/'] <:+: value) : ¬ ['\\', '/'] <:+: valueSelector name value := by
  have hquote : doubleQuote ∉ ['\\', '/'] := by decide
  have heq : valueSelector name value =
      ('[' :: (name ++ ['='])) ++ doubleQuote :: (value ++ doubleQuote :: [']']) := by
    simp [valueSelector]
  rw [heq, Text.infix_append_cons_iff hquote, Text.infix_append_cons_iff hquote]
  rintro (hin | hin | hin)
  · have hmem : '\\' ∈ '[' :: (name ++ ['=']) := hin.subset (by simp)
    simp [hname.not_mem (c := '\\') (by decide)] at hmem
  · exact h hin
  · have hmem : '\\' ∈ [']'] := hin.subset (by simp)
    simp at hmem

/-- The selector of a plain value is live if the tokens hold it. -/
lemma isLive_valueSelector {live : LiveSet} {name value : Text} (hname : IsDataName name)
    (hvalue : IsPlainValue value) (hmem : valueSelector name value ∈ live.references.tokens) :
    live.isLive (valueSelector name value) = true := by
  have hmarks : ∀ c ∈ [',', ':'], isNameChar c = false ∧ c ∉ ['[', '=', doubleQuote, ']'] ∧
      c ∈ [singleQuote, ',', ':'] :=
    List.forall_mem_cons.2 ⟨by decide, List.forall_mem_singleton.2 (by decide)⟩
  have hmark {c : Char} (hc : c ∈ [',', ':']) : c ∉ valueSelector name value := by
    obtain ⟨hnot, hframe, hmark⟩ := hmarks c hc
    rw [mem_valueSelector_iff hframe, not_or]
    exact ⟨hname.not_mem hnot, hvalue.marks c hmark⟩
  exact LiveSet.isLive_of_mem_tokens hmem (hmark (by simp))
    (Selector.plain_eq_self (hmark (by simp)) (not_escape_valueSelector hname hvalue.slash))

/-- The selector of a name is live if the tokens hold it. -/
lemma isLive_nameSelector {live : LiveSet} {name : Text} (hname : IsDataName name)
    (hmem : nameSelector name ∈ live.references.tokens) :
    live.isLive (nameSelector name) = true := by
  have hmarks : ∀ c ∈ [',', ':', '\\'], isNameChar c = false ∧ c ≠ '[' ∧ c ≠ ']' :=
    List.forall_mem_cons.2 ⟨by decide, List.forall_mem_cons.2 ⟨by decide,
      List.forall_mem_singleton.2 (by decide)⟩⟩
  have hmark {c : Char} (hc : c ∈ [',', ':', '\\']) : c ∉ nameSelector name := by
    obtain ⟨hnot, hopening, hclosing⟩ := hmarks c hc
    simp [nameSelector, hname.not_mem hnot, hopening, hclosing]
  refine LiveSet.isLive_of_mem_tokens hmem (hmark (by simp))
    (Selector.plain_eq_self (hmark (by simp)) fun hin => ?_)
  exact hmark (by simp) (hin.subset List.mem_cons_self)

end Html

/-! ## Rules that are kept -/

open Html

/-- A document refers to what its tokens are. -/
lemma mem_tokens_liveSelectors {html : List Text} {document token : Text}
    (hdocument : document ∈ html) (htoken : token ∈ documentTokens document)
    (settings : Settings) :
    token ∈ (liveSelectors html settings).references.tokens := by
  rw [liveSelectors, Session.live, mem_tokens_foldl_addDocument]
  exact Or.inr ⟨document, hdocument, htoken⟩

/-- The rules of a data attribute of a tag are left as they are. Those that ask for its value are if
the value holds no blanks, single quotes, commas, colons and escaped slashes and if the attribute is
not hidden by those in front of it. -/
theorem prune_keeps_data_attributes {tag : Tag} {front back : List Attribute} {attr : Attribute}
    (hsplit : tag.attributes = front ++ attr :: back) (hname : IsDataName attr.name)
    {html : List Text} (htag : tag.text ∈ html) (css : List (String × Text))
    (settings : Settings) :
    let stored := (Session.ofTexts html css settings).sheets
    let kept := remaining html css settings
    (prune html css settings).result = kept.outputs settings ∧
    (∀ name scope, kept.rule? name scope (nameSelector attr.name) =
      stored.rule? name scope (nameSelector attr.name)) ∧
    (IsPlainValue attr.value → ¬ Attribute.Hide front → ∀ name scope,
      kept.rule? name scope (valueSelector attr.name attr.value) =
        stored.rule? name scope (valueSelector attr.name attr.value)) := by
  refine ⟨result_prune_eq_outputs html css settings, fun name scope => ?_,
    fun hvalue hshown name scope => ?_⟩
  · have htoken := mem_tokens_liveSelectors htag (nameSelector_mem_documentTokens hsplit hname)
      settings
    rw [rule?_remaining, if_pos (isLive_nameSelector hname htoken)]
  · have htoken := mem_tokens_liveSelectors htag (valueSelector_mem_documentTokens hsplit hname
      hshown hvalue.blank (hvalue.marks singleQuote List.mem_cons_self)) settings
    rw [rule?_remaining, if_pos (isLive_valueSelector hname hvalue htoken)]

/-- The first attribute hides the second one, which hides nothing. -/
theorem prune_keeps_data_attributes_behind_hidden :
    let html := ["<p title=\"x data-y=\" data-a=\"1\" data-b=\"a>b\">".toList]
    let css := [("a.css", "[data-b=\"a>b\"]\x7bx\x7d [data-b]\x7by\x7d".toList)]
    let stored := (Session.ofTexts html css {}).sheets
    let kept := remaining html css {}
    (stored.rule? "a.css" .topLevel "[data-b=\"a>b\"]".toList).isSome = true ∧
    kept.rule? "a.css" .topLevel "[data-b=\"a>b\"]".toList =
      stored.rule? "a.css" .topLevel "[data-b=\"a>b\"]".toList ∧
    kept.rule? "a.css" .topLevel "[data-b]".toList =
      stored.rule? "a.css" .topLevel "[data-b]".toList := by
  intro html css stored kept
  let opener : Attribute :=
    ⟨[' '], "title".toList, "x data-y=".toList, by decide, by decide, by decide⟩
  let hidden : Attribute := ⟨[' '], "data-a".toList, ['1'], by decide, by decide, by decide⟩
  let shown : Attribute := ⟨[' '], "data-b".toList, "a>b".toList, by decide, by decide, by decide⟩
  let tag : Tag := ⟨['p'], [opener, hidden, shown], ['>'], by decide⟩
  have htag : tag.text ∈ html := by decide
  have hname : IsDataName shown.name :=
    ⟨['b'], by decide, List.forall_mem_singleton.2 (by decide), rfl⟩
  have hvalue : IsPlainValue shown.value := by
    refine ⟨?_, ?_, by decide⟩
    · exact List.forall_mem_cons.2 ⟨by decide, List.forall_mem_cons.2 ⟨by decide,
        List.forall_mem_singleton.2 (by decide)⟩⟩
    · exact List.forall_mem_cons.2 ⟨by decide, List.forall_mem_cons.2 ⟨by decide,
        List.forall_mem_singleton.2 (by decide)⟩⟩
  have hshown : ¬ Attribute.Hide [opener, hidden] := by
    intro hhide
    have hends := Attribute.hide_concat.1 (show Attribute.Hide ([opener] ++ [hidden]) from hhide)
    cases hends.1.getLast?
  obtain ⟨-, hnames, hvalues⟩ :=
    prune_keeps_data_attributes (show tag.attributes = [opener, hidden] ++ shown :: [] from rfl)
      hname htag css {}
  exact ⟨by decide +kernel, hvalues hvalue hshown "a.css" .topLevel, hnames "a.css" .topLevel⟩

/-- A rule is dropped though a document has the data attribute with the value that it asks for: the
value holds a single quote, a blank, a comma, a colon or an escaped slash, or the attribute is
hidden. -/
theorem prune_drops_data_attributes :
    let drops (document selector : String) : Prop :=
      let html := [document.toList]
      let css := [("a.css", (selector ++ "\x7by\x7d").toList)]
      ((Session.ofTexts html css {}).sheets.rule? "a.css" .topLevel selector.toList).isSome = true ∧
        (remaining html css {}).rule? "a.css" .topLevel selector.toList = none
    drops "<p data-x=\"it's\">" "[data-x=\"it's\"]" ∧
    drops "<p data-x=\"a b\">" "[data-x=\"a b\"]" ∧
    drops "<p data-x=\"a,b\">" "[data-x=\"a,b\"]" ∧
    drops "<p data-x=\"a:b\">" "[data-x=\"a:b\"]" ∧
    drops "<p data-x=\"a\\/b\">" "[data-x=\"a\\/b\"]" ∧
    drops "<p title=\"x data-y=\" data-x=\"a\">" "[data-x=\"a\"]" := by
  decide +kernel

end CssPrune
