import CssPrune.Text.Basic
import Mathlib.Data.List.Infix
import Mathlib.Data.List.TakeWhile
import Mathlib.Tactic.Lemma

/-!
# Words and collapsed texts

What collapsing keeps of a text: its words, its characters that are not blank, and every stretch
without blanks. Collapsing a second time changes nothing, and blanks at the ends do not count.

`wordInduction` takes a text apart at its first blank. All facts about `collapse` are proved by it
from two equations: a blank at the front is dropped, and a word keeps its place in front of what
follows the next blank.
-/

namespace CssPrune.Text

/-- Each character is blank. -/
def AllBlank (text : Text) : Prop :=
  ∀ c ∈ text, isBlank c = true

instance (text : Text) : Decidable (AllBlank text) :=
  List.decidableBAll _ text

/-- No character is blank. -/
def NoBlank (text : Text) : Prop :=
  ∀ c ∈ text, isBlank c = false

instance (text : Text) : Decidable (NoBlank text) :=
  List.decidableBAll _ text

/-- A space in front of a text, unless the text is empty. -/
def spaced : Text → Text
  | [] => []
  | c :: rest => ' ' :: c :: rest

/-- A space is blank. -/
@[simp]
lemma isBlank_space : isBlank ' ' = true := by decide

/-- Nothing is blank throughout. -/
@[simp]
lemma allBlank_nil : AllBlank [] := nofun

/-- A text is blank if its first character and the others are. -/
@[simp]
lemma allBlank_cons {c : Char} {text : Text} :
    AllBlank (c :: text) ↔ isBlank c = true ∧ AllBlank text := List.forall_mem_cons

/-- Two texts are blank together if both are. -/
@[simp]
lemma allBlank_append {first second : Text} :
    AllBlank (first ++ second) ↔ AllBlank first ∧ AllBlank second := List.forall_mem_append

/-- A character that is not blank differs from every blank. -/
lemma bne_of_isBlank {a c : Char} (hc : isBlank c = false) (ha : isBlank a = true) :
    (a != c) = true := by
  rw [bne_iff_ne]
  rintro rfl
  cases ha.symm.trans hc

/-- All characters of a text differ from one that it does not hold. -/
lemma bne_of_not_mem {c : Char} {text : Text} (h : c ∉ text) : ∀ a ∈ text, (a != c) = true :=
  fun _ ha => bne_iff_ne.2 (ne_of_mem_of_not_mem ha h)

/-! ## Words -/

/-- An empty text has no words. -/
@[simp]
lemma words_nil : words [] = [] := by simp [words, List.splitOnP_nil]

/-- A blank ends the words before it. -/
lemma words_append_blank {c : Char} (h : isBlank c = true) (first second : Text) :
    words (first ++ c :: second) = words first ++ words second := by
  rw [words, List.splitOnP_append_cons first second h, List.filter_append]
  rfl

/-- A blank in front of a text does not change its words. -/
lemma words_cons_blank {c : Char} (h : isBlank c = true) (text : Text) :
    words (c :: text) = words text := by
  have split := words_append_blank h [] text
  rwa [List.nil_append, words_nil, List.nil_append] at split

/-- Blanks have no words. -/
lemma words_of_allBlank {text : Text} (h : AllBlank text) : words text = [] := by
  induction text with
  | nil => exact words_nil
  | cons c rest ih =>
    obtain ⟨hc, hrest⟩ := allBlank_cons.1 h
    rw [words_cons_blank hc, ih hrest]

/-- A text without blanks is one word. -/
lemma words_of_noBlank {text : Text} (hne : text ≠ []) (h : NoBlank text) :
    words text = [text] := by
  rw [words, List.splitOnP_eq_singleton h]
  simp [hne]

/-- Blanks in front of a text do not change its words. -/
lemma words_allBlank_append {blanks : Text} (h : AllBlank blanks) (text : Text) :
    words (blanks ++ text) = words text := by
  induction blanks with
  | nil => rfl
  | cons c rest ih =>
    obtain ⟨hc, hrest⟩ := allBlank_cons.1 h
    rw [List.cons_append, words_cons_blank hc, ih hrest]

/-- Blanks behind a text do not change its words. -/
lemma words_append_allBlank (text : Text) {blanks : Text} (h : AllBlank blanks) :
    words (text ++ blanks) = words text := by
  cases blanks with
  | nil => rw [List.append_nil]
  | cons c rest =>
    obtain ⟨hc, hrest⟩ := allBlank_cons.1 h
    rw [words_append_blank hc, words_of_allBlank hrest, List.append_nil]

/-- Takes a text apart at its first blank. -/
lemma wordInduction {motive : Text → Prop} (nil : motive [])
    (blank : ∀ c rest, isBlank c = true → motive rest → motive (c :: rest))
    (word : ∀ text, text ≠ [] → NoBlank text → motive text)
    (split : ∀ text c rest, text ≠ [] → NoBlank text → isBlank c = true → motive rest →
      motive (text ++ c :: rest))
    (text : Text) : motive text := by
  induction hn : text.length using Nat.strong_induction_on generalizing text with
  | _ n ih =>
    have cut : text.takeWhile (!isBlank ·) ++ text.dropWhile (!isBlank ·) = text :=
      List.takeWhile_append_dropWhile
    have hword : NoBlank (text.takeWhile (!isBlank ·)) := by
      intro c hc
      simpa using List.mem_takeWhile_imp hc
    generalize text.takeWhile (!isBlank ·) = front at cut hword
    cases hback : text.dropWhile (!isBlank ·) with
    | nil =>
      rw [hback, List.append_nil] at cut
      subst cut
      cases front with
      | nil => exact nil
      | cons c rest => exact word _ (List.cons_ne_nil _ _) hword
    | cons c rest =>
      have hc : isBlank c = true := by
        have := List.head_dropWhile_not (p := (!isBlank ·)) (l := text) (by rw [hback]; simp)
        simpa [hback] using this
      rw [hback] at cut
      subst cut
      have hrest : motive rest := ih rest.length (by simp at hn; omega) rest rfl
      cases front with
      | nil => exact blank c rest hc hrest
      | cons a front => exact split _ c rest (List.cons_ne_nil _ _) hword hc hrest

/-! ## Collapsing -/

/-- An empty text is collapsed into itself. -/
@[simp]
lemma collapse_nil : collapse [] = [] := by rw [collapse, words_nil]; rfl

/-- Texts with the same words collapse to the same text. -/
lemma collapse_congr {first second : Text} (h : words first = words second) :
    collapse first = collapse second := by
  rw [collapse, collapse, h]

/-- A blank in front of a text is not collapsed into anything. -/
lemma collapse_cons_blank {c : Char} (h : isBlank c = true) (text : Text) :
    collapse (c :: text) = collapse text := collapse_congr (words_cons_blank h text)

/-- Blanks are collapsed into nothing. -/
lemma collapse_of_allBlank {text : Text} (h : AllBlank text) : collapse text = [] := by
  rw [collapse, words_of_allBlank h]
  rfl

/-- A text without blanks is collapsed into itself. -/
lemma collapse_of_noBlank {text : Text} (h : NoBlank text) : collapse text = text := by
  cases text with
  | nil => exact collapse_nil
  | cons c rest =>
    rw [collapse, words_of_noBlank (List.cons_ne_nil _ _) h, List.intercalate_singleton]

/-- Blanks in front of a text are collapsed into nothing. -/
lemma collapse_allBlank_append {blanks : Text} (h : AllBlank blanks) (text : Text) :
    collapse (blanks ++ text) = collapse text := collapse_congr (words_allBlank_append h text)

/-- Blanks behind a text are collapsed into nothing. -/
lemma collapse_append_allBlank (text : Text) {blanks : Text} (h : AllBlank blanks) :
    collapse (text ++ blanks) = collapse text := collapse_congr (words_append_allBlank text h)

/-- A text is collapsed as it is without the blanks at its front. -/
lemma collapse_dropWhile (text : Text) : collapse (text.dropWhile isBlank) = collapse text := by
  have hblank : AllBlank (text.takeWhile isBlank) := fun c hc => List.mem_takeWhile_imp hc
  rw [← collapse_allBlank_append hblank, List.takeWhile_append_dropWhile]

/-- No word is empty. -/
lemma mem_words {word text : Text} (h : word ∈ words text) : word ≠ [] := by
  obtain ⟨_, hne⟩ := List.mem_filter.1 h
  simpa using hne

/-- A word is a stretch of the text. -/
lemma infix_of_mem_words {word text : Text} (h : word ∈ words text) : word <:+: text := by
  induction text using wordInduction with
  | nil => simp at h
  | blank c rest hc ih =>
    rw [words_cons_blank hc] at h
    exact List.infix_cons (ih h)
  | word text hne hword =>
    rw [words_of_noBlank hne hword] at h
    obtain rfl := List.mem_singleton.1 h
    exact List.infix_refl _
  | split text c rest hne hword hc ih =>
    rw [words_append_blank hc, words_of_noBlank hne hword] at h
    rcases List.mem_append.1 h with h | h
    · obtain rfl := List.mem_singleton.1 h
      exact (List.prefix_append _ _).isInfix
    · exact (List.infix_cons (ih h)).trans (List.suffix_append _ _).isInfix

/-- Texts with a space between neighbours have the words of each of them. -/
lemma words_intercalate (parts : List Text) :
    words ([' '].intercalate parts) = parts.flatMap words := by
  match parts with
  | [] => exact words_nil
  | [part] => simp
  | part :: next :: parts =>
    have hrest := words_intercalate (next :: parts)
    rw [List.intercalate_cons_cons, List.append_assoc, List.singleton_append,
      words_append_blank isBlank_space, hrest, ← List.flatMap_cons]

/-- A word, a blank, and what follows. -/
lemma collapse_word_append {word : Text} {c : Char} (hne : word ≠ []) (hword : NoBlank word)
    (hc : isBlank c = true) (rest : Text) :
    collapse (word ++ c :: rest) = word ++ spaced (collapse rest) := by
  rw [collapse, words_append_blank hc, words_of_noBlank hne hword, collapse]
  cases hw : words rest with
  | nil => simp [spaced]
  | cons first others =>
    have hfirst : first ≠ [] := mem_words (hw ▸ List.mem_cons_self)
    obtain ⟨a, tail, rfl⟩ := List.exists_cons_of_ne_nil hfirst
    cases others <;> simp [spaced, List.intercalate_cons_cons]

/-- A collapsed text has the words of the text. -/
lemma words_collapse (text : Text) : words (collapse text) = words text := by
  induction text using wordInduction with
  | nil => rw [collapse_nil]
  | blank c rest hc ih => rw [collapse_cons_blank hc, words_cons_blank hc, ih]
  | word text hne hword => rw [collapse_of_noBlank hword]
  | split word c rest hne hword hc ih =>
    rw [collapse_word_append hne hword hc, words_append_blank hc, ← ih]
    cases collapse rest with
    | nil => simp [spaced]
    | cons a tail => rw [spaced, words_append_blank isBlank_space]

/-- A second collapse changes nothing. -/
@[simp]
lemma collapse_collapse (text : Text) : collapse (collapse text) = collapse text :=
  collapse_congr (words_collapse text)

/-- Collapsing drops and adds blanks only. -/
lemma filter_collapse (text : Text) :
    (collapse text).filter (!isBlank ·) = text.filter (!isBlank ·) := by
  induction text using wordInduction with
  | nil => rw [collapse_nil]
  | blank c rest hc ih => rw [collapse_cons_blank hc, ih]; simp [hc]
  | word text hne hword => rw [collapse_of_noBlank hword]
  | split word c rest hne hword hc ih =>
    rw [collapse_word_append hne hword hc, List.filter_append, List.filter_append,
      List.filter_cons_of_neg (by simp [hc]), ← ih]
    cases collapse rest <;> simp [spaced]

/-- Collapsing keeps the characters that are not blank. -/
lemma mem_collapse_iff {c : Char} (h : isBlank c = false) (text : Text) :
    c ∈ collapse text ↔ c ∈ text := by
  have same := congrArg (c ∈ ·) (filter_collapse text)
  simpa [List.mem_filter, h] using same

/-- Collapsing keeps how often a character stands in a text, unless it is blank. -/
lemma count_collapse {c : Char} (h : isBlank c = false) (text : Text) :
    (collapse text).count c = text.count c := by
  have same := congrArg (List.count c) (filter_collapse text)
  rwa [List.count_filter (by simp [h]), List.count_filter (by simp [h])] at same

/-- The blanks of a collapsed text are single spaces. -/
lemma eq_space_of_mem_collapse {c : Char} {text : Text} (hmem : c ∈ collapse text)
    (h : isBlank c = true) : c = ' ' := by
  induction text using wordInduction with
  | nil => simp at hmem
  | blank a rest ha ih => exact ih (by rwa [collapse_cons_blank ha] at hmem)
  | word text hne hword =>
    rw [collapse_of_noBlank hword] at hmem
    simp [hword c hmem] at h
  | split word a rest hne hword ha ih =>
    rw [collapse_word_append hne hword ha] at hmem
    rcases List.mem_append.1 hmem with hmem | hmem
    · simp [hword c hmem] at h
    · cases hrest : collapse rest with
      | nil => simp [hrest, spaced] at hmem
      | cons b tail =>
        rw [hrest, spaced, ← hrest] at hmem
        rcases List.mem_cons.1 hmem with rfl | hmem
        · rfl
        · exact ih hmem

/-- What is collapsed into nothing is blank. -/
lemma collapse_eq_nil_iff {text : Text} : collapse text = [] ↔ AllBlank text := by
  refine ⟨fun h c hc => ?_, collapse_of_allBlank⟩
  by_contra hblank
  have : c ∈ collapse text := (mem_collapse_iff (by simpa using hblank) text).2 hc
  simp [h] at this

/-! ## The ends of a text -/

/-- Neither the first nor the last character is blank. -/
def SolidEnds (text : Text) : Prop :=
  (∀ c ∈ text.head?, isBlank c = false) ∧ ∀ c ∈ text.getLast?, isBlank c = false

/-- A collapsed text has no blanks at its ends. -/
lemma solidEnds_collapse (text : Text) : SolidEnds (collapse text) := by
  induction text using wordInduction with
  | nil => simp [SolidEnds]
  | blank c rest hc ih => rwa [collapse_cons_blank hc]
  | word text hne hword =>
    rw [collapse_of_noBlank hword]
    exact ⟨fun c hc => hword c (List.mem_of_mem_head? hc),
      fun c hc => hword c (List.mem_of_getLast? hc)⟩
  | split word c rest hne hword hc ih =>
    rw [collapse_word_append hne hword hc]
    obtain ⟨a, tail, rfl⟩ := List.exists_cons_of_ne_nil hne
    constructor
    · intro b hb
      obtain rfl : a = b := by simpa using hb
      exact hword a List.mem_cons_self
    · cases hrest : collapse rest with
      | nil =>
        intro b hb
        rw [spaced, List.append_nil] at hb
        exact hword b (List.mem_of_getLast? hb)
      | cons b others =>
        intro d hd
        rw [spaced, List.getLast?_append_of_ne_nil _ (List.cons_ne_nil _ _),
          List.getLast?_cons_cons, ← hrest] at hd
        exact ih.2 d hd

/-- Collapsing works on both sides of a place without blanks. -/
lemma collapse_append {first second : Text} (hfirst : ∀ c ∈ first.getLast?, isBlank c = false)
    (hsecond : ∀ c ∈ second.head?, isBlank c = false) :
    collapse (first ++ second) = collapse first ++ collapse second := by
  induction first using wordInduction with
  | nil => simp
  | blank c rest hc ih =>
    rw [List.cons_append, collapse_cons_blank hc, collapse_cons_blank hc]
    refine ih fun a ha => hfirst a ?_
    cases rest with
    | nil => simp at ha
    | cons b tail => rwa [List.getLast?_cons_cons]
  | word first hne hword =>
    clear hfirst
    rw [collapse_of_noBlank hword]
    cases second using wordInduction with
    | nil => simp [collapse_of_noBlank hword]
    | blank c rest hc ih => simp [hc] at hsecond
    | word second hne' hword' =>
      rw [collapse_of_noBlank hword', collapse_of_noBlank]
      exact List.forall_mem_append.2 ⟨hword, hword'⟩
    | split word c rest hne' hword' hc ih =>
      -- the two words that meet become one
      have hboth : NoBlank (first ++ word) := List.forall_mem_append.2 ⟨hword, hword'⟩
      rw [← List.append_assoc, collapse_word_append (by simp [hne]) hboth hc,
        collapse_word_append hne' hword' hc, List.append_assoc]
  | split word c rest hne hword hc ih =>
    cases hrest : collapse rest with
    | nil =>
      -- what follows the word is blank, against the last character of the text
      exfalso
      have hblank : AllBlank (c :: rest) := allBlank_cons.2 ⟨hc, collapse_eq_nil_iff.1 hrest⟩
      have hlast := List.getLast?_append_of_ne_nil word (List.cons_ne_nil c rest)
      rw [List.getLast?_eq_some_getLast (List.cons_ne_nil c rest)] at hlast
      have := hfirst _ hlast
      rw [hblank _ (List.getLast_mem _)] at this
      cases this
    | cons a tail =>
      have hlast : ∀ c ∈ rest.getLast?, isBlank c = false := by
        intro d hd
        refine hfirst d ?_
        have hne' : rest ≠ [] := by
          rintro rfl
          simp at hrest
        rw [List.getLast?_append_of_ne_nil _ (List.cons_ne_nil _ _), ← List.singleton_append,
          List.getLast?_append_of_ne_nil _ hne']
        exact hd
      rw [List.append_assoc, List.cons_append, collapse_word_append hne hword hc,
        collapse_word_append hne hword hc, ih hlast, hrest]
      simp [spaced]

/-- A text that is collapsed into itself has no blanks at its ends. -/
lemma solidEnds_of_collapsed {text : Text} (h : collapse text = text) : SolidEnds text :=
  h ▸ solidEnds_collapse text

/-- Collapsed texts joined by a character that is not blank are collapsed. -/
lemma collapse_intercalate {c : Char} (hc : isBlank c = false) {parts : List Text}
    (h : ∀ part ∈ parts, collapse part = part) :
    collapse ([c].intercalate parts) = [c].intercalate parts := by
  induction parts with
  | nil => exact collapse_nil
  | cons first parts ih =>
    obtain ⟨hfirst, hparts⟩ := List.forall_mem_cons.1 h
    cases parts with
    | nil => rwa [List.intercalate_singleton]
    | cons second parts =>
      have hrest := ih hparts
      have hjoined := (solidEnds_of_collapsed hrest).1
      have hsingle : collapse [c] = [c] := collapse_of_noBlank (by simpa [NoBlank] using hc)
      rw [List.intercalate_cons_cons, List.append_assoc,
        collapse_append (solidEnds_of_collapsed hfirst).2 (by simpa using hc), hfirst,
        collapse_append (by simpa using hc) hjoined, hrest, hsingle]

/-- What trimming cuts off. -/
lemma exists_trimWhere {α : Type} (p : α → Bool) (items : List α) :
    ∃ front back, (∀ a ∈ front, p a = true) ∧ (∀ a ∈ back, p a = true) ∧
      items = front ++ trimWhere p items ++ back := by
  refine ⟨items.takeWhile p, ((items.dropWhile p).reverse.takeWhile p).reverse, ?_, ?_, ?_⟩
  · intro a ha
    exact List.mem_takeWhile_imp ha
  · intro a ha
    exact List.mem_takeWhile_imp (List.mem_reverse.1 ha)
  · rw [trimWhere, List.append_assoc, ← List.reverse_append, List.takeWhile_append_dropWhile,
      List.reverse_reverse, List.takeWhile_append_dropWhile]

/-- Trimmed items are a stretch of the items. -/
lemma trimWhere_isInfix {α : Type} (p : α → Bool) (items : List α) :
    trimWhere p items <:+: items := by
  obtain ⟨front, back, -, -, heq⟩ := exists_trimWhere p items
  exact ⟨front, back, heq.symm⟩

/-- A trimmed text is a stretch of the text. -/
lemma trim_isInfix (text : Text) : trim text <:+: text :=
  trimWhere_isInfix isBlank text

/-- A text is what is left of it trimmed, with blanks on both sides. -/
lemma exists_trim (text : Text) :
    ∃ front back, AllBlank front ∧ AllBlank back ∧ text = front ++ trim text ++ back :=
  exists_trimWhere isBlank text

/-- A text without blanks at its ends is left as it is. -/
lemma trim_eq_self {text : Text} (h : SolidEnds text) : trim text = text := by
  obtain ⟨hhead, hlast⟩ := h
  have hdrop : text.dropWhile isBlank = text := by
    cases text with
    | nil => rfl
    | cons c rest => exact List.dropWhile_cons_of_neg (by simp [hhead c (by simp)])
  rw [trim, trimWhere, hdrop]
  have hback : text.reverse.dropWhile isBlank = text.reverse := by
    cases hr : text.reverse with
    | nil => rfl
    | cons c rest =>
      refine List.dropWhile_cons_of_neg ?_
      have : c ∈ text.getLast? := by rw [← List.head?_reverse, hr]; rfl
      simp [hlast c this]
  rw [hback, List.reverse_reverse]

/-- What is left at the front begins with no blank. -/
lemma head_dropWhile_isBlank {c : Char} {text : Text}
    (h : c ∈ (text.dropWhile isBlank).head?) : isBlank c = false := by
  have := List.head?_dropWhile_not isBlank text
  rw [Option.mem_def.1 h] at this
  simpa using this

/-- A trimmed text neither begins nor ends with a blank. -/
lemma solidEnds_trim (text : Text) : SolidEnds (trim text) := by
  have hsuffix : (trim text).reverse <:+ (text.dropWhile isBlank).reverse := by
    rw [trim, trimWhere, List.reverse_reverse]
    exact List.dropWhile_suffix _
  constructor
  · intro c hc
    obtain ⟨rest, hrest⟩ : ∃ rest, trim text = c :: rest := by
      cases h : trim text with
      | nil => simp [h] at hc
      | cons a rest => exact ⟨rest, by simp_all⟩
    rw [List.reverse_suffix, hrest] at hsuffix
    obtain ⟨tail, htail⟩ := hsuffix
    refine @head_dropWhile_isBlank c text ?_
    rw [← htail]
    rfl
  · intro c hc
    rw [trim, trimWhere, List.getLast?_reverse] at hc
    exact head_dropWhile_isBlank hc

/-- Blanks at the end of a text are trimmed. -/
lemma trimEnd_append_allBlank (text : Text) {blanks : Text} (h : AllBlank blanks) :
    trimEnd (text ++ blanks) = trimEnd text := by
  have hreverse : ∀ c ∈ blanks.reverse, isBlank c = true := fun c hc => h c (List.mem_reverse.1 hc)
  rw [trimEnd, trimEnd, List.reverse_append, List.dropWhile_append_of_pos hreverse]

/-- A character that is not blank ends what is trimmed. -/
lemma trimEnd_concat {c : Char} (h : isBlank c = false) (text : Text) :
    trimEnd (text ++ [c]) = text ++ [c] := by
  rw [trimEnd, List.reverse_append, List.reverse_singleton, List.singleton_append,
    List.dropWhile_cons_of_neg (by simp [h]), List.reverse_cons, List.reverse_reverse]

/-- A text is what is left of it trimmed at its end, with blanks behind. -/
lemma exists_trimEnd (text : Text) : ∃ blanks, AllBlank blanks ∧ text = trimEnd text ++ blanks := by
  refine ⟨(text.reverse.takeWhile isBlank).reverse, ?_, ?_⟩
  · exact fun c hc => List.mem_takeWhile_imp (List.mem_reverse.1 hc)
  · rw [trimEnd, ← List.reverse_append, List.takeWhile_append_dropWhile, List.reverse_reverse]

/-- Blanks in front of a text are trimmed. -/
lemma trim_allBlank_append {blanks : Text} (h : AllBlank blanks) (text : Text) :
    trim (blanks ++ text) = trim text := by
  rw [trim, trim, trimWhere, trimWhere, List.dropWhile_append_of_pos h]

/-- Blanks behind a text are trimmed. -/
lemma trim_append_allBlank (text : Text) {blanks : Text} (h : AllBlank blanks) :
    trim (text ++ blanks) = trim text := by
  have hreverse : ∀ c ∈ blanks.reverse, isBlank c = true := fun c hc => h c (List.mem_reverse.1 hc)
  rw [trim, trim, trimWhere, trimWhere, List.dropWhile_append]
  split
  · rename_i hnil
    rw [List.isEmpty_iff.1 hnil, List.dropWhile_eq_nil_iff.2 h]
  · rw [List.reverse_append, List.dropWhile_append_of_pos hreverse]

/-- A trimmed text begins with the first character of the text that is not blank. -/
lemma find?_eq_head?_trim (text : Text) :
    text.find? (!isBlank ·) = (trim text).head? := by
  obtain ⟨front, back, hfront, hback, heq⟩ := exists_trim text
  have none_of {blanks : Text} (h : AllBlank blanks) : blanks.find? (!isBlank ·) = none :=
    List.find?_eq_none.2 fun c hc => by simp [h c hc]
  have htrim : (trim text).find? (!isBlank ·) = (trim text).head? := by
    have hsolid := (solidEnds_trim text).1
    cases htext : trim text with
    | nil => rfl
    | cons c rest =>
      rw [htext] at hsolid
      have hc : isBlank c = false := hsolid c rfl
      simp [hc]
  conv_lhs => rw [heq]
  rw [List.find?_append, List.find?_append, none_of hfront, none_of hback, htrim]
  simp

/-! ## Literals -/

/-- A literal can be dropped exactly if the items begin with it. -/
lemma dropLiteral?_eq_some_iff {literal items rest : Text} :
    dropLiteral? id literal items = some rest ↔ items = literal ++ rest := by
  fun_induction dropLiteral? id literal items with
  | case1 items => simp [eq_comm]
  | case2 c literal => simp
  | case3 literal a items ih => simp [ih]
  | case4 c literal a items h => simp [show a ≠ c from h]

/-! ## The text behind a character -/

/-- A text is cut at its last blank in one way. -/
lemma append_blank_inj {c d : Char} {first second rest others : Text} (hc : isBlank c = true)
    (hd : isBlank d = true) (hrest : NoBlank rest) (hothers : NoBlank others)
    (h : first ++ c :: rest = second ++ d :: others) :
    first = second ∧ c = d ∧ rest = others := by
  have hnone {e : Char} {text : Text} (he : isBlank e = true) (htext : NoBlank text) :
      e ∉ text := by
    intro hmem
    rw [htext e hmem] at he
    cases he
  rcases List.append_eq_append_iff.1 h with ⟨middle, rfl, heq⟩ | ⟨middle, rfl, heq⟩
  · cases middle with
    | nil =>
      obtain ⟨rfl, rfl⟩ := List.cons.inj heq
      exact ⟨(List.append_nil _).symm, rfl, rfl⟩
    | cons a middle =>
      obtain ⟨-, rfl⟩ := List.cons.inj heq
      exact absurd (by simp) (hnone hd hrest)
  · cases middle with
    | nil =>
      obtain ⟨rfl, rfl⟩ := List.cons.inj heq
      exact ⟨List.append_nil _, rfl, rfl⟩
    | cons a middle =>
      obtain ⟨-, rfl⟩ := List.cons.inj heq
      exact absurd (by simp) (hnone hc hothers)

/-- A text is cut at the first occurrence of a character in one way. -/
lemma append_cons_inj {c : Char} {first second rest others : Text} (hfirst : c ∉ first)
    (hsecond : c ∉ second) (h : first ++ c :: rest = second ++ c :: others) :
    first = second ∧ rest = others := by
  induction first generalizing second with
  | nil =>
    cases second with
    | nil => exact ⟨rfl, (List.cons.inj h).2⟩
    | cons a second => exact absurd (List.cons.inj h).1 (List.ne_of_not_mem_cons hsecond)
  | cons a first ih =>
    cases second with
    | nil => exact absurd (List.cons.inj h).1.symm (List.ne_of_not_mem_cons hfirst)
    | cons b second =>
      obtain ⟨rfl, htail⟩ := List.cons.inj h
      obtain ⟨rfl, hrest⟩ := ih (List.not_mem_of_not_mem_cons hfirst)
        (List.not_mem_of_not_mem_cons hsecond) htail
      exact ⟨rfl, hrest⟩

/-- Nothing stands behind a character at the end. -/
lemma afterLast_concat (c : Char) (front : Text) : afterLast c (front ++ [c]) = [] := by
  simp [afterLast]

/-- The last occurrence of a character has none behind it. -/
lemma not_mem_afterLast (c : Char) (text : Text) : c ∉ afterLast c text := by
  intro hmem
  have hne := List.mem_takeWhile_imp (List.mem_reverse.1 hmem)
  exact bne_iff_ne.1 hne rfl

/-- A name without the character is added to what stands behind its last occurrence. -/
lemma afterLast_append {c : Char} {name : Text} (h : c ∉ name) (front : Text) :
    afterLast c (front ++ name) = afterLast c front ++ name := by
  have hname : ∀ d ∈ name.reverse, (d != c) = true :=
    fun d hd => bne_of_not_mem h d (List.mem_reverse.1 hd)
  rw [afterLast, afterLast, List.reverse_append, List.takeWhile_append_of_pos hname,
    List.reverse_append, List.reverse_reverse]

/-- A name without the character stands behind its last occurrence. -/
lemma afterLast_append_cons {c : Char} {back : Text} (h : c ∉ back) (front : Text) :
    afterLast c (front ++ c :: back) = back := by
  rw [List.append_cons, afterLast_append h, afterLast_concat, List.nil_append]

/-- A character that a text holds has a last occurrence. -/
lemma exists_last {c : Char} {text : Text} (h : c ∈ text) :
    ∃ front back, text = front ++ c :: back ∧ c ∉ back := by
  obtain ⟨back, front, htext, hback⟩ := List.eq_append_cons_of_mem (List.mem_reverse.2 h)
  refine ⟨front.reverse, back.reverse, ?_, by simpa using hback⟩
  rw [← List.reverse_reverse text, htext]
  simp

/-- More text in front only adds to what stands behind the last occurrence. -/
lemma afterLast_suffix (c : Char) (front text : Text) :
    afterLast c text <:+ afterLast c (front ++ text) := by
  rw [afterLast, afterLast, List.reverse_suffix, List.reverse_append, List.takeWhile_append]
  split
  · exact (List.takeWhile_prefix _).trans (List.prefix_append _ _)
  · exact List.prefix_refl _

/-- What stands behind the last occurrence in two texts comes from the first or stands so in the
second. -/
lemma mem_afterLast_append {c d : Char} {front text : Text}
    (h : d ∈ afterLast c (front ++ text)) : d ∈ front ∨ d ∈ afterLast c text := by
  rw [afterLast, List.mem_reverse, List.reverse_append, List.takeWhile_append] at h
  rw [afterLast, List.mem_reverse]
  split at h
  · rename_i hall
    rw [(List.takeWhile_prefix _).eq_of_length hall]
    rcases List.mem_append.1 h with hin | hin
    · exact Or.inr hin
    · exact Or.inl (List.mem_reverse.1 ((List.takeWhile_subset _) hin))
  · exact Or.inr h

/-! ## Stretches without blanks -/

/-- A stretch that lacks a character lies on one side of it. -/
lemma infix_append_cons_iff {α : Type} {word first second : List α} {c : α} (h : c ∉ word) :
    word <:+: first ++ c :: second ↔ word <:+: first ∨ word <:+: second := by
  constructor
  · intro hin
    rcases List.infix_append_iff.1 hin with hin | hin | ⟨front, back, rfl, hfront, hback⟩
    · exact Or.inl hin
    · rcases List.infix_cons_iff.1 hin with hpre | hin
      · cases word with
        | nil => exact Or.inl List.nil_infix
        | cons a tail =>
          obtain ⟨rfl, _⟩ := List.cons_prefix_cons.1 hpre
          simp at h
      · exact Or.inr hin
    · cases back with
      | nil => exact Or.inl (by simpa using hfront.isInfix)
      | cons a tail =>
        obtain ⟨rfl, _⟩ := List.cons_prefix_cons.1 hback
        simp at h
  · rintro (hin | hin)
    · exact hin.trans (List.prefix_append _ _).isInfix
    · exact hin.trans ((List.suffix_cons _ _).trans (List.suffix_append _ _)).isInfix

/-- A character that a word lacks brings no word along at the front. -/
lemma infix_cons_iff {α : Type} {word text : List α} {c : α} (h : c ∉ word) (hne : word ≠ []) :
    word <:+: c :: text ↔ word <:+: text := by
  have hcut : word <:+: [] ++ c :: text ↔ word <:+: [] ∨ word <:+: text := infix_append_cons_iff h
  simpa [hne] using hcut

/-- A character that a word lacks brings no word along at the end. -/
lemma infix_concat_iff {α : Type} {word text : List α} {c : α} (h : c ∉ word) (hne : word ≠ []) :
    word <:+: text ++ [c] ↔ word <:+: text := by
  simpa [hne] using @infix_append_cons_iff α word text [] c h

/-- A front that a word lacks brings no word along. -/
lemma infix_append_iff_of_lacks {α : Type} {word front : List α} (hne : word ≠ [])
    (h : ∀ c ∈ front, c ∉ word) (text : List α) : word <:+: front ++ text ↔ word <:+: text := by
  induction front with
  | nil => rfl
  | cons c front ih =>
    obtain ⟨hc, hfront⟩ := List.forall_mem_cons.1 h
    rw [List.cons_append, infix_cons_iff hc hne, ih hfront]

/-- Blanks bring no word along that holds none. -/
lemma infix_allBlank_append_iff {word blanks : Text} (h : NoBlank word) (hne : word ≠ [])
    (hblanks : AllBlank blanks) (text : Text) : word <:+: blanks ++ text ↔ word <:+: text := by
  apply infix_append_iff_of_lacks hne
  intro c hc hmem
  simpa [h c hmem] using hblanks c hc

/-- Collapsing keeps the stretches without blanks, and makes none. -/
lemma infix_collapse_iff {word : Text} (h : NoBlank word) (text : Text) :
    word <:+: collapse text ↔ word <:+: text := by
  have lacks {c : Char} (hc : isBlank c = true) : c ∉ word := fun hmem => by
    simp [h c hmem] at hc
  induction text using wordInduction with
  | nil => rw [collapse_nil]
  | blank c rest hc ih =>
    have hcut : word <:+: [] ++ c :: rest ↔ word <:+: [] ∨ word <:+: rest :=
      infix_append_cons_iff (lacks hc)
    rw [collapse_cons_blank hc, ← List.nil_append (c :: rest), hcut]
    constructor
    · exact fun hin => Or.inr (ih.1 hin)
    · rintro (hin | hin)
      · exact hin.trans List.nil_infix
      · exact ih.2 hin
  | word text hne hword => rw [collapse_of_noBlank hword]
  | split text c rest hne hword hc ih =>
    rw [collapse_word_append hne hword hc, infix_append_cons_iff (lacks hc)]
    refine Iff.trans ?_ (or_congr Iff.rfl ih)
    cases collapse rest with
    | nil =>
      rw [spaced, List.append_nil]
      constructor
      · exact Or.inl
      · rintro (hin | hin)
        · exact hin
        · exact hin.trans List.nil_infix
    | cons a tail => rw [spaced, infix_append_cons_iff (lacks isBlank_space)]

/-- Blanks behind a text make no stretch without blanks. -/
lemma infix_append_allBlank_iff {word blanks : Text} (hword : NoBlank word)
    (hblanks : AllBlank blanks) (text : Text) : word <:+: text ++ blanks ↔ word <:+: text := by
  rw [← infix_collapse_iff hword, collapse_append_allBlank _ hblanks,
    infix_collapse_iff hword]

end CssPrune.Text
