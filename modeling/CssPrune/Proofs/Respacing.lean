import CssPrune.Proofs.Words

/-!
# Other blanks

Two texts are respaced forms of each other if they have the same characters that are not blank, and
blanks between the same of them (`Text.Respaced`). Such texts have the same words and the same
stretches without blanks, and they are cut alike wherever no gap is cut. Up to blanks at its ends,
every text is a respaced form of its words with single spaces (`Text.exists_respaced_collapse`).
-/

namespace CssPrune

namespace Text

/-- One blank or more, and nothing else. -/
def IsGap (text : Text) : Prop :=
  text ≠ [] ∧ AllBlank text

/-- Two texts differ at most in the blanks that make up their gaps. -/
inductive Respaced : Text → Text → Prop where
  | nil : Respaced [] []
  | char {c first second} : isBlank c = false → Respaced first second →
    Respaced (c :: first) (c :: second)
  | gap {blanks others first second} : IsGap blanks → IsGap others → Respaced first second →
    Respaced (blanks ++ first) (others ++ second)

/-- A blank is a gap. -/
lemma isGap_singleton {c : Char} (h : isBlank c = true) : IsGap [c] :=
  ⟨List.cons_ne_nil _ _, allBlank_cons.2 ⟨h, allBlank_nil⟩⟩

/-- A gap from behind is a gap. -/
lemma IsGap.reverse {text : Text} (h : IsGap text) : IsGap text.reverse :=
  ⟨List.reverse_ne_nil_iff.2 h.1, fun c hc => h.2 c (List.mem_reverse.1 hc)⟩

/-- A blank in front of a gap makes a gap. -/
lemma IsGap.cons {c : Char} (hc : isBlank c = true) {text : Text} (h : IsGap text) :
    IsGap (c :: text) :=
  ⟨List.cons_ne_nil _ _, allBlank_cons.2 ⟨hc, h.2⟩⟩

namespace Respaced

variable {first second third text : Text} {c : Char}

/-- A text is respaced into itself. -/
lemma refl (text : Text) : Respaced text text := by
  induction text with
  | nil => exact .nil
  | cons c text ih =>
    cases hc : isBlank c with
    | true => exact .gap (isGap_singleton hc) (isGap_singleton hc) ih
    | false => exact .char hc ih

/-- Respacing goes both ways. -/
lemma symm (h : Respaced first second) : Respaced second first := by
  induction h with
  | nil => exact .nil
  | char hc _ ih => exact .char hc ih
  | gap hblanks hothers _ ih => exact .gap hothers hblanks ih

/-- Respaced texts one behind the other are respaced. -/
lemma append {rest others : Text} (h : Respaced first second) (hrest : Respaced rest others) :
    Respaced (first ++ rest) (second ++ others) := by
  induction h with
  | nil => exact hrest
  | char hc _ ih => exact .char hc ih
  | gap hblanks hothers _ ih =>
    rw [List.append_assoc, List.append_assoc]
    exact .gap hblanks hothers ih

/-- Respaced texts from behind are respaced. -/
lemma reverse (h : Respaced first second) : Respaced first.reverse second.reverse := by
  induction h with
  | nil => exact .nil
  | @char c first second hc _ ih =>
    rw [List.reverse_cons, List.reverse_cons]
    exact ih.append (.char hc .nil)
  | gap hblanks hothers _ ih =>
    rw [List.reverse_append, List.reverse_append]
    have hgap := Respaced.gap hblanks.reverse hothers.reverse .nil
    rw [List.append_nil, List.append_nil] at hgap
    exact ih.append hgap

/-- A blank in front of a gap belongs to the gap. -/
lemma cons_blank {b : Char} (h : Respaced (b :: first) second) (hc : isBlank c = true)
    (hb : isBlank b = true) : Respaced (c :: b :: first) second := by
  generalize htext : b :: first = text at h
  cases h with
  | nil => cases htext
  | char hkept _ =>
    obtain rfl := (List.cons.inj htext).1
    cases hb.symm.trans hkept
  | gap hblanks hothers hrest => exact .gap (hblanks.cons hc) hothers hrest

/-- Respaced texts have the same words, also those that begin in front of them. -/
lemma words_append_eq (h : Respaced first second) (front : Text) :
    words (front ++ first) = words (front ++ second) := by
  induction h generalizing front with
  | nil => rfl
  | @char c first second _ _ ih =>
    rw [List.append_cons, ih, ← List.append_cons]
  | @gap blanks others first second hblanks hothers _ ih =>
    have hgap {gap : Text} (hgap : IsGap gap) (rest : Text) :
        words (front ++ (gap ++ rest)) = words front ++ words rest := by
      obtain ⟨b, gap, rfl⟩ := List.exists_cons_of_ne_nil hgap.1
      obtain ⟨hb, hblank⟩ := allBlank_cons.1 hgap.2
      rw [List.cons_append, words_append_blank hb, words_allBlank_append hblank]
    rw [hgap hblanks, hgap hothers]
    exact congrArg (words front ++ ·) (ih [])

/-- Respaced texts are collapsed alike. -/
lemma collapse_eq (h : Respaced first second) : collapse first = collapse second :=
  collapse_congr (h.words_append_eq [])

/-- Respaced texts hold the same words without blanks. -/
lemma infix_iff (h : Respaced first second) {word : Text} (hword : NoBlank word) :
    word <:+: first ↔ word <:+: second := by
  rw [← infix_collapse_iff hword, h.collapse_eq, infix_collapse_iff hword]

/-- Respaced texts are empty alike. -/
lemma eq_nil_iff (h : Respaced first second) : first = [] ↔ second = [] := by
  cases h with
  | nil => exact Iff.rfl
  | char => simp
  | gap hblanks hothers _ => simp [hblanks.1, hothers.1]

/-- Respaced texts are cut alike at a character that is not blank. -/
lemma exists_append_cons {front back : Text} (h : Respaced (front ++ c :: back) text)
    (hc : isBlank c = false) :
    ∃ front' back', text = front' ++ c :: back' ∧ Respaced front front' ∧ Respaced back back' := by
  generalize heq : front ++ c :: back = whole at h
  induction h generalizing front with
  | nil => simp at heq
  | @char d first second hd hrest ih =>
    cases front with
    | nil =>
      obtain ⟨rfl, rfl⟩ := List.cons.inj heq
      exact ⟨[], second, rfl, .nil, hrest⟩
    | cons a front =>
      obtain ⟨rfl, htail⟩ := List.cons.inj heq
      obtain ⟨front', back', rfl, hfront, hback⟩ := ih htail
      exact ⟨a :: front', back', rfl, .char hd hfront, hback⟩
  | @gap blanks others first second hblanks hothers hrest ih =>
    -- the character stands behind the gap
    rcases List.append_eq_append_iff.1 heq with ⟨middle, rfl, hmiddle⟩ | ⟨middle, rfl, hmiddle⟩
    · cases middle with
      | nil =>
        obtain ⟨front', back', rfl, hfront, hback⟩ := @ih [] hmiddle
        have hgap := Respaced.gap hblanks hothers hfront
        rw [List.append_nil, List.append_nil] at hgap
        exact ⟨others ++ front', back', (List.append_assoc _ _ _).symm, hgap, hback⟩
      | cons a middle =>
        obtain ⟨rfl, -⟩ := List.cons.inj hmiddle
        have hblank := hblanks.2 c (by simp)
        cases hblank.symm.trans hc
    · obtain ⟨front', back', rfl, hfront, hback⟩ := ih hmiddle.symm
      exact ⟨others ++ front', back', (List.append_assoc _ _ _).symm, .gap hblanks hothers hfront,
        hback⟩

/-- A character that is not blank begins both of two respaced texts. -/
lemma exists_cons (h : Respaced (c :: first) text) (hc : isBlank c = false) :
    ∃ rest, text = c :: rest ∧ Respaced first rest := by
  rw [← List.nil_append (c :: first)] at h
  obtain ⟨front, rest, rfl, hfront, hrest⟩ := h.exists_append_cons hc
  rw [hfront.eq_nil_iff.1 rfl]
  exact ⟨rest, rfl, hrest⟩

/-- Respaced texts begin with the same character unless that is blank. -/
lemma head?_eq_some_iff (h : Respaced first second) (hc : isBlank c = false) :
    first.head? = some c ↔ second.head? = some c := by
  have hhead {first second : Text} (h : Respaced first second) (hfirst : first.head? = some c) :
      second.head? = some c := by
    obtain ⟨rest, rfl⟩ := List.head?_eq_some_iff.1 hfirst
    obtain ⟨others, rfl, -⟩ := h.exists_cons hc
    rfl
  exact ⟨hhead h, hhead h.symm⟩

/-- Respaced texts begin alike with a word. -/
lemma exists_word_append {word : Text} (h : Respaced (word ++ first) text) (hword : NoBlank word) :
    ∃ rest, text = word ++ rest ∧ Respaced first rest := by
  induction word generalizing text with
  | nil => exact ⟨text, rfl, h⟩
  | cons c word ih =>
    obtain ⟨hc, hword⟩ := List.forall_mem_cons.1 hword
    obtain ⟨others, rfl, hrest⟩ := h.exists_cons hc
    obtain ⟨rest, rfl, hbehind⟩ := ih hrest hword
    exact ⟨rest, rfl, hbehind⟩

/-- Respaced texts are cut alike at a word. -/
lemma exists_append_word {word front back : Text} (h : Respaced (front ++ word ++ back) text)
    (hne : word ≠ []) (hword : NoBlank word) :
    ∃ front' back', text = front' ++ word ++ back' ∧ Respaced front front' ∧
      Respaced back back' := by
  obtain ⟨c, word, rfl⟩ := List.exists_cons_of_ne_nil hne
  obtain ⟨hc, hrest⟩ := List.forall_mem_cons.1 hword
  rw [List.append_assoc, List.cons_append] at h
  obtain ⟨front', behind, rfl, hfront, hbehind⟩ := h.exists_append_cons hc
  obtain ⟨back', rfl, hback⟩ := hbehind.exists_word_append hrest
  exact ⟨front', back', by simp, hfront, hback⟩

/-! ## Cutting blanks off -/

section While

variable {p : Char → Bool} (hp : ∀ c, isBlank c = true → p c = true)

include hp

/-- Respaced texts stay so without the characters of a kind from the front that blanks belong to. -/
lemma dropWhile (h : Respaced first second) :
    Respaced (first.dropWhile p) (second.dropWhile p) := by
  induction h with
  | nil => exact .nil
  | @char c first second hc hrest ih =>
    by_cases hpc : p c = true
    · rwa [List.dropWhile_cons_of_pos hpc, List.dropWhile_cons_of_pos hpc]
    · rw [List.dropWhile_cons_of_neg hpc, List.dropWhile_cons_of_neg hpc]
      exact .char hc hrest
  | gap hblanks hothers _ ih =>
    rwa [List.dropWhile_append_of_pos fun c hc => hp c (hblanks.2 c hc),
      List.dropWhile_append_of_pos fun c hc => hp c (hothers.2 c hc)]

/-- The characters of a kind that blanks belong to are respaced in front as the texts are. -/
lemma takeWhile (h : Respaced first second) :
    Respaced (first.takeWhile p) (second.takeWhile p) := by
  induction h with
  | nil => exact .nil
  | @char c first second hc hrest ih =>
    by_cases hpc : p c = true
    · rw [List.takeWhile_cons_of_pos hpc, List.takeWhile_cons_of_pos hpc]
      exact .char hc ih
    · rw [List.takeWhile_cons_of_neg hpc, List.takeWhile_cons_of_neg hpc]
      exact .nil
  | gap hblanks hothers _ ih =>
    rw [List.takeWhile_append_of_pos fun c hc => hp c (hblanks.2 c hc),
      List.takeWhile_append_of_pos fun c hc => hp c (hothers.2 c hc)]
    exact .gap hblanks hothers ih

end While

/-- Respaced texts stay so once they are trimmed. -/
lemma trim (h : Respaced first second) : Respaced (trim first) (trim second) := by
  have hblank : ∀ c, isBlank c = true → isBlank c = true := fun _ hc => hc
  exact ((h.dropWhile hblank).reverse.dropWhile hblank).reverse

end Respaced

/-- A text is a respaced form of its words with single spaces, but for blanks at its ends. -/
lemma exists_respaced_collapse (text : Text) :
    ∃ back, AllBlank back ∧
      Respaced text ((if text.head?.any isBlank then [' '] else []) ++ collapse text ++ back) := by
  have hcons {c : Char} {rest back : Text} (hc : isBlank c = true)
      (h : Respaced rest
        ((if rest.head?.any isBlank then [' '] else []) ++ collapse rest ++ back)) :
      Respaced (c :: rest) (' ' :: (collapse rest ++ back)) := by
    cases rest with
    | nil => exact .gap (isGap_singleton hc) (isGap_singleton isBlank_space) h
    | cons b rest =>
      cases hb : isBlank b with
      | true =>
        rw [List.head?_cons, Option.any_some, hb] at h
        exact h.cons_blank hc hb
      | false =>
        rw [List.head?_cons, Option.any_some, hb] at h
        exact .gap (isGap_singleton hc) (isGap_singleton isBlank_space) h
  induction text using wordInduction with
  | nil => exact ⟨[], allBlank_nil, .nil⟩
  | blank c rest hc ih =>
    obtain ⟨back, hback, hrest⟩ := ih
    refine ⟨back, hback, ?_⟩
    rw [List.head?_cons, Option.any_some, hc, collapse_cons_blank hc]
    exact hcons hc hrest
  | word text hne hword =>
    obtain ⟨c, rest, rfl⟩ := List.exists_cons_of_ne_nil hne
    refine ⟨[], allBlank_nil, ?_⟩
    rw [List.head?_cons, Option.any_some, hword c List.mem_cons_self, collapse_of_noBlank hword,
      List.append_nil]
    exact .refl _
  | split word c rest hne hword hc ih =>
    obtain ⟨back, hback, hrest⟩ := ih
    obtain ⟨a, word, rfl⟩ := List.exists_cons_of_ne_nil hne
    rw [List.cons_append, List.head?_cons, Option.any_some, hword a List.mem_cons_self,
      ← List.cons_append, collapse_word_append hne hword hc]
    have hbehind := (Respaced.refl (a :: word)).append (hcons hc hrest)
    cases hcollapse : collapse rest with
    | nil =>
      rw [hcollapse] at hbehind
      refine ⟨' ' :: back, allBlank_cons.2 ⟨isBlank_space, hback⟩, ?_⟩
      simpa [spaced] using hbehind
    | cons b tail =>
      rw [hcollapse] at hbehind
      refine ⟨back, hback, ?_⟩
      simpa [spaced] using hbehind

end Text

end CssPrune
