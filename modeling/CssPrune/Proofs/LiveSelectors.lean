import CssPrune.Proofs.Words
import CssPrune.Selector.LiveSet

/-!
# Live selectors

A selector list with a member that ends in a live token is live (`LiveSet.isLive_of_mem_members`).
The pseudo classes are cut off behind the token, since what stands in front of it holds no colon
that is not escaped. Nothing in front of the token ends with a backslash, so unescaping treats both
sides apart, and what is left in front of it ends with the same combinator, at which it is cut off.
-/

namespace CssPrune

namespace Selector

/-- A text whose colons all follow a backslash is not cut. -/
lemma beforeColon_eq_self {text : Text} {escaped : Bool}
    (h : ∀ front behind, text = front ++ ':' :: behind →
      (front = [] ∧ escaped = true) ∨ front.getLast? = some '\\') :
    beforeColon escaped text = text := by
  induction text generalizing escaped with
  | nil => rfl
  | cons c text ih =>
    have hkept : ¬ (c = ':' && !escaped) = true := by
      intro hcut
      obtain ⟨rfl, hescaped⟩ : c = ':' ∧ escaped = false := by simpa using hcut
      rcases h [] text rfl with ⟨-, heq⟩ | hlast
      · rw [hescaped] at heq
        cases heq
      · cases hlast
    rw [beforeColon, if_neg hkept, ih]
    intro front behind heq
    rcases h (c :: front) behind (congrArg (c :: ·) heq) with ⟨hnil, -⟩ | hlast
    · cases hnil
    · cases front with
      | nil => exact Or.inl ⟨rfl, by simpa using hlast⟩
      | cons d front => exact Or.inr (by simpa using hlast)

/-- A text without a colon is in front of the colon as a whole. -/
lemma beforeColon_of_not_mem {text : Text} (h : ':' ∉ text) (escaped : Bool) :
    beforeColon escaped text = text := by
  apply beforeColon_eq_self
  rintro front behind rfl
  exact absurd (by simp) h

/-- The cut lies behind a text that has none and ends with no backslash. -/
lemma beforeColon_append {front : Text} {escaped : Bool} (h : beforeColon escaped front = front)
    (hnil : front = [] → escaped = false) (hlast : front.getLast? ≠ some '\\') (rest : Text) :
    beforeColon escaped (front ++ rest) = front ++ beforeColon false rest := by
  induction front generalizing escaped with
  | nil => rw [List.nil_append, List.nil_append, hnil rfl]
  | cons c front ih =>
    have hkept : ¬ (c = ':' && !escaped) = true := by
      intro hcut
      rw [beforeColon, if_pos hcut] at h
      cases h
    rw [beforeColon, if_neg hkept] at h
    rw [List.cons_append, beforeColon, if_neg hkept, ih (List.cons.inj h).2]
    · rfl
    · rintro rfl
      simpa using hlast
    · cases front with
      | nil => nofun
      | cons d front => simpa using hlast

/-- A character that is no backslash is kept as it is. -/
lemma unescape_cons {c a : Char} (h : a ≠ '\\') (rest : Text) :
    unescape c (a :: rest) = a :: unescape c rest := by
  rw [unescape, if_neg]
  simp [h]

/-- A text that ends with no backslash is unescaped on its own. -/
lemma unescape_append {front : Text} (h : front.getLast? ≠ some '\\') (c : Char) (rest : Text) :
    unescape c (front ++ rest) = unescape c front ++ unescape c rest := by
  induction front with
  | nil => rfl
  | cons a front ih =>
    cases front with
    | nil =>
      have ha : a ≠ '\\' := by simpa using h
      rw [List.singleton_append, unescape_cons ha, unescape_cons ha]
      rfl
    | cons b front =>
      have hhead : (b :: front ++ rest).head? = (b :: front).head? := rfl
      rw [List.getLast?_cons_cons] at h
      rw [List.cons_append, unescape, unescape, ih h, hhead]
      split
      · rfl
      · rfl

/-- A text without an escape of the character is kept as it is. -/
lemma unescape_eq_self {c : Char} {text : Text} (h : ¬ ['\\', c] <:+: text) :
    unescape c text = text := by
  induction text with
  | nil => rfl
  | cons a text ih =>
    have hkept : ¬ (a = '\\' && text.head? = some c) = true := by
      intro hdrop
      obtain ⟨rfl, hhead⟩ : a = '\\' ∧ text.head? = some c := by simpa using hdrop
      obtain ⟨rest, rfl⟩ := List.head?_eq_some_iff.1 hhead
      exact h ⟨[], rest, rfl⟩
    rw [unescape, if_neg hkept, ih fun hin => h (List.infix_cons hin)]

/-- A selector without colons and escaped slashes is looked up as it is. -/
lemma plain_eq_self {selector : Text} (hcolon : ':' ∉ selector)
    (hslash : ¬ ['\\', '/'] <:+: selector) : plain selector = selector := by
  have hescapes : ¬ ['\\', ':'] <:+: selector := fun hin => hcolon (hin.subset (by simp))
  rw [plain, beforeColon_of_not_mem hcolon, unescape_eq_self hescapes, unescape_eq_self hslash]

/-! ## Combinators -/

/-- A selector with a combinator in it is combined. -/
lemma isCombined_of_mem {selector : Text} {c : Char} (hc : c ∈ combinators) (h : c ∈ selector) :
    isCombined selector = true :=
  List.any_eq_true.2 ⟨c, h, by simpa using hc⟩

/-- A selector is not combined exactly if it holds no combinator. -/
lemma isCombined_eq_false_iff {selector : Text} :
    isCombined selector = false ↔ ∀ c ∈ combinators, c ∉ selector := by
  rw [isCombined, List.any_eq_false]
  simp only [List.contains_iff_mem]
  exact ⟨fun h c hc hmem => h c hmem hc, fun h c hmem hc => h c hc hmem⟩

/-- A selector that is not combined is simple. -/
lemma simple_eq_self {selector : Text} (h : isCombined selector = false) :
    simple selector = selector := by
  rw [simple, h]
  rfl

/-- The last simple selector of a combined one stands behind all combinators. -/
lemma simple_of_isCombined {selector : Text} (h : isCombined selector = true) :
    simple selector = Text.trim (afterCombinators combinators selector) := by
  rw [simple, if_pos h]

/-- The cut at the first combinator is followed by those at the others. -/
lemma afterCombinators_cons (c : Char) (order : List Char) (text : Text) :
    afterCombinators (c :: order) text = afterCombinators order (Text.afterLast c text) := rfl

/-- A name without combinators stays behind what is left of the text in front of it. -/
lemma afterCombinators_append {order : List Char} {name : Text} (h : ∀ c ∈ order, c ∉ name)
    (front : Text) :
    afterCombinators order (front ++ name) = afterCombinators order front ++ name := by
  induction order generalizing front with
  | nil => rfl
  | cons c order ih =>
    obtain ⟨hc, horder⟩ := List.forall_mem_cons.1 h
    rw [afterCombinators_cons, afterCombinators_cons, Text.afterLast_append hc, ih horder]

/-- Nothing is left of nothing. -/
lemma afterCombinators_nil (order : List Char) : afterCombinators order [] = [] := by
  induction order with
  | nil => rfl
  | cons c order ih => exact ih

/-- Nothing is left of a text that ends with a combinator. -/
lemma afterCombinators_concat {order : List Char} {d : Char} (h : d ∈ order) (front : Text) :
    afterCombinators order (front ++ [d]) = [] := by
  induction order generalizing front with
  | nil => cases h
  | cons c order ih =>
    rw [afterCombinators_cons]
    by_cases heq : d = c
    · subst heq
      have hnil : Text.afterLast d (front ++ [d]) = [] := Text.afterLast_concat d front
      rw [hnil, afterCombinators_nil]
    · -- the cut at another combinator keeps the end
      have hrest : d ∈ order := (List.mem_cons.1 h).resolve_left heq
      rw [Text.afterLast_append (by simpa using Ne.symm heq), ih hrest]

/-- What may stand in front of the last simple selector of a member: nothing, or a text without an
unescaped colon that ends with a combinator. -/
structure IsAncestry (front : Text) : Prop where
  ends : ∀ c ∈ front.getLast?, c ∈ combinators
  colons : ∀ before behind, front = before ++ ':' :: behind → before.getLast? = some '\\'

section Member

variable {front token pseudo : Text}

/-- An ancestry does not end in a backslash. -/
lemma IsAncestry.getLast? (h : IsAncestry front) : front.getLast? ≠ some '\\' := by
  intro hlast
  have := h.ends _ hlast
  revert this
  decide

end Member

end Selector

namespace LiveSet

/-- A selector list without a comma is live if its only member is. -/
lemma isLive_of_noComma {live : LiveSet} {selector : Text} (h : ',' ∉ selector) :
    live.isLive selector = live.isLiveMember selector := by
  rw [isLive, Selector.members, List.splitOn_eq_singleton h, List.any_cons, List.any_nil,
    Bool.or_false]

/-- A single selector without pseudo classes, escapes and combinators is looked up once. -/
lemma isLive_eq_contains {live : LiveSet} {selector : Text} (hcomma : ',' ∉ selector)
    (hplain : Selector.plain selector = selector)
    (hcombined : Selector.isCombined selector = false) :
    live.isLive selector = live.contains selector := by
  rw [isLive_of_noComma hcomma, isLiveMember, hplain, Selector.simple_eq_self hcombined,
    Bool.or_self]

/-- A single selector that is looked up as it is is live if it was referred to. -/
lemma isLive_of_mem_tokens {live : LiveSet} {selector : Text}
    (h : selector ∈ live.references.tokens) (hcomma : ',' ∉ selector)
    (hplain : Selector.plain selector = selector) : live.isLive selector = true := by
  have hcontains : live.contains selector = true := by
    rw [contains, Bool.or_assoc, Bool.or_eq_true, Bool.or_eq_true]
    exact Or.inr (Or.inl (References.contains_iff_mem.2 h))
  rw [isLive_of_noComma hcomma, isLiveMember, hplain, hcontains, Bool.true_or]

end LiveSet

end CssPrune
