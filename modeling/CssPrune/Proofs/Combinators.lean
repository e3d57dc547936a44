import CssPrune.Proofs.LiveSelectors

/-!
# The last simple selector

A selector is cut behind the last occurrence of each combinator, one combinator after the other.
Each cut leaves the longest end of a text that is free of one character, and the longest free end of
that is the longest end of the whole text that is free of both (`IsLongestEnd.trans`). So the order
of the cuts does not show in what is left (`Selector.simple_eq_trim_longest`).
-/

namespace CssPrune

/-- The longest end of a text that holds none of some characters. -/
structure IsLongestEnd (marks : List Char) (text ending : Text) : Prop where
  suffix : ending <:+ text
  free : ∀ c ∈ marks, c ∉ ending
  longest : ∀ other, other <:+ text → (∀ c ∈ marks, c ∉ other) → other <:+ ending

namespace IsLongestEnd

variable {marks others : List Char} {text middle ending : Text}

/-- Without characters to look for, the whole text is left. -/
lemma nil (text : Text) : IsLongestEnd [] text text :=
  ⟨List.suffix_refl text, nofun, fun _ hother _ => hother⟩

/-- What stands behind the last occurrence of a character is the longest end without it. -/
lemma afterLast (c : Char) (text : Text) : IsLongestEnd [c] text (Text.afterLast c text) where
  suffix := by
    have hprefix : text.reverse.takeWhile (· != c) <+: text.reverse := List.takeWhile_prefix _
    rw [← List.reverse_suffix, List.reverse_reverse] at hprefix
    exact hprefix
  free := by
    intro d hd
    obtain rfl := List.mem_singleton.1 hd
    exact Text.not_mem_afterLast d text
  longest := by
    rintro other ⟨front, rfl⟩ hfree
    -- a stretch behind the last occurrence stays as it is
    rw [Text.afterLast_append (hfree c List.mem_cons_self)]
    exact List.suffix_append _ _

/-- A second cut finds what is free of both. -/
lemma trans (hmiddle : IsLongestEnd marks text middle) (h : IsLongestEnd others middle ending) :
    IsLongestEnd (marks ++ others) text ending where
  suffix := h.suffix.trans hmiddle.suffix
  free := by
    intro c hc hmem
    rcases List.mem_append.1 hc with hc | hc
    · exact hmiddle.free c hc (h.suffix.subset hmem)
    · exact h.free c hc hmem
  longest := by
    intro other hother hfree
    obtain ⟨hmarks, hothers⟩ := List.forall_mem_append.1 hfree
    apply h.longest other _ hothers
    exact hmiddle.longest other hother hmarks

/-- Only which characters are looked for counts. -/
lemma congr (h : IsLongestEnd marks text ending) (hmarks : ∀ c, c ∈ marks ↔ c ∈ others) :
    IsLongestEnd others text ending where
  suffix := h.suffix
  free := fun c hc => h.free c ((hmarks c).2 hc)
  longest := fun other hother hfree =>
    h.longest other hother fun c hc => hfree c ((hmarks c).1 hc)

/-- There is one longest end. -/
lemma unique (h : IsLongestEnd marks text ending) (hmiddle : IsLongestEnd marks text middle) :
    ending = middle := by
  have hfirst : ending <:+ middle := hmiddle.longest ending h.suffix h.free
  have hsecond : middle <:+ ending := h.longest middle hmiddle.suffix hmiddle.free
  exact hfirst.eq_of_length (Nat.le_antisymm hfirst.length_le hsecond.length_le)

end IsLongestEnd

namespace Selector

/-- Cuts at some characters one after the other leave the longest end without them. -/
lemma isLongestEnd_afterCombinators (order : List Char) (selector : Text) :
    IsLongestEnd order selector (afterCombinators order selector) := by
  induction order generalizing selector with
  | nil => exact IsLongestEnd.nil selector
  | cons c order ih =>
    rw [afterCombinators_cons]
    exact (IsLongestEnd.afterLast c selector).trans (ih _)

/-- Whatever the order in which a selector is cut at the combinators, its longest end without any of
them is left, and the last simple selector is that end without the blanks around it. -/
theorem simple_eq_trim_longest {selector : Text} (h : isCombined selector = true) :
    ∃ ending, IsLongestEnd combinators selector ending ∧
      (∀ order : List Char, order.Perm combinators → afterCombinators order selector = ending) ∧
      simple selector = Text.trim ending := by
  have hending := isLongestEnd_afterCombinators combinators selector
  refine ⟨_, hending, fun order hperm => ?_, simple_of_isCombined h⟩
  have horder := isLongestEnd_afterCombinators order selector
  exact (horder.congr fun c => hperm.mem_iff).unique hending

/-- All four combinators, and a tab that is not one of them. -/
theorem simple_eq_trim_longest_tab :
    let selector := "ul li>a ~ b+\t.c\t".toList
    isCombined selector = true ∧ ['+', '~', ' ', '>'].Perm combinators ∧
      afterCombinators ['+', '~', ' ', '>'] selector = "\t.c\t".toList ∧
      simple selector = ".c".toList := by
  intro selector
  have hcombined : isCombined selector = true := by decide +kernel
  have hperm : ['+', '~', ' ', '>'].Perm combinators := by decide
  obtain ⟨ending, -, horder, hsimple⟩ := simple_eq_trim_longest hcombined
  have hending : ending = "\t.c\t".toList := (horder _ (.refl _)).symm.trans (by decide +kernel)
  refine ⟨hcombined, hperm, (horder _ hperm).trans hending, hsimple.trans ?_⟩
  rw [hending]
  decide +kernel

end Selector

end CssPrune
