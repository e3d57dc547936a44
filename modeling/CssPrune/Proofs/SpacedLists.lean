import CssPrune.Proofs.LiveSelectors
import CssPrune.Proofs.LiveSets

/-!
# Spaces in selector lists

What the spaces around the commas of a selector list change. Spaces in front of a member are left in
front of the selector that is looked up, and are cut off with the first combinator
(`Selector.simple_spaces_append`). Spaces behind a member are cut off with its pseudo class, and
leave nothing of a member that has none (`Selector.simple_append_spaces`). So a list is live exactly
if one of its selectors is, among those with a pseudo class or with no space behind them
(`LiveSet.isLive_joined`), unless a live selector holds spaces or combinators itself.
-/

namespace CssPrune

open Text (SolidEnds isBlank)

/-- A row of spaces. -/
def Text.spaces (count : Nat) : Text :=
  List.replicate count ' '

namespace Text

/-- Spaces are spaces. -/
lemma eq_space_of_mem_spaces {count : Nat} {c : Char} (h : c ∈ spaces count) : c = ' ' :=
  List.eq_of_mem_replicate h

/-- No other character belongs to spaces. -/
lemma not_mem_spaces {c : Char} (h : c ≠ ' ') (count : Nat) : c ∉ spaces count :=
  fun hmem => h (eq_space_of_mem_spaces hmem)

/-- Spaces are blank. -/
lemma allBlank_spaces (count : Nat) : AllBlank (spaces count) := by
  intro c hc
  rw [eq_space_of_mem_spaces hc]
  exact isBlank_space

/-- Spaces in front of a text do not change what stands behind its last space. -/
lemma afterLast_spaces_append (count : Nat) (text : Text) :
    afterLast ' ' (spaces count ++ text) = afterLast ' ' text := by
  by_cases h : ' ' ∈ text
  · obtain ⟨front, back, rfl, hback⟩ := exists_last h
    rw [← List.append_assoc, afterLast_append_cons hback, afterLast_append_cons hback]
  · have hself : afterLast ' ' text = text := afterLast_append h []
    rw [afterLast_append h, hself]
    cases count with
    | zero => rfl
    | succ count =>
      rw [spaces, List.replicate_succ', afterLast_concat, List.nil_append]

end Text

open Text (spaces)

namespace Selector

/-! ## Pseudo classes -/

/-- Whether a selector has a colon that does not follow a backslash. -/
def hasPseudo (selector : Text) : Bool :=
  beforeColon false selector != selector

/-- A text without colons is cut off exactly if it stands behind a cut. -/
lemma beforeColon_append_of_not_mem {rest : Text} (h : ':' ∉ rest) (escaped : Bool) (text : Text) :
    beforeColon escaped (text ++ rest) =
      beforeColon escaped text ++ if beforeColon escaped text = text then rest else [] := by
  induction text generalizing escaped with
  | nil => exact beforeColon_of_not_mem h escaped
  | cons c text ih =>
    rw [List.cons_append, beforeColon, beforeColon]
    split
    · rfl
    · rw [ih, List.cons_append]
      simp only [List.cons.injEq, true_and]

/-- What stands in front of a colon begins as the text does. -/
lemma head?_beforeColon {escaped : Bool} {text : Text} {c : Char}
    (h : c ∈ (beforeColon escaped text).head?) : c ∈ text.head? := by
  cases text with
  | nil => exact h
  | cons d text =>
    rw [beforeColon] at h
    split at h
    · cases h
    · exact h

/-! ## Escapes -/

/-- What follows a text is unescaped on its own unless it begins with an escaped character. -/
lemma unescape_append_of_head? {c : Char} {rest : Text} (h : rest.head? ≠ some c) (front : Text) :
    unescape c (front ++ rest) = unescape c front ++ unescape c rest := by
  induction front with
  | nil => rfl
  | cons a front ih =>
    have hhead : (front ++ rest).head? = some c ↔ front.head? = some c := by
      cases front with
      | nil => exact iff_of_false h nofun
      | cons b front => exact Iff.rfl
    rw [List.cons_append, unescape, unescape, ih]
    simp only [hhead]
    split
    · rfl
    · rfl

/-- An unescaped text begins as the text does, or with the character that was escaped. -/
lemma head?_unescape {c d : Char} {text : Text} (h : d ∈ (unescape c text).head?) :
    d = c ∨ d ∈ text.head? := by
  induction text with
  | nil => exact Or.inr h
  | cons a text ih =>
    rw [unescape] at h
    split at h
    · rename_i hdrop
      obtain ⟨-, hhead⟩ : a = '\\' ∧ text.head? = some c := by simpa using hdrop
      rcases ih h with heq | hmem
      · exact Or.inl heq
      · rw [hhead] at hmem
        exact Or.inl (Option.some.inj hmem).symm
    · exact Or.inr h

/-- Spaces hold nothing to unescape. -/
lemma unescape_spaces {c : Char} (count : Nat) : unescape c (spaces count) = spaces count := by
  apply unescape_eq_self
  intro hin
  exact Text.not_mem_spaces (by decide) count (hin.subset List.mem_cons_self)

/-- Spaces do not end in a backslash. -/
lemma getLast?_spaces_ne (count : Nat) : (spaces count).getLast? ≠ some '\\' := by
  intro hlast
  exact Text.not_mem_spaces (by decide) count (List.mem_of_getLast? hlast)

/-! ## Candidates -/

variable {selector : Text}

/-- Spaces in front of a selector stay in front of its plain part. -/
lemma plain_spaces_append (count : Nat) (selector : Text) :
    plain (spaces count ++ selector) = spaces count ++ plain selector := by
  have hcut := beforeColon_of_not_mem (Text.not_mem_spaces (c := ':') (by decide) count) false
  have hlast := getLast?_spaces_ne count
  rw [plain, beforeColon_append hcut (fun _ => rfl) hlast, unescape_append hlast, unescape_spaces,
    unescape_append hlast, unescape_spaces]
  rfl

/-- Spaces behind a selector are cut off with its pseudo class. -/
lemma plain_append_spaces (selector : Text) (count : Nat) :
    plain (selector ++ spaces count) =
      plain selector ++ if hasPseudo selector then [] else spaces count := by
  have hcolon := Text.not_mem_spaces (c := ':') (by decide) count
  have hslash := Text.not_mem_spaces (c := '/') (by decide) count
  rw [plain, beforeColon_append_of_not_mem hcolon, hasPseudo]
  by_cases hcut : beforeColon false selector = selector
  · rw [if_pos hcut, if_neg (by simp [hcut]), unescape_append_of_head?, unescape_spaces,
      unescape_append_of_head?, unescape_spaces, ← plain]
    · exact fun hhead => hslash (List.mem_of_mem_head? hhead)
    · exact fun hhead => hcolon (List.mem_of_mem_head? hhead)
  · rw [if_neg hcut, if_pos (by simp [hcut]), List.append_nil, List.append_nil, ← plain]

/-- A selector that ends at no blanks but spaces keeps none if it has no combinators. -/
lemma solidEnds_plain (hends : SolidEnds selector)
    (hlast : ∀ c ∈ (plain selector).getLast?, isBlank c = true → c = ' ')
    (h : isCombined (plain selector) = false) : SolidEnds (plain selector) := by
  constructor
  · intro c hc
    -- where an escape stands first, a slash or a colon is left of it
    rcases head?_unescape hc with rfl | hc
    · rfl
    rcases head?_unescape hc with rfl | hc
    · rfl
    exact hends.1 c (head?_beforeColon hc)
  · intro c hc
    by_contra hblank
    obtain rfl := hlast c hc (by simpa using hblank)
    exact isCombined_eq_false_iff.1 h ' ' (by decide) (List.mem_of_mem_getLast? hc)

/-- Spaces in front of a selector do not change its last simple selector. -/
lemma simple_spaces_append (count : Nat) (h : isCombined selector = false → SolidEnds selector) :
    simple (spaces count ++ selector) = simple selector := by
  cases count with
  | zero => rfl
  | succ count =>
    have hspaced : isCombined (spaces (count + 1) ++ selector) = true :=
      isCombined_of_mem (c := ' ') (by decide) (by simp [spaces])
    -- the space comes first among the combinators, so the cut at it takes the spaces along
    have hafter : afterCombinators combinators (spaces (count + 1) ++ selector) =
        afterCombinators combinators selector := by
      rw [combinators, afterCombinators_cons, Text.afterLast_spaces_append, ← afterCombinators_cons]
    rw [simple_of_isCombined hspaced, hafter]
    cases hcombined : isCombined selector with
    | true => rw [simple_of_isCombined hcombined]
    | false =>
      have hself := afterCombinators_append (isCombined_eq_false_iff.1 hcombined) []
      rw [List.nil_append, afterCombinators_nil, List.nil_append] at hself
      rw [hself, simple_eq_self hcombined, Text.trim_eq_self (h hcombined)]

/-- Nothing is left of a selector with a space behind it. -/
lemma simple_append_spaces (selector : Text) (count : Nat) :
    simple (selector ++ spaces (count + 1)) = [] := by
  rw [simple_of_isCombined (isCombined_of_mem (c := ' ') (by decide) (by simp [spaces])), spaces,
    List.replicate_succ', ← List.append_assoc, afterCombinators_concat (by decide)]
  rfl

end Selector

open Selector

/-! ## Lists -/

/-- A selector as it is written in a list, with a number of spaces on both sides. -/
structure WrittenMember where
  before : Nat
  selector : Text
  behind : Nat

namespace WrittenMember

/-- The selector and the spaces around it. -/
def text (member : WrittenMember) : Text :=
  spaces member.before ++ (member.selector ++ spaces member.behind)

/-- Members with a comma between neighbours. -/
def joined (members : List WrittenMember) : Text :=
  [','].intercalate (members.map text)

/-- Whether the selector is looked up: spaces behind it are cut off, or there are none. -/
def counts (member : WrittenMember) : Bool :=
  member.behind == 0 || hasPseudo member.selector

/-- A written member is looked up with the spaces around it, unless those behind it are cut off. -/
lemma plain_text (member : WrittenMember) :
    plain member.text = spaces member.before ++ plain member.selector ++
      if member.counts then [] else spaces member.behind := by
  rw [text, plain_spaces_append, plain_append_spaces, ← List.append_assoc, counts]
  cases hbehind : member.behind with
  | zero => simp [spaces]
  | succ count => simp

end WrittenMember

namespace LiveSet

variable {live : LiveSet} {selector : Text}

/-- A selector of a list for which the spaces around it could be left out: no live selector with
spaces or combinators is the same up to blanks at its ends, and only a space may stand in front of
its pseudo class. -/
structure Listed (live : LiveSet) (selector : Text) : Prop where
  noComma : ',' ∉ selector
  ends : SolidEnds selector
  last : ∀ c ∈ (plain selector).getLast?, isBlank c = true → c = ' '
  noMatch : ∀ name ∈ live, isCombined name = true → Text.trim name ≠ Text.trim (plain selector)

/-- A selector with a combinator is not looked up as it is. -/
lemma Listed.contains_eq_false (h : live.Listed selector) {name : Text}
    (hcombined : isCombined name = true) (htrim : Text.trim name = Text.trim (plain selector)) :
    live.contains name = false := by
  rw [← Bool.not_eq_true, contains_iff, not_or]
  constructor
  · rintro rfl
    cases hcombined
  · exact fun hmem => h.noMatch name hmem hcombined htrim

/-- The spaces around a selector matter only if they keep it from being looked up. -/
lemma Listed.isLiveMember_text (hempty : [] ∉ live) {member : WrittenMember}
    (h : live.Listed member.selector) :
    live.isLiveMember member.text = (member.counts && live.isLiveMember member.selector) := by
  have hsolid := solidEnds_plain h.ends h.last
  have htrim (count : Nat) : Text.trim (spaces count ++ plain member.selector) =
      Text.trim (plain member.selector) := Text.trim_allBlank_append (Text.allBlank_spaces _) _
  rw [isLiveMember, isLiveMember, member.plain_text]
  cases hcounts : member.counts with
  | true =>
    -- spaces in front leave the last simple selector as it is, and only that can be found
    rw [if_pos rfl, List.append_nil, Bool.true_and, simple_spaces_append _ hsolid]
    cases hbefore : member.before with
    | zero => rfl
    | succ count =>
      have hspaced : isCombined (spaces (count + 1) ++ plain member.selector) = true :=
        isCombined_of_mem (c := ' ') (by decide) (by simp [spaces])
      rw [h.contains_eq_false hspaced (htrim _), Bool.false_or]
      cases hcombined : isCombined (plain member.selector) with
      | true => rw [h.contains_eq_false hcombined rfl, Bool.false_or]
      | false => rw [simple_eq_self hcombined, Bool.or_self]
  | false =>
    -- the selector ends at a space, behind which nothing is left to be found
    obtain ⟨count, hbehind⟩ : ∃ count, member.behind = count + 1 := by
      apply Nat.exists_eq_succ_of_ne_zero
      intro hzero
      simp [WrittenMember.counts, hzero] at hcounts
    have hspaced : isCombined
        (spaces member.before ++ plain member.selector ++ spaces (count + 1)) = true :=
      isCombined_of_mem (c := ' ') (by decide) (by simp [spaces])
    have hnone : live.contains [] = false := by
      rw [← Bool.not_eq_true, contains_iff, not_or]
      exact ⟨(List.cons_ne_nil '*' []).symm, hempty⟩
    rw [if_neg Bool.false_ne_true, hbehind, simple_append_spaces, hnone,
      h.contains_eq_false hspaced, Bool.false_and, Bool.or_false]
    rw [Text.trim_append_allBlank _ (Text.allBlank_spaces _), htrim]

/-- A selector list is live exactly if one of its selectors is, among those with a pseudo class or
with no space behind them: however many spaces stand in front of the selectors, and behind those
with a pseudo class. -/
theorem isLive_joined {members : List WrittenMember} (hne : members ≠ []) (hempty : [] ∉ live)
    (h : ∀ member ∈ members, live.Listed member.selector) :
    live.isLive (WrittenMember.joined members) =
      members.any fun member => member.counts && live.isLive member.selector := by
  have hcomma : ∀ text ∈ members.map WrittenMember.text, ',' ∉ text := by
    intro text htext
    obtain ⟨member, hmember, rfl⟩ := List.mem_map.1 htext
    simp [WrittenMember.text, Text.not_mem_spaces, (h member hmember).noComma]
  rw [isLive, Selector.members, WrittenMember.joined,
    List.splitOn_intercalate ',' hcomma (by simpa using hne), List.any_map]
  have hmembers : ∀ member ∈ members, (live.isLiveMember ∘ WrittenMember.text) member =
      (member.counts && live.isLive member.selector) := by
    intro member hmember
    rw [Function.comp_apply, (h member hmember).isLiveMember_text hempty,
      isLive_of_noComma (h member hmember).noComma]
  rw [Bool.eq_iff_iff, List.any_eq_true, List.any_eq_true]
  constructor
  · rintro ⟨member, hmember, hlive⟩
    exact ⟨member, hmember, (hmembers member hmember).symm.trans hlive⟩
  · rintro ⟨member, hmember, hlive⟩
    exact ⟨member, hmember, (hmembers member hmember).trans hlive⟩

/-- Spaces in front of a selector, and behind one with a pseudo class. -/
theorem isLive_joined_pseudo :
    let live : LiveSet := ⟨⟨["*".toList, ".a".toList]⟩, ["#b>i".toList]⟩
    live.isLive "ul>li ,   .b>.a:hover  ,p".toList = true := by
  intro live
  let members : List WrittenMember :=
    [⟨0, "ul>li".toList, 1⟩, ⟨3, ".b>.a:hover".toList, 2⟩, ⟨0, "p".toList, 0⟩]
  have hnames : ∀ name ∈ live, name ∈ ["*".toList, ".a".toList, "#b>i".toList] := by
    rintro name (hname | hname)
    · exact List.mem_append_left _ hname
    · exact List.mem_append_right ["*".toList, ".a".toList] hname
  have hlisted : ∀ member ∈ members, live.Listed member.selector := by
    have hmatch : ∀ member ∈ members, ∀ name ∈ ["*".toList, ".a".toList, "#b>i".toList],
        isCombined name = true → Text.trim name ≠ Text.trim (plain member.selector) := by
      decide +kernel
    have hshape : ∀ member ∈ members, ',' ∉ member.selector ∧ Text.NoBlank member.selector ∧
        Text.NoBlank (plain member.selector) := by
      decide +kernel
    intro member hmember
    obtain ⟨hcomma, hblank, hplain⟩ := hshape member hmember
    have hends : SolidEnds member.selector :=
      ⟨fun c hc => hblank c (List.mem_of_mem_head? hc),
        fun c hc => hblank c (List.mem_of_mem_getLast? hc)⟩
    refine ⟨hcomma, hends, fun c hc hspace => ?_, fun name hname => ?_⟩
    · rw [hplain c (List.mem_of_mem_getLast? hc)] at hspace
      cases hspace
    · exact hmatch member hmember name (hnames name hname)
  have hempty : [] ∉ live := fun hmem => absurd (hnames [] hmem) (by decide +kernel)
  exact (isLive_joined (List.cons_ne_nil _ _) hempty hlisted).trans (by decide +kernel)

/-- The spaces around a comma can matter: those in front of it where nothing is cut off behind them,
those behind it where a live selector has a combinator or where another blank stands in front of a
pseudo class. -/
theorem isLive_spaced :
    let live : LiveSet := ⟨⟨["*".toList, ".a".toList]⟩, ["ul>li".toList]⟩
    let empty : LiveSet := ⟨⟨["*".toList]⟩, ["".toList]⟩
    live.isLive ".a,.b".toList = true ∧ live.isLive ".a ,.b".toList = false ∧
      live.isLive "p,ul>li".toList = true ∧ live.isLive "p, ul>li".toList = false ∧
      live.isLive "p,.a\t:x".toList = false ∧ live.isLive "p, .a\t:x".toList = true ∧
      empty.isLive ".a,.b".toList = false ∧ empty.isLive ".a ,.b".toList = true := by
  decide +kernel

end LiveSet

end CssPrune
