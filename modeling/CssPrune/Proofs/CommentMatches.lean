import CssPrune.Proofs.Checked.Tokens
import CssPrune.Proofs.CommentScan
import CssPrune.Proofs.Expressions

/-!
# Comments as matches

Comments are the matches of `/\*.*?\*/`, where the point is any character, line ends included. What
the scan keeps is what a search for them leaves, and the comment that is not closed is the first
`/*` outside of the matches without a `*/` behind it (`stripComments_eq`).

Read from a source, the characters that are kept stand where they say they stand, one behind the
other (`stripComments_ofText`).
-/

namespace CssPrune.Css

open Expression

/-! ## The expression -/

/-- The mark that closes a comment. -/
def closingMark : Expression :=
  .followedBy (.one (· == '*')) (.one (· == '/'))

/-- As few characters as possible, and the closing mark. -/
def closingExpression : Expression :=
  .followedBy (.run (fun _ => true) false) closingMark

/-- The expression `/\*.*?\*/`. -/
def commentNeedle : Needle where
  expression := .followedBy (.one (· == '/')) (.followedBy (.one (· == '*')) closingExpression)
  consumes := rfl

/-- Whether the items begin with an opening mark that has no closing mark behind it. -/
def opensUnclosed {α : Type} (char : α → Char) : List α → Bool
  | a :: b :: rest => char a = '/' && char b = '*' && !decide (['*', '/'] <:+: rest.map char)
  | _ => false

section Items

variable {α : Type} {char : α → Char} {a b : α} {rest items : List α}

/-! ## One match -/

/-- The closing mark matches a star with a slash behind it, in one way. -/
lemma ways_closingMark_cons_cons (a b : α) (rest : List α) :
    closingMark.ways char (a :: b :: rest) =
      if char a = '*' && char b = '/' then [⟨[a, b], [], rest⟩] else [] := by
  rw [closingMark]
  by_cases ha : char a = '*'
  · rw [ways_one_followedBy (by simpa using ha)]
    by_cases hb : char b = '/'
    · rw [ways_one_cons (by simpa using hb), if_pos (by simp [ha, hb])]
      rfl
    · rw [ways_one_eq_nil (by simpa using hb), if_neg (by simp [hb])]
      rfl
  · rw [ways_one_followedBy_eq_nil (by simpa using ha), if_neg (by simp [ha])]

/-- The closing mark does not match a single item. -/
lemma ways_closingMark_singleton (a : α) : closingMark.ways char [a] = [] := by
  rw [closingMark]
  by_cases ha : char a = '*'
  · rw [ways_one_followedBy (by simpa using ha)]
    rfl
  · exact ways_one_followedBy_eq_nil (by simpa using ha)

/-- The mark stands here, or it is looked for from the next item on. -/
lemma ways_closing_cons (a : α) (rest : List α) :
    closingExpression.ways char (a :: rest) =
      closingMark.ways char (a :: rest) ++
        (closingExpression.ways char rest).map (Way.behind a) := by
  rw [closingExpression, ways_followedBy, ways_lazy_cons rfl, List.flatMap_cons, List.flatMap_map,
    Way.map_stay_andThen, ways_followedBy, List.map_flatMap]
  simp only [List.map_map]
  rfl

/-- The first way ends behind the first closing mark. -/
lemma head?_ways_closing (items : List α) :
    (closingExpression.ways char items).head?.map (·.rest) = afterComment? char items := by
  induction items with
  | nil => rfl
  | cons a items ih =>
    have hlater : ((closingExpression.ways char items).map (Way.behind a)).head?.map (·.rest) =
        afterComment? char items := by
      rw [← ih, List.head?_map, Option.map_map]
      rfl
    rw [ways_closing_cons]
    cases items with
    | nil =>
      rw [ways_closingMark_singleton, List.nil_append, hlater]
      rfl
    | cons b rest =>
      rw [ways_closingMark_cons_cons, afterComment?]
      split
      · rfl
      · exact hlater

/-- Behind an opening mark, a match ends with the first closing mark. -/
lemma matchAt?_of_mark (ha : char a = '/') (hb : char b = '*') (rest : List α) :
    (commentNeedle.matchAt? char (a :: b :: rest)).map (·.rest) = afterComment? char rest := by
  rw [← head?_ways_closing, Needle.matchAt?, commentNeedle,
    ways_one_followedBy (by simpa using ha), ways_one_followedBy (by simpa using hb),
    List.head?_map, List.head?_map, Option.map_map, Option.map_map]
  rfl

/-- Nothing matches where no opening mark stands. -/
lemma matchAt?_of_no_mark (h : char a = '/' → ∀ b ∈ items.head?, char b ≠ '*') :
    commentNeedle.matchAt? char (a :: items) = none := by
  rw [Needle.matchAt?, commentNeedle]
  by_cases ha : char a = '/'
  · rw [ways_one_followedBy (by simpa using ha), ways_one_followedBy_eq_nil (by simpa using h ha)]
    rfl
  · rw [ways_one_followedBy_eq_nil (by simpa using ha)]
    rfl

/-! ## The search -/

/-- No comment ends exactly if there is no closing mark. -/
lemma afterComment?_eq_none {items : List α} :
    afterComment? char items = none ↔ ¬ ['*', '/'] <:+: items.map char := by
  rw [← afterComment?_eq_none_iff, ← map_afterComment?, Option.map_eq_none_iff]

/-- An opening mark is unclosed if no comment ends behind it. -/
lemma opensUnclosed_cons_cons (a b : α) (rest : List α) :
    opensUnclosed char (a :: b :: rest) = true ↔
      (char a = '/' && char b = '*') = true ∧ afterComment? char rest = none := by
  rw [opensUnclosed, afterComment?_eq_none]
  simp

/-- Without a closing mark nothing is a comment. -/
lemma remove_eq_self (h : afterComment? char items = none) :
    commentNeedle.remove char items = items := by
  induction items with
  | nil => exact Needle.remove_nil
  | cons a items ih =>
    have hmarks := afterComment?_eq_none.1 h
    have hitems : afterComment? char items = none :=
      afterComment?_eq_none.2 fun hin => hmarks (List.infix_cons hin)
    have hnone : commentNeedle.matchAt? char (a :: items) = none := by
      cases items with
      | nil => exact matchAt?_of_no_mark (by simp)
      | cons b rest =>
        by_cases hmark : char a = '/' ∧ char b = '*'
        · have hrest : afterComment? char rest = none :=
            afterComment?_eq_none.2 fun hin => hmarks (List.infix_cons (List.infix_cons hin))
          rw [← Option.map_eq_none_iff, matchAt?_of_mark hmark.1 hmark.2, hrest]
        · exact matchAt?_of_no_mark (by simpa using hmark)
    rw [Needle.remove_of_no_match hnone, ih hitems]

/-- The first `/*` outside of the comments that is not closed. -/
def firstUnclosed? (char : α → Char) (items : List α) : Option α :=
  ((commentNeedle.outside char items).find? (opensUnclosed char)).bind List.head?

/-- The scan keeps what the search leaves. -/
lemma stripFrom_eq_remove (kept items : List α) :
    stripFrom char kept items =
      ⟨kept.reverse ++ commentNeedle.remove char items, firstUnclosed? char items⟩ := by
  fun_induction stripFrom char kept items with
  | case1 kept a b rest hmark behind hbehind ih =>
    obtain ⟨ha, hb⟩ : char a = '/' ∧ char b = '*' := by simpa using hmark
    have hmatch := matchAt?_of_mark ha hb rest
    rw [hbehind] at hmatch
    obtain ⟨way, hway, rfl⟩ := Option.map_eq_some_iff.1 hmatch
    rw [ih, Needle.remove_of_match hway, firstUnclosed?, firstUnclosed?,
      Needle.outside_of_match hway]
  | case2 kept a b rest hmark hopen =>
    obtain ⟨ha, hb⟩ : char a = '/' ∧ char b = '*' := by simpa using hmark
    have hnone : commentNeedle.matchAt? char (a :: b :: rest) = none := by
      rw [← Option.map_eq_none_iff, matchAt?_of_mark ha hb, hopen]
    -- the star may end a closing mark with what follows it, but begins no comment
    have hstar : commentNeedle.matchAt? char (b :: rest) = none :=
      matchAt?_of_no_mark (by simp [hb])
    rw [Needle.remove_of_no_match hnone, Needle.remove_of_no_match hstar, remove_eq_self hopen,
      firstUnclosed?, Needle.outside_of_no_match hnone,
      List.find?_cons_of_pos ((opensUnclosed_cons_cons a b rest).2 ⟨hmark, hopen⟩)]
    rfl
  | case3 kept a b rest hmark ih =>
    have hnone : commentNeedle.matchAt? char (a :: b :: rest) = none :=
      matchAt?_of_no_mark (by simpa using hmark)
    have hopens : ¬ opensUnclosed char (a :: b :: rest) = true :=
      fun h => hmark ((opensUnclosed_cons_cons a b rest).1 h).1
    rw [ih, Needle.remove_of_no_match hnone, firstUnclosed?, firstUnclosed?,
      Needle.outside_of_no_match hnone, List.find?_cons_of_neg hopens, List.reverse_cons,
      List.append_assoc]
    rfl
  | case4 kept items hshort =>
    cases items with
    | nil =>
      rw [Needle.remove_nil, firstUnclosed?, Needle.outside_nil]
      rfl
    | cons a items =>
      cases items with
      | nil =>
        have hnone : commentNeedle.matchAt? char [a] = none := matchAt?_of_no_mark (by simp)
        rw [Needle.remove_of_no_match hnone, Needle.remove_nil, firstUnclosed?,
          Needle.outside_of_no_match hnone, Needle.outside_nil]
        rfl
      | cons b rest => exact (hshort a b rest rfl).elim

/-- The scan keeps what the search leaves, and reports the first comment that is not closed. -/
theorem stripComments_eq (char : α → Char) (items : List α) :
    stripComments char items = ⟨commentNeedle.remove char items, firstUnclosed? char items⟩ :=
  stripFrom_eq_remove [] items

example : commentNeedle.remove id "a/*/b/**/*/c".toList = "a*/c".toList := by
  decide +kernel

end Items

/-! ## Places in a source -/

open Checked (placeInduction placeFrom_pair placeFrom_cons exists_of_placeFrom_eq_cons placed_ofText
  sublist_stripFrom exists_mark_of_unclosed)

/-- A character stands in a text at its offset. If a carriage return or a form feed stands there,
then the character is the line feed that it was made into. -/
def StandsIn (text : Text) (placed : PlacedChar) : Prop :=
  ∃ front c behind, text = front ++ c :: behind ∧ Text.utf8Size front = placed.offset ∧
    placed.char = if c = '\r' ∨ c = '\x0c' then '\n' else c

/-- A placed character stands in the text that it was placed for. -/
lemma standsIn_of_mem_placeFrom {front text : Text} {placed : PlacedChar}
    (h : placed ∈ PlacedChar.placeFrom (Text.utf8Size front) [] text) :
    StandsIn (front ++ text) placed := by
  induction text using placeInduction generalizing front with
  | nil => cases h
  | pair rest ih =>
    rw [placeFrom_pair] at h
    rcases List.mem_cons.1 h with rfl | hin
    · refine ⟨front ++ ['\r'], '\n', rest, by simp, ?_, rfl⟩
      exact Checked.utf8Size_append front ['\r']
    · have hfront : Text.utf8Size (front ++ ['\r', '\n']) = Text.utf8Size front + 2 :=
        Checked.utf8Size_append front ['\r', '\n']
      rw [← hfront] at hin
      have hstands := ih hin
      rwa [List.append_assoc] at hstands
  | char c rest hpair ih =>
    rw [placeFrom_cons _ hpair] at h
    rcases List.mem_cons.1 h with rfl | hin
    · exact ⟨front, c, rest, rfl, rfl, lineEnd_eq c⟩
    · have hfront : Text.utf8Size (front ++ [c]) = Text.utf8Size front + c.utf8Size :=
        Checked.utf8Size_append front [c]
      rw [← hfront] at hin
      have hstands := ih hin
      rwa [List.append_assoc] at hstands

/-- An opening mark among the placed characters is one of the text. -/
lemma exists_mark_of_placeFrom {offset : Nat} {text : Text} {front back : List PlacedChar}
    {slash star : PlacedChar}
    (h : PlacedChar.placeFrom offset [] text = front ++ slash :: star :: back)
    (hslash : slash.char = '/') (hstar : star.char = '*') :
    ∃ before behind, text = before ++ '/' :: '*' :: behind ∧
      offset + Text.utf8Size before = slash.offset := by
  induction text using placeInduction generalizing offset front with
  | nil => simp [PlacedChar.placeFrom] at h
  | pair rest ih =>
    rw [placeFrom_pair] at h
    cases front with
    | nil =>
      obtain ⟨rfl, -⟩ := List.cons.inj h
      cases hslash
    | cons placed front =>
      obtain ⟨before, behind, rfl, hoffset⟩ := ih (List.cons.inj h).2
      refine ⟨'\r' :: '\n' :: before, behind, rfl, ?_⟩
      have hsize : Text.utf8Size ('\r' :: '\n' :: before) = 2 + Text.utf8Size before :=
        Checked.utf8Size_append ['\r', '\n'] before
      rw [hsize, ← Nat.add_assoc, hoffset]
  | char c rest hpair ih =>
    cases front with
    | nil =>
      obtain ⟨_, htext, hoffset, hrest⟩ := exists_of_placeFrom_eq_cons h (by simp [hslash])
      obtain ⟨behind, rfl, -⟩ := exists_of_placeFrom_eq_cons hrest (by simp [hstar])
      refine ⟨[], behind, ?_, hoffset.symm⟩
      rw [htext, hslash, hstar]
      rfl
    | cons placed front =>
      rw [placeFrom_cons offset hpair] at h
      obtain ⟨before, behind, rfl, hoffset⟩ := ih (List.cons.inj h).2
      exact ⟨c :: before, behind, rfl, by rw [← hoffset, Nat.add_assoc]; rfl⟩

/-- The characters of a source are its text with uniform line ends, and what is kept of them is this
text without the comments. Each kept one stands where it says it stands, one behind the other. The
comment that is not closed is the first `/*` outside of the comments without a `*/` behind it, and
this mark stands in the source. -/
theorem stripComments_ofText (source : Source) :
    let placed := PlacedChar.ofText source.text
    let sheet := stripComments PlacedChar.char placed
    PlacedChar.text placed = unifyLineEnds source.text ∧
    PlacedChar.text sheet.kept = commentNeedle.remove id (unifyLineEnds source.text) ∧
    (∀ token ∈ sheet.kept, StandsIn source.text token) ∧
    sheet.kept.Pairwise (fun first second => first.offset < second.offset) ∧
    sheet.unclosed? = firstUnclosed? PlacedChar.char placed ∧
    ∀ slash ∈ sheet.unclosed?, ∃ front behind,
      source.text = front ++ '/' :: '*' :: behind ∧ Text.utf8Size front = slash.offset := by
  intro placed sheet
  have hsublist : sheet.kept.Sublist placed := sublist_stripFrom [] placed
  refine ⟨text_ofText source.text, ?_, fun token htoken => ?_, ?_, ?_, fun slash hslash => ?_⟩
  · have hkept : PlacedChar.text sheet.kept =
        (stripComments id (PlacedChar.text placed)).kept := map_kept PlacedChar.char placed
    rw [hkept, text_ofText, stripComments_eq]
  · exact @standsIn_of_mem_placeFrom [] source.text token (hsublist.subset htoken)
  · refine ((placed_ofText source).sublist hsublist).order.imp fun {first second} hle => ?_
    exact Nat.lt_of_lt_of_le (Nat.lt_add_of_pos_right first.char.utf8Size_pos) hle
  · exact congrArg Uncommented.unclosed? (stripComments_eq PlacedChar.char placed)
  · obtain ⟨front, star, back, heq, hfirst, hsecond⟩ := exists_mark_of_unclosed hslash
    obtain ⟨before, behind, htext, hoffset⟩ := exists_mark_of_placeFrom heq hfirst hsecond
    exact ⟨before, behind, htext, by rw [← hoffset, Nat.zero_add]⟩

end CssPrune.Css
