import CssPrune.Proofs.CommentMatches
import CssPrune.Proofs.MediaScan
import CssPrune.Proofs.RuleMatches

/-!
# Stretches of a source

A run of characters that are kept of a source was read from one stretch of it, which may hold
comments and line ends of two characters. Read alone, this stretch gives the run again: it begins
and ends with characters that are kept, so no comment reaches over its ends, and a mark that opens
no comment in the source opens none in a part of it (`exists_kept_stretch`, `Span.reads_covering`).

The selector list of a rule is such a run: it goes from a mark of the rule syntax, or from where its
text begins, up to an opening brace (`Reading.exists_selectorRun`). So the span of a rule reads as
its selector list.
-/

namespace CssPrune

open Css

namespace Css

/-! ## Stretches between comments -/

section Comments

variable {α : Type} {char : α → Char} {a b : α} {items rest behind : List α}

/-- Behind a comment, what is kept is what is kept of the rest. -/
lemma kept_closed (h : (char a = '/' && char b = '*') = true)
    (hbehind : afterComment? char rest = some behind) :
    (stripComments char (a :: b :: rest)).kept = (stripComments char behind).kept :=
  congrArg Uncommented.kept (stripFrom_closed [] h hbehind)

/-- A comment that is not closed is kept, and all behind it. -/
lemma kept_unclosed (h : (char a = '/' && char b = '*') = true)
    (hopen : afterComment? char rest = none) :
    (stripComments char (a :: b :: rest)).kept = a :: b :: rest :=
  congrArg Uncommented.kept (stripFrom_unclosed [] h hopen)

/-- Where no comment begins, the first item is kept. -/
lemma kept_cons (h : ¬ (char a = '/' && char b = '*') = true) :
    (stripComments char (a :: b :: rest)).kept = a :: (stripComments char (b :: rest)).kept := by
  rw [stripComments, stripFrom_cons [] h, stripFrom_eq]
  rfl

/-- Nothing is kept of nothing. -/
lemma kept_nil : (stripComments char []).kept = [] :=
  congrArg Uncommented.kept (stripFrom_nil [])

/-- A single item is kept. -/
lemma kept_singleton (a : α) : (stripComments char [a]).kept = [a] :=
  congrArg Uncommented.kept (stripFrom_singleton [])

/-- Items begin with a closed comment, with an opening mark that is not closed, or with an item that
begins no comment; or there are less than two of them. -/
lemma stripInduction (char : α → Char) {motive : List α → Prop}
    (closed : ∀ a b rest behind, (char a = '/' && char b = '*') = true →
      afterComment? char rest = some behind → motive behind → motive (a :: b :: rest))
    (unclosed : ∀ a b rest, (char a = '/' && char b = '*') = true →
      afterComment? char rest = none → motive (a :: b :: rest))
    (plain : ∀ a b rest, ¬ (char a = '/' && char b = '*') = true → motive (b :: rest) →
      motive (a :: b :: rest))
    (nil : motive []) (singleton : ∀ a, motive [a]) (items : List α) : motive items := by
  refine stripFrom.induct char (motive := fun _ items => motive items) ?_ ?_ ?_ ?_ [] items
  · exact fun _ a b rest h behind hbehind ih => closed a b rest behind h hbehind ih
  · exact fun _ a b rest h hopen => unclosed a b rest h hopen
  · exact fun _ a b rest h ih => plain a b rest h ih
  · intro _ items hshort
    cases items with
    | nil => exact nil
    | cons a items =>
      cases items with
      | nil => exact singleton a
      | cons b rest => exact (hshort a b rest rfl).elim

/-- A closed comment stands in front of what follows it, and is closed whatever follows. -/
lemma exists_comment (h : afterComment? char items = some behind) :
    ∃ comment, items = comment ++ behind ∧
      ∀ other, afterComment? char (comment ++ other) = some other := by
  induction items with
  | nil => cases h
  | cons a items ih =>
    cases items with
    | nil => cases h
    | cons b rest =>
      rw [afterComment?] at h
      split at h
      · rename_i hmark
        obtain rfl := Option.some.inj h
        refine ⟨[a, b], rfl, fun other => ?_⟩
        rw [List.cons_append, List.singleton_append, afterComment?, if_pos hmark]
      · rename_i hmark
        obtain ⟨comment, heq, hother⟩ := ih h
        refine ⟨a :: comment, by rw [heq]; rfl, fun other => ?_⟩
        have hrest := hother other
        cases comment with
        | nil =>
          -- the closing mark would be behind the comment and not in it
          have hlength := length_le_of_afterComment? (hother behind)
          rw [List.nil_append] at hlength
          omega
        | cons c comment =>
          obtain rfl : b = c := (List.cons.inj heq).1
          rw [List.cons_append, List.cons_append, afterComment?, if_neg hmark]
          exact hrest

/-- A stretch of items that end no comment ends none. -/
lemma afterComment?_eq_none_of_isInfix (h : afterComment? char items = none) {part : List α}
    (hpart : part <:+: items) : afterComment? char part = none := by
  rw [afterComment?_eq_none] at h ⊢
  exact fun hmark => h (hmark.trans (hpart.map char))

/-- A closing mark at the very beginning closes nothing. -/
lemma kept_eq_self (h : afterComment? char items.tail = none) :
    (stripComments char items).kept = items := by
  match items with
  | [] => exact kept_nil
  | [a] => exact kept_singleton a
  | a :: b :: rest =>
    by_cases hmark : (char a = '/' && char b = '*') = true
    · exact kept_unclosed hmark
        (afterComment?_eq_none_of_isInfix h (List.infix_cons (List.infix_refl rest)))
    · have hrest : commentNeedle.remove char (b :: rest) = b :: rest := remove_eq_self h
      rw [kept_cons hmark, stripComments_eq, hrest]

/-- From a kept item on, the scan keeps what it keeps of the whole. -/
lemma exists_kept_from {before after : List α}
    (h : (stripComments char items).kept = before ++ a :: after) :
    ∃ front back, items = front ++ a :: back ∧
      (stripComments char (a :: back)).kept = a :: after := by
  induction items using stripInduction char generalizing before with
  | closed first second rest behind hmark hbehind ih =>
    rw [kept_closed hmark hbehind] at h
    obtain ⟨front, back, rfl, hkept⟩ := ih h
    obtain ⟨comment, rfl, -⟩ := exists_comment hbehind
    exact ⟨first :: second :: (comment ++ front), back, by simp, hkept⟩
  | unclosed first second rest hmark hopen =>
    rw [kept_unclosed hmark hopen] at h
    refine ⟨before, after, h, ?_⟩
    match before with
    | [] =>
      rw [List.nil_append] at h
      rw [← h]
      exact kept_unclosed hmark hopen
    | [_] =>
      -- the star of the opening mark may end a closing mark, but none is open there
      obtain ⟨-, hrest⟩ := List.cons.inj h
      obtain ⟨rfl, rfl⟩ := List.cons.inj hrest
      exact kept_eq_self hopen
    | _ :: _ :: before =>
      obtain ⟨-, hrest⟩ := List.cons.inj h
      obtain ⟨-, rfl⟩ := List.cons.inj hrest
      exact kept_eq_self (afterComment?_eq_none_of_isInfix hopen
        ((List.suffix_cons a after).trans (List.suffix_append before _)).isInfix)
  | plain first second rest hmark ih =>
    rw [kept_cons hmark] at h
    cases before with
    | nil =>
      obtain ⟨rfl, hrest⟩ := List.cons.inj h
      exact ⟨[], second :: rest, rfl, by rw [kept_cons hmark, hrest]⟩
    | cons item before =>
      obtain ⟨front, back, heq, hkept⟩ := ih (List.cons.inj h).2
      exact ⟨first :: front, back, by rw [heq]; rfl, hkept⟩
  | nil => simp [kept_nil] at h
  | singleton item =>
    rw [kept_singleton] at h
    cases before with
    | nil =>
      obtain ⟨rfl, rfl⟩ := List.cons.inj h
      exact ⟨[], [], rfl, kept_singleton item⟩
    | cons other before => simp at h

/-- A front that ends in an item begins with the first item. -/
lemma exists_concat_eq_cons {front back : List α} (h : a :: items = front ++ b :: back) :
    ∃ tail, front ++ [b] = a :: tail := by
  cases front with
  | nil => exact ⟨[], by rw [(List.cons.inj h).1]; rfl⟩
  | cons item front => exact ⟨front ++ [b], by rw [(List.cons.inj h).1]; rfl⟩

/-- Up to a kept item, the scan keeps what it keeps of the whole. -/
lemma exists_kept_upTo {before after : List α}
    (h : (stripComments char items).kept = before ++ b :: after) :
    ∃ front back, items = front ++ b :: back ∧
      (stripComments char (front ++ [b])).kept = before ++ [b] := by
  induction items using stripInduction char generalizing before with
  | closed first second rest behind hmark hbehind ih =>
    rw [kept_closed hmark hbehind] at h
    obtain ⟨front, back, rfl, hkept⟩ := ih h
    obtain ⟨comment, rfl, hother⟩ := exists_comment hbehind
    refine ⟨first :: second :: (comment ++ front), back, by simp, ?_⟩
    rw [List.cons_append, List.cons_append, List.append_assoc, kept_closed hmark (hother _), hkept]
  | unclosed first second rest hmark hopen =>
    rw [kept_unclosed hmark hopen] at h
    refine ⟨before, after, h, ?_⟩
    match before with
    | [] => exact kept_singleton b
    | [item] =>
      obtain ⟨rfl, hrest⟩ := List.cons.inj h
      obtain ⟨rfl, -⟩ := List.cons.inj hrest
      exact kept_unclosed hmark rfl
    | item :: other :: before =>
      obtain ⟨rfl, hrest⟩ := List.cons.inj h
      obtain ⟨rfl, rfl⟩ := List.cons.inj hrest
      exact kept_unclosed hmark
        (afterComment?_eq_none_of_isInfix hopen ⟨[], after, by simp⟩)
  | plain first second rest hmark ih =>
    rw [kept_cons hmark] at h
    cases before with
    | nil =>
      obtain ⟨rfl, -⟩ := List.cons.inj h
      exact ⟨[], second :: rest, rfl, kept_singleton first⟩
    | cons item before =>
      obtain ⟨rfl, hrest⟩ := List.cons.inj h
      obtain ⟨front, back, heq, hkept⟩ := ih hrest
      refine ⟨first :: front, back, by rw [heq]; rfl, ?_⟩
      obtain ⟨tail, htail⟩ := exists_concat_eq_cons heq
      rw [htail] at hkept
      rw [List.cons_append, htail, kept_cons hmark, hkept]
      rfl
  | nil => simp [kept_nil] at h
  | singleton item =>
    rw [kept_singleton] at h
    cases before with
    | nil =>
      obtain ⟨rfl, -⟩ := List.cons.inj h
      exact ⟨[], [], rfl, kept_singleton item⟩
    | cons other before => simp at h

/-- A run of kept items is what the scan keeps of one stretch, from the first to the last of
them. -/
lemma exists_kept_stretch {first : α} {run : List α}
    (h : first :: run <:+: (stripComments char items).kept) :
    ∃ front stretch back, items = front ++ first :: stretch ++ back ∧
      (stripComments char (first :: stretch)).kept = first :: run ∧
      (first :: stretch).getLast? = (first :: run).getLast? := by
  obtain ⟨before, after, heq⟩ := h
  rw [List.append_assoc, List.cons_append] at heq
  obtain ⟨front, back, rfl, hback⟩ := exists_kept_from heq.symm
  obtain ⟨init, last, hrun⟩ := List.eq_nil_or_concat' (first :: run) |>.resolve_left nofun
  have hlast : (stripComments char (first :: back)).kept = init ++ last :: after := by
    rw [hback, ← List.cons_append, hrun, List.append_assoc]
    rfl
  obtain ⟨covered, others, hcovered, hkept⟩ := exists_kept_upTo hlast
  obtain ⟨stretch, hstretch⟩ := exists_concat_eq_cons hcovered
  refine ⟨front, stretch, others, ?_, ?_, ?_⟩
  · rw [hcovered, ← hstretch]
    simp
  · rw [← hstretch, hkept, hrun]
  · rw [← hstretch, hrun, List.getLast?_concat, List.getLast?_concat]

end Comments

/-! ## Places -/

open Checked (placeInduction placeFrom_pair placeFrom_cons utf8Size_lineEnd utf8Size_append)

/-- A placed character and those behind it are the characters of the text from its offset on. -/
lemma exists_of_placeFrom_from {offset : Nat} {text : Text} {before back : List PlacedChar}
    {first : PlacedChar} (h : PlacedChar.placeFrom offset [] text = before ++ first :: back) :
    ∃ front rest, text = front ++ rest ∧ offset + Text.utf8Size front = first.offset ∧
      PlacedChar.placeFrom first.offset [] rest = first :: back := by
  induction text using placeInduction generalizing offset before with
  | nil => simp [PlacedChar.placeFrom] at h
  | pair rest ih =>
    rw [placeFrom_pair] at h
    cases before with
    | nil =>
      obtain ⟨rfl, rfl⟩ := List.cons.inj h
      refine ⟨['\r'], '\n' :: rest, rfl, rfl, ?_⟩
      rw [placeFrom_cons _ (by simp)]
      rfl
    | cons placed before =>
      obtain ⟨front, back, rfl, hoffset, hplaced⟩ := ih (List.cons.inj h).2
      refine ⟨'\r' :: '\n' :: front, back, rfl, ?_, hplaced⟩
      have hsize : Text.utf8Size ('\r' :: '\n' :: front) = 2 + Text.utf8Size front :=
        utf8Size_append ['\r', '\n'] front
      rw [hsize, ← Nat.add_assoc, hoffset]
  | char c rest hpair ih =>
    cases before with
    | nil =>
      refine ⟨[], c :: rest, rfl, ?_, ?_⟩
      · rw [placeFrom_cons _ hpair] at h
        obtain ⟨rfl, -⟩ := List.cons.inj h
        rfl
      · rw [placeFrom_cons _ hpair] at h ⊢
        obtain ⟨rfl, rfl⟩ := List.cons.inj h
        rfl
    | cons placed before =>
      rw [placeFrom_cons _ hpair] at h
      obtain ⟨front, back, rfl, hoffset, hplaced⟩ := ih (List.cons.inj h).2
      exact ⟨c :: front, back, rfl, by rw [← hoffset, Text.utf8Size, Nat.add_assoc], hplaced⟩

/-- The characters up to a placed one are those of the text up to where it ends. -/
lemma exists_of_placeFrom_upTo {offset : Nat} {text : Text} {before back : List PlacedChar}
    {last : PlacedChar} (h : PlacedChar.placeFrom offset [] text = before ++ last :: back) :
    ∃ front rest, text = front ++ rest ∧ offset + Text.utf8Size front = last.stop ∧
      PlacedChar.placeFrom offset [] front = before ++ [last] := by
  induction text using placeInduction generalizing offset before with
  | nil => simp [PlacedChar.placeFrom] at h
  | pair rest ih =>
    rw [placeFrom_pair] at h
    cases before with
    | nil =>
      obtain ⟨rfl, -⟩ := List.cons.inj h
      exact ⟨['\r', '\n'], rest, rfl, rfl, placeFrom_pair offset []⟩
    | cons placed before =>
      obtain ⟨rfl, hrest⟩ := List.cons.inj h
      obtain ⟨front, back, rfl, hstop, hplaced⟩ := ih hrest
      refine ⟨'\r' :: '\n' :: front, back, rfl, ?_, ?_⟩
      · have hsize : Text.utf8Size ('\r' :: '\n' :: front) = 2 + Text.utf8Size front :=
          utf8Size_append ['\r', '\n'] front
        rw [hsize, ← Nat.add_assoc, hstop]
      · rw [placeFrom_pair, hplaced]
        rfl
  | char c rest hpair ih =>
    rw [placeFrom_cons _ hpair] at h
    cases before with
    | nil =>
      obtain ⟨rfl, -⟩ := List.cons.inj h
      refine ⟨[c], rest, rfl, ?_, placeFrom_cons offset (by simp)⟩
      rw [PlacedChar.stop, utf8Size_lineEnd]
      rfl
    | cons placed before =>
      obtain ⟨rfl, hrest⟩ := List.cons.inj h
      obtain ⟨front, back, rfl, hstop, hplaced⟩ := ih hrest
      refine ⟨c :: front, back, rfl, by rw [← hstop, Text.utf8Size, Nat.add_assoc], ?_⟩
      have hfront : ¬ (c = '\r' ∧ front.head? = some '\n') := by
        rintro ⟨rfl, hhead⟩
        exact hpair ⟨rfl, by rw [List.head?_append, hhead]; rfl⟩
      rw [placeFrom_cons offset hfront, hplaced]
      rfl

/-- A stretch of placed characters is what a stretch of the text is made of. -/
lemma exists_of_placeFrom_stretch {text : Text} {before stretch back : List PlacedChar}
    {first last : PlacedChar} (hlast : (first :: stretch).getLast? = some last)
    (h : PlacedChar.ofText text = before ++ first :: stretch ++ back) :
    ∃ front covered rest, text = front ++ covered ++ rest ∧
      Text.utf8Size front = first.offset ∧ Text.utf8Size (front ++ covered) = last.stop ∧
      unifyLineEnds covered = PlacedChar.text (first :: stretch) := by
  rw [List.append_assoc, List.cons_append] at h
  obtain ⟨front, rest, rfl, hoffset, hrest⟩ := exists_of_placeFrom_from h
  obtain ⟨init, hinit⟩ := List.getLast?_eq_some_iff.1 hlast
  rw [← List.cons_append, hinit, List.append_assoc, List.singleton_append] at hrest
  obtain ⟨covered, behind, rfl, hstop, hcovered⟩ := exists_of_placeFrom_upTo hrest
  rw [Nat.zero_add] at hoffset
  refine ⟨front, covered, behind, by rw [List.append_assoc], hoffset, ?_, ?_⟩
  · rw [utf8Size_append, hoffset, hstop]
  · have htext := text_placeFrom first.offset [] covered
    rw [hcovered, ← hinit] at htext
    exact htext.symm

end Css

/-! ## Spans -/

/-- A span goes from one end of a character to another and, read alone, the stretch between them
says a text once its blanks are collapsed. -/
def Span.Reads (span : Span) (text : Text) : Prop :=
  ∃ front covered back, span.source.text = front ++ covered ++ back ∧
    Text.utf8Size front = span.start ∧ Text.utf8Size (front ++ covered) = span.stop ∧
    Text.collapse (withoutComments (unifyLineEnds covered)) = text

/-- The characters that are kept of a source. -/
def Source.kept (source : Source) : List PlacedChar :=
  (stripComments PlacedChar.char (PlacedChar.ofText source.text)).kept

/-- The span of a run reads as the run. -/
lemma Span.reads_covering {source : Source} {run : List PlacedChar} (hne : run ≠ [])
    (h : run <:+: source.kept) : (Span.covering source run).Reads (PlacedChar.collapse run) := by
  obtain ⟨first, run, rfl⟩ := List.exists_cons_of_ne_nil hne
  obtain ⟨before, stretch, back, hplaced, hkept, hlast⟩ := exists_kept_stretch h
  obtain ⟨last, hrun⟩ := List.getLast?_isSome.2 hne |> Option.isSome_iff_exists.1
  obtain ⟨front, covered, rest, htext, hoffset, hstop, hcovered⟩ :=
    exists_of_placeFrom_stretch (hlast.trans hrun) hplaced
  have hspan : Span.covering source (first :: run) = ⟨source, first.offset, last.stop⟩ := by
    rw [covering, hrun]
    rfl
  have hread : withoutComments (unifyLineEnds covered) = PlacedChar.text (first :: run) := by
    rw [hcovered, ← hkept]
    exact (map_kept PlacedChar.char (first :: stretch)).symm
  rw [hspan]
  exact ⟨front, covered, rest, htext, hoffset, hstop, congrArg Text.collapse hread⟩

/-! ## Selector lists -/

namespace Css

section Runs

variable {α : Type} {char : α → Char}

/-- A run of plain characters in front of an opening brace that cannot be made longer. -/
structure IsSelectorRun (char : α → Char) (items run : List α) : Prop where
  nonempty : run ≠ []
  plain : ∀ a ∈ run, IsPlain (char a)
  stands : ∃ front brace back, items = front ++ run ++ brace :: back ∧ char brace = '{' ∧
    ∀ a ∈ front.getLast?, ¬ IsPlain (char a)

/-- A run in front of a brace is a stretch of the items. -/
lemma IsSelectorRun.isInfix {items run : List α} (h : IsSelectorRun char items run) :
    run <:+: items := by
  obtain ⟨front, brace, back, rfl, -⟩ := h.stands
  exact ⟨front, brace :: back, rfl⟩

/-- What ends a rule may stand in front. -/
lemma IsSelectorRun.behind {items run : List α} (h : IsSelectorRun char items run)
    (front : List α) {mark : α} (hmark : ¬ IsPlain (char mark)) :
    IsSelectorRun char (front ++ mark :: items) run := by
  obtain ⟨between, brace, back, rfl, hbrace, hlast⟩ := h.stands
  refine ⟨h.nonempty, h.plain, front ++ mark :: between, brace, back, by simp, hbrace, ?_⟩
  intro a ha
  rw [List.getLast?_append, List.getLast?_cons] at ha
  cases hbetween : between.getLast? with
  | none =>
    obtain rfl : mark = a := by simpa [hbetween] using ha
    exact hmark
  | some last =>
    obtain rfl : last = a := by simpa [hbetween] using ha
    exact hlast last hbetween

/-- A run at the front of the items is one in front of its brace. -/
lemma isSelectorRun_first {run : List α} (hne : run ≠ []) (hrun : ∀ a ∈ run, IsPlain (char a))
    {brace : α} (hbrace : char brace = '{') (back : List α) :
    IsSelectorRun char (run ++ brace :: back) run :=
  ⟨hne, hrun, [], brace, back, rfl, hbrace, nofun⟩

/-- A closing brace is not plain. -/
lemma not_isPlain_of_close {close : α} (h : char close = '}') : ¬ IsPlain (char close) :=
  not_isPlain_iff.2 (Or.inr (Or.inl h))

/-- The selector lists of extracted rules are runs in front of a brace. -/
lemma Extracts.isSelectorRun {items : List α} {rules : List (RawRule α)}
    (h : Extracts char items rules) : ∀ rule ∈ rules, IsSelectorRun char items rule.selector := by
  induction h with
  | unclosed hopen => nofun
  | brace hbrace _ ih =>
    intro rule hrule
    exact (ih rule hrule).behind [] (not_isPlain_iff.2 (Or.inl hbrace))
  | statement hrun hlast _ ih =>
    intro rule hrule
    exact (ih rule hrule).behind _ (not_isPlain_iff.2 (Or.inr hlast))
  | @empty run brace close rest rules hne hrun hbrace hclose _ ih =>
    intro rule hrule
    have hbehind := (ih rule hrule).behind (run ++ [brace]) (not_isPlain_of_close hclose)
    rwa [List.append_assoc] at hbehind
  | @braces run brace more last close rest rules hne hrun hbrace hmore hclose _ ih =>
    intro rule hrule
    rcases List.mem_cons.1 hrule with rfl | hin
    · exact isSelectorRun_first hne hrun hbrace _
    · have hbehind := (ih rule hin).behind (run ++ brace :: (more ++ [last]))
        (not_isPlain_of_close hclose)
      simpa using hbehind
  | @rule run brace more declarations close rest rules hne hrun hbrace _ _ _ _ hclose _ ih =>
    intro rule hrule
    rcases List.mem_cons.1 hrule with rfl | hin
    · exact isSelectorRun_first hne hrun hbrace _
    · have hbehind := (ih rule hin).behind (run ++ brace :: (more ++ declarations))
        (not_isPlain_of_close hclose)
      simpa using hbehind

/-- A rule has the longest run in front of its brace as its selector list. -/
lemma isSelectorRun_of_mem_rawRules {items : List α} {rule : RawRule α}
    (h : rule ∈ rawRules char items) : IsSelectorRun char items rule.selector := by
  obtain ⟨rules, hrules⟩ := exists_extracts char items
  rw [hrules.rawRules_eq] at h
  exact hrules.isSelectorRun rule h

end Runs

/-! ## Parts of a stylesheet -/

section Parts

variable {α : Type} {char : α → Char} {items part : List α}

/-- A piece is a stretch of the items. -/
lemma infix_of_mem_cutFrom {before items : List PlacedChar} {piece : MediaPiece PlacedChar}
    (h : piece ∈ cutFrom PlacedChar.char before items) :
    piece.items <:+: before.reverse ++ items := by
  fun_induction cutFrom PlacedChar.char before items with
  | case1 before =>
    obtain rfl := List.mem_singleton.1 h
    exact (List.prefix_append _ _).isInfix
  | case2 before a rest behind hword ih =>
    rcases List.mem_cons.1 h with rfl | hin
    · exact (List.prefix_append _ _).isInfix
    · have hbehind : behind <:+ a :: rest := by
        rw [Checked.dropLiteral?_eq] at hword
        split at hword
        · obtain rfl := Option.some.inj hword
          exact List.drop_suffix _ _
        · cases hword
      exact (ih hin).trans (hbehind.trans (List.suffix_append _ _)).isInfix
  | case3 before a rest hword ih =>
    have hpiece := ih h
    rwa [List.reverse_cons, List.append_assoc] at hpiece

end Parts

end Css

namespace Reading

/-- Every entry is read of a stretch of some text. -/
def ReadsIn (source : Source) (text : List PlacedChar) (reading : Reading) : Prop :=
  ∀ entry ∈ reading.entries, ∃ scope stretch, stretch <:+: text ∧
    entry ∈ (ofRules source scope stretch).entries

variable {source : Source} {text : List PlacedChar}

/-- A reading without entries is read of any text. -/
lemma readsIn_of_no_entries {reading : Reading} (h : reading.entries = []) :
    ReadsIn source text reading := by
  rw [ReadsIn, h]
  nofun

/-- Readings of a text one behind the other are read of it. -/
lemma ReadsIn.append {first second : Reading} (hfirst : ReadsIn source text first)
    (hsecond : ReadsIn source text second) : ReadsIn source text (first ++ second) :=
  List.forall_mem_append.2 ⟨hfirst, hsecond⟩

/-- What is read of a stretch is read of the whole. -/
lemma ReadsIn.mono {reading : Reading} (h : ReadsIn source text reading) {whole : List PlacedChar}
    (hwhole : text <:+: whole) : ReadsIn source whole reading := by
  intro entry hentry
  obtain ⟨scope, stretch, hstretch, hmem⟩ := h entry hentry
  exact ⟨scope, stretch, hstretch.trans hwhole, hmem⟩

/-- Joined readings of a text are read of it. -/
lemma readsIn_join {readings : List Reading}
    (h : ∀ reading ∈ readings, ReadsIn source text reading) :
    ReadsIn source text (join readings) := by
  intro entry hentry
  rw [entries_join] at hentry
  obtain ⟨reading, hreading, hentry⟩ := List.mem_flatMap.1 hentry
  exact h reading hreading entry hentry

/-- The rules of a text are read of it. -/
lemma readsIn_ofRules (scope : Scope) (text : List PlacedChar) :
    ReadsIn source text (ofRules source scope text) :=
  fun _ hentry => ⟨scope, text, List.infix_refl text, hentry⟩

/-- The blocks of a stretch are read of it. -/
lemma readsIn_ofBlocks (query : Text) (stretch : List PlacedChar) :
    ReadsIn source stretch (ofBlocks source query (blocksOf PlacedChar.char stretch)) := by
  refine (ReadsIn.append ?_ ?_).append (readsIn_join ?_)
  · apply readsIn_of_no_entries
    split <;> rfl
  · cases hbody : mediaBody? PlacedChar.char (blocksOf PlacedChar.char stretch).blocks with
    | none => exact readsIn_of_no_entries rfl
    | some body =>
      exact (readsIn_ofRules _ body).mono (infix_of_mem_blocksOf (mem_of_mediaBody? hbody))
  · intro reading hreading
    obtain ⟨block, hblock, rfl⟩ := List.mem_map.1 hreading
    exact (readsIn_ofRules _ block).mono (infix_of_mem_blocksOf (List.mem_filter.1 hblock).1)

/-- What follows an `@media` is read of it. -/
lemma readsIn_ofMedia (last? : Option PlacedChar) (piece : MediaPiece PlacedChar) :
    ReadsIn source piece.items (ofMedia source last? piece) := by
  have hblock := (cutBefore_isSuffix PlacedChar.char '{'
    (Text.trimWhere PlacedChar.isBlank piece.items)).isInfix.trans (Text.trimWhere_isInfix _ _)
  rw [ofMedia]
  generalize cutBefore PlacedChar.char '{' (Text.trimWhere PlacedChar.isBlank piece.items) = cut
    at hblock ⊢
  obtain ⟨query, block⟩ := cut
  by_cases hopening : block.isEmpty = true
  · simp only [hopening, if_true]
    exact readsIn_of_no_entries rfl
  · by_cases hclosing : (throughLast PlacedChar.char '}' block).isEmpty = true
    · simp only [hopening, hclosing, if_true]
      exact readsIn_of_no_entries rfl
    · simp only [hopening, hclosing]
      exact (readsIn_ofBlocks _ _).mono ((throughLast_isPrefix '}' block).isInfix.trans hblock)

/-- The stretches of a stylesheet are read of it. -/
lemma readsIn_ofPieces (last? : Option PlacedChar) {pieces : List (MediaPiece PlacedChar)}
    (h : ∀ piece ∈ pieces, piece.items <:+: text) :
    ReadsIn source text (ofPieces source last? pieces) := by
  cases pieces with
  | nil => exact readsIn_of_no_entries rfl
  | cons first pieces =>
    obtain ⟨hfirst, hpieces⟩ := List.forall_mem_cons.1 h
    have htrimmed := (Text.trimWhere_isInfix PlacedChar.isBlank first.items).trans hfirst
    refine ((readsIn_ofRules _ _).mono htrimmed).append (readsIn_join ?_)
    intro reading hreading
    obtain ⟨piece, hpiece, rfl⟩ := List.mem_map.1 hreading
    exact (readsIn_ofMedia last? piece).mono (hpieces piece hpiece)

/-- The rules of a source are read of stretches of what is kept of it. -/
lemma readsIn_ofSource (source : Source) : ReadsIn source source.kept (ofSource source) := by
  refine ReadsIn.append ?_ (readsIn_ofPieces _ fun piece hpiece => infix_of_mem_cutFrom hpiece)
  apply readsIn_of_no_entries
  cases (stripComments PlacedChar.char (PlacedChar.ofText source.text)).unclosed? <;> rfl

end Reading

/-- The run of a selector list in a source. -/
structure Source.SelectorRun (source : Source) (run : List PlacedChar) : Prop where
  stands : ∃ stretch, stretch <:+: source.kept ∧ IsSelectorRun PlacedChar.char stretch run

/-- A run of a selector list is a stretch of what is kept of the source. -/
lemma Source.SelectorRun.isInfix {source : Source} {run : List PlacedChar}
    (h : source.SelectorRun run) : run <:+: source.kept := by
  obtain ⟨stretch, hstretch, hrun⟩ := h.stands
  exact hrun.isInfix.trans hstretch

/-- A run of a selector list is not empty. -/
lemma Source.SelectorRun.ne_nil {source : Source} {run : List PlacedChar}
    (h : source.SelectorRun run) : run ≠ [] := by
  obtain ⟨stretch, -, hrun⟩ := h.stands
  exact hrun.nonempty

/-- An entry has the texts and the span of a selector list of its source. -/
lemma Reading.exists_selectorRun {source : Source} {entry : Entry}
    (h : entry ∈ (Reading.ofSource source).entries) :
    ∃ run, source.SelectorRun run ∧ entry.selector = PlacedChar.collapse run ∧
      entry.span = .covering source run := by
  obtain ⟨scope, stretch, hstretch, hmem⟩ := Reading.readsIn_ofSource source entry h
  obtain ⟨rule, hrule, rfl⟩ := List.mem_map.1 hmem
  exact ⟨rule.selector, ⟨stretch, hstretch, isSelectorRun_of_mem_rawRules hrule⟩, rfl, rfl⟩

end CssPrune
