import CssPrune.Proofs.MediaWalk
import CssPrune.Proofs.Runs
import CssPrune.Proofs.Seam

/-!
# Reports about braces

When reading a stylesheet leaves a warning. What follows an `@media` goes without one exactly if the
walk has something to go over and its braces are even (`mediaNotices_eq_nil_iff`). No walk goes over
the rest of a stylesheet: what stands before the first `@media`, the queries, and what stands behind
the last closing brace of a stretch. Braces that are uneven there are passed over in silence
(`addSheet_silent`).
-/

namespace CssPrune

namespace Css

/-! ## The last closing brace -/

/-- A text goes through the last occurrence of a character and on behind it. -/
lemma throughLast_append_afterLast (c : Char) (text : Text) :
    throughLast id c text ++ Text.afterLast c text = text := by
  rw [throughLast, Text.afterLast, ← List.reverse_append]
  exact (congrArg List.reverse List.takeWhile_append_dropWhile).trans text.reverse_reverse

/-- What goes through a character ends in it, if it is anything. -/
lemma throughLast_eq_nil_or_concat (c : Char) (text : Text) :
    throughLast id c text = [] ∨ ∃ front, throughLast id c text = front ++ [c] := by
  induction text using List.reverseRecOn with
  | nil => exact Or.inl rfl
  | append_singleton text a ih =>
    by_cases ha : a = c
    · subst ha
      exact Or.inr ⟨text, throughLast_concat a text⟩
    · rwa [throughLast_append (by simpa using Ne.symm ha)]

/-! ## Stretches behind an `@media` -/

/-- What the walk behind an `@media` goes over. -/
def mediaStretch (piece : Text) : Text :=
  throughLast id '}' (mediaParts piece).2

/-- What the walk behind an `@media` leaves out. -/
def besideStretch (piece : Text) : Text :=
  (mediaParts piece).1 ++ Text.afterLast '}' (mediaParts piece).2

/-- There is nothing to say about what follows an `@media` if the braces from the first opening one
through the last closing one are even. -/
lemma mediaNotices_eq_nil_iff {piece : Text} :
    mediaNotices piece = [] ↔ mediaStretch piece ≠ [] ∧ excess (mediaStretch piece) = 0 := by
  have hblocks : mediaBlocks piece = blocksOf id (mediaStretch piece) := rfl
  rw [mediaNotices, hblocks, ← mediaStretch]
  by_cases hopen : (mediaParts piece).2 = []
  · have hnil : mediaStretch piece = [] := by
      rw [mediaStretch, hopen]
      rfl
    simp [hopen, hnil]
  rcases throughLast_eq_nil_or_concat '}' (mediaParts piece).2 with hnil | ⟨front, hfront⟩
  · rw [← mediaStretch] at hnil
    simp [hopen, hnil]
  · rw [← mediaStretch] at hfront
    have hclosing : ∃ a ∈ (mediaStretch piece).getLast?, id a = '}' :=
      ⟨'}', by rw [hfront, List.getLast?_concat]; rfl, rfl⟩
    have hwalk := (partitions_blocksOf id (mediaStretch piece)).leftover_eq_nil_iff hclosing
    rw [List.map_id] at hwalk
    simp [hopen, hfront ▸ hwalk, hfront]

/-- The walk and what it leaves out count all the braces behind an `@media`. -/
lemma excess_eq_stretch_add_beside (piece : Text) :
    excess piece = excess (mediaStretch piece) + excess (besideStretch piece) := by
  obtain ⟨front, back, hfront, hback, hpiece⟩ := Text.exists_trim piece
  have hblock := throughLast_append_afterLast '}' (mediaParts piece).2
  rw [← mediaStretch] at hblock
  have hcount : excess piece = excess (Text.trim piece) := by
    conv_lhs => rw [hpiece]
    simp [(noBrace_of_allBlank hfront).excess_eq, (noBrace_of_allBlank hback).excess_eq]
  rw [hcount, ← mediaParts_eq, besideStretch, excess_append, excess_append]
  conv_lhs => rw [← hblock]
  rw [excess_append]
  omega

/-! ## Stylesheets -/

/-- What no walk over the braces goes over. -/
def unwalked (text : Text) : Text :=
  match plainPieces text with
  | [] => []
  | first :: others => first ++ others.flatMap besideStretch

/-- If the braces of every stretch are even, all others are in what no walk goes over. -/
lemma excess_unwalked {text : Text}
    (h : ∀ piece ∈ (plainPieces text).tail, excess (mediaStretch piece) = 0) :
    excess (unwalked text) = excess text := by
  obtain ⟨first, others, rfl, hpieces⟩ := exists_pieces text
  rw [unwalked]
  rw [hpieces.plainPieces_eq] at h ⊢
  have hothers : excess (others.flatMap besideStretch) =
      excess (others.flatMap (mediaWord ++ ·)) := by
    have hword : excess mediaWord = 0 := rfl
    clear hpieces
    induction others with
    | nil => rfl
    | cons piece others ih =>
      obtain ⟨hpiece, hothers⟩ := List.forall_mem_cons.1 h
      rw [List.flatMap_cons, List.flatMap_cons, excess_append, excess_append, excess_append, hword,
        ih hothers, excess_eq_stretch_add_beside piece, hpiece]
      omega
  rw [excess_append, hothers, joinPieces, excess_append]

/-- There is something to say about a stylesheet: a comment is not closed, or behind some `@media`
no braces enclose anything, or those that do are uneven. -/
def Faulty (css : Text) : Prop :=
  (stripComments id (unifyLineEnds css)).unclosed?.isSome ∨
    ∃ piece ∈ (plainPieces (withoutComments (unifyLineEnds css))).tail,
      mediaStretch piece = [] ∨ excess (mediaStretch piece) ≠ 0

/-- A stylesheet gives a notice exactly if it is faulty. -/
lemma sheetNotices_ne_nil_iff {css : Text} :
    sheetNotices (unifyLineEnds css) ≠ [] ↔ Faulty css := by
  rw [Faulty, ← not_iff_not, not_not, sheetNotices, List.append_eq_nil_iff, List.flatMap_eq_nil_iff]
  simp only [mediaNotices_eq_nil_iff]
  push Not
  rw [ite_eq_right_iff]
  simp

/-- What is said about a stylesheet is a warning. -/
lemma level_of_mem_sheetNotices (text : Text) :
    ∀ notice ∈ sheetNotices text, notice.level = .warning := by
  have hmedia (piece : Text) : ∀ notice ∈ mediaNotices piece, notice.level = .warning := by
    rw [mediaNotices]
    split
    · exact List.forall_mem_singleton.2 rfl
    · split
      · exact List.forall_mem_singleton.2 rfl
      · split
        · exact List.forall_mem_nil _
        · exact List.forall_mem_singleton.2 rfl
  rw [sheetNotices, List.forall_mem_append]
  constructor
  · split
    · exact List.forall_mem_singleton.2 rfl
    · exact List.forall_mem_nil _
  · intro notice h
    obtain ⟨piece, -, h⟩ := List.mem_flatMap.1 h
    exact hmedia piece notice h

end Css

open Css

/-- Unless a run is quiet, a stylesheet leaves warnings exactly if a comment is not closed or the
braces behind an `@media` are missing or uneven from the first opening one through the last closing
one. So a stylesheet with uneven braces leaves warnings unless its braces are just as uneven in what
no walk goes over. -/
theorem Session.addSheet_warns (session : Session) (name : String) (css : Text)
    (hquiet : session.settings.quiet = false) :
    ∃ warnings, (session.addSheet name css).log = session.log ++ warnings ∧
      (∀ event ∈ warnings, event.notice.level = .warning) ∧
      (warnings ≠ [] ↔ Faulty css) ∧
      (excess (withoutComments (unifyLineEnds css)) ≠
        excess (unwalked (withoutComments (unifyLineEnds css))) → warnings ≠ []) := by
  have hnotices : (Reading.ofSource ⟨name, css⟩).warnings.map (·.notice) =
      sheetNotices (unifyLineEnds css) := Reading.notices_ofSource ⟨name, css⟩
  have hfaulty : (Reading.ofSource ⟨name, css⟩).warnings ≠ [] ↔ Faulty css := by
    rw [← sheetNotices_ne_nil_iff, ← hnotices, Ne, Ne, List.map_eq_nil_iff]
  refine ⟨(Reading.ofSource ⟨name, css⟩).warnings, ?_, fun event hevent => ?_, hfaulty, ?_⟩
  · rw [log_addSheet_append, hquiet]
    rfl
  · apply level_of_mem_sheetNotices (unifyLineEnds css)
    rw [← hnotices]
    exact List.mem_map_of_mem hevent
  · intro huneven
    rw [hfaulty]
    by_contra hnone
    rw [Faulty] at hnone
    push Not at hnone
    exact huneven (excess_unwalked fun piece hpiece => (hnone.2 piece hpiece).2).symm

/-- A block that is not closed leaves a warning. -/
theorem Session.addSheet_warns_open_block :
    ((Session.start {}).addSheet "a.css" "@media x\x7ba\x7bb\x7d".toList).log ≠ [] := by
  obtain ⟨warnings, hlog, -, -, huneven⟩ :=
    Session.addSheet_warns (.start {}) "a.css" "@media x\x7ba\x7bb\x7d".toList rfl
  rw [hlog]
  exact huneven (by decide +kernel)

/-- Uneven braces of rules at top level, in front of a media rule, in a query and behind a media
rule leave no warning. -/
theorem Session.addSheet_silent :
    (Session.start {}).settings.quiet = false ∧
      ∀ css ∈ ["a\x7bb\x7d c\x7bd", "a\x7db\x7bc\x7d", "a\x7b @media x\x7ba\x7bb\x7d\x7d",
          "@media \x7dx\x7ba\x7bb\x7d\x7d", "@media x\x7ba\x7bb\x7d\x7d c\x7bd"],
        (withoutComments (unifyLineEnds css.toList)).count '{' ≠
            (withoutComments (unifyLineEnds css.toList)).count '}' ∧
          ((Session.start {}).addSheet "a.css" css.toList).log = [] := by
  decide +kernel

end CssPrune
