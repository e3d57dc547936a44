import CssPrune.Css.Reading
import Mathlib.Data.List.TakeDrop
import Mathlib.Tactic.Lemma

/-!
# Reading without places

The texts that a stylesheet is read into depend on its characters alone. `Css.sheetContents` reads
plain text; `Reading.contents_ofSource` and `Reading.notices_ofSource` show that a reading of a
source says the same once its places are forgotten. Every function on placed characters commutes
with forgetting the places, step by step along its own recursion.
-/

namespace CssPrune

/-- What a rule says, without the place at which it stands. -/
structure Content where
  scope : Scope
  selector : Text
  declarations : Text
  deriving DecidableEq, Repr

/-- Forgets the place of a rule. -/
def Entry.content (entry : Entry) : Content :=
  ⟨entry.scope, entry.selector, entry.declarations⟩

namespace Css

/-- Makes line ends uniform: a carriage return in front of a line feed is dropped, and any other
one and a form feed become a line feed. -/
def unifyLineEnds : Text → Text
  | [] => []
  | c :: rest =>
    if c = '\r' ∧ rest.head? = some '\n' then unifyLineEnds rest
    else if c = '\r' ∨ c = '\x0c' then '\n' :: unifyLineEnds rest
    else c :: unifyLineEnds rest

/-- The rules of a plain text that stands in one scope. -/
def ruleContents (scope : Scope) (text : Text) : List Content :=
  (rawRules id text).map fun rule =>
    ⟨scope, Text.collapse rule.selector, Text.collapse rule.declarations⟩

/-- The rules of the blocks behind a media query. -/
def blockContents (query : Text) (blocks : List Text) : List Content :=
  ((mediaBody? id blocks).map (ruleContents (.media query))).getD []
    ++ (trailingBlocks id blocks).flatMap (ruleContents .topLevel)

/-- What stands between an `@media` and the first opening brace, and what begins with that brace. -/
def mediaParts (piece : Text) : Text × Text :=
  cutBefore id '{' (Text.trim piece)

/-- The blocks of what follows an `@media`, and the rest. -/
def mediaBlocks (piece : Text) : Blocks Char :=
  blocksOf id (throughLast id '}' (mediaParts piece).2)

/-- The rules of what follows an `@media`. -/
def mediaContents (piece : Text) : List Content :=
  blockContents (Text.collapse (mediaParts piece).1) (mediaBlocks piece).blocks

/-- The warnings about what follows an `@media`. -/
def mediaNotices (piece : Text) : List Notice :=
  if (mediaParts piece).2.isEmpty then [.missingOpeningBrace]
  else if (throughLast id '}' (mediaParts piece).2).isEmpty then [.missingClosingBrace]
  else if (mediaBlocks piece).leftover.isEmpty then [] else [.unbalancedBraces]

/-- The rules of the stretches of a stylesheet. -/
def piecesContents : List Text → List Content
  | [] => []
  | first :: pieces => ruleContents .topLevel (Text.trim first) ++ pieces.flatMap mediaContents

/-- The stretches of a text between its `@media`. -/
def plainPieces (text : Text) : List Text :=
  (mediaPieces id text).map (·.items)

/-- A text without its comments. -/
def withoutComments (text : Text) : Text :=
  (stripComments id text).kept

/-- The rules of a stylesheet without comments. -/
def sheetContents (text : Text) : List Content :=
  piecesContents (plainPieces text)

/-- The warnings about a stylesheet. -/
def sheetNotices (text : Text) : List Notice :=
  (if (stripComments id text).unclosed?.isSome then [.unclosedComment] else [])
    ++ (plainPieces (withoutComments text)).tail.flatMap mediaNotices

/-! ## Forgetting places -/

/-- A character that ends a line alone is placed as a line feed, and any other one as it is. -/
lemma lineEnd_eq (c : Char) :
    PlacedChar.lineEnd c = if c = '\r' ∨ c = '\x0c' then '\n' else c := by
  simp only [PlacedChar.lineEnd, Bool.or_eq_true, decide_eq_true_eq]

/-- A carriage return and the line feed behind it are one line end. -/
lemma unifyLineEnds_pair (rest : Text) :
    unifyLineEnds ('\r' :: '\n' :: rest) = '\n' :: unifyLineEnds rest := by
  simp [unifyLineEnds]

/-- A character that begins no pair becomes what is placed for it. -/
lemma unifyLineEnds_single {c : Char} {rest : Text} (h : ¬ (c = '\r' ∧ rest.head? = some '\n')) :
    unifyLineEnds (c :: rest) = PlacedChar.lineEnd c :: unifyLineEnds rest := by
  rw [unifyLineEnds, if_neg h, lineEnd_eq]
  split
  · rfl
  · rfl

/-- A text whose lines end in line feeds stays as it is. -/
lemma unifyLineEnds_eq_self {text : Text} (h : ∀ c ∈ text, c ≠ '\r' ∧ c ≠ '\x0c') :
    unifyLineEnds text = text := by
  induction text with
  | nil => rfl
  | cons c rest ih =>
    obtain ⟨hc, hrest⟩ := List.forall_mem_cons.1 h
    rw [unifyLineEnds, if_neg fun hpair => hc.1 hpair.1, if_neg (not_or.2 hc), ih hrest]

/-- The text of placed characters is that of those in front and the text with uniform line ends. -/
lemma text_placeFrom (offset : Nat) (done : List PlacedChar) (text : Text) :
    PlacedChar.text (PlacedChar.placeFrom offset done text) =
      PlacedChar.text done.reverse ++ unifyLineEnds text := by
  fun_induction PlacedChar.placeFrom offset done text with
  | case1 => simp [unifyLineEnds]
  | case2 offset done rest ih =>
    rw [ih, unifyLineEnds_pair]
    simp [PlacedChar.text]
  | case3 offset done c rest h ih =>
    have hpair : ¬ (c = '\r' ∧ rest.head? = some '\n') := by
      rintro ⟨hc, hhead⟩
      cases rest with
      | nil => simp at hhead
      | cons d tail =>
        obtain rfl : d = '\n' := by simpa using hhead
        exact h tail hc rfl
    rw [ih, unifyLineEnds_single hpair]
    simp [PlacedChar.text]

/-- The characters of a source are its text with uniform line ends. -/
lemma text_ofText (text : Text) :
    PlacedChar.text (PlacedChar.ofText text) = unifyLineEnds text := by
  rw [PlacedChar.ofText, text_placeFrom]
  rfl

section Items

variable {α : Type} (char : α → Char)

/-- Trimming commutes with forgetting places. -/
lemma map_trimWhere (p : Char → Bool) (items : List α) :
    (Text.trimWhere (fun a => p (char a)) items).map char = Text.trimWhere p (items.map char) := by
  simp [Text.trimWhere, List.dropWhile_map, ← List.map_reverse, Function.comp_def]

/-- The end of a comment commutes with forgetting places. -/
lemma map_afterComment? (items : List α) :
    (afterComment? char items).map (List.map char) = afterComment? id (items.map char) := by
  fun_induction afterComment? char items with
  | case1 a b rest h => simp_all [afterComment?]
  | case2 a b rest h ih => simp_all [afterComment?]
  | case3 items h =>
    match items with
    | [] => rfl
    | [a] => rfl
    | a :: b :: rest => exact (h a b rest rfl).elim

/-- The scan for comments commutes with forgetting places. -/
lemma map_stripFrom (kept items : List α) :
    (stripFrom char kept items).kept.map char =
        (stripFrom id (kept.map char) (items.map char)).kept ∧
      (stripFrom char kept items).unclosed?.isSome =
        (stripFrom id (kept.map char) (items.map char)).unclosed?.isSome := by
  refine stripFrom.induct char
    (motive := fun kept items => (stripFrom char kept items).kept.map char =
        (stripFrom id (kept.map char) (items.map char)).kept ∧
      (stripFrom char kept items).unclosed?.isSome =
        (stripFrom id (kept.map char) (items.map char)).unclosed?.isSome)
    ?_ ?_ ?_ ?_ kept items
  · -- a closed comment
    intro kept a b rest h behind hb ih
    have hb' : afterComment? id (rest.map char) = some (behind.map char) := by
      rw [← map_afterComment?, hb]
      rfl
    rw [stripFrom_closed kept h hb, List.map_cons, List.map_cons,
      stripFrom_closed (kept.map char) h hb']
    exact ih
  · -- a comment that is not closed
    intro kept a b rest h hb
    have hb' : afterComment? id (rest.map char) = none := by
      rw [← map_afterComment?, hb]
      rfl
    rw [stripFrom_unclosed kept h hb, List.map_cons, List.map_cons,
      stripFrom_unclosed (kept.map char) h hb']
    simp
  · intro kept a b rest h ih
    rw [stripFrom_cons kept h, List.map_cons, List.map_cons, stripFrom_cons (kept.map char) h]
    exact ih
  · -- too short for a mark
    intro kept items h
    cases items with
    | nil => simp
    | cons a items =>
      cases items with
      | nil => simp
      | cons b rest => exact (h a b rest rfl).elim

/-- What is kept without comments commutes with forgetting places. -/
lemma map_kept (items : List α) :
    (stripComments char items).kept.map char = (stripComments id (items.map char)).kept :=
  (map_stripFrom char [] items).1

/-- Whether a comment is unclosed does not depend on places. -/
lemma isSome_unclosed? (items : List α) :
    (stripComments char items).unclosed?.isSome =
      (stripComments id (items.map char)).unclosed?.isSome :=
  (map_stripFrom char [] items).2

/-- Dropping a literal commutes with forgetting places. -/
lemma map_dropLiteral? (literal : Text) (items : List α) :
    (Text.dropLiteral? char literal items).map (List.map char) =
      Text.dropLiteral? id literal (items.map char) := by
  fun_induction Text.dropLiteral? char literal items with
  | case1 => rfl
  | case2 => rfl
  | case3 literal a items ih => simp [Text.dropLiteral?, ih]
  | case4 c literal a items h => simp [Text.dropLiteral?, h]

/-- The cut at `@media` commutes with forgetting places, from any piece on. -/
lemma map_cutFrom (piece items : List α) :
    (cutFrom char piece items).map (fun piece => piece.items.map char) =
      (cutFrom id (piece.map char) (items.map char)).map (·.items) := by
  fun_induction cutFrom char piece items with
  | case1 piece => simp [cutFrom]
  | case2 piece a rest behind h ih =>
    have h' :
        Text.dropLiteral? id mediaWord (char a :: rest.map char) = some (behind.map char) := by
      rw [← List.map_cons, ← map_dropLiteral?, h]
      rfl
    rw [List.map_cons, List.map_cons, cutFrom]
    split
    · rename_i other ho
      rw [h'] at ho
      obtain rfl := Option.some.inj ho
      simp [ih]
    · rename_i ho
      rw [h'] at ho
      cases ho
  | case3 piece a rest h ih =>
    have h' : Text.dropLiteral? id mediaWord (char a :: rest.map char) = none := by
      rw [← List.map_cons, ← map_dropLiteral?, h]
      rfl
    rw [List.map_cons, cutFrom]
    split
    · rename_i other ho
      rw [h'] at ho
      cases ho
    · simp [ih]

/-- The cut at `@media` commutes with forgetting places. -/
lemma map_mediaPieces (items : List α) :
    (mediaPieces char items).map (fun piece => piece.items.map char) =
      plainPieces (items.map char) :=
  map_cutFrom char [] items

/-- The cut in front of a character commutes with forgetting places. -/
lemma map_cutBefore (c : Char) (items : List α) :
    (cutBefore char c items).map (List.map char) (List.map char) =
      cutBefore id c (items.map char) := by
  simp [cutBefore, List.span_eq_takeWhile_dropWhile, List.takeWhile_map, List.dropWhile_map,
    Function.comp_def]

/-- What goes through a character commutes with forgetting places. -/
lemma map_throughLast (c : Char) (items : List α) :
    (throughLast char c items).map char = throughLast id c (items.map char) := by
  simp [throughLast, ← List.map_reverse, List.dropWhile_map, Function.comp_def]

/-- The walk over the blocks commutes with forgetting places, from any state on. -/
lemma map_blocksFrom (depth : Int) (block : List α) (done : List (List α)) (items : List α) :
    blocksFrom id depth (block.map char) (done.map (List.map char)) (items.map char) =
      ⟨(blocksFrom char depth block done items).blocks.map (List.map char),
        (blocksFrom char depth block done items).leftover.map char⟩ := by
  induction items generalizing depth block done with
  | nil => simp [blocksFrom]
  | cons a rest ih =>
    simp only [blocksFrom, List.map_cons, id]
    split
    · exact ih _ (a :: block) done
    · split
      · split
        · have := ih 0 [] ((a :: block).reverse :: done)
          simpa using this
        · exact ih _ (a :: block) done
      · exact ih _ (a :: block) done

/-- The walk over the blocks commutes with forgetting places. -/
lemma map_blocksOf (items : List α) :
    blocksOf id (items.map char) =
      ⟨(blocksOf char items).blocks.map (List.map char), (blocksOf char items).leftover.map char⟩ :=
  map_blocksFrom char 0 [] [] items

/-- Whether items open with a brace does not depend on places. -/
lemma opensWithBrace_map (items : List α) :
    opensWithBrace id (items.map char) = opensWithBrace char items := by
  rw [opensWithBrace, List.find?_map, Option.any_map]
  rfl

/-- The body of a media query commutes with forgetting places. -/
lemma map_mediaBody? (blocks : List (List α)) :
    (mediaBody? char blocks).map (List.map char) = mediaBody? id (blocks.map (List.map char)) := by
  simp [mediaBody?, List.filter_map, opensWithBrace_map, Function.comp_def]

/-- The blocks that trail commute with forgetting places. -/
lemma map_trailingBlocks (blocks : List (List α)) :
    (trailingBlocks char blocks).map (List.map char) =
      trailingBlocks id (blocks.map (List.map char)) := by
  simp [trailingBlocks, List.filter_map, opensWithBrace_map, Function.comp_def]

/-- A rule with `char` applied to its items. -/
def RawRule.map (rule : RawRule α) : RawRule Char :=
  ⟨rule.selector.map char, rule.declarations.map char⟩

/-- A state with `char` applied to its items. -/
def RuleState.map : RuleState α → RuleState Char
  | outside run => outside (run.map char)
  | opening selector brace repeated => opening (selector.map char) (char brace) repeated
  | body selector declarations => body (selector.map char) (declarations.map char)

/-- A step of the scan for rules commutes with forgetting places. -/
lemma map_step (state : RuleState α) (a : α) :
    (state.map char).step id (char a) =
      ((state.step char a).1.map char, (state.step char a).2.map (RawRule.map char)) := by
  cases state with
  | outside run =>
    cases run with
    | nil => simp only [RuleState.map, List.map_nil, RuleState.step, id]; split <;> rfl
    | cons b run =>
      simp only [RuleState.map, List.map_cons, RuleState.step, id]
      split
      · simp
      · split <;> rfl
  | opening selector brace repeated =>
    simp only [RuleState.map, RuleState.step, id]
    split
    · rfl
    · split
      · cases repeated <;> rfl
      · rfl
  | body selector declarations =>
    simp only [RuleState.map, RuleState.step, id]
    split
    · simp [RawRule.map]
    · rfl

/-- The scan for rules commutes with forgetting places, from any state on. -/
lemma map_rules (state : RuleState α) (items : List α) :
    (state.rules char items).map (RawRule.map char) =
      (state.map char).rules id (items.map char) := by
  induction items generalizing state with
  | nil => rfl
  | cons a rest ih =>
    rw [RuleState.rules, List.map_cons, RuleState.rules, map_step]
    rcases state.step char a with ⟨next, _ | rule⟩
    · exact ih next
    · simp [ih]

/-- The scan for rules commutes with forgetting places. -/
lemma map_rawRules (items : List α) :
    (rawRules char items).map (RawRule.map char) = rawRules id (items.map char) :=
  map_rules char (.outside []) items

end Items

end Css

namespace Reading

open Css

/-- The rules of a reading without their places. -/
def contents (reading : Reading) : List Content :=
  reading.entries.map Entry.content

/-- The warnings of a reading without their places. -/
def notices (reading : Reading) : List Notice :=
  reading.warnings.map (·.notice)

/-- The contents of two readings stand one behind the other. -/
@[simp]
lemma contents_append (first second : Reading) :
    (first ++ second).contents = first.contents ++ second.contents := by
  simp [contents]

/-- The notices of two readings stand one behind the other. -/
@[simp]
lemma notices_append (first second : Reading) :
    (first ++ second).notices = first.notices ++ second.notices := by
  simp [notices]

/-- The contents of joined readings stand in their order. -/
lemma contents_join (readings : List Reading) :
    (join readings).contents = readings.flatMap (·.contents) := by
  rw [contents, entries_join, List.map_flatMap]
  rfl

/-- The notices of joined readings stand in their order. -/
lemma notices_join (readings : List Reading) :
    (join readings).notices = readings.flatMap (·.notices) := by
  rw [notices, warnings_join, List.map_flatMap]
  rfl

/-- The rules of placed characters say what those of their text say. -/
lemma contents_ofRules (source : Source) (scope : Scope) (text : List PlacedChar) :
    (ofRules source scope text).contents = ruleContents scope (text.map PlacedChar.char) := by
  rw [ruleContents, ← map_rawRules]
  simp [contents, ofRules, entryOf, Entry.content, RawRule.map, PlacedChar.collapse,
    PlacedChar.text]

/-- The rules of a text give no notice. -/
@[simp]
lemma notices_ofRules (source : Source) (scope : Scope) (text : List PlacedChar) :
    (ofRules source scope text).notices = [] := rfl

/-- The blocks behind a media query say what those of their text say. -/
lemma contents_ofBlocks (source : Source) (query : Text) (stretch : Blocks PlacedChar) :
    (ofBlocks source query stretch).contents =
      blockContents query (stretch.blocks.map (List.map PlacedChar.char)) := by
  have hleft : (if stretch.leftover.isEmpty then empty
      else warn source .unbalancedBraces stretch.leftover).contents = [] := by
    split <;> rfl
  have hbody : (((mediaBody? PlacedChar.char stretch.blocks).map
        (ofRules source (.media query))).getD empty).contents =
      ((mediaBody? id (stretch.blocks.map (List.map PlacedChar.char))).map
        (ruleContents (.media query))).getD [] := by
    rw [← map_mediaBody?]
    cases mediaBody? PlacedChar.char stretch.blocks with
    | none => rfl
    | some body => exact contents_ofRules source (.media query) body
  rw [ofBlocks, contents_append, contents_append, hleft, hbody, contents_join, blockContents,
    ← map_trailingBlocks]
  simp [List.flatMap_map, contents_ofRules]

/-- The blocks behind a media query give a notice exactly if something is left over. -/
lemma notices_ofBlocks (source : Source) (query : Text) (stretch : Blocks PlacedChar) :
    (ofBlocks source query stretch).notices =
      if stretch.leftover.isEmpty then [] else [.unbalancedBraces] := by
  have hbody : (((mediaBody? PlacedChar.char stretch.blocks).map
      (ofRules source (.media query))).getD empty).notices = [] := by
    cases mediaBody? PlacedChar.char stretch.blocks <;> rfl
  have htrailing : (join ((trailingBlocks PlacedChar.char stretch.blocks).map
      (ofRules source .topLevel))).notices = [] := by
    rw [notices_join, List.flatMap_map]
    simp
  rw [ofBlocks, notices_append, notices_append, hbody, htrailing, List.append_nil, List.append_nil]
  split <;> rfl

section Media

variable (source : Source) (last? : Option PlacedChar) (piece : MediaPiece PlacedChar)

/-- The two parts of what follows an `@media` commute with forgetting places. -/
lemma map_mediaParts :
    (cutBefore PlacedChar.char '{' (Text.trimWhere PlacedChar.isBlank piece.items)).map
        (List.map PlacedChar.char) (List.map PlacedChar.char) =
      mediaParts (piece.items.map PlacedChar.char) := by
  rw [map_cutBefore, mediaParts, Text.trim, ← map_trimWhere]
  rfl

/-- What follows an `@media` says what its text says. -/
lemma contents_ofMedia :
    (ofMedia source last? piece).contents = mediaContents (piece.items.map PlacedChar.char) := by
  have hparts := map_mediaParts piece
  rw [ofMedia, mediaContents, mediaBlocks, ← hparts]
  generalize cutBefore PlacedChar.char '{' (Text.trimWhere PlacedChar.isBlank piece.items) = parts
  obtain ⟨query, block⟩ := parts
  simp only [Prod.map_fst, Prod.map_snd, ← map_throughLast, map_blocksOf]
  split
  · rename_i hblock
    obtain rfl := List.isEmpty_iff.1 hblock
    rfl
  · split
    · rename_i hstretch
      rw [List.isEmpty_iff.1 hstretch]
      rfl
    · exact contents_ofBlocks source _ _

/-- What follows an `@media` gives the notices of its text. -/
lemma notices_ofMedia :
    (ofMedia source last? piece).notices = mediaNotices (piece.items.map PlacedChar.char) := by
  have hparts := map_mediaParts piece
  rw [ofMedia, mediaNotices, mediaBlocks, ← hparts]
  generalize cutBefore PlacedChar.char '{' (Text.trimWhere PlacedChar.isBlank piece.items) = parts
  obtain ⟨query, block⟩ := parts
  simp only [Prod.map_snd, ← map_throughLast, map_blocksOf, List.isEmpty_map]
  split
  · rfl
  · split
    · rfl
    · exact notices_ofBlocks source _ _

end Media

/-- The stretches of a stylesheet say what their texts say. -/
lemma contents_ofPieces (source : Source) (last? : Option PlacedChar)
    (pieces : List (MediaPiece PlacedChar)) :
    (ofPieces source last? pieces).contents =
      piecesContents (pieces.map fun piece => piece.items.map PlacedChar.char) := by
  cases pieces with
  | nil => rfl
  | cons first pieces =>
    have hfirst : (Text.trimWhere PlacedChar.isBlank first.items).map PlacedChar.char =
        Text.trim (first.items.map PlacedChar.char) := map_trimWhere _ Text.isBlank first.items
    rw [ofPieces, contents_append, contents_ofRules, contents_join, List.map_cons, piecesContents,
      hfirst]
    simp [List.flatMap_map, contents_ofMedia]

/-- The stretches of a stylesheet give the notices of their texts. -/
lemma notices_ofPieces (source : Source) (last? : Option PlacedChar)
    (pieces : List (MediaPiece PlacedChar)) :
    (ofPieces source last? pieces).notices =
      (pieces.map fun piece => piece.items.map PlacedChar.char).tail.flatMap mediaNotices := by
  cases pieces with
  | nil => rfl
  | cons first pieces =>
    rw [ofPieces, notices_append, notices_ofRules, notices_join]
    simp [List.flatMap_map, notices_ofMedia]

/-- The rules of a reading are those of the plain text without comments. -/
theorem contents_ofSource (source : Source) :
    (ofSource source).contents = sheetContents (withoutComments (unifyLineEnds source.text)) := by
  have hchars : (PlacedChar.ofText source.text).map PlacedChar.char = unifyLineEnds source.text :=
    text_ofText source.text
  have hunclosed (sheet : Uncommented PlacedChar) :
      ((sheet.unclosed?.map (ofUnclosed source)).getD empty).contents = [] := by
    cases sheet.unclosed? <;> rfl
  rw [ofSource, contents_append, hunclosed, contents_ofPieces, List.nil_append, map_mediaPieces,
    map_kept, hchars]
  rfl

/-- The warnings of a reading are those about the plain text. -/
theorem notices_ofSource (source : Source) :
    (ofSource source).notices = sheetNotices (unifyLineEnds source.text) := by
  have hchars : (PlacedChar.ofText source.text).map PlacedChar.char = unifyLineEnds source.text :=
    text_ofText source.text
  have hunclosed (sheet : Uncommented PlacedChar) :
      ((sheet.unclosed?.map (ofUnclosed source)).getD empty).notices =
        if sheet.unclosed?.isSome then [.unclosedComment] else [] := by
    cases sheet.unclosed? <;> rfl
  rw [ofSource, notices_append, hunclosed, notices_ofPieces, map_mediaPieces, map_kept,
    isSome_unclosed? PlacedChar.char, hchars]
  rfl

end Reading

end CssPrune
