import CssPrune.Css.Comments
import CssPrune.Css.MediaText
import CssPrune.Css.PlacedChar
import CssPrune.Css.RuleText
import CssPrune.Css.Stylesheet
import CssPrune.Event

/-!
# Reading a stylesheet

What a source says: its rules in the order in which they are inserted, and warnings about the text
that was passed over. Reading never fails.

The rules before the first `@media` come first. Each `@media` gives the rules of its own block,
then those that follow the block.
-/

namespace CssPrune

/-- The rules and the warnings of a stretch of text, each in order. -/
structure Reading where
  entries : List Entry := []
  warnings : List Event := []

namespace Reading

open Css

/-- Nothing read. -/
def empty : Reading := {}

/-- A reading and what follows it. -/
def append (first second : Reading) : Reading :=
  ⟨first.entries ++ second.entries, first.warnings ++ second.warnings⟩

instance : Append Reading := ⟨append⟩

/-- The entries of two readings stand one behind the other. -/
@[simp]
theorem entries_append (first second : Reading) :
    (first ++ second).entries = first.entries ++ second.entries := rfl

/-- The warnings of two readings stand one behind the other. -/
@[simp]
theorem warnings_append (first second : Reading) :
    (first ++ second).warnings = first.warnings ++ second.warnings := rfl

/-- Readings one after the other. -/
def join (readings : List Reading) : Reading :=
  readings.foldr append empty

/-- The entries of joined readings stand in their order. -/
theorem entries_join (readings : List Reading) :
    (join readings).entries = readings.flatMap (·.entries) := by
  induction readings with
  | nil => rfl
  | cons reading readings ih =>
    rw [List.flatMap_cons, ← ih]
    rfl

/-- The warnings of joined readings stand in their order. -/
theorem warnings_join (readings : List Reading) :
    (join readings).warnings = readings.flatMap (·.warnings) := by
  induction readings with
  | nil => rfl
  | cons reading readings ih =>
    rw [List.flatMap_cons, ← ih]
    rfl

/-- One warning about placed characters. -/
def warn (source : Source) (notice : Notice) (about : List PlacedChar) : Reading :=
  { warnings := [⟨notice, .covering source about⟩] }

/-- The entry of a rule in a scope. -/
def entryOf (source : Source) (scope : Scope) (rule : RawRule PlacedChar) : Entry where
  scope := scope
  selector := PlacedChar.collapse rule.selector
  declarations := PlacedChar.collapse rule.declarations
  span := .covering source rule.selector

/-- The rules of a text that stands in one scope. -/
def ofRules (source : Source) (scope : Scope) (text : List PlacedChar) : Reading :=
  { entries := (rawRules PlacedChar.char text).map (entryOf source scope) }

/-- The rules of the blocks behind a media query: those of its body, then those outside of it. -/
def ofBlocks (source : Source) (query : Text) (stretch : Blocks PlacedChar) : Reading :=
  let leftover :=
    if stretch.leftover.isEmpty then empty else warn source .unbalancedBraces stretch.leftover
  let body := (mediaBody? PlacedChar.char stretch.blocks).map (ofRules source (.media query))
  let trailing := (trailingBlocks PlacedChar.char stretch.blocks).map (ofRules source .topLevel)
  leftover ++ body.getD empty ++ join trailing

/-- What follows an `@media`. A warning about a stretch without characters that are not blank
points at the character behind the stretch, or else at the last one of the stylesheet. -/
def ofMedia (source : Source) (last? : Option PlacedChar) (piece : MediaPiece PlacedChar) :
    Reading :=
  let text := Text.trimWhere PlacedChar.isBlank piece.items
  let (query, block) := cutBefore PlacedChar.char '{' text
  if block.isEmpty then
    warn source .missingOpeningBrace
      (if text.isEmpty then (piece.next? <|> last?).toList else text)
  else
    let stretch := throughLast PlacedChar.char '}' block
    if stretch.isEmpty then warn source .missingClosingBrace block
    else ofBlocks source (PlacedChar.collapse query) (blocksOf PlacedChar.char stretch)

/-- The warning about a comment that is not closed, which points at its first two characters. -/
def ofUnclosed (source : Source) (slash : PlacedChar) : Reading :=
  { warnings := [⟨.unclosedComment, ⟨source, slash.offset, slash.offset + 2⟩⟩] }

/-- Reads the stretches of a stylesheet without comments. -/
def ofPieces (source : Source) (last? : Option PlacedChar) :
    List (MediaPiece PlacedChar) → Reading
  | [] => empty
  | first :: pieces =>
    ofRules source .topLevel (Text.trimWhere PlacedChar.isBlank first.items)
      ++ join (pieces.map (ofMedia source last?))

/-- Reads a stylesheet. -/
def ofSource (source : Source) : Reading :=
  let sheet := stripComments PlacedChar.char (PlacedChar.ofText source.text)
  (sheet.unclosed?.map (ofUnclosed source)).getD empty
    ++ ofPieces source sheet.kept.getLast? (mediaPieces PlacedChar.char sheet.kept)

end Reading

end CssPrune
