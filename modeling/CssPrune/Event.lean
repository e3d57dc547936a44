import CssPrune.Source

/-!
# Events

What a run has to say about a stylesheet: warnings about text that fits no rule and was passed
over, and notes on removed rules. Each event points at a span. `Event.report?` is the form in
which the command line prints it.
-/

namespace CssPrune

/-- How much an event matters. -/
inductive Level where
  | note
  | warning
  deriving DecidableEq, Repr

/-- What an event says. -/
inductive Notice where
  /-- A comment is not closed. -/
  | unclosedComment
  /-- No block follows an `@media`. -/
  | missingOpeningBrace
  /-- The block that follows an `@media` is not closed. -/
  | missingClosingBrace
  /-- Text behind the last block of a media rule was passed over. -/
  | unbalancedBraces
  /-- A rule was removed. -/
  | removed (selector : Text)
  deriving DecidableEq, Repr

namespace Notice

/-- Only the removal of a rule is no warning. -/
def level : Notice → Level
  | removed _ => .note
  | _ => .warning

/-- The wording of a notice. -/
def message : Notice → String
  | unclosedComment => "Unterminated comment, the rest of the file is not treated as one."
  | missingOpeningBrace => "Expected \"\x7b\" after @media."
  | missingClosingBrace => "Expected \"\x7d\"."
  | unbalancedBraces => "Unbalanced braces after @media, this text was ignored."
  | removed selector => "Removing unused selector \"" ++ String.ofList selector ++ "\"."

end Notice

/-- A notice and the span that it is about. -/
structure Event where
  notice : Notice
  span : Span
  deriving DecidableEq, Repr

namespace Event

/-- A place as it is printed: the file, and the line and column counted from one. -/
def placeText (file : String) (position : Position) : String :=
  file ++ ":" ++ toString (position.line + 1) ++ ":" ++ toString (position.column + 1)

/-- An event as lines of text. A warning quotes the line at which its span starts. -/
def report? (event : Event) : Option String := do
  let position ← event.span.source.position? event.span.start
  let place := placeText event.span.source.name position
  match event.notice.level with
  | .note => return place ++ ": " ++ event.notice.message ++ "\n"
  | .warning =>
    let line ← event.span.source.line? position.line
    return "warning: " ++ event.notice.message ++ "\n  --> " ++ place ++ "\n   | "
      ++ String.ofList (Text.trimEnd line) ++ "\n"

end Event

end CssPrune
